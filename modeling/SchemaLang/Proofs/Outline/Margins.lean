import SchemaLang.Proofs.Outline.Nesting

/-!
# Which margins are good

A text has an outline exactly when none of its significant lines is *mixed* or *badly dedented*,
and otherwise the first line that is gets reported.  Both notions are about the text alone.  A line
is mixed when there are a tab and a space in front of it.  It is badly dedented when it stands no
further in than the line before it, but not at the level of an earlier line below which every line
since then has stood.

The reader knows less of the past than this.  It keeps the levels that are open, and what it asks
is whether the outermost level that the line closes is its own.  Two facts join the two.

* `mem_opened_take_iff`: a level is open when some earlier line stands at it, and no line since then
  further out.
* `fits_iff`: a line fits when it stands at an open level, or further in than all of them.
-/

namespace SchemaLang.Outline

variable {source : String} {lines : List (Nat × String)} {levels : List Nat} {v w i : Nat}

/-! ### Lines that are at fault -/

def indentation (line : Nat × String) : Nat := (Text.margin line.2.toList).length

def Mixed (line : Nat × String) : Prop :=
  '\t' ∈ Text.margin line.2.toList ∧ ' ' ∈ Text.margin line.2.toList

/-- Line `i` stands no further in than the line before it, and there is no earlier line with its
indentation such that all lines between the two stand at least as far in. -/
def BadlyDedented (lines : List (Nat × String)) (i : Fin lines.length) : Prop :=
  (∃ h : Fin lines.length, h.val + 1 = i.val ∧ indentation lines[i] ≤ indentation lines[h]) ∧
    ¬∃ j < i, indentation lines[j] = indentation lines[i] ∧
      ∀ k, j < k → k < i → indentation lines[i] ≤ indentation lines[k]

instance : DecidablePred Mixed := fun line =>
  inferInstanceAs (Decidable ('\t' ∈ Text.margin line.2.toList ∧ ' ' ∈ Text.margin line.2.toList))

instance (lines : List (Nat × String)) : DecidablePred (BadlyDedented lines) := fun i =>
  inferInstanceAs (Decidable
    ((∃ h : Fin lines.length, h.val + 1 = i.val ∧ indentation lines[i] ≤ indentation lines[h]) ∧
      ¬∃ j < i, indentation lines[j] = indentation lines[i] ∧
        ∀ k, j < k → k < i → indentation lines[i] ≤ indentation lines[k]))

def AtFault (lines : List (Nat × String)) (i : Fin lines.length) : Prop :=
  Mixed lines[i] ∨ BadlyDedented lines i

instance (lines : List (Nat × String)) : DecidablePred (AtFault lines) := fun i =>
  inferInstanceAs (Decidable (Mixed lines[i] ∨ BadlyDedented lines i))

def fault (line : Nat × String) : Error :=
  if Mixed line then .mixedMargin line.1 else .badDedent line.1

/-! ### Open levels -/

/-- The levels that are open after some lines, innermost first. -/
def opened (lines : List (Nat × String)) : List Nat :=
  lines.foldl (fun levels line => reopen (indentation line) levels) []

theorem opened_concat (lines : List (Nat × String)) (line : Nat × String) :
    opened (lines ++ [line]) = reopen (indentation line) (opened lines) := by
  rw [opened, List.foldl_append]
  rfl

theorem pairwise_opened (lines : List (Nat × String)) :
    (opened lines).Pairwise fun v u => u < v := by
  induction lines using List.reverseRecOn with
  | nil => exact .nil
  | append_singleton lines line ih =>
    rw [opened_concat]
    exact pairwise_reopen ih _

theorem mem_reopen_iff (hlevels : levels.Pairwise fun v u => u < v) :
    v ∈ reopen w levels ↔ v = w ∨ v ∈ levels ∧ v < w := by
  have hcut := List.takeWhile_append_dropWhile (p := fun u => decide (w ≤ u)) (l := levels)
  rw [reopen, List.mem_cons]
  apply or_congr_right
  constructor
  · intro hv
    exact ⟨(List.dropWhile_sublist _).subset hv, lt_of_mem_dropWhile hlevels v hv⟩
  · rintro ⟨hv, hlt⟩
    rw [← hcut, List.mem_append] at hv
    refine hv.resolve_left fun htaken => ?_
    have hle := List.mem_takeWhile_imp (p := fun u => decide (w ≤ u)) htaken
    simp at hle
    omega

/-- **A level is open before line `i`** when some line above stands at it, and none from there on
further out. -/
theorem mem_opened_take_iff (hi : i ≤ lines.length) :
    v ∈ opened (lines.take i) ↔
      ∃ j : Fin lines.length, j < i ∧ indentation lines[j] = v ∧
        ∀ k : Fin lines.length, j < k → k < i → v ≤ indentation lines[k] := by
  induction i with
  | zero => simp [opened]
  | succ i ih =>
    rw [List.take_succ_eq_append_getElem hi, opened_concat, mem_reopen_iff (pairwise_opened _),
      ih (by omega)]
    constructor
    · rintro (rfl | ⟨⟨j, hj, hv, hk⟩, hlt⟩)
      · refine ⟨⟨i, hi⟩, Nat.lt_succ_self i, rfl, fun k hjk hki => ?_⟩
        have hik : i < k := hjk
        omega
      · refine ⟨j, by omega, hv, fun k hjk hki => ?_⟩
        by_cases hki' : k < i
        · exact hk k hjk hki'
        · obtain rfl : k = ⟨i, hi⟩ := Fin.ext (show k.val = i by omega)
          exact Nat.le_of_lt hlt
    · rintro ⟨j, hj, hv, hk⟩
      by_cases hji : j < i
      · have hle := hk ⟨i, hi⟩ hji (Nat.lt_succ_self i)
        rcases Nat.lt_or_eq_of_le hle with hlt | heq
        · exact Or.inr ⟨⟨j, hji, hv, fun k hjk hki => hk k hjk (by omega)⟩, hlt⟩
        · exact Or.inl heq
      · obtain rfl : j = ⟨i, hi⟩ := Fin.ext (show j.val = i by omega)
        exact Or.inl hv.symm

/-- **A row fits** when it stands at an open level, or further in than all of them. -/
theorem fits_iff (hlevels : levels.Pairwise fun v u => u < v) :
    fits w levels = true ↔ w ∈ levels ∨ ∀ v ∈ levels, v < w := by
  refine ⟨mem_or_lt_of_fits hlevels, fun h => ?_⟩
  rw [fits]
  split
  · next v hv =>
    -- `v` is the outermost level that is closed
    obtain ⟨inner, hclosed⟩ := List.getLast?_eq_some_iff.1 hv
    have hcut := List.takeWhile_append_dropWhile (p := fun u => decide (w ≤ u)) (l := levels)
    have hwv : w ≤ v := by
      have hmem : v ∈ levels.takeWhile fun u => decide (w ≤ u) := List.mem_of_getLast? hv
      simpa using List.mem_takeWhile_imp (p := fun u => decide (w ≤ u)) hmem
    have hvmem : v ∈ levels := (List.takeWhile_sublist _).subset (List.mem_of_getLast? hv)
    rcases h with hw | hlt
    · have hlast : ∀ u ∈ inner, v < u := fun u hu => by
        have htaken := hlevels.sublist (List.takeWhile_sublist fun u => decide (w ≤ u))
        rw [hclosed, List.pairwise_append] at htaken
        exact htaken.2.2 u hu v List.mem_cons_self
      rw [← hcut, hclosed, List.mem_append, List.mem_append, List.mem_singleton] at hw
      rcases hw with (hw | rfl) | hw
      · have := hlast w hw
        omega
      · exact beq_self_eq_true w
      · exact absurd (lt_of_mem_dropWhile hlevels w hw) (Nat.lt_irrefl w)
    · have := hlt v hvmem
      omega
  · rfl

/-- **The reader's test is a matter of the lines above**: a line fits the open levels unless it is
badly dedented. -/
theorem fits_opened_iff (i : Fin lines.length) :
    fits (indentation lines[i]) (opened (lines.take i)) = true ↔ ¬BadlyDedented lines i := by
  rw [fits_iff (pairwise_opened _), mem_opened_take_iff i.isLt.le, BadlyDedented, not_and_or,
    not_not, or_comm]
  refine or_congr_left ⟨fun hall => ?_, fun hlast v hv => ?_⟩
  · rintro ⟨h, hi, hle⟩
    -- the level of the line before is open, so the line stands further in than that line
    have hopen : indentation lines[h] ∈ opened (lines.take i) :=
      (mem_opened_take_iff i.isLt.le).2 ⟨h, by omega, rfl, fun k hhk hki => by omega⟩
    have := hall _ hopen
    omega
  · obtain ⟨j, hj, rfl, hk⟩ := (mem_opened_take_iff i.isLt.le).1 hv
    obtain ⟨h, hi⟩ : ∃ h : Fin lines.length, h.val + 1 = i.val :=
      ⟨⟨i.val - 1, by omega⟩, show i.val - 1 + 1 = i.val by omega⟩
    have hlt : indentation lines[h] < indentation lines[i] :=
      Nat.not_le.1 fun hle => hlast ⟨h, hi, hle⟩
    -- the line of the open level is the line before, or that line stands within the level
    rcases Nat.lt_or_ge j h with hjh | hjh
    · have := hk h hjh (by omega)
      omega
    · obtain rfl : j = h := Fin.ext (by omega)
      exact hlt

/-! ### The first fault -/

def Row.ofLine (line : Nat × String) : Row := ⟨line.1, line.2.toList⟩

theorem rows_eq_map_ofLine (source : String) :
    rows source = (significantLines source).map Row.ofLine := by
  rw [rows, rowsFrom_eq, significantLines, List.map_map]
  refine List.map_congr_left fun x _ => ?_
  simp [Row.ofLine]

theorem Row.mixed_ofLine {line : Nat × String} : (Row.ofLine line).mixed = true ↔ Mixed line := by
  simp [Row.mixed, Row.margin, Row.ofLine, Mixed]

/-- **The reader reports a line that is at fault,** and goes on after any other line. -/
theorem checkMargins_drop (i : Fin lines.length) :
    checkMargins (opened (lines.take i)) ((lines.drop i).map Row.ofLine) =
      if AtFault lines i then .error (fault lines[i])
      else checkMargins (opened (lines.take (i + 1))) ((lines.drop (i + 1)).map Row.ofLine) := by
  have hopen : opened (lines.take (i + 1)) =
      reopen (indentation lines[i]) (opened (lines.take i)) := by
    rw [List.take_succ_eq_append_getElem i.isLt, opened_concat]
    rfl
  have hdrop : lines.drop i = lines[i] :: lines.drop (i + 1) := List.drop_eq_getElem_cons i.isLt
  rw [hdrop, List.map_cons, checkMargins, hopen]
  by_cases hmixed : Mixed lines[i]
  · have hfault : AtFault lines i := Or.inl hmixed
    rw [if_pos (Row.mixed_ofLine.2 hmixed), if_pos hfault, fault, if_pos hmixed]
    rfl
  · rw [if_neg (mt Row.mixed_ofLine.1 hmixed)]
    by_cases hbad : BadlyDedented lines i
    · have hfault : AtFault lines i := Or.inr hbad
      rw [if_pos hfault, fault, if_neg hmixed]
      exact if_neg (mt (fits_opened_iff i).1 (not_not.2 hbad))
    · have hgood : ¬AtFault lines i := not_or.2 ⟨hmixed, hbad⟩
      rw [if_neg hgood]
      exact if_pos ((fits_opened_iff i).2 hbad)

/-- From line `i` on, either no line is at fault and the margins are good, or the first line that is
at fault is reported. -/
theorem checkMargins_drop_cases (lines : List (Nat × String)) (i : Nat) :
    (checkMargins (opened (lines.take i)) ((lines.drop i).map Row.ofLine) = .ok () ∧
      ∀ j : Fin lines.length, i ≤ j → ¬AtFault lines j) ∨
    ∃ j : Fin lines.length, i ≤ j ∧ AtFault lines j ∧
      (∀ k : Fin lines.length, i ≤ k → k < j → ¬AtFault lines k) ∧
      checkMargins (opened (lines.take i)) ((lines.drop i).map Row.ofLine) =
        .error (fault lines[j]) := by
  by_cases hi : i < lines.length
  · have hstep := @checkMargins_drop lines ⟨i, hi⟩
    by_cases hfault : AtFault lines ⟨i, hi⟩
    · rw [if_pos hfault] at hstep
      refine Or.inr ⟨⟨i, hi⟩, Nat.le_refl i, hfault, fun k hik hki => ?_, hstep⟩
      exact absurd hik (Nat.not_le.2 hki)
    · rw [if_neg hfault] at hstep
      have hfrom : ∀ k : Fin lines.length, i ≤ k → k = ⟨i, hi⟩ ∨ i + 1 ≤ k := fun k hik =>
        (Nat.eq_or_lt_of_le hik).imp (fun h => Fin.ext h.symm) id
      rw [hstep]
      rcases checkMargins_drop_cases lines (i + 1) with ⟨hok, hnone⟩ | ⟨j, hij, hj, hfirst, he⟩
      · refine Or.inl ⟨hok, fun k hik => ?_⟩
        rcases hfrom k hik with rfl | hik
        · exact hfault
        · exact hnone k hik
      · refine Or.inr ⟨j, Nat.le_of_succ_le hij, hj, fun k hik hkj => ?_, he⟩
        rcases hfrom k hik with rfl | hik
        · exact hfault
        · exact hfirst k hik hkj
  · rw [List.drop_eq_nil_of_le (Nat.not_lt.1 hi)]
    exact Or.inl ⟨rfl, fun j hj => absurd j.isLt (by omega)⟩
termination_by lines.length - i

/-- **A text has an outline exactly when none of its significant lines is at fault.**  Otherwise the
first line that is at fault is reported with its number: as mixed when it is, and as badly dedented
when it is not. -/
theorem read_reports_first_fault (source : String) :
    ((∃ roots, read source = .ok roots) ↔ ∀ i, ¬AtFault (significantLines source) i) ∧
    ∀ e, read source = .error e ↔ ∃ i, AtFault (significantLines source) i ∧
      (∀ j < i, ¬AtFault (significantLines source) j) ∧
      e = if Mixed (significantLines source)[i] then .mixedMargin (significantLines source)[i].1
        else .badDedent (significantLines source)[i].1 := by
  have hcases := checkMargins_drop_cases (significantLines source) 0
  rw [List.drop_zero, ← rows_eq_map_ofLine] at hcases
  rw [read]
  rcases hcases with ⟨hok, hnone⟩ | ⟨i, _, hi, hfirst, he⟩
  · have hok : checkMargins [] (rows source) = .ok () := hok
    rw [hok]
    refine ⟨⟨fun _ j => hnone j (Nat.zero_le j), fun _ => ⟨_, rfl⟩⟩, fun e => ?_⟩
    constructor
    · intro h
      cases h
    · rintro ⟨i, hi, _⟩
      exact absurd hi (hnone i (Nat.zero_le i))
  · have he : checkMargins [] (rows source) = .error (fault (significantLines source)[i]) := he
    rw [he]
    refine ⟨⟨?_, fun h => absurd hi (h i)⟩, fun e => ⟨fun h => ?_, ?_⟩⟩
    · rintro ⟨roots, h⟩
      cases h
    · exact ⟨i, hi, fun j => hfirst j (Nat.zero_le j), (Except.error.inj h).symm⟩
    · rintro ⟨j, hj, hjfirst, rfl⟩
      -- there is only one first line that is at fault
      have hij : i = j := by
        rcases Nat.lt_trichotomy i j with hlt | heq | hlt
        · exact absurd hi (hjfirst i hlt)
        · exact Fin.ext heq
        · exact absurd hj (hfirst j (Nat.zero_le j) hlt)
      rw [hij]
      rfl

example : read "a 1\n\t\tb 2\n\tc 3\n d 4" = .error (.badDedent 3) := by rfl

end SchemaLang.Outline
