import SchemaLang.Proofs.Outline.Forest
import SchemaLang.Proofs.Outline.Layout
import Mathlib.Data.List.Nodup

/-!
# How lines nest

The outline of a text has the significant lines of the text, in their order, and a line stands
below the nearest line above it that is narrower; where there is none it is a root.  For this the
margins need not be good (`nested_forest`).  That they are makes all children of one node, and all
roots, equally wide (`level_foldr_adopt`): a row that closes levels stands at one of the open
levels again, so that next to the first child, which opened a level, only rows of that very level
can become children of the same node.

Both are proved from the bottom row upwards, as the forest is built.  `read_isOutlineOf` has them
together.
-/

namespace SchemaLang.Outline

variable {source : String} {row : Row} {trees : List (Nat × Node)}
  {levels : List Nat} {roots : List Node} {c m p : Node} {w number : Nat}

/-! ### Significant lines -/

/-- The lines of a text that are not passed over, with their numbers and without their trailing
blanks. -/
def significantLines (source : String) : List (Nat × String) :=
  (((Text.lines source.toList).zipIdx 1).filter fun x => ¬IsPassedOver x.1).map
    fun x => (x.2, String.ofList (Text.trimEnd x.1))

theorem row?_of_not_isPassedOver {line : List Char} (h : ¬IsPassedOver line) :
    row? line number = some ⟨number, Text.trimEnd line⟩ := by
  rw [row?_eq, if_neg (mt isSkipped_trim_iff.1 h)]

theorem rowsFrom_eq : ∀ (lines : List (List Char)) (number : Nat), rowsFrom number lines =
    ((lines.zipIdx number).filter fun x => ¬IsPassedOver x.1).map
      fun x => ⟨x.2, Text.trimEnd x.1⟩
  | [], _ => rfl
  | line :: lines, number => by
    rw [rowsFrom, List.zipIdx_cons]
    by_cases h : IsPassedOver line
    · rw [row?_of_isPassedOver h, List.filter_cons_of_neg (by simpa using h)]
      exact rowsFrom_eq lines (number + 1)
    · rw [row?_of_not_isPassedOver h, List.filter_cons_of_pos (by simpa using h), List.map_cons]
      exact congrArg _ (rowsFrom_eq lines (number + 1))

theorem pairwise_number_rows (source : String) :
    (rows source).Pairwise fun r s => r.number < s.number := by
  have hsublist : ((rows source).map Row.number).Sublist
      (List.range' 1 (Text.lines source.toList).length) := by
    rw [rows, rowsFrom_eq, List.map_map, ← List.zipIdx_map_snd 1 (Text.lines source.toList)]
    exact List.filter_sublist.map Prod.snd
  exact List.pairwise_map.1 ((List.pairwise_lt_range' 1).sublist hsublist)

/-- **The nodes of an outline, from top to bottom, are the significant lines.** -/
theorem map_line_flatten_forest (source : String) :
    (flatten (forest (rows source))).map (fun n => (n.lineNumber, n.line)) =
      significantLines source := by
  have hnode : (fun n : Node => (n.lineNumber, n.line)) =
      (fun r : Row => (r.number, String.ofList r.line)) ∘ Node.row :=
    funext fun n => by simp [Node.row, String.ofList_toList]
  rw [hnode, ← List.map_map, map_row_flatten_forest, rows, rowsFrom_eq, List.map_map]
  rfl

/-! ### Parents -/

/-- Of the nodes above `c`, `p` is the nearest one that is narrower. -/
structure IsNearestNarrower (nodes : List Node) (p c : Node) : Prop where
  above : p.lineNumber < c.lineNumber
  narrower : p.row.width < c.row.width
  nearest : ∀ m ∈ nodes, p.lineNumber < m.lineNumber → m.lineNumber < c.lineNumber →
    c.row.width ≤ m.row.width

/-- No node above a root is narrower, and of the nodes above a child the nearest narrower one is
its parent. -/
structure Nested (roots : List Node) : Prop where
  root : ∀ c ∈ roots, ∀ m ∈ flatten roots, m.lineNumber < c.lineNumber → c.row.width ≤ m.row.width
  child : ∀ p ∈ flatten roots, ∀ c ∈ p.children, IsNearestNarrower (flatten roots) p c

theorem eq_false_of_mem_dropWhile {α : Type} {q : α → Bool} {l : List α}
    (h : l.Pairwise fun a b => q b = true → q a = true) : ∀ a ∈ l.dropWhile q, q a = false := by
  induction l with
  | nil => intro a ha; cases ha
  | cons b l ih =>
    obtain ⟨hb, hl⟩ := List.pairwise_cons.1 h
    rw [List.dropWhile_cons]
    split
    · exact ih hl
    · next hq =>
      intro a ha
      rcases List.mem_cons.1 ha with rfl | ha
      · exact Bool.eq_false_iff.2 hq
      · exact Bool.eq_false_iff.2 (mt (hb a ha) hq)

theorem lt_of_mem_takeWhile {t : Nat × Node}
    (h : t ∈ trees.takeWhile fun t => decide (w < t.1)) : w < t.1 :=
  of_decide_eq_true (List.mem_takeWhile_imp (p := fun t : Nat × Node => decide (w < t.1)) h)

/-- The trees of some rows: each goes with its width, and none is wider than one above it. -/
structure Standing (trees : List (Nat × Node)) : Prop where
  width : ∀ t ∈ trees, t.2.row.width = t.1
  narrowing : trees.Pairwise fun t u => u.1 ≤ t.1

namespace Standing

theorem le_of_mem_dropWhile (h : Standing trees) :
    ∀ t ∈ trees.dropWhile (fun t => decide (w < t.1)), t.1 ≤ w := fun t ht => by
  have hmono : trees.Pairwise fun t u => decide (w < u.1) = true → decide (w < t.1) = true :=
    h.narrowing.imp fun htu hu =>
      decide_eq_true (Nat.lt_of_lt_of_le (of_decide_eq_true hu) htu)
  exact Nat.not_lt.1 (of_decide_eq_false (eq_false_of_mem_dropWhile hmono t ht))

theorem adopt (h : Standing trees) (row : Row) : Standing (adopt row trees) := by
  constructor
  · intro t ht
    rcases List.mem_cons.1 ht with rfl | ht
    · exact congrArg Row.width (row_node row _)
    · exact h.width t ((List.dropWhile_sublist _).subset ht)
  · exact List.pairwise_cons.2
      ⟨h.le_of_mem_dropWhile, h.narrowing.sublist (List.dropWhile_sublist _)⟩

theorem foldr_adopt : ∀ rows : List Row, Standing (rows.foldr Outline.adopt [])
  | [] => ⟨by simp, .nil⟩
  | row :: rows => (foldr_adopt rows).adopt row

end Standing

theorem IsNearestNarrower.cons {nodes : List Node} (h : IsNearestNarrower nodes p c)
    (hm : m.lineNumber < p.lineNumber) : IsNearestNarrower (m :: nodes) p c := by
  refine ⟨h.above, h.narrower, fun k hk hpk hkc => ?_⟩
  rcases List.mem_cons.1 hk with rfl | hk
  · exact absurd hm (Nat.lt_asymm hpk)
  · exact h.nearest k hk hpk hkc

/-- **A row on top of nested trees** adopts what it is the nearest narrower node of. -/
theorem Nested.adopt (h : Nested (trees.map Prod.snd)) (hs : Standing trees)
    (hnumber : ∀ m ∈ flatten (trees.map Prod.snd), row.number < m.lineNumber) :
    Nested ((adopt row trees).map Prod.snd) := by
  let taken := (trees.takeWhile fun t => decide (row.width < t.1)).map Prod.snd
  have hnode : (row.node taken).row = row := row_node row taken
  have hflatten : flatten ((Outline.adopt row trees).map Prod.snd) =
      row.node taken :: flatten (trees.map Prod.snd) := flatten_adopt row trees
  have hroots : ∀ {t : Nat × Node}, t ∈ trees → t.2 ∈ trees.map Prod.snd := fun ht =>
    List.mem_map_of_mem ht
  constructor
  · intro c hc m hm hmc
    rw [hflatten] at hm
    rcases List.mem_cons.1 hc with rfl | hc
    · -- nothing stands above the new row
      rcases List.mem_cons.1 hm with rfl | hm
      · exact absurd hmc (Nat.lt_irrefl _)
      · exact absurd hmc (Nat.lt_asymm (hnumber m hm))
    · obtain ⟨t, ht, rfl⟩ := List.mem_map.1 hc
      have htrees : t ∈ trees := (List.dropWhile_sublist _).subset ht
      rcases List.mem_cons.1 hm with rfl | hm
      · rw [hnode, hs.width t htrees]
        exact hs.le_of_mem_dropWhile t ht
      · exact h.root t.2 (hroots htrees) m hm hmc
  · intro p hp c hc
    rw [hflatten] at hp ⊢
    rcases List.mem_cons.1 hp with rfl | hp
    · obtain ⟨t, ht, rfl⟩ := List.mem_map.1 hc
      have htrees : t ∈ trees := (List.takeWhile_sublist _).subset ht
      refine ⟨hnumber _ (mem_flatten_of_mem (hroots htrees)), ?_, fun m hm hpm hmc => ?_⟩
      · rw [hnode, hs.width t htrees]
        exact lt_of_mem_takeWhile ht
      · rcases List.mem_cons.1 hm with rfl | hm
        · exact absurd hpm (Nat.lt_irrefl _)
        · -- between the two are only older nodes, among which the child was a root
          exact h.root t.2 (hroots htrees) m hm hmc
    · exact (h.child p hp c hc).cons (hnumber p hp)

/-- **The forest of any rows is nested.** -/
theorem nested_forest : ∀ {rows : List Row}, (rows.Pairwise fun r s => r.number < s.number) →
    Nested (forest rows)
  | [], _ => ⟨fun _ h => (by cases h), fun _ h => (by cases h)⟩
  | row :: rows, h => by
    obtain ⟨hrow, hrows⟩ := List.pairwise_cons.1 h
    refine (nested_forest hrows).adopt (Standing.foldr_adopt rows) fun m hm => ?_
    refine hrow m.row ?_
    rw [← map_row_flatten_forest rows]
    exact List.mem_map_of_mem hm

theorem exists_parent_of_mem_flatten : ∀ {roots : List Node}, c ∈ flatten roots →
    c ∈ roots ∨ ∃ p ∈ flatten roots, c ∈ p.children
  | [], h => by cases h
  | ⟨words, children, line, number⟩ :: rest, h => by
    rw [flatten_cons, List.mem_cons, List.mem_append] at h
    rw [flatten_cons]
    rcases h with rfl | h | h
    · exact Or.inl List.mem_cons_self
    · rcases exists_parent_of_mem_flatten h with hc | ⟨p, hp, hc⟩
      · exact Or.inr ⟨_, List.mem_cons_self, hc⟩
      · exact Or.inr ⟨p, List.mem_cons_of_mem _ (List.mem_append_left _ hp), hc⟩
    · rcases exists_parent_of_mem_flatten h with hc | ⟨p, hp, hc⟩
      · exact Or.inl (List.mem_cons_of_mem _ hc)
      · exact Or.inr ⟨p, List.mem_cons_of_mem _ (List.mem_append_right _ hp), hc⟩

/-- Two nodes on lines of their own cannot both be the nearest narrower node. -/
theorem IsNearestNarrower.eq {nodes : List Node} {q : Node} (h : IsNearestNarrower nodes p c)
    (h' : IsNearestNarrower nodes q c) (hp : p ∈ nodes) (hq : q ∈ nodes)
    (hnumber : nodes.Pairwise fun m n => m.lineNumber < n.lineNumber) : p = q := by
  have hle : ∀ {p q : Node}, IsNearestNarrower nodes p c → IsNearestNarrower nodes q c →
      q ∈ nodes → q.lineNumber ≤ p.lineNumber := fun {p q} h h' hq =>
    Nat.not_lt.1 fun hlt => Nat.not_lt.2 (h.nearest q hq hlt h'.above) h'.narrower
  have hinj : ∀ m ∈ nodes, ∀ n ∈ nodes, m.lineNumber = n.lineNumber → m = n :=
    List.inj_on_of_nodup_map (List.pairwise_map.2 (hnumber.imp Nat.ne_of_lt))
  exact hinj p hp q hq (Nat.le_antisymm (hle h' h hp) (hle h h' hq))

/-- **Where a node stands is a matter of the widths above it**, when the nodes are on lines of
their own. -/
theorem Nested.mem_iff (h : Nested roots)
    (hnumber : (flatten roots).Pairwise fun m n => m.lineNumber < n.lineNumber) :
    (∀ c ∈ flatten roots, c ∈ roots ↔
      ∀ m ∈ flatten roots, m.lineNumber < c.lineNumber → c.row.width ≤ m.row.width) ∧
    ∀ p ∈ flatten roots, ∀ c ∈ flatten roots, c ∈ p.children ↔
      IsNearestNarrower (flatten roots) p c := by
  refine ⟨fun c hc => ⟨h.root c, fun hwide => ?_⟩, fun p hp c hc => ⟨h.child p hp c, fun hpc => ?_⟩⟩
  · rcases exists_parent_of_mem_flatten hc with hroot | ⟨p, hp, hchild⟩
    · exact hroot
    · have hpc := h.child p hp c hchild
      exact absurd hpc.narrower (Nat.not_lt.2 (hwide p hp hpc.above))
  · rcases exists_parent_of_mem_flatten hc with hroot | ⟨q, hq, hchild⟩
    · exact absurd hpc.narrower (Nat.not_lt.2 (h.root c hroot p hp hpc.above))
    · rwa [hpc.eq (h.child q hq c hchild) hp hq hnumber]

/-! ### Levels -/

theorem checkMargins_cons_eq_ok_iff {rows : List Row} :
    checkMargins levels (row :: rows) = .ok () ↔ row.mixed = false ∧
      fits row.width levels = true ∧ checkMargins (reopen row.width levels) rows = .ok () := by
  rw [checkMargins]
  by_cases hmixed : row.mixed = true
  · simp [hmixed]
  · by_cases hfits : fits row.width levels = true
    · simp [hmixed, hfits]
    · simp [hmixed, hfits]

section Open

variable (hlevels : levels.Pairwise fun v u => u < v)

include hlevels

theorem lt_of_mem_dropWhile : ∀ v ∈ levels.dropWhile (fun v => decide (w ≤ v)), v < w := by
  intro v hv
  have hmono : levels.Pairwise fun v u => decide (w ≤ u) = true → decide (w ≤ v) = true :=
    hlevels.imp fun huv hu => decide_eq_true (Nat.le_of_lt (Nat.lt_of_le_of_lt
      (of_decide_eq_true hu) huv))
  exact Nat.not_le.1 (of_decide_eq_false (eq_false_of_mem_dropWhile hmono v hv))

theorem pairwise_reopen (w : Nat) : (reopen w levels).Pairwise fun v u => u < v :=
  List.pairwise_cons.2
    ⟨lt_of_mem_dropWhile hlevels, hlevels.sublist (List.dropWhile_sublist _)⟩

/-- A row that fits stands at an open level, or further in than all of them. -/
theorem mem_or_lt_of_fits (h : fits w levels = true) : w ∈ levels ∨ ∀ v ∈ levels, v < w := by
  rw [fits] at h
  split at h
  · next v hv =>
    have hmem := (List.takeWhile_sublist _).subset (List.mem_of_getLast? hv)
    exact Or.inl (beq_iff_eq.1 h ▸ hmem)
  · next hnone =>
    -- nothing is closed, so all levels are among those that are not closed
    rw [List.getLast?_eq_none_iff] at hnone
    have hall : levels.dropWhile (fun v => decide (w ≤ v)) = levels := by
      have hcut := List.takeWhile_append_dropWhile (p := fun v => decide (w ≤ v)) (l := levels)
      rwa [hnone, List.nil_append] at hcut
    exact Or.inr (hall ▸ lt_of_mem_dropWhile hlevels)

end Open

/-- **Where the margins are good, a tree stands at an open level**, or it is as wide as the first
row, which then stands further in than all levels. -/
theorem mem_levels_of_mem_foldr_adopt : ∀ {rows : List Row} {levels : List Nat},
    (levels.Pairwise fun v u => u < v) → checkMargins levels rows = .ok () →
      ∀ t ∈ rows.foldr adopt [], t.1 ∈ levels ∨
        (∀ v ∈ levels, v < t.1) ∧ rows.head?.map Row.width = some t.1
  | [], _, _, _ => fun t ht => by cases ht
  | row :: rows, levels, hlevels, h => by
    obtain ⟨_, hfits, hrows⟩ := checkMargins_cons_eq_ok_iff.1 h
    intro t ht
    rcases List.mem_cons.1 ht with rfl | ht
    · exact (mem_or_lt_of_fits hlevels hfits).imp id fun hlt => ⟨hlt, rfl⟩
    · have hle : t.1 ≤ row.width := (Standing.foldr_adopt rows).le_of_mem_dropWhile t ht
      rcases mem_levels_of_mem_foldr_adopt (pairwise_reopen hlevels row.width) hrows t
        ((List.dropWhile_sublist _).subset ht) with hmem | ⟨hlt, _⟩
      · rcases List.mem_cons.1 hmem with heq | hmem
        · rw [heq]
          exact (mem_or_lt_of_fits hlevels hfits).imp id fun hlt => ⟨hlt, rfl⟩
        · exact Or.inl ((List.dropWhile_sublist _).subset hmem)
      · exact absurd hle (Nat.not_le.2 (hlt row.width List.mem_cons_self))

theorem width_of_adopted {rows : List Row} (hlevels : levels.Pairwise fun v u => u < v)
    (h : checkMargins levels (row :: rows) = .ok ()) :
    ∀ t ∈ (rows.foldr adopt []).takeWhile (fun t => decide (row.width < t.1)),
      rows.head?.map Row.width = some t.1 := by
  intro t ht
  obtain ⟨_, _, hrows⟩ := checkMargins_cons_eq_ok_iff.1 h
  rcases mem_levels_of_mem_foldr_adopt (pairwise_reopen hlevels row.width) hrows t
    ((List.takeWhile_sublist _).subset ht) with hmem | ⟨_, hhead⟩
  · -- no level that is still open is further in than the row
    have hle : t.1 ≤ row.width := by
      rcases List.mem_cons.1 hmem with heq | hmem
      · exact Nat.le_of_eq heq
      · exact Nat.le_of_lt (lt_of_mem_dropWhile hlevels t.1 hmem)
    exact absurd (lt_of_mem_takeWhile ht) (Nat.not_lt.2 hle)
  · exact hhead

/-- **Where the margins are good, the children of one node are equally wide.** -/
theorem level_foldr_adopt : ∀ {rows : List Row} {levels : List Nat},
    (levels.Pairwise fun v u => u < v) → checkMargins levels rows = .ok () →
      ∀ n ∈ flatten ((rows.foldr adopt []).map Prod.snd), ∀ a ∈ n.children, ∀ b ∈ n.children,
        a.row.width = b.row.width
  | [], _, _, _ => fun n hn => by cases hn
  | row :: rows, levels, hlevels, h => by
    obtain ⟨_, _, hrows⟩ := checkMargins_cons_eq_ok_iff.1 h
    rw [List.foldr_cons, flatten_adopt]
    intro n hn a ha b hb
    rcases List.mem_cons.1 hn with rfl | hn
    · have hwidth : ∀ c ∈ (row.node (((rows.foldr adopt []).takeWhile fun t =>
          decide (row.width < t.1)).map Prod.snd)).children,
            rows.head?.map Row.width = some c.row.width := fun c hc => by
        obtain ⟨t, ht, rfl⟩ := List.mem_map.1 hc
        rw [(Standing.foldr_adopt rows).width t ((List.takeWhile_sublist _).subset ht)]
        exact width_of_adopted hlevels h t ht
      exact Option.some.inj ((hwidth a ha).symm.trans (hwidth b hb))
    · exact level_foldr_adopt (pairwise_reopen hlevels row.width) hrows n hn a ha b hb

/-! ### Outlines -/

/-- **The outline of a text.**  From top to bottom it has the significant lines with their words,
each below the nearest narrower line above it, and what stands below one line, or below none, is
equally wide. -/
structure IsOutlineOf (source : String) (roots : List Node) : Prop where
  lines : (flatten roots).map (fun n => (n.lineNumber, n.line)) = significantLines source
  words : ∀ n ∈ flatten roots, n.words = wordsOf n.line ∧ n.words ≠ []
  mem_roots_iff : ∀ c ∈ flatten roots, c ∈ roots ↔
    ∀ m ∈ flatten roots, m.lineNumber < c.lineNumber → c.row.width ≤ m.row.width
  mem_children_iff : ∀ p ∈ flatten roots, ∀ c ∈ flatten roots, c ∈ p.children ↔
    IsNearestNarrower (flatten roots) p c
  roots_level : ∀ a ∈ roots, ∀ b ∈ roots, a.row.width = b.row.width
  children_level : ∀ n ∈ flatten roots, ∀ a ∈ n.children, ∀ b ∈ n.children,
    a.row.width = b.row.width

theorem checkMargins_of_read (h : read source = .ok roots) :
    checkMargins [] (rows source) = .ok () := by
  rw [read] at h
  split at h
  · assumption
  · cases h

/-- **What is read of a text is its outline.** -/
theorem read_isOutlineOf (h : read source = .ok roots) : IsOutlineOf source roots := by
  have hroots := eq_forest_of_read h
  have hok := checkMargins_of_read h
  have hnumber : (flatten roots).Pairwise fun m n => m.lineNumber < n.lineNumber := by
    have hrows := pairwise_number_rows source
    rw [← map_row_flatten_forest (rows source), ← hroots, List.pairwise_map] at hrows
    exact hrows
  have hnested : Nested roots := hroots ▸ nested_forest (pairwise_number_rows source)
  obtain ⟨hmemroots, hmemchildren⟩ := hnested.mem_iff hnumber
  refine ⟨hroots ▸ map_line_flatten_forest source, fun n hn => ?_, hmemroots, hmemchildren, ?_, ?_⟩
  · exact ⟨words_eq_of_read h hn, (readable_of_read h hn).ne_nil⟩
  · have hwidth : ∀ a ∈ roots, (rows source).head?.map Row.width = some a.row.width :=
      fun a ha => by
        rw [hroots] at ha
        obtain ⟨t, ht, rfl⟩ := List.mem_map.1 ha
        rw [(Standing.foldr_adopt _).width t ht]
        rcases mem_levels_of_mem_foldr_adopt .nil hok t ht with hmem | ⟨_, hhead⟩
        · cases hmem
        · exact hhead
    exact fun a ha b hb => Option.some.inj ((hwidth a ha).symm.trans (hwidth b hb))
  · rw [hroots]
    exact level_foldr_adopt .nil hok

/-- Three levels under a margin of their own, with a comment, a blank line, and a dedent to a level
further out. -/
def indentedText : String :=
  "  // types\n  User 1\n    id int 1\n        extra thing\n\n    name string 2\n  Group 2\n"

theorem indentedText_outline : ∃ roots, read indentedText = .ok roots ∧
    roots.map (fun n => (n.words, n.children.map Node.words)) =
      [(["User", "1"], [["id", "int", "1"], ["name", "string", "2"]]), (["Group", "2"], [])] ∧
    IsOutlineOf indentedText roots := by
  have hok : ((read indentedText).toOption.map fun roots =>
      roots.map fun n => (n.words, n.children.map Node.words)) =
        some [(["User", "1"], [["id", "int", "1"], ["name", "string", "2"]]),
          (["Group", "2"], [])] := by decide +kernel
  cases h : read indentedText with
  | error e => rw [h] at hok; cases hok
  | ok roots =>
    rw [h] at hok
    exact ⟨roots, rfl, Option.some.inj hok, read_isOutlineOf h⟩

end SchemaLang.Outline
