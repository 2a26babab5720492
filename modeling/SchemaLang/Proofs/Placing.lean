import SchemaLang.Proofs.FirstOccurrences
import SchemaLang.Schema

/-!
# Placing properties

A property that is declared again takes the place of the property of its name, and a
new one goes to the end.  `place` and `placeAll` say this of plain lists of
properties; the indexes of an object follow them.

Two properties are *apart* when they share neither name nor code, and they *agree*
when they share both or neither.

* `mem_place`: with distinct names, placing leaves exactly the properties of other
  names.
* `map_name_placeAll`: the names stand where they first occur.
* `mem_placeAll`: with distinct names, what is placed replaces what has its name.
* `mem_placeAll_nil_iff`: of the properties of one name, the last one is left.
* `placeAll_of_apart`: what is apart goes to the end, in order.
-/

namespace SchemaLang

/-! ### Pairs of properties -/

namespace Property

def Apart (p q : Property) : Prop := p.name ≠ q.name ∧ p.code ≠ q.code

/-- The two properties share both name and code, or neither. -/
def Agrees (p q : Property) : Prop := p.name = q.name ↔ p.code = q.code

theorem Apart.agrees {p q : Property} (h : Apart p q) : Agrees p q :=
  ⟨fun e => absurd e h.1, fun e => absurd e h.2⟩

theorem Agrees.symm {p q : Property} (h : Agrees p q) : Agrees q p :=
  ⟨fun e => (h.1 e.symm).symm, fun e => (h.2 e.symm).symm⟩

/-! ### One property -/

/-- The list with `p` in the place of the property of its name, or at the end. -/
def place (p : Property) : List Property → List Property
  | [] => [p]
  | q :: r => if q.name = p.name then p :: r else q :: place p r

theorem place_of_new {p : Property} : ∀ {l : List Property}, (∀ q ∈ l, q.name ≠ p.name) →
    place p l = l ++ [p]
  | [], _ => rfl
  | q :: r, h => by
    rw [place, if_neg (h q List.mem_cons_self),
      place_of_new fun x hx => h x (List.mem_cons_of_mem q hx), List.cons_append]

theorem mem_place {p r : Property} : ∀ {l : List Property}, (l.map name).Nodup →
    (r ∈ place p l ↔ r = p ∨ r ∈ l ∧ r.name ≠ p.name)
  | [], _ => by simp [place]
  | q :: l, h => by
    rw [List.map_cons, List.nodup_cons] at h
    rw [place]
    by_cases hq : q.name = p.name
    · rw [if_pos hq, List.mem_cons, List.mem_cons]
      have hl : ∀ x ∈ l, x.name ≠ p.name := fun x hx e =>
        h.1 (List.mem_map.2 ⟨x, hx, e.trans hq.symm⟩)
      constructor
      · rintro (rfl | hr)
        · exact Or.inl rfl
        · exact Or.inr ⟨Or.inr hr, hl r hr⟩
      · rintro (rfl | ⟨rfl | hr, hn⟩)
        · exact Or.inl rfl
        · exact absurd hq hn
        · exact Or.inr hr
    · rw [if_neg hq, List.mem_cons, mem_place h.2, List.mem_cons]
      constructor
      · rintro (rfl | rfl | ⟨hr, hn⟩)
        · exact Or.inr ⟨Or.inl rfl, hq⟩
        · exact Or.inl rfl
        · exact Or.inr ⟨Or.inr hr, hn⟩
      · rintro (rfl | ⟨rfl | hr, hn⟩)
        · exact Or.inr (Or.inl rfl)
        · exact Or.inl rfl
        · exact Or.inr (Or.inr ⟨hr, hn⟩)

theorem map_name_place {p : Property} : ∀ l : List Property,
    (place p l).map name =
      if p.name ∈ l.map name then l.map name else l.map name ++ [p.name]
  | [] => by simp [place]
  | q :: l => by
    rw [place]
    by_cases hq : q.name = p.name
    · simp [hq]
    · rw [if_neg hq, List.map_cons, map_name_place l]
      simp only [List.map_cons, List.mem_cons, Ne.symm hq, false_or]
      split
      · rfl
      · rfl

/-- On keyed entries, `place` is what an ordered map does. -/
theorem put_entries (p : Property) : ∀ l : List Property,
    Entries.put p.name p (l.map fun q => (q.name, q)) = (place p l).map fun q => (q.name, q)
  | [] => rfl
  | q :: r => by
    rw [List.map_cons, Entries.put, place]
    by_cases hq : q.name = p.name
    · rw [if_pos hq, if_pos hq, List.map_cons]
    · rw [if_neg hq, if_neg hq, List.map_cons, put_entries p r]

/-! ### Several properties -/

variable {l m ps : List Property} {p q : Property}

def placeAll (ps l : List Property) : List Property := ps.foldl (fun l p => place p l) l

@[simp] theorem placeAll_nil : placeAll [] l = l := rfl

@[simp] theorem placeAll_cons : placeAll (p :: ps) l = placeAll ps (place p l) := rfl

theorem placeAll_append : placeAll (ps ++ m) l = placeAll m (placeAll ps l) :=
  List.foldl_append

/-- **The names stand where they first occur.** -/
theorem map_name_placeAll :
    (placeAll ps []).map name = (OrderedSet.ofList (ps.map name)).toList := by
  induction ps using List.reverseRecOn with
  | nil => rfl
  | append_singleton ps p ih =>
    rw [placeAll_append, placeAll_cons, placeAll_nil, map_name_place, ih, List.map_append,
      List.map_singleton, OrderedSet.toList_ofList_concat]
    simp only [← OrderedSet.mem_def, OrderedSet.mem_ofList]

theorem nodup_map_name_placeAll : ((placeAll ps []).map name).Nodup := by
  rw [map_name_placeAll]
  exact (OrderedSet.ofList (ps.map name)).nodup

theorem nodup_map_name_place (h : (l.map name).Nodup) : ((place p l).map name).Nodup := by
  rw [map_name_place]
  split
  · exact h
  · next hp => exact List.nodup_append.2 ⟨h, List.pairwise_singleton _ p.name, by simpa using hp⟩

/-- **With distinct names, what is placed replaces what has its name.** -/
theorem mem_placeAll (hps : (ps.map name).Nodup) (hl : (l.map name).Nodup) :
    q ∈ placeAll ps l ↔ q ∈ ps ∨ (q ∈ l ∧ q.name ∉ ps.map name) := by
  induction ps generalizing l with
  | nil => simp
  | cons p ps ih =>
    rw [List.map_cons, List.nodup_cons] at hps
    rw [placeAll_cons, ih hps.2 (nodup_map_name_place hl), mem_place hl]
    simp only [List.map_cons, List.mem_cons, not_or]
    constructor
    · rintro (hq | ⟨rfl | ⟨hq, hne⟩, hnot⟩)
      · exact Or.inl (Or.inr hq)
      · exact Or.inl (Or.inl rfl)
      · exact Or.inr ⟨hq, hne, hnot⟩
    · rintro ((rfl | hq) | ⟨hq, hne, hnot⟩)
      · exact Or.inr ⟨Or.inl rfl, hps.1⟩
      · exact Or.inl hq
      · exact Or.inr ⟨Or.inr ⟨hq, hne⟩, hnot⟩

/-- **Of the properties of one name, the last one is left.** -/
theorem mem_placeAll_nil_iff :
    q ∈ placeAll ps [] ↔ (ps.filter fun p => p.name = q.name).getLast? = some q := by
  induction ps using List.reverseRecOn with
  | nil => simp
  | append_singleton ps p ih =>
    rw [placeAll_append, placeAll_cons, placeAll_nil, mem_place nodup_map_name_placeAll, ih,
      List.filter_append]
    by_cases hp : p.name = q.name
    · rw [List.filter_cons_of_pos (by simpa using hp), List.filter_nil, List.getLast?_concat,
        Option.some.injEq]
      constructor
      · rintro (rfl | ⟨_, hne⟩)
        · rfl
        · exact absurd hp.symm hne
      · exact fun e => Or.inl e.symm
    · rw [List.filter_cons_of_neg (by simpa using hp), List.filter_nil, List.append_nil]
      constructor
      · rintro (rfl | ⟨hq, _⟩)
        · exact absurd rfl hp
        · exact hq
      · exact fun hq => Or.inr ⟨hq, Ne.symm hp⟩

theorem mem_of_mem_place : ∀ {l : List Property}, q ∈ place p l → q = p ∨ q ∈ l
  | [], h => Or.inl (List.mem_singleton.1 h)
  | a :: r, h => by
    rw [place] at h
    split at h
    · exact (List.mem_cons.1 h).imp id (List.mem_cons_of_mem a)
    · rcases List.mem_cons.1 h with rfl | h
      · exact Or.inr List.mem_cons_self
      · exact (mem_of_mem_place h).imp id (List.mem_cons_of_mem a)

theorem mem_of_mem_placeAll (h : q ∈ placeAll ps l) : q ∈ ps ∨ q ∈ l := by
  induction ps generalizing l with
  | nil => exact Or.inr h
  | cons p ps ih =>
    rcases ih h with h | h
    · exact Or.inl (List.mem_cons_of_mem p h)
    · rcases mem_of_mem_place h with rfl | h
      · exact Or.inl List.mem_cons_self
      · exact Or.inr h

theorem exists_mem_placeAll_of_mem (h : q ∈ ps) : ∃ r ∈ placeAll ps [], r.name = q.name := by
  rw [← List.mem_map, map_name_placeAll, ← OrderedSet.mem_def, OrderedSet.mem_ofList]
  exact List.mem_map_of_mem h

theorem placeAll_of_apart (hl : ∀ q ∈ l, ∀ p ∈ ps, q.Apart p) (hps : ps.Pairwise Apart) :
    placeAll ps l = l ++ ps := by
  induction ps generalizing l with
  | nil => rw [placeAll_nil, List.append_nil]
  | cons p ps ih =>
    obtain ⟨hp, hps⟩ := List.pairwise_cons.1 hps
    rw [placeAll_cons, place_of_new fun q hq => (hl q hq p List.mem_cons_self).1,
      List.append_cons l p ps]
    refine ih (fun q hq r hr => ?_) hps
    rcases List.mem_append.1 hq with hq | hq
    · exact hl q hq r (List.mem_cons_of_mem p hr)
    · exact List.mem_singleton.1 hq ▸ hp r hr

end Property
end SchemaLang
