import Mathlib
import SchemaLang.Proofs.Inheritance.Resolution

/-!
# Ways up the super types

A *way* is a row of objects, each of which names the next one among its super types; an object by
itself is a way, too.  Completing an object goes along all ways that begin there: it keeps no list
of the objects that it has seen, only a path, so an object is visited as often as there are ways to
it.

The visits can be counted in the log, because each visit warns of the super types that are not
declared.

* `Grounded.ncard_waysFrom`: ways are counted by their first step.
* `Grounded.count_log_extend`: to complete one object warns of another one as often as there are
  ways from the first to the second.
* `Declared.ncard_waysTo`: all ways to an object, sorted by where they begin.
* `Declared.count_log_resolve`: to complete all objects warns of each of them as often as there are
  ways to it.
-/

namespace SchemaLang

theorem ncard_exists_mem {ι α : Type} {S : ι → Set α} {l : List ι}
    (hl : l.Pairwise fun i j => Disjoint (S i) (S j)) (hS : ∀ i ∈ l, (S i).Finite) :
    {a | ∃ i ∈ l, a ∈ S i}.Finite ∧
      {a | ∃ i ∈ l, a ∈ S i}.ncard = (l.map fun i => (S i).ncard).sum := by
  induction l with
  | nil => simp
  | cons i l ih =>
    obtain ⟨hi, hl⟩ := List.pairwise_cons.1 hl
    obtain ⟨hfin, hcard⟩ := ih hl fun j hj => hS j (List.mem_cons_of_mem i hj)
    have hfirst := hS i List.mem_cons_self
    have hunion : {a | ∃ j ∈ i :: l, a ∈ S j} = S i ∪ {a | ∃ j ∈ l, a ∈ S j} := by
      ext a
      simp
    have hdisj : Disjoint (S i) {a | ∃ j ∈ l, a ∈ S j} := by
      rw [Set.disjoint_left]
      rintro a ha ⟨j, hj, haj⟩
      exact Set.disjoint_left.1 (hi j hj) ha haj
    rw [hunion]
    refine ⟨hfirst.union hfin, ?_⟩
    rw [Set.ncard_union_eq hdisj hfirst hfin, hcard, List.map_cons, List.sum_cons]

namespace Logged

variable {α β : Type} {f : β → α → Logged β}

/-- **How often a record is written** by a sequence, if each step writes it as often, wherever it
starts. -/
theorem count_log_foldlM {r : LogRecord} {g : α → Nat} : ∀ {l : List α} {b c : β},
    (∀ a ∈ l, ∀ b c, (f b a).result = .ok c → (f b a).log.count r = g a) →
      (l.foldlM f b).result = .ok c → (l.foldlM f b).log.count r = (l.map g).sum
  | [], _, _, _, _ => rfl
  | a :: l, b, c, hf, h => by
    obtain ⟨b', hb, h⟩ := result_foldlM_cons_eq_ok_iff.1 h
    rw [log_foldlM_cons_of_ok hb, List.count_append, hf a List.mem_cons_self b b' hb,
      count_log_foldlM (fun x hx => hf x (List.mem_cons_of_mem a hx)) h, List.map_cons,
      List.sum_cons]

end Logged

namespace Schema

variable {d s s' : Schema} {name n m t u : String} {path : List String}

def waysTo (d : Schema) (n : String) : Set (List String) :=
  {way | way.IsChain d.Super ∧ way.getLast? = some n}

def waysFrom (d : Schema) (m n : String) : Set (List String) :=
  {way | way.head? = some m ∧ way ∈ d.waysTo n}

def listed (d : Schema) (name : String) : List String :=
  match d.object? name with
  | some o => o.superTypes.toList
  | none => []

theorem supers_eq_filter_listed : d.supers name = (d.listed name).filter d.declares := by
  rw [supers, listed]
  cases d.object? name with
  | none => rfl
  | some o => rfl

theorem super_of_mem_listed (ht : t ∈ d.listed name) (hdecl : d.declares t = true) :
    d.Super name t := by
  rw [Super, supers_eq_filter_listed]
  exact List.mem_filter.2 ⟨ht, hdecl⟩

theorem nodup_listed : (d.listed name).Nodup := by
  rw [listed]
  cases d.object? name with
  | none => exact List.nodup_nil
  | some o => exact o.superTypes.nodup

/-! ### Counting ways -/

/-- **A way ends where it begins, or goes on from a super type.** -/
theorem waysFrom_eq : d.waysFrom name n =
    {way | way = [n] ∧ name = n} ∪
      {way | ∃ t ∈ d.supers name, way ∈ (List.cons name) '' d.waysFrom t n} := by
  ext way
  constructor
  · rintro ⟨hhead, hchain, hlast⟩
    cases way with
    | nil => cases hhead
    | cons a rest =>
      obtain rfl : a = name := Option.some.inj hhead
      cases rest with
      | nil =>
        obtain rfl : a = n := Option.some.inj hlast
        exact Or.inl ⟨rfl, rfl⟩
      | cons t rest =>
        obtain ⟨ht, hchain⟩ := List.isChain_cons_cons.1 hchain
        exact Or.inr ⟨t, ht, t :: rest, ⟨rfl, hchain, hlast⟩, rfl⟩
  · rintro (⟨rfl, rfl⟩ | ⟨t, ht, rest, ⟨hhead, hchain, hlast⟩, rfl⟩)
    · exact ⟨rfl, .singleton name, rfl⟩
    · cases rest with
      | nil => cases hhead
      | cons a rest =>
        obtain rfl : a = t := Option.some.inj hhead
        exact ⟨rfl, .cons_cons ht hchain, hlast⟩

theorem disjoint_waysFrom (h : m ≠ t) : Disjoint (d.waysFrom m n) (d.waysFrom t n) := by
  rw [Set.disjoint_left]
  rintro way ⟨hm, _⟩ ⟨ht, _⟩
  exact h (Option.some.inj (hm.symm.trans ht))

/-- **Ways are counted by their first step.** -/
theorem Grounded.ncard_waysFrom (h : d.Grounded name) : (d.waysFrom name n).Finite ∧
    (d.waysFrom name n).ncard =
      (if name = n then 1 else 0) + ((d.supers name).map fun t => (d.waysFrom t n).ncard).sum := by
  induction h with
  | intro name hacc ih =>
    have hrest := ncard_exists_mem (l := d.supers name)
      (S := fun t => (List.cons name) '' d.waysFrom t n) ?_ fun t ht => (ih t ht).1.image _
    · have hstay : {way : List String | way = [n] ∧ name = n}.Finite ∧
          {way : List String | way = [n] ∧ name = n}.ncard = if name = n then 1 else 0 := by
        by_cases hn : name = n
        · simp [hn]
        · simp [hn]
      have hdisj : Disjoint {way : List String | way = [n] ∧ name = n}
          {way | ∃ t ∈ d.supers name, way ∈ (List.cons name) '' d.waysFrom t n} := by
        rw [Set.disjoint_left]
        rintro way ⟨rfl, _⟩ ⟨t, _, rest, ⟨hhead, _⟩, hcons⟩
        obtain ⟨_, rfl⟩ := List.cons.inj hcons
        cases hhead
      rw [waysFrom_eq]
      refine ⟨hstay.1.union hrest.1, ?_⟩
      rw [Set.ncard_union_eq hdisj hstay.1 hrest.1, hstay.2, hrest.2]
      simp only [Set.ncard_image_of_injective _ (List.cons_injective (a := name))]
    · rw [supers_eq_filter_listed]
      refine (nodup_listed.filter _).imp fun hne => ?_
      exact (disjoint_waysFrom hne).image List.cons_injective.injOn (Set.subset_univ _)
        (Set.subset_univ _)

/-! ### Visits and warnings -/

def undeclared (d : Schema) (name : String) : List String :=
  (d.listed name).filter fun t => !d.declares t

/-- One super type that an object lists: it is passed over with a warning, or completed and
inherited from. -/
def visit (d : Schema) (path : List String) (name : String) (s : Schema) (t : String) :
    Logged Schema :=
  if d.declares t then d.extendFrom path name s t
  else do
    Logged.tell (.undeclaredSuperType t name)
    return s

theorem extend_eq_foldlM (h : name ∉ path) :
    d.extend path name s = (d.listed name).foldlM (d.visit path name) s := by
  rw [extend, dif_neg h, listed]
  split
  · next hn => rw [hn]; rfl
  · next o ho => rw [ho]; rfl

theorem level_of_mem_log_inherit {o st : ObjectType} :
    ∀ r ∈ (o.inherit st).log, r.level = .trace := by
  refine Logged.forall_mem_log_bind (Logged.forall_mem_log_foldlM (fun o e r hr => ?_) _ _)
    fun o r hr => by cases hr
  rw [ObjectType.inheritName] at hr
  split at hr
  · split at hr
    · cases hr
    · cases hr
  · obtain rfl := List.mem_singleton.1 hr
    rfl

theorem level_of_mem_log_inheritFrom : ∀ r ∈ (s.inheritFrom name t).log, r.level = .trace := by
  intro r hr
  rw [inheritFrom] at hr
  split at hr
  · cases hr
  · dsimp only at hr
    split at hr
    · cases hr
    · exact Logged.forall_mem_log_bind level_of_mem_log_inherit (fun o r hr => by cases hr) r hr

theorem count_log_inheritFrom :
    (s.inheritFrom name t).log.count (.undeclaredSuperType u n) = 0 := by
  refine List.count_eq_zero.2 fun hmem => ?_
  cases level_of_mem_log_inheritFrom _ hmem

theorem sum_map_ite {α : Type} {p : α → Bool} {f g : α → Nat} (l : List α) :
    (l.map fun a => if p a then f a else g a).sum =
      ((l.filter p).map f).sum + ((l.filter fun a => !p a).map g).sum := by
  induction l with
  | nil => rfl
  | cons a l ih =>
    cases hp : p a with
    | true => simp [hp, ih]; omega
    | false => simp [hp, ih]; omega

theorem count_warnings (l : List String) :
    (l.map fun t => [LogRecord.undeclaredSuperType t name].count (.undeclaredSuperType u n)).sum =
      if name = n then l.count u else 0 := by
  induction l with
  | nil => simp
  | cons t l ih =>
    rw [List.map_cons, List.sum_cons, ih, List.count_singleton, List.count_cons]
    by_cases hn : name = n
    · subst hn
      by_cases ht : t = u
      · simp [ht]; omega
      · simp [ht]
    · simp [hn]

/-- **To complete an object warns of another one** as often as there are ways to it. -/
theorem Grounded.count_log_extend (h : d.Grounded name)
    (hs : (d.extend path name s).result = .ok s') :
    (d.extend path name s).log.count (.undeclaredSuperType u n) =
      (d.undeclared n).count u * (d.waysFrom name n).ncard := by
  induction h generalizing path s s' with
  | intro name hacc ih =>
    have hg : d.Grounded name := .intro name hacc
    have hp : name ∉ path := fun hp => by
      rw [extend_of_mem hp] at hs
      cases hs
    have hvisit : ∀ t ∈ d.listed name, ∀ s s', (d.visit path name s t).result = .ok s' →
        (d.visit path name s t).log.count (.undeclaredSuperType u n) =
          if d.declares t then (d.undeclared n).count u * (d.waysFrom t n).ncard
          else [LogRecord.undeclaredSuperType t name].count (.undeclaredSuperType u n) := by
      intro t ht s s' h
      rw [visit] at h ⊢
      split
      · next hdecl =>
        rw [if_pos hdecl] at h
        obtain ⟨s₁, h1, _⟩ := Logged.result_bind_eq_ok_iff.1 h
        have ht : d.Super name t := super_of_mem_listed ht hdecl
        rw [extendFrom, Logged.log_bind_of_ok h1, List.count_append, count_log_inheritFrom,
          ih t ht h1, Nat.add_zero]
      · rfl
    rw [extend_eq_foldlM hp] at hs ⊢
    rw [Logged.count_log_foldlM hvisit hs, sum_map_ite, ← supers_eq_filter_listed, ← undeclared,
      count_warnings, hg.ncard_waysFrom.2, Nat.mul_add, List.sum_map_mul_left, Nat.add_comm]
    congr 1
    by_cases hn : name = n
    · simp [hn]
    · simp [hn]

/-! ### All ways to an object -/

theorem Declared.nodup_codes_values (hd : d.Declared) : d.codes.values.Nodup := by
  refine List.Nodup.map_on (fun x hx y hy e => ?_) (Entries.nodup_of_ascending d.codes.ascending)
  obtain ⟨o, ho, hxc⟩ := hd.code.1 (CodeMap.get?_eq_some_iff.2 hx)
  obtain ⟨o', ho', hyc⟩ := hd.code.1 (CodeMap.get?_eq_some_iff.2 hy)
  rw [e, ho'] at ho
  obtain rfl := Option.some.inj ho
  exact Prod.ext (hxc.symm.trans hyc) e

/-- **The ways to an object**, sorted by where they begin. -/
theorem Declared.ncard_waysTo (hd : d.Declared) (hacyclic : d.Acyclic)
    (hn : d.declares n = true) : (d.waysTo n).Finite ∧
      (d.waysTo n).ncard = (d.codes.values.map fun m => (d.waysFrom m n).ncard).sum := by
  have hsplit : d.waysTo n = {way | ∃ m ∈ d.codes.values, way ∈ d.waysFrom m n} := by
    ext way
    refine ⟨fun hway => ?_, fun ⟨_, _, _, hway⟩ => hway⟩
    obtain ⟨hchain, hlast⟩ := hway
    cases way with
    | nil => cases hlast
    | cons m rest =>
      refine ⟨m, hd.mem_codes_values.2 ?_, rfl, hchain, hlast⟩
      cases rest with
      | nil =>
        obtain rfl : m = n := Option.some.inj hlast
        exact hn
      | cons t rest => exact Super.declares_left (List.isChain_cons_cons.1 hchain).1
  rw [hsplit]
  refine ncard_exists_mem (hd.nodup_codes_values.imp fun hne => disjoint_waysFrom hne) fun m _ => ?_
  exact (acyclic_iff_grounded.1 hacyclic m).ncard_waysFrom.1

/-- **To complete all objects warns of each of them** as often as there are ways to it. -/
theorem Declared.count_log_resolve (hd : d.Declared) (hs : d.resolve.result = .ok s) :
    d.resolve.log.count (.undeclaredSuperType u n) =
      (d.undeclared n).count u * (d.waysTo n).ncard := by
  obtain ⟨_, hacyclic, _⟩ := hd.of_resolve hs
  have hlog : d.resolve.log = .resolving :: (d.completeAll d.codes.values d).log := rfl
  rw [result_resolve] at hs
  rw [hlog, List.count_cons_of_ne (by simp), completeAll, Logged.count_log_foldlM (fun m _ s s' h =>
    (acyclic_iff_grounded.1 hacyclic m).count_log_extend h) hs, List.sum_map_mul_left]
  by_cases hn : d.declares n = true
  · rw [(hd.ncard_waysTo hacyclic hn).2]
  · -- a name that is not declared lists nothing
    have hnone : d.object? n = none := by
      rw [← Option.not_isSome_iff_eq_none]
      exact hn
    simp [undeclared, listed, hnone]

end Schema
end SchemaLang
