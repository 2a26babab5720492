import SchemaLang.Proofs.Inheritance.Partial

/-!
# Completing an object

`extend` completes an object on a path: all its super types first, and then itself.  It is
called many times for one object, from every object below it and at any time, so what it
finds of an object is either what was declared or what `flat` gives in the end.  Of an
object of the path, it may find anything in between.

From such a schema, `extend` that ends well leaves `flat` at all ancestors of the object
and nothing new elsewhere (`Partial.of_extend`).  It cannot have met the path, so the
ancestors are grounded, and none of them was found in between.  It ends well when the
object is grounded, keeps clear of the path, and has a flat list in which no two
properties share a name or a code (`Partial.exists_extend`).
-/

namespace SchemaLang.Schema

open Property (joinNew OneByOne)

variable {d s s' : Schema} {name : String} {path : List String} {e : CompileError}

/-- Where the list of properties of an object is as declared or as in the end. -/
def Settled (d s : Schema) (path : List String) : Prop :=
  ∀ m, m ∉ path → s.own m = d.own m ∨ s.own m = d.flat m

theorem settled_self (d : Schema) (path : List String) : d.Settled d path :=
  fun _ _ => Or.inl rfl

theorem Settled.of_changed {t : String} (h : d.Settled s path)
    (hflat : ∀ m, m ∉ path → d.Ancestor t m → s'.own m = d.flat m)
    (hrest : ∀ m, m ∉ path → ¬d.Ancestor t m → s'.own m = s.own m) : d.Settled s' path := by
  intro m hm
  by_cases ha : d.Ancestor t m
  · exact Or.inr (hflat m hm ha)
  · rw [hrest m hm ha]
    exact h m hm

structure Completed (d s : Schema) (path : List String) (name : String) : Prop where
  grounded : d.Grounded name
  free : ∀ m ∈ path, ¬d.Ancestor name m
  flat : ∀ a, d.Ancestor name a → s.own a = d.flat a

/-- What is left at an object stays there while other objects are completed. -/
theorem Completed.of_later {ts : List String} (h : d.Completed s path name)
    (hflat : ∀ t ∈ ts, ∀ a, d.Ancestor t a → s'.own a = d.flat a)
    (hrest : ∀ a, d.Ancestor name a → (∀ t ∈ ts, ¬d.Ancestor t a) → s'.own a = s.own a) :
    d.Completed s' path name where
  grounded := h.grounded
  free := h.free
  flat := by
    intro a ha
    by_cases hlater : ∃ t ∈ ts, d.Ancestor t a
    · obtain ⟨t, ht, hta⟩ := hlater
      exact hflat t ht a hta
    · rw [hrest a ha fun t ht hta => hlater ⟨t, ht, hta⟩]
      exact h.flat a ha

structure Coherent (d : Schema) (name : String) : Prop where
  byName : OneByOne Property.name (d.flat name) (d.flat name)
  byCode : OneByOne Property.code (d.flat name) (d.flat name)

/-! ### The steps of `extend` -/

def extendFrom (d : Schema) (path : List String) (name : String) (s : Schema) (t : String) :
    Logged Schema := do
  let s ← d.extend (name :: path) t s
  s.inheritFrom name t

theorem extend_of_mem (h : name ∈ path) :
    (d.extend path name s).result = .error (.recursiveInheritance name) := by
  rw [extend, dif_pos h]; rfl

/-- **An object is completed by its declared super types.** -/
theorem result_extend (h : name ∉ path) :
    (d.extend path name s).result = ((d.supers name).foldlM (d.extendFrom path name) s).result := by
  rw [extend, dif_neg h]
  split
  · next hn => rw [supers_of_none hn]; rfl
  · next o ho =>
    rw [supers_of_object ho]
    refine Logged.result_foldlM_filter (fun t s ht => ?_) (fun t s ht => ?_) _ s
    · rw [if_neg (by simp [ht])]; rfl
    · rw [if_pos ht]; rfl

/-! ### What is left -/

theorem Grounded.joinFlat_flat {ts : List String} (h : d.Grounded name)
    (hts : ∀ t ∈ ts, d.Super name t) : d.joinFlat (d.flat name) ts = d.flat name := by
  induction ts with
  | nil => rfl
  | cons t ts ih =>
    have ht := hts t List.mem_cons_self
    rw [joinFlat, List.foldl_cons, Property.joinNew_of_subset (h.flat_subset ht)]
    exact ih fun u hu => hts u (List.mem_cons_of_mem t hu)

/-- **One super type of an object**: once it is completed and inherited from, the object
has its flat list joined to its own. -/
theorem Partial.of_inheritFrom_completed {s₁ s₂ : Schema} {t : String} (hd : d.Declared)
    (ht : d.Super name t) (hset : d.Settled s (name :: path)) (hs₁ : d.Partial s₁)
    (hct : d.Completed s₁ (name :: path) t) (hrest : ∀ m, ¬d.Ancestor t m → s₁.own m = s.own m)
    (h : (s₁.inheritFrom name t).result = .ok s₂) :
    d.Partial s₂ ∧ d.Completed s₂ (name :: path) t ∧ d.Settled s₂ (name :: path) ∧
      s₂.own name = joinNew (s.own name) (d.flat t) ∧
      ∀ m, m ≠ name → ¬d.Ancestor t m → s₂.own m = s.own m := by
  have hname : ¬d.Ancestor t name := hct.free name List.mem_cons_self
  have hne : name ≠ t := fun e => hname (e ▸ .refl name)
  obtain ⟨hs₂, hjoin, hother⟩ := hs₁.of_inheritFrom hd hne ht.declares_left ht.declares_right h
  -- away from the object, only the ancestors of `t` have changed
  have hflat₂ : ∀ a, d.Ancestor t a → s₂.own a = d.flat a := fun a ha => by
    rw [hother a fun e => hname (e ▸ ha), hct.flat a ha]
  have hrest₂ : ∀ m, m ≠ name → ¬d.Ancestor t m → s₂.own m = s.own m := fun m hm ha => by
    rw [hother m hm, hrest m ha]
  have hset₂ : d.Settled s₂ (name :: path) := hset.of_changed (fun m _ => hflat₂ m)
    fun m hm => hrest₂ m fun e => hm (e ▸ List.mem_cons_self)
  refine ⟨hs₂, ⟨hct.grounded, hct.free, hflat₂⟩, hset₂, ?_, hrest₂⟩
  rw [hjoin, hrest name hname, hct.flat t (.refl t)]

/-- The induction over the super types of an object, on the assumption that each of them
is completed as it should be. -/
theorem Partial.of_foldlM_extendFrom (hd : d.Declared)
    (ih : ∀ {t s s'}, d.Super name t → d.Partial s → d.Settled s (name :: path) →
      (d.extend (name :: path) t s).result = .ok s' →
        d.Partial s' ∧ d.Completed s' (name :: path) t ∧
          ∀ m, ¬d.Ancestor t m → s'.own m = s.own m) :
    ∀ {ts : List String} {s s' : Schema}, (∀ t ∈ ts, d.Super name t) → d.Partial s →
      d.Settled s (name :: path) → (ts.foldlM (d.extendFrom path name) s).result = .ok s' →
        d.Partial s' ∧ (∀ t ∈ ts, d.Completed s' (name :: path) t) ∧
          s'.own name = d.joinFlat (s.own name) ts ∧
          ∀ m, m ≠ name → (∀ t ∈ ts, ¬d.Ancestor t m) → s'.own m = s.own m
  | [], s, s', _, hs, _, h => by
    obtain rfl := Logged.result_foldlM_nil_eq_ok_iff.1 h
    exact ⟨hs, by simp, rfl, fun _ _ _ => rfl⟩
  | t :: ts, s, s', hts, hs, hset, h => by
    obtain ⟨s₂, h12, h3⟩ := Logged.result_foldlM_cons_eq_ok_iff.1 h
    obtain ⟨s₁, h1, h2⟩ := Logged.result_bind_eq_ok_iff.1 h12
    have ht := hts t List.mem_cons_self
    obtain ⟨hs₁, hct₁, hrest₁⟩ := ih ht hs hset h1
    obtain ⟨hs₂, hct, hset₂, hjoin, hrest⟩ :=
      Partial.of_inheritFrom_completed hd ht hset hs₁ hct₁ hrest₁ h2
    obtain ⟨hs', hcts, hself, hrest'⟩ := Partial.of_foldlM_extendFrom hd ih
      (fun u hu => hts u (List.mem_cons_of_mem t hu)) hs₂ hset₂ h3
    have hct' : d.Completed s' (name :: path) t :=
      hct.of_later (fun u hu => (hcts u hu).flat) fun a ha hlater =>
        hrest' a (fun e => hct.free name List.mem_cons_self (e ▸ ha)) hlater
    refine ⟨hs', fun u hu => ?_, ?_, fun m hm hm' => ?_⟩
    · rcases List.mem_cons.1 hu with rfl | hu
      · exact hct'
      · exact hcts u hu
    · rw [hself, hjoin]
      rfl
    · rw [hrest' m hm fun u hu => hm' u (List.mem_cons_of_mem t hu),
        hrest m hm (hm' t List.mem_cons_self)]

/-- **What `extend` leaves**: `flat` at all ancestors of the object, and nothing new
elsewhere. -/
theorem Partial.of_extend (hd : d.Declared) (hs : d.Partial s) (hset : d.Settled s path)
    (h : (d.extend path name s).result = .ok s') :
    d.Partial s' ∧ d.Completed s' path name ∧ ∀ m, ¬d.Ancestor name m → s'.own m = s.own m := by
  induction hn : d.outside path using Nat.strongRecOn generalizing path name s s' with
  | ind n ih =>
    subst hn
    by_cases hp : name ∈ path
    · rw [extend_of_mem hp] at h
      cases h
    · rw [result_extend hp] at h
      have hset' : d.Settled s (name :: path) := fun m hm =>
        hset m fun hm' => hm (List.mem_cons_of_mem name hm')
      obtain ⟨hs', hsup, hself, hrest⟩ := Partial.of_foldlM_extendFrom hd
        (fun ht hs hset h => by
          obtain ⟨o, ho⟩ := Schema.declares_iff.1 ht.declares_left
          exact ih _ (outside_cons_lt hp ho) hs hset h rfl)
        (fun t ht => ht) hs hset' h
      have hg : d.Grounded name := grounded_iff.2 fun t ht => (hsup t ht).grounded
      have hflat : s'.own name = d.flat name := by
        rw [hself]
        -- a first completion joins everything to the own list, a later one has nothing to add
        rcases hset name hp with e | e
        · rw [e, hg.flat_eq]
        · rw [e, hg.joinFlat_flat fun t ht => ht]
      refine ⟨hs', ⟨hg, fun m hm ha => ?_, fun a ha => ?_⟩, fun m hm => ?_⟩
      · rcases ancestor_iff.1 ha with rfl | ⟨t, ht, ha⟩
        · exact hp hm
        · exact (hsup t ht).free m (List.mem_cons_of_mem name hm) ha
      · rcases ancestor_iff.1 ha with rfl | ⟨t, ht, ha⟩
        · exact hflat
        · exact (hsup t ht).flat a ha
      · have hne : m ≠ name := fun e => hm (e ▸ .refl m)
        exact hrest m hne fun t ht ha => hm (.head ht ha)

/-! ### When it ends well -/

theorem Coherent.of_super {t : String} (hc : d.Coherent name) (h : d.Grounded name)
    (ht : d.Super name t) : d.Coherent t :=
  ⟨hc.byName.mono (h.flat_subset ht) (h.flat_subset ht),
    hc.byCode.mono (h.flat_subset ht) (h.flat_subset ht)⟩

/-- The induction over the super types of an object that is grounded and coherent, on the
assumption that each of them can be completed. -/
theorem Partial.exists_foldlM_extendFrom (hd : d.Declared) (hg : d.Grounded name)
    (hc : d.Coherent name)
    (ih : ∀ {t s}, d.Super name t → d.Partial s → d.Settled s (name :: path) →
      ∃ s', (d.extend (name :: path) t s).result = .ok s') :
    ∀ {ts : List String} {s : Schema}, (∀ t ∈ ts, d.Super name t) → d.Partial s →
      d.Settled s (name :: path) → (∀ p ∈ s.own name, p ∈ d.flat name) →
        ∃ s', (ts.foldlM (d.extendFrom path name) s).result = .ok s'
  | [], s, _, _, _, _ => ⟨s, rfl⟩
  | t :: ts, s, hts, hs, hset, hown => by
    have ht := hts t List.mem_cons_self
    have hne : name ≠ t := fun e => hg.not_ancestor ht (e ▸ .refl name)
    obtain ⟨s₁, h1⟩ := ih ht hs hset
    obtain ⟨hs₁, hct, hrest⟩ := Partial.of_extend hd hs hset h1
    have hlist : s₁.own name = s.own name := hrest name (hct.free name List.mem_cons_self)
    have hlist' : s₁.own t = d.flat t := hct.flat t (.refl t)
    have hn : OneByOne Property.name (s₁.own name) (s₁.own t) := by
      rw [hlist, hlist']
      exact hc.byName.mono hown (hg.flat_subset ht)
    have hk : OneByOne Property.code (s₁.own name) (s₁.own t) := by
      rw [hlist, hlist']
      exact hc.byCode.mono hown (hg.flat_subset ht)
    obtain ⟨s₂, h2⟩ := hs₁.exists_inheritFrom hd hne ht.declares_left ht.declares_right hn hk
    obtain ⟨hs₂, _, hset₂, hjoin, _⟩ :=
      Partial.of_inheritFrom_completed hd ht hset hs₁ hct hrest h2
    have hown₂ : ∀ p ∈ s₂.own name, p ∈ d.flat name := by
      rw [hjoin]
      intro p hp
      exact (Property.mem_joinNew.1 hp).elim (hown p) (hg.flat_subset ht p)
    obtain ⟨s', h3⟩ := Partial.exists_foldlM_extendFrom hd hg hc ih
      (fun u hu => hts u (List.mem_cons_of_mem t hu)) hs₂ hset₂ hown₂
    exact ⟨s', Logged.result_foldlM_cons_eq_ok_iff.2
      ⟨s₂, Logged.result_bind_eq_ok_iff.2 ⟨s₁, h1, h2⟩, h3⟩⟩

/-- **A grounded and coherent object can be completed** on a path that its ancestors do not
meet. -/
theorem Partial.exists_extend (hd : d.Declared) (hg : d.Grounded name) (hc : d.Coherent name)
    (hfree : ∀ m ∈ path, ¬d.Ancestor name m) (hs : d.Partial s) (hset : d.Settled s path) :
    ∃ s', (d.extend path name s).result = .ok s' := by
  induction hg generalizing path s with
  | intro n hacc ih =>
    have hg : d.Grounded n := .intro n hacc
    have hp : n ∉ path := fun hm => hfree n hm (.refl n)
    rw [result_extend hp]
    have hset' : d.Settled s (n :: path) := fun m hm =>
      hset m fun hm' => hm (List.mem_cons_of_mem n hm')
    have hown : ∀ p ∈ s.own n, p ∈ d.flat n := by
      -- off the path, a list is as declared or as in the end
      rcases hset n hp with e | e
      · rw [e]; exact hg.own_subset
      · rw [e]; exact fun p hp => hp
    refine Partial.exists_foldlM_extendFrom hd hg hc (fun {t s} ht hs hset => ?_)
      (fun t ht => ht) hs hset' hown
    refine ih t ht (hc.of_super hg ht) (fun m hm => ?_) hs hset
    rcases List.mem_cons.1 hm with rfl | hm
    · exact hg.not_ancestor ht
    · exact fun ha => hfree m hm (.head ht ha)

/-! ### What it reports -/

theorem inheritFrom_error {t : String} (h : (s.inheritFrom name t).result = .error e) :
    (∃ a b c d, e = .propertyNameCollision a b c d) ∨
      ∃ a b c d f g, e = .propertyCodeCollision a b c d f g := by
  rw [inheritFrom] at h
  split at h
  · cases h
  · dsimp only at h
    split at h
    · cases h
    · rcases Logged.result_bind_eq_error_iff.1 h with h | ⟨o', _, h⟩
      · exact ObjectType.inherit_error h
      · cases h

/-- **`extend` fails with recursive inheritance or with a collision.** -/
theorem extend_error (h : (d.extend path name s).result = .error e) :
    (∃ n, e = .recursiveInheritance n) ∨ (∃ a b c d, e = .propertyNameCollision a b c d) ∨
      ∃ a b c d f g, e = .propertyCodeCollision a b c d f g := by
  induction hn : d.outside path using Nat.strongRecOn generalizing path name s with
  | ind n ih =>
    subst hn
    by_cases hp : name ∈ path
    · rw [extend_of_mem hp] at h
      cases h
      exact Or.inl ⟨name, rfl⟩
    · rw [result_extend hp] at h
      obtain ⟨t, ht, s₁, h⟩ := Logged.foldlM_error h
      obtain ⟨o, ho⟩ := Schema.declares_iff.1 (Super.declares_left ht)
      rcases Logged.result_bind_eq_error_iff.1 h with h | ⟨s₂, _, h⟩
      · exact ih _ (outside_cons_lt hp ho) h rfl
      · exact Or.inr (inheritFrom_error h)

end SchemaLang.Schema
