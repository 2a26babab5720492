import SchemaLang.Proofs.Origin

/-!
# Sub types

To inherit from a super type is to become known to it.  So while objects are completed, sub types
are noted and nothing is ever taken back: completing an object notes the super types of all its
ancestors (`extend_sub_iff`), and completing all of them, in whichever order, notes all super
types.  In the end the sub types are the super types the other way round, `resolve_sub_iff`.

* `compile_subTypes`: in a compiled schema, each of the two can be read off the other, and the
  super types are those that the blocks of an object list.
-/

namespace SchemaLang

namespace ObjectType

variable {o o' st : ObjectType}

theorem subTypes_inheritName {n : String} {p : Property}
    (h : (o.inheritName n p).result = .ok o') : o'.subTypes = o.subTypes := by
  rw [inheritName] at h
  split at h
  · split at h
    · cases h; rfl
    · cases h
  · cases h; rfl

theorem subTypes_inheritCode {c : Code} {p : Property} (h : o.inheritCode c p = .ok o') :
    o'.subTypes = o.subTypes := by
  rw [inheritCode] at h
  split at h
  · split at h
    · cases h; rfl
    · cases h
  · cases h; rfl

theorem subTypes_inherit (h : (o.inherit st).result = .ok o') : o'.subTypes = o.subTypes := by
  obtain ⟨o₁, h1, h2⟩ := Logged.result_bind_eq_ok_iff.1 h
  rw [inheritNames, Logged.result_foldlM] at h1
  have hnames : o₁.subTypes = o.subTypes :=
    foldlM_invariant (P := fun x => x.subTypes = o.subTypes)
      (fun b e b' hb hstep => (subTypes_inheritName hstep).trans hb) rfl h1
  have hcodes : o'.subTypes = o₁.subTypes :=
    foldlM_invariant (P := fun x => x.subTypes = o₁.subTypes)
      (fun b e b' hb hstep => (subTypes_inheritCode hstep).trans hb) rfl h2
  exact hcodes.trans hnames

end ObjectType

namespace Schema

variable {d s s' : Schema} {name n t m u : String} {o : ObjectType} {path names : List String}

def Sub (s : Schema) (m u : String) : Prop := ∃ o, s.object? u = some o ∧ m ∈ o.subTypes

theorem sub_setObject :
    (s.setObject n o).Sub m u ↔ (n = u ∧ m ∈ o.subTypes) ∨ (n ≠ u ∧ s.Sub m u) := by
  rw [Sub, object?_setObject]
  by_cases h : n = u
  · simp [h]
  · simp [h, Sub]

theorem Declared.not_sub (hd : d.Declared) : ¬d.Sub m u := by
  rintro ⟨o, ho, hm⟩
  rw [(hd.object ho).subTypes] at hm
  cases hm

theorem inheritFrom_sub_iff (ht : t ∈ s.objects.keys) (h : (s.inheritFrom n t).result = .ok s') :
    s'.objects.keys = s.objects.keys ∧ ∀ m u, s'.Sub m u ↔ s.Sub m u ∨ (m = n ∧ u = t) := by
  obtain ⟨st, hst⟩ := mem_keys_iff.1 ht
  let known : ObjectType := { st with subTypes := st.subTypes.insert n }
  have hknown : ∀ m u, (s.setObject t known).Sub m u ↔ s.Sub m u ∨ (m = n ∧ u = t) := by
    intro m u
    rw [sub_setObject]
    by_cases hu : t = u
    · subst hu
      have hsub : s.Sub m t ↔ m ∈ st.subTypes := by simp [Sub, hst]
      rw [hsub]
      simp [known]
    · simp [hu, Ne.symm hu]
  rw [inheritFrom, hst] at h
  dsimp only at h
  split at h
  · cases h
    exact ⟨keys_setObject hst, hknown⟩
  · next o ho =>
    have ho : (s.setObject t known).object? n = some o := ho
    obtain ⟨o', hinherit, h⟩ := Logged.result_bind_eq_ok_iff.1 h
    cases h
    refine ⟨(keys_setObject ho).trans (keys_setObject hst), fun m u => ?_⟩
    rw [← hknown]
    show ((s.setObject t known).setObject n o').Sub m u ↔ _
    rw [sub_setObject, ObjectType.subTypes_inherit hinherit]
    by_cases hu : n = u
    · subst hu
      simp [Sub, ho]
    · simp [hu]

/-- The induction over the super types of an object, on the assumption that completing each of them
notes the super types of its ancestors. -/
theorem foldlM_extendFrom_sub_iff
    (ih : ∀ {t s s'}, d.Super name t → s.objects.keys = d.objects.keys →
      (d.extend (name :: path) t s).result = .ok s' → s'.objects.keys = d.objects.keys ∧
        ∀ m u, s'.Sub m u ↔ s.Sub m u ∨ (d.Ancestor t m ∧ d.Super m u)) :
    ∀ {ts : List String} {s s' : Schema}, (∀ t ∈ ts, d.Super name t) →
      s.objects.keys = d.objects.keys → (ts.foldlM (d.extendFrom path name) s).result = .ok s' →
        s'.objects.keys = d.objects.keys ∧ ∀ m u, s'.Sub m u ↔
          s.Sub m u ∨ ∃ t ∈ ts, (d.Ancestor t m ∧ d.Super m u) ∨ (m = name ∧ u = t)
  | [], s, s', _, hs, h => by
    obtain rfl := Logged.result_foldlM_nil_eq_ok_iff.1 h
    exact ⟨hs, by simp⟩
  | t :: ts, s, s', hts, hs, h => by
    obtain ⟨s₂, h12, h3⟩ := Logged.result_foldlM_cons_eq_ok_iff.1 h
    obtain ⟨s₁, h1, h2⟩ := Logged.result_bind_eq_ok_iff.1 h12
    have ht := hts t List.mem_cons_self
    obtain ⟨hk₁, hsub₁⟩ := ih ht hs h1
    have htk : t ∈ s₁.objects.keys := by
      rw [hk₁, mem_keys_iff]
      exact Schema.declares_iff.1 ht.declares_right
    obtain ⟨hk₂, hsub₂⟩ := inheritFrom_sub_iff htk h2
    obtain ⟨hk', hsub'⟩ := foldlM_extendFrom_sub_iff ih
      (fun u hu => hts u (List.mem_cons_of_mem t hu)) (hk₂.trans hk₁) h3
    refine ⟨hk', fun m u => ?_⟩
    rw [hsub', hsub₂, hsub₁, List.exists_mem_cons_iff, or_assoc, or_assoc, or_assoc]

/-- **Completing an object notes the super types of all its ancestors.** -/
theorem extend_sub_iff (hs : s.objects.keys = d.objects.keys)
    (h : (d.extend path name s).result = .ok s') : s'.objects.keys = d.objects.keys ∧
      ∀ m u, s'.Sub m u ↔ s.Sub m u ∨ (d.Ancestor name m ∧ d.Super m u) := by
  induction hn : d.outside path using Nat.strongRecOn generalizing path name s s' with
  | ind k ih =>
    subst hn
    by_cases hp : name ∈ path
    · rw [extend_of_mem hp] at h
      cases h
    · rw [result_extend hp] at h
      obtain ⟨hk, hsub⟩ := foldlM_extendFrom_sub_iff
        (fun ht hs h => by
          obtain ⟨o, ho⟩ := Schema.declares_iff.1 ht.declares_left
          exact ih _ (outside_cons_lt hp ho) hs h rfl)
        (fun t ht => ht) hs h
      refine ⟨hk, fun m u => (hsub m u).trans (or_congr_right ⟨?_, ?_⟩)⟩
      · rintro ⟨t, ht, ⟨ha, hu⟩ | ⟨rfl, rfl⟩⟩
        · exact ⟨.head ht ha, hu⟩
        · exact ⟨.refl m, ht⟩
      · rintro ⟨ha, hu⟩
        rcases ancestor_iff.1 ha with rfl | ⟨t, ht, ha⟩
        · exact ⟨u, hu, Or.inr ⟨rfl, rfl⟩⟩
        · exact ⟨t, ht, Or.inl ⟨ha, hu⟩⟩

theorem completeAll_sub_iff : ∀ {names : List String} {s s' : Schema},
    s.objects.keys = d.objects.keys → (d.completeAll names s).result = .ok s' → ∀ m u,
      s'.Sub m u ↔ s.Sub m u ∨ ∃ n ∈ names, d.Ancestor n m ∧ d.Super m u
  | [], _, _, _, h => by
    obtain rfl := Logged.result_foldlM_nil_eq_ok_iff.1 h
    simp
  | n :: names, s, s', hs, h => by
    obtain ⟨s₁, h1, h2⟩ := Logged.result_foldlM_cons_eq_ok_iff.1 h
    obtain ⟨hk₁, hsub₁⟩ := extend_sub_iff hs h1
    intro m u
    rw [completeAll_sub_iff hk₁ h2, hsub₁, List.exists_mem_cons_iff, or_assoc]

/-- **In the end, sub types are super types the other way round.** -/
theorem Declared.resolve_sub_iff (hd : d.Declared) (h : d.resolve.result = .ok s) :
    s.Sub m u ↔ d.Super m u := by
  rw [result_resolve] at h
  rw [completeAll_sub_iff rfl h, or_iff_right hd.not_sub]
  constructor
  · rintro ⟨_, _, _, hu⟩
    exact hu
  · intro hu
    exact ⟨m, hd.mem_codes_values.2 hu.declares_left, .refl m, hu⟩

theorem Declared.mem_subTypes_iff (hd : d.Declared) (h : d.resolve.result = .ok s)
    (ho : s.object? u = some o) : m ∈ o.subTypes ↔ d.Super m u := by
  rw [← hd.resolve_sub_iff h, Sub, ho]
  simp

end Schema

open Outline (Node)

variable {options : Options} {nodes : List Node} {s : Schema}

/-- **In a compiled schema, sub types are super types the other way round.**

Each sub type is declared and is listed once.  The super types are what the declarations left and
what the blocks of the object list, each where it first stands, whether it is declared or not. -/
theorem compile_subTypes (h : (compile options nodes).result = .ok s) :
    (∀ o ∈ s.objectList, ∀ t ∈ s.objectList, t.name ∈ o.subTypes ↔ o.name ∈ t.superTypes) ∧
    (∀ o ∈ s.objectList, o.subTypes.toList.Nodup ∧ ∀ n ∈ o.subTypes, s.declares n = true) ∧
    (∃ d, (declareAll options nodes).result = .ok d ∧ ∀ n o, s.object? n = some o →
      ∃ o₀, d.object? n = some o₀ ∧ o.superTypes = o₀.superTypes) ∧
    ∀ n o, s.object? n = some o → o.superTypes.toList =
      (((options.declared nodes).filter fun node => node.name? = some n).flatMap
        fun block => block.words.drop 2).eraseDups := by
  obtain ⟨d, hdecl, _, hs⟩ := compile_eq_ok_iff.1 h
  obtain ⟨bs, hbs, hcollects⟩ := collects_of_declareAll hdecl
  have hd := hcollects.declared
  obtain ⟨hp, _⟩ := hd.of_resolve hs
  have hnamed := hp.named hd
  have hsuper : ∀ {t u}, t ∈ s.objectList → s.declares u = true →
      (d.Super t.name u ↔ u ∈ t.superTypes) := by
    intro t u ht hu
    rw [← hp.super_eq, Schema.super_iff, hnamed.object?_name ht]
    simp [hu]
  refine ⟨fun o ho t ht => ?_, fun o ho => ⟨o.subTypes.nodup, fun n hn => ?_⟩,
    ⟨d, hdecl, fun n o ho => ?_⟩, fun n o ho => (hcollects.mergesFrom hbs hs ho).superTypes⟩
  · have hu : s.declares o.name = true := Schema.declares_iff.2 ⟨o, hnamed.object?_name ho⟩
    rw [hd.mem_subTypes_iff hs (hnamed.object?_name ho), hsuper ht hu]
  · rw [hd.mem_subTypes_iff hs (hnamed.object?_name ho)] at hn
    exact hp.declares_iff.2 hn.declares_left
  · obtain ⟨o₀, ho₀, hhead⟩ := hp.header ho
    exact ⟨o₀, ho₀, (ObjectType.header_eq_iff.1 hhead).2.2⟩

theorem diamond_subTypes : ∃ s, (compile {} diamond).result = .ok s ∧
    (∀ o ∈ s.objectList, ∀ t ∈ s.objectList, t.name ∈ o.subTypes ↔ o.name ∈ t.superTypes) ∧
    ∀ o, s.object? "bottom" = some o → o.superTypes.toList = ["left", "right", "nowhere"] := by
  have hok : (compile {} diamond).result.toOption.isSome := by decide +kernel
  cases hs : (compile {} diamond).result with
  | error e => rw [hs] at hok; cases hok
  | ok s =>
    obtain ⟨hconverse, _, _, hlisted⟩ := compile_subTypes hs
    exact ⟨s, rfl, hconverse, fun o ho => (hlisted "bottom" o ho).trans (by decide +kernel)⟩

end SchemaLang
