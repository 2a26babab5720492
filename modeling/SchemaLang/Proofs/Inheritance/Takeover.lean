import SchemaLang.Proofs.Declaration.Block
import SchemaLang.Proofs.Inheritance.Flat

/-!
# Taking over properties

An object takes over the properties of a super type in two loops, one over their names
and one over their codes.  Each loop passes over a property that is there already as the
same property, and fails at another one under the same name, or the same code.

Between the loops the two indexes of the object differ, and so each loop is looked at for
its own index.  What they share is `Property.TakesOver`: a loop over some key of the
properties, whatever the key and the index.  Such a loop succeeds exactly when any two
properties of the two lists that share the key are one (`TakesOver.foldlM_eq_ok_iff`), and
the index then has the joined list (`TakesOver.has_joinNew`).

When both objects hold their properties (`ObjectType.Holds`), the two loops together
succeed exactly when this is so for the names and for the codes, and the object then holds
the joined list (`inherit_eq_ok_iff`).
-/

namespace SchemaLang

/-! ### A loop over a key -/

namespace Property

variable {κ σ ε : Type} {key : Property → κ} {l m ps : List Property} {p : Property}

def OneByOne (key : Property → κ) (l m : List Property) : Prop :=
  ∀ p ∈ l, ∀ q ∈ m, key p = key q → p = q

/-- The step `f` takes over one property: it adds one whose key is free, passes over one
that is there, and refuses another one under the same key.  `Has o l` says that `o` has
the properties of `l`. -/
structure TakesOver (key : Property → κ) (Has : σ → List Property → Prop)
    (add : σ → Property → σ) (f : σ → Property → Except ε σ) : Prop where
  free : ∀ {o l p}, Has o l → (∀ a ∈ l, key a ≠ key p) →
    f o p = .ok (add o p) ∧ Has (add o p) (l ++ [p])
  pass : ∀ {o l p}, Has o l → p ∈ l → f o p = .ok o
  refuse : ∀ {o l p a}, Has o l → a ∈ l → key a = key p → ¬a.isSame p = true →
    ∃ e, f o p = .error e

theorem oneByOne_nil : OneByOne key l [] := fun _ _ _ hq => by cases hq

theorem OneByOne.mono {l₁ m₁ : List Property} (h : OneByOne key l m) (hl : ∀ p ∈ l₁, p ∈ l)
    (hm : ∀ p ∈ m₁, p ∈ m) : OneByOne key l₁ m₁ :=
  fun p hp q hq => h p (hl p hp) q (hm q hq)

theorem oneByOne_cons_iff :
    OneByOne key l (p :: m) ↔ (∀ a ∈ l, key a = key p → a = p) ∧ OneByOne key l m := by
  constructor
  · exact fun h => ⟨fun a ha e => h a ha p List.mem_cons_self e,
      fun a ha q hq e => h a ha q (List.mem_cons_of_mem p hq) e⟩
  · rintro ⟨hp, hm⟩ a ha q hq e
    rcases List.mem_cons.1 hq with rfl | hq
    · exact hp a ha e
    · exact hm a ha q hq e

theorem oneByOne_concat_iff (hp : ∀ q ∈ m, key p ≠ key q) :
    OneByOne key (l ++ [p]) m ↔ OneByOne key l m := by
  constructor
  · exact fun h => h.mono (fun _ => List.mem_append_left _) fun _ hq => hq
  · intro h a ha q hq e
    rcases List.mem_append.1 ha with ha | ha
    · exact h a ha q hq e
    · rw [List.mem_singleton.1 ha] at e
      exact absurd e (hp q hq)

theorem filter_not_mem_concat (hp : p ∉ m) :
    m.filter (fun q => q ∉ l ++ [p]) = m.filter fun q => q ∉ l := by
  refine List.filter_congr fun q hq => ?_
  have hne : q ≠ p := fun e => hp (e ▸ hq)
  simp [hne]

namespace TakesOver

variable {Has : σ → List Property → Prop} {add : σ → Property → σ}
  {f : σ → Property → Except ε σ} {o o' : σ}

/-- **A loop succeeds** exactly when what shares the key is one, and it adds what is not
there. -/
theorem foldlM_eq_ok_iff (hf : TakesOver key Has add f) (ho : Has o l) (hm : (m.map key).Nodup)
    (hsame : ∀ p, p ∈ l ∨ p ∈ m → ∀ q ∈ m, p.isSame q = true → p = q) :
    m.foldlM f o = .ok o' ↔
      OneByOne key l m ∧ o' = (m.filter fun p => p ∉ l).foldl add o := by
  induction m generalizing o l with
  | nil =>
    rw [foldlM_nil_eq_ok_iff]
    exact ⟨fun e => ⟨oneByOne_nil, e⟩, fun h => h.2⟩
  | cons p m ih =>
    rw [List.map_cons, List.nodup_cons] at hm
    have hpm : ∀ q ∈ m, key p ≠ key q := fun q hq e => hm.1 (e ▸ List.mem_map_of_mem hq)
    have hl : ∀ a ∈ l, a.isSame p = true → a = p := fun a ha =>
      hsame a (Or.inl ha) p List.mem_cons_self
    rw [foldlM_cons_eq_ok_iff, oneByOne_cons_iff]
    by_cases hshare : ∃ a ∈ l, key a = key p
    · obtain ⟨a, ha, hkey⟩ := hshare
      by_cases hs : a.isSame p = true
      · obtain rfl := hl a ha hs
        -- any other property under the key would have been refused, too
        have halone : ∀ b ∈ l, key b = key a → b = a := fun b hb e => by
          by_contra hne
          obtain ⟨_, herr⟩ := hf.refuse ho hb e fun hs => hne (hl b hb hs)
          cases (hf.pass ho ha).symm.trans herr
        have hrest := ih ho hm.2 fun b hb q hq =>
          hsame b (hb.imp_right (List.mem_cons_of_mem a)) q (List.mem_cons_of_mem a hq)
        rw [hf.pass ho ha, List.filter_cons_of_neg (by simpa using ha)]
        constructor
        · rintro ⟨o₁, h1, h2⟩
          obtain rfl := Except.ok.inj h1
          exact ⟨⟨halone, (hrest.1 h2).1⟩, (hrest.1 h2).2⟩
        · rintro ⟨⟨_, hone⟩, ho'⟩
          exact ⟨o, rfl, hrest.2 ⟨hone, ho'⟩⟩
      · obtain ⟨_, herr⟩ := hf.refuse ho ha hkey hs
        rw [herr]
        constructor
        · rintro ⟨o₁, h1, _⟩; cases h1
        · rintro ⟨⟨hp, _⟩, _⟩
          exact absurd (isSame_iff.2 ⟨congrArg _ (hp a ha hkey), congrArg _ (hp a ha hkey)⟩) hs
    · have hnew : ∀ a ∈ l, key a ≠ key p := fun a ha e => hshare ⟨a, ha, e⟩
      have hpl : p ∉ l := fun hp => hnew p hp rfl
      obtain ⟨hadd, hhas⟩ := hf.free ho hnew
      have hrest := ih hhas hm.2 fun b hb q hq => by
        refine hsame b ?_ q (List.mem_cons_of_mem p hq)
        rwa [List.mem_cons, ← or_assoc, ← List.mem_singleton (a := b), ← List.mem_append]
      rw [oneByOne_concat_iff hpm, filter_not_mem_concat fun h => hpm p h rfl] at hrest
      rw [hadd, List.filter_cons_of_pos (by simpa using hpl), List.foldl_cons]
      constructor
      · rintro ⟨o₁, h1, h2⟩
        obtain rfl := Except.ok.inj h1
        exact ⟨⟨fun a ha e => absurd e (hnew a ha), (hrest.1 h2).1⟩, (hrest.1 h2).2⟩
      · rintro ⟨⟨_, hone⟩, ho'⟩
        exact ⟨add o p, rfl, hrest.2 ⟨hone, ho'⟩⟩

theorem has_append (hf : TakesOver key Has add f) (ho : Has o l) (hps : (ps.map key).Nodup)
    (hl : ∀ a ∈ l, ∀ p ∈ ps, key a ≠ key p) : Has (ps.foldl add o) (l ++ ps) := by
  induction ps generalizing o l with
  | nil => rwa [List.append_nil]
  | cons p ps ih =>
    rw [List.map_cons, List.nodup_cons] at hps
    have hp : ∀ a ∈ l, key a ≠ key p := fun a ha => hl a ha p List.mem_cons_self
    rw [List.append_cons]
    refine ih (hf.free ho hp).2 hps.2 fun a ha q hq => ?_
    rcases List.mem_append.1 ha with ha | ha
    · exact hl a ha q (List.mem_cons_of_mem p hq)
    · rw [List.mem_singleton.1 ha]
      exact fun e => hps.1 (e ▸ List.mem_map_of_mem hq)

/-- **What a loop leaves**: the joined list. -/
theorem has_joinNew (hf : TakesOver key Has add f) (ho : Has o l) (hm : (m.map key).Nodup)
    (hone : OneByOne key l m) : Has ((m.filter fun p => p ∉ l).foldl add o) (joinNew l m) := by
  refine hf.has_append ho (hm.sublist (List.filter_sublist.map key)) fun a ha p hp e => ?_
  obtain ⟨hp, hnew⟩ := List.mem_filter.1 hp
  rw [decide_eq_true_eq] at hnew
  exact hnew (hone a ha p hp e ▸ ha)

end TakesOver
end Property

namespace ObjectType

open Property (joinNew OneByOne TakesOver)

variable {o o' st : ObjectType} {l m ps : List Property} {p q : Property} {e : CompileError}

/-! ### The two loops -/

/-- The object type with a further property under its name, but not under its code. -/
def addName (o : ObjectType) (p : Property) : ObjectType :=
  { o with properties := o.properties.insert p.name p }

def addCode (o : ObjectType) (p : Property) : ObjectType :=
  { o with propertiesByCode := o.propertiesByCode.insert p.code p }

theorem takesOver_name :
    TakesOver Property.name (fun o l => o.properties.entries = l.map fun p => (p.name, p)) addName
      fun o p => (o.inheritName p.name p).result where
  free := by
    intro o l p h hnew
    have hnone : o.property? p.name = none := Option.eq_none_iff_forall_not_mem.2 fun a ha => by
      obtain ⟨ha, e⟩ := (property?_eq_some_iff_of_byName h).1 ha
      exact hnew a ha e
    refine ⟨by rw [inheritName, hnone]; rfl, ?_⟩
    rw [addName, OrderedMap.entries_insert_of_not_mem (OrderedMap.get?_eq_none_iff.1 hnone), h,
      List.map_append]
    rfl
  pass := by
    intro o l p h hp
    rw [inheritName, (property?_eq_some_iff_of_byName h).2 ⟨hp, rfl⟩]
    dsimp only
    rw [if_pos (Property.isSame_iff.2 ⟨rfl, rfl⟩)]
    rfl
  refuse := by
    intro o l p a h ha e hs
    rw [inheritName, (property?_eq_some_iff_of_byName h).2 ⟨ha, e⟩]
    dsimp only
    rw [if_neg hs]
    exact ⟨_, rfl⟩

theorem takesOver_code :
    TakesOver Property.code
      (fun o l => ∀ c p, (c, p) ∈ o.propertiesByCode.entries ↔ p ∈ l ∧ p.code = c) addCode
      fun o p => o.inheritCode p.code p where
  free := by
    intro o l p h hnew
    have hnone : o.propertyByCode? p.code = none :=
      Option.eq_none_iff_forall_not_mem.2 fun a ha => by
        obtain ⟨ha, e⟩ := (propertyByCode?_eq_some_iff_of_byCode h).1 ha
        exact hnew a ha e
    refine ⟨by rw [inheritCode, hnone]; rfl, fun c a => ?_⟩
    rw [addCode, CodeMap.mem_entries_insert, h, List.mem_append, List.mem_singleton]
    constructor
    · rintro (⟨rfl, rfl⟩ | ⟨_, ha, hc⟩)
      · exact ⟨Or.inr rfl, rfl⟩
      · exact ⟨Or.inl ha, hc⟩
    · rintro ⟨ha | rfl, rfl⟩
      · exact Or.inr ⟨hnew a ha, ha, rfl⟩
      · exact Or.inl ⟨rfl, rfl⟩
  pass := by
    intro o l p h hp
    rw [inheritCode, (propertyByCode?_eq_some_iff_of_byCode h).2 ⟨hp, rfl⟩]
    dsimp only
    rw [if_pos (Property.isSame_iff.2 ⟨rfl, rfl⟩)]
  refuse := by
    intro o l p a h ha e hs
    rw [inheritCode, (propertyByCode?_eq_some_iff_of_byCode h).2 ⟨ha, e⟩]
    dsimp only
    rw [if_neg hs]
    exact ⟨_, rfl⟩

theorem foldl_addName (ps : List Property) (o : ObjectType) :
    ps.foldl addName o = { o with properties := (ps.foldl addName o).properties } := by
  induction ps generalizing o with
  | nil => rfl
  | cons p ps ih => rw [List.foldl_cons, ih]; rfl

theorem foldl_addCode (ps : List Property) (o : ObjectType) :
    ps.foldl addCode o = { o with propertiesByCode := (ps.foldl addCode o).propertiesByCode } := by
  induction ps generalizing o with
  | nil => rfl
  | cons p ps ih => rw [List.foldl_cons, ih]; rfl

/-! ### Both loops -/

/-- The entries under the codes, as a list of properties. -/
theorem Holds.exists_entries_byCode (h : o.Holds l) :
    ∃ ps : List Property, o.propertiesByCode.entries = ps.map (fun p => (p.code, p)) ∧
      (∀ p, p ∈ ps ↔ p ∈ l) ∧ (ps.map Property.code).Nodup := by
  have hkey : ∀ x ∈ o.propertiesByCode.entries, (x.2.code, x.2) = x := fun x hx =>
    Prod.ext ((h.byCode x.1 x.2).1 hx).2 rfl
  refine ⟨o.propertiesByCode.values, ?_, fun p => ?_, ?_⟩
  · rw [CodeMap.values, List.map_map]
    exact (List.map_congr_left hkey).trans (List.map_id _) |>.symm
  · rw [CodeMap.values, List.mem_map]
    constructor
    · rintro ⟨x, hx, rfl⟩; exact ((h.byCode x.1 x.2).1 hx).1
    · exact fun hp => ⟨(p.code, p), (h.byCode p.code p).2 ⟨hp, rfl⟩, rfl⟩
  · have hcodes : o.propertiesByCode.values.map Property.code = o.propertiesByCode.codes := by
      rw [CodeMap.values, List.map_map, CodeMap.codes, Entries.keys]
      exact List.map_congr_left fun x hx => congrArg Prod.fst (hkey x hx)
    rw [hcodes]
    exact o.propertiesByCode.nodup_codes

/-- The first loop does not touch the index of the second one. -/
theorem Holds.byCode_addName (hl : o.Holds l) (ps : List Property) : ∀ c p,
    (c, p) ∈ (ps.foldl addName o).propertiesByCode.entries ↔ p ∈ l ∧ p.code = c := by
  rw [foldl_addName]
  exact hl.byCode

/-- **What both loops leave**: an object that holds the joined list.  The second loop may go
through the other properties in any order. -/
theorem Holds.takeOver (hl : o.Holds l) (hm : (m.map Property.name).Nodup)
    (hps : (ps.map Property.code).Nodup) (hmem : ∀ p, p ∈ ps ↔ p ∈ m)
    (hn : OneByOne Property.name l m) (hc : OneByOne Property.code l ps) :
    ((ps.filter fun p => p ∉ l).foldl addCode
      ((m.filter fun p => p ∉ l).foldl addName o)).Holds (joinNew l m) where
  byName := by
    rw [foldl_addCode]
    exact takesOver_name.has_joinNew hl.byName hm hn
  byCode := by
    intro c p
    rw [takesOver_code.has_joinNew (hl.byCode_addName _) hps hc, Property.mem_joinNew,
      Property.mem_joinNew, hmem]

/-- **An object takes over the properties of a super type** exactly when any two
properties of the two that share a name or a code are one. -/
theorem inherit_eq_ok_iff (hl : o.Holds l) (hm : st.Holds m)
    (hsame : ∀ p ∈ l, ∀ q ∈ m, p.isSame q = true → p = q) :
    (o.inherit st).result = .ok o' ↔
      OneByOne Property.name l m ∧ OneByOne Property.code l m ∧
        o'.Holds (joinNew l m) ∧ o'.header = o.header ∧ o'.subTypes = o.subTypes := by
  have hall : ∀ p, p ∈ l ∨ p ∈ m → ∀ q ∈ m, p.isSame q = true → p = q := by
    rintro p (hp | hp) q hq h
    · exact hsame p hp q hq h
    · exact hm.eq_of_name_eq hp hq (Property.isSame_iff.1 h).2
  obtain ⟨ps, hps, hmem, hnodup⟩ := hm.exists_entries_byCode
  have hone : OneByOne Property.code l ps ↔ OneByOne Property.code l m :=
    ⟨fun h => h.mono (fun _ hp => hp) fun q => (hmem q).2,
      fun h => h.mono (fun _ hp => hp) fun q => (hmem q).1⟩
  let named := (m.filter fun p => p ∉ l).foldl addName o
  have hnamed : named = { o with properties := named.properties } := foldl_addName _ o
  have hcodes : ps.foldlM (fun o p => inheritCode o p.code p) named = .ok o' ↔
      OneByOne Property.code l ps ∧ o' = (ps.filter fun p => p ∉ l).foldl addCode named :=
    takesOver_code.foldlM_eq_ok_iff (hl.byCode_addName _) hnodup fun p hp q hq =>
      hall p (hp.imp_right (hmem p).1) q ((hmem q).1 hq)
  let both := (ps.filter fun p => p ∉ l).foldl addCode named
  have hboth : both = { named with propertiesByCode := both.propertiesByCode } :=
    foldl_addCode _ named
  have hhead : both.header = o.header := by rw [hboth, hnamed]; rfl
  have hsub : both.subTypes = o.subTypes := by rw [hboth, hnamed]
  rw [inherit, Logged.result_bind_eq_ok_iff, inheritNames, hm.byName, List.foldlM_map]
  simp only [inheritCodes, hps, List.foldlM_map, Logged.liftM_eq_ofExcept,
    Logged.result_ofExcept, Logged.result_foldlM,
    takesOver_name.foldlM_eq_ok_iff hl.byName hm.nodup_names hall]
  constructor
  · rintro ⟨_, ⟨hn, rfl⟩, h2⟩
    obtain ⟨hc, rfl⟩ := hcodes.1 h2
    exact ⟨hn, hone.1 hc, hl.takeOver hm.nodup_names hnodup hmem hn hc, hhead, hsub⟩
  · rintro ⟨hn, hc, hh, hhead', hsub'⟩
    have hc := hone.2 hc
    have heq : o' = both := hh.ext (hl.takeOver hm.nodup_names hnodup hmem hn hc)
      (hhead'.trans hhead.symm) (hsub'.trans hsub.symm)
    exact ⟨named, ⟨hn, rfl⟩, hcodes.2 ⟨hc, heq⟩⟩

theorem pairwise_apart_joinNew (hl : o.Holds l) (hm : st.Holds m)
    (hn : OneByOne Property.name l m) (hc : OneByOne Property.code l m) :
    (joinNew l m).Pairwise Property.Apart := by
  refine List.pairwise_append.2 ⟨hl.pairwise_apart, hm.pairwise_apart.filter _, fun p hp q hq => ?_⟩
  obtain ⟨hq, hnew⟩ := List.mem_filter.1 hq
  have hne : p ≠ q := fun e => by simp [← e, hp] at hnew
  exact ⟨fun e => hne (hn p hp q hq e), fun e => hne (hc p hp q hq e)⟩

theorem exists_inherit (hl : o.Holds l) (hm : st.Holds m)
    (hsame : ∀ p ∈ l, ∀ q ∈ m, p.isSame q = true → p = q)
    (hn : OneByOne Property.name l m) (hc : OneByOne Property.code l m) :
    ∃ o', (o.inherit st).result = .ok o' := by
  have hnil : ObjectType.Holds { o with properties := ∅, propertiesByCode := ∅ } [] := .nil rfl rfl
  refine ⟨_, (inherit_eq_ok_iff hl hm hsame).2 ⟨hn, hc, hnil.insertProperties_of_apart (by simp)
    (pairwise_apart_joinNew hl hm hn hc), ?_, ?_⟩⟩
  · rw [header_insertProperties]; rfl
  · rw [subTypes_insertProperties]

/-! ### What the loops report -/

theorem inheritName_error {name : String} (h : (o.inheritName name p).result = .error e) :
    ∃ a b c d, e = .propertyNameCollision a b c d := by
  rw [inheritName] at h
  split at h
  · split at h
    · cases h
    · cases h; exact ⟨_, _, _, _, rfl⟩
  · cases h

theorem inheritCode_error {code : Code} (h : o.inheritCode code p = .error e) :
    ∃ a b c d f g, e = .propertyCodeCollision a b c d f g := by
  rw [inheritCode] at h
  split at h
  · split at h
    · cases h
    · cases h; exact ⟨_, _, _, _, _, _, rfl⟩
  · cases h

theorem inherit_error (h : (o.inherit st).result = .error e) :
    (∃ a b c d, e = .propertyNameCollision a b c d) ∨
      ∃ a b c d f g, e = .propertyCodeCollision a b c d f g := by
  rcases Logged.result_bind_eq_error_iff.1 h with h | ⟨o₁, _, h⟩
  · obtain ⟨x, _, o₂, h⟩ := Logged.foldlM_error h
    exact Or.inl (inheritName_error h)
  · obtain ⟨x, _, o₂, h⟩ := foldlM_error h
    exact Or.inr (inheritCode_error h)

end ObjectType
end SchemaLang
