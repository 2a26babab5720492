import SchemaLang.Proofs.Declaration.Determined
import SchemaLang.Proofs.Declaration.Rearrangement
import SchemaLang.Proofs.Inheritance.Indexing
import SchemaLang.Proofs.Inheritance.SubTypes
import SchemaLang.Proofs.References

/-!
# Order and numbering do not matter

Two declared schemas that have the same objects but for their order and their codes have the same
graph of super types and the same own properties.  What inheritance is resolved to is said in these
terms alone: it is whether the graph is acyclic, which properties come together in an object, the
flat list of each object, and the sub types as the super types the other way round.  So the
references of the one schema are good and its inheritance is resolved exactly when this is so for
the other, and in the end the objects have the same properties and the same sub types.

The order in which an object comes to know its sub types is that in which the objects are
completed, by their codes.  When no code changes, that is one order, and the two resolutions are
kept in step object by object (`extend_object?_eq`).
-/

namespace SchemaLang

namespace Schema

open ObjectType (recode)

variable {f : Code → Code} {d d' s s' r r' : Schema} {name n t : String} {path : List String}

/-! ### What does not depend on order and codes -/

namespace Recoded

theorem object?_eq {o : ObjectType} (h : d.Recoded f d') (ho : d.object? n = some o) :
    d'.object? n = some (o.recode f) := by
  rw [h n, ho]
  rfl

theorem declares_eq (h : d.Recoded f d') : d'.declares = d.declares := by
  funext n
  have hsome := congrArg Option.isSome (h n)
  rwa [Option.isSome_map] at hsome

theorem own_eq (h : d.Recoded f d') (n : String) : d'.own n = d.own n := by
  cases ho : d.object? n with
  | none => rw [own_of_none ho, own_of_none (by rw [h n, ho]; rfl)]
  | some o =>
    rw [own_of_object ho, own_of_object (h.object?_eq ho)]
    rfl

theorem supers_eq (h : d.Recoded f d') (n : String) : d'.supers n = d.supers n := by
  cases ho : d.object? n with
  | none => rw [supers_of_none ho, supers_of_none (by rw [h n, ho]; rfl)]
  | some o =>
    rw [supers_of_object ho, supers_of_object (h.object?_eq ho), h.declares_eq]
    rfl

theorem super_eq (h : d.Recoded f d') : d'.Super = d.Super := by
  funext n t
  rw [Super, Super, h.supers_eq]

theorem acyclic_iff (h : d.Recoded f d') : d'.Acyclic ↔ d.Acyclic := by
  rw [Acyclic, Acyclic, h.super_eq]

theorem flat_eq (h : d.Recoded f d') (hg : d.Grounded n) : d'.flat n = d.flat n :=
  (hg.flat_congr fun a _ => ⟨h.own_eq a, h.supers_eq a⟩).2

theorem coherent_iff (h : d.Recoded f d') (hg : d.Grounded n) :
    d'.Coherent n ↔ d.Coherent n := by
  constructor
  · exact fun hc => ⟨h.flat_eq hg ▸ hc.byName, h.flat_eq hg ▸ hc.byCode⟩
  · exact fun hc => ⟨(h.flat_eq hg).symm ▸ hc.byName, (h.flat_eq hg).symm ▸ hc.byCode⟩

/-- **One schema is resolved when the other one is.** -/
theorem exists_resolve_iff (h : d.Recoded f d') (hd : d.Declared) (hd' : d'.Declared) :
    (∃ s, d.resolve.result = .ok s) ↔ ∃ s', d'.resolve.result = .ok s' := by
  rw [hd.exists_resolve_iff, hd'.exists_resolve_iff, h.acyclic_iff, h.declares_eq]
  refine and_congr_right fun hacyclic => forall₂_congr fun n _ => ?_
  rw [h.coherent_iff (acyclic_iff_grounded.1 hacyclic n)]

end Recoded

theorem Recoded.checkReferences_iff (h : d.Recoded f d') (hd : d.Declared) (hd' : d'.Declared) :
    d.checkReferences = .ok () ↔ d'.checkReferences = .ok () := by
  rw [checkReferences_eq_ok_iff_own hd.named, checkReferences_eq_ok_iff_own hd'.named,
    h.declares_eq]
  simp only [h.own_eq]

/-! ### In step -/

/-- Objects that are the same stay the same when one of them is replaced in both schemas. -/
theorem object?_setObject_eq {o : ObjectType} (hs : ∀ m, s'.object? m = s.object? m) (m : String) :
    (s'.setObject n o).object? m = (s.setObject n o).object? m := by
  rw [object?_setObject, object?_setObject, hs]

theorem inheritFrom_object?_eq (hs : ∀ m, s'.object? m = s.object? m)
    (h : (s.inheritFrom n t).result = .ok r) (h' : (s'.inheritFrom n t).result = .ok r')
    (m : String) : r'.object? m = r.object? m := by
  rw [inheritFrom] at h h'
  rw [hs] at h'
  cases ht : s.object? t with
  | none =>
    simp only [ht] at h h'
    cases h
    cases h'
    exact hs m
  | some st =>
    simp only [ht] at h h'
    have hset := object?_setObject_eq (n := t)
      (o := { st with subTypes := st.subTypes.insert n }) hs
    rw [hset] at h'
    cases ho : (s.setObject t { st with subTypes := st.subTypes.insert n }).object? n with
    | none =>
      simp only [ho] at h h'
      cases h
      cases h'
      exact hset m
    | some o =>
      simp only [ho] at h h'
      obtain ⟨o₁, h1, h⟩ := Logged.result_bind_eq_ok_iff.1 h
      obtain ⟨o₂, h2, h'⟩ := Logged.result_bind_eq_ok_iff.1 h'
      obtain rfl : o₁ = o₂ := Except.ok.inj (h1.symm.trans h2)
      cases h
      cases h'
      exact object?_setObject_eq hset m

/-- **Completing an object depends on no order**: from the same objects, it leaves the same
objects. -/
theorem extend_object?_eq (hd : d.Recoded id d') (hs : ∀ m, s'.object? m = s.object? m)
    (h : (d.extend path name s).result = .ok r) (h' : (d'.extend path name s').result = .ok r')
    (m : String) : r'.object? m = r.object? m := by
  induction hk : d.outside path using Nat.strongRecOn generalizing path name s s' r r' m with
  | ind k ih =>
    subst hk
    by_cases hp : name ∈ path
    · rw [extend_of_mem hp] at h
      cases h
    · rw [result_extend hp] at h h'
      rw [hd.supers_eq] at h'
      refine Logged.foldlM_related (R := fun s s' => ∀ m, s'.object? m = s.object? m)
        (fun t ht s s' r r' hs h h' => ?_) hs h h' m
      obtain ⟨s₁, h1, h2⟩ := Logged.result_bind_eq_ok_iff.1 h
      obtain ⟨s₂, h1', h2'⟩ := Logged.result_bind_eq_ok_iff.1 h'
      obtain ⟨o, ho⟩ := Schema.declares_iff.1 (Super.declares_left ht)
      exact inheritFrom_object?_eq
        (fun m => ih _ (outside_cons_lt hp ho) hs h1 h1' m rfl) h2 h2'

/-- **Without new codes, the objects are resolved to the same objects.** -/
theorem resolve_object?_eq (h : d.Recoded id d') (hd : d.Declared) (hd' : d'.Declared)
    (hs : d.resolve.result = .ok s) (hs' : d'.resolve.result = .ok s') (m : String) :
    s'.object? m = s.object? m := by
  have hobjects : ∀ m, d'.object? m = d.object? m := fun m => by
    rw [h m]
    exact Option.map_id_apply
  -- the objects are completed by their codes, which are the same
  have hcodes : d'.codes = d.codes := CodeMap.ext_mem fun e => by
    obtain ⟨c, n⟩ := e
    rw [← CodeMap.get?_eq_some_iff, ← CodeMap.get?_eq_some_iff, hd.code, hd'.code, hobjects]
  rw [result_resolve, completeAll] at hs hs'
  rw [hcodes] at hs'
  refine Logged.foldlM_related (R := fun s s' => ∀ m, s'.object? m = s.object? m) ?_
    hobjects hs hs' m
  exact fun n _ s s' r r' hs hr hr' => extend_object?_eq h hs hr hr'

/-! ### In the end -/

/-- The second schema has the objects of the first one, in any order and with their codes replaced
through `f`.  The sub types of an object may stand in another order, unless no code has changed. -/
structure Rearranged (f : Code → Code) (s s' : Schema) : Prop where
  names : s.objects.keys.Perm s'.objects.keys
  codes : ∀ c n, s'.codes.get? (f c) = some n ↔ s.codes.get? c = some n
  objects : ∀ n o o', s.object? n = some o → s'.object? n = some o' →
    o'.code = f o.code ∧ o'.superTypes = o.superTypes ∧ o'.properties = o.properties ∧
      o'.propertiesByCode = o.propertiesByCode ∧ ∀ t, t ∈ o'.subTypes ↔ t ∈ o.subTypes
  unchanged : (∀ o ∈ s.objectList, f o.code = o.code) → ∀ n, s'.object? n = s.object? n

theorem Recoded.keys_perm (h : d.Recoded f d') : d.objects.keys.Perm d'.objects.keys := by
  refine (List.perm_ext_iff_of_nodup d.objects.nodup_keys d'.objects.nodup_keys).2 fun n => ?_
  show n ∈ d.objects.keys ↔ n ∈ d'.objects.keys
  rw [mem_keys_iff, mem_keys_iff, ← declares_iff, ← declares_iff, h.declares_eq]

/-- **What two schemas with the same objects are resolved to.** -/
theorem Recoded.resolve (h : d.Recoded f d') (hf : Function.Injective f) (hd : d.Declared)
    (hd' : d'.Declared) (hs : d.resolve.result = .ok s) (hs' : d'.resolve.result = .ok s') :
    s.Rearranged f s' := by
  obtain ⟨hp, hacyclic, _, hflat⟩ := hd.of_resolve hs
  obtain ⟨hp', _, _, hflat'⟩ := hd'.of_resolve hs'
  have hgrounded := acyclic_iff_grounded.1 hacyclic
  refine ⟨?_, fun c n => ?_, fun n o o' ho ho' => ?_, fun hcodes n => ?_⟩
  · rw [hp.keys, hp'.keys]
    exact h.keys_perm
  · rw [hp.codes, hp'.codes, hd.code, hd'.code, h n]
    simp [recode, hf.eq_iff]
  · obtain ⟨o₀, ho₀, hhead⟩ := hp.header ho
    have hhead' := hp'.header_eq ho' (h.object?_eq ho₀)
    obtain ⟨_, hcode, hsup⟩ := ObjectType.header_eq_iff.1 hhead
    obtain ⟨_, hcode', hsup'⟩ := ObjectType.header_eq_iff.1 hhead'
    have hl := hflat' n o' ho'
    rw [h.flat_eq (hgrounded n)] at hl
    obtain ⟨hprops, hbyCode⟩ := hl.indexes_eq (hflat n o ho)
    refine ⟨hcode'.trans (congrArg f hcode.symm), hsup'.trans hsup.symm, hprops, hbyCode,
      fun t => ?_⟩
    rw [hd.mem_subTypes_iff hs ho, hd'.mem_subTypes_iff hs' ho', h.super_eq]
  · refine resolve_object?_eq (fun m => ?_) hd hd' hs hs' n
    rw [h m]
    cases ho₀ : d.object? m with
    | none => rfl
    | some o₀ =>
      obtain ⟨o, ho, hhead⟩ := hp.exists_header_eq ho₀
      have hcode := hcodes o (mem_objectList_iff.2 ⟨m, ho⟩)
      rw [(ObjectType.header_eq_iff.1 hhead).2.1] at hcode
      simp [recode, hcode]

end Schema

open Outline (Node)

variable {options : Options} {f : Code → Code} {nodes nodes' : List Node}

/-- **Declaration order and object numbering do not matter.**  Of two rearranged outlines, one
compiles when the other one does, and then to the rearranged schema. -/
theorem compile_rearranged (h : Outline.Rearranged f nodes nodes') (hf : Function.Injective f) :
    ((∃ s, (compile options nodes).result = .ok s) ↔
      ∃ s', (compile options nodes').result = .ok s') ∧
    ∀ s s', (compile options nodes).result = .ok s → (compile options nodes').result = .ok s' →
      s.Rearranged f s' := by
  have hsame : ∀ {d d'}, (declareAll options nodes).result = .ok d →
      (declareAll options nodes').result = .ok d' →
        (d.checkReferences = .ok () ↔ d'.checkReferences = .ok ()) ∧
          ((∃ s, d.resolve.result = .ok s) ↔ ∃ s', d'.resolve.result = .ok s') :=
    fun {d d'} hdecl hdecl' => by
      have hr := recoded_of_declareAll h hdecl hdecl'
      have hd := declared_of_declareAll hdecl
      have hd' := declared_of_declareAll hdecl'
      exact ⟨hr.checkReferences_iff hd hd', hr.exists_resolve_iff hd hd'⟩
  refine ⟨⟨?_, ?_⟩, fun s s' hs hs' => ?_⟩
  · rintro ⟨s, hs⟩
    obtain ⟨d, hd, hrefs, hs⟩ := compile_eq_ok_iff.1 hs
    obtain ⟨d', hd'⟩ := (exists_declareAll_iff_of_rearranged h hf).1 ⟨d, hd⟩
    obtain ⟨hcheck, hresolve⟩ := hsame hd hd'
    obtain ⟨s', hs'⟩ := hresolve.1 ⟨s, hs⟩
    exact ⟨s', compile_eq_ok_iff.2 ⟨d', hd', hcheck.1 hrefs, hs'⟩⟩
  · rintro ⟨s', hs'⟩
    obtain ⟨d', hd', hrefs, hs'⟩ := compile_eq_ok_iff.1 hs'
    obtain ⟨d, hd⟩ := (exists_declareAll_iff_of_rearranged h hf).2 ⟨d', hd'⟩
    obtain ⟨hcheck, hresolve⟩ := hsame hd hd'
    obtain ⟨s, hs⟩ := hresolve.2 ⟨s', hs'⟩
    exact ⟨s, compile_eq_ok_iff.2 ⟨d, hd, hcheck.2 hrefs, hs⟩⟩
  · obtain ⟨d, hd, _, hs⟩ := compile_eq_ok_iff.1 hs
    obtain ⟨d', hd', _, hs'⟩ := compile_eq_ok_iff.1 hs'
    exact (recoded_of_declareAll h hd hd').resolve hf (declared_of_declareAll hd)
      (declared_of_declareAll hd') hs hs'

/-- The diamond from the bottom to the top, with negative codes. -/
def renumberedDiamond : List Node :=
  (diamond.reverse ++ redeclaredDiamond.drop 4).map fun node =>
    { node with words := node.words.modify 1 ("-" ++ ·) }

theorem renumberedDiamond_rearranged : ∃ s s', (compile {} redeclaredDiamond).result = .ok s ∧
    (compile {} renumberedDiamond).result = .ok s' ∧ s.Rearranged (fun c => -c) s' := by
  have hinj : Function.Injective fun c : Code => -c := fun a b e => Int64.neg_inj.1 e
  have hrearranged : Outline.Rearranged (fun c => -c) redeclaredDiamond renumberedDiamond := by
    refine ⟨diamond.reverse ++ redeclaredDiamond.drop 4, ?_, fun n => ?_, ?_⟩
    · exact (List.reverse_perm diamond).symm.append_right _
    · by_cases htop : n = "top"
      · subst htop; rfl
      by_cases hleft : n = "left"
      · subst hleft; rfl
      by_cases hright : n = "right"
      · subst hright; rfl
      by_cases hbottom : n = "bottom"
      · subst hbottom; rfl
      simp [redeclaredDiamond, diamond, Node.name?, Ne.symm htop, Ne.symm hleft, Ne.symm hright,
        Ne.symm hbottom]
    · rw [renumberedDiamond, List.forall₂_map_right_iff, List.forall₂_same]
      have hcode : ∀ a ∈ diamond.reverse ++ redeclaredDiamond.drop 4,
          Node.objectCode? { a with words := a.words.modify 1 ("-" ++ ·) } =
            a.objectCode?.map fun c => -c := by decide +kernel
      have hwords : ∀ l : List String, ∃ word, l.modify 1 ("-" ++ ·) = l.set 1 word := fun l => by
        rcases l with _ | ⟨_, _ | ⟨word, _⟩⟩
        · exact ⟨"", rfl⟩
        · exact ⟨"", rfl⟩
        · exact ⟨"-" ++ word, rfl⟩
      exact fun a ha => ⟨hwords a.words, hcode a ha, rfl, rfl⟩
  have hok : (compile {} redeclaredDiamond).result.toOption.isSome := by decide +kernel
  cases hs : (compile {} redeclaredDiamond).result with
  | error e => rw [hs] at hok; cases hok
  | ok s =>
    obtain ⟨hiff, hsame⟩ := compile_rearranged hrearranged hinj
    obtain ⟨s', hs'⟩ := hiff.1 ⟨s, hs⟩
    exact ⟨s, s', rfl, hs', hsame s s' hs hs'⟩

end SchemaLang
