import SchemaLang.Compile
import SchemaLang.Proofs.Declaration.Run
import SchemaLang.Proofs.Inheritance.Completion

/-!
# Resolving inheritance

All objects of a declared schema are completed, one after the other.  The order is that of
the codes, but nothing depends on it: any list of objects can be completed exactly when
each of them is grounded and coherent (`exists_completeAll_iff`), and afterwards `flat`
stands at all their ancestors (`Partial.of_completeAll`).

* `resolve_acceptance`: inheritance is resolved exactly when no object is above itself and
  no two properties that come together in one object share a name or a code.
* `compile_flattens`: each object of a compiled schema has its flat list.
-/

namespace SchemaLang

namespace Schema

variable {d s s' : Schema} {name : String} {names : List String} {p q : Property}

def completeAll (d : Schema) (names : List String) (s : Schema) : Logged Schema :=
  names.foldlM (fun s name => d.extend [] name s) s

theorem result_resolve : d.resolve.result = (d.completeAll d.codes.values d).result := by
  rw [resolve, Logged.result_bind, Logged.result_tell, completeAll]
  rfl

theorem resolve_error_kind {e : CompileError} (h : d.resolve.result = .error e) :
    e.kind = .collision := by
  rw [result_resolve] at h
  obtain ⟨_, _, _, h⟩ := Logged.foldlM_error h
  rcases extend_error h with ⟨_, rfl⟩ | ⟨_, _, _, _, rfl⟩ | ⟨_, _, _, _, _, _, rfl⟩
  · rfl
  · rfl
  · rfl

/-! ### Any list of objects -/

/-- **What a list of completions leaves**: `flat` at all ancestors of its objects, and
nothing new elsewhere. -/
theorem Partial.of_completeAll (hd : d.Declared) : ∀ {names : List String} {s s' : Schema},
    d.Partial s → d.Settled s [] → (d.completeAll names s).result = .ok s' →
      d.Partial s' ∧ (∀ n ∈ names, d.Completed s' [] n) ∧
        ∀ m, (∀ n ∈ names, ¬d.Ancestor n m) → s'.own m = s.own m
  | [], s, s', hs, _, h => by
    obtain rfl := Logged.result_foldlM_nil_eq_ok_iff.1 h
    exact ⟨hs, by simp, fun _ _ => rfl⟩
  | n :: names, s, s', hs, hset, h => by
    obtain ⟨s₁, h1, h2⟩ := Logged.result_foldlM_cons_eq_ok_iff.1 h
    obtain ⟨hs₁, hn, hrest⟩ := Partial.of_extend hd hs hset h1
    have hset₁ : d.Settled s₁ [] := hset.of_changed (fun m _ => hn.flat m) fun m _ => hrest m
    obtain ⟨hs', hall, hrest'⟩ := Partial.of_completeAll hd hs₁ hset₁ h2
    have hn' : d.Completed s' [] n :=
      hn.of_later (fun m hm => (hall m hm).flat) fun a _ hlater => hrest' a hlater
    refine ⟨hs', fun m hm => ?_, fun m hm => ?_⟩
    · rcases List.mem_cons.1 hm with rfl | hm
      · exact hn'
      · exact hall m hm
    · rw [hrest' m fun v hv => hm v (List.mem_cons_of_mem n hv), hrest m (hm n List.mem_cons_self)]

theorem Partial.exists_completeAll (hd : d.Declared) : ∀ {names : List String} {s : Schema},
    d.Partial s → d.Settled s [] → (∀ n ∈ names, d.Grounded n ∧ d.Coherent n) →
      ∃ s', (d.completeAll names s).result = .ok s'
  | [], s, _, _, _ => ⟨s, rfl⟩
  | n :: names, s, hs, hset, hall => by
    obtain ⟨hg, hc⟩ := hall n List.mem_cons_self
    obtain ⟨s₁, h1⟩ := Partial.exists_extend hd hg hc (fun _ hm => by cases hm) hs hset
    obtain ⟨hs₁, hn, hrest⟩ := Partial.of_extend hd hs hset h1
    have hset₁ : d.Settled s₁ [] := hset.of_changed (fun m _ => hn.flat m) fun m _ => hrest m
    obtain ⟨s', h2⟩ := Partial.exists_completeAll hd hs₁ hset₁
      fun m hm => hall m (List.mem_cons_of_mem n hm)
    exact ⟨s', Logged.result_foldlM_cons_eq_ok_iff.2 ⟨s₁, h1, h2⟩⟩

theorem coherent_of_flat_nil (h : d.flat name = []) : d.Coherent name :=
  ⟨by rw [h]; exact Property.oneByOne_nil, by rw [h]; exact Property.oneByOne_nil⟩

theorem Completed.coherent (hs : d.Partial s) (h : d.Completed s [] name) : d.Coherent name := by
  have hflat := h.flat name (.refl name)
  cases ho : s.object? name with
  | none => exact coherent_of_flat_nil (by rw [← hflat, own_of_none ho])
  | some o =>
    rw [own_of_object ho] at hflat
    have hholds := hs.holds ho
    rw [hflat] at hholds
    exact ⟨fun p hp q hq => hholds.eq_of_name_eq hp hq, fun p hp q hq => hholds.eq_of_code_eq hp hq⟩

/-- **A list of objects can be completed** exactly when each of them is grounded and
coherent. -/
theorem exists_completeAll_iff (hd : d.Declared) :
    (∃ s, (d.completeAll names d).result = .ok s) ↔
      ∀ n ∈ names, d.Grounded n ∧ d.Coherent n := by
  constructor
  · rintro ⟨s, h⟩ n hn
    obtain ⟨hs, hall, _⟩ := Partial.of_completeAll hd hd.partial_self (settled_self d []) h
    exact ⟨(hall n hn).grounded, (hall n hn).coherent hs⟩
  · exact Partial.exists_completeAll hd hd.partial_self (settled_self d [])

/-! ### All objects -/

theorem Declared.mem_codes_values (hd : d.Declared) {n : String} :
    n ∈ d.codes.values ↔ d.declares n = true := by
  rw [CodeMap.values, List.mem_map, declares_iff]
  constructor
  · rintro ⟨e, he, rfl⟩
    obtain ⟨o, ho, _⟩ := hd.code.1 (CodeMap.get?_eq_some_iff.2 he)
    exact ⟨o, ho⟩
  · rintro ⟨o, ho⟩
    exact ⟨(o.code, n), CodeMap.get?_eq_some_iff.1 (hd.code.2 ⟨o, ho, rfl⟩), rfl⟩

/-! A name that is not declared has no super types and no properties. -/

theorem grounded_of_undeclared (h : d.declares name ≠ true) : d.Grounded name :=
  grounded_iff.2 fun _ ht => absurd ht.declares_left h

theorem coherent_of_undeclared (h : d.declares name ≠ true) : d.Coherent name := by
  have hnone : d.object? name = none := by
    rw [← Option.not_isSome_iff_eq_none]
    exact h
  refine coherent_of_flat_nil ?_
  rw [(grounded_of_undeclared h).flat_eq, own_of_none hnone, supers_of_none hnone]
  rfl

theorem Declared.exists_resolve_iff (hd : d.Declared) :
    (∃ s, d.resolve.result = .ok s) ↔
      d.Acyclic ∧ ∀ n, d.declares n = true → d.Coherent n := by
  rw [result_resolve, exists_completeAll_iff hd, acyclic_iff_grounded]
  simp only [hd.mem_codes_values]
  constructor
  · intro h
    refine ⟨fun n => ?_, fun n hn => (h n hn).2⟩
    by_cases hn : d.declares n = true
    · exact (h n hn).1
    · exact grounded_of_undeclared hn
  · exact fun h n hn => ⟨h.1 n, h.2 n hn⟩

theorem Declared.holds_flat_of_completeAll (hd : d.Declared)
    (hnames : ∀ n, d.declares n = true → n ∈ names) (h : (d.completeAll names d).result = .ok s) :
    d.Partial s ∧ ∀ n o, s.object? n = some o → o.Holds (d.flat n) := by
  obtain ⟨hs, hcompleted, _⟩ := Partial.of_completeAll hd hd.partial_self (settled_self d []) h
  refine ⟨hs, fun n o ho => ?_⟩
  have hn : d.declares n = true := hs.declares_iff.1 (declares_iff.2 ⟨o, ho⟩)
  rw [← (hcompleted n (hnames n hn)).flat n (.refl n), own_of_object ho]
  exact hs.holds ho

/-- **What resolving leaves.** -/
theorem Declared.of_resolve (hd : d.Declared) (h : d.resolve.result = .ok s) :
    d.Partial s ∧ d.Acyclic ∧ (∀ n, d.Coherent n) ∧
      ∀ n o, s.object? n = some o → o.Holds (d.flat n) := by
  obtain ⟨hacyclic, hcoherent⟩ := hd.exists_resolve_iff.1 ⟨s, h⟩
  rw [result_resolve] at h
  obtain ⟨hs, hholds⟩ :=
    hd.holds_flat_of_completeAll (fun n hn => hd.mem_codes_values.2 hn) h
  refine ⟨hs, hacyclic, fun n => ?_, hholds⟩
  by_cases hn : d.declares n = true
  · exact hcoherent n hn
  · exact coherent_of_undeclared hn

theorem Partial.name_eq (hs : d.Partial s) (hd : d.Declared) {n : String} {o : ObjectType}
    (ho : s.object? n = some o) : o.name = n := by
  obtain ⟨o', ho', hhead⟩ := hs.header ho
  rw [(ObjectType.header_eq_iff.1 hhead).1, hd.name ho']

/-- **Resolving leaves the own properties of an object** as they were declared. -/
theorem Declared.ownProperties_of_resolve (hd : d.Declared) (h : d.resolve.result = .ok s)
    {n : String} {o : ObjectType} (ho : s.object? n = some o) : o.ownProperties = d.own n := by
  obtain ⟨hs, hacyclic, _, hholds⟩ := hd.of_resolve h
  rw [ObjectType.ownProperties, (hholds n o ho).values, hs.name_eq hd ho,
    hd.filter_flat (acyclic_iff_grounded.1 hacyclic n)]

/-- **Coherence by ancestors**: of the properties that come together in a grounded object,
different ones share neither name nor code. -/
theorem Declared.coherent_iff (hd : d.Declared) (h : d.Grounded name) :
    d.Coherent name ↔ ∀ a b, d.Ancestor name a → d.Ancestor name b →
      ∀ p ∈ d.own a, ∀ q ∈ d.own b, p.owner ≠ q.owner ∨ p.name ≠ q.name →
        p.name ≠ q.name ∧ p.code ≠ q.code := by
  have hgenuine : ∀ {a p}, p ∈ d.own a → p ∈ d.own p.owner := fun {a p} hp =>
    hd.partial_self.genuine a p hp
  constructor
  · intro hc a b ha hb p hp q hq hne
    have hpf := h.mem_flat_iff.2 ⟨a, ha, hp⟩
    have hqf := h.mem_flat_iff.2 ⟨b, hb, hq⟩
    have hpq : p ≠ q := by
      rintro rfl
      rcases hne with hne | hne
      · exact hne rfl
      · exact hne rfl
    exact ⟨fun e => hpq (hc.byName p hpf q hqf e), fun e => hpq (hc.byCode p hpf q hqf e)⟩
  · intro hall
    have hone : ∀ p ∈ d.flat name, ∀ q ∈ d.flat name,
        p.name = q.name ∨ p.code = q.code → p = q := by
      intro p hp q hq e
      obtain ⟨a, ha, hpa⟩ := h.mem_flat_iff.1 hp
      obtain ⟨b, hb, hqb⟩ := h.mem_flat_iff.1 hq
      by_cases hs : p.owner = q.owner ∧ p.name = q.name
      · exact hd.eq_of_isSame (hgenuine hpa) (hgenuine hqb) (Property.isSame_iff.2 hs)
      · obtain ⟨hn, hc⟩ := hall a b ha hb p hpa q hqb (not_and_or.1 hs)
        rcases e with e | e
        · exact absurd e hn
        · exact absurd e hc
    exact ⟨fun p hp q hq e => hone p hp q hq (Or.inl e),
      fun p hp q hq e => hone p hp q hq (Or.inr e)⟩

end Schema

open Outline (Node)

variable {options : Options} {nodes : List Node} {d s : Schema}

/-- **An outline compiles** when it declares a schema whose references are good and whose
inheritance is resolved. -/
theorem compile_eq_ok_iff : (compile options nodes).result = .ok s ↔
    ∃ d, (declareAll options nodes).result = .ok d ∧ d.checkReferences = .ok () ∧
      d.resolve.result = .ok s := by
  simp only [compile, Logged.result_bind_eq_ok_iff, Logged.liftM_eq_ofExcept,
    Logged.result_ofExcept, Logged.result_tell]
  constructor
  · rintro ⟨d, hd, _, _, _, hrefs, hs⟩; exact ⟨d, hd, hrefs, hs⟩
  · rintro ⟨d, hd, hrefs, hs⟩; exact ⟨d, hd, (), trivial, (), hrefs, hs⟩

theorem holds_of_compile (h : (compile options nodes).result = .ok s) :
    ∀ o ∈ s.objectList, o.Holds o.properties.values := by
  obtain ⟨d, hdecl, _, hs⟩ := compile_eq_ok_iff.1 h
  obtain ⟨hp, _⟩ := (declared_of_declareAll hdecl).of_resolve hs
  intro o ho
  obtain ⟨n, hn⟩ := OrderedMap.mem_values_iff.1 ho
  exact hp.holds hn

/-- **Inheritance is resolved** exactly when no object is above itself and no two different
properties that come together in one object share a name or a code.  It fails with
recursive inheritance or with a collision. -/
theorem resolve_acceptance (h : (declareAll options nodes).result = .ok d) :
    ((∃ s, d.resolve.result = .ok s) ↔
      d.Acyclic ∧ ∀ n, d.declares n = true →
        ∀ a b, d.Ancestor n a → d.Ancestor n b → ∀ p ∈ d.own a, ∀ q ∈ d.own b,
          p.owner ≠ q.owner ∨ p.name ≠ q.name → p.name ≠ q.name ∧ p.code ≠ q.code) ∧
    ∀ e, d.resolve.result = .error e →
      (∃ n, e = .recursiveInheritance n) ∨ (∃ a b c d, e = .propertyNameCollision a b c d) ∨
        ∃ a b c d f g, e = .propertyCodeCollision a b c d f g := by
  obtain ⟨_, _, hcol⟩ := collects_of_declareAll h
  have hd := hcol.declared
  constructor
  · rw [hd.exists_resolve_iff]
    constructor
    · rintro ⟨hacyclic, hc⟩
      exact ⟨hacyclic, fun n hn =>
        (hd.coherent_iff (Schema.acyclic_iff_grounded.1 hacyclic n)).1 (hc n hn)⟩
    · rintro ⟨hacyclic, hc⟩
      exact ⟨hacyclic, fun n hn =>
        (hd.coherent_iff (Schema.acyclic_iff_grounded.1 hacyclic n)).2 (hc n hn)⟩
  · intro e he
    rw [Schema.result_resolve] at he
    obtain ⟨n, _, s, he⟩ := Logged.foldlM_error he
    exact Schema.extend_error he

/-- Four objects, of which the last inherits from the first in two ways. -/
def diamond : List Node :=
  [{ words := ["top", "1"], line := "top 1", lineNumber := 1
     children := [⟨["id", "string", "1"], [], "id string 1", 2⟩] },
   { words := ["left", "2", "top"], line := "left 2 top", lineNumber := 3
     children := [⟨["l", "string", "2"], [], "l string 2", 4⟩] },
   { words := ["right", "3", "top"], line := "right 3 top", lineNumber := 5
     children := [⟨["r", "string", "3"], [], "r string 3", 6⟩] },
   { words := ["bottom", "4", "left", "right", "nowhere"], line := "bottom 4 left right nowhere"
     lineNumber := 7, children := [] }]

theorem diamond_acyclic : ∃ d, (declareAll {} diamond).result = .ok d ∧ d.Acyclic := by
  have hok : ((declareAll {} diamond).result.bind fun d => d.resolve.result).toOption.isSome :=
    by decide +kernel
  cases h : (declareAll {} diamond).result with
  | error e => rw [h] at hok; cases hok
  | ok d =>
    rw [h] at hok
    cases hs : d.resolve.result with
    | error e => simp only [Except.bind, hs] at hok; cases hok
    | ok s => exact ⟨d, rfl, ((resolve_acceptance h).1.1 ⟨s, hs⟩).1⟩

/-- **Each object of a compiled schema has its flat list**, whichever way it was completed.

The list is its own properties, followed, for each of its declared super types in turn, by
what that super type has in the end and is not in the list yet.  Both indexes of the object
hold that list, each property that an ancestor declares is in it once, and every other
order of completing the objects would have ended with the same. -/
theorem compile_flattens (h : (compile options nodes).result = .ok s) :
    ∃ d, (declareAll options nodes).result = .ok d ∧ s.objects.keys = d.objects.keys ∧
      (∀ n o, s.object? n = some o → ∃ o₀, d.object? n = some o₀ ∧ o.header = o₀.header ∧
        d.flat n = (o.superTypes.toList.filter d.declares).foldl
          (fun l t => l ++ (d.flat t).filter fun p => p ∉ l) o₀.properties.values ∧
        o.properties.entries = (d.flat n).map (fun p => (p.name, p)) ∧
        (∀ c p, (c, p) ∈ o.propertiesByCode.entries ↔ p ∈ d.flat n ∧ p.code = c) ∧
        (∀ p, p ∈ o.properties.values ↔ ∃ a, d.Ancestor n a ∧ p ∈ d.own a) ∧
        o.properties.values.Nodup) ∧
      ∀ names : List String, (∀ n, d.declares n = true → n ∈ names) →
        ∃ s', (names.foldlM (fun s name => d.extend [] name s) d).result = .ok s' ∧
          s'.objects.keys = s.objects.keys ∧ ∀ n o o', s.object? n = some o →
            s'.object? n = some o' →
              o'.properties = o.properties ∧ o'.propertiesByCode = o.propertiesByCode := by
  rw [compile, Logged.result_bind_eq_ok_iff] at h
  obtain ⟨d, hdecl, h⟩ := h
  obtain ⟨_, _, hcol⟩ := collects_of_declareAll hdecl
  have hd := hcol.declared
  obtain ⟨_, _, h⟩ := Logged.result_bind_eq_ok_iff.1 h
  obtain ⟨_, _, h⟩ := Logged.result_bind_eq_ok_iff.1 h
  obtain ⟨hs, hacyclic, hcoherent, hholds⟩ := hd.of_resolve h
  have hgrounded := Schema.acyclic_iff_grounded.1 hacyclic
  refine ⟨d, hdecl, hs.keys, fun n o ho => ?_, fun names hnames => ?_⟩
  · obtain ⟨o₀, ho₀, hhead⟩ := hs.header ho
    have hl := hholds n o ho
    refine ⟨o₀, ho₀, hhead, ?_, hl.byName, hl.byCode, fun p => ?_, ?_⟩
    · rw [(hgrounded n).flat_eq, Schema.own_of_object ho₀, Schema.supers_of_object ho₀,
        (ObjectType.header_eq_iff.1 hhead).2.2]
      rfl
    · rw [hl.values, (hgrounded n).mem_flat_iff]
    · rw [hl.values]; exact hl.nodup
  · obtain ⟨s', h'⟩ : ∃ s', (d.completeAll names d).result = .ok s' :=
      (Schema.exists_completeAll_iff hd).2 fun n _ => ⟨hgrounded n, hcoherent n⟩
    obtain ⟨hs', hholds'⟩ := hd.holds_flat_of_completeAll hnames h'
    refine ⟨s', h', hs'.keys.trans hs.keys.symm, fun n o o' ho ho' => ?_⟩
    exact (hholds' n o' ho').indexes_eq (hholds n o ho)

theorem diamond_flattens : ∃ s d, (compile {} diamond).result = .ok s ∧
    (declareAll {} diamond).result = .ok d ∧ s.objects.keys = d.objects.keys ∧
      ∀ n o, s.object? n = some o →
        o.properties.entries = (d.flat n).map fun p => (p.name, p) := by
  have hok : (compile {} diamond).result.toOption.isSome := by decide +kernel
  cases hs : (compile {} diamond).result with
  | error e => rw [hs] at hok; cases hok
  | ok s =>
    obtain ⟨d, hd, hkeys, hobjects, _⟩ := compile_flattens hs
    refine ⟨s, d, rfl, hd, hkeys, fun n o ho => ?_⟩
    obtain ⟨_, _, _, _, hentries, _⟩ := hobjects n o ho
    exact hentries

end SchemaLang
