import SchemaLang.Proofs.Declaration.Faults
import SchemaLang.Proofs.Inheritance.Walk

/-!
# What inheritance reports

Inheritance fails with a collision of names, with a collision of codes, or with a cycle.  The
error names the objects, the properties and the code, and what it says is so in the schema that
was declared (`Schema.Bears`): the properties that collide are two, of two owners, and both come
together in the object.

The error is found in the middle of the work, while objects have part of what they inherit.
Three facts about that moment are enough.

* `ObjectType.inherit_eq_error`: taking over fails at two properties that share a name, or share
  a code when all names are free.
* `Rises`: each property on the way is owned by an ancestor of the object that has it.
* `Sound.bears_of_error`: a sound walk that fails has met its own path, or two such properties.
-/

namespace SchemaLang

namespace Property

variable {κ σ ε : Type} {key : Property → κ} {l m : List Property}

/-- **A loop that fails** fails at a property that shares its key with another one.  What was
added before it is `ps`. -/
theorem TakesOver.exists_of_foldlM_error {Has : σ → List Property → Prop} {add : σ → Property → σ}
    {f : σ → Property → Except ε σ} {o : σ} {e : ε} (hf : TakesOver key Has add f) (ho : Has o l)
    (hm : (m.map key).Nodup)
    (hsame : ∀ p, p ∈ l ∨ p ∈ m → ∀ q ∈ m, p.isSame q = true → p = q)
    (h : m.foldlM f o = .error e) :
    ∃ ps : List Property, ∃ p ∈ l, ∃ q ∈ m, p ≠ q ∧ key p = key q ∧
      Has (ps.foldl add o) (l ++ ps) ∧ f (ps.foldl add o) q = .error e := by
  induction m generalizing o l with
  | nil => cases h
  | cons q m ih =>
    rw [List.map_cons, List.nodup_cons] at hm
    rw [List.foldlM_cons] at h
    by_cases hshare : ∃ p ∈ l, key p = key q
    · obtain ⟨p, hp, hkey⟩ := hshare
      by_cases hpq : p = q
      · subst hpq
        rw [hf.pass ho hp] at h
        obtain ⟨ps, a, ha, b, hb, hrest⟩ := ih ho hm.2
          (fun a ha b hb => hsame a (ha.imp_right (List.mem_cons_of_mem p)) b
            (List.mem_cons_of_mem p hb)) h
        exact ⟨ps, a, ha, b, List.mem_cons_of_mem p hb, hrest⟩
      · have hdiff : ¬ p.isSame q = true := fun hs =>
          hpq (hsame p (Or.inl hp) q List.mem_cons_self hs)
        obtain ⟨e', he⟩ := hf.refuse ho hp hkey hdiff
        rw [he] at h
        cases h
        exact ⟨[], p, hp, q, List.mem_cons_self, hpq, hkey, by rwa [List.append_nil], he⟩
    · have hnew : ∀ p ∈ l, key p ≠ key q := fun p hp e => hshare ⟨p, hp, e⟩
      obtain ⟨hadd, hhas⟩ := hf.free ho hnew
      rw [hadd] at h
      have hsame' : ∀ a, a ∈ l ++ [q] ∨ a ∈ m → ∀ b ∈ m, a.isSame b = true → a = b := by
        intro a ha b hb
        refine hsame a ?_ b (List.mem_cons_of_mem q hb)
        rwa [List.mem_cons, ← or_assoc, ← List.mem_singleton (a := a), ← List.mem_append]
      obtain ⟨ps, a, ha, b, hb, hne, hkey, hrest⟩ := ih hhas hm.2 hsame' h
      -- what was added first shares its key with nothing that comes later
      have hal : a ∈ l := by
        rcases List.mem_append.1 ha with ha | ha
        · exact ha
        · rw [List.mem_singleton.1 ha] at hkey
          exact absurd (hkey ▸ List.mem_map_of_mem hb) hm.1
      refine ⟨q :: ps, a, hal, b, List.mem_cons_of_mem q hb, hne, hkey, ?_⟩
      rwa [List.append_cons]

end Property

namespace ObjectType

open Property (OneByOne)

variable {o st : ObjectType} {l m : List Property} {e : CompileError}

theorem inheritNames_error (hl : o.Holds l) (hm : st.Holds m)
    (hsame : ∀ p, p ∈ l ∨ p ∈ m → ∀ q ∈ m, p.isSame q = true → p = q)
    (h : (o.inheritNames st).result = .error e) :
    ∃ p ∈ l, ∃ q ∈ m, p ≠ q ∧ p.name = q.name ∧
      e = .propertyNameCollision o.name q.name p.owner q.owner := by
  rw [inheritNames, hm.byName, List.foldlM_map, Logged.result_foldlM] at h
  obtain ⟨ps, p, hp, q, hq, hne, hname, hhas, he⟩ :=
    takesOver_name.exists_of_foldlM_error hl.byName hm.nodup_names hsame h
  refine ⟨p, hp, q, hq, hne, hname, ?_⟩
  have hfound : (ps.foldl addName o).property? q.name = some p :=
    (property?_eq_some_iff_of_byName hhas).2 ⟨List.mem_append_left ps hp, hname⟩
  rw [inheritName, hfound] at he
  dsimp only at he
  split at he
  · cases he
  · rw [foldl_addName] at he
    cases he
    rfl

theorem inheritCodes_error
    (hl : ∀ c p, (c, p) ∈ o.propertiesByCode.entries ↔ p ∈ l ∧ p.code = c) (hm : st.Holds m)
    (hsame : ∀ p, p ∈ l ∨ p ∈ m → ∀ q ∈ m, p.isSame q = true → p = q)
    (h : o.inheritCodes st = .error e) :
    ∃ p ∈ l, ∃ q ∈ m, p ≠ q ∧ p.code = q.code ∧
      e = .propertyCodeCollision o.name p.name p.owner q.name q.owner q.code := by
  obtain ⟨qs, hqs, hmem, hnodup⟩ := hm.exists_entries_byCode
  rw [inheritCodes, hqs, List.foldlM_map] at h
  obtain ⟨ps, p, hp, q, hq, hne, hcode, hhas, he⟩ :=
    takesOver_code.exists_of_foldlM_error hl hnodup
      (fun p hp q hq => hsame p (hp.imp_right (hmem p).1) q ((hmem q).1 hq)) h
  refine ⟨p, hp, q, (hmem q).1 hq, hne, hcode, ?_⟩
  have hfound : (ps.foldl addCode o).propertyByCode? q.code = some p :=
    (propertyByCode?_eq_some_iff_of_byCode hhas).2 ⟨List.mem_append_left ps hp, hcode⟩
  rw [inheritCode, hfound] at he
  dsimp only at he
  split at he
  · cases he
  · rw [foldl_addCode] at he
    cases he
    rfl

/-- **Taking over fails at two properties that share a name, or a code but no name.**  Between
the two loops the names have been found to be free, so what shares a code has two names. -/
theorem inherit_eq_error (hl : o.Holds l) (hm : st.Holds m)
    (hsame : ∀ p ∈ l, ∀ q ∈ m, p.isSame q = true → p = q) (h : (o.inherit st).result = .error e) :
    ∃ p ∈ l, ∃ q ∈ m, p ≠ q ∧
      ((p.name = q.name ∧ e = .propertyNameCollision o.name q.name p.owner q.owner) ∨
        (p.name ≠ q.name ∧ p.code = q.code ∧
          e = .propertyCodeCollision o.name p.name p.owner q.name q.owner q.code)) := by
  have hall : ∀ p, p ∈ l ∨ p ∈ m → ∀ q ∈ m, p.isSame q = true → p = q := by
    rintro p (hp | hp) q hq h
    · exact hsame p hp q hq h
    · exact hm.eq_of_name_eq hp hq (Property.isSame_iff.1 h).2
  rcases Logged.result_bind_eq_error_iff.1 h with h | ⟨o₁, h1, h⟩
  · obtain ⟨p, hp, q, hq, hne, hname, he⟩ := inheritNames_error hl hm hall h
    exact ⟨p, hp, q, hq, hne, Or.inl ⟨hname, he⟩⟩
  · rw [inheritNames, hm.byName, List.foldlM_map, Logged.result_foldlM,
      takesOver_name.foldlM_eq_ok_iff hl.byName hm.nodup_names hall] at h1
    obtain ⟨hone, rfl⟩ := h1
    obtain ⟨p, hp, q, hq, hne, hcode, he⟩ :=
      inheritCodes_error (hl.byCode_addName _) hm hall h
    rw [foldl_addName] at he
    exact ⟨p, hp, q, hq, hne, Or.inr ⟨fun e => hne (hone p hp q hq e), hcode, he⟩⟩

end ObjectType

namespace Schema

open Relation (TransGen)

variable {d s : Schema} {e : CompileError} {name t object owner : String} {p q : Property}

/-! ### What an error says of the declared schema -/

/-- The object `owner` is `object` itself or above it, and declares the property. -/
structure Contributes (d : Schema) (object owner : String) (p : Property) : Prop where
  declared : d.declares owner = true
  ancestor : d.Ancestor object owner
  own : p ∈ d.own owner

/-- What an error of inheriting says of the schema that was declared. -/
def Bears (d : Schema) : CompileError → Prop
  | .propertyNameCollision object property existingOwner incomingOwner =>
    existingOwner ≠ incomingOwner ∧
      (∃ p, d.Contributes object existingOwner p ∧ p.name = property) ∧
      ∃ q, d.Contributes object incomingOwner q ∧ q.name = property
  | .propertyCodeCollision object existing existingOwner incoming incomingOwner code =>
    existingOwner ≠ incomingOwner ∧ existing ≠ incoming ∧
      (∃ p, d.Contributes object existingOwner p ∧ p.name = existing ∧ p.code = code) ∧
      ∃ q, d.Contributes object incomingOwner q ∧ q.name = incoming ∧ q.code = code
  | .recursiveInheritance name => d.declares name = true ∧ TransGen d.Super name name
  | _ => False

/-- Every property in the schema `s` is owned by an ancestor of the object that has it. -/
def Rises (d s : Schema) : Prop := ∀ n, ∀ p ∈ s.own n, d.Ancestor n p.owner

theorem Declared.rises_self (hd : d.Declared) : d.Rises d := fun n p hp => by
  rw [hd.owner_of_mem_own hp]
  exact .refl n

theorem Rises.of_inheritFrom {s' : Schema} (h : d.Rises s) (hd : d.Declared) (hs : d.Partial s)
    (hne : name ≠ t) (ht : d.Super name t) (hinh : (s.inheritFrom name t).result = .ok s') :
    d.Rises s' := by
  obtain ⟨_, hjoin, hother⟩ := hs.of_inheritFrom hd hne ht.declares_left ht.declares_right hinh
  intro n p hp
  by_cases hn : n = name
  · subst hn
    rw [hjoin, Property.mem_joinNew] at hp
    rcases hp with hp | hp
    · exact h n p hp
    · exact .head ht (h t p hp)
  · rw [hother n hn] at hp
    exact h n p hp

theorem Partial.contributes (hs : d.Partial s) (hr : d.Rises s) (ha : d.Ancestor object name)
    (hp : p ∈ s.own name) : d.Contributes object p.owner p := by
  have hown := hs.genuine name p hp
  refine ⟨?_, ha.trans (hr name p hp), hown⟩
  by_contra hn
  have hnone : d.object? p.owner = none := by
    rw [← Option.not_isSome_iff_eq_none]
    exact hn
  rw [own_of_none hnone] at hown
  cases hown

/-- **When inheriting from a super type fails, the error is borne out.** -/
theorem Partial.bears_of_inheritFrom (hs : d.Partial s) (hd : d.Declared) (hr : d.Rises s)
    (hne : name ≠ t) (ht : d.Super name t) (h : (s.inheritFrom name t).result = .error e) :
    d.Bears e := by
  obtain ⟨o, ho⟩ := hs.exists_object ht.declares_left
  obtain ⟨st, hst⟩ := hs.exists_object ht.declares_right
  have hsame : ∀ p ∈ s.own name, ∀ q ∈ s.own t, p.isSame q = true → p = q := hs.eq_of_isSame hd
  rw [Partial.inheritFrom_eq hne ho hst] at h
  rw [own_of_object ho, own_of_object hst] at hsame
  cases hinh : (o.inherit st).result with
  | ok o' => rw [hinh] at h; cases h
  | error e' =>
    rw [hinh] at h
    cases h
    obtain ⟨p, hp, q, hq, hpq, hcases⟩ :=
      ObjectType.inherit_eq_error (hs.holds ho) (hs.holds hst) hsame hinh
    have hcp : d.Contributes name p.owner p :=
      hs.contributes hr (.refl name) (own_of_object ho ▸ hp)
    have hcq : d.Contributes name q.owner q :=
      hs.contributes hr (.single ht) (own_of_object hst ▸ hq)
    have hname : o.name = name := hs.name_eq hd ho
    rcases hcases with ⟨hn, rfl⟩ | ⟨hn, hc, rfl⟩
    · have howner : p.owner ≠ q.owner := fun e =>
        hpq (hsame p hp q hq (Property.isSame_iff.2 ⟨e, hn⟩))
      rw [hname]
      exact ⟨howner, ⟨p, hcp, hn⟩, q, hcq, rfl⟩
    · -- one owner would have declared both, under two names and one code
      have howner : p.owner ≠ q.owner := fun e => by
        obtain ⟨w, hw⟩ := Schema.declares_iff.1 hcp.declared
        have hpw := hcp.own
        have hqw := hcq.own
        rw [← e] at hqw
        rw [own_of_object hw] at hpw hqw
        exact hpq ((hd.object hw).holds.eq_of_code_eq hpw hqw hc)
      rw [hname]
      exact ⟨howner, hn, ⟨p, hcp, rfl, hc⟩, q, hcq, rfl, rfl⟩

namespace Walk

variable {w w' : Walk}

theorem Sound.rises_of_steps (hd : d.Declared) (h : w.Sound d) (hr : d.Rises w.schema)
    (hsteps : Steps w w') : d.Rises w'.schema := by
  induction hsteps with
  | refl => exact hr
  | tail hsteps hstep ih =>
    have hw := h.of_steps hd hsteps
    cases hw.placed.move hw.schema hstep with
    | goes _ _ same => exact same ▸ ih
    | inherits name t _ ne super _ result => exact ih.of_inheritFrom hd hw.schema ne super result

/-- **Where a walk fails, the error is borne out.** -/
theorem Sound.bears_of_error (hd : d.Declared) (h : w.Sound d) (hr : d.Rises w.schema)
    (herr : w.next = some (.error e)) : d.Bears e := by
  cases h.placed.move h.schema herr with
  | meets name cycle =>
    obtain ⟨t, ht, _⟩ := TransGen.head'_iff.1 cycle
    exact ⟨ht.declares_left, cycle⟩
  | clashes name t _ ne super result => exact h.schema.bears_of_inheritFrom hd hr ne super result

end Walk

/-- **Resolving inheritance reports what is so.** -/
theorem Declared.bears_of_resolve (hd : d.Declared) (h : d.resolve.result = .error e) :
    d.Bears e := by
  have hleads := Walk.leads_resolve hd
  rw [h] at hleads
  obtain ⟨w, hsteps, herr⟩ := hleads
  have hstart := Walk.sound_start hd
  exact (hstart.of_steps hd hsteps).bears_of_error hd
    (hstart.rises_of_steps hd hd.rises_self hsteps) herr

end Schema

open Outline (Node)

variable {options : Options} {nodes : List Node} {e : CompileError}

/-- **An outline that is refused for its inheritance is refused for what it declares.**

The error is a collision of names, a collision of codes or a cycle, and the declared schema bears
it out. -/
theorem compile_bears (h : (compile options nodes).result = .error e) (hk : e.kind = .collision) :
    ∃ d, (declareAll options nodes).result = .ok d ∧ d.Bears e := by
  obtain ⟨d, hdecl, _, hresolve⟩ := (compile_eq_error_iff_of_collision hk).1 h
  exact ⟨d, hdecl, (declared_of_declareAll hdecl).bears_of_resolve hresolve⟩

/-- A diamond, at the bottom of which two inherited properties have one code. -/
def clashingDiamond : List Node :=
  [{ words := ["bottom", "1", "left", "right"], line := "bottom 1 left right", lineNumber := 1
     children := [] },
   { words := ["left", "2", "top"], line := "left 2 top", lineNumber := 2
     children := [⟨["l", "string", "7"], [], "l string 7", 3⟩] },
   { words := ["right", "3", "top"], line := "right 3 top", lineNumber := 4
     children := [⟨["r", "int", "7"], [], "r int 7", 5⟩] },
   { words := ["top", "4"], line := "top 4", lineNumber := 6
     children := [⟨["id", "string", "1"], [], "id string 1", 7⟩] }]

theorem clashingDiamond_bears :
    (compile {} clashingDiamond).result =
        .error (.propertyCodeCollision "bottom" "l" "left" "r" "right" 7) ∧
      ∃ d, (declareAll {} clashingDiamond).result = .ok d ∧
        d.Bears (.propertyCodeCollision "bottom" "l" "left" "r" "right" 7) := by
  have h : (compile {} clashingDiamond).result =
      .error (.propertyCodeCollision "bottom" "l" "left" "r" "right" 7) := by decide +kernel
  exact ⟨h, compile_bears h rfl⟩

end SchemaLang
