import SchemaLang.Proofs.Inheritance.Indexing
import Mathlib.Data.List.Perm.Subperm

/-!
# The walk up the super types

`extend` calls itself for each super type and hands down the path.  Here it is a walk that
keeps one path for all calls: an object is put on the path when its completion begins and taken
off again when it ends, and the completions that wait for one of their super types are a stack.
Nothing else remembers where the walk has been.

* `Waits`: the completions on the stack, each of which waits for the next one.  The path is made
  of their objects, without repetition, and each names the next among its super types.
* `Sound.of_step`: one step of the walk keeps it sound, from which `Sound.of_steps`.
* `Sound.leads_extend`: a call leads to what `extend` says, whatever waits for it, and if it ends
  well, then with the path that it began with.
* `resolve_walks`: all of this for the walk that resolves the inheritance of an outline.
-/

namespace SchemaLang

namespace Schema

open Relation (ReflTransGen TransGen)

/-- The completion of an object that waits for the super type `superName`. -/
structure Frame where
  name : String
  superName : String
  /-- The super types that come after it. -/
  left : List String
deriving DecidableEq

inductive Control where
  /-- The completion of an object begins. -/
  | call (name : String)
  /-- An object goes through the rest of its super types. -/
  | visit (name : String) (left : List String)
  /-- A completion has ended well. -/
  | returned
deriving DecidableEq

structure Walk where
  schema : Schema
  /-- The objects that are being completed, innermost first. -/
  path : List String
  /-- The completions that wait, innermost first. -/
  stack : List Frame
  control : Control
  /-- The objects that are to be completed after this one. -/
  queue : List String
deriving DecidableEq

namespace Walk

/-- **One step of a walk.**  It fails, goes on, or is over. -/
def next : Walk → Option (Except CompileError Walk)
  | ⟨s, path, stack, .call name, queue⟩ =>
    if name ∈ path then some (.error (.recursiveInheritance name))
    else
      match s.object? name with
      | none => some (.ok ⟨s, path, stack, .returned, queue⟩)
      | some o => some (.ok ⟨s, name :: path, stack, .visit name o.superTypes.toList, queue⟩)
  | ⟨s, path, stack, .visit _ [], queue⟩ => some (.ok ⟨s, path.tail, stack, .returned, queue⟩)
  | ⟨s, path, stack, .visit name (t :: left), queue⟩ =>
    if s.declares t then some (.ok ⟨s, path, ⟨name, t, left⟩ :: stack, .call t, queue⟩)
    else some (.ok ⟨s, path, stack, .visit name left, queue⟩)
  | ⟨s, path, ⟨name, t, left⟩ :: stack, .returned, queue⟩ =>
    some ((s.inheritFrom name t).result.map fun s => ⟨s, path, stack, .visit name left, queue⟩)
  | ⟨s, path, [], .returned, name :: queue⟩ => some (.ok ⟨s, path, [], .call name, queue⟩)
  | ⟨_, _, [], .returned, []⟩ => none

def Step (w w' : Walk) : Prop := w.next = some (.ok w')

abbrev Steps : Walk → Walk → Prop := ReflTransGen Step

/-- The walk comes to another one, or it comes to where it fails with an error. -/
def Leads (w : Walk) : Except CompileError Walk → Prop
  | .ok w' => Steps w w'
  | .error e => ∃ w', Steps w w' ∧ w'.next = some (.error e)

def depth (w : Walk) : Nat :=
  match w.control with
  | .call _ => w.stack.length + 1
  | .visit _ _ => w.stack.length + 1
  | .returned => w.stack.length

def atRest (s : Schema) (queue : List String) : Walk := ⟨s, [], [], .returned, queue⟩

def start (d : Schema) : Walk := atRest d d.codes.values

variable {d s : Schema} {w w' : Walk} {name t m : String} {path left queue names : List String}
  {stack : List Frame} {r : Except CompileError Walk}

/-! ### Where a walk leads -/

theorem Leads.of_steps (h : Steps w w') (h' : w'.Leads r) : w.Leads r := by
  cases r with
  | ok w'' => exact h.trans h'
  | error e =>
    obtain ⟨w'', hsteps, hfails⟩ := h'
    exact ⟨w'', h.trans hsteps, hfails⟩

theorem Leads.of_step (h : Step w w') (h' : w'.Leads r) : w.Leads r :=
  .of_steps (.single h) h'

theorem leads_next (h : w.next = some r) : w.Leads r := by
  cases r with
  | ok w' => exact .single h
  | error e => exact ⟨w, .refl, h⟩

theorem Leads.bind {x : Except CompileError Schema} {f : Schema → Walk}
    {g : Schema → Except CompileError Walk} (h : w.Leads (x.map f))
    (hg : ∀ s, x = .ok s → Steps w (f s) → (f s).Leads (g s)) : w.Leads (x.bind g) := by
  cases x with
  | ok s => exact .of_steps h (hg s rfl h)
  | error e => exact h

/-! ### What waits -/

/-- The completions on the stack wait, the innermost one for the object `name`, and each of the
others for the one before it.  Their objects are the path. -/
inductive Waits (d : Schema) : String → List String → List Frame → Prop
  | none (name : String) : Waits d name [] []
  | frame {name t : String} {path left : List String} {stack : List Frame}
      (below : Waits d name path stack) (fresh : name ∉ path) (super : d.Super name t)
      (rest : ∀ u ∈ left, d.declares u = true → d.Super name u) :
      Waits d t (name :: path) (⟨name, t, left⟩ :: stack)

namespace Waits

theorem path_eq (h : Waits d name path stack) : path = stack.map Frame.name := by
  induction h with
  | none => rfl
  | frame _ _ _ _ ih => rw [ih, List.map_cons]

theorem nodup (h : Waits d name path stack) : path.Nodup := by
  induction h with
  | none => exact List.nodup_nil
  | frame _ fresh _ _ ih => exact List.nodup_cons.2 ⟨fresh, ih⟩

theorem declares (h : Waits d name path stack) : ∀ m ∈ path, d.declares m = true := by
  induction h with
  | none => intro m hm; cases hm
  | frame _ _ super _ ih =>
    intro m hm
    rcases List.mem_cons.1 hm with rfl | hm
    · exact super.declares_left
    · exact ih m hm

/-- **Each object of the path names the next one among its super types**, and the innermost one
names the object that is waited for. -/
theorem isChain (h : Waits d name path stack) :
    (name :: path).IsChain fun t n => d.Super n t := by
  induction h with
  | none => exact .singleton _
  | frame _ _ super _ ih => exact .cons_cons super ih

theorem transGen (h : Waits d name path stack) : ∀ m ∈ path, TransGen d.Super m name := by
  induction h with
  | none => intro m hm; cases hm
  | frame _ _ super _ ih =>
    intro m hm
    rcases List.mem_cons.1 hm with rfl | hm
    · exact .single super
    · exact (ih m hm).tail super

/-- A path is no longer than the declared objects are many. -/
theorem length_le_of_nodup (hn : path.Nodup) (hp : ∀ m ∈ path, d.declares m = true) :
    path.length ≤ d.size := by
  have hsub : path ⊆ d.objects.keys := fun m hm =>
    OrderedMap.contains_iff_mem_keys.1 (hp m hm)
  have hlen := (hn.subperm hsub).length_le
  rwa [OrderedMap.keys, Entries.keys, List.length_map] at hlen

theorem length_le (h : Waits d name path stack) : stack.length ≤ d.size := by
  have hpath := length_le_of_nodup h.nodup h.declares
  rwa [h.path_eq, List.length_map] at hpath

end Waits

/-! ### Sound walks -/

def Placed (d : Schema) (w : Walk) : Prop :=
  match w.control with
  | .call name => Waits d name w.path w.stack
  | .visit name left =>
    ∃ path, w.path = name :: path ∧ name ∉ path ∧ Waits d name path w.stack ∧
      d.declares name = true ∧ ∀ t ∈ left, d.declares t = true → d.Super name t
  | .returned => ∃ name, name ∉ w.path ∧ Waits d name w.path w.stack

/-- The walk is at some place, with a schema on the way from the declared one. -/
structure Sound (d : Schema) (w : Walk) : Prop where
  schema : d.Partial w.schema
  placed : w.Placed d

theorem sound_atRest (h : d.Partial s) (queue : List String) : (atRest s queue).Sound d :=
  ⟨h, "", by simp [atRest], .none ""⟩

theorem sound_start (hd : d.Declared) : (start d).Sound d := sound_atRest hd.partial_self _

/-- What one step of a walk can do. -/
inductive Move (d : Schema) (w : Walk) : Except CompileError Walk → Prop
  /-- The walk goes on with its schema. -/
  | goes (w' : Walk) (placed : w'.Placed d) (same : w'.schema = w.schema) : Move d w (.ok w')
  /-- The walk meets its path, on a cycle of super types. -/
  | meets (name : String) (cycle : TransGen d.Super name name) :
      Move d w (.error (.recursiveInheritance name))
  /-- An object has inherited from a super type, which is another object. -/
  | inherits (name t : String) (w' : Walk) (ne : name ≠ t) (super : d.Super name t)
      (placed : w'.Placed d) (result : (w.schema.inheritFrom name t).result = .ok w'.schema) :
      Move d w (.ok w')
  /-- An object cannot inherit from a super type, which is another object. -/
  | clashes (name t : String) (e : CompileError) (ne : name ≠ t) (super : d.Super name t)
      (result : (w.schema.inheritFrom name t).result = .error e) : Move d w (.error e)

/-- **A step from a place is a move.** -/
theorem Placed.move (hs : d.Partial w.schema) (h : w.Placed d) (hnext : w.next = some r) :
    Move d w r := by
  obtain ⟨s, path, stack, control, queue⟩ := w
  cases control with
  | call name =>
    have h : Waits d name path stack := h
    simp only [next] at hnext
    split at hnext
    · next hp =>
      cases hnext
      exact .meets name (h.transGen name hp)
    · next hfresh =>
      split at hnext
      · cases hnext
        exact .goes _ ⟨name, hfresh, h⟩ rfl
      · next o ho =>
        cases hnext
        obtain ⟨o', ho', hhead⟩ := hs.header ho
        have hsuper := (ObjectType.header_eq_iff.1 hhead).2.2
        have hleft : ∀ t ∈ o.superTypes.toList, d.declares t = true → d.Super name t :=
          fun t ht hdecl => super_iff.2 ⟨o', ho', hsuper ▸ ht, hdecl⟩
        exact .goes _ ⟨path, rfl, hfresh, h, Schema.declares_iff.2 ⟨o', ho'⟩, hleft⟩ rfl
  | visit name left =>
    obtain ⟨path', rfl, hfresh, h, hdecl, hleft⟩ := h
    cases left with
    | nil =>
      cases hnext
      exact .goes _ ⟨name, hfresh, h⟩ rfl
    | cons t left =>
      have hrest : ∀ u ∈ left, d.declares u = true → d.Super name u := fun u hu =>
        hleft u (List.mem_cons_of_mem t hu)
      simp only [next] at hnext
      split at hnext
      · next ht =>
        cases hnext
        have ht : d.Super name t := hleft t List.mem_cons_self (hs.declares_iff.1 ht)
        exact .goes _ (Waits.frame h hfresh ht hrest) rfl
      · cases hnext
        exact .goes _ ⟨path', rfl, hfresh, h, hdecl, hrest⟩ rfl
  | returned =>
    obtain ⟨t, hfresh, h⟩ := h
    cases h with
    | none =>
      cases queue with
      | nil => cases hnext
      | cons name queue =>
        cases hnext
        exact .goes _ (Waits.none name) rfl
    | @frame name _ path left stack below fresh super rest =>
      have hne : name ≠ t := fun e => hfresh (e ▸ List.mem_cons_self)
      simp only [next] at hnext
      cases hinh : (s.inheritFrom name t).result with
      | error e =>
        rw [hinh] at hnext
        cases hnext
        exact .clashes name t e hne super hinh
      | ok s' =>
        rw [hinh] at hnext
        cases hnext
        exact .inherits name t _ hne super
          ⟨path, rfl, fresh, below, super.declares_left, rest⟩ hinh

theorem Sound.of_step (hd : d.Declared) (h : w.Sound d) (hstep : Step w w') : w'.Sound d := by
  cases h.placed.move h.schema hstep with
  | goes _ placed same => exact ⟨same ▸ h.schema, placed⟩
  | inherits name t _ ne super placed result =>
    have hs := (h.schema.of_inheritFrom hd ne super.declares_left super.declares_right result).1
    exact ⟨hs, placed⟩

/-- **A walk stays sound.** -/
theorem Sound.of_steps (hd : d.Declared) (h : w.Sound d) (hsteps : Steps w w') : w'.Sound d := by
  induction hsteps with
  | refl => exact h
  | tail _ hstep ih => exact ih.of_step hd hstep

theorem Placed.path_eq_of_returned (h : w.Placed d) (hc : w.control = .returned) :
    w.path = w.stack.map Frame.name := by
  rw [Placed, hc] at h
  obtain ⟨_, _, h⟩ := h
  exact h.path_eq

/-- **A walk is never deeper** than the declared objects are many, but for one call. -/
theorem Placed.depth_le (h : w.Placed d) : w.depth ≤ d.size + 1 := by
  obtain ⟨s, path, stack, control, queue⟩ := w
  have hstack : stack.length ≤ d.size := by
    cases control with
    | call name => exact Waits.length_le h
    | visit name left =>
      obtain ⟨_, _, _, h, _⟩ := h
      exact h.length_le
    | returned =>
      obtain ⟨_, _, h⟩ := h
      exact h.length_le
  cases control with
  | call name => exact Nat.succ_le_succ hstack
  | visit name left => exact Nat.succ_le_succ hstack
  | returned => exact Nat.le_succ_of_le hstack

/-! ### Where a call leads -/

/-- Going through super types, on the assumption that each call for one of them leads to what
`extend` says. -/
theorem Sound.leads_foldlM_extendFrom (hd : d.Declared)
    (ih : ∀ {s : Schema} {t : String} {stack : List Frame},
      (⟨s, name :: path, stack, .call t, queue⟩ : Walk).Sound d →
        (⟨s, name :: path, stack, .call t, queue⟩ : Walk).Leads
          ((d.extend (name :: path) t s).result.map fun s =>
            ⟨s, name :: path, stack, .returned, queue⟩)) :
    ∀ {left : List String} {s : Schema},
      (⟨s, name :: path, stack, .visit name left, queue⟩ : Walk).Sound d →
        (⟨s, name :: path, stack, .visit name left, queue⟩ : Walk).Leads
          (((left.filter d.declares).foldlM (d.extendFrom path name) s).result.map fun s =>
            ⟨s, path, stack, .returned, queue⟩)
  | [], s, _ => leads_next rfl
  | t :: left, s, hw => by
    by_cases ht : d.declares t = true
    · have hstep : Step ⟨s, name :: path, stack, .visit name (t :: left), queue⟩
          ⟨s, name :: path, ⟨name, t, left⟩ :: stack, .call t, queue⟩ :=
        if_pos (hw.schema.declares_iff.2 ht)
      have hresult : (((t :: left).filter d.declares).foldlM (d.extendFrom path name) s).result.map
            (fun s => (⟨s, path, stack, .returned, queue⟩ : Walk)) =
          (d.extend (name :: path) t s).result.bind fun s₁ =>
            (s₁.inheritFrom name t).result.bind fun s₂ =>
              ((left.filter d.declares).foldlM (d.extendFrom path name) s₂).result.map fun s =>
                ⟨s, path, stack, .returned, queue⟩ := by
        rw [List.filter_cons_of_pos ht, List.foldlM_cons, Logged.result_bind, extendFrom,
          Logged.result_bind]
        cases (d.extend (name :: path) t s).result with
        | error e => rfl
        | ok s₁ =>
          simp only [Except.bind]
          cases (s₁.inheritFrom name t).result with
          | error e => rfl
          | ok s₂ => rfl
      have hw₁ := hw.of_step hd hstep
      rw [hresult]
      refine .of_step hstep (.bind (ih hw₁) fun s₁ _ hsteps => ?_)
      have hw₂ := hw₁.of_steps hd hsteps
      refine .bind (leads_next rfl) fun s₂ _ hsteps => ?_
      exact Sound.leads_foldlM_extendFrom hd ih (hw₂.of_steps hd hsteps)
    · have hstep : Step ⟨s, name :: path, stack, .visit name (t :: left), queue⟩
          ⟨s, name :: path, stack, .visit name left, queue⟩ :=
        if_neg fun h => ht (hw.schema.declares_iff.1 h)
      rw [List.filter_cons_of_neg ht]
      exact .of_step hstep (Sound.leads_foldlM_extendFrom hd ih (hw.of_step hd hstep))

/-- **A call leads to what `extend` says**, whatever waits for it.  If it ends well, the path is
what it was when the call began. -/
theorem Sound.leads_extend (hd : d.Declared)
    (hw : (⟨s, path, stack, .call name, queue⟩ : Walk).Sound d) :
    (⟨s, path, stack, .call name, queue⟩ : Walk).Leads
      ((d.extend path name s).result.map fun s => ⟨s, path, stack, .returned, queue⟩) := by
  induction hn : d.outside path using Nat.strongRecOn generalizing path name s stack with
  | ind n ih =>
    subst hn
    by_cases hp : name ∈ path
    · rw [extend_of_mem hp]
      exact leads_next (if_pos hp)
    · rw [result_extend hp]
      cases ho : d.object? name with
      | none =>
        have hnone : s.object? name = none := by
          rw [object?_eq_none_iff, hw.schema.keys, ← object?_eq_none_iff]
          exact ho
        rw [supers_of_none ho]
        refine leads_next ?_
        simp only [next, if_neg hp, hnone]
        rfl
      | some o' =>
        obtain ⟨o, hso, hhead⟩ := hw.schema.exists_header_eq ho
        have hstep : Step ⟨s, path, stack, .call name, queue⟩
            ⟨s, name :: path, stack, .visit name o.superTypes.toList, queue⟩ := by
          simp only [Step, next, if_neg hp, hso]
        rw [supers_of_object ho, ← (ObjectType.header_eq_iff.1 hhead).2.2]
        exact .of_step hstep (Sound.leads_foldlM_extendFrom hd
          (fun hw => ih _ (outside_cons_lt hp ho) hw rfl) (hw.of_step hd hstep))

/-- Completing some objects, one after the other, leads to what `completeAll` says. -/
theorem leads_completeAll (hd : d.Declared) : ∀ {names : List String} {s : Schema}, d.Partial s →
    (atRest s names).Leads ((d.completeAll names s).result.map fun s => atRest s [])
  | [], s, _ => .refl
  | n :: names, s, hs => by
    have hresult : (d.completeAll (n :: names) s).result.map (fun s => atRest s []) =
        (d.extend [] n s).result.bind fun s₁ =>
          (d.completeAll names s₁).result.map fun s => atRest s [] := by
      rw [completeAll, List.foldlM_cons, Logged.result_bind]
      cases (d.extend [] n s).result with
      | error e => rfl
      | ok s₁ => rfl
    have hstep : Step (atRest s (n :: names)) ⟨s, [], [], .call n, names⟩ := rfl
    have hw := (sound_atRest hs _).of_step hd hstep
    rw [hresult]
    refine .of_step hstep (.bind (hw.leads_extend hd) fun s₁ _ hsteps => ?_)
    exact leads_completeAll hd (hw.of_steps hd hsteps).schema

/-- **The walk that completes all objects** leads to what resolving inheritance says. -/
theorem leads_resolve (hd : d.Declared) :
    (start d).Leads (d.resolve.result.map fun s => atRest s []) := by
  rw [result_resolve]
  exact leads_completeAll hd hd.partial_self

end Walk
end Schema

open Outline (Node)
open Schema (Walk)

variable {options : Options} {nodes : List Node} {d : Schema}

/-- **Resolving inheritance ends on every graph of super types.**

It is the walk from `Walk.start`.  Whenever that walk calls for the completion of an object, the
path has no repetition, is made of declared objects, and each of them names the next one among its
super types, the last one the object that is called for.  So the calls are never nested deeper than
the declared objects are many, but for one.  Each call leads to what `extend` says, which is an
error or a schema, and once it has returned to where it came from, the path is what it was. -/
theorem resolve_walks (h : (declareAll options nodes).result = .ok d) :
    (Walk.start d).Leads (d.resolve.result.map fun s => Walk.atRest s []) ∧
    ∀ w, Walk.Steps (Walk.start d) w → w.depth ≤ d.size + 1 ∧
      ∀ name, w.control = .call name →
        (w.path.Nodup ∧ (∀ m ∈ w.path, w.schema.declares m = true) ∧
          (name :: w.path).IsChain fun t n => w.schema.Super n t) ∧
        w.Leads ((d.extend w.path name w.schema).result.map fun s =>
          { w with schema := s, control := .returned }) ∧
        ∀ w', Walk.Steps w w' → w'.control = .returned → w'.stack = w.stack →
          w'.path = w.path := by
  have hd := declared_of_declareAll h
  refine ⟨Walk.leads_resolve hd, fun w hsteps => ?_⟩
  have hw := (Walk.sound_start hd).of_steps hd hsteps
  refine ⟨hw.placed.depth_le, fun name hc => ?_⟩
  obtain ⟨s, path, stack, control, queue⟩ := w
  obtain rfl : control = .call name := hc
  have hwaits : Walk.Waits d name path stack := hw.placed
  refine ⟨⟨hwaits.nodup, fun m hm => hw.schema.declares_iff.2 (hwaits.declares m hm), ?_⟩,
    hw.leads_extend hd, fun w' hsteps' hreturned hstack => ?_⟩
  · rw [hw.schema.super_eq]
    exact hwaits.isChain
  · have hw' := hw.of_steps hd hsteps'
    rw [hw'.placed.path_eq_of_returned hreturned, hstack]
    exact hwaits.path_eq.symm

/-- Three objects, two of which are above each other. -/
def knot : List Node :=
  [{ words := ["below", "3", "loop", "nowhere"], line := "below 3 loop nowhere", lineNumber := 1
     children := [] },
   { words := ["loop", "2", "knot"], line := "loop 2 knot", lineNumber := 2, children := [] },
   { words := ["knot", "5", "nowhere", "loop"], line := "knot 5 nowhere loop", lineNumber := 3
     children := [] }]

theorem knot_walks : ∃ d, (declareAll {} knot).result = .ok d ∧
    d.resolve.result = .error (.recursiveInheritance "loop") ∧
    (∃ w, Walk.Steps (Walk.start d) w ∧
      w.next = some (.error (.recursiveInheritance "loop"))) ∧
    ∀ w, Walk.Steps (Walk.start d) w → w.depth ≤ 4 := by
  have hok : ((declareAll {} knot).result.bind fun d => d.resolve.result) =
      .error (.recursiveInheritance "loop") := by decide +kernel
  have hsize : ((declareAll {} knot).result.map Schema.size) = .ok 3 := by decide +kernel
  cases h : (declareAll {} knot).result with
  | error e => rw [h] at hsize; cases hsize
  | ok d =>
    rw [h] at hok hsize
    have herr : d.resolve.result = .error (.recursiveInheritance "loop") := hok
    obtain ⟨hleads, hall⟩ := resolve_walks h
    rw [herr] at hleads
    refine ⟨d, rfl, herr, hleads, fun w hsteps => ?_⟩
    have hdepth := (hall w hsteps).1
    rwa [Except.ok.inj hsize] at hdepth

end SchemaLang
