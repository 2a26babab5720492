import SchemaLang.Rendering.Block

/-!
# Rendering by asking

All that a rendering does with its handler is to ask about the foreign types in what it renders, one
by one, and to put the answers in their places.  Which types these are does not depend on the
answers: what is rendered is a form, and rendering fills it (`Fills`).  Forms can be put together,
since the row of answers is as long as the row of questions, so it can be divided again.

* `Handler.Answers`, `Handler.Refuses`: what may come of asking about a row of foreign types.
* `Handler.recording`: a handler that keeps a list of what it was asked about.
* `OpenType.fills_render`, `Block.fills_render`: types and blocks are forms.
* `Block.render_asks`: how a block is rendered, and about what the handler was asked.
-/

namespace SchemaLang

variable {σ υ α β γ : Type} {handler : Handler σ υ} {s s' : σ} {us asked calls : List υ} {u : υ}
  {answers : List String}

/-! ### Conversations -/

namespace Handler

/-- From the state `s`, the handler has the answers `answers` to the foreign types `us` when it is
asked about them one by one, and is in the state `s'` then. -/
inductive Answers (handler : Handler σ υ) : σ → List υ → List String → σ → Prop where
  | nil (s : σ) : Answers handler s [] [] s
  | cons {s s₁ s' : σ} {u : υ} {us : List υ} {answer : String} {answers : List String} :
    (handler u).run s = (some answer, s₁) → Answers handler s₁ us answers s' →
      Answers handler s (u :: us) (answer :: answers) s'

/-- From the state `s`, the handler has answers to the foreign types `asked`, which come first in
`us`, but none to the next one, which is `u`, and is in the state `s'` then. -/
def Refuses (handler : Handler σ υ) (s : σ) (us asked : List υ) (u : υ) (s' : σ) : Prop :=
  ∃ rest answers s₁, us = asked ++ u :: rest ∧ handler.Answers s asked answers s₁ ∧
    (handler u).run s₁ = (none, s')

/-- **Asking about a row ends in one of two ways.** -/
theorem answers_or_refuses (handler : Handler σ υ) : ∀ (us : List υ) (s : σ),
    (∃ answers s', handler.Answers s us answers s') ∨ ∃ asked u s', handler.Refuses s us asked u s'
  | [], s => Or.inl ⟨[], s, .nil s⟩
  | u :: us, s => by
    rcases hu : (handler u).run s with ⟨answer, s₁⟩
    cases answer with
    | none => exact Or.inr ⟨[], u, s₁, us, [], s, rfl, .nil s, hu⟩
    | some answer =>
      rcases answers_or_refuses handler us s₁ with
        ⟨answers, s', h⟩ | ⟨asked, v, s', rest, answers, s₂, rfl, h, hv⟩
      · exact Or.inl ⟨answer :: answers, s', .cons hu h⟩
      · exact Or.inr ⟨u :: asked, v, s', rest, answer :: answers, s₂, rfl, .cons hu h, hv⟩

def recording (handler : Handler σ υ) : Handler (σ × List υ) υ := fun u => do
  let (s, calls) ← get
  let (answer, s') := (handler u).run s
  set (s', calls ++ [u])
  return answer

theorem run_recording {answer : Option String} (h : (handler u).run s = (answer, s')) :
    (handler.recording u).run (s, calls) = (answer, (s', calls ++ [u])) := by
  show (((handler u).run s).1, (((handler u).run s).2, calls ++ [u])) = _
  rw [h]

theorem Answers.recording (h : handler.Answers s us answers s') :
    handler.recording.Answers (s, calls) us answers (s', calls ++ us) := by
  induction h generalizing calls with
  | nil s =>
    rw [List.append_nil]
    exact .nil (s, calls)
  | @cons s s₁ s' u us answer answers hu _ ih =>
    rw [List.append_cons]
    exact .cons (run_recording hu) ih

theorem Refuses.recording (h : handler.Refuses s us asked u s') :
    handler.recording.Refuses (s, calls) us asked u (s', calls ++ asked ++ [u]) := by
  obtain ⟨rest, answers, s₁, hus, hanswers, hu⟩ := h
  exact ⟨rest, answers, (s₁, calls ++ asked), hus, hanswers.recording, run_recording hu⟩

end Handler

/-! ### Asking -/

namespace Rendering

variable {r : Rendering σ υ α} {k : α → Rendering σ υ β}

theorem run_bind_of_ok {a : α} (h : r.run.run s = (.ok a, s')) :
    (r >>= k).run.run s = (k a).run.run s' := by
  rw [ExceptT.run_bind, StateT.run_bind, h]
  rfl

theorem run_bind_of_error {e : Unhandled υ} (h : r.run.run s = (.error e, s')) :
    (r >>= k).run.run s = (.error e, s') := by
  rw [ExceptT.run_bind, StateT.run_bind, h]
  rfl

theorem run_bind_eq_ok_iff {b : β} : (r >>= k).run.run s = (.ok b, s') ↔
    ∃ a s₁, r.run.run s = (.ok a, s₁) ∧ (k a).run.run s₁ = (.ok b, s') := by
  rcases hr : r.run.run s with ⟨e | a, s₁⟩
  · rw [run_bind_of_error hr]
    refine ⟨fun h => ?_, fun ⟨a, s₂, h, _⟩ => ?_⟩
    · cases h
    · cases h
  · rw [run_bind_of_ok hr]
    refine ⟨fun h => ⟨a, s₁, rfl, h⟩, fun ⟨a', s₂, h, hk⟩ => ?_⟩
    cases h
    exact hk

theorem run_lift {x : StateM σ α} {a : α} (h : x.run s = (a, s')) :
    (liftM x : Rendering σ υ α).run.run s = (.ok a, s') := by
  show ((.ok (x.run s).1 : Except (Unhandled υ) α), (x.run s).2) = _
  rw [h]

end Rendering

namespace Handler

def ask (handler : Handler σ υ) (u : υ) : Rendering σ υ String := do
  match ← handler u with
  | some text => return text
  | none => throw ⟨u⟩

theorem run_ask_of_some {answer : String} (h : (handler u).run s = (some answer, s')) :
    (handler.ask u).run.run s = (.ok answer, s') := by
  rw [ask, Rendering.run_bind_of_ok (Rendering.run_lift h)]
  rfl

theorem run_ask_of_none (h : (handler u).run s = (none, s')) :
    (handler.ask u).run.run s = (.error ⟨u⟩, s') := by
  rw [ask, Rendering.run_bind_of_ok (Rendering.run_lift h)]
  rfl

/-- **The answers are what asking about a row gives.** -/
theorem Answers.run_mapM (h : handler.Answers s us answers s') :
    (us.mapM handler.ask).run.run s = (.ok answers, s') := by
  induction h with
  | nil s => rfl
  | cons hu _ ih =>
    rw [List.mapM_cons, Rendering.run_bind_of_ok (run_ask_of_some hu), Rendering.run_bind_of_ok ih]
    rfl

/-- **Asking about a row stops** at the first type without an answer. -/
theorem Refuses.run_mapM (h : handler.Refuses s us asked u s') :
    (us.mapM handler.ask).run.run s = (.error ⟨u⟩, s') := by
  obtain ⟨rest, answers, s₁, rfl, hanswers, hu⟩ := h
  rw [List.mapM_append, Rendering.run_bind_of_ok hanswers.run_mapM, List.mapM_cons, bind_assoc]
  exact Rendering.run_bind_of_error (run_ask_of_none hu)

theorem mapM_ask_bind_congr {k k' : List String → Rendering σ υ α} : ∀ {us : List υ},
    (∀ answers : List String, answers.length = us.length → k answers = k' answers) →
      us.mapM handler.ask >>= k = us.mapM handler.ask >>= k'
  | [], h => by
    rw [List.mapM_nil, pure_bind, pure_bind]
    exact h [] rfl
  | u :: us, h => by
    rw [List.mapM_cons]
    simp only [bind_assoc, pure_bind]
    refine bind_congr fun answer => mapM_ask_bind_congr fun answers hlen => ?_
    exact h (answer :: answers) (congrArg (· + 1) hlen)

end Handler

/-! ### Forms -/

/-- The rendering `r` fills a form: it asks about the foreign types `us` one by one, and makes its
result of the answers. -/
def Fills (handler : Handler σ υ) (r : Rendering σ υ α) (us : List υ) (fill : List String → α) :
    Prop :=
  r = us.mapM handler.ask >>= fun answers => pure (fill answers)

theorem fills_pure (a : α) : Fills handler (pure a) [] fun _ => a := by
  rw [Fills, List.mapM_nil, pure_bind]

theorem fills_ask (u : υ) : Fills handler (handler.ask u) [u] fun answers => answers.headD "" := by
  simp [Fills]

namespace Fills

variable {r : Rendering σ υ α} {r' : Rendering σ υ β} {us' : List υ} {fill : List String → α}
  {fill' : List String → β}

theorem map (h : Fills handler r us fill) (g : α → γ) :
    Fills handler (r >>= fun a => pure (g a)) us fun answers => g (fill answers) := by
  rw [Fills] at h ⊢
  simp only [h, bind_assoc, pure_bind]

/-- **Two forms are filled** one after the other, with the answers divided between them. -/
theorem seq (h : Fills handler r us fill) (h' : Fills handler r' us' fill') (g : α → β → γ) :
    Fills handler (r >>= fun a => r' >>= fun b => pure (g a b)) (us ++ us') fun answers =>
      g (fill (answers.take us.length)) (fill' (answers.drop us.length)) := by
  rw [Fills] at h h' ⊢
  rw [h, h', List.mapM_append]
  simp only [bind_assoc, pure_bind]
  refine Handler.mapM_ask_bind_congr fun answers hlen => bind_congr fun answers' => ?_
  rw [← hlen, List.take_left, List.drop_left]

end Fills

/-! ### The form of a type -/

namespace OpenType

/-- The foreign types in a type, from left to right, keys before values. -/
def foreigns : OpenType υ → List υ
  | primitive _ => []
  | object _ => []
  | set members => members.foreigns
  | list members => members.foreigns
  | map key value => key.foreigns ++ value.foreigns
  | foreign type => [type]

/-- The text of a type, with answers for its foreign types from left to right. -/
def textWith : OpenType υ → List String → String
  | primitive name, _ => name
  | object name, _ => name
  | set members, answers => "set:" ++ members.textWith answers
  | list members, answers => "list:" ++ members.textWith answers
  | map key value, answers =>
    key.textWith (answers.take key.foreigns.length) ++ ":" ++
      value.textWith (answers.drop key.foreigns.length)
  | foreign _, answers => answers.headD ""

/-- **A type is a form.** -/
theorem fills_render (handler : Handler σ υ) :
    ∀ t : OpenType υ, Fills handler (t.render handler) t.foreigns t.textWith
  | primitive name => fills_pure name
  | object name => fills_pure name
  | set members => (fills_render handler members).map ("set:" ++ ·)
  | list members => (fills_render handler members).map ("list:" ++ ·)
  | map key value =>
    (fills_render handler key).seq (fills_render handler value) fun k v => k ++ ":" ++ v
  | foreign type => fills_ask type

end OpenType

/-! ### The form of a block -/

namespace Block

variable {keep : String → Bool} {block : Block υ} {name : String} {code : Code}

def shown (block : Block υ) : List (String × BlockEntry υ) :=
  block.entries.entries.filter fun e => !isIndexLike e.1

def foreignsOf (es : List (String × BlockEntry υ)) : List υ :=
  es.flatMap fun e => e.2.type.foreigns

def linesWith : List (String × BlockEntry υ) → List String → List String
  | [], _ => []
  | e :: es, answers =>
    let n := e.2.type.foreigns.length
    propertyLine e.1 (e.2.type.textWith (answers.take n)) e.2.code e.2.tags ::
      linesWith es (answers.drop n)

/-- The foreign types in a block, without the entries of its index. -/
def foreigns (block : Block υ) : List υ := foreignsOf block.shown

/-- The text of a block, with answers for its foreign types: the header line and one line for each
entry that is written. -/
def textWith (block : Block υ) (name : String) (code : Code) (answers : List String) : String :=
  headerLine name code block.tags ++ String.join (linesWith block.shown answers)

/-- **The entries of a block are a form.** -/
theorem fills_mapM_entryLine (handler : Handler σ υ) : ∀ es : List (String × BlockEntry υ),
    Fills handler (es.mapM (entryLine handler)) (foreignsOf es) (linesWith es)
  | [] => fills_pure []
  | e :: es => by
    rw [List.mapM_cons]
    exact ((e.2.type.fills_render handler).map fun type =>
      propertyLine e.1 type e.2.code e.2.tags).seq (fills_mapM_entryLine handler es) List.cons

/-- **A block is a form.** -/
theorem fills_render (handler : Handler σ υ) (block : Block υ) (name : String) (code : Code) :
    Fills handler (block.render handler name code) block.foreigns (block.textWith name code) :=
  (fills_mapM_entryLine handler block.shown).map fun lines =>
    headerLine name code block.tags ++ String.join lines

end Block

namespace Fills

variable {r : Rendering σ υ α} {fill : List String → α}

theorem run_of_answers (h : Fills handler r us fill) (ha : handler.Answers s us answers s') :
    r.run.run s = (.ok (fill answers), s') := by
  rw [h, Rendering.run_bind_of_ok ha.run_mapM]
  rfl

theorem run_of_refuses (h : Fills handler r us fill) (hr : handler.Refuses s us asked u s') :
    r.run.run s = (.error ⟨u⟩, s') := by
  rw [h]
  exact Rendering.run_bind_of_error hr.run_mapM

end Fills

/-- **A block is rendered by asking** about its foreign types.  If the handler has answers to all of
them, one after the other, they stand in the text in their order, and each type was asked about
once.  Otherwise the first one without an answer is reported, and nothing was asked about after
it. -/
theorem Block.render_asks (handler : Handler σ υ) (block : Block υ) (name : String) (code : Code)
    (s : σ) :
    (∀ answers s', handler.Answers s block.foreigns answers s' →
      (block.render handler name code).run.run s = (.ok (block.textWith name code answers), s') ∧
      (block.render handler.recording name code).run.run (s, []) =
        (.ok (block.textWith name code answers), (s', block.foreigns))) ∧
    (∀ asked u s', handler.Refuses s block.foreigns asked u s' →
      (block.render handler name code).run.run s = (.error ⟨u⟩, s') ∧
      (block.render handler.recording name code).run.run (s, []) =
        (.error ⟨u⟩, (s', asked ++ [u])) ∧
      ∀ describe, ((block.render handler name code).run.run s).1.mapError
        (Unhandled.message describe) =
          .error ("no unknown type handler result for: " ++ describe u)) ∧
    ((∃ answers s', handler.Answers s block.foreigns answers s') ∨
      ∃ asked u s', handler.Refuses s block.foreigns asked u s') := by
  refine ⟨fun answers s' h => ⟨?_, ?_⟩, fun asked u s' h => ⟨?_, ?_, fun describe => ?_⟩,
    handler.answers_or_refuses block.foreigns s⟩
  · exact (block.fills_render handler name code).run_of_answers h
  · exact (block.fills_render handler.recording name code).run_of_answers h.recording
  · exact (block.fills_render handler name code).run_of_refuses h
  · exact (block.fills_render handler.recording name code).run_of_refuses h.recording
  · rw [(block.fills_render handler name code).run_of_refuses h]
    rfl

def Handler.prepared : Handler (List String) String := fun _ => do
  match ← get with
  | [] => return none
  | answer :: rest =>
    set rest
    return some answer

/-- A property with two foreign types, and an entry of an index with a third one. -/
def foreignBlock : Block String where
  tags := .ofList ["tag"]
  entries := .ofList
    [("-1st", ⟨.foreign "never", 7, .ofList []⟩),
     ("name", ⟨.map (.foreign "key") (.set (.foreign "member")), 1, .ofList []⟩)]

theorem foreignBlock_asks :
    (foreignBlock.render Handler.prepared.recording "o" 2).run.run (["a", "b", "c"], []) =
      (.ok "o 2 tag\n\tname a:set:b 1\n", (["c"], ["key", "member"])) ∧
    (foreignBlock.render Handler.prepared.recording "o" 2).run.run (["a"], []) =
      (.error ⟨"member"⟩, ([], ["key", "member"])) := by
  have hforeigns : foreignBlock.foreigns = ["key", "member"] := by decide +kernel
  have htext : foreignBlock.textWith "o" 2 ["a", "b"] = "o 2 tag\n\tname a:set:b 1\n" := by
    decide +kernel
  have hall : Handler.prepared.Answers ["a", "b", "c"] foreignBlock.foreigns ["a", "b"] ["c"] := by
    rw [hforeigns]
    exact .cons rfl (.cons rfl (.nil _))
  have hsome : Handler.prepared.Refuses ["a"] foreignBlock.foreigns ["key"] "member" [] := by
    rw [hforeigns]
    exact ⟨[], ["a"], [], rfl, .cons rfl (.nil _), rfl⟩
  constructor
  · rw [← htext, ← hforeigns]
    exact ((Block.render_asks .prepared foreignBlock "o" 2 _).1 _ _ hall).2
  · exact ((Block.render_asks .prepared foreignBlock "o" 2 _).2.1 _ _ _ hsome).2.1

end SchemaLang
