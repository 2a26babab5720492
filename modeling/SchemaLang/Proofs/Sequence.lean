import SchemaLang.Logged

/-!
# Sequences that succeed

Compiling is a sequence of steps each of which may fail.  A sequence ends well
exactly when its first step does and the rest does from there; here this is said for
two steps and for a list of steps, with a log and without one.

* `bind_eq_ok_iff`, `foldlM_cons_eq_ok_iff`: without a log.
* `bind_eq_error_iff`: two steps fail where the first one does, or the second one after it.
* `Logged.result_foldlM`: the log of a sequence has no say in its result.
* `Logged.result_foldlM_filter`: steps that are passed over can be left out.
* `Logged.result_foldlM_eq_self`: steps that change nothing make such a sequence.
* `foldlM_eq_error_iff`, `foldlM_error`: an error of the sequence is that of the first step to fail.
* `foldlM_invariant`: what each step keeps, the sequence keeps.
* `Logged.foldlM_related`: the same for what holds between two sequences of the same steps.
* `Logged.foldlM_accounts`: what the log of each step says of the way, the log of the sequence says.
* `exists_of_mem_of_map_eq`, `exists_mem_of_map_eq`: when all steps succeed on their own,
  each has a value, and each value has a step.
* `map_eq_map_of_map_eq`: what is said of each step and its value is said of the lists.
* `map_filter_eq_of_map_eq`: some of the steps have some of the values.
* `eq_of_map_eq_map`: a function that tells the members of two lists apart tells the lists apart.
-/

namespace SchemaLang

variable {ε α β γ : Type}

theorem bind_eq_ok_iff {x : Except ε α} {f : α → Except ε β} {b : β} :
    x >>= f = .ok b ↔ ∃ a, x = .ok a ∧ f a = .ok b := by
  cases x with
  | error e =>
    constructor
    · intro h; cases h
    · rintro ⟨a, h, _⟩; cases h
  | ok a =>
    constructor
    · intro h; exact ⟨a, rfl, h⟩
    · rintro ⟨a', h, h'⟩; cases h; exact h'

theorem bind_eq_error_iff {x : Except ε α} {f : α → Except ε β} {e : ε} :
    x >>= f = .error e ↔ x = .error e ∨ ∃ a, x = .ok a ∧ f a = .error e := by
  cases x with
  | error e' =>
    constructor
    · intro h; cases h; exact Or.inl rfl
    · rintro (h | ⟨a, h, _⟩)
      · cases h; rfl
      · cases h
  | ok a =>
    constructor
    · intro h; exact Or.inr ⟨a, rfl, h⟩
    · rintro (h | ⟨a', h, h'⟩)
      · cases h
      · cases h; exact h'

theorem foldlM_cons_eq_ok_iff {f : β → α → Except ε β} {a : α} {l : List α} {b c : β} :
    (a :: l).foldlM f b = .ok c ↔ ∃ b', f b a = .ok b' ∧ l.foldlM f b' = .ok c := by
  rw [List.foldlM_cons]
  exact bind_eq_ok_iff

theorem foldlM_nil_eq_ok_iff {f : β → α → Except ε β} {b c : β} :
    [].foldlM f b = .ok c ↔ c = b :=
  ⟨fun h => (Except.ok.inj h).symm, fun h => h ▸ rfl⟩

section Map

variable {f : α → Except ε β} {l : List α} {bs : List β}

theorem exists_map_eq_map_ok : ∀ {l : List α}, (∀ a ∈ l, ∃ b, f a = .ok b) →
    ∃ bs : List β, l.map f = bs.map .ok
  | [], _ => ⟨[], rfl⟩
  | a :: l, h => by
    obtain ⟨b, hb⟩ := h a List.mem_cons_self
    obtain ⟨bs, hbs⟩ := exists_map_eq_map_ok fun x hx => h x (List.mem_cons_of_mem a hx)
    exact ⟨b :: bs, by rw [List.map_cons, List.map_cons, hb, hbs]⟩

theorem exists_of_mem_of_map_eq (h : l.map f = bs.map .ok) {a : α} (ha : a ∈ l) :
    ∃ b ∈ bs, f a = .ok b := by
  have hmem : f a ∈ bs.map Except.ok := by rw [← h]; exact List.mem_map_of_mem ha
  obtain ⟨b, hb, e⟩ := List.mem_map.1 hmem
  exact ⟨b, hb, e.symm⟩

theorem exists_mem_of_map_eq (h : l.map f = bs.map .ok) {b : β} (hb : b ∈ bs) :
    ∃ a ∈ l, f a = .ok b := by
  have hmem : Except.ok b ∈ l.map f := by rw [h]; exact List.mem_map_of_mem hb
  exact List.mem_map.1 hmem

/-- What a step and its value have in common, the steps and their values have in common. -/
theorem map_eq_map_of_map_eq {g : α → γ} {h : β → γ} (hgh : ∀ a b, f a = .ok b → g a = h b) :
    ∀ {l : List α} {bs : List β}, l.map f = bs.map .ok → l.map g = bs.map h
  | [], [], _ => rfl
  | a :: l, b :: bs, hl => by
    rw [List.map_cons, List.map_cons, List.cons.injEq] at hl
    rw [List.map_cons, List.map_cons, hgh a b hl.1, map_eq_map_of_map_eq hgh hl.2]

theorem filterMap_eq_map_of_map_eq {g : α → Option γ} {h : β → γ}
    (hgh : ∀ a b, f a = .ok b → g a = some (h b)) (hl : l.map f = bs.map .ok) :
    l.filterMap g = bs.map h := by
  have hmap : l.map g = bs.map (some ∘ h) := map_eq_map_of_map_eq hgh hl
  calc l.filterMap g = (l.map g).filterMap id := by rw [List.filterMap_map, Function.id_comp]
    _ = bs.map h := by rw [hmap, List.filterMap_map, Function.id_comp, List.filterMap_eq_map]

theorem flatMap_eq_flatMap_of_map_eq {g : α → List γ} {h : β → List γ}
    (hgh : ∀ a b, f a = .ok b → g a = h b) (hl : l.map f = bs.map .ok) :
    l.flatMap g = bs.flatMap h := by
  rw [List.flatMap_def, List.flatMap_def, map_eq_map_of_map_eq hgh hl]

theorem map_filter_eq_of_map_eq {p : α → Bool} {q : β → Bool}
    (hpq : ∀ a b, f a = .ok b → p a = q b) : ∀ {l : List α} {bs : List β},
      l.map f = bs.map .ok → (l.filter p).map f = (bs.filter q).map .ok
  | [], [], _ => rfl
  | a :: l, b :: bs, h => by
    rw [List.map_cons, List.map_cons, List.cons.injEq] at h
    have ih := map_filter_eq_of_map_eq hpq h.2
    rw [List.filter_cons, List.filter_cons, hpq a b h.1]
    split
    · rw [List.map_cons, List.map_cons, h.1, ih]
    · exact ih

end Map

/-- `List.map_injective_iff` for a function that is injective on the members only. -/
theorem eq_of_map_eq_map {f : α → β} : ∀ {l m : List α},
    (∀ a ∈ l, ∀ b ∈ m, f a = f b → a = b) → l.map f = m.map f → l = m
  | [], [], _, _ => rfl
  | a :: l, b :: m, hf, h => by
    rw [List.map_cons, List.map_cons, List.cons.injEq] at h
    rw [hf a List.mem_cons_self b List.mem_cons_self h.1,
      eq_of_map_eq_map (fun x hx y hy => hf x (List.mem_cons_of_mem a hx) y
        (List.mem_cons_of_mem b hy)) h.2]

/-- **A sequence fails at its first step that fails,** after the steps before it have ended well. -/
theorem foldlM_eq_error_iff {f : β → α → Except ε β} {e : ε} : ∀ {l : List α} {b : β},
    l.foldlM f b = .error e ↔
      ∃ l₁ a l₂ c, l = l₁ ++ a :: l₂ ∧ l₁.foldlM f b = .ok c ∧ f c a = .error e
  | [], b => by
    constructor
    · intro h; cases h
    · rintro ⟨l₁, a, l₂, c, h, _⟩
      exact absurd h.symm (List.append_ne_nil_of_right_ne_nil l₁ (List.cons_ne_nil a l₂))
  | a :: l, b => by
    rw [List.foldlM_cons, bind_eq_error_iff]
    constructor
    · rintro (h | ⟨b', hb, h⟩)
      · exact ⟨[], a, l, b, rfl, rfl, h⟩
      · obtain ⟨l₁, a', l₂, c, rfl, hc, h⟩ := foldlM_eq_error_iff.1 h
        exact ⟨a :: l₁, a', l₂, c, rfl, foldlM_cons_eq_ok_iff.2 ⟨b', hb, hc⟩, h⟩
    · rintro ⟨l₁, a', l₂, c, hl, hc, h⟩
      cases l₁ with
      | nil =>
        obtain ⟨rfl, rfl⟩ := List.cons.inj hl
        exact Or.inl (foldlM_nil_eq_ok_iff.1 hc ▸ h)
      | cons x l₁ =>
        obtain ⟨rfl, rfl⟩ := List.cons.inj hl
        obtain ⟨b', hb, hc⟩ := foldlM_cons_eq_ok_iff.1 hc
        exact Or.inr ⟨b', hb, foldlM_eq_error_iff.2 ⟨l₁, a', l₂, c, rfl, hc, h⟩⟩

theorem foldlM_error {f : β → α → Except ε β} {e : ε} {l : List α} {b : β}
    (h : l.foldlM f b = .error e) : ∃ a ∈ l, ∃ b, f b a = .error e := by
  obtain ⟨l₁, a, l₂, c, rfl, _, h⟩ := foldlM_eq_error_iff.1 h
  exact ⟨a, List.mem_append_right l₁ List.mem_cons_self, c, h⟩

/-- What each step keeps, a sequence keeps. -/
theorem foldlM_invariant {P : β → Prop} {f : β → α → Except ε β}
    (hf : ∀ b a b', P b → f b a = .ok b' → P b') : ∀ {l : List α} {b c : β},
      P b → l.foldlM f b = .ok c → P c
  | [], _, _, hb, h => foldlM_nil_eq_ok_iff.1 h ▸ hb
  | a :: _, b, _, hb, h => by
    obtain ⟨b', hstep, h⟩ := foldlM_cons_eq_ok_iff.1 h
    exact foldlM_invariant hf (hf b a b' hb hstep) h

namespace Logged

variable {f : β → α → Logged β} {a : α} {l : List α} {b b' c : β}

/-- **The result of a sequence** is that of the sequence of the results. -/
theorem result_foldlM : ∀ {l : List α} {b : β},
    (l.foldlM f b).result = l.foldlM (fun b a => (f b a).result) b
  | [], _ => rfl
  | a :: l, b => by
    rw [List.foldlM_cons, List.foldlM_cons, result_bind]
    cases (f b a).result with
    | error e => rfl
    | ok b' => exact result_foldlM

theorem result_foldlM_nil_eq_ok_iff : ([].foldlM f b).result = .ok c ↔ c = b :=
  ⟨fun h => (Except.ok.inj h).symm, fun h => h ▸ rfl⟩

theorem result_foldlM_cons_eq_ok_iff :
    ((a :: l).foldlM f b).result = .ok c ↔
      ∃ b', (f b a).result = .ok b' ∧ (l.foldlM f b').result = .ok c := by
  rw [List.foldlM_cons]
  exact result_bind_eq_ok_iff

theorem result_foldlM_eq_self : ∀ {l : List α} {b : β}, (∀ a ∈ l, (f b a).result = .ok b) →
    (l.foldlM f b).result = .ok b
  | [], _, _ => rfl
  | a :: _, b, h =>
    result_foldlM_cons_eq_ok_iff.2 ⟨b, h a List.mem_cons_self,
      result_foldlM_eq_self fun x hx => h x (List.mem_cons_of_mem a hx)⟩

/-- What each two steps keep between two computations, the two sequences keep. -/
theorem foldlM_related {R : β → γ → Prop} {f : β → α → Logged β} {g : γ → α → Logged γ} :
    ∀ {l : List α} {b b' : β} {c c' : γ},
      (∀ a ∈ l, ∀ b c b' c', R b c → (f b a).result = .ok b' → (g c a).result = .ok c' → R b' c') →
        R b c → (l.foldlM f b).result = .ok b' → (l.foldlM g c).result = .ok c' → R b' c'
  | [], _, _, _, _, _, hbc, hf, hg => by
    rw [result_foldlM_nil_eq_ok_iff.1 hf, result_foldlM_nil_eq_ok_iff.1 hg]
    exact hbc
  | a :: _, b, _, c, _, hR, hbc, hf, hg => by
    obtain ⟨b₁, hb, hf⟩ := result_foldlM_cons_eq_ok_iff.1 hf
    obtain ⟨c₁, hc, hg⟩ := result_foldlM_cons_eq_ok_iff.1 hg
    exact foldlM_related (fun x hx => hR x (List.mem_cons_of_mem a hx))
      (hR a List.mem_cons_self b c b₁ c₁ hbc hb hc) hf hg

theorem result_bind_eq_error_iff {x : Logged α} {f : α → Logged γ} {e : CompileError} :
    (x >>= f).result = .error e ↔
      x.result = .error e ∨ ∃ a, x.result = .ok a ∧ (f a).result = .error e := by
  rw [result_bind]
  cases x.result with
  | ok a => simp [Except.bind]
  | error e' => simp [Except.bind]

theorem foldlM_error {e : CompileError} (h : (l.foldlM f b).result = .error e) :
    ∃ a ∈ l, ∃ b, (f b a).result = .error e := by
  rw [result_foldlM] at h
  exact SchemaLang.foldlM_error h

/-- Steps that are passed over can be left out. -/
theorem result_foldlM_filter {g : β → α → Logged β} {keep : α → Bool}
    (hskip : ∀ a b, keep a = false → (f b a).result = .ok b)
    (hkeep : ∀ a b, keep a = true → (f b a).result = (g b a).result) :
    ∀ (l : List α) (b : β), (l.foldlM f b).result = ((l.filter keep).foldlM g b).result
  | [], _ => rfl
  | a :: l, b => by
    rw [List.foldlM_cons, result_bind]
    cases hk : keep a with
    | false =>
      rw [List.filter_cons_of_neg (by simp [hk]), hskip a b hk]
      exact result_foldlM_filter hskip hkeep l b
    | true =>
      rw [List.filter_cons_of_pos hk, List.foldlM_cons, result_bind, hkeep a b hk]
      cases (g b a).result with
      | error e => rfl
      | ok b' => exact result_foldlM_filter hskip hkeep l b'

/-! ### The log of a sequence -/

theorem log_foldlM_cons_of_ok (h : (f b a).result = .ok b') (l : List α) :
    ((a :: l).foldlM f b).log = (f b a).log ++ (l.foldlM f b').log := by
  rw [List.foldlM_cons, log_bind_of_ok h]

theorem forall_mem_log_bind {Q : LogRecord → Prop} {x : Logged α} {f : α → Logged β}
    (hx : ∀ r ∈ x.log, Q r) (hf : ∀ a, ∀ r ∈ (f a).log, Q r) : ∀ r ∈ (x >>= f).log, Q r := by
  intro r hr
  cases h : x.result with
  | error e =>
    rw [log_bind_of_error h] at hr
    exact hx r hr
  | ok a =>
    rw [log_bind_of_ok h] at hr
    exact (List.mem_append.1 hr).elim (hx r) (hf a r)

theorem forall_mem_log_foldlM {Q : LogRecord → Prop} (hf : ∀ b a, ∀ r ∈ (f b a).log, Q r) :
    ∀ (l : List α) (b : β), ∀ r ∈ (l.foldlM f b).log, Q r
  | [], _ => fun r hr => by cases hr
  | a :: l, b => by
    rw [List.foldlM_cons]
    exact forall_mem_log_bind (hf b a) fun b' => forall_mem_log_foldlM hf l b'

/-- **What the log of each step says** of where it starts and where it ends, the log of a sequence
says, too. -/
theorem foldlM_accounts {P : β → Prop} {R : β → List LogRecord → β → Prop}
    (refl : ∀ b, R b [] b) (trans : ∀ {a b c k m}, R a k b → R b m c → R a (k ++ m) c) :
    ∀ {l : List α} {b c : β},
      (∀ a ∈ l, ∀ b c, P b → (f b a).result = .ok c → P c ∧ R b (f b a).log c) →
        P b → (l.foldlM f b).result = .ok c → P c ∧ R b (l.foldlM f b).log c
  | [], b, _, _, hb, h => by
    obtain rfl := result_foldlM_nil_eq_ok_iff.1 h
    exact ⟨hb, refl _⟩
  | a :: l, b, c, hf, hb, h => by
    obtain ⟨b', hstep, h⟩ := result_foldlM_cons_eq_ok_iff.1 h
    obtain ⟨hb', hR⟩ := hf a List.mem_cons_self b b' hb hstep
    obtain ⟨hc, hR'⟩ :=
      foldlM_accounts refl trans (fun x hx => hf x (List.mem_cons_of_mem a hx)) hb' h
    rw [log_foldlM_cons_of_ok hstep]
    exact ⟨hc, trans hR hR'⟩

end Logged
end SchemaLang
