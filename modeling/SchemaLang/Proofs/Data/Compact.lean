import Mathlib.Data.List.TakeWhile
import SchemaLang.Data.Json

/-!
# Reading off compact JSON

The compact text of a document determines the document, but for one thing: a key is written as its
label, so a key that is a code is not told from a text of its digits (`compact_eq_compact_iff`).

The first character of a text gives the shape of the document away
(`exists_compactChars_eq_cons`).  A quoted text ends at the first quotation mark that is not
escaped, a sequence and a mapping end at their own brackets, and only an integer has no end of its
own: it ends before a character that is no part of a number, and what comes after a document is a
comma or a bracket, or nothing (`Ends`).  So two documents that start one row of characters are one
and end at one place (`readOff_compactChars`, by induction on the document).
-/

namespace SchemaLang

theorem Text.decimal_injective : Function.Injective Text.decimal := fun i j h => by
  have hread := congrArg Text.readInteger? h
  rw [readInteger?_decimal, readInteger?_decimal] at hread
  exact Option.some.inj hread

namespace Data

/-! ### Keys and their labels -/

mutual

/-- The document with the labels of its keys for keys. -/
def labelled : Data → Data
  | sequence items => sequence (labelItems items)
  | mapping fields => mapping (labelFields fields)
  | d => d

def labelItems : List Data → List Data
  | [] => []
  | d :: r => d.labelled :: labelItems r

def labelFields : List (Key × Data) → List (Key × Data)
  | [] => []
  | (k, d) :: r => (.text k.label, d.labelled) :: labelFields r

end

theorem labelItems_eq_map : ∀ items : List Data, labelItems items = items.map labelled
  | [] => rfl
  | d :: r => by rw [labelItems, labelItems_eq_map r, List.map_cons]

def labelledField (f : Key × Data) : Key × Data := (.text f.1.label, f.2.labelled)

theorem labelFields_eq_map : ∀ fields : List (Key × Data),
    labelFields fields = fields.map labelledField
  | [] => rfl
  | (k, d) :: r => by rw [labelFields, labelFields_eq_map r, List.map_cons, labelledField]

/-! ### Texts -/

def hexValue (c : Char) : Nat := if c.isDigit then c.toNat - 48 else c.toNat - 87

theorem hexValue_digitChar : ∀ n < 16, hexValue (Nat.digitChar n) = n := by decide

/-- The first character inside a JSON text, and what follows it. -/
def readEscaped? : List Char → Option (Char × List Char)
  | '\\' :: 'u' :: '0' :: '0' :: h :: l :: r => some (Char.ofNat (16 * hexValue h + hexValue l), r)
  | '\\' :: 'b' :: r => some ('\x08', r)
  | '\\' :: 't' :: r => some ('\x09', r)
  | '\\' :: 'n' :: r => some ('\x0a', r)
  | '\\' :: 'f' :: r => some ('\x0c', r)
  | '\\' :: 'r' :: r => some ('\x0d', r)
  | '\\' :: c :: r => some (c, r)
  | c :: r => some (c, r)
  | [] => none

theorem readEscaped?_of_ne {c : Char} (hc : c ≠ '\\') (r : List Char) :
    readEscaped? (c :: r) = some (c, r) := by
  unfold readEscaped?
  split <;> simp_all

/-- **A character is read back** from what stands for it inside a text. -/
theorem readEscaped?_escapeJson (c : Char) (r : List Char) :
    readEscaped? (escapeJson c ++ r) = some (c, r) := by
  rw [escapeJson]
  split
  · next h => subst h; rfl
  split
  · next h => subst h; rfl
  split
  · next h => subst h; rfl
  split
  · next h => subst h; rfl
  split
  · next h => subst h; rfl
  split
  · next h => subst h; rfl
  split
  · next h => subst h; rfl
  split
  · next h =>
    have hhigh := hexValue_digitChar (c.toNat / 16) (by omega)
    have hlow := hexValue_digitChar (c.toNat % 16) (by omega)
    show some (Char.ofNat (16 * hexValue _ + hexValue _), r) = some (c, r)
    rw [hhigh, hlow, Nat.div_add_mod, Char.ofNat_toNat]
  · next hne _ _ _ _ _ _ => exact readEscaped?_of_ne hne r

theorem escapeJson_append_inj {c d : Char} {r s : List Char}
    (h : escapeJson c ++ r = escapeJson d ++ s) : c = d ∧ r = s := by
  have hread := congrArg readEscaped? h
  rw [readEscaped?_escapeJson, readEscaped?_escapeJson] at hread
  exact Prod.mk.inj (Option.some.inj hread)

theorem exists_escapeJson_eq_cons (c : Char) : ∃ a t, escapeJson c = a :: t ∧ a ≠ '"' := by
  rw [escapeJson]
  split
  · exact ⟨_, _, rfl, by decide⟩
  · next hne =>
    repeat' split
    all_goals first | exact ⟨_, _, rfl, by decide⟩ | exact ⟨_, _, rfl, hne⟩

theorem flatMap_escapeJson_append_inj {r s : List Char} : ∀ {x y : List Char},
    x.flatMap escapeJson ++ '"' :: r = y.flatMap escapeJson ++ '"' :: s → x = y ∧ r = s
  | [], [], h => ⟨rfl, (List.cons.inj h).2⟩
  | [], d :: y, h => by
    obtain ⟨a, t, hd, ha⟩ := exists_escapeJson_eq_cons d
    rw [List.flatMap_cons, hd] at h
    exact absurd (List.cons.inj h).1.symm ha
  | c :: x, [], h => by
    obtain ⟨a, t, hc, ha⟩ := exists_escapeJson_eq_cons c
    rw [List.flatMap_cons, hc] at h
    exact absurd (List.cons.inj h).1 ha
  | c :: x, d :: y, h => by
    rw [List.flatMap_cons, List.flatMap_cons, List.append_assoc, List.append_assoc] at h
    obtain ⟨hc, hrest⟩ := escapeJson_append_inj h
    obtain ⟨hx, hr⟩ := flatMap_escapeJson_append_inj hrest
    exact ⟨List.cons_eq_cons.2 ⟨hc, hx⟩, hr⟩

/-- **A text ends at its quotation mark.** -/
theorem quoteJson_append_inj {s t : String} {r r' : List Char}
    (h : quoteJson s ++ r = quoteJson t ++ r') : s = t ∧ r = r' := by
  rw [quoteJson, quoteJson, List.cons_append, List.cons_append, List.append_assoc,
    List.append_assoc] at h
  obtain ⟨hchars, hrest⟩ := flatMap_escapeJson_append_inj (List.cons.inj h).2
  exact ⟨String.toList_inj.1 hchars, hrest⟩

/-! ### Integers -/

/-- What may follow a document: nothing, a comma or a closing bracket. -/
def Ends (r : List Char) : Prop := ∀ c, r.head? = some c → c ∈ [',', ']', '\x7d']

theorem ends_cons {c : Char} (h : c ∈ [',', ']', '\x7d']) (r : List Char) : Ends (c :: r) :=
  fun _ hd => Option.some.inj hd ▸ h

def isNumeral (c : Char) : Bool := c.isDigit || c == '-'

theorem isNumeral_of_mem_decimal {i : Int} {c : Char} (h : c ∈ Text.decimal i) :
    isNumeral c = true := by
  rw [isNumeral, Bool.or_eq_true, beq_iff_eq]
  cases i with
  | ofNat n => exact Or.inl (Text.isDigit_of_mem_toDigits_ten h)
  | negSucc n => exact (List.mem_cons.1 h).symm.imp_left Text.isDigit_of_mem_toDigits_ten

theorem takeWhile_decimal_append {i : Int} {r : List Char} (hr : Ends r) :
    (Text.decimal i ++ r).takeWhile isNumeral = Text.decimal i := by
  rw [List.takeWhile_append_of_pos fun c hc => isNumeral_of_mem_decimal hc]
  cases r with
  | nil => rw [List.takeWhile_nil, List.append_nil]
  | cons c r =>
    have hstop : ∀ c ∈ [',', ']', '\x7d'], isNumeral c = false :=
      List.forall_mem_cons.2 ⟨rfl, List.forall_mem_cons.2 ⟨rfl, List.forall_mem_singleton.2 rfl⟩⟩
    rw [List.takeWhile_cons_of_neg (by rw [hstop c (hr c rfl)]; decide), List.append_nil]

/-- **An integer ends before what ends a document.** -/
theorem decimal_append_inj {i j : Int} {r r' : List Char} (hr : Ends r) (hr' : Ends r')
    (h : Text.decimal i ++ r = Text.decimal j ++ r') : i = j ∧ r = r' := by
  have hwhile := congrArg (List.takeWhile isNumeral) h
  rw [takeWhile_decimal_append hr, takeWhile_decimal_append hr'] at hwhile
  obtain rfl := Text.decimal_injective hwhile
  exact ⟨rfl, List.append_cancel_left h⟩

/-! ### Shapes -/

/-- What kind of thing a document is. -/
inductive Shape where
  | null
  | boolean
  | integer
  | text
  | sequence
  | mapping
deriving DecidableEq

def shape : Data → Shape
  | null => .null
  | boolean _ => .boolean
  | integer _ => .integer
  | text _ => .text
  | sequence _ => .sequence
  | mapping _ => .mapping

def shapeOf? (c : Char) : Option Shape :=
  if c = 'n' then some .null
  else if c = 't' ∨ c = 'f' then some .boolean
  else if c = '"' then some .text
  else if c = '[' then some .sequence
  else if c = '\x7b' then some .mapping
  else if isNumeral c = true then some .integer
  else none

theorem shapeOf?_quote : shapeOf? '"' = some .text := by decide

theorem shapeOf?_bracket : shapeOf? '[' = some .sequence := by decide

theorem shapeOf?_brace : shapeOf? '\x7b' = some .mapping := by decide

theorem shapeOf?_of_isNumeral {c : Char} (h : isNumeral c = true) : shapeOf? c = some .integer := by
  have hne : ∀ d : Char, isNumeral d = false → c ≠ d := fun d hd e => by
    rw [e, hd] at h
    cases h
  rw [shapeOf?, if_neg (hne 'n' (by decide)),
    if_neg (not_or.2 ⟨hne 't' (by decide), hne 'f' (by decide)⟩), if_neg (hne '"' (by decide)),
    if_neg (hne '[' (by decide)), if_neg (hne '\x7b' (by decide)), if_pos h]

/-- **The first character of a document gives its shape away.** -/
theorem exists_compactChars_eq_cons (d : Data) :
    ∃ c t, d.compactChars = c :: t ∧ shapeOf? c = some d.shape := by
  cases d with
  | null => exact ⟨_, _, rfl, by decide⟩
  | boolean b => cases b <;> exact ⟨_, _, rfl, by decide⟩
  | integer i =>
    obtain ⟨c, t, ht⟩ := List.exists_cons_of_ne_nil (Text.decimal_ne_nil i)
    refine ⟨c, t, ht, shapeOf?_of_isNumeral (isNumeral_of_mem_decimal (i := i) ?_)⟩
    rw [ht]
    exact List.mem_cons_self
  | text s => exact ⟨_, _, rfl, shapeOf?_quote⟩
  | sequence items => exact ⟨'[', _, rfl, shapeOf?_bracket⟩
  | mapping fields => exact ⟨'\x7b', _, rfl, shapeOf?_brace⟩

theorem shape_eq_of_append_eq {d e : Data} {r r' : List Char}
    (h : d.compactChars ++ r = e.compactChars ++ r') : d.shape = e.shape := by
  obtain ⟨c, t, hd, hc⟩ := exists_compactChars_eq_cons d
  obtain ⟨c', t', he, hc'⟩ := exists_compactChars_eq_cons e
  rw [hd, he] at h
  rw [(List.cons.inj h).1] at hc
  exact Option.some.inj (hc.symm.trans hc')

theorem not_ends_compactChars_append (d : Data) (r : List Char) : ¬Ends (d.compactChars ++ r) := by
  have hnone : ∀ c ∈ [',', ']', '\x7d'], shapeOf? c = none :=
    List.forall_mem_cons.2 ⟨rfl, List.forall_mem_cons.2 ⟨rfl, List.forall_mem_singleton.2 rfl⟩⟩
  obtain ⟨c, t, hd, hc⟩ := exists_compactChars_eq_cons d
  intro hends
  rw [hnone c (hends c (by rw [hd]; rfl))] at hc
  cases hc

/-! ### Rows of members -/

/-- What is written for `a` is told from what is written for anything else, and so is where it
ends: `g` is what is read off, and what comes after has to end a document. -/
def ReadOff {α β : Type} (f : α → List Char) (g : α → β) (a : α) : Prop :=
  ∀ ⦃b r r'⦄, Ends r → Ends r' → f a ++ r = f b ++ r' → g a = g b ∧ r = r'

section Separated

variable {α β : Type} {f : α → List Char} {g : α → β} {close : Char} {r r' : List Char}

def preceded (f : α → List Char) (l : List α) : List Char := l.flatMap fun a => ',' :: f a

/-- Members with commas between them. -/
def separated (f : α → List Char) : List α → List Char
  | [] => []
  | a :: l => f a ++ preceded f l

theorem ends_preceded_append (hclose : close ∈ [']', '\x7d']) :
    ∀ l : List α, Ends (preceded f l ++ close :: r)
  | [] => ends_cons (List.mem_cons_of_mem _ hclose) r
  | _ :: _ => ends_cons List.mem_cons_self _

theorem preceded_append_inj (hclose : close ∈ [']', '\x7d']) : ∀ {l l' : List α},
    (∀ a ∈ l, ReadOff f g a) → preceded f l ++ close :: r = preceded f l' ++ close :: r' →
      l.map g = l'.map g ∧ r = r'
  | [], [], _, h => ⟨rfl, (List.cons.inj h).2⟩
  | [], _ :: _, _, h => absurd ((List.cons.inj h).1 ▸ hclose) (by decide)
  | _ :: _, [], _, h => absurd ((List.cons.inj h).1 ▸ hclose) (by decide)
  | a :: l, b :: l', hl, h => by
    obtain ⟨ha, hl⟩ := List.forall_mem_cons.1 hl
    rw [preceded, preceded, List.flatMap_cons, List.flatMap_cons, List.append_assoc,
      List.append_assoc] at h
    obtain ⟨hab, hrest⟩ := ha (ends_preceded_append hclose l) (ends_preceded_append hclose l')
      (List.cons.inj h).2
    obtain ⟨hmap, hr⟩ := preceded_append_inj hclose hl hrest
    exact ⟨List.cons_eq_cons.2 ⟨hab, hmap⟩, hr⟩

/-- **A row of members ends at its bracket** when no member starts like the end of one. -/
theorem separated_append_inj (hclose : close ∈ [']', '\x7d'])
    (hstart : ∀ a r, ¬Ends (f a ++ r)) : ∀ {l l' : List α}, (∀ a ∈ l, ReadOff f g a) →
    separated f l ++ close :: r = separated f l' ++ close :: r' → l.map g = l'.map g ∧ r = r'
  | [], [], _, h => ⟨rfl, (List.cons.inj h).2⟩
  | [], b :: l', _, h => by
    have hends : Ends ([] ++ close :: r) := ends_cons (List.mem_cons_of_mem _ hclose) r
    rw [separated, separated, List.append_assoc] at h
    rw [h] at hends
    exact absurd hends (hstart b _)
  | a :: l, [], _, h => by
    have hends : Ends ([] ++ close :: r') := ends_cons (List.mem_cons_of_mem _ hclose) r'
    rw [separated, separated, List.append_assoc] at h
    rw [← h] at hends
    exact absurd hends (hstart a _)
  | a :: l, b :: l', hl, h => preceded_append_inj hclose hl (congrArg (List.cons ',') h)

end Separated

def compactField (f : Key × Data) : List Char := quoteJson f.1.label ++ ':' :: f.2.compactChars

theorem compactItems_eq_separated : ∀ items : List Data,
    compactItems items = separated compactChars items
  | [] => rfl
  | [d] => (List.append_nil _).symm
  | d :: e :: items => by
    rw [compactItems, compactItems_eq_separated (e :: items)]
    rfl

theorem compactFields_eq_separated : ∀ fields : List (Key × Data),
    compactFields fields = separated compactField fields
  | [] => rfl
  | [f] => (List.append_nil _).symm
  | f :: g :: fields => by
    rw [compactFields, compactFields_eq_separated (g :: fields)]
    rfl

/-! ### Documents -/

theorem readOff_field {f : Key × Data} (h : ReadOff compactChars labelled f.2) :
    ReadOff compactField labelledField f := by
  intro g r r' hr hr' heq
  rw [compactField, compactField, List.append_assoc, List.append_assoc] at heq
  -- the label ends by itself, whatever comes after it
  obtain ⟨hlabel, hrest⟩ := quoteJson_append_inj heq
  obtain ⟨hvalue, hr⟩ := h hr hr' (List.cons.inj hrest).2
  exact ⟨by rw [labelledField, labelledField, hlabel, hvalue], hr⟩

theorem readOff_sequence {items : List Data}
    (h : ∀ d ∈ items, ReadOff compactChars labelled d) :
    ReadOff compactChars labelled (sequence items) := by
  intro e r r' _ _ heq
  have hshape := shape_eq_of_append_eq heq
  cases e with
  | sequence items' =>
    rw [compactChars, compactChars, compactItems_eq_separated, compactItems_eq_separated] at heq
    simp only [List.cons_append, List.append_assoc, List.cons.injEq, true_and,
      List.nil_append] at heq
    obtain ⟨hitems, hr⟩ := separated_append_inj (by decide) not_ends_compactChars_append h heq
    rw [labelled, labelled, labelItems_eq_map, labelItems_eq_map, hitems]
    exact ⟨rfl, hr⟩
  | _ => cases hshape

theorem readOff_mapping {fields : List (Key × Data)}
    (h : ∀ f ∈ fields, ReadOff compactChars labelled f.2) :
    ReadOff compactChars labelled (mapping fields) := by
  intro e r r' _ _ heq
  have hshape := shape_eq_of_append_eq heq
  cases e with
  | mapping fields' =>
    have hstart : ∀ (f : Key × Data) r, ¬Ends (compactField f ++ r) := fun f r hends =>
      absurd (hends '"' rfl) (by decide)
    rw [compactChars, compactChars, compactFields_eq_separated, compactFields_eq_separated] at heq
    simp only [List.cons_append, List.append_assoc, List.cons.injEq, true_and,
      List.nil_append] at heq
    obtain ⟨hfields, hr⟩ :=
      separated_append_inj (by decide) hstart (fun f hf => readOff_field (h f hf)) heq
    rw [labelled, labelled, labelFields_eq_map, labelFields_eq_map, hfields]
    exact ⟨rfl, hr⟩
  | _ => cases hshape

mutual

/-- **A document is told from any other by its characters, up to the labels of its keys**, and so is
where it ends. -/
theorem readOff_compactChars : ∀ d : Data, ReadOff compactChars labelled d
  | null => fun e r r' _ _ h => by
    have hshape := shape_eq_of_append_eq h
    cases e with
    | null => exact ⟨rfl, List.append_cancel_left h⟩
    | _ => cases hshape
  | boolean b => fun e r r' _ _ h => by
    have hshape := shape_eq_of_append_eq h
    cases e with
    | boolean b' => cases b <;> cases b' <;> simp_all [compactChars, scalarJson]
    | _ => cases hshape
  | integer i => fun e r r' hr hr' h => by
    have hshape := shape_eq_of_append_eq h
    cases e with
    | integer j => exact (decimal_append_inj hr hr' h).imp_left (congrArg integer)
    | _ => cases hshape
  | text s => fun e r r' _ _ h => by
    have hshape := shape_eq_of_append_eq h
    cases e with
    | text t => exact (quoteJson_append_inj h).imp_left (congrArg text)
    | _ => cases hshape
  | sequence items => readOff_sequence (readOff_items items)
  | mapping fields => readOff_mapping (readOff_fields fields)

theorem readOff_items : ∀ items : List Data, ∀ d ∈ items, ReadOff compactChars labelled d
  | [] => List.forall_mem_nil _
  | d :: items => List.forall_mem_cons.2 ⟨readOff_compactChars d, readOff_items items⟩

theorem readOff_fields :
    ∀ fields : List (Key × Data), ∀ f ∈ fields, ReadOff compactChars labelled f.2
  | [] => List.forall_mem_nil _
  | (_, d) :: fields => List.forall_mem_cons.2 ⟨readOff_compactChars d, readOff_fields fields⟩

end

mutual

theorem compactChars_labelled : ∀ d : Data, d.labelled.compactChars = d.compactChars
  | null | boolean _ | integer _ | text _ => rfl
  | sequence items => by
    rw [labelled, compactChars, compactChars, compactItems_labelItems items]
  | mapping fields => by
    rw [labelled, compactChars, compactChars, compactFields_labelFields fields]

theorem compactItems_labelItems : ∀ items : List Data,
    compactItems (labelItems items) = compactItems items
  | [] => rfl
  | [d] => compactChars_labelled d
  | d :: e :: items => by
    have ih := compactItems_labelItems (e :: items)
    rw [labelItems] at ih
    rw [labelItems, labelItems, compactItems, compactItems, compactChars_labelled d, ih]

theorem compactFields_labelFields : ∀ fields : List (Key × Data),
    compactFields (labelFields fields) = compactFields fields
  | [] => rfl
  | [(k, d)] => by
    rw [labelFields, labelFields, compactFields, compactFields, compactChars_labelled d, Key.label]
  | (k, d) :: (k', d') :: fields => by
    have ih := compactFields_labelFields ((k', d') :: fields)
    rw [labelFields] at ih
    rw [labelFields, labelFields, compactFields, compactFields, compactChars_labelled d, ih,
      Key.label]

end

/-- **The compact text of a document determines it**, up to the labels of its keys. -/
theorem compact_eq_compact_iff {d e : Data} : d.compact = e.compact ↔ d.labelled = e.labelled := by
  refine ⟨fun h => ?_, fun h => ?_⟩
  · have hchars : d.compactChars ++ [] = e.compactChars ++ [] :=
      congrArg (· ++ []) (String.ofList_injective h)
    have hends : Ends [] := fun _ hc => nomatch hc
    exact (readOff_compactChars d hends hends hchars).1
  · rw [compact, compact, ← compactChars_labelled d, ← compactChars_labelled e, h]

end Data
end SchemaLang
