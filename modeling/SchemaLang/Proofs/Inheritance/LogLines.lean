import SchemaLang.Proofs.Declaration.Extension
import SchemaLang.Proofs.Inheritance.Records
import SchemaLang.Proofs.Outline.Forest

/-!
# The lines of the log

A record is written as a line, and the line does not say all that the record does.  An owner and
its property are divided by a dot, and names may have dots in them: the property `b.c` of `a` and
the property `c` of `a.b` are written alike.  So there is not one line for each property that is
inherited, but as many lines of one text as there are properties that are written with it
(`ToldBy`).

Where no name has a space in it, as in all that is read from a text, that dot is all that can be
mixed up (`ToldApart`).  The warnings then stand there once for each way to an object.

* `Property.line_record`, `LogRecord.line_undeclaredSuperType`: what is written.
* `AccountedBy.toldBy`: the lines of a log that accounts for a schema.
* `ToldBy.toldApart`: what they tell when names have no spaces.
* `compile_accounts`: the records and the lines of the log of compiling.
-/

namespace SchemaLang

open Outline (Node)

/-! ### Lines -/

def Property.inheritedLine (heir : String) (p : Property) : String :=
  "TRACE `" ++ heir ++ "` inherits `" ++ p.owner ++ "." ++ p.name ++ "`"

def undeclaredLine (superType object : String) : String :=
  "WARN super type `" ++ superType ++ "` of `" ++ object ++ "` is not declared; ignoring"

theorem Property.line_record (heir : String) (p : Property) :
    (p.record heir).line = p.inheritedLine heir := by
  have hstart : "TRACE" ++ " " ++ "`" = "TRACE `" := rfl
  unfold inheritedLine
  simp only [← hstart, String.append_assoc]
  show "TRACE" ++ " " ++ ("`" ++ heir ++ "` inherits `" ++ p.owner ++ "." ++ p.name ++ "`") = _
  simp only [String.append_assoc]

theorem LogRecord.line_undeclaredSuperType (t n : String) :
    (undeclaredSuperType t n).line = undeclaredLine t n := by
  have hstart : "WARN" ++ " " ++ "super type `" = "WARN super type `" := rfl
  unfold undeclaredLine
  simp only [← hstart, String.append_assoc]
  show "WARN" ++ " " ++ ("super type `" ++ t ++ "` of `" ++ n ++ "` is not declared; ignoring") = _
  simp only [String.append_assoc]

theorem LogLevel.toList_name (l : LogLevel) : l.name.toList =
    match l with
    | .trace => ['T', 'R', 'A', 'C', 'E']
    | .debug => ['D', 'E', 'B', 'U', 'G']
    | .warn => ['W', 'A', 'R', 'N'] := by
  cases l <;> rfl

/-- The level of a record can be read off its line. -/
theorem LogRecord.prefix_line_iff (l : LogLevel) (r : LogRecord) :
    (l.name ++ " ").toList <+: r.line.toList ↔ r.level = l := by
  have hspace : " ".toList = [' '] := rfl
  unfold line
  simp only [String.toList_append, hspace, LogLevel.toList_name]
  cases l <;> cases r.level <;> simp

theorem filter_prefix_map_line (l : LogLevel) (log : List LogRecord) :
    ((log.map LogRecord.line).filter fun x => (l.name ++ " ").toList <+: x.toList) =
      (log.filter fun r => r.level = l).map LogRecord.line := by
  rw [List.filter_map]
  refine congrArg _ (List.filter_congr fun r _ => ?_)
  rw [Function.comp_apply, decide_eq_decide, LogRecord.prefix_line_iff]

theorem count_eq_of_perm_filter {w x : String} {lines lines' : List String}
    (hx : w.toList <+: x.toList) (h : (lines.filter fun y => w.toList <+: y.toList).Perm lines') :
    lines.count x = lines'.count x := by
  rw [← h.count_eq]
  exact (List.count_filter (p := fun y : String => decide (w.toList <+: y.toList))
    (decide_eq_true hx)).symm

/-- What stands before the first `c` can be read off. -/
theorem append_cons_inj_of_not_mem {α : Type} {c : α} {x y : List α} : ∀ {a b : List α},
    c ∉ a → c ∉ b → a ++ c :: x = b ++ c :: y → a = b ∧ x = y
  | [], [], _, _, h => ⟨rfl, (List.cons.inj h).2⟩
  | [], d :: b, _, hb, h => absurd ((List.cons.inj h).1 ▸ List.mem_cons_self) hb
  | d :: a, [], ha, _, h => absurd ((List.cons.inj h).1 ▸ List.mem_cons_self) ha
  | d :: a, e :: b, ha, hb, h => by
    obtain ⟨rfl, htail⟩ := List.cons.inj h
    obtain ⟨rfl, hxy⟩ := append_cons_inj_of_not_mem (fun hc => ha (List.mem_cons_of_mem d hc))
      (fun hc => hb (List.mem_cons_of_mem d hc)) htail
    exact ⟨rfl, hxy⟩

/-- A name without a space is read off with the mark and the space behind it. -/
theorem append_mark_space_inj {a b x y : List Char} (ha : ' ' ∉ a) (hb : ' ' ∉ b) :
    a ++ '\x60' :: ' ' :: x = b ++ '\x60' :: ' ' :: y ↔ a = b ∧ x = y := by
  constructor
  · intro h
    rw [← List.singleton_append, ← List.append_assoc, ← List.singleton_append (l := ' ' :: y),
      ← List.append_assoc] at h
    obtain ⟨hab, hxy⟩ := append_cons_inj_of_not_mem (by simpa using ha) (by simpa using hb) h
    exact ⟨List.append_cancel_right hab, hxy⟩
  · rintro ⟨rfl, rfl⟩
    rfl

theorem Property.inheritedLine_eq_iff {m n : String} {p q : Property} (hm : ' ' ∉ m.toList)
    (hn : ' ' ∉ n.toList) : p.inheritedLine m = q.inheritedLine n ↔
      m = n ∧ p.owner ++ "." ++ p.name = q.owner ++ "." ++ q.name := by
  have hmark : "` inherits `".toList = '\x60' :: ' ' :: "inherits `".toList := rfl
  unfold inheritedLine
  simp only [← String.toList_inj, String.toList_append, List.append_assoc, hmark,
    List.append_cancel_left_eq, List.cons_append]
  rw [append_mark_space_inj hm hn, List.append_cancel_left_eq]
  simp only [← List.append_assoc, List.append_cancel_right_eq]

/-- Behind an owner without a dot, the first dot is the one in front of the property. -/
theorem Property.name_eq_of_spelled_eq {p q : Property} (hp : '.' ∉ p.owner.toList)
    (hq : '.' ∉ q.owner.toList)
    (h : p.owner ++ "." ++ p.name = q.owner ++ "." ++ q.name) : p.name = q.name := by
  have hchars := congrArg String.toList h
  have hpoint : ".".toList = ['.'] := rfl
  simp only [String.toList_append, hpoint, List.append_assoc, List.singleton_append] at hchars
  exact String.toList_inj.1 (append_cons_inj_of_not_mem hp hq hchars).2

theorem undeclaredLine_eq_iff {t u m n : String} (ht : ' ' ∉ t.toList) (hu : ' ' ∉ u.toList) :
    undeclaredLine t m = undeclaredLine u n ↔ t = u ∧ m = n := by
  have hmark : "` of `".toList = '\x60' :: ' ' :: "of `".toList := rfl
  unfold undeclaredLine
  simp only [← String.toList_inj, String.toList_append, List.append_assoc, hmark,
    List.append_cancel_left_eq, List.cons_append]
  rw [append_mark_space_inj ht hu, List.append_cancel_left_eq, List.append_cancel_right_eq]

theorem count_flatMap_replicate {α β : Type} [DecidableEq β] {k : α → Nat} {f : α → β} {x : β}
    (l : List α) : (l.flatMap fun a => List.replicate (k a) (f a)).count x =
      ((l.filter fun a => f a = x).map k).sum := by
  induction l with
  | nil => rfl
  | cons a l ih =>
    rw [List.flatMap_cons, List.count_append, ih, List.count_replicate]
    by_cases hx : f a = x
    · simp [hx]
    · simp [hx]

theorem flatMap_eq_of_mem {α β : Type} {f : α → List β} {l : List α} {a : α} (hl : l.Nodup)
    (ha : a ∈ l) (hf : ∀ b ∈ l, b ≠ a → f b = []) : l.flatMap f = f a := by
  obtain ⟨l₁, l₂, rfl⟩ := List.append_of_mem ha
  have hne : ∀ b ∈ l₁ ++ l₂, b ≠ a := fun b hb e =>
    (List.nodup_cons.1 (List.nodup_middle.1 hl)).1 (e ▸ hb)
  have h₁ : l₁.flatMap f = [] := List.flatMap_eq_nil_iff.2 fun b hb =>
    hf b (List.mem_append_left _ hb) (hne b (List.mem_append_left l₂ hb))
  have h₂ : l₂.flatMap f = [] := List.flatMap_eq_nil_iff.2 fun b hb =>
    hf b (List.mem_append_right l₁ (List.mem_cons_of_mem a hb))
      (hne b (List.mem_append_right l₁ hb))
  rw [List.flatMap_append, List.flatMap_cons, h₁, h₂, List.nil_append, List.append_nil]

/-! ### What lines tell -/

namespace Schema

variable {s : Schema} {log : List LogRecord} {lines : List String}

/-- **The lines of a log tell of a schema**: of what its objects have inherited, and of the super
types that it does not declare. -/
structure ToldBy (s : Schema) (lines : List String) : Prop where
  inherited : (lines.filter fun x => "TRACE ".toList <+: x.toList).Perm
    (s.inheritances.map fun e => e.2.inheritedLine e.1)
  /-- Of each super type of an object there are as many lines as ways to the object. -/
  undeclared : (lines.filter fun x => "WARN ".toList <+: x.toList).Perm
    (s.undeclarations.flatMap fun e =>
      List.replicate (s.waysTo e.2).ncard (undeclaredLine e.1 e.2))
  /-- A line is there once for each inherited property that is written with it. -/
  count_inherited : ∀ o ∈ s.objectList, ∀ p ∈ o.properties.values, p.owner ≠ o.name →
    lines.count (p.inheritedLine o.name) =
      s.inheritances.countP fun e => e.2.inheritedLine e.1 = p.inheritedLine o.name
  count_undeclared : ∀ o ∈ s.objectList, ∀ t ∈ o.superTypes, s.declares t = false →
    lines.count (undeclaredLine t o.name) =
      ((s.undeclarations.filter fun e => undeclaredLine e.1 e.2 = undeclaredLine t o.name).map
        fun e => (s.waysTo e.2).ncard).sum

/-- **Lines that only a dot can mix up**: each belongs to one object, a warning to one super type of
it, and a property to those of the object that have the same owner and name with a dot between. -/
structure ToldApart (s : Schema) (lines : List String) : Prop where
  inherited : ∀ o ∈ s.objectList, ∀ p ∈ o.properties.values, p.owner ≠ o.name →
    lines.count (p.inheritedLine o.name) = o.properties.values.countP fun q =>
      q.owner ≠ o.name ∧ q.owner ++ "." ++ q.name = p.owner ++ "." ++ p.name
  /-- Where no owner has a dot in its name, each property has its own line. -/
  once : ∀ o ∈ s.objectList, (∀ q ∈ o.properties.values, '.' ∉ q.owner.toList) →
    ∀ p ∈ o.properties.values, p.owner ≠ o.name → lines.count (p.inheritedLine o.name) = 1
  undeclared : ∀ o ∈ s.objectList, ∀ t ∈ o.superTypes, s.declares t = false →
    lines.count (undeclaredLine t o.name) = (s.waysTo o.name).ncard

end Schema

def LogRecord.undeclared? : LogRecord → Option (String × String)
  | undeclaredSuperType t n => some (t, n)
  | _ => none

theorem LogRecord.undeclared?_eq_some_iff {r : LogRecord} {e : String × String} :
    r.undeclared? = some e ↔ r = undeclaredSuperType e.1 e.2 := by
  obtain ⟨t, n⟩ := e
  cases r <;> simp [undeclared?]

namespace Schema

variable {s : Schema} {log : List LogRecord} {lines : List String}

theorem nodup_undeclarations (h : s.Named) : s.undeclarations.Nodup := by
  refine List.nodup_flatMap.2 ⟨fun o _ => ?_, ?_⟩
  · exact (o.superTypes.nodup.filter _).map fun t u e => (Prod.mk.inj e).1
  · have hnames : (s.objectList.map ObjectType.name).Nodup := by
      rw [h.map_name_objectList]
      exact s.objects.nodup_keys
    refine (List.pairwise_map.1 hnames).imp fun {o o'} hne => ?_
    rintro ⟨t, n⟩ ht ht'
    obtain ⟨u, _, hu⟩ := List.mem_map.1 ht
    obtain ⟨u', _, hu'⟩ := List.mem_map.1 ht'
    exact hne ((Prod.mk.inj hu).2.trans (Prod.mk.inj hu').2.symm)

/-- **The records of warning**, sorted by what they warn of. -/
theorem AccountedBy.perm_warnings (h : s.AccountedBy log) (hnamed : s.Named) :
    (log.filter fun r => r.level = .warn).Perm (s.undeclarations.flatMap fun e =>
      List.replicate (s.waysTo e.2).ncard (.undeclaredSuperType e.1 e.2)) := by
  have hkey : ∀ r ∈ log.filter fun r => r.level = .warn,
      ∃ e ∈ s.undeclarations, r.undeclared? = some e := by
    intro r hr
    obtain ⟨hr, hlevel⟩ := List.mem_filter.1 hr
    obtain ⟨o, ho, t, ht, hnone, rfl⟩ := h.warned r hr (of_decide_eq_true hlevel)
    exact ⟨(t, o.name), mem_undeclarations_iff.2 ⟨o, ho, rfl, ht, hnone⟩, rfl⟩
  refine (perm_flatMap_filter (nodup_undeclarations hnamed) hkey).symm.trans ?_
  refine .of_eq (List.flatMap_congr fun e he => ?_)
  obtain ⟨o, ho, hn, ht, hnone⟩ := mem_undeclarations_iff.1 he
  have hcount := (h.visited o ho e.1 ht hnone).2
  have heq : (fun r : LogRecord => decide (r.undeclared? = some e)) =
      fun r => r == .undeclaredSuperType e.1 e.2 := by
    funext r
    rw [Bool.eq_iff_iff, decide_eq_true_eq, beq_iff_eq, LogRecord.undeclared?_eq_some_iff]
  rw [heq, List.filter_beq, List.count_filter (by rfl), hn, hcount]

theorem AccountedBy.toldBy (h : s.AccountedBy log) (hnamed : s.Named) :
    s.ToldBy (log.map LogRecord.line) := by
  have htrace : ((log.map LogRecord.line).filter fun x => "TRACE ".toList <+: x.toList).Perm
      (s.inheritances.map fun e => e.2.inheritedLine e.1) := by
    have hperm := h.inherited.map LogRecord.line
    rw [← filter_prefix_map_line, inheritedRecords, List.map_map] at hperm
    refine hperm.trans (.of_eq (List.map_congr_left fun e _ => ?_))
    exact e.2.line_record e.1
  have hwarn : ((log.map LogRecord.line).filter fun x => "WARN ".toList <+: x.toList).Perm
      (s.undeclarations.flatMap fun e =>
        List.replicate (s.waysTo e.2).ncard (undeclaredLine e.1 e.2)) := by
    have hperm := (h.perm_warnings hnamed).map LogRecord.line
    rw [← filter_prefix_map_line, List.map_flatMap] at hperm
    refine hperm.trans (.of_eq (List.flatMap_congr fun e _ => ?_))
    rw [List.map_replicate, LogRecord.line_undeclaredSuperType]
  refine ⟨htrace, hwarn, fun o ho p hp hne => ?_, fun o ho t ht hnone => ?_⟩
  · have hstart : "TRACE ".toList <+: (p.inheritedLine o.name).toList := by
      rw [← Property.line_record]
      exact (LogRecord.prefix_line_iff .trace _).2 rfl
    rw [count_eq_of_perm_filter hstart htrace, List.count_eq_countP, List.countP_map]
    exact List.countP_congr fun e _ => by rw [Function.comp_apply, beq_iff_eq, decide_eq_true_eq]
  · have hstart : "WARN ".toList <+: (undeclaredLine t o.name).toList := by
      rw [← LogRecord.line_undeclaredSuperType]
      exact (LogRecord.prefix_line_iff .warn _).2 rfl
    rw [count_eq_of_perm_filter hstart hwarn, count_flatMap_replicate]

/-! ### Names without spaces -/

theorem filter_inheritances (h : s.Named) {o : ObjectType} (ho : o ∈ s.objectList) :
    (s.inheritances.filter fun e => e.1 = o.name) =
      (o.properties.values.filter fun p => p.owner ≠ o.name).map fun p => (o.name, p) := by
  rw [inheritances, List.filter_flatMap, flatMap_eq_of_mem h.nodup_objectList ho]
  · refine List.filter_eq_self.2 fun e he => ?_
    obtain ⟨p, _, rfl⟩ := List.mem_map.1 he
    exact decide_eq_true rfl
  · intro o' ho' hne
    refine List.filter_eq_nil_iff.2 fun e he hname => ?_
    obtain ⟨p, _, rfl⟩ := List.mem_map.1 he
    have hfind := h.object?_name ho'
    rw [show o'.name = o.name from of_decide_eq_true hname, h.object?_name ho] at hfind
    exact hne (Option.some.inj hfind).symm

/-- The line of an inherited property belongs to its heir. -/
theorem ToldBy.count_inheritedLine (h : s.ToldBy lines) (hnamed : s.Named)
    (hspace : ∀ o ∈ s.objectList, ' ' ∉ o.name.toList) {o : ObjectType} (ho : o ∈ s.objectList)
    {p : Property} (hp : p ∈ o.properties.values) (hne : p.owner ≠ o.name) :
    lines.count (p.inheritedLine o.name) = o.properties.values.countP fun q =>
      q.owner ≠ o.name ∧ q.owner ++ "." ++ q.name = p.owner ++ "." ++ p.name := by
  have hline : ∀ e ∈ s.inheritances, (e.2.inheritedLine e.1 = p.inheritedLine o.name ↔
      e.2.owner ++ "." ++ e.2.name = p.owner ++ "." ++ p.name ∧ e.1 = o.name) := by
    intro e he
    obtain ⟨o', ho', hname, _⟩ := mem_inheritances_iff.1 he
    rw [Property.inheritedLine_eq_iff (hname ▸ hspace o' ho') (hspace o ho), and_comm]
  rw [h.count_inherited o ho p hp hne]
  calc s.inheritances.countP (fun e => e.2.inheritedLine e.1 = p.inheritedLine o.name)
      = (s.inheritances.filter fun e => e.1 = o.name).countP fun e =>
          e.2.owner ++ "." ++ e.2.name = p.owner ++ "." ++ p.name := by
        rw [List.countP_filter]
        exact List.countP_congr fun e he => by simp [hline e he]
    _ = o.properties.values.countP fun q =>
          q.owner ≠ o.name ∧ q.owner ++ "." ++ q.name = p.owner ++ "." ++ p.name := by
        rw [filter_inheritances hnamed ho, List.countP_map, List.countP_filter]
        exact List.countP_congr fun q _ => by simp [and_comm]

theorem ToldBy.count_undeclaredLine (h : s.ToldBy lines) (hnamed : s.Named)
    (hspace : ∀ o ∈ s.objectList, ∀ t ∈ o.superTypes, ' ' ∉ t.toList) {o : ObjectType}
    (ho : o ∈ s.objectList) {t : String} (ht : t ∈ o.superTypes) (hnone : s.declares t = false) :
    lines.count (undeclaredLine t o.name) = (s.waysTo o.name).ncard := by
  have hpair : (t, o.name) ∈ s.undeclarations :=
    mem_undeclarations_iff.2 ⟨o, ho, rfl, ht, hnone⟩
  have hfilter : (s.undeclarations.filter fun e =>
      undeclaredLine e.1 e.2 = undeclaredLine t o.name) = [(t, o.name)] := by
    have hone := List.count_eq_one_of_mem (nodup_undeclarations hnamed) hpair
    rw [← List.replicate_one, ← hone, ← List.filter_beq]
    refine List.filter_congr fun e he => ?_
    obtain ⟨o', ho', _, hmem, _⟩ := mem_undeclarations_iff.1 he
    rw [Bool.eq_iff_iff, decide_eq_true_eq, beq_iff_eq, Prod.ext_iff,
      undeclaredLine_eq_iff (hspace o' ho' e.1 hmem) (hspace o ho t ht)]
  rw [h.count_undeclared o ho t ht hnone, hfilter, List.map_singleton, List.sum_singleton]

/-- **Without spaces in names only a dot can be mixed up.** -/
theorem ToldBy.toldApart (h : s.ToldBy lines) (hnamed : s.Named)
    (hholds : ∀ o ∈ s.objectList, o.Holds o.properties.values)
    (hspace : ∀ o ∈ s.objectList, ' ' ∉ o.name.toList ∧ ∀ t ∈ o.superTypes, ' ' ∉ t.toList) :
    s.ToldApart lines where
  inherited := fun _ ho _ => h.count_inheritedLine hnamed (fun o ho => (hspace o ho).1) ho
  undeclared := fun _ ho _ => h.count_undeclaredLine hnamed (fun o ho => (hspace o ho).2) ho
  once := by
    intro o ho hdot p hp hne
    rw [h.count_inheritedLine hnamed (fun o ho => (hspace o ho).1) ho hp hne,
      ← List.count_eq_one_of_mem (hholds o ho).nodup hp, List.count_eq_countP]
    refine List.countP_congr fun q hq => ?_
    rw [decide_eq_true_eq, beq_iff_eq]
    constructor
    · rintro ⟨_, hspelled⟩
      have hname := Property.name_eq_of_spelled_eq (hdot q hq) (hdot p hp) hspelled
      exact (hholds o ho).eq_of_name_eq hq hp hname
    · rintro rfl
      exact ⟨hne, rfl⟩

end Schema

/-! ### The log of compiling -/

variable {options : Options} {nodes : List Node} {s : Schema}

/-- The names of objects and of super types are words of headers. -/
theorem exists_mem_words_of_compile (h : (compile options nodes).result = .ok s) {o : ObjectType}
    (ho : o ∈ s.objectList) : (∃ node ∈ nodes, o.name ∈ node.words) ∧
      ∀ t ∈ o.superTypes, ∃ node ∈ nodes, t ∈ node.words := by
  obtain ⟨d, hdecl, _, hs⟩ := compile_eq_ok_iff.1 h
  obtain ⟨bs, hbs, hcollects⟩ := collects_of_declareAll hdecl
  obtain ⟨hp, _⟩ := hcollects.declared.of_resolve hs
  obtain ⟨o₀, ho₀, hhead⟩ := hp.header ((hp.named hcollects.declared).object?_name ho)
  have hblock : ∀ b ∈ bs, ∃ node ∈ nodes, node.name? = some b.name ∧
      b.superTypes = OrderedSet.ofList (node.words.drop 2) := by
    intro b hb
    obtain ⟨node, hnode, hofNode⟩ := exists_mem_of_map_eq hbs hb
    obtain ⟨_, hname, _, hsuper, _⟩ := ObjectType.ofNode_eq_ok_iff.1 hofNode
    exact ⟨node, List.mem_of_mem_filter hnode, hname, hsuper⟩
  constructor
  · obtain ⟨b, hb, hname, _⟩ := hcollects.exists_block ho₀
    obtain ⟨node, hnode, hword, _⟩ := hblock b hb
    rw [hname] at hword
    exact ⟨node, hnode, List.mem_of_getElem? hword⟩
  · intro t ht
    rw [OrderedSet.mem_def, (ObjectType.header_eq_iff.1 hhead).2.2] at ht
    obtain ⟨b, hb, ht⟩ := hcollects.exists_block_of_mem_superTypes ho₀ ht
    obtain ⟨node, hnode, _, hsuper⟩ := hblock b hb
    rw [hsuper, OrderedSet.mem_ofList] at ht
    exact ⟨node, hnode, List.mem_of_mem_drop ht⟩

theorem space_not_mem_of_read {source : String} (h : Outline.read source = .ok nodes) :
    ∀ node ∈ nodes, ∀ w ∈ node.words, ' ' ∉ w.toList := by
  intro node hnode w hw hspace
  have hread := Outline.readable_of_read h (Outline.mem_flatten_of_mem hnode)
  cases (hread.isWord w hw).solid ' ' hspace

/-- **The log of compiling accounts for the compiled schema,** record by record and line by line.
The lines can be told apart, up to a dot, if there are no spaces in words, and so if the outline was
read from a text. -/
theorem compile_accounts (h : (compile options nodes).result = .ok s) :
    s.AccountedBy (compile options nodes).log ∧
      s.ToldBy ((compile options nodes).log.map LogRecord.line) ∧
      ((∀ node ∈ nodes, ∀ w ∈ node.words, ' ' ∉ w.toList) →
        s.ToldApart ((compile options nodes).log.map LogRecord.line)) ∧
      ∀ source, Outline.read source = .ok nodes →
        s.ToldApart ((compile options nodes).log.map LogRecord.line) := by
  have haccounted := accountedBy_of_compile h
  obtain ⟨d, hdecl, _, hs⟩ := compile_eq_ok_iff.1 h
  have hd := declared_of_declareAll hdecl
  have hnamed : s.Named := (hd.of_resolve hs).1.named hd
  have htold := haccounted.toldBy hnamed
  have hapart : (∀ node ∈ nodes, ∀ w ∈ node.words, ' ' ∉ w.toList) →
      s.ToldApart ((compile options nodes).log.map LogRecord.line) := by
    intro hspace
    refine htold.toldApart hnamed (holds_of_compile h) fun o ho => ?_
    obtain ⟨⟨node, hnode, hname⟩, hsuper⟩ := exists_mem_words_of_compile h ho
    refine ⟨hspace node hnode o.name hname, fun t ht => ?_⟩
    obtain ⟨node, hnode, hword⟩ := hsuper t ht
    exact hspace node hnode t hword
  exact ⟨haccounted, htold, hapart, fun _ hread => hapart (space_not_mem_of_read hread)⟩

/-- The diamond, with another super type at its top that nobody declares.  There are five ways to
the top: from itself, from both sides, and two from the bottom. -/
def loudDiamond : List Node :=
  diamond ++ [⟨["top", "1", "nowhere"], [], "top 1 nowhere", 8⟩]

theorem loudDiamond_accounts : ∃ s, (compile {} loudDiamond).result = .ok s ∧
    s.AccountedBy (compile {} loudDiamond).log ∧
    s.ToldBy ((compile {} loudDiamond).log.map LogRecord.line) ∧
    (∀ node ∈ loudDiamond, ∀ w ∈ node.words, ' ' ∉ w.toList) ∧
    s.ToldApart ((compile {} loudDiamond).log.map LogRecord.line) ∧
    (compile {} loudDiamond).log.count (.undeclaredSuperType "nowhere" "top") = 5 ∧
    ((compile {} loudDiamond).log.map LogRecord.line).count
      "WARN super type `nowhere` of `top` is not declared; ignoring" = 5 ∧
    ((compile {} loudDiamond).log.map LogRecord.line).count
      "TRACE `bottom` inherits `top.id`" = 1 := by
  have hok : (compile {} loudDiamond).result.toOption.isSome := by decide +kernel
  have hspace : ∀ node ∈ loudDiamond, ∀ w ∈ node.words, ' ' ∉ w.toList := by decide +kernel
  cases hs : (compile {} loudDiamond).result with
  | error e => rw [hs] at hok; cases hok
  | ok s =>
    obtain ⟨haccounted, htold, hapart, _⟩ := compile_accounts hs
    exact ⟨s, rfl, haccounted, htold, hspace, hapart hspace, by decide +kernel,
      by decide +kernel, by decide +kernel⟩

/-- An object that inherits the property `b.c` of `a` and the property `c` of `a.b`. -/
def dottedNodes : List Node :=
  [{ words := ["a", "1"], line := "a 1", lineNumber := 1
     children := [⟨["b.c", "int", "1"], [], "\tb.c int 1", 2⟩] },
   { words := ["a.b", "2"], line := "a.b 2", lineNumber := 3
     children := [⟨["c", "int", "2"], [], "\tc int 2", 4⟩] },
   { words := ["o", "3", "a", "a.b"], line := "o 3 a a.b", lineNumber := 5, children := [] }]

/-- **Two properties may be written alike**, and then the line of each is there twice. -/
theorem dottedNodes_twice : ∃ s, (compile {} dottedNodes).result = .ok s ∧
    ∃ o ∈ s.objectList, ∃ p ∈ o.properties.values, p.owner ≠ o.name ∧
      p.inheritedLine o.name = "TRACE `o` inherits `a.b.c`" ∧
      ((compile {} dottedNodes).log.map LogRecord.line).count (p.inheritedLine o.name) = 2 := by
  have hbears : ((compile {} dottedNodes).result.toOption.any fun s =>
      s.objectList.any fun o => o.properties.values.any fun p =>
        decide (o.name = "o" ∧ p.owner = "a" ∧ p.name = "b.c")) = true := by decide +kernel
  have hlog : (compile {} dottedNodes).log = [.building 3, .validating, .resolving,
      .inherits "o" "a" "b.c", .inherits "o" "a.b" "c"] := by decide +kernel
  cases hs : (compile {} dottedNodes).result with
  | error e => rw [hs] at hbears; cases hbears
  | ok s =>
    rw [hs] at hbears
    obtain ⟨o, ho, hany⟩ := List.any_eq_true.1 hbears
    obtain ⟨p, hp, hnames⟩ := List.any_eq_true.1 hany
    obtain ⟨hname, howner, hprop⟩ := of_decide_eq_true hnames
    have hline : p.inheritedLine o.name = "TRACE `o` inherits `a.b.c`" := by
      unfold Property.inheritedLine
      simp only [hname, howner, hprop]
      rfl
    refine ⟨s, rfl, o, ho, p, hp, ?_, hline, ?_⟩
    · rw [hname, howner]
      decide
    · simp only [hline, hlog]
      rfl

end SchemaLang
