import SchemaLang.Proofs.Inheritance.Indexing
import SchemaLang.Proofs.Inheritance.Ways

/-!
# What the log tells

The log of compiling is an account of resolving inheritance.  Between any two moments each list of
properties has grown at its end, by one property for each record of inheriting that was written for
its object in between (`Tells`).  One step does this, and what two parts of a run do the whole run
does.  As an object ends with what it declared, followed by what it inherited, the records are
those of the properties with another owner, once each; the visits of objects that are completed
again write none.

Of a super type that is not declared the log warns at each visit of an object that lists it.

* `Partial.log_inheritFrom`: to inherit writes a record for each property that is not there yet.
* `Partial.tells_extend`: the log of a completion tells how the lists have grown.
* `accountedBy_of_compile`: the whole account of a compiled schema, in terms of that schema alone.
-/

namespace SchemaLang

def LogRecord.heir? : LogRecord → Option String
  | inherits object _ _ => some object
  | _ => none

def Property.record (heir : String) (p : Property) : LogRecord := .inherits heir p.owner p.name

theorem LogRecord.level_eq_trace_iff {r : LogRecord} :
    r.level = .trace ↔ ∃ m, r.heir? = some m := by
  cases r <;> simp [level, heir?]

/-! ### Taking over -/

namespace ObjectType

variable {o o' st : ObjectType} {l m ps : List Property}

/-- **The records of the first loop** are those of the properties that are not there yet. -/
theorem log_foldlM_inheritName (hl : o.properties.entries = l.map fun p => (p.name, p))
    (hps : (ps.map Property.name).Nodup)
    (hsame : ∀ p, p ∈ l ∨ p ∈ ps → ∀ q ∈ ps, p.isSame q = true → p = q)
    (h : (ps.foldlM (fun (o : ObjectType) p => o.inheritName p.name p) o).result = .ok o') :
    (ps.foldlM (fun (o : ObjectType) p => o.inheritName p.name p) o).log =
      (ps.filter fun p => p ∉ l).map (Property.record o.name) := by
  induction ps generalizing o l with
  | nil => rfl
  | cons p ps ih =>
    rw [List.map_cons, List.nodup_cons] at hps
    have hpps : p ∉ ps := fun hp => hps.1 (List.mem_map_of_mem hp)
    obtain ⟨o₁, h1, h2⟩ := Logged.result_foldlM_cons_eq_ok_iff.1 h
    rw [Logged.log_foldlM_cons_of_ok h1]
    cases hfind : o.property? p.name with
    | some a =>
      obtain ⟨ha, hname⟩ := (property?_eq_some_iff_of_byName hl).1 hfind
      rw [inheritName, hfind] at h1 ⊢
      dsimp only at h1 ⊢
      split at h1
      · next hs =>
        obtain rfl := hsame a (Or.inl ha) p List.mem_cons_self hs
        obtain rfl := Except.ok.inj h1
        have hrest := ih hl hps.2 (fun b hb q hq =>
          hsame b (hb.imp_right (List.mem_cons_of_mem a)) q (List.mem_cons_of_mem a hq)) h2
        rw [if_pos hs, hrest, List.filter_cons_of_neg (by simpa using ha)]
        rfl
      · cases h1
    | none =>
      have hnew : p ∉ l := fun hp => by
        rw [(property?_eq_some_iff_of_byName hl).2 ⟨hp, rfl⟩] at hfind
        cases hfind
      rw [inheritName, hfind] at h1 ⊢
      obtain rfl := Except.ok.inj h1
      have hl' : (o.addName p).properties.entries = (l ++ [p]).map fun p => (p.name, p) := by
        rw [addName, OrderedMap.entries_insert_of_not_mem (OrderedMap.get?_eq_none_iff.1 hfind), hl,
          List.map_append]
        rfl
      have hrest := ih hl' hps.2 (fun b hb q hq => by
        refine hsame b ?_ q (List.mem_cons_of_mem p hq)
        rwa [List.mem_cons, ← or_assoc, ← List.mem_singleton (a := b), ← List.mem_append]) h2
      rw [Property.filter_not_mem_concat hpps] at hrest
      rw [List.filter_cons_of_pos (by simpa using hnew), List.map_cons]
      exact congrArg _ hrest

/-- To take over the properties of a super type writes a record for each that is not there yet. -/
theorem log_inherit (hl : o.Holds l) (hm : st.Holds m)
    (hsame : ∀ p ∈ l, ∀ q ∈ m, p.isSame q = true → p = q) (h : (o.inherit st).result = .ok o') :
    (o.inherit st).log = (m.filter fun p => p ∉ l).map (Property.record o.name) := by
  have hall : ∀ p, p ∈ l ∨ p ∈ m → ∀ q ∈ m, p.isSame q = true → p = q := by
    rintro p (hp | hp) q hq h
    · exact hsame p hp q hq h
    · exact hm.eq_of_name_eq hp hq (Property.isSame_iff.1 h).2
  obtain ⟨o₁, h1, _⟩ := Logged.result_bind_eq_ok_iff.1 h
  rw [inherit, Logged.log_bind_of_ok h1, inheritNames, hm.byName, List.foldlM_map]
  rw [inheritNames, hm.byName, List.foldlM_map] at h1
  rw [log_foldlM_inheritName hl.byName hm.nodup_names hall h1]
  exact List.append_nil _

end ObjectType

namespace Schema

variable {d s s' s'' : Schema} {name n m t : String} {path names : List String}
  {log log' : List LogRecord}

/-- **To inherit from a super type** writes a record for each of its properties that is not there
yet. -/
theorem Partial.log_inheritFrom (hs : d.Partial s) (hd : d.Declared) (hne : name ≠ t)
    (hname : d.declares name = true) (ht : d.declares t = true)
    (h : (s.inheritFrom name t).result = .ok s') : (s.inheritFrom name t).log =
      ((s.own t).filter fun p => p ∉ s.own name).map (Property.record name) := by
  obtain ⟨o, ho⟩ := hs.exists_object hname
  obtain ⟨st, hst⟩ := hs.exists_object ht
  have ho' : (s.setObject t { st with subTypes := st.subTypes.insert name }).object? name =
      some o := by
    rw [object?_setObject, if_neg (Ne.symm hne)]
    exact ho
  have hsame : ∀ p ∈ s.own name, ∀ q ∈ s.own t, p.isSame q = true → p = q := hs.eq_of_isSame hd
  rw [own_of_object ho, own_of_object hst] at hsame ⊢
  rw [inheritFrom, hst] at h ⊢
  dsimp only at h ⊢
  rw [ho'] at h ⊢
  obtain ⟨o', hinherit, _⟩ := Logged.result_bind_eq_ok_iff.1 h
  rw [Logged.log_bind_of_ok hinherit,
    ObjectType.log_inherit (hs.holds ho) (hs.holds hst) hsame hinherit, hs.name_eq hd ho]
  exact List.append_nil _

/-! ### How lists grow -/

/-- What a log tells of the way from one schema to another: each list of properties has grown at its
end, by one property for each record of its object. -/
def Tells (s : Schema) (log : List LogRecord) (s' : Schema) : Prop :=
  ∀ m, ∃ inherited, s'.own m = s.own m ++ inherited ∧
    (log.filter fun r => r.heir? = some m) = inherited.map (Property.record m)

theorem tells_nil (s : Schema) : s.Tells [] s := fun _ => ⟨[], (List.append_nil _).symm, rfl⟩

theorem Tells.trans (h : s.Tells log s') (h' : s'.Tells log' s'') : s.Tells (log ++ log') s'' := by
  intro m
  obtain ⟨inherited, hown, hlog⟩ := h m
  obtain ⟨inherited', hown', hlog'⟩ := h' m
  refine ⟨inherited ++ inherited', ?_, ?_⟩
  · rw [hown', hown, List.append_assoc]
  · rw [List.filter_append, hlog, hlog', List.map_append]

theorem tells_singleton {r : LogRecord} (hr : r.heir? = none) (s : Schema) : s.Tells [r] s :=
  fun _ => ⟨[], (List.append_nil _).symm, by simp [hr]⟩

theorem Partial.tells_inheritFrom (hs : d.Partial s) (hd : d.Declared) (hne : name ≠ t)
    (hname : d.declares name = true) (ht : d.declares t = true)
    (h : (s.inheritFrom name t).result = .ok s') :
    d.Partial s' ∧ s.Tells (s.inheritFrom name t).log s' := by
  obtain ⟨hs', hjoin, hother⟩ := hs.of_inheritFrom hd hne hname ht h
  refine ⟨hs', fun m => ?_⟩
  rw [hs.log_inheritFrom hd hne hname ht h]
  by_cases hm : m = name
  · subst hm
    refine ⟨_, hjoin, List.filter_eq_self.2 fun r hr => ?_⟩
    obtain ⟨p, _, rfl⟩ := List.mem_map.1 hr
    simp [Property.record, LogRecord.heir?]
  · refine ⟨[], by rw [hother m hm, List.append_nil], List.filter_eq_nil_iff.2 fun r hr => ?_⟩
    obtain ⟨p, _, rfl⟩ := List.mem_map.1 hr
    simp [Property.record, LogRecord.heir?, Ne.symm hm]

/-- **The log of a completion tells how the lists have grown.** -/
theorem Partial.tells_extend (hd : d.Declared) (hs : d.Partial s)
    (h : (d.extend path name s).result = .ok s') :
    d.Partial s' ∧ s.Tells (d.extend path name s).log s' := by
  induction hn : d.outside path using Nat.strongRecOn generalizing path name s s' with
  | ind k ih =>
    subst hn
    have hp : name ∉ path := fun hp => by
      rw [extend_of_mem hp] at h
      cases h
    rw [extend_eq_foldlM hp] at h ⊢
    refine Logged.foldlM_accounts tells_nil Tells.trans (fun t ht s s' hs h => ?_) hs h
    rw [visit] at h ⊢
    split at h
    · next hdecl =>
      rw [if_pos hdecl]
      have hsuper : d.Super name t := super_of_mem_listed ht hdecl
      obtain ⟨o, ho⟩ := Schema.declares_iff.1 hsuper.declares_left
      obtain ⟨s₁, h1, h2⟩ := Logged.result_bind_eq_ok_iff.1 h
      -- an object among its own super types would have been met on the path
      have hne : name ≠ t := by
        rintro rfl
        rw [extend_of_mem List.mem_cons_self] at h1
        cases h1
      obtain ⟨hs₁, htells₁⟩ := ih _ (outside_cons_lt hp ho) hs h1 rfl
      obtain ⟨hs', htells'⟩ := hs₁.tells_inheritFrom hd hne hsuper.declares_left hdecl h2
      rw [extendFrom, Logged.log_bind_of_ok h1]
      exact ⟨hs', htells₁.trans htells'⟩
    · next hdecl =>
      rw [if_neg hdecl]
      obtain rfl := Except.ok.inj h
      exact ⟨hs, tells_singleton rfl s⟩

/-- **The log of resolving inheritance** has, for each object and in their order, the properties
that are not its own. -/
theorem Declared.filter_log_resolve (hd : d.Declared) (h : d.resolve.result = .ok s) (m : String) :
    (d.resolve.log.filter fun r => r.heir? = some m) =
      ((s.own m).filter fun p => p.owner ≠ m).map (Property.record m) := by
  obtain ⟨hs, hacyclic, _, hflat⟩ := hd.of_resolve h
  have hlog : d.resolve.log = [.resolving] ++ (d.completeAll d.codes.values d).log := rfl
  rw [result_resolve] at h
  obtain ⟨_, hall⟩ := Logged.foldlM_accounts (P := d.Partial) tells_nil Tells.trans
    (fun n _ s s' hs h => Partial.tells_extend hd hs h) hd.partial_self h
  obtain ⟨inherited, hown, hrecords⟩ := ((tells_singleton (r := .resolving) rfl d).trans hall) m
  have hforeign : ∀ p ∈ inherited, p.owner ≠ m := by
    obtain ⟨inherited', heq, hne⟩ :=
      hd.exists_flat_eq_append (acyclic_iff_grounded.1 hacyclic m)
    cases ho : s.object? m with
    | none =>
      rw [own_of_none ho, eq_comm, List.append_eq_nil_iff] at hown
      simp [hown.2]
    | some o =>
      rw [own_of_object ho, (hflat m o ho).values, heq] at hown
      rwa [← List.append_cancel_left hown]
  have hown' : ∀ p ∈ d.own m, p.owner = m := fun p hp => hd.owner_of_mem_own hp
  have hkept : (s.own m).filter (fun p => p.owner ≠ m) = inherited := by
    rw [hown, List.filter_append, List.filter_eq_nil_iff.2 (by simpa using hown'),
      List.filter_eq_self.2 (by simpa using hforeign), List.nil_append]
  rw [hkept, hlog]
  exact hrecords

end Schema

/-! ### Other records -/

namespace Schema

variable {options : Options} {nodes : List Outline.Node}

theorem level_of_mem_log_addBlock (s : Schema) (block : ObjectType) :
    ∀ r ∈ (s.addBlock block).log, r.level = .debug := by
  rw [addBlock]
  split
  · split
    · refine Logged.forall_mem_log_bind (by simp [LogRecord.level]) fun _ => ?_
      exact Logged.forall_mem_log_bind (by simp) fun _ => by simp
    · simp
  · simp

theorem level_of_mem_log_declareUnlessDerived (s : Schema) (node : Outline.Node) :
    ∀ r ∈ (s.declareUnlessDerived options node).log, r.level = .debug := by
  rw [declareUnlessDerived]
  split
  · exact Logged.forall_mem_log_bind (by simp [LogRecord.level]) fun _ => by simp
  · refine Logged.forall_mem_log_bind (by simp) fun _ => ?_
    refine Logged.forall_mem_log_bind (by simp) fun _ => ?_
    exact Logged.forall_mem_log_bind (by simp) fun _ => level_of_mem_log_addBlock s _

end Schema

theorem level_of_mem_log_declareAll (options : Options) (nodes : List Outline.Node) :
    ∀ r ∈ (declareAll options nodes).log, r.level = .debug := by
  refine Logged.forall_mem_log_bind (by simp [LogRecord.level]) fun _ => ?_
  exact Logged.forall_mem_log_foldlM Schema.level_of_mem_log_declareUnlessDerived nodes ∅

variable {options : Options} {nodes : List Outline.Node} {s : Schema}

/-- **The log of compiling** is that of resolving inheritance, after what was written before. -/
theorem exists_log_compile_eq (h : (compile options nodes).result = .ok s) :
    ∃ d before, (declareAll options nodes).result = .ok d ∧ d.resolve.result = .ok s ∧
      (compile options nodes).log = before ++ d.resolve.log ∧ ∀ r ∈ before, r.level = .debug := by
  obtain ⟨d, hdecl, hrefs, hs⟩ := compile_eq_ok_iff.1 h
  refine ⟨d, (declareAll options nodes).log ++ [.validating], hdecl, hs, ?_, ?_⟩
  · rw [compile, Logged.log_bind_of_ok hdecl, Logged.log_bind_of_ok (Logged.result_tell _),
      Logged.liftM_eq_ofExcept, Logged.log_bind_of_ok (a := ()) (by rw [hrefs]; rfl),
      List.append_assoc]
    rfl
  · intro r hr
    rcases List.mem_append.1 hr with hr | hr
    · exact level_of_mem_log_declareAll options nodes r hr
    · obtain rfl := List.mem_singleton.1 hr
      rfl

/-- What is sorted by a key is still the same. -/
theorem perm_flatMap_filter {κ α : Type} [DecidableEq κ] {key : α → Option κ} {ks : List κ}
    {l : List α} (hks : ks.Nodup) (h : ∀ a ∈ l, ∃ k ∈ ks, key a = some k) :
    (ks.flatMap fun k => l.filter fun a => key a = some k).Perm l := by
  induction ks generalizing l with
  | nil =>
    cases l with
    | nil => exact .refl _
    | cons a l =>
      obtain ⟨k, hk, _⟩ := h a List.mem_cons_self
      cases hk
  | cons k ks ih =>
    obtain ⟨hk, hks⟩ := List.nodup_cons.1 hks
    let rest := l.filter fun a => !decide (key a = some k)
    have hsplit : (ks.flatMap fun j => l.filter fun a => key a = some j) =
        ks.flatMap fun j => rest.filter fun a => key a = some j := by
      refine List.flatMap_congr fun j hj => ?_
      have hne : j ≠ k := fun e => hk (e ▸ hj)
      rw [List.filter_filter]
      refine List.filter_congr fun a _ => ?_
      by_cases ha : key a = some j
      · simp [ha, hne]
      · simp [ha]
    have hrest : ∀ a ∈ rest, ∃ j ∈ ks, key a = some j := by
      intro a ha
      obtain ⟨ha, hother⟩ := List.mem_filter.1 ha
      obtain ⟨j, hj, hkey⟩ := h a ha
      rcases List.mem_cons.1 hj with rfl | hj
      · simp [hkey] at hother
      · exact ⟨j, hj, hkey⟩
    rw [List.flatMap_cons, hsplit]
    exact ((ih hks hrest).append_left _).trans (List.filter_append_perm _ l)

/-! ### The account of a schema -/

namespace Schema

variable {d : Schema} {log before : List LogRecord} {m n t : String} {o : ObjectType} {p : Property}
  {r : LogRecord}

def inheritances (s : Schema) : List (String × Property) :=
  s.objectList.flatMap fun o =>
    (o.properties.values.filter fun p => p.owner ≠ o.name).map fun p => (o.name, p)

/-- The super types that are not declared, each with an object that lists it. -/
def undeclarations (s : Schema) : List (String × String) :=
  s.objectList.flatMap fun o =>
    (o.superTypes.toList.filter fun t => !s.declares t).map fun t => (t, o.name)

def inheritedRecords (s : Schema) : List LogRecord :=
  s.inheritances.map fun e => e.2.record e.1

theorem mem_inheritances_iff {e : String × Property} : e ∈ s.inheritances ↔
    ∃ o ∈ s.objectList, e.1 = o.name ∧ e.2 ∈ o.properties.values ∧ e.2.owner ≠ o.name := by
  obtain ⟨heir, p⟩ := e
  rw [inheritances, List.mem_flatMap]
  constructor
  · rintro ⟨o, ho, hp⟩
    obtain ⟨q, hq, he⟩ := List.mem_map.1 hp
    obtain ⟨rfl, rfl⟩ := Prod.mk.inj he
    obtain ⟨hq, hne⟩ := List.mem_filter.1 hq
    exact ⟨o, ho, rfl, hq, of_decide_eq_true hne⟩
  · rintro ⟨o, ho, rfl, hp, hne⟩
    exact ⟨o, ho, List.mem_map.2 ⟨p, List.mem_filter.2 ⟨hp, decide_eq_true hne⟩, rfl⟩⟩

theorem mem_undeclarations_iff {e : String × String} : e ∈ s.undeclarations ↔
    ∃ o ∈ s.objectList, e.2 = o.name ∧ e.1 ∈ o.superTypes ∧ s.declares e.1 = false := by
  obtain ⟨t, n⟩ := e
  rw [undeclarations, List.mem_flatMap]
  constructor
  · rintro ⟨o, ho, ht⟩
    obtain ⟨u, hu, he⟩ := List.mem_map.1 ht
    obtain ⟨rfl, rfl⟩ := Prod.mk.inj he
    obtain ⟨hu, hnone⟩ := List.mem_filter.1 hu
    exact ⟨o, ho, rfl, hu, by simpa using hnone⟩
  · rintro ⟨o, ho, rfl, ht, hnone⟩
    exact ⟨o, ho, List.mem_map.2 ⟨t, List.mem_filter.2 ⟨ht, by simpa using hnone⟩, rfl⟩⟩

/-- The records of each object are those of the properties that it has of others, in their order. -/
def TracedBy (s : Schema) (log : List LogRecord) : Prop :=
  ∀ m, (log.filter fun r => r.heir? = some m) =
    ((s.own m).filter fun p => p.owner ≠ m).map (Property.record m)

namespace TracedBy

theorem exists_key (h : s.TracedBy log) (hr : r ∈ log) (hlevel : r.level = .trace) :
    ∃ m ∈ s.objects.keys, r.heir? = some m := by
  obtain ⟨m, hm⟩ := LogRecord.level_eq_trace_iff.1 hlevel
  have hmem : r ∈ log.filter fun r => r.heir? = some m := List.mem_filter.2 ⟨hr, by simpa using hm⟩
  rw [h m] at hmem
  obtain ⟨p, hp, _⟩ := List.mem_map.1 hmem
  refine ⟨m, ?_, hm⟩
  by_contra hnot
  rw [own_of_none (object?_eq_none_iff.2 hnot)] at hp
  cases hp

/-- **The records of inheriting** are those of the properties that objects have of others. -/
theorem perm (h : s.TracedBy log) (hnamed : s.Named) :
    (log.filter fun r => r.level = .trace).Perm s.inheritedRecords := by
  have hown : ∀ o ∈ s.objectList, s.own o.name = o.properties.values := fun o ho =>
    own_of_object (hnamed.object?_name ho)
  have hsorted : s.inheritedRecords = s.objects.keys.flatMap fun m =>
      (log.filter fun r => r.level = .trace).filter fun r => r.heir? = some m := by
    rw [inheritedRecords, inheritances, List.map_flatMap, ← hnamed.map_name_objectList,
      List.flatMap_map]
    refine List.flatMap_congr fun o ho => ?_
    have hrecords := h o.name
    rw [hown o ho] at hrecords
    rw [List.map_map]
    refine hrecords.symm.trans ?_
    rw [List.filter_filter]
    refine List.filter_congr fun r _ => ?_
    cases hr : r.heir? with
    | none => simp
    | some m => simp [LogRecord.level_eq_trace_iff.2 ⟨m, hr⟩]
  rw [hsorted]
  refine (perm_flatMap_filter s.objects.nodup_keys fun r hr => ?_).symm
  obtain ⟨hr, hlevel⟩ := List.mem_filter.1 hr
  exact h.exists_key hr (of_decide_eq_true hlevel)

theorem count_eq_one (h : s.TracedBy log) (ho : s.object? n = some o)
    (hholds : o.Holds o.properties.values) (hp : p ∈ o.properties.values) (hne : p.owner ≠ n) :
    log.count (.inherits n p.owner p.name) = 1 := by
  have hheir : (LogRecord.inherits n p.owner p.name).heir? = some n := rfl
  rw [← List.count_filter (p := fun r : LogRecord => decide (r.heir? = some n)) (by simp [hheir]),
    h n, own_of_object ho]
  have hmem : p ∈ o.properties.values.filter fun p => p.owner ≠ n :=
    List.mem_filter.2 ⟨hp, by simpa using hne⟩
  refine List.count_eq_one_of_mem ?_ (List.mem_map_of_mem hmem)
  refine (hholds.nodup.filter _).map_on fun q hq q' hq' e => ?_
  refine hholds.eq_of_name_eq (List.mem_filter.1 hq).1 (List.mem_filter.1 hq').1 ?_
  exact (LogRecord.inherits.inj e).2.2

end TracedBy

/-- **A log accounts for a schema**: for what its objects have inherited, and for the super types
that it does not declare. -/
structure AccountedBy (s : Schema) (log : List LogRecord) : Prop where
  /-- The records of inheriting are those of the properties that objects have of others. -/
  inherited : (log.filter fun r => r.level = .trace).Perm s.inheritedRecords
  /-- Each such property was inherited once. -/
  once : ∀ o ∈ s.objectList, ∀ p ∈ o.properties.values, p.owner ≠ o.name →
    log.count (.inherits o.name p.owner p.name) = 1
  /-- There are as many records as properties that are not the objects' own. -/
  number : (log.countP fun r => r.level = .trace) =
    (s.objectList.map fun o => o.properties.values.length - o.ownProperties.length).sum
  /-- Of a super type that is not declared, an object warns once for each way to the object. -/
  visited : ∀ o ∈ s.objectList, ∀ t ∈ o.superTypes, s.declares t = false →
    (s.waysTo o.name).Finite ∧
      log.count (.undeclaredSuperType t o.name) = (s.waysTo o.name).ncard
  /-- There are no other warnings. -/
  warned : ∀ r ∈ log, r.level = .warn → ∃ o ∈ s.objectList, ∃ t ∈ o.superTypes,
    s.declares t = false ∧ r = .undeclaredSuperType t o.name

theorem length_inheritances : s.inheritances.length =
    (s.objectList.map fun o => o.properties.values.length - o.ownProperties.length).sum := by
  rw [inheritances, List.length_flatMap]
  refine congrArg List.sum (List.map_congr_left fun o _ => ?_)
  have hsplit := List.length_eq_length_filter_add (l := o.properties.values)
    fun p => p.owner == o.name
  have hother : (fun p : Property => !(p.owner == o.name)) =
      fun p => decide (p.owner ≠ o.name) := by
    funext p
    by_cases hp : p.owner = o.name
    · simp [hp]
    · simp [hp]
  rw [hother] at hsplit
  rw [List.length_map, ObjectType.ownProperties]
  omega

theorem mem_undeclared_iff : t ∈ d.undeclared n ↔
    ∃ o, d.object? n = some o ∧ t ∈ o.superTypes ∧ d.declares t = false := by
  rw [undeclared, listed, List.mem_filter, Bool.not_eq_true']
  cases d.object? n with
  | none => simp
  | some o => simp [OrderedSet.mem_def]

theorem Partial.listed_eq (h : d.Partial s) : s.listed n = d.listed n := by
  rw [listed, listed]
  cases ho : s.object? n with
  | none =>
    rw [object?_eq_none_iff, h.keys, ← object?_eq_none_iff] at ho
    rw [ho]
  | some o =>
    obtain ⟨o', ho', hhead⟩ := h.header ho
    rw [ho']
    exact congrArg OrderedSet.toList (ObjectType.header_eq_iff.1 hhead).2.2

theorem Partial.undeclared_eq (h : d.Partial s) : s.undeclared n = d.undeclared n := by
  have hdeclares : s.declares = d.declares := funext fun n => Bool.eq_iff_iff.2 h.declares_iff
  rw [undeclared, undeclared, h.listed_eq, hdeclares]

theorem Partial.waysTo_eq (h : d.Partial s) : s.waysTo n = d.waysTo n := by
  rw [waysTo, waysTo, h.super_eq]

theorem Declared.tracedBy (hd : d.Declared) (hs : d.resolve.result = .ok s)
    (hbefore : ∀ r ∈ before, r.level = .debug) : s.TracedBy (before ++ d.resolve.log) := by
  intro m
  have hnone : (before.filter fun r => r.heir? = some m) = [] := by
    refine List.filter_eq_nil_iff.2 fun r hr hm => ?_
    have htrace := LogRecord.level_eq_trace_iff.2 ⟨m, of_decide_eq_true hm⟩
    rw [hbefore r hr] at htrace
    cases htrace
  rw [List.filter_append, hnone, hd.filter_log_resolve hs, List.nil_append]

theorem Declared.count_warning (hd : d.Declared) (hs : d.resolve.result = .ok s)
    (hbefore : ∀ r ∈ before, r.level = .debug) :
    (before ++ d.resolve.log).count (.undeclaredSuperType t n) =
      (s.undeclared n).count t * (s.waysTo n).ncard := by
  obtain ⟨hp, _⟩ := hd.of_resolve hs
  have hnone : before.count (.undeclaredSuperType t n) = 0 :=
    List.count_eq_zero.2 fun hmem => by cases hbefore _ hmem
  rw [List.count_append, hnone, hd.count_log_resolve hs, hp.waysTo_eq, hp.undeclared_eq,
    Nat.zero_add]

/-- **The log of resolving inheritance accounts for the schema**, whatever stands before it. -/
theorem Declared.accountedBy (hd : d.Declared) (hs : d.resolve.result = .ok s)
    (hbefore : ∀ r ∈ before, r.level = .debug) : s.AccountedBy (before ++ d.resolve.log) := by
  obtain ⟨hp, hacyclic, _⟩ := hd.of_resolve hs
  have hnamed := hp.named hd
  have htraced := hd.tracedBy hs hbefore
  have hperm := htraced.perm hnamed
  refine ⟨hperm, fun o ho p hpo hne => ?_, ?_, fun o ho t ht htnone => ⟨?_, ?_⟩,
    fun r hr hlevel => ?_⟩
  · have ho := hnamed.object?_name ho
    exact htraced.count_eq_one ho (hp.holds ho) hpo hne
  · rw [List.countP_eq_length_filter, hperm.length_eq, inheritedRecords, List.length_map,
      length_inheritances]
  · have hdecl : d.declares o.name = true :=
      hp.declares_iff.1 (declares_iff.2 ⟨o, hnamed.object?_name ho⟩)
    rw [hp.waysTo_eq]
    exact (hd.ncard_waysTo hacyclic hdecl).1
  · have hmem : t ∈ s.undeclared o.name :=
      mem_undeclared_iff.2 ⟨o, hnamed.object?_name ho, ht, htnone⟩
    have hone : (s.undeclared o.name).count t = 1 :=
      List.count_eq_one_of_mem (nodup_listed.filter _) hmem
    rw [hd.count_warning hs hbefore, hone, Nat.one_mul]
  · cases r with
    | undeclaredSuperType t n =>
      have hpos := List.count_pos_iff.2 hr
      rw [hd.count_warning hs hbefore] at hpos
      obtain ⟨o, ho, ht, htnone⟩ :=
        mem_undeclared_iff.1 (List.count_pos_iff.1 (Nat.pos_of_mul_pos_right hpos))
      obtain rfl := hnamed n o ho
      exact ⟨o, mem_objectList_iff.2 ⟨_, ho⟩, t, ht, htnone, rfl⟩
    | _ => cases hlevel

end Schema

theorem accountedBy_of_compile (h : (compile options nodes).result = .ok s) :
    s.AccountedBy (compile options nodes).log := by
  obtain ⟨d, before, hdecl, hs, hlog, hbefore⟩ := exists_log_compile_eq h
  rw [hlog]
  exact (declared_of_declareAll hdecl).accountedBy hs hbefore

end SchemaLang
