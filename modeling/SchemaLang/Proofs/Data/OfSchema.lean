import SchemaLang.Data.OfSchema
import SchemaLang.Proofs.Data.Compact
import SchemaLang.Proofs.Inheritance.Resolution

/-!
# Reading schemas off their documents

The document of a schema leaves out one thing, the index of the properties of an object by code.
An object that a run has built holds its properties in both indexes (`ObjectType.Holds`), so the
index by name has it all, and the document of such a schema tells it from any other one.

The keys of these documents are texts (`Data.Plain`), but for the codes of the objects, and two
codes with the same digits are one code.  So compact JSON loses nothing either (`compile_compact`).

* `TypeExpr.toData_injective`, `Property.toData_injective`: by induction, and field by field.
* `ObjectType.eq_of_toData_eq`, `Schema.eq_of_labelled_eq`: where the objects hold their
  properties.
-/

namespace SchemaLang

open Data (field)

/-! ### Keys that are texts -/

namespace Data

/-- All keys in the document are texts. -/
def Plain (d : Data) : Prop := d.labelled = d

variable {items : List Data} {fields : List (Key × Data)}

theorem plain_text (s : String) : (text s).Plain := rfl

theorem plain_sequence (h : ∀ d ∈ items, d.Plain) : (sequence items).Plain := by
  rw [Plain, labelled, labelItems_eq_map, List.map_congr_left h, List.map_id']

theorem plain_texts (l : List String) : (texts l).Plain :=
  plain_sequence (List.forall_mem_map.2 fun s _ => plain_text s)

theorem plain_mapping (h : ∀ f ∈ fields, labelledField f = f) : (mapping fields).Plain := by
  rw [Plain, labelled, labelFields_eq_map, List.map_congr_left h, List.map_id']

theorem labelledField_field (name : String) (d : Data) :
    labelledField (field name d) = field name d.labelled := rfl

theorem Plain.field {d : Data} (h : d.Plain) (name : String) :
    labelledField (field name d) = Data.field name d := by
  rw [labelledField_field, h]

end Data

theorem TypeExpr.plain_toData : ∀ t : TypeExpr, t.toData.Plain
  | primitive _ | object _ => rfl
  | set members | list members =>
    Data.plain_mapping (by simp [Data.plain_text, members.plain_toData, Data.Plain.field])
  | map key value => Data.plain_mapping
    (by simp [Data.plain_text, key.plain_toData, value.plain_toData, Data.Plain.field])

theorem Code.plain_toData (c : Code) : (Code.toData c).Plain := rfl

theorem Property.plain_toData (p : Property) : p.toData.Plain :=
  Data.plain_mapping (by
    simp [Data.plain_text, p.type.plain_toData, Code.plain_toData, Data.plain_texts,
      Data.Plain.field])

theorem ObjectType.plain_toData (o : ObjectType) : o.toData.Plain := by
  have hproperties :
      (Data.mapping (o.properties.entries.map fun e => field e.1 e.2.toData)).Plain :=
    Data.plain_mapping (List.forall_mem_map.2 fun e _ => e.2.plain_toData.field e.1)
  refine Data.plain_mapping ?_
  simp [Data.plain_text, Code.plain_toData, Data.plain_texts, hproperties, Data.Plain.field]

/-! ### What a document tells -/

namespace Data

theorem field_inj {m n : String} {d e : Data} : field m d = field n e ↔ m = n ∧ d = e := by
  rw [field, field, Prod.mk.injEq, Key.text.injEq]

theorem texts_injective : Function.Injective texts := fun _ _ h =>
  List.map_injective_iff.2 (fun _ _ => text.inj) (sequence.inj h)

end Data

theorem Code.toData_injective : Function.Injective Code.toData := fun _ _ h =>
  Int64.toInt_inj.1 (Data.integer.inj h)

/-- **The document of a type determines it**: a type names its shape, and after it its parts. -/
theorem TypeExpr.toData_injective : Function.Injective TypeExpr.toData := by
  intro t
  induction t with
  | primitive p =>
    intro u h
    cases u with
    | primitive q =>
      have hname : p.name = q.name := by simpa [toData, Data.field_inj] using h
      rw [Primitive.name_injective hname]
    | _ => simp [toData, Data.field_inj] at h
  | object name =>
    intro u h
    cases u with
    | object name' =>
      have hname : name = name' := by simpa [toData, Data.field_inj] using h
      rw [hname]
    | _ => simp [toData, Data.field_inj] at h
  | set members ih =>
    intro u h
    cases u with
    | set members' =>
      have hmembers : members.toData = members'.toData := by simpa [toData, Data.field_inj] using h
      rw [ih hmembers]
    | _ => simp [toData, Data.field_inj] at h
  | list members ih =>
    intro u h
    cases u with
    | list members' =>
      have hmembers : members.toData = members'.toData := by simpa [toData, Data.field_inj] using h
      rw [ih hmembers]
    | _ => simp [toData, Data.field_inj] at h
  | map key value ihk ihv =>
    intro u h
    cases u with
    | map key' value' =>
      have hparts : key.toData = key'.toData ∧ value.toData = value'.toData := by
        simpa [toData, Data.field_inj] using h
      rw [ihk hparts.1, ihv hparts.2]
    | _ => simp [toData, Data.field_inj] at h

theorem Property.toData_injective : Function.Injective Property.toData := by
  rintro ⟨name, type, code, tags, owner⟩ ⟨name', type', code', tags', owner'⟩ h
  have hparts : name = name' ∧ type.toData = type'.toData ∧ Code.toData code = Code.toData code' ∧
      Data.texts tags.toList = Data.texts tags'.toList ∧ owner = owner' := by
    simpa [toData, Data.field_inj] using h
  obtain ⟨rfl, htype, hcode, htags, rfl⟩ := hparts
  rw [TypeExpr.toData_injective htype, Code.toData_injective hcode,
    OrderedSet.ext (Data.texts_injective htags)]

variable {o o' : ObjectType} {s s' : Schema}

/-- **The document of an object determines it** where its index by code is made from its index by
name. -/
theorem ObjectType.eq_of_toData_eq (ho : o.Holds o.properties.values)
    (ho' : o'.Holds o'.properties.values) (h : o.toData = o'.toData) : o = o' := by
  have hparts : o.name = o'.name ∧ Code.toData o.code = Code.toData o'.code ∧
      Data.texts o.superTypes.toList = Data.texts o'.superTypes.toList ∧
      Data.texts o.subTypes.toList = Data.texts o'.subTypes.toList ∧
      (o.properties.entries.map fun e => field e.1 e.2.toData) =
        o'.properties.entries.map fun e => field e.1 e.2.toData := by
    simpa [toData, Data.field_inj] using h
  obtain ⟨hname, hcode, hsuper, hsub, hproperties⟩ := hparts
  have hproperties : o.properties = o'.properties :=
    OrderedMap.ext <| List.map_injective_iff.2 (fun e e' he => by
      obtain ⟨hkey, hvalue⟩ := Data.field_inj.1 he
      exact Prod.ext hkey (Property.toData_injective hvalue)) hproperties
  have hbyCode := (ho.indexes_eq (hproperties ▸ ho')).2
  cases o
  cases o'
  cases hname
  cases Code.toData_injective hcode
  cases OrderedSet.ext (Data.texts_injective hsuper)
  cases OrderedSet.ext (Data.texts_injective hsub)
  cases hproperties
  cases hbyCode
  rfl

/-! ### Schemas -/

theorem Schema.labelled_toData (s : Schema) : s.toData.labelled =
    .mapping
      [field "objects_by_name" (.mapping (s.objects.entries.map fun e => field e.1 e.2.toData)),
        field "objects_by_code"
          (.mapping (s.codes.entries.map fun e => field e.1.text (.text e.2)))] := by
  have hobjects : (Data.mapping (s.objects.entries.map fun e => field e.1 e.2.toData)).Plain :=
    Data.plain_mapping (List.forall_mem_map.2 fun e _ => e.2.plain_toData.field e.1)
  have hcodes : (Data.mapping (s.codes.entries.map fun e => (.code e.1, .text e.2))).labelled =
      .mapping (s.codes.entries.map fun e => field e.1.text (.text e.2)) := by
    rw [Data.labelled, Data.labelFields_eq_map, List.map_map]
    rfl
  rw [toData, Data.labelled, Data.labelFields_eq_map, List.map_cons, List.map_cons, List.map_nil,
    Data.labelledField_field, Data.labelledField_field, hobjects, hcodes]

/-- **The document of a schema determines it**, and so do the labels of its keys, where the objects
hold their properties. -/
theorem Schema.eq_of_labelled_eq (hs : ∀ o ∈ s.objectList, o.Holds o.properties.values)
    (hs' : ∀ o ∈ s'.objectList, o.Holds o.properties.values)
    (h : s.toData.labelled = s'.toData.labelled) : s = s' := by
  rw [labelled_toData, labelled_toData] at h
  have hparts : (s.objects.entries.map fun e => field e.1 e.2.toData) =
        (s'.objects.entries.map fun e => field e.1 e.2.toData) ∧
      (s.codes.entries.map fun e => field e.1.text (.text e.2)) =
        s'.codes.entries.map fun e => field e.1.text (.text e.2) := by
    simpa [Data.field_inj] using h
  obtain ⟨hobjects, hcodes⟩ := hparts
  have hobjects : s.objects = s'.objects := by
    refine OrderedMap.ext (eq_of_map_eq_map (fun e he e' he' heq => ?_) hobjects)
    obtain ⟨hkey, hvalue⟩ := Data.field_inj.1 heq
    have ho := hs e.2 (List.mem_map_of_mem he)
    have ho' := hs' e'.2 (List.mem_map_of_mem he')
    exact Prod.ext hkey (ObjectType.eq_of_toData_eq ho ho' hvalue)
  have hcodes : s.codes = s'.codes :=
    CodeMap.ext <| List.map_injective_iff.2 (fun e e' heq => by
      obtain ⟨hkey, hvalue⟩ := Data.field_inj.1 heq
      exact Prod.ext (Code.text_injective hkey) (Data.text.inj hvalue)) hcodes
  cases s
  cases s'
  cases hobjects
  cases hcodes
  rfl

open Outline (Node)

variable {options options' : Options} {nodes nodes' : List Node}

/-- **Compact JSON determines what it is of.**

Two schemas that were compiled, from whatever outlines and under whatever options, have one compact
text only if they are one schema: the same objects in the same order, with the same properties, and
with the same indexes, the one that is not written included.  Two types have one compact text only
if they are one type. -/
theorem compile_compact (h : (compile options nodes).result = .ok s)
    (h' : (compile options' nodes').result = .ok s') :
    (s.toData.compact = s'.toData.compact ↔ s = s') ∧
      ∀ t u : TypeExpr, t.toData.compact = u.toData.compact ↔ t = u := by
  refine ⟨⟨fun hc => ?_, fun e => e ▸ rfl⟩, fun t u => ⟨fun hc => ?_, fun e => e ▸ rfl⟩⟩
  · exact Schema.eq_of_labelled_eq (holds_of_compile h) (holds_of_compile h')
      (Data.compact_eq_compact_iff.1 hc)
  · have hlabelled := Data.compact_eq_compact_iff.1 hc
    rw [t.plain_toData, u.plain_toData] at hlabelled
    exact TypeExpr.toData_injective hlabelled

/-- The diamond and the diamond declared twice have one text, so they are one schema. -/
theorem doubledDiamond_compact : ∃ s s', (compile {} diamond).result = .ok s ∧
    (compile ⟨["nobody"], true⟩ (diamond ++ diamond)).result = .ok s' ∧
    s.toData.compact = s'.toData.compact ∧ s = s' := by
  have hchars : (compile {} diamond).result.toOption.map (·.toData.compactChars) =
      (compile ⟨["nobody"], true⟩ (diamond ++ diamond)).result.toOption.map
        (·.toData.compactChars) := by decide +kernel
  have hok : (compile {} diamond).result.toOption.isSome := by decide +kernel
  cases hs : (compile {} diamond).result with
  | error e => rw [hs] at hok; cases hok
  | ok s =>
    cases hs' : (compile ⟨["nobody"], true⟩ (diamond ++ diamond)).result with
    | error e => rw [hs, hs'] at hchars; cases hchars
    | ok s' =>
      rw [hs, hs'] at hchars
      have hc : s.toData.compact = s'.toData.compact :=
        congrArg String.ofList (Option.some.inj hchars)
      exact ⟨s, s', rfl, rfl, hc, (compile_compact hs hs').1.1 hc⟩

end SchemaLang
