import SchemaLang.Proofs.Holding
import SchemaLang.Proofs.Outline.Written
import SchemaLang.Rendering.SchemaText

/-!
# The outline of a schema

A schema is written as an outline of two levels: a node for each object, with its name, its
code and its super types, and below it a node for each of its own properties.  `outline` is
this forest, and `text_eq_write` says that the text of a schema is the text of its outline.
-/

namespace SchemaLang

open Outline (Node lineOf linesOf spaced preorder)

def Property.words (p : Property) : List String :=
  p.name :: p.type.text :: p.code.text :: p.tags.toList

def ObjectType.words (o : ObjectType) : List String :=
  o.name :: o.code.text :: o.superTypes.toList

def Property.line (p : Property) : String := Block.propertyLine p.name p.type.text p.code p.tags

def Property.node (p : Property) : Node := ⟨p.words, [], "", 0⟩

def ObjectType.node (o : ObjectType) : Node := ⟨o.words, o.ownProperties.map Property.node, "", 0⟩

/-- **The outline of a schema.** -/
def Schema.outline (s : Schema) : List Node := s.objectList.map ObjectType.node

/-! ### The text of an object -/

theorem Rendering.value_pure {α : Type} (a : α) : Rendering.value (pure a) = a := rfl

theorem ObjectType.entries_toBlock {υ : Type} {o : ObjectType} {l : List Property}
    (h : o.Holds l) : (o.toBlock (υ := υ)).entries.entries =
      o.ownProperties.map fun p => (p.name, ⟨p.type.toOpen, p.code, p.tags⟩) := by
  refine OrderedMap.entries_ofList ?_
  rw [Entries.keys, List.map_map]
  show (o.ownProperties.map Property.name).Nodup
  rw [ownProperties, h.values]
  exact h.nodup_names.sublist (List.filter_sublist.map _)

theorem Block.entryLine_toOpen {σ υ : Type} (handler : Handler σ υ) :
    (Block.entryLine handler ∘ fun p : Property =>
        (p.name, ⟨p.type.toOpen, p.code, p.tags⟩)) = fun p => pure p.line := by
  funext p
  rw [Function.comp_apply, entryLine, TypeExpr.render_toOpen, pure_bind]
  rfl

/-- **The block of an object is rendered** without asking any handler: as its header and the lines
of those of its own properties whose names are kept. -/
theorem ObjectType.renderWith_toBlock {σ υ : Type} {o : ObjectType} {l : List Property}
    (h : o.Holds l) (keep : String → Bool) (handler : Handler σ υ) :
    o.toBlock.renderWith keep handler o.name o.code =
      pure (Block.headerLine o.name o.code o.superTypes ++
        String.join ((o.ownProperties.filter fun p => keep p.name).map Property.line)) := by
  rw [Block.renderWith, entries_toBlock h, List.filter_map, List.mapM_map, Block.entryLine_toOpen,
    List.mapM_pure, pure_bind]
  rfl

/-- **An object is written** as its header and the lines of its own properties. -/
theorem ObjectType.text_eq {o : ObjectType} {l : List Property} (h : o.Holds l) :
    o.text = Block.headerLine o.name o.code o.superTypes ++
      String.join (o.ownProperties.map Property.line) := by
  rw [text, renderWith_toBlock h, List.filter_eq_self.2 fun _ _ => rfl]
  exact Rendering.value_pure _

/-! ### Lines -/

theorem toList_tagText (tags : OrderedSet String) :
    (Block.tagText tags).toList = tags.toList.flatMap fun t => ' ' :: t.toList := by
  rw [Block.tagText, String.toList_join, List.flatMap_map]
  refine List.flatMap_congr fun t _ => ?_
  rw [String.toList_append]
  rfl

theorem toList_headerLine (name : String) (code : Code) (tags : OrderedSet String) :
    (Block.headerLine name code tags).toList =
      lineOf 0 (name :: code.text :: tags.toList) ++ ['\n'] := by
  rw [Block.headerLine, lineOf, spaced]
  simp only [String.toList_append, toList_tagText, List.flatMap_cons, List.append_assoc]
  rfl

theorem toList_propertyLine (name type : String) (code : Code) (tags : OrderedSet String) :
    (Block.propertyLine name type code tags).toList =
      lineOf 1 (name :: type :: code.text :: tags.toList) ++ ['\n'] := by
  rw [Block.propertyLine, lineOf, spaced]
  simp only [String.toList_append, toList_tagText, List.flatMap_cons, List.append_assoc]
  rfl

theorem Property.toList_line (p : Property) : p.line.toList = lineOf 1 p.words ++ ['\n'] :=
  toList_propertyLine p.name p.type.text p.code p.tags

theorem linesOf_map_node (ps : List Property) :
    linesOf 1 (ps.map Property.node) = ps.map fun p => lineOf 1 p.words := by
  rw [Outline.linesOf_leaves, List.map_map]
  · rfl
  · intro node hnode
    obtain ⟨p, _, rfl⟩ := List.mem_map.1 hnode
    rfl

theorem linesOf_map_object : ∀ objects : List ObjectType,
    linesOf 0 (objects.map ObjectType.node) = objects.flatMap fun o =>
      lineOf 0 o.words :: o.ownProperties.map fun p => lineOf 1 p.words
  | [] => rfl
  | o :: objects => by
    rw [List.flatMap_cons, ← linesOf_map_object objects, ← linesOf_map_node, List.map_cons, linesOf,
      preorder, List.map_append, Node.preorder_eq]
    rfl

theorem ObjectType.toList_text {o : ObjectType} (h : o.Holds o.properties.values) :
    o.text.toList = (lineOf 0 o.words :: o.ownProperties.map fun p => lineOf 1 p.words).flatMap
      fun line => line ++ ['\n'] := by
  rw [text_eq h, String.toList_append, toList_headerLine, String.toList_join, List.flatMap_cons,
    List.flatMap_map, List.flatMap_map]
  simp only [Property.toList_line]
  rfl

/-- **The text of a schema is the text of its outline.** -/
theorem Schema.text_eq_write {s : Schema}
    (h : ∀ o ∈ s.objectList, o.Holds o.properties.values) : s.text = Outline.write s.outline := by
  refine String.toList_inj.1 ?_
  rw [text, Outline.write, outline, String.toList_join, String.toList_ofList, linesOf_map_object,
    List.flatMap_map, List.flatMap_assoc]
  exact List.flatMap_congr fun o ho => ObjectType.toList_text (h o ho)

end SchemaLang
