import SchemaLang.Proofs.Rendering.Asking
import SchemaLang.Proofs.RoundTrip.Spelling

/-!
# The outline of a rendered block

A block that was rendered is read back as one node with a leaf for each of its entries that is
written, as long as everything in it is a word: its name, its keys and tags, and the texts of its
types, wherever these came from.

* `Block.render_eq`: the types of a block are rendered in turn, and then the lines are written.
* `Block.write_node`: these lines are those of an outline.
* `Block.read_render`: what reading gives.
-/

namespace SchemaLang

open Outline (Node IsWord Readable lineOf linesOf preorder written)

variable {σ υ α β γ : Type} {handler : Handler σ υ} {s s' : σ}

/-! ### Types first -/

theorem mapM_bind_pure {m : Type → Type} [Monad m] [LawfulMonad m] {f : α → m β} {g : α → β → γ} :
    ∀ l : List α, (l.mapM fun a => f a >>= fun b => pure (g a b)) =
      l.mapM f >>= fun bs => pure ((l.zip bs).map fun x => g x.1 x.2)
  | [] => by
    rw [List.mapM_nil, List.mapM_nil, pure_bind]
    rfl
  | a :: l => by
    rw [List.mapM_cons, List.mapM_cons, mapM_bind_pure l]
    simp only [bind_assoc, pure_bind, List.zip_cons_cons, List.map_cons]

theorem Rendering.length_eq_of_run_mapM {f : α → Rendering σ υ β} : ∀ {l : List α} {bs : List β}
    {s s' : σ}, (l.mapM f).run.run s = (.ok bs, s') → bs.length = l.length
  | [], bs, s, s', h => by
    obtain ⟨h, _⟩ := Prod.mk.inj h
    obtain rfl := Except.ok.inj h
    rfl
  | a :: l, bs, s, s', h => by
    rw [List.mapM_cons] at h
    obtain ⟨b, s₁, _, h⟩ := run_bind_eq_ok_iff.1 h
    obtain ⟨bs', s₂, hrest, h⟩ := run_bind_eq_ok_iff.1 h
    obtain ⟨h, _⟩ := Prod.mk.inj h
    obtain rfl := Except.ok.inj h
    rw [List.length_cons, List.length_cons, length_eq_of_run_mapM hrest]

namespace Block

variable {block : Block υ} {name text : String} {code : Code} {types : List String}

def typeTexts (handler : Handler σ υ) (block : Block υ) : Rendering σ υ (List String) :=
  block.shown.mapM fun e => e.2.type.render handler

def entryWords (e : String × BlockEntry υ) (type : String) : List String :=
  e.1 :: type :: e.2.code.text :: e.2.tags.toList

/-- **The outline of a block**, given the texts of its types. -/
def node (block : Block υ) (name : String) (code : Code) (types : List String) : Node :=
  ⟨name :: code.text :: block.tags.toList,
    (block.shown.zip types).map fun x => ⟨entryWords x.1 x.2, [], "", 0⟩, "", 0⟩

theorem children_of_mem_node :
    ∀ leaf ∈ (block.node name code types).children, leaf.children = [] := by
  intro leaf hleaf
  obtain ⟨x, _, rfl⟩ := List.mem_map.1 hleaf
  rfl

theorem write_node : Outline.write [block.node name code types] =
    headerLine name code block.tags ++ String.join ((block.shown.zip types).map fun x =>
      propertyLine x.1.1 x.2 x.1.2.code x.1.2.tags) := by
  have hlines : linesOf 0 [block.node name code types] =
      lineOf 0 (name :: code.text :: block.tags.toList) ::
        linesOf 1 (block.node name code types).children := by
    rw [linesOf, preorder, preorder, List.append_nil, Node.preorder_eq]
    rfl
  rw [← String.toList_inj, String.toList_append, toList_headerLine, String.toList_join,
    Outline.write, String.toList_ofList, hlines, Outline.linesOf_leaves children_of_mem_node,
    List.flatMap_cons, node, List.map_map, List.flatMap_map, List.flatMap_map]
  simp only [toList_propertyLine]
  rfl

/-- **A block is rendered** by rendering its types in turn, and writing its outline. -/
theorem render_eq : block.render handler name code = block.typeTexts handler >>= fun types =>
    pure (Outline.write [block.node name code types]) := by
  have hlines : block.shown.mapM (entryLine handler) = block.typeTexts handler >>= fun types =>
      pure ((block.shown.zip types).map fun x => propertyLine x.1.1 x.2 x.1.2.code x.1.2.tags) :=
    mapM_bind_pure block.shown
  rw [render, renderWith, ← shown, hlines, bind_assoc]
  refine bind_congr fun types => ?_
  rw [pure_bind, write_node]

/-- Everything that is written of a block is a word, and neither its name nor a key starts a
comment. -/
structure Worded (block : Block υ) (name : String) (types : List String) : Prop where
  name : Readable [name]
  tags : ∀ t ∈ block.tags.toList, IsWord t
  keys : ∀ e ∈ block.shown, Readable [e.1]
  types : ∀ t ∈ types, IsWord t
  entryTags : ∀ e ∈ block.shown, ∀ t ∈ e.2.tags.toList, IsWord t

theorem Worded.readable (h : block.Worded name types) :
    ∀ node ∈ Outline.flatten [block.node name code types], Readable node.words := by
  have hcode := isWord_code
  intro node hnode
  rw [Outline.flatten_cons, Outline.flatten_leaves children_of_mem_node] at hnode
  rcases List.mem_cons.1 hnode with rfl | hnode
  · refine h.name.of_head fun w hw => ?_
    rcases List.mem_cons.1 hw with rfl | hw
    · exact isWord_code code
    · exact h.tags w hw
  · obtain ⟨x, hx, rfl⟩ := List.mem_map.1 ((List.mem_append.1 hnode).resolve_right List.not_mem_nil)
    obtain ⟨hentry, htype⟩ := List.of_mem_zip hx
    refine (h.keys x.1 hentry).of_head fun w hw => ?_
    rcases List.mem_cons.1 hw with rfl | hw
    · exact h.types _ htype
    · rcases List.mem_cons.1 hw with rfl | hw
      · exact isWord_code x.1.2.code
      · exact h.entryTags x.1 hentry w hw

/-- **A rendered block is read back** as one node, with a leaf for each entry that is written. -/
theorem read_render (h : (block.render handler name code).run.run s = (.ok text, s')) :
    ∃ types, (block.typeTexts handler).run.run s = (.ok types, s') ∧
      types.length = block.shown.length ∧
      (block.Worded name types → ∃ root, Outline.read text = .ok [root] ∧
        root.words = name :: code.text :: block.tags.toList ∧
        root.children.map Node.words = (block.shown.zip types).map (fun x => entryWords x.1 x.2) ∧
        (∀ leaf ∈ root.children, leaf.children = []) ∧
        root.children.map Node.lineNumber = List.range' 2 block.shown.length) := by
  rw [render_eq] at h
  obtain ⟨types, s₁, htypes, hwrite⟩ := Rendering.run_bind_eq_ok_iff.1 h
  obtain ⟨htext, rfl⟩ := Prod.mk.inj hwrite
  obtain rfl : Outline.write [block.node name code types] = text := Except.ok.inj htext
  have hlength := Rendering.length_eq_of_run_mapM htypes
  refine ⟨types, htypes, hlength, fun hworded => ⟨_, Outline.read_write hworded.readable, rfl, ?_⟩⟩
  have hchildren : ((block.node name code types).written 0 1).children =
      written 1 2 (block.node name code types).children := rfl
  rw [hchildren, Outline.written_leaves children_of_mem_node]
  refine ⟨?_, fun leaf hleaf => ?_, ?_⟩
  · rw [List.map_map]
    show ((block.node name code types).children.zipIdx 2).map (Node.words ∘ Prod.fst) = _
    rw [← List.map_map, List.zipIdx_map_fst, node, List.map_map]
    rfl
  · obtain ⟨x, _, rfl⟩ := List.mem_map.1 hleaf
    rfl
  · rw [List.map_map]
    show ((block.node name code types).children.zipIdx 2).map Prod.snd = _
    rw [List.zipIdx_map_snd, node, List.length_map, List.length_zip, hlength, Nat.min_self]

end Block

theorem foreignBlock_read : ∃ text root,
    (foreignBlock.render Handler.prepared "o" 2).run.run ["a", "//b"] = (.ok text, []) ∧
      Outline.read text = .ok [root] ∧ root.words = ["o", "2", "tag"] ∧
      root.children.map Node.words = [["name", "a:set://b", "1"]] ∧
      root.children.map Node.lineNumber = [2] := by
  have htext : (foreignBlock.render Handler.prepared "o" 2).run.run ["a", "//b"] =
      (.ok "o 2 tag\n\tname a:set://b 1\n", []) := rfl
  have htypes : (foreignBlock.typeTexts Handler.prepared).run.run ["a", "//b"] =
      (.ok ["a:set://b"], []) := rfl
  have hworded : foreignBlock.Worded "o" ["a:set://b"] :=
    ⟨by decide +kernel, by decide +kernel, by decide +kernel, by decide +kernel, by decide +kernel⟩
  obtain ⟨types, htypes', _, hread⟩ := Block.read_render htext
  obtain rfl := Except.ok.inj (Prod.mk.inj (htypes.symm.trans htypes')).1
  obtain ⟨root, hroot, hwords, hchildren, _, hnumbers⟩ := hread hworded
  exact ⟨_, root, htext, hroot, hwords, hchildren, hnumbers⟩

end SchemaLang
