import SchemaLang.Proofs.Outline.Written

/-!
# The shape of a forest

The shape of a forest is what it says apart from any text: how its nodes stand below each other,
and the words of each (`Tree`).  Every shape of readable words is that of an outline.  Its nodes are
written from top to bottom, one line each, and reading puts each line back to where it was.

* `trees_written`: writing keeps the shape.
* `map_line_preorder_written`: it numbers the lines by their places.
* `exists_read_write`: the text that is written has an outline, of that shape and with those lines.
-/

namespace SchemaLang.Outline

variable {nodes : List Node}

inductive Tree where
  | node (words : List String) (below : List Tree)

mutual

def Node.tree : Node → Tree
  | ⟨words, children, _, _⟩ => .node words (trees children)

/-- **The shape of a forest.** -/
def trees : List Node → List Tree
  | [] => []
  | node :: rest => node.tree :: trees rest

end

mutual

theorem Node.tree_written : ∀ (node : Node) (depth number : Nat),
    (node.written depth number).tree = node.tree
  | ⟨words, children, _, _⟩, depth, number => by
    rw [Node.written, Node.tree, Node.tree, trees_written children]

/-- **Writing keeps the shape.** -/
theorem trees_written : ∀ (nodes : List Node) (depth number : Nat),
    trees (written depth number nodes) = trees nodes
  | [], _, _ => rfl
  | node :: rest, depth, number => by
    rw [written, trees, trees, Node.tree_written node, trees_written rest]

end

mutual

theorem Node.map_line_preorder_written : ∀ (node : Node) (depth number : Nat),
    ((node.written depth number).preorder depth).map (fun x => (x.2.line, x.2.lineNumber)) =
      ((node.preorder depth).map fun x => String.ofList (lineOf x.1 x.2.words)).zipIdx number
  | ⟨words, children, _, _⟩, depth, number => by
    rw [Node.written, Node.preorder, Node.preorder, List.map_cons, List.map_cons,
      List.zipIdx_cons, map_line_preorder_written children]

theorem map_line_preorder_written : ∀ (nodes : List Node) (depth number : Nat),
    (preorder depth (written depth number nodes)).map (fun x => (x.2.line, x.2.lineNumber)) =
      ((preorder depth nodes).map fun x => String.ofList (lineOf x.1 x.2.words)).zipIdx number
  | [], _, _ => rfl
  | node :: rest, depth, number => by
    rw [written, preorder, preorder, List.map_append, List.map_append, List.zipIdx_append,
      Node.map_line_preorder_written node, map_line_preorder_written rest, List.length_map]

end

/-- **Every forest of readable words is the outline of a text.**  The text has one line for each
node, from top to bottom: as many tabs as the node is deep, then its words with one space between
two of them, and a line feed.  What is read has the shape that was written, and its nodes have the
written lines, numbered from one. -/
theorem exists_read_write (h : ∀ node ∈ flatten nodes, Readable node.words) :
    ∃ roots, read (write nodes) = .ok roots ∧ trees roots = trees nodes ∧
      (flatten roots).map (fun node => (node.line, node.lineNumber)) =
        ((preorder 0 nodes).map fun x => String.ofList (lineOf x.1 x.2.words)).zipIdx 1 := by
  refine ⟨written 0 1 nodes, read_write h, trees_written nodes 0 1, ?_⟩
  rw [flatten, List.map_map]
  exact map_line_preorder_written nodes 0 1

/-- Four levels, and a second root after them.  Slashes make a comment in front of a line only. -/
def steepForest : List Node :=
  [⟨["/", "/a"], [⟨["b//", "//"], [⟨["ключ"], [⟨["d", "4"], [], "", 0⟩], "", 0⟩], "", 0⟩,
    ⟨["e\u200b"], [], "", 0⟩], "", 0⟩, ⟨["f", "(x)", ":="], [], "", 0⟩]

theorem steepForest_read : ∃ roots,
    read "/ /a\n\tb// //\n\t\tключ\n\t\t\td 4\n\te\u200b\nf (x) :=\n" = .ok roots ∧
      trees roots = trees steepForest ∧
      (flatten roots).map (fun node => (node.line, node.lineNumber)) =
        [("/ /a", 1), ("\tb// //", 2), ("\t\tключ", 3), ("\t\t\td 4", 4), ("\te\u200b", 5),
          ("f (x) :=", 6)] :=
  @exists_read_write steepForest (by decide)

end SchemaLang.Outline
