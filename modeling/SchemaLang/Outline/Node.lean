import SchemaLang.Text.Blank

/-!
# Outline nodes

An outline is a forest of lines: a line owns the lines indented below it.  A node
keeps its line, the number of that line, its words and the nodes below it.  The
words are those of the line when the outline was read from a text, but a node may
also be made by hand with words of its own.

`preorder` lists a forest as it reads from top to bottom, each node with its
depth.
-/

namespace SchemaLang.Outline

/-- A line of an outline with the lines below it. -/
structure Node where
  words : List String
  children : List Node
  line : String
  /-- Counted from one; the lines that are skipped count as well. -/
  lineNumber : Nat
deriving Inhabited

def wordsOf (line : String) : List String := (Text.words line.toList).map String.ofList

def Node.ofLine (line : String) (lineNumber : Nat) : Node :=
  { words := wordsOf line, children := [], line := line, lineNumber := lineNumber }

mutual

def Node.preorder (depth : Nat) : Node → List (Nat × Node)
  | ⟨words, children, line, lineNumber⟩ =>
    (depth, ⟨words, children, line, lineNumber⟩) :: preorder (depth + 1) children

/-- **A forest from top to bottom**, each node with its depth. -/
def preorder (depth : Nat) : List Node → List (Nat × Node)
  | [] => []
  | node :: rest => node.preorder depth ++ preorder depth rest

end

theorem Node.preorder_eq (depth : Nat) (node : Node) :
    node.preorder depth = (depth, node) :: Outline.preorder (depth + 1) node.children := by
  cases node; rw [Node.preorder]

theorem preorder_append (depth : Nat) : ∀ s t : List Node,
    preorder depth (s ++ t) = preorder depth s ++ preorder depth t
  | [], _ => rfl
  | node :: s, t => by
    rw [List.cons_append, preorder, preorder, preorder_append depth s t, List.append_assoc]

end SchemaLang.Outline
