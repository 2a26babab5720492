import SchemaLang.Proofs.Outline.Line

/-!
# Rows and forests

A list of rows is made a forest from the bottom up, and a forest lists its rows again from
top to bottom.  The two undo each other.

* `map_row_flatten_forest`: the forest of any rows has exactly these rows, in order.
* `forest_rowsOf`: when each row is as wide as its node is deep, the forest of the rows of a
  forest is that forest.

The first one says that nothing is lost or moved in reading, and so whatever is known of
rows is known of nodes (`readable_of_read`).
-/

namespace SchemaLang.Outline

def Node.row (node : Node) : Row := ⟨node.lineNumber, node.line.toList⟩

def flatten (nodes : List Node) : List Node := (preorder 0 nodes).map Prod.snd

def rowsOf (depth : Nat) (nodes : List Node) : List Row :=
  (preorder depth nodes).map fun x => x.2.row

theorem row_node (row : Row) (children : List Node) : (row.node children).row = row := by
  rw [Node.row, Row.node, Node.ofLine]
  show Row.mk row.number (String.ofList row.line).toList = row
  rw [String.toList_ofList]

/-! ### The nodes of a forest -/

mutual

theorem Node.map_snd_preorder (d e : Nat) : ∀ node : Node,
    (node.preorder d).map Prod.snd = (node.preorder e).map Prod.snd
  | ⟨words, children, line, number⟩ => by
    rw [Node.preorder, Node.preorder, List.map_cons, List.map_cons,
      map_snd_preorder (d + 1) (e + 1) children]

theorem map_snd_preorder (d e : Nat) : ∀ nodes : List Node,
    (preorder d nodes).map Prod.snd = (preorder e nodes).map Prod.snd
  | [] => rfl
  | node :: rest => by
    rw [preorder, preorder, List.map_append, List.map_append, Node.map_snd_preorder d e node,
      map_snd_preorder d e rest]

end

theorem flatten_cons (node : Node) (rest : List Node) :
    flatten (node :: rest) = node :: (flatten node.children ++ flatten rest) := by
  rw [flatten, preorder, Node.preorder_eq, List.map_append, List.map_cons,
    map_snd_preorder 1 0]
  rfl

theorem flatten_leaves : ∀ {nodes : List Node}, (∀ node ∈ nodes, node.children = []) →
    flatten nodes = nodes := by
  intro nodes
  induction nodes with
  | nil => intro _; rfl
  | cons first rest ih =>
    intro h
    rw [flatten_cons, h first List.mem_cons_self,
      ih fun n hn => h n (List.mem_cons_of_mem first hn)]
    rfl

theorem flatten_append (s t : List Node) : flatten (s ++ t) = flatten s ++ flatten t := by
  rw [flatten, preorder_append, List.map_append]
  rfl

theorem mem_flatten_of_mem {node : Node} : ∀ {nodes : List Node}, node ∈ nodes →
    node ∈ flatten nodes := by
  intro nodes
  induction nodes with
  | nil => intro h; cases h
  | cons first rest ih =>
    intro h
    rw [flatten_cons]
    rcases List.mem_cons.1 h with rfl | h
    · exact List.mem_cons_self
    · exact List.mem_cons_of_mem _ (List.mem_append_right _ (ih h))

theorem mem_flatten_of_mem_children {node child : Node} : ∀ {nodes : List Node}, node ∈ nodes →
    child ∈ node.children → child ∈ flatten nodes := by
  intro nodes
  induction nodes with
  | nil => intro h; cases h
  | cons first rest ih =>
    intro h hc
    rw [flatten_cons]
    refine List.mem_cons_of_mem _ ?_
    rcases List.mem_cons.1 h with rfl | h
    · exact List.mem_append_left _ (mem_flatten_of_mem hc)
    · exact List.mem_append_right _ (ih h hc)

/-! ### From rows to a forest and back -/

/-- A row that adopts trees comes before their nodes, and no node is moved. -/
theorem flatten_adopt (row : Row) (trees : List (Nat × Node)) :
    flatten ((adopt row trees).map Prod.snd) =
      row.node ((trees.takeWhile fun tree => decide (row.width < tree.1)).map Prod.snd) ::
        flatten (trees.map Prod.snd) := by
  rw [adopt, List.map_cons, flatten_cons]
  refine congrArg _ ?_
  show flatten (List.map Prod.snd _) ++ _ = _
  rw [← flatten_append, ← List.map_append, List.takeWhile_append_dropWhile]

theorem map_row_flatten_foldr_adopt : ∀ rows : List Row,
    (flatten ((rows.foldr adopt []).map Prod.snd)).map Node.row = rows ∧
      ∀ node ∈ flatten ((rows.foldr adopt []).map Prod.snd), node.words = wordsOf node.line := by
  intro rows
  induction rows with
  | nil => exact ⟨rfl, fun _ h => by cases h⟩
  | cons row rows ih =>
    obtain ⟨ihrows, ihwords⟩ := ih
    rw [List.foldr_cons, flatten_adopt, List.map_cons, row_node, ihrows]
    refine ⟨rfl, fun node hn => ?_⟩
    rcases List.mem_cons.1 hn with rfl | hn
    · rfl
    · exact ihwords node hn

/-- **The forest of any rows has exactly these rows, in order.** -/
theorem map_row_flatten_forest (rows : List Row) : (flatten (forest rows)).map Node.row = rows :=
  (map_row_flatten_foldr_adopt rows).1

theorem words_eq_of_mem_flatten_forest {rows : List Row} {node : Node}
    (h : node ∈ flatten (forest rows)) : node.words = wordsOf node.line :=
  (map_row_flatten_foldr_adopt rows).2 node h

theorem exists_row?_of_mem_rowsFrom {row : Row} : ∀ {lines : List (List Char)} {number : Nat},
    row ∈ rowsFrom number lines → ∃ line n, row? line n = some row := by
  intro lines
  induction lines with
  | nil => intro number h; cases h
  | cons line lines ih =>
    intro number h
    rw [rowsFrom] at h
    split at h
    · next r hr =>
      rcases List.mem_cons.1 h with rfl | h
      · exact ⟨line, number, hr⟩
      · exact ih h
    · exact ih h

theorem eq_forest_of_read {source : String} {nodes : List Node} (h : read source = .ok nodes) :
    nodes = forest (rows source) := by
  rw [read] at h
  split at h
  · exact (Except.ok.inj h).symm
  · cases h

theorem words_eq_of_read {source : String} {nodes : List Node} {node : Node}
    (h : read source = .ok nodes) (hn : node ∈ flatten nodes) :
    node.words = wordsOf node.line := by
  rw [eq_forest_of_read h] at hn
  exact words_eq_of_mem_flatten_forest hn

/-- **The nodes of an outline that was read from a text are readable.** -/
theorem readable_of_read {source : String} {nodes : List Node} {node : Node}
    (h : read source = .ok nodes) (hn : node ∈ flatten nodes) : Readable node.words := by
  have hrow : node.row ∈ rows source := by
    rw [← map_row_flatten_forest (rows source), ← eq_forest_of_read h]
    exact List.mem_map_of_mem hn
  obtain ⟨line, n, hline⟩ := exists_row?_of_mem_rowsFrom hrow
  have hread := readable_of_row? hline
  rwa [Node.row, String.ofList_toList, ← words_eq_of_read h hn] at hread

/-! ### From a forest to rows and back -/

def Laid (depth : Nat) (nodes : List Node) : Prop :=
  ∀ x ∈ preorder depth nodes, x.2.words = wordsOf x.2.line ∧ x.2.row.width = x.1

theorem adopt_of_narrow {row : Row} {depth : Nat} {children : List Node} {trees : List (Nat × Node)}
    (hrow : row.width = depth) (htrees : ∀ t, trees.head? = some t → t.1 ≤ depth) :
    adopt row (children.map (fun n => (depth + 1, n)) ++ trees) =
      (depth, row.node children) :: trees := by
  have hall : ∀ t ∈ children.map (fun n => (depth + 1, n)), decide (row.width < t.1) = true := by
    intro t ht
    obtain ⟨n, _, rfl⟩ := List.mem_map.1 ht
    rw [decide_eq_true_eq, hrow]
    exact Nat.lt_succ_self depth
  have hstop : trees.takeWhile (fun t => decide (row.width < t.1)) = [] ∧
      trees.dropWhile (fun t => decide (row.width < t.1)) = trees := by
    cases trees with
    | nil => exact ⟨rfl, rfl⟩
    | cons t trees =>
      have ht : ¬decide (row.width < t.1) = true := by
        rw [decide_eq_true_eq, hrow]
        exact Nat.not_lt.2 (htrees t rfl)
      exact ⟨List.takeWhile_cons_of_neg ht, List.dropWhile_cons_of_neg ht⟩
  rw [adopt, List.takeWhile_append_of_pos hall, List.dropWhile_append_of_pos hall, hstop.1, hstop.2,
    List.append_nil, List.map_map, hrow]
  rw [show Prod.snd ∘ (fun n : Node => (depth + 1, n)) = id from rfl, List.map_id]

mutual

theorem Node.foldr_adopt : ∀ (node : Node) {depth : Nat} {trees : List (Nat × Node)},
    (∀ x ∈ node.preorder depth, x.2.words = wordsOf x.2.line ∧ x.2.row.width = x.1) →
    (∀ t, trees.head? = some t → t.1 ≤ depth) →
      ((node.preorder depth).map fun x => x.2.row).foldr adopt trees = (depth, node) :: trees
  | ⟨words, children, line, number⟩, depth, trees, h, htrees => by
    rw [Node.preorder] at h ⊢
    obtain ⟨hwords, hwidth⟩ := h _ List.mem_cons_self
    have hlaid : Laid (depth + 1) children := fun x hx => h x (List.mem_cons_of_mem _ hx)
    -- rows are read from the bottom, so the children stand there when the node adopts them
    rw [List.map_cons, List.foldr_cons, ← rowsOf,
      foldr_adopt children hlaid fun t ht => Nat.le_succ_of_le (htrees t ht),
      adopt_of_narrow hwidth htrees]
    refine congrArg (fun n => (depth, n) :: trees) ?_
    rw [Row.node, Node.ofLine, Node.row]
    simp only [String.ofList_toList]
    rw [← hwords]

/-- Rows that are as wide as their nodes are deep make these nodes, on top of any trees that
are not wider. -/
theorem foldr_adopt : ∀ (nodes : List Node) {depth : Nat} {trees : List (Nat × Node)},
    Laid depth nodes → (∀ t, trees.head? = some t → t.1 ≤ depth) →
      (rowsOf depth nodes).foldr adopt trees = nodes.map (fun n => (depth, n)) ++ trees
  | [], _, _, _, _ => rfl
  | node :: rest, depth, trees, h, htrees => by
    rw [Laid, preorder] at h
    rw [rowsOf, preorder, List.map_append, List.foldr_append, ← rowsOf,
      foldr_adopt rest (fun x hx => h x (List.mem_append_right _ hx)) htrees,
      Node.foldr_adopt node fun x hx => h x (List.mem_append_left _ hx)]
    · rfl
    · intro t ht
      cases rest with
      | nil => exact htrees t ht
      | cons first rest =>
        obtain rfl := Option.some.inj ht
        exact Nat.le_refl depth

end

/-- **The forest of the rows of a forest is that forest.** -/
theorem forest_rowsOf {nodes : List Node} (h : Laid 0 nodes) : forest (rowsOf 0 nodes) = nodes := by
  have hnone : ∀ t, ([] : List (Nat × Node)).head? = some t → t.1 ≤ 0 := fun t ht => by cases ht
  rw [forest, foldr_adopt nodes h hnone, List.append_nil, List.map_map]
  exact List.map_id nodes

end SchemaLang.Outline
