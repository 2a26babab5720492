import SchemaLang.Proofs.Outline.Forest

/-!
# Written outlines

A forest is written line by line, from top to bottom: as many tabs as the node is deep, and
then its words.  `written` is the forest with these lines in it, numbered from a first line
on, and `write` is the text.  `read_write` says that reading the text of a readable forest
gives that forest, so every forest of readable words is the outline of some text.

The margins of a written text are good because the depth of a node is at most one more than
that of the node before it (`Steps`), so that all levels from the outermost one inwards are
open.
-/

namespace SchemaLang.Outline

/-! ### Margins that deepen by steps -/

/-- The open levels at depth `k`, if each level is one deeper than the one around it. -/
def openLevels : Nat → List Nat
  | 0 => []
  | k + 1 => k :: openLevels k

/-- Each width is at most one more than the width before it, and the first one is at most
`k`. -/
def Steps : Nat → List Nat → Prop
  | _, [] => True
  | k, v :: r => v ≤ k ∧ Steps (v + 1) r

theorem dropWhile_openLevels {v : Nat} : ∀ {k : Nat}, v ≤ k →
    (openLevels k).dropWhile (fun w => decide (v ≤ w)) = openLevels v := by
  intro k
  induction k with
  | zero =>
    intro h
    obtain rfl : v = 0 := by omega
    rfl
  | succ k ih =>
    intro h
    rw [openLevels, List.dropWhile_cons]
    by_cases hv : v ≤ k
    · rw [if_pos (decide_eq_true hv), ih hv]
    · obtain rfl : v = k + 1 := by omega
      rw [if_neg (by simp), openLevels]

theorem getLast?_takeWhile_openLevels {v : Nat} : ∀ {k : Nat}, v ≤ k →
    ((openLevels k).takeWhile fun w => decide (v ≤ w)).getLast? =
      if v < k then some v else none := by
  intro k
  induction k with
  | zero =>
    intro h
    obtain rfl : v = 0 := by omega
    rfl
  | succ k ih =>
    intro h
    rw [openLevels, List.takeWhile_cons]
    by_cases hv : v ≤ k
    · rw [if_pos (decide_eq_true hv), List.getLast?_cons, ih hv, if_pos (Nat.lt_succ_of_le hv)]
      rcases Nat.lt_or_eq_of_le hv with hlt | rfl
      · rw [if_pos hlt]; rfl
      · rw [if_neg (Nat.lt_irrefl v)]; rfl
    · rw [if_neg (by simpa using hv), if_neg (by omega)]
      rfl

theorem fits_openLevels {v k : Nat} (h : v ≤ k) : fits v (openLevels k) = true := by
  rw [fits, getLast?_takeWhile_openLevels h]
  split
  · next w hw =>
    split at hw
    · rw [Option.some.inj hw, beq_self_eq_true]
    · cases hw
  · rfl

theorem checkMargins_of_steps : ∀ {rows : List Row} {k : Nat},
    (∀ row ∈ rows, row.mixed = false) → Steps k (rows.map Row.width) →
      checkMargins (openLevels k) rows = .ok () := by
  intro rows
  induction rows with
  | nil => intro k _ _; rfl
  | cons row rows ih =>
    intro k hmixed hsteps
    obtain ⟨hk, hsteps⟩ := hsteps
    -- after a row of some width, all levels up to that width are open again
    have hreopen : reopen row.width (openLevels k) = openLevels (row.width + 1) := by
      rw [reopen, dropWhile_openLevels hk, openLevels]
    rw [checkMargins, hmixed row List.mem_cons_self, fits_openLevels hk, hreopen]
    exact ih (fun r hr => hmixed r (List.mem_cons_of_mem row hr)) hsteps

mutual

theorem Node.steps : ∀ (node : Node) {d k : Nat} {r : List Nat}, d ≤ k →
    (∀ j, d < j → Steps j r) → Steps k ((node.preorder d).map Prod.fst ++ r)
  | ⟨_, children, _, _⟩, d, k, r, hk, hr => by
    rw [Node.preorder]
    exact ⟨hk, steps children (Nat.le_refl (d + 1)) hr⟩

/-- **A forest deepens by steps.** -/
theorem steps : ∀ (nodes : List Node) {d k : Nat} {r : List Nat}, d ≤ k →
    (∀ j, d ≤ j → Steps j r) → Steps k ((preorder d nodes).map Prod.fst ++ r)
  | [], _, k, _, hk, hr => hr k hk
  | node :: rest, d, k, r, hk, hr => by
    rw [preorder, List.map_append, List.append_assoc]
    exact Node.steps node hk fun j hj => steps rest (Nat.le_of_lt hj) hr

end

/-! ### Writing a forest -/

mutual

def Node.written (depth number : Nat) : Node → Node
  | ⟨words, children, _, _⟩ =>
    { words := words
      children := written (depth + 1) (number + 1) children
      line := String.ofList (lineOf depth words)
      lineNumber := number }

/-- **A forest as it is written** from a line on. -/
def written (depth number : Nat) : List Node → List Node
  | [] => []
  | node :: rest =>
    node.written depth number :: written depth (number + (node.preorder depth).length) rest

end

theorem exists_written_of_mem {node : Node} {depth : Nat} : ∀ {nodes : List Node} {number : Nat},
    node ∈ written depth number nodes → ∃ n ∈ nodes, ∃ k, node = n.written depth k := by
  intro nodes
  induction nodes with
  | nil => intro number h; cases h
  | cons first rest ih =>
    intro number h
    rw [written] at h
    rcases List.mem_cons.1 h with rfl | h
    · exact ⟨first, List.mem_cons_self, number, rfl⟩
    · obtain ⟨n, hn, k, hk⟩ := ih h
      exact ⟨n, List.mem_cons_of_mem first hn, k, hk⟩

def linesOf (depth : Nat) (nodes : List Node) : List (List Char) :=
  (preorder depth nodes).map fun x => lineOf x.1 x.2.words

/-- **The text of a forest.** -/
def write (nodes : List Node) : String :=
  String.ofList ((linesOf 0 nodes).flatMap fun line => line ++ ['\n'])

theorem linesOf_leaves {depth : Nat} : ∀ {nodes : List Node},
    (∀ node ∈ nodes, node.children = []) →
      linesOf depth nodes = nodes.map fun node => lineOf depth node.words := by
  intro nodes
  induction nodes with
  | nil => intro _; rfl
  | cons node nodes ih =>
    intro h
    have hrest := ih fun n hn => h n (List.mem_cons_of_mem node hn)
    rw [linesOf] at hrest ⊢
    rw [preorder, List.map_append, hrest, Node.preorder_eq, h node List.mem_cons_self]
    rfl

theorem written_leaves {depth : Nat} : ∀ {nodes : List Node} {number : Nat},
    (∀ node ∈ nodes, node.children = []) → written depth number nodes =
      (nodes.zipIdx number).map fun x =>
        ⟨x.1.words, [], String.ofList (lineOf depth x.1.words), x.2⟩ := by
  intro nodes
  induction nodes with
  | nil => intro _ _; rfl
  | cons node nodes ih =>
    intro number h
    obtain ⟨words, children, line, n⟩ := node
    obtain rfl : children = [] := h _ List.mem_cons_self
    rw [written, ih fun n hn => h n (List.mem_cons_of_mem _ hn)]
    rfl

theorem lines_flatMap_newline : ∀ {lines : List (List Char)},
    (∀ line ∈ lines, ∀ c ∈ line, c ≠ '\n' ∧ c ≠ '\r') →
      Text.lines (lines.flatMap fun line => line ++ ['\n']) = lines := by
  intro lines
  induction lines with
  | nil => intro _; rfl
  | cons line lines ih =>
    intro h
    rw [List.flatMap_cons, List.append_assoc, List.singleton_append,
      Text.lines_append_newline (h line List.mem_cons_self),
      ih fun l hl => h l (List.mem_cons_of_mem line hl)]

mutual

theorem Node.rowsFrom_lines : ∀ (node : Node) {depth number : Nat},
    (∀ x ∈ node.preorder depth, Readable x.2.words) →
      rowsFrom number ((node.preorder depth).map fun x => lineOf x.1 x.2.words) =
        ((node.written depth number).preorder depth).map fun x => x.2.row
  | ⟨words, children, line, n⟩, depth, number, h => by
    rw [Node.preorder] at h ⊢
    rw [Node.written, Node.preorder, List.map_cons, List.map_cons, rowsFrom,
      row?_lineOf (h _ List.mem_cons_self)]
    dsimp only
    rw [← linesOf, rowsFrom_linesOf children fun x hx => h x (List.mem_cons_of_mem _ hx), rowsOf]
    rw [Node.row]
    simp only [String.toList_ofList]

/-- The rows of a written text are those of the written forest. -/
theorem rowsFrom_linesOf : ∀ (nodes : List Node) {depth number : Nat},
    (∀ x ∈ preorder depth nodes, Readable x.2.words) →
      rowsFrom number (linesOf depth nodes) = rowsOf depth (written depth number nodes)
  | [], _, _, _ => rfl
  | node :: rest, depth, number, h => by
    rw [preorder] at h
    rw [linesOf, preorder, List.map_append, rowsFrom_append, List.length_map, ← linesOf,
      rowsFrom_linesOf rest fun x hx => h x (List.mem_append_right _ hx),
      Node.rowsFrom_lines node fun x hx => h x (List.mem_append_left _ hx), written, rowsOf,
      rowsOf, preorder, List.map_append]

end

mutual

theorem Node.laid_written : ∀ (node : Node) {depth number : Nat},
    (∀ x ∈ node.preorder depth, Readable x.2.words) →
      ∀ x ∈ (node.written depth number).preorder depth,
        x.2.words = wordsOf x.2.line ∧ x.2.row.margin = List.replicate x.1 '\t'
  | ⟨words, children, line, n⟩, depth, number, h => by
    rw [Node.preorder] at h
    rw [Node.written, Node.preorder]
    have hread : Readable words := h _ List.mem_cons_self
    intro x hx
    rcases List.mem_cons.1 hx with rfl | hx
    · refine ⟨(wordsOf_lineOf hread.isWord).symm, ?_⟩
      rw [Row.margin, Node.row, String.toList_ofList, margin_lineOf hread]
    · exact laid_written children (fun y hy => h y (List.mem_cons_of_mem _ hy)) x hx

theorem laid_written : ∀ (nodes : List Node) {depth number : Nat},
    (∀ x ∈ preorder depth nodes, Readable x.2.words) →
      ∀ x ∈ preorder depth (written depth number nodes),
        x.2.words = wordsOf x.2.line ∧ x.2.row.margin = List.replicate x.1 '\t'
  | [], _, _, _ => fun x hx => by cases hx
  | node :: rest, depth, number, h => by
    rw [preorder] at h
    rw [written, preorder]
    intro x hx
    rcases List.mem_append.1 hx with hx | hx
    · exact Node.laid_written node (fun y hy => h y (List.mem_append_left _ hy)) x hx
    · exact laid_written rest (fun y hy => h y (List.mem_append_right _ hy)) x hx

end

/-- **Reading undoes writing.** -/
theorem read_write {nodes : List Node} (h : ∀ node ∈ flatten nodes, Readable node.words) :
    read (write nodes) = .ok (written 0 1 nodes) := by
  have hread : ∀ x ∈ preorder 0 nodes, Readable x.2.words := fun x hx =>
    h x.2 (List.mem_map_of_mem hx)
  have hrows : rows (write nodes) = rowsOf 0 (written 0 1 nodes) := by
    rw [rows, write, String.toList_ofList, lines_flatMap_newline, rowsFrom_linesOf nodes hread]
    intro line hl c hc
    obtain ⟨x, hx, rfl⟩ := List.mem_map.1 hl
    exact not_newline_of_mem_lineOf (hread x hx).isWord c hc
  have hmargin : ∀ x ∈ preorder 0 (written 0 1 nodes), x.2.words = wordsOf x.2.line ∧
      x.2.row.margin = List.replicate x.1 '\t' := laid_written nodes hread
  have hwidth : ∀ x ∈ preorder 0 (written 0 1 nodes), x.2.row.width = x.1 := fun x hx => by
    rw [Row.width, (hmargin x hx).2, List.length_replicate]
  have hlaid : Laid 0 (written 0 1 nodes) := fun x hx => ⟨(hmargin x hx).1, hwidth x hx⟩
  have hok : checkMargins [] (rowsOf 0 (written 0 1 nodes)) = .ok () := by
    refine checkMargins_of_steps (k := 0) (fun row hr => ?_) ?_
    · obtain ⟨x, hx, rfl⟩ := List.mem_map.1 hr
      rw [Row.mixed, (hmargin x hx).2, Bool.and_eq_false_iff]
      exact Or.inr (by simp [List.mem_replicate])
    · have hnil : ∀ j, 0 ≤ j → Steps j [] := fun _ _ => True.intro
      have hsteps := steps (written 0 1 nodes) (Nat.le_refl 0) hnil
      rw [List.append_nil] at hsteps
      rw [rowsOf, List.map_map]
      exact (List.map_congr_left fun x hx => hwidth x hx) ▸ hsteps
  rw [read, hrows, hok, forest_rowsOf hlaid]

end SchemaLang.Outline
