import Railroad.Proofs.SameSymbol

/-!
The ids of a text that was read number its nodes from the grammar downwards.

* `Node.walk_eq`: a walk comes to a node and then, from left to right, to its children with what is
  below them.
* `Node.InOrder.child`: where the ids of a walk follow each other without gaps, those of a child and
  of all that is below it are a later stretch of them.
* `Grammar.ids_of_parse`: the ids of a grammar that was read are those that follow the ones given
  out before, each once, and no node has a greater id than a node below it.
-/

namespace Railroad

/-! ### Walks -/

/-- A node and all nodes below it, with their depths, in pre-order. -/
def Node.walk (depth : Nat) : Node → List (Nat × Node)
  | .grammar g => (depth, .grammar g) :: g.productions.flatMap (Production.walk (depth + 1))
  | .production p => p.walk depth
  | .expression e => e.walk depth
  | .term t => t.walk depth
  | .factor f => f.walk depth
  | .identifier name => [(depth, .identifier name)]
  | .literal l => [(depth, .literal l)]

/-- A walk comes to the node itself, then to its children with what is below them. -/
theorem Node.walk_eq (depth : Nat) (node : Node) :
    node.walk depth = (depth, node) :: node.children.flatMap (walk (depth + 1)) := by
  cases node with
  | grammar g =>
    rw [walk, children, List.flatMap_map]
    rfl
  | production p => simp [walk, children, Production.walk]
  | expression e =>
    obtain ⟨id, terms⟩ := e
    rw [walk, children, List.flatMap_map, Expression.walk, Term.walkAll_eq_flatMap]
    rfl
  | term t =>
    obtain ⟨id, factors⟩ := t
    rw [walk, children, List.flatMap_map, Term.walk, Factor.walkAll_eq_flatMap]
    rfl
  | factor f => cases f <;> simp [walk, children, Factor.walk, Factor.value]
  | identifier name => rfl
  | literal l => rfl

/-! ### Stretches of ids -/

/-- The ids from the node downwards follow each other without gaps, in pre-order. -/
def Node.InOrder (node : Node) : Prop :=
  ∃ depth, ids (node.walk depth) = List.range' node.id (node.walk depth).length

/-- If lists follow each other without gaps, each of them is a stretch without gaps. -/
theorem exists_eq_range'_of_flatMap_eq {α : Type} {items : List α} {list : α → List Nat}
    {first length : Nat} (h : items.flatMap list = List.range' first length) {item : α}
    (hitem : item ∈ items) :
    ∃ start, first ≤ start ∧ list item = List.range' start (list item).length := by
  obtain ⟨before, after, rfl⟩ := List.append_of_mem hitem
  rw [List.flatMap_append, List.flatMap_cons, eq_comm, List.range'_eq_append_iff] at h
  obtain ⟨skipped, -, -, h⟩ := h
  rw [eq_comm, List.range'_eq_append_iff] at h
  obtain ⟨own, -, here, -⟩ := h
  refine ⟨first + skipped * 1, by omega, ?_⟩
  rw [here, List.length_range']

/-- **Below a node, ids go on in order**: a child has a greater id, and the ids from the child
downwards follow each other without gaps, too. -/
theorem Node.InOrder.child {node child : Node} (h : node.InOrder) (hchild : child ∈ node.children) :
    node.id < child.id ∧ child.InOrder := by
  obtain ⟨depth, h⟩ := h
  rw [walk_eq, ids_cons, List.length_cons, List.range'_succ, List.cons.injEq] at h
  have below : node.children.flatMap (fun other => ids (other.walk (depth + 1))) =
      List.range' (node.id + 1) (node.children.flatMap (walk (depth + 1))).length := by
    rw [← h.2, ids, List.map_flatMap]
    rfl
  obtain ⟨start, later, stretch⟩ := exists_eq_range'_of_flatMap_eq below hchild
  -- The stretch starts with the id of the child, since its walk starts with the child.
  have starts : start = child.id := by
    rw [walk_eq, ids_cons, List.length_cons, List.range'_succ, List.cons.injEq] at stretch
    exact stretch.1.symm
  subst starts
  refine ⟨later, depth + 1, ?_⟩
  simpa [ids] using stretch

/-- Going down from a node to its children, to their children and so on leads to the other one. -/
def Node.Contains : Node → Node → Prop :=
  Relation.TransGen fun node child => child ∈ node.children

theorem Node.InOrder.contains {node inside : Node} (h : node.InOrder)
    (contains : node.Contains inside) : node.id < inside.id ∧ inside.InOrder := by
  induction contains with
  | single child => exact h.child child
  | tail _ child ih =>
    obtain ⟨later, inOrder⟩ := ih.2.child child
    exact ⟨Nat.lt_trans ih.1 later, inOrder⟩

/-! ### Texts that were read -/

/-- **The ids of a tree number its nodes in pre-order without gaps.** If `n` ids were given out
before, a walk comes to as many nodes as the tree has, and their ids are `n + 1`, `n + 2` and so on
in this order; these ids have been given out afterwards. So no two nodes share an id, and the id of
each node is smaller than those of all nodes below it. -/
theorem Grammar.ids_of_parse {text : String} {n : Nat} {parsed : Parsed}
    (read : (parse text n).result = .ok parsed) :
    let g := parsed.grammar
    g.walk.length = g.size ∧ g.ids = List.range' (n + 1) g.size ∧
      parsed.issued = n + g.size ∧ g.ids.Nodup ∧
      ∀ node, g.HasNode node → ∀ inside, node.Contains inside → node.id < inside.id := by
  obtain ⟨g, issued⟩ := parsed
  obtain ⟨kinds, -, tree, issued⟩ := parse_eq_ok_iff_reading.mp read
  have numbered : g.number n = g := tree.numbered
  have length : g.walk.length = g.size := by rw [← g.length_walk_number n, numbered]
  have ids : g.ids = List.range' (n + 1) g.size := by rw [← g.ids_number n, numbered]
  have whole : (Node.grammar g).InOrder := by
    have first : g.id = n + 1 := by rw [← numbered, number]
    refine ⟨0, ?_⟩
    show g.ids = List.range' g.id g.walk.length
    rw [ids, first, length]
  refine ⟨length, ids, issued, ?_, fun node hnode inside contains => ?_⟩
  · show g.ids.Nodup
    rw [ids]
    exact List.nodup_range'
  · have inOrder := HasNode.induction (fun _ h _ child => (h.child child).2) whole node hnode
    exact (inOrder.contains contains).1

/-- Five ids were given out before; the tree has a loop in brackets and a second production. -/
theorem Grammar.ids_of_parse_nested :
    let inner : Term := ⟨18, [.identifier 19 ⟨20, "c"⟩]⟩
    let loop : Factor := .bracketed 16 .repetition ⟨17, [inner]⟩
    let g : Grammar := ⟨6, [⟨7, ⟨8, "A"⟩, ⟨9, [⟨10, [.bracketed 11 .option
      ⟨12, [⟨13, [.identifier 14 ⟨15, "B"⟩, loop]⟩]⟩]⟩]⟩⟩,
      ⟨21, ⟨22, "B"⟩, ⟨23, [⟨24, [.literal 25 ⟨26, "d"⟩]⟩]⟩⟩]⟩
    (parse "A = [ B \x7bc\x7d ] . B = \"d\" ." 5).result = .ok ⟨g, 26⟩ ∧
      g.walk.length = 21 ∧ g.ids = List.range' 6 21 ∧ g.ids.Nodup ∧
      g.HasNode (.factor loop) ∧ (Node.factor loop).Contains (.term inner) ∧
      loop.id < inner.id := by
  intro inner loop g
  have read : (parse "A = [ B \x7bc\x7d ] . B = \"d\" ." 5).result = .ok ⟨g, 26⟩ := by cbv
  have node : g.HasNode (.factor loop) := ⟨7, by simp [g, walk, Production.walk, Expression.walk,
    Term.walkAll, Term.walk, Factor.walkAll, Factor.walk, loop]⟩
  have below : (Node.factor loop).Contains (.term inner) :=
    .tail (.single (List.mem_singleton_self _)) (List.mem_singleton_self _)
  obtain ⟨length, ids, -, distinct, later⟩ := ids_of_parse read
  exact ⟨read, length, ids, distinct, node, below, later _ node _ below⟩

end Railroad
