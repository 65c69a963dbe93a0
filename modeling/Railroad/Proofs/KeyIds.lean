import Railroad.Proofs.Chains
import Railroad.Proofs.Keys
import Railroad.Proofs.Structure

/-!
The ids in the keys of a diagram are ids of the grammar.

* `Parts.holdsChildren_walk`, `Grammar.HasNode.child`: a walk that comes to a node also comes to its
  children.
* `Place.Step.belongs`: a chain goes on to nodes of the grammar only.
* `Grammar.mem_ids_of_mem_key`: so the ids in a key are those of nodes.
* `Grammar.isWritable_of_mem_keys`: if there are not more nodes than ids that a written key may
  hold, then all keys can be read.
-/

namespace Railroad

/-! ### The nodes of a walk -/

/-- With each node, the list holds the children of the node one level further down. -/
def Node.HoldsChildren (nodes : List (Nat × Node)) : Prop :=
  ∀ here ∈ nodes, ∀ child ∈ here.2.children, (here.1 + 1, child) ∈ nodes

namespace Node.HoldsChildren

variable {nodes : List (Nat × Node)} {depth : Nat}

theorem flatMap {α : Type} {items : List α} {walk : α → List (Nat × Node)}
    (h : ∀ item ∈ items, HoldsChildren (walk item)) : HoldsChildren (items.flatMap walk) := by
  intro here hhere child hchild
  obtain ⟨item, hitem, hhere⟩ := List.mem_flatMap.mp hhere
  exact List.mem_flatMap.mpr ⟨item, hitem, h item hitem here hhere child hchild⟩

theorem cons {node : Node} (h : HoldsChildren nodes)
    (children : ∀ child ∈ node.children, (depth + 1, child) ∈ nodes) :
    HoldsChildren ((depth, node) :: nodes) := by
  intro here hhere child hchild
  rcases List.mem_cons.mp hhere with rfl | hhere
  · exact List.mem_cons_of_mem _ (children child hchild)
  · exact List.mem_cons_of_mem _ (h here hhere child hchild)

end Node.HoldsChildren

theorem Term.walkAll_eq_flatMap (depth : Nat) (terms : List Term) :
    walkAll depth terms = terms.flatMap (walk depth) := by
  induction terms with
  | nil => rfl
  | cons t rest ih => rw [walkAll, ih, List.flatMap_cons]

theorem Factor.walkAll_eq_flatMap (depth : Nat) (factors : List Factor) :
    walkAll depth factors = factors.flatMap (walk depth) := by
  induction factors with
  | nil => rfl
  | cons f rest ih => rw [walkAll, ih, List.flatMap_cons]

theorem Expression.mem_walk (depth : Nat) (e : Expression) :
    (depth, .expression e) ∈ e.walk depth := by
  obtain ⟨id, terms⟩ := e
  exact List.mem_cons_self

theorem Term.mem_walk (depth : Nat) (t : Term) : (depth, .term t) ∈ t.walk depth := by
  obtain ⟨id, factors⟩ := t
  exact List.mem_cons_self

theorem Factor.mem_walk (depth : Nat) (f : Factor) : (depth, .factor f) ∈ f.walk depth := by
  cases f <;> exact List.mem_cons_self

/-- **A walk through a part comes to the children of every node that it comes to.** -/
theorem Parts.holdsChildren_walk :
    (∀ (e : Expression) (depth : Nat), Node.HoldsChildren (e.walk depth)) ∧
    (∀ (t : Term) (depth : Nat), Node.HoldsChildren (t.walk depth)) ∧
    ∀ (f : Factor) (depth : Nat), Node.HoldsChildren (f.walk depth) :=
  Parts.induction
    { expression := by
        rintro ⟨id, terms⟩ ih depth
        rw [Expression.walk, Term.walkAll_eq_flatMap]
        refine .cons (.flatMap fun t ht => ih t ht (depth + 1)) ?_
        intro child hchild
        obtain ⟨t, ht, rfl⟩ := List.mem_map.mp hchild
        exact List.mem_flatMap.mpr ⟨t, ht, t.mem_walk (depth + 1)⟩
      term := by
        rintro ⟨id, factors⟩ ih depth
        rw [Term.walk, Factor.walkAll_eq_flatMap]
        refine .cons (.flatMap fun f hf => ih f hf (depth + 1)) ?_
        intro child hchild
        obtain ⟨f, hf, rfl⟩ := List.mem_map.mp hchild
        exact List.mem_flatMap.mpr ⟨f, hf, f.mem_walk (depth + 1)⟩
      identifier := by
        intro id name depth
        simp [Node.HoldsChildren, Factor.walk, Node.children, Factor.value]
      literal := by
        intro id l depth
        simp [Node.HoldsChildren, Factor.walk, Node.children, Factor.value]
      bracketed := by
        intro id bracket body ih depth
        refine .cons (ih (depth + 1)) ?_
        intro child hchild
        obtain rfl := List.mem_singleton.mp hchild
        exact body.mem_walk (depth + 1) }

theorem Production.holdsChildren_walk (depth : Nat) (p : Production) :
    Node.HoldsChildren (p.walk depth) := by
  have body := Parts.holdsChildren_walk.1 p.body (depth + 1)
  have name : Node.HoldsChildren ((depth + 1, .identifier p.name) :: p.body.walk (depth + 1)) :=
    .cons body (by simp [Node.children])
  refine .cons name ?_
  intro child hchild
  simp only [Node.children, List.mem_cons, List.not_mem_nil, or_false] at hchild
  rcases hchild with rfl | rfl
  · exact List.mem_cons_self
  · exact List.mem_cons_of_mem _ (p.body.mem_walk (depth + 1))

/-- The node is one of the grammar. -/
def Grammar.HasNode (g : Grammar) (node : Node) : Prop :=
  ∃ depth, (depth, node) ∈ g.walk

theorem Grammar.HasNode.child {g : Grammar} {node child : Node} (h : g.HasNode node)
    (hchild : child ∈ node.children) : g.HasNode child := by
  have walk : Node.HoldsChildren g.walk := by
    refine .cons (.flatMap fun p _ => p.holdsChildren_walk 1) ?_
    intro child hchild
    obtain ⟨p, hp, rfl⟩ := List.mem_map.mp hchild
    exact List.mem_flatMap.mpr ⟨p, hp, List.mem_cons_self⟩
  obtain ⟨depth, hnode⟩ := h
  exact ⟨depth + 1, walk _ hnode child hchild⟩

theorem Grammar.HasNode.production {g : Grammar} {p : Production} (h : p ∈ g.productions) :
    g.HasNode (.production p) := by
  have whole : g.HasNode (.grammar g) := ⟨0, List.mem_cons_self⟩
  exact whole.child (List.mem_map_of_mem h)

theorem Grammar.HasNode.body {g : Grammar} {p : Production} (h : p ∈ g.productions) :
    g.HasNode (.expression p.body) :=
  (HasNode.production h).child (by simp [Node.children])

section Children

variable {g : Grammar} {e : Expression} {t : Term} {f : Factor} {id : NodeId} {bracket : Bracket}
  {body : Expression}

theorem Grammar.HasNode.term (h : g.HasNode (.expression e)) (ht : t ∈ e.terms) :
    g.HasNode (.term t) :=
  h.child (List.mem_map_of_mem ht)

theorem Grammar.HasNode.factor (h : g.HasNode (.term t)) (hf : f ∈ t.factors) :
    g.HasNode (.factor f) :=
  h.child (List.mem_map_of_mem hf)

theorem Grammar.HasNode.bracketed (h : g.HasNode (.factor (.bracketed id bracket body))) :
    g.HasNode (.expression body) :=
  h.child (List.mem_singleton_self _)

end Children

theorem Grammar.HasNode.id_mem {g : Grammar} {node : Node} (h : g.HasNode node) :
    node.id ∈ g.ids := by
  obtain ⟨depth, hnode⟩ := h
  exact List.mem_map.mpr ⟨(depth, node), hnode, rfl⟩

/-! ### Chains -/

section Chains

variable {g : Grammar} {selected : PathKey → Bool}

/-- The node that a chain has led to, unless it has come to its end. -/
def Place.node? : Place → Option Node
  | .expression e _ => some (.expression e)
  | .term t _ => some (.term t)
  | .factor f _ => some (.factor f)
  | .reference _ | .terminal _ => none

/-- The ids of the chain and the node that it leads to are those of the grammar. -/
structure Place.Belongs (g : Grammar) (here : List NodeId × Place) : Prop where
  ids : ∀ id ∈ here.1, id ∈ g.ids
  node : ∀ node, here.2.node? = some node → g.HasNode node

/-- A chain that goes on to a node of the grammar. -/
theorem Place.Belongs.push {here : List NodeId × Place} (h : Belongs g here) {node : Node}
    (member : g.HasNode node) {place : Place}
    (leads : place.node? = none ∨ place.node? = some node) :
    Belongs g (here.1 ++ [node.id], place) where
  ids := by
    intro id hid
    rcases List.mem_append.mp hid with hid | hid
    · exact h.ids id hid
    · obtain rfl := List.mem_singleton.mp hid
      exact member.id_mem
  node := by
    intro other hother
    rcases leads with none | some
    · rw [none] at hother
      cases hother
    · rw [some] at hother
      obtain rfl := Option.some.inj hother
      exact member

/-- **A step leads to a node of the grammar.** -/
theorem Place.Step.belongs {here next : List NodeId × Place}
    (step : Place.Step g selected here next) (h : Belongs g here) : Belongs g next := by
  cases step with
  | @term ids e manner t ht =>
    have node := (h.node _ rfl).child (List.mem_map_of_mem ht)
    exact h.push node (.inr rfl)
  | @factor ids t manner i f found _ =>
    have node := (h.node _ rfl).child (List.mem_map_of_mem (List.mem_of_getElem? found))
    exact h.push node (.inr rfl)
  | body =>
    have node := (h.node _ rfl).child (List.mem_singleton_self _)
    exact h.push node (.inr rfl)
  | literal | name _ | reference _ =>
    have node := (h.node _ rfl).child (List.mem_singleton_self _)
    exact h.push node (.inl rfl)
  | opened opens =>
    have node := Grammar.HasNode.body (List.mem_of_find?_eq_some opens.2.2)
    exact h.push node (.inr rfl)

theorem Place.Belongs.of_chain {here there : List NodeId × Place} (h : Belongs g here)
    (chain : Relation.ReflTransGen (Place.Step g selected) here there) : Belongs g there := by
  induction chain with
  | refl => exact h
  | tail _ step ih => exact step.belongs ih

theorem Place.Belongs.start {p : Production} (hp : p ∈ g.productions) :
    Belongs g ([p.id, p.body.id], .expression p.body .whole) := by
  have production := Grammar.HasNode.production hp
  have body := Grammar.HasNode.body hp
  refine ⟨?_, ?_⟩
  · intro id hid
    simp only [List.mem_cons, List.not_mem_nil, or_false] at hid
    rcases hid with rfl | rfl
    · exact production.id_mem
    · exact body.id_mem
  · intro node hnode
    obtain rfl := Option.some.inj hnode
    exact body

end Chains

/-! ### Keys -/

namespace Grammar

variable {g : Grammar} {selected : PathKey → Bool} {start : Option String} {d : Diagram}

/-- **The ids in the keys of a diagram are ids of the grammar.** Each key has one. -/
theorem mem_ids_of_mem_key (drawn : (g.draw start selected).result = .ok d) {key : PathKey}
    (hkey : key ∈ d.root.nodes.filterMap Track.path?) :
    key.ids ≠ [] ∧ ∀ id ∈ key.ids, id ∈ g.ids := by
  obtain ⟨p, started, marks⟩ := mem_marks_draw_iff drawn
  rw [← Track.marks_keys] at hkey
  obtain ⟨mark, marked, rfl⟩ := List.mem_map.mp hkey
  obtain ⟨place, chain, -⟩ := (marks mark).mp marked
  have belongs := (Place.Belongs.start (mem_of_startProduction started)).of_chain chain
  have front := Place.prefix_of_chain chain
  refine ⟨?_, belongs.ids⟩
  intro empty
  rw [empty] at front
  cases List.eq_nil_of_prefix_nil front

/-- If ids were given out from the first one on and there are enough of them, the keys of a diagram
can be read. -/
theorem isWritable_of_mem_keys (numbered : g.number 0 = g) (few : g.walk.length ≤ maxNodeId)
    (drawn : (g.draw start selected).result = .ok d) {key : PathKey}
    (hkey : key ∈ d.root.nodes.filterMap Track.path?) : key.IsWritable := by
  obtain ⟨inhabited, ids⟩ := mem_ids_of_mem_key drawn hkey
  refine ⟨inhabited, fun id hid => ?_⟩
  have bound := ids id hid
  rw [← numbered, ids_number, List.mem_range'_1, Nat.zero_add, Nat.add_comm] at bound
  rw [← numbered, length_walk_number] at few
  exact Nat.le_trans (Nat.le_of_lt_succ bound.2) few

end Grammar

end Railroad
