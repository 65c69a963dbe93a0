import Railroad.Grammar.Node
import Railroad.Proofs.CanonicalText
import Railroad.Proofs.Expandable
import Railroad.Proofs.RenamedDrawing

/-!
Diagrams depend on a grammar only through its structure.

* `Grammar.ids_number`: the ids of a grammar that was read are those given out for it, in the order
  of its nodes.
* `Grammar.kinds_eq_of_sameStructure`: grammars of one structure have the same tokens, so they are
  one tree with other ids (`Grammar.eq_mapIds_of_kinds_eq`).
* `Grammar.diagram_of_sameStructure`: their diagrams are the same but for the ids in the keys.
-/

namespace Railroad

/-! ### The ids of a grammar -/

/-- The ids of the nodes of a walk. -/
def Node.ids (nodes : List (Nat × Node)) : List NodeId :=
  nodes.map (·.2.id)

theorem Node.ids_cons (depth : Nat) (node : Node) (rest : List (Nat × Node)) :
    ids ((depth, node) :: rest) = node.id :: ids rest := rfl

theorem Node.ids_append (nodes others : List (Nat × Node)) :
    ids (nodes ++ others) = ids nodes ++ ids others :=
  List.map_append

/-- The ids of all nodes, in pre-order. -/
def Grammar.ids (g : Grammar) : List NodeId :=
  Node.ids g.walk

mutual

theorem Expression.ids_walk_number (n depth : Nat) : ∀ e : Expression,
    Node.ids ((e.number n).walk depth) = List.range' (n + 1) e.size
  | ⟨_, terms⟩ => by
    simp only [Expression.number, Expression.walk, Expression.size, Node.ids_cons, Node.id,
      Term.ids_walkAll_number (n + 1) (depth + 1) terms, Nat.add_comm 1, List.range'_succ]

theorem Term.ids_walk_number (n depth : Nat) : ∀ t : Term,
    Node.ids ((t.number n).walk depth) = List.range' (n + 1) t.size
  | ⟨_, factors⟩ => by
    simp only [Term.number, Term.walk, Term.size, Node.ids_cons, Node.id,
      Factor.ids_walkAll_number (n + 1) (depth + 1) factors, Nat.add_comm 1, List.range'_succ]

theorem Factor.ids_walk_number (n depth : Nat) : ∀ f : Factor,
    Node.ids ((f.number n).walk depth) = List.range' (n + 1) f.size
  | .identifier _ _ => rfl
  | .literal _ _ => rfl
  | .bracketed _ _ body => by
    simp only [Factor.number, Factor.walk, Factor.size, Node.ids_cons, Node.id, Factor.id,
      body.ids_walk_number (n + 1) (depth + 1), Nat.add_comm 1, List.range'_succ]

theorem Term.ids_walkAll_number (n depth : Nat) : ∀ terms : List Term,
    Node.ids (Term.walkAll depth (Term.numberAll n terms)) =
      List.range' (n + 1) (Term.sizeAll terms)
  | [] => rfl
  | t :: rest => by
    simp only [Term.numberAll, Term.walkAll, Term.sizeAll, Node.ids_append,
      t.ids_walk_number n depth, Term.ids_walkAll_number (n + t.size) depth rest,
      Nat.add_right_comm n, List.range'_append_1]

theorem Factor.ids_walkAll_number (n depth : Nat) : ∀ factors : List Factor,
    Node.ids (Factor.walkAll depth (Factor.numberAll n factors)) =
      List.range' (n + 1) (Factor.sizeAll factors)
  | [] => rfl
  | f :: rest => by
    simp only [Factor.numberAll, Factor.walkAll, Factor.sizeAll, Node.ids_append,
      f.ids_walk_number n depth, Factor.ids_walkAll_number (n + f.size) depth rest,
      Nat.add_right_comm n, List.range'_append_1]

end

theorem Production.ids_walk_number (n depth : Nat) (p : Production) :
    Node.ids ((p.number n).walk depth) = List.range' (n + 1) p.size := by
  simp only [number, walk, size, Node.ids_cons, Node.id, Expression.ids_walk_number, Nat.add_comm 2,
    List.range'_succ]

theorem Production.ids_walkAll_number (n depth : Nat) (productions : List Production) :
    Node.ids ((numberAll n productions).flatMap (Production.walk depth)) =
      List.range' (n + 1) (sizeAll productions) := by
  induction productions generalizing n with
  | nil => rfl
  | cons p rest ih =>
    simp only [numberAll, sizeAll, List.flatMap_cons, Node.ids_append, p.ids_walk_number, ih,
      Nat.add_right_comm n, List.range'_append_1]

/-- **The ids of a grammar are those given out for it**, in the order of its nodes. -/
theorem Grammar.ids_number (n : Nat) (g : Grammar) :
    (g.number n).ids = List.range' (n + 1) g.size := by
  simp only [ids, number, walk, size, Node.ids_cons, Node.id, Production.ids_walkAll_number,
    Nat.add_comm 1, List.range'_succ]

/-- The ids of a grammar are as many as its nodes. -/
theorem Grammar.length_walk_number (n : Nat) (g : Grammar) : (g.number n).walk.length = g.size := by
  have length : (g.number n).walk.length = (g.number n).ids.length := by simp [ids, Node.ids]
  rw [length, ids_number, List.length_range']

/-! ### Ids given out from elsewhere on -/

/-- The ids from `m` on become those from `n` on, in order. -/
def Moves (φ : NodeId → NodeId) (m n : Nat) : Prop :=
  ∀ k, φ (m + k) = n + k

theorem moves_shift (m n : Nat) : Moves (fun i => i - m + n) m n := by
  intro k
  show m + k - m + n = n + k
  omega

/-- No other id is moved to where one behind `m` is. -/
theorem eq_of_shift_eq {m n i j : Nat} (behind : m < i) (same : j - m + n = i - m + n) : j = i := by
  omega

theorem map_range'_of_moves {φ : NodeId → NodeId} {m n : Nat} (h : Moves φ m n) (size : Nat) :
    (List.range' m size).map φ = List.range' n size := by
  apply List.ext_getElem
  · simp
  · intro k _ _
    simp [h k]

section Mapped

variable {φ : NodeId → NodeId}

theorem Moves.add {m n : Nat} (h : Moves φ m n) (j : Nat) : Moves φ (m + j) (n + j) := by
  intro k
  rw [Nat.add_assoc, h, Nat.add_assoc]

mutual

/-- A renaming that moves the ids on takes the numbering along. -/
theorem Expression.mapIds_number {m n : Nat} (moves : Moves φ m n) :
    ∀ e : Expression, (e.number m).mapIds φ = e.number n
  | ⟨_, terms⟩ => by
    simp only [Expression.number, Expression.mapIds, moves 1,
      Term.mapIdsAll_numberAll (moves.add 1) terms]

theorem Term.mapIds_number {m n : Nat} (moves : Moves φ m n) :
    ∀ t : Term, (t.number m).mapIds φ = t.number n
  | ⟨_, factors⟩ => by
    simp only [Term.number, Term.mapIds, moves 1, Factor.mapIdsAll_numberAll (moves.add 1) factors]

theorem Factor.mapIds_number {m n : Nat} (moves : Moves φ m n) :
    ∀ f : Factor, (f.number m).mapIds φ = f.number n
  | .identifier _ _ => by simp only [Factor.number, Factor.mapIds, moves 1, moves 2]
  | .literal _ _ => by simp only [Factor.number, Factor.mapIds, moves 1, moves 2]
  | .bracketed _ _ body => by
    simp only [Factor.number, Factor.mapIds, moves 1, body.mapIds_number (moves.add 1)]

theorem Term.mapIdsAll_numberAll {m n : Nat} (moves : Moves φ m n) :
    ∀ terms : List Term, Term.mapIdsAll φ (Term.numberAll m terms) = Term.numberAll n terms
  | [] => rfl
  | t :: rest => by
    simp only [Term.numberAll, Term.mapIdsAll, t.mapIds_number moves,
      Term.mapIdsAll_numberAll (moves.add t.size) rest]

theorem Factor.mapIdsAll_numberAll {m n : Nat} (moves : Moves φ m n) :
    ∀ factors : List Factor,
      Factor.mapIdsAll φ (Factor.numberAll m factors) = Factor.numberAll n factors
  | [] => rfl
  | f :: rest => by
    simp only [Factor.numberAll, Factor.mapIdsAll, f.mapIds_number moves,
      Factor.mapIdsAll_numberAll (moves.add f.size) rest]

end

theorem Production.mapIds_number {m n : Nat} (moves : Moves φ m n) (p : Production) :
    (p.number m).mapIds φ = p.number n := by
  simp only [number, mapIds, Identifier.mapIds, moves 1, moves 2,
    Expression.mapIds_number (moves.add 2)]

theorem Production.map_mapIds_numberAll {m n : Nat} (moves : Moves φ m n)
    (productions : List Production) :
    (numberAll m productions).map (Production.mapIds φ) = numberAll n productions := by
  induction productions generalizing m n with
  | nil => rfl
  | cons p rest ih =>
    simp only [numberAll, List.map_cons, p.mapIds_number moves, ih (moves.add p.size)]

theorem Grammar.mapIds_number {m n : Nat} (moves : Moves φ m n) (g : Grammar) :
    (g.number m).mapIds φ = g.number n := by
  simp only [number, mapIds, moves 1, Production.map_mapIds_numberAll (moves.add 1)]

end Mapped

/-! ### One structure -/

/-- The texts of productions decide their tokens. -/
theorem Production.kinds_eq_of_text_eq {p q : Production} (pReadable : ∀ k ∈ p.kinds, k.Readable)
    (qReadable : ∀ k ∈ q.kinds, k.Readable) (same : p.text = q.text) : p.kinds = q.kinds :=
  (Production.readsAs pReadable).kinds_eq (same ▸ Production.readsAs qReadable)

/-- **Grammars of one structure have the same tokens.** -/
theorem Grammar.kinds_eq_of_sameStructure {g h : Grammar} (gReadable : ∀ k ∈ g.kinds, k.Readable)
    (hReadable : ∀ k ∈ h.kinds, k.Readable) (same : g.sameStructure h = true) :
    g.kinds = h.kinds := by
  obtain ⟨gId, ps⟩ := g
  obtain ⟨hId, qs⟩ := h
  simp only [sameStructure, Bool.and_eq_true, decide_eq_true_eq] at same
  obtain ⟨length, pairs⟩ := same
  simp only [kinds] at gReadable hReadable ⊢
  induction ps generalizing qs with
  | nil =>
    obtain rfl := List.length_eq_zero_iff.mp length.symm
    rfl
  | cons p ps ih =>
    obtain ⟨q, qs, rfl⟩ := List.exists_cons_of_length_eq_add_one length.symm
    simp only [List.flatMap_cons, List.forall_mem_append] at gReadable hReadable
    simp only [List.zip_cons_cons, List.all_cons, Bool.and_eq_true] at pairs
    obtain ⟨text, pairs⟩ := pairs
    have here : p.kinds = q.kinds :=
      Production.kinds_eq_of_text_eq gReadable.1 hReadable.1 (of_decide_eq_true text)
    have there := ih gReadable.2 qs hReadable.2 (Nat.succ.inj length) pairs
    rw [List.flatMap_cons, List.flatMap_cons, here, there]

/-- **Two trees with the same tokens differ in their ids only**: the ids are those that follow `m`
in the one and those that follow `n` in the other. -/
theorem Grammar.eq_mapIds_of_kinds_eq {g h : Grammar} {m n : Nat} {gKinds hKinds : List Token.Kind}
    (gTree : g.TreeOf gKinds m) (hTree : h.TreeOf hKinds n) (same : g.kinds = h.kinds) :
    h = g.mapIds fun i => i - m + n := by
  have numbered : h.number n = g.number n :=
    number_eq_of_kinds_eq gTree.fits hTree.fits same.symm n
  calc h = g.number n := by rw [← hTree.numbered, numbered]
    _ = (g.number m).mapIds fun i => i - m + n := (g.mapIds_number (moves_shift m n)).symm
    _ = g.mapIds fun i => i - m + n := by rw [gTree.numbered]

/-! ### Keys -/

theorem PathKey.eq_of_mapIds_eq {φ : NodeId → NodeId} {key key' : PathKey}
    (injective : ∀ i ∈ key.ids, ∀ j, φ j = φ i → j = i) (same : key'.mapIds φ = key.mapIds φ) :
    key' = key := by
  obtain ⟨ids⟩ := key
  obtain ⟨ids'⟩ := key'
  have same : ids'.map φ = ids.map φ := congrArg PathKey.ids same
  congr 1
  induction ids generalizing ids' with
  | nil => exact List.map_eq_nil_iff.mp same
  | cons i rest ih =>
    obtain ⟨first, others⟩ := List.forall_mem_cons.mp injective
    obtain ⟨j, rest', rfl, head, tail⟩ := List.map_eq_cons_iff.mp same
    rw [first j head, ih others rest' (congrArg PathKey.mk tail) tail]

/-- A renamed key is on the renamed list if the key is on the list. -/
theorem PathKey.mem_map_mapIds_iff {φ : NodeId → NodeId} {keys : List PathKey}
    (injective : ∀ key ∈ keys, ∀ i ∈ key.ids, ∀ j, φ j = φ i → j = i) {key : PathKey} :
    key.mapIds φ ∈ keys.map (PathKey.mapIds φ) ↔ key ∈ keys := by
  constructor
  · intro h
    obtain ⟨key', hkey', same⟩ := List.mem_map.mp h
    rwa [eq_of_mapIds_eq (injective key' hkey') same.symm]
  · exact List.mem_map_of_mem

namespace Grammar

variable {g : Grammar} {φ : NodeId → NodeId}

/-- A renamed grammar has the renamed diagrams. -/
theorem diagram_mapIds {expanded : List PathKey}
    (injective : ∀ key ∈ expanded, ∀ i ∈ key.ids, ∀ j, φ j = φ i → j = i) (start : Option String) :
    (g.mapIds φ).diagram start (expanded.map (PathKey.mapIds φ)) =
      (g.diagram start expanded).mapIds φ (Diagram.mapIds φ) := by
  have selected : ∀ key : PathKey, decide (key.mapIds φ ∈ expanded.map (PathKey.mapIds φ)) =
      decide (key ∈ expanded) := by
    intro key
    exact decide_eq_decide.mpr (PathKey.mem_map_mapIds_iff injective)
  rw [diagram_eq, diagram_eq, draw_mapIds]
  simp only [selected]

/-- The references of a renamed grammar that can be opened have the renamed keys. -/
theorem openedKeys_draw_mapIds (start : Option String) :
    ((g.mapIds φ).draw start fun _ => true).openedKeys =
      (g.draw start fun _ => true).openedKeys.map (PathKey.mapIds φ) := by
  rw [draw_mapIds]
  exact DrawingEvent.filterMap_openedKey?_mapIds _

/-- **Diagrams depend on the grammar only through its structure, not on the ids.** Let two texts be
read after `m` and after `n` ids were given out, and let them be one text or grammars of one
structure. Then the second tree is the first with `i - m + n` in the place of each id `i`. With the
keys renamed in this way the diagrams are the same but for the keys in them, or fail for the same
reason, and the same references can be opened. -/
theorem diagram_of_sameStructure {a b : String} {m n : Nat} {first second : Parsed}
    (readFirst : (parse a m).result = .ok first) (readSecond : (parse b n).result = .ok second)
    (same : a = b ∨ first.grammar.sameStructure second.grammar = true) :
    let g := first.grammar
    let h := second.grammar
    let φ : NodeId → NodeId := fun i => i - m + n
    (h = g.mapIds φ ∧ h.ids = g.ids.map φ ∧ ∀ i ∈ g.ids, m < i) ∧
      (∀ start expanded, (∀ key ∈ expanded, ∀ i ∈ key.ids, i ∈ g.ids) →
        (h.diagram start (expanded.map (PathKey.mapIds φ))).result =
          (g.diagram start expanded).result.map (Diagram.mapIds φ)) ∧
      ∀ start, (∀ paths, (g.expandablePaths start).result = .ok paths →
          ∃ paths', (h.expandablePaths start).result = .ok paths' ∧
            ∀ key, key ∈ paths' ↔ key ∈ paths.map (PathKey.mapIds φ)) ∧
        ∀ e, (g.expandablePaths start).result = .error e ↔
          (h.expandablePaths start).result = .error e := by
  intro g h φ
  obtain ⟨gKinds, gReading, gTree, -⟩ := parse_eq_ok_iff_reading.mp readFirst
  obtain ⟨hKinds, hReading, hTree, -⟩ := parse_eq_ok_iff_reading.mp readSecond
  have kinds : g.kinds = h.kinds := by
    rcases same with rfl | same
    · rw [gTree.kinds, hTree.kinds]
      exact congrArg Reading.kinds (gReading.symm.trans hReading)
    · exact kinds_eq_of_sameStructure (gTree.readable gReading) (hTree.readable hReading) same
  have renamed : h = g.mapIds φ := eq_mapIds_of_kinds_eq gTree hTree kinds
  have gIds : g.ids = List.range' (m + 1) g.size := by
    rw [← g.ids_number m, gTree.numbered]
  have behind : ∀ i ∈ g.ids, m < i := by
    intro i hi
    rw [gIds, List.mem_range'_1] at hi
    exact hi.1
  refine ⟨⟨renamed, ?_, behind⟩, fun start expanded inside => ?_, fun start => ⟨?_, fun e => ?_⟩⟩
  · have hIds : h.ids = List.range' (n + 1) g.size := by
      rw [← g.ids_number n, ← g.mapIds_number (moves_shift m n), gTree.numbered, ← renamed]
    rw [hIds, gIds]
    exact (map_range'_of_moves ((moves_shift m n).add 1) g.size).symm
  · rw [renamed, diagram_mapIds]
    · rfl
    · intro key hkey i hi j same
      exact eq_of_shift_eq (behind i (inside key hkey i hi)) same
  · intro paths listed
    obtain ⟨⟨d, drawn⟩, rfl⟩ := result_expandablePaths_eq_ok.mp listed
    refine ⟨PathKey.sorted (h.draw start fun _ => true).openedKeys, ?_, fun key => ?_⟩
    · refine result_expandablePaths_eq_ok.mpr ⟨⟨d.mapIds φ, ?_⟩, rfl⟩
      rw [renamed, draw_mapIds]
      exact congrArg (Except.map (Diagram.mapIds φ)) drawn
    · rw [PathKey.mem_sorted, renamed, openedKeys_draw_mapIds, List.mem_map, List.mem_map]
      simp only [PathKey.mem_sorted]
  · rw [result_expandablePaths_eq_error, result_expandablePaths_eq_error, renamed, draw_mapIds]
    simp only [Drawing.mapIds]
    cases (g.draw start fun _ => true).result <;> simp [Except.map]

set_option maxRecDepth 4000 in
/-- Two ways to write one grammar, and ids with different numbers of digits. -/
theorem diagram_of_sameStructure_digits :
    let g : Grammar := ⟨4, [⟨5, ⟨6, "A"⟩, ⟨7, [⟨8, [.identifier 9 ⟨10, "B"⟩]⟩]⟩⟩,
      ⟨11, ⟨12, "B"⟩, ⟨13, [⟨14, [.identifier 15 ⟨16, "c"⟩]⟩]⟩⟩]⟩
    let h : Grammar := ⟨98, [⟨99, ⟨100, "A"⟩, ⟨101, [⟨102, [.identifier 103 ⟨104, "B"⟩]⟩]⟩⟩,
      ⟨105, ⟨106, "B"⟩, ⟨107, [⟨108, [.identifier 109 ⟨110, "c"⟩]⟩]⟩⟩]⟩
    let φ : NodeId → NodeId := fun i => i - 3 + 97
    (parse "A = B . B = c ." 3).result = .ok ⟨g, 16⟩ ∧
      (parse "A=B.\nB=c." 97).result = .ok ⟨h, 110⟩ ∧ g.sameStructure h = true ∧
      (∀ i ∈ [5, 7, 8, 9, 10], i ∈ g.ids) ∧ h = g.mapIds φ ∧
      (h.diagram none [⟨[99, 101, 102, 103, 104]⟩]).result =
        (g.diagram none [⟨[5, 7, 8, 9, 10]⟩]).result.map (Diagram.mapIds φ) ∧
      ∀ paths, (g.expandablePaths none).result = .ok paths →
        ∃ paths', (h.expandablePaths none).result = .ok paths' ∧
          ∀ key, key ∈ paths' ↔ key ∈ paths.map (PathKey.mapIds φ) := by
  intro g h φ
  have readFirst : (parse "A = B . B = c ." 3).result = .ok ⟨g, 16⟩ := by cbv
  have readSecond : (parse "A=B.\nB=c." 97).result = .ok ⟨h, 110⟩ := by cbv
  have same : g.sameStructure h = true := by cbv
  have inside : ∀ i ∈ [5, 7, 8, 9, 10], i ∈ g.ids := by decide
  obtain ⟨⟨renamed, -, -⟩, diagrams, paths⟩ :=
    diagram_of_sameStructure readFirst readSecond (.inr same)
  have keys : ∀ key ∈ [(⟨[5, 7, 8, 9, 10]⟩ : PathKey)], ∀ i ∈ key.ids, i ∈ g.ids := by
    intro key hkey
    rw [List.mem_singleton] at hkey
    subst hkey
    exact inside
  have drawn := diagrams none [⟨[5, 7, 8, 9, 10]⟩] keys
  have moved : [(⟨[5, 7, 8, 9, 10]⟩ : PathKey)].map (PathKey.mapIds φ) =
      [⟨[99, 101, 102, 103, 104]⟩] := by decide
  rw [moved] at drawn
  exact ⟨readFirst, readSecond, same, inside, renamed, drawn, (paths none).1⟩

end Grammar

end Railroad
