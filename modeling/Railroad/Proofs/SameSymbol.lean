import Railroad.Proofs.KeyIds

/-!
Equal canonical texts are those of one tree.

Two nodes are the same symbol when their canonical texts are equal. A text does not show ids, and a
literal may hold every sign of the notation but a quotation mark, so this says two things: the text
keeps all of a tree but its ids, and nothing in it can be read in two ways.

* `Node.unnumbered`: a node with all ids in it wiped out. Two nodes have the same shape, the same
  kinds of factors, the same names and the same literals exactly if they are equal without ids.
* `Grammar.HasNode.induction`, `Grammar.HasNode.legible`: what nodes hand down to their children
  holds of every node of a grammar; every node of a text that was read can be read again.
* `Node.Legible.kinds_eq_of_text_eq`, `Node.unnumbered_eq_of_kinds_eq`: the text decides the tokens,
  and the tokens decide the tree.
* `Grammar.sameSymbol_iff_unnumbered`: the nodes of any two texts that were read.
-/

namespace Railroad

open Token (Kind)

/-! ### Nodes without ids -/

/-- The node with the ids renamed. -/
def Node.mapIds (φ : NodeId → NodeId) : Node → Node
  | .grammar g => .grammar (g.mapIds φ)
  | .production p => .production (p.mapIds φ)
  | .expression e => .expression (e.mapIds φ)
  | .term t => .term (t.mapIds φ)
  | .factor f => .factor (f.mapIds φ)
  | .identifier name => .identifier (name.mapIds φ)
  | .literal l => .literal (l.mapIds φ)

/-- The node with all ids wiped out: what is left are its shape, its names and its literals. -/
def Node.unnumbered (node : Node) : Node :=
  node.mapIds fun _ => 0

/-- Two grammars, two productions, two expressions and so on. -/
def Node.SameKind : Node → Node → Prop
  | .grammar _, .grammar _
  | .production _, .production _
  | .expression _, .expression _
  | .term _, .term _
  | .factor _, .factor _
  | .identifier _, .identifier _
  | .literal _, .literal _ => True
  | _, _ => False

/-- A factor is a name, a literal or one of three brackets. -/
inductive Factor.Form where
  | identifier
  | literal
  | bracketed (bracket : Bracket)
deriving DecidableEq, Repr

def Factor.form : Factor → Factor.Form
  | .identifier _ _ => .identifier
  | .literal _ _ => .literal
  | .bracketed _ bracket _ => .bracketed bracket

/-- Factors that are equal without ids are of one form. -/
theorem Factor.form_eq_of_unnumbered_eq {f f' : Factor}
    (same : (Node.factor f).unnumbered = (Node.factor f').unnumbered) : f.form = f'.form := by
  have form : ∀ f : Factor, (f.mapIds fun _ => 0).form = f.form := by
    rintro (_ | _ | _) <;> rfl
  rw [← form f, Node.factor.inj same, form f']

section Text

variable {φ : NodeId → NodeId}

theorem Production.text_mapIds (p : Production) : (p.mapIds φ).text = p.text := by
  rw [text, mapIds, (Parts.text_mapIds φ).1, Identifier.mapIds, text]

theorem Grammar.text_mapIds (g : Grammar) : (g.mapIds φ).text = g.text := by
  have texts : (g.productions.map (Production.mapIds φ)).map Production.text =
      g.productions.map Production.text := by
    rw [List.map_map]
    exact List.map_congr_left fun p _ => p.text_mapIds
  rw [text, mapIds, texts, text]

/-- **A text does not show ids.** -/
theorem Node.text_mapIds (node : Node) : (node.mapIds φ).text = node.text := by
  cases node with
  | grammar g => exact g.text_mapIds
  | production p => exact p.text_mapIds
  | expression e => exact (Parts.text_mapIds φ).1 e
  | term t => exact (Parts.text_mapIds φ).2.1 t
  | factor f => exact (Parts.text_mapIds φ).2.2 f
  | identifier name => rfl
  | literal l => rfl

end Text

/-- Nodes that are equal without ids have one text. -/
theorem Node.sameSymbol_of_unnumbered_eq {a b : Node} (same : a.unnumbered = b.unnumbered) :
    a.sameSymbol b = true := by
  have text : a.text = b.text :=
    calc a.text = a.unnumbered.text := a.text_mapIds.symm
      _ = b.unnumbered.text := by rw [same]
      _ = b.text := b.text_mapIds
  simpa [sameSymbol] using text

/-! ### Given out ids, wiped out again -/

section Number

variable {i : NodeId}

mutual

/-- It does not matter which ids there were before all of them become one. -/
theorem Expression.mapIds_const_number (n : Nat) :
    ∀ e : Expression, ((e.number n).mapIds fun _ => i) = e.mapIds fun _ => i
  | ⟨_, terms⟩ => by
    simp only [Expression.number, Expression.mapIds, Term.mapIdsAll_const_numberAll (n + 1) terms]

theorem Term.mapIds_const_number (n : Nat) :
    ∀ t : Term, ((t.number n).mapIds fun _ => i) = t.mapIds fun _ => i
  | ⟨_, factors⟩ => by
    simp only [Term.number, Term.mapIds, Factor.mapIdsAll_const_numberAll (n + 1) factors]

theorem Factor.mapIds_const_number (n : Nat) :
    ∀ f : Factor, ((f.number n).mapIds fun _ => i) = f.mapIds fun _ => i
  | .identifier _ _ => rfl
  | .literal _ _ => rfl
  | .bracketed _ _ body => by
    simp only [Factor.number, Factor.mapIds, body.mapIds_const_number (n + 1)]

theorem Term.mapIdsAll_const_numberAll (n : Nat) : ∀ terms : List Term,
    Term.mapIdsAll (fun _ => i) (Term.numberAll n terms) = Term.mapIdsAll (fun _ => i) terms
  | [] => rfl
  | t :: rest => by
    simp only [Term.numberAll, Term.mapIdsAll, t.mapIds_const_number n,
      Term.mapIdsAll_const_numberAll _ rest]

theorem Factor.mapIdsAll_const_numberAll (n : Nat) : ∀ factors : List Factor,
    Factor.mapIdsAll (fun _ => i) (Factor.numberAll n factors) =
      Factor.mapIdsAll (fun _ => i) factors
  | [] => rfl
  | f :: rest => by
    simp only [Factor.numberAll, Factor.mapIdsAll, f.mapIds_const_number n,
      Factor.mapIdsAll_const_numberAll _ rest]

end

theorem Production.mapIds_const_number (n : Nat) (p : Production) :
    ((p.number n).mapIds fun _ => i) = p.mapIds fun _ => i := by
  simp only [number, mapIds, Identifier.mapIds, p.body.mapIds_const_number]

theorem Production.map_mapIds_const_numberAll (n : Nat) (productions : List Production) :
    (numberAll n productions).map (mapIds fun _ => i) = productions.map (mapIds fun _ => i) := by
  induction productions generalizing n with
  | nil => rfl
  | cons p rest ih => rw [numberAll, List.map_cons, List.map_cons, p.mapIds_const_number, ih]

theorem Grammar.mapIds_const_number (n : Nat) (g : Grammar) :
    ((g.number n).mapIds fun _ => i) = g.mapIds fun _ => i := by
  simp only [number, mapIds, Production.map_mapIds_const_numberAll]

end Number

/-! ### Nodes that can be read again -/

/-- The token kinds of a node, from left to right. -/
def Node.kinds : Node → List Kind
  | .grammar g => g.kinds
  | .production p => p.kinds
  | .expression e => e.kinds
  | .term t => t.kinds
  | .factor f => f.kinds
  | .identifier name => [.identifier name.text]
  | .literal l => [.quote, .literal l.text, .quote]

/-- No choice without a term, no term without a factor, and at most `n` brackets inside one
another. -/
def Node.Fits (n : Nat) : Node → Prop
  | .grammar g => g.Fits n
  | .production p => p.body.Fits n
  | .expression e => e.Fits n
  | .term t => t.Fits n
  | .factor f => f.Fits n
  | .identifier _ | .literal _ => True

/-- The node fits, and its tokens can be read. -/
structure Node.Legible (node : Node) : Prop where
  fits : node.Fits maxNesting
  readable : ∀ k ∈ node.kinds, k.Readable

/-- A factor in brackets. -/
def Node.isBracketed : Node → Bool
  | .factor (.bracketed _ _ _) => true
  | _ => false

/-- What fits leaves its children the brackets below its own. -/
theorem Node.Fits.child {n : Nat} {node : Node} (h : node.Fits n) :
    ∀ child ∈ node.children,
      node.isBracketed.toNat ≤ n ∧ child.Fits (n - node.isBracketed.toNat) := by
  cases node with
  | grammar g =>
    simp only [children, List.forall_mem_map]
    exact fun p hp => ⟨Nat.zero_le n, h p hp⟩
  | production p =>
    simp only [children, List.forall_mem_cons, List.not_mem_nil, false_imp_iff, implies_true,
      and_true]
    exact ⟨⟨Nat.zero_le n, trivial⟩, ⟨Nat.zero_le n, h⟩⟩
  | expression e =>
    simp only [children, List.forall_mem_map]
    exact fun t ht => ⟨Nat.zero_le n, (Expression.fits_iff.mp h).2 t ht⟩
  | term t =>
    simp only [children, List.forall_mem_map]
    exact fun f hf => ⟨Nat.zero_le n, (Term.fits_iff.mp h).2 f hf⟩
  | factor f =>
    simp only [children, List.forall_mem_singleton]
    obtain _ | _ | ⟨body⟩ : f.Fits n := h
    · exact ⟨Nat.zero_le n, trivial⟩
    · exact ⟨Nat.zero_le n, trivial⟩
    · exact ⟨Nat.le_add_left 1 _, body⟩
  | identifier name | literal l => simp [children]

/-- The tokens of a child are among those of the node. -/
theorem Node.kinds_subset_of_mem_children {node child : Node} (h : child ∈ node.children) :
    child.kinds ⊆ node.kinds := by
  intro k hk
  cases node with
  | grammar g =>
    obtain ⟨p, hp, rfl⟩ := List.mem_map.mp h
    exact List.mem_flatMap.mpr ⟨p, hp, hk⟩
  | production p =>
    rcases List.mem_pair.mp h with rfl | rfl
    · simp_all [Node.kinds, Production.kinds]
    · simp_all [Node.kinds, Production.kinds]
  | expression e =>
    obtain ⟨t, ht, rfl⟩ := List.mem_map.mp h
    exact Expression.mem_kinds ht hk
  | term t =>
    obtain ⟨f, hf, rfl⟩ := List.mem_map.mp h
    exact Term.mem_kinds hf hk
  | factor f =>
    obtain rfl := List.mem_singleton.mp h
    cases f with
    | identifier id name => exact hk
    | literal id l => exact hk
    | bracketed id bracket body => exact List.mem_cons_of_mem _ (List.mem_append_left _ hk)
  | identifier name | literal l => cases h

theorem Node.Fits.mono {m n : Nat} {node : Node} (h : node.Fits m) (le : m ≤ n) : node.Fits n := by
  induction le with
  | refl => exact h
  | @step n _ ih =>
    cases node with
    | grammar g => exact fun p hp => Parts.fits_succ.1 p.body n (ih p hp)
    | production p => exact Parts.fits_succ.1 p.body n ih
    | expression e => exact Parts.fits_succ.1 e n ih
    | term t => exact Parts.fits_succ.2.1 t n ih
    | factor f => exact Parts.fits_succ.2.2 f n ih
    | identifier name | literal l => trivial

/-- A legible node has legible children. -/
theorem Node.Legible.child {node : Node} (h : node.Legible) :
    ∀ child ∈ node.children, child.Legible := fun child hchild =>
  ⟨(h.fits.child child hchild).2.mono (Nat.sub_le _ _),
    fun k hk => h.readable k (kinds_subset_of_mem_children hchild hk)⟩

theorem Node.Legible.expression {e : Expression} (h : (Node.expression e).Legible) : e.Legible where
  fits := h.fits
  readable := h.readable

theorem Node.Legible.term {t : Term} (h : (Node.term t).Legible) : t.Legible where
  fits := h.fits
  readable := h.readable

theorem Node.Legible.factor {f : Factor} (h : (Node.factor f).Legible) : f.Legible where
  fits := h.fits
  readable := h.readable

section Induction

variable {P : Node → Prop}

/-- What nodes hand down to their children holds of every node that a walk comes to. -/
theorem Parts.forall_mem_walk (inherited : ∀ node, P node → ∀ child ∈ node.children, P child) :
    (∀ (e : Expression) (depth : Nat), P (.expression e) → ∀ here ∈ e.walk depth, P here.2) ∧
    (∀ (t : Term) (depth : Nat), P (.term t) → ∀ here ∈ t.walk depth, P here.2) ∧
    ∀ (f : Factor) (depth : Nat), P (.factor f) → ∀ here ∈ f.walk depth, P here.2 :=
  Parts.induction
    { expression := by
        rintro ⟨id, terms⟩ ih depth whole
        rw [Expression.walk, Term.walkAll_eq_flatMap, List.forall_mem_cons, List.forall_mem_flatMap]
        exact ⟨whole, fun t ht =>
          ih t ht (depth + 1) (inherited _ whole _ (List.mem_map_of_mem ht))⟩
      term := by
        rintro ⟨id, factors⟩ ih depth whole
        rw [Term.walk, Factor.walkAll_eq_flatMap, List.forall_mem_cons, List.forall_mem_flatMap]
        exact ⟨whole, fun f hf =>
          ih f hf (depth + 1) (inherited _ whole _ (List.mem_map_of_mem hf))⟩
      identifier := by
        intro id name depth whole
        have name : P (.identifier name) := inherited _ whole _ (List.mem_singleton_self _)
        simpa [Factor.walk, whole] using name
      literal := by
        intro id l depth whole
        have literal : P (.literal l) := inherited _ whole _ (List.mem_singleton_self _)
        simpa [Factor.walk, whole] using literal
      bracketed := by
        intro id bracket body ih depth whole
        rw [Factor.walk, List.forall_mem_cons]
        exact ⟨whole, ih (depth + 1) (inherited _ whole _ (List.mem_singleton_self _))⟩ }

/-- **Induction on the nodes of a grammar**: what nodes hand down to their children holds of every
node of a grammar of which it holds. -/
theorem Grammar.HasNode.induction {g : Grammar}
    (inherited : ∀ node, P node → ∀ child ∈ node.children, P child) (whole : P (.grammar g)) :
    ∀ node, g.HasNode node → P node := by
  rintro node ⟨depth, visited⟩
  rw [Grammar.walk, List.mem_cons, List.mem_flatMap] at visited
  rcases visited with here | ⟨p, hp, visited⟩
  · obtain ⟨-, rfl⟩ := Prod.mk.inj here
    exact whole
  have production : P (.production p) := inherited _ whole _ (List.mem_map_of_mem hp)
  rw [Production.walk, List.mem_cons, List.mem_cons] at visited
  rcases visited with here | here | visited
  · obtain ⟨-, rfl⟩ := Prod.mk.inj here
    exact production
  · obtain ⟨-, rfl⟩ := Prod.mk.inj here
    exact inherited _ production _ (by simp [Node.children])
  · have body : P (.expression p.body) := inherited _ production _ (by simp [Node.children])
    exact (Parts.forall_mem_walk inherited).1 p.body 2 body _ visited

end Induction

/-- **All nodes of a text that was read are legible.** -/
theorem Grammar.HasNode.legible {text : String} {n : Nat} {parsed : Parsed}
    (h : (Grammar.parse text n).result = .ok parsed) :
    ∀ node, parsed.grammar.HasNode node → node.Legible := by
  obtain ⟨kinds, reading, tree, -⟩ := Grammar.parse_eq_ok_iff_reading.mp h
  exact induction (fun _ legible => legible.child) ⟨tree.fits, tree.readable reading⟩

theorem Grammar.HasNode.legible_of_ofString? {text : String} {g : Grammar}
    (read : Grammar.ofString? text = .ok g) : ∀ node, g.HasNode node → node.Legible := by
  obtain ⟨tokens, last, scanned, tree⟩ := ofString?_eq_ok_iff.mp read
  have reading := Scanner.reading_eq_complete_iff.mpr ⟨tokens, last, scanned, rfl⟩
  exact induction (fun _ legible => legible.child) ⟨tree.fits, tree.readable reading⟩

/-! ### From the text to the tree -/

/-- The canonical text of a node reads as the node. -/
theorem Node.readsAs {node : Node} (readable : ∀ k ∈ node.kinds, k.Readable) :
    ReadsAs node.text node.kinds := by
  cases node with
  | grammar g => exact Grammar.readsAs readable
  | production p => exact Production.readsAs readable
  | expression e => exact Parts.readsAs.1 e readable
  | term t => exact Parts.readsAs.2.1 t readable
  | factor f => exact Parts.readsAs.2.2 f readable
  | identifier name => exact .name (readable _ (List.mem_singleton_self _))
  | literal l => exact (Sign.literal (readable _ (by simp [Node.kinds]))).readsAs

/-- **The text decides the tokens.** -/
theorem Node.Legible.kinds_eq_of_text_eq {a b : Node} (ha : a.Legible) (hb : b.Legible)
    (same : a.text = b.text) : a.kinds = b.kinds :=
  (Node.readsAs ha.readable).kinds_eq (same ▸ Node.readsAs hb.readable)

/-- **The tokens decide the tree.** Nodes of one kind with the same tokens are equal without ids. -/
theorem Node.unnumbered_eq_of_kinds_eq {a b : Node} (aFits : a.Fits maxNesting)
    (bFits : b.Fits maxNesting) (kind : a.SameKind b) (same : a.kinds = b.kinds) :
    a.unnumbered = b.unnumbered := by
  cases a <;> cases b <;> first | exact kind.elim | simp only [Node.unnumbered, Node.mapIds]
  case grammar.grammar g h =>
    rw [← g.mapIds_const_number 0, Grammar.number_eq_of_kinds_eq bFits aFits same,
      h.mapIds_const_number]
  case production.production p q =>
    rw [← p.mapIds_const_number 0, Production.number_eq_of_kinds_eq aFits bFits same,
      q.mapIds_const_number]
  case expression.expression e e' =>
    rw [← e.mapIds_const_number 0, Expression.number_eq_of_kinds_eq aFits bFits same,
      e'.mapIds_const_number]
  case term.term t t' =>
    rw [← t.mapIds_const_number 0, Term.number_eq_of_kinds_eq aFits bFits same,
      t'.mapIds_const_number]
  case factor.factor f f' =>
    rw [← f.mapIds_const_number 0, Factor.number_eq_of_kinds_eq aFits bFits same,
      f'.mapIds_const_number]
  case identifier.identifier name name' =>
    have text : name.text = name'.text := by simpa [Node.kinds] using same
    simp only [Identifier.mapIds, text]
  case literal.literal l l' =>
    have text : l.text = l'.text := by simpa [Node.kinds] using same
    simp only [Literal.mapIds, text]

/-- **Legible nodes of one kind are the same symbol exactly if they are equal without ids.** -/
theorem Node.Legible.sameSymbol_iff {a b : Node} (ha : a.Legible) (hb : b.Legible)
    (kind : a.SameKind b) : a.sameSymbol b = true ↔ a.unnumbered = b.unnumbered := by
  constructor
  · intro same
    have text : a.text = b.text := by simpa [sameSymbol] using same
    exact unnumbered_eq_of_kinds_eq ha.fits hb.fits kind (ha.kinds_eq_of_text_eq hb text)
  · exact sameSymbol_of_unnumbered_eq

/-- Legible factors of different forms are different symbols. -/
theorem Factor.sameSymbol_eq_false_of_form_ne {f f' : Factor} (h : (Node.factor f).Legible)
    (h' : (Node.factor f').Legible) (forms : f.form ≠ f'.form) : f.sameSymbol f' = false := by
  rw [Bool.eq_false_iff]
  intro same
  exact forms (form_eq_of_unnumbered_eq ((h.sameSymbol_iff h' trivial).mp same))

/-! ### Whole grammars -/

/-- Productions that are the same symbols, one by one. -/
theorem Grammar.sameStructure_iff {g h : Grammar} :
    g.sameStructure h = true ↔
      g.productions.map Production.text = h.productions.map Production.text := by
  obtain ⟨-, ps⟩ := g
  obtain ⟨-, qs⟩ := h
  rw [sameStructure, Bool.and_eq_true, decide_eq_true_eq]
  induction ps generalizing qs with
  | nil => simp [eq_comm]
  | cons p ps ih =>
    cases qs with
    | nil => simp
    | cons q qs =>
      have rest := ih qs
      simp only [List.length_cons, List.zip_cons_cons, List.all_cons, List.map_cons, List.cons.injEq,
        Bool.and_eq_true, Nat.add_right_cancel_iff, Production.sameSymbol, decide_eq_true_eq]
        at rest ⊢
      rw [← rest]
      tauto

/-- Legible grammars have one structure exactly if they are the same symbol. -/
theorem Grammar.sameStructure_iff_sameSymbol {g h : Grammar} (hg : (Node.grammar g).Legible)
    (hh : (Node.grammar h).Legible) :
    g.sameStructure h = true ↔ (Node.grammar g).sameSymbol (.grammar h) = true := by
  rw [sameStructure_iff]
  constructor
  · intro texts
    have text : g.text = h.text := by rw [text, texts, text]
    exact decide_eq_true text
  · intro same
    have trees := Node.grammar.inj ((hg.sameSymbol_iff hh trivial).mp same)
    have texts : ∀ g : Grammar, (g.mapIds fun _ => 0).productions.map Production.text =
        g.productions.map Production.text := by
      intro g
      rw [mapIds, List.map_map]
      exact List.map_congr_left fun p _ => p.text_mapIds
    rw [← texts g, trees, texts h]

/-- **Being the same symbol is being the same tree, but for the ids.** Take nodes from two texts
that were read. Two of one kind are the same symbol exactly if they are equal once all ids are wiped
out, the grammars themselves do so exactly if they have one structure, and a name, a literal and
brackets of the three sorts are never the same symbol as one another. -/
theorem Grammar.sameSymbol_iff_unnumbered {s t : String} {m n : Nat} {first second : Parsed}
    (readFirst : (parse s m).result = .ok first) (readSecond : (parse t n).result = .ok second) :
    (∀ a b, first.grammar.HasNode a → second.grammar.HasNode b → a.SameKind b →
      (a.sameSymbol b = true ↔ a.unnumbered = b.unnumbered)) ∧
    (first.grammar.sameStructure second.grammar = true ↔
      (Node.grammar first.grammar).sameSymbol (.grammar second.grammar) = true) ∧
    ∀ f f', first.grammar.HasNode (.factor f) → second.grammar.HasNode (.factor f') →
      f.form ≠ f'.form → f.sameSymbol f' = false := by
  have legible := HasNode.legible readFirst
  have legible' := HasNode.legible readSecond
  refine ⟨fun a b ha hb kind => ?_, ?_, fun f f' hf hf' forms => ?_⟩
  · exact (legible a ha).sameSymbol_iff (legible' b hb) kind
  · exact sameStructure_iff_sameSymbol (legible _ ⟨0, List.mem_cons_self⟩)
      (legible' _ ⟨0, List.mem_cons_self⟩)
  · exact Factor.sameSymbol_eq_false_of_form_ne (legible _ hf) (legible' _ hf') forms

set_option maxRecDepth 4000 in
/-- Two ways to write a grammar with a name and a literal of the same characters, with ids of
different numbers of digits: the brackets are the same symbol, the name and the literal are not. -/
theorem Grammar.sameSymbol_iff_unnumbered_letters :
    let brackets (i : Nat) : Factor := .bracketed i .repetition
      ⟨i + 1, [⟨i + 2, [.identifier (i + 3) ⟨i + 4, "x"⟩]⟩,
        ⟨i + 5, [.literal (i + 6) ⟨i + 7, "x"⟩]⟩]⟩
    let g (i : Nat) : Grammar := ⟨i + 1, [⟨i + 2, ⟨i + 3, "A"⟩, ⟨i + 4, [⟨i + 5,
      [brackets (i + 6)]⟩]⟩⟩]⟩
    (parse "A=\x7bx|\"x\"\x7d." 3).result = .ok ⟨g 3, 16⟩ ∧
      (parse "A = \x7b x | \u201cx\u201d \x7d ." 97).result = .ok ⟨g 97, 110⟩ ∧
      (g 3).HasNode (.factor (brackets 9)) ∧ (g 97).HasNode (.factor (brackets 103)) ∧
      ((Node.factor (brackets 9)).sameSymbol (.factor (brackets 103)) = true ↔
        (Node.factor (brackets 9)).unnumbered = (Node.factor (brackets 103)).unnumbered) ∧
      ((g 3).sameStructure (g 97) = true ↔
        (Node.grammar (g 3)).sameSymbol (.grammar (g 97)) = true) ∧
      (Factor.identifier 12 ⟨13, "x"⟩).sameSymbol (.literal 109 ⟨110, "x"⟩) = false := by
  intro brackets g
  have readFirst : (parse "A=\x7bx|\"x\"\x7d." 3).result = .ok ⟨g 3, 16⟩ := by cbv
  have readSecond : (parse "A = \x7b x | \u201cx\u201d \x7d ." 97).result = .ok ⟨g 97, 110⟩ := by
    cbv
  have visited : ∀ i, (g i).HasNode (.factor (brackets (i + 6))) ∧
      (g i).HasNode (.factor (.identifier (i + 9) ⟨i + 10, "x"⟩)) ∧
      (g i).HasNode (.factor (.literal (i + 12) ⟨i + 13, "x"⟩)) := by
    intro i
    refine ⟨⟨4, ?_⟩, ⟨7, ?_⟩, ⟨7, ?_⟩⟩ <;>
      simp [g, brackets, walk, Production.walk, Expression.walk, Term.walkAll, Term.walk,
        Factor.walkAll, Factor.walk]
  obtain ⟨nodes, grammars, forms⟩ := sameSymbol_iff_unnumbered readFirst readSecond
  exact ⟨readFirst, readSecond, (visited 3).1, (visited 97).1,
    nodes _ _ (visited 3).1 (visited 97).1 trivial, grammars,
    forms _ _ (visited 3).2.1 (visited 97).2.2 (by decide)⟩

end Railroad
