import Railroad.Proofs.Parser.Errors
import Railroad.Proofs.SameSymbol

/-!
Everything that is built while a text is read is well made, also where the text is refused later.

* `Parser.parts`: all that a parser has built so far, each part with the number of brackets that are
  open around it. `Grammar.Builds`: the parts of all parsers that reading a text comes through
  (`Grammar.result_parse_eq`: it goes on from there), and in the end the grammar.
* `Node.StandsUnder`: a node may stand inside so many brackets and can be read again.
  `Node.StandsUnder.inner`: then so may everything inside it.
* `Parser.standsUnder_parts`: the parts of a parser may stand where they do, since the parser fits
  and holds no other tokens than those it has taken.
* `Grammar.Builds.wellMade_of_encloses`: no part that is built is empty, none is inside too many
  brackets, and the text of each reads as the part.
-/

namespace Railroad

open Token (Kind)

/-! ### What is built -/

/-- The complete parts of an expression that is being read. -/
def Draft.parts (d : Draft) : List Node :=
  d.terms.map .term ++ d.factors.map .factor

/-- The last term and the expression as they stand: they are complete as soon as a token comes that
begins no factor. There is none yet where a factor has to come. -/
def Draft.standing (d : Draft) : List Node :=
  if d.factors.isEmpty then [] else [.term d.lastTerm, .expression d.expression]

/-- The complete parts around open brackets, each with the number of brackets around it. -/
def OpenBracket.parts : List OpenBracket → List (Nat × Node)
  | [] => []
  | o :: outer => o.around.parts.map (outer.length, ·) ++ parts outer

def Body.parts (b : Body) : List (Nat × Node) :=
  (0, .identifier b.name) :: OpenBracket.parts b.brackets ++
    (b.draft.parts ++ b.draft.standing).map (b.brackets.length, ·)

/-- What is built of the production that the parser is in the middle of. -/
def Phase.parts : Phase → List (Nat × Node)
  | .betweenProductions => []
  | .afterName _ name => [(0, .identifier name)]
  | .inBody body | .afterOpeningQuote body _ _ => body.parts
  | .afterLiteral body _ l => (body.brackets.length, .literal l) :: body.parts

/-- All that the parser has built, each part with the number of brackets that are open around it. -/
def Parser.parts (p : Parser) : List (Nat × Node) :=
  p.productions.map (0, .production ·) ++ p.phase.parts

namespace Grammar

/-- Reading the text comes through this parser: it has taken some first tokens of the text. -/
def ComesThrough (text : String) (n : Nat) (p : Parser) : Prop :=
  ∃ taken rest, (Scanner.ofString text).tokens.1 = taken ++ rest ∧
    (Parser.start n).steps (taken.map (·.kind)) = .ok p

/-- While the text is read, this part is built, with so many brackets open around it. -/
inductive Builds (text : String) (n : Nat) : Nat → Node → Prop where
  | onTheWay {p : Parser} {m : Nat} {part : Node} :
      ComesThrough text n p → (m, part) ∈ p.parts → Builds text n m part
  | inTheEnd {parsed : Parsed} :
      (parse text n).result = .ok parsed → Builds text n 0 (.grammar parsed.grammar)

end Grammar

/-- The node is the other or is inside it, with so many brackets of the other around it. -/
inductive Node.Encloses : Node → Nat → Node → Prop where
  | self {node : Node} : Encloses node 0 node
  | child {node child inner : Node} {m : Nat} :
      child ∈ node.children → Encloses child m inner →
      Encloses node (node.isBracketed.toNat + m) inner

/-- Names are made of letters, literals hold no quotation mark and no space, and nothing is empty
but the grammar. -/
def Node.WellMade : Node → Prop
  | .identifier name => name.text.toList ≠ [] ∧ ∀ c ∈ name.text.toList, Text.isAlphabetic c = true
  | .literal l => l.text.toList ≠ [] ∧ ∀ c ∈ l.text.toList, isQuote c = false ∧ c ≠ ' '
  | .term t => t.factors ≠ []
  | .expression e => e.terms ≠ []
  | .grammar _ | .production _ | .factor _ => True

/-! ### Nodes inside brackets -/

namespace Node

/-- The node may stand inside `m` brackets, and its tokens can be read. -/
structure StandsUnder (m : Nat) (node : Node) : Prop where
  room : m ≤ maxNesting
  fits : node.Fits (maxNesting - m)
  readable : ∀ k ∈ node.kinds, k.Readable

variable {m : Nat} {node : Node}

theorem StandsUnder.child (h : node.StandsUnder m) {child : Node} (hchild : child ∈ node.children) :
    child.StandsUnder (m + node.isBracketed.toNat) := by
  obtain ⟨bracket, fits⟩ := h.fits.child child hchild
  have room := h.room
  refine ⟨by omega, ?_, fun k hk => h.readable k (kinds_subset_of_mem_children hchild hk)⟩
  rwa [Nat.sub_sub] at fits

/-- **Everything inside** may stand inside the brackets that are around it. -/
theorem StandsUnder.inner {inside : Nat} {inner : Node} (encloses : node.Encloses inside inner)
    (h : node.StandsUnder m) : inner.StandsUnder (m + inside) := by
  induction encloses generalizing m with
  | self => exact h
  | child hchild _ ih =>
    rw [← Nat.add_assoc]
    exact ih (h.child hchild)

theorem StandsUnder.wellMade (h : node.StandsUnder m) : node.WellMade := by
  cases node with
  | grammar g => trivial
  | production p => trivial
  | expression e => exact (Expression.fits_iff.mp h.fits).1
  | term t => exact (Term.fits_iff.mp h.fits).1
  | factor f => trivial
  | identifier name => exact h.readable _ (List.mem_singleton_self _)
  | literal l => exact h.readable (.literal l.text) (by simp [kinds])

end Node

/-! ### The parts of a parser -/

section Parts

variable {m : Nat}

theorem Draft.standsUnder_parts {d : Draft} (room : m ≤ maxNesting) (fits : d.Fits (maxNesting - m))
    (readable : ∀ k ∈ d.kinds, k.Readable) : ∀ part ∈ d.parts, part.StandsUnder m := by
  simp only [parts, List.forall_mem_append, List.forall_mem_map]
  constructor
  · intro t ht
    refine ⟨room, fits.terms t ht, fun k hk => readable k (List.mem_append_left _ ?_)⟩
    exact List.mem_flatMap.mpr ⟨t, List.mem_reverse.mpr ht, List.mem_append_left _ hk⟩
  · intro f hf
    refine ⟨room, fits.factors f hf, fun k hk => readable k (List.mem_append_right _ ?_)⟩
    exact List.mem_flatMap.mpr ⟨f, List.mem_reverse.mpr hf, hk⟩

theorem Draft.standsUnder_standing {d : Draft} (room : m ≤ maxNesting)
    (fits : d.Fits (maxNesting - m)) (readable : ∀ k ∈ d.kinds, k.Readable) :
    ∀ part ∈ d.standing, part.StandsUnder m := by
  unfold standing
  split
  · simp
  rename_i begun
  have begun : d.factors ≠ [] := by simpa using begun
  have whole : (Node.expression d.expression).StandsUnder m :=
    ⟨room, fits.expression begun, fun k hk => readable k (d.kinds_expression ▸ hk)⟩
  have last : (Node.term d.lastTerm).StandsUnder m :=
    whole.child (List.mem_map_of_mem (by simp [expression]))
  simp only [List.forall_mem_cons, List.not_mem_nil, false_imp_iff, implies_true, and_true]
  exact ⟨last, whole⟩

theorem OpenBracket.standsUnder_parts {brackets : List OpenBracket} (fits : AllFit brackets)
    (readable : ∀ o ∈ brackets, ∀ k ∈ o.kinds, k.Readable) :
    ∀ part ∈ parts brackets, part.2.StandsUnder part.1 := by
  induction brackets with
  | nil => simp [parts]
  | cons o outer ih =>
    obtain ⟨room, around, outerFit⟩ := fits
    obtain ⟨here, others⟩ := List.forall_mem_cons.mp readable
    simp only [parts, List.forall_mem_append, List.forall_mem_map]
    refine ⟨Draft.standsUnder_parts (Nat.le_of_lt room) around fun k hk => ?_, ih outerFit others⟩
    exact here k (List.mem_append_left _ hk)

theorem Body.standsUnder_parts {b : Body} (fits : b.Fits) (readable : ∀ k ∈ b.kinds, k.Readable) :
    ∀ part ∈ b.parts, part.2.StandsUnder part.1 := by
  simp only [kinds, List.forall_mem_cons, List.forall_mem_append, List.forall_mem_flatMap,
    List.mem_reverse] at readable
  obtain ⟨name, -, brackets, draft⟩ := readable
  have room := fits.brackets.length_le
  simp only [parts, List.cons_append, List.forall_mem_cons, List.forall_mem_append,
    List.forall_mem_map]
  refine ⟨⟨Nat.zero_le _, trivial, by simpa [Node.kinds] using name⟩,
    OpenBracket.standsUnder_parts fits.brackets brackets, ?_, ?_⟩
  · exact Draft.standsUnder_parts room fits.draft draft
  · exact Draft.standsUnder_standing room fits.draft draft

theorem Phase.standsUnder_parts {phase : Phase} (fits : phase.Fits)
    (readable : ∀ k ∈ phase.kinds, k.Readable) :
    ∀ part ∈ phase.parts, part.2.StandsUnder part.1 := by
  cases phase with
  | betweenProductions => simp [parts]
  | afterName id name =>
    rw [parts, List.forall_mem_singleton]
    exact ⟨Nat.zero_le _, trivial, readable⟩
  | inBody b => exact Body.standsUnder_parts fits readable
  | afterOpeningQuote b id literalId =>
    exact Body.standsUnder_parts fits (List.forall_mem_append.mp readable).1
  | afterLiteral b id l =>
    obtain ⟨body, literal⟩ := List.forall_mem_append.mp readable
    have fits : b.Fits := fits
    rw [parts, List.forall_mem_cons]
    refine ⟨⟨fits.brackets.length_le, trivial, ?_⟩, Body.standsUnder_parts fits body⟩
    simpa [Node.kinds, Kind.Readable] using literal

/-- **The parts of a parser** may stand where they do. -/
theorem Parser.standsUnder_parts {p : Parser} (fits : p.Fits)
    (readable : ∀ k ∈ p.kinds, k.Readable) : ∀ part ∈ p.parts, part.2.StandsUnder part.1 := by
  obtain ⟨productions, phase⟩ := List.forall_mem_append.mp readable
  simp only [parts, List.forall_mem_append, List.forall_mem_map]
  refine ⟨fun q hq => ⟨Nat.zero_le _, fits.productions q hq, fun k hk => ?_⟩,
    Phase.standsUnder_parts fits.phase phase⟩
  exact productions k (List.mem_flatMap.mpr ⟨q, List.mem_reverse.mpr hq, hk⟩)

end Parts

/-! ### Reading a text -/

/-- A run goes on from wherever the parser has come to. -/
theorem Parser.result_run_append {p q : Parser} {taken rest : List Token}
    {ending : Scanner.Ending} (h : p.steps (taken.map (·.kind)) = .ok q) :
    (p.run (taken ++ rest) ending).result = (q.run rest ending).result := by
  induction taken generalizing p with
  | nil =>
    cases h
    rfl
  | cons token others ih =>
    obtain ⟨r, first, later⟩ := exists_takes_of_steps_cons h
    rw [List.cons_append, run, step_eq_ok_iff.mpr first, ← ih later]
    rfl

namespace Grammar

variable {text : String} {n m : Nat} {part : Node}

/-- The text is read on from each parser that reading it comes through. -/
theorem result_parse_eq {p : Parser} {taken rest : List Token}
    (tokens : (Scanner.ofString text).tokens.1 = taken ++ rest)
    (steps : (Parser.start n).steps (taken.map (·.kind)) = .ok p) :
    (parse text n).result = (p.run rest (Scanner.ofString text).tokens.2).result := by
  show ((Parser.start n).run (Scanner.ofString text).tokens.1 _).result = _
  rw [tokens, Parser.result_run_append steps]

/-- Reading a text comes through parsers that fit and hold tokens of the text only. -/
theorem ComesThrough.sound {p : Parser} (h : ComesThrough text n p) :
    p.Fits ∧ ∀ k ∈ p.kinds, k.Readable := by
  obtain ⟨taken, rest, tokens, steps⟩ := h
  obtain ⟨fits, kinds⟩ := Parser.steps_sound (Parser.fits_start n) steps
  refine ⟨fits, fun k hk => ?_⟩
  rw [kinds, Parser.kinds_start, List.nil_append] at hk
  obtain ⟨token, htoken, rfl⟩ := List.mem_map.mp hk
  exact Scanner.readable_of_mem_tokens (tokens ▸ List.mem_append_left rest htoken)

theorem Builds.standsUnder (built : Builds text n m part) : part.StandsUnder m := by
  cases built with
  | onTheWay through hpart =>
    obtain ⟨fits, readable⟩ := through.sound
    exact Parser.standsUnder_parts fits readable _ hpart
  | inTheEnd read =>
    obtain ⟨kinds, reading, tree, -⟩ := parse_eq_ok_iff_reading.mp read
    exact ⟨Nat.zero_le _, tree.fits, tree.readable reading⟩

/-- **All that is built is well made**, also where the text is refused later: in each part that is
built while a text is read, every name is made of letters and not empty, every literal is not empty
and holds no quotation mark and no space, every term has a factor and every expression a term.
Nothing is inside more than `maxNesting` brackets. And the text of each node reads as the node. -/
theorem Builds.wellMade_of_encloses (built : Builds text n m part) {inside : Nat} {node : Node}
    (encloses : part.Encloses inside node) :
    node.WellMade ∧ m + inside ≤ maxNesting ∧
      (Scanner.ofString node.text).reading = ⟨node.kinds, .complete⟩ := by
  have stands := built.standsUnder.inner encloses
  exact ⟨stands.wellMade, stands.room, (Node.readsAs stands.readable).reading_eq⟩

set_option maxRecDepth 4000 in
/-- The brackets are not closed as they were opened, so the text is refused. The literal that was
built before is well made all the same: its space is made visible, and its text reads as itself. -/
theorem Builds.wellMade_of_encloses_refused :
    let text := "A = \x7bb \u201cc d\u201d | e]"
    let l : Literal := ⟨12, "c\u2423d"⟩
    let t : Term := ⟨8, [.identifier 9 ⟨10, "b"⟩, .literal 11 l]⟩
    (parse text 0).result =
        .error (.unexpected (.closing .repetition) ⟨.closing .option, ⟨1, 17⟩⟩) ∧
      Builds text 0 1 (.term t) ∧ (Node.term t).Encloses 0 (.literal l) ∧
      (Node.literal l).WellMade ∧ 1 + 0 ≤ maxNesting ∧
        (Scanner.ofString (Node.literal l).text).reading = ⟨(Node.literal l).kinds, .complete⟩ := by
  have scanned : (Scanner.ofString "A = \x7bb \u201cc d\u201d | e]").tokens.1 =
      [⟨.identifier "A", ⟨1, 1⟩⟩, ⟨.equals, ⟨1, 3⟩⟩, ⟨.opening .repetition, ⟨1, 5⟩⟩,
        ⟨.identifier "b", ⟨1, 6⟩⟩, ⟨.quote, ⟨1, 8⟩⟩, ⟨.literal "c\u2423d", ⟨1, 9⟩⟩,
        ⟨.quote, ⟨1, 12⟩⟩, ⟨.bar, ⟨1, 14⟩⟩, ⟨.identifier "e", ⟨1, 16⟩⟩] ++
          [⟨.closing .option, ⟨1, 17⟩⟩] := by cbv
  intro text l t
  have refused : (parse text 0).result =
      .error (.unexpected (.closing .repetition) ⟨.closing .option, ⟨1, 17⟩⟩) := by
    rw [result_parse_eq scanned rfl]
    rfl
  have through : ComesThrough text 0 ⟨1, [], 15, .inBody
      ⟨2, ⟨3, "A"⟩, [⟨6, .repetition, Draft.start 4 5⟩],
        ⟨7, [t], 13, [.identifier 14 ⟨15, "e"⟩]⟩⟩⟩ := ⟨_, _, scanned, rfl⟩
  have built : Builds text 0 1 (.term t) :=
    .onTheWay through (by simp [Parser.parts, Phase.parts, Body.parts, Draft.parts])
  have factor : .factor (.literal 11 l) ∈ (Node.term t).children := by simp [Node.children, t]
  have encloses : (Node.term t).Encloses 0 (.literal l) :=
    .child factor (.child (List.mem_singleton_self _) .self)
  exact ⟨refused, built, encloses, built.wellMade_of_encloses encloses⟩

end Grammar

end Railroad
