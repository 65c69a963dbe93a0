import Railroad.Proofs.Parser.Soundness

/-!
The parser accepts exactly its notation.

* `Grammar.parse_eq_ok_iff`: reading a text gives a grammar exactly if the text is read to its end
  and its tokens are those of a tree that fits; the grammar is that tree, with ids given out in
  order.
* `Grammar.number_eq_of_kinds_eq`: a list of tokens that the parser accepts is that of one tree
  only, however many brackets other trees may nest (`Parser.limits`). So it is for the parts of a
  grammar (`Expression.number_eq_of_kinds_eq` and so on).
* `Grammar.ofString?_accepts_iff_derives`: the parser against the rules of the notation.
-/

namespace Railroad

open Token (Kind)

namespace Parser

/-! ### Whole texts -/

/-- A run is as many steps as there are tokens, if the ending is the end of the input. -/
theorem run_eq_ok_iff {p : Parser} {tokens : List Token} {ending : Scanner.Ending}
    {parsed : Parsed} :
    (p.run tokens ending).result = .ok parsed ↔
      ∃ q last, p.steps (tokens.map (·.kind)) = .ok q ∧ ending = .ok last ∧
        q.finish = .ok parsed.grammar ∧ q.issued = parsed.issued := by
  induction tokens generalizing p with
  | nil =>
    cases ending with
    | error e => simp [run, Traced.ofExcept]
    | ok last =>
      simp only [run, List.map_nil, steps_nil]
      cases finished : p.finish with
      | error expected => simp [Traced.ofExcept, finished]
      | ok g =>
        constructor
        · intro h
          cases h
          exact ⟨p, last, rfl, rfl, finished, rfl⟩
        · rintro ⟨q, _, ⟨⟩, ⟨⟩, same, issued⟩
          rw [finished] at same
          cases same
          simp [issued]
  | cons token rest ih =>
    simp only [run, Traced.result_bind, List.map_cons]
    cases first : p.step token.kind with
    | error expected =>
      simp [Traced.emit, Traced.ofExcept, steps, first, bind, Except.bind]
    | ok q =>
      rw [steps_cons_of_ok first]
      simpa [Traced.emit, bind, Except.bind] using ih

end Parser

/-- The grammar is the tree of the token kinds, with the ids that follow `n` given out in order. -/
structure Grammar.TreeOf (kinds : List Kind) (n : Nat) (g : Grammar) : Prop where
  fits : g.Fits maxNesting
  kinds : g.kinds = kinds
  numbered : g.number n = g

/-- A tree that fits becomes that of its token kinds when its ids are given out. -/
theorem Grammar.Fits.treeOf {h : Grammar} (fits : h.Fits maxNesting) (n : Nat) :
    Grammar.TreeOf h.kinds n (h.number n) :=
  ⟨fits.number n, h.kinds_number n, h.number_number n n⟩

/-- **Reading a text.** The grammar is the tree of the tokens of the text. -/
theorem Grammar.parse_eq_ok_iff {text : String} {n : Nat} {parsed : Parsed} :
    (parse text n).result = .ok parsed ↔
      ∃ tokens last, (Scanner.ofString text).tokens = (tokens, .ok last) ∧
        parsed.grammar.TreeOf (tokens.map (·.kind)) n ∧
        parsed.issued = n + parsed.grammar.size := by
  -- The only state to which the tokens of a tree lead, as it finishes.
  have finish : ∀ h : Grammar, Parser.finish ⟨n + 1, (h.number n).productions.reverse, n + h.size,
      .betweenProductions⟩ = .ok (h.number n) := by
    intro h
    simp [Parser.finish, number]
  rcases scanned : (Scanner.ofString text).tokens with ⟨tokens, ending⟩
  simp only [parse, scanned, Parser.run_eq_ok_iff]
  constructor
  · rintro ⟨q, last, steps, rfl, finished, issued⟩
    obtain ⟨qFits, qKinds⟩ := Parser.steps_sound (Parser.fits_start n) steps
    obtain ⟨fits, kinds⟩ := Parser.finish_sound qFits finished
    rw [qKinds, Parser.kinds_start, List.nil_append] at kinds
    have same := Parser.steps_grammar fits n
    rw [kinds, steps] at same
    cases same
    rw [finish, Except.ok.injEq] at finished
    exact ⟨tokens, last, rfl, ⟨fits, kinds, finished⟩, issued.symm⟩
  · rintro ⟨_, last, ⟨⟩, ⟨fits, kinds, numbered⟩, issued⟩
    have finished := finish parsed.grammar
    refine ⟨_, last, ?_, rfl, finished.trans (by rw [numbered]), issued.symm⟩
    rw [← kinds]
    exact Parser.steps_grammar fits n

/-- Reading a text whose ids start at 1. -/
theorem Grammar.ofString?_eq_ok_iff {text : String} {g : Grammar} :
    Grammar.ofString? text = .ok g ↔
      ∃ tokens last, (Scanner.ofString text).tokens = (tokens, .ok last) ∧
        g.TreeOf (tokens.map (·.kind)) 0 := by
  constructor
  · intro read
    cases result : (parse text 0).result with
    | error e => simp [ofString?, result, Except.map] at read
    | ok parsed =>
      simp only [ofString?, result, Except.map, Except.ok.injEq] at read
      obtain ⟨tokens, last, scanned, tree, -⟩ := parse_eq_ok_iff.mp result
      exact ⟨tokens, last, scanned, read ▸ tree⟩
  · rintro ⟨tokens, last, scanned, tree⟩
    have result : (parse text 0).result = .ok ⟨g, 0 + g.size⟩ :=
      parse_eq_ok_iff.mpr ⟨tokens, last, scanned, tree, rfl⟩
    simp [ofString?, result, Except.map]

/-! ### The limit on open brackets -/

namespace Parser

/-- The parser comes through a part that fits at any depth only if the part fits below the brackets
that are open. `fits` says how deep the part is, `kinds` what it reads as. -/
def Limits (kinds : List Kind) (fits : Nat → Prop) : Prop :=
  ∀ (g : NodeId) (ps : List Production) (n : Nat) (b : Body) (q : Parser) (m : Nat),
    (⟨g, ps, n, .inBody b⟩ : Parser).steps kinds = .ok q → b.brackets.length ≤ maxNesting →
    fits m → fits (maxNesting - b.brackets.length)

theorem limits_factors {factors : List Factor}
    (h : ∀ f ∈ factors, Limits f.kinds fun n => f.Fits n) :
    Limits (factors.flatMap Factor.kinds) fun n => ∀ f ∈ factors, f.Fits n := by
  induction factors with
  | nil => simp [Limits]
  | cons f rest ih =>
    intro g ps n b q m steps nested fits
    obtain ⟨hf, hrest⟩ := List.forall_mem_cons.mp h
    obtain ⟨fitsF, fitsRest⟩ := List.forall_mem_cons.mp fits
    rw [List.flatMap_cons] at steps
    obtain ⟨r, first, others⟩ := exists_steps_of_steps_append steps
    have here := hf g ps n b r m first nested fitsF
    rw [follows.2.2 f g ps n b here] at first
    cases first
    have there := ih hrest _ _ _ _ q m others nested fitsRest
    exact List.forall_mem_cons.mpr ⟨here, there⟩

theorem limits_terms {terms : List Term} (h : ∀ t ∈ terms, Limits t.kinds fun n => t.Fits n) :
    Limits (terms.flatMap fun t => .bar :: t.kinds) fun n => ∀ t ∈ terms, t.Fits n := by
  induction terms with
  | nil => simp [Limits]
  | cons t rest ih =>
    intro g ps n b q m steps nested fits
    obtain ⟨ht, hrest⟩ := List.forall_mem_cons.mp h
    obtain ⟨fitsT, fitsRest⟩ := List.forall_mem_cons.mp fits
    rw [List.flatMap_cons, List.cons_append] at steps
    obtain ⟨r, ⟨⟩, others⟩ := exists_takes_of_steps_cons steps
    obtain ⟨s, first, others⟩ := exists_steps_of_steps_append others
    have here := ht g ps (n + 1) (b.withDraft (b.draft.addTerm (n + 1))) s m first nested fitsT
    have state := follows.2.1 t g ps (n + 1) (b.withDraft (b.draft.addTerm (n + 1))) here
    cases state.symm.trans first
    have there := ih hrest _ _ _ _ q m others nested fitsRest
    exact List.forall_mem_cons.mpr ⟨here, there⟩

theorem limits : (∀ e : Expression, Limits e.kinds fun n => e.Fits n) ∧
    (∀ t : Term, Limits t.kinds fun n => t.Fits n) ∧
    ∀ f : Factor, Limits f.kinds fun n => f.Fits n :=
  Parts.induction
    { expression := by
        intro e ih g ps n b q m steps nested fits
        obtain ⟨inhabited, fits⟩ := Expression.fits_iff.mp fits
        obtain ⟨id, _ | ⟨t, rest⟩⟩ := e
        · exact absurd rfl inhabited
        obtain ⟨ht, hrest⟩ := List.forall_mem_cons.mp ih
        obtain ⟨fitsT, fitsRest⟩ := List.forall_mem_cons.mp fits
        rw [Expression.kinds_eq, List.map_cons, intercalate_cons_eq, List.flatMap_map] at steps
        obtain ⟨r, first, others⟩ := exists_steps_of_steps_append steps
        have here := ht g ps n b r m first nested fitsT
        cases (follows.2.1 t g ps n b here).symm.trans first
        have there := limits_terms hrest _ _ _ _ q m others nested fitsRest
        exact Expression.fits_iff.mpr ⟨by simp, List.forall_mem_cons.mpr ⟨here, there⟩⟩
      term := by
        intro t ih g ps n b q m steps nested fits
        obtain ⟨inhabited, fits⟩ := Term.fits_iff.mp fits
        rw [Term.kinds_eq_flatMap] at steps
        exact Term.fits_iff.mpr ⟨inhabited, limits_factors ih g ps n b q m steps nested fits⟩
      identifier := fun _ _ _ _ _ _ _ _ _ _ _ => .identifier
      literal := fun _ _ _ _ _ _ _ _ _ _ _ => .literal
      bracketed := by
        intro id bracket body ih g ps n b q m steps nested fits
        obtain _ | m := m
        · exact absurd fits Factor.not_fits_zero
        obtain ⟨r, opened, others⟩ := exists_takes_of_steps_cons steps
        obtain ⟨_, room⟩ := opened
        obtain ⟨s, inside, -⟩ := exists_steps_of_steps_append others
        have room : b.brackets.length + 1 ≤ maxNesting := by omega
        have bodyFits := ih _ _ _ _ s m inside room (Factor.fits_bracketed.mp fits)
        have depth : maxNesting - b.brackets.length =
            maxNesting - (b.brackets.length + 1) + 1 := by omega
        rw [depth]
        exact .bracketed bodyFits }

theorem fits_of_steps_productions {g : NodeId} {ps : List Production} {n m : Nat} {q : Parser}
    {productions : List Production} (fits : ∀ p ∈ productions, p.body.Fits m)
    (steps : (⟨g, ps, n, .betweenProductions⟩ : Parser).steps
      (productions.flatMap Production.kinds) = .ok q) :
    ∀ p ∈ productions, p.body.Fits maxNesting := by
  induction productions generalizing ps n with
  | nil => simp
  | cons p rest ih =>
    obtain ⟨fitsP, fitsRest⟩ := List.forall_mem_cons.mp fits
    rw [List.flatMap_cons] at steps
    obtain ⟨r, first, others⟩ := exists_steps_of_steps_append steps
    have here : p.body.Fits maxNesting := by
      have spelled : p.kinds = .identifier p.name.text :: .equals :: p.body.kinds ++ [.period] := by
        simp [Production.kinds]
      rw [spelled] at first
      obtain ⟨s, inside, -⟩ := exists_steps_of_steps_append first
      exact limits.1 p.body g ps (n + 4) _ s m inside (Nat.zero_le _) fitsP
    have one : ∀ q ∈ [p], q.body.Fits maxNesting := by simpa using here
    rw [← List.flatMap_singleton Production.kinds p] at first
    cases (steps_productions one).symm.trans first
    exact List.forall_mem_cons.mpr ⟨here, ih fitsRest others⟩

end Parser

/-- **One tree only.** A tree that reads as a tree does which the parser builds is the same but for
its ids, whatever its depth. -/
theorem Grammar.number_eq_of_kinds_eq {g h : Grammar} {m : Nat} (gFits : g.Fits maxNesting)
    (hFits : h.Fits m) (same : h.kinds = g.kinds) (n : Nat) : h.number n = g.number n := by
  have ofG := Parser.steps_grammar gFits n
  have hFits : h.Fits maxNesting := by
    rw [← same, Grammar.kinds, Parser.start] at ofG
    exact Parser.fits_of_steps_productions hFits ofG
  have ofH := Parser.steps_grammar hFits n
  rw [same, ofG, Except.ok.injEq, Parser.mk.injEq] at ofH
  obtain ⟨-, productions, -, -⟩ := ofH
  simp only [Grammar.number, List.reverse_inj] at productions ⊢
  rw [productions]

/- A smaller part is put into a grammar in which there is nothing else. -/

theorem Production.number_eq_of_kinds_eq {p q : Production} (pFits : p.body.Fits maxNesting)
    (qFits : q.body.Fits maxNesting) (same : p.kinds = q.kinds) (n : Nat) :
    p.number n = q.number n := by
  have whole : Grammar.number 0 ⟨0, [p]⟩ = Grammar.number 0 ⟨0, [q]⟩ :=
    Grammar.number_eq_of_kinds_eq (by simpa [Grammar.Fits] using qFits)
      (by simpa [Grammar.Fits] using pFits) (by simpa [Grammar.kinds] using same) 0
  have numbered : p.number 1 = q.number 1 := by
    simpa [Grammar.number, Production.numberAll] using whole
  rw [← p.number_number 1 n, numbered, q.number_number 1 n]

theorem Expression.number_eq_of_kinds_eq {d e : Expression} (dFits : d.Fits maxNesting)
    (eFits : e.Fits maxNesting) (same : d.kinds = e.kinds) (n : Nat) :
    d.number n = e.number n := by
  have whole : Production.number 0 ⟨0, ⟨0, "a"⟩, d⟩ = Production.number 0 ⟨0, ⟨0, "a"⟩, e⟩ :=
    Production.number_eq_of_kinds_eq dFits eFits (by simpa [Production.kinds] using same) 0
  have numbered : d.number 2 = e.number 2 := by simpa [Production.number] using whole
  rw [← d.number_number 2 n, numbered, e.number_number 2 n]

theorem Term.number_eq_of_kinds_eq {t u : Term} (tFits : t.Fits maxNesting)
    (uFits : u.Fits maxNesting) (same : t.kinds = u.kinds) (n : Nat) :
    t.number n = u.number n := by
  have whole : Expression.number 0 ⟨0, [t]⟩ = Expression.number 0 ⟨0, [u]⟩ :=
    Expression.number_eq_of_kinds_eq (Expression.fits_iff.mpr (by simpa using tFits))
      (Expression.fits_iff.mpr (by simpa using uFits)) (by simpa [Expression.kinds_eq] using same) 0
  have numbered : t.number 1 = u.number 1 := by
    simpa [Expression.number, Term.numberAll] using whole
  rw [← t.number_number 1 n, numbered, u.number_number 1 n]

theorem Factor.number_eq_of_kinds_eq {a b : Factor} (aFits : a.Fits maxNesting)
    (bFits : b.Fits maxNesting) (same : a.kinds = b.kinds) (n : Nat) :
    a.number n = b.number n := by
  have whole : Term.number 0 ⟨0, [a]⟩ = Term.number 0 ⟨0, [b]⟩ :=
    Term.number_eq_of_kinds_eq (Term.fits_iff.mpr (by simpa using aFits))
      (Term.fits_iff.mpr (by simpa using bFits)) (by simpa [Term.kinds_eq_flatMap] using same) 0
  have numbered : a.number 1 = b.number 1 := by
    simpa [Term.number, Factor.numberAll] using whole
  rw [← a.number_number 1 n, numbered, b.number_number 1 n]

/-- **The parser accepts exactly its notation.** A text is read if and only if it is scanned to its
end and the rules derive its tokens with at most `maxNesting` brackets open inside one another. The
tree then has those tokens as its leaves, and any tree with these leaves becomes it when its ids
are given out from 1 on. -/
theorem Grammar.ofString?_accepts_iff_derives (text : String) :
    ((∃ g, Grammar.ofString? text = .ok g) ↔
      ∃ tokens last, (Scanner.ofString text).tokens = (tokens, .ok last) ∧
        Rule.grammar.Derives maxNesting (tokens.map (·.kind))) ∧
    ∀ g, Grammar.ofString? text = .ok g →
      ∃ tokens last, (Scanner.ofString text).tokens = (tokens, .ok last) ∧
        g.kinds = tokens.map (·.kind) ∧ g.Fits maxNesting ∧
        ∀ (h : Grammar) (m : Nat), h.Fits m → h.kinds = tokens.map (·.kind) → h.number 0 = g := by
  constructor
  · constructor
    · rintro ⟨g, read⟩
      obtain ⟨tokens, last, scanned, tree⟩ := ofString?_eq_ok_iff.mp read
      exact ⟨tokens, last, scanned, Rule.derives_grammar_iff.mpr ⟨g, tree.fits, tree.kinds⟩⟩
    · rintro ⟨tokens, last, scanned, derived⟩
      obtain ⟨h, fits, kinds⟩ := Rule.derives_grammar_iff.mp derived
      exact ⟨h.number 0, ofString?_eq_ok_iff.mpr ⟨tokens, last, scanned, kinds ▸ fits.treeOf 0⟩⟩
  · intro g read
    obtain ⟨tokens, last, scanned, tree⟩ := ofString?_eq_ok_iff.mp read
    refine ⟨tokens, last, scanned, tree.kinds, tree.fits, ?_⟩
    intro h m fits kinds
    exact (number_eq_of_kinds_eq tree.fits fits (kinds.trans tree.kinds.symm) 0).trans tree.numbered

/-- Nested brackets, a choice and typographic quotation marks. -/
theorem Grammar.ofString?_accepts_iff_derives_nested :
    let g : Grammar := ⟨1, [⟨2, ⟨3, "A"⟩, ⟨4, [⟨5, [.identifier 6 ⟨7, "b"⟩, .bracketed 8 .option
      ⟨9, [⟨10, [.literal 11 ⟨12, "c"⟩]⟩, ⟨13, [.bracketed 14 .group
        ⟨15, [⟨16, [.identifier 17 ⟨18, "A"⟩]⟩]⟩]⟩]⟩]⟩]⟩⟩]⟩
    let text := "A = b [\u201cc\u201d | (A)] ."
    Grammar.ofString? text = .ok g ∧
      ∃ tokens last, (Scanner.ofString text).tokens = (tokens, .ok last) ∧
        g.kinds = tokens.map (·.kind) ∧ g.Fits maxNesting ∧
        ∀ (h : Grammar) (m : Nat), h.Fits m → h.kinds = tokens.map (·.kind) → h.number 0 = g := by
  have read : Grammar.ofString? "A = b [\u201cc\u201d | (A)] ." =
      .ok ⟨1, [⟨2, ⟨3, "A"⟩, ⟨4, [⟨5, [.identifier 6 ⟨7, "b"⟩, .bracketed 8 .option
        ⟨9, [⟨10, [.literal 11 ⟨12, "c"⟩]⟩, ⟨13, [.bracketed 14 .group
          ⟨15, [⟨16, [.identifier 17 ⟨18, "A"⟩]⟩]⟩]⟩]⟩]⟩]⟩⟩]⟩ := by
    cbv
  exact ⟨read, (ofString?_accepts_iff_derives _).2 _ read⟩

end Railroad
