import Railroad.Proofs.Parser.Correctness
import Railroad.Proofs.Reading

/-!
A parse error is at the first token that no grammar goes on with.

* `Rule.Viable`: the tokens begin those of some grammar.
* `Parser.viable_iff`: the parser takes the tokens that are viable and no others. It never takes a
  token too many, since from wherever it is a few tokens more complete the production
  (`Parser.exists_steps_to_end`).
* `Offends`: a token, or the end of the input, that the tokens before it cannot be followed by.
* `Grammar.ofString?_error_iff`: a text is refused at the token that offends, and for the error of
  the scanner only if no token before that error offends. What is reported is that token, or that
  error, with its place.
-/

namespace Railroad

open Token (Kind)

/-! ### Viable tokens -/

/-- Some more tokens make these the tokens of a grammar, with at most `n` brackets open inside one
another. -/
def Rule.Viable (n : Nat) (kinds : List Kind) : Prop :=
  ∃ rest, Rule.grammar.Derives n (kinds ++ rest)

namespace Parser

/-- The parser is not in the middle of a production. -/
def AtEnd (p : Parser) : Prop :=
  p.phase = .betweenProductions

/-- Some more tokens lead the parser to the end of a production. -/
def CanEnd (p : Parser) : Prop :=
  ∃ kinds q, p.steps kinds = .ok q ∧ q.AtEnd

theorem CanEnd.of_takes {p q : Parser} {kind : Kind} (first : p.Takes kind q) (h : q.CanEnd) :
    p.CanEnd := by
  obtain ⟨kinds, r, steps, ended⟩ := h
  exact ⟨kind :: kinds, r, by rwa [steps_cons_of_ok (step_eq_ok_iff.mpr first)], ended⟩

section InBody

variable {g : NodeId} {ps : List Production} {n : Nat}

/-- The open brackets are closed from the innermost on, and then the production is ended. -/
theorem canEnd_of_begun {id : NodeId} {name : Identifier} {brackets : List OpenBracket} {d : Draft}
    (begun : d.factors ≠ []) : (⟨g, ps, n, .inBody ⟨id, name, brackets, d⟩⟩ : Parser).CanEnd := by
  induction brackets generalizing d with
  | nil => exact .of_takes (.period begun) ⟨[], _, rfl, rfl⟩
  | cons inner outer ih =>
    refine .of_takes (.closing begun) (ih ?_)
    simp [Draft.addFactor]

/-- A factor that is still missing may be a name. -/
theorem canEnd_inBody (b : Body) : (⟨g, ps, n, .inBody b⟩ : Parser).CanEnd := by
  refine .of_takes (.identifier "a") (canEnd_of_begun ?_)
  simp [Draft.addFactor]

end InBody

/-- **Every parser can be led to the end of a production.** -/
theorem exists_steps_to_end (p : Parser) : p.CanEnd := by
  obtain ⟨g, ps, n, phase⟩ := p
  cases phase with
  | betweenProductions => exact ⟨[], _, rfl, rfl⟩
  | afterName id name => exact .of_takes .equals (canEnd_inBody _)
  | inBody body => exact canEnd_inBody body
  | afterOpeningQuote body id literalId =>
    exact .of_takes (.literal "a") (.of_takes .closingQuote (canEnd_inBody _))
  | afterLiteral body id literal => exact .of_takes .closingQuote (canEnd_inBody _)

theorem finish_eq_ok_iff {p : Parser} : (∃ g, p.finish = .ok g) ↔ p.AtEnd := by
  obtain ⟨g, ps, n, phase⟩ := p
  cases phase with
  | betweenProductions => exact ⟨fun _ => rfl, fun _ => ⟨_, rfl⟩⟩
  | _ => simp [finish, AtEnd]

/-- The rules derive the tokens that lead from the start to the end of a production. -/
theorem derives_iff (n : Nat) {kinds : List Kind} :
    Rule.grammar.Derives maxNesting kinds ↔ ∃ q, (start n).steps kinds = .ok q ∧ q.AtEnd := by
  rw [Rule.derives_grammar_iff]
  constructor
  · rintro ⟨h, fits, rfl⟩
    exact ⟨_, steps_grammar fits n, rfl⟩
  · rintro ⟨q, steps, ended⟩
    obtain ⟨qFits, qKinds⟩ := steps_sound (fits_start n) steps
    obtain ⟨h, finished⟩ := finish_eq_ok_iff.mpr ended
    obtain ⟨fits, kinds⟩ := finish_sound qFits finished
    exact ⟨h, fits, by rw [kinds, qKinds, kinds_start, List.nil_append]⟩

/-- **The parser takes exactly the tokens that are viable.** -/
theorem viable_iff (n : Nat) {kinds : List Kind} :
    Rule.Viable maxNesting kinds ↔ ∃ q, (start n).steps kinds = .ok q := by
  constructor
  · rintro ⟨rest, derived⟩
    obtain ⟨r, steps, -⟩ := (derives_iff n).mp derived
    obtain ⟨q, front, -⟩ := exists_steps_of_steps_append steps
    exact ⟨q, front⟩
  · rintro ⟨q, front⟩
    obtain ⟨rest, r, back, ended⟩ := exists_steps_to_end q
    refine ⟨rest, (derives_iff n).mpr ⟨r, ?_, ended⟩⟩
    rwa [steps_append_of_ok front]

/-! ### Runs that fail -/

/-- A run fails for the error of the scanner if the parser takes all tokens before it. -/
theorem run_eq_scan_error_iff {p : Parser} {tokens : List Token} {ending : Scanner.Ending}
    {e : ScanError} :
    (p.run tokens ending).result = .error (.scan e) ↔
      ending = .error e ∧ ∃ q, p.steps (tokens.map (·.kind)) = .ok q := by
  induction tokens generalizing p with
  | nil =>
    cases ending with
    | error e' => simp [run, Traced.ofExcept]
    | ok last => cases finished : p.finish <;> simp [run, Traced.ofExcept, finished]
  | cons token rest ih =>
    simp only [run, Traced.result_bind, List.map_cons]
    cases first : p.step token.kind with
    | error expected => simp [Traced.emit, Traced.ofExcept, steps, first, bind, Except.bind]
    | ok q =>
      rw [steps_cons_of_ok first]
      simpa [Traced.emit, bind, Except.bind] using ih

/-- A run fails at a token if the parser takes all tokens before it and then refuses it, or may not
finish where it stands for the end of the input. -/
theorem run_eq_unexpected_iff {p : Parser} {tokens : List Token} {ending : Scanner.Ending}
    {found : Token} :
    (∃ expected, (p.run tokens ending).result = .error (.unexpected expected found)) ↔
      (∃ before after q, tokens = before ++ found :: after ∧
        p.steps (before.map (·.kind)) = .ok q ∧ ¬ ∃ r, q.step found.kind = .ok r) ∨
      (ending = .ok found ∧ ∃ q, p.steps (tokens.map (·.kind)) = .ok q ∧ ¬ q.AtEnd) := by
  induction tokens generalizing p with
  | nil =>
    simp only [List.nil_eq, List.append_eq_nil_iff, reduceCtorEq, and_false, false_and,
      exists_false, false_or, List.map_nil, steps_nil, Except.ok.injEq, exists_eq_left',
      ← finish_eq_ok_iff]
    cases ending with
    | error e => simp [run, Traced.ofExcept]
    | ok last => cases finished : p.finish <;> simp [run, Traced.ofExcept, finished]
  | cons token rest ih =>
    simp only [run, Traced.result_bind, List.map_cons]
    cases first : p.step token.kind with
    | error expected =>
      have stuck : ∀ kinds q, p.steps (token.kind :: kinds) ≠ .ok q := by
        simp [steps, first, bind, Except.bind]
      constructor
      · rintro ⟨expected', same⟩
        obtain ⟨-, rfl⟩ : expected = expected' ∧ token = found := by
          simpa [Traced.emit, Traced.ofExcept, bind, Except.bind] using same
        exact .inl ⟨[], rest, p, rfl, rfl, by simp [first]⟩
      · rintro (⟨before, after, q, split, front, -⟩ | ⟨-, q, all, -⟩)
        · cases before with
          | nil =>
            cases split
            exact ⟨expected, by simp [Traced.emit, Traced.ofExcept, bind, Except.bind]⟩
          | cons b before =>
            cases split
            exact absurd front (stuck _ q)
        · exact absurd all (stuck _ q)
    | ok q =>
      rw [steps_cons_of_ok first]
      simp only [Traced.emit, bind, Except.bind, ih]
      refine or_congr_left ?_
      constructor
      · rintro ⟨before, after, r, rfl, front, refused⟩
        exact ⟨token :: before, after, r, rfl, by rwa [List.map_cons, steps_cons_of_ok first],
          refused⟩
      · rintro ⟨before, after, r, split, front, refused⟩
        cases before with
        | nil =>
          cases split
          cases front
          exact absurd ⟨q, first⟩ refused
        | cons b before =>
          cases split
          exact ⟨before, after, r, rfl, by rwa [List.map_cons, steps_cons_of_ok first] at front,
            refused⟩

end Parser

/-! ### Texts that are refused -/

/-- The tokens of a text end with that of the end of the input. -/
theorem Scanner.kind_of_tokens_eq_ok {s : Scanner} {tokens : List Token} {last : Token}
    (h : s.tokens = (tokens, .ok last)) : last.kind = .endOfInput := by
  rcases next : s.next with ⟨e | token, t⟩
  · rw [tokens_of_next_error next] at h
    cases h
  by_cases final : token.kind = .endOfInput
  · rw [tokens_of_next_end next final] at h
    cases h
    exact final
  · have shorter := rest_length_lt_of_next next final
    rw [tokens_of_next_ok next final] at h
    obtain ⟨-, ending⟩ := Prod.mk.inj h
    exact kind_of_tokens_eq_ok (Prod.ext rfl ending)
termination_by s.rest.length

/-- Among these tokens, `found` is the first that is out of place: it cannot follow those before it,
which themselves may begin a grammar. The end of the input is out of place where the tokens before
it are not yet a grammar. -/
inductive Offends (tokens : List Token) (ending : Scanner.Ending) (found : Token) : Prop where
  | token {before after : List Token} : tokens = before ++ found :: after →
      Rule.Viable maxNesting (before.map (·.kind)) →
      ¬ Rule.Viable maxNesting ((before ++ [found]).map (·.kind)) → Offends tokens ending found
  | endOfInput : ending = .ok found → found.kind = .endOfInput →
      Rule.Viable maxNesting (tokens.map (·.kind)) →
      ¬ Rule.grammar.Derives maxNesting (tokens.map (·.kind)) → Offends tokens ending found

/-- A run from the start fails at the token that offends. -/
theorem Parser.run_eq_unexpected_iff_offends {s : Scanner} {n : Nat} {tokens : List Token}
    {ending : Scanner.Ending} (scanned : s.tokens = (tokens, ending)) {found : Token} :
    (∃ expected, ((start n).run tokens ending).result = .error (.unexpected expected found)) ↔
      Offends tokens ending found := by
  rw [run_eq_unexpected_iff]
  constructor
  · rintro (⟨before, after, q, split, front, refused⟩ | ⟨rfl, q, all, unfinished⟩)
    · refine .token split ((viable_iff n).mpr ⟨q, front⟩) ?_
      rw [viable_iff n, List.map_append, steps_append_of_ok front]
      rintro ⟨r, taken⟩
      obtain ⟨r, first, -⟩ := exists_takes_of_steps_cons taken
      exact refused ⟨r, step_eq_ok_iff.mpr first⟩
    · refine .endOfInput rfl (Scanner.kind_of_tokens_eq_ok scanned)
        ((viable_iff n).mpr ⟨q, all⟩) ?_
      rw [derives_iff n]
      rintro ⟨r, all', ended⟩
      cases all.symm.trans all'
      exact unfinished ended
  · rintro (⟨split, viable, refused⟩ | ⟨rfl, -, viable, incomplete⟩)
    · obtain ⟨q, front⟩ := (viable_iff n).mp viable
      refine .inl ⟨_, _, q, split, front, ?_⟩
      rintro ⟨r, first⟩
      refine refused ((viable_iff n).mpr ⟨r, ?_⟩)
      rw [List.map_append, steps_append_of_ok front, List.map_singleton, steps_cons_of_ok first,
        steps_nil]
    · obtain ⟨q, all⟩ := (viable_iff n).mp viable
      exact .inr ⟨rfl, q, all, fun ended => incomplete ((derives_iff n).mpr ⟨q, all, ended⟩)⟩

theorem Grammar.ofString?_eq_error_iff {text : String} {e : ParseError} :
    Grammar.ofString? text = .error e ↔
      ((Parser.start 0).run (Scanner.ofString text).tokens.1
        (Scanner.ofString text).tokens.2).result = .error e := by
  have reading : (parse text 0).result = ((Parser.start 0).run (Scanner.ofString text).tokens.1
      (Scanner.ofString text).tokens.2).result := rfl
  rw [← reading, ofString?]
  cases (parse text 0).result <;> simp [Except.map]

/-- **A parse error is at the first offending token.** A text is refused for a token, or for the end
of the input, exactly if that is the first one out of place. It is refused for the error at which
its tokens end exactly if all tokens before that error may begin a grammar. Whenever it is refused,
the report has the place of that token and says which token was found, or it has the place and the
message of that error. -/
theorem Grammar.ofString?_error_iff (text : String) :
    let tokens := (Scanner.ofString text).tokens.1
    let ending := (Scanner.ofString text).tokens.2
    (∀ found, (∃ expected, Grammar.ofString? text = .error (.unexpected expected found)) ↔
      Offends tokens ending found) ∧
    (∀ e, Grammar.ofString? text = .error (.scan e) ↔
      ending = .error e ∧ Rule.Viable maxNesting (tokens.map (·.kind))) ∧
    ∀ e, Grammar.ofString? text = .error e →
      (∃ expected found, e = .unexpected expected found ∧ Offends tokens ending found ∧
        e.position = found.position ∧
        e.message = "syntax error: expected " ++ expected.describe ++ " but found " ++
          found.describe ++ " at " ++ found.position.text) ∨
      ∃ error, e = .scan error ∧ ending = .error error ∧
        Rule.Viable maxNesting (tokens.map (·.kind)) ∧
        e.position = error.position ∧ e.message = "scan error: " ++ error.message := by
  intro tokens ending
  have offends : ∀ found, (∃ expected, Grammar.ofString? text = .error (.unexpected expected found)) ↔
      Offends tokens ending found := by
    intro found
    simp only [ofString?_eq_error_iff]
    exact Parser.run_eq_unexpected_iff_offends rfl
  have scans : ∀ e, Grammar.ofString? text = .error (.scan e) ↔
      ending = .error e ∧ Rule.Viable maxNesting (tokens.map (·.kind)) := by
    intro e
    rw [ofString?_eq_error_iff, Parser.run_eq_scan_error_iff, Parser.viable_iff 0]
  refine ⟨offends, scans, fun e refused => ?_⟩
  cases e with
  | unexpected expected found =>
    refine .inl ⟨expected, found, rfl, (offends found).mp ⟨expected, refused⟩, rfl, ?_⟩
    simp only [ParseError.message, ParseError.cause, String.append_assoc]
    rfl
  | scan error =>
    obtain ⟨ended, viable⟩ := (scans error).mp refused
    exact .inr ⟨error, rfl, ended, viable, rfl, rfl⟩

/-- A literal that is never closed does not matter behind a token out of place. -/
example : Grammar.ofString? "A = b\n  = \"c" =
    .error (.unexpected .period ⟨.equals, ⟨2, 3⟩⟩) := by
  cbv

end Railroad
