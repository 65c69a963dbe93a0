import Mathlib.Algebra.Group.Nat.Even
import Railroad.Proofs.Appending
import Railroad.Proofs.Parser.Errors
import Railroad.Proofs.Tiles

/-!
Blanks between tokens do not matter.

* `Reading.even_of_unterminated`: a text is left inside a literal by its quotation marks alone.
* `Reading.of_append_blanks`: blanks between two texts are not read, unless they stand inside a
  literal or part a name.
* `ParseError.fault`: an error without its place. `Parser.fault_run`: two texts that are read alike
  are parsed alike, up to the places of errors.
* `Grammar.parse_append_blanks`: so more blanks or fewer between tokens change places only.
-/

namespace Railroad

/-! ### Readings -/

namespace Reading

/-- A run of characters that are no quotation marks does not count. -/
theorem countP_isQuote_append {run : List Char} (plain : ∀ c ∈ run, isQuote c = false)
    (rest : List Char) : (run ++ rest).countP isQuote = rest.countP isQuote := by
  have none : run.countP isQuote = 0 := List.countP_eq_zero.mpr (by simpa using plain)
  rw [List.countP_append, none, Nat.zero_add]

/-- **Reading ends inside a literal only as the quotation marks have it**: an even number of them
leads back to where reading began, an odd number to the other side. -/
theorem even_of_unterminated (inside : Bool) (u : List Char)
    (h : (of inside u).ending = .unterminated) : Even (u.countP isQuote) ↔ inside = true := by
  induction inside, u using Reading.induction with
  | complete =>
    rw [of_nil] at h
    cases h
  | space c cs blank ih =>
    rw [of_space blank] at h
    rw [List.countP_cons_of_neg (by simp [isQuote_of_isWhiteSpace blank])]
    exact ih h
  | mark inside c cs quote ih =>
    rw [of_quote quote] at h
    rw [List.countP_cons_of_pos quote, Nat.even_add_one, ih h]
    cases inside <;> simp
  | name run rest inhabited letters ends ih =>
    rw [of_name inhabited letters ends] at h
    rw [countP_isQuote_append fun c hc => isQuote_of_isAlphabetic (letters c hc)]
    exact ih h
  | punctuation c kind cs found ih =>
    rw [of_punctuation found] at h
    rw [List.countP_cons_of_neg (by simp [(plain_of_punctuation found).2.2])]
    exact ih h
  | unexpected c cs blank quote letter other =>
    rw [of_unexpected blank quote letter other] at h
    cases h
  | unterminated => simp
  | literal run rest inhabited plain ends ih =>
    rw [of_literal inhabited plain ends] at h
    rw [countP_isQuote_append plain]
    exact ih h

/-- Blanks in front of a text are not read. -/
theorem of_blanks {blanks : List Char} (blank : ∀ c ∈ blanks, Text.isWhiteSpace c = true)
    (v : List Char) : of false (blanks ++ v) = of false v := by
  induction blanks with
  | nil => rfl
  | cons c rest ih =>
    obtain ⟨first, others⟩ := List.forall_mem_cons.mp blank
    rw [List.cons_append, of_space first, ih others]

/-- **Blanks between two texts are not read**, unless they stand inside a literal or part a name. -/
theorem of_append_blanks {u blanks v : List Char} (outside : Even (u.countP isQuote))
    (parted : Parted u v) (blank : ∀ c ∈ blanks, Text.isWhiteSpace c = true) :
    of false (u ++ (blanks ++ v)) = of false (u ++ v) := by
  have terminated : (of false u).ending ≠ .unterminated := by
    intro inside
    cases (even_of_unterminated false u inside).mp outside
  have parted' : Parted u (blanks ++ v) := by
    cases blanks with
    | nil => exact parted
    | cons c rest =>
      rintro - _ ⟨⟩
      exact isAlphabetic_of_isWhiteSpace (blank c (by simp))
  rw [of_append false u parted' terminated, of_append false u parted terminated, of_blanks blank]

end Reading

/-! ### Parse errors without their places -/

/-- What is wrong with a text, wherever in the text that is. -/
inductive Fault where
  | unexpectedCharacter (c : Char)
  | unterminatedLiteral
  /-- A token was found where another was expected, each as messages say it. -/
  | unexpectedToken (expected found : String)
deriving DecidableEq, Repr

/-- An error without its place. -/
def ParseError.fault : ParseError → Fault
  | .scan (.unexpectedCharacter c _) => .unexpectedCharacter c
  | .scan (.unterminatedLiteral _) => .unterminatedLiteral
  | .unexpected expected found => .unexpectedToken expected.describe found.describe

/-- Tokens of one kind are named alike. -/
theorem Token.describe_eq {token token' : Token} (same : token.kind = token'.kind) :
    token.describe = token'.describe := by
  rw [describe, describe, same]

namespace Parser

variable {ending ending' : Scanner.Ending}

theorem result_run_cons (p : Parser) (token : Token) (rest : List Token)
    (ending : Scanner.Ending) : (p.run (token :: rest) ending).result =
      match p.step token.kind with
      | .ok q => (q.run rest ending).result
      | .error expected => .error (.unexpected expected token) := by
  rw [run, Traced.result_bind]
  cases p.step token.kind <;> rfl

/-- Endings that are alike but for their places end a run alike. -/
theorem fault_run_nil (p : Parser) (ends : ReadingEnd.of ending = ReadingEnd.of ending')
    (last : ∀ token, ending = .ok token → token.kind = .endOfInput)
    (last' : ∀ token, ending' = .ok token → token.kind = .endOfInput) :
    (p.run [] ending).result.mapError ParseError.fault =
      (p.run [] ending').result.mapError ParseError.fault := by
  rcases ending with (⟨c, place⟩ | opened) | token <;>
    rcases ending' with (⟨c', place'⟩ | opened') | token' <;> cases ends
  · rfl
  · rfl
  · have same := Token.describe_eq ((last token rfl).trans (last' token' rfl).symm)
    rw [run, run]
    cases p.finish with
    | ok g => rfl
    | error expected =>
      exact congrArg (Except.error ∘ Fault.unexpectedToken expected.describe) same

/-- Tokens that are alike but for their places are run alike, if their endings are. -/
theorem fault_run_congr {tokens tokens' : List Token}
    (kinds : tokens.map (·.kind) = tokens'.map (·.kind))
    (ends : ∀ q : Parser, (q.run [] ending).result.mapError ParseError.fault =
      (q.run [] ending').result.mapError ParseError.fault) (p : Parser) :
    (p.run tokens ending).result.mapError ParseError.fault =
      (p.run tokens' ending').result.mapError ParseError.fault := by
  induction tokens generalizing p tokens' with
  | nil =>
    obtain rfl := List.map_eq_nil_iff.mp kinds.symm
    exact ends p
  | cons token rest ih =>
    cases tokens' with
    | nil => cases kinds
    | cons token' rest' =>
      obtain ⟨kind, others⟩ := List.cons.inj kinds
      rw [result_run_cons, result_run_cons, show token.kind = token'.kind from kind]
      cases p.step token'.kind with
      | ok q => exact ih others q
      | error expected =>
        exact congrArg (Except.error ∘ Fault.unexpectedToken expected.describe)
          (Token.describe_eq kind)

/-- **Two texts that are read alike are parsed alike**, up to the places of errors. -/
theorem fault_run {s t : Scanner} (same : s.reading = t.reading) (p : Parser) :
    (p.run s.tokens.1 s.tokens.2).result.mapError ParseError.fault =
      (p.run t.tokens.1 t.tokens.2).result.mapError ParseError.fault := by
  have final : ∀ (s : Scanner) token, s.tokens.2 = .ok token → token.kind = .endOfInput :=
    fun s _ ending => Scanner.kind_of_tokens_eq_ok (Prod.ext rfl ending)
  refine fault_run_congr (congrArg Reading.kinds same) (fun q => ?_) p
  exact fault_run_nil q (congrArg Reading.ending same) (final s) (final t)

end Parser

/-! ### Blanks -/

/-- **Blanks between tokens do not matter.** Put between two texts, the first of which ends outside
a literal and does not end in the middle of a name, they change nothing of what is read: the texts
give the same tree, ids included, or are refused for the same fault. -/
theorem Grammar.parse_append_blanks {u v w : String} (outside : Even (u.toList.countP isQuote))
    (parted : Parted u.toList v.toList) (blank : ∀ c ∈ w.toList, Text.isWhiteSpace c = true)
    (issued : Nat) :
    (Grammar.parse (u ++ w ++ v) issued).result.mapError ParseError.fault =
      (Grammar.parse (u ++ v) issued).result.mapError ParseError.fault := by
  have same : (Scanner.ofString (u ++ w ++ v)).reading = (Scanner.ofString (u ++ v)).reading := by
    rw [Scanner.reading_eq, Scanner.reading_eq]
    simpa [Scanner.ofString] using Reading.of_append_blanks outside parted blank
  exact Parser.fault_run same (.start issued)

/-- Three sorts of blanks behind a name, which the spaces of a literal precede. The second bar is
one line further down and a fault all the same. -/
theorem Grammar.parse_append_blanks_refused :
    let u := "A = \"a b\" c"
    let v := "| | d ."
    let w := "\n\t\u3000"
    Even (u.toList.countP isQuote) ∧ Parted u.toList v.toList ∧
      (∀ c ∈ w.toList, Text.isWhiteSpace c = true) ∧
      (Grammar.parse (u ++ v) 0).result.mapError ParseError.fault =
        .error (.unexpectedToken "identifier, literal, '(', '\x7b' or '['" "'|'") ∧
      (Grammar.parse (u ++ w ++ v) 0).result.mapError ParseError.fault =
        (Grammar.parse (u ++ v) 0).result.mapError ParseError.fault := by
  intro u v w
  have outside : Even (u.toList.countP isQuote) := by decide
  have parted : Parted u.toList v.toList := by
    intro _ c first
    obtain rfl : '|' = c := by simpa [v] using first
    decide +kernel
  have blank : ∀ c ∈ w.toList, Text.isWhiteSpace c = true :=
    List.all_eq_true.mp (by decide +kernel)
  have refused : (Grammar.parse (u ++ v) 0).result.mapError ParseError.fault =
      .error (.unexpectedToken "identifier, literal, '(', '\x7b' or '['" "'|'") := by
    rw [show u ++ v = "A = \"a b\" c| | d ." by decide +kernel]
    cbv
  exact ⟨outside, parted, blank, refused, parse_append_blanks outside parted blank 0⟩

end Railroad
