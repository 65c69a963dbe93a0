import Railroad.Text.Alphabetic
import Railroad.Text.WhiteSpace
import Railroad.Token

/-!
Reading tokens off a text, one at a time.

A quotation mark switches between two modes. Outside a literal, blanks separate tokens and names
are the longest runs of letters. Inside, everything up to the next mark is one token, in which
spaces are made visible. `Scanner.next` reads one token; it never skips or repeats a character of
the text (`rest_length_lt_of_next` says that each token moves it on). An error leaves the scanner
where the error is, so asking again gives the same error. `Stream` adds the rule of an iterator: it
is over after the end of the input and after the first error. `Scanner.tokens` reads on to the end.
-/

namespace Railroad

/-- Why no token could be read. -/
inductive ScanError where
  /-- The character starts no token. -/
  | unexpectedCharacter (c : Char) (position : Position)
  /-- The text ends inside the literal that was opened at this place. -/
  | unterminatedLiteral (opened : Position)
deriving DecidableEq, Repr

namespace ScanError

def position : ScanError → Position
  | .unexpectedCharacter _ position => position
  | .unterminatedLiteral opened => opened

def message : ScanError → String
  | .unexpectedCharacter c position =>
    "unexpected character " ++ Text.quotedChar c ++ s!" at {position}"
  | .unterminatedLiteral opened => s!"unterminated literal starting at {opened}"

end ScanError

/-- The straight quotation mark and the typographic pair that input methods put in its place. -/
def isQuote (c : Char) : Bool :=
  c = '"' || c = '\u201c' || c = '\u201d'

/-- A literal shows a space by this character. -/
def visibleSpace : Char := '\u2423'

/-- A character of a literal as the literal shows it. -/
def literalChar (c : Char) : Char :=
  if c = ' ' then visibleSpace else c

/-- The tokens of one character, quotation marks apart. -/
def punctuation? : Char → Option Token.Kind
  | '(' => some (.opening .group)
  | ')' => some (.closing .group)
  | '\x7b' => some (.opening .repetition)
  | '\x7d' => some (.closing .repetition)
  | '[' => some (.opening .option)
  | ']' => some (.closing .option)
  | '.' => some .period
  | '|' => some .bar
  | '=' => some .equals
  | _ => none

/-- The unread text, the place where it starts and, inside a literal, the place of its opening
quotation mark. -/
structure Scanner where
  rest : List Char
  position : Position := {}
  openQuote : Option Position := none
deriving DecidableEq, Repr

namespace Scanner

/-- At the start of a text. -/
def ofString (text : String) : Scanner :=
  { rest := text.toList }

/-- Moves on to `rest`, over the characters of `run`. -/
def advance (s : Scanner) (run rest : List Char) : Scanner :=
  { s with rest := rest, position := s.position.afterAll run }

/-- Moves on over blanks. -/
def skipSpace (s : Scanner) : Scanner :=
  s.advance (s.rest.takeWhile Text.isWhiteSpace) (s.rest.dropWhile Text.isWhiteSpace)

/-- Whether anything but the end of the input or a missing quotation mark lies ahead. -/
def hasNext (s : Scanner) : Bool :=
  if s.openQuote.isSome then !s.rest.isEmpty else s.rest.any (!Text.isWhiteSpace ·)

/-- The token at the very place, outside a literal. -/
def nextOutside (s : Scanner) : Except ScanError Token × Scanner :=
  match s.rest with
  | [] => (.ok ⟨.endOfInput, s.position⟩, s)
  | c :: cs =>
    if isQuote c then
      (.ok ⟨.quote, s.position⟩, { s.advance [c] cs with openQuote := some s.position })
    else if Text.isAlphabetic c then
      let name := s.rest.takeWhile Text.isAlphabetic
      (.ok ⟨.identifier (String.ofList name), s.position⟩,
        s.advance name (s.rest.dropWhile Text.isAlphabetic))
    else
      match punctuation? c with
      | some kind => (.ok ⟨kind, s.position⟩, s.advance [c] cs)
      | none => (.error (.unexpectedCharacter c s.position), s)

/-- The token at the very place, inside a literal that was opened at `opened`. -/
def nextInside (s : Scanner) (opened : Position) : Except ScanError Token × Scanner :=
  match s.rest with
  | [] => (.error (.unterminatedLiteral opened), s)
  | c :: cs =>
    if isQuote c then
      (.ok ⟨.quote, s.position⟩, { s.advance [c] cs with openQuote := none })
    else
      let run := s.rest.takeWhile (!isQuote ·)
      (.ok ⟨.literal (String.ofList (run.map literalChar)), s.position⟩,
        s.advance run (s.rest.dropWhile (!isQuote ·)))

/-- Reads a token. The end of the input and errors are met again each time. -/
def next (s : Scanner) : Except ScanError Token × Scanner :=
  match s.openQuote with
  | none => s.skipSpace.nextOutside
  | some opened => s.nextInside opened

@[simp] theorem advance_rest (s : Scanner) (run rest : List Char) :
    (s.advance run rest).rest = rest := rfl

theorem skipSpace_rest_length_le (s : Scanner) : s.skipSpace.rest.length ≤ s.rest.length :=
  (List.dropWhile_suffix _).length_le

/-- A longest run that starts with the first character leaves less than there was. -/
theorem length_dropWhile_lt {p : Char → Bool} {c : Char} {cs : List Char} (h : p c = true) :
    ((c :: cs).dropWhile p).length < (c :: cs).length := by
  rw [List.dropWhile_cons_of_pos h]
  exact Nat.lt_succ_of_le (List.dropWhile_suffix _).length_le

theorem rest_length_lt_of_nextOutside {s t : Scanner} {token : Token}
    (h : s.nextOutside = (.ok token, t)) (real : token.kind ≠ .endOfInput) :
    t.rest.length < s.rest.length := by
  unfold nextOutside at h
  split at h
  · obtain ⟨found, rfl⟩ := Prod.mk.inj h
    exact absurd (congrArg Token.kind (Except.ok.inj found)).symm real
  · rename_i c cs rest
    split at h
    · obtain ⟨-, rfl⟩ := Prod.mk.inj h
      simp [rest]
    · split at h
      · rename_i letter
        obtain ⟨-, rfl⟩ := Prod.mk.inj h
        rw [advance_rest, rest]
        exact length_dropWhile_lt letter
      · split at h
        · obtain ⟨-, rfl⟩ := Prod.mk.inj h
          simp [rest]
        · simp at h

theorem rest_length_lt_of_nextInside {s t : Scanner} {token : Token} {opened : Position}
    (h : s.nextInside opened = (.ok token, t)) : t.rest.length < s.rest.length := by
  unfold nextInside at h
  split at h
  · simp at h
  · rename_i c cs rest
    split at h
    · obtain ⟨-, rfl⟩ := Prod.mk.inj h
      simp [rest]
    · rename_i plain
      obtain ⟨-, rfl⟩ := Prod.mk.inj h
      rw [advance_rest, rest]
      exact length_dropWhile_lt (by simpa using plain)

/-- Every token but the end of the input moves the scanner on. -/
theorem rest_length_lt_of_next {s t : Scanner} {token : Token}
    (h : s.next = (.ok token, t)) (real : token.kind ≠ .endOfInput) :
    t.rest.length < s.rest.length := by
  unfold next at h
  split at h
  · exact Nat.lt_of_lt_of_le (rest_length_lt_of_nextOutside h real) s.skipSpace_rest_length_le
  · exact rest_length_lt_of_nextInside h

/-- How reading ends: with the token for the end of the input or with an error. -/
abbrev Ending := Except ScanError Token

/-- The tokens up to the end of the text or the first error, and which of these comes. -/
def tokens (s : Scanner) : List Token × Ending :=
  match h : s.next with
  | (.error e, _) => ([], .error e)
  | (.ok token, t) =>
    if real : token.kind = .endOfInput then ([], .ok token)
    else
      have := rest_length_lt_of_next h real
      let (rest, ending) := t.tokens
      (token :: rest, ending)
termination_by s.rest.length

end Scanner

/-- A scanner that is read token by token until it is finished. -/
structure Stream where
  scanner : Scanner
  finished : Bool := false
deriving DecidableEq, Repr

namespace Stream

/-- Reads a token whether finished or not. -/
def nextToken (s : Stream) : Except ScanError Token × Stream :=
  let (token, scanner) := s.scanner.next
  (token, { s with scanner })

/-- The next token or the error that ends the stream; nothing once it is finished. -/
def next? (s : Stream) : Option (Except ScanError Token) × Stream :=
  if s.finished then (none, s)
  else
    match s.scanner.next with
    | (.error e, scanner) => (some (.error e), ⟨scanner, true⟩)
    | (.ok token, scanner) =>
      if token.kind = .endOfInput then (none, ⟨scanner, true⟩)
      else (some (.ok token), ⟨scanner, false⟩)

/-- All that the stream still yields. -/
def rest (s : Stream) : List (Except ScanError Token) × Stream :=
  if s.finished then ([], s)
  else
    match h : s.scanner.next with
    | (.error e, scanner) => ([.error e], ⟨scanner, true⟩)
    | (.ok token, scanner) =>
      if real : token.kind = .endOfInput then ([], ⟨scanner, true⟩)
      else
        have := Scanner.rest_length_lt_of_next h real
        let (more, last) := rest ⟨scanner, false⟩
        (.ok token :: more, last)
termination_by s.scanner.rest.length

end Stream

end Railroad
