import Railroad.Proofs.Reading

/-!
The tokens of a text tile it.

* `Position.behind`: the place behind a text, by counting its line feeds and the characters since
  the last one.
* `Tile`: what one call of a scanner gives, with the blanks that it passes over and the characters
  that it is read from. `Tile.Fits` are the rules for a tile between what is read before it and what
  lies ahead, one for tokens and one for each way to end.
* `Scanner.Behind`: where a scanner is that has read a text. `Scanner.Behind.exists_tile`: each call
  lays one tile. `Scanner.Behind.exists_tiling`: several calls lay them one behind the other.
* `Scanner.tokens_tile_text`: so it is from the start of every text, and a text with so many
  characters has no more tokens.
-/

namespace Railroad

open Token (Kind)

/-! ### Places -/

/-- The place behind a text. -/
def Position.behind (read : List Char) : Position :=
  ⟨1 + read.count '\n', 1 + (read.reverse.takeWhile (· ≠ '\n')).length⟩

theorem Position.behind_concat (read : List Char) (c : Char) :
    behind (read ++ [c]) = (behind read).after c := by
  by_cases feed : c = '\n'
  · subst feed
    simp [behind, after, Nat.add_assoc]
  · simp [behind, after, feed, Nat.add_assoc]

/-- Going on over a run of characters comes to the place behind it. -/
theorem Position.behind_append (read run : List Char) :
    behind (read ++ run) = (behind read).afterAll run := by
  induction run generalizing read with
  | nil => simp [afterAll]
  | cons c rest ih =>
    rw [List.append_cons, ih, behind_concat]
    rfl

/-! ### Tiles -/

/-- A literal is open behind a text with an odd number of quotation marks. -/
def OpensLiteral (read : List Char) : Prop :=
  read.countP isQuote % 2 = 1

/-- A token of this kind is read from a run of characters, inside a literal or outside, in front of
what lies ahead. -/
inductive Token.Kind.ReadFrom : (inside : Prop) → Kind → (run ahead : List Char) → Prop where
  | quote {inside : Prop} {c : Char} {ahead : List Char} :
      isQuote c = true → ReadFrom inside .quote [c] ahead
  | punctuation {inside : Prop} {kind : Kind} {c : Char} {ahead : List Char} :
      ¬ inside → punctuation? c = some kind → ReadFrom inside kind [c] ahead
  /-- A name is as long as there are letters. -/
  | identifier {inside : Prop} {run ahead : List Char} :
      ¬ inside → run ≠ [] → (∀ c ∈ run, Text.isAlphabetic c = true) →
      (∀ c ∈ ahead.head?, Text.isAlphabetic c = false) →
      ReadFrom inside (.identifier (String.ofList run)) run ahead
  /-- The text of a literal goes up to a quotation mark or the end. Its spaces are made visible. -/
  | literal {inside : Prop} {run ahead : List Char} :
      inside → run ≠ [] → (∀ c ∈ run, isQuote c = false) →
      (∀ c ∈ ahead.head?, isQuote c = true) →
      ReadFrom inside (.literal (String.ofList (run.map fun c => if c = ' ' then '\u2423' else c)))
        run ahead

/-- What one call of a scanner gives, the blanks that it passes over, and the characters that it is
read from. -/
structure Tile where
  gap : List Char
  run : List Char
  outcome : Except ScanError Token

/-- The characters of a tile. -/
def Tile.chars (tile : Tile) : List Char :=
  tile.gap ++ tile.run

/-- The rules for a tile behind what is read and in front of what lies ahead. -/
inductive Tile.Fits (read : List Char) : Tile → (ahead : List Char) → Prop where
  /-- Outside a literal, a token may stand behind blanks. It has the place of its first
  character. -/
  | token {gap run ahead : List Char} {kind : Kind} :
      (∀ c ∈ gap, Text.isWhiteSpace c = true) → (OpensLiteral read → gap = []) →
      kind.ReadFrom (OpensLiteral read) run ahead →
      Fits read ⟨gap, run, .ok ⟨kind, .behind (read ++ gap)⟩⟩ ahead
  /-- Outside a literal, nothing but blanks is left. -/
  | endOfInput {gap : List Char} :
      ¬ OpensLiteral read → (∀ c ∈ gap, Text.isWhiteSpace c = true) →
      Fits read ⟨gap, [], .ok ⟨.endOfInput, .behind (read ++ gap)⟩⟩ []
  /-- Outside a literal, the first character that is no blank starts no token. -/
  | unexpected {gap ahead : List Char} {c : Char} :
      ¬ OpensLiteral read → (∀ c ∈ gap, Text.isWhiteSpace c = true) →
      Text.isWhiteSpace c = false → punctuation? c = none → isQuote c = false →
      Text.isAlphabetic c = false →
      Fits read ⟨gap, [], .error (.unexpectedCharacter c (.behind (read ++ gap)))⟩ (c :: ahead)
  /-- The text ends inside a literal. The error has the place of the last quotation mark. -/
  | unterminated {front literal : List Char} {mark : Char} :
      OpensLiteral read → read = front ++ mark :: literal → isQuote mark = true →
      (∀ c ∈ literal, isQuote c = false) →
      Fits read ⟨[], [], .error (.unterminatedLiteral (.behind front))⟩ []

/-- Tiles that lie one behind the other, from behind what is read up to what lies ahead. -/
inductive Tiling : (read : List Char) → List Tile → (ahead : List Char) → Prop where
  | nil {read ahead : List Char} : Tiling read [] ahead
  | cons {read ahead : List Char} {tile : Tile} {rest : List Tile} :
      tile.Fits read (rest.flatMap Tile.chars ++ ahead) →
      Tiling (read ++ tile.chars) rest ahead → Tiling read (tile :: rest) ahead

/-! ### Scanners -/

theorem isQuote_of_isWhiteSpace {c : Char} (h : Text.isWhiteSpace c = true) :
    isQuote c = false := by
  cases quote : isQuote c with
  | false => rfl
  | true =>
    rw [(plain_of_isQuote quote).2] at h
    cases h

theorem opensLiteral_concat_mark {read : List Char} {c : Char} (h : isQuote c = true) :
    OpensLiteral (read ++ [c]) ↔ ¬ OpensLiteral read := by
  simp only [OpensLiteral, List.countP_append, List.countP_singleton, h, if_true]
  omega

theorem opensLiteral_append_plain {read run : List Char} (h : ∀ c ∈ run, isQuote c = false) :
    OpensLiteral (read ++ run) ↔ OpensLiteral read := by
  have none : run.countP isQuote = 0 := List.countP_eq_zero.mpr (by simpa using h)
  rw [OpensLiteral, OpensLiteral, List.countP_append, none, Nat.add_zero]

/-- The place is that of the last quotation mark of a text. -/
def Position.IsLastMark (p : Position) (read : List Char) : Prop :=
  ∃ front mark literal, read = front ++ mark :: literal ∧ isQuote mark = true ∧
    (∀ c ∈ literal, isQuote c = false) ∧ p = .behind front

theorem Position.IsLastMark.append {p : Position} {read run : List Char} (h : p.IsLastMark read)
    (plain : ∀ c ∈ run, isQuote c = false) : p.IsLastMark (read ++ run) := by
  obtain ⟨front, mark, literal, rfl, quote, inside, place⟩ := h
  refine ⟨front, mark, literal ++ run, by simp, quote, ?_, place⟩
  exact List.forall_mem_append.mpr ⟨inside, plain⟩

namespace Scanner

/-- The scanner is behind a text that it has read: it is at the place behind it, and if the text
opens a literal, it knows where. -/
structure Behind (read : List Char) (s : Scanner) : Prop where
  position : s.position = .behind read
  outside : s.openQuote = none → ¬ OpensLiteral read
  inside : ∀ opened, s.openQuote = some opened → OpensLiteral read ∧ opened.IsLastMark read

theorem behind_ofString (text : String) : (ofString text).Behind [] where
  position := rfl
  outside := by simp [OpensLiteral]
  inside := by simp [ofString]

/-- Outside a literal, blanks are passed over and nothing else. -/
theorem Behind.skipSpace {read : List Char} {s : Scanner} (h : s.Behind read)
    (outside : s.openQuote = none) :
    ∃ gap, (∀ c ∈ gap, Text.isWhiteSpace c = true) ∧ s.rest = gap ++ s.skipSpace.rest ∧
      (∀ c ∈ s.skipSpace.rest.head?, Text.isWhiteSpace c = false) ∧
      s.skipSpace.Behind (read ++ gap) := by
  let gap := s.rest.takeWhile Text.isWhiteSpace
  have blank : ∀ c ∈ gap, Text.isWhiteSpace c = true := fun c hc =>
    List.all_eq_true.mp List.all_takeWhile c hc
  have plain : ∀ c ∈ gap, isQuote c = false := fun c hc => isQuote_of_isWhiteSpace (blank c hc)
  refine ⟨gap, blank, List.takeWhile_append_dropWhile.symm, ?_, ?_, ?_, ?_⟩
  · intro c hc
    have ends := List.head?_dropWhile_not Text.isWhiteSpace s.rest
    rw [show (s.rest.dropWhile Text.isWhiteSpace).head? = some c from hc] at ends
    simpa using ends
  · show s.position.afterAll gap = _
    rw [h.position, Position.behind_append]
  · intro _
    rw [opensLiteral_append_plain plain]
    exact h.outside outside
  · intro opened inside
    rw [show s.skipSpace.openQuote = s.openQuote from rfl, outside] at inside
    cases inside

/-- Going on over characters that are no quotation marks, a scanner stays inside or outside. -/
theorem Behind.advance {read run rest : List Char} {s : Scanner} (h : s.Behind read)
    (plain : ∀ c ∈ run, isQuote c = false) : (s.advance run rest).Behind (read ++ run) where
  position := by
    show s.position.afterAll run = _
    rw [h.position, Position.behind_append]
  outside := by
    intro outside
    rw [opensLiteral_append_plain plain]
    exact h.outside outside
  inside := by
    intro opened inside
    rw [opensLiteral_append_plain plain]
    obtain ⟨opens, last⟩ := h.inside opened inside
    exact ⟨opens, last.append plain⟩

/-- Outside a literal, a quotation mark opens one. -/
theorem Behind.open {read rest : List Char} {s : Scanner} {c : Char} (h : s.Behind read)
    (outside : s.openQuote = none) (quote : isQuote c = true) :
    ({ s.advance [c] rest with openQuote := some s.position } : Scanner).Behind (read ++ [c]) where
  position := by
    show s.position.afterAll [c] = _
    rw [h.position, Position.behind_append]
  outside := by simp
  inside := by
    rintro _ ⟨⟩
    refine ⟨(opensLiteral_concat_mark quote).mpr (h.outside outside), ?_⟩
    exact ⟨read, c, [], rfl, quote, by simp, h.position⟩

/-- Inside a literal, a quotation mark closes it. -/
theorem Behind.close {read rest : List Char} {s : Scanner} {c : Char} {opened : Position}
    (h : s.Behind read) (inside : s.openQuote = some opened) (quote : isQuote c = true) :
    ({ s.advance [c] rest with openQuote := none } : Scanner).Behind (read ++ [c]) where
  position := by
    show s.position.afterAll [c] = _
    rw [h.position, Position.behind_append]
  outside := by
    intro _ opens
    exact (opensLiteral_concat_mark quote).mp opens (h.inside opened inside).1
  inside := by simp

/-- Where a run with a property ends, there is none with it. -/
theorem head?_dropWhile_eq_false (p : Char → Bool) (cs : List Char) :
    ∀ c ∈ (cs.dropWhile p).head?, p c = false := by
  intro c hc
  have ends := List.head?_dropWhile_not p cs
  rw [show (cs.dropWhile p).head? = some c from hc] at ends
  simpa using ends

/-- Behind blanks outside a literal, a tile is laid over what the scanner reads. -/
theorem Behind.exists_tile_outside {read gap : List Char} {s : Scanner}
    (h : s.Behind (read ++ gap)) (outside : s.openQuote = none)
    (blank : ∀ c ∈ gap, Text.isWhiteSpace c = true)
    (begins : ∀ c ∈ s.rest.head?, Text.isWhiteSpace c = false) :
    ∃ run, s.rest = run ++ s.nextOutside.2.rest ∧
      Tile.Fits read ⟨gap, run, s.nextOutside.1⟩ s.nextOutside.2.rest ∧
      s.nextOutside.2.Behind (read ++ gap ++ run) := by
  have closed : ¬ OpensLiteral read := by
    rw [← opensLiteral_append_plain fun c hc => isQuote_of_isWhiteSpace (blank c hc)]
    exact h.outside outside
  have place := h.position
  unfold nextOutside
  split
  · rename_i none
    refine ⟨[], by simp [none], ?_, by simpa using h⟩
    rw [none, place]
    exact .endOfInput closed blank
  rename_i c cs rest
  by_cases quote : isQuote c = true
  · rw [if_pos quote]
    refine ⟨[c], by simp [rest], ?_, h.open outside quote⟩
    rw [place]
    exact .token blank (fun opens => absurd opens closed) (.quote quote)
  rw [if_neg quote]
  by_cases letter : Text.isAlphabetic c = true
  · rw [if_pos letter]
    have letters : ∀ d ∈ s.rest.takeWhile Text.isAlphabetic, Text.isAlphabetic d = true :=
      fun d hd => List.all_eq_true.mp List.all_takeWhile d hd
    refine ⟨s.rest.takeWhile Text.isAlphabetic, List.takeWhile_append_dropWhile.symm, ?_, ?_⟩
    · rw [place]
      refine .token blank (fun opens => absurd opens closed) (.identifier closed ?_ letters ?_)
      · simp [rest, List.takeWhile_cons_of_pos letter]
      · exact head?_dropWhile_eq_false _ _
    · exact h.advance fun d hd => isQuote_of_isAlphabetic (letters d hd)
  rw [if_neg letter]
  cases kind : punctuation? c with
  | some kind =>
    refine ⟨[c], by simp [rest], ?_, ?_⟩
    · rw [place]
      exact .token blank (fun opens => absurd opens closed) (.punctuation closed kind)
    · exact h.advance (by simpa using quote)
  | none =>
    refine ⟨[], by simp [rest], ?_, by simpa using h⟩
    rw [rest, place]
    refine .unexpected closed blank ?_ kind (by simpa using quote) (by simpa using letter)
    exact begins c (by simp [rest])

/-- Inside a literal, a tile is laid over what the scanner reads, without blanks in front of it. -/
theorem Behind.exists_tile_inside {read : List Char} {s : Scanner} {opened : Position}
    (h : s.Behind read) (inside : s.openQuote = some opened) :
    ∃ run, s.rest = run ++ (s.nextInside opened).2.rest ∧
      Tile.Fits read ⟨[], run, (s.nextInside opened).1⟩ (s.nextInside opened).2.rest ∧
      (s.nextInside opened).2.Behind (read ++ run) := by
  obtain ⟨opens, front, mark, literal, split, quoted, plain, whence⟩ := h.inside opened inside
  have place : s.position = .behind (read ++ []) := by rw [h.position, List.append_nil]
  have noBlank : ∀ c ∈ ([] : List Char), Text.isWhiteSpace c = true := by simp
  unfold nextInside
  split
  · rename_i none
    refine ⟨[], by simp [none], ?_, by simpa using h⟩
    rw [none, whence]
    exact .unterminated opens split quoted plain
  rename_i c cs rest
  by_cases quote : isQuote c = true
  · rw [if_pos quote]
    refine ⟨[c], by simp [rest], ?_, h.close inside quote⟩
    rw [place]
    exact .token noBlank (fun _ => rfl) (.quote quote)
  · rw [if_neg quote]
    have run : ∀ d ∈ s.rest.takeWhile (!isQuote ·), isQuote d = false := by
      intro d hd
      simpa using List.all_eq_true.mp List.all_takeWhile d hd
    refine ⟨s.rest.takeWhile (!isQuote ·), List.takeWhile_append_dropWhile.symm, ?_, ?_⟩
    · rw [place]
      refine .token noBlank (fun _ => rfl) (.literal opens ?_ run ?_)
      · simp [rest, List.takeWhile_cons_of_pos (p := (!isQuote ·)) (by simpa using quote)]
      · intro d hd
        simpa using head?_dropWhile_eq_false (!isQuote ·) s.rest d hd
    · exact h.advance run

/-- **A call lays a tile**: the scanner goes on over its characters, and what it gives is right
there. -/
theorem Behind.exists_tile {read : List Char} {s : Scanner} (h : s.Behind read) :
    ∃ tile : Tile, tile.outcome = s.next.1 ∧ s.rest = tile.chars ++ s.next.2.rest ∧
      tile.Fits read s.next.2.rest ∧ s.next.2.Behind (read ++ tile.chars) := by
  unfold next
  cases inside : s.openQuote with
  | none =>
    obtain ⟨gap, blank, skipped, begins, behind⟩ := h.skipSpace inside
    obtain ⟨run, reads, fits, behind⟩ := behind.exists_tile_outside inside blank begins
    refine ⟨⟨gap, run, s.skipSpace.nextOutside.1⟩, rfl, ?_, fits, ?_⟩
    · rw [Tile.chars, List.append_assoc, ← reads, ← skipped]
    · rwa [Tile.chars, ← List.append_assoc]
  | some opened =>
    obtain ⟨run, reads, fits, behind⟩ := h.exists_tile_inside inside
    exact ⟨⟨[], run, (s.nextInside opened).1⟩, rfl, reads, fits, behind⟩

/-! ### Runs -/

/-- What `n` calls one after the other give, and the scanner behind them. -/
def calls : Nat → Scanner → List (Except ScanError Token) × Scanner
  | 0, s => ([], s)
  | n + 1, s =>
    let (outcomes, last) := calls n s.next.2
    (s.next.1 :: outcomes, last)

/-- **Calls one after the other lay tiles one behind the other.** -/
theorem Behind.exists_tiling {read : List Char} {s : Scanner} (h : s.Behind read) (n : Nat) :
    ∃ tiles : List Tile, tiles.map Tile.outcome = (s.calls n).1 ∧
      s.rest = tiles.flatMap Tile.chars ++ (s.calls n).2.rest ∧
      Tiling read tiles (s.calls n).2.rest := by
  induction n generalizing read s with
  | zero => exact ⟨[], rfl, rfl, .nil⟩
  | succ n ih =>
    obtain ⟨tile, outcome, reads, fits, behind⟩ := h.exists_tile
    obtain ⟨tiles, outcomes, others, tiling⟩ := ih behind
    refine ⟨tile :: tiles, ?_, ?_, ?_⟩
    · rw [List.map_cons, outcome, outcomes]
      rfl
    · rw [reads, others, List.flatMap_cons, List.append_assoc]
      rfl
    · rw [others] at fits
      exact .cons fits tiling

/-- A call gives a token, not the end of the input and not an error. -/
def GivesToken (outcome : Except ScanError Token) : Prop :=
  ∃ token, outcome = .ok token ∧ token.kind ≠ .endOfInput

/-- The end or an error comes after no more tokens than there are characters. -/
theorem exists_calls_to_end (s : Scanner) :
    ∃ n ≤ s.rest.length, (∀ outcome ∈ (s.calls n).1, GivesToken outcome) ∧
      ¬ GivesToken (s.calls n).2.next.1 := by
  by_cases gives : GivesToken s.next.1
  · obtain ⟨token, read, real⟩ := gives
    have next : s.next = (.ok token, s.next.2) := by rw [← read]
    have shorter := rest_length_lt_of_next next real
    obtain ⟨n, few, tokens, ends⟩ := exists_calls_to_end s.next.2
    refine ⟨n + 1, Nat.lt_of_le_of_lt few shorter, ?_, ends⟩
    intro outcome houtcome
    rcases List.mem_cons.mp houtcome with rfl | later
    · exact ⟨token, read, real⟩
    · exact tokens outcome later
  · exact ⟨0, Nat.zero_le _, by simp [calls], gives⟩
termination_by s.rest.length

end Scanner

/-- A token is read from at least one character. -/
theorem Tile.Fits.run_ne_nil {read ahead : List Char} {tile : Tile} (h : tile.Fits read ahead)
    (gives : Scanner.GivesToken tile.outcome) : tile.run ≠ [] := by
  obtain ⟨token, outcome, real⟩ := gives
  cases h with
  | token _ _ spelled =>
    cases spelled with
    | quote _ | punctuation _ _ => simp
    | identifier _ inhabited _ _ | literal _ inhabited _ _ => exact inhabited
  | endOfInput _ _ =>
    cases outcome
    exact absurd rfl real
  | unexpected _ _ _ _ _ _ | unterminated _ _ _ _ => cases outcome

theorem Tiling.run_ne_nil {read ahead : List Char} {tiles : List Tile}
    (h : Tiling read tiles ahead) :
    ∀ tile ∈ tiles, Scanner.GivesToken tile.outcome → tile.run ≠ [] := by
  induction h with
  | nil => simp
  | cons fits _ ih => exact List.forall_mem_cons.mpr ⟨fits.run_ne_nil, ih⟩

/-- **The tokens of a text tile it.** Whatever calls from the start of a text give, they give it in
tiles that lie one behind the other and, with what is left, make up the text; each token takes a
character at least. After no more tokens than the text has characters comes the end or an error. -/
theorem Scanner.tokens_tile_text (text : String) :
    (∀ n, ∃ tiles : List Tile,
      tiles.map Tile.outcome = ((ofString text).calls n).1 ∧
      text.toList = tiles.flatMap Tile.chars ++ ((ofString text).calls n).2.rest ∧
      Tiling [] tiles ((ofString text).calls n).2.rest ∧
      ∀ tile ∈ tiles, GivesToken tile.outcome → tile.run ≠ []) ∧
    ∃ n ≤ text.toList.length, (∀ outcome ∈ ((ofString text).calls n).1, GivesToken outcome) ∧
      ¬ GivesToken ((ofString text).calls n).2.next.1 := by
  constructor
  · intro n
    obtain ⟨tiles, outcomes, reads, tiling⟩ := (behind_ofString text).exists_tiling n
    exact ⟨tiles, outcomes, reads, tiling, tiling.run_ne_nil⟩
  · exact exists_calls_to_end (ofString text)

/-- A literal over two lines, with a space, between typographic marks: four calls lay four tiles,
and the mark behind the line feed is on the second line. -/
example : ((Scanner.ofString "a \u201cb \nc\u201d").calls 4).1 =
    [.ok ⟨.identifier "a", ⟨1, 1⟩⟩, .ok ⟨.quote, ⟨1, 3⟩⟩,
      .ok ⟨.literal "b\u2423\nc", ⟨1, 4⟩⟩, .ok ⟨.quote, ⟨2, 2⟩⟩] := by
  cbv

end Railroad
