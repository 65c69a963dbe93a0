import Railroad.Token.Scanner

/-!
What a text reads as, wherever it stands: the kinds of its tokens and how reading ends.

* `Reading.of`: the reading of a text, from inside or outside a literal. `Scanner.reading_eq`: every
  scanner at that text reads it so, whatever its position.
* `Reading.of_space`, `Reading.of_punctuation`, `Reading.of_quote_outside`,
  `Reading.of_quote_inside`, `Reading.of_name`, `Reading.of_literal`: a reading, from one token to
  the next.
* `Kind.Readable`: a name is made of letters, and a literal holds no quotation mark and no space.
  `Scanner.readable_of_mem_tokens`: the tokens of every text are so.
-/

namespace Railroad

open Token (Kind)

/-! ### Classes of characters -/

/-- A blank is no letter. -/
theorem isAlphabetic_of_isWhiteSpace {c : Char} (h : Text.isWhiteSpace c = true) :
    Text.isAlphabetic c = false := by
  have table : ∀ r ∈ Text.whiteSpaceRanges.list, ∀ k < r.2 - r.1 + 1,
      Text.alphabeticRanges.has (r.1 + k) = false := by decide +kernel
  obtain ⟨r, hr, low, high⟩ := Text.Ranges.has_iff.mp h
  have found := table r hr (c.toNat - r.1) (by omega)
  rwa [Nat.add_sub_cancel' low] at found

/-- A quotation mark is no letter and no blank. -/
theorem plain_of_isQuote {c : Char} (h : isQuote c = true) :
    Text.isAlphabetic c = false ∧ Text.isWhiteSpace c = false := by
  simp only [isQuote, Bool.or_eq_true, decide_eq_true_eq] at h
  rcases h with (rfl | rfl) | rfl <;> decide +kernel

/-- A punctuation character is no letter, no blank and no quotation mark. -/
theorem plain_of_punctuation {c : Char} {kind : Kind} (h : punctuation? c = some kind) :
    Text.isAlphabetic c = false ∧ Text.isWhiteSpace c = false ∧ isQuote c = false := by
  unfold punctuation? at h
  split at h
  case h_10 => cases h
  all_goals decide +kernel

theorem isWhiteSpace_of_isAlphabetic {c : Char} (h : Text.isAlphabetic c = true) :
    Text.isWhiteSpace c = false := by
  cases blank : Text.isWhiteSpace c with
  | false => rfl
  | true =>
    rw [isAlphabetic_of_isWhiteSpace blank] at h
    cases h

theorem isQuote_of_isAlphabetic {c : Char} (h : Text.isAlphabetic c = true) :
    isQuote c = false := by
  cases quote : isQuote c with
  | false => rfl
  | true =>
    rw [(plain_of_isQuote quote).1] at h
    cases h

/-! ### Readings -/

/-- How reading ends, wherever in the text that is. -/
inductive ReadingEnd where
  | complete
  | unexpected (c : Char)
  | unterminated
deriving DecidableEq, Repr

/-- An ending without its place. -/
def ReadingEnd.of : Scanner.Ending → ReadingEnd
  | .ok _ => .complete
  | .error (.unexpectedCharacter c _) => .unexpected c
  | .error (.unterminatedLiteral _) => .unterminated

/-- The kinds of the tokens of a text and how reading them ends. -/
structure Reading where
  kinds : List Kind
  ending : ReadingEnd
deriving DecidableEq, Repr

/-- The reading with more tokens in front. -/
def Reading.prepend (kinds : List Kind) (r : Reading) : Reading :=
  ⟨kinds ++ r.kinds, r.ending⟩

@[simp] theorem Reading.prepend_nil (r : Reading) : r.prepend [] = r := rfl

@[simp] theorem Reading.prepend_prepend (front back : List Kind) (r : Reading) :
    (r.prepend back).prepend front = r.prepend (front ++ back) := by
  simp [prepend]

namespace Scanner

/-- What is left reads as this. -/
def reading (s : Scanner) : Reading :=
  ⟨s.tokens.1.map (·.kind), .of s.tokens.2⟩

theorem tokens_of_next_ok {s t : Scanner} {token : Token} (h : s.next = (.ok token, t))
    (real : token.kind ≠ .endOfInput) : s.tokens = (token :: t.tokens.1, t.tokens.2) := by
  rw [tokens]
  split
  · rename_i failed
    cases h.symm.trans failed
  · rename_i found
    cases h.symm.trans found
    rw [dif_neg real]

theorem tokens_of_next_end {s t : Scanner} {token : Token} (h : s.next = (.ok token, t))
    (last : token.kind = .endOfInput) : s.tokens = ([], .ok token) := by
  rw [tokens]
  split
  · rename_i failed
    cases h.symm.trans failed
  · rename_i found
    cases h.symm.trans found
    rw [dif_pos last]

theorem tokens_of_next_error {s t : Scanner} {e : ScanError} (h : s.next = (.error e, t)) :
    s.tokens = ([], .error e) := by
  rw [tokens]
  split
  · rename_i failed
    cases h.symm.trans failed
    rfl
  · rename_i found
    cases h.symm.trans found

/-- The first token decides on all. -/
theorem tokens_congr {s t : Scanner} (h : s.next = t.next) : s.tokens = t.tokens := by
  rcases next : t.next with ⟨e | token, u⟩
  · rw [tokens_of_next_error next, tokens_of_next_error (h.trans next)]
  · by_cases last : token.kind = .endOfInput
    · rw [tokens_of_next_end next last, tokens_of_next_end (h.trans next) last]
    · rw [tokens_of_next_ok next last, tokens_of_next_ok (h.trans next) last]

/-- A reading is complete if the tokens are followed by the end of the input. -/
theorem reading_eq_complete_iff {s : Scanner} {kinds : List Kind} :
    s.reading = ⟨kinds, .complete⟩ ↔
      ∃ tokens last, s.tokens = (tokens, .ok last) ∧ tokens.map (·.kind) = kinds := by
  rcases scanned : s.tokens with ⟨tokens, e | last⟩
  · cases e <;> simp [reading, scanned, ReadingEnd.of]
  · simp [reading, scanned, ReadingEnd.of]

theorem reading_of_next_ok {s t : Scanner} {token : Token} (h : s.next = (.ok token, t))
    (real : token.kind ≠ .endOfInput) : s.reading = t.reading.prepend [token.kind] := by
  simp [reading, tokens_of_next_ok h real, Reading.prepend]

/-- Two scanners at one text, both inside a literal or both outside. -/
structure Alike (s t : Scanner) : Prop where
  rest : s.rest = t.rest
  inside : s.openQuote.isSome = t.openQuote.isSome

/-- What two scanners read is of one kind, and they are left alike. -/
def AlikeNext : Except ScanError Token × Scanner → Except ScanError Token × Scanner → Prop
  | (.ok a, s), (.ok b, t) => a.kind = b.kind ∧ s.Alike t
  | (.error e, _), (.error f, _) => ReadingEnd.of (.error e) = ReadingEnd.of (.error f)
  | _, _ => False

theorem Alike.next {s t : Scanner} (h : s.Alike t) : AlikeNext s.next t.next := by
  obtain ⟨rest, position, openQuote⟩ := s
  obtain ⟨rest', position', openQuote'⟩ := t
  obtain ⟨same, inside⟩ := h
  subst same
  cases openQuote with
  | none =>
    cases openQuote' with
    | some opened => cases inside
    | none =>
      simp only [Scanner.next, skipSpace, advance, nextOutside]
      cases rest.dropWhile Text.isWhiteSpace with
      | nil => exact ⟨rfl, rfl, rfl⟩
      | cons c cs =>
        dsimp only
        by_cases quote : isQuote c = true
        · simp only [if_pos quote]
          exact ⟨rfl, rfl, rfl⟩
        by_cases letter : Text.isAlphabetic c = true
        · simp only [if_neg quote, if_pos letter]
          exact ⟨rfl, rfl, rfl⟩
        simp only [if_neg quote, if_neg letter]
        cases punctuation? c with
        | some kind => exact ⟨rfl, rfl, rfl⟩
        | none => exact rfl
  | some opened =>
    cases openQuote' with
    | none => cases inside
    | some opened' =>
      simp only [Scanner.next, nextInside, advance]
      cases rest with
      | nil => exact rfl
      | cons c cs =>
        dsimp only
        by_cases quote : isQuote c = true
        · simp only [if_pos quote]
          exact ⟨rfl, rfl, rfl⟩
        · simp only [if_neg quote]
          exact ⟨rfl, rfl, rfl⟩

/-- **A reading does not depend on the place.** -/
theorem Alike.reading_eq {s t : Scanner} (h : s.Alike t) : s.reading = t.reading := by
  have step := h.next
  rcases sNext : s.next with ⟨a | a, s'⟩ <;> rcases tNext : t.next with ⟨b | b, t'⟩ <;>
    rw [sNext, tNext] at step
  · simp only [AlikeNext] at step
    simp only [reading, tokens_of_next_error sNext, tokens_of_next_error tNext, step]
  · cases step
  · cases step
  · obtain ⟨kind, alike⟩ := step
    by_cases last : a.kind = .endOfInput
    · simp only [reading, tokens_of_next_end sNext last, tokens_of_next_end tNext (kind ▸ last)]
      rfl
    · have shorter := rest_length_lt_of_next sNext last
      rw [reading_of_next_ok sNext last, reading_of_next_ok tNext (kind ▸ last), kind,
        alike.reading_eq]
termination_by s.rest.length

end Scanner

/-- At the start of a text, from inside a literal or outside. -/
def Scanner.before (inside : Bool) (cs : List Char) : Scanner :=
  { rest := cs, openQuote := if inside then some {} else none }

/-- What a text reads as, from inside a literal or outside. -/
def Reading.of (inside : Bool) (cs : List Char) : Reading :=
  (Scanner.before inside cs).reading

theorem Scanner.reading_eq (s : Scanner) : s.reading = Reading.of s.openQuote.isSome s.rest := by
  apply Alike.reading_eq
  refine ⟨rfl, ?_⟩
  cases s.openQuote <;> rfl

namespace Reading

/-- From one token to the next. -/
theorem of_eq_prepend {inside : Bool} {cs : List Char} {kind : Kind} {p : Position} {t : Scanner}
    (h : (Scanner.before inside cs).next = (.ok ⟨kind, p⟩, t)) (real : kind ≠ .endOfInput) :
    of inside cs = (of t.openQuote.isSome t.rest).prepend [kind] := by
  rw [of, Scanner.reading_of_next_ok h real, t.reading_eq]

theorem of_nil : of false [] = ⟨[], .complete⟩ := by
  have next : (Scanner.before false []).next = (.ok ⟨.endOfInput, {}⟩, Scanner.before false []) :=
    rfl
  rw [of, Scanner.reading, Scanner.tokens_of_next_end next rfl]
  rfl

/-- A blank outside a literal is not read. -/
theorem of_space {c : Char} (h : Text.isWhiteSpace c = true) (cs : List Char) :
    of false (c :: cs) = of false cs := by
  have skip : (Scanner.before false (c :: cs)).next =
      ({ rest := cs, position := ({} : Position).after c } : Scanner).next := by
    simp [Scanner.before, Scanner.next, Scanner.skipSpace, Scanner.advance, h, Position.afterAll]
  rw [of, Scanner.reading, Scanner.tokens_congr skip]
  exact Scanner.reading_eq _

theorem of_punctuation {c : Char} {kind : Kind} (h : punctuation? c = some kind)
    (cs : List Char) : of false (c :: cs) = (of false cs).prepend [kind] := by
  obtain ⟨letter, blank, quote⟩ := plain_of_punctuation h
  have next : (Scanner.before false (c :: cs)).next =
      (.ok ⟨kind, {}⟩, ⟨cs, ({} : Position).after c, none⟩) := by
    simp [Scanner.before, Scanner.next, Scanner.skipSpace, Scanner.advance, Scanner.nextOutside,
      blank, letter, quote, h, Position.afterAll]
  refine of_eq_prepend next ?_
  rintro rfl
  simp [punctuation?] at h
  split at h <;> cases h

/-- A quotation mark opens a literal. -/
theorem of_quote_outside {c : Char} (h : isQuote c = true) (cs : List Char) :
    of false (c :: cs) = (of true cs).prepend [.quote] := by
  have blank := (plain_of_isQuote h).2
  have next : (Scanner.before false (c :: cs)).next =
      (.ok ⟨.quote, {}⟩, ⟨cs, ({} : Position).after c, some {}⟩) := by
    simp [Scanner.before, Scanner.next, Scanner.skipSpace, Scanner.advance, Scanner.nextOutside,
      blank, h, Position.afterAll]
  exact of_eq_prepend next (by simp)

/-- A quotation mark closes a literal. -/
theorem of_quote_inside {c : Char} (h : isQuote c = true) (cs : List Char) :
    of true (c :: cs) = (of false cs).prepend [.quote] := by
  have next : (Scanner.before true (c :: cs)).next =
      (.ok ⟨.quote, {}⟩, ⟨cs, ({} : Position).after c, none⟩) := by
    simp [Scanner.before, Scanner.next, Scanner.nextInside, Scanner.advance, h, Position.afterAll]
  exact of_eq_prepend next (by simp)

/-- A run ends where its property does. -/
theorem takeWhile_dropWhile_append {p : Char → Bool} {run rest : List Char}
    (inside : ∀ c ∈ run, p c = true) (outside : ∀ c ∈ rest.head?, p c = false) :
    (run ++ rest).takeWhile p = run ∧ (run ++ rest).dropWhile p = rest := by
  rw [List.takeWhile_append_of_pos inside, List.dropWhile_append_of_pos inside]
  cases rest with
  | nil => simp
  | cons c cs => simp [outside c rfl]

/-- Two texts agree only if the runs at their start do. -/
theorem append_inj_of_runs {p : Char → Bool} {run run' rest rest' : List Char}
    (inside : ∀ c ∈ run, p c = true) (outside : ∀ c ∈ rest.head?, p c = false)
    (inside' : ∀ c ∈ run', p c = true) (outside' : ∀ c ∈ rest'.head?, p c = false)
    (same : run ++ rest = run' ++ rest') : run = run' ∧ rest = rest' := by
  have cut := takeWhile_dropWhile_append inside outside
  have cut' := takeWhile_dropWhile_append inside' outside'
  rw [same] at cut
  exact ⟨cut.1.symm.trans cut'.1, cut.2.symm.trans cut'.2⟩

/-- Two texts agree only if they do up to the first of a character, and behind it. -/
theorem append_cons_inj_of_notMem {c : Char} {run run' rest rest' : List Char} (h : c ∉ run)
    (h' : c ∉ run') (same : run ++ c :: rest = run' ++ c :: rest') :
    run = run' ∧ rest = rest' := by
  have other : ∀ run : List Char, c ∉ run → ∀ d ∈ run, decide (d ≠ c) = true := by
    intro run absent d hd
    rw [decide_eq_true_eq]
    exact ne_of_mem_of_not_mem hd absent
  obtain ⟨front, back⟩ := append_inj_of_runs (other run h) (by simp) (other run' h') (by simp) same
  exact ⟨front, (List.cons.inj back).2⟩

/-- Letters up to something else are one name. -/
theorem of_name {name rest : List Char} (inhabited : name ≠ [])
    (letters : ∀ c ∈ name, Text.isAlphabetic c = true)
    (ends : ∀ c ∈ rest.head?, Text.isAlphabetic c = false) :
    of false (name ++ rest) = (of false rest).prepend [.identifier (String.ofList name)] := by
  obtain ⟨run, left⟩ := takeWhile_dropWhile_append letters ends
  obtain ⟨c, cs, rfl⟩ := List.exists_cons_of_ne_nil inhabited
  have letter := letters c (by simp)
  have next : (Scanner.before false (c :: cs ++ rest)).next =
      (.ok ⟨.identifier (String.ofList (c :: cs)), {}⟩,
        ⟨rest, ({} : Position).afterAll (c :: cs), none⟩) := by
    rw [List.cons_append] at run left ⊢
    simp [Scanner.before, Scanner.next, Scanner.skipSpace, Scanner.advance, Scanner.nextOutside,
      isWhiteSpace_of_isAlphabetic letter, isQuote_of_isAlphabetic letter, letter, run, left,
      Position.afterAll]
  exact of_eq_prepend next (by simp)

/-- What is no quotation mark, up to one, is the text of a literal. -/
theorem of_literal {run rest : List Char} (inhabited : run ≠ [])
    (plain : ∀ c ∈ run, isQuote c = false) (ends : ∀ c ∈ rest.head?, isQuote c = true) :
    of true (run ++ rest) =
      (of true rest).prepend [.literal (String.ofList (run.map literalChar))] := by
  have ⟨inside, left⟩ : (run ++ rest).takeWhile (!isQuote ·) = run ∧
      (run ++ rest).dropWhile (!isQuote ·) = rest :=
    takeWhile_dropWhile_append (by simpa using plain) (by simpa using ends)
  obtain ⟨c, cs, rfl⟩ := List.exists_cons_of_ne_nil inhabited
  have next : (Scanner.before true (c :: cs ++ rest)).next =
      (.ok ⟨.literal (String.ofList ((c :: cs).map literalChar)), {}⟩,
        ⟨rest, ({} : Position).afterAll (c :: cs), some {}⟩) := by
    rw [List.cons_append] at inside left ⊢
    simp only [Scanner.before, Scanner.next, Scanner.nextInside, Scanner.advance,
      plain c (by simp), inside, left]
    rfl
  exact of_eq_prepend next (by simp)

end Reading

/-! ### What tokens hold -/

/-- A name is made of letters, and the text of a literal holds no quotation mark and no space. -/
def Token.Kind.Readable : Kind → Prop
  | .identifier name => name.toList ≠ [] ∧ ∀ c ∈ name.toList, Text.isAlphabetic c = true
  | .literal text => text.toList ≠ [] ∧ ∀ c ∈ text.toList, isQuote c = false ∧ c ≠ ' '
  | _ => True

theorem readable_of_punctuation {c : Char} {kind : Kind} (h : punctuation? c = some kind) :
    kind.Readable := by
  unfold punctuation? at h
  split at h <;> cases h <;> trivial

/-- A character of a literal is shown as none that a literal cannot hold. -/
theorem literalChar_readable {c : Char} (h : isQuote c = false) :
    isQuote (literalChar c) = false ∧ literalChar c ≠ ' ' := by
  unfold literalChar
  split
  · decide
  · exact ⟨h, by assumption⟩

namespace Scanner

theorem readable_of_next_ok {s t : Scanner} {token : Token} (h : s.next = (.ok token, t)) :
    token.kind.Readable := by
  unfold next at h
  split at h
  · generalize s.skipSpace = u at h
    unfold nextOutside at h
    split at h
    · cases h
      trivial
    rename_i c cs rest
    split at h
    · cases h
      trivial
    split at h
    · rename_i letter
      cases h
      constructor
      · simp [rest, List.takeWhile_cons_of_pos letter]
      · intro d hd
        exact List.all_eq_true.mp List.all_takeWhile d (by simpa using hd)
    split at h
    · rename_i kind found
      cases h
      exact readable_of_punctuation found
    · cases h
  · unfold nextInside at h
    split at h
    · cases h
    rename_i c cs rest
    split at h
    · cases h
      trivial
    · rename_i quote
      cases h
      constructor
      · simp [rest, List.takeWhile_cons_of_pos (p := (!isQuote ·)) (by simpa using quote)]
      · intro d hd
        obtain ⟨e, he, rfl⟩ : ∃ e ∈ s.rest.takeWhile (!isQuote ·), literalChar e = d := by
          simpa using hd
        exact literalChar_readable (by simpa using List.all_eq_true.mp List.all_takeWhile e he)

theorem readable_of_mem_tokens {s : Scanner} {token : Token} (h : token ∈ s.tokens.1) :
    token.kind.Readable := by
  rcases next : s.next with ⟨e | first, t⟩
  · rw [tokens_of_next_error next] at h
    cases h
  · by_cases last : first.kind = .endOfInput
    · rw [tokens_of_next_end next last] at h
      cases h
    · rw [tokens_of_next_ok next last] at h
      have shorter := rest_length_lt_of_next next last
      rcases List.mem_cons.mp h with rfl | h
      · exact readable_of_next_ok next
      · exact readable_of_mem_tokens h
termination_by s.rest.length

/-- **Everything that is read can be read again.** -/
theorem readable_of_mem_reading {s : Scanner} {kind : Kind} (h : kind ∈ s.reading.kinds) :
    kind.Readable := by
  obtain ⟨token, htoken, rfl⟩ := List.mem_map.mp h
  exact readable_of_mem_tokens htoken

end Scanner

end Railroad
