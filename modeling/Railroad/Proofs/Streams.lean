import Mathlib.Data.List.DropRight
import Railroad.Proofs.Tiles

/-!
What a stream answers, in whatever order it is asked.

* `Scanner.next_of_end`: the end of the input and errors are met again each time.
* `Scanner.hasNext_eq_false_iff`: nothing lies ahead exactly if the end of the input or a missing
  quotation mark comes next.
* `Stream.Call`, `Stream.Reply`: what a stream can be asked and what it says. `Stream.call` answers
  one call, `Stream.calls` answers several on the same stream.
* `Stream.tokens_call`, `Stream.Settled.call`, `Stream.finished_call`: what one call preserves, and
  with `calls` in the name what several do.
* `Stream.calls_interleaved`: so calls of all sorts can be mixed freely.
-/

namespace Railroad

/-! ### One reading -/

/-- The token that a reading gives, if it gives one. -/
def tokenOf? : Except ScanError Token → Option Token
  | .ok token => if token.kind = .endOfInput then none else some token
  | .error _ => none

namespace Scanner

variable {s t : Scanner} {outcome : Except ScanError Token}

theorem tokenOf?_of_givesToken {token : Token} (h : token.kind ≠ .endOfInput) :
    tokenOf? (.ok token) = some token :=
  if_neg h

theorem tokenOf?_of_end (h : ¬ GivesToken outcome) : tokenOf? outcome = none := by
  rcases outcome with e | token
  · rfl
  · exact if_pos (Decidable.byContradiction fun real => h ⟨token, rfl, real⟩)

/-- No blanks are left behind blanks. -/
theorem skipSpace_skipSpace (s : Scanner) : s.skipSpace.skipSpace = s.skipSpace := by
  have first := head?_dropWhile_eq_false Text.isWhiteSpace s.rest
  have none : s.skipSpace.rest.takeWhile Text.isWhiteSpace = [] := by
    show (s.rest.dropWhile Text.isWhiteSpace).takeWhile Text.isWhiteSpace = []
    cases ahead : s.rest.dropWhile Text.isWhiteSpace with
    | nil => rfl
    | cons c cs =>
      rw [ahead] at first
      exact List.takeWhile_cons_of_neg (by simp [first c rfl])
  have same : s.skipSpace.rest.dropWhile Text.isWhiteSpace = s.skipSpace.rest :=
    List.dropWhile_idempotent Text.isWhiteSpace s.rest
  rw [skipSpace, none, same]
  rfl

theorem ne_endOfInput_of_punctuation {c : Char} {kind : Token.Kind}
    (h : punctuation? c = some kind) : kind ≠ .endOfInput := by
  rintro rfl
  unfold punctuation? at h
  split at h <;> cases h

/-- What is met at the very place and is no token leaves the scanner there. -/
theorem eq_of_nextOutside_end (h : s.nextOutside = (outcome, t)) (ends : ¬ GivesToken outcome) :
    t = s := by
  unfold nextOutside at h
  split at h
  · exact (Prod.mk.inj h).2.symm
  · rename_i c cs rest
    split at h
    · obtain ⟨rfl, -⟩ := Prod.mk.inj h
      exact absurd ⟨_, rfl, by simp⟩ ends
    · split at h
      · obtain ⟨rfl, -⟩ := Prod.mk.inj h
        exact absurd ⟨_, rfl, by simp⟩ ends
      · split at h
        · rename_i kind sign
          obtain ⟨rfl, -⟩ := Prod.mk.inj h
          exact absurd ⟨_, rfl, ne_endOfInput_of_punctuation sign⟩ ends
        · exact (Prod.mk.inj h).2.symm

theorem eq_of_nextInside_end {opened : Position} (h : s.nextInside opened = (outcome, t))
    (ends : ¬ GivesToken outcome) : t = s := by
  unfold nextInside at h
  split at h
  · exact (Prod.mk.inj h).2.symm
  · split at h
    all_goals
      obtain ⟨rfl, -⟩ := Prod.mk.inj h
      exact absurd ⟨_, rfl, by simp⟩ ends

/-- **The end of the input and errors are met again each time**, at the same place. -/
theorem next_of_end (h : s.next = (outcome, t)) (ends : ¬ GivesToken outcome) :
    t.next = (outcome, t) := by
  unfold next at h
  split at h
  · rename_i outside
    -- Only blanks were passed over, and there are no more of them.
    obtain rfl := eq_of_nextOutside_end h ends
    have still : s.skipSpace.openQuote = none := outside
    rw [next, still]
    show s.skipSpace.skipSpace.nextOutside = _
    rw [skipSpace_skipSpace, h]
  · rename_i opened inside
    obtain rfl := eq_of_nextInside_end h ends
    rw [next, inside]
    exact h

/-- What a reading gives and what is left are all that there was. -/
theorem tokens_next (s : Scanner) :
    (tokenOf? s.next.1).toList ++ s.next.2.tokens.1 = s.tokens.1 := by
  rcases next : s.next with ⟨outcome, t⟩
  by_cases gives : GivesToken outcome
  · obtain ⟨token, rfl, real⟩ := gives
    rw [tokens_of_next_ok next real, tokenOf?_of_givesToken real]
    rfl
  · have same := tokens_congr (next.trans (next_of_end next gives).symm)
    rw [tokenOf?_of_end gives, same]
    rfl

/-- Nothing lies ahead exactly if the end of the input or a missing quotation mark comes next. -/
theorem hasNext_eq_false_iff (s : Scanner) :
    s.hasNext = false ↔
      (∃ place, s.next.1 = .ok ⟨.endOfInput, place⟩) ∨
        ∃ opened, s.next.1 = .error (.unterminatedLiteral opened) := by
  cases inside : s.openQuote with
  | none =>
    have ahead : s.hasNext = false ↔ s.skipSpace.rest = [] := by
      simp [hasNext, inside, skipSpace, List.any_eq_false]
    rw [ahead, next, inside]
    show _ ↔ (∃ place, s.skipSpace.nextOutside.1 = _) ∨ ∃ opened, s.skipSpace.nextOutside.1 = _
    unfold nextOutside
    split
    · rename_i empty
      simp [empty]
    · rename_i c cs rest
      rw [rest]
      refine iff_of_false (List.cons_ne_nil c cs) ?_
      split
      · simp
      · split
        · simp
        · split
          · rename_i kind sign
            simp [ne_endOfInput_of_punctuation sign]
          · simp
  | some opened =>
    have ahead : s.hasNext = false ↔ s.rest = [] := by simp [hasNext, inside]
    rw [ahead, next, inside]
    show _ ↔ (∃ place, (s.nextInside opened).1 = _) ∨ ∃ place, (s.nextInside opened).1 = _
    unfold nextInside
    split
    · rename_i empty
      simp [empty]
    · rename_i c cs rest
      rw [rest]
      refine iff_of_false (List.cons_ne_nil c cs) ?_
      split <;> simp

end Scanner

/-! ### Calls -/

namespace Stream

/-- What a stream can be asked. -/
inductive Call where
  /-- Whether anything lies ahead. -/
  | hasNext
  /-- Where the next character is. -/
  | position
  /-- A token, whether the stream is finished or not. -/
  | nextToken
  /-- The next of what the stream yields. -/
  | next
deriving DecidableEq, Repr

/-- What a stream says to a call. -/
inductive Reply where
  | hasNext (ahead : Bool)
  | position (place : Position)
  | nextToken (outcome : Except ScanError Token)
  | next (yielded : Option (Except ScanError Token))

/-- Answers a call. -/
def call (s : Stream) : Call → Reply × Stream
  | .hasNext => (.hasNext s.scanner.hasNext, s)
  | .position => (.position s.scanner.position, s)
  | .nextToken => (.nextToken s.nextToken.1, s.nextToken.2)
  | .next => (.next s.next?.1, s.next?.2)

/-- Answers one call after the other. -/
def calls (s : Stream) : List Call → List Reply × Stream
  | [] => ([], s)
  | c :: rest => ((s.call c).1 :: ((s.call c).2.calls rest).1, ((s.call c).2.calls rest).2)

/-- The token that a reply gives. -/
def Reply.token? : Reply → Option Token
  | .nextToken outcome | .next (some outcome) => tokenOf? outcome
  | .hasNext _ | .position _ | .next none => none

/-- Whether the reply is an error that the stream yields. -/
def Reply.yieldsError : Reply → Bool
  | .next (some (.error _)) => true
  | _ => false

/-- Whether the call only looks at the stream. -/
def Call.looks : Call → Bool
  | .hasNext | .position => true
  | .nextToken | .next => false

/-- Whether the reply is to a call that only looks at the stream. -/
def Reply.looks : Reply → Bool
  | .hasNext _ | .position _ => true
  | .nextToken _ | .next _ => false

variable {s t : Stream}

theorem next?_of_finished (h : s.finished = true) : s.next? = (none, s) :=
  if_pos h

/-- What a stream yields is a reading that is a token or, for the last time, an error. -/
theorem next?_cases (s : Stream) :
    s.next? = (none, s) ∧ s.finished = true ∨
      s.next? = (none, ⟨s.scanner.next.2, true⟩) ∧ tokenOf? s.scanner.next.1 = none ∨
      (∃ e, s.next? = (some (.error e), ⟨s.scanner.next.2, true⟩) ∧
        s.scanner.next.1 = .error e ∧ s.finished = false) ∨
      ∃ token, s.next? = (some (.ok token), ⟨s.scanner.next.2, false⟩) ∧
        s.scanner.next.1 = .ok token ∧ token.kind ≠ .endOfInput := by
  by_cases finished : s.finished = true
  · exact .inl ⟨next?_of_finished finished, finished⟩
  · rw [next?, if_neg finished]
    rcases s.scanner.next with ⟨e | token, scanner⟩
    · exact .inr (.inr (.inl ⟨e, rfl, rfl, by simpa using finished⟩))
    · by_cases last : token.kind = .endOfInput
      · exact .inr (.inl ⟨if_pos last, if_pos last⟩)
      · exact .inr (.inr (.inr ⟨token, if_neg last, rfl, last⟩))

/-- What a call gives and what is left are all that there was. -/
theorem tokens_call (s : Stream) (c : Call) :
    (s.call c).1.token?.toList ++ (s.call c).2.scanner.tokens.1 = s.scanner.tokens.1 := by
  have read := s.scanner.tokens_next
  cases c with
  | hasNext | position => rfl
  | nextToken => exact read
  | next =>
    rw [call]
    rcases s.next?_cases with ⟨yields, -⟩ | ⟨yields, none⟩ | ⟨e, yields, error, -⟩ |
      ⟨token, yields, found, -⟩
    · rw [yields]
      rfl
    · rw [none] at read
      rw [yields]
      exact read
    · rw [error] at read
      rw [yields]
      exact read
    · rw [found] at read
      rw [yields]
      exact read

/-- **No token is lost and none comes twice.** -/
theorem tokens_calls (s : Stream) (calls : List Call) :
    (s.calls calls).1.filterMap Reply.token? ++ (s.calls calls).2.scanner.tokens.1 =
      s.scanner.tokens.1 := by
  induction calls generalizing s with
  | nil => rfl
  | cons c rest ih =>
    rw [← s.tokens_call c, ← ih (s.call c).2, ← List.append_assoc]
    congr 1
    rw [Stream.calls, List.filterMap_cons]
    cases (s.call c).1.token? <;> rfl

theorem looks_call (s : Stream) (c : Call) : (s.call c).1.looks = c.looks := by
  cases c <;> rfl

theorem call_of_looks {c : Call} (h : c.looks = true) : (s.call c).2 = s := by
  cases c with
  | hasNext | position => rfl
  | nextToken | next => cases h

/-- **Looking changes nothing**: without the calls that only look, the others are answered in the same
way. -/
theorem calls_reading (s : Stream) (calls : List Call) :
    s.calls (calls.filter (!·.looks)) =
      ((s.calls calls).1.filter (!·.looks), (s.calls calls).2) := by
  induction calls generalizing s with
  | nil => rfl
  | cons c rest ih =>
    rw [Stream.calls]
    by_cases looks : c.looks = true
    · rw [List.filter_cons_of_neg (by simp [looks]),
        List.filter_cons_of_neg (by simp [looks_call, looks]), call_of_looks looks, ih]
    · rw [List.filter_cons_of_pos (by simp [looks]),
        List.filter_cons_of_pos (by simp [looks_call, looks]), Stream.calls, ih]

/-- Reading comes to no token any more, and stays where it is. -/
structure Settled (outcome : Except ScanError Token) (s : Stream) : Prop where
  ends : ¬ Scanner.GivesToken outcome
  next : s.scanner.next = (outcome, s.scanner)

theorem settled_of_nextToken {outcome : Except ScanError Token} (h : s.nextToken = (outcome, t))
    (ends : ¬ Scanner.GivesToken outcome) : t.Settled outcome := by
  obtain ⟨rfl, rfl⟩ := Prod.mk.inj h
  exact ⟨ends, Scanner.next_of_end rfl ends⟩

namespace Settled

variable {outcome : Except ScanError Token}

/-- No call moves the scanner on. -/
theorem call (h : s.Settled outcome) (c : Call) : (s.call c).2.scanner = s.scanner := by
  have stays : s.scanner.next.2 = s.scanner := by rw [h.next]
  cases c with
  | hasNext | position => rfl
  | nextToken => exact stays
  | next =>
    rw [Stream.call]
    rcases s.next?_cases with ⟨yields, -⟩ | ⟨yields, -⟩ | ⟨e, yields, -⟩ | ⟨token, yields, -⟩
    · rw [yields]
    all_goals
      rw [yields]
      exact stays

theorem calls (h : s.Settled outcome) (calls : List Call) :
    (s.calls calls).2.scanner = s.scanner := by
  induction calls generalizing s with
  | nil => rfl
  | cons c rest ih =>
    have same := h.call c
    have still : (s.call c).2.Settled outcome := ⟨h.ends, by rw [same, h.next]⟩
    exact (ih still).trans same

theorem nextToken (h : s.Settled outcome) : s.nextToken = (outcome, s) := by
  rw [Stream.nextToken, h.next]

end Settled

theorem finished_call (h : s.finished = true) (c : Call) : (s.call c).2.finished = true := by
  cases c with
  | hasNext | position | nextToken => exact h
  | next =>
    rw [call, next?_of_finished h]
    exact h

theorem finished_calls (h : s.finished = true) (calls : List Call) :
    (s.calls calls).2.finished = true := by
  induction calls generalizing s with
  | nil => exact h
  | cons c rest ih => exact ih (finished_call h c)

/-- An error that is yielded finishes the stream, which was not finished before. -/
theorem finished_of_yieldsError {c : Call} (h : (s.call c).1.yieldsError = true) :
    s.finished = false ∧ (s.call c).2.finished = true := by
  cases c with
  | hasNext | position | nextToken => cases h
  | next =>
    rw [call] at h ⊢
    rcases s.next?_cases with ⟨yields, -⟩ | ⟨yields, -⟩ | ⟨e, yields, -, running⟩ |
      ⟨token, yields, -⟩
    · rw [yields] at h
      cases h
    · rw [yields] at h
      cases h
    · rw [yields]
      exact ⟨running, rfl⟩
    · rw [yields] at h
      cases h

/-- **At most one error is yielded**, and none by a stream that is finished. -/
theorem countP_yieldsError_calls (s : Stream) (calls : List Call) :
    (s.calls calls).1.countP Reply.yieldsError ≤ if s.finished then 0 else 1 := by
  induction calls generalizing s with
  | nil => exact Nat.zero_le _
  | cons c rest ih =>
    rw [Stream.calls, List.countP_cons]
    have later := ih (s.call c).2
    by_cases here : (s.call c).1.yieldsError = true
    · obtain ⟨running, finished⟩ := finished_of_yieldsError here
      rw [finished] at later
      rw [running, here]
      simpa using later
    · rw [if_neg here, Nat.add_zero]
      by_cases finished : s.finished = true
      · rw [finished]
        rwa [finished_call finished c] at later
      · rw [if_neg finished]
        split at later <;> omega

/-- **Calls of all sorts can be mixed freely**, from the start of a text or from any other state. The
tokens that are given, in the order of the calls, and then those that are left are all tokens there
are; calls that only look change nothing; at most one error is yielded. Behind the calls, nothing lies
ahead exactly if the end of the input or a missing quotation mark comes next. If a token is asked for
there and the answer is the end or an error, that is the answer for good, and the place stays. If
what is yielded there is nothing or an error, nothing is yielded any more. -/
theorem calls_interleaved (s : Stream) (calls : List Call) :
    (s.calls calls).1.filterMap Reply.token? ++ (s.calls calls).2.scanner.tokens.1 =
        s.scanner.tokens.1 ∧
      s.calls (calls.filter (!·.looks)) =
        ((s.calls calls).1.filter (!·.looks), (s.calls calls).2) ∧
      (s.calls calls).1.countP Reply.yieldsError ≤ 1 ∧
      ((s.calls calls).2.scanner.hasNext = false ↔
        (∃ place, (s.calls calls).2.nextToken.1 = .ok ⟨.endOfInput, place⟩) ∨
          ∃ opened, (s.calls calls).2.nextToken.1 = .error (.unterminatedLiteral opened)) ∧
      (∀ outcome t, (s.calls calls).2.nextToken = (outcome, t) → ¬ Scanner.GivesToken outcome →
        ∀ later, (t.calls later).2.nextToken = (outcome, (t.calls later).2) ∧
          (t.calls later).2.scanner.position = t.scanner.position) ∧
      ∀ yielded t, (s.calls calls).2.next? = (yielded, t) →
        (yielded = none ∨ ∃ e, yielded = some (.error e)) →
        ∀ later, (t.calls later).2.next? = (none, (t.calls later).2) := by
  refine ⟨s.tokens_calls calls, s.calls_reading calls, ?_, ?_, ?_, ?_⟩
  · refine Nat.le_trans (s.countP_yieldsError_calls calls) ?_
    split <;> decide
  · exact Scanner.hasNext_eq_false_iff _
  · intro outcome t read ends later
    have settled := settled_of_nextToken read ends
    have same := settled.calls later
    have still : (t.calls later).2.Settled outcome := ⟨ends, by rw [same, settled.next]⟩
    exact ⟨still.nextToken, by rw [same]⟩
  · intro yielded t yields last later
    refine next?_of_finished (finished_calls ?_ later)
    rcases next?_cases (s.calls calls).2 with ⟨same, finished⟩ | ⟨same, -⟩ | ⟨e, same, -⟩ |
      ⟨token, same, -⟩
    all_goals obtain ⟨rfl, rfl⟩ := Prod.mk.inj (same.symm.trans yields)
    · exact finished
    · rfl
    · rfl
    · rcases last with none | ⟨e, error⟩
      · cases none
      · cases error

/-- The literal is not closed: behind its text nothing lies ahead, the error is yielded once and given
again to everyone who asks for a token. -/
example : ((Stream.mk (.ofString "a \"b") false).calls
      [.next, .position, .nextToken, .next, .hasNext, .next, .nextToken, .next]).1 =
    [.next (some (.ok ⟨.identifier "a", ⟨1, 1⟩⟩)), .position ⟨1, 2⟩, .nextToken (.ok ⟨.quote, ⟨1, 3⟩⟩),
      .next (some (.ok ⟨.literal "b", ⟨1, 4⟩⟩)), .hasNext false,
      .next (some (.error (.unterminatedLiteral ⟨1, 3⟩))),
      .nextToken (.error (.unterminatedLiteral ⟨1, 3⟩)), .next none] := by
  cbv

end Stream

end Railroad
