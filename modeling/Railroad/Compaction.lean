import Railroad.Grammar

/-!
How the first repetition of a term is drawn together with the factors in front of it.

A term such as `a b {b}` says "one or more `b`" the long way round. If the body of the repetition
ends as the factors right before it do, those factors need not be drawn: they become the first
round of a loop. When they are the whole body, the loop has nothing on its way back (`fullMatch`);
when the rest of the body is terminal, the rest goes on the way back (`separator`), as in
`Item {"," Item}`. In all other cases the factors are drawn one by one. Only the first repetition of
a term is looked at.
-/

namespace Railroad

/-- A term cut at its first repetition. -/
structure RepetitionSplit where
  before : List Factor
  body : Expression
  after : List Factor

/-- Cuts a term at its first repetition. -/
def splitAtRepetition : List Factor → Option RepetitionSplit
  | [] => none
  | .bracketed _ .repetition body :: after => some ⟨[], body, after⟩
  | factor :: rest =>
    (splitAtRepetition rest).map fun split => { split with before := factor :: split.before }

/-- How many factors at the end of both lists are the same symbols, pair by pair. -/
def matchedSuffix (outer inner : List Factor) : Nat :=
  ((outer.reverse.zip inner.reverse).takeWhile fun (a, b) => a.sameSymbol b).length

/-- The decision on a term. `index` is the place of its first repetition, `matched` the number of
factors before it that are not drawn, `head` the number of factors on the way back. -/
inductive Compaction where
  | singleFactor
  | noRepetition
  /-- The body of the repetition is a choice. -/
  | bodyWithChoice
  | fullMatch (index matched : Nat)
  | separator (index matched head : Nat)
  /-- The body does not end as the factors before it, or its head cannot go on the way back. -/
  | noMatch
deriving DecidableEq, Repr

namespace Compaction

/-- The decision on a term whose first repetition stands behind `before` and has the one term
`inner` in its body. -/
def ofSingleBody (before inner : List Factor) : Compaction :=
  let matched := matchedSuffix before inner
  let head := inner.length - matched
  if matched = inner.length then .fullMatch before.length matched
  else if 0 < matched ∧ (inner.take head).all Factor.isTerminal then
    .separator before.length matched head
  else .noMatch

/-- The decision on the factors of a term. -/
def of (factors : List Factor) : Compaction :=
  if factors.length = 1 then .singleFactor
  else
    match splitAtRepetition factors with
    | none => .noRepetition
    | some split =>
      match split.body.singleTerm? with
      | none => .bodyWithChoice
      | some inner => ofSingleBody split.before inner.factors

def describe : Compaction → String
  | .singleFactor => "single factor"
  | .noRepetition => "no repetition"
  | .bodyWithChoice => "repetition has alternatives"
  | .fullMatch _ matched => s!"full match of {matched} factor(s)"
  | .separator _ _ head => s!"{head} separator factor(s) on the return edge"
  | .noMatch => "no compaction"

end Compaction

end Railroad
