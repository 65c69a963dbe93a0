import Railroad.Compaction
import Railroad.Log
import Railroad.Track

/-!
The layout of an expression: which tracks it is drawn with, before any reference is opened.

`Expression.layout` decides everything that does not depend on what the reader has opened: how
terms are compacted, which repetitions become parallel ways back, and the key of each occurrence. A
layout also fixes the order of drawing, which is the order of the pieces in a layout with one
exception: a `compacted` term draws its loop before the factors in front of it.

The factors of an expression in brackets are needed one by one when the brackets are drawn as a
loop. So the layout of a part goes along with that of its pieces (`Alternative`, `Sketch`), and each
factor is laid out once. The equations of `Expression.layout`, `Term.layout` and `Factor.layout` say
what comes out without mentioning pieces.
-/

namespace Railroad

/-- What is recorded of a layout while it is drawn. -/
inductive LayoutNote where
  /-- It was decided how to draw the term. -/
  | term (term : Term) (decision : Compaction)
  /-- The alternatives of the repetition become parallel ways back. -/
  | parallel (body : Expression)

def LayoutNote.logRecord : LayoutNote → LogRecord
  | .term t decision => ⟨.debug, "term \x60" ++ t.text ++ "\x60: " ++ decision.describe⟩
  | .parallel body =>
    ⟨.debug, "repetition \x7b" ++ body.text ++ "\x7d: parallel terminal alternatives"⟩

/-- A track with references that are still to be opened or left closed. -/
inductive Layout where
  | terminal (text : String) (path : PathKey)
  | reference (name : String) (path : PathKey)
  | skip
  | sequence (items : List Layout)
  /-- A sequence, unless there is one item only. -/
  | joined (items : List Layout)
  /-- Drawn as `joined` in the given order, then turned round. -/
  | returned (items : List Layout)
  /-- The option in the middle is drawn straight. -/
  | choice (options : List Layout)
  | optional (item : Layout)
  | zeroOrMore (item : Layout)
  | oneOrMore (item : Layout)
  | loop (item back : Layout)
  /-- `joined`, with the loop between `before` and `after` but drawn first. -/
  | compacted (loop : Layout) (before after : List Layout)
  /-- The note is recorded before the item is drawn. -/
  | noted (note : LayoutNote) (item : Layout)

/-- The layout of a term and of each of its factors. -/
structure Alternative where
  whole : Layout
  pieces : List Layout

/-- The layout of a factor and, if it is in brackets, of the terms between them. -/
structure Sketch where
  whole : Layout
  alternatives : List Alternative

/-- The layout of an expression with the given terms: the term itself if there is no choice. -/
def Alternative.either : List Alternative → Layout
  | [only] => only.whole
  | alternatives => .choice (alternatives.map Alternative.whole)

/-- A repetition that is not compacted. If it has several terms and all their factors are terminal,
each term becomes a way back, which is read from right to left. -/
def Alternative.repeated (body : Expression) (alternatives : List Alternative) : Layout :=
  if 1 < body.terms.length ∧ body.terms.all (·.factors.all Factor.isTerminal) then
    .noted (.parallel body)
      (.loop .skip (.choice (alternatives.map fun alternative => .returned alternative.pieces)))
  else .zeroOrMore (either alternatives)

/-- The layout of an expression in brackets. -/
def Alternative.bracketed (bracket : Bracket) (body : Expression)
    (alternatives : List Alternative) : Layout :=
  match bracket with
  | .group => .sequence [either alternatives]
  | .option => .optional (either alternatives)
  | .repetition => repeated body alternatives

/-- The layout of a term from the layouts of its factors. -/
def Sketch.arrange (term : Term) (sketches : List Sketch) : Layout :=
  let decision := Compaction.of term.factors
  let pieces := sketches.map Sketch.whole
  let alternativesAt (index : Nat) := (sketches[index]?.map Sketch.alternatives).getD []
  .noted (.term term decision)
    (match decision with
    | .singleFactor => .joined pieces
    | .noRepetition | .bodyWithChoice | .noMatch => .sequence pieces
    | .fullMatch index matched =>
      .compacted (.oneOrMore (Alternative.either (alternativesAt index)))
        (pieces.take (index - matched)) (pieces.drop (index + 1))
    | .separator index matched head =>
      let inner := (alternativesAt index).flatMap Alternative.pieces
      .compacted (.loop (.joined (inner.drop head)) (.joined (inner.take head)))
        (pieces.take (index - matched)) (pieces.drop (index + 1)))

mutual

/-- The layouts of the terms of an expression, to which the path leads. -/
def Expression.alternatives (path : Path) : Expression → List Alternative
  | ⟨_, terms⟩ => Term.alternatives path terms

def Term.alternative (path : Path) : Term → Alternative
  | ⟨id, factors⟩ =>
    let sketches := Factor.sketches path factors
    ⟨Sketch.arrange ⟨id, factors⟩ sketches, sketches.map Sketch.whole⟩

def Factor.sketch (path : Path) : Factor → Sketch
  | .identifier _ name =>
    let key := (path.push name.id).key
    ⟨if name.isReference then .reference name.text key else .terminal name.text key, []⟩
  | .literal _ l => ⟨.terminal l.text (path.push l.id).key, []⟩
  | .bracketed _ bracket body =>
    let alternatives := body.alternatives (path.push body.id)
    ⟨Alternative.bracketed bracket body alternatives, alternatives⟩

/-- The layouts of terms that stand below the last node of the path. -/
def Term.alternatives (path : Path) : List Term → List Alternative
  | [] => []
  | term :: rest => term.alternative (path.push term.id) :: Term.alternatives path rest

def Factor.sketches (path : Path) : List Factor → List Sketch
  | [] => []
  | factor :: rest => factor.sketch (path.push factor.id) :: Factor.sketches path rest

end

/-- The layout of an expression that stands below the ids of `above`. -/
def Expression.layout (above : List NodeId) (e : Expression) : Layout :=
  Alternative.either (e.alternatives (.along above e.id))

/-- The layout of a term that stands below the ids of `above`. -/
def Term.layout (above : List NodeId) (term : Term) : Layout :=
  (term.alternative (.along above term.id)).whole

/-- The layouts of a factor that stands below the ids of `above`, and of the terms in it. -/
def Factor.sketchBelow (above : List NodeId) (factor : Factor) : Sketch :=
  factor.sketch (.along above factor.id)

/-- The layout of a factor that stands below the ids of `above`. -/
def Factor.layout (above : List NodeId) (factor : Factor) : Layout :=
  (factor.sketchBelow above).whole

theorem Term.alternatives_eq_map (path : Path) (terms : List Term) :
    Term.alternatives path terms = terms.map fun term => term.alternative (path.push term.id) := by
  induction terms with
  | nil => rfl
  | cons term rest ih => simp [Term.alternatives, ih]

theorem Factor.sketches_eq_map (path : Path) (factors : List Factor) :
    Factor.sketches path factors = factors.map fun factor => factor.sketch (path.push factor.id) := by
  induction factors with
  | nil => rfl
  | cons factor rest ih => simp [Factor.sketches, ih]

/-- An expression is laid out as its only term or as a choice. -/
theorem Expression.layout_eq (above : List NodeId) (e : Expression) :
    e.layout above =
      match e.terms with
      | [term] => term.layout (above ++ [e.id])
      | terms => .choice (terms.map (Term.layout (above ++ [e.id]))) := by
  obtain ⟨id, terms⟩ := e
  match terms with
  | [] => rfl
  | [_] =>
    simp [layout, alternatives, Term.alternatives, Alternative.either, Term.layout,
      Path.along_append]
  | _ :: _ :: _ =>
    simp [layout, alternatives, Term.alternatives_eq_map, Alternative.either, Term.layout,
      Path.along_append]

/-- The factors of a term are laid out below it. -/
theorem Factor.sketches_along (above : List NodeId) (id : NodeId) (factors : List Factor) :
    Factor.sketches (.along above id) factors = factors.map (Factor.sketchBelow (above ++ [id])) := by
  simp only [sketches_eq_map, ← Path.along_append]
  rfl

/-- A term is arranged from its factors. -/
theorem Term.layout_eq (above : List NodeId) (term : Term) :
    term.layout above =
      Sketch.arrange term (term.factors.map (Factor.sketchBelow (above ++ [term.id]))) := by
  obtain ⟨id, factors⟩ := term
  rw [← Factor.sketches_along]
  rfl

theorem Term.alternative_pieces (above : List NodeId) (term : Term) :
    (term.alternative (.along above term.id)).pieces =
      term.factors.map (Factor.layout (above ++ [term.id])) := by
  obtain ⟨id, factors⟩ := term
  rw [alternative, Factor.sketches_along, List.map_map]
  rfl

/-- A name is laid out as a reference or a terminal, by its first character. -/
theorem Factor.layout_identifier (above : List NodeId) (id : NodeId) (name : Identifier) :
    (Factor.identifier id name).layout above =
      if name.isReference then .reference name.text ⟨above ++ [id, name.id]⟩
      else .terminal name.text ⟨above ++ [id, name.id]⟩ := by
  simp [layout, sketchBelow, sketch, Factor.id, PathKey.push]

theorem Factor.layout_literal (above : List NodeId) (id : NodeId) (l : Literal) :
    (Factor.literal id l).layout above = .terminal l.text ⟨above ++ [id, l.id]⟩ := by
  simp [layout, sketchBelow, sketch, Factor.id, PathKey.push]

/-- What stands in brackets is laid out below them. -/
theorem Factor.alternatives_sketchBelow (above : List NodeId) (id : NodeId) (bracket : Bracket)
    (body : Expression) :
    ((Factor.bracketed id bracket body).sketchBelow above).alternatives =
      body.alternatives (.along (above ++ [id]) body.id) := by
  rw [Path.along_append]
  rfl

theorem Factor.layout_bracketed (above : List NodeId) (id : NodeId) (bracket : Bracket)
    (body : Expression) :
    (Factor.bracketed id bracket body).layout above =
      Alternative.bracketed bracket body (body.alternatives (.along (above ++ [id]) body.id)) := by
  rw [← alternatives_sketchBelow above id bracket]
  rfl

theorem Factor.layout_group (above : List NodeId) (id : NodeId) (body : Expression) :
    (Factor.bracketed id .group body).layout above = .sequence [body.layout (above ++ [id])] :=
  layout_bracketed above id .group body

theorem Factor.layout_option (above : List NodeId) (id : NodeId) (body : Expression) :
    (Factor.bracketed id .option body).layout above = .optional (body.layout (above ++ [id])) :=
  layout_bracketed above id .option body

/-- A repetition is laid out as a loop of its body, or as parallel ways back. -/
theorem Factor.layout_repetition (above : List NodeId) (id : NodeId) (body : Expression) :
    (Factor.bracketed id .repetition body).layout above =
      if 1 < body.terms.length ∧ body.terms.all (·.factors.all Factor.isTerminal) then
        .noted (.parallel body) (.loop .skip (.choice (body.terms.map fun term =>
          .returned (term.factors.map (Factor.layout (above ++ [id] ++ [body.id] ++ [term.id]))))))
      else .zeroOrMore (body.layout (above ++ [id])) := by
  obtain ⟨bodyId, terms⟩ := body
  simp only [layout_bracketed, Alternative.bracketed, Alternative.repeated, Expression.layout,
    Expression.alternatives, Term.alternatives_eq_map, List.map_map, Function.comp_def,
    ← Path.along_append, Term.alternative_pieces]

end Railroad
