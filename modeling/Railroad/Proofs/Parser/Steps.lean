import Railroad.Grammar.Parser

/-!
What a parser does with one token and with several.

`Parser.Takes` says all that one step can do, one constructor for each kind of token and place
(`Parser.step_eq_ok_iff`), so that what steps keep is proved by cases on it. `Parser.steps` takes
tokens one after the other.
-/

namespace Railroad

open Token (Kind)

namespace Parser

/-! ### One step -/

/-- `p.Takes kind q`: the parser `p` takes a token of this kind and becomes `q`. -/
inductive Takes : Parser → Kind → Parser → Prop where
  | name {g : NodeId} {ps : List Production} {n : Nat} (name : String) :
      Takes ⟨g, ps, n, .betweenProductions⟩ (.identifier name)
        ⟨g, ps, n + 2, .afterName (n + 1) ⟨n + 2, name⟩⟩
  | equals {g : NodeId} {ps : List Production} {n : Nat} {id : NodeId} {name : Identifier} :
      Takes ⟨g, ps, n, .afterName id name⟩ .equals
        ⟨g, ps, n + 2, .inBody ⟨id, name, [], Draft.start (n + 1) (n + 2)⟩⟩
  | identifier {g : NodeId} {ps : List Production} {n : Nat} {b : Body} (name : String) :
      Takes ⟨g, ps, n, .inBody b⟩ (.identifier name)
        ⟨g, ps, n + 2, .inBody (b.addFactor (.identifier (n + 1) ⟨n + 2, name⟩))⟩
  | openingQuote {g : NodeId} {ps : List Production} {n : Nat} {b : Body} :
      Takes ⟨g, ps, n, .inBody b⟩ .quote ⟨g, ps, n + 2, .afterOpeningQuote b (n + 1) (n + 2)⟩
  | literal {g : NodeId} {ps : List Production} {n : Nat} {b : Body} {id literalId : NodeId}
      (text : String) :
      Takes ⟨g, ps, n, .afterOpeningQuote b id literalId⟩ (.literal text)
        ⟨g, ps, n, .afterLiteral b id ⟨literalId, text⟩⟩
  | closingQuote {g : NodeId} {ps : List Production} {n : Nat} {b : Body} {id : NodeId}
      {l : Literal} :
      Takes ⟨g, ps, n, .afterLiteral b id l⟩ .quote
        ⟨g, ps, n, .inBody (b.addFactor (.literal id l))⟩
  /-- The brackets that are open are those of this production, so none of another one count. -/
  | opening {g : NodeId} {ps : List Production} {n : Nat} {b : Body} (bracket : Bracket) :
      b.brackets.length ≠ maxNesting →
      Takes ⟨g, ps, n, .inBody b⟩ (.opening bracket) ⟨g, ps, n + 3, .inBody
        { b with
          brackets := ⟨n + 1, bracket, b.draft⟩ :: b.brackets
          draft := Draft.start (n + 2) (n + 3) }⟩
  | closing {g : NodeId} {ps : List Production} {n : Nat} {id : NodeId} {name : Identifier}
      {inner : OpenBracket} {outer : List OpenBracket} {d : Draft} :
      d.factors ≠ [] →
      Takes ⟨g, ps, n, .inBody ⟨id, name, inner :: outer, d⟩⟩ (.closing inner.bracket)
        ⟨g, ps, n, .inBody ⟨id, name, outer,
          inner.around.addFactor (.bracketed inner.id inner.bracket d.expression)⟩⟩
  | bar {g : NodeId} {ps : List Production} {n : Nat} {b : Body} :
      b.draft.factors ≠ [] →
      Takes ⟨g, ps, n, .inBody b⟩ .bar
        ⟨g, ps, n + 1, .inBody { b with draft := b.draft.addTerm (n + 1) }⟩
  | period {g : NodeId} {ps : List Production} {n : Nat} {id : NodeId} {name : Identifier}
      {d : Draft} :
      d.factors ≠ [] →
      Takes ⟨g, ps, n, .inBody ⟨id, name, [], d⟩⟩ .period
        ⟨g, ⟨id, name, d.expression⟩ :: ps, n, .betweenProductions⟩

/-- What a step inside a body can do. -/
theorem takes_of_stepInBody {g : NodeId} {ps : List Production} {n : Nat} {b : Body} {kind : Kind}
    {q : Parser} (h : (⟨g, ps, n, .inBody b⟩ : Parser).stepInBody b kind = .ok q) :
    Takes ⟨g, ps, n, .inBody b⟩ kind q := by
  obtain ⟨id, name, brackets, d⟩ := b
  cases kind with
  | identifier text =>
    cases h
    exact .identifier text
  | quote =>
    cases h
    exact .openingQuote
  | opening bracket =>
    simp only [stepInBody] at h
    split at h
    · cases h
    · rename_i room
      cases h
      exact .opening bracket room
  | closing bracket =>
    simp only [stepInBody] at h
    split at h
    · cases h
    rename_i begun
    cases brackets with
    | nil => cases h
    | cons inner outer =>
      simp only at h
      split at h
      · rename_i same
        cases h
        cases same
        exact .closing (by simpa using begun)
      · cases h
  | bar =>
    simp only [stepInBody] at h
    split at h
    · cases h
    · rename_i begun
      cases h
      exact .bar (by simpa using begun)
  | period =>
    simp only [stepInBody] at h
    split at h
    · cases h
    rename_i begun
    cases brackets with
    | nil =>
      cases h
      exact .period (by simpa using begun)
    | cons inner outer => cases h
  | _ =>
    simp only [stepInBody] at h
    split at h <;> cases h

/-- **What one step can do.** -/
theorem step_eq_ok_iff {p q : Parser} {kind : Kind} : p.step kind = .ok q ↔ p.Takes kind q := by
  constructor
  · intro h
    obtain ⟨g, ps, n, phase⟩ := p
    cases phase with
    | betweenProductions =>
      cases kind with
      | identifier text =>
        cases h
        exact .name text
      | _ => cases h
    | afterName id name =>
      cases kind with
      | equals =>
        cases h
        exact .equals
      | _ => cases h
    | inBody b => exact takes_of_stepInBody h
    | afterOpeningQuote b id literalId =>
      cases kind with
      | literal text =>
        cases h
        exact .literal text
      | _ => cases h
    | afterLiteral b id l =>
      cases kind with
      | quote =>
        cases h
        exact .closingQuote
      | _ => cases h
  · intro takes
    cases takes with
    | opening bracket room => simp [step, stepInBody, goOn, room]
    | closing begun => simp [step, stepInBody, goOn, begun]
    | bar begun => simp [step, stepInBody, goOn, begun]
    | period begun => simp [step, stepInBody, begun]
    | _ => rfl

/-! ### Several steps -/

/-- Takes tokens one after the other. -/
def steps (p : Parser) (kinds : List Kind) : Except Expected Parser :=
  kinds.foldlM step p

@[simp] theorem steps_nil (p : Parser) : p.steps [] = .ok p := rfl

theorem steps_cons_of_ok {p q : Parser} {kind : Kind} (h : p.step kind = .ok q)
    (kinds : List Kind) : p.steps (kind :: kinds) = q.steps kinds := by
  simp [steps, h, bind, Except.bind]

theorem steps_append_of_ok {p q : Parser} {front : List Kind} (h : p.steps front = .ok q)
    (back : List Kind) : p.steps (front ++ back) = q.steps back := by
  simp only [steps] at h ⊢
  simp [List.foldlM_append, h, bind, Except.bind]

/-- Steps that come to an end come through the first of them. -/
theorem exists_takes_of_steps_cons {p r : Parser} {kind : Kind} {kinds : List Kind}
    (h : p.steps (kind :: kinds) = .ok r) : ∃ q, p.Takes kind q ∧ q.steps kinds = .ok r := by
  simp only [steps, List.foldlM_cons] at h
  cases first : p.step kind with
  | error e => simp [first, bind, Except.bind] at h
  | ok q =>
    exact ⟨q, step_eq_ok_iff.mp first, by simpa [steps, first, bind, Except.bind] using h⟩

/-- Steps that come to an end come through any front part of them. -/
theorem exists_steps_of_steps_append {p r : Parser} {front back : List Kind}
    (h : p.steps (front ++ back) = .ok r) : ∃ q, p.steps front = .ok q ∧ q.steps back = .ok r := by
  simp only [steps, List.foldlM_append] at h
  cases first : p.steps front with
  | error e =>
    simp only [steps] at first
    simp [first, bind, Except.bind] at h
  | ok q =>
    simp only [steps] at first
    exact ⟨q, rfl, by simpa [steps, first, bind, Except.bind] using h⟩

end Parser

end Railroad
