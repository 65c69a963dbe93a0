import Railroad.Grammar

/-!
The parts of a grammar: expressions, terms and factors, one inside the other.

* `Parts.induction`: properties of expressions, terms and factors that each part inherits from those
  right inside it hold of every part. `Parts.induction_nested` also gives a part what holds of the
  factors one bracket further inside, which compaction looks at.
* `Expression.Fits`, `Term.Fits`, `Factor.Fits`: no choice without a term, no term without a
  factor, and at most so many brackets inside one another. The tree of a text has this form.
-/

namespace Railroad

/-! ### Induction -/

section Induction

variable {P : Expression → Prop} {Q : Term → Prop} {R : Factor → Prop}

/-- Each part has its property as soon as those right inside it have theirs. -/
structure Parts.Inherited (P : Expression → Prop) (Q : Term → Prop) (R : Factor → Prop) :
    Prop where
  expression : ∀ e : Expression, (∀ t ∈ e.terms, Q t) → P e
  term : ∀ t : Term, (∀ f ∈ t.factors, R f) → Q t
  identifier : ∀ id name, R (.identifier id name)
  literal : ∀ id l, R (.literal id l)
  bracketed : ∀ id bracket body, P body → R (.bracketed id bracket body)

mutual

private theorem expression_holds (h : Parts.Inherited P Q R) : ∀ e, P e
  | ⟨id, terms⟩ => h.expression ⟨id, terms⟩ (terms_hold h terms)

private theorem term_holds (h : Parts.Inherited P Q R) : ∀ t, Q t
  | ⟨id, factors⟩ => h.term ⟨id, factors⟩ (factors_hold h factors)

private theorem factor_holds (h : Parts.Inherited P Q R) : ∀ f, R f
  | .identifier id name => h.identifier id name
  | .literal id l => h.literal id l
  | .bracketed id bracket body => h.bracketed id bracket body (expression_holds h body)

private theorem terms_hold (h : Parts.Inherited P Q R) : ∀ terms : List Term, ∀ t ∈ terms, Q t
  | [] => by simp
  | t :: rest => List.forall_mem_cons.mpr ⟨term_holds h t, terms_hold h rest⟩

private theorem factors_hold (h : Parts.Inherited P Q R) :
    ∀ factors : List Factor, ∀ f ∈ factors, R f
  | [] => by simp
  | f :: rest => List.forall_mem_cons.mpr ⟨factor_holds h f, factors_hold h rest⟩

end

/-- **Induction on parts.** -/
theorem Parts.induction (h : Parts.Inherited P Q R) : (∀ e, P e) ∧ (∀ t, Q t) ∧ ∀ f, R f :=
  ⟨expression_holds h, term_holds h, factor_holds h⟩

/-- **Nested induction on parts.** A part in brackets may use what holds of the factors of the terms
between them, and so may the term around it. -/
theorem Parts.induction_nested
    (expression : ∀ e : Expression, (∀ t ∈ e.terms, Q t) → P e)
    (term : ∀ t : Term, (∀ f ∈ t.factors, R f) →
      (∀ id bracket body, .bracketed id bracket body ∈ t.factors →
        P body ∧ ∀ inner ∈ body.terms, ∀ f ∈ inner.factors, R f) → Q t)
    (identifier : ∀ id name, R (.identifier id name))
    (literal : ∀ id l, R (.literal id l))
    (bracketed : ∀ id bracket body, P body → (∀ inner ∈ body.terms, ∀ f ∈ inner.factors, R f) →
      R (.bracketed id bracket body)) :
    (∀ e, P e) ∧ (∀ t, Q t) ∧ ∀ f, R f := by
  have all := Parts.induction
    (P := fun e => P e ∧ ∀ inner ∈ e.terms, ∀ f ∈ inner.factors, R f)
    (Q := fun t => Q t ∧ ∀ f ∈ t.factors, R f)
    (R := fun f => R f ∧ ∀ id bracket body, f = .bracketed id bracket body →
      P body ∧ ∀ inner ∈ body.terms, ∀ f ∈ inner.factors, R f)
    { expression := fun e terms =>
        ⟨expression e fun t ht => (terms t ht).1, fun t ht => (terms t ht).2⟩
      term := fun t factors =>
        ⟨term t (fun f hf => (factors f hf).1)
          fun id bracket body hf => (factors _ hf).2 id bracket body rfl,
          fun f hf => (factors f hf).1⟩
      identifier := fun id name => ⟨identifier id name, by simp⟩
      literal := fun id l => ⟨literal id l, by simp⟩
      bracketed := by
        rintro id bracket body ⟨whole, pieces⟩
        refine ⟨bracketed id bracket body whole pieces, ?_⟩
        rintro _ _ _ ⟨⟩
        exact ⟨whole, pieces⟩ }
  exact ⟨fun e => (all.1 e).1, fun t => (all.2.1 t).1, fun f => (all.2.2 f).1⟩

end Induction

/-! ### Form -/

mutual

/-- A choice of at least one term, with at most `n` brackets inside one another. -/
inductive Expression.Fits : Nat → Expression → Prop where
  | intro {n : Nat} {id : NodeId} {terms : List Term} :
      terms ≠ [] → (∀ t ∈ terms, Term.Fits n t) → Expression.Fits n ⟨id, terms⟩

/-- A sequence of at least one factor, with at most `n` brackets inside one another. -/
inductive Term.Fits : Nat → Term → Prop where
  | intro {n : Nat} {id : NodeId} {factors : List Factor} :
      factors ≠ [] → (∀ f ∈ factors, Factor.Fits n f) → Term.Fits n ⟨id, factors⟩

/-- A factor with at most `n` brackets inside one another, its own among them. -/
inductive Factor.Fits : Nat → Factor → Prop where
  | identifier {n : Nat} {id : NodeId} {name : Identifier} :
      Factor.Fits n (.identifier id name)
  | literal {n : Nat} {id : NodeId} {l : Literal} : Factor.Fits n (.literal id l)
  | bracketed {n : Nat} {id : NodeId} {bracket : Bracket} {body : Expression} :
      Expression.Fits n body → Factor.Fits (n + 1) (.bracketed id bracket body)

end

/-- Every production fits. -/
def Grammar.Fits (n : Nat) (g : Grammar) : Prop :=
  ∀ p ∈ g.productions, p.body.Fits n

theorem Expression.fits_iff {n : Nat} {e : Expression} :
    e.Fits n ↔ e.terms ≠ [] ∧ ∀ t ∈ e.terms, t.Fits n := by
  obtain ⟨id, terms⟩ := e
  constructor
  · rintro ⟨inhabited, fits⟩
    exact ⟨inhabited, fits⟩
  · rintro ⟨inhabited, fits⟩
    exact .intro inhabited fits

theorem Term.fits_iff {n : Nat} {t : Term} :
    t.Fits n ↔ t.factors ≠ [] ∧ ∀ f ∈ t.factors, f.Fits n := by
  obtain ⟨id, factors⟩ := t
  constructor
  · rintro ⟨inhabited, fits⟩
    exact ⟨inhabited, fits⟩
  · rintro ⟨inhabited, fits⟩
    exact .intro inhabited fits

@[simp] theorem Factor.fits_identifier {n : Nat} {id : NodeId} {name : Identifier} :
    (Factor.identifier id name).Fits n :=
  .identifier

@[simp] theorem Factor.fits_literal {n : Nat} {id : NodeId} {l : Literal} :
    (Factor.literal id l).Fits n :=
  .literal

@[simp] theorem Factor.fits_bracketed {n : Nat} {id : NodeId} {bracket : Bracket}
    {body : Expression} : (Factor.bracketed id bracket body).Fits (n + 1) ↔ body.Fits n :=
  ⟨fun | .bracketed h => h, .bracketed⟩

/-- What fits below a limit fits below the next. -/
theorem Parts.fits_succ :
    (∀ (e : Expression) (n : Nat), e.Fits n → e.Fits (n + 1)) ∧
    (∀ (t : Term) (n : Nat), t.Fits n → t.Fits (n + 1)) ∧
    ∀ (f : Factor) (n : Nat), f.Fits n → f.Fits (n + 1) :=
  Parts.induction
    { expression := by
        intro e ih n h
        obtain ⟨inhabited, fits⟩ := Expression.fits_iff.mp h
        exact Expression.fits_iff.mpr ⟨inhabited, fun t ht => ih t ht n (fits t ht)⟩
      term := by
        intro t ih n h
        obtain ⟨inhabited, fits⟩ := Term.fits_iff.mp h
        exact Term.fits_iff.mpr ⟨inhabited, fun f hf => ih f hf n (fits f hf)⟩
      identifier := fun _ _ _ _ => .identifier
      literal := fun _ _ _ _ => .literal
      bracketed := by
        rintro id bracket body ih _ (_ | _ | ⟨fits⟩)
        exact .bracketed (ih _ fits) }

theorem Factor.not_fits_zero {id : NodeId} {bracket : Bracket} {body : Expression} :
    ¬ (Factor.bracketed id bracket body).Fits 0 := by
  rintro ⟨⟩

end Railroad
