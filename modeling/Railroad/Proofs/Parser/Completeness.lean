import Railroad.Proofs.Numbering
import Railroad.Proofs.Parser.Steps

/-!
The parser over the tokens of a tree.

Over the tokens of a tree that fits, the parser builds that tree, with ids given out afresh
(`Parser.steps_grammar`). The statement for a part says what the part adds to a body that is being
read: a factor is added to the last term (`AddsFactor`), a term
adds all its factors (`AddsFactorsOf`), and an expression completes a draft that has just begun
(`Drafts`). `Parser.follows` proves the three together by induction on parts.
-/

namespace Railroad

open Token (Kind)

/-! ### Drafts -/

/-- The draft with the factors added in order. -/
def Draft.addFactors (d : Draft) (factors : List Factor) : Draft :=
  { d with factors := factors.reverse ++ d.factors }

/-- The draft with its last term ended and a whole term behind it. -/
def Draft.addWholeTerm (d : Draft) (t : Term) : Draft :=
  (d.addTerm t.id).addFactors t.factors

@[simp] theorem Draft.addFactors_nil (d : Draft) : d.addFactors [] = d := rfl

theorem Draft.addFactors_cons (d : Draft) (f : Factor) (rest : List Factor) :
    d.addFactors (f :: rest) = (d.addFactor f).addFactors rest := by
  simp [addFactors, addFactor]

/-- The body with another draft of its innermost expression. -/
def Body.withDraft (b : Body) (d : Draft) : Body :=
  { b with draft := d }

@[simp] theorem Body.withDraft_brackets (b : Body) (d : Draft) :
    (b.withDraft d).brackets = b.brackets := rfl

@[simp] theorem Body.withDraft_draft (b : Body) (d : Draft) : (b.withDraft d).draft = d := rfl

@[simp] theorem Body.withDraft_withDraft (b : Body) (c d : Draft) :
    (b.withDraft c).withDraft d = b.withDraft d := rfl

@[simp] theorem Body.withDraft_self (b : Body) : b.withDraft b.draft = b := rfl

theorem Body.addFactor_eq (b : Body) (f : Factor) :
    b.addFactor f = b.withDraft (b.draft.addFactor f) := rfl

/-- Whole terms come behind those that an expression has already. -/
theorem Draft.expression_addWholeTerms (d : Draft) (terms : List Term) :
    (terms.foldl Draft.addWholeTerm d).expression = ⟨d.id, d.expression.terms ++ terms⟩ := by
  induction terms generalizing d with
  | nil => simp [expression]
  | cons t rest ih =>
    obtain ⟨id, factors⟩ := t
    rw [List.foldl_cons, ih]
    simp [addWholeTerm, addFactors, addTerm, expression, lastTerm]

/-- A draft stays in need of nothing if whole terms are added that need nothing. -/
theorem Draft.factors_addWholeTerms {d : Draft} {terms : List Term} (h : d.factors ≠ [])
    (inhabited : ∀ t ∈ terms, t.factors ≠ []) :
    (terms.foldl Draft.addWholeTerm d).factors ≠ [] := by
  induction terms generalizing d with
  | nil => exact h
  | cons t rest ih =>
    obtain ⟨ht, hrest⟩ := List.forall_mem_cons.mp inhabited
    exact ih (by simp [addWholeTerm, addFactors, addTerm, ht]) hrest

theorem Term.factors_ne_nil_of_mem_numberAll {n : Nat} {terms : List Term} {t : Term}
    (inhabited : ∀ u ∈ terms, u.factors ≠ []) (h : t ∈ Term.numberAll n terms) :
    t.factors ≠ [] := by
  obtain ⟨⟨id, factors⟩, hu, m, rfl⟩ := Term.exists_of_mem_numberAll h
  exact Factor.numberAll_ne_nil (inhabited _ hu)

namespace Parser

variable {g : NodeId} {ps : List Production}

/-- Over the tokens of a factor, the parser adds that factor. -/
def AddsFactor (f : Factor) : Prop :=
  ∀ (g : NodeId) (ps : List Production) (n : Nat) (b : Body),
    f.Fits (maxNesting - b.brackets.length) →
    (⟨g, ps, n, .inBody b⟩ : Parser).steps f.kinds =
      .ok ⟨g, ps, n + f.size, .inBody (b.addFactor (f.number n))⟩

/-- Over the tokens of a term, the parser adds the factors of that term. -/
def AddsFactorsOf (t : Term) : Prop :=
  ∀ (g : NodeId) (ps : List Production) (n : Nat) (b : Body),
    t.Fits (maxNesting - b.brackets.length) →
    (⟨g, ps, n, .inBody b⟩ : Parser).steps t.kinds =
      .ok ⟨g, ps, n + Factor.sizeAll t.factors,
        .inBody (b.withDraft (b.draft.addFactors (Factor.numberAll n t.factors)))⟩

/-- Over the tokens of an expression, the parser completes a draft that has just begun. -/
def Drafts (e : Expression) : Prop :=
  ∀ (g : NodeId) (ps : List Production) (n : Nat) (b : Body),
    b.draft = Draft.start (n + 1) (n + 2) → e.Fits (maxNesting - b.brackets.length) →
    ∃ d : Draft, d.factors ≠ [] ∧ d.expression = e.number n ∧
      (⟨g, ps, n + 2, .inBody b⟩ : Parser).steps e.kinds =
        .ok ⟨g, ps, n + e.size, .inBody (b.withDraft d)⟩

/-- Factors are added one after the other. -/
theorem steps_factors {factors : List Factor} (h : ∀ f ∈ factors, AddsFactor f) {n : Nat} {b : Body}
    (fits : ∀ f ∈ factors, f.Fits (maxNesting - b.brackets.length)) :
    (⟨g, ps, n, .inBody b⟩ : Parser).steps (factors.flatMap Factor.kinds) =
      .ok ⟨g, ps, n + Factor.sizeAll factors,
        .inBody (b.withDraft (b.draft.addFactors (Factor.numberAll n factors)))⟩ := by
  induction factors generalizing n b with
  | nil => simp [Factor.sizeAll, Factor.numberAll]
  | cons f rest ih =>
    obtain ⟨hf, hrest⟩ := List.forall_mem_cons.mp h
    obtain ⟨fitsF, fitsRest⟩ := List.forall_mem_cons.mp fits
    have tail := ih hrest (n := n + f.size) (b := b.addFactor (f.number n)) fitsRest
    rw [List.flatMap_cons, steps_append_of_ok (hf g ps n b fitsF), tail]
    simp [Factor.sizeAll, Factor.numberAll, Draft.addFactors_cons, Body.addFactor_eq, Nat.add_assoc]

/-- Terms behind the first are added one after the other, each behind its bar. -/
theorem steps_terms {terms : List Term} (h : ∀ t ∈ terms, AddsFactorsOf t) {n : Nat} {b : Body}
    (fits : ∀ t ∈ terms, t.Fits (maxNesting - b.brackets.length)) (begun : b.draft.factors ≠ []) :
    (⟨g, ps, n, .inBody b⟩ : Parser).steps (terms.flatMap fun t => .bar :: t.kinds) =
      .ok ⟨g, ps, n + Term.sizeAll terms,
        .inBody (b.withDraft ((Term.numberAll n terms).foldl Draft.addWholeTerm b.draft))⟩ := by
  induction terms generalizing n b with
  | nil => simp [Term.sizeAll, Term.numberAll]
  | cons t rest ih =>
    obtain ⟨ht, hrest⟩ := List.forall_mem_cons.mp h
    obtain ⟨fitsT, fitsRest⟩ := List.forall_mem_cons.mp fits
    have bar : (⟨g, ps, n, .inBody b⟩ : Parser).step .bar =
        .ok ⟨g, ps, n + 1, .inBody (b.withDraft (b.draft.addTerm (n + 1)))⟩ :=
      step_eq_ok_iff.mpr (.bar begun)
    have whole := (steps_cons_of_ok bar t.kinds).trans (ht g ps (n + 1) _ fitsT)
    have inhabited := Factor.numberAll_ne_nil (n := n + 1) (Term.fits_iff.mp fitsT).1
    have tail := ih hrest (n := n + 1 + Factor.sizeAll t.factors)
      (b := b.withDraft (b.draft.addWholeTerm (t.number n))) fitsRest
    obtain ⟨id, factors⟩ := t
    simp only [Body.withDraft_draft, Body.withDraft_withDraft] at whole tail
    rw [List.flatMap_cons, steps_append_of_ok whole]
    refine (tail ?_).trans ?_
    · simp [Draft.addWholeTerm, Draft.addFactors, Draft.addTerm, Term.number, inhabited]
    · simp [Term.sizeAll, Term.numberAll, Term.size, Nat.add_assoc]

/-- An expression is drafted term by term. -/
theorem drafts_of_terms {e : Expression} (h : ∀ t ∈ e.terms, AddsFactorsOf t) : Drafts e := by
  intro g ps n b fresh fits
  obtain ⟨inhabited, fits⟩ := Expression.fits_iff.mp fits
  obtain ⟨id, _ | ⟨⟨termId, factors⟩, rest⟩⟩ := e
  · exact absurd rfl inhabited
  obtain ⟨ht, hrest⟩ := List.forall_mem_cons.mp h
  obtain ⟨fitsT, fitsRest⟩ := List.forall_mem_cons.mp fits
  have first := ht g ps (n + 2) b fitsT
  have someFactor := Factor.numberAll_ne_nil (n := n + 2) (Term.fits_iff.mp fitsT).1
  have someFactors : ∀ t ∈ rest, t.factors ≠ [] := fun t ht => (Term.fits_iff.mp (fitsRest t ht)).1
  let d := b.draft.addFactors (Factor.numberAll (n + 2) factors)
  let others := Term.numberAll (n + 2 + Factor.sizeAll factors) rest
  have begun : d.factors ≠ [] := by simp [d, Draft.addFactors, someFactor]
  have last : (⟨g, ps, n + 2 + Factor.sizeAll factors, .inBody (b.withDraft d)⟩ : Parser).steps
      (rest.flatMap fun t => .bar :: t.kinds) = _ := steps_terms hrest fitsRest begun
  refine ⟨others.foldl Draft.addWholeTerm d, ?_, ?_, ?_⟩
  · exact Draft.factors_addWholeTerms begun fun t ht =>
      Term.factors_ne_nil_of_mem_numberAll someFactors ht
  · have next : n + 1 + (1 + Factor.sizeAll factors) = n + 2 + Factor.sizeAll factors := by omega
    rw [Draft.expression_addWholeTerms]
    simp [d, others, fresh, Draft.start, Draft.addFactors, Draft.expression, Draft.lastTerm,
      Expression.number, Term.numberAll, Term.number, Term.size, next]
  · rw [Expression.kinds_eq, List.map_cons, intercalate_cons_eq, List.flatMap_map,
      steps_append_of_ok first]
    refine last.trans ?_
    simp [d, others, Expression.size, Term.sizeAll, Term.size]
    omega

/-- A bracket opens a draft and its counterpart closes it. -/
theorem addsFactor_bracketed {id : NodeId} {bracket : Bracket} {body : Expression}
    (h : Drafts body) : AddsFactor (.bracketed id bracket body) := by
  intro g ps n b fits
  obtain room | ⟨room, depth⟩ : maxNesting - b.brackets.length = 0 ∨
      ∃ room, maxNesting - b.brackets.length = room + 1 := by
    cases maxNesting - b.brackets.length with
    | zero => exact .inl rfl
    | succ room => exact .inr ⟨room, rfl⟩
  · exact absurd (room ▸ fits) Factor.not_fits_zero
  let inside : Body :=
    { b with
      brackets := ⟨n + 1, bracket, b.draft⟩ :: b.brackets
      draft := Draft.start (n + 2) (n + 3) }
  have opened : (⟨g, ps, n, .inBody b⟩ : Parser).step (.opening bracket) =
      .ok ⟨g, ps, n + 3, .inBody inside⟩ :=
    step_eq_ok_iff.mpr (.opening bracket (by omega))
  have bodyFits : body.Fits (maxNesting - inside.brackets.length) := by
    have : maxNesting - inside.brackets.length = room := by
      simp only [inside, List.length_cons]
      omega
    rw [this]
    exact Factor.fits_bracketed.mp (depth ▸ fits)
  obtain ⟨d, begun, drafted, steps⟩ := h g ps (n + 1) inside rfl bodyFits
  have closed : (⟨g, ps, n + 1 + body.size, .inBody (inside.withDraft d)⟩ : Parser).step
      (.closing bracket) = .ok ⟨g, ps, n + 1 + body.size,
        .inBody (b.addFactor (.bracketed (n + 1) bracket (body.number (n + 1))))⟩ := by
    rw [← drafted]
    exact step_eq_ok_iff.mpr (.closing begun)
  rw [Factor.kinds, steps_cons_of_ok opened, steps_append_of_ok steps, steps_cons_of_ok closed]
  simp [Factor.number, Factor.size, Nat.add_assoc]

/-- The parser follows every part that fits. -/
theorem follows : (∀ e, Drafts e) ∧ (∀ t, AddsFactorsOf t) ∧ ∀ f, AddsFactor f :=
  Parts.induction
    { expression := fun _ terms => drafts_of_terms terms
      term := by
        intro t factors g ps n b fits
        rw [Term.kinds_eq_flatMap]
        exact steps_factors factors (Term.fits_iff.mp fits).2
      identifier := fun _ _ _ _ _ _ _ => rfl
      literal := fun _ _ _ _ _ _ _ => rfl
      bracketed := fun _ _ _ body => addsFactor_bracketed body }

/-- Over the tokens of productions, the parser adds those productions. -/
theorem steps_productions {productions : List Production} {n : Nat}
    (fits : ∀ p ∈ productions, p.body.Fits maxNesting) :
    (⟨g, ps, n, .betweenProductions⟩ : Parser).steps (productions.flatMap Production.kinds) =
      .ok ⟨g, (Production.numberAll n productions).reverse ++ ps,
        n + Production.sizeAll productions, .betweenProductions⟩ := by
  induction productions generalizing ps n with
  | nil => simp [Production.numberAll, Production.sizeAll]
  | cons p rest ih =>
    obtain ⟨fitsP, fitsRest⟩ := List.forall_mem_cons.mp fits
    let body : Body := ⟨n + 1, ⟨n + 2, p.name.text⟩, [], Draft.start (n + 3) (n + 4)⟩
    have named : (⟨g, ps, n, .betweenProductions⟩ : Parser).steps
        [.identifier p.name.text, .equals] = .ok ⟨g, ps, n + 4, .inBody body⟩ := rfl
    obtain ⟨d, begun, drafted, steps⟩ := follows.1 p.body g ps (n + 2) body rfl fitsP
    have ended : (⟨g, ps, n + 2 + p.body.size, .inBody (body.withDraft d)⟩ : Parser).step .period =
        .ok ⟨g, p.number n :: ps, n + 2 + p.body.size, .betweenProductions⟩ := by
      rw [Production.number, ← drafted]
      exact step_eq_ok_iff.mpr (.period begun)
    have whole : (⟨g, ps, n, .betweenProductions⟩ : Parser).steps p.kinds =
        .ok ⟨g, p.number n :: ps, n + p.size, .betweenProductions⟩ := by
      have split : p.kinds =
          [.identifier p.name.text, .equals] ++ (p.body.kinds ++ [.period]) := rfl
      rw [split, steps_append_of_ok named, steps_append_of_ok steps, steps_cons_of_ok ended,
        steps_nil, Production.size, Nat.add_assoc]
    rw [List.flatMap_cons, steps_append_of_ok whole, ih fitsRest]
    simp [Production.numberAll, Production.sizeAll, Nat.add_assoc]

/-- **Completeness.** Over the tokens of a grammar that fits, the parser gives that grammar. -/
theorem steps_grammar {h : Grammar} (fits : h.Fits maxNesting) (n : Nat) :
    (start n).steps h.kinds = .ok ⟨n + 1, (h.number n).productions.reverse, n + h.size,
      .betweenProductions⟩ := by
  rw [Grammar.kinds, start, steps_productions fits]
  simp [Grammar.number, Grammar.size, Nat.add_assoc]

end Parser

end Railroad
