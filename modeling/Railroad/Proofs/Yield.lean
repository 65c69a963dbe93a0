import Railroad.Grammar.Parser
import Railroad.Proofs.Parts

/-!
What a grammar reads as: the kinds of its tokens from left to right, and the rules that these
follow.

* `Grammar.kinds`, with `Expression.kinds`, `Term.kinds` and `Factor.kinds` for the parts: the
  leaves of a tree in order, the brackets and signs between them included.
* `Rule.Derives`: the rules of the notation, as a relation on token kinds that mentions no tree. A
  derivation counts the brackets that are open inside one another and nothing else, so neighbours
  and earlier productions leave the count alone.
* `Rule.derives_grammar_iff`: what can be derived are the token kinds of the trees that fit.
-/

namespace Railroad

open Token (Kind)

/-! ### The leaves of a tree -/

mutual

/-- The token kinds of an expression, from left to right. -/
def Expression.kinds : Expression → List Kind
  | ⟨_, terms⟩ => [Kind.bar].intercalate (Term.kindsAll terms)

/-- The token kinds of a term, from left to right. -/
def Term.kinds : Term → List Kind
  | ⟨_, factors⟩ => (Factor.kindsAll factors).flatten

/-- The token kinds of a factor, from left to right. -/
def Factor.kinds : Factor → List Kind
  | .identifier _ name => [.identifier name.text]
  | .literal _ l => [.quote, .literal l.text, .quote]
  | .bracketed _ bracket body => .opening bracket :: (body.kinds ++ [.closing bracket])

def Term.kindsAll : List Term → List (List Kind)
  | [] => []
  | t :: rest => t.kinds :: Term.kindsAll rest

def Factor.kindsAll : List Factor → List (List Kind)
  | [] => []
  | f :: rest => f.kinds :: Factor.kindsAll rest

end

/-- The token kinds of a production, from left to right. -/
def Production.kinds (p : Production) : List Kind :=
  .identifier p.name.text :: .equals :: (p.body.kinds ++ [.period])

/-- The token kinds of a grammar, from left to right. -/
def Grammar.kinds (g : Grammar) : List Kind :=
  g.productions.flatMap Production.kinds

theorem Term.kindsAll_eq_map (terms : List Term) : Term.kindsAll terms = terms.map Term.kinds := by
  induction terms with
  | nil => rfl
  | cons t rest ih => simp [Term.kindsAll, ih]

theorem Factor.kindsAll_eq_map (factors : List Factor) :
    Factor.kindsAll factors = factors.map Factor.kinds := by
  induction factors with
  | nil => rfl
  | cons f rest ih => simp [Factor.kindsAll, ih]

theorem Term.kinds_eq_flatMap (t : Term) : t.kinds = t.factors.flatMap Factor.kinds := by
  obtain ⟨id, factors⟩ := t
  simp [Term.kinds, Factor.kindsAll_eq_map, List.flatMap]

theorem Expression.kinds_eq (e : Expression) :
    e.kinds = [Kind.bar].intercalate (e.terms.map Term.kinds) := by
  obtain ⟨id, terms⟩ := e
  simp [Expression.kinds, Term.kindsAll_eq_map]

/-- A separated list, read from its first item on. -/
theorem intercalate_cons_eq {α : Type} (sep first : List α) (rest : List (List α)) :
    sep.intercalate (first :: rest) = first ++ rest.flatMap (sep ++ ·) := by
  induction rest generalizing first with
  | nil => simp
  | cons second rest ih =>
    rw [List.intercalate_cons_cons, ih]
    simp

/-- A separated list, read up to its last item. -/
theorem intercalate_concat_eq {α : Type} (sep last : List α) (front : List (List α)) :
    sep.intercalate (front ++ [last]) = front.flatMap (· ++ sep) ++ last := by
  induction front with
  | nil => simp
  | cons first front ih =>
    rw [List.cons_append, List.intercalate_cons_of_ne_nil (by simp), ih]
    simp

/-- A list separated by nothing. -/
theorem nil_intercalate_eq {α : Type} (lists : List (List α)) :
    [].intercalate lists = lists.flatten := by
  cases lists with
  | nil => rfl
  | cons first rest =>
    rw [intercalate_cons_eq]
    simp [List.flatMap_def]

/-- A token of a term is one of the expression. -/
theorem Expression.mem_kinds {e : Expression} {t : Term} {k : Kind} (ht : t ∈ e.terms)
    (hk : k ∈ t.kinds) : k ∈ e.kinds := by
  obtain ⟨id, _ | ⟨first, rest⟩⟩ := e
  · cases ht
  rw [Expression.kinds_eq, List.map_cons, intercalate_cons_eq, List.flatMap_map]
  rcases List.mem_cons.mp ht with rfl | ht
  · exact List.mem_append_left _ hk
  · exact List.mem_append_right _
      (List.mem_flatMap.mpr ⟨t, ht, List.mem_append_right _ hk⟩)

/-- A token of a factor is one of the term. -/
theorem Term.mem_kinds {t : Term} {f : Factor} {k : Kind} (hf : f ∈ t.factors)
    (hk : k ∈ f.kinds) : k ∈ t.kinds := by
  rw [Term.kinds_eq_flatMap]
  exact List.mem_flatMap.mpr ⟨f, hf, hk⟩

/-! ### The rules -/

/-- The parts of a grammar for which the notation has a rule. -/
inductive Rule where
  | grammar
  | production
  | expression
  | term
  | factor
deriving DecidableEq, Repr

/-- `r.Derives n kinds`: the rule `r` derives the token kinds with at most `n` brackets open inside
one another. -/
inductive Rule.Derives : Rule → Nat → List Kind → Prop where
  | noProduction {n : Nat} : Derives .grammar n []
  | moreProductions {n : Nat} {first rest : List Kind} :
      Derives .production n first → Derives .grammar n rest → Derives .grammar n (first ++ rest)
  | production {n : Nat} (name : String) {body : List Kind} :
      Derives .expression n body →
      Derives .production n (.identifier name :: .equals :: (body ++ [.period]))
  | oneTerm {n : Nat} {only : List Kind} : Derives .term n only → Derives .expression n only
  | moreTerms {n : Nat} {first rest : List Kind} :
      Derives .term n first → Derives .expression n rest →
      Derives .expression n (first ++ .bar :: rest)
  | oneFactor {n : Nat} {only : List Kind} : Derives .factor n only → Derives .term n only
  | moreFactors {n : Nat} {first rest : List Kind} :
      Derives .factor n first → Derives .term n rest → Derives .term n (first ++ rest)
  | identifier {n : Nat} (name : String) : Derives .factor n [.identifier name]
  | literal {n : Nat} (text : String) : Derives .factor n [.quote, .literal text, .quote]
  | bracketed {n : Nat} (bracket : Bracket) {body : List Kind} :
      Derives .expression n body →
      Derives .factor (n + 1) (.opening bracket :: (body ++ [.closing bracket]))

/-- Some tree for the rule fits and has these token kinds. -/
def Rule.HasTree (n : Nat) (kinds : List Kind) : Rule → Prop
  | .grammar => ∃ g : Grammar, g.Fits n ∧ g.kinds = kinds
  | .production => ∃ p : Production, p.body.Fits n ∧ p.kinds = kinds
  | .expression => ∃ e : Expression, e.Fits n ∧ e.kinds = kinds
  | .term => ∃ t : Term, t.Fits n ∧ t.kinds = kinds
  | .factor => ∃ f : Factor, f.Fits n ∧ f.kinds = kinds

/-- Every derivation is that of a tree. -/
theorem Rule.Derives.hasTree {r : Rule} {n : Nat} {kinds : List Kind} (h : r.Derives n kinds) :
    r.HasTree n kinds := by
  induction h with
  | noProduction => exact ⟨⟨0, []⟩, by simp [Grammar.Fits], rfl⟩
  | moreProductions _ _ ihFirst ihRest =>
    obtain ⟨p, pFits, rfl⟩ := ihFirst
    obtain ⟨g, gFits, rfl⟩ := ihRest
    exact ⟨⟨0, p :: g.productions⟩, List.forall_mem_cons.mpr ⟨pFits, gFits⟩, rfl⟩
  | production name _ ih =>
    obtain ⟨e, fits, rfl⟩ := ih
    exact ⟨⟨0, ⟨0, name⟩, e⟩, fits, rfl⟩
  | oneTerm _ ih =>
    obtain ⟨t, fits, rfl⟩ := ih
    exact ⟨⟨0, [t]⟩, Expression.fits_iff.mpr (by simpa using fits), by simp [Expression.kinds_eq]⟩
  | moreTerms _ _ ihFirst ihRest =>
    obtain ⟨t, tFits, rfl⟩ := ihFirst
    obtain ⟨e, eFits, rfl⟩ := ihRest
    obtain ⟨inhabited, fits⟩ := Expression.fits_iff.mp eFits
    refine ⟨⟨0, t :: e.terms⟩, Expression.fits_iff.mpr ⟨by simp, ?_⟩, ?_⟩
    · exact List.forall_mem_cons.mpr ⟨tFits, fits⟩
    · rw [Expression.kinds_eq, Expression.kinds_eq, List.map_cons,
        List.intercalate_cons_of_ne_nil (by simpa using inhabited)]
      simp
  | oneFactor _ ih =>
    obtain ⟨f, fits, rfl⟩ := ih
    exact ⟨⟨0, [f]⟩, Term.fits_iff.mpr (by simpa using fits), by simp [Term.kinds_eq_flatMap]⟩
  | moreFactors _ _ ihFirst ihRest =>
    obtain ⟨f, fFits, rfl⟩ := ihFirst
    obtain ⟨t, tFits, rfl⟩ := ihRest
    refine ⟨⟨0, f :: t.factors⟩, Term.fits_iff.mpr ⟨by simp, ?_⟩, by simp [Term.kinds_eq_flatMap]⟩
    exact List.forall_mem_cons.mpr ⟨fFits, (Term.fits_iff.mp tFits).2⟩
  | identifier name => exact ⟨.identifier 0 ⟨0, name⟩, .identifier, rfl⟩
  | literal text => exact ⟨.literal 0 ⟨0, text⟩, .literal, rfl⟩
  | bracketed bracket _ ih =>
    obtain ⟨e, fits, rfl⟩ := ih
    exact ⟨.bracketed 0 bracket e, .bracketed fits, rfl⟩

/-- Terms that can be derived make up an expression that can be derived. -/
theorem Rule.derives_expression_of_terms {n : Nat} :
    ∀ {terms : List Term}, terms ≠ [] → (∀ t ∈ terms, Rule.term.Derives n t.kinds) →
      Rule.expression.Derives n ([Kind.bar].intercalate (terms.map Term.kinds))
  | [], inhabited, _ => absurd rfl inhabited
  | [t], _, derived => by simpa using .oneTerm (derived t (by simp))
  | t :: second :: rest, _, derived => by
    have tail := derives_expression_of_terms (List.cons_ne_nil second rest)
      fun u hu => derived u (List.mem_cons_of_mem t hu)
    rw [List.map_cons, List.intercalate_cons_of_ne_nil (by simp)]
    simpa using Rule.Derives.moreTerms (derived t (by simp)) tail

/-- Factors that can be derived make up a term that can be derived. -/
theorem Rule.derives_term_of_factors {n : Nat} :
    ∀ {factors : List Factor}, factors ≠ [] → (∀ f ∈ factors, Rule.factor.Derives n f.kinds) →
      Rule.term.Derives n (factors.flatMap Factor.kinds)
  | [], inhabited, _ => absurd rfl inhabited
  | [f], _, derived => by simpa using .oneFactor (derived f (by simp))
  | f :: second :: rest, _, derived => by
    have tail := derives_term_of_factors (List.cons_ne_nil second rest)
      fun u hu => derived u (List.mem_cons_of_mem f hu)
    rw [List.flatMap_cons]
    exact .moreFactors (derived f (by simp)) tail

/-- The token kinds of an expression that fits can be derived. -/
theorem Expression.Fits.derives : ∀ {e : Expression} {n : Nat}, e.Fits n →
    Rule.expression.Derives n e.kinds := by
  have all := Parts.induction
    (P := fun e => ∀ n, e.Fits n → Rule.expression.Derives n e.kinds)
    (Q := fun t => ∀ n, t.Fits n → Rule.term.Derives n t.kinds)
    (R := fun f => ∀ n, f.Fits n → Rule.factor.Derives n f.kinds)
    { expression := by
        intro e ih n fits
        obtain ⟨inhabited, fits⟩ := Expression.fits_iff.mp fits
        rw [Expression.kinds_eq]
        exact Rule.derives_expression_of_terms inhabited fun t ht => ih t ht n (fits t ht)
      term := by
        intro t ih n fits
        obtain ⟨inhabited, fits⟩ := Term.fits_iff.mp fits
        rw [Term.kinds_eq_flatMap]
        exact Rule.derives_term_of_factors inhabited fun f hf => ih f hf n (fits f hf)
      identifier := fun _ name n _ => .identifier name.text
      literal := fun _ l n _ => .literal l.text
      bracketed := by
        intro id bracket body ih n fits
        obtain _ | n := n
        · exact absurd fits Factor.not_fits_zero
        · exact .bracketed bracket (ih n (Factor.fits_bracketed.mp fits)) }
  exact fun {e n} fits => all.1 e n fits

/-- **What can be derived are the token kinds of the trees that fit.** -/
theorem Rule.derives_grammar_iff {n : Nat} {kinds : List Kind} :
    Rule.grammar.Derives n kinds ↔ ∃ g : Grammar, g.Fits n ∧ g.kinds = kinds := by
  constructor
  · exact fun h => h.hasTree
  · rintro ⟨⟨id, productions⟩, fits, rfl⟩
    simp only [Grammar.Fits] at fits
    simp only [Grammar.kinds]
    induction productions with
    | nil => exact .noProduction
    | cons p rest ih =>
      obtain ⟨pFits, restFits⟩ := List.forall_mem_cons.mp fits
      exact .moreProductions (.production p.name.text pFits.derives) (ih restFits)

end Railroad
