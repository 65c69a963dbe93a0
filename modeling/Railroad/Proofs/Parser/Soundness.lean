import Railroad.Proofs.Parser.Completeness

/-!
What the parser has built so far reads as the tokens that it has taken.

`Parser.kinds` lists the tokens of all that a parser holds: of its productions and of what is not
yet complete. `Parser.Fits` says that all this has the form of a tree. One step adds the token that
it takes and keeps the form (`Parser.Takes.sound`), and so do many (`Parser.steps_sound`).
-/

namespace Railroad

open Token (Kind)

/-! ### The tokens of what is not yet complete -/

/-- The tokens of an expression that is being read. -/
def Draft.kinds (d : Draft) : List Kind :=
  d.terms.reverse.flatMap (fun t => t.kinds ++ [.bar]) ++ d.factors.reverse.flatMap Factor.kinds

/-- The tokens up to an open bracket, from the bracket around it on. -/
def OpenBracket.kinds (o : OpenBracket) : List Kind :=
  o.around.kinds ++ [.opening o.bracket]

/-- The tokens of a production that is being read. -/
def Body.kinds (b : Body) : List Kind :=
  .identifier b.name.text :: .equals ::
    (b.brackets.reverse.flatMap OpenBracket.kinds ++ b.draft.kinds)

/-- The tokens of what the parser is in the middle of. -/
def Phase.kinds : Phase → List Kind
  | .betweenProductions => []
  | .afterName _ name => [.identifier name.text]
  | .inBody body => body.kinds
  | .afterOpeningQuote body _ _ => body.kinds ++ [.quote]
  | .afterLiteral body _ l => body.kinds ++ [.quote, .literal l.text]

/-- The tokens of all that the parser holds. -/
def Parser.kinds (p : Parser) : List Kind :=
  p.productions.reverse.flatMap Production.kinds ++ p.phase.kinds

@[simp] theorem Draft.kinds_start (id termId : NodeId) : (Draft.start id termId).kinds = [] := rfl

@[simp] theorem Draft.kinds_addFactor (d : Draft) (f : Factor) :
    (d.addFactor f).kinds = d.kinds ++ f.kinds := by
  simp [kinds, addFactor]

@[simp] theorem Draft.kinds_addTerm (d : Draft) (termId : NodeId) :
    (d.addTerm termId).kinds = d.kinds ++ [.bar] := by
  simp [kinds, addTerm, lastTerm, Term.kinds_eq_flatMap]

/-- The expression as it stands has the tokens of the draft. -/
theorem Draft.kinds_expression (d : Draft) : d.expression.kinds = d.kinds := by
  rw [Expression.kinds_eq]
  simp only [expression, List.reverse_cons, List.map_append, List.map_cons, List.map_nil]
  rw [intercalate_concat_eq, List.flatMap_map]
  simp [kinds, lastTerm, Term.kinds_eq_flatMap]

@[simp] theorem Body.kinds_addFactor (b : Body) (f : Factor) :
    (b.addFactor f).kinds = b.kinds ++ f.kinds := by
  simp [kinds, addFactor]

/-! ### The form of what is not yet complete -/

/-- Each complete part of the draft fits. -/
structure Draft.Fits (n : Nat) (d : Draft) : Prop where
  terms : ∀ t ∈ d.terms, t.Fits n
  factors : ∀ f ∈ d.factors, f.Fits n

/-- Each draft around an open bracket fits below the brackets around itself. -/
def OpenBracket.AllFit : List OpenBracket → Prop
  | [] => True
  | o :: outer =>
    outer.length < maxNesting ∧ o.around.Fits (maxNesting - outer.length) ∧ AllFit outer

/-- Each draft of the body fits below the brackets around it. -/
structure Body.Fits (b : Body) : Prop where
  draft : b.draft.Fits (maxNesting - b.brackets.length)
  brackets : OpenBracket.AllFit b.brackets

/-- What the parser is in the middle of fits. -/
def Phase.Fits : Phase → Prop
  | .betweenProductions | .afterName _ _ => True
  | .inBody body | .afterOpeningQuote body _ _ | .afterLiteral body _ _ => body.Fits

/-- All that the parser holds fits. -/
structure Parser.Fits (p : Parser) : Prop where
  productions : ∀ q ∈ p.productions, q.body.Fits maxNesting
  phase : p.phase.Fits

theorem Draft.fits_start {n : Nat} {id termId : NodeId} : (Draft.start id termId).Fits n :=
  ⟨by simp [start], by simp [start]⟩

theorem Draft.Fits.addFactor {n : Nat} {d : Draft} {f : Factor} (h : d.Fits n) (hf : f.Fits n) :
    (d.addFactor f).Fits n :=
  ⟨h.terms, List.forall_mem_cons.mpr ⟨hf, h.factors⟩⟩

/-- The last term fits as soon as it has a factor. -/
theorem Draft.Fits.lastTerm {n : Nat} {d : Draft} (h : d.Fits n) (begun : d.factors ≠ []) :
    d.lastTerm.Fits n :=
  Term.fits_iff.mpr ⟨by simpa [Draft.lastTerm] using begun,
    fun f hf => h.factors f (List.mem_reverse.mp hf)⟩

theorem Draft.Fits.addTerm {n : Nat} {d : Draft} (h : d.Fits n) (begun : d.factors ≠ [])
    (termId : NodeId) : (d.addTerm termId).Fits n :=
  ⟨List.forall_mem_cons.mpr ⟨h.lastTerm begun, h.terms⟩, by simp [Draft.addTerm]⟩

/-- The expression fits as soon as its last term has a factor. -/
theorem Draft.Fits.expression {n : Nat} {d : Draft} (h : d.Fits n) (begun : d.factors ≠ []) :
    d.expression.Fits n := by
  refine Expression.fits_iff.mpr ⟨by simp [Draft.expression], fun t ht => ?_⟩
  rcases List.mem_cons.mp (List.mem_reverse.mp ht) with rfl | ht
  · exact h.lastTerm begun
  · exact h.terms t ht

theorem Body.Fits.addFactor {b : Body} {f : Factor} (h : b.Fits)
    (hf : f.Fits (maxNesting - b.brackets.length)) : (b.addFactor f).Fits :=
  ⟨h.draft.addFactor hf, h.brackets⟩

theorem OpenBracket.AllFit.length_le : ∀ {brackets : List OpenBracket}, AllFit brackets →
    brackets.length ≤ maxNesting
  | [], _ => Nat.zero_le _
  | _ :: _, h => h.1

/-! ### Steps -/

namespace Parser

/-- **One step adds its token and keeps the form.** -/
theorem Takes.sound {p q : Parser} {kind : Kind} (takes : p.Takes kind q) (fits : p.Fits) :
    q.Fits ∧ q.kinds = p.kinds ++ [kind] := by
  obtain ⟨psFit, phaseFits⟩ := fits
  cases takes with
  | name text => exact ⟨⟨psFit, trivial⟩, by simp [kinds, Phase.kinds]⟩
  | equals => exact ⟨⟨psFit, Draft.fits_start, trivial⟩, by simp [kinds, Phase.kinds, Body.kinds]⟩
  | @identifier g ps n b text =>
    have bFits : b.Fits := phaseFits
    exact ⟨⟨psFit, bFits.addFactor .identifier⟩, by simp [kinds, Phase.kinds, Factor.kinds]⟩
  | openingQuote => exact ⟨⟨psFit, phaseFits⟩, by simp [kinds, Phase.kinds]⟩
  | literal text => exact ⟨⟨psFit, phaseFits⟩, by simp [kinds, Phase.kinds]⟩
  | @closingQuote g ps n b id l =>
    have bFits : b.Fits := phaseFits
    exact ⟨⟨psFit, bFits.addFactor .literal⟩, by simp [kinds, Phase.kinds, Factor.kinds]⟩
  | @opening g ps n b bracket room =>
    have bFits : b.Fits := phaseFits
    have nested : b.brackets.length < maxNesting := by
      have := bFits.brackets.length_le
      omega
    refine ⟨⟨psFit, ⟨Draft.fits_start, nested, bFits.draft, bFits.brackets⟩⟩, ?_⟩
    simp [kinds, Phase.kinds, Body.kinds, OpenBracket.kinds]
  | @closing g ps n id name inner outer d begun =>
    have bFits : Body.Fits ⟨id, name, inner :: outer, d⟩ := phaseFits
    obtain ⟨room, aroundFits, outerFit⟩ := bFits.brackets
    have depth : maxNesting - outer.length = maxNesting - (outer.length + 1) + 1 := by omega
    refine ⟨⟨psFit, ⟨aroundFits.addFactor ?_, outerFit⟩⟩, ?_⟩
    · rw [depth]
      exact .bracketed (bFits.draft.expression begun)
    · simp [kinds, Phase.kinds, Body.kinds, OpenBracket.kinds, Factor.kinds,
        Draft.kinds_expression]
  | @bar g ps n b begun =>
    have bFits : b.Fits := phaseFits
    refine ⟨⟨psFit, ⟨bFits.draft.addTerm begun _, bFits.brackets⟩⟩, ?_⟩
    simp [kinds, Phase.kinds, Body.kinds]
  | @period g ps n id name d begun =>
    have bFits : Body.Fits ⟨id, name, [], d⟩ := phaseFits
    have whole := bFits.draft.expression begun
    refine ⟨⟨List.forall_mem_cons.mpr ⟨whole, psFit⟩, trivial⟩, ?_⟩
    simp [kinds, Phase.kinds, Body.kinds, Production.kinds, Draft.kinds_expression]

/-- **Soundness.** Many steps add their tokens and keep the form. -/
theorem steps_sound {p q : Parser} {taken : List Kind} (fits : p.Fits) (h : p.steps taken = .ok q) :
    q.Fits ∧ q.kinds = p.kinds ++ taken := by
  induction taken generalizing p with
  | nil =>
    cases h
    exact ⟨fits, by simp⟩
  | cons kind rest ih =>
    obtain ⟨r, first, others⟩ := exists_takes_of_steps_cons h
    obtain ⟨rFits, rKinds⟩ := first.sound fits
    obtain ⟨qFits, qKinds⟩ := ih rFits others
    exact ⟨qFits, by simp [qKinds, rKinds]⟩

theorem fits_start (n : Nat) : (start n).Fits :=
  ⟨by simp [start], trivial⟩

@[simp] theorem kinds_start (n : Nat) : (start n).kinds = [] := rfl

/-- A parser that may finish gives a grammar that fits and reads as the tokens that it has taken. -/
theorem finish_sound {p : Parser} {g : Grammar} (fits : p.Fits) (h : p.finish = .ok g) :
    g.Fits maxNesting ∧ g.kinds = p.kinds := by
  obtain ⟨id, ps, n, phase⟩ := p
  cases phase with
  | betweenProductions =>
    cases h
    exact ⟨fun q hq => fits.productions q (List.mem_reverse.mp hq),
      by simp [Grammar.kinds, kinds, Phase.kinds]⟩
  | _ => cases h

end Parser

end Railroad
