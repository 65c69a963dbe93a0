import Railroad.Proofs.Yield

/-!
Giving out the ids of a tree afresh.

`number n` gives each node of a tree a new id: the first after `n` to the tree itself, then the ids
that follow to the nodes inside it, in the order in which a reader meets them. What the ids were
before does not matter, so two trees become equal by it exactly when they differ in their ids only.
`size` counts the ids that are given out.
-/

namespace Railroad

/-! ### The number of nodes -/

mutual

/-- The number of nodes of an expression, itself included. -/
def Expression.size : Expression → Nat
  | ⟨_, terms⟩ => 1 + Term.sizeAll terms

/-- The number of nodes of a term, itself included. -/
def Term.size : Term → Nat
  | ⟨_, factors⟩ => 1 + Factor.sizeAll factors

/-- The number of nodes of a factor, itself included. -/
def Factor.size : Factor → Nat
  | .identifier _ _ => 2
  | .literal _ _ => 2
  | .bracketed _ _ body => 1 + body.size

def Term.sizeAll : List Term → Nat
  | [] => 0
  | t :: rest => t.size + Term.sizeAll rest

def Factor.sizeAll : List Factor → Nat
  | [] => 0
  | f :: rest => f.size + Factor.sizeAll rest

end

/-- The number of nodes of a production, itself and its name included. -/
def Production.size (p : Production) : Nat :=
  2 + p.body.size

def Production.sizeAll : List Production → Nat
  | [] => 0
  | p :: rest => p.size + Production.sizeAll rest

/-- The number of nodes of a grammar, itself included. -/
def Grammar.size (g : Grammar) : Nat :=
  1 + Production.sizeAll g.productions

/-! ### New ids -/

mutual

/-- The expression with the ids that follow `n`. -/
def Expression.number (n : Nat) : Expression → Expression
  | ⟨_, terms⟩ => ⟨n + 1, Term.numberAll (n + 1) terms⟩

/-- The term with the ids that follow `n`. -/
def Term.number (n : Nat) : Term → Term
  | ⟨_, factors⟩ => ⟨n + 1, Factor.numberAll (n + 1) factors⟩

/-- The factor with the ids that follow `n`. -/
def Factor.number (n : Nat) : Factor → Factor
  | .identifier _ name => .identifier (n + 1) ⟨n + 2, name.text⟩
  | .literal _ l => .literal (n + 1) ⟨n + 2, l.text⟩
  | .bracketed _ bracket body => .bracketed (n + 1) bracket (body.number (n + 1))

def Term.numberAll (n : Nat) : List Term → List Term
  | [] => []
  | t :: rest => t.number n :: Term.numberAll (n + t.size) rest

def Factor.numberAll (n : Nat) : List Factor → List Factor
  | [] => []
  | f :: rest => f.number n :: Factor.numberAll (n + f.size) rest

end

/-- The production with the ids that follow `n`. -/
def Production.number (n : Nat) (p : Production) : Production :=
  ⟨n + 1, ⟨n + 2, p.name.text⟩, p.body.number (n + 2)⟩

def Production.numberAll (n : Nat) : List Production → List Production
  | [] => []
  | p :: rest => p.number n :: Production.numberAll (n + p.size) rest

/-- The grammar with the ids that follow `n`. -/
def Grammar.number (n : Nat) (g : Grammar) : Grammar :=
  ⟨n + 1, Production.numberAll (n + 1) g.productions⟩

/-! ### What new ids leave alone -/

mutual

theorem Expression.kinds_number (n : Nat) : ∀ e : Expression, (e.number n).kinds = e.kinds
  | ⟨_, terms⟩ => by
    simp only [Expression.number, Expression.kinds, Term.kindsAll_numberAll (n + 1) terms]

theorem Term.kinds_number (n : Nat) : ∀ t : Term, (t.number n).kinds = t.kinds
  | ⟨_, factors⟩ => by
    simp only [Term.number, Term.kinds, Factor.kindsAll_numberAll (n + 1) factors]

theorem Factor.kinds_number (n : Nat) : ∀ f : Factor, (f.number n).kinds = f.kinds
  | .identifier _ _ => rfl
  | .literal _ _ => rfl
  | .bracketed _ _ body => by
    simp only [Factor.number, Factor.kinds, body.kinds_number (n + 1)]

theorem Term.kindsAll_numberAll (n : Nat) :
    ∀ terms : List Term, Term.kindsAll (Term.numberAll n terms) = Term.kindsAll terms
  | [] => rfl
  | t :: rest => by
    simp only [Term.numberAll, Term.kindsAll, t.kinds_number n, Term.kindsAll_numberAll _ rest]

theorem Factor.kindsAll_numberAll (n : Nat) :
    ∀ factors : List Factor, Factor.kindsAll (Factor.numberAll n factors) = Factor.kindsAll factors
  | [] => rfl
  | f :: rest => by
    simp only [Factor.numberAll, Factor.kindsAll, f.kinds_number n,
      Factor.kindsAll_numberAll _ rest]

end

mutual

theorem Expression.size_number (n : Nat) : ∀ e : Expression, (e.number n).size = e.size
  | ⟨_, terms⟩ => by
    simp only [Expression.number, Expression.size, Term.sizeAll_numberAll (n + 1) terms]

theorem Term.size_number (n : Nat) : ∀ t : Term, (t.number n).size = t.size
  | ⟨_, factors⟩ => by
    simp only [Term.number, Term.size, Factor.sizeAll_numberAll (n + 1) factors]

theorem Factor.size_number (n : Nat) : ∀ f : Factor, (f.number n).size = f.size
  | .identifier _ _ => rfl
  | .literal _ _ => rfl
  | .bracketed _ _ body => by
    simp only [Factor.number, Factor.size, body.size_number (n + 1)]

theorem Term.sizeAll_numberAll (n : Nat) :
    ∀ terms : List Term, Term.sizeAll (Term.numberAll n terms) = Term.sizeAll terms
  | [] => rfl
  | t :: rest => by
    simp only [Term.numberAll, Term.sizeAll, t.size_number n, Term.sizeAll_numberAll _ rest]

theorem Factor.sizeAll_numberAll (n : Nat) :
    ∀ factors : List Factor, Factor.sizeAll (Factor.numberAll n factors) = Factor.sizeAll factors
  | [] => rfl
  | f :: rest => by
    simp only [Factor.numberAll, Factor.sizeAll, f.size_number n, Factor.sizeAll_numberAll _ rest]

end

mutual

/-- New ids replace those that were given out before. -/
theorem Expression.number_number (m n : Nat) :
    ∀ e : Expression, (e.number m).number n = e.number n
  | ⟨_, terms⟩ => by
    simp only [Expression.number, Term.numberAll_numberAll (m + 1) (n + 1) terms]

theorem Term.number_number (m n : Nat) : ∀ t : Term, (t.number m).number n = t.number n
  | ⟨_, factors⟩ => by
    simp only [Term.number, Factor.numberAll_numberAll (m + 1) (n + 1) factors]

theorem Factor.number_number (m n : Nat) : ∀ f : Factor, (f.number m).number n = f.number n
  | .identifier _ _ => rfl
  | .literal _ _ => rfl
  | .bracketed _ _ body => by
    simp only [Factor.number, body.number_number (m + 1) (n + 1)]

theorem Term.numberAll_numberAll (m n : Nat) :
    ∀ terms : List Term, Term.numberAll n (Term.numberAll m terms) = Term.numberAll n terms
  | [] => rfl
  | t :: rest => by
    simp only [Term.numberAll, t.number_number m n, t.size_number m,
      Term.numberAll_numberAll _ _ rest]

theorem Factor.numberAll_numberAll (m n : Nat) :
    ∀ factors : List Factor,
      Factor.numberAll n (Factor.numberAll m factors) = Factor.numberAll n factors
  | [] => rfl
  | f :: rest => by
    simp only [Factor.numberAll, f.number_number m n, f.size_number m,
      Factor.numberAll_numberAll _ _ rest]

end

theorem Term.exists_of_mem_numberAll {n : Nat} {terms : List Term} {t : Term}
    (h : t ∈ Term.numberAll n terms) : ∃ u ∈ terms, ∃ m, t = u.number m := by
  induction terms generalizing n with
  | nil => simp [numberAll] at h
  | cons u rest ih =>
    rcases List.mem_cons.mp h with rfl | h
    · exact ⟨u, by simp, n, rfl⟩
    · obtain ⟨v, hv, m, rfl⟩ := ih h
      exact ⟨v, List.mem_cons_of_mem u hv, m, rfl⟩

theorem Factor.exists_of_mem_numberAll {n : Nat} {factors : List Factor} {f : Factor}
    (h : f ∈ Factor.numberAll n factors) : ∃ u ∈ factors, ∃ m, f = u.number m := by
  induction factors generalizing n with
  | nil => simp [numberAll] at h
  | cons u rest ih =>
    rcases List.mem_cons.mp h with rfl | h
    · exact ⟨u, by simp, n, rfl⟩
    · obtain ⟨v, hv, m, rfl⟩ := ih h
      exact ⟨v, List.mem_cons_of_mem u hv, m, rfl⟩

theorem Term.numberAll_ne_nil {n : Nat} {terms : List Term} (h : terms ≠ []) :
    Term.numberAll n terms ≠ [] := by
  cases terms with
  | nil => exact absurd rfl h
  | cons t rest => simp [numberAll]

theorem Factor.numberAll_ne_nil {n : Nat} {factors : List Factor} (h : factors ≠ []) :
    Factor.numberAll n factors ≠ [] := by
  cases factors with
  | nil => exact absurd rfl h
  | cons f rest => simp [numberAll]

/-- New ids keep the form of a part. -/
theorem Parts.fits_number :
    (∀ (e : Expression) (m n : Nat), e.Fits m → (e.number n).Fits m) ∧
      (∀ (t : Term) (m n : Nat), t.Fits m → (t.number n).Fits m) ∧
      ∀ (f : Factor) (m n : Nat), f.Fits m → (f.number n).Fits m :=
  Parts.induction
    { expression := by
        rintro ⟨id, terms⟩ ih m n fits
        obtain ⟨inhabited, fits⟩ := Expression.fits_iff.mp fits
        refine Expression.fits_iff.mpr ⟨Term.numberAll_ne_nil inhabited, fun t ht => ?_⟩
        obtain ⟨u, hu, k, rfl⟩ := Term.exists_of_mem_numberAll ht
        exact ih u hu m k (fits u hu)
      term := by
        rintro ⟨id, factors⟩ ih m n fits
        obtain ⟨inhabited, fits⟩ := Term.fits_iff.mp fits
        refine Term.fits_iff.mpr ⟨Factor.numberAll_ne_nil inhabited, fun f hf => ?_⟩
        obtain ⟨u, hu, k, rfl⟩ := Factor.exists_of_mem_numberAll hf
        exact ih u hu m k (fits u hu)
      identifier := fun _ _ _ _ _ => .identifier
      literal := fun _ _ _ _ _ => .literal
      bracketed := by
        rintro id bracket body ih (_ | m) n fits
        · exact absurd fits Factor.not_fits_zero
        · exact .bracketed (ih m (n + 1) (Factor.fits_bracketed.mp fits)) }

theorem Production.kinds_number (n : Nat) (p : Production) : (p.number n).kinds = p.kinds := by
  simp only [Production.number, Production.kinds, Expression.kinds_number]

theorem Production.size_number (n : Nat) (p : Production) : (p.number n).size = p.size := by
  simp only [Production.number, Production.size, Expression.size_number]

theorem Production.number_number (m n : Nat) (p : Production) :
    (p.number m).number n = p.number n := by
  simp only [Production.number, Expression.number_number]

theorem Production.exists_of_mem_numberAll {n : Nat} {productions : List Production}
    {p : Production} (h : p ∈ numberAll n productions) :
    ∃ q ∈ productions, ∃ m, p = q.number m := by
  induction productions generalizing n with
  | nil => simp [numberAll] at h
  | cons q rest ih =>
    rcases List.mem_cons.mp h with rfl | h
    · exact ⟨q, by simp, n, rfl⟩
    · obtain ⟨r, hr, m, rfl⟩ := ih h
      exact ⟨r, List.mem_cons_of_mem q hr, m, rfl⟩

theorem Production.sizeAll_numberAll (n : Nat) (productions : List Production) :
    sizeAll (numberAll n productions) = sizeAll productions := by
  induction productions generalizing n with
  | nil => rfl
  | cons p rest ih => simp only [numberAll, sizeAll, p.size_number, ih]

theorem Production.numberAll_numberAll (m n : Nat) (productions : List Production) :
    numberAll n (numberAll m productions) = numberAll n productions := by
  induction productions generalizing m n with
  | nil => rfl
  | cons p rest ih => simp only [numberAll, p.number_number, p.size_number, ih]

theorem Production.flatMap_kinds_numberAll (n : Nat) (productions : List Production) :
    (numberAll n productions).flatMap kinds = productions.flatMap kinds := by
  induction productions generalizing n with
  | nil => rfl
  | cons p rest ih => simp only [numberAll, List.flatMap_cons, p.kinds_number, ih]

theorem Grammar.kinds_number (n : Nat) (g : Grammar) : (g.number n).kinds = g.kinds := by
  rw [number, kinds, Production.flatMap_kinds_numberAll, kinds]

theorem Grammar.size_number (n : Nat) (g : Grammar) : (g.number n).size = g.size := by
  simp only [number, size, Production.sizeAll_numberAll]

theorem Grammar.number_number (m n : Nat) (g : Grammar) : (g.number m).number n = g.number n := by
  simp only [number, Production.numberAll_numberAll]

theorem Grammar.Fits.number {g : Grammar} {m : Nat} (h : g.Fits m) (n : Nat) :
    (g.number n).Fits m := by
  intro p hp
  obtain ⟨q, hq, k, rfl⟩ := Production.exists_of_mem_numberAll hp
  exact Parts.fits_number.1 q.body m (k + 2) (h q hq)

end Railroad
