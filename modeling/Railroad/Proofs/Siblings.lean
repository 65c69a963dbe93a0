import Railroad.Proofs.Numbering

/-!
Parts side by side have different ids, once ids are given out in order.

* `Expression.Numbered`, `Term.Numbered`, `Factor.Numbered`: ids were given out from some number on.
  A numbered part consists of numbered parts (`Expression.Numbered.term`, `Term.Numbered.factor`,
  `Factor.Numbered.body`).
* `Expression.Numbered.nodup`, `Term.Numbered.nodup`: the ids right inside a numbered part are
  different.
-/

namespace Railroad

/-! ### Ascending ids -/

theorem Term.size_pos (t : Term) : 0 < t.size := by
  obtain ⟨id, factors⟩ := t
  rw [Term.size]
  omega

theorem Factor.size_pos (f : Factor) : 0 < f.size := by
  cases f with
  | identifier id name => exact Nat.succ_pos 1
  | literal id l => exact Nat.succ_pos 1
  | bracketed id bracket body =>
    rw [Factor.size]
    omega

theorem Term.id_number (n : Nat) (t : Term) : (t.number n).id = n + 1 := by
  obtain ⟨id, factors⟩ := t
  rfl

theorem Factor.id_number (n : Nat) (f : Factor) : (f.number n).id = n + 1 := by
  cases f <;> rfl

/-- Ids that are given to one item after the other ascend: the first id goes to the first item
itself, and as many are given to it as it has nodes. -/
theorem ids_ascend {α : Type} {id : α → NodeId} {size : α → Nat} {number : Nat → α → α}
    {numberAll : Nat → List α → List α} (first : ∀ n a, id (number n a) = n + 1)
    (pos : ∀ a, 0 < size a) (nil : ∀ n, numberAll n [] = [])
    (cons : ∀ n a rest, numberAll n (a :: rest) = number n a :: numberAll (n + size a) rest)
    (n : Nat) (items : List α) :
    (∀ a ∈ numberAll n items, n < id a) ∧ ((numberAll n items).map id).Pairwise (· < ·) := by
  induction items generalizing n with
  | nil => simp [nil]
  | cons a rest ih =>
    obtain ⟨above, ascending⟩ := ih (n + size a)
    have next : n + 1 ≤ n + size a := Nat.add_le_add_left (pos a) n
    rw [cons]
    constructor
    · refine List.forall_mem_cons.mpr ⟨?_, fun b hb => ?_⟩
      · rw [first]
        exact Nat.lt_succ_self n
      · exact Nat.lt_of_le_of_lt (Nat.le_add_right n (size a)) (above b hb)
    · refine List.pairwise_cons.mpr ⟨?_, ascending⟩
      intro later hlater
      obtain ⟨b, hb, rfl⟩ := List.mem_map.mp hlater
      rw [first]
      exact Nat.lt_of_le_of_lt next (above b hb)

/-- The ids that are given to terms ascend. -/
theorem Term.ids_numberAll (n : Nat) (terms : List Term) :
    (∀ t ∈ numberAll n terms, n < t.id) ∧
      ((numberAll n terms).map Term.id).Pairwise (· < ·) :=
  ids_ascend id_number size_pos (fun _ => rfl) (fun _ _ _ => rfl) n terms

/-- The ids that are given to factors ascend. -/
theorem Factor.ids_numberAll (n : Nat) (factors : List Factor) :
    (∀ f ∈ numberAll n factors, n < f.id) ∧
      ((numberAll n factors).map Factor.id).Pairwise (· < ·) :=
  ids_ascend id_number size_pos (fun _ => rfl) (fun _ _ _ => rfl) n factors

/-! ### Numbered parts -/

/-- The ids of the expression are those that follow some number. -/
def Expression.Numbered (e : Expression) : Prop :=
  ∃ n, e.number n = e

/-- The ids of the term are those that follow some number. -/
def Term.Numbered (t : Term) : Prop :=
  ∃ n, t.number n = t

/-- The ids of the factor are those that follow some number. -/
def Factor.Numbered (f : Factor) : Prop :=
  ∃ n, f.number n = f

theorem Expression.Numbered.terms {e : Expression} (h : e.Numbered) :
    ∃ n, Term.numberAll n e.terms = e.terms := by
  obtain ⟨n, same⟩ := h
  obtain ⟨id, terms⟩ := e
  exact ⟨n + 1, congrArg Expression.terms same⟩

theorem Term.Numbered.factors {t : Term} (h : t.Numbered) :
    ∃ n, Factor.numberAll n t.factors = t.factors := by
  obtain ⟨n, same⟩ := h
  obtain ⟨id, factors⟩ := t
  exact ⟨n + 1, congrArg Term.factors same⟩

theorem Expression.Numbered.term {e : Expression} (h : e.Numbered) {t : Term} (ht : t ∈ e.terms) :
    t.Numbered := by
  obtain ⟨n, same⟩ := h.terms
  rw [← same] at ht
  obtain ⟨u, -, m, rfl⟩ := Term.exists_of_mem_numberAll ht
  exact ⟨m, u.number_number m m⟩

theorem Term.Numbered.factor {t : Term} (h : t.Numbered) {f : Factor} (hf : f ∈ t.factors) :
    f.Numbered := by
  obtain ⟨n, same⟩ := h.factors
  rw [← same] at hf
  obtain ⟨g, -, m, rfl⟩ := Factor.exists_of_mem_numberAll hf
  exact ⟨m, g.number_number m m⟩

theorem Factor.Numbered.body {id : NodeId} {bracket : Bracket} {body : Expression}
    (h : (Factor.bracketed id bracket body).Numbered) : body.Numbered := by
  obtain ⟨n, same⟩ := h
  exact ⟨n + 1, (Factor.bracketed.inj same).2.2⟩

/-- **The terms of a numbered expression have different ids.** -/
theorem Expression.Numbered.nodup {e : Expression} (h : e.Numbered) :
    (e.terms.map Term.id).Nodup := by
  obtain ⟨n, same⟩ := h.terms
  rw [← same]
  exact (Term.ids_numberAll n e.terms).2.imp Nat.ne_of_lt

/-- **The factors of a numbered term have different ids.** -/
theorem Term.Numbered.nodup {t : Term} (h : t.Numbered) : (t.factors.map Factor.id).Nodup := by
  obtain ⟨n, same⟩ := h.factors
  rw [← same]
  exact (Factor.ids_numberAll n t.factors).2.imp Nat.ne_of_lt

/-- The bodies of a numbered grammar are numbered. -/
theorem Grammar.numbered_body {g : Grammar} {n : Nat} (h : g.number n = g) {p : Production}
    (hp : p ∈ g.productions) : p.body.Numbered := by
  have same : Production.numberAll (n + 1) g.productions = g.productions :=
    congrArg Grammar.productions h
  rw [← same] at hp
  obtain ⟨q, -, m, rfl⟩ := Production.exists_of_mem_numberAll hp
  exact ⟨m + 2, q.body.number_number (m + 2) (m + 2)⟩

end Railroad
