import Mathlib.Data.List.Forall2
import Railroad.Layout

/-!
How a term is cut when its first repetition is drawn with the factors in front of it.

* `Term.view`: how a term is made up, by the decision on it. If the term is compacted, it consists
  of factors that are kept, factors that are dropped, the repetition and factors behind it; and the
  dropped factors are, one by one, the same symbols as those that the body ends with.
* `Term.layout_plain`, `Term.layout_fullMatch`, `Term.layout_separator`: the layout of a term by the
  decision on it.
-/

namespace Railroad

/-! ### The cut -/

/-- The same symbols, one by one. -/
abbrev SameSymbols : List Factor → List Factor → Prop :=
  List.Forall₂ fun a b => a.sameSymbol b = true

/-- A term is cut right at its first repetition. -/
theorem splitAtRepetition_eq_some {factors : List Factor} {split : RepetitionSplit}
    (h : splitAtRepetition factors = some split) :
    (∀ f ∈ split.before, f.isRepetition = false) ∧
      ∃ id, factors = split.before ++ .bracketed id .repetition split.body :: split.after := by
  induction factors generalizing split with
  | nil => cases h
  | cons f rest ih =>
    unfold splitAtRepetition at h
    split at h
    · cases h
    · rename_i id body after same
      cases same
      cases h
      exact ⟨by simp, id, rfl⟩
    · rename_i plain same
      cases same
      obtain ⟨inner, found, rfl⟩ := Option.map_eq_some_iff.mp h
      obtain ⟨before, id, rfl⟩ := ih found
      refine ⟨List.forall_mem_cons.mpr ⟨?_, before⟩, id, rfl⟩
      unfold Factor.isRepetition
      split
      · exact (plain _ _ rfl).elim
      · rfl

theorem Expression.singleTerm?_eq_some {e : Expression} {t : Term} :
    e.singleTerm? = some t ↔ e.terms = [t] := by
  unfold singleTerm?
  split
  · rename_i only terms
    simp [terms]
  · rename_i several
    simp only [false_iff, reduceCtorEq]
    exact several t

/-- Two lists from the front on: as long a part of both as there are pairs in a row. -/
theorem exists_append_of_takeWhile_zip (as bs : List Factor) :
    ∃ front rest front' rest', as = front ++ rest ∧ bs = front' ++ rest' ∧
      front'.length = ((as.zip bs).takeWhile fun (a, b) => a.sameSymbol b).length ∧
      SameSymbols front front' := by
  induction as generalizing bs with
  | nil => exact ⟨[], [], [], bs, rfl, rfl, rfl, .nil⟩
  | cons a as ih =>
    cases bs with
    | nil => exact ⟨[], a :: as, [], [], rfl, rfl, rfl, .nil⟩
    | cons b bs =>
      by_cases same : a.sameSymbol b = true
      · obtain ⟨front, rest, front', rest', rfl, rfl, length, pairs⟩ := ih bs
        refine ⟨a :: front, rest, b :: front', rest', rfl, rfl, ?_, .cons same pairs⟩
        simp [same, length]
      · refine ⟨[], a :: as, [], b :: bs, rfl, rfl, ?_, .nil⟩
        simp [same]

/-- The factors that match stand at the end of both lists. -/
theorem exists_append_of_matchedSuffix (outer inner : List Factor) :
    ∃ keep dropped head tail, outer = keep ++ dropped ∧ inner = head ++ tail ∧
      tail.length = matchedSuffix outer inner ∧ SameSymbols dropped tail := by
  obtain ⟨front, rest, front', rest', hOuter, hInner, length, pairs⟩ :=
    exists_append_of_takeWhile_zip outer.reverse inner.reverse
  refine ⟨rest.reverse, front.reverse, rest'.reverse, front'.reverse, ?_, ?_, ?_, ?_⟩
  · rw [← List.reverse_append, ← hOuter, List.reverse_reverse]
  · rw [← List.reverse_append, ← hInner, List.reverse_reverse]
  · rw [List.length_reverse, length]
    rfl
  · exact List.rel_reverse pairs

/-- Nothing is dropped. -/
def Compaction.isPlain : Compaction → Bool
  | .fullMatch _ _ | .separator _ _ _ => false
  | _ => true

/-- How a term is made up, by the decision on it. -/
inductive Term.View (t : Term) : Prop where
  | plain : (Compaction.of t.factors).isPlain = true → View t
  /-- The dropped factors are the whole body of the repetition. -/
  | fullMatch {keep dropped after : List Factor} {id : NodeId} {body : Expression} {inner : Term} :
      t.factors = keep ++ (dropped ++ .bracketed id .repetition body :: after) →
      Compaction.of t.factors = .fullMatch (keep.length + dropped.length) dropped.length →
      body.terms = [inner] → SameSymbols dropped inner.factors → View t
  /-- The dropped factors are the end of the body, and what is left of it is terminal. -/
  | separator {keep dropped head tail after : List Factor} {id : NodeId} {body : Expression}
      {inner : Term} :
      t.factors = keep ++ (dropped ++ .bracketed id .repetition body :: after) →
      Compaction.of t.factors =
        .separator (keep.length + dropped.length) dropped.length head.length →
      body.terms = [inner] → inner.factors = head ++ tail → head ≠ [] → tail ≠ [] →
      (∀ f ∈ head, f.isTerminal = true) → SameSymbols dropped tail → View t

/-- The parts of a term that is cut are among its factors. -/
theorem Term.mem_of_cut {t : Term} {keep dropped after : List Factor} {repetition : Factor}
    (h : t.factors = keep ++ (dropped ++ repetition :: after)) :
    repetition ∈ t.factors ∧ (∀ f ∈ keep, f ∈ t.factors) ∧ (∀ f ∈ dropped, f ∈ t.factors) ∧
      ∀ f ∈ after, f ∈ t.factors := by
  rw [h]
  refine ⟨by simp, ?_, ?_, ?_⟩
  · exact fun f hf => List.mem_append_left _ hf
  · exact fun f hf => List.mem_append_right _ (List.mem_append_left _ hf)
  · exact fun f hf => List.mem_append_right _ (List.mem_append_right _ (List.mem_cons_of_mem _ hf))

/-- **The decision on a term says how it is made up.** -/
theorem Term.view (t : Term) : t.View := by
  by_cases single : t.factors.length = 1
  · exact .plain (by rw [Compaction.of, if_pos single]; rfl)
  cases found : splitAtRepetition t.factors with
  | none => exact .plain (by rw [Compaction.of, if_neg single, found]; rfl)
  | some split =>
    obtain ⟨-, id, factors⟩ := splitAtRepetition_eq_some found
    cases one : split.body.singleTerm? with
    | none => exact .plain (by simp only [Compaction.of, if_neg single, found, one]; rfl)
    | some inner =>
      have decided : Compaction.of t.factors =
          Compaction.ofSingleBody split.before inner.factors := by
        simp only [Compaction.of, if_neg single, found, one]
      have terms := Expression.singleTerm?_eq_some.mp one
      obtain ⟨keep, dropped, head, tail, before, body, length, pairs⟩ :=
        exists_append_of_matchedSuffix split.before inner.factors
      have sameLength := pairs.length_eq
      have matched : matchedSuffix split.before inner.factors = dropped.length :=
        length.symm.trans sameLength.symm
      have headLength : inner.factors.length - dropped.length = head.length := by
        rw [body, List.length_append, sameLength, Nat.add_sub_cancel]
      rw [before, List.append_assoc] at factors
      simp only [Compaction.ofSingleBody, matched, headLength] at decided
      rw [before, List.length_append] at decided
      split_ifs at decided with whole terminal
      · obtain rfl : head = [] := List.length_eq_zero_iff.mp (by omega)
        exact .fullMatch factors decided terms (by rwa [body])
      · obtain ⟨inhabited, heads⟩ := terminal
        rw [body, List.take_left' rfl, List.all_eq_true] at heads
        refine .separator factors decided terms body ?_ ?_ heads pairs
        · rintro rfl
          exact whole (by simp [body, sameLength])
        · rintro rfl
          simp [sameLength] at inhabited
      · exact .plain (by rw [decided]; rfl)

/-! ### Layouts -/

/-- The places of a list that is cut in front of one item and at it. -/
theorem cut_places {α β : Type} (f : α → β) (keep dropped after : List α) (item : α) :
    let items := (keep ++ (dropped ++ item :: after)).map f
    items.take (keep.length + dropped.length - dropped.length) = keep.map f ∧
      items[keep.length + dropped.length]? = some (f item) ∧
      items.drop (keep.length + dropped.length + 1) = after.map f := by
  refine ⟨?_, ?_, ?_⟩
  · rw [Nat.add_sub_cancel, ← List.map_take, List.take_left' rfl]
  · rw [List.getElem?_map, ← List.append_assoc, List.getElem?_append_right (by simp)]
    simp
  · have front : (keep ++ dropped ++ [item]).length = keep.length + dropped.length + 1 := by
      simp only [List.length_append, List.length_singleton]
    rw [← List.map_drop, ← List.append_assoc, List.append_cons, List.drop_left' front]

section Layout

variable {t : Term} {keep dropped after : List Factor} {id : NodeId} {body : Expression}

/-- A term that is not compacted is laid out factor by factor. -/
theorem Term.layout_plain (above : List NodeId) (h : (Compaction.of t.factors).isPlain = true) :
    ∃ arranged, t.layout above = .noted (.term t (.of t.factors)) arranged ∧
      (arranged = .joined (t.factors.map (Factor.layout (above ++ [t.id]))) ∨
        arranged = .sequence (t.factors.map (Factor.layout (above ++ [t.id])))) := by
  rw [layout_eq, Sketch.arrange, List.map_map]
  refine ⟨_, rfl, ?_⟩
  revert h
  cases Compaction.of t.factors with
  | singleFactor => exact fun _ => .inl rfl
  | noRepetition | bodyWithChoice | noMatch => exact fun _ => .inr rfl
  | fullMatch | separator =>
    intro plain
    cases plain

/-- A full match is laid out as a loop of the body, between the factors kept and those behind it. -/
theorem Term.layout_fullMatch (above : List NodeId)
    (factors : t.factors = keep ++ (dropped ++ .bracketed id .repetition body :: after))
    (h : Compaction.of t.factors = .fullMatch (keep.length + dropped.length) dropped.length) :
    t.layout above =
      .noted (.term t (.of t.factors))
        (.compacted (.oneOrMore (body.layout (above ++ [t.id] ++ [id])))
          (keep.map (Factor.layout (above ++ [t.id])))
          (after.map (Factor.layout (above ++ [t.id])))) := by
  obtain ⟨tid, all⟩ := t
  obtain rfl : all = _ := factors
  obtain ⟨front, _, rear⟩ := cut_places (Factor.layout (above ++ [tid])) keep dropped after
    (.bracketed id .repetition body)
  obtain ⟨_, middle, _⟩ := cut_places (Factor.sketchBelow (above ++ [tid])) keep dropped after
    (.bracketed id .repetition body)
  have pieces : Sketch.whole ∘ Factor.sketchBelow (above ++ [tid]) =
      Factor.layout (above ++ [tid]) := rfl
  simp only [layout_eq, Sketch.arrange, List.map_map, pieces, h, front, middle, rear,
    Option.map_some, Option.getD_some, Factor.alternatives_sketchBelow]
  rfl

/-- A separator loop runs over the end of the body and back over its beginning. -/
theorem Term.layout_separator (above : List NodeId) {inner : Term} {head tail : List Factor}
    (factors : t.factors = keep ++ (dropped ++ .bracketed id .repetition body :: after))
    (terms : body.terms = [inner]) (split : inner.factors = head ++ tail)
    (h : Compaction.of t.factors =
      .separator (keep.length + dropped.length) dropped.length head.length) :
    t.layout above =
      .noted (.term t (.of t.factors))
        (.compacted
          (.loop
            (.joined (tail.map
              (Factor.layout (above ++ [t.id] ++ [id] ++ [body.id] ++ [inner.id]))))
            (.joined (head.map
              (Factor.layout (above ++ [t.id] ++ [id] ++ [body.id] ++ [inner.id])))))
          (keep.map (Factor.layout (above ++ [t.id])))
          (after.map (Factor.layout (above ++ [t.id])))) := by
  obtain ⟨tid, all⟩ := t
  obtain rfl : all = _ := factors
  obtain ⟨bodyId, bodyTerms⟩ := body
  obtain rfl : bodyTerms = _ := terms
  obtain ⟨front, _, rear⟩ := cut_places (Factor.layout (above ++ [tid])) keep dropped after
    (.bracketed id .repetition ⟨bodyId, [inner]⟩)
  obtain ⟨_, middle, _⟩ := cut_places (Factor.sketchBelow (above ++ [tid])) keep dropped after
    (.bracketed id .repetition ⟨bodyId, [inner]⟩)
  have pieces : Sketch.whole ∘ Factor.sketchBelow (above ++ [tid]) =
      Factor.layout (above ++ [tid]) := rfl
  have inside : (Expression.alternatives (.along (above ++ [tid] ++ [id]) bodyId)
      ⟨bodyId, [inner]⟩).flatMap Alternative.pieces =
      head.map (Factor.layout (above ++ [tid] ++ [id] ++ [bodyId] ++ [inner.id])) ++
        tail.map (Factor.layout (above ++ [tid] ++ [id] ++ [bodyId] ++ [inner.id])) := by
    rw [← List.map_append, ← split, ← Term.alternative_pieces, Path.along_append _ bodyId]
    simp [Expression.alternatives, Term.alternatives]
  simp only [layout_eq, Sketch.arrange, List.map_map, pieces, h, front, middle, rear,
    Option.map_some, Option.getD_some, Factor.alternatives_sketchBelow, inside,
    List.take_left' (List.length_map _), List.drop_left' (List.length_map _)]

end Layout

end Railroad
