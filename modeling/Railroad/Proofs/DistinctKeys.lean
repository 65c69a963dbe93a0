import Mathlib.Data.List.Nodup
import Railroad.Proofs.Marks
import Railroad.Proofs.Siblings

/-!
No two marks of a diagram have one key.

* `Rooted`: marks with different keys, all of them below some ids. Marks below different siblings
  are rooted together (`Rooted.siblings`).
* `Parts.rooted_layout`: the marks of a numbered part are rooted at the part, whatever is compacted,
  if those of a reference are rooted at the reference.
* `Grammar.rooted_shown`: so are those of a reference, opened or not.
-/

namespace Railroad

/-! ### Rooted marks -/

/-- Marks with different keys, all of them below the ids of `above`. -/
structure Rooted (above : List NodeId) (marks : List (PathKey × Mark)) : Prop where
  below : ∀ mark ∈ marks, above <+: mark.1.ids
  nodup : (marks.map (·.1)).Nodup

namespace Rooted

variable {above more : List NodeId} {marks : List (PathKey × Mark)}

theorem weaken (h : Rooted (above ++ more) marks) : Rooted above marks where
  below mark hm := (List.prefix_append above more).trans (h.below mark hm)
  nodup := h.nodup

theorem single {path : PathKey} (mark : Mark) (h : above <+: path.ids) :
    Rooted above [(path, mark)] where
  below := by simpa using h
  nodup := by simp

/-- Marks below one sibling and marks below others. -/
theorem append {id : NodeId} {others : List (PathKey × Mark)} (h : Rooted (above ++ [id]) marks)
    (rest : Rooted above others)
    (apart : ∀ mark ∈ others, ∃ other, other ≠ id ∧ above ++ [other] <+: mark.1.ids) :
    Rooted above (marks ++ others) where
  below := List.forall_mem_append.mpr ⟨h.weaken.below, rest.below⟩
  nodup := by
    rw [List.map_append]
    refine List.Nodup.append h.nodup rest.nodup ?_
    intro key here there
    obtain ⟨mark, hm, rfl⟩ := List.mem_map.mp here
    obtain ⟨mark', hm', same⟩ := List.mem_map.mp there
    obtain ⟨other, different, under⟩ := apart mark' hm'
    rw [show mark'.1 = mark.1 from same] at under
    have equal := List.prefix_of_prefix_length_le (h.below mark hm) under (by simp)
    have ids := equal.eq_of_length (by simp)
    exact different (by simpa using ids.symm)

/-- **Marks below siblings are rooted together.** -/
theorem siblings {α : Type} {items : List α} {id : α → NodeId}
    {marks : α → List (PathKey × Mark)} (ids : (items.map id).Nodup)
    (h : ∀ item ∈ items, Rooted (above ++ [id item]) (marks item)) :
    Rooted above (items.flatMap marks) := by
  induction items with
  | nil => exact ⟨by simp, by simp⟩
  | cons first rest ih =>
    obtain ⟨hfirst, hrest⟩ := List.forall_mem_cons.mp h
    obtain ⟨apart, restIds⟩ := List.nodup_cons.mp ids
    rw [List.flatMap_cons]
    refine hfirst.append (ih restIds hrest) ?_
    intro mark hm
    obtain ⟨item, hitem, hm⟩ := List.mem_flatMap.mp hm
    refine ⟨id item, ?_, (hrest item hitem).below mark hm⟩
    intro same
    exact apart (same ▸ List.mem_map_of_mem hitem)

end Rooted

/-! ### Layouts -/

section Layout

variable {refer : String → PathKey → Track}

variable (refer) in
/-- The marks of the factor are rooted at it. -/
def Factor.RootedMarks (f : Factor) : Prop :=
  ∀ above, Rooted (above ++ [f.id]) ((f.layout above).track refer).marks

/-- The marks of different factors are rooted together. -/
theorem Factor.rooted_marksAll {factors : List Factor} (above : List NodeId)
    (ids : (factors.map Factor.id).Nodup) (h : ∀ f ∈ factors, f.RootedMarks refer) :
    Rooted above (Factor.marksAll refer above factors) :=
  Rooted.siblings ids fun f hf => h f hf above

/-- A compacted term: the factors kept, the loop and the factors behind it are siblings. -/
theorem Term.rooted_compacted {keep dropped after : List Factor} {repetition : Factor}
    {round : List (PathKey × Mark)} {above : List NodeId}
    (ids : ((keep ++ (dropped ++ repetition :: after)).map Factor.id).Nodup)
    (h : ∀ f ∈ keep ++ (dropped ++ repetition :: after), f.RootedMarks refer)
    (hround : Rooted (above ++ [repetition.id]) round) :
    Rooted above (Factor.marksAll refer above keep ++
      (round ++ Factor.marksAll refer above after)) := by
  -- What is drawn, with the id below which it is.
  let drawn (f : Factor) := (f.id, ((f.layout above).track refer).marks)
  let items := keep.map drawn ++ (repetition.id, round) :: after.map drawn
  have items_ids : items.map (·.1) = (keep ++ repetition :: after).map Factor.id := by
    simp [items, drawn, Function.comp_def]
  have kept : (keep ++ repetition :: after).Sublist (keep ++ (dropped ++ repetition :: after)) :=
    (List.Sublist.refl keep).append (List.sublist_append_right dropped _)
  have rooted : Rooted above (items.flatMap (·.2)) := by
    refine Rooted.siblings (by rw [items_ids]; exact ids.sublist (kept.map _)) ?_
    intro item hitem
    rcases List.mem_append.mp hitem with front | rest
    · obtain ⟨f, hf, rfl⟩ := List.mem_map.mp front
      exact h f (by simp [hf]) above
    rcases List.mem_cons.mp rest with rfl | rear
    · exact hround
    · obtain ⟨f, hf, rfl⟩ := List.mem_map.mp rear
      exact h f (by simp [hf]) above
  have flat : items.flatMap (·.2) = Factor.marksAll refer above keep ++
      (round ++ Factor.marksAll refer above after) := by
    simp [items, drawn, Factor.marksAll, List.flatMap_map]
  rwa [flat] at rooted

/-- Factors that are drawn in another order are rooted together all the same. -/
theorem Factor.rooted_marksAll_perm {t : Term} {drawn : List Factor} (above : List NodeId)
    (numbered : t.Numbered) (swap : drawn.Perm t.factors)
    (h : ∀ f ∈ t.factors, f.RootedMarks refer) :
    Rooted above (Factor.marksAll refer above drawn) := by
  refine Factor.rooted_marksAll above ((swap.map Factor.id).nodup_iff.mpr numbered.nodup) ?_
  intro f hf
  exact h f (swap.mem_iff.mp hf)

/-- The marks of a term are rooted at it, whichever way it is compacted. -/
theorem Term.rooted_layout {t : Term} (numbered : t.Numbered)
    (each : ∀ f ∈ t.factors, f.RootedMarks refer)
    (nested : ∀ id body, .bracketed id .repetition body ∈ t.factors →
      (∀ above, Rooted (above ++ [body.id]) ((body.layout above).track refer).marks) ∧
        ∀ inner ∈ body.terms, ∀ f ∈ inner.factors, f.RootedMarks refer)
    (above : List NodeId) : Rooted (above ++ [t.id]) ((t.layout above).track refer).marks := by
  have ids := numbered.nodup
  cases t.view with
  | plain plain =>
    rw [t.marks_plain above plain]
    exact Factor.rooted_marksAll _ ids each
  | @fullMatch keep dropped after id body inner all decided terms pairs =>
    have repetition := (Term.mem_of_cut all).1
    rw [t.marks_fullMatch above all decided]
    rw [all] at ids each
    exact Term.rooted_compacted ids each ((nested id body repetition).1 _).weaken
  | @separator keep dropped head tail after id body inner all decided terms split =>
    have repetition := (Term.mem_of_cut all).1
    have innerMem : inner ∈ body.terms := by simp [terms]
    have innerNumbered := (numbered.factor repetition).body.term innerMem
    have swap : (tail ++ head).Perm inner.factors := by
      rw [split]
      exact List.perm_append_comm
    have round : Rooted (above ++ [t.id] ++ [id] ++ [body.id] ++ [inner.id]) _ :=
      Factor.rooted_marksAll_perm _ innerNumbered swap ((nested id body repetition).2 inner innerMem)
    rw [t.marks_separator above all terms split decided]
    rw [all] at ids each
    exact Term.rooted_compacted ids each round.weaken.weaken

/-- The marks of brackets are rooted at them, drawn as a whole or as ways back. -/
theorem Factor.rooted_bracketed {id : NodeId} {bracket : Bracket} {body : Expression}
    (numbered : body.Numbered)
    (whole : ∀ above, Rooted (above ++ [body.id]) ((body.layout above).track refer).marks)
    (pieces : ∀ t ∈ body.terms, ∀ f ∈ t.factors, f.RootedMarks refer) :
    (Factor.bracketed id bracket body).RootedMarks refer := by
  intro above
  cases parallel : (Factor.bracketed id bracket body).isParallel with
  | false =>
    rw [Factor.marks_bracketed above parallel]
    exact (whole (above ++ [id])).weaken
  | true =>
    rw [Factor.marks_parallel above parallel]
    have ways : Rooted (above ++ [id] ++ [body.id]) (body.terms.flatMap fun t =>
        Factor.marksAll refer (above ++ [id] ++ [body.id] ++ [t.id]) t.factors.reverse) := by
      refine Rooted.siblings numbered.nodup ?_
      intro t ht
      exact Factor.rooted_marksAll_perm _ (numbered.term ht) (List.reverse_perm t.factors)
        (pieces t ht)
    exact ways.weaken

/-- **The marks of a part are rooted at the part.** -/
theorem Parts.rooted_layout (h : ∀ name path, Rooted path.ids (refer name path).marks) :
    (∀ e : Expression, e.Numbered → ∀ above,
      Rooted (above ++ [e.id]) ((e.layout above).track refer).marks) ∧
    (∀ t : Term, t.Numbered → ∀ above,
      Rooted (above ++ [t.id]) ((t.layout above).track refer).marks) ∧
    ∀ f : Factor, f.Numbered → f.RootedMarks refer := by
  refine Parts.induction_nested ?expression ?term ?identifier ?literal ?bracketed
  case expression =>
    intro e ih numbered above
    rw [e.marks_layout]
    exact Rooted.siblings numbered.nodup fun t ht => ih t ht (numbered.term ht) _
  case term =>
    intro t ih nested numbered above
    refine Term.rooted_layout numbered (fun f hf => ih f hf (numbered.factor hf)) ?_ above
    intro id body repetition
    have bodyNumbered := (numbered.factor repetition).body
    obtain ⟨whole, pieces⟩ := nested id .repetition body repetition
    refine ⟨whole bodyNumbered, ?_⟩
    intro inner hi f hf
    exact pieces inner hi f hf ((bodyNumbered.term hi).factor hf)
  case identifier =>
    intro id name _ above
    rw [Factor.layout_identifier]
    split
    · have inside := h name.text ⟨above ++ [id, name.id]⟩
      rw [show above ++ [id, name.id] = above ++ [id] ++ [name.id] by simp] at inside ⊢
      exact inside.weaken
    · rw [Layout.track, Track.marks_terminal]
      exact .single _ (by simp [Factor.id])
  case literal =>
    intro id l _ above
    rw [Factor.layout_literal, Layout.track, Track.marks_terminal]
    exact .single _ (by simp [Factor.id])
  case bracketed =>
    intro id bracket body ih pieces numbered
    refine Factor.rooted_bracketed numbered.body (ih numbered.body) ?_
    intro t ht f hf
    exact pieces t ht f hf ((numbered.body.term ht).factor hf)

end Layout

/-- **The marks of a reference are rooted at it**, however many references are opened inside. -/
theorem Grammar.rooted_shown {g : Grammar} (numbered : ∀ p ∈ g.productions, p.body.Numbered)
    (selected : PathKey → Bool) (levels : Nat) (name : String) (path : PathKey) :
    Rooted path.ids (g.shown selected levels name path).marks := by
  induction levels generalizing name path with
  | zero =>
    rw [shown, Track.marks_nonTerminal]
    exact .single _ (List.prefix_refl _)
  | succ levels ih =>
    unfold shown
    split
    · cases found : g.find? name with
      | none =>
        rw [Track.marks_nonTerminal]
        exact .single _ (List.prefix_refl _)
      | some p =>
        have inside := (Parts.rooted_layout ih).1 p.body
          (numbered p (List.mem_of_find?_eq_some found)) path.ids
        rw [Track.marks_group]
        refine ⟨List.forall_mem_cons.mpr ⟨List.prefix_refl _, inside.weaken.below⟩, ?_⟩
        refine List.nodup_cons.mpr ⟨?_, inside.nodup⟩
        -- A key inside is longer than that of the frame.
        intro repeated
        obtain ⟨mark, hm, same⟩ := List.mem_map.mp repeated
        have longer := (inside.below mark hm).length_le
        rw [show mark.1 = path from same, List.length_append, List.length_singleton] at longer
        omega
    · rw [Track.marks_nonTerminal]
      exact .single _ (List.prefix_refl _)

end Railroad
