import Railroad.Proofs.Compaction
import Railroad.Proofs.Tracks

/-!
The tracks of parts: what the layouts of expressions, terms and factors are drawn as.

* `Factor.tracks`: the tracks of factors that are drawn one by one.
* `Expression.track_layout`, `Term.track_plain`, `Term.track_fullMatch`, `Term.track_separator`: the
  tracks of expressions and terms. Every term is a joined sequence; compaction only decides of what.
* `Factor.track_bracketed`, `Factor.track_parallel`: brackets drawn as a whole and as ways back.
-/

namespace Railroad

/-! ### Joined tracks -/

namespace Track

@[simp] theorem joined_singleton (item : Track) : joined [item] = item := rfl

theorem joined_of_length_ne_one {items : List Track} (h : items.length ≠ 1) :
    joined items = .sequence items := by
  unfold joined
  split
  · exact absurd rfl h
  · rfl

/-- Joined tracks show how many there are, unless one of them is a sequence itself. -/
theorem length_eq_of_joined_eq {items others : List Track} {item other : Track}
    (h : joined items = joined others) (hitem : item ∈ items) (hother : other ∈ others)
    (itemPlain : ∀ inner, item ≠ .sequence inner) (otherPlain : ∀ inner, other ≠ .sequence inner) :
    items.length = others.length := by
  by_cases one : items.length = 1 <;> by_cases one' : others.length = 1
  · rw [one, one']
  · obtain ⟨only, rfl⟩ := List.length_eq_one_iff.mp one
    rw [joined_singleton, joined_of_length_ne_one one', ← List.mem_singleton.mp hitem] at h
    exact absurd h (itemPlain _)
  · obtain ⟨only, rfl⟩ := List.length_eq_one_iff.mp one'
    rw [joined_singleton, joined_of_length_ne_one one, ← List.mem_singleton.mp hother] at h
    exact absurd h.symm (otherPlain _)
  · rw [joined_of_length_ne_one one, joined_of_length_ne_one one'] at h
    exact congrArg List.length (sequence.inj h)

end Track

/-! ### Parts -/

section Tracks

variable (refer : String → PathKey → Track)

/-- The tracks of factors that are drawn one by one, all below `above`. -/
def Factor.tracks (above : List NodeId) (factors : List Factor) : List Track :=
  factors.map fun f => (f.layout above).track refer

variable {refer}

@[simp] theorem Factor.length_tracks (above : List NodeId) (factors : List Factor) :
    (Factor.tracks refer above factors).length = factors.length :=
  List.length_map _

theorem Factor.trackAll_layouts (above : List NodeId) (factors : List Factor) :
    Layout.trackAll refer (factors.map (Factor.layout above)) =
      Factor.tracks refer above factors := by
  rw [Layout.trackAll_eq_map, List.map_map]
  rfl

/-- An expression is drawn as its only term or as a choice. -/
theorem Expression.track_layout (above : List NodeId) (e : Expression) :
    (∃ t, e.terms = [t] ∧
      (e.layout above).track refer = (t.layout (above ++ [e.id])).track refer) ∨
    e.terms.length ≠ 1 ∧ (e.layout above).track refer =
      .choice (e.terms.length / 2)
        (e.terms.map fun t => (t.layout (above ++ [e.id])).track refer) := by
  rw [Expression.layout_eq]
  split
  · rename_i only terms
    exact .inl ⟨only, terms, rfl⟩
  · rename_i several
    refine .inr ⟨?_, ?_⟩
    · intro one
      obtain ⟨only, terms⟩ := List.length_eq_one_iff.mp one
      exact several only terms
    · rw [Layout.track, Layout.trackAll_eq_map, List.map_map, List.length_map]
      rfl

theorem Expression.track_single (above : List NodeId) {e : Expression} {t : Term}
    (terms : e.terms = [t]) :
    (e.layout above).track refer = (t.layout (above ++ [e.id])).track refer := by
  rw [Expression.layout_eq, terms]

variable {t : Term}

/-- A term that is not compacted is drawn factor by factor. -/
theorem Term.track_plain (above : List NodeId) (h : (Compaction.of t.factors).isPlain = true) :
    (t.layout above).track refer = .joined (Factor.tracks refer (above ++ [t.id]) t.factors) := by
  by_cases single : t.factors.length = 1
  · have decided : Compaction.of t.factors = .singleFactor := if_pos single
    simp only [layout_eq, Sketch.arrange, List.map_map, decided, Layout.track]
    exact congrArg _ (Factor.trackAll_layouts _ _)
  · have several : (Factor.tracks refer (above ++ [t.id]) t.factors).length ≠ 1 := by
      rwa [Factor.length_tracks]
    obtain ⟨arranged, layout, rfl | rfl⟩ := t.layout_plain above h
    · rw [layout, Layout.track, Layout.track, Factor.trackAll_layouts]
    · rw [layout, Layout.track, Layout.track, Factor.trackAll_layouts,
        Track.joined_of_length_ne_one several]

variable {keep dropped after : List Factor} {id : NodeId} {body : Expression}

/-- A full match is drawn as a loop of the body, between the factors kept and those behind it. -/
theorem Term.track_fullMatch (above : List NodeId)
    (factors : t.factors = keep ++ (dropped ++ .bracketed id .repetition body :: after))
    (h : Compaction.of t.factors = .fullMatch (keep.length + dropped.length) dropped.length) :
    (t.layout above).track refer =
      .joined (Factor.tracks refer (above ++ [t.id]) keep ++
        .oneOrMore ((body.layout (above ++ [t.id] ++ [id])).track refer) none ::
          Factor.tracks refer (above ++ [t.id]) after) := by
  rw [t.layout_fullMatch above factors h]
  simp only [Layout.track, Factor.trackAll_layouts]

/-- A separator loop runs over the end of the body and back over its beginning. -/
theorem Term.track_separator (above : List NodeId) {inner : Term} {head tail : List Factor}
    (factors : t.factors = keep ++ (dropped ++ .bracketed id .repetition body :: after))
    (terms : body.terms = [inner]) (split : inner.factors = head ++ tail)
    (h : Compaction.of t.factors =
      .separator (keep.length + dropped.length) dropped.length head.length) :
    (t.layout above).track refer =
      .joined (Factor.tracks refer (above ++ [t.id]) keep ++
        .oneOrMore
          (.joined (Factor.tracks refer (above ++ [t.id] ++ [id] ++ [body.id] ++ [inner.id]) tail))
          (some
            (.joined (Factor.tracks refer (above ++ [t.id] ++ [id] ++ [body.id] ++ [inner.id])
              head))) ::
          Factor.tracks refer (above ++ [t.id]) after) := by
  rw [t.layout_separator above factors terms split h]
  simp only [Layout.track, Factor.trackAll_layouts]

/-- A repetition with several terms, all of them terminal. Each is drawn factor by factor. -/
def Factor.isParallel : Factor → Bool
  | .bracketed _ .repetition body =>
    1 < body.terms.length && body.terms.all (·.factors.all Factor.isTerminal)
  | _ => false

theorem Factor.isParallel_bracketed {bracket : Bracket} :
    (Factor.bracketed id bracket body).isParallel = true ↔
      bracket = .repetition ∧ 1 < body.terms.length ∧
        ∀ t ∈ body.terms, ∀ f ∈ t.factors, f.isTerminal = true := by
  cases bracket <;> simp [isParallel]

/-- How brackets are drawn around what is in them, if they do not become ways back. -/
def Bracket.frame : Bracket → Track → Track
  | .group, item => .sequence [item]
  | .option, item => .optional item
  | .repetition, item => .zeroOrMore item

theorem Factor.track_bracketed (above : List NodeId) {bracket : Bracket}
    (h : (Factor.bracketed id bracket body).isParallel = false) :
    ((Factor.bracketed id bracket body).layout above).track refer =
      bracket.frame ((body.layout (above ++ [id])).track refer) := by
  cases bracket with
  | group =>
    rw [Factor.layout_group]
    rfl
  | option =>
    rw [Factor.layout_option]
    rfl
  | repetition =>
    have notParallel : ¬ (1 < body.terms.length ∧
        body.terms.all (·.factors.all Factor.isTerminal) = true) := by
      simpa [isParallel] using h
    rw [Factor.layout_repetition, if_neg notParallel]
    rfl

/-- A repetition with several terminal terms is drawn as a loop over nothing, with the terms as ways
back that are read from right to left. -/
theorem Factor.track_parallel (above : List NodeId) {bracket : Bracket}
    (h : (Factor.bracketed id bracket body).isParallel = true) :
    ((Factor.bracketed id bracket body).layout above).track refer =
      .oneOrMore .skip (some (.choice (body.terms.length / 2) (body.terms.map fun t =>
        .joined (Factor.tracks refer (above ++ [id] ++ [body.id] ++ [t.id])
          t.factors.reverse)))) := by
  cases bracket with
  | group => cases h
  | option => cases h
  | repetition =>
    have parallel : 1 < body.terms.length ∧
        body.terms.all (·.factors.all Factor.isTerminal) = true := by
      simpa [isParallel] using h
    have way : ∀ up (t : Term),
        (Layout.returned (t.factors.map (Factor.layout up))).track refer =
          .joined (Factor.tracks refer up t.factors.reverse) := by
      intro up t
      rw [Layout.track, Factor.trackAll_layouts, Factor.tracks, ← List.map_reverse]
      rfl
    rw [Factor.layout_repetition, if_pos parallel, Layout.track, Layout.track, Layout.track,
      Layout.track, Layout.trackAll_eq_map, List.map_map, List.length_map]
    simp only [Function.comp_def, way]

end Tracks

end Railroad
