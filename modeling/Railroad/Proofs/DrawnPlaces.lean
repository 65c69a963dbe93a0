import Railroad.Proofs.Opening

/-!
What a chain leads to is drawn.

* `Track.mem_nodes_trans`: what is inside a track is inside every track around it.
* `Place.IsDrawn`: a track shows the place that a chain has led to.
* `Place.Step.isDrawn`: if a track shows a place, it shows the places to which the chain goes on.
* `Grammar.isDrawn_of_chain`: a diagram shows all places to which chains from its start lead.
-/

namespace Railroad

/-! ### Inside a track -/

namespace Track

variable {root : Track}

theorem mem_nodes_self (track : Track) : track ∈ track.nodes := by
  rw [nodes_eq]
  exact List.mem_cons_self

/-- What is inside a track is inside every track around it. -/
theorem mem_nodes_trans {track inside : Track} (h : inside ∈ track.nodes)
    (ht : track ∈ root.nodes) : inside ∈ root.nodes := by
  induction root using induction with
  | h root ih =>
    rw [nodes_eq, List.mem_cons, List.mem_flatMap] at ht
    rcases ht with rfl | ⟨child, hchild, ht⟩
    · exact h
    · rw [nodes_eq]
      exact List.mem_cons_of_mem _ (List.mem_flatMap.mpr ⟨child, hchild, ih child hchild ht⟩)

theorem mem_nodes_of_mem_children {track child : Track} (h : track ∈ root.nodes)
    (hchild : child ∈ track.children) : child ∈ root.nodes := by
  refine mem_nodes_trans ?_ h
  rw [nodes_eq]
  exact List.mem_cons_of_mem _ (List.mem_flatMap.mpr ⟨child, hchild, mem_nodes_self child⟩)

theorem back_mem_nodes {item back : Track} (h : .oneOrMore item (some back) ∈ root.nodes) :
    back ∈ root.nodes :=
  mem_nodes_of_mem_children h (List.mem_cons_of_mem _ (List.mem_singleton_self _))

theorem mem_nodes_of_mem_joined {items : List Track} {item : Track} (h : joined items ∈ root.nodes)
    (hitem : item ∈ items) : item ∈ root.nodes := by
  unfold joined at h
  split at h
  · rwa [List.mem_singleton.mp hitem]
  · exact mem_nodes_of_mem_children h hitem

end Track

/-! ### Places -/

section Places

variable (g : Grammar) (selected : PathKey → Bool) (root : Track)

/-- The factor at the end of the ids is drawn. -/
def Factor.IsDrawn (above : List NodeId) (f : Factor) : Prop :=
  (f.layout above).track (g.shown selected maxDepth) ∈ root.nodes

/-- The terms of an expression are drawn, in the given manner. -/
def Expression.IsDrawn (ids : List NodeId) (e : Expression) : Manner → Prop
  | .whole => ∃ above, ids = above ++ [e.id] ∧
      (e.layout above).track (g.shown selected maxDepth) ∈ root.nodes
  | .pieces => ∀ t ∈ e.terms, ∀ f ∈ t.factors, f.IsDrawn g selected root (ids ++ [t.id])

/-- The track shows the place that a chain of ids has led to. -/
def Place.IsDrawn : List NodeId × Place → Prop
  | (ids, .expression e manner) => e.IsDrawn g selected root ids manner
  | (ids, .term t .whole) => ∃ above, ids = above ++ [t.id] ∧
      (t.layout above).track (g.shown selected maxDepth) ∈ root.nodes
  | (ids, .term t .pieces) => ∀ f ∈ t.factors, f.IsDrawn g selected root ids
  | (ids, .factor (.bracketed _ _ body) manner) =>
    body.IsDrawn g selected root (ids ++ [body.id]) manner
  | (ids, .factor f _) => ∃ above, ids = above ++ [f.id] ∧ f.IsDrawn g selected root above
  | (ids, .reference name) => g.shown selected maxDepth name ⟨ids⟩ ∈ root.nodes
  | (ids, .terminal text) => .terminal text ⟨ids⟩ ∈ root.nodes

variable {g selected root}

/-- If an expression is drawn, so are its terms. -/
theorem Expression.IsDrawn.term {ids : List NodeId} {e : Expression} {manner : Manner}
    (h : e.IsDrawn g selected root ids manner) {t : Term} (ht : t ∈ e.terms) :
    Place.IsDrawn g selected root (ids ++ [t.id], .term t manner) := by
  cases manner with
  | whole =>
    obtain ⟨above, rfl, drawn⟩ := h
    refine ⟨above ++ [e.id], rfl, ?_⟩
    rcases e.track_layout above with ⟨only, terms, track⟩ | ⟨-, track⟩
    · rw [terms, List.mem_singleton] at ht
      rwa [track, ← ht] at drawn
    · rw [track] at drawn
      exact Track.mem_nodes_of_mem_children drawn (List.mem_map_of_mem ht)
  | pieces => exact h t ht

/-- If a factor is drawn by itself, so is what is in its brackets. -/
theorem Factor.IsDrawn.place {above : List NodeId} {f : Factor}
    (h : f.IsDrawn g selected root above) :
    Place.IsDrawn g selected root (above ++ [f.id], .factor f f.manner) := by
  cases f with
  | identifier id name => exact ⟨above, rfl, h⟩
  | literal id l => exact ⟨above, rfl, h⟩
  | bracketed id bracket body =>
    rw [Factor.IsDrawn] at h
    show body.IsDrawn g selected root _ _
    rw [Factor.manner]
    cases parallel : (Factor.bracketed id bracket body).isParallel with
    | false =>
      rw [Factor.track_bracketed above parallel] at h
      refine ⟨above ++ [id], rfl, Track.mem_nodes_of_mem_children h ?_⟩
      cases bracket <;> exact List.mem_singleton_self _
    | true =>
      rw [Factor.track_parallel above parallel] at h
      intro t ht f hf
      -- From the loop to the choice of ways back, to one of them, to a factor on it.
      have way := Track.mem_nodes_of_mem_children (Track.back_mem_nodes h) (List.mem_map_of_mem ht)
      exact Track.mem_nodes_of_mem_joined way (List.mem_map_of_mem (List.mem_reverse.mpr hf))

/-- A factor of a term that is cut at a repetition is the repetition or, unless it is absorbed, a
factor that is kept or one behind the repetition. -/
theorem Term.eq_or_mem_of_cut {t : Term} {keep dropped after : List Factor} {repetition : Factor}
    (factors : t.factors = keep ++ (dropped ++ repetition :: after))
    (absorbs : ∀ i, t.absorbs i = true ↔ keep.length ≤ i ∧ i < keep.length + dropped.length)
    {i : Nat} {f : Factor} (found : t.factors[i]? = some f) (drawn : t.absorbs i = false) :
    (i = keep.length + dropped.length ∧ f = repetition) ∨
      i ≠ keep.length + dropped.length ∧ f ∈ keep ++ after := by
  have outside : ¬ (keep.length ≤ i ∧ i < keep.length + dropped.length) := by
    rw [← absorbs i, drawn]
    exact Bool.false_ne_true
  rw [factors] at found
  have places := (exists_getElem?_cut (P := fun j a => j = i ∧ a = f)).mp
    ⟨i, f, found, outside, rfl, rfl⟩
  rcases places with ⟨j, a, found', rfl, rfl⟩ | ⟨rfl, rfl⟩ | ⟨j, a, found', rfl, rfl⟩
  · have front := (List.getElem?_eq_some_iff.mp found').1
    exact .inr ⟨by omega, List.mem_append_left _ (List.mem_of_getElem? found')⟩
  · exact .inl ⟨rfl, rfl⟩
  · exact .inr ⟨by omega, List.mem_append_right _ (List.mem_of_getElem? found')⟩

/-- In a compacted term, the factors kept and those behind the loop are drawn by themselves. -/
theorem Factor.isDrawn_of_joined {above : List NodeId} {keep after : List Factor} {loop : Track}
    (h : Track.joined (Factor.tracks (g.shown selected maxDepth) above keep ++
      loop :: Factor.tracks (g.shown selected maxDepth) above after) ∈ root.nodes)
    {f : Factor} (hf : f ∈ keep ++ after) : f.IsDrawn g selected root above := by
  refine Track.mem_nodes_of_mem_joined h ?_
  rw [List.mem_append, List.mem_cons]
  rcases List.mem_append.mp hf with hf | hf
  · exact .inl (List.mem_map_of_mem hf)
  · exact .inr (.inr (List.mem_map_of_mem hf))

/-- If a term is drawn as a whole, so are its factors, but for those that are absorbed. -/
theorem Term.isDrawn_factor {above : List NodeId} {t : Term}
    (h : (t.layout above).track (g.shown selected maxDepth) ∈ root.nodes) {i : Nat} {f : Factor}
    (found : t.factors[i]? = some f) (drawn : t.absorbs i = false) :
    Place.IsDrawn g selected root
      (above ++ [t.id] ++ [f.id], .factor f (t.mannerAt .whole i f)) := by
  have hf := List.mem_of_getElem? found
  cases t.view with
  | plain plain =>
    rw [t.track_plain above plain] at h
    rw [Term.mannerAt_eq_manner (by simp [Term.separatesAt_eq_false plain])]
    exact Factor.IsDrawn.place (Track.mem_nodes_of_mem_joined h (List.mem_map_of_mem hf))
  | @fullMatch keep dropped after id body inner all decided terms =>
    have absorbs := Term.absorbs_fullMatch decided
    rw [Nat.add_sub_cancel] at absorbs
    rw [t.track_fullMatch above all decided] at h
    rw [Term.mannerAt_eq_manner (by simp [Term.separatesAt_fullMatch decided])]
    rcases Term.eq_or_mem_of_cut all absorbs found drawn with ⟨-, rfl⟩ | ⟨-, hf⟩
    · rw [Factor.manner_repetition terms]
      have loop := Track.mem_nodes_of_mem_joined h (List.mem_append_right _ List.mem_cons_self)
      exact ⟨_, rfl, Track.mem_nodes_of_mem_children loop (List.mem_singleton_self _)⟩
    · exact Factor.IsDrawn.place (Factor.isDrawn_of_joined h hf)
  | @separator keep dropped head tail after id body inner all decided terms split =>
    have absorbs := Term.absorbs_separator decided
    have separates := Term.separatesAt_separator decided
    rw [Nat.add_sub_cancel] at absorbs
    rw [t.track_separator above all terms split decided] at h
    rcases Term.eq_or_mem_of_cut all absorbs found drawn with ⟨rfl, rfl⟩ | ⟨other, hf⟩
    · rw [Term.mannerAt_eq_pieces ((separates _).mpr rfl)]
      intro only honly f hf
      obtain rfl : only = inner := by simpa [terms] using honly
      have loop := Track.mem_nodes_of_mem_joined h (List.mem_append_right _ List.mem_cons_self)
      rw [split, List.mem_append] at hf
      rcases hf with hf | hf
      · exact Track.mem_nodes_of_mem_joined (Track.back_mem_nodes loop) (List.mem_map_of_mem hf)
      · have item := Track.mem_nodes_of_mem_children loop List.mem_cons_self
        exact Track.mem_nodes_of_mem_joined item (List.mem_map_of_mem hf)
    · rw [Term.mannerAt_eq_manner (mt (separates i).mp other)]
      exact Factor.IsDrawn.place (Factor.isDrawn_of_joined h hf)

/-- **If a track shows a place, it shows the places to which the chain goes on.** -/
theorem Place.Step.isDrawn {here next : List NodeId × Place}
    (step : Place.Step g selected here next) (h : Place.IsDrawn g selected root here) :
    Place.IsDrawn g selected root next := by
  cases step with
  | term ht => exact Expression.IsDrawn.term h ht
  | @factor ids t manner i f found drawn =>
    cases manner with
    | whole =>
      obtain ⟨above, rfl, whole⟩ := h
      exact Term.isDrawn_factor whole found (drawn rfl)
    | pieces =>
      rw [Term.mannerAt_pieces]
      exact Factor.IsDrawn.place (h f (List.mem_of_getElem? found))
  | body => exact h
  | @literal ids id l manner =>
    obtain ⟨above, rfl, drawn⟩ := h
    rw [Factor.IsDrawn, Factor.layout_literal, Layout.track] at drawn
    show Track.terminal l.text ⟨above ++ [id] ++ [l.id]⟩ ∈ root.nodes
    rwa [List.append_assoc]
  | @name ids id name manner small =>
    obtain ⟨above, rfl, drawn⟩ := h
    rw [Factor.IsDrawn, Factor.layout_identifier, small] at drawn
    show Track.terminal name.text ⟨above ++ [id] ++ [name.id]⟩ ∈ root.nodes
    rwa [List.append_assoc]
  | @reference ids id name manner capital =>
    obtain ⟨above, rfl, drawn⟩ := h
    rw [Factor.IsDrawn, Factor.layout_identifier, if_pos capital, Layout.track] at drawn
    show g.shown selected maxDepth name.text ⟨above ++ [id] ++ [name.id]⟩ ∈ root.nodes
    rwa [List.append_assoc]
  | @opened ids name p opens =>
    have opened : g.shown selected maxDepth name ⟨ids⟩ ∈ root.nodes := h
    rw [Grammar.shown_eq, if_pos ⟨opens.1, opens.2.1⟩, opens.2.2] at opened
    exact ⟨ids, rfl, Track.mem_nodes_of_mem_children opened (List.mem_singleton_self _)⟩

theorem Place.isDrawn_of_chain {here there : List NodeId × Place}
    (h : Place.IsDrawn g selected root here)
    (chain : Relation.ReflTransGen (Place.Step g selected) here there) :
    Place.IsDrawn g selected root there := by
  induction chain with
  | refl => exact h
  | tail _ step ih => exact step.isDrawn ih

end Places

/-- **A diagram shows all places to which chains from its start lead.** -/
theorem Grammar.isDrawn_of_chain {g : Grammar} {selected : PathKey → Bool} {start : Option String}
    {d : Diagram} (drawn : (g.draw start selected).result = .ok d) :
    ∃ p, g.startProduction start = .ok p ∧ ∀ ids place, g.Chain selected p ids place →
      Place.IsDrawn g selected d.root (ids, place) := by
  obtain ⟨p, started, rfl⟩ := draw_eq_ok drawn
  refine ⟨p, started, fun ids place chain => Place.isDrawn_of_chain ?_ chain⟩
  exact ⟨[p.id], rfl, Track.mem_nodes_of_mem_children (Track.mem_nodes_self _)
    (List.mem_singleton_self _)⟩

end Railroad
