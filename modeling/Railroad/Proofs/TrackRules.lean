import Railroad.Proofs.DrawingOrder
import Railroad.Proofs.SameSymbol

/-!
Which tracks are built for the diagrams of an accepted text.

* `Track.Stands`: an empty stretch or a bare choice comes only where the layout asks for it; every
  factor and every term stands for something.
* `Track.Rules`: in how many ways a track is built, and from what. A property that has all tracks
  that are built in one of these ways has all tracks of a diagram (`Grammar.all_draw`), by induction
  on parts (`Parts.all_layout`) and on how deep a reference is (`Grammar.all_shown`).
-/

namespace Railroad

/-! ### Tracks that stand for something -/

/-- The track is neither an empty stretch nor a bare choice. -/
def Track.Stands : Track → Prop
  | .skip | .choice _ _ => False
  | _ => True

namespace Track

theorem Stands.ne_skip {track : Track} (h : track.Stands) : track ≠ .skip := by
  rintro rfl
  exact h

theorem stands_joined {items : List Track} (each : ∀ item ∈ items, item.Stands) :
    (joined items).Stands := by
  unfold joined
  split
  · exact each _ (List.mem_singleton_self _)
  · trivial

theorem skip_notMem {items : List Track} (each : ∀ item ∈ items, item.Stands) : .skip ∉ items :=
  fun h => (each _ h).ne_skip rfl

end Track

section Stands

variable {refer : String → PathKey → Track}

/-- Every factor stands for something, if references do. -/
theorem Factor.stands_layout (stands : ∀ name path, (refer name path).Stands) (above : List NodeId)
    (f : Factor) : ((f.layout above).track refer).Stands := by
  cases f with
  | identifier id name =>
    rw [Factor.layout_identifier]
    split
    · exact stands _ _
    · trivial
  | literal id l => trivial
  | bracketed id bracket body =>
    cases parallel : (Factor.bracketed id bracket body).isParallel with
    | true =>
      rw [Factor.track_parallel above parallel]
      trivial
    | false =>
      rw [Factor.track_bracketed above parallel]
      cases bracket <;> trivial

theorem Factor.stands_tracks (stands : ∀ name path, (refer name path).Stands)
    (above : List NodeId) (factors : List Factor) :
    ∀ item ∈ Factor.tracks refer above factors, item.Stands :=
  List.forall_mem_map.mpr fun f _ => f.stands_layout stands above

/-- Every term stands for something. -/
theorem Term.stands_layout (stands : ∀ name path, (refer name path).Stands) (above : List NodeId)
    (t : Term) : ((t.layout above).track refer).Stands := by
  -- A loop is put between factors.
  have compacted : ∀ keep after item back,
      (Track.joined (Factor.tracks refer (above ++ [t.id]) keep ++
        .oneOrMore item back :: Factor.tracks refer (above ++ [t.id]) after)).Stands := by
    intro keep after item back
    refine Track.stands_joined (List.forall_mem_append.mpr ⟨Factor.stands_tracks stands _ _, ?_⟩)
    exact List.forall_mem_cons.mpr ⟨trivial, Factor.stands_tracks stands _ _⟩
  cases t.view with
  | plain plain =>
    rw [t.track_plain above plain]
    exact Track.stands_joined (Factor.stands_tracks stands _ _)
  | fullMatch all decided =>
    rw [t.track_fullMatch above all decided]
    exact compacted _ _ _ _
  | separator all decided terms split =>
    rw [t.track_separator above all terms split decided]
    exact compacted _ _ _ _

/-- An expression is drawn as something. -/
theorem Expression.track_ne_skip (stands : ∀ name path, (refer name path).Stands)
    (above : List NodeId) (e : Expression) : (e.layout above).track refer ≠ .skip := by
  rcases e.track_layout above with ⟨t, -, track⟩ | ⟨-, track⟩
  · rw [track]
    exact (t.stands_layout stands _).ne_skip
  · simp [track]

theorem Grammar.stands_shown {g : Grammar} {selected : PathKey → Bool} (name : String)
    (path : PathKey) : (g.shown selected maxDepth name path).Stands := by
  rw [shown_eq]
  split
  · split <;> trivial
  · trivial

end Stands

/-! ### Ways to build a track -/

/-- Factors of the grammar that may be drawn on a way back: at least one, and each is terminal. -/
structure Grammar.IsWay (g : Grammar) (way : List Factor) : Prop where
  inhabited : way ≠ []
  node : ∀ f ∈ way, g.HasNode (.factor f)
  terminal : ∀ f ∈ way, f.isTerminal = true

/-- The property has every track that is built in one of the ways in which the parts of the grammar
are drawn, with the references drawn by `refer`. -/
structure Track.Rules (g : Grammar) (refer : String → PathKey → Track) (P : Track → Prop) :
    Prop where
  skip : P .skip
  terminal : ∀ text path, text ≠ "" → P (.terminal text path)
  closed : ∀ name path, startsUppercase name = true → P (.nonTerminal name path)
  opened : ∀ name path item, startsUppercase name = true → name ∈ g.names → item ≠ .skip →
    P (.group name path item)
  sequence : ∀ items, items ≠ [] → .skip ∉ items → P (.sequence items)
  choice : ∀ options, 2 ≤ options.length → .skip ∉ options →
    P (.choice (options.length / 2) options)
  optional : ∀ item, item ≠ .skip → P (.optional item)
  zeroOrMore : ∀ item, item ≠ .skip → P (.zeroOrMore item)
  /-- A full match. -/
  oneOrMore : ∀ item, item ≠ .skip → P (.oneOrMore item none)
  /-- A separator loop. -/
  separator : ∀ item above way, item ≠ .skip → g.IsWay way →
    P (.oneOrMore item (some (.joined (Factor.tracks refer above way))))
  /-- Parallel ways back. -/
  parallel : ∀ ways : List (List NodeId × List Factor), 2 ≤ ways.length →
    (∀ way ∈ ways, g.IsWay way.2) →
    P (.oneOrMore .skip (some (.choice (ways.length / 2)
      (ways.map fun way => .joined (Factor.tracks refer way.1 way.2)))))

/-! ### Tracks of parts -/

/-- What stands below more ids stands as deep. -/
theorem le_length_push {depth : Nat} {above : List NodeId} (deep : depth ≤ above.length)
    (id : NodeId) : depth ≤ (above ++ [id]).length :=
  Nat.le_trans deep (List.prefix_append _ _).length_le

section Parts

variable {g : Grammar} {refer : String → PathKey → Track} {P : Track → Prop} {depth : Nat}

theorem Track.Rules.all_joined (rules : Track.Rules g refer P) {items : List Track}
    (inhabited : items ≠ []) (stand : ∀ item ∈ items, item.Stands)
    (each : ∀ item ∈ items, item.All P) : (Track.joined items).All P := by
  unfold Track.joined
  split
  · exact each _ (List.mem_singleton_self _)
  · exact Track.all_iff.mpr ⟨rules.sequence _ inhabited (Track.skip_notMem stand), each⟩

variable (refer P depth) in
/-- All tracks that are drawn for the factor have the property, wherever it stands below at least
`depth` ids. -/
def Factor.AllDrawn (f : Factor) : Prop :=
  ∀ above, depth ≤ above.length → ((f.layout above).track refer).All P

variable (refer P depth) in
/-- All tracks that are drawn for the expression have the property, wherever it stands below at least
`depth` ids. -/
def Expression.AllDrawn (e : Expression) : Prop :=
  ∀ above, depth ≤ above.length → ((e.layout above).track refer).All P

section Factors

variable {factors : List Factor} {above : List NodeId}

/-- Factors that are drawn one by one. -/
theorem Factor.all_tracks (each : ∀ f ∈ factors, f.AllDrawn refer P depth)
    (deep : depth ≤ above.length) : ∀ item ∈ Factor.tracks refer above factors, item.All P :=
  List.forall_mem_map.mpr fun f hf => each f hf above deep

/-- Factors that are drawn one by one and joined. -/
theorem Factor.all_joined (rules : Track.Rules g refer P)
    (stands : ∀ name path, (refer name path).Stands) (inhabited : factors ≠ [])
    (each : ∀ f ∈ factors, f.AllDrawn refer P depth) (deep : depth ≤ above.length) :
    (Track.joined (Factor.tracks refer above factors)).All P :=
  rules.all_joined (mt List.map_eq_nil_iff.mp inhabited) (Factor.stands_tracks stands _ _)
    (Factor.all_tracks each deep)

/-- A loop between factors that are drawn one by one. -/
theorem Factor.all_compacted (rules : Track.Rules g refer P)
    (stands : ∀ name path, (refer name path).Stands) {keep after : List Factor}
    (keeps : ∀ f ∈ keep, f.AllDrawn refer P depth) (afters : ∀ f ∈ after, f.AllDrawn refer P depth)
    (deep : depth ≤ above.length) {item : Track} {back : Option Track}
    (loop : (Track.oneOrMore item back).All P) :
    (Track.joined (Factor.tracks refer above keep ++
      .oneOrMore item back :: Factor.tracks refer above after)).All P := by
  refine rules.all_joined (by simp) ?_ ?_
  · refine List.forall_mem_append.mpr ⟨Factor.stands_tracks stands _ _, ?_⟩
    exact List.forall_mem_cons.mpr ⟨trivial, Factor.stands_tracks stands _ _⟩
  · refine List.forall_mem_append.mpr ⟨Factor.all_tracks keeps deep, ?_⟩
    exact List.forall_mem_cons.mpr ⟨loop, Factor.all_tracks afters deep⟩

end Factors

/-- The tracks that are drawn for a term, whichever way it is compacted. -/
theorem Term.all_layout (rules : Track.Rules g refer P)
    (stands : ∀ name path, (refer name path).Stands) {t : Term} (legible : t.Legible)
    (node : g.HasNode (.term t)) (each : ∀ f ∈ t.factors, f.AllDrawn refer P depth)
    (nested : ∀ id body, .bracketed id .repetition body ∈ t.factors →
      body.AllDrawn refer P depth ∧
        ∀ inner ∈ body.terms, ∀ f ∈ inner.factors, f.AllDrawn refer P depth)
    {above : List NodeId} (deep : depth ≤ (above ++ [t.id]).length) :
    ((t.layout above).track refer).All P := by
  cases t.view with
  | plain plain =>
    rw [t.track_plain above plain]
    exact Factor.all_joined rules stands (Term.fits_iff.mp legible.fits).1 each deep
  | @fullMatch keep dropped after id body inner all decided =>
    obtain ⟨repetition, keeps, -, afters⟩ := Term.mem_of_cut all
    rw [t.track_fullMatch above all decided]
    refine Factor.all_compacted rules stands (fun f hf => each f (keeps f hf))
      (fun f hf => each f (afters f hf)) deep (Track.all_iff.mpr ⟨?_, ?_⟩)
    · exact rules.oneOrMore _ (body.track_ne_skip stands _)
    · exact List.forall_mem_singleton.mpr ((nested id body repetition).1 _ (le_length_push deep id))
  | @separator keep dropped head tail after id body inner all decided terms split someHead someTail
      terminal =>
    obtain ⟨repetition, keeps, -, afters⟩ := Term.mem_of_cut all
    have pieces := (nested id body repetition).2 inner (by simp [terms])
    rw [split, List.forall_mem_append] at pieces
    have way : g.IsWay head := by
      refine ⟨someHead, fun f hf => ?_, terminal⟩
      have innerNode : g.HasNode (.term inner) :=
        (node.factor repetition).bracketed.term (by simp [terms])
      exact innerNode.factor (by simp [split, hf])
    have deeper := le_length_push (le_length_push (le_length_push deep id) body.id) inner.id
    have item := Track.stands_joined
      (Factor.stands_tracks stands (above ++ [t.id] ++ [id] ++ [body.id] ++ [inner.id]) tail)
    rw [t.track_separator above all terms split decided]
    refine Factor.all_compacted rules stands (fun f hf => each f (keeps f hf))
      (fun f hf => each f (afters f hf)) deep (Track.all_iff.mpr ⟨?_, ?_⟩)
    · exact rules.separator _ _ _ item.ne_skip way
    · refine List.forall_mem_cons.mpr ⟨?_, List.forall_mem_singleton.mpr ?_⟩
      · exact Factor.all_joined rules stands someTail pieces.2 deeper
      · exact Factor.all_joined rules stands someHead pieces.1 deeper

/-- The tracks that are drawn for brackets, as a whole or as ways back. -/
theorem Factor.all_bracketed (rules : Track.Rules g refer P)
    (stands : ∀ name path, (refer name path).Stands) {id : NodeId} {bracket : Bracket}
    {body : Expression} (legible : body.Legible)
    (node : g.HasNode (.factor (.bracketed id bracket body))) (whole : body.AllDrawn refer P depth)
    (pieces : ∀ t ∈ body.terms, ∀ f ∈ t.factors, f.AllDrawn refer P depth) :
    (Factor.bracketed id bracket body).AllDrawn refer P depth := by
  intro above deep
  have deeper := le_length_push deep id
  cases parallel : (Factor.bracketed id bracket body).isParallel with
  | false =>
    have inside := List.forall_mem_singleton.mpr (whole _ deeper)
    have item := body.track_ne_skip stands (above ++ [id])
    rw [Factor.track_bracketed above parallel]
    cases bracket with
    | group =>
      refine Track.all_iff.mpr ⟨rules.sequence _ (by simp) ?_, inside⟩
      simpa using item.symm
    | option => exact Track.all_iff.mpr ⟨rules.optional _ item, inside⟩
    | repetition => exact Track.all_iff.mpr ⟨rules.zeroOrMore _ item, inside⟩
  | true =>
    obtain ⟨-, several, terminal⟩ := Factor.isParallel_bracketed.mp parallel
    have someFactor : ∀ t ∈ body.terms, t.factors.reverse ≠ [] := fun t ht =>
      mt List.reverse_eq_nil_iff.mp (Term.fits_iff.mp (legible.term ht).fits).1
    rw [Factor.track_parallel above parallel]
    refine Track.all_iff.mpr ⟨?_, List.forall_mem_cons.mpr ⟨?_, List.forall_mem_singleton.mpr ?_⟩⟩
    · have loop := rules.parallel
        (body.terms.map fun t => (above ++ [id] ++ [body.id] ++ [t.id], t.factors.reverse))
        (by rwa [List.length_map]) (List.forall_mem_map.mpr fun t ht => ?_)
      · simpa [List.map_map, Function.comp_def] using loop
      · refine ⟨someFactor t ht, fun f hf => ?_, fun f hf => ?_⟩
        · exact (node.bracketed.term ht).factor (List.mem_reverse.mp hf)
        · exact terminal t ht f (List.mem_reverse.mp hf)
    · exact Track.all_of_leaf rfl rules.skip
    · refine Track.all_iff.mpr ⟨?_, List.forall_mem_map.mpr fun t ht => ?_⟩
      · have stand : ∀ way ∈ body.terms.map fun t => Track.joined (Factor.tracks refer
            (above ++ [id] ++ [body.id] ++ [t.id]) t.factors.reverse), way.Stands :=
          List.forall_mem_map.mpr fun t _ => Track.stands_joined (Factor.stands_tracks stands _ _)
        have options := rules.choice _ (by rwa [List.length_map]) (Track.skip_notMem stand)
        rwa [List.length_map] at options
      · exact Factor.all_joined rules stands (someFactor t ht)
          (fun f hf => pieces t ht f (List.mem_reverse.mp hf))
          (le_length_push (le_length_push deeper body.id) t.id)

/-- **All tracks of a part have the property**, if deeper references have it. -/
theorem Parts.all_layout (legible : ∀ node, g.HasNode node → node.Legible)
    (rules : Track.Rules g refer P) (stands : ∀ name path, (refer name path).Stands)
    (deeper : ∀ name path, startsUppercase name = true → depth < path.depth →
      (refer name path).All P) :
    (∀ e, g.HasNode (.expression e) → e.AllDrawn refer P depth) ∧
    (∀ t, g.HasNode (.term t) → ∀ above, depth ≤ above.length →
      ((t.layout above).track refer).All P) ∧
    ∀ f, g.HasNode (.factor f) → f.AllDrawn refer P depth := by
  refine Parts.induction_nested ?expression ?term ?identifier ?literal ?bracketed
  case expression =>
    intro e ih node above deep
    have terms : ∀ t ∈ e.terms, ((t.layout (above ++ [e.id])).track refer).All P := fun t ht =>
      ih t ht (node.term ht) _ (le_length_push deep e.id)
    rcases e.track_layout above with ⟨t, single, track⟩ | ⟨several, track⟩
    · rw [track]
      exact terms t (by simp [single])
    · have inhabited : 0 < e.terms.length :=
        List.length_pos_iff.mpr (Expression.fits_iff.mp (legible _ node).fits).1
      have options := rules.choice (e.terms.map fun t => (t.layout (above ++ [e.id])).track refer)
        (by rw [List.length_map]; omega)
        (Track.skip_notMem (List.forall_mem_map.mpr fun t _ => t.stands_layout stands _))
      rw [List.length_map] at options
      rw [track]
      exact Track.all_iff.mpr ⟨options, List.forall_mem_map.mpr terms⟩
  case term =>
    intro t ih nested node above deep
    refine Term.all_layout rules stands (legible _ node).term node
      (fun f hf => ih f hf (node.factor hf)) ?_ (le_length_push deep t.id)
    intro id body repetition
    obtain ⟨whole, pieces⟩ := nested id .repetition body repetition
    have bodyNode := (node.factor repetition).bracketed
    exact ⟨whole bodyNode, fun inner hinner f hf =>
      pieces inner hinner f hf ((bodyNode.term hinner).factor hf)⟩
  case identifier =>
    intro id name node above deep
    obtain ⟨-, readable⟩ := legible _ node
    rw [Factor.layout_identifier]
    split
    · rename_i capital
      refine deeper _ _ capital ?_
      simp only [PathKey.depth, List.length_append, List.length_cons, List.length_nil]
      omega
    · refine Track.all_of_leaf rfl (rules.terminal _ _ ?_)
      have inhabited := (readable (.identifier name.text) (List.mem_singleton_self _)).1
      exact mt String.toList_eq_nil_iff.mpr inhabited
  case literal =>
    intro id l node above deep
    obtain ⟨-, readable⟩ := legible _ node
    refine Track.all_of_leaf rfl (rules.terminal _ _ ?_)
    have inhabited := (readable (.literal l.text) (by simp [Node.kinds, Factor.kinds])).1
    exact mt String.toList_eq_nil_iff.mpr inhabited
  case bracketed =>
    intro id bracket body whole pieces node
    exact Factor.all_bracketed rules stands (legible _ node.bracketed).expression node
      (whole node.bracketed)
      fun t ht f hf => pieces t ht f hf ((node.bracketed.term ht).factor hf)

end Parts

/-! ### Tracks of diagrams -/

namespace Grammar

variable {g : Grammar} {selected : PathKey → Bool} {P : Track → Prop}

/-- All tracks of a reference have the property. -/
theorem all_shown (legible : ∀ node, g.HasNode node → node.Legible)
    (rules : Track.Rules g (g.shown selected maxDepth) P) (name : String) (path : PathKey)
    (capital : startsUppercase name = true) : (g.shown selected maxDepth name path).All P := by
  have stands : ∀ name path, (g.shown selected maxDepth name path).Stands := stands_shown
  induction path using PathKey.depth_induction generalizing name with
  | h path ih =>
    rw [shown_eq]
    split
    · rename_i opened
      split
      · rename_i p found
        have node : g.HasNode (.expression p.body) := .body (List.mem_of_find?_eq_some found)
        have deeper : ∀ name' (path' : PathKey), startsUppercase name' = true →
            path.depth < path'.depth → (g.shown selected maxDepth name' path').All P :=
          fun name' path' capital' deep => ih opened.1 path' deep name' capital'
        have inside := (Parts.all_layout legible rules stands deeper).1 p.body node path.ids
          (Nat.le_refl _)
        have group := rules.opened name path _ capital (mem_names_of_find? found)
          (p.body.track_ne_skip stands path.ids)
        exact Track.all_iff.mpr ⟨group, List.forall_mem_singleton.mpr inside⟩
      · exact Track.all_of_leaf rfl (rules.closed _ _ capital)
    · exact Track.all_of_leaf rfl (rules.closed _ _ capital)

/-- **All tracks of a diagram of an accepted text are built by the rules**, so they have every
property that all tracks have that are built by them. -/
theorem all_draw {text : String} (read : ofString? text = .ok g)
    (rules : Track.Rules g (g.shown selected maxDepth) P) {start : Option String} {d : Diagram}
    (drawn : (g.draw start selected).result = .ok d) : d.root.All P := by
  obtain ⟨p, started, rfl⟩ := draw_eq_ok drawn
  have legible := HasNode.legible_of_ofString? read
  have stands : ∀ name path, (g.shown selected maxDepth name path).Stands := stands_shown
  have node : g.HasNode (.expression p.body) := .body (mem_of_startProduction started)
  have shown : ∀ name (path : PathKey), startsUppercase name = true → 0 < path.depth →
      (g.shown selected maxDepth name path).All P :=
    fun name path capital _ => all_shown legible rules name path capital
  have inside := (Parts.all_layout legible rules stands shown).1 p.body node [p.id] (Nat.zero_le _)
  have item := p.body.track_ne_skip stands [p.id]
  refine Track.all_iff.mpr ⟨rules.sequence _ (by simp) ?_, List.forall_mem_singleton.mpr inside⟩
  simpa using item.symm

end Grammar

end Railroad
