import Railroad.Proofs.TrackRules

/-!
What is drawn on the ways back of loops.

* `Factor.refers`: a name that refers to a production stands somewhere in the factor.
* `Factor.exists_mem_references_iff`: then, and only then, a reference is drawn for the factor. What
  compaction absorbs makes no difference, since the same symbols are drawn in the loop.
* `Track.IsBack`: how a way back is drawn, a separator or a choice of parallel ways.
* `Grammar.references_back_iff`: which ways back have references on them. A way back is made of
  terminal factors, but brackets are terminal whatever is in them.
-/

namespace Railroad

open Token (Kind)

/-! ### References in a part -/

/-- A name that starts with a capital. -/
def Token.Kind.isReference : Kind → Bool
  | .identifier name => startsUppercase name
  | _ => false

/-- A name that refers to a production stands in the expression. -/
def Expression.refers (e : Expression) : Bool :=
  e.kinds.any Kind.isReference

/-- A name that refers to a production stands in the term. -/
def Term.refers (t : Term) : Bool :=
  t.kinds.any Kind.isReference

/-- A name that refers to a production stands in the factor, in brackets or not. -/
def Factor.refers (f : Factor) : Bool :=
  f.kinds.any Kind.isReference

theorem Term.refers_eq (t : Term) : t.refers = t.factors.any Factor.refers := by
  rw [refers, Term.kinds_eq_flatMap, List.any_flatMap]
  rfl

theorem Expression.refers_eq (e : Expression) : e.refers = e.terms.any Term.refers := by
  obtain ⟨id, _ | ⟨first, rest⟩⟩ := e
  · simp [refers, Expression.kinds_eq]
  · rw [refers, Expression.kinds_eq, List.map_cons, intercalate_cons_eq]
    simp [List.any_flatMap, Function.comp_def, Kind.isReference]
    rfl

theorem Factor.refers_bracketed {id : NodeId} {bracket : Bracket} {body : Expression} :
    (Factor.bracketed id bracket body).refers = body.refers := by
  simp [refers, Expression.refers, Factor.kinds, Kind.isReference]

/-- Brackets around one term refer to a production if a factor of the term does. -/
theorem Factor.refers_single {id : NodeId} {bracket : Bracket} {body : Expression} {inner : Term}
    (terms : body.terms = [inner]) :
    (Factor.bracketed id bracket body).refers = inner.factors.any Factor.refers := by
  rw [refers_bracketed, Expression.refers_eq, terms, List.any_cons, List.any_nil, Bool.or_false,
    Term.refers_eq]

theorem Factor.refers_eq_of_sameSymbol {a b : Factor} (ha : a.Legible) (hb : b.Legible)
    (same : a.sameSymbol b = true) : a.refers = b.refers := by
  rw [refers, Factor.kinds_eq_of_sameSymbol ha hb same, refers]

/-- A terminal factor in which a name refers to a production is in brackets. -/
theorem Factor.exists_bracketed_of_refers {f : Factor} (terminal : f.isTerminal = true)
    (refers : f.refers = true) : ∃ id bracket body, f = .bracketed id bracket body := by
  cases f with
  | identifier id name =>
    have capital : startsUppercase name.text = true := by
      simpa [Factor.refers, Factor.kinds, Kind.isReference] using refers
    simp [isTerminal, Factor.text, capital] at terminal
  | literal id l => simp [Factor.refers, Factor.kinds, Kind.isReference] at refers
  | bracketed id bracket body => exact ⟨id, bracket, body, rfl⟩

/-- Of factors that match, one refers to a production if its counterpart does. -/
theorem SameSymbols.any_refers_eq {as bs : List Factor} (h : SameSymbols as bs)
    (has : ∀ a ∈ as, a.Legible) (hbs : ∀ b ∈ bs, b.Legible) :
    as.any Factor.refers = bs.any Factor.refers := by
  induction h with
  | nil => rfl
  | cons same _ ih =>
    rw [List.forall_mem_cons] at has hbs
    rw [List.any_cons, List.any_cons, Factor.refers_eq_of_sameSymbol has.1 hbs.1 same,
      ih has.2 hbs.2]

theorem Factor.any_refers_map (ids : List NodeId) (factors : List Factor) :
    ((factors.map (ids, ·)).any fun d => d.2.refers) = factors.any Factor.refers :=
  List.any_map

/-- **Compaction keeps references**: what is drawn of a term refers to a production if the term
does. -/
theorem Term.any_refers_drawn {t : Term} (legible : t.Legible) (manner : Manner)
    (ids : List NodeId) : ((t.drawn manner ids).any fun d => d.2.refers) = t.refers := by
  rw [Term.refers_eq]
  cases manner with
  | pieces => rw [Term.drawn_pieces, Factor.any_refers_map]
  | whole =>
    cases t.view with
    | plain plain => rw [Term.drawn_plain ids plain, Factor.any_refers_map]
    | @fullMatch keep dropped after id body inner factors decided terms pairs =>
      obtain ⟨repetition, -, drops, -⟩ := Term.mem_of_cut factors
      have inside : inner.Legible := (legible.factor repetition).body.term (by simp [terms])
      have absorbed := pairs.any_refers_eq (fun f hf => legible.factor (drops f hf))
        fun f hf => inside.factor hf
      rw [Term.drawn_fullMatch ids factors decided, List.any_cons, Factor.any_refers_map, factors]
      simp only [List.any_append, List.any_cons, absorbed, Factor.refers_single terms,
        Bool.or_self_left, Bool.or_left_comm]
    | @separator keep dropped head tail after id body inner factors decided terms split _ _ _
        pairs =>
      obtain ⟨repetition, -, drops, -⟩ := Term.mem_of_cut factors
      have inside : inner.Legible := (legible.factor repetition).body.term (by simp [terms])
      have absorbed := pairs.any_refers_eq (fun f hf => legible.factor (drops f hf))
        fun f hf => inside.factor (by simp [split, hf])
      rw [Term.drawn_separator ids factors terms split decided, List.any_append,
        Factor.any_refers_map, Factor.any_refers_map, factors]
      simp only [List.any_append, List.any_cons, absorbed, Factor.refers_single terms, split,
        Bool.or_assoc, Bool.or_self_left, Bool.or_left_comm]

theorem Term.legible_of_mem_drawn {t : Term} (legible : t.Legible) {manner : Manner}
    {ids : List NodeId} {d : List NodeId × Factor} (h : d ∈ t.drawn manner ids) : d.2.Legible := by
  rcases Term.mem_drawn h with here | ⟨id, body, inner, repetition, hinner, there⟩
  · exact legible.factor here
  · exact ((legible.factor repetition).body.term hinner).factor there

/-- **No reference is drawn for a factor exactly if none stands in it.** -/
theorem Factor.references_eq_nil_iff {f : Factor} (legible : f.Legible) (above : List NodeId) :
    f.references above = [] ↔ f.refers = false := by
  match f with
  | .identifier id name =>
    cases capital : startsUppercase name.text <;>
      simp [references, refers, Factor.kinds, Kind.isReference, Identifier.isReference, capital]
  | .literal id l => simp [references, refers, Factor.kinds, Kind.isReference]
  | .bracketed id bracket body =>
    have parts : ∀ t ∈ body.terms,
        t.references (Factor.bracketed id bracket body).manner (above ++ [id] ++ [body.id]) = [] ↔
          t.refers = false := by
      intro t ht
      have inside := legible.body.term ht
      rw [Term.references, List.flatMap_eq_nil_iff,
        ← Term.any_refers_drawn inside (Factor.bracketed id bracket body).manner, List.any_eq_false]
      refine forall₂_congr fun d hd => ?_
      have smaller : sizeOf d.2 < sizeOf (Factor.bracketed id bracket body) :=
        calc sizeOf d.2 < sizeOf t := Term.sizeOf_lt_of_mem_drawn hd
          _ < sizeOf body := Expression.sizeOf_lt_of_mem_terms ht
          _ < _ := Factor.sizeOf_body_lt ..
      rw [references_eq_nil_iff (Term.legible_of_mem_drawn inside hd), Bool.not_eq_true]
    rw [references_bracketed, Expression.references, List.flatMap_eq_nil_iff, refers_bracketed,
      Expression.refers_eq, List.any_eq_false]
    simp only [Bool.not_eq_true]
    exact forall₂_congr parts
termination_by sizeOf f

/-! ### References on a track -/

section Tracks

variable {refer : String → PathKey → Track}

/-- No reference is on the track of a factor exactly if none stands in it. -/
theorem Factor.references_track_eq_nil_iff
    (shows : ∀ name path, (refer name path).references ≠ []) {f : Factor} (legible : f.Legible)
    (above : List NodeId) :
    ((f.layout above).track refer).references = [] ↔ f.refers = false := by
  rw [← Factor.references_eq_nil_iff legible above, ← Parts.references_layout.2.2 f above]
  have shown := Layout.references_track refer (f.layout above)
  constructor
  · intro none
    rw [none] at shown
    have each := List.flatMap_eq_nil_iff.mp shown.nil_eq.symm
    exact List.eq_nil_iff_forall_not_mem.mpr fun r hr => shows r.1 r.2 (each r hr)
  · intro none
    rw [none] at shown
    exact shown.eq_nil

theorem Factor.references_joined_eq_nil_iff
    (shows : ∀ name path, (refer name path).references ≠ []) {way : List Factor}
    (legible : ∀ f ∈ way, f.Legible) (above : List NodeId) :
    (Track.joined (Factor.tracks refer above way)).references = [] ↔
      ∀ f ∈ way, f.refers = false := by
  rw [Track.references_joined, Factor.tracks, List.flatMap_map, List.flatMap_eq_nil_iff]
  exact forall₂_congr fun f hf =>
    Factor.references_track_eq_nil_iff shows (legible f hf) above

/-- A reference is shown as a reference, whether it is opened or not. -/
theorem Grammar.references_shown_ne_nil {g : Grammar} {selected : PathKey → Bool} (name : String)
    (path : PathKey) : (g.shown selected maxDepth name path).references ≠ [] := by
  rw [shown_eq]
  split
  · split <;> simp
  · simp

/-- A track has no references exactly if no name of a production is on it, closed or opened. -/
theorem Track.references_eq_nil_iff {track : Track} :
    track.references = [] ↔ ∀ node ∈ track.nodes, (∀ name path, node ≠ .nonTerminal name path) ∧
      ∀ name path item, node ≠ .group name path item := by
  rw [references, marks, List.filter_filterMap, List.filterMap_eq_nil_iff]
  refine forall₂_congr fun node _ => ?_
  cases node <;> simp [mark?, Mark.isReference]

end Tracks

/-! ### Loops -/

/-- How the way back of a loop is drawn: the one way of a separator loop by itself, several ways as
a choice in a loop over nothing. -/
inductive Track.IsBack (refer : String → PathKey → Track) :
    List (List NodeId × List Factor) → Track → Track → Prop where
  | separator {item : Track} {above : List NodeId} {way : List Factor} :
      IsBack refer [(above, way)] item (.joined (Factor.tracks refer above way))
  | parallel {ways : List (List NodeId × List Factor)} :
      IsBack refer ways .skip (.choice (ways.length / 2)
        (ways.map fun way => .joined (Factor.tracks refer way.1 way.2)))

/-- If the track is a loop with a way back, this is drawn of terminal factors of the grammar. -/
def Track.HasWays (g : Grammar) (refer : String → PathKey → Track) : Track → Prop
  | .oneOrMore item (some back) =>
    ∃ ways, (∀ way ∈ ways, g.IsWay way.2) ∧ Track.IsBack refer ways item back
  | _ => True

namespace Grammar

variable {g : Grammar}

/-- There are two ways to build a loop with a way back. -/
theorem hasWays_rules (refer : String → PathKey → Track) :
    Track.Rules g refer (Track.HasWays g refer) where
  skip := trivial
  terminal _ _ _ := trivial
  closed _ _ _ := trivial
  opened _ _ _ _ _ _ := trivial
  sequence _ _ _ := trivial
  choice _ _ _ := trivial
  optional _ _ := trivial
  zeroOrMore _ _ := trivial
  oneOrMore _ _ := trivial
  separator _ above way _ isWay :=
    ⟨[(above, way)], List.forall_mem_singleton.mpr isWay, .separator⟩
  parallel ways _ isWay := ⟨ways, isWay, .parallel⟩

/-- The references on a way back are those in the factors of which it is drawn. -/
theorem references_isBack_eq_nil_iff {refer : String → PathKey → Track}
    (shows : ∀ name path, (refer name path).references ≠ [])
    {ways : List (List NodeId × List Factor)} {item back : Track}
    (h : Track.IsBack refer ways item back) (legible : ∀ way ∈ ways, ∀ f ∈ way.2, f.Legible) :
    back.references = [] ↔ ∀ way ∈ ways, ∀ f ∈ way.2, f.refers = false := by
  cases h with
  | @separator _ above way =>
    rw [List.forall_mem_singleton] at legible ⊢
    exact Factor.references_joined_eq_nil_iff shows legible above
  | parallel =>
    rw [Track.references_choice, List.flatMap_map, List.flatMap_eq_nil_iff]
    exact forall₂_congr fun way hway =>
      Factor.references_joined_eq_nil_iff shows (legible way hway) way.1

/-- **What is on the way back of a loop.** Whatever is opened, the way back of a loop in the diagram
of an accepted text is drawn of terminal factors, one row of them or several rows that are read from
right to left. A name of a production is drawn on it, closed or opened, exactly if one stands in one
of these factors; and that factor is in brackets, which are terminal whatever is in them. -/
theorem references_back_iff {text : String} (read : ofString? text = .ok g)
    {start : Option String} {expanded : List PathKey} {d : Diagram}
    (drawn : (g.diagram start expanded).result = .ok d) {item back : Track}
    (loop : .oneOrMore item (some back) ∈ d.root.nodes) :
    ∃ ways, (∀ way ∈ ways, g.IsWay way.2) ∧
      Track.IsBack (g.shown (· ∈ expanded) maxDepth) ways item back ∧
      ((∀ node ∈ back.nodes, (∀ name path, node ≠ .nonTerminal name path) ∧
          ∀ name path inner, node ≠ .group name path inner) ↔
        ∀ way ∈ ways, ∀ f ∈ way.2, f.refers = false) ∧
      ∀ way ∈ ways, ∀ f ∈ way.2, f.refers = true →
        ∃ id bracket body, f = .bracketed id bracket body := by
  rw [diagram_eq] at drawn
  obtain ⟨ways, isWay, isBack⟩ := all_draw read (hasWays_rules _) drawn _ loop
  have legible : ∀ way ∈ ways, ∀ f ∈ way.2, f.Legible := fun way hway f hf =>
    (HasNode.legible_of_ofString? read _ ((isWay way hway).node f hf)).factor
  refine ⟨ways, isWay, isBack, ?_, fun way hway f hf => ?_⟩
  · rw [← Track.references_eq_nil_iff]
    exact references_isBack_eq_nil_iff references_shown_ne_nil isBack legible
  · exact Factor.exists_bracketed_of_refers ((isWay way hway).terminal f hf)

set_option maxRecDepth 4000 in
/-- A name of a production in brackets is drawn on the way back. -/
theorem references_back_bracketed :
    let g : Grammar := ⟨1, [⟨2, ⟨3, "A"⟩, ⟨4, [⟨5, [.identifier 6 ⟨7, "b"⟩,
        .bracketed 8 .repetition ⟨9, [⟨10, [
          .bracketed 11 .group ⟨12, [⟨13, [.identifier 14 ⟨15, "B"⟩]⟩]⟩,
          .identifier 16 ⟨17, "b"⟩]⟩]⟩]⟩]⟩⟩,
      ⟨18, ⟨19, "B"⟩, ⟨20, [⟨21, [.identifier 22 ⟨23, "c"⟩]⟩]⟩⟩]⟩
    let item : Track := .terminal "b" ⟨[2, 4, 5, 8, 9, 10, 16, 17]⟩
    let name : Track := .nonTerminal "B" ⟨[2, 4, 5, 8, 9, 10, 11, 12, 13, 14, 15]⟩
    let d : Diagram := ⟨"A", .sequence [.oneOrMore item (some (.sequence [name]))]⟩
    ofString? "A = b \x7b(B) b\x7d . B = c ." = .ok g ∧ (g.diagram none []).result = .ok d ∧
      .oneOrMore item (some (.sequence [name])) ∈ d.root.nodes ∧
      name ∈ (Track.sequence [name]).nodes ∧
      ∃ way, g.IsWay way ∧ ∃ f ∈ way, f.refers = true ∧
        ∃ id bracket body, f = .bracketed id bracket body := by
  intro g item name d
  have read : ofString? "A = b \x7b(B) b\x7d . B = c ." = .ok g := by cbv
  have drawn : (g.diagram none []).result = .ok d := by
    rw [diagram_eq]
    cbv
  have loop : .oneOrMore item (some (.sequence [name])) ∈ d.root.nodes := by
    simp [d, Track.nodes, Track.nodesAll]
  have inside : name ∈ (Track.sequence [name]).nodes := by simp [Track.nodes, Track.nodesAll, name]
  obtain ⟨ways, isWay, -, shown, bracketed⟩ := references_back_iff read drawn loop
  obtain ⟨way, hway, f, hf, refers⟩ : ∃ way ∈ ways, ∃ f ∈ way.2, f.refers = true := by
    by_contra none
    have plain := shown.mpr fun way hway f hf => by
      by_contra refers
      exact none ⟨way, hway, f, hf, by simpa using refers⟩
    exact (plain name inside).1 _ _ rfl
  exact ⟨read, drawn, loop, inside, way.2, isWay way hway, f, hf, refers,
    bracketed way hway f hf refers⟩

end Grammar

end Railroad
