import Railroad.Proofs.PartTracks

/-!
What is marked on a track: the occurrences that its stations and frames show, each with its key.

* `Track.marks`: the marks of a track, in the order of drawing. Their keys are the keys of its nodes
  (`Track.marks_keys`).
* `Expression.marks_layout`, `Term.marks_plain`, `Term.marks_fullMatch`, `Term.marks_separator` and
  `Factor.marks_bracketed`: the marks of a part are those of the parts inside it that are drawn.
-/

namespace Railroad

/-- What a mark says besides its key. -/
inductive Mark where
  | terminal (text : String)
  /-- A reference that is not opened. -/
  | closed (name : String)
  | opened (name : String)
deriving DecidableEq, Repr

namespace Track

/-- What the track itself shows, if it is a station or a frame. -/
def mark? : Track → Option (PathKey × Mark)
  | .terminal text path => some (path, .terminal text)
  | .nonTerminal name path => some (path, .closed name)
  | .group name path _ => some (path, .opened name)
  | _ => none

/-- The marks of a track and of the tracks inside it. -/
def marks (track : Track) : List (PathKey × Mark) :=
  track.nodes.filterMap mark?

theorem mark?_key (track : Track) : track.mark?.map (·.1) = track.path? := by
  cases track <;> rfl

/-- The keys of the marks are those of the nodes. -/
theorem marks_keys (track : Track) : track.marks.map (·.1) = track.nodes.filterMap path? := by
  rw [marks, List.map_filterMap]
  exact congrArg (List.filterMap · _) (funext mark?_key)

theorem marks_eq (track : Track) :
    track.marks = track.mark?.toList ++ track.children.flatMap marks := by
  rw [marks, nodes_eq, List.filterMap_cons, List.filterMap_flatMap]
  cases track.mark? <;> rfl

@[simp] theorem marks_terminal (text : String) (path : PathKey) :
    (terminal text path).marks = [(path, .terminal text)] := by
  simp [marks_eq, mark?, children]

@[simp] theorem marks_nonTerminal (name : String) (path : PathKey) :
    (nonTerminal name path).marks = [(path, .closed name)] := by
  simp [marks_eq, mark?, children]

@[simp] theorem marks_group (name : String) (path : PathKey) (item : Track) :
    (group name path item).marks = (path, .opened name) :: item.marks := by
  rw [marks_eq]
  simp [mark?, children]

@[simp] theorem marks_sequence (items : List Track) :
    (sequence items).marks = items.flatMap marks := by
  rw [marks_eq]
  simp [mark?, children]

@[simp] theorem marks_joined (items : List Track) :
    (joined items).marks = items.flatMap marks := by
  unfold joined
  split <;> simp

@[simp] theorem marks_choice (index : Nat) (options : List Track) :
    (choice index options).marks = options.flatMap marks := by
  rw [marks_eq]
  simp [mark?, children]

@[simp] theorem marks_optional (item : Track) : (optional item).marks = item.marks := by
  rw [marks_eq]
  simp [mark?, children]

@[simp] theorem marks_zeroOrMore (item : Track) : (zeroOrMore item).marks = item.marks := by
  rw [marks_eq]
  simp [mark?, children]

@[simp] theorem marks_oneOrMore (item : Track) (back : Option Track) :
    (oneOrMore item back).marks = item.marks ++ back.toList.flatMap marks := by
  rw [marks_eq]
  simp [mark?, children]

@[simp] theorem marks_skip : skip.marks = [] := by
  simp [marks_eq, mark?, children]

end Track

/-! ### Marks of layouts -/

section Layout

variable (refer : String → PathKey → Track)

/-- The marks of factors that are drawn one by one, all below `above`. -/
def Factor.marksAll (above : List NodeId) (factors : List Factor) : List (PathKey × Mark) :=
  factors.flatMap fun f => ((f.layout above).track refer).marks

variable {refer}

theorem Factor.flatMap_marks_tracks (above : List NodeId) (factors : List Factor) :
    (Factor.tracks refer above factors).flatMap Track.marks =
      Factor.marksAll refer above factors := by
  rw [Factor.tracks, List.flatMap_map]
  rfl

/-- The marks of an expression are those of its terms. -/
theorem Expression.marks_layout (above : List NodeId) (e : Expression) :
    ((e.layout above).track refer).marks =
      e.terms.flatMap fun t => ((t.layout (above ++ [e.id])).track refer).marks := by
  rcases e.track_layout above with ⟨t, terms, track⟩ | ⟨-, track⟩
  · rw [track, terms, List.flatMap_singleton]
  · rw [track, Track.marks_choice, List.flatMap_map]

variable {t : Term}

/-- The marks of a term that is not compacted are those of its factors. -/
theorem Term.marks_plain (above : List NodeId) (h : (Compaction.of t.factors).isPlain = true) :
    ((t.layout above).track refer).marks = Factor.marksAll refer (above ++ [t.id]) t.factors := by
  rw [t.track_plain above h, Track.marks_joined, Factor.flatMap_marks_tracks]

variable {keep dropped after : List Factor} {id : NodeId} {body : Expression}

/-- The marks of a full match are those of the factors kept, the body and the factors behind it. -/
theorem Term.marks_fullMatch (above : List NodeId)
    (factors : t.factors = keep ++ (dropped ++ .bracketed id .repetition body :: after))
    (h : Compaction.of t.factors = .fullMatch (keep.length + dropped.length) dropped.length) :
    ((t.layout above).track refer).marks =
      Factor.marksAll refer (above ++ [t.id]) keep ++
        (((body.layout (above ++ [t.id] ++ [id])).track refer).marks ++
          Factor.marksAll refer (above ++ [t.id]) after) := by
  rw [t.track_fullMatch above factors h]
  simp [Factor.flatMap_marks_tracks]

/-- The marks of a separator loop are those of the factors kept, the end and then the beginning of
the body, and the factors behind it. -/
theorem Term.marks_separator (above : List NodeId) {inner : Term} {head tail : List Factor}
    (factors : t.factors = keep ++ (dropped ++ .bracketed id .repetition body :: after))
    (terms : body.terms = [inner]) (split : inner.factors = head ++ tail)
    (h : Compaction.of t.factors =
      .separator (keep.length + dropped.length) dropped.length head.length) :
    ((t.layout above).track refer).marks =
      Factor.marksAll refer (above ++ [t.id]) keep ++
        (Factor.marksAll refer (above ++ [t.id] ++ [id] ++ [body.id] ++ [inner.id])
            (tail ++ head) ++
          Factor.marksAll refer (above ++ [t.id]) after) := by
  rw [t.track_separator above factors terms split h]
  simp [Factor.flatMap_marks_tracks, Factor.marksAll]

/-- The marks of brackets are those of what is in them. -/
theorem Factor.marks_bracketed (above : List NodeId) {bracket : Bracket}
    (h : (Factor.bracketed id bracket body).isParallel = false) :
    (((Factor.bracketed id bracket body).layout above).track refer).marks =
      ((body.layout (above ++ [id])).track refer).marks := by
  rw [Factor.track_bracketed above h]
  cases bracket <;> simp [Bracket.frame]

/-- The marks of parallel ways back are those of the factors of each term, in reverse. -/
theorem Factor.marks_parallel (above : List NodeId) {bracket : Bracket}
    (h : (Factor.bracketed id bracket body).isParallel = true) :
    (((Factor.bracketed id bracket body).layout above).track refer).marks =
      body.terms.flatMap fun t =>
        Factor.marksAll refer (above ++ [id] ++ [body.id] ++ [t.id]) t.factors.reverse := by
  rw [Factor.track_parallel above h]
  simp [List.flatMap_map, Factor.flatMap_marks_tracks]

end Layout

end Railroad
