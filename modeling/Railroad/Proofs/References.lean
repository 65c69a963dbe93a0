import Mathlib.Data.List.Perm.Basic
import Railroad.Proofs.Marks

/-!
What becomes of the references of a layout: what is recorded and what is shown of them.

* `Track.references`: the references on a track, each with its key, opened or not.
* `Layout.filterMap_events_draw`, `Layout.references_track`: all that is recorded of references and
  all that is shown of them comes from the references of the layout.
* `Layout.mem_references_draw_iff`, `Layout.perm_references_draw`: what this means for a layout that
  is drawn.
-/

namespace Railroad

/-! ### References that are shown -/

/-- The mark of a reference, opened or not. -/
def Mark.isReference : Mark → Bool
  | .terminal _ => false
  | .closed _ | .opened _ => true

namespace Track

/-- The marks of the references on a track. -/
def references (track : Track) : List (PathKey × Mark) :=
  track.marks.filter (·.2.isReference)

theorem filter_flatMap_marks (items : List Track) :
    (items.flatMap marks).filter (·.2.isReference) = items.flatMap references :=
  List.filter_flatMap

@[simp] theorem references_terminal (text : String) (path : PathKey) :
    (terminal text path).references = [] := by
  simp [references, Mark.isReference]

@[simp] theorem references_nonTerminal (name : String) (path : PathKey) :
    (nonTerminal name path).references = [(path, .closed name)] := by
  simp [references, Mark.isReference]

@[simp] theorem references_group (name : String) (path : PathKey) (item : Track) :
    (group name path item).references = (path, .opened name) :: item.references := by
  simp [references, Mark.isReference]

@[simp] theorem references_sequence (items : List Track) :
    (sequence items).references = items.flatMap references := by
  simp [references, filter_flatMap_marks]

@[simp] theorem references_joined (items : List Track) :
    (joined items).references = items.flatMap references := by
  simp [references, filter_flatMap_marks]

@[simp] theorem references_choice (index : Nat) (options : List Track) :
    (choice index options).references = options.flatMap references := by
  simp [references, filter_flatMap_marks]

@[simp] theorem references_optional (item : Track) :
    (optional item).references = item.references := by
  simp [references]

@[simp] theorem references_zeroOrMore (item : Track) :
    (zeroOrMore item).references = item.references := by
  simp [references]

@[simp] theorem references_oneOrMore (item : Track) (back : Option Track) :
    (oneOrMore item back).references = item.references ++ back.toList.flatMap references := by
  simp [references, filter_flatMap_marks]

@[simp] theorem references_skip : skip.references = [] := by
  simp [references]

end Track

/-- The key of a reference that is opened. -/
def Mark.openedKey? : PathKey × Mark → Option PathKey
  | (path, .opened _) => some path
  | _ => none

theorem Mark.openedKey?_eq_some {mark : PathKey × Mark} {path : PathKey} :
    openedKey? mark = some path ↔ ∃ name, mark = (path, .opened name) := by
  obtain ⟨key, what⟩ := mark
  cases what <;> simp [openedKey?]

/-- The groups of a track are the references on it that are opened. -/
theorem Track.groupPaths_eq (track : Track) :
    track.groupPaths = track.references.filterMap Mark.openedKey? := by
  rw [references, marks, groupPaths, List.filterMap_filter, List.filterMap_filterMap]
  congr 1
  funext node
  cases node <;> rfl

theorem Track.mem_groupPaths_iff {track : Track} {path : PathKey} :
    path ∈ track.groupPaths ↔ ∃ name, (path, .opened name) ∈ track.references := by
  rw [groupPaths_eq, List.mem_filterMap]
  constructor
  · rintro ⟨mark, hm, opened⟩
    obtain ⟨name, rfl⟩ := Mark.openedKey?_eq_some.mp opened
    exact ⟨name, hm⟩
  · rintro ⟨name, hm⟩
    exact ⟨_, hm, rfl⟩

/-- What is recorded of a reference. -/
def DrawingEvent.reference? : DrawingEvent → Option (PathKey × Mark)
  | .laidOut _ => none
  | .collapsed name path => some (path, .closed name)
  | .expanding name path => some (path, .opened name)

/-- The keys that are opened are those of references that are recorded as opened. -/
theorem DrawingEvent.filterMap_openedKey? (events : List DrawingEvent) :
    events.filterMap openedKey? = (events.filterMap reference?).filterMap Mark.openedKey? := by
  rw [List.filterMap_filterMap]
  congr 1
  funext event
  cases event <;> rfl

namespace Layout

/-! ### What is recorded of references -/

section Draw

variable {refer : String → PathKey → Drawing Track}
variable {β : Type} {read : DrawingEvent → Option β}

theorem filterMap_events_drawAll {items : List Layout}
    (each : ∀ item ∈ items, (item.draw refer).Succeeds →
      (item.draw refer).events.filterMap read =
        item.references.flatMap fun r => (refer r.1 r.2).events.filterMap read)
    (h : (drawAll refer items).Succeeds) :
    (drawAll refer items).events.filterMap read =
      (items.flatMap references).flatMap fun r => (refer r.1 r.2).events.filterMap read := by
  induction items with
  | nil => rfl
  | cons item rest ih =>
    obtain ⟨first, others⟩ := List.forall_mem_cons.mp each
    obtain ⟨track, drawn, more⟩ := Traced.succeeds_bind_iff.mp h
    rw [drawAll, Traced.events_bind_ok drawn, Traced.events_map, List.filterMap_append,
      first ⟨track, drawn⟩, ih others (Traced.succeeds_map_iff.mp more), List.flatMap_cons,
      List.flatMap_append]

/-- **What is recorded of references comes from the references of the layout**, in their order.
Notes on layouts do not count. -/
theorem filterMap_events_draw (quiet : ∀ note, read (.laidOut note) = none) (l : Layout)
    (h : (l.draw refer).Succeeds) :
    (l.draw refer).events.filterMap read =
      l.references.flatMap fun r => (refer r.1 r.2).events.filterMap read := by
  induction l using Layout.induction with
  | reference name path => simp [references, draw]
  | node l node ih =>
    have silent : (l.notes.map DrawingEvent.laidOut).filterMap read = [] := by
      simp [List.filterMap_map, quiet]
    rw [draw_node node] at h ⊢
    obtain ⟨_, -, all⟩ := Traced.succeeds_bind_iff.mp h
    rw [Traced.events_bind_ok rfl, List.filterMap_append, Traced.events_map, references_node node]
    rw [filterMap_events_drawAll ih (Traced.succeeds_map_iff.mp all), Traced.record, silent,
      List.nil_append]

theorem mem_events_drawAll {event : DrawingEvent} {items : List Layout}
    (h : event ∈ (drawAll refer items).events) :
    ∃ item ∈ items, event ∈ (item.draw refer).events := by
  induction items with
  | nil => cases h
  | cons item rest ih =>
    rcases Traced.mem_events_bind h with first | ⟨_, -, others⟩
    · exact ⟨item, List.mem_cons_self .., first⟩
    · obtain ⟨other, member, recorded⟩ := ih others
      exact ⟨other, List.mem_cons_of_mem _ member, recorded⟩

/-- Whatever is recorded of references is recorded of one in the layout, also if drawing fails. -/
theorem mem_events_draw {event : DrawingEvent} {m : PathKey × Mark}
    (shows : event.reference? = some m) (l : Layout) (h : event ∈ (l.draw refer).events) :
    ∃ r ∈ l.references, event ∈ (refer r.1 r.2).events := by
  induction l using Layout.induction with
  | reference name path => exact ⟨(name, path), by simp [references], h⟩
  | node l node ih =>
    rw [draw_node node] at h
    rcases Traced.mem_events_bind h with note | ⟨_, -, parts⟩
    · obtain ⟨note, -, rfl⟩ := List.mem_map.mp note
      cases shows
    · obtain ⟨part, hpart, recorded⟩ := mem_events_drawAll parts
      obtain ⟨r, hr, recorded⟩ := ih part hpart recorded
      exact ⟨r, mem_references_of_mem_parts node hpart hr, recorded⟩

end Draw

/-- The references on a track that is built are those on the tracks it is built from. -/
theorem references_build {l : Layout} (node : l.isReference = false) {tracks : List Track}
    (h : tracks.length = l.parts.length) :
    (l.build tracks).references.Perm (tracks.flatMap Track.references) := by
  cases l with
  | reference name path => cases node
  | terminal text path | skip =>
    obtain rfl := List.length_eq_zero_iff.mp h
    simp [build]
  | sequence items | joined items | choice items => simp [build]
  | returned items =>
    rw [build, Track.references_joined]
    exact (List.reverse_perm tracks).flatMap_right _
  | optional item | zeroOrMore item | oneOrMore item | noted note item =>
    obtain ⟨track, rfl⟩ := List.length_eq_one_iff.mp h
    simp [build]
  | loop item back =>
    obtain ⟨track, wayBack, rfl⟩ := List.length_eq_two.mp h
    simp [build]
  | compacted round before after =>
    obtain ⟨track, others, rfl⟩ := List.exists_cons_of_length_eq_add_one h
    rw [build, Track.references_joined]
    have middle : (others.take before.length ++ track :: others.drop before.length).Perm
        (track :: (others.take before.length ++ others.drop before.length)) := List.perm_middle
    rw [List.take_append_drop] at middle
    exact middle.flatMap_right _

/-- **What is shown of references comes from the references of the layout.** -/
theorem references_track (shown : String → PathKey → Track) (l : Layout) :
    (l.track shown).references.Perm (l.references.flatMap fun r => (shown r.1 r.2).references) := by
  induction l using Layout.induction with
  | reference name path => simp [references, track]
  | node l node ih =>
    rw [track_node node, references_node node, List.flatMap_assoc]
    refine (references_build node (List.length_map _)).trans ?_
    rw [List.flatMap_map]
    exact List.Perm.flatMap_left _ ih

section Draw

variable {refer : String → PathKey → Drawing Track} {l : Layout} {t : Track}

/-- A layout that is drawn is its track, with each reference as it is drawn. -/
theorem exists_track_of_draw (h : (l.draw refer).result = .ok t) :
    ∃ shown : String → PathKey → Track,
      (∀ r ∈ l.references, (refer r.1 r.2).result = .ok (shown r.1 r.2)) ∧ l.track shown = t := by
  have each := (succeeds_draw_iff l).mp ⟨t, h⟩
  let shown (name : String) (path : PathKey) : Track :=
    match (refer name path).result with
    | .ok track => track
    | .error _ => .skip
  have drawn : ∀ name path track, (refer name path).result = .ok track →
      shown name path = track := by
    intro name path track one
    simp only [shown, one]
  refine ⟨shown, fun r hr => ?_, track_of_draw drawn l h⟩
  obtain ⟨track, one⟩ := each r hr
  rw [drawn r.1 r.2 track one, one]

/-- The references shown for a layout are those shown for its references. -/
theorem mem_references_draw_iff (h : (l.draw refer).result = .ok t) {m : PathKey × Mark} :
    m ∈ t.references ↔
      ∃ r ∈ l.references, ∃ track, (refer r.1 r.2).result = .ok track ∧ m ∈ track.references := by
  obtain ⟨shown, each, rfl⟩ := exists_track_of_draw h
  rw [(references_track shown l).mem_iff, List.mem_flatMap]
  constructor
  · rintro ⟨r, hr, hm⟩
    exact ⟨r, hr, _, each r hr, hm⟩
  · rintro ⟨r, hr, track, drawn, hm⟩
    cases (each r hr).symm.trans drawn
    exact ⟨r, hr, hm⟩

/-- What is recorded of references is what is shown of them, if this holds of each reference. -/
theorem perm_references_draw
    (each : ∀ r ∈ l.references, ∀ track, (refer r.1 r.2).result = .ok track →
      ((refer r.1 r.2).events.filterMap DrawingEvent.reference?).Perm track.references)
    (h : (l.draw refer).result = .ok t) :
    ((l.draw refer).events.filterMap DrawingEvent.reference?).Perm t.references := by
  rw [filterMap_events_draw (fun _ => rfl) l ⟨t, h⟩]
  obtain ⟨shown, drawn, rfl⟩ := exists_track_of_draw h
  refine List.Perm.trans ?_ (references_track shown l).symm
  exact List.Perm.flatMap_left _ fun r hr => each r hr _ (drawn r hr)

end Draw

end Layout

end Railroad
