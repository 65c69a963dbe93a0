import Railroad.Proofs.Expandable
import Railroad.Proofs.Keys
import Railroad.Proofs.Reading

/-!
The record of a diagram mirrors the diagram.

* `Track.logRecord?`: the record that a node of a diagram stands for, if it is a reference. No two
  nodes stand for one record (`Grammar.nodup_records`).
* `Track.Announced`: a group is recorded before the references inside it. `Layout.announced_draw`:
  this holds of a layout that is drawn if it holds of its references.
* `Grammar.records_diagram`: each reference of a diagram is recorded once, after the groups around
  it, and nothing else is recorded so. The search for keys that can be opened records what the
  diagram with all of them opened does.
-/

namespace Railroad

/-! ### Records of references -/

/-- The record that a node stands for. Only references are recorded. -/
def Track.logRecord? : Track → Option LogRecord
  | .nonTerminal name path => some (DrawingEvent.collapsed name path).logRecord
  | .group name path _ => some (DrawingEvent.expanding name path).logRecord
  | _ => none

/-- The record that a mark stands for. -/
def Mark.logRecord? : PathKey × Mark → Option LogRecord
  | (_, .terminal _) => none
  | (path, .closed name) => some (DrawingEvent.collapsed name path).logRecord
  | (path, .opened name) => some (DrawingEvent.expanding name path).logRecord

/-- The nodes of a track stand for the records that the references on it do. -/
theorem Track.filterMap_logRecord? (track : Track) :
    track.nodes.filterMap logRecord? = track.references.filterMap Mark.logRecord? := by
  rw [references, marks, List.filterMap_filter, List.filterMap_filterMap]
  congr 1
  funext node
  cases node <;> rfl

/-- The records of single steps are those of references. -/
theorem DrawingEvent.filter_trace (events : List DrawingEvent) :
    (events.map logRecord).filter (·.level = .trace) =
      (events.filterMap reference?).filterMap Mark.logRecord? := by
  rw [List.filterMap_filterMap, List.filter_map, ← List.filterMap_eq_map, List.filterMap_filter]
  congr 1
  funext event
  cases event with
  | laidOut note => cases note <;> rfl
  | collapsed name path | expanding name path => rfl

/-- The key stands at the end of a record, after a space. -/
theorem Mark.exists_message_eq {m : PathKey × Mark} {record : LogRecord}
    (h : logRecord? m = some record) :
    ∃ front, record.message.toList = front ++ ' ' :: m.1.text.toList := by
  obtain ⟨path, _ | name | name⟩ := m <;> cases h
  · exact ⟨"collapsed ".toList ++ name.toList ++ " at".toList, by
      simp [DrawingEvent.logRecord, String.toList_append]⟩
  · exact ⟨"expanding ".toList ++ name.toList ++ " at".toList, by
      simp [DrawingEvent.logRecord, String.toList_append]⟩

/-- References with one record have one key: there is no space in a key. -/
theorem Mark.key_eq_of_logRecord? {m m' : PathKey × Mark} {record : LogRecord}
    (h : logRecord? m = some record) (h' : logRecord? m' = some record) : m.1 = m'.1 := by
  have unspaced : ∀ key : PathKey, ' ' ∉ key.text.toList.reverse := fun key hc =>
    key.notMem_text (by decide) (by decide) (List.mem_reverse.mp hc)
  obtain ⟨front, message⟩ := exists_message_eq h
  obtain ⟨front', message'⟩ := exists_message_eq h'
  have backwards := congrArg List.reverse (message.symm.trans message')
  simp only [List.reverse_append, List.reverse_cons, List.append_assoc, List.singleton_append]
    at backwards
  have keys := (Reading.append_cons_inj_of_notMem (unspaced m.1) (unspaced m'.1) backwards).1
  exact PathKey.text_injective (String.toList_inj.mp (List.reverse_inj.mp keys))

/-! ### Groups come first -/

/-- If the track is a group, it is recorded before each of the references inside it. -/
def Track.Announced (recorded : List (PathKey × Mark)) : Track → Prop
  | .group name path item => ∀ m ∈ item.references, [(path, .opened name), m].Sublist recorded
  | _ => True

theorem Track.Announced.mono {recorded recorded' : List (PathKey × Mark)}
    (more : recorded.Sublist recorded') {track : Track} (h : track.Announced recorded) :
    track.Announced recorded' := by
  cases track with
  | group name path item => exact fun m hm => (h m hm).trans more
  | _ => trivial

namespace Layout

variable {recorded : List (PathKey × Mark)}

/-- A layout adds no group to those on the tracks it is built from. -/
theorem announced_build (l : Layout) {tracks : List Track}
    (each : ∀ t ∈ tracks, t.All (Track.Announced recorded)) :
    (l.build tracks).All (Track.Announced recorded) := by
  have none : Track.skip.All (Track.Announced recorded) := Track.all_of_leaf rfl trivial
  cases l with
  | terminal text path => exact Track.all_of_leaf rfl trivial
  | reference name path | skip => exact none
  | sequence items | choice items => exact Track.all_iff.mpr ⟨trivial, each⟩
  | joined items => exact Track.all_joined (fun _ => trivial) each
  | returned items =>
    exact Track.all_joined (fun _ => trivial) fun t ht => each t (List.mem_reverse.mp ht)
  | noted note item =>
    rcases tracks with _ | ⟨track, _ | ⟨next, rest⟩⟩
    · exact none
    · exact each track (List.mem_singleton_self track)
    · exact none
  | optional item | zeroOrMore item | oneOrMore item =>
    rcases tracks with _ | ⟨track, _ | ⟨next, rest⟩⟩
    · exact none
    · exact Track.all_iff.mpr ⟨trivial, each⟩
    · exact none
  | loop item back =>
    rcases tracks with _ | ⟨track, _ | ⟨wayBack, _ | ⟨next, rest⟩⟩⟩
    · exact none
    · exact none
    · exact Track.all_iff.mpr ⟨trivial, each⟩
    · exact none
  | compacted round before after =>
    cases tracks with
    | nil => exact none
    | cons round others =>
      obtain ⟨first, rest⟩ := List.forall_mem_cons.mp each
      refine Track.all_joined (fun _ => trivial) (List.forall_mem_append.mpr ⟨?_, ?_⟩)
      · exact fun t ht => rest t (List.mem_of_mem_take ht)
      · exact List.forall_mem_cons.mpr ⟨first, fun t ht => rest t (List.mem_of_mem_drop ht)⟩

theorem announced_track {shown : String → PathKey → Track} (l : Layout)
    (each : ∀ r ∈ l.references, (shown r.1 r.2).All (Track.Announced recorded)) :
    (l.track shown).All (Track.Announced recorded) := by
  induction l using Layout.induction with
  | reference name path => exact each (name, path) (by simp [references])
  | node l node ih =>
    rw [track_node node]
    refine announced_build l (List.forall_mem_map.mpr fun part hpart => ih part hpart ?_)
    exact fun r hr => each r (mem_references_of_mem_parts node hpart hr)

/-- **Groups come first in what is recorded of a layout**, if they do so for each reference. -/
theorem announced_draw {refer : String → PathKey → Drawing Track} {l : Layout} {t : Track}
    (each : ∀ r ∈ l.references, ∀ track, (refer r.1 r.2).result = .ok track →
      track.All (Track.Announced ((refer r.1 r.2).events.filterMap DrawingEvent.reference?)))
    (h : (l.draw refer).result = .ok t) :
    t.All (Track.Announced ((l.draw refer).events.filterMap DrawingEvent.reference?)) := by
  rw [filterMap_events_draw (fun _ => rfl) l ⟨t, h⟩]
  obtain ⟨shown, drawn, rfl⟩ := exists_track_of_draw h
  refine announced_track l fun r hr node hnode => ?_
  refine (each r hr _ (drawn r hr) node hnode).mono ?_
  rw [List.flatMap_def]
  exact List.sublist_flatten_of_mem (List.mem_map_of_mem hr)

end Layout

namespace Grammar

variable {g : Grammar} {selected : PathKey → Bool} {start : Option String}

/-- A reference that is opened is recorded before what is drawn inside it. -/
theorem announced_drawReference {name : String} {path : PathKey} {t : Track}
    (h : (g.drawReference selected maxDepth name path).result = .ok t) :
    t.All (Track.Announced ((g.drawReference selected maxDepth name path).events.filterMap
      DrawingEvent.reference?)) := by
  induction path using PathKey.depth_induction generalizing name t with
  | h path ih =>
    rcases result_drawReference_eq_ok.mp h with
      ⟨opened, p, inner, found, body, rfl⟩ | ⟨closed, rfl⟩
    · have recorded : (DrawingEvent.expanding name path).reference? =
          some (path, .opened name) := rfl
      rw [drawReference_eq, if_pos opened, events_drawOpened found,
        List.filterMap_cons_some recorded]
      have inside := Layout.perm_references_draw
        (fun _ _ _ drawn => perm_references_drawReference drawn) body
      have first := Layout.announced_draw (fun r hr track drawn =>
        ih opened.1 r.2 (Expression.depth_lt_of_mem_references hr) drawn) body
      refine Track.all_iff.mpr ⟨?_, List.forall_mem_singleton.mpr ?_⟩
      · exact fun m hm => (List.singleton_sublist.mpr (inside.mem_iff.mpr hm)).cons_cons _
      · exact fun node hnode => (first node hnode).mono (List.sublist_cons_self ..)
    · exact Track.all_of_leaf rfl trivial

/-- **Each group of a diagram is recorded before the references inside it.** -/
theorem announced_draw {d : Diagram} (h : (g.draw start selected).result = .ok d) :
    d.root.All (Track.Announced
      ((g.draw start selected).events.filterMap DrawingEvent.reference?)) := by
  obtain ⟨p, track, started, body, rfl⟩ := result_draw_eq_ok.mp h
  rw [events_draw started]
  refine Track.all_iff.mpr ⟨trivial, List.forall_mem_singleton.mpr ?_⟩
  exact Layout.announced_draw (fun _ _ _ => announced_drawReference) body

/-- No two nodes of a diagram stand for one record. -/
theorem nodup_records (numbered : ∀ p ∈ g.productions, p.body.Numbered) {d : Diagram}
    (h : (g.draw start selected).result = .ok d) :
    (d.root.nodes.filterMap Track.logRecord?).Nodup := by
  rw [Track.filterMap_logRecord?]
  refine (pairwise_references numbered h).filterMap _ ?_
  rintro mark mark' different record found _ found' rfl
  exact different (Mark.key_eq_of_logRecord? found found')

/-- **The record of a diagram mirrors the diagram.** Its single steps are the references of the
diagram of an accepted text, each of them once and no other, and every group is recorded before the
references inside it. The keys that can be opened are found with the same record as the diagram that
opens all of them is drawn with. -/
theorem records_diagram {text : String} {g : Grammar} (read : ofString? text = .ok g)
    (start : Option String) :
    (∀ expanded d, (g.diagram start expanded).result = .ok d →
      let records := ((g.diagram start expanded).events.map DrawingEvent.logRecord).filter
        (·.level = .trace)
      records.Perm (d.root.nodes.filterMap Track.logRecord?) ∧ records.Nodup ∧
        ∀ name path item, .group name path item ∈ d.root.nodes → ∀ node ∈ item.nodes,
          ∀ record, node.logRecord? = some record →
            [(DrawingEvent.expanding name path).logRecord, record].Sublist records) ∧
      ∀ paths, (g.expandablePaths start).result = .ok paths →
        (g.expandablePaths start).events = (g.diagram start paths).events := by
  obtain ⟨tokens, last, scanned, tree⟩ := ofString?_eq_ok_iff.mp read
  constructor
  · intro expanded d drawn
    rw [diagram_eq] at drawn ⊢
    rw [DrawingEvent.filter_trace]
    have mirrored := (perm_references_draw drawn).filterMap Mark.logRecord?
    rw [← Track.filterMap_logRecord?] at mirrored
    refine ⟨mirrored, mirrored.nodup_iff.mpr (nodup_records (fun q hq =>
      numbered_body tree.numbered hq) drawn), ?_⟩
    intro name path item opened node hnode record found
    have inside : record ∈ item.nodes.filterMap Track.logRecord? :=
      List.mem_filterMap.mpr ⟨node, hnode, found⟩
    rw [Track.filterMap_logRecord?, List.mem_filterMap] at inside
    obtain ⟨m, hm, shows⟩ := inside
    have first := (announced_draw drawn _ opened m hm).filterMap Mark.logRecord?
    rwa [List.filterMap_cons_some (rfl : Mark.logRecord? (path, .opened name) = _),
      List.filterMap_cons_some shows] at first
  · intro paths listed
    obtain ⟨-, rfl⟩ := result_expandablePaths_eq_ok.mp listed
    rw [diagram_of_openedKeys fun _ hkey => PathKey.mem_sorted.mpr hkey]
    rfl

set_option maxRecDepth 4000 in
/-- A loop is drawn before what stands in front of it, and opened. -/
theorem records_diagram_compacted :
    let g : Grammar := ⟨1, [
      ⟨2, ⟨3, "A"⟩, ⟨4, [⟨5, [.identifier 6 ⟨7, "B"⟩, .identifier 8 ⟨9, "C"⟩,
        .bracketed 10 .repetition ⟨11, [⟨12, [.identifier 13 ⟨14, "C"⟩]⟩]⟩]⟩]⟩⟩,
      ⟨15, ⟨16, "B"⟩, ⟨17, [⟨18, [.literal 19 ⟨20, "x"⟩]⟩]⟩⟩,
      ⟨21, ⟨22, "C"⟩, ⟨23, [⟨24, [.identifier 25 ⟨26, "B"⟩]⟩]⟩⟩]⟩
    let front : PathKey := ⟨[2, 4, 5, 6, 7]⟩
    let loop : PathKey := ⟨[2, 4, 5, 10, 11, 12, 13, 14]⟩
    let inner : PathKey := ⟨[2, 4, 5, 10, 11, 12, 13, 14, 23, 24, 25, 26]⟩
    let d : Diagram := ⟨"A", .sequence [.sequence [.nonTerminal "B" front,
      .oneOrMore (.group "C" loop (.nonTerminal "B" inner)) none]]⟩
    let records := ((g.diagram none [loop]).events.map DrawingEvent.logRecord).filter
      (·.level = .trace)
    ofString? "A = B C \x7bC\x7d . B = \"x\" . C = B ." = .ok g ∧
      (g.diagram none [loop]).result = .ok d ∧
      (g.expandablePaths none).result = .ok [loop, inner, front] ∧
      records.Perm (d.root.nodes.filterMap Track.logRecord?) ∧ records.Nodup ∧
      (∀ name path item, .group name path item ∈ d.root.nodes → ∀ node ∈ item.nodes,
        ∀ record, node.logRecord? = some record →
          [(DrawingEvent.expanding name path).logRecord, record].Sublist records) ∧
      (g.expandablePaths none).events = (g.diagram none [loop, inner, front]).events := by
  intro g front loop inner d records
  have read : ofString? "A = B C \x7bC\x7d . B = \"x\" . C = B ." = .ok g := by cbv
  have drawn : (g.diagram none [loop]).result = .ok d := by
    rw [diagram_eq]
    cbv
  have listed : (g.expandablePaths none).result = .ok [loop, inner, front] := by
    have opened : (g.draw none fun _ => true).openedKeys = [loop, inner, front] := by cbv
    rw [result_expandablePaths_eq_ok, opened, PathKey.sorted_eq,
      List.mergeSort_of_pairwise (by decide +kernel)]
    exact ⟨⟨_, by cbv⟩, by decide +kernel⟩
  obtain ⟨mirrored, once, first⟩ := (records_diagram read none).1 _ d drawn
  exact ⟨read, drawn, listed, mirrored, once, first, (records_diagram read none).2 _ listed⟩

end Grammar

end Railroad
