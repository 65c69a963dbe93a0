import Railroad.Proofs.Opening

/-!
Closing references in a diagram that is drawn.

* `Track.collapse`: the track with some of its groups closed. Nothing else changes.
* `Layout.collapse_track`: closing groups goes through the layout to its references.
* `Grammar.draw_collapse`: to draw with less selected is to close what is no longer selected.
* `Grammar.diagram_collapse`: how the diagrams for different keys are related.
-/

namespace Railroad

namespace Track

theorem mem_groupPaths_of_mem_children {track child : Track} (h : child ∈ track.children)
    {key : PathKey} (hkey : key ∈ child.groupPaths) : key ∈ track.groupPaths := by
  unfold groupPaths at hkey ⊢
  rw [nodes_eq, List.filterMap_cons, List.filterMap_flatMap]
  have inside : key ∈ track.children.flatMap fun child => child.groupPaths :=
    List.mem_flatMap.mpr ⟨child, h, hkey⟩
  split
  · exact inside
  · exact List.mem_cons_of_mem _ inside

/-! ### Closing groups -/

mutual

/-- The track with the groups of these keys closed: each becomes a station with the same name and
key. -/
def collapse (closed : PathKey → Bool) : Track → Track
  | .sequence items => .sequence (collapseAll closed items)
  | .choice index options => .choice index (collapseAll closed options)
  | .optional item => .optional (item.collapse closed)
  | .zeroOrMore item => .zeroOrMore (item.collapse closed)
  | .oneOrMore item none => .oneOrMore (item.collapse closed) none
  | .oneOrMore item (some back) => .oneOrMore (item.collapse closed) (some (back.collapse closed))
  | .group name path item =>
    if closed path then .nonTerminal name path else .group name path (item.collapse closed)
  | .terminal text path => .terminal text path
  | .nonTerminal name path => .nonTerminal name path
  | .skip => .skip

def collapseAll (closed : PathKey → Bool) : List Track → List Track
  | [] => []
  | track :: rest => track.collapse closed :: collapseAll closed rest

end

variable {closed : PathKey → Bool}

theorem collapseAll_eq_map (tracks : List Track) :
    collapseAll closed tracks = tracks.map (collapse closed) := by
  induction tracks with
  | nil => rfl
  | cons track rest ih => rw [collapseAll, ih, List.map_cons]

theorem collapse_joined (items : List Track) :
    (joined items).collapse closed = joined (items.map (collapse closed)) := by
  rcases items with _ | ⟨item, _ | ⟨next, rest⟩⟩
  · rfl
  · rfl
  · simp [joined, collapse, collapseAll_eq_map]

/-- Nothing changes if none of the keys is that of a group. -/
theorem collapse_of_notMem (track : Track) (h : ∀ key ∈ track.groupPaths, closed key = false) :
    track.collapse closed = track := by
  induction track using Track.induction with
  | h track ih =>
    have inside : ∀ child ∈ track.children, child.collapse closed = child := by
      intro child hchild
      apply ih child hchild
      intro key hkey
      exact h key (mem_groupPaths_of_mem_children hchild hkey)
    have all : ∀ items : List Track, (∀ item ∈ items, item.collapse closed = item) →
        collapseAll closed items = items := by
      intro items each
      rw [collapseAll_eq_map, List.map_congr_left each, List.map_id']
    cases track with
    | sequence items => rw [collapse, all items inside]
    | choice index options => rw [collapse, all options inside]
    | optional item | zeroOrMore item => rw [collapse, inside item (List.mem_singleton_self item)]
    | oneOrMore item back =>
      have first := inside item (List.mem_cons_self ..)
      cases back with
      | none => rw [collapse, first]
      | some back => rw [collapse, first, inside back (by simp [children])]
    | group name path item =>
      have stays : closed path = false := h path (by simp [groupPaths_eq, Mark.openedKey?])
      rw [collapse, if_neg (by simp [stays]), inside item (List.mem_singleton_self item)]
    | terminal text path | nonTerminal name path | skip => rfl

end Track

/-- Closing groups on a track that is built closes them on the tracks it is built from. -/
theorem Layout.collapse_build {closed : PathKey → Bool} (l : Layout) (tracks : List Track) :
    (l.build tracks).collapse closed = l.build (tracks.map (Track.collapse closed)) := by
  cases l with
  | sequence items => simp [build, Track.collapse, Track.collapseAll_eq_map]
  | choice items => simp [build, Track.collapse, Track.collapseAll_eq_map]
  | joined items => rw [build, build, Track.collapse_joined]
  | returned items => rw [build, build, Track.collapse_joined, List.map_reverse]
  | optional item | zeroOrMore item | oneOrMore item | noted note item =>
    rcases tracks with _ | ⟨track, _ | ⟨next, rest⟩⟩ <;> rfl
  | loop item back =>
    rcases tracks with _ | ⟨track, _ | ⟨wayBack, _ | ⟨next, rest⟩⟩⟩ <;> rfl
  | compacted round before after =>
    cases tracks with
    | nil => rfl
    | cons round rest => simp [build, Track.collapse_joined, List.map_take, List.map_drop]
  | terminal text path | reference name path | skip => rfl

/-- **Closing groups on the track of a layout closes them on the tracks of its references.** -/
theorem Layout.collapse_track {closed : PathKey → Bool} (shown : String → PathKey → Track)
    (l : Layout) : (l.track shown).collapse closed =
      l.track fun name path => (shown name path).collapse closed := by
  induction l using Layout.induction with
  | reference name path => rfl
  | node l node ih =>
    rw [track_node node, track_node node, collapse_build, List.map_map]
    exact congrArg l.build (List.map_congr_left ih)

/-- A layout is drawn with groups closed if its references are. -/
theorem Layout.result_draw_collapse {closed : PathKey → Bool}
    {refer refer' : String → PathKey → Drawing Track} {l : Layout} {t : Track}
    (each : ∀ r ∈ l.references, ∀ track, (refer r.1 r.2).result = .ok track →
      (refer' r.1 r.2).result = .ok (track.collapse closed))
    (h : (l.draw refer).result = .ok t) : (l.draw refer').result = .ok (t.collapse closed) := by
  obtain ⟨shown, drawn, rfl⟩ := exists_track_of_draw h
  rw [collapse_track]
  exact result_draw l fun r hr => each r hr _ (drawn r hr)

/-! ### Drawing with less selected -/

namespace Grammar

section Selected

variable {g : Grammar} {selected selected' closed : PathKey → Bool} {start : Option String}

/-- A reference is drawn with groups closed if they are no longer selected. -/
theorem drawReference_collapse (fewer : ∀ key, selected' key = true → selected key = true)
    (unselected : ∀ key, selected key = true → closed key = !selected' key)
    {name : String} {path : PathKey} {t : Track}
    (h : (g.drawReference selected maxDepth name path).result = .ok t) :
    (g.drawReference selected' maxDepth name path).result = .ok (t.collapse closed) := by
  induction path using PathKey.depth_induction generalizing name t with
  | h path ih =>
    rcases result_drawReference_eq_ok.mp h with
      ⟨opened, p, inner, found, body, rfl⟩ | ⟨stays, rfl⟩
    · have decided := unselected path opened.2
      apply result_drawReference_eq_ok.mpr
      by_cases chosen : selected' path = true
      · refine .inl ⟨⟨opened.1, chosen⟩, p, inner.collapse closed, found, ?_, ?_⟩
        · refine Layout.result_draw_collapse (fun r hr track drawn => ?_) body
          exact ih opened.1 r.2 (Expression.depth_lt_of_mem_references hr) drawn
        · rw [Track.collapse, if_neg (by simp [decided, chosen])]
      · refine .inr ⟨fun both => chosen both.2, ?_⟩
        rw [Track.collapse, if_pos (by simp [decided, chosen])]
    · apply result_drawReference_eq_ok.mpr
      refine .inr ⟨?_, rfl⟩
      rintro ⟨short, chosen⟩
      exact stays ⟨short, fewer path chosen⟩

/-- **To draw with less selected is to close what is no longer selected.** -/
theorem draw_collapse (fewer : ∀ key, selected' key = true → selected key = true)
    (unselected : ∀ key, selected key = true → closed key = !selected' key) {d : Diagram}
    (h : (g.draw start selected).result = .ok d) :
    (g.draw start selected').result = .ok ⟨d.start, d.root.collapse closed⟩ := by
  obtain ⟨p, track, started, body, rfl⟩ := result_draw_eq_ok.mp h
  refine result_draw_eq_ok.mpr ⟨p, track.collapse closed, started, ?_, ?_⟩
  · exact Layout.result_draw_collapse (fun _ _ _ => drawReference_collapse fewer unselected) body
  · simp only [Track.collapse, Track.collapseAll]

/-- With less selected, there is a diagram all the same. -/
theorem succeeds_draw_of_fewer (fewer : ∀ key, selected' key = true → selected key = true)
    (h : (g.draw start selected).Succeeds) : (g.draw start selected').Succeeds := by
  obtain ⟨d, drawn⟩ := h
  exact ⟨_, draw_collapse fewer (fun _ _ => rfl) drawn⟩

/-- What is opened is selected and not too deep. -/
theorem selected_of_mem_groupPaths {d : Diagram} (h : (g.draw start selected).result = .ok d)
    {key : PathKey} (hkey : key ∈ d.root.groupPaths) :
    key.depth < maxDepth ∧ selected key = true := by
  obtain ⟨name, hm⟩ := Track.mem_groupPaths_iff.mp hkey
  exact (opened_iff_of_draw h hm).mp ⟨name, rfl⟩

/-- What is opened stays open if more is selected. -/
theorem groupPaths_mono (fewer : ∀ key, selected' key = true → selected key = true)
    {d d' : Diagram} (h : (g.draw start selected).result = .ok d)
    (h' : (g.draw start selected').result = .ok d') {key : PathKey}
    (hkey : key ∈ d'.root.groupPaths) : key ∈ d.root.groupPaths := by
  obtain ⟨p, started, marks⟩ := mem_marks_draw_iff h
  obtain ⟨p', started', marks'⟩ := mem_marks_draw_iff h'
  cases started.symm.trans started'
  obtain ⟨name, hm⟩ := Track.mem_groupPaths_iff.mp hkey
  have leads := (marks' _).mp (List.mem_of_mem_filter hm)
  refine Track.mem_groupPaths_iff.mpr ⟨name, List.mem_filter.mpr ⟨?_, rfl⟩⟩
  exact (marks _).mpr (leads.opened_mono fewer)

/-- A diagram depends on what is selected only by what is opened in it. -/
theorem draw_groupPaths {d : Diagram} (h : (g.draw start selected).result = .ok d) :
    g.draw start (fun key => decide (key ∈ d.root.groupPaths)) = g.draw start selected := by
  apply draw_of_openedKeys
  · intro key hkey
    exact (selected_of_mem_groupPaths h (by simpa using hkey)).2
  · intro key hkey
    simpa using (mem_openedKeys_iff h).mp hkey

/-- No two references of a diagram have one key. -/
theorem pairwise_references (numbered : ∀ p ∈ g.productions, p.body.Numbered) {d : Diagram}
    (h : (g.draw start selected).result = .ok d) :
    d.root.references.Pairwise fun m m' => m.1 ≠ m'.1 := by
  obtain ⟨p, started, rfl⟩ := draw_eq_ok h
  have rooted := (Parts.rooted_layout (rooted_shown numbered selected maxDepth)).1 p.body
    (numbered p (mem_of_startProduction started)) [p.id]
  rw [Track.references_sequence, List.flatMap_singleton]
  exact (List.pairwise_map.mp rooted.nodup).filter _

/-- No two groups of a diagram have one key. -/
theorem nodup_groupPaths (numbered : ∀ p ∈ g.productions, p.body.Numbered) {d : Diagram}
    (h : (g.draw start selected).result = .ok d) : d.root.groupPaths.Nodup := by
  rw [Track.groupPaths_eq]
  refine (pairwise_references numbered h).filterMap _ ?_
  intro mark mark' different key opened key' opened'
  obtain ⟨name, rfl⟩ := Mark.openedKey?_eq_some.mp opened
  obtain ⟨name', rfl⟩ := Mark.openedKey?_eq_some.mp opened'
  exact different

end Selected

/-- **Opening or closing one reference changes nothing else.** Without one of the keys, the diagram
of an accepted text is the same with the group of that key closed, if there is one. So what is
opened is all that matters of the keys, and with fewer keys the diagram is the one with more, with
the others closed. -/
theorem diagram_collapse {text : String} {g : Grammar} (read : Grammar.ofString? text = .ok g)
    {start : Option String} {expanded : List PathKey} {d : Diagram}
    (drawn : (g.diagram start expanded).result = .ok d) :
    (∀ key, (g.diagram start (expanded.filter (· ≠ key))).result =
        .ok ⟨d.start, d.root.collapse (· = key)⟩) ∧
      (∀ key, key ∉ d.root.groupPaths → d.root.collapse (· = key) = d.root) ∧
      d.root.groupPaths.Nodup ∧
      (∀ key ∈ d.root.groupPaths, key ∈ expanded) ∧
      g.diagram start d.root.groupPaths = g.diagram start expanded ∧
      ∀ more d', (∀ key ∈ expanded, key ∈ more) → (g.diagram start more).result = .ok d' →
        (∀ key ∈ d.root.groupPaths, key ∈ d'.root.groupPaths) ∧
          d = ⟨d'.start, d'.root.collapse fun key => key ∈ more ∧ key ∉ expanded⟩ := by
  obtain ⟨tokens, last, scanned, tree⟩ := ofString?_eq_ok_iff.mp read
  simp only [diagram_eq] at drawn ⊢
  refine ⟨fun key => ?_, fun key absent => ?_, ?_, fun key hkey => ?_, draw_groupPaths drawn, ?_⟩
  · apply draw_collapse ?_ ?_ drawn
    · intro key' hkey'
      simp only [List.mem_filter, decide_eq_true_eq] at hkey' ⊢
      exact hkey'.1
    · intro key' hkey'
      simp only [decide_eq_true_eq] at hkey'
      simp [List.mem_filter, hkey']
  · apply Track.collapse_of_notMem
    intro key' hkey'
    simp only [decide_eq_false_iff_not]
    rintro rfl
    exact absent hkey'
  · exact nodup_groupPaths (fun q hq => numbered_body tree.numbered hq) drawn
  · simpa using (selected_of_mem_groupPaths drawn hkey).2
  · intro more d' covers drawn'
    have fewer : ∀ key, decide (key ∈ expanded) = true → decide (key ∈ more) = true := by
      simpa using covers
    refine ⟨fun key => groupPaths_mono fewer drawn' drawn, ?_⟩
    have unselected : ∀ key, decide (key ∈ more) = true →
        decide (key ∈ more ∧ key ∉ expanded) = !decide (key ∈ expanded) := by
      intro key hkey
      simp only [decide_eq_true_eq] at hkey
      simp [hkey]
    exact Except.ok.inj (drawn.symm.trans (draw_collapse fewer unselected drawn'))

set_option maxRecDepth 4000 in
/-- A production that refers to itself, opened twice. -/
theorem diagram_collapse_nested :
    let g : Grammar := ⟨1, [⟨2, ⟨3, "A"⟩, ⟨4, [⟨5, [.identifier 6 ⟨7, "A"⟩]⟩]⟩⟩]⟩
    let outer : PathKey := ⟨[2, 4, 5, 6, 7]⟩
    let inner : PathKey := ⟨[2, 4, 5, 6, 7, 4, 5, 6, 7]⟩
    let last : PathKey := ⟨[2, 4, 5, 6, 7, 4, 5, 6, 7, 4, 5, 6, 7]⟩
    let d : Diagram :=
      ⟨"A", .sequence [.group "A" outer (.group "A" inner (.nonTerminal "A" last))]⟩
    Grammar.ofString? "A = A ." = .ok g ∧ (g.diagram none [inner, outer]).result = .ok d ∧
      (∀ key, (g.diagram none ([inner, outer].filter (· ≠ key))).result =
          .ok ⟨d.start, d.root.collapse (· = key)⟩) ∧
        (∀ key, key ∉ d.root.groupPaths → d.root.collapse (· = key) = d.root) ∧
        d.root.groupPaths.Nodup ∧
        (∀ key ∈ d.root.groupPaths, key ∈ [inner, outer]) ∧
        g.diagram none d.root.groupPaths = g.diagram none [inner, outer] ∧
        ∀ more d', (∀ key ∈ [inner, outer], key ∈ more) → (g.diagram none more).result = .ok d' →
          (∀ key ∈ d.root.groupPaths, key ∈ d'.root.groupPaths) ∧
            d = ⟨d'.start, d'.root.collapse fun key => key ∈ more ∧ key ∉ [inner, outer]⟩ := by
  intro g outer inner last d
  have read : Grammar.ofString? "A = A ." = .ok g := by cbv
  have drawn : (g.diagram none [inner, outer]).result = .ok d := by
    rw [diagram_eq]
    cbv
  exact ⟨read, drawn, diagram_collapse read drawn⟩

end Grammar

end Railroad
