import Railroad.Proofs.Layouts

/-!
What is drawn, without the record of drawing it.

* `Layout.track`: the track of a layout, given those of its references. `Layout.result_draw`: this
  is what the layout is drawn as, if its references are. `Layout.track_of_draw`: it is drawn as
  nothing else.
* `Layout.track_congr`: two tracks of a layout agree if they agree on references.
* `Grammar.shown`: the track of a reference, opened where it is selected and there is room.
* `Grammar.draw_eq_ok`: a diagram is the track of the layout of its start.
-/

namespace Railroad

/-! ### Tracks, part by part -/

namespace Track

theorem sizeOf_lt_of_mem_children {track child : Track} (h : child ∈ track.children) :
    sizeOf child < sizeOf track := by
  cases track with
  | sequence items | choice index items =>
    have smaller : sizeOf child < sizeOf items := List.sizeOf_lt_of_mem h
    simp only [sequence.sizeOf_spec, choice.sizeOf_spec]
    omega
  | optional item | zeroOrMore item | group name path item =>
    obtain rfl := List.mem_singleton.mp h
    simp only [optional.sizeOf_spec, zeroOrMore.sizeOf_spec, group.sizeOf_spec]
    omega
  | oneOrMore item back =>
    rw [oneOrMore.sizeOf_spec]
    rcases List.mem_cons.mp h with rfl | h
    · omega
    · obtain rfl := Option.mem_toList.mp h
      rw [Option.some.sizeOf_spec]
      omega
  | terminal text path | nonTerminal name path | skip => cases h

/-- **Induction on tracks.** A track has the property if the tracks right inside it do. -/
theorem induction {P : Track → Prop} (h : ∀ track, (∀ child ∈ track.children, P child) → P track)
    (track : Track) : P track := by
  refine h track fun child hchild => ?_
  have smaller := sizeOf_lt_of_mem_children hchild
  exact induction h child
termination_by sizeOf track

/-- The property holds of the track and of all tracks inside it. -/
def All (P : Track → Prop) (track : Track) : Prop :=
  ∀ node ∈ track.nodes, P node

/-- It holds of a whole track if it holds of the track itself and of the whole tracks inside. -/
theorem all_iff {P : Track → Prop} {track : Track} :
    track.All P ↔ P track ∧ ∀ child ∈ track.children, child.All P := by
  unfold All
  rw [nodes_eq, List.forall_mem_cons]
  refine and_congr_right' ⟨?_, ?_⟩
  · intro h child hchild node hnode
    exact h node (List.mem_flatMap.mpr ⟨child, hchild, hnode⟩)
  · intro h node hnode
    obtain ⟨child, hchild, hnode⟩ := List.mem_flatMap.mp hnode
    exact h child hchild node hnode

theorem all_of_leaf {P : Track → Prop} {track : Track} (leaf : track.children = [])
    (h : P track) : track.All P :=
  all_iff.mpr ⟨h, by simp [leaf]⟩

/-- Tracks that are joined have a property if each of them has it and any sequence does. -/
theorem all_joined {P : Track → Prop} (sequence : ∀ items, P (.sequence items))
    {items : List Track} (each : ∀ item ∈ items, item.All P) : (joined items).All P := by
  unfold joined
  split
  · exact each _ (List.mem_singleton_self _)
  · exact all_iff.mpr ⟨sequence _, each⟩

end Track

/-! ### Layouts -/

namespace Layout

mutual

/-- The track of a layout whose references have the tracks `refer`. -/
def track (refer : String → PathKey → Track) : Layout → Track
  | .terminal text path => .terminal text path
  | .reference name path => refer name path
  | .skip => .skip
  | .sequence items => .sequence (trackAll refer items)
  | .joined items => .joined (trackAll refer items)
  | .returned items => .joined (trackAll refer items).reverse
  | .choice options => .choice (options.length / 2) (trackAll refer options)
  | .optional item => .optional (item.track refer)
  | .zeroOrMore item => .zeroOrMore (item.track refer)
  | .oneOrMore item => .oneOrMore (item.track refer) none
  | .loop item back => .oneOrMore (item.track refer) (some (back.track refer))
  | .compacted round before after =>
    .joined (trackAll refer before ++ round.track refer :: trackAll refer after)
  | .noted _ item => item.track refer

def trackAll (refer : String → PathKey → Track) : List Layout → List Track
  | [] => []
  | item :: rest => item.track refer :: trackAll refer rest

end

theorem trackAll_eq_map (refer : String → PathKey → Track) (items : List Layout) :
    trackAll refer items = items.map (track refer) := by
  induction items with
  | nil => rfl
  | cons item rest ih => simp [trackAll, ih]

/-- The track of a layout that is no reference is built from those of its parts. -/
theorem track_node {shown : String → PathKey → Track} {l : Layout} (h : l.isReference = false) :
    l.track shown = l.build (l.parts.map (track shown)) := by
  cases l with
  | reference name path => cases h
  | compacted round before after =>
    simp [track, build, parts, trackAll_eq_map, List.take_left', List.drop_left']
  | _ => simp [track, build, parts, trackAll_eq_map]

/-- Tracks agree if they agree on references. -/
theorem track_congr {refer refer' : String → PathKey → Track} (l : Layout)
    (each : ∀ r ∈ l.references, refer' r.1 r.2 = refer r.1 r.2) :
    l.track refer' = l.track refer := by
  induction l using Layout.induction with
  | reference name path => exact each (name, path) (by simp [references])
  | node l node ih =>
    have parts : l.parts.map (track refer') = l.parts.map (track refer) :=
      List.map_congr_left fun part hpart => ih part hpart fun r hr =>
        each r (mem_references_of_mem_parts node hpart hr)
    rw [track_node node, track_node node, parts]

section Draw

variable {draw : String → PathKey → Drawing Track} {refer : String → PathKey → Track}

theorem result_drawAll {items : List Layout}
    (each : ∀ item ∈ items, (item.draw draw).result = .ok (item.track refer)) :
    (drawAll draw items).result = .ok (items.map (track refer)) := by
  induction items with
  | nil => rfl
  | cons item rest ih =>
    obtain ⟨first, others⟩ := List.forall_mem_cons.mp each
    exact Traced.result_bind_eq_ok.mpr
      ⟨_, first, Traced.result_map_eq_ok.mpr ⟨_, ih others, rfl⟩⟩

/-- **A layout is drawn as its track**, given what its references are drawn as. -/
theorem result_draw (l : Layout)
    (each : ∀ r ∈ l.references, (draw r.1 r.2).result = .ok (refer r.1 r.2)) :
    (l.draw draw).result = .ok (l.track refer) := by
  induction l using Layout.induction with
  | reference name path => exact each (name, path) (by simp [references])
  | node l node ih =>
    have parts : (drawAll draw l.parts).result = .ok (l.parts.map (track refer)) :=
      result_drawAll fun part hpart => ih part hpart fun r hr =>
        each r (mem_references_of_mem_parts node hpart hr)
    rw [draw_node node, track_node node]
    exact Traced.result_bind_eq_ok.mpr ⟨(), rfl, Traced.result_map_eq_ok.mpr ⟨_, parts, rfl⟩⟩

/-- **Drawing gives the track of the layout**, if it gives anything. -/
theorem track_of_draw (h : ∀ name path t, (draw name path).result = .ok t → refer name path = t)
    (l : Layout) {t : Track} (drawn : (l.draw draw).result = .ok t) : l.track refer = t := by
  have whole : (l.draw draw).result = .ok (l.track refer) := by
    refine result_draw l fun r hr => ?_
    obtain ⟨track, one⟩ := (succeeds_draw_iff l).mp ⟨t, drawn⟩ r hr
    rw [h r.1 r.2 track one, one]
  exact Except.ok.inj (whole.symm.trans drawn)

end Draw

end Layout

/-! ### References -/

namespace Grammar

variable {g : Grammar} {selected : PathKey → Bool}

/-- The track of a reference. It is opened if it is selected, short enough and declared, and at most
`levels` references are opened inside one another. -/
def shown (g : Grammar) (selected : PathKey → Bool) : (levels : Nat) → String → PathKey → Track
  | 0, name, path => .nonTerminal name path
  | levels + 1, name, path =>
    if path.depth < maxDepth ∧ selected path then
      match g.find? name with
      | some production =>
        .group name path ((production.body.layout path.ids).track (g.shown selected levels))
      | none => .nonTerminal name path
    else .nonTerminal name path

theorem mapError_lookup_eq_ok {name : String} {p : Production} :
    (g.lookup name).mapError DiagramError.productionNotFound = .ok p ↔ g.find? name = some p := by
  unfold lookup
  cases g.find? name with
  | none =>
    constructor
    · intro h
      cases h
    · intro h
      cases h
  | some q =>
    constructor
    · intro h
      exact congrArg some (Except.ok.inj h)
    · intro h
      exact congrArg Except.ok (Option.some.inj h)

/-- Drawing a reference gives its track, if it gives anything. -/
theorem shown_of_drawReference {levels : Nat} {name : String} {path : PathKey} {t : Track}
    (h : (g.drawReference selected levels name path).result = .ok t) :
    g.shown selected levels name path = t := by
  induction levels generalizing name path t with
  | zero =>
    obtain ⟨-, -, closed⟩ := Traced.result_bind_eq_ok.mp h
    exact Except.ok.inj closed
  | succ levels ih =>
    unfold drawReference at h
    unfold shown
    split at h
    · rename_i opened
      obtain ⟨-, -, h⟩ := Traced.result_bind_eq_ok.mp h
      obtain ⟨p, found, h⟩ := Traced.result_bind_eq_ok.mp h
      obtain ⟨inner, body, rfl⟩ := Traced.result_map_eq_ok.mp h
      have found := mapError_lookup_eq_ok.mp found
      rw [if_pos opened, found]
      exact congrArg _ (Layout.track_of_draw (fun _ _ _ => ih) _ body)
    · rename_i closed
      obtain ⟨-, -, h⟩ := Traced.result_bind_eq_ok.mp h
      rw [if_neg closed]
      exact Except.ok.inj h

/-- A key is opened if it is on the list, however often and wherever. -/
theorem diagram_eq (g : Grammar) (start : Option String) (expanded : List PathKey) :
    g.diagram start expanded = g.draw start fun key => decide (key ∈ expanded) := by
  have keys : (Std.HashSet.ofList expanded).contains = fun key => decide (key ∈ expanded) := by
    funext key
    rw [Std.HashSet.contains_ofList, List.contains_eq_mem]
  rw [diagram, keys]

/-- The start is a production. -/
theorem mem_of_startProduction {start : Option String} {p : Production}
    (h : g.startProduction start = .ok p) : p ∈ g.productions := by
  unfold startProduction at h
  split at h
  · exact List.mem_of_find?_eq_some (mapError_lookup_eq_ok.mp h)
  · split at h
    · rename_i productions
      cases h
      simp [productions]
    · cases h

/-- **A diagram is the track of the layout of its start.** -/
theorem draw_eq_ok {start : Option String} {d : Diagram}
    (h : (g.draw start selected).result = .ok d) :
    ∃ p, g.startProduction start = .ok p ∧
      d = ⟨p.name.text, .sequence [(p.body.layout [p.id]).track (g.shown selected maxDepth)]⟩ := by
  obtain ⟨p, found, h⟩ := Traced.result_bind_eq_ok.mp h
  obtain ⟨root, whole, rfl⟩ := Traced.result_map_eq_ok.mp h
  obtain ⟨track, body, rfl⟩ := Traced.result_map_eq_ok.mp whole
  refine ⟨p, found, ?_⟩
  rw [Layout.track_of_draw (fun _ _ _ => shown_of_drawReference) _ body]

end Grammar

end Railroad
