import Railroad.Proofs.Expandable
import Railroad.Proofs.Parser.Correctness

/-!
Drawing ends, and keys are not long.

* `Place.Within`: a chain has enough ids left for the way down from its place. Every step keeps this
  (`Place.Step.within`), since a production fits in the nesting limit and is opened only behind a
  short key.
* `Place.Within.acc`, `Place.Within.of_chain`: chains end, and no chain is long.
* `Grammar.chain_of_mem_events`: chains lead to all references of which something is recorded.
* `Grammar.depth_bounds`: what this means for a grammar that is read from a text.
-/

namespace Railroad

/-- The most ids that a key has: those of the longest key that is opened, three for each expression
inside another and one for the name or literal at the end. -/
def maxKeyDepth : Nat := maxDepth - 1 + 3 * (maxNesting + 1) + 1

/-- The chain has enough ids left for the way down from its place, within the production. -/
def Place.Within : List NodeId × Place → Prop
  | (ids, .expression e _) => ∃ n, e.Fits n ∧ ids.length + (3 * n + 3) ≤ maxKeyDepth
  | (ids, .term t _) => ∃ n, t.Fits n ∧ ids.length + (3 * n + 2) ≤ maxKeyDepth
  | (ids, .factor f _) => ∃ n, f.Fits n ∧ ids.length + (3 * n + 1) ≤ maxKeyDepth
  | (ids, .reference _) | (ids, .terminal _) => ids.length ≤ maxKeyDepth

section Chains

variable {g : Grammar} {selected : PathKey → Bool}

/-- **A step leaves enough ids.** -/
theorem Place.Step.within (fits : g.Fits maxNesting) {here next : List NodeId × Place}
    (step : Place.Step g selected here next) (h : Within here) : Within next := by
  cases step with
  | term ht =>
    obtain ⟨n, fit, room⟩ := h
    refine ⟨n, (Expression.fits_iff.mp fit).2 _ ht, ?_⟩
    rw [List.length_append, List.length_singleton]
    omega
  | factor found _ =>
    obtain ⟨n, fit, room⟩ := h
    refine ⟨n, (Term.fits_iff.mp fit).2 _ (List.mem_of_getElem? found), ?_⟩
    rw [List.length_append, List.length_singleton]
    omega
  | body =>
    obtain ⟨n, fit, room⟩ := h
    obtain _ | _ | fit := fit
    refine ⟨_, fit, ?_⟩
    rw [List.length_append, List.length_singleton]
    omega
  | literal | name _ | reference _ =>
    obtain ⟨n, -, room⟩ := h
    rw [Within, List.length_append, List.length_singleton]
    omega
  | opened opens =>
    -- The key is short, so there is room for a whole production.
    obtain ⟨short, -, found⟩ := opens
    refine ⟨maxNesting, fits _ (List.mem_of_find?_eq_some found), ?_⟩
    simp only [PathKey.depth, maxDepth] at short
    simp only [List.length_append, List.length_singleton, maxKeyDepth, maxDepth]
    omega

/-- The start of a chain leaves enough ids. -/
theorem Place.Within.start (fits : g.Fits maxNesting) {p : Production} (hp : p ∈ g.productions) :
    Within ([p.id, p.body.id], .expression p.body .whole) := by
  refine ⟨maxNesting, fits p hp, ?_⟩
  simp only [List.length_cons, List.length_nil, maxKeyDepth, maxDepth]
  omega

/-- Chains keep having enough ids. -/
theorem Place.Within.of_chain (fits : g.Fits maxNesting) {here there : List NodeId × Place}
    (h : Within here) (chain : Relation.ReflTransGen (Place.Step g selected) here there) :
    Within there := by
  induction chain with
  | refl => exact h
  | tail _ step ih => exact step.within fits ih

theorem Place.Within.length_le {here : List NodeId × Place} (h : Within here) :
    here.1.length ≤ maxKeyDepth := by
  obtain ⟨ids, place⟩ := here
  cases place with
  | expression e manner | term t manner | factor f manner =>
    obtain ⟨n, -, room⟩ := h
    exact Nat.le_trans (Nat.le_add_right _ _) room
  | reference name | terminal text => exact h

/-- **Chains end.** Each step takes one of the ids that are left. -/
theorem Place.Within.acc (fits : g.Fits maxNesting) {here : List NodeId × Place} (h : Within here) :
    Acc (fun next here => Place.Step g selected here next) here := by
  constructor
  intro next step
  have within := step.within fits h
  have bound := within.length_le
  have longer : next.1.length = here.1.length + 1 := by
    obtain ⟨id, ids⟩ := step.ids_eq
    rw [ids, List.length_append, List.length_singleton]
  exact acc fits within
termination_by maxKeyDepth - here.1.length

end Chains

/-! ### What is recorded -/

namespace Grammar

section Selected

variable {g : Grammar} {selected : PathKey → Bool} {event : DrawingEvent} {m : PathKey × Mark}

/-- Whatever is recorded while a reference is drawn is recorded where chains from it lead. -/
theorem chain_of_mem_events_drawReference (shows : event.reference? = some m) {name : String}
    {path : PathKey} (h : event ∈ (g.drawReference selected maxDepth name path).events) :
    ∃ name', Relation.ReflTransGen (Place.Step g selected) (path.ids, .reference name)
      (m.1.ids, .reference name') := by
  induction path using PathKey.depth_induction generalizing name with
  | h path ih =>
    rw [drawReference_eq] at h
    split at h
    · rename_i opened
      rcases Traced.mem_events_bind h with here | ⟨_, -, h⟩
      · obtain rfl := List.mem_singleton.mp here
        cases shows
        exact ⟨name, .refl⟩
      rcases Traced.mem_events_bind h with never | ⟨p, found, h⟩
      · cases never
      obtain ⟨r, hr, recorded⟩ := Layout.mem_events_draw shows _ h
      obtain ⟨name', inside⟩ := ih opened.1 r.2 (Expression.depth_lt_of_mem_references hr) recorded
      have opens : g.Opens selected path name p :=
        ⟨opened.1, opened.2, mapError_lookup_eq_ok.mp found⟩
      have down := Expression.chain_of_mem_references g selected hr
      exact ⟨name', .head (.opened opens) (down.trans inside)⟩
    · rcases Traced.mem_events_bind h with here | ⟨_, -, never⟩
      · obtain rfl := List.mem_singleton.mp here
        cases shows
        exact ⟨name, .refl⟩
      · cases never

/-- **Whatever is recorded of references is recorded of those to which chains lead**, also if there
is no diagram in the end. -/
theorem chain_of_mem_events (shows : event.reference? = some m) {start : Option String}
    (h : event ∈ (g.draw start selected).events) :
    ∃ p ∈ g.productions, ∃ name, g.Chain selected p m.1.ids (.reference name) := by
  rcases Traced.mem_events_bind h with never | ⟨p, started, h⟩
  · cases never
  obtain ⟨r, hr, recorded⟩ := Layout.mem_events_draw shows _ h
  obtain ⟨name, inside⟩ := chain_of_mem_events_drawReference shows recorded
  have down := Expression.chain_of_mem_references g selected hr
  exact ⟨p, mem_of_startProduction started, name, down.trans inside⟩

theorem length_le_of_chain (fits : g.Fits maxNesting) {p : Production} (hp : p ∈ g.productions)
    {ids : List NodeId} {place : Place} (chain : g.Chain selected p ids place) :
    ids.length ≤ maxKeyDepth :=
  ((Place.Within.start fits hp).of_chain fits chain).length_le

theorem depth_le_of_mem_events (fits : g.Fits maxNesting) (shows : event.reference? = some m)
    {start : Option String} (h : event ∈ (g.draw start selected).events) :
    m.1.depth ≤ maxKeyDepth := by
  obtain ⟨p, hp, name, chain⟩ := chain_of_mem_events shows h
  exact length_le_of_chain fits hp chain

/-- The keys of a diagram are those of chains, and so not long. -/
theorem depth_le_of_mem_nodes (fits : g.Fits maxNesting) {start : Option String} {d : Diagram}
    (drawn : (g.draw start selected).result = .ok d) {key : PathKey}
    (hkey : key ∈ d.root.nodes.filterMap Track.path?) : key.depth ≤ maxKeyDepth := by
  obtain ⟨p, started, marks⟩ := mem_marks_draw_iff drawn
  rw [← Track.marks_keys] at hkey
  obtain ⟨mark, marked, rfl⟩ := List.mem_map.mp hkey
  obtain ⟨place, chain, -⟩ := (marks mark).mp marked
  exact length_le_of_chain fits (mem_of_startProduction started) chain

end Selected

/-- **Drawing ends, and keys are not long**, however the productions of an accepted text refer to
each other and whatever is selected. Chains end, and they have at most 801 ids. References are drawn
by a recursion with one solution. What is recorded and what is shown has keys of at most 801 ids,
and keys that are opened or can be opened have at most 29. -/
theorem depth_bounds {text : String} {g : Grammar} (read : Grammar.ofString? text = .ok g) :
    (∀ selected, ∀ p ∈ g.productions,
        Acc (fun next here => Place.Step g selected here next)
          ([p.id, p.body.id], .expression p.body .whole) ∧
        ∀ ids place, g.Chain selected p ids place → ids.length ≤ 801) ∧
      (∀ selected (refer : String → PathKey → Drawing Track),
        (∀ name path, refer name path =
          if path.depth < maxDepth ∧ selected path then g.drawOpened refer name path
          else drawClosed name path) ↔ refer = g.drawReference selected maxDepth) ∧
      (∀ selected start name path, .expanding name path ∈ (g.draw start selected).events ∨
        .collapsed name path ∈ (g.draw start selected).events → path.depth ≤ 801) ∧
      (∀ start expanded d, (g.diagram start expanded).result = .ok d →
        (∀ key ∈ d.root.groupPaths, key.depth ≤ 29) ∧
          ∀ key ∈ d.root.nodes.filterMap Track.path?, key.depth ≤ 801) ∧
      ∀ start paths, (g.expandablePaths start).result = .ok paths →
        ∀ key ∈ paths, key.depth ≤ 29 := by
  obtain ⟨tokens, last, scanned, tree⟩ := ofString?_eq_ok_iff.mp read
  have fits := tree.fits
  refine ⟨fun selected p hp => ?_, fun _ _ => eq_drawReference_iff, ?_, ?_, ?_⟩
  · exact ⟨(Place.Within.start fits hp).acc fits, fun ids place => length_le_of_chain fits hp⟩
  · rintro selected start name path (opened | closed)
    · exact depth_le_of_mem_events fits rfl opened
    · exact depth_le_of_mem_events fits rfl closed
  · intro start expanded d drawn
    rw [diagram_eq] at drawn
    refine ⟨fun key hkey => ?_, fun key => depth_le_of_mem_nodes fits drawn⟩
    exact Nat.le_of_lt_succ (selected_of_mem_groupPaths drawn hkey).1
  · intro start paths listed key hkey
    obtain ⟨⟨d, drawn⟩, rfl⟩ := result_expandablePaths_eq_ok.mp listed
    have opened := (mem_openedKeys_iff drawn).mp (PathKey.mem_sorted.mp hkey)
    exact Nat.le_of_lt_succ (selected_of_mem_groupPaths drawn opened).1

set_option maxRecDepth 4000 in
/-- A production that begins and ends with itself. -/
theorem depth_bounds_recursive :
    let g : Grammar := ⟨1, [⟨2, ⟨3, "A"⟩, ⟨4, [⟨5, [.identifier 6 ⟨7, "A"⟩,
      .identifier 8 ⟨9, "A"⟩]⟩]⟩⟩]⟩
    Grammar.ofString? "A = A A ." = .ok g ∧
      (∀ selected, ∀ p ∈ g.productions,
          Acc (fun next here => Place.Step g selected here next)
            ([p.id, p.body.id], .expression p.body .whole) ∧
          ∀ ids place, g.Chain selected p ids place → ids.length ≤ 801) ∧
        (∀ selected (refer : String → PathKey → Drawing Track),
          (∀ name path, refer name path =
            if path.depth < maxDepth ∧ selected path then g.drawOpened refer name path
            else drawClosed name path) ↔ refer = g.drawReference selected maxDepth) ∧
        (∀ selected start name path, .expanding name path ∈ (g.draw start selected).events ∨
          .collapsed name path ∈ (g.draw start selected).events → path.depth ≤ 801) ∧
        (∀ start expanded d, (g.diagram start expanded).result = .ok d →
          (∀ key ∈ d.root.groupPaths, key.depth ≤ 29) ∧
            ∀ key ∈ d.root.nodes.filterMap Track.path?, key.depth ≤ 801) ∧
        ∀ start paths, (g.expandablePaths start).result = .ok paths →
          ∀ key ∈ paths, key.depth ≤ 29 := by
  intro g
  have read : Grammar.ofString? "A = A A ." = .ok g := by cbv
  exact ⟨read, depth_bounds read⟩

end Grammar

end Railroad
