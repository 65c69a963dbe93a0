import Railroad.Proofs.Chains

/-!
Which references are opened, and how little of what is selected a drawing reads.

* `Grammar.drawReference_eq`: how a reference is drawn, with no bound on how many are opened inside
  one another but their depth. `Grammar.eq_drawReference_iff`: nothing else is drawn so.
  `PathKey.depth_induction` goes from the references inside to the one around them.
* `Grammar.shown_eq`: the track of a reference, in the same way.
* `Grammar.perm_references_draw`: what is recorded of references is what is shown of them, up to
  order.
* `Grammar.opened_iff_of_draw`: a reference that is shown is opened exactly if it is selected and
  not too deep.
* `Grammar.draw_of_openedKeys`: a drawing depends on the selection only by the keys it opens.
-/

namespace Railroad

/-! ### References, however deep -/

/-- **Induction on how deep a reference is.** A reference that is opened has the property if all
deeper ones do. -/
theorem PathKey.depth_induction {P : PathKey → Prop}
    (h : ∀ path : PathKey, (path.depth < maxDepth →
      ∀ deeper : PathKey, path.depth < deeper.depth → P deeper) → P path) (path : PathKey) :
    P path := by
  refine h path fun short deeper longer => ?_
  exact depth_induction h deeper
termination_by maxDepth - path.depth

namespace Grammar

variable {g : Grammar} {selected selected' : PathKey → Bool}

/-- Draws a reference that is opened, with `refer` for the references inside it. -/
def drawOpened (g : Grammar) (refer : String → PathKey → Drawing Track) (name : String)
    (path : PathKey) : Drawing Track := do
  Traced.emit (.expanding name path)
  let production ← Traced.ofExcept ((g.lookup name).mapError .productionNotFound)
  Track.group name path <$> (production.body.layout path.ids).draw refer

section DrawOpened

variable {refer refer' : String → PathKey → Drawing Track} {name : String} {path : PathKey}

theorem result_drawOpened_eq_ok {t : Track} :
    (g.drawOpened refer name path).result = .ok t ↔
      ∃ p inner, g.find? name = some p ∧ ((p.body.layout path.ids).draw refer).result = .ok inner ∧
        Track.group name path inner = t := by
  unfold drawOpened
  constructor
  · intro drawn
    obtain ⟨-, -, drawn⟩ := Traced.result_bind_eq_ok.mp drawn
    obtain ⟨p, found, drawn⟩ := Traced.result_bind_eq_ok.mp drawn
    obtain ⟨inner, body, whole⟩ := Traced.result_map_eq_ok.mp drawn
    exact ⟨p, inner, mapError_lookup_eq_ok.mp found, body, whole⟩
  · rintro ⟨p, inner, found, body, whole⟩
    refine Traced.result_bind_eq_ok.mpr ⟨(), rfl, Traced.result_bind_eq_ok.mpr ⟨p, ?_, ?_⟩⟩
    · exact mapError_lookup_eq_ok.mpr found
    · exact Traced.result_map_eq_ok.mpr ⟨inner, body, whole⟩

theorem events_drawOpened {p : Production} (found : g.find? name = some p) :
    (g.drawOpened refer name path).events =
      .expanding name path :: ((p.body.layout path.ids).draw refer).events := by
  have declared : (Traced.ofExcept ((g.lookup name).mapError DiagramError.productionNotFound) :
      Drawing Production).result = .ok p := mapError_lookup_eq_ok.mpr found
  rw [drawOpened, Traced.events_bind_ok rfl, Traced.events_bind_ok declared, Traced.events_map]
  rfl

/-- Opened references agree if those inside them do. -/
theorem drawOpened_congr {Good : ∀ {α : Type}, Drawing α → Prop} (good : Hereditary Good)
    (each : ∀ name' (path' : PathKey), path.depth < path'.depth → Good (refer name' path') →
      refer' name' path' = refer name' path')
    (h : Good (g.drawOpened refer name path)) :
    g.drawOpened refer' name path = g.drawOpened refer name path := by
  have rest := good.next h rfl
  unfold drawOpened
  congr 1
  funext _
  refine Traced.bind_congr fun p found => ?_
  have grouped := good.next rest found
  rw [Layout.draw_congr good _ (fun r hr => each r.1 r.2 (Expression.depth_lt_of_mem_references hr))
    (good.of_map grouped)]

end DrawOpened

theorem drawReference_of_closed {name : String} {path : PathKey}
    (closed : ¬ (path.depth < maxDepth ∧ selected path = true)) (levels : Nat) :
    g.drawReference selected levels name path = drawClosed name path := by
  cases levels with
  | zero => rfl
  | succ levels => exact if_neg closed

theorem drawReference_of_opened {name : String} {path : PathKey}
    (opened : path.depth < maxDepth ∧ selected path = true) (levels : Nat) :
    g.drawReference selected (levels + 1) name path =
      g.drawOpened (g.drawReference selected levels) name path :=
  if_pos opened

/-- The number of levels makes no difference, if there are enough. -/
theorem drawReference_levels {levels levels' : Nat} {name : String} {path : PathKey}
    (room : maxDepth ≤ levels + path.depth) (room' : maxDepth ≤ levels' + path.depth) :
    g.drawReference selected levels' name path = g.drawReference selected levels name path := by
  induction levels generalizing levels' name path with
  | zero =>
    have closed : ¬ (path.depth < maxDepth ∧ selected path = true) := by omega
    rw [drawReference_of_closed closed, drawReference_of_closed closed]
  | succ levels ih =>
    by_cases opened : path.depth < maxDepth ∧ selected path = true
    · obtain ⟨more, rfl⟩ : ∃ more, levels' = more + 1 := ⟨levels' - 1, by omega⟩
      rw [drawReference_of_opened opened, drawReference_of_opened opened]
      refine drawOpened_congr Hereditary.any (fun name' path' deeper _ => ?_) trivial
      exact ih (by omega) (by omega)
    · rw [drawReference_of_closed opened, drawReference_of_closed opened]

/-- **How a reference is drawn**: nothing bounds how many references are opened inside one another
but their depth. -/
theorem drawReference_eq (name : String) (path : PathKey) :
    g.drawReference selected maxDepth name path =
      if path.depth < maxDepth ∧ selected path then
        g.drawOpened (g.drawReference selected maxDepth) name path
      else drawClosed name path := by
  split
  · rename_i opened
    have all : g.drawReference selected maxDepth name path =
        g.drawReference selected (maxDepth + 1) name path :=
      drawReference_levels (by omega) (by omega)
    rw [all, drawReference_of_opened opened]
  · rename_i closed
    exact drawReference_of_closed closed _

/-- The recursion over references has one solution: the number of levels in it bounds nothing. -/
theorem eq_drawReference_iff {refer : String → PathKey → Drawing Track} :
    (∀ name path, refer name path =
      if path.depth < maxDepth ∧ selected path then g.drawOpened refer name path
      else drawClosed name path) ↔ refer = g.drawReference selected maxDepth := by
  constructor
  · intro solves
    funext name path
    induction path using PathKey.depth_induction generalizing name with
    | h path ih =>
      rw [solves, drawReference_eq]
      split
      · rename_i opened
        refine drawOpened_congr Hereditary.any (fun name' path' deeper _ => ?_) trivial
        exact ih opened.1 path' deeper name'
      · rfl
  · rintro rfl
    exact drawReference_eq

/-- A reference that is drawn is opened, with a production drawn inside it, or stays closed. -/
theorem result_drawReference_eq_ok {name : String} {path : PathKey} {t : Track} :
    (g.drawReference selected maxDepth name path).result = .ok t ↔
      ((path.depth < maxDepth ∧ selected path = true) ∧ ∃ p inner, g.find? name = some p ∧
          ((p.body.layout path.ids).draw (g.drawReference selected maxDepth)).result = .ok inner ∧
          Track.group name path inner = t) ∨
        ¬ (path.depth < maxDepth ∧ selected path = true) ∧ Track.nonTerminal name path = t := by
  rw [drawReference_eq]
  by_cases opened : path.depth < maxDepth ∧ selected path = true
  · rw [if_pos opened, result_drawOpened_eq_ok]
    constructor
    · exact fun drawn => .inl ⟨opened, drawn⟩
    · rintro (⟨-, drawn⟩ | ⟨closed, -⟩)
      · exact drawn
      · exact absurd opened closed
  · rw [if_neg opened]
    constructor
    · exact fun drawn => .inr ⟨opened, Except.ok.inj drawn⟩
    · rintro (⟨opened', -⟩ | ⟨-, rfl⟩)
      · exact absurd opened' opened
      · rfl

/-! ### The tracks of references, however deep -/

theorem shown_of_closed {name : String} {path : PathKey}
    (closed : ¬ (path.depth < maxDepth ∧ selected path = true)) (levels : Nat) :
    g.shown selected levels name path = .nonTerminal name path := by
  cases levels with
  | zero => rfl
  | succ levels => exact if_neg closed

/-- The number of levels makes no difference to a track, if there are enough. -/
theorem shown_levels {levels levels' : Nat} {name : String} {path : PathKey}
    (room : maxDepth ≤ levels + path.depth) (room' : maxDepth ≤ levels' + path.depth) :
    g.shown selected levels' name path = g.shown selected levels name path := by
  induction levels generalizing levels' name path with
  | zero =>
    have closed : ¬ (path.depth < maxDepth ∧ selected path = true) := by omega
    rw [shown_of_closed closed, shown_of_closed closed]
  | succ levels ih =>
    by_cases opened : path.depth < maxDepth ∧ selected path = true
    · obtain ⟨more, rfl⟩ : ∃ more, levels' = more + 1 := ⟨levels' - 1, by omega⟩
      rw [shown, shown, if_pos opened, if_pos opened]
      cases g.find? name with
      | none => rfl
      | some p =>
        refine congrArg _ (Layout.track_congr _ fun r hr => ?_)
        have deeper := Expression.depth_lt_of_mem_references hr
        exact ih (by omega) (by omega)
    · rw [shown_of_closed opened, shown_of_closed opened]

/-- **The track of a reference**: a group around what the production is drawn as, if it is selected,
short enough and declared. Nothing bounds how many references are opened inside one another but
their depth. -/
theorem shown_eq (name : String) (path : PathKey) :
    g.shown selected maxDepth name path =
      if path.depth < maxDepth ∧ selected path then
        match g.find? name with
        | some p =>
          .group name path ((p.body.layout path.ids).track (g.shown selected maxDepth))
        | none => .nonTerminal name path
      else .nonTerminal name path := by
  have all : g.shown selected maxDepth name path = g.shown selected (maxDepth + 1) name path :=
    shown_levels (by omega) (by omega)
  exact all.trans rfl

/-! ### What is recorded and what is shown -/

/-- What is recorded of a reference and those inside it is what is shown of them. -/
theorem perm_references_drawReference {name : String} {path : PathKey} {t : Track}
    (h : (g.drawReference selected maxDepth name path).result = .ok t) :
    ((g.drawReference selected maxDepth name path).events.filterMap
      DrawingEvent.reference?).Perm t.references := by
  induction path using PathKey.depth_induction generalizing name t with
  | h path ih =>
    rcases result_drawReference_eq_ok.mp h with
      ⟨opened, p, inner, found, body, rfl⟩ | ⟨closed, rfl⟩
    · rw [drawReference_eq, if_pos opened, events_drawOpened found, Track.references_group]
      refine List.Perm.cons _ (Layout.perm_references_draw (fun r hr track drawn => ?_) body)
      exact ih opened.1 r.2 (Expression.depth_lt_of_mem_references hr) drawn
    · rw [drawReference_eq, if_neg closed, Track.references_nonTerminal]
      rfl

/-- A diagram is drawn if its start is. -/
theorem result_draw_eq_ok {start : Option String} {d : Diagram} :
    (g.draw start selected).result = .ok d ↔
      ∃ p track, g.startProduction start = .ok p ∧
        ((p.body.layout [p.id]).draw (g.drawReference selected maxDepth)).result = .ok track ∧
        Diagram.mk p.name.text (.sequence [track]) = d := by
  constructor
  · intro drawn
    obtain ⟨p, started, drawn⟩ := Traced.result_bind_eq_ok.mp drawn
    obtain ⟨root, whole, rfl⟩ := Traced.result_map_eq_ok.mp drawn
    obtain ⟨track, body, rfl⟩ := Traced.result_map_eq_ok.mp whole
    exact ⟨p, track, started, body, rfl⟩
  · rintro ⟨p, track, started, body, rfl⟩
    exact Traced.result_bind_eq_ok.mpr ⟨p, started, Traced.result_map_eq_ok.mpr
      ⟨_, Traced.result_map_eq_ok.mpr ⟨track, body, rfl⟩, rfl⟩⟩

theorem events_draw {start : Option String} {p : Production}
    (started : g.startProduction start = .ok p) :
    (g.draw start selected).events =
      ((p.body.layout [p.id]).draw (g.drawReference selected maxDepth)).events := by
  have found : (Traced.ofExcept (g.startProduction start) : Drawing Production).result = .ok p :=
    started
  rw [draw, Traced.events_bind_ok found]
  rfl

/-- **What is recorded of references is what is shown of them**, up to order. -/
theorem perm_references_draw {start : Option String} {d : Diagram}
    (h : (g.draw start selected).result = .ok d) :
    ((g.draw start selected).events.filterMap DrawingEvent.reference?).Perm d.root.references := by
  obtain ⟨p, track, started, body, rfl⟩ := result_draw_eq_ok.mp h
  rw [events_draw started, Track.references_sequence, List.flatMap_singleton]
  exact Layout.perm_references_draw (fun _ _ _ => perm_references_drawReference) body

/-- A reference that is shown is opened if it is selected and not too deep. -/
theorem opened_iff_of_drawReference {name : String} {path : PathKey} {t : Track}
    (h : (g.drawReference selected maxDepth name path).result = .ok t) :
    ∀ m ∈ t.references,
      ((∃ label, m.2 = .opened label) ↔ m.1.depth < maxDepth ∧ selected m.1 = true) := by
  induction path using PathKey.depth_induction generalizing name t with
  | h path ih =>
    intro m hm
    rcases result_drawReference_eq_ok.mp h with
      ⟨opened, p, inner, found, body, rfl⟩ | ⟨closed, rfl⟩
    · rw [Track.references_group, List.mem_cons] at hm
      rcases hm with rfl | hm
      · exact iff_of_true ⟨name, rfl⟩ opened
      · obtain ⟨r, hr, track, drawn, hm⟩ := (Layout.mem_references_draw_iff body).mp hm
        exact ih opened.1 r.2 (Expression.depth_lt_of_mem_references hr) drawn m hm
    · rw [Track.references_nonTerminal, List.mem_singleton] at hm
      subst hm
      exact iff_of_false (by simp) closed

/-- **A reference in a diagram is opened exactly if it is selected and not too deep.** -/
theorem opened_iff_of_draw {start : Option String} {d : Diagram}
    (h : (g.draw start selected).result = .ok d) {m : PathKey × Mark} (hm : m ∈ d.root.references) :
    (∃ label, m.2 = .opened label) ↔ m.1.depth < maxDepth ∧ selected m.1 = true := by
  obtain ⟨p, track, started, body, rfl⟩ := result_draw_eq_ok.mp h
  rw [Track.references_sequence, List.flatMap_singleton] at hm
  obtain ⟨r, -, shown, drawn, hm⟩ := (Layout.mem_references_draw_iff body).mp hm
  exact opened_iff_of_drawReference drawn m hm

end Grammar

/-! ### How much of the selection is read -/

/-- The keys of the references that are opened, in the order of drawing. -/
def Drawing.openedKeys {α : Type} (x : Drawing α) : List PathKey :=
  x.events.filterMap DrawingEvent.openedKey?

/-- If only some keys are opened in a drawing, only those are opened in its steps. -/
theorem Drawing.hereditary_openedKeys (P : PathKey → Prop) :
    Hereditary fun {_} (x : Drawing _) => ∀ key ∈ x.openedKeys, P key where
  first {_ _ x f} h key hkey := by
    apply h key
    unfold openedKeys
    cases result : x.result with
    | error e => rwa [Traced.bind_eq_of_error result]
    | ok a =>
      rw [Traced.bind_eq_of_ok result, List.filterMap_append]
      exact List.mem_append_left _ hkey
  next {_ _ x f a} h result key hkey := by
    apply h key
    rw [openedKeys, Traced.bind_eq_of_ok result, List.filterMap_append]
    exact List.mem_append_right _ hkey

namespace Grammar

variable {g : Grammar} {selected selected' : PathKey → Bool}

/-- What is recorded as opened is what is opened in the diagram. -/
theorem mem_openedKeys_iff {start : Option String} {d : Diagram}
    (h : (g.draw start selected).result = .ok d) {key : PathKey} :
    key ∈ (g.draw start selected).openedKeys ↔ key ∈ d.root.groupPaths := by
  rw [Drawing.openedKeys, DrawingEvent.filterMap_openedKey?, Track.groupPaths_eq]
  exact ((perm_references_draw h).filterMap _).mem_iff

/-- A reference is drawn alike if less is selected, but still all that is opened. -/
theorem drawReference_of_openedKeys (fewer : ∀ key, selected' key = true → selected key = true)
    {name : String} {path : PathKey}
    (all : ∀ key ∈ (g.drawReference selected maxDepth name path).openedKeys,
      selected' key = true) :
    g.drawReference selected' maxDepth name path = g.drawReference selected maxDepth name path := by
  induction path using PathKey.depth_induction generalizing name with
  | h path ih =>
    by_cases opened : path.depth < maxDepth ∧ selected path = true
    · rw [drawReference_eq, if_pos opened] at all
      have chosen : selected' path = true := by
        apply all
        exact List.mem_filterMap.mpr ⟨.expanding name path, by
          simp [drawOpened, Traced.events_bind_ok, Traced.emit], rfl⟩
      rw [drawReference_eq, drawReference_eq, if_pos opened, if_pos ⟨opened.1, chosen⟩]
      refine drawOpened_congr (Drawing.hereditary_openedKeys (selected' · = true)) ?_ all
      intro name' path' deeper
      exact ih opened.1 path' deeper
    · have closed : ¬ (path.depth < maxDepth ∧ selected' path = true) := by
        rintro ⟨short, chosen⟩
        exact opened ⟨short, fewer path chosen⟩
      rw [drawReference_eq, drawReference_eq, if_neg opened, if_neg closed]

/-- **A diagram is drawn alike if less is selected, but still all that is opened**, with the same
events and also if that fails. -/
theorem draw_of_openedKeys (fewer : ∀ key, selected' key = true → selected key = true)
    {start : Option String}
    (all : ∀ key ∈ (g.draw start selected).openedKeys, selected' key = true) :
    g.draw start selected' = g.draw start selected := by
  have good := Drawing.hereditary_openedKeys (selected' · = true)
  unfold draw at all ⊢
  refine Traced.bind_congr fun p started => ?_
  have whole := good.next all started
  have body := Layout.draw_congr good (p.body.layout [p.id])
    (fun _ _ => drawReference_of_openedKeys fewer) (good.of_map (good.of_map whole))
  rw [drawProduction, drawProduction, body]

end Grammar

end Railroad
