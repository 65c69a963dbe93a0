import Railroad.Proofs.Layouts
import Railroad.Proofs.Renaming

/-!
Drawing a grammar with its ids renamed.

A drawing opens a reference if its key is selected and short. Renaming keeps the length of a key, so
a renamed grammar is drawn as the grammar is, as long as a renamed key is selected exactly when the
key is. What is recorded, the result and the reason for a failure are the same but for the ids.

* `Drawing.mapIds`: a drawing with the ids renamed in all that is recorded and in the result.
* `Layout.draw_mapIds`: this is how a renamed layout is drawn, if its references are.
* `Grammar.draw_mapIds`: this is how a renamed grammar is drawn.
-/

namespace Railroad

/-! ### Tracks and drawings -/

mutual

/-- The track with the ids in its keys renamed. -/
def Track.mapIds (φ : NodeId → NodeId) : Track → Track
  | .sequence items => .sequence (Track.mapIdsAll φ items)
  | .choice index options => .choice index (Track.mapIdsAll φ options)
  | .optional item => .optional (item.mapIds φ)
  | .zeroOrMore item => .zeroOrMore (item.mapIds φ)
  | .oneOrMore item none => .oneOrMore (item.mapIds φ) none
  | .oneOrMore item (some back) => .oneOrMore (item.mapIds φ) (some (back.mapIds φ))
  | .terminal text path => .terminal text (path.mapIds φ)
  | .nonTerminal name path => .nonTerminal name (path.mapIds φ)
  | .group name path item => .group name (path.mapIds φ) (item.mapIds φ)
  | .skip => .skip

def Track.mapIdsAll (φ : NodeId → NodeId) : List Track → List Track
  | [] => []
  | track :: rest => track.mapIds φ :: Track.mapIdsAll φ rest

end

/-- The diagram with the ids in its keys renamed. -/
def Diagram.mapIds (φ : NodeId → NodeId) (d : Diagram) : Diagram :=
  ⟨d.start, d.root.mapIds φ⟩

/-- The event with the ids renamed. -/
def DrawingEvent.mapIds (φ : NodeId → NodeId) : DrawingEvent → DrawingEvent
  | .laidOut note => .laidOut (note.mapIds φ)
  | .collapsed name path => .collapsed name (path.mapIds φ)
  | .expanding name path => .expanding name (path.mapIds φ)

/-- The drawing with the ids renamed in what is recorded, and with `f` applied to the result. -/
def Drawing.mapIds {α β : Type} (φ : NodeId → NodeId) (f : α → β) (x : Drawing α) : Drawing β :=
  ⟨x.events.map (DrawingEvent.mapIds φ), x.result.map f⟩

variable {φ : NodeId → NodeId}

theorem Track.mapIdsAll_eq_map (tracks : List Track) :
    Track.mapIdsAll φ tracks = tracks.map (Track.mapIds φ) := by
  induction tracks with
  | nil => rfl
  | cons track rest ih => rw [mapIdsAll, ih, List.map_cons]

theorem Track.mapIds_joined (items : List Track) :
    (joined items).mapIds φ = joined (items.map (Track.mapIds φ)) := by
  rcases items with _ | ⟨item, _ | ⟨next, rest⟩⟩
  · rfl
  · rfl
  · simp [joined, mapIds, mapIdsAll_eq_map]

/-- The keys that are opened are renamed along. -/
theorem DrawingEvent.filterMap_openedKey?_mapIds (events : List DrawingEvent) :
    (events.map (DrawingEvent.mapIds φ)).filterMap openedKey? =
      (events.filterMap openedKey?).map (PathKey.mapIds φ) := by
  rw [List.filterMap_map, List.map_filterMap]
  congr 1
  funext event
  cases event <;> rfl

namespace Drawing

variable {α β γ δ : Type}

/-- Renaming a step and what comes after it renames both together. -/
theorem bind_mapIds {f : α → β} {f' : γ → δ} {x : Drawing α} {x' : Drawing β}
    {next : α → Drawing γ} {next' : β → Drawing δ} (first : x' = x.mapIds φ f)
    (then_ : ∀ a, next' (f a) = (next a).mapIds φ f') :
    x' >>= next' = (x >>= next).mapIds φ f' := by
  subst first
  cases result : x.result with
  | error e =>
    have renamed : (x.mapIds φ f).result = .error e := by rw [mapIds, result]; rfl
    rw [Traced.bind_eq_of_error result, Traced.bind_eq_of_error renamed]
    rfl
  | ok a =>
    have renamed : (x.mapIds φ f).result = .ok (f a) := by rw [mapIds, result]; rfl
    rw [Traced.bind_eq_of_ok result, Traced.bind_eq_of_ok renamed, then_]
    simp only [mapIds, List.map_append]

theorem map_mapIds {f : α → β} {f' : γ → δ} {x : Drawing α} {x' : Drawing β} {make : α → γ}
    {make' : β → δ} (first : x' = x.mapIds φ f) (made : ∀ a, make' (f a) = f' (make a)) :
    make' <$> x' = (make <$> x).mapIds φ f' := by
  rw [map_eq_pure_bind, map_eq_pure_bind]
  refine bind_mapIds first fun a => ?_
  rw [made]
  rfl

end Drawing

/-! ### Layouts -/

namespace Layout

@[simp] theorem isReference_mapIds (l : Layout) : (l.mapIds φ).isReference = l.isReference := by
  cases l <;> rfl

theorem notes_mapIds (l : Layout) : (l.mapIds φ).notes = l.notes.map (LayoutNote.mapIds φ) := by
  cases l <;> rfl

theorem parts_mapIds (l : Layout) : (l.mapIds φ).parts = l.parts.map (Layout.mapIds φ) := by
  cases l with
  | compacted round before after => simp [mapIds, parts, mapIdsAll_eq_map]
  | _ => simp [mapIds, parts, mapIdsAll_eq_map]

/-- A renamed track is built from renamed tracks. -/
theorem build_mapIds (l : Layout) (tracks : List Track) :
    (l.mapIds φ).build (tracks.map (Track.mapIds φ)) = (l.build tracks).mapIds φ := by
  cases l with
  | sequence items => simp [mapIds, build, Track.mapIds, Track.mapIdsAll_eq_map]
  | choice items => simp [mapIds, build, Track.mapIds, Track.mapIdsAll_eq_map]
  | joined items => rw [mapIds, build, build, Track.mapIds_joined]
  | returned items => rw [mapIds, build, build, Track.mapIds_joined, List.map_reverse]
  | optional item | zeroOrMore item | oneOrMore item | noted note item =>
    rcases tracks with _ | ⟨track, _ | ⟨next, rest⟩⟩ <;> rfl
  | loop item back =>
    rcases tracks with _ | ⟨track, _ | ⟨wayBack, _ | ⟨next, rest⟩⟩⟩ <;> rfl
  | compacted round before after =>
    cases tracks with
    | nil => rfl
    | cons round rest =>
      simp [mapIds, build, Track.mapIds_joined, mapIdsAll_eq_map, List.map_take, List.map_drop]
  | terminal text path | reference name path | skip => rfl

variable {refer refer' : String → PathKey → Drawing Track}

theorem drawAll_mapIds {items : List Layout}
    (each : ∀ item ∈ items,
      (item.mapIds φ).draw refer' = (item.draw refer).mapIds φ (Track.mapIds φ)) :
    drawAll refer' (items.map (Layout.mapIds φ)) =
      (drawAll refer items).mapIds φ (List.map (Track.mapIds φ)) := by
  induction items with
  | nil => rfl
  | cons item rest ih =>
    obtain ⟨first, others⟩ := List.forall_mem_cons.mp each
    rw [List.map_cons, drawAll, drawAll]
    refine Drawing.bind_mapIds first fun track => ?_
    exact Drawing.map_mapIds (ih others) fun _ => rfl

/-- **A renamed layout is drawn as the layout is**, if its references are. -/
theorem draw_mapIds (l : Layout)
    (each : ∀ r ∈ l.references,
      refer' r.1 (r.2.mapIds φ) = (refer r.1 r.2).mapIds φ (Track.mapIds φ)) :
    (l.mapIds φ).draw refer' = (l.draw refer).mapIds φ (Track.mapIds φ) := by
  induction l using Layout.induction with
  | reference name path => exact each (name, path) (by simp [references])
  | node l node ih =>
    have parts : drawAll refer' (l.mapIds φ).parts =
        (drawAll refer l.parts).mapIds φ (List.map (Track.mapIds φ)) := by
      rw [parts_mapIds]
      exact drawAll_mapIds fun part hpart => ih part hpart fun r hr =>
        each r (mem_references_of_mem_parts node hpart hr)
    have notes : (Traced.record ((l.mapIds φ).notes.map .laidOut) : Drawing Unit) =
        Drawing.mapIds φ id (Traced.record (l.notes.map .laidOut)) := by
      rw [notes_mapIds]
      simp [Traced.record, Drawing.mapIds, DrawingEvent.mapIds, Except.map, Function.comp_def]
    rw [draw_node node, draw_node (by rwa [isReference_mapIds])]
    refine Drawing.bind_mapIds notes fun _ => ?_
    exact Drawing.map_mapIds parts (build_mapIds l)

end Layout

/-! ### Grammars -/

namespace Grammar

variable {g : Grammar} {selected : PathKey → Bool}

@[simp] theorem names_mapIds (g : Grammar) : (g.mapIds φ).names = g.names := by
  simp [names, mapIds, Function.comp_def]

theorem find?_mapIds (g : Grammar) (name : String) :
    (g.mapIds φ).find? name = (g.find? name).map (Production.mapIds φ) := by
  rw [find?, find?, mapIds, List.find?_map]
  rfl

/-- Names are looked up alike, also those that no production has. -/
theorem lookup_mapIds (g : Grammar) (name : String) :
    (g.mapIds φ).lookup name = (g.lookup name).map (Production.mapIds φ) := by
  rw [lookup, lookup, find?_mapIds, names_mapIds]
  cases g.find? name <;> rfl

theorem mapError_lookup_mapIds (g : Grammar) (name : String) :
    ((g.mapIds φ).lookup name).mapError DiagramError.productionNotFound =
      ((g.lookup name).mapError DiagramError.productionNotFound).map (Production.mapIds φ) := by
  rw [lookup_mapIds]
  cases g.lookup name <;> rfl

theorem startProduction_mapIds (g : Grammar) (start : Option String) :
    (g.mapIds φ).startProduction start = (g.startProduction start).map (Production.mapIds φ) := by
  cases start with
  | some name => exact mapError_lookup_mapIds g name
  | none =>
    obtain ⟨id, _ | ⟨first, rest⟩⟩ := g <;> rfl

/-- A renamed reference is drawn as the reference is. -/
theorem drawReference_mapIds {levels : Nat} {name : String} {path : PathKey} :
    (g.mapIds φ).drawReference selected levels name (path.mapIds φ) =
      (g.drawReference (fun key => selected (key.mapIds φ)) levels name path).mapIds φ
        (Track.mapIds φ) := by
  induction levels generalizing name path with
  | zero => rfl
  | succ levels ih =>
    rw [drawReference, drawReference, PathKey.depth_mapIds]
    have event : (Traced.emit (.expanding name (path.mapIds φ)) : Drawing Unit) =
        Drawing.mapIds φ (fun _ => ()) (Traced.emit (.expanding name path)) := rfl
    split
    · refine Drawing.bind_mapIds event fun _ => ?_
      refine Drawing.bind_mapIds (f := Production.mapIds φ) ?_ fun p => ?_
      · rw [mapError_lookup_mapIds]
        rfl
      · have body : (p.body.mapIds φ).layout (path.mapIds φ).ids =
            (p.body.layout path.ids).mapIds φ := p.body.layout_mapIds path.ids
        refine Drawing.map_mapIds ?_ fun _ => rfl
        rw [Production.mapIds, body]
        exact Layout.draw_mapIds _ fun _ _ => ih
    · rfl

/-- **A renamed grammar is drawn as the grammar is**, if a renamed key is selected exactly when the
key is. What is recorded, the result and the reason for a failure are the same but for the ids. -/
theorem draw_mapIds (start : Option String) :
    (g.mapIds φ).draw start selected =
      (g.draw start fun key => selected (key.mapIds φ)).mapIds φ (Diagram.mapIds φ) := by
  rw [draw, draw]
  refine Drawing.bind_mapIds (f := Production.mapIds φ) ?_ fun p => ?_
  · rw [startProduction_mapIds]
    rfl
  · have body : (p.body.mapIds φ).layout [φ p.id] = (p.body.layout [p.id]).mapIds φ :=
      p.body.layout_mapIds [p.id]
    refine Drawing.map_mapIds (f := Track.mapIds φ) ?_ fun _ => rfl
    refine Drawing.map_mapIds (f := Track.mapIds φ) ?_ fun _ => ?_
    · rw [Production.mapIds, body]
      exact Layout.draw_mapIds _ fun _ _ => drawReference_mapIds
    · rw [Track.mapIds, Track.mapIdsAll_eq_map]
      rfl

end Grammar

end Railroad
