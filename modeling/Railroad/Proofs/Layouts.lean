import Railroad.Drawing

/-!
Layouts, part by part.

Every layout but a reference is drawn from its parts (`Layout.draw_node`), so what is proved of
drawing goes by `Layout.induction`, with one case for a reference and one for all others.

* `Layout.draw_congr`: two drawings agree if they agree on references, as long as they do so up to
  where a drawing ends.
* `Layout.succeeds_draw_iff`: a layout is drawn exactly if each of its references is.
-/

namespace Railroad

/-! ### Steps that succeed -/

section Traced

variable {ω ε α β : Type}

theorem Traced.result_bind_eq_ok {x : Traced ω ε α} {f : α → Traced ω ε β} {b : β} :
    (x >>= f).result = .ok b ↔ ∃ a, x.result = .ok a ∧ (f a).result = .ok b := by
  rw [Traced.result_bind]
  cases x.result with
  | error e => simp [bind, Except.bind]
  | ok a => simp [bind, Except.bind]

theorem Traced.result_map_eq_ok {x : Traced ω ε α} {f : α → β} {b : β} :
    (f <$> x).result = .ok b ↔ ∃ a, x.result = .ok a ∧ f a = b := by
  rw [Traced.result_map]
  cases x.result with
  | error e => simp [Except.map]
  | ok a => simp [Except.map]

/-- The computation gives a result. -/
def Traced.Succeeds (x : Traced ω ε α) : Prop :=
  ∃ a, x.result = .ok a

@[simp] theorem Traced.succeeds_pure (a : α) : (pure a : Traced ω ε α).Succeeds :=
  ⟨a, rfl⟩

@[simp] theorem Traced.succeeds_map_iff {x : Traced ω ε α} {f : α → β} :
    (f <$> x).Succeeds ↔ x.Succeeds := by
  simp only [Succeeds, result_map_eq_ok]
  exact ⟨fun ⟨_, a, ha, _⟩ => ⟨a, ha⟩, fun ⟨a, ha⟩ => ⟨f a, a, ha, rfl⟩⟩

theorem Traced.succeeds_bind_iff {x : Traced ω ε α} {f : α → Traced ω ε β} :
    (x >>= f).Succeeds ↔ ∃ a, x.result = .ok a ∧ (f a).Succeeds := by
  simp only [Succeeds, result_bind_eq_ok]
  exact ⟨fun ⟨b, a, ha, hb⟩ => ⟨a, ha, b, hb⟩, fun ⟨a, ha, b, hb⟩ => ⟨b, a, ha, hb⟩⟩

/-- What comes after a step matters for the results that the step can have. -/
theorem Traced.bind_congr {x : Traced ω ε α} {f f' : α → Traced ω ε β}
    (h : ∀ a, x.result = .ok a → f a = f' a) : x >>= f = x >>= f' := by
  cases result : x.result with
  | error e => rw [bind_eq_of_error result, bind_eq_of_error result]
  | ok a => rw [bind_eq_of_ok result, bind_eq_of_ok result, h a result]

/-- A property that a drawing has only if whatever is drawn first has it, and whatever is drawn
then. -/
structure Hereditary (Good : ∀ {α : Type}, Drawing α → Prop) : Prop where
  first : ∀ {α β : Type} {x : Drawing α} {f : α → Drawing β}, Good (x >>= f) → Good x
  next : ∀ {α β : Type} {x : Drawing α} {f : α → Drawing β} {a : α}, Good (x >>= f) →
    x.result = .ok a → Good (f a)

theorem Hereditary.of_map {Good : ∀ {α : Type}, Drawing α → Prop} (h : Hereditary Good)
    {x : Drawing α} {f : α → β} (good : Good (f <$> x)) : Good x := by
  rw [map_eq_pure_bind] at good
  exact h.first good

theorem Hereditary.any : Hereditary fun {_} (_ : Drawing _) => True :=
  ⟨fun _ => trivial, fun _ _ => trivial⟩

end Traced

/-! ### Layouts, part by part -/

namespace Layout

def isReference : Layout → Bool
  | .reference _ _ => true
  | _ => false

/-- What is recorded before a layout is drawn. -/
def notes : Layout → List LayoutNote
  | .noted note _ => [note]
  | _ => []

/-- The layouts right inside a layout, in the order in which they are drawn. -/
def parts : Layout → List Layout
  | .sequence items | .joined items | .returned items | .choice items => items
  | .optional item | .zeroOrMore item | .oneOrMore item | .noted _ item => [item]
  | .loop item back => [item, back]
  | .compacted round before after => round :: (before ++ after)
  | .terminal _ _ | .reference _ _ | .skip => []

/-- The track of a layout that is no reference, from those of its parts. -/
def build : Layout → List Track → Track
  | .terminal text path, _ => .terminal text path
  | .sequence _, tracks => .sequence tracks
  | .joined _, tracks => .joined tracks
  | .returned _, tracks => .joined tracks.reverse
  | .choice _, tracks => .choice (tracks.length / 2) tracks
  | .optional _, [item] => .optional item
  | .zeroOrMore _, [item] => .zeroOrMore item
  | .oneOrMore _, [item] => .oneOrMore item none
  | .loop _ _, [item, back] => .oneOrMore item (some back)
  | .compacted _ before _, round :: others =>
    .joined (others.take before.length ++ round :: others.drop before.length)
  | .noted _ _, [item] => item
  | _, _ => .skip

theorem sizeOf_lt_of_mem_parts {l part : Layout} (h : part ∈ l.parts) :
    sizeOf part < sizeOf l := by
  cases l with
  | terminal text path | reference name path | skip => cases h
  | sequence items | joined items | returned items | choice items =>
    have smaller : sizeOf part < sizeOf items := List.sizeOf_lt_of_mem h
    simp only [sequence.sizeOf_spec, joined.sizeOf_spec, returned.sizeOf_spec, choice.sizeOf_spec]
    omega
  | loop item back =>
    rw [loop.sizeOf_spec]
    rcases List.mem_cons.mp h with rfl | h
    · omega
    · obtain rfl := List.mem_singleton.mp h
      omega
  | compacted round before after =>
    rw [compacted.sizeOf_spec]
    rcases List.mem_cons.mp h with rfl | h
    · omega
    rcases List.mem_append.mp h with h | h
    · have smaller := List.sizeOf_lt_of_mem h
      omega
    · have smaller := List.sizeOf_lt_of_mem h
      omega
  | optional item | zeroOrMore item | oneOrMore item | noted note item =>
    obtain rfl := List.mem_singleton.mp h
    simp only [optional.sizeOf_spec, zeroOrMore.sizeOf_spec, oneOrMore.sizeOf_spec,
      noted.sizeOf_spec]
    omega

/-- **Induction on layouts.** A layout that is no reference has the property if its parts do. -/
theorem induction {P : Layout → Prop} (reference : ∀ name path, P (.reference name path))
    (node : ∀ l : Layout, l.isReference = false → (∀ part ∈ l.parts, P part) → P l) (l : Layout) :
    P l := by
  cases kind : l.isReference with
  | true =>
    unfold isReference at kind
    split at kind
    · exact reference _ _
    · cases kind
  | false =>
    refine node l kind fun part hpart => ?_
    have smaller := sizeOf_lt_of_mem_parts hpart
    exact induction reference node part
termination_by sizeOf l

mutual

/-- The references of a layout, in the order in which they are drawn. -/
def references : Layout → List (String × PathKey)
  | .terminal _ _ | .skip => []
  | .reference name path => [(name, path)]
  | .sequence items | .joined items | .returned items | .choice items => referencesAll items
  | .optional item | .zeroOrMore item | .oneOrMore item | .noted _ item => item.references
  | .loop item back => item.references ++ back.references
  | .compacted round before after =>
    round.references ++ (referencesAll before ++ referencesAll after)

def referencesAll : List Layout → List (String × PathKey)
  | [] => []
  | item :: rest => item.references ++ referencesAll rest

end

theorem referencesAll_eq_flatMap (items : List Layout) :
    referencesAll items = items.flatMap references := by
  induction items with
  | nil => rfl
  | cons item rest ih => simp [referencesAll, ih]

/-- The references of a layout are those of its parts. -/
theorem references_node {l : Layout} (h : l.isReference = false) :
    l.references = l.parts.flatMap references := by
  cases l with
  | reference name path => cases h
  | _ => simp [references, parts, referencesAll_eq_flatMap]

theorem mem_references_of_mem_parts {l part : Layout} (h : l.isReference = false)
    (hpart : part ∈ l.parts) {r : String × PathKey} (hr : r ∈ part.references) :
    r ∈ l.references := by
  rw [references_node h]
  exact List.mem_flatMap.mpr ⟨part, hpart, hr⟩

/-! ### Drawing, part by part -/

section Draw

variable {refer refer' : String → PathKey → Drawing Track}

theorem drawAll_append (items others : List Layout) :
    drawAll refer (items ++ others) =
      (drawAll refer items >>= fun tracks => (tracks ++ ·) <$> drawAll refer others) := by
  induction items with
  | nil => simp [drawAll]
  | cons item rest ih => simp [drawAll, ih]

theorem length_of_drawAll {items : List Layout} {tracks : List Track}
    (h : (drawAll refer items).result = .ok tracks) : tracks.length = items.length := by
  induction items generalizing tracks with
  | nil =>
    cases h
    rfl
  | cons item rest ih =>
    obtain ⟨first, -, h⟩ := Traced.result_bind_eq_ok.mp h
    obtain ⟨others, all, rfl⟩ := Traced.result_map_eq_ok.mp h
    rw [List.length_cons, List.length_cons, ih all]

/-- **A layout that is no reference is drawn part by part.** -/
theorem draw_node {l : Layout} (h : l.isReference = false) :
    l.draw refer =
      (Traced.record (l.notes.map .laidOut) >>= fun _ => l.build <$> drawAll refer l.parts) := by
  have nothing : (Traced.record [] : Drawing Unit) = pure () := rfl
  cases l with
  | reference name path => cases h
  | terminal text path => rfl
  | skip => rfl
  | sequence items | joined items | returned items | choice items =>
    rw [notes, List.map_nil, nothing, pure_bind]
    · rfl
    · simp
  | noted note item =>
    simp only [parts, drawAll, map_pure, bind_pure_comp, Functor.map_map, build, id_map']
    rfl
  | compacted round before after =>
    simp only [draw, notes, parts, drawAll, nothing, drawAll_append, build, List.map_nil, pure_bind,
      map_bind, Functor.map_map]
    -- The parts that come before the loop are as many as their layouts.
    refine Traced.bind_congr fun middle _ => Traced.bind_congr fun front drawn => ?_
    simp only [← length_of_drawAll drawn, List.take_left', List.drop_left']
  | _ => simp [draw, notes, parts, drawAll, nothing, build]

/-! ### Drawings that agree -/

section Agree

variable {Good : ∀ {α : Type}, Drawing α → Prop}

theorem drawAll_congr (good : Hereditary Good) {items : List Layout}
    (each : ∀ item ∈ items, Good (item.draw refer) → item.draw refer' = item.draw refer)
    (h : Good (drawAll refer items)) : drawAll refer' items = drawAll refer items := by
  induction items with
  | nil => rfl
  | cons item rest ih =>
    obtain ⟨first, others⟩ := List.forall_mem_cons.mp each
    rw [drawAll, drawAll, first (good.first h)]
    refine Traced.bind_congr fun track drawn => ?_
    have more := good.next h drawn
    rw [ih others (good.of_map more)]

/-- **Drawings agree if they agree on references.** They need to agree on a reference only if what
is drawn of it may be part of a good drawing. -/
theorem draw_congr (good : Hereditary Good) (l : Layout)
    (each : ∀ r ∈ l.references, Good (refer r.1 r.2) → refer' r.1 r.2 = refer r.1 r.2)
    (h : Good (l.draw refer)) : l.draw refer' = l.draw refer := by
  induction l using Layout.induction with
  | reference name path => exact each (name, path) (by simp [references]) h
  | node l node ih =>
    rw [draw_node node] at h
    have built := good.next h rfl
    have parts : drawAll refer' l.parts = drawAll refer l.parts :=
      drawAll_congr good (fun part hpart => ih part hpart fun r hr =>
        each r (mem_references_of_mem_parts node hpart hr)) (good.of_map built)
    rw [draw_node node, draw_node node, parts]

end Agree

/-! ### Drawings that succeed -/

theorem succeeds_drawAll_iff {items : List Layout} :
    (drawAll refer items).Succeeds ↔ ∀ item ∈ items, (item.draw refer).Succeeds := by
  induction items with
  | nil => simp [drawAll]
  | cons item rest ih =>
    rw [drawAll, Traced.succeeds_bind_iff, List.forall_mem_cons, ← ih]
    simp only [Traced.succeeds_map_iff, exists_and_right]
    rfl

/-- **A layout is drawn exactly if each of its references is.** -/
theorem succeeds_draw_iff (l : Layout) :
    (l.draw refer).Succeeds ↔ ∀ r ∈ l.references, (refer r.1 r.2).Succeeds := by
  induction l using Layout.induction with
  | reference name path => simp [references, draw]
  | node l node ih =>
    rw [draw_node node, Traced.succeeds_bind_iff, references_node node]
    simp only [Traced.record, exists_const, true_and, Traced.succeeds_map_iff,
      succeeds_drawAll_iff, List.forall_mem_flatMap]
    exact forall₂_congr ih

end Draw

end Layout

end Railroad
