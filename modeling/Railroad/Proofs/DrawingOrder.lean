import Railroad.Proofs.Opening

/-!
The order in which references are drawn, and which failure comes first.

* `Term.drawn`: the factors of a term in the order of drawing. The loop of a compacted term is drawn
  before the factors in front of it, and those before the factors behind it; of a separator loop,
  the way forward is drawn before the way back. Everything else is drawn from left to right.
* `Expression.references`, `Grammar.occurrences`: the references of an expression and of a whole
  diagram in this order. A reference that is opened is drawn before those inside it.
* `Parts.references_layout`: layouts have their references in this order.
* `Layout.error?_draw`, `Grammar.error?_draw`: a drawing fails for the first reference in this order
  that cannot be drawn, and fails only so.
* `Grammar.filterMap_events_eq_occurrences`: references are recorded in this order.
-/

namespace Railroad

/-! ### The order within a production -/

/-- The factors of a separator loop that repeats this factor: the way forward, then the way back, of
which there are `head`. -/
def Factor.rounds (ids : List NodeId) (head : Nat) : Factor → List (List NodeId × Factor)
  | .bracketed id _ ⟨bodyId, [inner]⟩ =>
    (inner.factors.drop head ++ inner.factors.take head).map (ids ++ [id, bodyId, inner.id], ·)
  | _ => []

/-- The factors of a term that are drawn, in the order of drawing, each with the ids above it. -/
def Term.drawn (manner : Manner) (ids : List NodeId) (t : Term) : List (List NodeId × Factor) :=
  match manner, Compaction.of t.factors with
  | .whole, .fullMatch index matched =>
    (t.factors[index]?.toList ++ (t.factors.take (index - matched) ++
      t.factors.drop (index + 1))).map (ids, ·)
  | .whole, .separator index matched head =>
    t.factors[index]?.toList.flatMap (Factor.rounds ids head) ++
      (t.factors.take (index - matched) ++ t.factors.drop (index + 1)).map (ids, ·)
  | _, _ => t.factors.map (ids, ·)

theorem Term.drawn_pieces (ids : List NodeId) (t : Term) :
    t.drawn .pieces ids = t.factors.map (ids, ·) := rfl

section Drawn

variable {t : Term} {keep dropped after : List Factor} {id : NodeId} {body : Expression}

theorem Term.drawn_plain (ids : List NodeId) (h : (Compaction.of t.factors).isPlain = true) :
    t.drawn .whole ids = t.factors.map (ids, ·) := by
  unfold drawn
  split
  · rename_i decided
    rw [decided] at h
    cases h
  · rename_i decided
    rw [decided] at h
    cases h
  · rfl

theorem Term.drawn_fullMatch (ids : List NodeId)
    (factors : t.factors = keep ++ (dropped ++ .bracketed id .repetition body :: after))
    (h : Compaction.of t.factors = .fullMatch (keep.length + dropped.length) dropped.length) :
    t.drawn .whole ids = (ids, .bracketed id .repetition body) :: (keep ++ after).map (ids, ·) := by
  obtain ⟨tid, all⟩ := t
  obtain rfl : all = _ := factors
  obtain ⟨front, middle, rear⟩ := cut_places (fun f : Factor => f) keep dropped after
    (.bracketed id .repetition body)
  simp only [List.map_id'] at front middle rear
  simp only [drawn, h, front, middle, rear]
  rfl

theorem Term.drawn_separator (ids : List NodeId) {inner : Term} {head tail : List Factor}
    (factors : t.factors = keep ++ (dropped ++ .bracketed id .repetition body :: after))
    (terms : body.terms = [inner]) (split : inner.factors = head ++ tail)
    (h : Compaction.of t.factors =
      .separator (keep.length + dropped.length) dropped.length head.length) :
    t.drawn .whole ids = (tail ++ head).map (ids ++ [id, body.id, inner.id], ·) ++
      (keep ++ after).map (ids, ·) := by
  obtain ⟨tid, all⟩ := t
  obtain rfl : all = _ := factors
  obtain ⟨bodyId, bodyTerms⟩ := body
  obtain rfl : bodyTerms = _ := terms
  obtain ⟨front, middle, rear⟩ := cut_places (fun f : Factor => f) keep dropped after
    (.bracketed id .repetition ⟨bodyId, [inner]⟩)
  simp only [List.map_id'] at front middle rear
  simp only [drawn, h, front, middle, rear]
  simp [Factor.rounds, split]

/-- What is drawn of a term are factors of it and of terms in its brackets. -/
theorem Term.mem_drawn {manner : Manner} {ids : List NodeId} {d : List NodeId × Factor}
    (h : d ∈ t.drawn manner ids) : d.2 ∈ t.factors ∨ ∃ id body inner,
      .bracketed id .repetition body ∈ t.factors ∧ inner ∈ body.terms ∧ d.2 ∈ inner.factors := by
  have inPlace : ∀ {factors : List Factor}, d ∈ factors.map (ids, ·) → d.2 ∈ factors := by
    intro factors member
    obtain ⟨f, hf, rfl⟩ := List.mem_map.mp member
    exact hf
  cases manner with
  | pieces => exact .inl (inPlace h)
  | whole =>
    cases t.view with
    | plain plain =>
      rw [drawn_plain ids plain] at h
      exact .inl (inPlace h)
    | fullMatch factors decided =>
      obtain ⟨repetition, kept, -, behind⟩ := mem_of_cut factors
      rw [drawn_fullMatch ids factors decided, List.mem_cons] at h
      rcases h with rfl | others
      · exact .inl repetition
      · exact .inl ((List.mem_append.mp (inPlace others)).elim (kept _) (behind _))
    | @separator keep dropped head tail after id body inner factors decided terms split =>
      obtain ⟨repetition, kept, -, behind⟩ := mem_of_cut factors
      rw [drawn_separator ids factors terms split decided, List.mem_append] at h
      rcases h with loop | others
      · obtain ⟨f, hf, rfl⟩ := List.mem_map.mp loop
        refine .inr ⟨id, body, inner, repetition, by simp [terms], ?_⟩
        rw [split]
        exact List.mem_append.mpr (List.mem_append.mp hf).symm
      · exact .inl ((List.mem_append.mp (inPlace others)).elim (kept _) (behind _))

end Drawn

theorem Term.sizeOf_lt_of_mem_factors {t : Term} {f : Factor} (h : f ∈ t.factors) :
    sizeOf f < sizeOf t := by
  obtain ⟨id, factors⟩ := t
  have smaller : sizeOf f < sizeOf factors := List.sizeOf_lt_of_mem h
  rw [Term.mk.sizeOf_spec]
  omega

theorem Expression.sizeOf_lt_of_mem_terms {e : Expression} {t : Term} (h : t ∈ e.terms) :
    sizeOf t < sizeOf e := by
  obtain ⟨id, terms⟩ := e
  have smaller : sizeOf t < sizeOf terms := List.sizeOf_lt_of_mem h
  rw [Expression.mk.sizeOf_spec]
  omega

theorem Factor.sizeOf_body_lt (id : NodeId) (bracket : Bracket) (body : Expression) :
    sizeOf body < sizeOf (Factor.bracketed id bracket body) := by
  rw [Factor.bracketed.sizeOf_spec]
  omega

/-- What is drawn of a term is smaller than the term. -/
theorem Term.sizeOf_lt_of_mem_drawn {t : Term} {manner : Manner} {ids : List NodeId}
    {d : List NodeId × Factor} (h : d ∈ t.drawn manner ids) : sizeOf d.2 < sizeOf t := by
  rcases mem_drawn h with here | ⟨id, body, inner, repetition, hinner, there⟩
  · exact sizeOf_lt_of_mem_factors here
  · calc sizeOf d.2 < sizeOf inner := sizeOf_lt_of_mem_factors there
      _ < sizeOf body := Expression.sizeOf_lt_of_mem_terms hinner
      _ < sizeOf (Factor.bracketed id .repetition body) := Factor.sizeOf_body_lt ..
      _ < sizeOf t := sizeOf_lt_of_mem_factors repetition

/-- The references of a factor in the order of drawing, each with its key. -/
def Factor.references (above : List NodeId) : Factor → List (String × PathKey)
  | .identifier id name =>
    if name.isReference then [(name.text, ⟨above ++ [id, name.id]⟩)] else []
  | .literal _ _ => []
  | .bracketed id bracket body =>
    let manner := (Factor.bracketed id bracket body).manner
    body.terms.attach.flatMap fun ⟨t, _⟩ =>
      (t.drawn manner (above ++ [id, body.id, t.id])).attach.flatMap fun ⟨d, _⟩ =>
        d.2.references d.1
termination_by f => sizeOf f
decreasing_by
  rename_i ht hd
  calc sizeOf d.2 < sizeOf t := Term.sizeOf_lt_of_mem_drawn hd
    _ < sizeOf body := Expression.sizeOf_lt_of_mem_terms ht
    _ < _ := Factor.sizeOf_body_lt ..

/-- The references of a term in the order of drawing. -/
def Term.references (manner : Manner) (above : List NodeId) (t : Term) : List (String × PathKey) :=
  (t.drawn manner (above ++ [t.id])).flatMap fun d => d.2.references d.1

/-- The references of an expression in the order of drawing. -/
def Expression.references (manner : Manner) (above : List NodeId) (e : Expression) :
    List (String × PathKey) :=
  e.terms.flatMap fun t => t.references manner (above ++ [e.id])

theorem Factor.references_bracketed (above : List NodeId) (id : NodeId) (bracket : Bracket)
    (body : Expression) : (Factor.bracketed id bracket body).references above =
      body.references (Factor.bracketed id bracket body).manner (above ++ [id]) := by
  rw [Factor.references]
  simp only [List.flatMap_subtype, List.unattach_attach, Expression.references, Term.references,
    List.append_assoc, List.cons_append, List.nil_append]

/-! ### The order of layouts -/

/-- Factors that are laid out one by one. -/
theorem Factor.flatMap_references_layout {ids : List NodeId} {factors : List Factor}
    (each : ∀ f ∈ factors, ∀ above, (f.layout above).references = f.references above) :
    (factors.map (Factor.layout ids)).flatMap Layout.references =
      (factors.map (ids, ·)).flatMap fun d => d.2.references d.1 := by
  rw [List.flatMap_map, List.flatMap_map]
  exact List.flatMap_congr fun f hf => each f hf ids

/-- The references of brackets, from those of what is in them. -/
theorem Factor.references_layout_bracketed {id : NodeId} {bracket : Bracket} {body : Expression}
    (whole : ∀ above, (body.layout above).references = body.references .whole above)
    (pieces : ∀ t ∈ body.terms, ∀ f ∈ t.factors, ∀ above,
      (f.layout above).references = f.references above) (above : List NodeId) :
    ((Factor.bracketed id bracket body).layout above).references =
      (Factor.bracketed id bracket body).references above := by
  rw [references_bracketed]
  cases bracket with
  | group =>
    simp only [layout_group, Layout.references, Layout.referencesAll, List.append_nil]
    exact whole (above ++ [id])
  | option =>
    rw [layout_option]
    exact whole (above ++ [id])
  | repetition =>
    rw [layout_repetition, manner]
    by_cases parallel : 1 < body.terms.length ∧
        body.terms.all (·.factors.all Factor.isTerminal) = true
    · rw [if_pos parallel, if_pos (by simpa [isParallel] using parallel)]
      simp only [Layout.references, List.nil_append, Layout.referencesAll_eq_flatMap,
        List.flatMap_map, Expression.references]
      refine List.flatMap_congr fun t ht => ?_
      rw [Term.references, Term.drawn_pieces, ← flatMap_references_layout (pieces t ht),
        List.flatMap_map]
    · rw [if_neg parallel, if_neg (by simpa [isParallel] using parallel)]
      exact whole (above ++ [id])

/-- The references of a term, from those of its factors. -/
theorem Term.references_layout {t : Term}
    (each : ∀ f ∈ t.factors, ∀ above, (f.layout above).references = f.references above)
    (nested : ∀ id body, .bracketed id .repetition body ∈ t.factors →
      (∀ above, (body.layout above).references = body.references .whole above) ∧
        ∀ inner ∈ body.terms, ∀ f ∈ inner.factors, ∀ above,
          (f.layout above).references = f.references above) (above : List NodeId) :
    (t.layout above).references = t.references .whole above := by
  rw [references]
  cases t.view with
  | plain plain =>
    rw [drawn_plain _ plain, ← Factor.flatMap_references_layout each]
    obtain ⟨arranged, layout, rfl | rfl⟩ := t.layout_plain above plain <;>
      simp only [layout, Layout.references, Layout.referencesAll_eq_flatMap]
  | @fullMatch keep dropped after id body inner factors decided terms =>
    obtain ⟨repetition, kept, -, behind⟩ := mem_of_cut factors
    have others : ∀ f ∈ keep ++ after, ∀ above, (f.layout above).references = f.references above :=
      fun f hf => each f ((List.mem_append.mp hf).elim (kept f) (behind f))
    rw [t.layout_fullMatch above factors decided, drawn_fullMatch _ factors decided,
      List.flatMap_cons, Factor.references_bracketed, Factor.manner_repetition terms,
      ← (nested id body repetition).1, ← Factor.flatMap_references_layout others]
    simp only [Layout.references, Layout.referencesAll_eq_flatMap, List.map_append,
      List.flatMap_append]
  | @separator keep dropped head tail after id body inner factors decided terms split =>
    obtain ⟨repetition, kept, -, behind⟩ := mem_of_cut factors
    have others : ∀ f ∈ keep ++ after, ∀ above, (f.layout above).references = f.references above :=
      fun f hf => each f ((List.mem_append.mp hf).elim (kept f) (behind f))
    have loop : ∀ f ∈ tail ++ head, ∀ above, (f.layout above).references = f.references above := by
      intro f hf
      refine (nested id body repetition).2 inner (by simp [terms]) f ?_
      rw [split]
      exact List.mem_append.mpr (List.mem_append.mp hf).symm
    rw [t.layout_separator above factors terms split decided,
      drawn_separator _ factors terms split decided, List.flatMap_append,
      ← Factor.flatMap_references_layout others, ← Factor.flatMap_references_layout loop]
    simp only [Layout.references, Layout.referencesAll_eq_flatMap, List.map_append,
      List.flatMap_append, List.append_assoc, List.cons_append, List.nil_append]

/-- **Layouts have their references in the order of drawing.** -/
theorem Parts.references_layout :
    (∀ (e : Expression) (above : List NodeId),
      (e.layout above).references = e.references .whole above) ∧
    (∀ (t : Term) (above : List NodeId),
      (t.layout above).references = t.references .whole above) ∧
    ∀ (f : Factor) (above : List NodeId), (f.layout above).references = f.references above := by
  refine Parts.induction_nested ?expression ?term ?identifier ?literal ?bracketed
  case expression =>
    intro e ih above
    rw [Expression.layout_eq, Expression.references]
    have terms : (e.terms.map (Term.layout (above ++ [e.id]))).flatMap Layout.references =
        e.terms.flatMap fun t => t.references .whole (above ++ [e.id]) := by
      rw [List.flatMap_map]
      exact List.flatMap_congr fun t ht => ih t ht _
    split
    · rename_i only single
      simpa [single] using terms
    · rw [Layout.references, Layout.referencesAll_eq_flatMap, terms]
  case term =>
    intro t each nested
    exact Term.references_layout each fun id body => nested id .repetition body
  case identifier =>
    intro id name above
    rw [Factor.layout_identifier, Factor.references]
    split <;> rfl
  case literal =>
    intro id l above
    rw [Factor.layout_literal, Factor.references]
    rfl
  case bracketed =>
    intro id bracket body whole pieces
    exact Factor.references_layout_bracketed whole pieces

/-! ### The failure of a drawing -/

section Traced

variable {ω ε α β : Type}

/-- Why there is no result, if there is none. -/
def Traced.error? (x : Traced ω ε α) : Option ε :=
  match x.result with
  | .ok _ => none
  | .error e => some e

theorem Traced.error?_eq_some {x : Traced ω ε α} {e : ε} :
    x.error? = some e ↔ x.result = .error e := by
  unfold error?
  cases x.result <;> simp

theorem Traced.error?_of_ok {x : Traced ω ε α} {a : α} (h : x.result = .ok a) :
    x.error? = none := by
  rw [error?, h]

@[simp] theorem Traced.error?_map (f : α → β) (x : Traced ω ε α) : (f <$> x).error? = x.error? := by
  rw [error?, error?, result_map]
  cases x.result <;> rfl

/-- A step that succeeds leaves failures to the next. -/
theorem Traced.error?_bind_of_ok {x : Traced ω ε α} {a : α} (h : x.result = .ok a)
    (f : α → Traced ω ε β) : (x >>= f).error? = (f a).error? := by
  rw [bind_eq_of_ok h]
  rfl

/-- The first of two steps fails first, if it fails. -/
theorem Traced.error?_bind {x : Traced ω ε α} {f : α → Traced ω ε β} {next : Option ε}
    (h : ∀ a, (f a).error? = next) : (x >>= f).error? = x.error?.or next := by
  cases result : x.result with
  | ok a => rw [error?_bind_of_ok result, h, error?_of_ok result, Option.none_or]
  | error e =>
    rw [bind_eq_of_error result, error?_eq_some.mpr result]
    rfl

end Traced

/-- The first that is found for the items is the first that is found for what they consist of. -/
theorem findSome?_eq_findSome?_flatMap {α β γ : Type} {items : List α} {parts : α → List β}
    {ofItem : α → Option γ} {ofPart : β → Option γ}
    (each : ∀ a ∈ items, ofItem a = (parts a).findSome? ofPart) :
    items.findSome? ofItem = (items.flatMap parts).findSome? ofPart := by
  induction items with
  | nil => rfl
  | cons a rest ih =>
    obtain ⟨first, others⟩ := List.forall_mem_cons.mp each
    rw [List.findSome?_cons, List.flatMap_cons, List.findSome?_append, first, ih others]
    cases (parts a).findSome? ofPart <;> rfl

namespace Layout

variable {refer : String → PathKey → Drawing Track}

theorem error?_drawAll (items : List Layout) :
    (drawAll refer items).error? = items.findSome? fun item => (item.draw refer).error? := by
  induction items with
  | nil => rfl
  | cons item rest ih =>
    rw [drawAll, Traced.error?_bind fun _ => (Traced.error?_map _ _).trans ih, List.findSome?_cons]
    cases (item.draw refer).error? <;> rfl

/-- **A layout fails as the first of its references that fails.** -/
theorem error?_draw (l : Layout) :
    (l.draw refer).error? = l.references.findSome? fun r => (refer r.1 r.2).error? := by
  induction l using Layout.induction with
  | reference name path => simp [references, draw]
  | node l node ih =>
    have recorded : (Traced.record (l.notes.map .laidOut) : Drawing Unit).result = .ok () := rfl
    rw [draw_node node, Traced.error?_bind_of_ok recorded, Traced.error?_map, error?_drawAll,
      references_node node]
    exact findSome?_eq_findSome?_flatMap ih

end Layout

/-! ### The order of a diagram -/

/-- The reference that is recorded, with its key. -/
def DrawingEvent.occurrence? : DrawingEvent → Option (String × PathKey)
  | .laidOut _ => none
  | .collapsed name path | .expanding name path => some (name, path)

namespace Grammar

variable {g : Grammar} {selected : PathKey → Bool}

/-- A reference and, if it is opened, the references inside it, in the order of drawing. At most
`levels` references are opened inside one another. -/
def unfolded (g : Grammar) (selected : PathKey → Bool) :
    (levels : Nat) → String × PathKey → List (String × PathKey)
  | 0, r => [r]
  | levels + 1, r =>
    r :: if r.2.depth < maxDepth ∧ selected r.2 then
        (g.find? r.1).toList.flatMap fun p =>
          (p.body.references .whole r.2.ids).flatMap (g.unfolded selected levels)
      else []

/-- The references that are drawn from a production on, in the order of drawing, each with its key.
A reference that is opened stands before those inside it. -/
def occurrences (g : Grammar) (selected : PathKey → Bool) (p : Production) :
    List (String × PathKey) :=
  (p.body.references .whole [p.id]).flatMap (g.unfolded selected maxDepth)

/-- Why a reference cannot be drawn: it is to be opened, and no production has its name. -/
def failure? (g : Grammar) (selected : PathKey → Bool) (r : String × PathKey) :
    Option DiagramError :=
  if r.2.depth < maxDepth ∧ selected r.2 = true ∧ r.1 ∉ g.names then
    some (.productionNotFound ⟨r.1, closest? r.1 g.names⟩)
  else none

/-- A name is declared exactly if there is a production for it. -/
theorem find?_eq_none_iff {name : String} : g.find? name = none ↔ name ∉ g.names := by
  simp [find?, names]

theorem mem_names_of_find? {name : String} {p : Production} (h : g.find? name = some p) :
    name ∈ g.names := by
  by_contra absent
  cases h.symm.trans (find?_eq_none_iff.mpr absent)

section DrawOpened

variable {refer : String → PathKey → Drawing Track} {name : String} {path : PathKey}

/-- A reference cannot be opened if its name is not declared. -/
theorem error?_drawOpened_of_notMem (absent : name ∉ g.names) :
    (g.drawOpened refer name path).error? =
      some (.productionNotFound ⟨name, closest? name g.names⟩) := by
  have undeclared :
      (Traced.ofExcept ((g.lookup name).mapError DiagramError.productionNotFound) :
        Drawing Production).result = .error (.productionNotFound ⟨name, closest? name g.names⟩) := by
    rw [lookup, find?_eq_none_iff.mpr absent]
    rfl
  rw [drawOpened, Traced.error?_bind_of_ok rfl, Traced.bind_eq_of_error undeclared]
  rfl

/-- A reference to a production fails as what is drawn inside it. -/
theorem error?_drawOpened {p : Production} (found : g.find? name = some p) :
    (g.drawOpened refer name path).error? = ((p.body.layout path.ids).draw refer).error? := by
  have declared : (Traced.ofExcept ((g.lookup name).mapError DiagramError.productionNotFound) :
      Drawing Production).result = .ok p := mapError_lookup_eq_ok.mpr found
  rw [drawOpened, Traced.error?_bind_of_ok rfl, Traced.error?_bind_of_ok declared,
    Traced.error?_map]

end DrawOpened

theorem error?_drawClosed {name : String} {path : PathKey}
    (closed : ¬ (path.depth < maxDepth ∧ selected path = true)) :
    (drawClosed name path).error? = g.failure? selected (name, path) := by
  rw [failure?, if_neg fun both => closed ⟨both.1, both.2.1⟩]
  rfl

/-- **A reference fails as the first among itself and those inside it that cannot be drawn.** -/
theorem error?_drawReference {levels : Nat} {r : String × PathKey}
    (room : maxDepth ≤ levels + r.2.depth) :
    (g.drawReference selected levels r.1 r.2).error? =
      (g.unfolded selected levels r).findSome? (g.failure? selected) := by
  induction levels generalizing r with
  | zero =>
    have short : ¬ (r.2.depth < maxDepth ∧ selected r.2 = true) := by omega
    rw [drawReference, error?_drawClosed short, unfolded, List.findSome?_singleton]
  | succ levels ih =>
    by_cases opened : r.2.depth < maxDepth ∧ selected r.2 = true
    · rw [drawReference_of_opened opened, unfolded, if_pos opened, List.findSome?_cons]
      cases found : g.find? r.1 with
      | none =>
        have absent := find?_eq_none_iff.mp found
        rw [error?_drawOpened_of_notMem absent, failure?, if_pos ⟨opened.1, opened.2, absent⟩]
      | some p =>
        have declared : g.failure? selected r = none :=
          if_neg fun both => both.2.2 (mem_names_of_find? found)
        rw [error?_drawOpened found, declared, Layout.error?_draw, Option.toList_some,
          List.flatMap_singleton, ← Parts.references_layout.1]
        refine findSome?_eq_findSome?_flatMap fun inner hinner => ih ?_
        have deeper := Expression.depth_lt_of_mem_references hinner
        omega
    · rw [drawReference_of_closed opened, error?_drawClosed opened, unfolded, if_neg opened,
        List.findSome?_singleton]

/-- **A diagram fails as the first reference in the order of drawing that cannot be drawn**, once
there is a production to start from. -/
theorem error?_draw {start : Option String} {p : Production}
    (started : g.startProduction start = .ok p) :
    (g.draw start selected).error? =
      (g.occurrences selected p).findSome? (g.failure? selected) := by
  have found : (Traced.ofExcept (g.startProduction start) : Drawing Production).result = .ok p :=
    started
  rw [draw, Traced.error?_bind_of_ok found, Traced.error?_map, drawProduction, Traced.error?_map,
    Layout.error?_draw, Parts.references_layout.1]
  exact findSome?_eq_findSome?_flatMap fun r _ => error?_drawReference (Nat.le_add_right _ _)

/-! ### The record of a drawing -/

/-- The record of a reference lists what is drawn for it, in this order. -/
theorem filterMap_events_drawReference {levels : Nat} {r : String × PathKey}
    (room : maxDepth ≤ levels + r.2.depth)
    (h : (g.drawReference selected levels r.1 r.2).Succeeds) :
    (g.drawReference selected levels r.1 r.2).events.filterMap DrawingEvent.occurrence? =
      g.unfolded selected levels r := by
  induction levels generalizing r with
  | zero => rfl
  | succ levels ih =>
    by_cases opened : r.2.depth < maxDepth ∧ selected r.2 = true
    · rw [drawReference_of_opened opened] at h ⊢
      rw [unfolded, if_pos opened]
      obtain ⟨t, drawn⟩ := h
      obtain ⟨p, inner, found, body, -⟩ := result_drawOpened_eq_ok.mp drawn
      have each := (Layout.succeeds_draw_iff _).mp ⟨inner, body⟩
      rw [events_drawOpened found, found, Option.toList_some, List.flatMap_singleton,
        List.filterMap_cons, Layout.filterMap_events_draw (fun _ => rfl) _ ⟨inner, body⟩,
        ← Parts.references_layout.1]
      refine congrArg (r :: ·) (List.flatMap_congr fun inside hinside => ?_)
      have deeper := Expression.depth_lt_of_mem_references hinside
      exact ih (by omega) (each inside hinside)
    · rw [drawReference_of_closed opened, unfolded, if_neg opened]
      rfl

/-- **The record of a diagram lists its references in the order of drawing.** -/
theorem filterMap_events_eq_occurrences {start : Option String} {p : Production}
    (started : g.startProduction start = .ok p) (h : (g.draw start selected).Succeeds) :
    (g.draw start selected).events.filterMap DrawingEvent.occurrence? =
      g.occurrences selected p := by
  obtain ⟨d, drawn⟩ := h
  obtain ⟨p', track, started', body, -⟩ := result_draw_eq_ok.mp drawn
  obtain rfl : p = p' := Except.ok.inj (started.symm.trans started')
  have each := (Layout.succeeds_draw_iff _).mp ⟨track, body⟩
  rw [events_draw started, Layout.filterMap_events_draw (fun _ => rfl) _ ⟨track, body⟩, occurrences,
    ← Parts.references_layout.1]
  exact List.flatMap_congr fun r hr =>
    filterMap_events_drawReference (Nat.le_add_right _ _) (each r hr)

end Grammar

end Railroad
