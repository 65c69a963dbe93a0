import Railroad.Proofs.Occurrences
import Railroad.Proofs.References

/-!
Chains of ids, whatever they lead to.

* `Place.prefix_of_chain`: a chain only gets longer.
* `Place.Step.of_opened`: a step needs at most one reference to be opened.
* `Place.Step.mono`, `Leads.opened_mono`: the more is selected, the further chains lead.
* `Grammar.mem_marks_draw_iff`: the marks of a diagram are those to which chains from its start
  lead.
* `Expression.chain_of_mem_references`: a chain leads to each reference of a layout.
-/

namespace Railroad

section Chains

variable {g : Grammar} {selected selected' : PathKey → Bool}

/-- A step adds one id to a chain. -/
theorem Place.Step.ids_eq {here next : List NodeId × Place} (h : Place.Step g selected here next) :
    ∃ id, next.1 = here.1 ++ [id] := by
  cases h <;> exact ⟨_, rfl⟩

/-- A chain only gets longer. -/
theorem Place.prefix_of_chain {here there : List NodeId × Place}
    (h : Relation.ReflTransGen (Place.Step g selected) here there) : here.1 <+: there.1 := by
  induction h with
  | refl => exact List.prefix_refl _
  | tail _ step ih =>
    obtain ⟨id, ids⟩ := step.ids_eq
    rw [ids]
    exact ih.trans (List.prefix_append _ _)

/-- What can be opened if less is selected can be opened if more is. -/
theorem Grammar.Opens.mono (more : ∀ key, selected' key = true → selected key = true)
    {key : PathKey} {name : String} {p : Production} (h : g.Opens selected' key name p) :
    g.Opens selected key name p :=
  ⟨h.1, more key h.2.1, h.2.2⟩

/-- A step needs at most the reference that it leaves to be opened. -/
theorem Place.Step.of_opened {here next : List NodeId × Place}
    (h : Place.Step g selected here next)
    (opened : selected ⟨here.1⟩ = true → selected' ⟨here.1⟩ = true) :
    Place.Step g selected' here next := by
  cases h with
  | term ht => exact .term ht
  | factor found drawn => exact .factor found drawn
  | body => exact .body
  | literal => exact .literal
  | name small => exact .name small
  | reference capital => exact .reference capital
  | opened opens => exact .opened ⟨opens.1, opened opens.2.1, opens.2.2⟩

theorem Place.Step.mono (more : ∀ key, selected' key = true → selected key = true)
    {here next : List NodeId × Place} (h : Place.Step g selected' here next) :
    Place.Step g selected here next :=
  h.of_opened (more _)

/-- A reference that is opened stays open if more is selected. -/
theorem Leads.opened_mono (more : ∀ key, selected' key = true → selected key = true)
    {start : List NodeId × Place} {key : PathKey} {name : String}
    (h : Leads g selected' start (key, .opened name)) :
    Leads g selected start (key, .opened name) := by
  obtain ⟨place, chain, shown⟩ := h
  refine ⟨place, Relation.ReflTransGen.mono (fun _ _ step => step.mono more) _ _ chain, ?_⟩
  cases place with
  | reference name' =>
    obtain ⟨same, p, opens⟩ := shown
    exact ⟨same, p, opens.mono more⟩
  | _ => cases shown

/-- **The marks of a diagram are those to which chains from its start lead.** -/
theorem Grammar.mem_marks_draw_iff {start : Option String} {d : Diagram}
    (drawn : (g.draw start selected).result = .ok d) :
    ∃ p, g.startProduction start = .ok p ∧ ∀ mark, mark ∈ d.root.marks ↔
      Leads g selected ([p.id, p.body.id], .expression p.body .whole) mark := by
  obtain ⟨p, started, rfl⟩ := draw_eq_ok drawn
  have follows : Follows g selected (g.shown selected maxDepth) 0 := fun _ _ _ =>
    mem_marks_shown_iff (Nat.le_add_right _ _)
  refine ⟨p, started, fun mark => ?_⟩
  rw [Track.marks_sequence, List.flatMap_singleton]
  exact (Parts.mem_marks_iff follows).1 p.body [p.id] (Nat.zero_le _) mark

end Chains

/-! ### References of a layout -/

namespace Expression

variable {e : Expression} {above : List NodeId} {r : String × PathKey}

/-- **A chain leads from an expression to each reference of its layout**, whatever is selected. -/
theorem chain_of_mem_references (g : Grammar) (selected : PathKey → Bool)
    (h : r ∈ (e.layout above).references) :
    Relation.ReflTransGen (Place.Step g selected) (above ++ [e.id], .expression e .whole)
      (r.2.ids, .reference r.1) := by
  -- With every reference closed, each of them is shown at the end of a chain.
  have follows : Follows g (fun _ => false) Track.nonTerminal 0 := by
    intro name path _ mark
    have closed : ¬ ∃ p, g.Opens (fun _ => false) path name p := by
      rintro ⟨p, -, chosen, -⟩
      cases chosen
    rw [Track.marks_nonTerminal, List.mem_singleton, Grammar.leads_closed closed]
  have shown : (r.2, Mark.closed r.1) ∈ ((e.layout above).track Track.nonTerminal).references := by
    rw [(Layout.references_track Track.nonTerminal _).mem_iff, List.mem_flatMap]
    exact ⟨r, h, by simp⟩
  obtain ⟨place, chain, closed⟩ :=
    ((Parts.mem_marks_iff follows).1 e above (Nat.zero_le _) _).mp (List.mem_of_mem_filter shown)
  cases place with
  | reference name =>
    rw [show r.1 = name from closed.1]
    have more : ∀ key : PathKey, false = true → selected key = true := by simp
    exact Relation.ReflTransGen.mono (fun _ _ step => step.mono more) _ _ chain
  | _ => cases closed

/-- The references of a layout have longer keys than what is above it. -/
theorem depth_lt_of_mem_references {path : PathKey} (h : r ∈ (e.layout path.ids).references) :
    path.depth < r.2.depth := by
  have below := Place.prefix_of_chain (chain_of_mem_references ⟨0, []⟩ (fun _ => false) h)
  have longer := below.length_le
  rw [List.length_append, List.length_singleton] at longer
  exact longer

end Expression

end Railroad
