import Railroad.Proofs.Expandable
import Railroad.Session

/-!
What a change does to a session, and to the diagram that is shown of it.

* `Session.Step`, `Session.apply_eq_ok_iff`: what a change makes of a session.
* `Session.diagram_of_fewer`: to close references is to close their groups, and nothing else.
* `Session.diagram_of_apply`: so each change is seen in the groups that it is about and nowhere else.
* `Session.mem_toggle`, `Session.Ordered.toggle_toggle`: to toggle changes one key, and to do it again
  leaves the session as it was.
* `Session.Ordered.after`: whatever is done, no key is kept twice. `Session.getElem?_answers`: each
  answer is that of the session after the changes before it.
-/

namespace Railroad

namespace Session

variable {g : Grammar} {s next : Session} {change : SessionChange}

theorem mem_expandAll {keys : List PathKey} {key : PathKey} :
    key ∈ (s.expandAll keys).expanded ↔ key ∈ keys ∨ key ∈ s.expanded := by
  rw [expandAll, PathKey.mem_sorted, List.mem_append]

theorem mem_toggle {key other : PathKey} :
    other ∈ (s.toggle key).expanded ↔ (other = key ↔ other ∉ s.expanded) := by
  rw [toggle]
  split <;> by_cases equal : other = key <;> simp_all [mem_expandAll]

theorem start_toggle (s : Session) (key : PathKey) : (s.toggle key).start = s.start := by
  rw [toggle]
  split <;> rfl

theorem result_lift_eq_ok {α : Type} {drawing : Drawing α} {a : α} :
    (lift drawing).result = .ok a ↔ drawing.result = .ok a := by
  rw [lift]
  cases drawing.result <;> simp [Except.mapError]

/-- The session has a diagram. -/
def Draws (g : Grammar) (s : Session) (d : Diagram) : Prop :=
  (s.diagram g).result = .ok d

theorem draws_iff {d : Diagram} :
    s.Draws g d ↔ (g.draw s.start fun key => decide (key ∈ s.expanded)).result = .ok d := by
  rw [Draws, diagram, result_lift_eq_ok, Grammar.diagram_eq]

/-! ### One change -/

/-- What a change makes of a session. -/
inductive Step (g : Grammar) (s : Session) : SessionChange → Session → Prop where
  | start (name : Option String) : Step g s (.start name) { s with start := name }
  | expand {text : String} {key : PathKey} : PathKey.ofString? text = .ok key →
      Step g s (.expand text) (s.expandAll [key])
  | collapse (text : String) :
      Step g s (.collapse text) { s with expanded := s.expanded.filter (·.text ≠ text) }
  | clear : Step g s .clear { s with expanded := [] }
  | all {keys : List PathKey} : (g.expandablePaths s.start).result = .ok keys →
      Step g s .all (s.expandAll keys)
  /-- The diagram has a name with this index. -/
  | toggle {index : Nat} {d : Diagram} {key : PathKey} : s.Draws g d →
      d.root.referencePaths[index]? = some key → Step g s (.toggle index) (s.toggle key)
  /-- The diagram has fewer names. -/
  | miss {index : Nat} {d : Diagram} : s.Draws g d → d.root.referencePaths[index]? = none →
      Step g s (.toggle index) s

/-- **A change that succeeds** makes of the session what it says. -/
theorem apply_eq_ok_iff : (s.apply g change).result = .ok next ↔ Step g s change next := by
  constructor
  · intro changed
    cases change with
    | start name =>
      obtain rfl := Except.ok.inj changed
      exact .start name
    | expand text =>
      rw [apply] at changed
      cases read : PathKey.ofString? text with
      | error e =>
        rw [read] at changed
        cases changed
      | ok key =>
        rw [read] at changed
        obtain rfl := Except.ok.inj changed
        exact .expand read
    | collapse text =>
      obtain rfl := Except.ok.inj changed
      exact .collapse text
    | clear =>
      obtain rfl := Except.ok.inj changed
      exact .clear
    | all =>
      obtain ⟨keys, listed, done⟩ := Traced.result_bind_eq_ok.mp changed
      obtain rfl := Except.ok.inj done
      exact .all (result_lift_eq_ok.mp listed)
    | toggle index =>
      obtain ⟨d, drawn, done⟩ := Traced.result_bind_eq_ok.mp changed
      cases found : d.root.referencePaths[index]? with
      | none =>
        rw [found] at done
        obtain rfl := Except.ok.inj done
        exact .miss drawn found
      | some key =>
        rw [found] at done
        obtain rfl := Except.ok.inj done
        exact .toggle drawn found
  · intro step
    cases step with
    | start name => rfl
    | expand read =>
      rw [apply, read]
      rfl
    | collapse text => rfl
    | clear => rfl
    | all listed => exact Traced.result_bind_eq_ok.mpr ⟨_, result_lift_eq_ok.mpr listed, rfl⟩
    | toggle drawn found => exact Traced.result_bind_eq_ok.mpr ⟨_, drawn, by rw [found]; rfl⟩
    | miss drawn found => exact Traced.result_bind_eq_ok.mpr ⟨_, drawn, by rw [found]; rfl⟩

/-! ### Its diagram -/

/-- **To close references is to close their groups.** The rest of the diagram stays. -/
theorem diagram_of_fewer {s s' : Session} {closed : PathKey → Bool} {d : Diagram}
    (drawn : s.Draws g d) (start : s'.start = s.start)
    (fewer : ∀ key, key ∈ s'.expanded ↔ key ∈ s.expanded ∧ closed key = false) :
    s'.Draws g ⟨d.start, d.root.collapse closed⟩ := by
  rw [draws_iff] at drawn ⊢
  rw [start]
  refine Grammar.draw_collapse ?_ ?_ drawn
  · intro key opened
    simp only [decide_eq_true_eq] at opened ⊢
    exact ((fewer key).mp opened).1
  · intro key opened
    simp only [decide_eq_true_eq] at opened
    simp [fewer key, opened]

/-- The diagram from before is the one with more opened, with the others closed. -/
theorem diagram_of_expandAll {keys : List PathKey} {d' : Diagram}
    (drawn : (s.expandAll keys).Draws g d') :
    s.Draws g ⟨d'.start, d'.root.collapse fun key => key ∉ s.expanded⟩ := by
  refine diagram_of_fewer drawn rfl fun key => ?_
  rw [mem_expandAll]
  by_cases opened : key ∈ s.expanded <;> simp [opened]

/-- With all keys that can be opened, there is a diagram, and what it leaves closed is too deep. -/
theorem exists_draws_expandAll {keys : List PathKey}
    (listed : (g.expandablePaths s.start).result = .ok keys) :
    ∃ d', (s.expandAll keys).Draws g d' ∧
      ∀ name path, .nonTerminal name path ∈ d'.root.nodes → maxDepth ≤ path.depth := by
  obtain ⟨⟨d', drawn⟩, rfl⟩ := Grammar.result_expandablePaths_eq_ok.mp listed
  refine ⟨d', ?_, fun _ _ => Grammar.maxDepth_le_of_mem_nodes drawn⟩
  apply result_lift_eq_ok.mpr
  rw [← drawn]
  exact congrArg Traced.result (Grammar.diagram_of_openedKeys fun key opened =>
    mem_expandAll.mpr (.inl (PathKey.mem_sorted.mpr opened)))

/-- **What a change does to the diagram.** Another start keeps the opened references. To open a
reference adds its group: with that group closed the diagram is the one from before. To close one
closes its group, and to close all closes every group; there is always a diagram then. To open all
leaves only what is too deep closed, and the groups that were not opened before are all that is new.
The name that is toggled is closed if it is open, and else it is opened. -/
theorem diagram_of_apply {d : Diagram} (drawn : s.Draws g d)
    (changed : (s.apply g change).result = .ok next) :
    match change with
    | .start name => next.start = name ∧ next.expanded = s.expanded
    | .expand text => ∃ key : PathKey, key.text = text ∧ ∀ d', next.Draws g d' →
        d = ⟨d'.start, d'.root.collapse fun other => other = key ∧ key ∉ s.expanded⟩
    | .collapse text => next.Draws g ⟨d.start, d.root.collapse (·.text = text)⟩
    | .clear => next.Draws g ⟨d.start, d.root.collapse fun _ => true⟩
    | .all => ∃ d', next.Draws g d' ∧
        (∀ name path, .nonTerminal name path ∈ d'.root.nodes → maxDepth ≤ path.depth) ∧
        d = ⟨d'.start, d'.root.collapse fun key => key ∉ s.expanded⟩
    | .toggle index =>
      match d.root.referencePaths[index]? with
      | none => next = s
      | some key =>
        if key ∈ s.expanded then next.Draws g ⟨d.start, d.root.collapse (· = key)⟩
        else ∀ d', next.Draws g d' → d = ⟨d'.start, d'.root.collapse (· = key)⟩ := by
  have same : ∀ {e : Diagram}, s.Draws g e → d = e := fun drawn' =>
    Except.ok.inj (drawn.symm.trans drawn')
  -- What one more key changes can be undone by closing it.
  have opens : ∀ {key : PathKey} {d' : Diagram}, (s.expandAll [key]).Draws g d' →
      d = ⟨d'.start, d'.root.collapse fun other => other = key ∧ key ∉ s.expanded⟩ := by
    intro key d' drawn'
    refine same (diagram_of_fewer drawn' rfl fun other => ?_)
    rw [mem_expandAll, List.mem_singleton]
    by_cases equal : other = key
    · subst equal
      by_cases opened : other ∈ s.expanded <;> simp [opened]
    · simp [equal]
  cases apply_eq_ok_iff.mp changed with
  | start name => exact ⟨rfl, rfl⟩
  | expand read => exact ⟨_, ((PathKey.ofString?_eq_ok_iff.mp read).2).symm, fun _ => opens⟩
  | collapse text => exact diagram_of_fewer drawn rfl fun key => by simp
  | clear => exact diagram_of_fewer drawn rfl fun key => by simp
  | all listed =>
    obtain ⟨d', drawn', deep⟩ := exists_draws_expandAll listed
    exact ⟨d', drawn', deep, same (diagram_of_expandAll drawn')⟩
  | miss drawn' found =>
    obtain rfl := same drawn'
    simp only [found]
  | @toggle index _ key drawn' found =>
    obtain rfl := same drawn'
    simp only [found]
    split
    · rename_i opened
      refine diagram_of_fewer drawn (start_toggle s key) fun other => ?_
      rw [mem_toggle]
      by_cases equal : other = key <;> simp [equal, opened]
    · rename_i unopened
      intro d' drawn'
      rw [Session.toggle, if_neg unopened] at drawn'
      simpa [unopened] using opens drawn'

/-! ### The keys that are kept -/

/-- The keys are kept in ascending order, each of them once. -/
def Ordered (s : Session) : Prop :=
  s.expanded.Pairwise fun k l => k.text < l.text

theorem ordered_expandAll (s : Session) (keys : List PathKey) : (s.expandAll keys).Ordered :=
  PathKey.pairwise_sorted _

namespace Ordered

protected theorem toggle (ordered : s.Ordered) (key : PathKey) : (s.toggle key).Ordered := by
  rw [Session.toggle]
  split
  · exact ordered.filter _
  · exact ordered_expandAll _ _

/-- No change keeps a key twice. -/
theorem of_step (ordered : s.Ordered) (step : Step g s change next) : next.Ordered := by
  cases step with
  | start | miss => exact ordered
  | expand | all => exact ordered_expandAll _ _
  | collapse => exact ordered.filter _
  | clear => exact .nil
  | toggle => exact ordered.toggle _

/-- Keys that are kept in order are kept in one way only. -/
theorem ext {s s' : Session} (ordered : s.Ordered) (ordered' : s'.Ordered)
    (start : s.start = s'.start) (same : ∀ key, key ∈ s.expanded ↔ key ∈ s'.expanded) : s = s' := by
  obtain ⟨name, keys⟩ := s
  obtain ⟨name', keys'⟩ := s'
  obtain rfl : name = name' := start
  exact congrArg (Session.mk name) (PathKey.eq_of_mem_iff ordered ordered' same)

/-- **To toggle a reference twice leaves the session as it was.** -/
theorem toggle_toggle (ordered : s.Ordered) (key : PathKey) : (s.toggle key).toggle key = s := by
  refine ext ((ordered.toggle key).toggle key) ordered ?_ fun other => ?_
  · rw [start_toggle, start_toggle]
  · rw [mem_toggle, mem_toggle]
    by_cases equal : other = key <;> simp [equal]

end Ordered

/-! ### Many changes -/

/-- The session after some changes. -/
def after (g : Grammar) : Session → List SessionChange → Session
  | s, [] => s
  | s, change :: rest => after g (s.answer g change).1 rest

/-- A change that fails leaves the session as it was. -/
theorem answer_fst (g : Grammar) (s : Session) (change : SessionChange) :
    (s.answer g change).1 = s ∨ Step g s change (s.answer g change).1 := by
  rw [answer]
  cases changed : (s.apply g change).result with
  | error e => exact .inl rfl
  | ok next => exact .inr (apply_eq_ok_iff.mp changed)

/-- **Whatever is done, no key is kept twice.** -/
theorem Ordered.after (ordered : s.Ordered) (changes : List SessionChange) :
    (s.after g changes).Ordered := by
  induction changes generalizing s with
  | nil => exact ordered
  | cons change rest ih =>
    apply ih
    rcases answer_fst g s change with kept | step
    · rwa [kept]
    · exact ordered.of_step step

/-- **Each answer is that of the session after the changes before it.** -/
theorem getElem?_answers (g : Grammar) (s : Session) (changes : List SessionChange) (index : Nat) :
    (answers g s changes)[index]? =
      changes[index]?.map fun change => ((s.after g (changes.take index)).answer g change).2 := by
  induction changes generalizing s index with
  | nil => rfl
  | cons change rest ih =>
    cases index with
    | zero => rfl
    | succ index => exact ih (s.answer g change).1 index

end Session

end Railroad
