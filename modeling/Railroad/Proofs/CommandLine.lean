import Railroad.Command
import Railroad.Proofs.Expandable
import Railroad.Proofs.Options

/-!
What a run depends on.

* `Command.readGrammar_eq_ok_iff`, `Command.execute_eq_ok_iff_answer`: the grammar comes from the text
  that is read, and what is asked for of it is printed.
* `Grammar.diagram_congr`, `Command.drawn_congr`: a drawing depends on which keys are given, not on
  their order.
* `Command.execute_reordered`: so nothing that is asked for does.
* `Command.run_perm_units`: the order of the options makes no difference to a run.
-/

namespace Railroad

/-- The diagram for a list of keys does not depend on their order. -/
theorem Grammar.diagram_congr {g : Grammar} {start : Option String} {keys keys' : List PathKey}
    (h : ∀ key, key ∈ keys ↔ key ∈ keys') : g.diagram start keys = g.diagram start keys' := by
  have selected : (fun key => decide (key ∈ keys)) = fun key => decide (key ∈ keys') := by
    funext key
    exact decide_eq_decide.mpr (h key)
  rw [diagram_eq, diagram_eq, selected]

namespace Command

/-! ### The grammar that is read -/

/-- The text that the grammar is read from. There is none if the file cannot be read or if the bytes
are no text. -/
def inputText? (o : Options) (sources : Sources) : Option String :=
  (readBytes o sources).toOption.bind String.fromUTF8?

/-- A grammar is read from the text, if there is one. -/
theorem readGrammar_eq_ok_iff {o : Options} {sources : Sources} {g : Grammar} :
    readGrammar o sources = .ok g ↔
      ∃ text, inputText? o sources = some text ∧ Grammar.ofString? text = .ok g := by
  unfold readGrammar inputText?
  cases readBytes o sources with
  | error e => simp [bind, Except.bind, Except.toOption]
  | ok bytes =>
    simp only [bind, Except.bind, Except.toOption, Option.bind_some]
    cases String.fromUTF8? bytes with
    | none => simp [throw, throwThe, MonadExceptOf.throw]
    | some text => cases parsed : Grammar.ofString? text <;> simp [Except.mapError, parsed]

/-- Where a grammar is read, a run prints what is asked for of it. -/
theorem execute_eq_ok_iff_answer {o : Options} (reads : o.command ≠ .schema) {sources : Sources}
    {output : String} :
    execute o sources = .ok output ↔
      ∃ g, readGrammar o sources = .ok g ∧ answer g o = .ok output := by
  rw [execute, if_neg reads]
  cases readGrammar o sources with
  | error e => simp [bind, Except.bind]
  | ok g => cases answered : answer g o <;> simp [bind, Except.bind, Except.mapError, answered]

/-! ### The order of the options -/

/-- What is drawn is the diagram for the keys that are to be opened. -/
theorem drawn_of_keys {g : Grammar} {o : Options} {keys : List PathKey}
    (given : keysToExpand g o = .ok keys) :
    drawn g o = (g.diagram o.start keys).result.map (printed (o.format.getD .json)) := by
  rw [drawn, given]
  rfl

/-- Options with the same start and format draw the same with the same keys. -/
theorem drawn_congr {g : Grammar} {o o' : Options} {keys keys' : List PathKey}
    (start : o'.start = o.start) (format : o'.format = o.format)
    (given : keysToExpand g o = .ok keys) (given' : keysToExpand g o' = .ok keys')
    (same : ∀ key, key ∈ keys' ↔ key ∈ keys) : drawn g o' = drawn g o := by
  rw [drawn_of_keys given, drawn_of_keys given', start, format, Grammar.diagram_congr same]

/-- With everything expanded, the listed keys come after the given ones. -/
theorem keysToExpand_of_listed {g : Grammar} {o : Options} (all : o.expandAll = true)
    {paths : List PathKey} (listed : (g.expandablePaths o.start).result = .ok paths) :
    keysToExpand g o = .ok (o.expand ++ paths) := by
  rw [keysToExpand, if_pos all, listed]
  rfl

/-- Otherwise only the given ones are opened. -/
theorem keysToExpand_of_given {g : Grammar} {o : Options} (selected : o.expandAll = false) :
    keysToExpand g o = .ok o.expand :=
  if_neg (by simp [selected])

/-- With everything expanded, nothing is drawn where no keys are listed. -/
theorem drawn_of_not_listed {g : Grammar} {o : Options} (all : o.expandAll = true)
    {e : DiagramError} (failed : (g.expandablePaths o.start).result = .error e) :
    drawn g o = .error e := by
  rw [drawn, keysToExpand, if_pos all, failed]
  rfl

theorem drawn_reordered {o o' : Options} (h : o.Reordered o') (g : Grammar) :
    drawn g o' = drawn g o := by
  obtain ⟨keys, same, rfl⟩ := h
  by_cases all : o.expandAll = true
  · cases listed : (g.expandablePaths o.start).result with
    | error e =>
      rw [drawn_of_not_listed all listed]
      exact drawn_of_not_listed (o := { o with expand := keys }) all listed
    | ok paths =>
      have given := keysToExpand_of_listed all listed
      have given' := keysToExpand_of_listed (o := { o with expand := keys }) all listed
      exact drawn_congr rfl rfl given given' fun _ => (same.symm.append_right paths).mem_iff
  · exact drawn_congr rfl rfl (if_neg all) (if_neg all) fun _ => same.symm.mem_iff

theorem execute_reordered {o o' : Options} (h : o.Reordered o') (sources : Sources) :
    execute o' sources = execute o sources := by
  have draws := drawn_reordered h
  obtain ⟨keys, same, rfl⟩ := h
  unfold execute answer
  simp only [draws]
  rfl

/-- **The order of the options makes no difference.** Two argument lists whose units are the same but
for their order are both refused, or both give the same options but for the order of the keys; and
whatever can be read, and whatever the program is called, they run to the same response. -/
theorem run_perm_units {args args' : List String} {units units' : List (List String)}
    (cut : Argument.units? args = some units) (cut' : Argument.units? args' = some units')
    (same : units.Perm units') :
    Option.Rel Options.Reordered (Options.ofArguments? args) (Options.ofArguments? args') ∧
      ∀ sources program, run args sources program = run args' sources program := by
  have related : Option.Rel Options.Reordered (Options.ofArguments? args)
      (Options.ofArguments? args') := by
    cases accepted : Options.ofArguments? args with
    | some o =>
      obtain ⟨o', accepted', reordered⟩ := Options.ofArguments?_perm cut cut' same accepted
      rw [accepted']
      exact .some reordered
    | none =>
      cases accepted' : Options.ofArguments? args' with
      | none => exact .none
      | some o' =>
        obtain ⟨o, accepted'', -⟩ := Options.ofArguments?_perm cut' cut same.symm accepted'
        rw [accepted] at accepted''
        cases accepted''
  refine ⟨related, fun sources program => ?_⟩
  unfold run
  generalize Options.ofArguments? args = found, Options.ofArguments? args' = found' at related
  cases related with
  | none => rfl
  | some reordered => simp only [execute_reordered reordered]

/-- The keys may be given in either order, and the input first or last. -/
theorem run_perm_units_keys :
    Option.Rel Options.Reordered
        (Options.ofArguments? ["--start", "A", "--expand", "1-2", "--expand", "1-3", "g.wsn"])
        (Options.ofArguments? ["g.wsn", "--expand", "1-3", "--start", "A", "--expand", "1-2"]) ∧
      ∀ sources program,
        run ["--start", "A", "--expand", "1-2", "--expand", "1-3", "g.wsn"] sources program =
          run ["g.wsn", "--expand", "1-3", "--start", "A", "--expand", "1-2"] sources program := by
  have cut : Argument.units? ["--start", "A", "--expand", "1-2", "--expand", "1-3", "g.wsn"] =
      some [["--start", "A"], ["--expand", "1-2"], ["--expand", "1-3"], ["g.wsn"]] := by decide
  have cut' : Argument.units? ["g.wsn", "--expand", "1-3", "--start", "A", "--expand", "1-2"] =
      some [["g.wsn"], ["--expand", "1-3"], ["--start", "A"], ["--expand", "1-2"]] := by decide
  exact run_perm_units cut cut' (by decide)

end Command

end Railroad
