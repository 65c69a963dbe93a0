import Railroad.Proofs.ExpandAll
import Railroad.Proofs.Undeclared

/-!
The command line is all or nothing: a run gives an answer, or it says why there is none.

* `Grammar.Undrawable`, `Grammar.exists_error_draw_iff_undrawable`: why there is no diagram.
* `Command.exists_error_readGrammar_iff`, `Command.exists_error_answer_iff`: when a grammar cannot be
  read, and when what is asked for of it cannot be given.
* `Command.Fails`, `Command.exists_error_execute_iff`: when a run fails whose arguments are accepted.
* `Command.Prints`, `Command.execute_eq_ok_iff`: what such a run prints if it does not fail.
* `Command.run_all_or_nothing`: the exit codes, and what is written with each of them.
-/

namespace Railroad

/-! ### Why there is no diagram -/

/-- There is no diagram from this start with the selected references opened. -/
inductive Grammar.Undrawable (g : Grammar) (selected : PathKey → Bool) : Option String → Prop where
  | unknownStart {name : String} : name ∉ g.names → Undrawable g selected (some name)
  | noProduction : g.productions = [] → Undrawable g selected none
  /-- A reference is to be opened that no production is declared for. -/
  | undeclared {start : Option String} {p : Production} {key : PathKey} {name : String} :
      g.startProduction start = .ok p → g.Chain selected p key.ids (.reference name) →
      key.depth < maxDepth → selected key = true → name ∉ g.names → Undrawable g selected start

namespace Grammar

variable {g : Grammar} {selected : PathKey → Bool} {start : Option String}

/-- There is no production to start from if the name is not declared, or if there is none at all. -/
theorem exists_error_startProduction_iff :
    (∃ e, g.startProduction start = .error e) ↔
      (∃ name, start = some name ∧ name ∉ g.names) ∨ (start = none ∧ g.productions = []) := by
  cases start with
  | some name =>
    simp only [startProduction, lookup, ← find?_eq_none_iff]
    cases found : g.find? name <;> simp [Except.mapError, found]
  | none =>
    simp only [startProduction]
    cases g.productions <;> simp

/-- **Why there is no diagram**, and that there is one otherwise. -/
theorem exists_error_draw_iff_undrawable :
    (∃ e, (g.draw start selected).result = .error e) ↔ g.Undrawable selected start := by
  have noStart : (∃ e, g.startProduction start = .error e) →
      ∃ e, (g.draw start selected).result = .error e := by
    rintro ⟨e, failed⟩
    have failed : (Traced.ofExcept (g.startProduction start) : Drawing Production).result =
        .error e := failed
    exact ⟨e, by rw [draw, Traced.bind_eq_of_error failed]⟩
  constructor
  · intro fails
    cases started : g.startProduction start with
    | error e =>
      rcases exists_error_startProduction_iff.mp ⟨e, started⟩ with ⟨name, rfl, unknown⟩ | ⟨rfl, none⟩
      · exact .unknownStart unknown
      · exact .noProduction none
    | ok p =>
      obtain ⟨key, name, short, opened, undeclared, chain⟩ :=
        (exists_error_draw_iff started).mp fails
      exact .undeclared started chain short opened undeclared
  · intro undrawable
    cases undrawable with
    | unknownStart unknown =>
      exact noStart (exists_error_startProduction_iff.mpr (.inl ⟨_, rfl, unknown⟩))
    | noProduction none =>
      exact noStart (exists_error_startProduction_iff.mpr (.inr ⟨rfl, none⟩))
    | undeclared started chain short opened undeclared =>
      exact (exists_error_draw_iff started).mpr ⟨_, _, short, opened, undeclared, chain⟩

end Grammar

/-! ### Why a run fails -/

theorem exists_error_iff_not_exists_ok {ε α : Type} {x : Except ε α} :
    (∃ e, x = .error e) ↔ ¬ ∃ a, x = .ok a := by
  cases x <;> simp

namespace Command

/-- The keys of the references that are to be opened: all of them while the keys are listed. -/
def opens (o : Options) (key : PathKey) : Bool :=
  o.command = .listPaths || o.expandAll || key ∈ o.expand

/-- Why a run fails whose arguments give these options. -/
inductive Fails (o : Options) (sources : Sources) : Prop where
  | unreadable : o.command ≠ .schema → inputText? o sources = none → Fails o sources
  | malformed {text : String} {e : ParseError} : o.command ≠ .schema →
      inputText? o sources = some text → Grammar.ofString? text = .error e → Fails o sources
  | undrawable {text : String} {g : Grammar} : o.command = .listPaths ∨ o.command = .draw →
      inputText? o sources = some text → Grammar.ofString? text = .ok g →
      g.Undrawable (opens o) o.start → Fails o sources

section

variable {o : Options} {sources : Sources} {g : Grammar}

theorem exists_error_readGrammar_iff :
    (∃ e, readGrammar o sources = .error e) ↔
      inputText? o sources = none ∨
        ∃ text, inputText? o sources = some text ∧ ∃ e, Grammar.ofString? text = .error e := by
  rw [exists_error_iff_not_exists_ok]
  simp only [readGrammar_eq_ok_iff]
  cases inputText? o sources with
  | none => simp
  | some text => cases parsed : Grammar.ofString? text <;> simp [parsed]

/-- **What is drawn** is the diagram with the given references opened, or with all of them: the
listed keys are those that are opened while everything is. -/
theorem drawn_eq :
    drawn g o = ((g.draw o.start fun key => o.expandAll || key ∈ o.expand).result).map
      (printed (o.format.getD .json)) := by
  cases all : o.expandAll with
  | true =>
    have everything : (fun key => true || decide (key ∈ o.expand)) = fun _ => true := by
      simp only [Bool.true_or]
    rw [everything]
    cases listed : (g.expandablePaths o.start).result with
    | error e =>
      rw [drawn_of_not_listed all listed, Grammar.result_expandablePaths_eq_error.mp listed]
      rfl
    | ok paths =>
      obtain ⟨-, rfl⟩ := Grammar.result_expandablePaths_eq_ok.mp listed
      have full : g.diagram o.start (o.expand ++ PathKey.sorted _) = g.draw o.start fun _ => true :=
        Grammar.diagram_of_openedKeys fun key opened =>
          List.mem_append_right o.expand (PathKey.mem_sorted.mpr opened)
      rw [drawn_of_keys (keysToExpand_of_listed all listed), full]
  | false =>
    simp only [Bool.false_or, drawn_of_keys (keysToExpand_of_given all), Grammar.diagram_eq]

/-- **When what is asked for cannot be given**: only keys and diagrams can fail, and they fail if
there is no diagram. -/
theorem exists_error_answer_iff :
    (∃ e, answer g o = .error e) ↔
      (o.command = .listPaths ∨ o.command = .draw) ∧ g.Undrawable (opens o) o.start := by
  rw [← Grammar.exists_error_draw_iff_undrawable]
  cases command : o.command with
  | listSymbols | canonical | schema => simp [answer, command]
  | listPaths =>
    have everything : opens o = fun _ => true := by
      funext key
      simp [opens, command]
    rw [everything, exists_error_iff_not_exists_ok, exists_answer_listPaths_iff command]
    simp only [exists_error_iff_not_exists_ok, Grammar.result_expandablePaths_eq_ok]
    simp [Traced.Succeeds]
  | draw =>
    have given : opens o = fun key => o.expandAll || key ∈ o.expand := by
      funext key
      simp [opens, command]
    rw [given]
    simp only [answer, command, drawn_eq]
    cases (g.draw o.start fun key => o.expandAll || key ∈ o.expand).result <;> simp [Except.map]

/-- **When a run fails** whose arguments are accepted. -/
theorem exists_error_execute_iff : (∃ e, execute o sources = .error e) ↔ Fails o sources := by
  by_cases schema : o.command = .schema
  · have done : ¬ ∃ e, execute o sources = .error e := by simp [execute, schema]
    refine iff_of_false done fun fails => ?_
    cases fails with
    | unreadable command _ | malformed command _ _ => exact command schema
    | undrawable command _ _ _ => simp [schema] at command
  have steps : (∃ e, execute o sources = .error e) ↔
      (∃ e, readGrammar o sources = .error e) ∨
        ∃ g, readGrammar o sources = .ok g ∧ ∃ e, answer g o = .error e := by
    rw [execute, if_neg schema]
    cases readGrammar o sources with
    | error e => simp [bind, Except.bind]
    | ok g => cases answered : answer g o <;> simp [bind, Except.bind, Except.mapError, answered]
  rw [steps, exists_error_readGrammar_iff]
  simp only [readGrammar_eq_ok_iff, exists_error_answer_iff]
  constructor
  · rintro ((unreadable | ⟨text, read, e, malformed⟩) | ⟨g, ⟨text, read, parsed⟩, command, fails⟩)
    · exact .unreadable schema unreadable
    · exact .malformed schema read malformed
    · exact .undrawable command read parsed fails
  · rintro (⟨-, unreadable⟩ | ⟨-, read, malformed⟩ | ⟨command, read, parsed, fails⟩)
    · exact .inl (.inl unreadable)
    · exact .inl (.inr ⟨_, read, _, malformed⟩)
    · exact .inr ⟨_, ⟨_, read, parsed⟩, command, fails⟩

/-- The canonical text and the names of a grammar that can be read are always given. -/
theorem not_fails_of_text {text : String} (command : o.command = .canonical ∨ o.command = .listSymbols)
    (read : inputText? o sources = some text) (parsed : Grammar.ofString? text = .ok g) :
    ¬ Fails o sources := by
  intro fails
  cases fails with
  | unreadable _ unreadable => cases read.symm.trans unreadable
  | malformed _ read' malformed =>
    obtain rfl := Option.some.inj (read.symm.trans read')
    cases parsed.symm.trans malformed
  | undrawable command' _ _ _ => rcases command with command | command <;> simp [command] at command'

end

/-! ### What a run prints -/

/-- What a run prints whose arguments give these options, if it does not fail. -/
inductive Prints (o : Options) (sources : Sources) : String → Prop where
  | schema : o.command = .schema → Prints o sources (Diagram.Schema.value.pretty ++ "\n")
  | canonical {text : String} {g : Grammar} : o.command = .canonical →
      inputText? o sources = some text → Grammar.ofString? text = .ok g →
      Prints o sources (g.text ++ "\n")
  | symbols {text : String} {g : Grammar} : o.command = .listSymbols →
      inputText? o sources = some text → Grammar.ofString? text = .ok g →
      Prints o sources (unlines g.names)
  | paths {text : String} {g : Grammar} {keys : List PathKey} : o.command = .listPaths →
      inputText? o sources = some text → Grammar.ofString? text = .ok g →
      (g.expandablePaths o.start).result = .ok keys →
      Prints o sources (unlines (keys.map PathKey.text))
  | diagram {text : String} {g : Grammar} {d : Diagram} : o.command = .draw →
      inputText? o sources = some text → Grammar.ofString? text = .ok g →
      (g.draw o.start (opens o)).result = .ok d →
      Prints o sources (printed (o.format.getD .json) d)

section

variable {o : Options} {sources : Sources} {output : String}

/-- A drawing answers with the diagram, as it is printed. -/
theorem answer_draw_eq_ok_iff {g : Grammar} (draws : o.command = .draw) :
    answer g o = .ok output ↔
      ∃ d, (g.draw o.start (opens o)).result = .ok d ∧ printed (o.format.getD .json) d = output := by
  have given : opens o = fun key => o.expandAll || key ∈ o.expand := by
    funext key
    simp [opens, draws]
  rw [given]
  simp only [answer, draws, drawn_eq]
  cases (g.draw o.start fun key => o.expandAll || key ∈ o.expand).result <;> simp [Except.map]

/-- **What a run prints** whose arguments are accepted. -/
theorem execute_eq_ok_iff : execute o sources = .ok output ↔ Prints o sources output := by
  by_cases schema : o.command = .schema
  · constructor
    · intro done
      obtain rfl : Diagram.Schema.value.pretty ++ "\n" = output := by simpa [execute, schema] using done
      exact .schema schema
    · intro prints
      cases prints with
      | schema => simp [execute, schema]
      | canonical command | symbols command | paths command | diagram command =>
        simp [schema] at command
  · simp only [execute_eq_ok_iff_answer schema, readGrammar_eq_ok_iff]
    constructor
    · rintro ⟨g, ⟨text, read, parsed⟩, answered⟩
      cases command : o.command with
      | schema => exact absurd command schema
      | canonical =>
        obtain rfl : g.text ++ "\n" = output := by simpa [answer, command] using answered
        exact .canonical command read parsed
      | listSymbols =>
        obtain rfl : unlines g.names = output := by simpa [answer, command] using answered
        exact .symbols command read parsed
      | listPaths =>
        obtain ⟨keys, listed, rfl⟩ := (answer_listPaths_eq_ok_iff command).mp answered
        exact .paths command read parsed listed
      | draw =>
        obtain ⟨d, drawn, rfl⟩ := (answer_draw_eq_ok_iff command).mp answered
        exact .diagram command read parsed drawn
    · intro prints
      cases prints with
      | schema command => exact absurd command schema
      | canonical command read parsed => exact ⟨_, ⟨_, read, parsed⟩, by simp [answer, command]⟩
      | symbols command read parsed => exact ⟨_, ⟨_, read, parsed⟩, by simp [answer, command]⟩
      | paths command read parsed listed =>
        exact ⟨_, ⟨_, read, parsed⟩, (answer_listPaths_eq_ok_iff command).mpr ⟨_, listed, rfl⟩⟩
      | diagram command read parsed drawn =>
        exact ⟨_, ⟨_, read, parsed⟩, (answer_draw_eq_ok_iff command).mpr ⟨_, drawn, rfl⟩⟩

end

/-! ### Exit codes -/

/-- What a run leaves behind, by how far it comes. -/
theorem run_eq_of_accepted {args : List String} {o : Options}
    (accepted : Options.ofArguments? args = some o) (sources : Sources) (program : String) :
    (Fails o sources ∧ ∃ e : CommandError,
        run args sources program = ⟨1, "", programName ++ ": " ++ e.message ++ "\n"⟩) ∨
      (¬ Fails o sources ∧ ∃ output, Prints o sources output ∧
        run args sources program = ⟨0, output, ""⟩) := by
  simp only [← exists_error_execute_iff, ← execute_eq_ok_iff, run, accepted]
  cases execute o sources with
  | error e => exact .inl ⟨⟨e, rfl⟩, e, rfl⟩
  | ok output => exact .inr ⟨by simp, output, rfl, rfl⟩

/-- **The command line is all or nothing**, for every argument list, whatever can be read and
whatever the program is called. The exit code is 2 exactly if the arguments are refused, and then
only the usage is written, to standard error. It is 1 exactly if the arguments are accepted and the
run fails: the grammar cannot be read or is malformed, or its keys or its diagram are asked for and
there is no diagram. Then only one message is written, to standard error. Otherwise it is 0: nothing
is written to standard error, and what is asked for is on standard output. The canonical text and
the names of a grammar that can be read are always given. -/
theorem run_all_or_nothing (args : List String) (sources : Sources) (program : String) :
    let response := run args sources program
    (response.code = 2 ↔ Options.ofArguments? args = none) ∧
      (response.code = 2 → response.standardOutput = "" ∧ response.standardError = usage program) ∧
      (response.code = 1 ↔ ∃ o, Options.ofArguments? args = some o ∧ Fails o sources) ∧
      (response.code = 1 → response.standardOutput = "" ∧
        ∃ e : CommandError, response.standardError = "railyard: " ++ e.message ++ "\n") ∧
      (response.code ≠ 2 → response.code ≠ 1 →
        response.code = 0 ∧ response.standardError = "") ∧
      (response.code = 0 →
        ∃ o, Options.ofArguments? args = some o ∧ Prints o sources response.standardOutput) ∧
      ∀ o text g, Options.ofArguments? args = some o →
        o.command = .canonical ∨ o.command = .listSymbols → inputText? o sources = some text →
        Grammar.ofString? text = .ok g → response.code = 0 := by
  intro response
  cases accepted : Options.ofArguments? args with
  | none =>
    have refused : response = ⟨2, "", usage program⟩ := by simp only [response, run, accepted]
    simp [refused]
  | some o =>
    rcases run_eq_of_accepted accepted sources program with
      ⟨fails, e, failed⟩ | ⟨succeeds, output, prints, done⟩
    · have failed : response = _ := failed
      simp only [failed, Option.some.injEq, exists_eq_left', fails]
      refine ⟨by simp, by simp, by simp, fun _ => ⟨trivial, e, rfl⟩, by simp, by simp, ?_⟩
      rintro o' text g rfl command read parsed
      exact absurd fails (not_fails_of_text command read parsed)
    · have done : response = _ := done
      simp [done, succeeds, prints]

end Command

end Railroad
