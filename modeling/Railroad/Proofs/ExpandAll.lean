import Railroad.Proofs.CommandLine
import Railroad.Proofs.KeyIds

/-!
To expand everything is to expand each key that is listed.

* `Grammar.pairwise_of_expandablePaths`, `Grammar.isWritable_of_mem_expandablePaths`: the listed keys
  ascend strictly, and each of them can be read.
* `Options.Replaced`: options that give keys in place of everything expanded.
  `Options.ofArguments?_expanding`: these come from arguments that give the written keys.
* `Command.drawn_replaced`: with the listed keys, the same is drawn as with everything expanded.
* `Command.run_expandAll`: so the runs come to the same, and the run that lists the keys does not
  fail unless they do.
-/

namespace Railroad

/-! ### The listed keys -/

theorem Track.mem_paths_of_mem_groupPaths {track : Track} {key : PathKey}
    (h : key ∈ track.groupPaths) : key ∈ track.nodes.filterMap Track.path? := by
  obtain ⟨node, member, same⟩ := List.mem_filterMap.mp h
  refine List.mem_filterMap.mpr ⟨node, member, ?_⟩
  cases node <;> first | exact same | cases same

namespace Grammar

variable {g : Grammar} {start : Option String} {paths : List PathKey}

/-- The listed keys are keys of the diagram with everything opened. -/
theorem exists_drawn_of_expandablePaths (listed : (g.expandablePaths start).result = .ok paths) :
    ∃ d, (g.draw start fun _ => true).result = .ok d ∧
      ∀ key ∈ paths, key ∈ d.root.nodes.filterMap Track.path? := by
  obtain ⟨⟨d, drawn⟩, rfl⟩ := result_expandablePaths_eq_ok.mp listed
  refine ⟨d, drawn, fun key hkey => Track.mem_paths_of_mem_groupPaths ?_⟩
  exact (mem_openedKeys_iff drawn).mp (PathKey.mem_sorted.mp hkey)

/-- **The listed keys ascend strictly.** -/
theorem pairwise_of_expandablePaths (listed : (g.expandablePaths start).result = .ok paths) :
    paths.Pairwise fun k l => k.text < l.text := by
  obtain ⟨-, rfl⟩ := result_expandablePaths_eq_ok.mp listed
  exact PathKey.pairwise_sorted _

/-- **Each listed key can be read**, if ids were given out from the first one on and there are enough
of them. -/
theorem isWritable_of_mem_expandablePaths (numbered : g.number 0 = g)
    (few : g.walk.length ≤ maxNodeId) (listed : (g.expandablePaths start).result = .ok paths) :
    ∀ key ∈ paths, key.IsWritable := by
  obtain ⟨d, drawn, keys⟩ := exists_drawn_of_expandablePaths listed
  exact fun key hkey => isWritable_of_mem_keys numbered few drawn (keys key hkey)

end Grammar

/-! ### The options -/

namespace Argument

/-- The arguments that ask for each of the written keys to be expanded. -/
def expanding (lines : List String) : List String :=
  lines.flatMap fun line => ["--expand", line]

theorem units?_expanding (lines : List String) :
    units? (expanding lines) = some (lines.map fun line => ["--expand", line]) := by
  induction lines with
  | nil => rfl
  | cons line rest ih =>
    have cut : units? (expanding (line :: rest)) =
        (units? (expanding rest)).map (["--expand", line] :: ·) :=
      units?_option (by decide) line _
    rw [cut, ih]
    rfl

theorem listOf?_expanding {keys : List PathKey} (writable : ∀ key ∈ keys, key.IsWritable) :
    listOf? (expanding (keys.map PathKey.text)) = some (keys.map .expand) := by
  rw [listOf?_eq, units?_expanding, Option.bind_some, List.map_map, List.mapM_map]
  refine mapM_eq_some_map fun key hkey => ?_
  show (PathKey.ofString? key.text).toOption.map Argument.expand = _
  rw [PathKey.ofString?_text (writable key hkey)]
  rfl

end Argument

namespace Options

open Argument

/-- The second options ask for the same as the first, but for the given keys in place of everything
expanded. -/
structure Replaced (keys : List PathKey) (o o' : Options) : Prop where
  expandAll : o.expandAll = true
  others : o' = { o with expandAll := false, expand := o'.expand }
  mem_expand : ∀ key, key ∈ o'.expand ↔ key ∈ o.expand ++ keys

/-- Keys say as little of anything else as the option that they replace. -/
theorem filterMap_replaced {α : Type} {f : Argument → Option α} (all : f .expandAll = none)
    (each : ∀ key, f (.expand key) = none) (front back : List Argument) (keys : List PathKey) :
    (front ++ (keys.map Argument.expand ++ back)).filterMap f =
      (front ++ .expandAll :: back).filterMap f := by
  have silent : (keys.map Argument.expand).filterMap f = [] := by
    rw [List.filterMap_map, List.filterMap_eq_nil_iff]
    exact fun key _ => each key
  rw [List.filterMap_append, List.filterMap_append, silent, List.filterMap_append,
    List.filterMap_cons_none all, List.nil_append]

/-- What is asked for where keys are given in place of everything expanded. -/
theorem GivenBy.replaced {front back : List Argument} {o : Options}
    (h : o.GivenBy (front ++ .expandAll :: back)) (keys : List PathKey) :
    ∃ o' : Options, o'.GivenBy (front ++ (keys.map .expand ++ back)) ∧ Replaced keys o o' := by
  have expand : front.filterMap key? ++ back.filterMap key? = o.expand := by
    rw [← h.expand, List.filterMap_append, List.filterMap_cons_none rfl]
  have chosen : (keys.map Argument.expand).filterMap key? = keys := by
    rw [List.filterMap_map]
    exact List.filterMap_some
  have uncounted : (keys.map Argument.expand).countP isExpandAll = 0 := by
    rw [List.countP_map, List.countP_eq_zero]
    exact fun _ _ => Bool.false_ne_true
  have once : front.countP isExpandAll + back.countP isExpandAll + 1 = o.expandAll.toNat := by
    rw [← h.expandAll, List.countP_append, List.countP_cons_of_pos rfl, Nat.add_assoc]
  -- So the other arguments do not ask for it.
  obtain ⟨others, counted⟩ := exists_toNat_of_add once
  rw [counted] at once
  obtain ⟨rfl, all⟩ := toNat_succ.mp once
  refine ⟨{ o with
    expandAll := false, expand := front.filterMap key? ++ (keys ++ back.filterMap key?) },
    ⟨?_, ?_, ?_, ?_, ?_, ?_⟩, all, rfl, ?_⟩
  · exact (filterMap_replaced rfl (fun _ => rfl) front back keys).trans h.command
  · exact (filterMap_replaced rfl (fun _ => rfl) front back keys).trans h.input
  · exact (filterMap_replaced rfl (fun _ => rfl) front back keys).trans h.start
  · rw [List.filterMap_append, List.filterMap_append, chosen]
  · rw [List.countP_append, List.countP_append, uncounted, Nat.zero_add, counted]
  · exact (filterMap_replaced rfl (fun _ => rfl) front back keys).trans h.format
  · intro key
    rw [← expand]
    simp only [List.mem_append]
    tauto

/-- Only a diagram has anything expanded. -/
theorem command_eq_draw {o : Options} (consistent : o.consistent = true)
    (all : o.expandAll = true) : o.command = .draw := by
  simp only [Options.consistent, forDrawing, all, Bool.and_eq_true] at consistent
  simpa using consistent.1

theorem Replaced.consistent {keys : List PathKey} {o o' : Options} (h : Replaced keys o o')
    (consistent : o.consistent = true) : o'.consistent = true := by
  rw [h.others]
  simp [Options.consistent, command_eq_draw consistent h.expandAll]

/-- **Keys in place of everything expanded** are accepted where that is. -/
theorem ofArguments?_expanding {before after : List String} {units : List (List String)}
    {o : Options} (cut : units? before = some units)
    (given : ofArguments? (before ++ "--expand-all" :: after) = some o) {keys : List PathKey}
    (writable : ∀ key ∈ keys, key.IsWritable) :
    ∃ o', ofArguments? (before ++ (expanding (keys.map PathKey.text) ++ after)) = some o' ∧
      Replaced keys o o' := by
  obtain ⟨arguments, read, given⟩ := Option.bind_eq_some_iff.mp given
  obtain ⟨front, readFront, rest, readRest, rfl⟩ := (listOf?_append_eq_some_iff cut).mp read
  have single : units? ["--expand-all"] = some [["--expand-all"]] := by decide
  obtain ⟨only, readOnly, back, readBack, rfl⟩ := (listOf?_append_eq_some_iff single).mp readRest
  obtain rfl : [.expandAll] = only := Option.some.inj readOnly
  have readKeys := (listOf?_append_eq_some_iff (units?_expanding (keys.map PathKey.text))).mpr
    ⟨_, listOf?_expanding writable, back, readBack, rfl⟩
  have read' := (listOf?_append_eq_some_iff cut).mpr ⟨front, readFront, _, readKeys, rfl⟩
  obtain ⟨stated, consistent⟩ := (ofList?_eq_some_iff (draw_notMem_of_listOf? read)).mp given
  obtain ⟨o', stated', replaced⟩ := stated.replaced keys
  refine ⟨o', Option.bind_eq_some_iff.mpr ⟨_, read', ?_⟩, replaced⟩
  rw [ofList?_eq_some_iff (draw_notMem_of_listOf? read')]
  exact ⟨stated', replaced.consistent consistent⟩

end Options

/-! ### The runs -/

namespace Command

section Drawn

variable {g : Grammar} {o o' : Options} {paths : List PathKey}

/-- **With everything expanded, the same is drawn** as with the listed keys. -/
theorem drawn_replaced (listed : (g.expandablePaths o.start).result = .ok paths)
    (h : Options.Replaced paths o o') : drawn g o' = drawn g o := by
  have given := keysToExpand_of_listed h.expandAll listed
  have given' : keysToExpand g o' = .ok o'.expand := by
    rw [h.others]
    rfl
  have start : o'.start = o.start := by rw [h.others]
  have format : o'.format = o.format := by rw [h.others]
  exact drawn_congr start format given given' h.mem_expand

/-- Where the keys are listed, there is a diagram for any of them. -/
theorem exists_drawn_of_listed (listed : (g.expandablePaths o.start).result = .ok paths)
    (selected : o.expandAll = false) : ∃ output, drawn g o = .ok output := by
  obtain ⟨drawable, -⟩ := Grammar.result_expandablePaths_eq_ok.mp listed
  obtain ⟨d, result⟩ := Grammar.succeeds_diagram drawable o.expand
  refine ⟨printed (o.format.getD .json) d, ?_⟩
  rw [drawn_of_keys (keysToExpand_of_given selected), result]
  rfl

/-- With everything expanded, something is drawn exactly where the keys are listed. -/
theorem exists_drawn_iff (all : o.expandAll = true) :
    (∃ output, drawn g o = .ok output) ↔ ∃ paths, (g.expandablePaths o.start).result = .ok paths := by
  constructor
  · rintro ⟨output, done⟩
    cases listed : (g.expandablePaths o.start).result with
    | ok paths => exact ⟨paths, rfl⟩
    | error e =>
      rw [drawn_of_not_listed all listed] at done
      cases done
  · rintro ⟨paths, listed⟩
    have replaced : Options.Replaced paths o
        { o with expandAll := false, expand := o.expand ++ paths } := ⟨all, rfl, fun _ => Iff.rfl⟩
    rw [← drawn_replaced listed replaced]
    exact exists_drawn_of_listed listed rfl

end Drawn

section Runs

variable {g : Grammar} {args : List String} {sources : Sources} {program : String} {o : Options}
  {output : String}

theorem answer_listPaths_eq_ok_iff (list : o.command = .listPaths) :
    answer g o = .ok output ↔
      ∃ paths, (g.expandablePaths o.start).result = .ok paths ∧
        unlines (paths.map PathKey.text) = output := by
  simp only [answer, list]
  cases (g.expandablePaths o.start).result <;> simp [Except.map]

theorem exists_answer_listPaths_iff (list : o.command = .listPaths) :
    (∃ output, answer g o = .ok output) ↔
      ∃ paths, (g.expandablePaths o.start).result = .ok paths := by
  simp only [answer_listPaths_eq_ok_iff list]
  constructor
  · rintro ⟨output, paths, listed, -⟩
    exact ⟨paths, listed⟩
  · rintro ⟨paths, listed⟩
    exact ⟨_, paths, listed, rfl⟩

/-- A run that is not refused and reads a grammar exits with 0 exactly if it gives what is asked for
of the grammar. -/
theorem code_run_eq_zero_iff (given : Options.ofArguments? args = some o)
    (reads : o.command ≠ .schema) :
    (run args sources program).code = 0 ↔
      ∃ g, readGrammar o sources = .ok g ∧ ∃ output, answer g o = .ok output := by
  have done : (run args sources program).code = 0 ↔ ∃ output, execute o sources = .ok output := by
    simp only [run, given]
    cases execute o sources <;> simp
  simp only [done, execute_eq_ok_iff_answer reads]
  rw [exists_comm]
  simp only [exists_and_left]

/-- Then this is what it prints. -/
theorem run_of_answer (given : Options.ofArguments? args = some o) (reads : o.command ≠ .schema)
    (read : readGrammar o sources = .ok g) (done : answer g o = .ok output) :
    run args sources program = ⟨0, output, ""⟩ := by
  simp only [run, given, (execute_eq_ok_iff_answer reads).mpr ⟨g, read, done⟩]

/-- **With everything expanded, a run prints the same** as with the listed keys. -/
theorem run_replaced {args' : List String} {o' : Options} {paths : List PathKey}
    (given : Options.ofArguments? args = some o) (given' : Options.ofArguments? args' = some o')
    (replaced : Options.Replaced paths o o') (read : readGrammar o sources = .ok g)
    (listed : (g.expandablePaths o.start).result = .ok paths) :
    ∃ output, run args sources program = ⟨0, output, ""⟩ ∧
      run args' sources program = ⟨0, output, ""⟩ := by
  have draw := Options.command_eq_draw (Options.consistent_of_ofArguments? given) replaced.expandAll
  have draw' : o'.command = .draw := by rw [replaced.others, draw]
  have read' : readGrammar o' sources = .ok g := by
    rw [replaced.others]
    exact read
  obtain ⟨output, done⟩ := (exists_drawn_iff replaced.expandAll).mpr ⟨paths, listed⟩
  have done' := (drawn_replaced listed replaced).trans done
  refine ⟨output, run_of_answer given (by simp [draw]) read ?_,
    run_of_answer given' (by simp [draw']) read' ?_⟩
  · simpa only [answer, draw] using done
  · simpa only [answer, draw'] using done'

/-- The nodes of a grammar that is read have ids from the first one on. -/
theorem number_of_readGrammar (read : readGrammar o sources = .ok g) : g.number 0 = g := by
  obtain ⟨text, -, parsed⟩ := readGrammar_eq_ok_iff.mp read
  obtain ⟨tokens, last, -, tree⟩ := Grammar.ofString?_eq_ok_iff.mp parsed
  exact tree.numbered

end Runs

/-- **To expand everything is to expand each key that is listed.** The run that lists the keys exits
with 0 exactly if the run with everything expanded does. Then it prints one key on each line, and the
lines ascend strictly. If there are not more nodes than ids that a written key may hold, each line is
accepted as a key, and the run with these keys in place of everything expanded comes to the same. -/
theorem run_expandAll {before after listing : List String} {units : List (List String)} {o : Options}
    (cut : Argument.units? before = some units)
    (given : Options.ofArguments? (before ++ "--expand-all" :: after) = some o)
    (list : Options.ofArguments? listing =
      some { command := .listPaths, input := o.input, start := o.start }) (sources : Sources)
    (program : String) :
    ((run listing sources program).code = 0 ↔
        (run (before ++ "--expand-all" :: after) sources program).code = 0) ∧
      ((run listing sources program).code = 0 → ∃ lines : List String,
        (run listing sources program).standardOutput = unlines lines ∧
        (∀ line ∈ lines, '\n' ∉ line.toList) ∧ lines.Pairwise (· < ·) ∧
        ((∀ g, readGrammar o sources = .ok g → g.walk.length ≤ maxNodeId) →
          (∀ line ∈ lines, ∃ key, PathKey.ofString? line = .ok key) ∧
          run (before ++ Argument.expanding lines ++ after) sources program =
            run (before ++ "--expand-all" :: after) sources program ∧
          (run (before ++ Argument.expanding lines ++ after) sources program).code = 0)) := by
  -- Whichever keys are put in its place, everything was expanded before; no keys at all will do.
  obtain ⟨_, -, everything⟩ := Options.ofArguments?_expanding cut given (List.forall_mem_nil _)
  have all := everything.expandAll
  have draw := Options.command_eq_draw (Options.consistent_of_ofArguments? given) all
  have lists : listPaths ≠ schema := by decide
  refine ⟨?_, fun done => ?_⟩
  · rw [code_run_eq_zero_iff list lists, code_run_eq_zero_iff given (by simp [draw])]
    refine exists_congr fun g => and_congr_right fun _ => ?_
    refine (exists_answer_listPaths_iff (by rfl)).trans ?_
    simp only [answer, draw, exists_drawn_iff all]
  · obtain ⟨g, read, output, done⟩ := (code_run_eq_zero_iff list lists).mp done
    have printed : run listing sources program = ⟨0, output, ""⟩ :=
      run_of_answer list lists read done
    obtain ⟨paths, found, rfl⟩ := (answer_listPaths_eq_ok_iff rfl).mp done
    refine ⟨paths.map PathKey.text, congrArg Response.standardOutput printed, ?_, ?_, fun few => ?_⟩
    · intro line member
      obtain ⟨key, -, rfl⟩ := List.mem_map.mp member
      exact key.notMem_text (by decide) (by decide)
    · exact List.pairwise_map.mpr (Grammar.pairwise_of_expandablePaths found)
    · have writable := Grammar.isWritable_of_mem_expandablePaths (number_of_readGrammar read)
        (few g read) found
      obtain ⟨o', given', replaced⟩ := Options.ofArguments?_expanding cut given writable
      obtain ⟨output, whole, parts⟩ := run_replaced given given' replaced read found
      rw [List.append_assoc, whole, parts]
      refine ⟨?_, rfl, rfl⟩
      intro line member
      obtain ⟨key, hkey, rfl⟩ := List.mem_map.mp member
      exact ⟨key, PathKey.ofString?_text (writable key hkey)⟩

/-- A grammar on standard input, with a name inside a name: both are listed and both are opened. -/
theorem run_expandAll_nested :
    let sources : Sources :=
      ⟨"A = B .\nB = \"b\" C .\nC = \"c\" .".toUTF8, fun _ => .error .notFound⟩
    (run ["--expand-all", "--format", "outline"] sources).code = 0 ∧
      ∃ lines : List String, (run ["--list-paths"] sources).standardOutput = unlines lines ∧
        lines.Pairwise (· < ·) ∧ (∀ line ∈ lines, ∃ key, PathKey.ofString? line = .ok key) ∧
        run (Argument.expanding lines ++ ["--format", "outline"]) sources =
          run ["--expand-all", "--format", "outline"] sources := by
  intro sources
  have cut : Argument.units? [] = some [] := rfl
  have given : Options.ofArguments? ([] ++ "--expand-all" :: ["--format", "outline"]) =
      some { expandAll := true, format := some .outline } := by decide
  have list : Options.ofArguments? ["--list-paths"] = some { command := .listPaths } := by decide
  have done : (run ["--list-paths"] sources).code = 0 := by decide +kernel
  have small : (readGrammar { expandAll := true, format := some .outline } sources).toOption.all
      fun g => g.walk.length ≤ maxNodeId := by decide +kernel
  have few : ∀ g, readGrammar { expandAll := true, format := some .outline } sources = .ok g →
      g.walk.length ≤ maxNodeId := by
    intro g read
    rw [read] at small
    exact of_decide_eq_true small
  obtain ⟨codes, printed⟩ := run_expandAll cut given list sources programName
  obtain ⟨lines, listed, -, ascending, rest⟩ := printed done
  obtain ⟨accepted, same, -⟩ := rest few
  exact ⟨codes.mp done, lines, listed, ascending, accepted, same⟩

end Command

end Railroad
