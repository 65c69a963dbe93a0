import Mathlib.Data.List.Induction
import Railroad.Command.Options
import Railroad.Proofs.ListReading

/-!
Which options an argument list gives.

* `Argument.units?`: an argument list is cut into units, each option together with its value.
  `Argument.listOf?_eq`: what it says is what its units say. `Argument.listOf?_eq_some_iff`: there is
  no other way to cut it into units that say something.
* `Options.GivenBy`: the options hold what the arguments say, each option at most once.
  `Options.add?_eq_some_iff`: one more argument adds what it says.
  `Options.foldlM_add?_eq_some_iff`: so putting arguments together one by one gives these options and
  no others. Nothing in it depends on the order of the arguments but the order of the keys.
  `Options.ofArguments?_eq_some_iff`: which argument lists are accepted.
* `Options.Reordered`: options that differ in the order of their keys only.
  `Options.ofArguments?_perm`: so this is all that the order of the units can change.
-/

namespace Railroad

/-! ### Units -/

namespace Argument

/-- The options that take the next argument as their value, whatever it is. -/
def takesValue (arg : String) : Bool :=
  arg = "--start" || arg = "--expand" || arg = "--format"

/-- Cuts an argument list from left to right: an option that takes a value goes together with it, every
other argument is a unit of its own. The last option may lack its value; then there are no units. -/
def units? : List String → Option (List (List String))
  | [] => some []
  | arg :: rest =>
    if takesValue arg then
      match rest with
      | [] => none
      | value :: rest => (units? rest).map ([arg, value] :: ·)
    else (units? rest).map ([arg] :: ·)

/-- What a unit says. -/
def ofUnit? : List String → Option Argument
  | [arg] => ofWord? arg
  | [option, value] => (valueReader? option).bind (· value)
  | _ => none

theorem isSome_valueReader? (arg : String) : (valueReader? arg).isSome = takesValue arg := by
  unfold valueReader? takesValue
  split
  · simp [*]
  · split
    · simp [*]
    · split <;> simp [*]

theorem units?_word {arg : String} (word : ¬ takesValue arg = true) (rest : List String) :
    units? (arg :: rest) = (units? rest).map ([arg] :: ·) := by
  rw [units?.eq_def]
  exact if_neg word

theorem units?_option {arg : String} (takes : takesValue arg = true) (value : String)
    (rest : List String) : units? (arg :: value :: rest) = (units? rest).map ([arg, value] :: ·) := by
  rw [units?.eq_def]
  exact if_pos takes

/-- **What an argument list says is what its units say.** -/
theorem listOf?_eq (args : List String) : listOf? args = (units? args).bind (·.mapM ofUnit?) := by
  induction args using units?.induct with
  | case1 => rfl
  | case2 arg takes =>
    obtain ⟨read, reader⟩ := Option.isSome_iff_exists.mp ((isSome_valueReader? arg).trans takes)
    rw [listOf?.eq_def, units?.eq_def]
    simp only [reader, takes, if_true, Option.bind_none]
  | case3 arg takes value rest ih =>
    obtain ⟨read, reader⟩ := Option.isSome_iff_exists.mp ((isSome_valueReader? arg).trans takes)
    rw [listOf?.eq_def, units?_option takes]
    simp only [reader, ih]
    cases units? rest with
    | none => cases read value <;> rfl
    | some units => simp only [Option.map_some, Option.bind_some, List.mapM_cons, ofUnit?, reader]
  | case4 arg rest word ih =>
    have reader : valueReader? arg = none := by
      rw [← Option.not_isSome_iff_eq_none, isSome_valueReader?]
      exact word
    rw [listOf?.eq_def, units?_word word]
    simp only [reader, ih]
    cases units? rest with
    | none => cases ofWord? arg <;> rfl
    | some units => simp only [Option.map_some, Option.bind_some, List.mapM_cons, ofUnit?]

/-- Units that come first are cut off first. -/
theorem units?_append {args : List String} {units : List (List String)}
    (h : units? args = some units) (rest : List String) :
    units? (args ++ rest) = (units? rest).map (units ++ ·) := by
  induction args using units?.induct generalizing units with
  | case1 =>
    obtain rfl := Option.some.inj h
    cases found : units? rest <;> simp [found]
  | case2 arg takes =>
    rw [units?.eq_def] at h
    cases (if_pos takes).symm.trans h
  | case3 arg takes value more ih =>
    rw [units?_option takes] at h
    obtain ⟨others, cut, rfl⟩ := Option.map_eq_some_iff.mp h
    rw [List.cons_append, List.cons_append, units?_option takes, ih cut, Option.map_map]
    rfl
  | case4 arg more word ih =>
    rw [units?_word word] at h
    obtain ⟨others, cut, rfl⟩ := Option.map_eq_some_iff.mp h
    rw [List.cons_append, units?_word word, ih cut, Option.map_map]
    rfl

/-- The units are what the argument list is cut into. -/
theorem flatten_of_units? {args : List String} {units : List (List String)}
    (cut : units? args = some units) : units.flatten = args := by
  induction args using units?.induct generalizing units with
  | case1 =>
    obtain rfl := Option.some.inj cut
    rfl
  | case2 arg takes =>
    rw [units?.eq_def] at cut
    cases (if_pos takes).symm.trans cut
  | case3 arg takes value rest ih =>
    rw [units?_option takes] at cut
    obtain ⟨others, cutRest, rfl⟩ := Option.map_eq_some_iff.mp cut
    rw [List.flatten_cons, ih cutRest, List.cons_append, List.singleton_append]
  | case4 arg rest word ih =>
    rw [units?_word word] at cut
    obtain ⟨others, cutRest, rfl⟩ := Option.map_eq_some_iff.mp cut
    rw [List.flatten_cons, ih cutRest, List.singleton_append]

/-- What says something is a unit by itself. -/
theorem units?_of_ofUnit? {unit : List String} {a : Argument} (said : ofUnit? unit = some a) :
    units? unit = some [unit] := by
  unfold ofUnit? at said
  split at said
  · rename_i arg
    have word : ¬ takesValue arg = true := by
      intro takes
      simp only [takesValue, Bool.or_eq_true, decide_eq_true_eq] at takes
      rcases takes with (rfl | rfl) | rfl <;> cases said
    rw [units?_word word]
    rfl
  · rename_i option value
    obtain ⟨read, reader, -⟩ := Option.bind_eq_some_iff.mp said
    have takes : takesValue option = true := by
      rw [← isSome_valueReader?, reader, Option.isSome_some]
    rw [units?_option takes]
    rfl
  · cases said

/-- Units that say something are cut where they end. -/
theorem units?_flatten {units : List (List String)} {arguments : List Argument}
    (said : units.mapM ofUnit? = some arguments) : units? units.flatten = some units := by
  induction units generalizing arguments with
  | nil => rfl
  | cons unit rest ih =>
    obtain ⟨first, here, others, more, -⟩ := mapM_cons_eq_some.mp said
    rw [List.flatten_cons, units?_append (units?_of_ofUnit? here), ih more]
    rfl

/-- **What an argument list says**, however it may be cut into units. -/
theorem listOf?_eq_some_iff {args : List String} {arguments : List Argument} :
    listOf? args = some arguments ↔
      ∃ units : List (List String), units.flatten = args ∧ units.mapM ofUnit? = some arguments := by
  rw [listOf?_eq, Option.bind_eq_some_iff]
  constructor
  · rintro ⟨units, cut, said⟩
    exact ⟨units, flatten_of_units? cut, said⟩
  · rintro ⟨units, rfl, said⟩
    exact ⟨units, units?_flatten said, said⟩

/-- What complete units say comes before what the rest says. -/
theorem listOf?_append_eq_some_iff {args : List String} {units : List (List String)}
    (cut : units? args = some units) {rest : List String} {arguments : List Argument} :
    listOf? (args ++ rest) = some arguments ↔
      ∃ front, listOf? args = some front ∧
        ∃ back, listOf? rest = some back ∧ front ++ back = arguments := by
  have joined : listOf? (args ++ rest) = do return (← listOf? args) ++ (← listOf? rest) := by
    rw [listOf?_eq, listOf?_eq args, listOf?_eq rest, units?_append cut, cut, Option.bind_some]
    cases units? rest with
    | none => cases units.mapM ofUnit? <;> rfl
    | some more => rw [Option.map_some, Option.bind_some, Option.bind_some, List.mapM_append]
  simp only [joined, Option.bind_eq_bind, Option.bind_eq_some_iff, Option.pure_def,
    Option.some.injEq]

/-- No unit asks for drawing, which is what is done unless something else is asked for. -/
theorem ofUnit?_ne_draw (unit : List String) : ofUnit? unit ≠ some (.command .draw) := by
  intro h
  unfold ofUnit? at h
  split at h
  · unfold ofWord? at h
    split_ifs at h
    all_goals cases h
  · obtain ⟨read, reader, h⟩ := Option.bind_eq_some_iff.mp h
    unfold valueReader? at reader
    split_ifs at reader
    all_goals obtain rfl := Option.some.inj reader
    · cases h
    · obtain ⟨key, -, same⟩ := Option.map_eq_some_iff.mp h
      cases same
    · simp only at h
      split_ifs at h
      all_goals cases h
  · cases h

/-! ### What single arguments say -/

def start? : Argument → Option String
  | .start name => some name
  | _ => none

def key? : Argument → Option PathKey
  | .expand key => some key
  | _ => none

def format? : Argument → Option OutputFormat
  | .format f => some f
  | _ => none

def command? : Argument → Option Command
  | .command c => some c
  | _ => none

def input? : Argument → Option String
  | .input name => some name
  | _ => none

def isExpandAll : Argument → Bool
  | .expandAll => true
  | _ => false

end Argument

/-! ### Options -/

/-- What must be said to ask for the command: nothing to draw, and else just the command. -/
def Command.said (c : Command) : List Command :=
  if c = .draw then [] else [c]

theorem Command.said_inj {c d : Command} : c.said = d.said ↔ c = d := by
  cases c <;> cases d <;> decide

/-- A command is said only where nothing is said yet. -/
theorem Command.said_concat {b c d : Command} (real : c ≠ .draw) :
    b.said ++ [c] = d.said ↔ b = .draw ∧ c = d := by
  cases b <;> cases c <;> cases d <;> first | decide | exact absurd rfl real

theorem Command.exists_said_of_append {said more : List Command} {d : Command}
    (h : said ++ more = d.said) : ∃ c : Command, said = c.said := by
  cases said with
  | nil => exact ⟨.draw, rfl⟩
  | cons c rest =>
    rw [Command.said] at h
    split at h
    · cases h
    · rename_i real
      obtain ⟨rfl, rest⟩ := List.cons_eq_cons.mp h
      exact ⟨c, by rw [(List.append_eq_nil_iff.mp rest).1, Command.said, if_neg real]⟩

section Given

variable {α : Type} {x y : Option α}

theorem toList_inj : x.toList = y.toList ↔ x = y := by
  cases x <;> cases y <;> simp

/-- A value is given only where none is given yet. -/
theorem toList_concat {a : α} : x.toList ++ [a] = y.toList ↔ x = none ∧ some a = y := by
  cases x <;> cases y <;> simp

/-- What is given at most once is an optional value. -/
theorem exists_toList_of_short {given : List α} (short : given.length ≤ 1) :
    ∃ x : Option α, given = x.toList := by
  match given, short with
  | [], _ => exact ⟨none, rfl⟩
  | [a], _ => exact ⟨some a, rfl⟩

theorem exists_toList_of_append {given more : List α} (h : given ++ more = y.toList) :
    ∃ x : Option α, given = x.toList := by
  refine exists_toList_of_short ?_
  have total := congrArg List.length h
  have bound := Option.length_toList_le (o := y)
  rw [List.length_append] at total
  omega

theorem toNat_inj {b c : Bool} : b.toNat = c.toNat ↔ b = c := by
  cases b <;> cases c <;> decide

theorem toNat_succ {b c : Bool} : b.toNat + 1 = c.toNat ↔ b = false ∧ c = true := by
  cases b <;> cases c <;> decide

theorem exists_toNat_of_short {n : Nat} (short : n ≤ 1) : ∃ b : Bool, n = b.toNat := by
  rcases Nat.le_one_iff_eq_zero_or_eq_one.mp short with rfl | rfl
  · exact ⟨false, rfl⟩
  · exact ⟨true, rfl⟩

theorem exists_toNat_of_add {given more : Nat} {c : Bool} (h : given + more = c.toNat) :
    ∃ b : Bool, given = b.toNat :=
  exists_toNat_of_short (Nat.le_trans (Nat.le_add_right given more) (h ▸ c.toNat_le))

end Given

namespace Options

open Argument

/-- The options hold what the arguments say: every key in order, and all else at most once. -/
@[mk_iff]
structure GivenBy (arguments : List Argument) (o : Options) : Prop where
  command : arguments.filterMap command? = o.command.said
  input : arguments.filterMap input? = o.input.toList
  start : arguments.filterMap start? = o.start.toList
  expand : arguments.filterMap key? = o.expand
  expandAll : arguments.countP isExpandAll = o.expandAll.toNat
  format : arguments.filterMap format? = o.format.toList

theorem givenBy_nil_iff {o : Options} : o.GivenBy [] ↔ o = {} := by
  constructor
  · rintro ⟨command, input, start, expand, expandAll, format⟩
    obtain ⟨c, i, s, keys, all, f⟩ := o
    obtain rfl : .draw = c := Command.said_inj.mp command
    obtain rfl : none = i := toList_inj.mp input
    obtain rfl : none = s := toList_inj.mp start
    obtain rfl : [] = keys := expand
    obtain rfl : false = all := toNat_inj.mp expandAll
    obtain rfl : none = f := toList_inj.mp format
    rfl
  · rintro rfl
    constructor <;> rfl

/-- **One more argument** is put to what the options hold. -/
theorem add?_eq_some_iff {before o : Options} {a : Argument} (real : a ≠ .command .draw) :
    before.add? a = some o ↔
      before.command.said ++ (command? a).toList = o.command.said ∧
      before.input.toList ++ (input? a).toList = o.input.toList ∧
      before.start.toList ++ (start? a).toList = o.start.toList ∧
      before.expand ++ (key? a).toList = o.expand ∧
      before.expandAll.toNat + (isExpandAll a).toNat = o.expandAll.toNat ∧
      before.format.toList ++ (format? a).toList = o.format.toList := by
  obtain ⟨c, i, s, keys, all, f⟩ := before
  obtain ⟨c', i', s', keys', all', f'⟩ := o
  cases a with
  | command d =>
    have real' : d ≠ .draw := fun same => real (congrArg Argument.command same)
    simp [add?, command?, input?, start?, key?, isExpandAll, format?, Command.said_concat real',
      toList_inj, toNat_inj]
    tauto
  | expand key =>
    simp [add?, command?, input?, start?, key?, isExpandAll, format?, Command.said_inj, toList_inj,
      toNat_inj]
  | _ =>
    simp [add?, command?, input?, start?, key?, isExpandAll, format?, Command.said_inj, toList_inj,
      toList_concat, toNat_inj, toNat_succ]
    tauto

/-- What one more argument says comes last. -/
theorem givenBy_concat {arguments : List Argument} {a : Argument} {o : Options} :
    o.GivenBy (arguments ++ [a]) ↔
      arguments.filterMap command? ++ (command? a).toList = o.command.said ∧
      arguments.filterMap input? ++ (input? a).toList = o.input.toList ∧
      arguments.filterMap start? ++ (start? a).toList = o.start.toList ∧
      arguments.filterMap key? ++ (key? a).toList = o.expand ∧
      arguments.countP isExpandAll + (isExpandAll a).toNat = o.expandAll.toNat ∧
      arguments.filterMap format? ++ (format? a).toList = o.format.toList := by
  have single : ∀ {β : Type} (f : Argument → Option β), [a].filterMap f = (f a).toList := by
    intro β f
    cases found : f a <;> simp [found]
  have count : [a].countP isExpandAll = (isExpandAll a).toNat := by
    cases found : isExpandAll a <;> simp [found]
  simp only [givenBy_iff, List.filterMap_append, List.countP_append, single, count]

/-- What one more argument is put to is given by the others. -/
theorem givenBy_concat_iff {arguments : List Argument} {a : Argument} {o : Options}
    (real : a ≠ .command .draw) :
    o.GivenBy (arguments ++ [a]) ↔
      ∃ before : Options, before.GivenBy arguments ∧ before.add? a = some o := by
  simp only [givenBy_concat, add?_eq_some_iff real]
  constructor
  · rintro ⟨command, input, start, expand, expandAll, format⟩
    obtain ⟨c, saidCommand⟩ := Command.exists_said_of_append command
    obtain ⟨i, givenInput⟩ := exists_toList_of_append input
    obtain ⟨s, givenStart⟩ := exists_toList_of_append start
    obtain ⟨all, givenAll⟩ := exists_toNat_of_add expandAll
    obtain ⟨f, givenFormat⟩ := exists_toList_of_append format
    refine ⟨⟨c, i, s, arguments.filterMap key?, all, f⟩,
      ⟨saidCommand, givenInput, givenStart, rfl, givenAll, givenFormat⟩, ?_⟩
    rw [← saidCommand, ← givenInput, ← givenStart, ← givenAll, ← givenFormat]
    exact ⟨command, input, start, expand, expandAll, format⟩
  · rintro ⟨before, given, added⟩
    rw [given.command, given.input, given.start, given.expand, given.expandAll, given.format]
    exact added

/-- **Putting arguments together one by one** gives the options that hold what they say, and fails if
there are none. -/
theorem foldlM_add?_eq_some_iff {arguments : List Argument} {o : Options}
    (real : .command .draw ∉ arguments) :
    arguments.foldlM add? {} = some o ↔ o.GivenBy arguments := by
  induction arguments using List.reverseRecOn generalizing o with
  | nil =>
    rw [givenBy_nil_iff, List.foldlM_nil]
    exact ⟨fun h => (Option.some.inj h).symm, fun h => congrArg some h.symm⟩
  | append_singleton front a ih =>
    simp only [List.mem_append, List.mem_singleton, not_or] at real
    rw [givenBy_concat_iff (Ne.symm real.2), List.foldlM_append]
    simp only [Option.bind_eq_bind, Option.bind_eq_some_iff, ih real.1, List.foldlM_cons,
      List.foldlM_nil, Option.pure_def, Option.some.injEq, exists_eq_right]

theorem ofList?_eq_some_iff {arguments : List Argument} {o : Options}
    (real : .command .draw ∉ arguments) :
    ofList? arguments = some o ↔ o.GivenBy arguments ∧ o.consistent = true := by
  rw [ofList?, Option.filter_eq_some_iff, foldlM_add?_eq_some_iff real]

theorem draw_notMem_of_listOf? {args : List String} {arguments : List Argument}
    (h : Argument.listOf? args = some arguments) : .command .draw ∉ arguments := by
  intro member
  rw [Argument.listOf?_eq] at h
  obtain ⟨units, -, read⟩ := Option.bind_eq_some_iff.mp h
  obtain ⟨unit, -, read⟩ := exists_of_mem_mapM read member
  exact Argument.ofUnit?_ne_draw unit read

/-- **An argument list is accepted** if its arguments give options that go together. -/
theorem ofArguments?_eq_some_iff {args : List String} {o : Options} :
    ofArguments? args = some o ↔
      ∃ arguments, Argument.listOf? args = some arguments ∧ o.GivenBy arguments ∧
        o.consistent = true := by
  rw [ofArguments?, Option.bind_eq_some_iff]
  refine exists_congr fun arguments => and_congr_right fun said => ?_
  exact ofList?_eq_some_iff (draw_notMem_of_listOf? said)

theorem consistent_of_ofArguments? {args : List String} {o : Options}
    (given : ofArguments? args = some o) : o.consistent = true := by
  obtain ⟨_, -, -, consistent⟩ := ofArguments?_eq_some_iff.mp given
  exact consistent

/-! ### The order of arguments -/

/-- The options are the same but for the order of the keys. -/
def Reordered (o o' : Options) : Prop :=
  ∃ keys, o.expand.Perm keys ∧ o' = { o with expand := keys }

theorem Reordered.consistent_eq {o o' : Options} (h : o.Reordered o') :
    o'.consistent = o.consistent := by
  obtain ⟨keys, same, rfl⟩ := h
  simp only [consistent, forDrawing, same.isEmpty_eq]

/-- A list of no more than one item has one order only. -/
theorem eq_of_perm_short {α : Type} {items items' : List α} (short : items.length ≤ 1)
    (h : items.Perm items') : items' = items := by
  match items, short with
  | [], _ => exact h.nil_eq.symm
  | [a], _ => exact List.perm_singleton.mp h.symm

/-- **The order of arguments** changes the order of the keys only. -/
theorem GivenBy.perm {arguments arguments' : List Argument} {o : Options}
    (h : o.GivenBy arguments) (same : arguments.Perm arguments') :
    ∃ o' : Options, o'.GivenBy arguments' ∧ o.Reordered o' := by
  have once : ∀ {α : Type} {f : Argument → Option α} {said : List α},
      arguments.filterMap f = said → said.length ≤ 1 → arguments'.filterMap f = said := by
    intro α f said eq short
    have moved := same.filterMap f
    rw [eq] at moved
    exact eq_of_perm_short short moved
  have optional : ∀ {α : Type} (x : Option α), x.toList.length ≤ 1 := by
    intro α x
    cases x <;> simp
  refine ⟨{ o with expand := arguments'.filterMap key? }, ?_, ?_⟩
  · constructor
    · refine once h.command ?_
      unfold Command.said
      split <;> simp
    · exact once h.input (optional _)
    · exact once h.start (optional _)
    · rfl
    · exact (same.countP_eq isExpandAll).symm.trans h.expandAll
    · exact once h.format (optional _)
  · exact ⟨_, h.expand ▸ same.filterMap key?, rfl⟩

theorem ofList?_perm {arguments arguments' : List Argument} (real : .command .draw ∉ arguments)
    (same : arguments.Perm arguments') {o : Options} (h : ofList? arguments = some o) :
    ∃ o', ofList? arguments' = some o' ∧ o.Reordered o' := by
  have real' : .command .draw ∉ arguments' := fun member => real (same.mem_iff.mpr member)
  obtain ⟨given, consistent⟩ := (ofList?_eq_some_iff real).mp h
  obtain ⟨o', given', reordered⟩ := given.perm same
  refine ⟨o', (ofList?_eq_some_iff real').mpr ⟨given', ?_⟩, reordered⟩
  rw [reordered.consistent_eq, consistent]

/-- **The order of the units** of an argument list changes the order of the keys only. -/
theorem ofArguments?_perm {args args' : List String} {units units' : List (List String)}
    (cut : Argument.units? args = some units) (cut' : Argument.units? args' = some units')
    (same : units.Perm units') {o : Options} (h : ofArguments? args = some o) :
    ∃ o', ofArguments? args' = some o' ∧ o.Reordered o' := by
  obtain ⟨arguments, said, h⟩ := Option.bind_eq_some_iff.mp h
  have read := said
  rw [Argument.listOf?_eq, cut, Option.bind_some] at read
  obtain ⟨arguments', read', moved⟩ := exists_mapM_of_perm same read
  obtain ⟨o', given, reordered⟩ := ofList?_perm (draw_notMem_of_listOf? said) moved h
  refine ⟨o', ?_, reordered⟩
  rw [ofArguments?, Argument.listOf?_eq, cut', Option.bind_some, read', Option.bind_some, given]

end Options

end Railroad
