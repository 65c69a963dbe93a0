import Railroad.Proofs.CommandLine

/-!
Which argument lists the usage offers, and which are accepted.

* `Command.usageLine`: the lines of the usage, slot by slot. `Command.usage_eq`: these are the
  lines that are shown.
* `UsageLine.Offers`: the arguments fill the slots of a line, in whatever order.
  `UsageLine.offers_iff`: they do exactly if each slot is filled as often as the line has it.
* `Options.GivenBy.count_slots_eq`: how often the arguments fill a slot can be told from the options
  that they give. `UsageLine.AsksFor.offers_iff`: so what a line offers can be told as well.
* `Options.accepted_iff_offered`: an argument list is accepted if a line offers it, or if `--start`
  is given besides to a command that takes no notice of it.
-/

namespace Railroad

/-! ### The lines of the usage -/

/-- What may stand in a line of the usage. -/
inductive Slot where
  | input
  | start
  | expand
  | expandAll
  | format
  | command (c : Command)
deriving DecidableEq, Repr

/-- How often a slot may be filled. -/
inductive Occurs where
  | never
  | once
  | optional
  | repeated
deriving DecidableEq, Repr

/-- The slots of a line with how often each of them may be filled. -/
abbrev UsageLine : Type := List (Slot × Occurs)

/-- Drawing is asked for by no option. -/
def Command.option : Command → String
  | .draw => ""
  | .listSymbols => "--list-symbols"
  | .listPaths => "--list-paths"
  | .canonical => "--canonical"
  | .schema => "--schema"

def Slot.text : Slot → String
  | .input => "<grammar-file> | -"
  | .start => "--start <name>"
  | .expand => "--expand <path-key>"
  | .expandAll => "--expand-all"
  | .format => "--format json|outline"
  | .command c => c.option

/-- A slot as the usage shows it. -/
def Occurs.shown (slot : String) : Occurs → String
  | .never => ""
  | .once => slot
  | .optional => "[" ++ slot ++ "]"
  | .repeated => "[" ++ slot ++ "]..."

def UsageLine.text (line : UsageLine) : String :=
  " ".intercalate (line.map fun (slot, occurs) => occurs.shown slot.text)

/-- Each command has a line of its own. -/
def Command.usageLine : Command → UsageLine
  | .draw => [(.input, .optional), (.start, .optional), (.expand, .repeated),
      (.expandAll, .optional), (.format, .optional)]
  | .listSymbols => [(.input, .optional), (.command .listSymbols, .once)]
  | .listPaths => [(.input, .optional), (.start, .optional), (.command .listPaths, .once)]
  | .canonical => [(.input, .optional), (.command .canonical, .once)]
  | .schema => [(.command .schema, .once)]

/-- A line as the usage shows it. -/
def Command.shownLine (program : String) (c : Command) : String :=
  "  " ++ program ++ " " ++ c.usageLine.text ++ "\n"

/-- The lines written out, behind the name of the program. -/
theorem Command.text_usageLine (c : Command) : " " ++ (c.usageLine.text ++ "\n") = match c with
    | .draw => " [<grammar-file> | -] [--start <name>] [--expand <path-key>]... " ++
      "[--expand-all] [--format json|outline]\n"
    | .listSymbols => " [<grammar-file> | -] --list-symbols\n"
    | .listPaths => " [<grammar-file> | -] [--start <name>] --list-paths\n"
    | .canonical => " [<grammar-file> | -] --canonical\n"
    | .schema => " --schema\n" := by
  cases c <;> decide +kernel

/-- **The usage shows these lines**, whatever the program is called, and notes on them. -/
theorem Command.usage_eq (program : String) :
    usage program = "Usage:\n" ++
      String.join ([draw, listSymbols, listPaths, canonical, schema].map (shownLine program)) ++
        "\n" ++ usageNotes := by
  have last : " --schema\n\n" = " --schema\n" ++ "\n" := by decide +kernel
  unfold usage
  rw [last]
  simp only [List.map_cons, List.map_nil, String.join_cons, String.join_nil, shownLine,
    text_usageLine, toString, String.append_assoc, String.append_empty]

/-! ### What a line offers -/

namespace Slot

/-- The option with its value, or the single argument, that fills a slot. -/
inductive FilledBy : Slot → List String → Prop where
  /-- What starts with a dash is no file. -/
  | file {name : String} : name.toList.head? ≠ some '-' → FilledBy .input [name]
  | standardInput : FilledBy .input ["-"]
  | start (name : String) : FilledBy .start ["--start", name]
  | expand {text : String} {key : PathKey} :
      PathKey.ofString? text = .ok key → FilledBy .expand ["--expand", text]
  | expandAll : FilledBy .expandAll ["--expand-all"]
  | json : FilledBy .format ["--format", "json"]
  | outline : FilledBy .format ["--format", "outline"]
  | listSymbols : FilledBy (.command .listSymbols) ["--list-symbols"]
  | listPaths : FilledBy (.command .listPaths) ["--list-paths"]
  | canonical : FilledBy (.command .canonical) ["--canonical"]
  | schema : FilledBy (.command .schema) ["--schema"]

end Slot

/-- So many times is often enough and not too often. -/
def Occurs.Allows : Occurs → Nat → Prop
  | .never, n => n = 0
  | .once, n => n = 1
  | .optional, n => n ≤ 1
  | .repeated, _ => True

namespace UsageLine

/-- The slots are those of the line from left to right, each as often as it may be filled. -/
inductive Spells : UsageLine → List Slot → Prop where
  | nil : Spells [] []
  | cons {slot : Slot} {occurs : Occurs} {line : UsageLine} {n : Nat} {rest : List Slot} :
      occurs.Allows n → Spells line rest →
      Spells ((slot, occurs) :: line) (List.replicate n slot ++ rest)

/-- The arguments fill the slots of the line, in whatever order. -/
def Offers (line : UsageLine) (args : List String) : Prop :=
  ∃ units slots ordered, units.flatten = args ∧ List.Forall₂ Slot.FilledBy slots units ∧
    slots.Perm ordered ∧ line.Spells ordered

/-- How often the line has the slot. -/
def occurs (line : UsageLine) (slot : Slot) : Occurs :=
  (line.lookup slot).getD .never

/-- No slot stands in the line twice. -/
def Distinct (line : UsageLine) : Prop :=
  (line.map Prod.fst).Nodup

end UsageLine

/-! ### Counting slots -/

namespace UsageLine

variable {line : UsageLine} {slot other : Slot} {occurs : Occurs} {slots : List Slot}

theorem occurs_cons_self : UsageLine.occurs ((slot, occurs) :: line) slot = occurs := by
  simp [UsageLine.occurs]

theorem occurs_cons_of_ne (ne : other ≠ slot) :
    UsageLine.occurs ((slot, occurs) :: line) other = line.occurs other := by
  simp [UsageLine.occurs, List.lookup_cons, beq_eq_false_iff_ne.mpr ne]

/-- A slot that may be filled is in the line. -/
theorem mem_of_occurs (filled : line.occurs slot ≠ .never) : (slot, line.occurs slot) ∈ line := by
  unfold UsageLine.occurs at filled ⊢
  cases found : line.lookup slot with
  | none => exact absurd (by rw [found, Option.getD_none]) filled
  | some occurs =>
    obtain ⟨before, after, rfl, -⟩ := List.lookup_eq_some_iff.mp found
    exact List.mem_append_right _ List.mem_cons_self

/-- A slot that is not in the line may not be filled. -/
theorem occurs_of_notMem (absent : slot ∉ line.map Prod.fst) : line.occurs slot = .never :=
  not_not.mp fun filled => absent (List.mem_map.mpr ⟨_, mem_of_occurs filled, rfl⟩)

/-- Slots that are spelled out are filled as often as the line has them. -/
theorem Spells.allows (h : line.Spells slots) (distinct : line.Distinct) (slot : Slot) :
    (line.occurs slot).Allows (slots.count slot) := by
  induction h with
  | nil => rfl
  | @cons first occurs line n rest often _ ih =>
    obtain ⟨absent, distinct⟩ := List.nodup_cons.mp distinct
    have here := ih distinct
    rw [List.count_append, List.count_replicate]
    by_cases same : slot = first
    · subst same
      rw [occurs_of_notMem absent] at here
      have none : rest.count slot = 0 := here
      simpa [occurs_cons_self, none] using often
    · rw [occurs_cons_of_ne same]
      simpa [Ne.symm same] using here

/-- Slots that are filled as often as the line has them can be spelled out. -/
theorem exists_spells (distinct : line.Distinct)
    (often : ∀ slot, (line.occurs slot).Allows (slots.count slot)) :
    ∃ ordered, slots.Perm ordered ∧ line.Spells ordered := by
  induction line generalizing slots with
  | nil =>
    have none : slots = [] := List.eq_nil_iff_forall_not_mem.mpr fun slot =>
      List.count_eq_zero.mp (often slot)
    exact ⟨[], none ▸ .nil, .nil⟩
  | cons entry line ih =>
    obtain ⟨first, occurs⟩ := entry
    obtain ⟨absent, distinct⟩ := List.nodup_cons.mp distinct
    -- The first slot of the line is taken out, so the others are those of the rest of the line.
    let others := slots.filter (· ≠ first)
    have othersOften : ∀ slot, (UsageLine.occurs line slot).Allows (others.count slot) := by
      intro slot
      by_cases same : slot = first
      · subst same
        have none : others.count slot = 0 := by simp [others, List.count_eq_zero]
        rw [occurs_of_notMem absent, none]
        rfl
      · have kept : others.count slot = slots.count slot := List.count_filter (by simpa using same)
        rw [kept, ← occurs_cons_of_ne same]
        exact often slot
    obtain ⟨ordered, perm, spells⟩ := ih distinct othersOften
    refine ⟨List.replicate (slots.count first) first ++ ordered, ?_, .cons ?_ spells⟩
    · have apart := (List.filter_append_perm (· = first) slots).symm
      rw [List.filter_eq] at apart
      refine apart.trans (List.Perm.append_left _ ?_)
      simpa [others] using perm
    · simpa [occurs_cons_self] using often first

/-- **Spelling out in some order is counting.** -/
theorem exists_spells_iff (distinct : line.Distinct) :
    (∃ ordered, slots.Perm ordered ∧ line.Spells ordered) ↔
      ∀ slot, (line.occurs slot).Allows (slots.count slot) := by
  constructor
  · rintro ⟨ordered, perm, spells⟩ slot
    rw [perm.count_eq]
    exact spells.allows distinct slot
  · exact exists_spells distinct

end UsageLine

/-! ### The slots of arguments -/

/-- The slot that an argument fills. -/
def Argument.slot : Argument → Slot
  | .start _ => .start
  | .expand _ => .expand
  | .expandAll => .expandAll
  | .format _ => .format
  | .command c => .command c
  | .input _ => .input

theorem Argument.ofWord?_of_not_dash {name : String} (file : name.toList.head? ≠ some '-') :
    ofWord? name = some (.input name) := by
  unfold ofWord?
  split_ifs <;> first | rfl | (subst_vars; exact absurd rfl file)

/-- **A unit fills a slot** exactly if what it says does. -/
theorem Slot.filledBy_iff {slot : Slot} {unit : List String} :
    slot.FilledBy unit ↔ ∃ a, Argument.ofUnit? unit = some a ∧ a.slot = slot := by
  constructor
  · intro filled
    cases filled with
    | file file => exact ⟨_, Argument.ofWord?_of_not_dash file, rfl⟩
    | @expand text key valid =>
      have said : Argument.ofUnit? ["--expand", text] = some (.expand key) := by
        show (PathKey.ofString? text).toOption.map Argument.expand = some (.expand key)
        rw [valid]
        rfl
      exact ⟨_, said, rfl⟩
    | _ => exact ⟨_, rfl, rfl⟩
  · rintro ⟨a, said, rfl⟩
    unfold Argument.ofUnit? at said
    split at said
    · rename_i arg
      unfold Argument.ofWord? at said
      split_ifs at said <;> cases said <;> subst_vars
      · exact .expandAll
      · exact .listSymbols
      · exact .listPaths
      · exact .canonical
      · exact .schema
      · exact .standardInput
      · rename_i file
        exact .file file
    · rename_i option value
      obtain ⟨read, reader, said⟩ := Option.bind_eq_some_iff.mp said
      unfold Argument.valueReader? at reader
      split_ifs at reader <;> subst_vars
      all_goals obtain rfl := Option.some.inj reader
      · cases said
        exact .start value
      · obtain ⟨key, valid, rfl⟩ := Option.map_eq_some_iff.mp said
        cases parsed : PathKey.ofString? value with
        | error e => simp [parsed, Except.toOption] at valid
        | ok k => exact .expand parsed
      · simp only at said
        split_ifs at said <;> cases said <;> subst_vars
        · exact .json
        · exact .outline
    · cases said

/-- Units fill slots exactly if what they say does. -/
theorem Slot.forall₂_filledBy_iff {slots : List Slot} {units : List (List String)} :
    List.Forall₂ FilledBy slots units ↔
      ∃ arguments, units.mapM Argument.ofUnit? = some arguments ∧
        arguments.map Argument.slot = slots := by
  induction units generalizing slots with
  | nil => simp [eq_comm]
  | cons unit rest ih =>
    rw [List.forall₂_cons_right_iff]
    constructor
    · rintro ⟨slot, others, filled, more, rfl⟩
      obtain ⟨a, said, rfl⟩ := filledBy_iff.mp filled
      obtain ⟨arguments, saidRest, rfl⟩ := ih.mp more
      exact ⟨a :: arguments, mapM_cons_eq_some.mpr ⟨a, said, arguments, saidRest, rfl⟩, rfl⟩
    · rintro ⟨_, said, rfl⟩
      obtain ⟨a, here, arguments, saidRest, rfl⟩ := mapM_cons_eq_some.mp said
      exact ⟨a.slot, arguments.map Argument.slot, filledBy_iff.mpr ⟨a, here, rfl⟩,
        ih.mpr ⟨arguments, saidRest, rfl⟩, rfl⟩

/-- **What a line offers**: each slot is filled as often as the line has it. -/
theorem UsageLine.offers_iff {line : UsageLine} (distinct : line.Distinct) {args : List String} :
    line.Offers args ↔
      ∃ arguments, Argument.listOf? args = some arguments ∧
        ∀ slot, (line.occurs slot).Allows ((arguments.map Argument.slot).count slot) := by
  simp only [Offers, Argument.listOf?_eq_some_iff, Slot.forall₂_filledBy_iff]
  constructor
  · rintro ⟨units, slots, ordered, cut, ⟨arguments, said, rfl⟩, order, spells⟩
    exact ⟨arguments, ⟨units, cut, said⟩, (exists_spells_iff distinct).mp ⟨ordered, order, spells⟩⟩
  · rintro ⟨arguments, ⟨units, cut, said⟩, often⟩
    obtain ⟨ordered, order, spells⟩ := (exists_spells_iff distinct).mpr often
    exact ⟨units, _, ordered, cut, ⟨arguments, said, rfl⟩, order, spells⟩

/-! ### The slots of options -/

namespace Options

/-- How often the options say that a slot was filled. -/
def uses (o : Options) : Slot → Nat
  | .input => o.input.toList.length
  | .start => o.start.toList.length
  | .expand => o.expand.length
  | .expandAll => o.expandAll.toNat
  | .format => o.format.toList.length
  | .command c => o.command.said.count c

open Argument

section Given

variable {arguments : List Argument}

/-- Arguments of which something is said fill the slot for it. -/
theorem count_slots {α : Type} {f : Argument → Option α} {slot : Slot}
    (fills : ∀ a, (f a).isSome = true ↔ a.slot = slot) :
    (arguments.map Argument.slot).count slot = (arguments.filterMap f).length := by
  rw [List.length_filterMap_eq_countP, List.count, List.countP_map]
  refine List.countP_congr fun a _ => ?_
  rw [fills a]
  simp

theorem count_slots_input :
    (arguments.map Argument.slot).count .input = (arguments.filterMap input?).length :=
  count_slots (by rintro (_ | _) <;> simp [input?, Argument.slot])

theorem count_slots_start :
    (arguments.map Argument.slot).count .start = (arguments.filterMap start?).length :=
  count_slots (by rintro (_ | _) <;> simp [start?, Argument.slot])

theorem count_slots_expand :
    (arguments.map Argument.slot).count .expand = (arguments.filterMap key?).length :=
  count_slots (by rintro (_ | _) <;> simp [key?, Argument.slot])

theorem count_slots_format :
    (arguments.map Argument.slot).count .format = (arguments.filterMap format?).length :=
  count_slots (by rintro (_ | _) <;> simp [format?, Argument.slot])

theorem count_slots_expandAll :
    (arguments.map Argument.slot).count .expandAll = arguments.countP isExpandAll := by
  rw [List.count, List.countP_map]
  refine List.countP_congr fun a _ => ?_
  cases a <;> simp [Argument.slot, isExpandAll]

theorem count_slots_command (c : Command) :
    (arguments.map Argument.slot).count (.command c) = (arguments.filterMap command?).count c := by
  rw [List.count_filterMap, List.count, List.countP_map]
  refine List.countP_congr fun a _ => ?_
  cases a <;> simp [Argument.slot, command?]

/-- **How often a slot was filled** can be told from the options. -/
theorem GivenBy.count_slots_eq {o : Options} (h : o.GivenBy arguments) (slot : Slot) :
    (arguments.map Argument.slot).count slot = o.uses slot := by
  cases slot with
  | input => exact count_slots_input.trans (congrArg List.length h.input)
  | start => exact count_slots_start.trans (congrArg List.length h.start)
  | expand => exact count_slots_expand.trans (congrArg List.length h.expand)
  | expandAll => exact count_slots_expandAll.trans h.expandAll
  | format => exact count_slots_format.trans (congrArg List.length h.format)
  | command c => exact (count_slots_command c).trans (congrArg (List.count c) h.command)

end Given

end Options

/-! ### Lines for a command -/

theorem Occurs.Allows.le_one {occurs : Occurs} {n : Nat} (h : occurs.Allows n)
    (short : occurs ≠ .repeated) : n ≤ 1 := by
  cases occurs with
  | never => exact Nat.le_succ_of_le (Nat.le_zero.mpr h)
  | once => exact Nat.le_of_eq h
  | optional => exact h
  | repeated => exact absurd rfl short

/-- The line asks for the command and for no other one, and only keys may be given repeatedly. -/
structure UsageLine.AsksFor (line : UsageLine) (c : Command) : Prop where
  distinct : line.Distinct
  command : ∀ d n, (line.occurs (.command d)).Allows n ↔ n = c.said.count d
  once : ∀ entry ∈ line, entry.2 = .repeated → entry.1 = .expand

section AsksFor

variable {line : UsageLine} {c : Command}

open Argument Options

/-- Arguments that fill the slots of such a line give options. -/
theorem UsageLine.AsksFor.exists_givenBy (asks : line.AsksFor c) {arguments : List Argument}
    (often : ∀ slot, (line.occurs slot).Allows ((arguments.map Argument.slot).count slot)) :
    ∃ o : Options, o.GivenBy arguments := by
  have short : ∀ slot, slot ≠ .expand → (arguments.map Argument.slot).count slot ≤ 1 :=
    fun slot other => (often slot).le_one fun repeated =>
      other (asks.once _ (UsageLine.mem_of_occurs (by simp [repeated])) repeated)
  have command : arguments.filterMap command? = c.said := by
    refine eq_of_perm_short (by cases c <;> decide) (List.perm_iff_count.mpr fun d => ?_)
    rw [← count_slots_command]
    exact ((asks.command d _).mp (often _)).symm
  obtain ⟨input, hinput⟩ := exists_toList_of_short (count_slots_input ▸ short .input (by decide))
  obtain ⟨start, hstart⟩ := exists_toList_of_short (count_slots_start ▸ short .start (by decide))
  obtain ⟨all, hall⟩ := exists_toNat_of_short (count_slots_expandAll ▸ short .expandAll (by decide))
  obtain ⟨format, hformat⟩ :=
    exists_toList_of_short (count_slots_format ▸ short .format (by decide))
  exact ⟨⟨c, input, start, arguments.filterMap key?, all, format⟩,
    ⟨command, hinput, hstart, rfl, hall, hformat⟩⟩

/-- **What such a line offers** are the arguments that give options which fill its slots. -/
theorem UsageLine.AsksFor.offers_iff (asks : line.AsksFor c) {args : List String} :
    line.Offers args ↔
      ∃ arguments, ∃ o : Options, listOf? args = some arguments ∧ o.GivenBy arguments ∧
        ∀ slot, (line.occurs slot).Allows (o.uses slot) := by
  rw [UsageLine.offers_iff asks.distinct]
  constructor
  · rintro ⟨arguments, said, often⟩
    obtain ⟨o, given⟩ := asks.exists_givenBy often
    exact ⟨arguments, o, said, given, fun slot => given.count_slots_eq slot ▸ often slot⟩
  · rintro ⟨arguments, o, said, given, often⟩
    exact ⟨arguments, said, fun slot => (given.count_slots_eq slot).symm ▸ often slot⟩

/-- Such a line offers what is accepted under a condition, if that is when the options fill it. -/
theorem UsageLine.AsksFor.offers_iff_accepted (asks : line.AsksFor c) {P : Options → Prop}
    (fills : ∀ o : Options,
      (∀ slot, (line.occurs slot).Allows (o.uses slot)) ↔ o.consistent = true ∧ P o)
    {args : List String} : line.Offers args ↔ ∃ o, ofArguments? args = some o ∧ P o := by
  simp only [asks.offers_iff, ofArguments?_eq_some_iff, fills]
  constructor
  · rintro ⟨arguments, o, said, given, consistent, holds⟩
    exact ⟨o, ⟨arguments, said, given, consistent⟩, holds⟩
  · rintro ⟨o, ⟨arguments, said, given, consistent⟩, holds⟩
    exact ⟨arguments, o, said, given, consistent, holds⟩

end AsksFor

/-! ### What is offered and what is accepted -/

/-- What holds of each slot holds of the slots for commands and of the five others. -/
theorem Slot.forall_iff {P : Slot → Prop} :
    (∀ slot, P slot) ↔ (∀ c, P (.command c)) ∧ P .input ∧ P .start ∧ P .expand ∧ P .expandAll ∧
      P .format := by
  constructor
  · intro h
    exact ⟨fun c => h (.command c), h _, h _, h _, h _, h _⟩
  · rintro ⟨command, input, start, expand, expandAll, format⟩ slot
    cases slot with
    | input => exact input
    | start => exact start
    | expand => exact expand
    | expandAll => exact expandAll
    | format => exact format
    | command c => exact command c

namespace Command

/-- The commands that take no notice of a start, though they accept one. -/
def ignoresStart : Command → Bool
  | .listSymbols | .canonical => true
  | .draw | .listPaths | .schema => false

/-- The line of a command as it is accepted: with a start also where it is ignored. -/
def acceptedLine (c : Command) : UsageLine :=
  if c.ignoresStart then (.start, .optional) :: c.usageLine else c.usageLine

theorem asksFor_usageLine (c : Command) : c.usageLine.AsksFor c where
  distinct := by cases c <;> simp [usageLine, UsageLine.Distinct]
  command d n := by cases c <;> cases d <;> exact Iff.rfl
  once := by cases c <;> decide

theorem asksFor_acceptedLine (c : Command) : c.acceptedLine.AsksFor c where
  distinct := by cases c <;> simp [acceptedLine, ignoresStart, usageLine, UsageLine.Distinct]
  command d n := by cases c <;> cases d <;> exact Iff.rfl
  once := by cases c <;> decide

theorem count_said_eq_iff {c d : Command} : (∀ e, c.said.count e = d.said.count e) ↔ c = d := by
  rw [← List.perm_iff_count]
  constructor
  · intro same
    exact said_inj.mp (Options.eq_of_perm_short (by cases d <;> decide) same.symm)
  · rintro rfl
    exact .refl _

end Command

namespace Options

variable {c : Command} {o : Options}

/-- **When a line is filled**: a line with a start also where it is ignored is filled by all options
for its command that go together. -/
theorem allows_acceptedLine_iff :
    (∀ slot, (c.acceptedLine.occurs slot).Allows (o.uses slot)) ↔
      o.consistent = true ∧ o.command = c := by
  obtain ⟨d, input, start, keys, all, format⟩ := o
  simp only [Slot.forall_iff, c.asksFor_acceptedLine.command, uses, Command.count_said_eq_iff]
  rw [and_comm (b := d = c)]
  refine and_congr_right fun same => ?_
  subst same
  -- What is left is to compare, command by command, the line with the check of the options.
  cases d <;>
    simp [Command.acceptedLine, Command.usageLine, Command.ignoresStart, UsageLine.occurs,
      List.lookup_cons, beq_eq_decide, Occurs.Allows, consistent, forDrawing,
      Option.length_toList_le, Bool.toNat_le]
  all_goals tauto

/-- A line of the usage is filled if no start is given where it would be ignored. -/
theorem allows_usageLine_iff :
    (∀ slot, (c.usageLine.occurs slot).Allows (o.uses slot)) ↔
      (∀ slot, (c.acceptedLine.occurs slot).Allows (o.uses slot)) ∧
        (c.ignoresStart = true → o.start = none) := by
  by_cases ignores : c.ignoresStart = true
  · have never : c.usageLine.occurs .start = .never := by cases c <;> first | rfl | cases ignores
    have unused : o.uses .start = 0 ↔ o.start = none := by
      rw [uses, List.length_eq_zero_iff, Option.toList_eq_nil_iff]
    rw [Command.acceptedLine, if_pos ignores]
    constructor
    · intro often
      have none : o.uses .start = 0 := by simpa [never, Occurs.Allows] using often .start
      refine ⟨fun slot => ?_, fun _ => unused.mp none⟩
      by_cases same : slot = .start
      · rw [same, UsageLine.occurs_cons_self, none]
        exact Nat.zero_le 1
      · rw [UsageLine.occurs_cons_of_ne same]
        exact often slot
    · rintro ⟨often, missing⟩ slot
      by_cases same : slot = .start
      · rw [same, never]
        exact unused.mpr (missing ignores)
      · rw [← UsageLine.occurs_cons_of_ne same]
        exact often slot
  · simp [Command.acceptedLine, ignores]

end Options

/-- Nothing that such a command does depends on a start. -/
theorem Command.execute_start {o : Options} (ignores : o.command.ignoresStart = true)
    (start : Option String) (sources : Sources) :
    execute { o with start } sources = execute o sources := by
  have answers : ∀ g, answer g { o with start } = answer g o := by
    intro g
    unfold answer
    cases asked : o.command <;> simp_all [ignoresStart]
  unfold execute
  simp only [answers]
  rfl

/-- The usage is printed where no options are given. -/
theorem Command.run_eq_usage_iff {args : List String} {sources : Sources} {program : String} :
    run args sources program = ⟨2, "", usage program⟩ ↔ Options.ofArguments? args = none := by
  unfold run
  cases Options.ofArguments? args with
  | none => simp
  | some o => cases executed : execute o sources <;> simp [executed]

open Options in
/-- **What is accepted is what the usage offers**, but for a start. Whatever the program is called,
the usage shows one line for each command. A line offers exactly the argument lists that are accepted
and ask for its command, without `--start` where that would be ignored. With a start in the lines as
well they offer all that is accepted; everything else is answered with the usage. A start that no
line offers is ignored: with another start, or with none, the run is the same. -/
theorem Options.accepted_iff_offered (args : List String) :
    (∃ notes, ∀ program, Command.usage program = "Usage:\n" ++
      String.join ([.draw, .listSymbols, .listPaths, .canonical, .schema].map
        (Command.shownLine program)) ++ "\n" ++ notes) ∧
    (∀ c : Command, c.usageLine.Offers args ↔
      ∃ o, ofArguments? args = some o ∧ o.command = c ∧
        (c.ignoresStart = true → o.start = none)) ∧
    (∀ c : Command, c.acceptedLine.Offers args ↔
      ∃ o, ofArguments? args = some o ∧ o.command = c) ∧
    (∀ sources program, Command.run args sources program = ⟨2, "", Command.usage program⟩ ↔
      ∀ c : Command, ¬ c.acceptedLine.Offers args) ∧
    ∀ o, ofArguments? args = some o → o.command.ignoresStart = true →
      ∀ start sources, Command.execute { o with start } sources = Command.execute o sources := by
  have accepted (c : Command) : c.acceptedLine.Offers args ↔
      ∃ o, ofArguments? args = some o ∧ o.command = c :=
    c.asksFor_acceptedLine.offers_iff_accepted fun _ => allows_acceptedLine_iff
  refine ⟨⟨_, Command.usage_eq⟩, fun c => ?_, accepted, fun sources program => ?_, ?_⟩
  · refine c.asksFor_usageLine.offers_iff_accepted fun o => ?_
    rw [allows_usageLine_iff, allows_acceptedLine_iff, and_assoc]
  · simp only [Command.run_eq_usage_iff, accepted]
    cases ofArguments? args <;> simp
  · intro o _ ignores
    exact Command.execute_start ignores

/-- `--start Nope --canonical` is accepted and run as `--canonical`, though no line offers it. -/
theorem Options.accepted_iff_offered_canonical :
    (∃ o, ofArguments? ["--start", "Nope", "--canonical"] = some o ∧
      ∀ sources, Command.execute { o with start := none } sources = Command.execute o sources) ∧
    ∀ c : Command, ¬ c.usageLine.Offers ["--start", "Nope", "--canonical"] := by
  have given : ofArguments? ["--start", "Nope", "--canonical"] =
      some { command := .canonical, start := some "Nope" } := by decide
  obtain ⟨-, offered, -, -, ignored⟩ := accepted_iff_offered ["--start", "Nope", "--canonical"]
  refine ⟨⟨_, given, ignored _ given rfl none⟩, fun c offers => ?_⟩
  obtain ⟨o, accepted, command, start⟩ := (offered c).mp offers
  obtain rfl := Option.some.inj (given.symm.trans accepted)
  subst command
  exact absurd (start rfl) (by decide)

end Railroad
