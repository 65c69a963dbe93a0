import Railroad.PathKey

/-!
The options of the command line.

The arguments are cut from left to right (`Argument.listOf?`): some options take the next argument
as their value, whatever it is. The pieces are put together one by one (`Options.add?`), each option
at most once except for the keys to open, and in the end options that do not go together are
refused. An argument list that is refused is refused as a whole, without a reason.
-/

namespace Railroad

/-- What the program is asked for. -/
inductive Command where
  | draw
  | listSymbols
  | listPaths
  | canonical
  | schema
deriving DecidableEq, Repr

/-- How a diagram is printed. -/
inductive OutputFormat where
  | json
  | outline
deriving DecidableEq, Repr

/-- Options together with their values, and the name of the input. -/
inductive Argument where
  | start (name : String)
  | expand (key : PathKey)
  | expandAll
  | format (format : OutputFormat)
  | command (command : Command)
  | input (name : String)
deriving DecidableEq, Repr

namespace Argument

/-- How the value of an option is read, if the option takes one. -/
def valueReader? (arg : String) : Option (String → Option Argument) :=
  if arg = "--start" then some fun value => some (.start value)
  else if arg = "--expand" then
    some fun value => (PathKey.ofString? value).toOption.map .expand
  else if arg = "--format" then
    some fun value =>
      if value = "json" then some (.format .json)
      else if value = "outline" then some (.format .outline)
      else none
  else none

/-- An argument that takes no value. What starts with a dash is an option, but a dash alone is an
input. -/
def ofWord? (arg : String) : Option Argument :=
  if arg = "--expand-all" then some .expandAll
  else if arg = "--list-symbols" then some (.command .listSymbols)
  else if arg = "--list-paths" then some (.command .listPaths)
  else if arg = "--canonical" then some (.command .canonical)
  else if arg = "--schema" then some (.command .schema)
  else if arg = "-" then some (.input arg)
  else if arg.toList.head? = some '-' then none
  else some (.input arg)

/-- Cuts an argument list. -/
def listOf? : List String → Option (List Argument)
  | [] => some []
  | arg :: rest =>
    match valueReader? arg with
    | none => do return (← ofWord? arg) :: (← listOf? rest)
    | some read =>
      match rest with
      | [] => none
      | value :: rest => do return (← read value) :: (← listOf? rest)

end Argument

/-- The options of one run. -/
structure Options where
  command : Command := .draw
  input : Option String := none
  start : Option String := none
  expand : List PathKey := []
  expandAll : Bool := false
  format : Option OutputFormat := none
deriving DecidableEq, Repr

namespace Options

/-- The options with one more, unless it is given already. -/
def add? (o : Options) : Argument → Option Options
  | .start name => if o.start.isSome then none else some { o with start := some name }
  | .expand key => some { o with expand := o.expand ++ [key] }
  | .expandAll => if o.expandAll then none else some { o with expandAll := true }
  | .format format => if o.format.isSome then none else some { o with format := some format }
  | .command command => if o.command = .draw then some { o with command } else none
  | .input name => if o.input.isSome then none else some { o with input := some name }

/-- Whether an option is given that only matters to drawing. -/
def forDrawing (o : Options) : Bool :=
  !o.expand.isEmpty || o.expandAll || o.format.isSome

/-- Whether the options go together. -/
def consistent (o : Options) : Bool :=
  (!o.forDrawing || o.command = .draw) &&
    (o.command ≠ .schema || (o.input.isNone && o.start.isNone))

/-- The options that are given by arguments that are cut already. -/
def ofList? (arguments : List Argument) : Option Options :=
  (arguments.foldlM add? {}).filter consistent

/-- The options that an argument list gives. -/
def ofArguments? (args : List String) : Option Options :=
  (Argument.listOf? args).bind ofList?

end Options

end Railroad
