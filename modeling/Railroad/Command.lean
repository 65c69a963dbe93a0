import Railroad.Command.Options
import Railroad.Diagram.Schema
import Railroad.Drawing
import Railroad.Grammar.Parser
import Railroad.Track.Text

/-!
The command line as a function of the arguments and of what can be read.

`Command.run` answers with an exit code and what is written to standard output and standard error.
The code is 2, with the usage on standard error, when the arguments are refused, and 1, with one
message there, when the grammar cannot be read or what is asked for fails. Otherwise it is 0 and the
answer is on standard output. Nothing is written to both.
-/

namespace Railroad

/-- Why a file could not be read. -/
inductive FileError where
  | notFound
  | other (message : String)
deriving DecidableEq, Repr

def FileError.message : FileError → String
  | .notFound => "No such file or directory (os error 2)"
  | .other message => message

/-- What a run can read. -/
structure Sources where
  standardInput : ByteArray
  file : String → Except FileError ByteArray

/-- What a run leaves behind. -/
structure Response where
  code : Nat
  standardOutput : String
  standardError : String
deriving DecidableEq, Repr

/-- Why a run fails. -/
inductive CommandError where
  | file (error : FileError)
  /-- The bytes of the grammar are no text. -/
  | notText
  | parse (error : ParseError)
  | diagram (error : DiagramError)
deriving DecidableEq, Repr

def CommandError.message : CommandError → String
  | .file error => error.message
  | .notText => "stream did not contain valid UTF-8"
  | .parse error => error.message
  | .diagram error => error.message

namespace Command

/-- The name of the program. Messages begin with it, and the usage shows it where the name under
which the program is called is not known. -/
def programName : String := "railyard"

/-- What the usage says below the lines for the commands. -/
def usageNotes : String :=
  "Without a grammar file (or with `-`) the grammar is read from stdin.\n" ++
  "--start picks the production to draw (default: the first one).\n" ++
  "--expand draws the non-terminal at <path-key> inline; repeat it for several occurrences.\n" ++
  "--expand-all expands every occurrence reported by --list-paths.\n" ++
  "--schema prints the JSON schema of the diagram output.\n"

/-- How the program is called under the given name. -/
def usage (program : String) : String :=
  "Usage:\n" ++
  s!"  {program} [<grammar-file> | -] [--start <name>] [--expand <path-key>]... " ++
    "[--expand-all] [--format json|outline]\n" ++
  s!"  {program} [<grammar-file> | -] --list-symbols\n" ++
  s!"  {program} [<grammar-file> | -] [--start <name>] --list-paths\n" ++
  s!"  {program} [<grammar-file> | -] --canonical\n" ++
  s!"  {program} --schema\n\n" ++
  usageNotes

/-- Where the grammar is: in the named file, or else on standard input. -/
def inputFile? (o : Options) : Option String :=
  o.input.filter (· ≠ "-")

/-- The bytes of the grammar. -/
def readBytes (o : Options) (sources : Sources) : Except CommandError ByteArray :=
  match inputFile? o with
  | none => .ok sources.standardInput
  | some name => (sources.file name).mapError .file

/-- The grammar. -/
def readGrammar (o : Options) (sources : Sources) : Except CommandError Grammar := do
  let bytes ← readBytes o sources
  match String.fromUTF8? bytes with
  | none => throw .notText
  | some text => (Grammar.ofString? text).mapError .parse

/-- Lines, each ended by a line feed. -/
def unlines (lines : List String) : String :=
  String.join (lines.map (· ++ "\n"))

/-- All keys that are to be opened. -/
def keysToExpand (g : Grammar) (o : Options) : Except DiagramError (List PathKey) :=
  if o.expandAll then (g.expandablePaths o.start).result.map (o.expand ++ ·) else .ok o.expand

/-- A diagram as it is printed. -/
def printed (format : OutputFormat) (diagram : Diagram) : String :=
  match format with
  | .json => diagram.toJson.pretty ++ "\n"
  | .outline => diagram.root.outline

/-- The diagram that is asked for, as it is printed. -/
def drawn (g : Grammar) (o : Options) : Except DiagramError String := do
  let keys ← keysToExpand g o
  let diagram ← (g.diagram o.start keys).result
  return printed (o.format.getD .json) diagram

/-- What is asked for of a grammar. -/
def answer (g : Grammar) (o : Options) : Except DiagramError String :=
  match o.command with
  | .draw => drawn g o
  | .listSymbols => .ok (unlines g.names)
  | .listPaths => (g.expandablePaths o.start).result.map fun keys => unlines (keys.map PathKey.text)
  | .canonical => .ok (g.text ++ "\n")
  | .schema => .ok (Diagram.Schema.value.pretty ++ "\n")

/-- What is asked for. Only the schema is printed without a grammar. -/
def execute (o : Options) (sources : Sources) : Except CommandError String :=
  if o.command = .schema then .ok (Diagram.Schema.value.pretty ++ "\n")
  else do
    let g ← readGrammar o sources
    (answer g o).mapError .diagram

/-- One run of the program, called under the given name. -/
def run (args : List String) (sources : Sources) (program : String := programName) : Response :=
  match Options.ofArguments? args with
  | none => ⟨2, "", usage program⟩
  | some o =>
    match execute o sources with
    | .ok output => ⟨0, output, ""⟩
    | .error e => ⟨1, "", programName ++ ": " ++ e.message ++ "\n"⟩

end Command

end Railroad
