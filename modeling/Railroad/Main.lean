import Railroad.Command

/-!
The program: reads what the options ask for, and writes the response of `Command.run`. The name under
which it is called is not among the arguments here, so the usage shows its own.
-/

open Railroad

/-- The whole of a file, or why there is none. -/
def readFile (name : String) : IO (Except FileError ByteArray) := do
  try
    return .ok (← IO.FS.readBinFile name)
  catch
    | .noFileOrDirectory .. => return .error .notFound
    | e => return .error (.other (toString e))

/-- What the given options let the program read. -/
def readSources (o : Options) : IO Sources := do
  if o.command = .schema then
    return ⟨.empty, fun _ => .error .notFound⟩
  match Command.inputFile? o with
  | none =>
    let bytes ← (← IO.getStdin).readBinToEnd
    return ⟨bytes, fun _ => .error .notFound⟩
  | some name =>
    let file ← readFile name
    return ⟨.empty, fun _ => file⟩

def main (args : List String) : IO UInt32 := do
  let sources ←
    match Options.ofArguments? args with
    | none => pure ⟨.empty, fun _ => .error .notFound⟩
    | some o => readSources o
  let response := Command.run args sources
  IO.print response.standardOutput
  IO.eprint response.standardError
  return response.code.toUInt32
