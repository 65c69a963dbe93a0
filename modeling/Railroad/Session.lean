import Railroad.Drawing
import Railroad.Track.Text

/-!
Working with one grammar: a start and the references that are opened, changed step by step. This is
the state that a caller keeps between drawings, since diagrams are drawn anew for the keys that are
handed over and nothing else is remembered of them.

`Session.apply` makes one change; a change that fails leaves the session as it was.
`Session.answer` makes a change and shows the diagram that comes out.
-/

namespace Railroad

/-- The name to start from, if one is chosen, and the keys of the opened references, each once and
ascending by their text. -/
structure Session where
  start : Option String := none
  expanded : List PathKey := []

/-- A change of a session. -/
inductive SessionChange where
  | start (name : Option String)
  | expand (key : String)
  | collapse (key : String)
  | clear
  /-- Opens all that can be opened. -/
  | all
  /-- Opens or closes the name that has this index in the current diagram, from 0. -/
  | toggle (index : Nat)

/-- Why a change or the diagram behind it failed. -/
inductive SessionError where
  | key (error : PathKeyError)
  | diagram (error : DiagramError)

/-- What is shown of a session. -/
structure SessionView where
  start : String
  expandedCount : Nat
  display : String

namespace Session

/-- Draws for a session. -/
def lift {α : Type} (drawing : Drawing α) : Traced DrawingEvent SessionError α :=
  ⟨drawing.events, drawing.result.mapError .diagram⟩

/-- Opens more keys. -/
def expandAll (s : Session) (keys : List PathKey) : Session :=
  { s with expanded := PathKey.sorted (keys ++ s.expanded) }

/-- Closes a key if it is opened, else opens it. -/
def toggle (s : Session) (key : PathKey) : Session :=
  if key ∈ s.expanded then { s with expanded := s.expanded.filter (· ≠ key) }
  else s.expandAll [key]

/-- The diagram of a session. -/
def diagram (g : Grammar) (s : Session) : Traced DrawingEvent SessionError Diagram :=
  lift (g.diagram s.start s.expanded)

/-- Makes a change. -/
def apply (g : Grammar) (s : Session) : SessionChange → Traced DrawingEvent SessionError Session
  | .start name => return { s with start := name }
  | .expand text =>
    .ofExcept (((PathKey.ofString? text).mapError .key).map fun key => s.expandAll [key])
  | .collapse text => return { s with expanded := s.expanded.filter (·.text ≠ text) }
  | .clear => return { s with expanded := [] }
  | .all => do
    let keys ← lift (g.expandablePaths s.start)
    return s.expandAll keys
  | .toggle index => do
    let current ← s.diagram g
    match current.root.referencePaths[index]? with
    | some key => return s.toggle key
    | none => return s

/-- What is shown of the session as it is. -/
def view (g : Grammar) (s : Session) : Traced DrawingEvent SessionError SessionView := do
  let diagram ← s.diagram g
  return ⟨diagram.start, s.expanded.length, diagram.root.display⟩

/-- Makes a change and shows what comes out. -/
def answer (g : Grammar) (s : Session) (change : SessionChange) :
    Session × Traced DrawingEvent SessionError SessionView :=
  let changed := s.apply g change
  match changed.result with
  | .error e => (s, ⟨changed.events, .error e⟩)
  | .ok next =>
    let view := next.view g
    (next, ⟨changed.events ++ view.events, view.result⟩)

/-- Makes one change after the other; a change that fails does not end the session. -/
def answers (g : Grammar) : Session → List SessionChange →
    List (Traced DrawingEvent SessionError SessionView)
  | _, [] => []
  | s, change :: rest =>
    let (next, view) := s.answer g change
    view :: answers g next rest

end Session

end Railroad
