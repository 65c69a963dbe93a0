import Railroad.Grammar.Lookup
import Railroad.Layout
import Railroad.Traced
import Std.Data.HashSet

/-!
Drawing diagrams: a layout becomes a track once it is known which references are opened.

`Layout.draw` draws a layout with a given way to draw references. A reference is opened if its key
is selected and is shorter than `maxDepth` ids; then the production it names is laid out below that
key and drawn in the same way, so that references inside it can be opened in turn
(`Grammar.drawReference`). Since each key inside is longer, the depth bounds how often this happens,
also for a production that refers to itself. `Grammar.diagram` draws a production with a list of
keys opened, `Grammar.expandablePaths` lists all keys that can be opened.
-/

namespace Railroad

/-- A reference whose key has this many ids stays closed. -/
def maxDepth : Nat := 30

/-- Why there is no diagram. -/
inductive DiagramError where
  | productionNotFound (error : ProductionNotFound)
  /-- No start is given, and there is no production to start from. -/
  | emptyGrammar
deriving DecidableEq, Repr

namespace DiagramError

/-- The cause by itself, where the error has one. -/
def cause? : DiagramError → Option String
  | .productionNotFound error => some error.message
  | .emptyGrammar => none

def message : DiagramError → String
  | .productionNotFound error => "diagram error: " ++ error.message
  | .emptyGrammar => "diagram error: grammar has no productions"

end DiagramError

/-- What is recorded while a diagram is drawn. -/
inductive DrawingEvent where
  /-- A layout with this note is drawn. -/
  | laidOut (note : LayoutNote)
  /-- The reference is not opened. -/
  | collapsed (name : String) (path : PathKey)
  /-- The reference is opened. -/
  | expanding (name : String) (path : PathKey)

namespace DrawingEvent

def logRecord : DrawingEvent → LogRecord
  | .laidOut note => note.logRecord
  | .collapsed name path => ⟨.trace, "collapsed " ++ name ++ " at " ++ path.text⟩
  | .expanding name path => ⟨.trace, "expanding " ++ name ++ " at " ++ path.text⟩

/-- The key that is opened, if one is. -/
def openedKey? : DrawingEvent → Option PathKey
  | .expanding _ path => some path
  | _ => none

end DrawingEvent

/-- A computation that draws. -/
abbrev Drawing := Traced DrawingEvent DiagramError

namespace Layout

mutual

/-- Draws a layout, with `refer` to draw its references. -/
def draw (refer : String → PathKey → Drawing Track) : Layout → Drawing Track
  | .terminal text path => pure (.terminal text path)
  | .reference name path => refer name path
  | .skip => pure .skip
  | .sequence items => Track.sequence <$> drawAll refer items
  | .joined items => Track.joined <$> drawAll refer items
  | .returned items => (fun tracks => Track.joined tracks.reverse) <$> drawAll refer items
  | .choice options =>
    (fun tracks => Track.choice (tracks.length / 2) tracks) <$> drawAll refer options
  | .optional item => Track.optional <$> item.draw refer
  | .zeroOrMore item => Track.zeroOrMore <$> item.draw refer
  | .oneOrMore item => (Track.oneOrMore · none) <$> item.draw refer
  | .loop item back => do
    let item ← item.draw refer
    (fun back => Track.oneOrMore item (some back)) <$> back.draw refer
  | .compacted round before after => do
    let round ← round.draw refer
    let before ← drawAll refer before
    (fun after => Track.joined (before ++ round :: after)) <$> drawAll refer after
  | .noted note item => do
    Traced.emit (.laidOut note)
    item.draw refer

def drawAll (refer : String → PathKey → Drawing Track) : List Layout → Drawing (List Track)
  | [] => pure []
  | item :: rest => do
    let track ← item.draw refer
    (track :: ·) <$> drawAll refer rest

end

end Layout

namespace Grammar

/-- Draws a reference that stays closed. -/
def drawClosed (name : String) (path : PathKey) : Drawing Track := do
  Traced.emit (.collapsed name path)
  return .nonTerminal name path

/-- Draws a reference, opened if `selected` and not too deep. At most `levels` references are opened
inside one another. -/
def drawReference (g : Grammar) (selected : PathKey → Bool) :
    (levels : Nat) → String → PathKey → Drawing Track
  | 0, name, path => drawClosed name path
  | levels + 1, name, path =>
    if path.depth < maxDepth ∧ selected path then do
      Traced.emit (.expanding name path)
      let production ← Traced.ofExcept ((g.lookup name).mapError .productionNotFound)
      let body := production.body.layout path.ids
      Track.group name path <$> body.draw (g.drawReference selected levels)
    else drawClosed name path

/-- The production that a diagram starts from: the one of the given name, or else the first. -/
def startProduction (g : Grammar) (start : Option String) : Except DiagramError Production :=
  match start with
  | some name => (g.lookup name).mapError .productionNotFound
  | none =>
    match g.productions with
    | first :: _ => .ok first
    | [] => .error .emptyGrammar

/-- Draws a production with the selected references opened. -/
def drawProduction (g : Grammar) (selected : PathKey → Bool) (production : Production) :
    Drawing Track :=
  let body := production.body.layout [production.id]
  (fun track => Track.sequence [track]) <$> body.draw (g.drawReference selected maxDepth)

/-- Draws the diagram from a start with the selected references opened. -/
def draw (g : Grammar) (start : Option String) (selected : PathKey → Bool) :
    Drawing Diagram := do
  let production ← Traced.ofExcept (g.startProduction start)
  Diagram.mk production.name.text <$> g.drawProduction selected production

/-- The diagram in which the references with the given keys are opened. A key that leads nowhere is
ignored. -/
def diagram (g : Grammar) (start : Option String) (expanded : List PathKey) : Drawing Diagram :=
  let keys := Std.HashSet.ofList expanded
  g.draw start keys.contains

/-- The keys of all references that can be opened, ascending by their text: those that are opened,
one after the other, while everything is. -/
def expandablePaths (g : Grammar) (start : Option String) : Drawing (List PathKey) :=
  let drawing := g.draw start fun _ => true
  (fun _ => PathKey.sorted (drawing.events.filterMap DrawingEvent.openedKey?)) <$> drawing

end Grammar

end Railroad
