import Railroad.Json.Reader
import Railroad.Json.Strict
import Railroad.Track

/-!
Diagrams as JSON texts.

`Track.toJson` writes a track as an object whose field `kind` names what it is. `Diagram.decode?`
reads back what `Diagram.toJson` writes, and more: fields may come in any order, unknown ones are
ignored, and the way back of a loop may be absent or null. An object may also be given as the array
of its fields in order. Inside other tracks a kind may be given by its number. What is decoded has
keys that are well formed.
-/

namespace Railroad

/-- What a track is, without its parts. -/
inductive TrackKind where
  | sequence
  | choice
  | optional
  | zeroOrMore
  | oneOrMore
  | terminal
  | nonTerminal
  | group
  | skip
deriving DecidableEq, Repr

namespace TrackKind

/-- All kinds in the order of their numbers. -/
def all : List TrackKind :=
  [.sequence, .choice, .optional, .zeroOrMore, .oneOrMore, .terminal, .nonTerminal, .group, .skip]

/-- The value of the field `kind`. -/
def tag : TrackKind → String
  | .sequence => "sequence"
  | .choice => "choice"
  | .optional => "optional"
  | .zeroOrMore => "zero_or_more"
  | .oneOrMore => "one_or_more"
  | .terminal => "terminal"
  | .nonTerminal => "non_terminal"
  | .group => "group"
  | .skip => "skip"

/-- The other fields in order. -/
def fieldNames : TrackKind → List String
  | .sequence => ["items"]
  | .choice => ["default_index", "options"]
  | .optional | .zeroOrMore => ["item"]
  | .oneOrMore => ["item", "repeat"]
  | .terminal | .nonTerminal => ["text", "path"]
  | .group => ["label", "path", "item"]
  | .skip => []

/-- The kind of a tag. -/
def ofTag? (tag : String) : Option TrackKind :=
  all.find? (·.tag = tag)

/-- The kind that a value names, by its tag or, if `numbered`, by its number. -/
def ofJson? (numbered : Bool) (value : Json) : Option TrackKind :=
  match value.text? with
  | some tag => ofTag? tag
  | none => if numbered then value.natural?.bind (all[·]?) else none

end TrackKind

namespace Track

mutual

/-- The object of a track. -/
def toJson : Track → Json
  | .sequence items => tagged .sequence [("items", .array (toJsonAll items))]
  | .choice index options =>
    tagged .choice [("default_index", .ofNat index), ("options", .array (toJsonAll options))]
  | .optional item => tagged .optional [("item", item.toJson)]
  | .zeroOrMore item => tagged .zeroOrMore [("item", item.toJson)]
  | .oneOrMore item none => tagged .oneOrMore [("item", item.toJson)]
  | .oneOrMore item (some back) =>
    tagged .oneOrMore [("item", item.toJson), ("repeat", back.toJson)]
  | .terminal text path => tagged .terminal [("text", .ofString text), ("path", pathJson path)]
  | .nonTerminal text path =>
    tagged .nonTerminal [("text", .ofString text), ("path", pathJson path)]
  | .group label path item =>
    tagged .group [("label", .ofString label), ("path", pathJson path), ("item", item.toJson)]
  | .skip => tagged .skip []
where
  tagged (kind : TrackKind) (fields : List (String × Json)) : Json :=
    .ofFields (("kind", .ofString kind.tag) :: fields)
  pathJson (path : PathKey) : Json := .ofString path.text

def toJsonAll : List Track → List Json
  | [] => []
  | track :: rest => track.toJson :: toJsonAll rest

end

end Track

/-- Fields by their names. -/
abbrev Fields := List (String × Json)

namespace Fields

/-- The fields of an object, if all names stand for texts. -/
def ofObject? (fields : List (List Char × Json)) : Option Fields :=
  fields.mapM fun (name, value) =>
    (Json.unescape? name).map fun name => (String.ofList name, value)

/-- The values of all fields with the name. -/
def values (fields : Fields) (name : String) : List Json :=
  (fields.filter (·.1 = name)).map (·.2)

/-- The value of a field that must be there. -/
def required? (fields : Fields) (name : String) : Option Json :=
  match fields.values name with
  | [value] => some value
  | _ => none

/-- The value of a field that may be absent or null; nothing if it comes twice. -/
def nullable? (fields : Fields) (name : String) : Option (Option Json) :=
  match fields.values name with
  | [] | [.null] => some none
  | [value] => some (some value)
  | _ => none

end Fields

/-- The key that a value is. -/
def PathKey.ofJson? (value : Json) : Option PathKey :=
  value.text?.bind fun text => (ofString? text).toOption

namespace Track

/-- The kind and the other fields of a track. -/
def header? (numbered : Bool) : Json → Option (TrackKind × Fields)
  | .object fields => do
    let fields ← Fields.ofObject? fields
    let kind ← TrackKind.ofJson? numbered (← fields.required? "kind")
    return (kind, fields)
  | .array (first :: rest) => do
    let kind ← TrackKind.ofJson? numbered first
    if rest.length ≤ kind.fieldNames.length then
      return (kind, kind.fieldNames.zip rest)
    else none
  | _ => none

/-- The largest index of a choice. -/
def maxIndex : Nat := 18446744073709551615

/-- The track that a value is, if tracks are not nested deeper than `levels`. -/
def ofJson? (numbered : Bool) : (levels : Nat) → Json → Option Track
  | 0, _ => none
  | levels + 1, value => do
    let (kind, fields) ← header? numbered value
    let part? (name : String) : Option Track := do
      ofJson? true levels (← fields.required? name)
    let parts? (name : String) : Option (List Track) := do
      match ← fields.required? name with
      | .array items => items.mapM (ofJson? true levels)
      | _ => none
    match kind with
    | .sequence => return .sequence (← parts? "items")
    | .choice =>
      let index ← (← fields.required? "default_index").natural?
      let options ← parts? "options"
      if index ≤ maxIndex then return .choice index options else none
    | .optional => return .optional (← part? "item")
    | .zeroOrMore => return .zeroOrMore (← part? "item")
    | .oneOrMore =>
      let item ← part? "item"
      match ← fields.nullable? "repeat" with
      | none => return .oneOrMore item none
      | some back => return .oneOrMore item (some (← ofJson? true levels back))
    | .terminal =>
      return .terminal (← (← fields.required? "text").text?)
        (← PathKey.ofJson? (← fields.required? "path"))
    | .nonTerminal =>
      return .nonTerminal (← (← fields.required? "text").text?)
        (← PathKey.ofJson? (← fields.required? "path"))
    | .group =>
      return .group (← (← fields.required? "label").text?)
        (← PathKey.ofJson? (← fields.required? "path")) (← part? "item")
    | .skip => return .skip

/-- The track that a value inside `depth` others of a text is. Its kind is given by its tag. -/
def decodeAt? (depth : Nat) (value : Json) : Option Track :=
  if value.isStrict depth then ofJson? false (Json.maxTextNesting + 1) value else none

/-- The tracks of a text that is an array. -/
def decodeList? (text : String) : Option (List Track) := do
  match ← Json.parse? text with
  | .array items => items.mapM (decodeAt? 1)
  | _ => none

end Track

namespace Diagram

/-- The object of a diagram. -/
def toJson (diagram : Diagram) : Json :=
  .ofFields [("start_symbol", .ofString diagram.start), ("root", diagram.root.toJson)]

/-- The fields of a diagram. -/
def ofFields? (fields : Fields) : Option Diagram := do
  let start ← (← fields.required? "start_symbol").text?
  let root ← Track.decodeAt? 1 (← fields.required? "root")
  return ⟨start, root⟩

/-- The diagram that a value is. Unknown fields may hold anything. -/
def ofJson? : Json → Option Diagram
  | .object fields => (Fields.ofObject? fields).bind ofFields?
  | .array [start, root] => ofFields? [("start_symbol", start), ("root", root)]
  | _ => none

/-- The diagram of a text. -/
def decode? (text : String) : Option Diagram :=
  (Json.parse? text).bind ofJson?

end Diagram

/-- The key of a text that is a string. -/
def PathKey.decode? (text : String) : Option PathKey :=
  (Json.parse? text).bind ofJson?

end Railroad
