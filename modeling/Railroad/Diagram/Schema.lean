import Railroad.Diagram.Codec

/-!
The JSON schema of diagrams, for programs that draw them.

The schema is a JSON value itself. Properties are listed in the order of their names, required ones
in the order in which they are written.
-/

namespace Railroad.Diagram.Schema

/-- A schema for one type. -/
def type (name : String) : List (String × Json) :=
  [("type", .ofString name)]

/-- A schema that is defined under the given name. -/
def reference (name : String) : Json :=
  .ofFields [("$ref", .ofString ("#/$defs/" ++ name))]

def text : Json := .ofFields (type "string")

def node : Json := reference "DiagramNode"

def key : Json := reference "PathKey"

/-- A list of tracks. -/
def nodes : Json :=
  .ofFields (type "array" ++ [("items", node)])

def index : Json :=
  .ofFields
    (("description", .ofString "Index of the option drawn as the straight-through path.") ::
      type "integer" ++ [("format", .ofString "uint"), ("minimum", .ofNat 0)])

/-- The way back of a loop, which may be null. -/
def back : Json :=
  .ofFields
    [("description", .ofString "Drawn on the loop's return edge."),
      ("anyOf", .array [node, .ofFields (type "null")])]

/-- The schema of a field of a track. -/
def field : String → Json
  | "items" | "options" => nodes
  | "default_index" => index
  | "repeat" => back
  | "path" => key
  | "item" => node
  | _ => text

/-- An object with the given properties, in the order of their names. -/
def object (properties : List (String × Json)) (required : List String) : List (String × Json) :=
  type "object" ++
    [("properties", .ofFields (properties.mergeSort fun a b => decide (a.1 ≤ b.1))),
      ("required", .array (required.map .ofString))]

/-- The objects of the tracks of a kind. The way back of a loop is not required. -/
def ofKind (kind : TrackKind) : Json :=
  let tag := Json.ofFields (type "string" ++ [("const", .ofString kind.tag)])
  .ofFields (object (("kind", tag) :: kind.fieldNames.map fun name => (name, field name))
    ("kind" :: kind.fieldNames.filter (· ≠ "repeat")))

def nodeDescription : String :=
  "Railroad-diagram primitive handed to a renderer.\n\n" ++
  "`Terminal`, `NonTerminal` and `Group` carry the [`PathKey`] of the AST occurrence they were\n" ++
  "generated from, so a renderer can target that exact occurrence for expand/collapse."

/-- The pattern that written keys match. -/
def keyPattern : String := "^(0|[1-9][0-9]*)(-(0|[1-9][0-9]*))*$"

/-- The name of the schema language: where its own schema is. -/
def dialect : String :=
  "/".intercalate ["https:", "", "json-schema.org", "draft", "2020-12", "schema"]

/-- The schema of diagrams. -/
def value : Json :=
  .ofFields
    ([("$schema", .ofString dialect),
      ("title", .ofString "DiagramIr"),
      ("description", .ofString "A complete diagram for one start symbol.")] ++
      object [("start_symbol", text), ("root", node)] ["start_symbol", "root"] ++
      [("$defs", .ofFields
        [("DiagramNode", .ofFields
          [("description", .ofString nodeDescription),
            ("oneOf", .array (TrackKind.all.map ofKind))]),
          ("PathKey", .ofFields (type "string" ++ [("pattern", .ofString keyPattern)]))])])

end Railroad.Diagram.Schema
