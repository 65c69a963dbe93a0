/-!
JSON texts as values that keep their spelling.

A number and a string are kept as they are written, an object keeps the order of its fields and
fields of the same name. So a value says everything about a text but its blanks, and questions such
as "which number is this" are asked of the spelling: `Json.ofString` and `Json.text?` go between
strings and their spelling, `Json.natural?` reads a number. `Json.compact` and `Json.pretty` write a
value without blanks and with a line for each part.
-/

namespace Railroad

/-- A JSON value. The spelling of a string is what stands between its quotation marks. -/
inductive Json where
  | null
  | bool (value : Bool)
  | number (spelling : List Char)
  | string (spelling : List Char)
  | array (items : List Json)
  | object (fields : List (List Char × Json))
deriving Inhabited

namespace Json

/-- One hexadecimal digit. -/
def hexDigit (n : Nat) : Char :=
  Nat.digitChar n

/-- A character of a string as it is written. -/
def escapeChar (c : Char) : List Char :=
  if c = '"' then ['\\', '"']
  else if c = '\\' then ['\\', '\\']
  else if c = '\x08' then ['\\', 'b']
  else if c = '\t' then ['\\', 't']
  else if c = '\n' then ['\\', 'n']
  else if c = '\x0c' then ['\\', 'f']
  else if c = '\r' then ['\\', 'r']
  else if c.toNat < 32 then
    ['\\', 'u', '0', '0', hexDigit (c.toNat / 16), hexDigit (c.toNat % 16)]
  else [c]

/-- The spelling of a string. -/
def escape (s : String) : List Char :=
  s.toList.flatMap escapeChar

/-- The value of a hexadecimal digit of either case. -/
def hexValue? (c : Char) : Option Nat :=
  if c.isDigit then some (c.toNat - 48)
  else if 97 ≤ c.toNat ∧ c.toNat ≤ 102 then some (c.toNat - 87)
  else if 65 ≤ c.toNat ∧ c.toNat ≤ 70 then some (c.toNat - 55)
  else none

theorem hexValue?_digitChar {n : Nat} (h : n < 16) : hexValue? (Nat.digitChar n) = some n := by
  have table : ∀ k < 16, hexValue? (Nat.digitChar k) = some k := by decide
  exact table n h

/-- The value of four hexadecimal digits. -/
def hexQuad? (a b c d : Char) : Option Nat := do
  let a ← hexValue? a
  let b ← hexValue? b
  let c ← hexValue? c
  let d ← hexValue? d
  return ((a * 16 + b) * 16 + c) * 16 + d

/-- The characters that are escaped by a backslash and one letter or sign. -/
def shortEscape? : Char → Option Char
  | '"' => some '"'
  | '\\' => some '\\'
  | '/' => some '/'
  | 'b' => some '\x08'
  | 'f' => some '\x0c'
  | 'n' => some '\n'
  | 'r' => some '\r'
  | 't' => some '\t'
  | _ => none

/-- The character of two halves of a pair, if they are a first and a second one. -/
def joinHalves? (first second : Nat) : Option Char :=
  if 0xD800 ≤ first ∧ first < 0xDC00 ∧ 0xDC00 ≤ second ∧ second < 0xE000 then
    some (Char.ofNat (0x10000 + (first - 0xD800) * 0x400 + (second - 0xDC00)))
  else none

/-- Whether a number is that of a half of a pair. -/
def isHalf (n : Nat) : Bool :=
  decide (0xD800 ≤ n) && decide (n < 0xE000)

/-- The characters that a spelling stands for. A half of a pair without its other half stands for
none. -/
def unescape? : List Char → Option (List Char)
  | [] => some []
  | '\\' :: 'u' :: a :: b :: c :: d :: rest =>
    match hexQuad? a b c d with
    | none => none
    | some n =>
      if isHalf n then
        match rest with
        | '\\' :: 'u' :: a' :: b' :: c' :: d' :: rest' =>
          match (hexQuad? a' b' c' d').bind (joinHalves? n) with
          | none => none
          | some whole => (unescape? rest').map (whole :: ·)
        | _ => none
      else (unescape? rest).map (Char.ofNat n :: ·)
  | '\\' :: c :: rest =>
    match shortEscape? c with
    | none => none
    | some plain => (unescape? rest).map (plain :: ·)
  | '\\' :: [] => none
  | c :: rest => (unescape? rest).map (c :: ·)

/-- A string as a value. -/
def ofString (s : String) : Json :=
  .string (escape s)

/-- A natural number as a value. -/
def ofNat (n : Nat) : Json :=
  .number (Nat.toDigits 10 n)

/-- An object with the given names of its fields. -/
def ofFields (fields : List (String × Json)) : Json :=
  .object (fields.map fun (name, value) => (escape name, value))

/-- The string that a value is. -/
def text? : Json → Option String
  | .string spelling => (unescape? spelling).map String.ofList
  | _ => none

/-- The number that a value is, if it is written as digits only. -/
def natural? : Json → Option Nat
  | .number spelling =>
    if spelling.all Char.isDigit then some (Nat.ofDigitChars 10 spelling 0) else none
  | _ => none

/-- A spelling between quotation marks. -/
def quoted (spelling : List Char) : String :=
  String.ofList ('"' :: spelling ++ ['"'])

mutual

/-- The value without blanks. -/
def compact : Json → String
  | .null => "null"
  | .bool true => "true"
  | .bool false => "false"
  | .number spelling => String.ofList spelling
  | .string spelling => quoted spelling
  | .array items => "[" ++ ",".intercalate (compactItems items) ++ "]"
  | .object fields => "\x7b" ++ ",".intercalate (compactFields fields) ++ "\x7d"

def compactItems : List Json → List String
  | [] => []
  | item :: rest => item.compact :: compactItems rest

def compactFields : List (List Char × Json) → List String
  | [] => []
  | (name, value) :: rest => (quoted name ++ ":" ++ value.compact) :: compactFields rest

end

/-- A new line, indented by two spaces a level. -/
def newLine (depth : Nat) : String :=
  String.ofList ('\n' :: List.replicate (2 * depth) ' ')

/-- The parts of an array or object, each on a line of its own, between brackets. -/
def block (depth : Nat) (opener closer : String) (parts : List String) : String :=
  if parts.isEmpty then opener ++ closer
  else
    opener ++ ",".intercalate (parts.map (newLine (depth + 1) ++ ·)) ++ newLine depth ++ closer

mutual

/-- The value with each part on a line of its own, inside `depth` others. -/
def prettyAt (depth : Nat) : Json → String
  | .array items => block depth "[" "]" (prettyItems (depth + 1) items)
  | .object fields => block depth "\x7b" "\x7d" (prettyFields (depth + 1) fields)
  | value => value.compact

def prettyItems (depth : Nat) : List Json → List String
  | [] => []
  | item :: rest => item.prettyAt depth :: prettyItems depth rest

def prettyFields (depth : Nat) : List (List Char × Json) → List String
  | [] => []
  | (name, value) :: rest =>
    (quoted name ++ ": " ++ value.prettyAt depth) :: prettyFields depth rest

end

/-- The value with each part on a line of its own. -/
def pretty (value : Json) : String :=
  value.prettyAt 0

mutual

/-- How deep arrays and objects are nested. -/
def nesting : Json → Nat
  | .array items => nestingItems items + 1
  | .object fields => nestingFields fields + 1
  | _ => 0

def nestingItems : List Json → Nat
  | [] => 0
  | item :: rest => max item.nesting (nestingItems rest)

def nestingFields : List (List Char × Json) → Nat
  | [] => 0
  | (_, value) :: rest => max value.nesting (nestingFields rest)

end

end Json

end Railroad
