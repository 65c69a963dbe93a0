import Railroad.Json

/-!
Reading JSON texts.

A text is cut into tokens (`Json.Token.listOf?`), and the tokens are put together by a machine that
takes one at a time (`Json.Reader.step`) and keeps the arrays and objects that are still open. Blanks
are only the four of the format. What is no JSON text is refused as a whole.
-/

namespace Railroad.Json

/-- The parts of a JSON text. Strings and numbers keep their spelling. -/
inductive Token where
  | arrayStart
  | arrayEnd
  | objectStart
  | objectEnd
  | comma
  | colon
  | null
  | bool (value : Bool)
  | number (spelling : List Char)
  | string (spelling : List Char)
deriving DecidableEq, Repr

/-- The characters that may stand between tokens. -/
def isBlank (c : Char) : Bool :=
  c = ' ' || c = '\t' || c = '\n' || c = '\r'

/-- Goes on with what follows an expected beginning. -/
def dropWord? : List Char → List Char → Option (List Char)
  | [], rest => some rest
  | w :: word, c :: rest => if w = c then dropWord? word rest else none
  | _ :: _, [] => none

/-- The spelling of a string up to its closing quotation mark, and what follows. Every backslash
must begin an escape, and control characters must be escaped. -/
def spelling? : List Char → Option (List Char × List Char)
  | [] => none
  | '"' :: rest => some ([], rest)
  | '\\' :: 'u' :: a :: b :: c :: d :: rest =>
    if (hexQuad? a b c d).isSome then
      (spelling? rest).map fun (more, rest) => ('\\' :: 'u' :: a :: b :: c :: d :: more, rest)
    else none
  | '\\' :: c :: rest =>
    if (shortEscape? c).isSome then
      (spelling? rest).map fun (more, rest) => ('\\' :: c :: more, rest)
    else none
  | c :: rest =>
    if c = '\\' ∨ c.toNat < 32 then none
    else (spelling? rest).map fun (more, rest) => (c :: more, rest)

/-- The digits at the start, of which there must be one, and what follows. -/
def digits? (cs : List Char) : Option (List Char × List Char) :=
  match cs.takeWhile Char.isDigit with
  | [] => none
  | digits => some (digits, cs.dropWhile Char.isDigit)

/-- The whole part of a number: a zero alone, or digits that do not start with zero. -/
def wholePart? : List Char → Option (List Char × List Char)
  | '0' :: rest => some (['0'], rest)
  | cs => digits? cs

/-- The fraction of a number, if there is one: a point and digits. -/
def fraction? : List Char → Option (List Char × List Char)
  | '.' :: rest => (digits? rest).map fun (digits, rest) => ('.' :: digits, rest)
  | cs => some ([], cs)

/-- The sign of an exponent, if there is one. -/
def sign : List Char → List Char × List Char
  | '+' :: rest => (['+'], rest)
  | '-' :: rest => (['-'], rest)
  | cs => ([], cs)

/-- The exponent of a number, if there is one: a letter, a sign or none, and digits. -/
def exponent? : List Char → Option (List Char × List Char)
  | [] => some ([], [])
  | c :: rest =>
    if c = 'e' ∨ c = 'E' then
      let (signs, rest) := sign rest
      (digits? rest).map fun (digits, rest) => (c :: signs ++ digits, rest)
    else some ([], c :: rest)

/-- A number without its minus sign, and what follows. -/
def unsignedNumber? (cs : List Char) : Option (List Char × List Char) := do
  let (whole, rest) ← wholePart? cs
  let (fraction, rest) ← fraction? rest
  let (exponent, rest) ← exponent? rest
  return (whole ++ fraction ++ exponent, rest)

namespace Token

/-- The token at the start, and what follows. -/
def next? : List Char → Option (Token × List Char)
  | [] => none
  | '[' :: rest => some (.arrayStart, rest)
  | ']' :: rest => some (.arrayEnd, rest)
  | '\x7b' :: rest => some (.objectStart, rest)
  | '\x7d' :: rest => some (.objectEnd, rest)
  | ',' :: rest => some (.comma, rest)
  | ':' :: rest => some (.colon, rest)
  | 'n' :: rest => (dropWord? "ull".toList rest).map (.null, ·)
  | 't' :: rest => (dropWord? "rue".toList rest).map (.bool true, ·)
  | 'f' :: rest => (dropWord? "alse".toList rest).map (.bool false, ·)
  | '"' :: rest => (spelling? rest).map fun (spelling, rest) => (.string spelling, rest)
  | '-' :: rest =>
    (unsignedNumber? rest).map fun (spelling, rest) => (.number ('-' :: spelling), rest)
  | cs => (unsignedNumber? cs).map fun (spelling, rest) => (.number spelling, rest)

/-- The tokens of a text of at most `fuel` characters. -/
def listWithin? : Nat → List Char → Option (List Token)
  | 0, cs => if cs.all isBlank then some [] else none
  | fuel + 1, cs =>
    match cs.dropWhile isBlank with
    | [] => some []
    | c :: rest => do
      let (token, rest) ← next? (c :: rest)
      let tokens ← listWithin? fuel rest
      return token :: tokens

/-- The tokens of a text. A token takes at least one character. -/
def listOf? (cs : List Char) : Option (List Token) :=
  listWithin? cs.length cs

end Token

/-- An array or object that is still open; what it holds so far, the latest first. -/
inductive Container where
  | array (items : List Json)
  | object (fields : List (List Char × Json)) (key : List Char)

/-- What comes next; the innermost open container comes first. -/
inductive Reader where
  /-- A value. -/
  | value (outer : List Container)
  /-- The first item of an array, or its end. -/
  | itemOrEnd (outer : List Container)
  /-- A comma or the end of an array. -/
  | afterItem (items : List Json) (outer : List Container)
  /-- The first name of an object, or its end. -/
  | nameOrEnd (outer : List Container)
  /-- A name. -/
  | name (fields : List (List Char × Json)) (outer : List Container)
  /-- The colon behind a name. -/
  | afterName (fields : List (List Char × Json)) (key : List Char) (outer : List Container)
  /-- A comma or the end of an object. -/
  | afterField (fields : List (List Char × Json)) (outer : List Container)
  /-- Nothing. -/
  | finished (value : Json)

namespace Reader

/-- Puts a complete value into the innermost container. -/
def complete (v : Json) : List Container → Reader
  | [] => .finished v
  | .array items :: outer => .afterItem (v :: items) outer
  | .object fields key :: outer => .afterField ((key, v) :: fields) outer

/-- Takes a token where a value must begin. -/
def stepValue (outer : List Container) : Token → Option Reader
  | .arrayStart => some (.itemOrEnd outer)
  | .objectStart => some (.nameOrEnd outer)
  | .null => some (complete .null outer)
  | .bool b => some (complete (.bool b) outer)
  | .number spelling => some (complete (.number spelling) outer)
  | .string spelling => some (complete (.string spelling) outer)
  | _ => none

/-- Takes a token. -/
def step : Reader → Token → Option Reader
  | .value outer, token => stepValue outer token
  | .itemOrEnd outer, .arrayEnd => some (complete (.array []) outer)
  | .itemOrEnd outer, token => stepValue (.array [] :: outer) token
  | .afterItem items outer, .comma => some (.value (.array items :: outer))
  | .afterItem items outer, .arrayEnd => some (complete (.array items.reverse) outer)
  | .nameOrEnd outer, .objectEnd => some (complete (.object []) outer)
  | .nameOrEnd outer, .string spelling => some (.afterName [] spelling outer)
  | .name fields outer, .string spelling => some (.afterName fields spelling outer)
  | .afterName fields key outer, .colon => some (.value (.object fields key :: outer))
  | .afterField fields outer, .comma => some (.name fields outer)
  | .afterField fields outer, .objectEnd => some (complete (.object fields.reverse) outer)
  | _, _ => none

/-- Takes all tokens. -/
def run : Reader → List Token → Option Json
  | .finished v, [] => some v
  | _, [] => none
  | reader, token :: rest => (reader.step token).bind (run · rest)

end Reader

/-- The value that a text is. -/
def parse? (text : String) : Option Json :=
  (Token.listOf? text.toList).bind ((Reader.value []).run ·)

end Railroad.Json
