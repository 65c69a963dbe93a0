import Railroad.Log
import Railroad.Text.Quoted

/-!
The tokens of grammar text: names, the parts of a literal, brackets and punctuation, each with the
place where it starts.

A literal is three tokens, its opening quote, its text and its closing quote. `Token.Kind.describe`
names a kind as messages expect it, `Token.describe` names a token as messages find it.
-/

namespace Railroad

/-- A place in a text. Lines and columns are counted from 1, columns in characters. -/
structure Position where
  line : Nat := 1
  column : Nat := 1
deriving DecidableEq, Repr, Inhabited

namespace Position

/-- The place behind a character. Only a line feed starts a line. -/
def after (p : Position) (c : Char) : Position :=
  if c = '\n' then ⟨p.line + 1, 1⟩ else ⟨p.line, p.column + 1⟩

/-- The place behind a run of characters. -/
def afterAll (p : Position) (cs : List Char) : Position :=
  cs.foldl after p

def text (p : Position) : String :=
  s!"{p.line}:{p.column}"

instance : ToString Position := ⟨text⟩

end Position

/-- The three ways to enclose an expression: `(` for grouping, `{` for repeating it any number of
times and `[` for leaving it out or not. -/
inductive Bracket where
  | group
  | repetition
  | option
deriving DecidableEq, Repr

namespace Bracket

def opener : Bracket → String
  | .group => "("
  | .repetition => "\x7b"
  | .option => "["

def closer : Bracket → String
  | .group => ")"
  | .repetition => "\x7d"
  | .option => "]"

end Bracket

/-- What a token is. `endOfInput` stands behind the last one. -/
inductive Token.Kind where
  | identifier (name : String)
  | literal (text : String)
  | quote
  | opening (bracket : Bracket)
  | closing (bracket : Bracket)
  | period
  | bar
  | equals
  | endOfInput
deriving DecidableEq, Repr

structure Token where
  kind : Token.Kind
  position : Position
deriving DecidableEq, Repr

namespace Token

/-- The kind alone, without the text that it carries. -/
def Kind.describe : Kind → String
  | .identifier _ => "identifier"
  | .literal _ => "literal"
  | .quote => "'\"'"
  | .opening bracket => "'" ++ bracket.opener ++ "'"
  | .closing bracket => "'" ++ bracket.closer ++ "'"
  | .period => "'.'"
  | .bar => "'|'"
  | .equals => "'='"
  | .endOfInput => "end of input"

/-- The text that the token carries; none for punctuation. -/
def Kind.text : Kind → String
  | .identifier name => name
  | .literal text => text
  | _ => ""

/-- The token with its text. -/
def describe (token : Token) : String :=
  match token.kind with
  | .identifier name => "identifier '" ++ name ++ "'"
  | .literal text => "literal '" ++ text ++ "'"
  | kind => kind.describe

/-- The record of having read the token. -/
def logRecord (token : Token) : LogRecord :=
  let what := match token.kind with
    | .identifier name => "identifier " ++ Text.quoted name
    | .literal text => "literal " ++ Text.quoted text
    | kind => kind.describe
  ⟨.trace, "scanned " ++ what ++ s!" at {token.position}"⟩

end Token

end Railroad
