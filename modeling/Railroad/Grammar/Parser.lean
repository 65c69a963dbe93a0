import Railroad.Grammar
import Railroad.Token.Scanner
import Railroad.Traced

/-!
Reading grammars from tokens.

The notation is

    Grammar    = { Production } .
    Production = identifier "=" Expression "." .
    Expression = Term { "|" Term } .
    Term       = Factor { Factor } .
    Factor     = identifier | '"' literal '"' | "(" Expression ")" | "{" Expression "}"
               | "[" Expression "]" .

with at most `maxNesting` brackets open at a time. A token decides by itself what it means where it
stands, so the parser is a machine that takes one token at a time: `Parser.step` is defined for
every token that some grammar continues with, and otherwise says what was expected. What is not yet
complete waits in the `Phase`: an expression whose last term is still growing, and the stack of
those around it.

Ids are given out in the order in which nodes begin, so a node's id is smaller than those of the
nodes inside it and of the nodes behind it.
-/

namespace Railroad

/-- How many brackets may be open at a time in a production. -/
def maxNesting : Nat := 256

/-- What a grammar could have gone on with. -/
inductive Expected where
  | identifier
  | equals
  | factor
  | literal
  | quote
  | period
  | closing (bracket : Bracket)
  /-- Anything but one more opening bracket. -/
  | shallowerNesting
deriving DecidableEq, Repr

def Expected.describe : Expected → String
  | .identifier => "identifier"
  | .equals => "'='"
  | .factor => "identifier, literal, '(', '\x7b' or '['"
  | .literal => "literal"
  | .quote => Token.Kind.quote.describe
  | .period => "'.'"
  | .closing bracket => (Token.Kind.closing bracket).describe
  | .shallowerNesting => s!"at most {maxNesting} nested brackets"

/-- Why a text is no grammar. -/
inductive ParseError where
  /-- A token could not be read. -/
  | scan (error : ScanError)
  /-- A token was read that no grammar continues with. -/
  | unexpected (expected : Expected) (found : Token)
deriving DecidableEq, Repr

namespace ParseError

def position : ParseError → Position
  | .scan error => error.position
  | .unexpected _ found => found.position

/-- The cause by itself. -/
def cause : ParseError → String
  | .scan error => error.message
  | .unexpected expected found =>
    "expected " ++ expected.describe ++ " but found " ++ found.describe ++ s!" at {found.position}"

/-- The cause and the kind of reading that failed. -/
def message : ParseError → String
  | .scan error => "scan error: " ++ error.message
  | .unexpected expected found => "syntax error: " ++ (unexpected expected found).cause

end ParseError

/-- An expression that is being read: the terms before the last one and the factors of the last
one, both with the latest in front. -/
structure Draft where
  id : NodeId
  terms : List Term
  termId : NodeId
  factors : List Factor

namespace Draft

/-- An expression that has just begun, with its first term. -/
def start (id termId : NodeId) : Draft :=
  ⟨id, [], termId, []⟩

def addFactor (d : Draft) (factor : Factor) : Draft :=
  { d with factors := factor :: d.factors }

/-- The last term as it stands. -/
def lastTerm (d : Draft) : Term :=
  ⟨d.termId, d.factors.reverse⟩

/-- Ends the last term and begins another. -/
def addTerm (d : Draft) (termId : NodeId) : Draft :=
  { d with terms := d.lastTerm :: d.terms, termId, factors := [] }

/-- The expression as it stands. -/
def expression (d : Draft) : Expression :=
  ⟨d.id, (d.lastTerm :: d.terms).reverse⟩

end Draft

/-- A bracket that is not yet closed: the id of its factor and the expression around it. -/
structure OpenBracket where
  id : NodeId
  bracket : Bracket
  around : Draft

/-- A production that is being read behind its equals sign. The innermost open bracket comes
first. -/
structure Body where
  id : NodeId
  name : Identifier
  brackets : List OpenBracket
  draft : Draft

namespace Body

/-- The body goes on behind one more factor. -/
def addFactor (b : Body) (factor : Factor) : Body :=
  { b with draft := b.draft.addFactor factor }

/-- What a body could go on with, besides a factor if it does not need one. -/
def expected (b : Body) : Expected :=
  if b.draft.factors.isEmpty then .factor
  else
    match b.brackets with
    | [] => .period
    | inner :: _ => .closing inner.bracket

end Body

/-- What the parser is in the middle of. -/
inductive Phase where
  | betweenProductions
  | afterName (id : NodeId) (name : Identifier)
  | inBody (body : Body)
  | afterOpeningQuote (body : Body) (id literalId : NodeId)
  | afterLiteral (body : Body) (id : NodeId) (literal : Literal)

def Phase.expected : Phase → Expected
  | .betweenProductions => .identifier
  | .afterName _ _ => .equals
  | .inBody body => body.expected
  | .afterOpeningQuote _ _ _ => .literal
  | .afterLiteral _ _ _ => .quote

/-- A parser between two tokens. The latest production comes first; `issued` ids are given out. -/
structure Parser where
  id : NodeId
  productions : List Production
  issued : Nat
  phase : Phase

namespace Parser

/-- A parser before the first token. Its first id follows those that are already given out. -/
def start (issued : Nat) : Parser :=
  ⟨issued + 1, [], issued + 1, .betweenProductions⟩

/-- Goes on in `phase`, with `count` more ids given out. -/
def goOn (p : Parser) (count : Nat) (phase : Phase) : Parser :=
  { p with issued := p.issued + count, phase }

/-- Takes a token where a production is being read behind its equals sign. -/
def stepInBody (p : Parser) (b : Body) : Token.Kind → Except Expected Parser
  | .identifier name =>
    .ok (p.goOn 2 (.inBody (b.addFactor (.identifier (p.issued + 1) ⟨p.issued + 2, name⟩))))
  | .quote => .ok (p.goOn 2 (.afterOpeningQuote b (p.issued + 1) (p.issued + 2)))
  | .opening bracket =>
    if b.brackets.length = maxNesting then .error .shallowerNesting
    else
      .ok (p.goOn 3 (.inBody
        { b with
          brackets := ⟨p.issued + 1, bracket, b.draft⟩ :: b.brackets
          draft := Draft.start (p.issued + 2) (p.issued + 3) }))
  | kind =>
    if b.draft.factors.isEmpty then .error b.expected
    else
      match kind, b.brackets with
      | .bar, _ => .ok (p.goOn 1 (.inBody { b with draft := b.draft.addTerm (p.issued + 1) }))
      | .period, [] =>
        .ok { p with
          productions := ⟨b.id, b.name, b.draft.expression⟩ :: p.productions
          phase := .betweenProductions }
      | .closing bracket, inner :: outer =>
        if inner.bracket = bracket then
          .ok (p.goOn 0 (.inBody
            { b with
              brackets := outer
              draft := inner.around.addFactor
                (.bracketed inner.id bracket b.draft.expression) }))
        else .error b.expected
      | _, _ => .error b.expected

/-- Takes a token, or says what was expected in its place. -/
def step (p : Parser) (kind : Token.Kind) : Except Expected Parser :=
  match p.phase, kind with
  | .betweenProductions, .identifier name =>
    .ok (p.goOn 2 (.afterName (p.issued + 1) ⟨p.issued + 2, name⟩))
  | .afterName id name, .equals =>
    .ok (p.goOn 2 (.inBody ⟨id, name, [], Draft.start (p.issued + 1) (p.issued + 2)⟩))
  | .inBody body, kind => p.stepInBody body kind
  | .afterOpeningQuote body id literalId, .literal text =>
    .ok (p.goOn 0 (.afterLiteral body id ⟨literalId, text⟩))
  | .afterLiteral body id literal, .quote =>
    .ok (p.goOn 0 (.inBody (body.addFactor (.literal id literal))))
  | phase, _ => .error phase.expected

/-- The grammar, if none of its productions is incomplete. -/
def finish (p : Parser) : Except Expected Grammar :=
  match p.phase with
  | .betweenProductions => .ok ⟨p.id, p.productions.reverse⟩
  | phase => .error phase.expected

end Parser

/-- A grammar that was read, and how many ids are given out behind it. -/
structure Parsed where
  grammar : Grammar
  issued : Nat

namespace Parser

/-- Reads on to the end of the tokens. Each token that is looked at is recorded; the ending counts
only if no token before it is in the wrong place. -/
def run (p : Parser) : List Token → Scanner.Ending → Traced Token ParseError Parsed
  | [], .error e => .ofExcept (.error (.scan e))
  | [], .ok last =>
    match p.finish with
    | .ok grammar => pure ⟨grammar, p.issued⟩
    | .error expected => .ofExcept (.error (.unexpected expected last))
  | token :: rest, ending => do
    Traced.emit token
    match p.step token.kind with
    | .ok p => p.run rest ending
    | .error expected => .ofExcept (.error (.unexpected expected token))

end Parser

namespace Grammar

/-- Reads a grammar whose ids follow those already given out. -/
def parse (text : String) (issued : Nat) : Traced Token ParseError Parsed :=
  let (tokens, ending) := (Scanner.ofString text).tokens
  (Parser.start issued).run tokens ending

/-- Reads a grammar whose ids start at 1. -/
def ofString? (text : String) : Except ParseError Grammar :=
  (parse text 0).result.map Parsed.grammar

end Grammar

end Railroad
