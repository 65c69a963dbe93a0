import Railroad.Grammar

/-!
The nodes of a grammar of whatever kind, and the order in which a reader meets them.

`Grammar.walk` lists all nodes with their depth, parents before their children and children from
left to right; `Grammar.factors` are the factors among them.
-/

namespace Railroad

/-- A node of a grammar. -/
inductive Node where
  | grammar (g : Grammar)
  | production (p : Production)
  | expression (e : Expression)
  | term (t : Term)
  | factor (f : Factor)
  | identifier (name : Identifier)
  | literal (l : Literal)

namespace Node

def id : Node → NodeId
  | .grammar g => g.id
  | .production p => p.id
  | .expression e => e.id
  | .term t => t.id
  | .factor f => f.id
  | .identifier name => name.id
  | .literal l => l.id

/-- The canonical text. -/
def text : Node → String
  | .grammar g => g.text
  | .production p => p.text
  | .expression e => e.text
  | .term t => t.text
  | .factor f => f.text
  | .identifier name => name.text
  | .literal l => l.quotedText

/-- A literal is terminal, and so is every other node whose text does not start with a capital. -/
def isTerminal : Node → Bool
  | .factor f => f.isTerminal
  | .literal _ => true
  | node => !startsUppercase node.text

/-- Equal canonical texts. -/
def sameSymbol (a b : Node) : Bool :=
  a.text = b.text

end Node

/-- What a factor stands for. -/
def Factor.value : Factor → Node
  | .identifier _ name => .identifier name
  | .literal _ l => .literal l
  | .bracketed _ _ body => .expression body

/-- The nodes right below a node, from left to right. -/
def Node.children : Node → List Node
  | .grammar g => g.productions.map .production
  | .production p => [.identifier p.name, .expression p.body]
  | .expression e => e.terms.map .term
  | .term t => t.factors.map .factor
  | .factor f => [f.value]
  | .identifier _ => []
  | .literal _ => []

mutual

def Expression.walk (depth : Nat) : Expression → List (Nat × Node)
  | ⟨id, terms⟩ => (depth, .expression ⟨id, terms⟩) :: Term.walkAll (depth + 1) terms

def Term.walk (depth : Nat) : Term → List (Nat × Node)
  | ⟨id, factors⟩ => (depth, .term ⟨id, factors⟩) :: Factor.walkAll (depth + 1) factors

def Factor.walk (depth : Nat) : Factor → List (Nat × Node)
  | .identifier id name =>
    [(depth, .factor (.identifier id name)), (depth + 1, .identifier name)]
  | .literal id l => [(depth, .factor (.literal id l)), (depth + 1, .literal l)]
  | .bracketed id bracket body =>
    (depth, .factor (.bracketed id bracket body)) :: body.walk (depth + 1)

def Term.walkAll (depth : Nat) : List Term → List (Nat × Node)
  | [] => []
  | term :: rest => term.walk depth ++ Term.walkAll depth rest

def Factor.walkAll (depth : Nat) : List Factor → List (Nat × Node)
  | [] => []
  | factor :: rest => factor.walk depth ++ Factor.walkAll depth rest

end

def Production.walk (depth : Nat) (p : Production) : List (Nat × Node) :=
  (depth, .production p) :: (depth + 1, .identifier p.name) :: p.body.walk (depth + 1)

/-- All nodes with their depth below the grammar, in pre-order. -/
def Grammar.walk (g : Grammar) : List (Nat × Node) :=
  (0, .grammar g) :: g.productions.flatMap (Production.walk 1)

/-- All factors in pre-order. -/
def Grammar.factors (g : Grammar) : List Factor :=
  g.walk.filterMap fun
    | (_, .factor f) => some f
    | _ => none

end Railroad
