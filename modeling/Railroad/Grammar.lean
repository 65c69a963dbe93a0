import Railroad.PathKey
import Railroad.Token
import Railroad.Text.Uppercase

/-!
Grammars in Wirth's notation, as trees whose nodes carry ids.

A grammar is a list of productions. A production gives its name an expression; an expression is a
choice of terms, a term a sequence of factors, and a factor a name, a literal or an expression in
brackets. Ids tell the occurrences of equal parts apart and mean nothing else: `text` writes each
part in its canonical form, which does not show them, and two parts of one kind are the same symbol
when their texts are equal. A part is terminal unless its text starts with a capital.
-/

namespace Railroad

/-- A name where it stands. -/
structure Identifier where
  id : NodeId
  text : String
deriving DecidableEq, Repr

/-- A literal where it stands: its characters without the quotation marks. -/
structure Literal where
  id : NodeId
  text : String
deriving DecidableEq, Repr

mutual

/-- A choice of terms. -/
structure Expression where
  id : NodeId
  terms : List Term

/-- A sequence of factors. -/
structure Term where
  id : NodeId
  factors : List Factor

inductive Factor where
  | identifier (id : NodeId) (name : Identifier)
  | literal (id : NodeId) (l : Literal)
  | bracketed (id : NodeId) (bracket : Bracket) (body : Expression)

end

/-- What a name stands for. -/
structure Production where
  id : NodeId
  name : Identifier
  body : Expression

/-- Productions in the order of their declaration. -/
structure Grammar where
  id : NodeId
  productions : List Production

/-- A word that starts with a capital. -/
def startsUppercase (word : String) : Bool :=
  match word.toList with
  | [] => false
  | c :: _ => Text.isUppercase c

/-- A name that starts with a capital refers to a production. -/
def Identifier.isReference (name : Identifier) : Bool :=
  startsUppercase name.text

/-- A literal between straight quotation marks. -/
def Literal.quotedText (l : Literal) : String :=
  "\"" ++ l.text ++ "\""

mutual

def Expression.text : Expression → String
  | ⟨_, terms⟩ => " | ".intercalate (Term.texts terms)

def Term.text : Term → String
  | ⟨_, factors⟩ => " ".intercalate (Factor.texts factors)

def Factor.text : Factor → String
  | .identifier _ name => name.text
  | .literal _ l => l.quotedText
  | .bracketed _ bracket body => bracket.opener ++ body.text ++ bracket.closer

def Term.texts : List Term → List String
  | [] => []
  | term :: rest => term.text :: Term.texts rest

def Factor.texts : List Factor → List String
  | [] => []
  | factor :: rest => factor.text :: Factor.texts rest

end

theorem Term.texts_eq_map (terms : List Term) : Term.texts terms = terms.map Term.text := by
  induction terms with
  | nil => rfl
  | cons term rest ih => simp [Term.texts, ih]

theorem Factor.texts_eq_map (factors : List Factor) :
    Factor.texts factors = factors.map Factor.text := by
  induction factors with
  | nil => rfl
  | cons factor rest ih => simp [Factor.texts, ih]

def Production.text (production : Production) : String :=
  production.name.text ++ " = " ++ production.body.text ++ " ."

/-- The canonical text: one production a line. -/
def Grammar.text (g : Grammar) : String :=
  "\n".intercalate (g.productions.map Production.text)

instance : ToString Grammar := ⟨Grammar.text⟩

/-- The only term of an expression without a choice. -/
def Expression.singleTerm? (e : Expression) : Option Term :=
  match e.terms with
  | [term] => some term
  | _ => none

namespace Factor

def id : Factor → NodeId
  | .identifier id _ | .literal id _ | .bracketed id _ _ => id

def isRepetition : Factor → Bool
  | .bracketed _ .repetition _ => true
  | _ => false

/-- The expression between the brackets. -/
def body? : Factor → Option Expression
  | .bracketed _ _ body => some body
  | _ => none

/-- A factor is terminal unless it is a name that starts with a capital: only such a text starts
with one, since a literal starts with a quotation mark and brackets with an opening one. -/
def isTerminal : Factor → Bool
  | .literal _ _ => true
  | factor => !startsUppercase factor.text

/-- Equal canonical texts. -/
def sameSymbol (a b : Factor) : Bool :=
  a.text = b.text

end Factor

/-- Equal canonical texts. -/
def Production.sameSymbol (a b : Production) : Bool :=
  a.text = b.text

/-- As many productions, and each the same symbol as its counterpart. -/
def Grammar.sameStructure (g h : Grammar) : Bool :=
  g.productions.length = h.productions.length &&
    (g.productions.zip h.productions).all fun (p, q) => p.sameSymbol q

end Railroad
