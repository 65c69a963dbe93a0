import Railroad.Grammar
import Railroad.Text.Similarity

/-!
Finding productions by name.

The first production of a name is the one meant; later ones of the same name are never found. A
name that no production has is answered with the declared name most like it, if one is similar
enough.
-/

namespace Railroad

/-- No production has the name. -/
structure ProductionNotFound where
  name : String
  suggestion : Option String
deriving DecidableEq, Repr

def ProductionNotFound.message (e : ProductionNotFound) : String :=
  "production '" ++ e.name ++ "' not found" ++
    match e.suggestion with
    | none => ""
    | some name => " (did you mean '" ++ name ++ "'?)"

namespace Grammar

/-- The declared names in order, repeated ones included. -/
def names (g : Grammar) : List String :=
  g.productions.map (·.name.text)

/-- The first production of the name. -/
def find? (g : Grammar) (name : String) : Option Production :=
  g.productions.find? (·.name.text = name)

/-- How similar a name must be to be suggested. -/
def minSimilarity : Rat := 3 / 5

/-- The better of the best candidate so far and another one. The earlier one wins a tie. -/
def better (name : String) (best : Option (Rat × String)) (candidate : String) :
    Option (Rat × String) :=
  let score := Text.similarity name candidate
  if score < minSimilarity then best
  else
    match best with
    | none => some (score, candidate)
    | some (bestScore, _) => if bestScore < score then some (score, candidate) else best

/-- The first of the most similar candidates, if similar enough. -/
def closest? (name : String) (candidates : List String) : Option String :=
  (candidates.foldl (better name) none).map (·.2)

/-- The first production of the name, or a suggestion. -/
def lookup (g : Grammar) (name : String) : Except ProductionNotFound Production :=
  match g.find? name with
  | some production => .ok production
  | none => .error ⟨name, closest? name g.names⟩

end Grammar

end Railroad
