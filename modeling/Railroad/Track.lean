import Railroad.PathKey

/-!
Railroad tracks: what a renderer draws.

A track is a tree. Stations (`terminal`, `nonTerminal`) and frames (`group`) carry the key of the
occurrence in the grammar that they show, so that a renderer can ask for that occurrence to be
opened or closed. `Track.nodes` lists a track and all tracks inside it, a track before its parts.
Equality of tracks is decidable.
-/

namespace Railroad

inductive Track where
  /-- One after the other. -/
  | sequence (items : List Track)
  /-- One of several; the option with the index is drawn straight. -/
  | choice (defaultIndex : Nat) (options : List Track)
  | optional (item : Track)
  | zeroOrMore (item : Track)
  /-- A loop: between two rounds the way goes back over the second track, if there is one. -/
  | oneOrMore (item : Track) (back : Option Track)
  | terminal (text : String) (path : PathKey)
  /-- A name whose production is not drawn. -/
  | nonTerminal (text : String) (path : PathKey)
  /-- A name whose production is drawn in its place. -/
  | group (label : String) (path : PathKey) (item : Track)
  /-- An empty stretch. -/
  | skip
deriving Inhabited

namespace Track

/-- A sequence, unless there is one item only. -/
def joined : List Track → Track
  | [item] => item
  | items => .sequence items

def kindName : Track → String
  | .sequence _ => "Sequence"
  | .choice _ _ => "Choice"
  | .optional _ => "Optional"
  | .zeroOrMore _ => "ZeroOrMore"
  | .oneOrMore _ _ => "OneOrMore"
  | .terminal _ _ => "Terminal"
  | .nonTerminal _ _ => "NonTerminal"
  | .group _ _ _ => "Group"
  | .skip => "Skip"

/-- The key of the occurrence that the track itself shows. -/
def path? : Track → Option PathKey
  | .terminal _ path | .nonTerminal _ path | .group _ path _ => some path
  | _ => none

/-- The tracks right inside a track, a loop's way back last. -/
def children : Track → List Track
  | .sequence items => items
  | .choice _ options => options
  | .optional item | .zeroOrMore item | .group _ _ item => [item]
  | .oneOrMore item back => item :: back.toList
  | .terminal _ _ | .nonTerminal _ _ | .skip => []

mutual

/-- The track and all tracks inside it, in pre-order. -/
def nodes : Track → List Track
  | .sequence items => .sequence items :: nodesAll items
  | .choice index options => .choice index options :: nodesAll options
  | .optional item => .optional item :: item.nodes
  | .zeroOrMore item => .zeroOrMore item :: item.nodes
  | .oneOrMore item none => .oneOrMore item none :: item.nodes
  | .oneOrMore item (some back) => .oneOrMore item (some back) :: (item.nodes ++ back.nodes)
  | .group label path item => .group label path item :: item.nodes
  | .terminal text path => [.terminal text path]
  | .nonTerminal text path => [.nonTerminal text path]
  | .skip => [.skip]

def nodesAll : List Track → List Track
  | [] => []
  | track :: rest => track.nodes ++ nodesAll rest

end

theorem nodesAll_eq_flatMap (tracks : List Track) : nodesAll tracks = tracks.flatMap nodes := by
  induction tracks with
  | nil => rfl
  | cons track rest ih => simp [nodesAll, ih]

/-- The tracks inside a track are those inside its parts. -/
theorem nodes_eq (track : Track) : track.nodes = track :: track.children.flatMap nodes := by
  cases track with
  | sequence items => simp [nodes, children, nodesAll_eq_flatMap]
  | choice index options => simp [nodes, children, nodesAll_eq_flatMap]
  | oneOrMore item back => cases back <;> simp [nodes, children]
  | _ => simp [nodes, children]

/-- The keys of the groups of a track, in pre-order. -/
def groupPaths (track : Track) : List PathKey :=
  track.nodes.filterMap fun
    | .group _ path _ => some path
    | _ => none

/-- The keys of the names of a track, whether drawn in place or not, in pre-order. -/
def referencePaths (track : Track) : List PathKey :=
  track.nodes.filterMap fun
    | .group _ path _ | .nonTerminal _ path => some path
    | _ => none

mutual

/-- Equality of tracks, part by part. -/
def same : Track → Track → Bool
  | .sequence items, .sequence items' => sameAll items items'
  | .choice index options, .choice index' options' =>
    decide (index = index') && sameAll options options'
  | .optional item, .optional item' => item.same item'
  | .zeroOrMore item, .zeroOrMore item' => item.same item'
  | .oneOrMore item none, .oneOrMore item' none => item.same item'
  | .oneOrMore item (some back), .oneOrMore item' (some back') =>
    item.same item' && back.same back'
  | .terminal text path, .terminal text' path' => decide (text = text') && decide (path = path')
  | .nonTerminal text path, .nonTerminal text' path' =>
    decide (text = text') && decide (path = path')
  | .group label path item, .group label' path' item' =>
    decide (label = label') && decide (path = path') && item.same item'
  | .skip, .skip => true
  | _, _ => false

def sameAll : List Track → List Track → Bool
  | [], [] => true
  | track :: rest, track' :: rest' => track.same track' && sameAll rest rest'
  | _, _ => false

end

mutual

theorem same_iff (a b : Track) : a.same b = true ↔ a = b := by
  cases a with
  | sequence items => cases b <;> simp [same, sameAll_iff items]
  | choice index options => cases b <;> simp [same, sameAll_iff options]
  | optional item => cases b <;> simp [same, same_iff item]
  | zeroOrMore item => cases b <;> simp [same, same_iff item]
  | oneOrMore item back =>
    cases back with
    | none =>
      cases b with
      | oneOrMore item' back' => cases back' <;> simp [same, same_iff item]
      | _ => simp [same]
    | some back =>
      cases b with
      | oneOrMore item' back' =>
        cases back' <;> simp [same, same_iff item, same_iff back]
      | _ => simp [same]
  | group label path item => cases b <;> simp [same, same_iff item, and_assoc]
  | terminal text path => cases b <;> simp [same]
  | nonTerminal text path => cases b <;> simp [same]
  | skip => cases b <;> simp [same]

theorem sameAll_iff (as bs : List Track) : sameAll as bs = true ↔ as = bs := by
  cases as with
  | nil => cases bs <;> simp [sameAll]
  | cons a as => cases bs <;> simp [sameAll, same_iff a, sameAll_iff as]

end

instance : DecidableEq Track := fun a b => decidable_of_iff _ (same_iff a b)

end Track

/-- A track for one production, with the name that it starts from. -/
structure Diagram where
  start : String
  root : Track
deriving DecidableEq

end Railroad
