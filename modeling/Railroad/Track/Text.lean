import Railroad.Track

/-!
Two text forms of tracks: `Track.display` on one line, without keys, and `Track.outline` with a
line for each track, indented by its depth.
-/

namespace Railroad.Track

mutual

/-- The form on one line, as in `Sequence(Terminal("a"), ZeroOrMore(NonTerminal(B)))`. -/
def display : Track → String
  | .sequence items => "Sequence(" ++ ", ".intercalate (displays items) ++ ")"
  | .choice index options =>
    s!"Choice({index}; " ++ ", ".intercalate (displays options) ++ ")"
  | .optional item => "Optional(" ++ item.display ++ ")"
  | .zeroOrMore item => "ZeroOrMore(" ++ item.display ++ ")"
  | .oneOrMore item none => "OneOrMore(" ++ item.display ++ ")"
  | .oneOrMore item (some back) => "OneOrMore(" ++ item.display ++ "; " ++ back.display ++ ")"
  | .terminal text _ => "Terminal(" ++ Text.quoted text ++ ")"
  | .nonTerminal text _ => "NonTerminal(" ++ text ++ ")"
  | .group label _ item => "Group(" ++ label ++ ": " ++ item.display ++ ")"
  | .skip => "Skip"

def displays : List Track → List String
  | [] => []
  | track :: rest => track.display :: displays rest

end

theorem displays_eq_map (tracks : List Track) : displays tracks = tracks.map display := by
  induction tracks with
  | nil => rfl
  | cons track rest ih => simp [displays, ih]

/-- Two spaces for each level. -/
def indented (depth : Nat) (line : String) : String :=
  String.ofList (List.replicate (2 * depth) ' ') ++ line

/-- What the line of a track says of the track itself. -/
def headline (track : Track) : String :=
  track.kindName ++
    match track with
    | .terminal text path | .nonTerminal text path | .group text path _ =>
      " " ++ Text.quoted text ++ " @" ++ path.text
    | .choice index _ => s!" default={index}"
    | _ => ""

mutual

/-- The lines of a track that is `depth` levels deep. The way back of a loop stands below a line
of its own, one level deeper than the other parts. -/
def lines (depth : Nat) : Track → List String
  | .sequence items => indented depth (headline (.sequence items)) :: linesAll (depth + 1) items
  | .choice index options =>
    indented depth (headline (.choice index options)) :: linesAll (depth + 1) options
  | .optional item => indented depth (headline (.optional item)) :: item.lines (depth + 1)
  | .zeroOrMore item => indented depth (headline (.zeroOrMore item)) :: item.lines (depth + 1)
  | .oneOrMore item none =>
    indented depth (headline (.oneOrMore item none)) :: item.lines (depth + 1)
  | .oneOrMore item (some back) =>
    indented depth (headline (.oneOrMore item (some back))) ::
      (item.lines (depth + 1) ++ indented (depth + 1) "repeat:" :: back.lines (depth + 2))
  | .group label path item =>
    indented depth (headline (.group label path item)) :: item.lines (depth + 1)
  | .terminal text path => [indented depth (headline (.terminal text path))]
  | .nonTerminal text path => [indented depth (headline (.nonTerminal text path))]
  | .skip => [indented depth (headline .skip)]

def linesAll (depth : Nat) : List Track → List String
  | [] => []
  | track :: rest => track.lines depth ++ linesAll depth rest

end

theorem linesAll_eq_flatMap (depth : Nat) (tracks : List Track) :
    linesAll depth tracks = tracks.flatMap (lines depth) := by
  induction tracks with
  | nil => rfl
  | cons track rest ih => simp [linesAll, ih]

/-- The outline: the lines of the track, each ended by a line feed. -/
def outline (track : Track) : String :=
  String.join ((track.lines 0).map (· ++ "\n"))

end Railroad.Track
