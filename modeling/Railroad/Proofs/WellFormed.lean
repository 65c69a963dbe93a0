import Railroad.Proofs.TrackRules

/-!
Diagrams are well formed for a renderer.

* `Track.WellFormed`: what a renderer relies on at each track. Nothing in the type of tracks
  excludes an empty sequence, a choice without a straight way, a label without text or an empty
  stretch anywhere.
* `Grammar.wellFormed_rules`: every way to build a track keeps to this.
* `Grammar.wellFormed_diagram`: so all tracks of the diagrams of an accepted text do.
-/

namespace Railroad

theorem ne_empty_of_startsUppercase {word : String} (h : startsUppercase word = true) :
    word ≠ "" := by
  rintro rfl
  cases h

/-- What a renderer relies on at a track, and what holds of the names on it. There is something in
each sequence; a choice has several options, and the one in the middle is straight; an empty stretch
stands in a loop whose way back is a choice and nowhere else, and no other way back is a choice; no
text is empty, and references are to names that start with a capital, if opened to declared ones. -/
def Track.WellFormed (g : Grammar) : Track → Prop
  | .sequence items => items ≠ [] ∧ .skip ∉ items
  | .choice index options =>
    2 ≤ options.length ∧ index = options.length / 2 ∧ index < options.length ∧ .skip ∉ options
  | .optional item | .zeroOrMore item => item ≠ .skip
  | .oneOrMore item back =>
    (item = .skip ↔ ∃ index options, back = some (.choice index options)) ∧ back ≠ some .skip
  | .terminal text _ => text ≠ ""
  | .nonTerminal name _ => name ≠ "" ∧ startsUppercase name = true
  | .group name _ item =>
    name ≠ "" ∧ startsUppercase name = true ∧ name ∈ g.names ∧ item ≠ .skip
  | .skip => True

namespace Grammar

variable {g : Grammar} {refer : String → PathKey → Track}

/-- **Every way to build a track gives a well-formed one.** -/
theorem wellFormed_rules (stands : ∀ name path, (refer name path).Stands) :
    Track.Rules g refer (Track.WellFormed g) where
  skip := trivial
  terminal _ _ inhabited := inhabited
  closed _ _ capital := ⟨ne_empty_of_startsUppercase capital, capital⟩
  opened _ _ _ capital declared item :=
    ⟨ne_empty_of_startsUppercase capital, capital, declared, item⟩
  sequence _ inhabited items := ⟨inhabited, items⟩
  choice _ several options := ⟨several, rfl, by omega, options⟩
  optional _ item := item
  zeroOrMore _ item := item
  oneOrMore _ item := ⟨iff_of_false item (by simp), by simp⟩
  separator item above way forward _ := by
    -- What is on the way back stands for something, so it is no choice.
    have back := Track.stands_joined (Factor.stands_tracks stands above way)
    refine ⟨iff_of_false forward ?_, fun skip => back.ne_skip (Option.some.inj skip)⟩
    rintro ⟨index, options, choice⟩
    rw [Option.some.inj choice] at back
    exact back
  parallel _ _ _ := ⟨iff_of_true rfl ⟨_, _, rfl⟩, by simp⟩

/-- **Diagrams are well formed.** Whatever is opened, the diagram of an accepted text is a sequence
of one track, and it is well formed at every track in it. -/
theorem wellFormed_diagram {text : String} {g : Grammar} (read : ofString? text = .ok g)
    {start : Option String} {expanded : List PathKey} {d : Diagram}
    (drawn : (g.diagram start expanded).result = .ok d) :
    (∃ item, d.root = .sequence [item]) ∧ ∀ node ∈ d.root.nodes, node.WellFormed g := by
  rw [diagram_eq] at drawn
  refine ⟨?_, all_draw read (wellFormed_rules stands_shown) drawn⟩
  obtain ⟨p, -, rfl⟩ := draw_eq_ok drawn
  exact ⟨_, rfl⟩

set_option maxRecDepth 4000 in
/-- A frame with a choice in it, and a loop with two ways back. -/
theorem wellFormed_diagram_ways :
    let g : Grammar := ⟨1, [⟨2, ⟨3, "A"⟩, ⟨4, [⟨5, [
        .bracketed 6 .option ⟨7, [⟨8, [.identifier 9 ⟨10, "B"⟩]⟩]⟩,
        .bracketed 11 .repetition
          ⟨12, [⟨13, [.literal 14 ⟨15, "+"⟩]⟩, ⟨16, [.literal 17 ⟨18, "-"⟩]⟩]⟩]⟩]⟩⟩,
      ⟨19, ⟨20, "B"⟩, ⟨21, [⟨22, [.literal 23 ⟨24, "x"⟩]⟩, ⟨25, [.literal 26 ⟨27, "y"⟩]⟩]⟩⟩]⟩
    let key : PathKey := ⟨[2, 4, 5, 6, 7, 8, 9, 10]⟩
    let d : Diagram := ⟨"A", .sequence [.sequence [
      .optional (.group "B" key (.choice 1 [
        .terminal "x" ⟨[2, 4, 5, 6, 7, 8, 9, 10, 21, 22, 23, 24]⟩,
        .terminal "y" ⟨[2, 4, 5, 6, 7, 8, 9, 10, 21, 25, 26, 27]⟩])),
      .oneOrMore .skip (some (.choice 1 [.terminal "+" ⟨[2, 4, 5, 11, 12, 13, 14, 15]⟩,
        .terminal "-" ⟨[2, 4, 5, 11, 12, 16, 17, 18]⟩]))]]⟩
    ofString? "A = [B] \x7b\"+\" | \"-\"\x7d . B = \"x\" | \"y\" ." = .ok g ∧
      (g.diagram none [key]).result = .ok d ∧ (∃ item, d.root = .sequence [item]) ∧
      ∀ node ∈ d.root.nodes, node.WellFormed g := by
  intro g key d
  have read : ofString? "A = [B] \x7b\"+\" | \"-\"\x7d . B = \"x\" | \"y\" ." = .ok g := by cbv
  have drawn : (g.diagram none [key]).result = .ok d := by
    rw [diagram_eq]
    cbv
  exact ⟨read, drawn, wellFormed_diagram read drawn⟩

end Grammar

end Railroad
