import Railroad.Proofs.Display
import Railroad.Proofs.Keys

/-!
The outline of a track tells all of the track.

* `Track.toList_headline_append`: a headline starts with the kind.
* `Track.indented_inj`: a line is told by its depth and its text.
* `Track.lines_append_inj`: the lines of a track tell the track, up to a line that is not deeper.
* `Track.outline_injective`: so different tracks have different outlines, since no line is broken.
* `Track.text_forms`: what an outline tells of a track, and what a form on one line.
-/

namespace Railroad

namespace Track

/-! ### Lines -/

/-- What stands behind the kind in a headline. -/
def remark : Track → List Char
  | .terminal text path | .nonTerminal text path | .group text path _ =>
    ' ' :: ((Text.quoted text).toList ++ ' ' :: '@' :: path.text.toList)
  | .choice index _ => [' ', 'd', 'e', 'f', 'a', 'u', 'l', 't', '='] ++ index.repr.toList
  | _ => []

theorem toList_headline (track : Track) :
    track.headline.toList = track.kindName.toList ++ track.remark := by
  cases track with
  | choice index options =>
    have line : (choice index options).headline = "Choice" ++ (" default=" ++ index.repr) := by
      rw [headline, kindName]
      simp [toString]
    simp [line, kindName, remark]
  | _ => simp [headline, remark]

/-- A text that does not start with a space. -/
def FlushLeft (text : String) : Prop :=
  ∀ c ∈ text.toList.head?, c ≠ ' '

theorem flushLeft_headline (track : Track) : FlushLeft track.headline := by
  rw [FlushLeft, toList_headline]
  cases track <;> simp [kindName]

theorem flushLeft_repeat : FlushLeft "repeat:" := by
  simp [FlushLeft]

/-- **A line is told by its depth and its text.** -/
theorem indented_inj {depth depth' : Nat} {text text' : String} (plain : FlushLeft text)
    (plain' : FlushLeft text') (h : indented depth text = indented depth' text') :
    depth = depth' ∧ text = text' := by
  have spaces : ∀ n, ∀ c ∈ List.replicate n ' ', decide (c = ' ') = true := by simp
  have chars := congrArg String.toList h
  simp only [indented, String.toList_append, String.toList_ofList] at chars
  obtain ⟨front, rest⟩ := Reading.append_inj_of_runs (spaces _) (by simpa [FlushLeft] using plain)
    (spaces _) (by simpa [FlushLeft] using plain') chars
  have lengths := congrArg List.length front
  simp only [List.length_replicate] at lengths
  exact ⟨by omega, String.toList_inj.mp rest⟩

/-! ### Lines of tracks -/

/-- The lines of the way back, if there is one. -/
def linesOfBack (depth : Nat) : Option Track → List String
  | none => []
  | some back => indented (depth + 1) "repeat:" :: back.lines (depth + 2)

/-- The lines below the headline. -/
def linesBelow (depth : Nat) : Track → List String
  | .oneOrMore item back => item.lines (depth + 1) ++ linesOfBack depth back
  | track => linesAll (depth + 1) track.children

theorem lines_eq (track : Track) (depth : Nat) :
    track.lines depth = indented depth track.headline :: track.linesBelow depth := by
  cases track with
  | oneOrMore item back => cases back <;> simp [lines, linesBelow, linesOfBack]
  | _ => simp [lines, linesBelow, children, linesAll]

/-- The first of the lines, if there is any, is at most so deep. -/
def Shallow (depth : Nat) (lines : List String) : Prop :=
  ∀ line ∈ lines.head?, ∃ level ≤ depth, ∃ text, FlushLeft text ∧ line = indented level text

theorem Shallow.mono {depth depth' : Nat} (deeper : depth ≤ depth') {lines : List String}
    (h : Shallow depth lines) : Shallow depth' lines := by
  intro line hline
  obtain ⟨level, low, text, plain, is⟩ := h line hline
  exact ⟨level, Nat.le_trans low deeper, text, plain, is⟩

theorem shallow_cons {depth : Nat} {text : String} (plain : FlushLeft text)
    (rest : List String) : Shallow depth (indented depth text :: rest) := by
  rintro line ⟨⟩
  exact ⟨depth, Nat.le_refl _, text, plain, rfl⟩

/-- A deeper line comes first in none of them. -/
theorem Shallow.ne_cons {depth : Nat} {lines : List String} (h : Shallow depth lines)
    {text : String} (plain : FlushLeft text) (rest : List String) :
    lines ≠ indented (depth + 1) text :: rest := by
  rintro rfl
  obtain ⟨level, low, text', plain', is⟩ := h _ rfl
  obtain ⟨rfl, -⟩ := indented_inj plain plain' is
  omega

theorem shallow_linesAll {depth : Nat} (items : List Track) {lines : List String}
    (h : Shallow depth lines) : Shallow (depth + 1) (linesAll (depth + 1) items ++ lines) := by
  cases items with
  | nil => exact h.mono (Nat.le_succ depth)
  | cons item rest =>
    rw [linesAll, lines_eq]
    exact shallow_cons (flushLeft_headline item) _

theorem shallow_linesOfBack {depth : Nat} (back : Option Track) {lines : List String}
    (h : Shallow depth lines) : Shallow (depth + 1) (linesOfBack depth back ++ lines) := by
  cases back with
  | none => exact h.mono (Nat.le_succ depth)
  | some back => exact shallow_cons flushLeft_repeat _

/-! ### Reading an outline -/

/-- The lines of the track tell it and where they end: before a line that is not deeper. -/
def IsOutlined (track : Track) : Prop :=
  ∀ {other : Track} {depth : Nat} {x y : List String}, Shallow depth x → Shallow depth y →
    track.lines depth ++ x = other.lines depth ++ y → track = other ∧ x = y

theorem linesAll_append_inj {items items' : List Track} {depth : Nat} {x y : List String}
    (outlined : ∀ item ∈ items, item.IsOutlined) (hx : Shallow depth x) (hy : Shallow depth y)
    (h : linesAll (depth + 1) items ++ x = linesAll (depth + 1) items' ++ y) :
    items = items' ∧ x = y := by
  induction items generalizing items' with
  | nil =>
    cases items' with
    | nil => exact ⟨rfl, h⟩
    | cons item' rest' =>
      rw [linesAll, linesAll, lines_eq] at h
      exact absurd h (hx.ne_cons (flushLeft_headline item') _)
  | cons item rest ih =>
    cases items' with
    | nil =>
      rw [linesAll, linesAll, lines_eq] at h
      exact absurd h.symm (hy.ne_cons (flushLeft_headline item) _)
    | cons item' rest' =>
      rw [linesAll, linesAll, List.append_assoc, List.append_assoc] at h
      rw [List.forall_mem_cons] at outlined
      obtain ⟨rfl, others⟩ := outlined.1 (shallow_linesAll rest hx) (shallow_linesAll rest' hy) h
      obtain ⟨rfl, ends⟩ := ih outlined.2 others
      exact ⟨rfl, ends⟩

/-- A text and a key are told by the end of a headline. -/
theorem remark_inj {text text' : String} {path path' : PathKey}
    (h : (terminal text path).remark = (terminal text' path').remark) :
    text = text' ∧ path = path' := by
  obtain ⟨rfl, key⟩ := Text.quoted_append_inj (List.cons.inj h).2
  simp only [List.cons.injEq, true_and] at key
  exact ⟨rfl, PathKey.text_injective (String.toList_inj.mp key)⟩

/-- **A track is told by its lines**, up to a line that is not deeper than the first one. -/
theorem lines_append_inj (a : Track) : a.IsOutlined := by
  induction a using Track.induction with
  | h a ih =>
    intro b depth x y hx hy h
    have outlined : ∀ child ∈ a.children, child.IsOutlined := ih
    rw [lines_eq, lines_eq] at h
    obtain ⟨first, rest⟩ := List.cons.inj h
    have headlines := congrArg String.toList
      (indented_inj (flushLeft_headline a) (flushLeft_headline b) first).2
    rw [toList_headline, toList_headline] at headlines
    obtain ⟨kind, remarks⟩ := kindName_append_inj headlines
    cases kind with
    | sequence items items' =>
      obtain ⟨rfl, ends⟩ := linesAll_append_inj outlined hx hy rest
      exact ⟨rfl, ends⟩
    | choice index index' options options' =>
      obtain ⟨rfl, -⟩ := repr_append_inj (by simp) (by simp)
        (congrArg (· ++ []) (List.append_cancel_left remarks))
      obtain ⟨rfl, ends⟩ := linesAll_append_inj outlined hx hy rest
      exact ⟨rfl, ends⟩
    | optional item item' | zeroOrMore item item' =>
      obtain ⟨same, ends⟩ := linesAll_append_inj outlined hx hy rest
      cases same
      exact ⟨rfl, ends⟩
    | oneOrMore item item' back back' =>
      have parts : item.lines (depth + 1) ++ (linesOfBack depth back ++ x) =
          item'.lines (depth + 1) ++ (linesOfBack depth back' ++ y) := by
        simpa only [linesBelow, List.append_eq, List.append_assoc] using rest
      obtain ⟨rfl, ways⟩ := outlined item List.mem_cons_self (shallow_linesOfBack back hx)
        (shallow_linesOfBack back' hy) parts
      cases back with
      | none =>
        cases back' with
        | none => exact ⟨rfl, ways⟩
        | some back' => exact absurd ways (hx.ne_cons flushLeft_repeat _)
      | some back =>
        cases back' with
        | none => exact absurd ways.symm (hy.ne_cons flushLeft_repeat _)
        | some back' =>
          obtain ⟨rfl, ends⟩ := outlined back (by simp [children]) (hx.mono (by omega))
            (hy.mono (by omega)) (List.cons.inj ways).2
          exact ⟨rfl, ends⟩
    | terminal text text' path path' | nonTerminal text text' path path' =>
      obtain ⟨rfl, rfl⟩ := remark_inj remarks
      exact ⟨rfl, rest⟩
    | group label label' path path' item item' =>
      obtain ⟨rfl, rfl⟩ := remark_inj remarks
      obtain ⟨same, ends⟩ := linesAll_append_inj outlined hx hy rest
      cases same
      exact ⟨rfl, ends⟩
    | skip => exact ⟨rfl, rest⟩

/-! ### Outlines -/

/-- No line is broken. -/
theorem newline_notMem_headline (track : Track) : '\n' ∉ track.headline.toList := by
  have key : ∀ path : PathKey, '\n' ∉ path.text.toList := fun path =>
    path.notMem_text (by decide) (by decide)
  have digits : ∀ n : Nat, '\n' ∉ Nat.toDigits 10 n := by
    intro n newline
    cases isDigit_of_mem_toDigits newline
  rw [toList_headline]
  cases track <;> simp [kindName, remark, digits, key, Text.newline_notMem_quoted]

theorem newline_notMem_indented {depth : Nat} {text : String} (h : '\n' ∉ text.toList) :
    '\n' ∉ (indented depth text).toList := by
  simp [indented, h]

theorem newline_notMem_lines (track : Track) (depth : Nat) :
    ∀ line ∈ track.lines depth, '\n' ∉ line.toList := by
  induction track using Track.induction generalizing depth with
  | h track ih =>
    rw [lines_eq, List.forall_mem_cons]
    refine ⟨newline_notMem_indented (newline_notMem_headline track), ?_⟩
    have all : ∀ line ∈ linesAll (depth + 1) track.children, '\n' ∉ line.toList := by
      intro line hline
      rw [linesAll_eq_flatMap, List.mem_flatMap] at hline
      obtain ⟨child, hchild, hline⟩ := hline
      exact ih child hchild _ line hline
    cases track with
    | oneOrMore item back =>
      refine List.forall_mem_append.mpr ⟨ih item List.mem_cons_self _, ?_⟩
      cases back with
      | none => simp [linesOfBack]
      | some back =>
        refine List.forall_mem_cons.mpr ⟨newline_notMem_indented (by simp), ?_⟩
        exact ih back (by simp [children]) _
    | _ => exact all

/-- Unbroken lines are told by their text. -/
theorem eq_of_flatMap_newline_eq {lines lines' : List String}
    (whole : ∀ line ∈ lines, '\n' ∉ line.toList) (whole' : ∀ line ∈ lines', '\n' ∉ line.toList)
    (h : lines.flatMap (fun line => line.toList ++ ['\n']) =
      lines'.flatMap fun line => line.toList ++ ['\n']) : lines = lines' := by
  induction lines generalizing lines' with
  | nil =>
    cases lines' with
    | nil => rfl
    | cons line' rest' => simp at h
  | cons line rest ih =>
    cases lines' with
    | nil => simp at h
    | cons line' rest' =>
      rw [List.forall_mem_cons] at whole whole'
      simp only [List.flatMap_cons, List.append_assoc, List.singleton_append] at h
      obtain ⟨same, others⟩ := Reading.append_cons_inj_of_notMem whole.1 whole'.1 h
      rw [String.toList_inj.mp same, ih whole.2 whole'.2 others]

theorem toList_outline (track : Track) :
    track.outline.toList = (track.lines 0).flatMap fun line => line.toList ++ ['\n'] := by
  rw [outline]
  induction track.lines 0 with
  | nil => rfl
  | cons line rest ih => simp [String.join_cons, ih]

/-- **Different tracks have different outlines.** -/
theorem outline_injective : Function.Injective outline := by
  intro a b h
  have chars := congrArg String.toList h
  rw [toList_outline, toList_outline] at chars
  have lines := eq_of_flatMap_newline_eq (newline_notMem_lines a 0) (newline_notMem_lines b 0) chars
  have ends : Shallow 0 [] := by simp [Shallow]
  exact (lines_append_inj a ends ends (congrArg (· ++ []) lines)).1

/-- **The text forms tell the track.** Different tracks have different outlines, whatever their
texts, names, keys and indices are. Tracks on which all names are words have one form on one line
exactly if they are equal without their keys, and in the diagrams of accepted texts all names are
words. -/
theorem text_forms :
    (∀ a b : Track, a.outline = b.outline → a = b) ∧
      (∀ a b : Track, a.All Named → b.All Named →
        (a.display = b.display ↔ a.unkeyed = b.unkeyed)) ∧
      ∀ text g start expanded d, Grammar.ofString? text = .ok g →
        (g.diagram start expanded).result = .ok d → d.root.All Named :=
  ⟨fun _ _ same => outline_injective same, fun _ _ ha hb => display_eq_iff ha hb,
    fun _ _ _ _ _ read drawn => Grammar.named_diagram read drawn⟩

set_option maxRecDepth 4000 in
/-- A track that differs from a diagram by a key: this does not show on one line, but in the
outline. -/
theorem text_forms_key :
    let g : Grammar := ⟨1, [⟨2, ⟨3, "A"⟩, ⟨4, [⟨5, [.identifier 6 ⟨7, "B"⟩]⟩]⟩⟩]⟩
    let d : Diagram := ⟨"A", .sequence [.nonTerminal "B" ⟨[2, 4, 5, 6, 7]⟩]⟩
    let other : Track := .sequence [.nonTerminal "B" ⟨[8]⟩]
    Grammar.ofString? "A = B ." = .ok g ∧ (g.diagram none []).result = .ok d ∧
      d.root.All Named ∧ other.All Named ∧ d.root.outline ≠ other.outline ∧
      d.root.display = other.display ∧ d.root.unkeyed = other.unkeyed := by
  intro g d other
  have read : Grammar.ofString? "A = B ." = .ok g := by cbv
  have drawn : (g.diagram none []).result = .ok d := by
    rw [Grammar.diagram_eq]
    cbv
  obtain ⟨outlines, forms, words⟩ := text_forms
  have named := words _ g none [] d read drawn
  have otherNamed : other.All Named := by
    intro node hnode
    simp only [other, nodes, nodesAll, List.append_nil, List.mem_cons, List.not_mem_nil,
      or_false] at hnode
    rcases hnode with rfl | rfl
    · trivial
    · exact List.all_eq_true.mp (by decide +kernel)
  have bare : d.root.unkeyed = other.unkeyed := rfl
  have shown := (forms _ _ named otherNamed).mpr bare
  refine ⟨read, drawn, named, otherNamed, fun same => ?_, shown, bare⟩
  exact absurd (outlines _ _ same) (by decide +kernel)

end Track

end Railroad
