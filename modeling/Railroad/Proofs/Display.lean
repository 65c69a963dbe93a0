import Railroad.Proofs.KeyIds
import Railroad.Proofs.Quoting
import Railroad.Proofs.SameSymbol
import Railroad.Track.Text

/-!
The form of a track on one line tells all of the track but its keys.

* `Track.kindName_append_inj`: the kind of a track is told by its name, whatever follows.
* `Track.toList_display_append`: the form on one line starts with the kind.
* `Track.separated_append_inj`: a list of tracks is told by its separated forms, if each track is.
* `Track.display_append_inj`: so a track is told by its form, if the names on it are words.
  `Track.display_eq_iff`: tracks have one form exactly if they are equal without their keys.
* `Grammar.named_diagram`: in the diagrams of an accepted text they are.
-/

namespace Railroad

namespace Track

/-! ### Kinds -/

/-- Two tracks of one kind. -/
inductive SameKind : Track → Track → Prop
  | sequence (items items' : List Track) : SameKind (.sequence items) (.sequence items')
  | choice (index index' : Nat) (options options' : List Track) :
    SameKind (.choice index options) (.choice index' options')
  | optional (item item' : Track) : SameKind (.optional item) (.optional item')
  | zeroOrMore (item item' : Track) : SameKind (.zeroOrMore item) (.zeroOrMore item')
  | oneOrMore (item item' : Track) (back back' : Option Track) :
    SameKind (.oneOrMore item back) (.oneOrMore item' back')
  | terminal (text text' : String) (path path' : PathKey) :
    SameKind (.terminal text path) (.terminal text' path')
  | nonTerminal (text text' : String) (path path' : PathKey) :
    SameKind (.nonTerminal text path) (.nonTerminal text' path')
  | group (label label' : String) (path path' : PathKey) (item item' : Track) :
    SameKind (.group label path item) (.group label' path' item')
  | skip : SameKind .skip .skip

theorem sameKind_of_kindName_eq {a b : Track} (h : a.kindName = b.kindName) : a.SameKind b := by
  cases a <;> cases b <;> first | constructor | simp [kindName] at h

/-- The names of all kinds. -/
def kindNames : List String :=
  ["Sequence", "Choice", "Optional", "ZeroOrMore", "OneOrMore", "Terminal", "NonTerminal", "Group",
    "Skip"]

theorem kindName_mem (track : Track) : track.kindName ∈ kindNames := by
  cases track <;> simp [kindName, kindNames]

/-- **The kind of a track is told by its name**: no name is the beginning of another. -/
theorem kindName_append_inj {a b : Track} {x y : List Char}
    (h : a.kindName.toList ++ x = b.kindName.toList ++ y) : a.SameKind b ∧ x = y := by
  have apart : ∀ name ∈ kindNames, ∀ name' ∈ kindNames,
      name.toList <+: name'.toList → name = name' := by decide +kernel
  have front : a.kindName.toList <+: b.kindName.toList ++ y := h ▸ List.prefix_append _ _
  have same : a.kindName = b.kindName := by
    rcases List.prefix_or_prefix_of_prefix front (List.prefix_append _ _) with shorter | longer
    · exact apart _ (kindName_mem a) _ (kindName_mem b) shorter
    · exact (apart _ (kindName_mem b) _ (kindName_mem a) longer).symm
  rw [same] at h
  exact ⟨sameKind_of_kindName_eq same, List.append_cancel_left h⟩

/-! ### The form on one line -/

/-- The forms of several tracks, with separators between them. -/
def separated (items : List Track) : List Char :=
  [',', ' '].intercalate ((displays items).map String.toList)

/-- What stands behind the kind in the form on one line, and behind the form. -/
def details (rest : List Char) : Track → List Char
  | .sequence items => '(' :: (separated items ++ ')' :: rest)
  | .choice index options =>
    '(' :: (index.repr.toList ++ ';' :: ' ' :: (separated options ++ ')' :: rest))
  | .optional item | .zeroOrMore item => '(' :: (item.display.toList ++ ')' :: rest)
  | .oneOrMore item back =>
    '(' :: (item.display.toList ++
      match back with
      | none => ')' :: rest
      | some back => ';' :: ' ' :: (back.display.toList ++ ')' :: rest))
  | .terminal text _ => '(' :: ((Text.quoted text).toList ++ ')' :: rest)
  | .nonTerminal text _ => '(' :: (text.toList ++ ')' :: rest)
  | .group label _ item =>
    '(' :: (label.toList ++ ':' :: ' ' :: (item.display.toList ++ ')' :: rest))
  | .skip => rest

/-- The form starts with the kind. -/
theorem toList_display_append (track : Track) (rest : List Char) :
    track.display.toList ++ rest = track.kindName.toList ++ track.details rest := by
  cases track with
  | choice index options =>
    have form : (choice index options).display =
        "Choice(" ++ index.repr ++ "; " ++ ", ".intercalate (displays options) ++ ")" := rfl
    simp [form, kindName, details, separated]
  | oneOrMore item back => cases back <;> simp [display, kindName, details]
  | _ => simp [display, kindName, details, separated]

/-! ### Tracks without keys -/

mutual

/-- The track with all keys erased. -/
def unkeyed : Track → Track
  | .sequence items => .sequence (unkeyedAll items)
  | .choice index options => .choice index (unkeyedAll options)
  | .optional item => .optional item.unkeyed
  | .zeroOrMore item => .zeroOrMore item.unkeyed
  | .oneOrMore item none => .oneOrMore item.unkeyed none
  | .oneOrMore item (some back) => .oneOrMore item.unkeyed (some back.unkeyed)
  | .terminal text _ => .terminal text ⟨[]⟩
  | .nonTerminal text _ => .nonTerminal text ⟨[]⟩
  | .group label _ item => .group label ⟨[]⟩ item.unkeyed
  | .skip => .skip

def unkeyedAll : List Track → List Track
  | [] => []
  | track :: rest => track.unkeyed :: unkeyedAll rest

end

theorem unkeyedAll_eq_map (tracks : List Track) : unkeyedAll tracks = tracks.map unkeyed := by
  induction tracks with
  | nil => rfl
  | cons track rest ih => rw [unkeyedAll, ih, List.map_cons]

/-- The name on the track, if it is of a reference, is a word. -/
def Named : Track → Prop
  | .nonTerminal name _ | .group name _ _ => ∀ c ∈ name.toList, Text.isAlphabetic c = true
  | _ => True

/-! ### Reading the form on one line -/

/-- The form of the track tells it, but for its keys, and where it ends. -/
def IsTold (track : Track) : Prop :=
  ∀ {other : Track} {x y : List Char}, other.All Named →
    track.display.toList ++ x = other.display.toList ++ y → track.unkeyed = other.unkeyed ∧ x = y

/-- No form starts with a bracket. -/
theorem display_append_ne (track : Track) (x y : List Char) :
    track.display.toList ++ x ≠ ')' :: y := by
  rw [toList_display_append]
  cases track <;> simp [kindName]

theorem flatMap_separator_append_inj {items items' : List Track} {x y : List Char}
    (told : ∀ item ∈ items, item.IsTold) (named : ∀ item ∈ items', item.All Named)
    (h : items.flatMap (fun item => ',' :: ' ' :: item.display.toList) ++ ')' :: x =
      items'.flatMap (fun item => ',' :: ' ' :: item.display.toList) ++ ')' :: y) :
    items.map unkeyed = items'.map unkeyed ∧ x = y := by
  induction items generalizing items' with
  | nil =>
    cases items' with
    | nil => exact ⟨rfl, (List.cons.inj h).2⟩
    | cons item' rest' => simp at h
  | cons item rest ih =>
    cases items' with
    | nil => simp at h
    | cons item' rest' =>
      simp only [List.flatMap_cons, List.cons_append, List.append_assoc, List.cons.injEq,
        true_and] at h
      rw [List.forall_mem_cons] at told named
      obtain ⟨same, h⟩ := told.1 named.1 h
      obtain ⟨others, ends⟩ := ih told.2 named.2 h
      exact ⟨by rw [List.map_cons, List.map_cons, same, others], ends⟩

theorem separated_cons (item : Track) (rest : List Track) :
    separated (item :: rest) =
      item.display.toList ++ rest.flatMap fun item => ',' :: ' ' :: item.display.toList := by
  rw [separated, displays_eq_map, List.map_cons, List.map_cons, intercalate_cons_eq]
  simp [List.flatMap_map]

/-- **Separated forms tell the tracks of a list**, up to the bracket behind them. -/
theorem separated_append_inj (items items' : List Track) {x y : List Char}
    (told : ∀ item ∈ items, item.IsTold) (named : ∀ item ∈ items', item.All Named)
    (h : separated items ++ ')' :: x = separated items' ++ ')' :: y) :
    unkeyedAll items = unkeyedAll items' ∧ x = y := by
  rw [unkeyedAll_eq_map, unkeyedAll_eq_map]
  cases items with
  | nil =>
    cases items' with
    | nil => exact ⟨rfl, (List.cons.inj h).2⟩
    | cons item' rest' =>
      rw [separated_cons, List.append_assoc] at h
      exact absurd h.symm (display_append_ne item' _ _)
  | cons item rest =>
    rw [separated_cons, List.append_assoc] at h
    cases items' with
    | nil => exact absurd h (display_append_ne item _ _)
    | cons item' rest' =>
      rw [separated_cons, List.append_assoc] at h
      rw [List.forall_mem_cons] at told named
      obtain ⟨same, h⟩ := told.1 named.1 h
      obtain ⟨others, ends⟩ := flatMap_separator_append_inj told.2 named.2 h
      exact ⟨by rw [List.map_cons, List.map_cons, same, others], ends⟩

/-- A number is told by its digits. -/
theorem repr_append_inj {m n : Nat} {x y : List Char} (hx : ∀ c ∈ x.head?, c.isDigit = false)
    (hy : ∀ c ∈ y.head?, c.isDigit = false)
    (h : m.repr.toList ++ x = n.repr.toList ++ y) : m = n ∧ x = y := by
  rw [Nat.toList_repr, Nat.toList_repr] at h
  have digits : ∀ k, ∀ c ∈ Nat.toDigits 10 k, c.isDigit = true := fun _ _ =>
    isDigit_of_mem_toDigits
  obtain ⟨same, rest⟩ := Reading.append_inj_of_runs (digits m) hx (digits n) hy h
  have value := congrArg (Nat.ofDigitChars 10 · 0) same
  simp only [Nat.ofDigitChars_ten_toDigits] at value
  exact ⟨value, rest⟩

/-- A word is told by its letters, up to a character that is none. -/
theorem word_append_inj {s t : String} {c : Char} {x y : List Char}
    (hs : ∀ d ∈ s.toList, Text.isAlphabetic d = true)
    (ht : ∀ d ∈ t.toList, Text.isAlphabetic d = true) (hc : Text.isAlphabetic c = false)
    (h : s.toList ++ c :: x = t.toList ++ c :: y) : s = t ∧ x = y := by
  obtain ⟨same, rest⟩ := Reading.append_inj_of_runs hs (by simpa using hc) ht (by simpa using hc) h
  exact ⟨String.toList_inj.mp same, (List.cons.inj rest).2⟩

/-- **A track is told by its form on one line**, but for its keys. -/
theorem display_append_inj {a b : Track} {x y : List Char} (ha : a.All Named) (hb : b.All Named)
    (h : a.display.toList ++ x = b.display.toList ++ y) : a.unkeyed = b.unkeyed ∧ x = y := by
  induction a using Track.induction generalizing b x y with
  | h a ih =>
    obtain ⟨ownA, insideA⟩ := all_iff.mp ha
    obtain ⟨ownB, insideB⟩ := all_iff.mp hb
    have told : ∀ child ∈ a.children, child.IsTold := fun child hc _ _ _ =>
      ih child hc (insideA child hc)
    rw [toList_display_append, toList_display_append] at h
    obtain ⟨kind, rest⟩ := kindName_append_inj h
    cases kind with
    | sequence items items' =>
      obtain ⟨same, ends⟩ := separated_append_inj items items' told insideB (List.cons.inj rest).2
      exact ⟨by rw [unkeyed, unkeyed, same], ends⟩
    | choice index index' options options' =>
      obtain ⟨rfl, list⟩ := repr_append_inj (by simp) (by simp) (List.cons.inj rest).2
      simp only [List.cons.injEq, true_and] at list
      obtain ⟨same, ends⟩ := separated_append_inj options options' told insideB list
      exact ⟨by rw [unkeyed, unkeyed, same], ends⟩
    | optional item item' | zeroOrMore item item' =>
      obtain ⟨same, ends⟩ := told item (List.mem_singleton_self _)
        (insideB item' (List.mem_singleton_self _)) (List.cons.inj rest).2
      exact ⟨by rw [unkeyed, unkeyed, same], (List.cons.inj ends).2⟩
    | oneOrMore item item' back back' =>
      obtain ⟨same, way⟩ := told item List.mem_cons_self (insideB item' List.mem_cons_self)
        (List.cons.inj rest).2
      -- A bracket ends the form here, and a semicolon leads to the way back.
      cases back with
      | none =>
        cases back' with
        | none => exact ⟨by rw [unkeyed, unkeyed, same], (List.cons.inj way).2⟩
        | some back' => simp at way
      | some back =>
        cases back' with
        | none => simp at way
        | some back' =>
          simp only [List.cons.injEq, true_and] at way
          obtain ⟨same', ends⟩ := told back (by simp [children])
            (insideB back' (by simp [children])) way
          exact ⟨by rw [unkeyed, unkeyed, same, same'], (List.cons.inj ends).2⟩
    | terminal text text' path path' =>
      obtain ⟨rfl, ends⟩ := Text.quoted_append_inj (List.cons.inj rest).2
      exact ⟨rfl, (List.cons.inj ends).2⟩
    | nonTerminal text text' path path' =>
      obtain ⟨rfl, ends⟩ := word_append_inj ownA ownB (by decide +kernel) (List.cons.inj rest).2
      exact ⟨rfl, ends⟩
    | group label label' path path' item item' =>
      obtain ⟨rfl, inside⟩ := word_append_inj ownA ownB (by decide +kernel) (List.cons.inj rest).2
      obtain ⟨same, ends⟩ := told item (List.mem_singleton_self _)
        (insideB item' (List.mem_singleton_self _)) (List.cons.inj inside).2
      exact ⟨by rw [unkeyed, unkeyed, same], (List.cons.inj ends).2⟩
    | skip => exact ⟨rfl, rest⟩

/-- Keys are not shown. -/
theorem display_unkeyed (track : Track) : track.unkeyed.display = track.display := by
  induction track using Track.induction with
  | h track ih =>
    have all : ∀ items : List Track, (∀ item ∈ items, item.unkeyed.display = item.display) →
        displays (unkeyedAll items) = displays items := by
      intro items each
      rw [unkeyedAll_eq_map, displays_eq_map, displays_eq_map, List.map_map]
      exact List.map_congr_left each
    cases track with
    | sequence items => rw [unkeyed, display, display, all items ih]
    | choice index options => rw [unkeyed, display, display, all options ih]
    | optional item | zeroOrMore item =>
      rw [unkeyed, display, display, ih item (List.mem_singleton_self _)]
    | oneOrMore item back =>
      have first := ih item List.mem_cons_self
      cases back with
      | none => rw [unkeyed, display, display, first]
      | some back => rw [unkeyed, display, display, first, ih back (by simp [children])]
    | group label path item => rw [unkeyed, display, display, ih item (List.mem_singleton_self _)]
    | terminal text path | nonTerminal text path | skip => rfl

/-- **Tracks have one form exactly if they are equal without their keys.** -/
theorem display_eq_iff {a b : Track} (ha : a.All Named) (hb : b.All Named) :
    a.display = b.display ↔ a.unkeyed = b.unkeyed := by
  constructor
  · intro same
    have chars := congrArg (fun form => form.toList ++ []) same
    exact (display_append_inj ha hb chars).1
  · intro same
    rw [← display_unkeyed a, ← display_unkeyed b, same]

end Track

/-! ### Diagrams -/

namespace Grammar

variable {g : Grammar} {selected : PathKey → Bool} {start : Option String}

/-- A chain leads to references by words only. -/
theorem isAlphabetic_of_chain (legible : ∀ node, g.HasNode node → node.Legible) {p : Production}
    (hp : p ∈ g.productions) {ids : List NodeId} {name : String}
    (chain : g.Chain selected p ids (.reference name)) :
    ∀ c ∈ name.toList, Text.isAlphabetic c = true := by
  rcases Relation.ReflTransGen.cases_tail chain with same | ⟨before, front, step⟩
  · cases same
  · cases step with
    | @reference ids id identifier manner capital =>
      have belongs := (Place.Belongs.start hp).of_chain front
      have readable := (legible _ (belongs.node _ rfl)).readable
      exact (readable (.identifier identifier.text) (List.mem_singleton_self _)).2

/-- **The names on a diagram are words.** -/
theorem named_diagram {text : String} (read : ofString? text = .ok g) {expanded : List PathKey}
    {d : Diagram} (drawn : (g.diagram start expanded).result = .ok d) : d.root.All Track.Named := by
  rw [diagram_eq] at drawn
  obtain ⟨p, started, marks⟩ := mem_marks_draw_iff drawn
  have legible := HasNode.legible_of_ofString? read
  intro node hnode
  have word : ∀ path name what, node.mark? = some (path, what) →
      (what = .closed name ∨ what = .opened name) →
      ∀ c ∈ name.toList, Text.isAlphabetic c = true := by
    intro path name what marked reference
    obtain ⟨place, chain, shown⟩ := (marks _).mp (List.mem_filterMap.mpr ⟨node, hnode, marked⟩)
    have leads : place = .reference name := by
      rcases reference with rfl | rfl <;> cases place with
        | reference name' => rw [show name = name' from shown.1]
        | _ => cases shown
    exact isAlphabetic_of_chain legible (mem_of_startProduction started) (leads ▸ chain)
  cases node with
  | nonTerminal name path => exact word path name _ rfl (.inl rfl)
  | group name path item => exact word path name _ rfl (.inr rfl)
  | _ => trivial

end Grammar

end Railroad
