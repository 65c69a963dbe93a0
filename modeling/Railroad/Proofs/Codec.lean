import Railroad.Diagram.Codec
import Railroad.Proofs.Json.Reading
import Railroad.Proofs.Keys
import Railroad.Proofs.ListReading
import Railroad.Proofs.Tracks

/-!
Diagrams that are written are read back, if they are not nested too deep.

* `Track.kind`, `Track.fields`: what a track is written as. `Track.mem_fields_cases`: what a field
  holds.
* `Track.IsWritable`: all keys of the track can be read, and all its indices fit.
* `Track.ofJson?_toJson`: a track is read back at every number of levels that suffices for it.
* `Diagram.decode?_of_parse?`: a text of a diagram is read back exactly if the diagram is not nested
  deeper than a text may be. `Diagram.decode?_compact` and `Diagram.decode?_pretty` say so of the two
  texts that are written.
-/

namespace Railroad

/-! ### Values -/

namespace Json

theorem areMeaningful_iff {items : List Json} :
    areMeaningful items = true ↔ ∀ item ∈ items, item.isMeaningful = true := by
  induction items with
  | nil => simp [areMeaningful]
  | cons item rest ih => simp [areMeaningful, ih]

theorem fieldsAreMeaningful_iff {fields : List (List Char × Json)} :
    fieldsAreMeaningful fields = true ↔
      ∀ field ∈ fields, (unescape? field.1).isSome = true ∧ field.2.isMeaningful = true := by
  induction fields with
  | nil => simp [fieldsAreMeaningful]
  | cons field rest ih => simp [fieldsAreMeaningful, ih, and_assoc]

theorem isMeaningful_ofString (s : String) : (ofString s).isMeaningful = true := by
  rw [ofString, isMeaningful, unescape?_escape]
  rfl

theorem isMeaningful_ofFields {fields : List (String × Json)}
    (h : ∀ field ∈ fields, field.2.isMeaningful = true) :
    (ofFields fields).isMeaningful = true := by
  rw [ofFields, isMeaningful, fieldsAreMeaningful_iff]
  intro field hfield
  obtain ⟨⟨name, value⟩, member, rfl⟩ := List.mem_map.mp hfield
  refine ⟨?_, h _ member⟩
  rw [unescape?_escape]
  rfl

@[simp] theorem text?_ofString (s : String) : (ofString s).text? = some s := by
  rw [ofString, text?, unescape?_escape, Option.map_some, String.ofList_toList]

@[simp] theorem natural?_ofNat (n : Nat) : (ofNat n).natural? = some n := by
  rw [ofNat, natural?, if_pos (all_isDigit_toDigits n), Nat.ofDigitChars_ten_toDigits]

theorem nesting_le_of_mem_items {items : List Json} {item : Json} (h : item ∈ items) :
    item.nesting ≤ nestingItems items := by
  induction items with
  | nil => cases h
  | cons first rest ih =>
    rw [nestingItems]
    rcases List.mem_cons.mp h with rfl | h
    · exact Nat.le_max_left _ _
    · exact Nat.le_trans (ih h) (Nat.le_max_right _ _)

theorem nestingFields_eq (fields : List (List Char × Json)) :
    nestingFields fields = nestingItems (fields.map (·.2)) := by
  induction fields with
  | nil => rfl
  | cons field rest ih => rw [nestingFields, ih, List.map_cons, nestingItems]

/-- A field is nested less deep than its object. -/
theorem nesting_lt_ofFields {fields : List (String × Json)} {field : String × Json}
    (h : field ∈ fields) : field.2.nesting < (ofFields fields).nesting := by
  have inside : field.2 ∈ fields.map (·.2) := List.mem_map_of_mem h
  rw [ofFields, nesting, nestingFields_eq, List.map_map]
  exact Nat.lt_succ_of_le (nesting_le_of_mem_items inside)

end Json

/-! ### Names of fields and of kinds -/

/-- The names of written fields are read back. -/
theorem Fields.ofObject?_escaped (fields : Fields) :
    ofObject? (fields.map fun (name, value) => (Json.escape name, value)) = some fields := by
  refine mapM_map_eq_some fun (name, value) _ => ?_
  show (Json.unescape? (Json.escape name)).map _ = _
  rw [Json.unescape?_escape, Option.map_some, String.ofList_toList]

theorem TrackKind.ofTag?_tag (kind : TrackKind) : ofTag? kind.tag = some kind := by
  cases kind <;> decide

theorem TrackKind.ofJson?_tag (numbered : Bool) (kind : TrackKind) :
    ofJson? numbered (.ofString kind.tag) = some kind := by
  rw [ofJson?, Json.text?_ofString]
  exact ofTag?_tag kind

theorem PathKey.ofJson?_pathJson {path : PathKey} (h : path.IsWritable) :
    ofJson? (.ofString path.text) = some path := by
  rw [ofJson?, Json.text?_ofString, Option.bind_some, ofString?_text h]
  rfl

namespace Track

/-! ### Written tracks -/

def kind : Track → TrackKind
  | .sequence _ => .sequence
  | .choice _ _ => .choice
  | .optional _ => .optional
  | .zeroOrMore _ => .zeroOrMore
  | .oneOrMore _ _ => .oneOrMore
  | .terminal _ _ => .terminal
  | .nonTerminal _ _ => .nonTerminal
  | .group _ _ _ => .group
  | .skip => .skip

/-- The fields of the object of a track behind the one for its kind. -/
def fields : Track → Fields
  | .sequence items => [("items", .array (items.map toJson))]
  | .choice index options =>
    [("default_index", .ofNat index), ("options", .array (options.map toJson))]
  | .optional item | .zeroOrMore item | .oneOrMore item none => [("item", item.toJson)]
  | .oneOrMore item (some back) => [("item", item.toJson), ("repeat", back.toJson)]
  | .terminal text path | .nonTerminal text path =>
    [("text", .ofString text), ("path", .ofString path.text)]
  | .group label path item =>
    [("label", .ofString label), ("path", .ofString path.text), ("item", item.toJson)]
  | .skip => []

theorem toJsonAll_eq_map (tracks : List Track) : toJsonAll tracks = tracks.map toJson := by
  induction tracks with
  | nil => rfl
  | cons track rest ih => rw [toJsonAll, ih, List.map_cons]

/-- A track is written as its kind and its fields. -/
theorem toJson_eq (t : Track) : t.toJson = toJson.tagged t.kind t.fields := by
  cases t with
  | sequence items | choice index items =>
    rw [toJson, toJsonAll_eq_map]
    rfl
  | oneOrMore item back => cases back <;> rfl
  | _ => rfl

/-- What a field of a track holds: a text, its index, or tracks right inside it. -/
theorem mem_fields_cases {t : Track} {field : String × Json} (h : field ∈ t.fields) :
    (∃ s, field.2 = .ofString s) ∨
      (∃ index options, t = .choice index options ∧ field.2 = .ofNat index) ∨
      field.2 = .array (t.children.map toJson) ∨
      ∃ child ∈ t.children, field.2 = child.toJson := by
  cases t with
  | sequence items =>
    obtain rfl := List.mem_singleton.mp h
    exact .inr (.inr (.inl rfl))
  | choice index options =>
    simp only [fields, List.mem_cons, List.not_mem_nil, or_false] at h
    rcases h with rfl | rfl
    · exact .inr (.inl ⟨index, options, rfl, rfl⟩)
    · exact .inr (.inr (.inl rfl))
  | optional item | zeroOrMore item =>
    obtain rfl := List.mem_singleton.mp h
    exact .inr (.inr (.inr ⟨item, by simp [children], rfl⟩))
  | oneOrMore item back =>
    -- Both tracks of a loop stand for themselves, the way back only if there is one.
    refine .inr (.inr (.inr ?_))
    cases back with
    | none =>
      obtain rfl := List.mem_singleton.mp h
      exact ⟨item, by simp [children], rfl⟩
    | some back =>
      simp only [fields, List.mem_cons, List.not_mem_nil, or_false] at h
      rcases h with rfl | rfl
      · exact ⟨item, by simp [children], rfl⟩
      · exact ⟨back, by simp [children], rfl⟩
  | terminal text path | nonTerminal text path =>
    simp only [fields, List.mem_cons, List.not_mem_nil, or_false] at h
    rcases h with rfl | rfl
    · exact .inl ⟨_, rfl⟩
    · exact .inl ⟨_, rfl⟩
  | group label path item =>
    simp only [fields, List.mem_cons, List.not_mem_nil, or_false] at h
    rcases h with rfl | rfl | rfl
    · exact .inl ⟨_, rfl⟩
    · exact .inl ⟨_, rfl⟩
    · exact .inr (.inr (.inr ⟨item, by simp [children], rfl⟩))
  | skip => cases h

/-- A written track is well spelled. -/
theorem isSpelled_toJson (t : Track) : t.toJson.IsSpelled := by
  induction t using Track.induction with
  | h t ih =>
    rw [toJson_eq]
    refine Json.isSpelled_ofFields fun field hfield => ?_
    rcases List.mem_cons.mp hfield with rfl | hfield
    · exact Json.isSpelled_ofString _
    rcases mem_fields_cases hfield with ⟨s, same⟩ | ⟨index, options, -, same⟩ | same |
      ⟨child, hchild, same⟩
    · rw [same]
      exact Json.isSpelled_ofString s
    · rw [same]
      exact Json.isSpelled_ofNat index
    · rw [same]
      exact .array (List.forall_mem_map.mpr ih)
    · rw [same]
      exact ih child hchild

/-- The key of the track can be read, and its index fits. Nothing is said of the tracks inside. -/
def HasWritableLabels : Track → Prop
  | .choice index _ => index ≤ maxIndex
  | .terminal _ path | .nonTerminal _ path | .group _ path _ => path.IsWritable
  | _ => True

/-- All keys of the track can be read, and all its indices fit. -/
def IsWritable (t : Track) : Prop :=
  t.All HasWritableLabels

/-- A strict reader takes what is written. -/
theorem isMeaningful_toJson {t : Track} (h : t.IsWritable) : t.toJson.isMeaningful = true := by
  induction t using Track.induction with
  | h t ih =>
    obtain ⟨labels, inside⟩ := all_iff.mp h
    rw [toJson_eq]
    refine Json.isMeaningful_ofFields fun field hfield => ?_
    rcases List.mem_cons.mp hfield with rfl | hfield
    · exact Json.isMeaningful_ofString _
    rcases mem_fields_cases hfield with ⟨s, same⟩ | ⟨index, options, rfl, same⟩ | same |
      ⟨child, hchild, same⟩
    · rw [same]
      exact Json.isMeaningful_ofString s
    · rw [same]
      exact Json.isFinite_toDigits labels
    · rw [same, Json.isMeaningful, Json.areMeaningful_iff]
      exact List.forall_mem_map.mpr fun child hchild => ih child hchild (inside child hchild)
    · rw [same]
      exact ih child hchild (inside child hchild)

/-- Each track inside is written in a field. -/
theorem exists_mem_fields {t child : Track} (h : child ∈ t.children) :
    ∃ field ∈ t.fields, child.toJson.nesting ≤ field.2.nesting := by
  have listed : child.toJson.nesting ≤ (Json.array (t.children.map toJson)).nesting :=
    Nat.le_succ_of_le (Json.nesting_le_of_mem_items (List.mem_map_of_mem h))
  cases t with
  | sequence items | choice index items => exact ⟨_, List.mem_of_getLast? rfl, listed⟩
  | optional item | zeroOrMore item | group label path item =>
    obtain rfl := List.mem_singleton.mp h
    exact ⟨_, List.mem_of_getLast? rfl, Nat.le_refl _⟩
  | oneOrMore item back =>
    cases back with
    | none =>
      obtain rfl := List.mem_singleton.mp h
      exact ⟨_, List.mem_of_getLast? rfl, Nat.le_refl _⟩
    | some back =>
      simp only [children, Option.toList_some, List.mem_cons, List.not_mem_nil, or_false] at h
      rcases h with rfl | rfl
      · exact ⟨_, List.mem_cons_self, Nat.le_refl _⟩
      · exact ⟨_, List.mem_of_getLast? rfl, Nat.le_refl _⟩
  | terminal text path | nonTerminal text path | skip => cases h

/-- A track is nested deeper than those inside it. -/
theorem nesting_toJson_lt {t child : Track} (h : child ∈ t.children) :
    child.toJson.nesting < t.toJson.nesting := by
  obtain ⟨field, hfield, deep⟩ := exists_mem_fields h
  rw [toJson_eq t]
  exact Nat.lt_of_le_of_lt deep (Json.nesting_lt_ofFields (List.mem_cons_of_mem _ hfield))

/-! ### Tracks that are read -/

/-- The kind and the fields of a written track. -/
theorem header?_toJson (numbered : Bool) (t : Track) :
    header? numbered t.toJson = some (t.kind, ("kind", .ofString t.kind.tag) :: t.fields) := by
  have other : ∀ field ∈ t.fields, field.1 ≠ "kind" := by
    cases t with
    | oneOrMore item back => cases back <;> simp [fields]
    | _ => simp [fields]
  have named : Fields.required? (("kind", .ofString t.kind.tag) :: t.fields) "kind" =
      some (.ofString t.kind.tag) := by
    have none : t.fields.filter (·.1 = "kind") = [] := by simpa using other
    simp [Fields.required?, Fields.values, none]
  rw [toJson_eq, toJson.tagged, Json.ofFields, header?, Fields.ofObject?_escaped]
  simp [named, TrackKind.ofJson?_tag]

/-- **A written track is read back**, wherever there are levels enough for it. -/
theorem ofJson?_toJson {t : Track} (h : t.IsWritable) (numbered : Bool) {levels : Nat}
    (enough : t.toJson.nesting ≤ levels) : ofJson? numbered levels t.toJson = some t := by
  induction t using Track.induction generalizing numbered levels with
  | h t ih =>
    obtain ⟨labels, inside⟩ := all_iff.mp h
    cases levels with
    | zero =>
      rw [toJson_eq] at enough
      cases enough
    | succ levels =>
      have part : ∀ child ∈ t.children, ofJson? true levels child.toJson = some child := by
        intro child hchild
        have less := nesting_toJson_lt hchild
        exact ih child hchild (inside child hchild) true (by omega)
      have parts : (t.children.map toJson).mapM (ofJson? true levels) = some t.children :=
        mapM_map_eq_some part
      rw [ofJson?, header?_toJson]
      cases t with
      | sequence items =>
        simp only [children] at parts
        simp [fields, kind, Fields.required?, Fields.values, parts]
      | choice index options =>
        simp only [children, HasWritableLabels] at parts labels
        simp [fields, kind, Fields.required?, Fields.values, parts, labels]
      | optional item | zeroOrMore item =>
        have hitem := part item (by simp [children])
        simp [fields, kind, Fields.required?, Fields.values, hitem]
      | oneOrMore item back =>
        have hitem := part item (by simp [children])
        cases back with
        | none => simp [fields, kind, Fields.required?, Fields.nullable?, Fields.values, hitem]
        | some back =>
          -- The way back is not taken for an absent one, as it is written as an object.
          have present : Fields.nullable? [("kind", .ofString TrackKind.oneOrMore.tag),
              ("item", item.toJson), ("repeat", back.toJson)] "repeat" =
              some (some back.toJson) := by
            rw [toJson_eq back]
            simp [Fields.nullable?, Fields.values, toJson.tagged, Json.ofFields]
          have hback := part back (by simp [children])
          simp [fields, kind, Fields.required?, Fields.values, hitem, present, hback]
      | terminal text path | nonTerminal text path =>
        have hpath := PathKey.ofJson?_pathJson labels
        simp [fields, kind, Fields.required?, Fields.values, hpath]
      | group label path item =>
        have hpath := PathKey.ofJson?_pathJson labels
        have hitem := part item (by simp [children])
        simp [fields, kind, Fields.required?, Fields.values, hpath, hitem]
      | skip => rfl

end Track

/-! ### Diagrams -/

namespace Diagram

theorem nesting_toJson (d : Diagram) : d.toJson.nesting = d.root.toJson.nesting + 1 := by
  simp [toJson, Json.ofFields, Json.ofString, Json.nesting, Json.nestingFields]

theorem isSpelled_toJson (d : Diagram) : d.toJson.IsSpelled := by
  refine Json.isSpelled_ofFields fun field hfield => ?_
  simp only [List.mem_cons, List.not_mem_nil, or_false] at hfield
  rcases hfield with rfl | rfl
  · exact Json.isSpelled_ofString d.start
  · exact d.root.isSpelled_toJson

/-- A written diagram is read back exactly if it is not nested too deep. -/
theorem decode?_of_parse? {d : Diagram} (h : d.root.IsWritable) {text : String}
    (parsed : Json.parse? text = some d.toJson) :
    decode? text = if d.toJson.nesting ≤ Json.maxTextNesting then some d else none := by
  have strict : d.root.toJson.isStrict 1 = decide (d.toJson.nesting ≤ Json.maxTextNesting) := by
    rw [Json.isStrict, Track.isMeaningful_toJson h, Bool.and_true, nesting_toJson, Nat.add_comm]
  have root : Track.decodeAt? 1 d.root.toJson =
      if d.toJson.nesting ≤ Json.maxTextNesting then some d.root else none := by
    rw [Track.decodeAt?, strict]
    by_cases deep : d.toJson.nesting ≤ Json.maxTextNesting
    · rw [if_pos deep, if_pos (decide_eq_true deep)]
      rw [nesting_toJson] at deep
      exact Track.ofJson?_toJson h false (by omega)
    · rw [if_neg deep, if_neg (by simpa using deep)]
  have fields : decode? text =
      ofFields? [("start_symbol", .ofString d.start), ("root", d.root.toJson)] := by
    rw [decode?, parsed, Option.bind_some, toJson, Json.ofFields, ofJson?,
      Fields.ofObject?_escaped, Option.bind_some]
  rw [fields, ofFields?]
  by_cases deep : d.toJson.nesting ≤ Json.maxTextNesting
  · simp [Fields.required?, Fields.values, root, deep]
  · simp [Fields.required?, Fields.values, root, deep]

/-- **A diagram without blanks is read back** exactly if it is not nested too deep. -/
theorem decode?_compact {d : Diagram} (h : d.root.IsWritable) :
    decode? d.toJson.compact =
      if d.toJson.nesting ≤ Json.maxTextNesting then some d else none :=
  decode?_of_parse? h (Json.parse?_compact d.isSpelled_toJson)

/-- **A diagram with a line for each part is read back** exactly if it is not nested too deep. -/
theorem decode?_pretty {d : Diagram} (h : d.root.IsWritable) :
    decode? d.toJson.pretty =
      if d.toJson.nesting ≤ Json.maxTextNesting then some d else none :=
  decode?_of_parse? h (Json.parse?_pretty d.isSpelled_toJson)

end Diagram

end Railroad
