import Railroad.Proofs.Codec

/-!
What is read as a diagram, whatever its text looks like.

* `Track.nesting_toJson_eq`: how deep a written track is nested, from the tracks right inside it.
* `Track.IsReadFrom`: what one step of reading says of a track. `Track.isReadFrom_of_ofJson?` derives
  it from every way to give the fields.
* `Track.sound_of_ofJson?`: so a track that is read can be written, and is written no deeper than
  what it was read from.
* `Diagram.decode?_written`: a diagram that was read from any text is read again from its own two
  texts.
-/

namespace Railroad

/-! ### Values -/

namespace Json

theorem nestingItems_le_iff {items : List Json} {n : Nat} :
    nestingItems items ≤ n ↔ ∀ item ∈ items, item.nesting ≤ n := by
  induction items with
  | nil => simp [nestingItems]
  | cons item rest ih => rw [nestingItems, Nat.max_le, List.forall_mem_cons, ih]

/-- A field is nested less deep than the object that it stands in. -/
theorem nesting_lt_object {fields : List (List Char × Json)} {field : List Char × Json}
    (h : field ∈ fields) : field.2.nesting < (object fields).nesting := by
  rw [nesting, nestingFields_eq]
  exact Nat.lt_succ_of_le (nesting_le_of_mem_items (List.mem_map_of_mem h))

theorem nesting_lt_array {items : List Json} {item : Json} (h : item ∈ items) :
    item.nesting < (array items).nesting :=
  Nat.lt_succ_of_le (nesting_le_of_mem_items h)

end Json

/-! ### Fields -/

namespace Fields

variable {fields : Fields} {name : String} {value : Json}

theorem mem_of_mem_values (h : value ∈ fields.values name) : (name, value) ∈ fields := by
  obtain ⟨⟨name', value'⟩, kept, rfl⟩ := List.mem_map.mp h
  obtain ⟨member, same⟩ := List.mem_filter.mp kept
  obtain rfl := of_decide_eq_true same
  exact member

theorem mem_of_required? (h : fields.required? name = some value) : (name, value) ∈ fields := by
  apply mem_of_mem_values
  rw [required?] at h
  split at h
  · rename_i only single
    obtain rfl := Option.some.inj h
    exact single ▸ List.mem_singleton_self _
  · cases h

theorem mem_of_nullable? (h : fields.nullable? name = some (some value)) :
    (name, value) ∈ fields := by
  apply mem_of_mem_values
  rw [nullable?] at h
  split at h
  · cases h
  · cases h
  · rename_i only _ single
    obtain rfl := Option.some.inj (Option.some.inj h)
    exact single ▸ List.mem_singleton_self _
  · cases h

/-- All fields are nested less deep than the value that they are fields of. -/
def Inside (fields : Fields) (v : Json) : Prop :=
  ∀ field ∈ fields, field.2.nesting < v.nesting

theorem inside_of_ofObject? {raw : List (List Char × Json)} (h : ofObject? raw = some fields) :
    fields.Inside (.object raw) := by
  intro field hfield
  obtain ⟨⟨spelling, value⟩, member, read⟩ := exists_of_mem_mapM h hfield
  obtain ⟨name, -, rfl⟩ := Option.map_eq_some_iff.mp read
  exact Json.nesting_lt_object member

/-- Fields that are given in order, without their names. -/
theorem inside_zip (names : List String) (first : Json) (rest : List Json) :
    Inside (names.zip rest) (.array (first :: rest)) := by
  intro field hfield
  exact Json.nesting_lt_array (List.mem_cons_of_mem _ (List.of_mem_zip hfield).2)

end Fields

theorem PathKey.isWritable_of_ofJson? {value : Json} {key : PathKey}
    (h : ofJson? value = some key) : key.IsWritable := by
  obtain ⟨s, -, read⟩ := Option.bind_eq_some_iff.mp h
  cases result : ofString? s with
  | error e =>
    rw [result] at read
    cases read
  | ok found =>
    rw [result] at read
    obtain rfl := Option.some.inj read
    exact (ofString?_eq_ok_iff.mp result).1

namespace Track

/-! ### How deep a track is written -/

/-- How many arrays and objects are written around the tracks right inside the track. -/
def layers : Track → Nat
  | .sequence _ | .choice _ _ => 2
  | _ => 1

theorem nesting_toJson_eq (t : Track) :
    t.toJson.nesting = Json.nestingItems (t.children.map toJson) + t.layers := by
  rw [toJson_eq, toJson.tagged, Json.ofFields]
  cases t with
  | oneOrMore item back =>
    cases back <;>
      simp [fields, children, layers, Json.ofString, Json.nesting, Json.nestingFields,
        Json.nestingItems]
  | _ =>
    simp [fields, children, layers, Json.ofString, Json.ofNat, Json.nesting, Json.nestingFields,
      Json.nestingItems]

/-! ### What is read as a track -/

theorem inside_of_header? {numbered : Bool} {v : Json} {kind : TrackKind} {fields : Fields}
    (h : header? numbered v = some (kind, fields)) : 0 < v.nesting ∧ fields.Inside v := by
  cases v with
  | object raw =>
    simp only [header?, Option.bind_eq_bind, Option.bind_eq_some_iff, Option.pure_def,
      Option.some.injEq, Prod.mk.injEq] at h
    obtain ⟨found, read, -, -, -, -, -, rfl⟩ := h
    exact ⟨Nat.succ_pos _, Fields.inside_of_ofObject? read⟩
  | array items =>
    cases items with
    | nil => cases h
    | cons first rest =>
      simp only [header?, Option.bind_eq_bind, Option.bind_eq_some_iff, Option.pure_def,
        Option.ite_none_right_eq_some, Option.some.injEq, Prod.mk.injEq] at h
      obtain ⟨-, -, -, -, rfl⟩ := h
      exact ⟨Nat.succ_pos _, Fields.inside_zip _ _ _⟩
  | null | bool b | number spelling | string spelling => cases h

/-- What one step of reading says of a track: its own labels can be written, and every track right
inside it is read from something that is nested less deep than the value by the layers between. -/
structure IsReadFrom (levels : Nat) (v : Json) (t : Track) : Prop where
  labels : t.HasWritableLabels
  layers_le : t.layers ≤ v.nesting
  parts : ∀ child ∈ t.children,
    ∃ part, part.nesting + t.layers ≤ v.nesting ∧ ofJson? true levels part = some child

section OneStep

variable {levels : Nat} {v : Json} {fields : Fields} {name : String}

/-- A track that a field holds is one layer further in. -/
theorem exists_part_of_field (inside : fields.Inside v) {part : Json} {child : Track}
    (held : (name, part) ∈ fields) (read : ofJson? true levels part = some child) :
    ∃ part, part.nesting + 1 ≤ v.nesting ∧ ofJson? true levels part = some child :=
  ⟨part, inside _ held, read⟩

/-- The tracks of a list that a field holds are two layers further in. -/
theorem exists_part_of_list (inside : fields.Inside v) {value : Json} {tracks : List Track}
    (read : (match value with
      | .array items => items.mapM (ofJson? true levels)
      | _ => none) = some tracks)
    (held : fields.required? name = some value) :
    2 ≤ v.nesting ∧ ∀ child ∈ tracks,
      ∃ part, part.nesting + 2 ≤ v.nesting ∧ ofJson? true levels part = some child := by
  cases value with
  | array items =>
    have list := inside _ (Fields.mem_of_required? held)
    rw [Json.nesting] at list
    refine ⟨by omega, fun child hchild => ?_⟩
    obtain ⟨part, member, found⟩ := exists_of_mem_mapM read hchild
    have here := Json.nesting_le_of_mem_items member
    exact ⟨part, by omega, found⟩
  | null | bool b | number spelling | string spelling | object raw => cases read

/-- **One step of reading**, whichever way the fields are given. -/
theorem isReadFrom_of_ofJson? {numbered : Bool} {t : Track}
    (h : ofJson? numbered (levels + 1) v = some t) : t.IsReadFrom levels v := by
  rw [ofJson?] at h
  obtain ⟨⟨kind, fields⟩, header, read⟩ := Option.bind_eq_some_iff.mp h
  obtain ⟨positive, inside⟩ := inside_of_header? header
  cases kind
  all_goals
    simp only [Option.bind_eq_bind, Option.bind_eq_some_iff, Option.pure_def,
      Option.some.injEq] at read
  case sequence =>
    obtain ⟨items, ⟨value, held, list⟩, rfl⟩ := read
    obtain ⟨deep, parts⟩ := exists_part_of_list inside list held
    exact ⟨trivial, deep, parts⟩
  case choice =>
    obtain ⟨-, -, index, -, options, ⟨value, held, list⟩, read⟩ := read
    obtain ⟨fits, same⟩ := Option.ite_none_right_eq_some.mp read
    obtain rfl := Option.some.inj same
    obtain ⟨deep, parts⟩ := exists_part_of_list inside list held
    exact ⟨fits, deep, parts⟩
  case optional | zeroOrMore =>
    obtain ⟨item, ⟨value, held, item?⟩, rfl⟩ := read
    have part := exists_part_of_field inside (Fields.mem_of_required? held) item?
    exact ⟨trivial, positive, List.forall_mem_singleton.mpr part⟩
  case oneOrMore =>
    obtain ⟨item, ⟨value, held, item?⟩, back?, absent, read⟩ := read
    have part := exists_part_of_field inside (Fields.mem_of_required? held) item?
    cases back? with
    | none =>
      obtain rfl := Option.some.inj read
      exact ⟨trivial, positive, List.forall_mem_singleton.mpr part⟩
    | some value' =>
      obtain ⟨back, found, same⟩ := Option.bind_eq_some_iff.mp read
      obtain rfl := Option.some.inj same
      have part' := exists_part_of_field inside (Fields.mem_of_nullable? absent) found
      exact ⟨trivial, positive,
        List.forall_mem_cons.mpr ⟨part, List.forall_mem_singleton.mpr part'⟩⟩
  case terminal | nonTerminal =>
    obtain ⟨-, -, text, -, value, -, path, key, rfl⟩ := read
    exact ⟨PathKey.isWritable_of_ofJson? key, positive, List.forall_mem_nil _⟩
  case group =>
    obtain ⟨-, -, label, -, value, -, path, key, item, ⟨value', held, item?⟩, rfl⟩ := read
    have part := exists_part_of_field inside (Fields.mem_of_required? held) item?
    exact ⟨PathKey.isWritable_of_ofJson? key, positive, List.forall_mem_singleton.mpr part⟩
  case skip =>
    subst read
    exact ⟨trivial, positive, List.forall_mem_nil _⟩

end OneStep

/-- **A track that is read can be written**, no deeper than what it was read from. -/
theorem sound_of_ofJson? {numbered : Bool} {levels : Nat} {v : Json} {t : Track}
    (h : ofJson? numbered levels v = some t) :
    t.IsWritable ∧ t.toJson.nesting ≤ v.nesting := by
  induction levels generalizing numbered v t with
  | zero => cases h
  | succ levels ih =>
    obtain ⟨labels, layers_le, parts⟩ := isReadFrom_of_ofJson? h
    constructor
    · refine all_iff.mpr ⟨labels, fun child hchild => ?_⟩
      obtain ⟨part, -, read⟩ := parts child hchild
      exact (ih read).1
    · have inner : Json.nestingItems (t.children.map toJson) ≤ v.nesting - t.layers := by
        refine Json.nestingItems_le_iff.mpr (List.forall_mem_map.mpr fun child hchild => ?_)
        obtain ⟨part, deep, read⟩ := parts child hchild
        exact Nat.le_sub_of_add_le (Nat.le_trans (Nat.add_le_add_right (ih read).2 _) deep)
      rw [nesting_toJson_eq]
      omega

end Track

/-! ### Diagrams -/

namespace Diagram

theorem exists_fields_of_ofJson? {v : Json} {d : Diagram} (h : ofJson? v = some d) :
    ∃ fields, ofFields? fields = some d := by
  rw [ofJson?.eq_def] at h
  split at h
  · obtain ⟨fields, -, read⟩ := Option.bind_eq_some_iff.mp h
    exact ⟨fields, read⟩
  · exact ⟨_, h⟩
  · cases h

/-- A diagram that is read can be written, and is not nested too deep to be read again. -/
theorem sound_of_decode? {text : String} {d : Diagram} (h : decode? text = some d) :
    d.root.IsWritable ∧ d.toJson.nesting ≤ Json.maxTextNesting := by
  obtain ⟨v, -, read⟩ := Option.bind_eq_some_iff.mp h
  obtain ⟨fields, read⟩ := exists_fields_of_ofJson? read
  simp only [ofFields?, Option.bind_eq_bind, Option.bind_eq_some_iff, Option.pure_def,
    Option.some.injEq] at read
  obtain ⟨-, -, start, -, value, -, root, decoded, rfl⟩ := read
  obtain ⟨strict, read⟩ := Option.ite_none_right_eq_some.mp decoded
  obtain ⟨writable, shallow⟩ := Track.sound_of_ofJson? read
  have limit : 1 + value.nesting ≤ Json.maxTextNesting := by
    rw [Json.isStrict, Bool.and_eq_true, decide_eq_true_eq] at strict
    exact strict.1
  refine ⟨writable, ?_⟩
  rw [nesting_toJson]
  show root.toJson.nesting + 1 ≤ _
  omega

/-- **Reading undoes writing, for all diagrams.** A diagram with keys that can be read and indices that
fit, nested no deeper than a text may be, is read back from both of its texts. Whatever is read from
any text is such a diagram, and so it is read again from its own texts. -/
theorem decode?_written :
    (∀ d : Diagram, d.root.IsWritable → d.toJson.nesting ≤ Json.maxTextNesting →
      decode? d.toJson.compact = some d ∧ decode? d.toJson.pretty = some d) ∧
    ∀ (text : String) (d : Diagram), decode? text = some d →
      (∀ key ∈ d.root.nodes.filterMap Track.path?, PathKey.ofString? key.text = .ok key) ∧
        decode? d.toJson.compact = some d ∧ decode? d.toJson.pretty = some d := by
  have again : ∀ d : Diagram, d.root.IsWritable → d.toJson.nesting ≤ Json.maxTextNesting →
      decode? d.toJson.compact = some d ∧ decode? d.toJson.pretty = some d := by
    intro d writable shallow
    have compact := decode?_compact writable
    have pretty := decode?_pretty writable
    rw [if_pos shallow] at compact pretty
    exact ⟨compact, pretty⟩
  refine ⟨again, fun text d read => ?_⟩
  obtain ⟨writable, shallow⟩ := sound_of_decode? read
  refine ⟨fun key hkey => ?_, again d writable shallow⟩
  obtain ⟨node, hnode, same⟩ := List.mem_filterMap.mp hkey
  have labels := writable node hnode
  cases node <;> cases same <;> exact PathKey.ofString?_text labels

/-- A loop over a station. The fields come in another order than they are written in, the kind behind
the others; some are not known, the way back is null and the station is given as an array. -/
def scrambled : String :=
  "\x7b\"root\": \x7b\"repeat\": null, \"item\": [\"terminal\", \"a\\u0062\", \"0-12\"], " ++
    "\"note\": [1], \"kind\": \"one_or_more\"\x7d, \"start_symbol\": \"A\", \"version\": 2\x7d"

/-- A text that is not written for any diagram is read, and so the diagram that it is read as can be
written and read again. -/
theorem decode?_written_scrambled :
    ∃ d : Diagram, d.root = .oneOrMore (.terminal "ab" ⟨[0, 12]⟩) none ∧
      decode? scrambled = some d ∧ d.toJson.compact ≠ scrambled ∧ d.toJson.pretty ≠ scrambled ∧
      d.root.IsWritable ∧ d.toJson.nesting ≤ Json.maxTextNesting ∧
      (∀ key ∈ d.root.nodes.filterMap Track.path?, PathKey.ofString? key.text = .ok key) ∧
      decode? d.toJson.compact = some d ∧ decode? d.toJson.pretty = some d := by
  obtain ⟨written, readAgain⟩ := decode?_written
  have read : decode? scrambled = some ⟨"A", .oneOrMore (.terminal "ab" ⟨[0, 12]⟩) none⟩ := by
    decide +kernel
  obtain ⟨writable, shallow⟩ := sound_of_decode? read
  exact ⟨_, rfl, read, by decide +kernel, by decide +kernel, writable, shallow,
    (readAgain _ _ read).1, written _ writable shallow⟩

end Diagram

end Railroad
