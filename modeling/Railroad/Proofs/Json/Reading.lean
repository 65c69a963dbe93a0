import Railroad.Proofs.Json.Spelling
import Railroad.Proofs.Yield

/-!
A value that is written is read back.

* `Json.tokens`: the tokens of a value. `Json.Reader.run_tokens`: they are put together to the
  value.
* `Json.CutsInto`: a text is cut into tokens, whatever follows, as long as no number goes on.
  `Json.IsSpelled.cutsInto_compact`, `Json.IsSpelled.cutsInto_prettyAt`: both ways to write a value
  are cut into its tokens.
* `Json.parse?_compact`, `Json.parse?_pretty`: so the value is read back.
-/

namespace Railroad.Json

/-! ### Values -/

theorem sizeOf_lt_of_mem_fields {fields : List (List Char × Json)} {field : List Char × Json}
    (h : field ∈ fields) : sizeOf field.2 < sizeOf fields := by
  have smaller := List.sizeOf_lt_of_mem h
  obtain ⟨name, value⟩ := field
  simp only [Prod.mk.sizeOf_spec] at smaller ⊢
  omega

/-- **Induction on values.** -/
theorem induction {P : Json → Prop} (null : P .null) (bool : ∀ b, P (.bool b))
    (number : ∀ spelling, P (.number spelling)) (string : ∀ spelling, P (.string spelling))
    (array : ∀ items, (∀ item ∈ items, P item) → P (.array items))
    (object : ∀ fields, (∀ field ∈ fields, P field.2) → P (.object fields)) (v : Json) : P v := by
  cases v with
  | null => exact null
  | bool b => exact bool b
  | number spelling => exact number spelling
  | string spelling => exact string spelling
  | array items =>
    refine array items fun item hitem => ?_
    have smaller := List.sizeOf_lt_of_mem hitem
    exact induction null bool number string array object item
  | object fields =>
    refine object fields fun field hfield => ?_
    have smaller := sizeOf_lt_of_mem_fields hfield
    exact induction null bool number string array object field.2
termination_by sizeOf v

mutual

/-- The tokens of a value. -/
def tokens : Json → List Token
  | .null => [.null]
  | .bool b => [.bool b]
  | .number spelling => [.number spelling]
  | .string spelling => [.string spelling]
  | .array items => .arrayStart :: ([.comma].intercalate (tokensOfItems items) ++ [.arrayEnd])
  | .object fields =>
    .objectStart :: ([.comma].intercalate (tokensOfFields fields) ++ [.objectEnd])

def tokensOfItems : List Json → List (List Token)
  | [] => []
  | item :: rest => item.tokens :: tokensOfItems rest

def tokensOfFields : List (List Char × Json) → List (List Token)
  | [] => []
  | (name, value) :: rest => (.string name :: .colon :: value.tokens) :: tokensOfFields rest

end

/-- The tokens of a field. -/
def fieldTokens (field : List Char × Json) : List Token :=
  .string field.1 :: .colon :: field.2.tokens

theorem fieldTokens_append (field : List Char × Json) (rest : List Token) :
    fieldTokens field ++ rest = .string field.1 :: .colon :: (field.2.tokens ++ rest) := rfl

theorem tokensOfItems_eq_map (items : List Json) : tokensOfItems items = items.map tokens := by
  induction items with
  | nil => rfl
  | cons item rest ih => rw [tokensOfItems, ih, List.map_cons]

theorem tokensOfFields_eq_map (fields : List (List Char × Json)) :
    tokensOfFields fields = fields.map fieldTokens := by
  induction fields with
  | nil => rfl
  | cons field rest ih => rw [tokensOfFields, ih, List.map_cons, fieldTokens]

/-! ### From tokens to the value -/

namespace Reader

theorem run_cons (r : Reader) (token : Token) (rest : List Token) :
    r.run (token :: rest) = (r.step token).bind (run · rest) := by
  cases r <;> rfl

/-- A value is put together from its tokens, wherever it stands. -/
def Reads (v : Json) : Prop :=
  ∀ outer rest, run (.value outer) (v.tokens ++ rest) = run (complete v outer) rest

/-- No value begins with the end of an array. -/
theorem run_itemOrEnd (v : Json) (outer : List Container) (rest : List Token) :
    run (.itemOrEnd outer) (v.tokens ++ rest) =
      run (.value (.array [] :: outer)) (v.tokens ++ rest) := by
  cases v <;> rfl

theorem run_afterItem {items : List Json} (each : ∀ item ∈ items, Reads item) (done : List Json)
    (outer : List Container) (rest : List Token) :
    run (.afterItem done outer) (items.flatMap (fun v => .comma :: v.tokens) ++ .arrayEnd :: rest) =
      run (complete (.array (done.reverse ++ items)) outer) rest := by
  induction items generalizing done with
  | nil =>
    rw [List.flatMap_nil, List.nil_append, List.append_nil, run_cons]
    rfl
  | cons item items ih =>
    obtain ⟨first, others⟩ := List.forall_mem_cons.mp each
    have next := ih others (item :: done)
    rw [List.reverse_cons, List.append_assoc, List.singleton_append] at next
    rw [List.flatMap_cons, List.cons_append, List.cons_append, List.append_assoc, run_cons]
    exact (first _ _).trans next

theorem run_afterField {fields : List (List Char × Json)}
    (each : ∀ field ∈ fields, Reads field.2) (done : List (List Char × Json))
    (outer : List Container) (rest : List Token) :
    run (.afterField done outer)
        (fields.flatMap (fun f => .comma :: fieldTokens f) ++ .objectEnd :: rest) =
      run (complete (.object (done.reverse ++ fields)) outer) rest := by
  induction fields generalizing done with
  | nil =>
    rw [List.flatMap_nil, List.nil_append, List.append_nil, run_cons]
    rfl
  | cons field fields ih =>
    obtain ⟨first, others⟩ := List.forall_mem_cons.mp each
    have next := ih others (field :: done)
    rw [List.reverse_cons, List.append_assoc, List.singleton_append] at next
    rw [List.flatMap_cons, List.cons_append, List.cons_append, List.append_assoc,
      fieldTokens_append, run_cons]
    exact (first _ _).trans next

theorem reads_array {items : List Json} (each : ∀ item ∈ items, Reads item) :
    Reads (.array items) := by
  intro outer rest
  cases items with
  | nil => rfl
  | cons first others =>
    obtain ⟨hfirst, hothers⟩ := List.forall_mem_cons.mp each
    rw [tokens, tokensOfItems_eq_map, List.map_cons, intercalate_cons_eq, List.flatMap_map,
      List.cons_append, run_cons, List.append_assoc, List.append_assoc]
    show run (.itemOrEnd outer) _ = _
    rw [run_itemOrEnd, hfirst]
    exact run_afterItem hothers [first] outer rest

theorem reads_object {fields : List (List Char × Json)} (each : ∀ field ∈ fields, Reads field.2) :
    Reads (.object fields) := by
  intro outer rest
  cases fields with
  | nil => rfl
  | cons first others =>
    obtain ⟨hfirst, hothers⟩ := List.forall_mem_cons.mp each
    rw [tokens, tokensOfFields_eq_map, List.map_cons, intercalate_cons_eq, List.flatMap_map,
      List.cons_append, run_cons, List.append_assoc, List.append_assoc, fieldTokens_append]
    exact (hfirst _ _).trans (run_afterField hothers [first] outer rest)

/-- **A value is put together from its tokens.** -/
theorem run_tokens (v : Json) : Reads v := by
  induction v using Json.induction with
  | null | bool b | number spelling | string spelling =>
    intro outer rest
    rfl
  | array items ih => exact reads_array ih
  | object fields ih => exact reads_object ih

end Reader

/-! ### From a text to its tokens -/

/-- A blank in front of a text is passed over. -/
theorem listWithin?_blank {c : Char} (blank : isBlank c = true) (fuel : Nat) (cs : List Char) :
    Token.listWithin? fuel (c :: cs) = Token.listWithin? fuel cs := by
  cases fuel with
  | zero => rw [Token.listWithin?, Token.listWithin?, List.all_cons, blank, Bool.true_and]
  | succ fuel => rw [Token.listWithin?, Token.listWithin?, List.dropWhile_cons_of_pos blank]

/-- A token in front of a text. -/
theorem listWithin?_token {c : Char} {cs rest : List Char} {token : Token}
    (solid : isBlank c = false) (next : Token.next? (c :: cs) = some (token, rest)) (fuel : Nat) :
    Token.listWithin? (fuel + 1) (c :: cs) = (Token.listWithin? fuel rest).map (token :: ·) := by
  rw [Token.listWithin?, List.dropWhile_cons_of_neg (by simp [solid])]
  simp only [next, Option.bind_eq_bind, Option.bind_some]
  cases Token.listWithin? fuel rest <;> rfl

theorem EndsNumber.append {front rest : List Char} (h : EndsNumber front) (ends : EndsNumber rest) :
    EndsNumber (front ++ rest) := by
  cases front with
  | nil => exact ends
  | cons c cs => exact h

/-- The text is cut into the tokens, whatever follows, as long as no number goes on. -/
structure CutsInto (text : List Char) (tokens : List Token) : Prop where
  length_le : tokens.length ≤ text.length
  cut : ∀ fuel rest, EndsNumber rest →
    Token.listWithin? (tokens.length + fuel) (text ++ rest) =
      (Token.listWithin? fuel rest).map (tokens ++ ·)

namespace CutsInto

variable {text text' : List Char} {tokens tokens' : List Token}

theorem nil : CutsInto [] [] where
  length_le := Nat.le_refl _
  cut fuel rest _ := by
    rw [List.length_nil, Nat.zero_add, List.nil_append]
    cases Token.listWithin? fuel rest <;> rfl

theorem blanks {gap : List Char} (blank : ∀ c ∈ gap, isBlank c = true) (h : CutsInto text tokens) :
    CutsInto (gap ++ text) tokens := by
  induction gap with
  | nil => exact h
  | cons c cs ih =>
    obtain ⟨first, others⟩ := List.forall_mem_cons.mp blank
    have more := ih others
    refine ⟨Nat.le_succ_of_le more.length_le, fun fuel rest ends => ?_⟩
    rw [List.cons_append, List.cons_append, listWithin?_blank first, more.cut fuel rest ends]

/-- A piece that is read as one token wherever it stands. -/
theorem cons {c : Char} (piece : List Char) {token : Token} (solid : isBlank c = false)
    (reads : ∀ rest, Token.next? (c :: piece ++ rest) = some (token, rest))
    (h : CutsInto text tokens) : CutsInto (c :: piece ++ text) (token :: tokens) where
  length_le := by
    have shorter := h.length_le
    rw [List.length_cons, List.length_append, List.length_cons]
    omega
  cut fuel rest ends := by
    have next := reads (text ++ rest)
    rw [List.cons_append] at next
    rw [List.length_cons, Nat.add_right_comm, List.append_assoc, List.cons_append,
      listWithin?_token solid next, h.cut fuel rest ends, Option.map_map]
    rfl

/-- A piece that is read as one token unless it goes on as a number. -/
theorem single {c : Char} {piece : List Char} {token : Token} (solid : isBlank c = false)
    (reads : ∀ rest, EndsNumber rest → Token.next? (c :: piece ++ rest) = some (token, rest)) :
    CutsInto (c :: piece) [token] where
  length_le := by simp
  cut fuel rest ends := by
    have next := reads rest ends
    rw [List.cons_append] at next
    rw [List.length_singleton, Nat.add_comm, List.cons_append, listWithin?_token solid next]
    rfl

theorem append (h : CutsInto text tokens) (h' : CutsInto text' tokens')
    (ends : EndsNumber text') : CutsInto (text ++ text') (tokens ++ tokens') where
  length_le := by
    have first := h.length_le
    have second := h'.length_le
    rw [List.length_append, List.length_append]
    omega
  cut fuel rest endsRest := by
    rw [List.length_append, Nat.add_assoc, List.append_assoc, h.cut _ _ (ends.append endsRest),
      h'.cut fuel rest endsRest, Option.map_map]
    congr 1
    funext more
    exact (List.append_assoc ..).symm

/-- Texts with commas between them. -/
theorem intercalate {α : Type} {items : List α} {text : α → List Char} {tokens : α → List Token}
    (each : ∀ item ∈ items, CutsInto (text item) (tokens item)) :
    CutsInto ([','].intercalate (items.map text)) ([.comma].intercalate (items.map tokens)) := by
  induction items with
  | nil => exact nil
  | cons first rest ih =>
    obtain ⟨here, others⟩ := List.forall_mem_cons.mp each
    cases rest with
    | nil => simpa using here
    | cons second rest =>
      rw [List.map_cons, List.map_cons, List.map_cons, List.map_cons, List.intercalate_cons_cons,
        List.intercalate_cons_cons, List.append_assoc, List.append_assoc]
      have more := cons (c := ',') [] (by decide) (fun _ => rfl) (ih others)
      exact here.append more (by simp [EndsNumber])

/-- What stands between brackets, perhaps with blanks in front of the closing one. -/
theorem enclosed {opener closer : Char} {first last : Token} {gap : List Char}
    (solid : isBlank opener = false ∧ isBlank closer = false)
    (opens : ∀ rest, Token.next? (opener :: rest) = some (first, rest))
    (closes : ∀ rest, Token.next? (closer :: rest) = some (last, rest))
    (blank : ∀ c ∈ gap, isBlank c = true) (ends : EndsNumber (gap ++ [closer]))
    (h : CutsInto text tokens) :
    CutsInto (opener :: (text ++ (gap ++ [closer]))) (first :: (tokens ++ [last])) := by
  have close : CutsInto [closer] [last] := cons [] solid.2 closes nil
  exact cons [] solid.1 opens (h.append (blanks blank close) ends)

/-- A text that is cut into tokens by itself. -/
theorem listOf?_eq (h : CutsInto text tokens) : Token.listOf? text = some tokens := by
  have whole := h.cut (text.length - tokens.length) [] (by simp [EndsNumber])
  have empty : ∀ fuel, Token.listWithin? fuel [] = some [] := by
    intro fuel
    cases fuel <;> rfl
  rw [Nat.add_sub_of_le h.length_le, List.append_nil, empty] at whole
  simpa [Token.listOf?] using whole

end CutsInto

/-! ### Values that are spelled well -/

/-- The spelling of a string, read up to the closing quotation mark. -/
def SpellsString (spelling : List Char) : Prop :=
  ∀ rest, spelling? (spelling ++ '"' :: rest) = some (spelling, rest)

/-- The spelling of a number, read up to what it does not go on with. -/
def SpellsNumber (spelling : List Char) : Prop :=
  ∃ c cs, spelling = c :: cs ∧ isBlank c = false ∧
    ∀ rest, EndsNumber rest → Token.next? (spelling ++ rest) = some (.number spelling, rest)

/-- Every string and every number is spelled as the format has it. -/
inductive IsSpelled : Json → Prop where
  | null : IsSpelled .null
  | bool (b : Bool) : IsSpelled (.bool b)
  | number {spelling : List Char} : SpellsNumber spelling → IsSpelled (.number spelling)
  | string {spelling : List Char} : SpellsString spelling → IsSpelled (.string spelling)
  | array {items : List Json} : (∀ item ∈ items, IsSpelled item) → IsSpelled (.array items)
  | object {fields : List (List Char × Json)} : (∀ field ∈ fields, SpellsString field.1) →
      (∀ field ∈ fields, IsSpelled field.2) → IsSpelled (.object fields)

theorem isSpelled_ofString (s : String) : (ofString s).IsSpelled :=
  .string (spelling?_escape s)

theorem isSpelled_ofNat (n : Nat) : (ofNat n).IsSpelled := by
  obtain ⟨c, cs, same⟩ := List.exists_cons_of_ne_nil (Nat.toDigits_ne_nil (n := n) (b := 10))
  have digit : c.isDigit = true := isDigit_of_mem_toDigits (n := n) (by simp [same])
  refine .number ⟨c, cs, same, ?_, fun rest => next?_toDigits n⟩
  by_cases blank : isBlank c = true
  · simp only [isBlank, Bool.or_eq_true, decide_eq_true_eq] at blank
    rcases blank with ((rfl | rfl) | rfl) | rfl <;> cases digit
  · simpa using blank

theorem isSpelled_ofFields {fields : List (String × Json)}
    (h : ∀ field ∈ fields, field.2.IsSpelled) : (ofFields fields).IsSpelled := by
  refine .object ?_ ?_
  · intro field hfield
    obtain ⟨⟨name, value⟩, -, rfl⟩ := List.mem_map.mp hfield
    exact spelling?_escape name
  · intro field hfield
    obtain ⟨⟨name, value⟩, member, rfl⟩ := List.mem_map.mp hfield
    exact h _ member

/-- A spelling between quotation marks is one token. -/
theorem SpellsString.next? {spelling : List Char} (h : SpellsString spelling) (rest : List Char) :
    Token.next? ('"' :: (spelling ++ ['"']) ++ rest) = some (.string spelling, rest) := by
  have read := h rest
  rw [List.cons_append, List.append_assoc, List.singleton_append, Token.next?, read]
  rfl

theorem SpellsString.cutsInto {spelling : List Char} (h : SpellsString spelling) :
    CutsInto (quoted spelling).toList [.string spelling] := by
  rw [quoted, String.toList_ofList]
  exact .single (by decide) fun rest _ => h.next? rest

/-! ### Both ways to write a value -/

theorem compactItems_eq_map (items : List Json) : compactItems items = items.map compact := by
  induction items with
  | nil => rfl
  | cons item rest ih => rw [compactItems, ih, List.map_cons]

theorem compactFields_eq_map (fields : List (List Char × Json)) :
    compactFields fields = fields.map fun f => quoted f.1 ++ ":" ++ f.2.compact := by
  induction fields with
  | nil => rfl
  | cons field rest ih => rw [compactFields, ih, List.map_cons]

theorem prettyItems_eq_map (depth : Nat) (items : List Json) :
    prettyItems depth items = items.map (prettyAt depth) := by
  induction items with
  | nil => rfl
  | cons item rest ih => rw [prettyItems, ih, List.map_cons]

theorem prettyFields_eq_map (depth : Nat) (fields : List (List Char × Json)) :
    prettyFields depth fields = fields.map fun f => quoted f.1 ++ ": " ++ f.2.prettyAt depth := by
  induction fields with
  | nil => rfl
  | cons field rest ih => rw [prettyFields, ih, List.map_cons]

/-- The brackets of arrays and of objects. -/
inductive Brackets : Char → Char → Token → Token → Prop where
  | array : Brackets '[' ']' .arrayStart .arrayEnd
  | object : Brackets '\x7b' '\x7d' .objectStart .objectEnd

section Brackets

variable {opener closer : Char} {first last : Token}

theorem Brackets.cutsInto (h : Brackets opener closer first last) (gap : List Char)
    {text : List Char} {tokens : List Token} (blank : ∀ c ∈ gap, isBlank c = true)
    (ends : EndsNumber (gap ++ [closer])) (inner : CutsInto text tokens) :
    CutsInto (opener :: (text ++ (gap ++ [closer]))) (first :: (tokens ++ [last])) := by
  cases h with
  | array => exact .enclosed (by decide) (fun _ => rfl) (fun _ => rfl) blank ends inner
  | object => exact .enclosed (by decide) (fun _ => rfl) (fun _ => rfl) blank ends inner

theorem Brackets.endsNumber (h : Brackets opener closer first last) : EndsNumber [closer] := by
  cases h <;> simp [EndsNumber]

variable {α : Type} {items : List α} {text : α → String} {tokens : α → List Token}

/-- Parts that are written one behind the other. -/
theorem Brackets.cutsInto_compact (h : Brackets opener closer first last)
    (each : ∀ item ∈ items, CutsInto (text item).toList (tokens item)) :
    CutsInto (String.singleton opener ++ ",".intercalate (items.map text) ++
        String.singleton closer).toList
      (first :: ([.comma].intercalate (items.map tokens) ++ [last])) := by
  have inner := h.cutsInto [] (by simp) h.endsNumber (CutsInto.intercalate each)
  simpa [String.toList_intercalate, Function.comp_def] using inner

theorem isBlank_of_mem_newLine {depth : Nat} : ∀ c ∈ (newLine depth).toList, isBlank c = true := by
  intro c hc
  rw [newLine, String.toList_ofList] at hc
  rcases List.mem_cons.mp hc with rfl | hc
  · decide
  · rw [List.eq_of_mem_replicate hc]
    decide

/-- Parts that are written on a line each. -/
theorem Brackets.cutsInto_block (h : Brackets opener closer first last) (depth : Nat)
    (each : ∀ item ∈ items, CutsInto (text item).toList (tokens item)) :
    CutsInto (block depth (String.singleton opener) (String.singleton closer)
      (items.map text)).toList (first :: ([.comma].intercalate (items.map tokens) ++ [last])) := by
  cases items with
  | nil =>
    have inner := h.cutsInto [] (by simp) h.endsNumber CutsInto.nil
    simpa [block] using inner
  | cons item rest =>
    have ends : EndsNumber ((newLine depth).toList ++ [closer]) := by
      simp [EndsNumber, newLine]
    have lines : ∀ item' ∈ item :: rest,
        CutsInto ((newLine (depth + 1)).toList ++ (text item').toList) (tokens item') :=
      fun item' hitem => .blanks isBlank_of_mem_newLine (each item' hitem)
    have inner := h.cutsInto _ isBlank_of_mem_newLine ends (CutsInto.intercalate lines)
    have comma : ",".toList = [','] := rfl
    simpa only [block, List.map_cons, List.isEmpty_cons, Bool.false_eq_true, if_false,
      String.toList_append, String.toList_intercalate, String.toList_singleton, List.map_map,
      Function.comp_def, List.append_assoc, List.cons_append, List.nil_append, comma] using inner

end Brackets

/-- A name and a value, perhaps with a space between them. -/
theorem cutsInto_field {name : List Char} {value : Json} (h : SpellsString name) (gap : List Char)
    (blank : ∀ c ∈ gap, isBlank c = true) {text : List Char}
    (inner : CutsInto text value.tokens) :
    CutsInto ((quoted name).toList ++ (':' :: gap ++ text)) (fieldTokens (name, value)) := by
  have colon : CutsInto (':' :: gap ++ text) (.colon :: value.tokens) :=
    .cons [] (by decide) (fun _ => rfl) (.blanks blank inner)
  rw [quoted, String.toList_ofList]
  exact .cons _ (by decide) h.next? colon

/-- A value without blanks is cut into its tokens. -/
theorem IsSpelled.cutsInto_compact {v : Json} (h : v.IsSpelled) :
    CutsInto v.compact.toList v.tokens := by
  induction h with
  | null => exact .single (by decide) fun _ _ => rfl
  | bool b => cases b <;> exact .single (by decide) fun _ _ => rfl
  | number spelled =>
    obtain ⟨c, cs, rfl, solid, reads⟩ := spelled
    rw [compact, String.toList_ofList]
    exact .single solid reads
  | string spelled => exact spelled.cutsInto
  | array _ ih =>
    rw [compact, compactItems_eq_map, tokens, tokensOfItems_eq_map]
    exact Brackets.array.cutsInto_compact ih
  | object names _ ih =>
    rw [compact, compactFields_eq_map, tokens, tokensOfFields_eq_map]
    refine Brackets.object.cutsInto_compact fun field hfield => ?_
    have inner := cutsInto_field (names field hfield) [] (by simp) (ih field hfield)
    simpa using inner

/-- A value with a line for each part is cut into its tokens. -/
theorem IsSpelled.cutsInto_prettyAt {v : Json} (h : v.IsSpelled) (depth : Nat) :
    CutsInto (v.prettyAt depth).toList v.tokens := by
  induction h generalizing depth with
  | null => exact IsSpelled.null.cutsInto_compact
  | bool b => exact (IsSpelled.bool b).cutsInto_compact
  | number spelled => exact (IsSpelled.number spelled).cutsInto_compact
  | string spelled => exact (IsSpelled.string spelled).cutsInto_compact
  | array _ ih =>
    rw [prettyAt, prettyItems_eq_map, tokens, tokensOfItems_eq_map]
    exact Brackets.array.cutsInto_block depth fun item hitem => ih item hitem (depth + 1)
  | object names _ ih =>
    rw [prettyAt, prettyFields_eq_map, tokens, tokensOfFields_eq_map]
    refine Brackets.object.cutsInto_block depth fun field hfield => ?_
    have inner := cutsInto_field (names field hfield) [' '] (by simp [isBlank])
      (ih field hfield (depth + 1))
    simpa using inner

theorem parse?_of_cutsInto {text : String} {v : Json} (h : CutsInto text.toList v.tokens) :
    parse? text = some v := by
  have read := Reader.run_tokens v [] []
  rw [List.append_nil] at read
  rw [parse?, h.listOf?_eq, Option.bind_some, read]
  rfl

/-- **A value that is written without blanks is read back.** -/
theorem parse?_compact {v : Json} (h : v.IsSpelled) : parse? v.compact = some v :=
  parse?_of_cutsInto h.cutsInto_compact

/-- **A value that is written with a line for each part is read back.** -/
theorem parse?_pretty {v : Json} (h : v.IsSpelled) : parse? v.pretty = some v :=
  parse?_of_cutsInto (h.cutsInto_prettyAt 0)

end Railroad.Json
