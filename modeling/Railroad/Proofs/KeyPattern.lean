import Mathlib.Computability.Language
import Railroad.Diagram.Schema
import Railroad.Proofs.Keys
import Railroad.Proofs.Yield

/-!
Which texts are keys, and what is wrong with the others.

* `Pattern`: regular expressions as a schema writes them, each with its text and with the language
  that it stands for. `Pattern.key` is the one in the schema of diagrams (`Pattern.text_key`).
* `Pattern.mem_language_key`: a text matches it if each of its segments is a number in its usual
  form.
* `NodeId.isWritten_iff_mem_language`: such a number is the usual form of an id, unless it is too
  large.
* `WrittenKey.ofString?_eq_error_iff`: of a text that does not pass the check, the first segment that
  is no such form is reported.
* `PathKey.ids_correspond_to_texts`: keys are in bijection with the lists of ids that are not empty,
  and both traversals of a text and the walk up a path agree on it.
-/

namespace Railroad

/-! ### Patterns -/

/-- A regular expression. -/
inductive Pattern where
  | char (c : Char)
  /-- One character between two others, both included. -/
  | range (low high : Char)
  | group (inner : Pattern)
  | either (first second : Pattern)
  | followedBy (first second : Pattern)
  /-- Any number of times. -/
  | many (inner : Pattern)
deriving DecidableEq, Repr

namespace Pattern

/-- How the pattern is written. -/
def text : Pattern → String
  | char c => c.toString
  | range low high => "[" ++ low.toString ++ "-" ++ high.toString ++ "]"
  | group inner => "(" ++ inner.text ++ ")"
  | either first second => first.text ++ "|" ++ second.text
  | followedBy first second => first.text ++ second.text
  | many inner => inner.text ++ "*"

open scoped Computability in
/-- The texts that match the pattern as a whole. -/
def language : Pattern → Language Char
  | char c => {[c]}
  | range low high => {cs | ∃ c, low ≤ c ∧ c ≤ high ∧ cs = [c]}
  | group inner => inner.language
  | either first second => first.language + second.language
  | followedBy first second => first.language * second.language
  | many inner => inner.language∗

/-- A number in its usual form. -/
def number : Pattern :=
  group (either (char '0') (followedBy (range '1' '9') (many (range '0' '9'))))

/-- Numbers with dashes between them. -/
def key : Pattern :=
  followedBy number (many (group (followedBy (char '-') number)))

/-- The pattern is the one in the schema, where it is marked to stand for whole texts. -/
theorem text_key : Diagram.Schema.keyPattern = "^" ++ key.text ++ "$" := by
  decide

variable {cs : List Char}

/-- Any number of texts, each of which stands for something. -/
theorem mem_language_many {α : Type} {inner : Pattern} {P : α → Prop} {write : α → List Char}
    (h : ∀ run, run ∈ inner.language ↔ ∃ a, P a ∧ write a = run) :
    cs ∈ (many inner).language ↔ ∃ as : List α, (∀ a ∈ as, P a) ∧ as.flatMap write = cs := by
  rw [language, Language.mem_kstar]
  constructor
  · rintro ⟨runs, rfl, each⟩
    induction runs with
    | nil => exact ⟨[], by simp⟩
    | cons run rest ih =>
      obtain ⟨first, others⟩ := List.forall_mem_cons.mp each
      obtain ⟨a, ha, rfl⟩ := (h run).mp first
      obtain ⟨as, has, written⟩ := ih others
      exact ⟨a :: as, List.forall_mem_cons.mpr ⟨ha, has⟩, by simp [written]⟩
  · rintro ⟨as, has, rfl⟩
    refine ⟨as.map write, List.flatMap_def, fun run hrun => ?_⟩
    obtain ⟨a, ha, rfl⟩ := List.mem_map.mp hrun
    exact (h _).mpr ⟨a, has a ha, rfl⟩

/-- Any number of characters from a range. -/
theorem mem_language_many_range {low high : Char} :
    cs ∈ (many (range low high)).language ↔ ∀ c ∈ cs, low ≤ c ∧ c ≤ high := by
  have single : ∀ run, run ∈ (range low high).language ↔
      ∃ c, (low ≤ c ∧ c ≤ high) ∧ [c] = run := by
    intro run
    refine exists_congr fun c => ?_
    rw [and_assoc, eq_comm]
  simp only [mem_language_many single, List.flatMap_singleton', exists_eq_right]

/-- The digits other than zero. -/
theorem isDigit_and_ne_zero_iff {c : Char} :
    '1' ≤ c ∧ c ≤ '9' ↔ c.isDigit = true ∧ c ≠ '0' := by
  have zero : c = '0' ↔ c.toNat = '0'.toNat := Char.toNat_inj.symm
  have codes : '0'.toNat = 48 ∧ '1'.toNat = 49 ∧ '9'.toNat = 57 := ⟨rfl, rfl, rfl⟩
  rw [Char.isDigit_iff_toNat, Ne, zero]
  show '1'.toNat ≤ c.toNat ∧ c.toNat ≤ '9'.toNat ↔ _
  omega

/-- A number in its usual form consists of digits. The first one is zero only if it is the only
one. -/
theorem mem_language_number : cs ∈ number.language ↔
    cs ≠ [] ∧ (∀ c ∈ cs, c.isDigit = true) ∧ (cs.head? = some '0' → cs.length = 1) := by
  have digits : ∀ c : Char, '0' ≤ c ∧ c ≤ '9' ↔ c.isDigit = true :=
    fun _ => Char.isDigit_iff_toNat.symm
  have unfolded : cs ∈ number.language ↔ cs = ['0'] ∨
      ∃ first, ('1' ≤ first ∧ first ≤ '9') ∧ ∃ rest, (∀ c ∈ rest, c.isDigit = true) ∧
        first :: rest = cs := by
    show cs = ['0'] ∨ cs ∈ (range '1' '9').language * (many (range '0' '9')).language ↔ _
    simp only [Language.mem_mul, mem_language_many_range, digits]
    refine or_congr Iff.rfl ⟨?_, ?_⟩
    · rintro ⟨_, ⟨first, above, below, rfl⟩, rest, inside, rfl⟩
      exact ⟨first, ⟨above, below⟩, rest, inside, rfl⟩
    · rintro ⟨first, ⟨above, below⟩, rest, inside, rfl⟩
      exact ⟨[first], ⟨first, above, below, rfl⟩, rest, inside, rfl⟩
  rw [unfolded]
  constructor
  · rintro (rfl | ⟨first, positive, rest, inside, rfl⟩)
    · simp
    · obtain ⟨digit, other⟩ := isDigit_and_ne_zero_iff.mp positive
      refine ⟨List.cons_ne_nil _ _, List.forall_mem_cons.mpr ⟨digit, inside⟩, fun zero => ?_⟩
      exact absurd (Option.some.inj zero) other
  · rintro ⟨inhabited, inside, usual⟩
    obtain ⟨first, rest, rfl⟩ := List.exists_cons_of_ne_nil inhabited
    obtain ⟨digit, inside⟩ := List.forall_mem_cons.mp inside
    by_cases zero : first = '0'
    · subst zero
      obtain rfl := List.length_eq_zero_iff.mp (Nat.succ.inj (usual rfl))
      exact .inl rfl
    · exact .inr ⟨first, isDigit_and_ne_zero_iff.mpr ⟨digit, zero⟩, rest, inside, rfl⟩

theorem dash_notMem_of_number (h : cs ∈ number.language) : '-' ∉ cs := by
  intro dash
  have digit := (mem_language_number.mp h).2.1 '-' dash
  cases digit

/-- **A text matches the pattern of keys exactly if each of its segments is a number** in its usual
form. -/
theorem mem_language_key :
    cs ∈ key.language ↔ ∀ segment ∈ cs.splitOn '-', segment ∈ number.language := by
  have dashed : ∀ run, run ∈ (group (followedBy (char '-') number)).language ↔
      ∃ segment, segment ∈ number.language ∧ ['-'] ++ segment = run := by
    intro run
    refine Language.mem_mul.trans ⟨?_, ?_⟩
    · rintro ⟨_, rfl, segment, hs, rfl⟩
      exact ⟨segment, hs, rfl⟩
    · rintro ⟨segment, hs, rfl⟩
      exact ⟨_, rfl, segment, hs, rfl⟩
  have unfolded : cs ∈ key.language ↔ ∃ first others,
      (∀ segment ∈ first :: others, segment ∈ number.language) ∧
        ['-'].intercalate (first :: others) = cs := by
    show cs ∈ number.language * _ ↔ _
    simp only [Language.mem_mul, mem_language_many dashed, intercalate_cons_eq, List.forall_mem_cons]
    refine exists_congr fun first => ⟨?_, ?_⟩
    · rintro ⟨first, _, ⟨others, numbers, rfl⟩, written⟩
      exact ⟨others, ⟨first, numbers⟩, written⟩
    · rintro ⟨others, ⟨first, numbers⟩, written⟩
      exact ⟨first, _, ⟨others, numbers, rfl⟩, written⟩
  rw [unfolded]
  constructor
  · rintro ⟨first, others, numbers, rfl⟩
    have plain := fun segment hs => dash_notMem_of_number (numbers segment hs)
    rwa [List.splitOn_intercalate _ plain (List.cons_ne_nil _ _)]
  · intro numbers
    obtain ⟨first, others, segments⟩ := List.exists_cons_of_ne_nil (List.splitOn_ne_nil '-' cs)
    exact ⟨first, others, segments ▸ numbers, by rw [← segments, List.intercalate_splitOn]⟩

end Pattern

/-! ### Segments -/

theorem NodeId.isWritten_iff_mem_language {segment : List Char} :
    IsWritten segment ↔ segment ∈ Pattern.number.language ∧ ofDigits segment ≤ maxNodeId := by
  rw [isWritten_iff, Pattern.mem_language_number]

namespace WrittenKey

/-- **The first segment that is no id is reported.** -/
theorem fault?_eq_some_iff {segments : List (List Char)} {e : PathKeyError} {index : Nat} :
    fault? index segments = some e ↔
      ∃ before segment after, segments = before ++ segment :: after ∧
        (∀ earlier ∈ before, NodeId.IsWritten earlier) ∧ ¬ NodeId.IsWritten segment ∧
        e = complaint (index + before.length) segment := by
  induction segments generalizing index with
  | nil => simp [fault?]
  | cons first rest ih =>
    by_cases written : NodeId.IsWritten first
    · rw [fault?_cons_of_isWritten written, ih]
      constructor
      · rintro ⟨before, segment, after, rfl, good, bad, rfl⟩
        refine ⟨first :: before, segment, after, rfl, List.forall_mem_cons.mpr ⟨written, good⟩, bad, ?_⟩
        rw [List.length_cons, Nat.add_right_comm, Nat.add_assoc]
      · rintro ⟨_ | ⟨earlier, before⟩, segment, after, same, good, bad, rfl⟩
        · cases same
          exact absurd written bad
        · cases same
          refine ⟨before, segment, after, rfl, (List.forall_mem_cons.mp good).2, bad, ?_⟩
          rw [List.length_cons, Nat.add_right_comm, Nat.add_assoc]
    · rw [fault?_cons_of_not_isWritten written]
      constructor
      · rintro ⟨⟩
        exact ⟨[], first, rest, rfl, List.forall_mem_nil _, written, rfl⟩
      · rintro ⟨_ | ⟨earlier, before⟩, segment, after, same, good, -, rfl⟩
        · cases same
          rfl
        · cases same
          exact absurd (good first List.mem_cons_self) written

/-! ### Keys -/

/-- **Of a text that is no key, the first segment that is no id is reported.** -/
theorem ofString?_eq_error_iff {s : String} (inhabited : s ≠ "") {e : PathKeyError} :
    ofString? s = .error e ↔
      ∃ before segment after, s.toList.splitOn '-' = before ++ segment :: after ∧
        (∀ earlier ∈ before, NodeId.IsWritten earlier) ∧ ¬ NodeId.IsWritten segment ∧
        e = complaint before.length segment := by
  have reported := @fault?_eq_some_iff (s.toList.splitOn '-') e 0
  simp only [Nat.zero_add] at reported
  rw [← reported, ofString?, if_neg (by simpa using inhabited)]
  cases fault? 0 (s.toList.splitOn '-') <;> simp

theorem complaint_ne_empty (index : Nat) (segment : List Char) :
    complaint index segment ≠ .empty := by
  unfold complaint
  split <;> nofun

end WrittenKey

namespace PathKey

open WrittenKey in
/-- **Keys are in bijection with the lists of ids that are not empty.** A text is a key exactly if
it matches the pattern in the schema and the numbers in it are not too large. The ids that are then
read from it are these numbers, none passed over, the text is the one that is written for them, and
its depth is their number. Each list of ids that is not empty is read back from what is written for
it. The path to which its ids are pushed one by one has that key, and the walk up from its end finds
these ids, as many as it has counted. Of a text that is no key, the first segment that is no id is
reported, with its place. -/
theorem ids_correspond_to_texts :
    Diagram.Schema.keyPattern = "^" ++ Pattern.key.text ++ "$" ∧
      (∀ s, (∃ key, WrittenKey.ofString? s = .ok key) ↔ s.toList ∈ Pattern.key.language ∧
        ∀ segment ∈ s.toList.splitOn '-', NodeId.ofDigits segment ≤ 4294967295) ∧
      (∀ s key, WrittenKey.ofString? s = .ok key →
        key.text = s ∧ key.ids = (s.toList.splitOn '-').map NodeId.ofDigits ∧
          ofIds key.ids = key ∧ key.depth = key.ids.length ∧
          key.depth = (s.toList.splitOn '-').length ∧ PathKey.ofString? s = .ok ⟨key.ids⟩) ∧
      (∀ first rest, (∀ id ∈ first :: rest, id ≤ 4294967295) →
        let key := ofIds (first :: rest)
        let path := rest.foldl Path.push (Path.root first)
        WrittenKey.ofString? key.text = .ok key ∧ key.ids = first :: rest ∧
          path.key.written = key ∧ path.ids = first :: rest ∧
          path.depth = (first :: rest).length ∧ path.depth = key.depth ∧
          path.depth = path.key.depth) ∧
      ∀ s e, WrittenKey.ofString? s = .error e → (e = .empty ↔ s = "") ∧
        (s ≠ "" → ∃ before segment after, s.toList.splitOn '-' = before ++ segment :: after ∧
          (∀ earlier ∈ before, NodeId.IsWritten earlier) ∧ ¬ NodeId.IsWritten segment ∧
          e = if segment = [] then .emptySegment before.length
            else .invalidSegment before.length (String.ofList segment)) := by
  refine ⟨Pattern.text_key, fun s => ?_, fun s key checked => ?_, fun first rest small => ?_,
    fun s e failed => ?_⟩
  · have segmentwise : (∃ key, WrittenKey.ofString? s = .ok key) ↔
        ∀ segment ∈ s.toList.splitOn '-', NodeId.IsWritten segment := by
      simp only [ofString?_eq_ok_iff_segments, exists_eq_left]
    rw [segmentwise, Pattern.mem_language_key, ← forall₂_and]
    exact forall₂_congr fun _ _ => NodeId.isWritten_iff_mem_language
  · obtain ⟨rfl, written⟩ := ofString?_eq_ok_iff_segments.mp checked
    obtain ⟨-, ids, inhabited, small, same⟩ := WrittenKey.ofString?_eq_ok_iff.mp checked
    have read : WrittenKey.ids ⟨s⟩ = ids := same ▸ ids_ofIds inhabited small
    have numbers := ofIds_injective (same.trans (ofIds_map_ofDigits written).symm)
    have depth : WrittenKey.depth ⟨s⟩ = ids.length := same ▸ depth_ofIds inhabited
    refine ⟨rfl, read.trans numbers, (congrArg ofIds read).trans same, ?_, ?_, ?_⟩
    · rw [depth, read]
    · rw [depth, numbers, List.length_map]
    · rw [PathKey.ofString?, checked]
      rfl
  · have inhabited := List.cons_ne_nil first rest
    have walk : (rest.foldl Path.push (Path.root first)).ids = first :: rest :=
      Path.ids_foldl_push _ _
    have counted : (rest.foldl Path.push (Path.root first)).depth = (first :: rest).length :=
      (Path.depth_foldl_push _ _).trans (Nat.add_comm _ _)
    refine ⟨?_, ids_ofIds inhabited small, congrArg ofIds walk, walk, counted, ?_, ?_⟩
    · exact WrittenKey.ofString?_eq_ok_iff.mpr ⟨rfl, _, inhabited, small, rfl⟩
    · rw [counted, depth_ofIds inhabited]
    · rw [counted, PathKey.depth, Path.key, walk]
  · by_cases empty : s = ""
    · subst empty
      obtain rfl : e = .empty := (Except.error.inj failed).symm
      exact ⟨iff_of_true rfl rfl, fun inhabited => absurd rfl inhabited⟩
    · obtain ⟨before, segment, after, segments, good, bad, rfl⟩ :=
        (ofString?_eq_error_iff empty).mp failed
      refine ⟨iff_of_false (complaint_ne_empty _ _) empty, fun _ => ?_⟩
      exact ⟨before, segment, after, segments, good, bad, rfl⟩

/-- Of a text that is no key, the lenient traversal reads what it can. -/
example : WrittenKey.ofString? "+1--x-02" = .error (.invalidSegment 0 "+1") ∧
    WrittenKey.ids ⟨"+1--x-02"⟩ = [1, 2] := by
  decide +kernel

end PathKey

end Railroad
