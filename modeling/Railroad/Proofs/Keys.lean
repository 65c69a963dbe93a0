import Mathlib.Data.List.Basic
import Mathlib.Data.List.Induction
import Railroad.PathKey

/-!
Keys that are written are read back, and nothing else is read.

* `head?_toDigits_ne`: a number in its usual form does not start with a zero.
* `toDigits_ofDigitChars`: digits that do not are those of a number in its usual form.
* `NodeId.IsWritten`: a segment that is the usual form of an id. `NodeId.isUsual_and_read?_iff`: these
  segments pass the check and no others, and `NodeId.read?_toDigits`: they are read as that id.
* `WrittenKey.ofString?_eq_ok_iff_segments`: so a text passes exactly if all its segments are such
  forms. `WrittenKey.ofString?_eq_ok_iff`, `WrittenKey.ids_ofIds`: it is then the one written for some
  ids, and reading leniently gives these, with none passed over.
* `PathKey.ofString?_text`: so each key is read back from its text, if it has an id and its ids are
  not too large.
* `PathKey.text_injective`: keys are told apart by their texts. `PathKey.isDigit_or_eq_of_mem_text`,
  `PathKey.notMem_text`: these consist of digits and dashes.
* `PathKey.ofString?_eq_ok_iff`: a text is read as a key exactly if it is the one written for it.
-/

namespace Railroad

theorem isDigit_of_mem_toDigits {n : Nat} {c : Char} (h : c ∈ Nat.toDigits 10 n) :
    c.isDigit = true :=
  Nat.isDigit_of_mem_toDigits (by decide) (by decide) h

theorem all_isDigit_toDigits (n : Nat) : (Nat.toDigits 10 n).all Char.isDigit = true :=
  List.all_eq_true.mpr fun _ => isDigit_of_mem_toDigits

/-- A number in its usual form does not start with a zero. -/
theorem head?_toDigits_ne {n : Nat} (positive : n ≠ 0) :
    (Nat.toDigits 10 n).head? ≠ some '0' := by
  induction n using Nat.strongRecOn with
  | ind n ih =>
    by_cases small : n < 10
    · rw [Nat.toDigits_of_lt_base small]
      intro h
      exact positive (Nat.digitChar_eq_zero.mp (Option.some.inj h))
    · -- The digits in front are those of a number that is not zero either.
      have front := ih (n / 10) (by omega) (by omega)
      obtain ⟨c, cs, digits⟩ := List.exists_cons_of_ne_nil
        (Nat.toDigits_ne_nil (n := n / 10) (b := 10))
      rw [Nat.toDigits_eq_if (by decide), if_neg small, digits]
      rwa [digits] at front

theorem length_toDigits_of_head? {n : Nat} (h : (Nat.toDigits 10 n).head? = some '0') :
    (Nat.toDigits 10 n).length = 1 := by
  by_cases zero : n = 0
  · subst zero
    rfl
  · exact absurd h (head?_toDigits_ne zero)

theorem digitChar_toNat_sub {c : Char} (h : c.isDigit = true) :
    Nat.digitChar (c.toNat - '0'.toNat) = c ∧ c.toNat - '0'.toNat < 10 := by
  obtain ⟨low, high⟩ := Char.isDigit_iff_toNat.mp h
  have zero : '0'.toNat = 48 := rfl
  have nine : '9'.toNat = 57 := rfl
  have small : c.toNat - '0'.toNat < 10 := by omega
  refine ⟨Char.toNat_inj.mp ?_, small⟩
  rw [Nat.toNat_digitChar_of_lt_ten small]
  omega

/-- Digits that do not start with a needless zero are those of a number in its usual form. -/
theorem toDigits_ofDigitChars {cs : List Char} (inhabited : cs ≠ [])
    (digits : ∀ c ∈ cs, c.isDigit = true) (usual : cs.head? = some '0' → cs.length = 1) :
    Nat.toDigits 10 (Nat.ofDigitChars 10 cs 0) = cs := by
  induction cs using List.reverseRecOn with
  | nil => exact absurd rfl inhabited
  | append_singleton front c ih =>
    obtain ⟨last, small⟩ := digitChar_toNat_sub (digits c (by simp))
    rw [Nat.ofDigitChars_append, Nat.ofDigitChars_cons, Nat.ofDigitChars_nil]
    cases front with
    | nil =>
      rw [Nat.ofDigitChars_nil, Nat.mul_zero, Nat.zero_add, Nat.toDigits_of_lt_base small, last]
      rfl
    | cons d ds =>
      -- In front of another digit there is no zero, so what stands there is no zero as a number.
      have first : (d :: ds).head? ≠ some '0' := by
        intro zero
        have single := usual (by simpa using zero)
        simp at single
      have before := ih (List.cons_ne_nil d ds) (fun c hc => digits c (List.mem_append_left _ hc))
        fun zero => absurd zero first
      have positive : 0 < Nat.ofDigitChars 10 (d :: ds) 0 := by
        apply Nat.pos_of_ne_zero
        intro zero
        rw [zero] at before
        rw [← before] at first
        exact first rfl
      rw [← Nat.toDigits_append_toDigits (by decide) positive small, before,
        Nat.toDigits_of_lt_base small, last]

namespace NodeId

/-- The number that a segment of digits stands for. -/
def ofDigits (segment : List Char) : NodeId :=
  Nat.ofDigitChars 10 segment 0

/-- The segment is the usual form of a number that is not too large for an id. -/
def IsWritten (segment : List Char) : Prop :=
  ∃ id ≤ maxNodeId, Nat.toDigits 10 id = segment

theorem ofDigits_toDigits (id : NodeId) : ofDigits (Nat.toDigits 10 id) = id :=
  Nat.ofDigitChars_ten_toDigits

theorem toDigits_injective : Function.Injective (Nat.toDigits 10) :=
  Function.LeftInverse.injective ofDigits_toDigits

variable {segment : List Char}

theorem IsWritten.ne_nil (h : IsWritten segment) : segment ≠ [] := by
  obtain ⟨id, -, rfl⟩ := h
  exact Nat.toDigits_ne_nil

theorem IsWritten.toDigits_ofDigits (h : IsWritten segment) :
    Nat.toDigits 10 (ofDigits segment) = segment := by
  obtain ⟨id, -, rfl⟩ := h
  rw [ofDigits_toDigits]

theorem IsWritten.ofDigits_le (h : IsWritten segment) : ofDigits segment ≤ maxNodeId := by
  obtain ⟨id, small, rfl⟩ := h
  rwa [ofDigits_toDigits]

/-- **A segment is the usual form of an id** exactly if it consists of digits, the first of which is
zero only if it is the only one, and its number is not too large. -/
theorem isWritten_iff : IsWritten segment ↔
    (segment ≠ [] ∧ (∀ c ∈ segment, c.isDigit = true) ∧
      (segment.head? = some '0' → segment.length = 1)) ∧ ofDigits segment ≤ maxNodeId := by
  constructor
  · intro h
    refine ⟨⟨h.ne_nil, ?_⟩, h.ofDigits_le⟩
    obtain ⟨id, -, rfl⟩ := h
    exact ⟨fun _ => isDigit_of_mem_toDigits, length_toDigits_of_head?⟩
  · rintro ⟨⟨inhabited, digits, usual⟩, small⟩
    exact ⟨_, small, toDigits_ofDigitChars inhabited digits usual⟩

/-- Digits have no plus sign in front of them. -/
theorem unsigned_of_digits (digits : segment.all Char.isDigit = true) :
    unsigned segment = segment := by
  match segment with
  | '+' :: rest => simp at digits
  | [] => rfl
  | c :: rest =>
    rw [unsigned]
    rintro _ ⟨⟩
    simp at digits

/-- A segment of digits is read as its number. -/
theorem read?_of_digits (inhabited : segment ≠ []) (digits : segment.all Char.isDigit = true) :
    read? segment = if ofDigits segment ≤ maxNodeId then some (ofDigits segment) else none := by
  simp only [read?, unsigned_of_digits digits]
  exact if_congr (by simp [inhabited, digits, ofDigits]) rfl rfl

/-- An id is read back from its usual form. -/
theorem read?_toDigits {id : NodeId} (small : id ≤ maxNodeId) :
    read? (Nat.toDigits 10 id) = some id := by
  rw [read?_of_digits Nat.toDigits_ne_nil (all_isDigit_toDigits id), ofDigits_toDigits, if_pos small]

theorem isUsual_iff (inhabited : segment ≠ []) :
    isUsual segment = true ↔ (∀ c ∈ segment, c.isDigit = true) ∧
      (segment.head? = some '0' → segment.length = 1) := by
  have positive := List.length_pos_iff.mpr inhabited
  have single : segment.length ≤ 1 ↔ segment.length = 1 := by omega
  simp only [isUsual, Bool.and_eq_true, List.all_eq_true, Bool.not_eq_true', Bool.and_eq_false_iff,
    decide_eq_false_iff_not, Nat.not_lt, single, imp_iff_not_or, or_comm]

/-- **A segment passes the check exactly if it is the usual form of an id.** -/
theorem isUsual_and_read?_iff (inhabited : segment ≠ []) :
    (isUsual segment && (read? segment).isSome) = true ↔ IsWritten segment := by
  rw [Bool.and_eq_true, isUsual_iff inhabited, isWritten_iff]
  constructor
  · rintro ⟨usual, read⟩
    rw [read?_of_digits inhabited (List.all_eq_true.mpr usual.1), Option.isSome_ite] at read
    exact ⟨⟨inhabited, usual⟩, read⟩
  · rintro ⟨⟨-, usual⟩, small⟩
    refine ⟨usual, ?_⟩
    rw [read?_of_digits inhabited (List.all_eq_true.mpr usual.1), Option.isSome_ite]
    exact small

end NodeId

/-- What stands in a joined list stands in one of its parts or between them. -/
theorem mem_or_mem_of_mem_intercalate {α : Type} {a : α} {between : List α} {parts : List (List α)}
    (h : a ∈ between.intercalate parts) : a ∈ between ∨ ∃ part ∈ parts, a ∈ part := by
  induction parts with
  | nil => cases h
  | cons part rest ih =>
    cases rest with
    | nil => exact .inr ⟨part, List.mem_cons_self, by simpa using h⟩
    | cons next rest =>
      rw [List.intercalate_cons_cons, List.mem_append, List.mem_append] at h
      rcases h with (h | h) | h
      · exact .inr ⟨part, List.mem_cons_self, h⟩
      · exact .inl h
      · rcases ih h with h | ⟨later, member, h⟩
        · exact .inl h
        · exact .inr ⟨later, List.mem_cons_of_mem _ member, h⟩

/-- Nothing is passed over if each element is read as itself. -/
theorem filterMap_eq_self {α : Type} {f : α → Option α} {as : List α}
    (each : ∀ a ∈ as, f a = some a) : as.filterMap f = as := by
  induction as with
  | nil => rfl
  | cons a rest ih =>
    obtain ⟨first, others⟩ := List.forall_mem_cons.mp each
    rw [List.filterMap_cons_some first, ih others]

namespace WrittenKey

variable {ids : List NodeId}

theorem toList_text_ofIds (ids : List NodeId) :
    (ofIds ids).text.toList = ['-'].intercalate (ids.map (Nat.toDigits 10)) := by
  rw [ofIds, String.toList_intercalate, List.map_map]
  simp [Function.comp_def, Nat.repr]

/-- The segments of a written key are its ids. -/
theorem segments_ofIds (inhabited : ids ≠ []) :
    (ofIds ids).segments = ids.map (Nat.toDigits 10) := by
  have plain : ∀ segment ∈ ids.map (Nat.toDigits 10), '-' ∉ segment := by
    intro segment hs dash
    obtain ⟨id, -, rfl⟩ := List.mem_map.mp hs
    have digit := isDigit_of_mem_toDigits dash
    cases digit
  rw [segments, toList_text_ofIds, List.splitOn_intercalate _ plain (by simpa using inhabited)]

theorem text_ofIds_ne_empty (inhabited : ids ≠ []) : (ofIds ids).text ≠ "" := by
  intro empty
  have segments := segments_ofIds inhabited
  obtain ⟨id, rest, rfl⟩ := List.exists_cons_of_ne_nil inhabited
  rw [WrittenKey.segments, empty] at segments
  exact Nat.toDigits_ne_nil (List.cons_eq_cons.mp segments).1.symm

/-- **The ids are read back leniently.** None is passed over. -/
theorem ids_ofIds (inhabited : ids ≠ []) (small : ∀ id ∈ ids, id ≤ maxNodeId) :
    (ofIds ids).ids = ids := by
  have full : ∀ segment ∈ ids.map (Nat.toDigits 10), (!segment.isEmpty) = true := by
    intro segment hs
    obtain ⟨id, -, rfl⟩ := List.mem_map.mp hs
    simp [Nat.toDigits_ne_nil]
  rw [WrittenKey.ids, segments_ofIds inhabited, List.filter_eq_self.mpr full, List.filterMap_map]
  exact filterMap_eq_self fun id member => NodeId.read?_toDigits (small id member)

theorem depth_ofIds (inhabited : ids ≠ []) : (ofIds ids).depth = ids.length := by
  rw [depth, if_neg (by simpa using text_ofIds_ne_empty inhabited), segments_ofIds inhabited,
    List.length_map]

/-- **Lists of ids are told apart by what is written for them.** -/
theorem ofIds_injective : Function.Injective ofIds := by
  intro ids ids' same
  by_cases inhabited : ids = [] ∨ ids' = []
  · -- Only the empty list has the empty text.
    have empty : ids = [] ∧ ids' = [] := by
      rcases inhabited with rfl | rfl
      · exact ⟨rfl, not_not.mp fun full => text_ofIds_ne_empty full (congrArg text same.symm)⟩
      · exact ⟨not_not.mp fun full => text_ofIds_ne_empty full (congrArg text same), rfl⟩
    rw [empty.1, empty.2]
  · rw [not_or] at inhabited
    have segments := congrArg WrittenKey.segments same
    rw [segments_ofIds inhabited.1, segments_ofIds inhabited.2] at segments
    exact List.map_injective_iff.mpr NodeId.toDigits_injective segments

/-- What is reported of a segment that is no id. -/
def complaint (index : Nat) (segment : List Char) : PathKeyError :=
  if segment = [] then .emptySegment index else .invalidSegment index (String.ofList segment)

section Check

variable {segment : List Char}

theorem fault?_cons_of_isWritten (h : NodeId.IsWritten segment) (index : Nat)
    (rest : List (List Char)) : fault? index (segment :: rest) = fault? (index + 1) rest := by
  have passed := (NodeId.isUsual_and_read?_iff h.ne_nil).mpr h
  rw [fault?, if_neg (by simpa using h.ne_nil), if_pos passed]

theorem fault?_cons_of_not_isWritten (h : ¬ NodeId.IsWritten segment) (index : Nat)
    (rest : List (List Char)) : fault? index (segment :: rest) = some (complaint index segment) := by
  rw [fault?, complaint]
  by_cases empty : segment = []
  · simp [empty]
  · rw [← NodeId.isUsual_and_read?_iff empty] at h
    rw [if_neg (by simpa using empty), if_neg h, if_neg empty]

/-- **Nothing is wrong exactly if all segments are ids.** -/
theorem fault?_eq_none_iff {segments : List (List Char)} {index : Nat} :
    fault? index segments = none ↔ ∀ segment ∈ segments, NodeId.IsWritten segment := by
  induction segments generalizing index with
  | nil => simp [fault?]
  | cons segment rest ih =>
    by_cases written : NodeId.IsWritten segment
    · rw [fault?_cons_of_isWritten written, ih]
      simp [written]
    · rw [fault?_cons_of_not_isWritten written]
      simp [written]

end Check

variable {s : String} {key : WrittenKey}

/-- **A text passes the check exactly if each of its segments is an id.** It is the key then. -/
theorem ofString?_eq_ok_iff_segments :
    ofString? s = .ok key ↔
      key = ⟨s⟩ ∧ ∀ segment ∈ s.toList.splitOn '-', NodeId.IsWritten segment := by
  rw [← @fault?_eq_none_iff _ 0, ofString?]
  by_cases empty : s = ""
  · subst empty
    exact iff_of_false nofun fun passed => absurd passed.2 nofun
  · rw [if_neg (by simpa using empty)]
    cases fault? 0 (s.toList.splitOn '-') <;> simp [eq_comm]

/-- What is written for the numbers in the segments of a text is that text. -/
theorem ofIds_map_ofDigits (written : ∀ segment ∈ s.toList.splitOn '-', NodeId.IsWritten segment) :
    ofIds ((s.toList.splitOn '-').map NodeId.ofDigits) = ⟨s⟩ := by
  apply congrArg WrittenKey.mk
  apply String.toList_inj.mp
  have forms : ((s.toList.splitOn '-').map NodeId.ofDigits).map (Nat.toDigits 10) =
      s.toList.splitOn '-' := by
    rw [List.map_map]
    exact (List.map_congr_left fun segment hs => (written segment hs).toDigits_ofDigits).trans
      (List.map_id _)
  exact (toList_text_ofIds _).trans (by rw [forms, List.intercalate_splitOn])

/-- **A text passes the check exactly if it is written for some ids.** -/
theorem ofString?_eq_ok_iff :
    ofString? s = .ok key ↔ key = ⟨s⟩ ∧ ∃ ids : List NodeId, ids ≠ [] ∧
      (∀ id ∈ ids, id ≤ maxNodeId) ∧ ofIds ids = key := by
  rw [ofString?_eq_ok_iff_segments]
  constructor
  · rintro ⟨rfl, written⟩
    refine ⟨rfl, _, ?_, ?_, ofIds_map_ofDigits written⟩
    · simp [List.splitOn_ne_nil]
    · exact List.forall_mem_map.mpr fun segment hs => (written segment hs).ofDigits_le
  · rintro ⟨rfl, ids, inhabited, small, same⟩
    refine ⟨rfl, fun segment hs => ?_⟩
    have segments : s.toList.splitOn '-' = ids.map (Nat.toDigits 10) := by
      rw [← segments_ofIds inhabited, same]
      rfl
    rw [segments] at hs
    obtain ⟨id, member, form⟩ := List.mem_map.mp hs
    exact ⟨id, small id member, form⟩

end WrittenKey

namespace PathKey

/-- The key has an id, and each of its ids can be read. -/
def IsWritable (key : PathKey) : Prop :=
  key.ids ≠ [] ∧ ∀ id ∈ key.ids, id ≤ maxNodeId

/-- **A text is read as a key exactly if it is the one that is written for it.** -/
theorem ofString?_eq_ok_iff {s : String} {key : PathKey} :
    ofString? s = .ok key ↔ key.IsWritable ∧ s = key.text := by
  constructor
  · intro read
    rw [ofString?] at read
    cases checked : WrittenKey.ofString? s with
    | error e =>
      rw [checked] at read
      cases read
    | ok written =>
      rw [checked] at read
      obtain rfl := Except.ok.inj read
      obtain ⟨rfl, ids, inhabited, small, same⟩ := WrittenKey.ofString?_eq_ok_iff.mp checked
      have back := WrittenKey.ids_ofIds inhabited small
      rw [same] at back
      show IsWritable ⟨WrittenKey.ids ⟨s⟩⟩ ∧ s = text ⟨WrittenKey.ids ⟨s⟩⟩
      rw [back]
      exact ⟨⟨inhabited, small⟩, (congrArg WrittenKey.text same).symm⟩
  · rintro ⟨⟨inhabited, small⟩, rfl⟩
    have checked : WrittenKey.ofString? key.text = .ok key.written :=
      WrittenKey.ofString?_eq_ok_iff.mpr ⟨rfl, key.ids, inhabited, small, rfl⟩
    rw [ofString?, checked]
    exact congrArg (fun ids => Except.ok (PathKey.mk ids)) (WrittenKey.ids_ofIds inhabited small)

/-- **A key is read back from its text.** -/
theorem ofString?_text {key : PathKey} (h : key.IsWritable) : ofString? key.text = .ok key :=
  ofString?_eq_ok_iff.mpr ⟨h, rfl⟩

/-- **Keys are told apart by their texts.** -/
theorem text_injective : Function.Injective text := by
  intro key key' same
  exact congrArg PathKey.mk (WrittenKey.ofIds_injective (congrArg WrittenKey.mk same))

/-- A key is written with digits and dashes. -/
theorem isDigit_or_eq_of_mem_text {key : PathKey} {c : Char} (h : c ∈ key.text.toList) :
    c.isDigit = true ∨ c = '-' := by
  rw [text, written, WrittenKey.toList_text_ofIds] at h
  rcases mem_or_mem_of_mem_intercalate h with dash | ⟨segment, member, digit⟩
  · exact .inr (List.mem_singleton.mp dash)
  · obtain ⟨id, -, rfl⟩ := List.mem_map.mp member
    exact .inl (isDigit_of_mem_toDigits digit)

/-- No other character stands in a written key. -/
theorem notMem_text (key : PathKey) {c : Char} (noDigit : c.isDigit = false) (noDash : c ≠ '-') :
    c ∉ key.text.toList := by
  intro member
  rcases isDigit_or_eq_of_mem_text member with digit | dash
  · rw [noDigit] at digit
    cases digit
  · exact noDash dash

end PathKey

end Railroad
