import Mathlib.Data.List.TakeWhile
import Railroad.Json.Reader
import Railroad.Json.Strict
import Railroad.Proofs.Keys

/-!
How strings and numbers are spelled.

* `Json.unescape?_escape`: the spelling of a text stands for the text.
* `Json.spelling?_escape`: between quotation marks it is read up to the closing one.
* `Json.next?_toDigits`: a number in its usual form is read up to the first character that does not
  go on with it.
-/

namespace Railroad.Json

/-! ### Strings -/

/-- A control character is written by its number. -/
theorem hexQuad?_control {n : Nat} (h : n < 32) :
    hexQuad? '0' '0' (hexDigit (n / 16)) (hexDigit (n % 16)) = some n := by
  have zero : hexValue? '0' = some 0 := by decide
  simp only [hexQuad?, hexDigit, zero, hexValue?_digitChar (show n / 16 < 16 by omega),
    hexValue?_digitChar (show n % 16 < 16 by omega), Option.bind_eq_bind, Option.bind_some,
    Option.pure_def, Option.some.injEq]
  omega

/-- The characters with an escape of their own, and the others. -/
theorem escapeChar_cases (c : Char) :
    (∃ letter, escapeChar c = ['\\', letter] ∧ shortEscape? letter = some c ∧ letter ≠ 'u') ∨
      (c.toNat < 32 ∧ escapeChar c =
        ['\\', 'u', '0', '0', hexDigit (c.toNat / 16), hexDigit (c.toNat % 16)]) ∨
      (c ≠ '"' ∧ c ≠ '\\' ∧ ¬ c.toNat < 32 ∧ escapeChar c = [c]) := by
  by_cases short : c ∈ ['"', '\\', '\x08', '\t', '\n', '\x0c', '\r']
  · left
    simp only [List.mem_cons, List.not_mem_nil, or_false] at short
    rcases short with rfl | rfl | rfl | rfl | rfl | rfl | rfl
    · exact ⟨'"', by decide⟩
    · exact ⟨'\\', by decide⟩
    · exact ⟨'b', by decide⟩
    · exact ⟨'t', by decide⟩
    · exact ⟨'n', by decide⟩
    · exact ⟨'f', by decide⟩
    · exact ⟨'r', by decide⟩
  · right
    simp only [List.mem_cons, List.not_mem_nil, or_false, not_or] at short
    obtain ⟨quote, backslash, b, t, n, f, r⟩ := short
    simp only [escapeChar, if_neg quote, if_neg backslash, if_neg b, if_neg t, if_neg n, if_neg f,
      if_neg r]
    by_cases control : c.toNat < 32
    · exact .inl ⟨control, if_pos control⟩
    · exact .inr ⟨quote, backslash, control, if_neg control⟩

theorem unescape?_short {letter c : Char} (h : shortEscape? letter = some c) (other : letter ≠ 'u')
    (rest : List Char) :
    unescape? ('\\' :: letter :: rest) = (unescape? rest).map (c :: ·) := by
  rw [unescape?]
  · simp [h]
  · rintro a b c' d rest' rfl
    exact absurd rfl other

theorem unescape?_quad {a b c d : Char} {n : Nat} (h : hexQuad? a b c d = some n)
    (whole : isHalf n = false) (rest : List Char) :
    unescape? ('\\' :: 'u' :: a :: b :: c :: d :: rest) =
      (unescape? rest).map (Char.ofNat n :: ·) := by
  rw [unescape?, h]
  simp [whole]

theorem unescape?_plain {c : Char} (plain : c ≠ '\\') (rest : List Char) :
    unescape? (c :: rest) = (unescape? rest).map (c :: ·) := by
  rw [unescape?]
  all_goals simp [plain]

theorem unescape?_escapeChar (c : Char) (rest : List Char) :
    unescape? (escapeChar c ++ rest) = (unescape? rest).map (c :: ·) := by
  rcases escapeChar_cases c with ⟨letter, spelled, short, other⟩ | ⟨control, spelled⟩ |
    ⟨-, backslash, -, spelled⟩
  · rw [spelled]
    exact unescape?_short short other rest
  · have whole : isHalf c.toNat = false := by
      simp only [isHalf, Bool.and_eq_false_iff, decide_eq_false_iff_not]
      omega
    rw [spelled]
    have read := unescape?_quad (hexQuad?_control control) whole rest
    rwa [Char.ofNat_toNat] at read
  · rw [spelled]
    exact unescape?_plain backslash rest

/-- **The spelling of a text stands for the text.** -/
theorem unescape?_escape (s : String) : unescape? (escape s) = some s.toList := by
  have all : ∀ cs : List Char, unescape? (cs.flatMap escapeChar) = some cs := by
    intro cs
    induction cs with
    | nil => rfl
    | cons c cs ih => rw [List.flatMap_cons, unescape?_escapeChar, ih, Option.map_some]
  exact all s.toList

theorem spelling?_short {letter c : Char} (h : shortEscape? letter = some c) (other : letter ≠ 'u')
    (rest : List Char) :
    spelling? ('\\' :: letter :: rest) =
      (spelling? rest).map fun (more, rest) => ('\\' :: letter :: more, rest) := by
  rw [spelling?]
  · simp [h]
  · rintro a b c' d rest' rfl
    exact absurd rfl other

theorem spelling?_quad {a b c d : Char} {n : Nat} (h : hexQuad? a b c d = some n)
    (rest : List Char) :
    spelling? ('\\' :: 'u' :: a :: b :: c :: d :: rest) =
      (spelling? rest).map fun (more, rest) => ('\\' :: 'u' :: a :: b :: c :: d :: more, rest) := by
  rw [spelling?, h]
  simp

theorem spelling?_plain {c : Char} (quote : c ≠ '"') (backslash : c ≠ '\\')
    (control : ¬ c.toNat < 32) (rest : List Char) :
    spelling? (c :: rest) = (spelling? rest).map fun (more, rest) => (c :: more, rest) := by
  rw [spelling?]
  · simp [backslash, control]
  all_goals simp [quote, backslash]

theorem spelling?_escapeChar (c : Char) (rest : List Char) :
    spelling? (escapeChar c ++ rest) =
      (spelling? rest).map fun (more, rest) => (escapeChar c ++ more, rest) := by
  rcases escapeChar_cases c with ⟨letter, spelled, short, other⟩ | ⟨control, spelled⟩ |
    ⟨quote, backslash, control, spelled⟩
  · rw [spelled]
    exact spelling?_short short other rest
  · rw [spelled]
    exact spelling?_quad (hexQuad?_control control) rest
  · rw [spelled]
    exact spelling?_plain quote backslash control rest

/-- **The spelling of a text is read up to the closing quotation mark.** -/
theorem spelling?_escape (s : String) (rest : List Char) :
    spelling? (escape s ++ '"' :: rest) = some (escape s, rest) := by
  have all : ∀ cs : List Char, spelling? (cs.flatMap escapeChar ++ '"' :: rest) =
      some (cs.flatMap escapeChar, rest) := by
    intro cs
    induction cs with
    | nil => rw [List.flatMap_nil, List.nil_append, spelling?]
    | cons c cs ih =>
      rw [List.flatMap_cons, List.append_assoc, spelling?_escapeChar, ih, Option.map_some]
  exact all s.toList

/-! ### Numbers -/

/-- What a number does not go on with. -/
def EndsNumber (rest : List Char) : Prop :=
  ∀ c ∈ rest.head?, c.isDigit = false ∧ c ≠ '.' ∧ c ≠ 'e' ∧ c ≠ 'E'

theorem digits?_append {digits rest : List Char} (inhabited : digits ≠ [])
    (all : ∀ c ∈ digits, c.isDigit = true) (ends : EndsNumber rest) :
    digits? (digits ++ rest) = some (digits, rest) := by
  have stops : rest.takeWhile Char.isDigit = [] ∧ rest.dropWhile Char.isDigit = rest := by
    cases rest with
    | nil => exact ⟨rfl, rfl⟩
    | cons c cs => simp [(ends c rfl).1]
  obtain ⟨d, ds, rfl⟩ := List.exists_cons_of_ne_nil inhabited
  rw [digits?, List.takeWhile_append_of_pos all, List.dropWhile_append_of_pos all, stops.1, stops.2,
    List.append_nil]

/-- The digits of a number are its whole part. -/
theorem wholePart?_toDigits (n : Nat) {rest : List Char} (ends : EndsNumber rest) :
    wholePart? (Nat.toDigits 10 n ++ rest) = some (Nat.toDigits 10 n, rest) := by
  by_cases zero : n = 0
  · subst zero
    rfl
  · have digits := digits?_append Nat.toDigits_ne_nil
      (fun _ => isDigit_of_mem_toDigits (n := n)) ends
    have first := head?_toDigits_ne zero
    obtain ⟨d, ds, same⟩ := List.exists_cons_of_ne_nil (Nat.toDigits_ne_nil (n := n) (b := 10))
    rw [same] at digits first ⊢
    rw [List.cons_append, wholePart?]
    · exact digits
    · rintro rest' ⟨⟩
      exact first rfl

theorem unsignedNumber?_toDigits (n : Nat) {rest : List Char} (ends : EndsNumber rest) :
    unsignedNumber? (Nat.toDigits 10 n ++ rest) = some (Nat.toDigits 10 n, rest) := by
  have fraction : fraction? rest = some ([], rest) := by
    cases rest with
    | nil => rfl
    | cons c cs =>
      rw [fraction?]
      rintro rest' ⟨⟩
      exact (ends '.' rfl).2.1 rfl
  have exponent : exponent? rest = some ([], rest) := by
    cases rest with
    | nil => rfl
    | cons c cs =>
      obtain ⟨-, -, small, capital⟩ := ends c rfl
      rw [exponent?, if_neg (by simp [small, capital])]
  simp [unsignedNumber?, wholePart?_toDigits n ends, fraction, exponent]

/-- **A number in its usual form is read as such**, up to the first character that does not go on
with it. -/
theorem next?_toDigits (n : Nat) {rest : List Char} (ends : EndsNumber rest) :
    Token.next? (Nat.toDigits 10 n ++ rest) = some (.number (Nat.toDigits 10 n), rest) := by
  have number := unsignedNumber?_toDigits n ends
  obtain ⟨d, ds, same⟩ := List.exists_cons_of_ne_nil (Nat.toDigits_ne_nil (n := n) (b := 10))
  have digit : d.isDigit = true := isDigit_of_mem_toDigits (n := n) (by simp [same])
  rw [same] at number ⊢
  rw [List.cons_append] at number ⊢
  rw [Token.next?]
  · rw [number]
    rfl
  · exact List.cons_ne_nil _ _
  all_goals
    rintro rest' ⟨⟩
    cases digit

/-! ### Numbers that do not overflow -/

theorem rounded_le (n : Nat) : rounded n ≤ 2 * n := by
  have whole : Nat.pow 2 (Nat.log2 n - 52) * (n / Nat.pow 2 (Nat.log2 n - 52)) ≤ n :=
    Nat.mul_div_le n _
  by_cases zero : n = 0
  · subst zero
    decide
  · have unit : Nat.pow 2 (Nat.log2 n - 52) ≤ n :=
      Nat.le_trans (Nat.pow_le_pow_right (by decide) (Nat.sub_le _ _)) (Nat.log2_self_le zero)
    simp only [rounded]
    split
    · rw [Nat.mul_comm]
      omega
    · rw [Nat.add_mul, Nat.mul_comm]
      omega

theorem le_ofDigitChars (digits : List Char) (n : Nat) : n ≤ Nat.ofDigitChars 10 digits n := by
  induction digits generalizing n with
  | nil => exact Nat.le_refl n
  | cons c cs ih =>
    have more := ih (10 * n + (c.toNat - '0'.toNat))
    rw [Nat.ofDigitChars, List.foldl_cons]
    exact Nat.le_trans (by omega) more

/-- All digits are taken if the number fits. -/
theorem takeDigits_eq {digits : List Char} {n : Nat}
    (fits : Nat.ofDigitChars 10 digits n ≤ maxSignificand) :
    takeDigits n digits = (Nat.ofDigitChars 10 digits n, 0) := by
  induction digits generalizing n with
  | nil => rfl
  | cons c cs ih =>
    have split : Nat.ofDigitChars 10 (c :: cs) n =
        Nat.ofDigitChars 10 cs (Nat.ofDigitChars 10 [c] n) := rfl
    rw [split] at fits ⊢
    rw [takeDigits, if_pos (Nat.le_trans (le_ofDigitChars cs _) fits), ih fits]

theorem scientific_toDigits {n : Nat} (fits : n ≤ maxSignificand) :
    scientific (Nat.toDigits 10 n) = (n, 0) := by
  have digits : ∀ c ∈ Nat.toDigits 10 n, c.isDigit = true := fun _ => isDigit_of_mem_toDigits
  have value : Nat.ofDigitChars 10 (Nat.toDigits 10 n) 0 = n :=
    Nat.ofDigitChars_ten_toDigits
  have unsigned : (Nat.toDigits 10 n).dropWhile (· = '-') = Nat.toDigits 10 n := by
    obtain ⟨d, ds, same⟩ := List.exists_cons_of_ne_nil (Nat.toDigits_ne_nil (n := n) (b := 10))
    have digit := digits d (by simp [same])
    rw [same, List.dropWhile_cons_of_neg]
    simp only [decide_eq_true_eq]
    rintro rfl
    cases digit
  have whole : (Nat.toDigits 10 n).takeWhile Char.isDigit = Nat.toDigits 10 n :=
    List.takeWhile_eq_self_iff.mpr digits
  have nothing : (Nat.toDigits 10 n).dropWhile Char.isDigit = [] :=
    List.dropWhile_eq_nil_iff.mpr digits
  have enough : Nat.ofDigitChars 10 (Nat.toDigits 10 n) 0 ≤ maxSignificand := by rwa [value]
  have taken := takeDigits_eq enough
  simp only [scientific, unsigned, whole, nothing, taken, value, List.takeWhile_nil, List.filter_nil,
    takeDigits]
  rfl

/-- A number that fits into 64 bits is finite. -/
theorem isFinite_toDigits {n : Nat} (fits : n ≤ maxSignificand) :
    isFinite (Nat.toDigits 10 n) = true := by
  have one : rounded (Nat.pow 10 (0 : Int).toNat) = 1 := by decide
  have bound : rounded (rounded n) ≤ 2 * (2 * n) :=
    Nat.le_trans (rounded_le _) (Nat.mul_le_mul_left 2 (rounded_le n))
  have finite : rounded (rounded n) < Nat.pow 2 1024 := by
    have limit : 2 * (2 * maxSignificand) < Nat.pow 2 67 := by decide
    have larger : ∀ m, 67 ≤ m → Nat.pow 2 67 ≤ Nat.pow 2 m :=
      fun m h => Nat.pow_le_pow_right (by decide) h
    refine Nat.lt_of_le_of_lt ?_ (Nat.lt_of_lt_of_le limit (larger 1024 (by decide)))
    omega
  simp only [isFinite, scientific_toDigits fits, one, Nat.mul_one, finite]
  simp

end Railroad.Json
