import Railroad.Json
import Railroad.PathKey
import Railroad.Proofs.Reading

/-!
Quoted text is told by how it is quoted.

* `Text.hexNumber_hexDigits`: a number is read back from its hexadecimal digits.
* `Text.unescape_escaped`: so is a character from its escape, whatever follows.
* `Text.quoted_append_inj`: so a quoted text ends at its mark, and different texts are quoted
  differently. `Text.newline_notMem_quoted`: it is on one line.
-/

namespace Railroad.Text

/-! ### Hexadecimal digits -/

/-- The number with the given hexadecimal digits. -/
def hexNumber (digits : List Char) : Nat :=
  digits.foldl (fun n c => 16 * n + (Json.hexValue? c).getD 0) 0

theorem hexNumber_hexDigits (n : Nat) : hexNumber (hexDigits n) = n := by
  unfold hexDigits
  induction n using Nat.base_induction 16 (by decide) with
  | single m small => simp [Nat.toDigits_of_lt_base small, hexNumber, Json.hexValue?_digitChar small]
  | digit m k small positive ih =>
    rw [← Nat.toDigits_append_toDigits (by decide) positive small, hexNumber, List.foldl_append,
      ← hexNumber, ih, Nat.toDigits_of_lt_base small]
    simp [Json.hexValue?_digitChar small]

theorem isSome_hexValue?_of_mem_hexDigits {n : Nat} {c : Char} (h : c ∈ hexDigits n) :
    (Json.hexValue? c).isSome = true := by
  unfold hexDigits at h
  induction n using Nat.base_induction 16 (by decide) with
  | single m small =>
    rw [Nat.toDigits_of_lt_base small, List.mem_singleton] at h
    rw [h, Json.hexValue?_digitChar small]
    rfl
  | digit m k small positive ih =>
    rw [← Nat.toDigits_append_toDigits (by decide) positive small, List.mem_append,
      Nat.toDigits_of_lt_base small, List.mem_singleton] at h
    rcases h with front | rfl
    · exact ih front
    · rw [Json.hexValue?_digitChar small]
      rfl

/-! ### Escapes -/

/-- The character that an escaped text starts with, and what comes behind it. -/
def unescape : List Char → Option (Char × List Char)
  | '\\' :: '0' :: rest => some ('\x00', rest)
  | '\\' :: 't' :: rest => some ('\t', rest)
  | '\\' :: 'r' :: rest => some ('\r', rest)
  | '\\' :: 'n' :: rest => some ('\n', rest)
  | '\\' :: 'u' :: _ :: rest =>
    some (.ofNat (hexNumber (rest.takeWhile (· ≠ '\x7d'))), (rest.dropWhile (· ≠ '\x7d')).tail)
  | '\\' :: c :: rest => some (c, rest)
  | c :: rest => some (c, rest)
  | [] => none

/-- What stands behind the backslash of a short escape, with the character that it is for. -/
def shortEscapes : List (Char × Char) :=
  [('0', '\x00'), ('t', '\t'), ('r', '\r'), ('n', '\n'), ('\\', '\\'), ('"', '"')]

/-- How a character is written between double marks. -/
theorem escaped_cases (c : Char) :
    (escaped '"' c = [c] ∧ c ∉ ['\\', '"', '\n']) ∨
      (∃ letter, escaped '"' c = ['\\', letter] ∧ (letter, c) ∈ shortEscapes) ∨
      escaped '"' c = codePointEscape c := by
  unfold escaped
  split
  · exact .inr (.inl ⟨_, rfl, by simp [shortEscapes, *]⟩)
  split
  · exact .inr (.inl ⟨_, rfl, by simp [shortEscapes, *]⟩)
  split
  · exact .inr (.inl ⟨_, rfl, by simp [shortEscapes, *]⟩)
  split
  · exact .inr (.inl ⟨_, rfl, by simp [shortEscapes, *]⟩)
  split
  · rename_i mark
    exact .inr (.inl ⟨_, rfl, by rcases mark with rfl | rfl <;> simp [shortEscapes]⟩)
  split
  · exact .inr (.inr rfl)
  · rename_i newline mark _
    exact .inl ⟨rfl, by simp_all⟩

/-- **A character is read back from its escape.** -/
theorem unescape_escaped (c : Char) (rest : List Char) :
    unescape (escaped '"' c ++ rest) = some (c, rest) := by
  rcases escaped_cases c with ⟨plain, other⟩ | ⟨letter, short, table⟩ | number
  · rw [plain]
    have noBackslash : c ≠ '\\' := by
      rintro rfl
      simp at other
    simp [unescape, noBackslash]
  · rw [short]
    have each : ∀ pair ∈ shortEscapes, ∀ rest,
        unescape ('\\' :: pair.1 :: rest) = some (pair.2, rest) := by
      simp [shortEscapes, unescape]
    exact each _ table rest
  · have inside : ∀ digit ∈ hexDigits c.toNat, decide (digit ≠ '\x7d') = true := by
      intro digit hd
      rw [decide_eq_true_eq]
      rintro rfl
      have value := isSome_hexValue?_of_mem_hexDigits hd
      cases value
    have cut := Reading.takeWhile_dropWhile_append inside
      (by simp : ∀ d ∈ ('\x7d' :: rest).head?, decide (d ≠ '\x7d') = false)
    simp only [number, codePointEscape, List.append_assoc, List.cons_append, List.nil_append,
      unescape]
    rw [cut.1, cut.2, hexNumber_hexDigits, Char.ofNat_toNat, List.tail_cons]

theorem escaped_append_inj {c d : Char} {x y : List Char}
    (h : escaped '"' c ++ x = escaped '"' d ++ y) : c = d ∧ x = y := by
  have read := congrArg unescape h
  rw [unescape_escaped, unescape_escaped] at read
  simpa using read

/-! ### Quoted texts -/

/-- No escape starts with the mark at the end. -/
theorem escaped_append_ne (c : Char) (x y : List Char) : escaped '"' c ++ x ≠ '"' :: y := by
  rcases escaped_cases c with ⟨plain, other⟩ | ⟨letter, short, -⟩ | number
  · rw [plain]
    rintro ⟨⟩
    simp at other
  · simp [short]
  · simp [number, codePointEscape]

theorem newline_notMem_escaped (c : Char) : '\n' ∉ escaped '"' c := by
  intro newline
  rcases escaped_cases c with ⟨plain, other⟩ | ⟨letter, short, table⟩ | number
  · rw [plain, List.mem_singleton] at newline
    subst newline
    simp at other
  · rw [short] at newline
    have none : ∀ pair ∈ shortEscapes, '\n' ∉ ['\\', pair.1] := by decide
    exact none _ table newline
  · rw [number] at newline
    simp only [codePointEscape, List.mem_append, List.mem_cons, List.not_mem_nil, or_false]
      at newline
    rcases newline with (front | digit) | last
    · revert front
      decide
    · have value := isSome_hexValue?_of_mem_hexDigits digit
      cases value
    · cases last

theorem flatMap_escaped_append_inj {cs ds x y : List Char}
    (h : cs.flatMap (escaped '"') ++ '"' :: x = ds.flatMap (escaped '"') ++ '"' :: y) :
    cs = ds ∧ x = y := by
  induction cs generalizing ds with
  | nil =>
    cases ds with
    | nil => exact ⟨rfl, (List.cons.inj h).2⟩
    | cons d ds =>
      rw [List.flatMap_cons, List.append_assoc] at h
      exact absurd h.symm (escaped_append_ne d _ _)
  | cons c cs ih =>
    rw [List.flatMap_cons, List.append_assoc] at h
    cases ds with
    | nil => exact absurd h (escaped_append_ne c _ _)
    | cons d ds =>
      rw [List.flatMap_cons, List.append_assoc] at h
      obtain ⟨rfl, rest⟩ := escaped_append_inj h
      obtain ⟨rfl, same⟩ := ih rest
      exact ⟨rfl, same⟩

/-- **A quoted text ends at its mark**, and different texts are quoted differently. -/
theorem quoted_append_inj {s t : String} {x y : List Char}
    (h : (quoted s).toList ++ x = (quoted t).toList ++ y) : s = t ∧ x = y := by
  simp only [quoted, String.toList_ofList, List.cons_append, List.append_assoc, List.nil_append]
    at h
  obtain ⟨text, rest⟩ := flatMap_escaped_append_inj (List.cons.inj h).2
  exact ⟨String.toList_inj.mp text, rest⟩

/-- A quoted text is on one line. -/
theorem newline_notMem_quoted (s : String) : '\n' ∉ (quoted s).toList := by
  simp [quoted, newline_notMem_escaped]

end Railroad.Text
