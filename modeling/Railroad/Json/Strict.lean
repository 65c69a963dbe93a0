import Railroad.Json

/-!
Values that a strict reader takes: not nested too deep, without strings that stand for no text and
without numbers that overflow.

A strict reader holds a number as an integer of 64 bits times a power of ten. Digits that do not fit
into the integer any more are left out. Both factors are rounded to binary64, and so is their
product, which must be finite (`isFinite`). The roundings make the limit differ by a little from the
largest number of the format, so they are part of the rule.
-/

namespace Railroad.Json

/-- How deep arrays and objects may be nested in a text. -/
def maxTextNesting : Nat := 127

/-- The largest integer of 64 bits. -/
def maxSignificand : Nat := 18446744073709551615

/-- A power of ten above this one is beyond binary64. -/
def maxPower : Nat := 308

/-- The number rounded to 53 binary digits, a half to the even neighbour. -/
def rounded (n : Nat) : Nat :=
  let unit := Nat.pow 2 (Nat.log2 n - 52)
  let floor := n / unit
  let rest := n % unit
  if 2 * rest < unit ∨ (2 * rest = unit ∧ floor % 2 = 0) then floor * unit
  else (floor + 1) * unit

/-- Takes digits into an integer as long as it fits. How many are left out comes second. -/
def takeDigits (significand : Nat) : List Char → Nat × Nat
  | [] => (significand, 0)
  | c :: rest =>
    let next := Nat.ofDigitChars 10 [c] significand
    if next ≤ maxSignificand then takeDigits next rest else (significand, rest.length + 1)

/-- The power of ten that stands behind the letter of an exponent. -/
def writtenPower (exponent : List Char) : Int :=
  let size := Nat.ofDigitChars 10 (exponent.filter Char.isDigit) 0
  if exponent.head? = some '-' then -size else size

/-- The integer and the power of ten that a number is held as, without its sign. -/
def scientific (spelling : List Char) : Nat × Int :=
  let unsigned := spelling.dropWhile (· = '-')
  let tail := unsigned.dropWhile Char.isDigit
  let fraction := (tail.takeWhile fun c => c = '.' || c.isDigit).filter Char.isDigit
  let exponent := (tail.dropWhile fun c => c = '.' || c.isDigit).drop 1
  let (whole, wholeLeft) := takeDigits 0 (unsigned.takeWhile Char.isDigit)
  let (significand, fractionLeft) := takeDigits whole fraction
  (significand, wholeLeft - (fraction.length - fractionLeft : Nat) + writtenPower exponent)

/-- Whether the number is held as a finite one. -/
def isFinite (spelling : List Char) : Bool :=
  let (significand, power) := scientific spelling
  significand = 0 || power < 0 ||
    (decide (power ≤ maxPower) &&
      decide (rounded (rounded significand * rounded (Nat.pow 10 power.toNat)) < Nat.pow 2 1024))

mutual

/-- Every string stands for a text, and every number is finite. -/
def isMeaningful : Json → Bool
  | .number spelling => isFinite spelling
  | .string spelling => (unescape? spelling).isSome
  | .array items => areMeaningful items
  | .object fields => fieldsAreMeaningful fields
  | .null | .bool _ => true

def areMeaningful : List Json → Bool
  | [] => true
  | item :: rest => item.isMeaningful && areMeaningful rest

def fieldsAreMeaningful : List (List Char × Json) → Bool
  | [] => true
  | (name, value) :: rest =>
    (unescape? name).isSome && value.isMeaningful && fieldsAreMeaningful rest

end

/-- Whether a value inside `depth` others is taken. -/
def isStrict (depth : Nat) (value : Json) : Bool :=
  decide (depth + value.nesting ≤ maxTextNesting) && value.isMeaningful

end Railroad.Json
