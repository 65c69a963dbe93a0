import Railroad.Text.ExtendingMark
import Railroad.Text.Unprintable

/-!
Quoted text for messages: every character that a reader could miss is written as an escape.

`escaped` writes one character between given quotation marks; `quoted` and `quotedChar` put a text
between double marks and a single character between single marks. Only the mark that surrounds the
text is escaped, so `"it's"` needs no backslash.
-/

namespace Railroad.Text

/-- The lowercase hexadecimal digits of a number, without leading zeros. -/
def hexDigits (n : Nat) : List Char :=
  Nat.toDigits 16 n

/-- The escape of a code point by its number. -/
def codePointEscape (c : Char) : List Char :=
  ['\\', 'u', '\x7b'] ++ hexDigits c.toNat ++ ['\x7d']

/-- One character as it stands between two `mark`s. A character that shows nothing of its own, or
that would join the one before it, is written by its number. -/
def escaped (mark c : Char) : List Char :=
  if c = '\x00' then ['\\', '0']
  else if c = '\t' then ['\\', 't']
  else if c = '\r' then ['\\', 'r']
  else if c = '\n' then ['\\', 'n']
  else if c = '\\' ∨ c = mark then ['\\', c]
  else if isExtendingMark c || isUnprintable c then codePointEscape c
  else [c]

/-- A text between double quotation marks. -/
def quoted (s : String) : String :=
  String.ofList ('"' :: s.toList.flatMap (escaped '"') ++ ['"'])

/-- A character between single quotation marks. -/
def quotedChar (c : Char) : String :=
  String.ofList ('\x27' :: escaped '\x27' c ++ ['\x27'])

end Railroad.Text
