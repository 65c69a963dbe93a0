/-!
How alike two words are, by the longest sequence of characters that they share in order.

`commonLength` counts that sequence, `similarity` is its share of both words: 1 for equal words,
0 for words without a common character. The count goes through the rows of a table: the row of a
suffix of the first word holds, for every suffix of the second, the length that the two suffixes
have in common.
-/

namespace Railroad.Text

/-- The row of `a :: rest` from the row of `rest`, for the second word `bs` and its suffixes. -/
def commonRow (a : Char) : List Char → List Nat → List Nat
  | [], _ => [0]
  | b :: bs, row =>
    let shorter := commonRow a bs row.tail
    (if a = b then row.tail.headD 0 + 1 else max (row.headD 0) (shorter.headD 0)) :: shorter

/-- The row of the first word `as` for the second word `bs`. -/
def commonRows (as bs : List Char) : List Nat :=
  as.foldr (fun a row => commonRow a bs row) (List.replicate (bs.length + 1) 0)

/-- The length of a longest common subsequence of two words. -/
def commonLength (as bs : List Char) : Nat :=
  (commonRows as bs).headD 0

/-- Twice the common length over the length of both words. Two empty words are alike. -/
def similarity (a b : String) : Rat :=
  let total := a.length + b.length
  if total = 0 then 1 else mkRat (2 * commonLength a.toList b.toList) total

end Railroad.Text
