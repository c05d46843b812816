/-!
# Edit distance

How many characters have to be inserted, deleted or replaced to turn one text into another. The distances between the prefixes
of two texts are computed row by row, a row for each prefix of the first text. Two rows are kept: the one that was filled last,
and the one in front of it, which the next row is written over.
-/

namespace FlowLint.Text

/-- A row of distances from the prefixes of a text of `n` characters, the empty prefix first. -/
abbrev Row (n : Nat) := Vector Nat (n + 1)

/-- Fills the place behind place `j` of the row for the character `c`, from the row above and the place in front. -/
def fillPlace (b : Array Char) (c : Char) (above row : Row b.size) (j : Fin b.size) : Row b.size :=
  row.set (j.val + 1) (min (min (above[j.val + 1] + 1) (row[j.val] + 1)) (above[j.val] + if c = b[j] then 0 else 1))

/-- The row that was filled last, and a row that is written over. -/
structure Rows (n : Nat) where
  filled : Row n
  spare : Row n

namespace Rows

/-- The distances of the empty text, and no other row yet. -/
def start (n : Nat) : Rows n where
  filled := .ofFn fun j => j.val
  spare := .replicate (n + 1) 0

/-- One more character with its place: the spare row is filled, and the other one is spare from then on. -/
def read (b : Array Char) (rows : Rows b.size) (c : Char × Nat) : Rows b.size where
  filled := (Array.finRange b.size).foldl (fillPlace b c.1 rows.filled) (rows.spare.set 0 (c.2 + 1))
  spare := rows.filled

/-- The rows behind a text. -/
def behind (a : List Char) (b : Array Char) : Rows b.size := a.zipIdx.foldl (read b) (start b.size)

end Rows

/-- The edit distance of two texts. -/
def editDistance (a b : String) : Nat :=
  let b := b.toList.toArray
  (Rows.behind a.toList b).filled[b.size]

/-- The first of the words that are nearest to a word. -/
def nearest? (word : String) : List String → Option String
  | [] => none
  | w :: ws =>
    match nearest? word ws with
    | none => some w
    | some v => if editDistance word w ≤ editDistance word v then some w else some v

end FlowLint.Text
