/-!
# Edit distance

The least number of insertions, deletions and replacements of single characters that turn one text
into another, row by row.
-/

namespace Stache.Text

/-- The next row of distances. `corner` is the entry above and left of the next one, `left` the entry
    just written. -/
def distanceRow (c : Char) (corner left : Nat) : (text : List Char) → (above : List Nat) → List Nat
  | d :: text, up :: above =>
    let here := min (corner + if c = d then 0 else 1) (min (up + 1) (left + 1))
    here :: distanceRow c up here text above
  | _, _ => []

/-- The row after one more character of the first text. -/
def nextDistanceRow (text : List Char) (row : List Nat) (c : Char) : List Nat :=
  match row with
  | [] => []
  | first :: above => (first + 1) :: distanceRow c first (first + 1) text above

/-- The edit distance of two texts. -/
def distance (a b : List Char) : Nat :=
  (a.foldl (nextDistanceRow b) (List.range (b.length + 1))).getLastD 0

end Stache.Text
