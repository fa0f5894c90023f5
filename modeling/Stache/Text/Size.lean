/-!
# Sizes

A number of bytes, as people read it: whole bytes below 1024, and from there on the largest of three units
that fits, with one decimal place. A half goes to the even neighbour.
-/

namespace Stache.Text

/-- The whole number nearest to a quotient; of two, the even one. -/
def roundDiv (numerator denominator : Nat) : Nat :=
  let quotient := numerator / denominator
  let rest := 2 * (numerator % denominator)
  if rest < denominator ∨ (rest = denominator ∧ quotient % 2 = 0) then quotient else quotient + 1

/-- The name of the unit of a size of at least 1024 bytes, and the bytes in it. -/
def sizeUnit (bytes : Nat) : String × Nat :=
  if bytes < Nat.pow 1024 2 then ("KB", 1024)
  else if bytes < Nat.pow 1024 3 then ("MB", Nat.pow 1024 2)
  else ("GB", Nat.pow 1024 3)

/-- A size as it is shown. -/
def shownSize (bytes : Nat) : String :=
  if bytes < 1024 then toString bytes ++ " B"
  else
    let (name, unit) := sizeUnit bytes
    let tenths := roundDiv (10 * bytes) unit
    toString (tenths / 10) ++ "." ++ toString (tenths % 10) ++ " " ++ name

end Stache.Text
