/-!
# The shortest decimal of a double

The decimal with the fewest digits that reads back as a given double, and of those the nearest. A finite
positive double is `m · 2 ^ q`; the numbers that round to it fill the interval between the midpoints to
its neighbours, and the midpoints belong to it when `m` is even. For one digit, two digits and so on, the
two neighbours of the double on that decimal grid are tested in exact arithmetic, and the first grid with
a hit wins. Seventeen digits always suffice.

All numbers of one search are numerators over one denominator.
-/

namespace Stache.Decimal

/-- A double and the interval of the numbers that round to it, over one denominator. -/
structure Interval where
  /-- The numerator of the double. -/
  value : Nat
  /-- The numerator of the lower end. -/
  low : Nat
  /-- The numerator of the upper end. -/
  high : Nat
  /-- The denominator. -/
  unit : Nat
  /-- The ends belong to the interval. -/
  closed : Bool

namespace Interval

/-- The interval of the finite positive double with the given fields of its bits. -/
def ofFields (exponent fraction : Nat) : Interval :=
  let m := if exponent = 0 then fraction else fraction + Nat.pow 2 52
  let q : Int := (if exponent = 0 then 1 else exponent : Nat) - 1075
  let up := (q - 2).toNat
  let below := if fraction = 0 ∧ 1 < exponent then 1 else 2
  let power := Nat.pow 2 up
  ⟨4 * m * power, (4 * m - below) * power, (4 * m + 2) * power, Nat.pow 2 (2 - q).toNat, m % 2 == 0⟩

/-- The interval holds the number with the given numerator. -/
def has (i : Interval) (numerator : Nat) : Bool :=
  if i.closed then i.low ≤ numerator && numerator ≤ i.high
  else i.low < numerator && numerator < i.high

/-- The interval with all numbers multiplied by a factor. -/
def scale (i : Interval) (factor : Nat) : Interval :=
  ⟨i.value * factor, i.low * factor, i.high * factor, i.unit, i.closed⟩

/-- The number of digits before the point or, for a value below one, minus the number of zeros between
    the point and its first digit. -/
def magnitude (i : Interval) : Int :=
  if i.unit ≤ i.value then ((Nat.toDigits 10 (i.value / i.unit)).length : Int)
  else -leadingZeros 400 (i.value * 10)
where
  /-- The number of times a value below one can be multiplied by ten and stay below one; the fuel
      covers all doubles. -/
  leadingZeros : Nat → Nat → Int
    | 0, _ => 0
    | fuel + 1, value => if i.unit ≤ value then 0 else 1 + leadingZeros fuel (value * 10)

/-- The neighbour of the value on the grid of multiples of `10 ^ exponent` that reads back and is
    nearest, if any does. -/
def onGrid? (i : Interval) (exponent : Int) : Option Nat :=
  let scaled := i.scale (Nat.pow 10 (-exponent).toNat)
  let step := i.unit * Nat.pow 10 exponent.toNat
  let below := scaled.value / step
  let above := below + 1
  let toBelow := scaled.value - below * step
  let toAbove := above * step - scaled.value
  match scaled.has (below * step) && below != 0, scaled.has (above * step) with
  | true, true =>
    if toBelow < toAbove ∨ (toBelow = toAbove ∧ below % 2 = 0) then some below else some above
  | true, false => some below
  | false, true => some above
  | false, false => none

/-- The first grid with a hit, from `digits` digits on. -/
def search (i : Interval) (magnitude : Int) : (tries digits : Nat) → Nat × Int
  | 0, digits => (0, magnitude - digits)
  | tries + 1, digits =>
    match i.onGrid? (magnitude - digits) with
    | some d => (d, magnitude - digits)
    | none => i.search magnitude tries (digits + 1)

end Interval

/-- The digits and the decimal exponent of the shortest decimal of a finite positive double. -/
def shortest (exponent fraction : Nat) : Nat × Int :=
  let i := Interval.ofFields exponent fraction
  i.search i.magnitude 17 1

/-! ## Positional notation -/

/-- A number of digits times a power of ten, without an exponent and with at least one digit after the
    point. -/
def positional (digits : Nat) (exponent : Int) : String :=
  let text := Nat.toDigits 10 digits
  if 0 ≤ exponent then String.ofList (text ++ List.replicate exponent.toNat '0') ++ ".0"
  else
    let places := (-exponent).toNat
    let padded := List.replicate (places + 1 - text.length) '0' ++ text
    let cut := padded.length - places
    String.ofList (padded.take cut) ++ "." ++ String.ofList (padded.drop cut)

/-- A double in positional notation, with the fewest digits that read back. -/
def text (x : Float) : String :=
  let bits := x.toBits.toNat
  let sign := if bits / Nat.pow 2 63 = 1 then "-" else ""
  let exponent := bits / Nat.pow 2 52 % Nat.pow 2 11
  let fraction := bits % Nat.pow 2 52
  if exponent = 2047 then sign ++ (if fraction = 0 then "inf" else "NaN")
  else if exponent = 0 ∧ fraction = 0 then sign ++ "0.0"
  else
    let (digits, power) := shortest exponent fraction
    sign ++ positional digits power

end Stache.Decimal
