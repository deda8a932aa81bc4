import LayeredConfig.Decimal.Reading
import LayeredConfig.Json.Basic

/-!
# LayeredConfig.Json.Number

What a written number amounts to.

1. A number without point and exponent is an integer if it fits 64 bits, with or without sign.
   `-0` is no integer.
2. As a double, a number is read in two steps.  Its digits are taken into a 64-bit significand for
   as long as they fit; later digits before the point only count for the exponent, and later
   digits after it are dropped.  Then the significand is multiplied or divided once by a power of
   ten.  So a number of many digits may be off by a unit in the last place.
3. A number too large for a double cannot be read.
-/

namespace LayeredConfig.Json.Number

/-- The numbers that the significand can hold. -/
def significandLimit : Nat := UInt64.size

/-- Takes digits into a significand for as long as they fit; the digits left over. -/
def accumulate (significand : Nat) : List Char → Nat × List Char
  | [] => (significand, [])
  | d :: ds =>
    let next := 10 * significand + (d.toNat - '0'.toNat)
    if next < significandLimit then accumulate next ds else (significand, d :: ds)

/-- The double nearest to a significand. -/
def ofSignificand (n : Nat) : Float := (UInt64.ofNat n).toFloat

/-- The double nearest to `10 ^ k`. -/
def powerOfTen (k : Nat) : Float := Decimal.nearest 1 k

/-- Multiplies or divides by a power of ten, dividing in steps where the exponent is below that
of all doubles.  After three such steps nothing is left of any significand. -/
def scale (f : Float) (e : Int) : Nat → Option Float
  | 0 => some 0.0
  | steps + 1 =>
    if e.natAbs ≤ 308 then
      if 0 ≤ e then
        let g := f * powerOfTen e.natAbs
        if g.isInf then none else some g
      else some (f / powerOfTen e.natAbs)
    else if f == 0.0 then some f
    else if 0 ≤ e then none
    else scale (f / powerOfTen 308) (e + 308) steps

/-- The largest exponent that is told from a larger one. -/
def exponentLimit : Nat := 2147483647

/-- The size of the double that a number amounts to. -/
def magnitude? (n : Number) : Option Float :=
  let (s, rest) := accumulate 0 n.whole
  let (s, dropped) := accumulate s n.fraction
  let e : Int := (rest.length : Int) - (n.fraction.length - dropped.length : Nat)
  match n.exponent with
  | none => scale (ofSignificand s) e 5
  | some (negative, ds) =>
    let x := Decimal.value ds
    if exponentLimit < x then
      if s ≠ 0 ∧ !negative then none else some 0.0
    else scale (ofSignificand s) (if negative then e - x else e + x) 5

/-- The double that a number amounts to. -/
def toFloat? (n : Number) : Option Float :=
  n.magnitude?.map fun f => if n.negative then -f else f

/-- The integer that a number is, from `-2 ^ 63` to `2 ^ 64 - 1`. -/
def toInt? (n : Number) : Option Int :=
  if n.fraction ≠ [] ∨ n.exponent.isSome then none
  else
    let v := Decimal.value n.whole
    if n.negative then
      if 0 < v ∧ v ≤ Nat.pow 2 63 then some (-(v : Int)) else none
    else if v < significandLimit then some v else none

end LayeredConfig.Json.Number

namespace LayeredConfig.Json

/-- The natural number that a document is, if it is below a limit. -/
def asNatBelow? (limit : Nat) : Json → Option Nat
  | .number n =>
    match n.toInt? with
    | some (.ofNat v) => if v < limit then some v else none
    | _ => none
  | _ => none

end LayeredConfig.Json
