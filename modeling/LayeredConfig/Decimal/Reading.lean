import LayeredConfig.Decimal.Natural

/-!
# LayeredConfig.Decimal.Reading

Reading a decimal as a double.

1. `nearest` gives the double nearest to `digits · 10 ^ exponent`; what is too large becomes
   infinite and what is too small zero.
2. `readFloat?` reads a written number: an optional sign, then digits with an optional point and
   an optional exponent, or one of `inf`, `infinity` and `nan` in any case.
-/

namespace LayeredConfig.Decimal

/-! ## The nearest double -/

/-- A quotient rounded to the nearest natural number; a half goes to the even neighbour. -/
def divideEven (num den : Nat) : Nat :=
  let q := num / den
  let r := num % den
  if 2 * r < den then q else if den < 2 * r then q + 1 else if q % 2 = 0 then q else q + 1

/-- The place of the first binary digit of a quotient of positive numbers: 0 for the units. -/
def binaryPlace (num den : Nat) : Int :=
  let k := (num.log2 : Int) - den.log2
  if den * Nat.pow 2 k.toNat ≤ num * Nat.pow 2 (-k).toNat then k else k - 1

def infiniteBits : Nat := 2047 * Nat.pow 2 52

/-- The bits of the double nearest to a quotient of positive numbers.  The mantissa has 53 binary
digits, or fewer where the exponent can sink no further; one that is rounded up to 54 digits
carries over into the exponent. -/
def nearestBits (num den : Nat) : Nat :=
  let q := max (binaryPlace num den - 52) (-1074)
  let m := divideEven (num * Nat.pow 2 (-q).toNat) (den * Nat.pow 2 q.toNat)
  min ((q + 1074).toNat * Nat.pow 2 52 + m) infiniteBits

/-- The double nearest to `digits · 10 ^ exponent`.  Far outside the range of the doubles the
answer needs no arithmetic, so that a huge exponent costs nothing. -/
def nearest (digits : Nat) (exponent : Int) : Float :=
  let place := ((Nat.toDigits 10 digits).length : Int) + exponent
  if digits = 0 ∨ place < -400 then 0.0
  else if 400 < place then 1.0 / 0.0
  else Float.ofBits
    (UInt64.ofNat (nearestBits (digits * Nat.pow 10 exponent.toNat) (Nat.pow 10 (-exponent).toNat)))

/-! ## Written numbers -/

/-- A number with its sign reversed if asked. -/
def signed (negative : Bool) (x : Float) : Float := if negative then -x else x

/-- Splits off a sign: whether it is a minus, and what follows. -/
def takeSign : List Char → Bool × List Char
  | '-' :: cs => (true, cs)
  | '+' :: cs => (false, cs)
  | cs => (false, cs)

/-- Reads the exponent part of a number: nothing, or `e`, a sign and digits. -/
def readExponent? : List Char → Option Int
  | [] => some 0
  | c :: cs =>
    if c = 'e' ∨ c = 'E' then
      let (negative, ds) := takeSign cs
      (read? ds).map fun n => if negative then -(n : Int) else n
    else none

def readUnsigned? (cs : List Char) : Option Float :=
  let whole := cs.takeWhile Char.isDigit
  let rest := cs.dropWhile Char.isDigit
  let (fraction, tail) := match rest with
    | '.' :: r => (r.takeWhile Char.isDigit, r.dropWhile Char.isDigit)
    | r => ([], r)
  let word := String.ofList (cs.map Char.toLower)
  if word = "inf" ∨ word = "infinity" then some (1.0 / 0.0)
  else if word = "nan" then some (0.0 / 0.0)
  else if whole = [] ∧ fraction = [] then none
  else (readExponent? tail).map fun e => nearest (value (whole ++ fraction)) (e - fraction.length)

def readFloat? (s : String) : Option Float :=
  let (negative, cs) := takeSign s.toList
  (readUnsigned? cs).map (signed negative)

end LayeredConfig.Decimal
