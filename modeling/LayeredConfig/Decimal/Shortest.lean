import LayeredConfig.Decimal.Natural

/-!
# LayeredConfig.Decimal.Shortest

The shortest decimal that reads back as a given double.

1. A finite double is `m · 2 ^ q`.  The reals that round to it form an interval around it, whose
   ends belong to it when `m` is even.
2. Grids of decimals are tried from the coarsest on: first the numbers with one significant
   digit, then those with two, and so on.
3. On each grid only the two neighbours of the double can be in the interval.  The first grid
   with a hit decides; of two hits the nearer one is taken, and the larger one if both are equally
   near.

Seventeen digits always suffice.
-/

namespace LayeredConfig.Decimal

/-! ## Doubles -/

/-- What the bits of a double stand for. -/
inductive Binary64 where
  | nan
  | infinite (negative : Bool)
  /-- The number `mantissa · 2 ^ exponent`, with the sign kept apart so that zero has one too. -/
  | finite (negative : Bool) (mantissa : Nat) (exponent : Int)

/-- Reads off sign, mantissa and exponent. -/
def Binary64.ofFloat (x : Float) : Binary64 :=
  let bits : Nat := x.toBits.toNat
  let negative := bits / Nat.pow 2 63 == 1
  let exponent : Nat := bits / Nat.pow 2 52 % Nat.pow 2 11
  let fraction := bits % Nat.pow 2 52
  if exponent = 2047 then
    if fraction = 0 then .infinite negative else .nan
  else if exponent = 0 then .finite negative fraction (-1074)
  else .finite negative (Nat.pow 2 52 + fraction) ((exponent : Int) - 1075)

/-! ## The search -/

/-- A decimal `significand · 10 ^ exponent`. -/
structure Scientific where
  significand : Nat
  exponent : Int
deriving Repr, DecidableEq

/-- The reals that round to a double, measured in quarters of the unit `2 ^ q`: the double
itself, the two ends, and whether the ends belong to it. -/
structure Neighbourhood where
  low : Nat
  centre : Nat
  high : Nat
  closed : Bool

/-- The neighbourhood of `m · 2 ^ q`.  Below a power of two the doubles lie twice as dense. -/
def Neighbourhood.of (m : Nat) (q : Int) : Neighbourhood where
  low := 4 * m - (if m = Nat.pow 2 52 ∧ -1074 < q then 1 else 2)
  centre := 4 * m
  high := 4 * m + 2
  closed := m % 2 == 0

/-- The point of the grid of multiples of `10 ^ k` that lies in the neighbourhood, if one does;
the nearer of two, and the larger of two that are equally near. -/
def Neighbourhood.gridPoint? (b : Neighbourhood) (q k : Int) : Option Nat :=
  let up := Nat.pow 2 (q - 2).toNat * Nat.pow 10 (-k).toNat
  let down := Nat.pow 2 (2 - q).toNat * Nat.pow 10 k.toNat
  let inside (d : Nat) : Bool :=
    if b.closed then b.low * up ≤ d * down && d * down ≤ b.high * up
    else b.low * up < d * down && d * down < b.high * up
  let centre := b.centre * up
  let d := centre / down
  match inside d, inside (d + 1) with
  | true, true => some (if centre - d * down < (d + 1) * down - centre then d else d + 1)
  | true, false => some d
  | false, true => some (d + 1)
  | false, false => none

/-- Tries the grids of `10 ^ k`, `10 ^ (k - 1)`, …; the last one rounds down. -/
def Neighbourhood.search (b : Neighbourhood) (q : Int) : Nat → Int → Scientific
  | 0, k =>
    let up := Nat.pow 2 (q - 2).toNat * Nat.pow 10 (-k).toNat
    let down := Nat.pow 2 (2 - q).toNat * Nat.pow 10 k.toNat
    ⟨b.centre * up / down, k⟩
  | n + 1, k =>
    match b.gridPoint? q k with
    | some d => ⟨d, k⟩
    | none => b.search q n (k - 1)

/-- The place of the first significant digit of `m · 2 ^ q`: 0 for the units. -/
def leadingPlace (m : Nat) (q : Int) : Int :=
  let num := m * Nat.pow 2 q.toNat
  let den := Nat.pow 2 (-q).toNat
  if den ≤ num then ((digits (num / den)).length : Int) - 1
  else -((digits (den / num)).length : Int)

/-- The shortest decimal that reads back as `m · 2 ^ q`, where `0 < m`. -/
def shortest (m : Nat) (q : Int) : Scientific :=
  (Neighbourhood.of m q).search q 17 (leadingPlace m q)

/-! ## Positional text -/

/-- The digits of a decimal with trailing zeros moved into the exponent. -/
def Scientific.significant (s : Scientific) : List Char × Int :=
  let ds := digits s.significand
  let kept := (ds.reverse.dropWhile (· == '0')).reverse
  (kept, s.exponent + (ds.length - kept.length : Nat))

/-- A decimal without exponent; a fraction is written only where there is one. -/
def Scientific.positional (s : Scientific) : List Char :=
  let (ds, e) := s.significant
  if 0 ≤ e then ds ++ List.replicate e.toNat '0'
  else
    let places := (-e).toNat
    if places < ds.length then
      ds.take (ds.length - places) ++ '.' :: ds.drop (ds.length - places)
    else '0' :: '.' :: List.replicate (places - ds.length) '0' ++ ds

/-- The text of a double: the shortest digits that read back, without exponent; `-0` for the
negative zero, `inf`, `-inf` and `NaN`. -/
def floatText (x : Float) : String :=
  match Binary64.ofFloat x with
  | .nan => "NaN"
  | .infinite negative => if negative then "-inf" else "inf"
  | .finite negative m q =>
    let body := if m = 0 then ['0'] else (shortest m q).positional
    String.ofList (if negative then '-' :: body else body)

end LayeredConfig.Decimal
