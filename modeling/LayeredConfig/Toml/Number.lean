import LayeredConfig.Decimal.Reading
import LayeredConfig.Loading.Document
import LayeredConfig.Toml.Text

/-!
# LayeredConfig.Toml.Number

Numbers of TOML.

1. A decimal integer has a sign or none and no needless leading zero; hexadecimal, octal and
   binary ones begin with `0x`, `0o` and `0b` and have no sign.
2. A float is a decimal integer with a fraction, an exponent, or both; the digits of a fraction
   and of an exponent may begin with zeros.  `inf` and `nan` are floats, with or without a sign.
3. Between two digits there may be one underscore.
4. An integer beyond 64 bits is an error, and so is a float without sign or with `+` that is too
   large; one with `-` is then minus infinity.
-/

namespace LayeredConfig.Toml

/-! ## Digits -/

/-- Reads the digits that follow a digit, with single underscores between them. -/
def moreDigits? (isDigit : Char → Bool) : List Char → Option (List Char × List Char)
  | [] => some ([], [])
  | '_' :: c :: cs =>
    if isDigit c then (moreDigits? isDigit cs).map fun (ds, r) => (c :: ds, r) else none
  | ['_'] => none
  | c :: cs =>
    if isDigit c then (moreDigits? isDigit cs).map fun (ds, r) => (c :: ds, r)
    else some ([], c :: cs)

/-- Reads digits, of which there must be one. -/
def someDigits? (isDigit : Char → Bool) : List Char → Option (List Char × List Char)
  | [] => none
  | c :: cs =>
    if isDigit c then (moreDigits? isDigit cs).map fun (ds, r) => (c :: ds, r) else none

/-- Reads digits without a needless leading zero. -/
def plainDigits? : List Char → Option (List Char × List Char)
  | '0' :: cs => some (['0'], cs)
  | cs => someDigits? Char.isDigit cs

/-! ## Integers -/

/-- The number that digits of a base stand for. -/
def baseValue (base : Nat) (ds : List Char) : Nat :=
  ds.foldl (fun n c => base * n + (Json.Parser.hexDigit? c).getD 0) 0

def integer? (i : Int) : Option Scalar := (Decimal.int64? i).map .integer

/-- Reads the digits of a hexadecimal, octal or binary integer. -/
def basedInteger? (base : Nat) (cs : List Char) : Option (Scalar × List Char) := do
  let isDigit (c : Char) := match Json.Parser.hexDigit? c with
    | some d => d < base
    | none => false
  let (ds, rest) ← someDigits? isDigit cs
  return (← integer? (baseValue base ds), rest)

/-! ## Floats -/

/-- Reads a point and digits, if a point comes next. -/
def fractionDigits? : List Char → Option (Option (List Char) × List Char)
  | '.' :: cs => (someDigits? Char.isDigit cs).map fun (ds, r) => (some ds, r)
  | cs => some (none, cs)

/-- Reads an exponent, if one comes next. -/
def exponentPart? : List Char → Option (Option Int × List Char)
  | c :: cs =>
    if c = 'e' ∨ c = 'E' then do
      let (negative, cs) := Decimal.takeSign cs
      let (ds, rest) ← someDigits? Char.isDigit cs
      let x : Int := Decimal.value ds
      return (some (if negative then -x else x), rest)
    else some (none, c :: cs)
  | [] => some (none, [])

def specialFloat? : List Char → Option (Float × List Char)
  | 'i' :: 'n' :: 'f' :: cs => some (1.0 / 0.0, cs)
  | 'n' :: 'a' :: 'n' :: cs => some (0.0 / 0.0, cs)
  | _ => none

/-! ## Numbers -/

/-- Reads a decimal number after its sign. -/
def decimalNumber? (negative : Bool) (cs : List Char) : Option (Scalar × List Char) := do
  let (whole, cs) ← plainDigits? cs
  let (fraction, cs) ← fractionDigits? cs
  let (exponent, cs) ← exponentPart? cs
  if fraction.isNone ∧ exponent.isNone then
    let v : Int := Decimal.value whole
    return (← integer? (if negative then -v else v), cs)
  else
    let ds := fraction.getD []
    let x := Decimal.nearest (Decimal.value (whole ++ ds)) (exponent.getD 0 - ds.length)
    if x.isInf ∧ !negative then none
    else return (.float (Decimal.signed negative x), cs)

def number? (cs : List Char) : Option (Scalar × List Char) :=
  match cs with
  | '0' :: 'x' :: rest => basedInteger? 16 rest
  | '0' :: 'o' :: rest => basedInteger? 8 rest
  | '0' :: 'b' :: rest => basedInteger? 2 rest
  | cs =>
    let (negative, rest) := Decimal.takeSign cs
    match specialFloat? rest with
    | some (x, more) => some (.float (Decimal.signed negative x), more)
    | none => decimalNumber? negative rest

end LayeredConfig.Toml
