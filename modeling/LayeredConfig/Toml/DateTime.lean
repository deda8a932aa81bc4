import LayeredConfig.Decimal.Natural

/-!
# LayeredConfig.Toml.DateTime

Dates and times of TOML.

1. A value is a date, a date and a time, or a time; after a date and a time there may be an offset
   from universal time.
2. Read as text, date and time are joined by `T`, universal time is `Z`, and a fraction of a second
   has at most nine digits, without zeros at its end.
3. A date must exist in the calendar; a minute has up to 61 seconds.

Whether a text that begins with a digit is meant as a date or a time shows early: four digits and
`-`, or two digits of an hour and `:`.
-/

namespace LayeredConfig.Toml

def digitsExactly? : Nat → List Char → Option (List Char × List Char)
  | 0, cs => some ([], cs)
  | _ + 1, [] => none
  | n + 1, c :: cs =>
    if c.isDigit then (digitsExactly? n cs).map fun (ds, r) => (c :: ds, r) else none

/-- Reads two digits of a number between two bounds. -/
def twoDigits? (low high : Nat) (cs : List Char) : Option (List Char × List Char) :=
  match digitsExactly? 2 cs with
  | some (ds, rest) =>
    if low ≤ Decimal.value ds ∧ Decimal.value ds ≤ high then some (ds, rest) else none
  | none => none

/-- What follows a character, if it comes next. -/
def after? (c : Char) : List Char → Option (List Char)
  | x :: cs => if x = c then some cs else none
  | [] => none

/-! ## Dates -/

def isLeapYear (year : Nat) : Bool :=
  year % 4 == 0 && (year % 100 != 0 || year % 400 == 0)

def daysIn (year month : Nat) : Nat :=
  if month = 2 then (if isLeapYear year then 29 else 28)
  else if month = 4 ∨ month = 6 ∨ month = 9 ∨ month = 11 then 30
  else 31

/-- Reads month and day after a year and its dash. -/
def monthAndDay? (year : List Char) (cs : List Char) : Option (List Char × List Char) := do
  let (month, cs) ← twoDigits? 1 12 cs
  let cs ← after? '-' cs
  let (day, cs) ← twoDigits? 1 (daysIn (Decimal.value year) (Decimal.value month)) cs
  return (year ++ '-' :: month ++ '-' :: day, cs)

/-! ## Times -/

/-- The written form of the digits of a fraction of a second. -/
def fractionText (ds : List Char) : List Char :=
  match ((ds.take 9).reverse.dropWhile (· == '0')).reverse with
  | [] => []
  | kept => '.' :: kept

/-- Reads minutes and seconds after an hour and its colon. -/
def minuteAndSecond? (hour : List Char) (cs : List Char) : Option (List Char × List Char) := do
  let (minute, cs) ← twoDigits? 0 59 cs
  let cs ← after? ':' cs
  let (second, cs) ← twoDigits? 0 60 cs
  let text := hour ++ ':' :: minute ++ ':' :: second
  match cs with
  | '.' :: more =>
    match more.takeWhile Char.isDigit with
    | [] => return (text, cs)
    | ds => return (text ++ fractionText ds, more.dropWhile Char.isDigit)
  | cs => return (text, cs)

/-- Reads a time, if an hour and a colon come next; the outer `none` is an error. -/
def time? (cs : List Char) : Option (Option (List Char × List Char)) :=
  match twoDigits? 0 23 cs with
  | some (hour, ':' :: rest) => (minuteAndSecond? hour rest).map some
  | _ => some none

/-! ## Offsets -/

/-- Reads an offset from universal time, if one comes next; the outer `none` is an error. -/
def offset? (cs : List Char) : Option (List Char × List Char) :=
  match cs with
  | [] => some ([], [])
  | c :: rest =>
    if c = 'Z' ∨ c = 'z' then some (['Z'], rest)
    else if c = '+' ∨ c = '-' then do
      let (hour, rest) ← twoDigits? 0 23 rest
      let rest ← after? ':' rest
      let (minute, rest) ← twoDigits? 0 59 rest
      let sign := if Decimal.value (hour ++ minute) = 0 then '+' else c
      return (sign :: hour ++ ':' :: minute, rest)
    else some ([], cs)

/-! ## All together -/

/-- Reads what may follow a date: a `T` or a space, a time, and an offset. -/
def timeOfDay? (date : List Char) (cs : List Char) : Option (List Char × List Char) :=
  match cs with
  | c :: rest =>
    if c = 'T' ∨ c = 't' ∨ c = ' ' then
      match time? rest with
      | none => none
      | some none => some (date, cs)
      | some (some (time, rest)) => do
        let (offset, rest) ← offset? rest
        return (date ++ 'T' :: time ++ offset, rest)
    else some (date, cs)
  | [] => some (date, [])

/-- Reads a date or a time, if one comes next; the outer `none` is an error. -/
def dateTime? (cs : List Char) : Option (Option (String × List Char)) :=
  match digitsExactly? 4 cs with
  | some (year, '-' :: rest) => do
    let (date, rest) ← monthAndDay? year rest
    let (text, rest) ← timeOfDay? date rest
    return some (String.ofList text, rest)
  | _ =>
    match time? cs with
    | none => none
    | some none => some none
    | some (some (text, rest)) => some (some (String.ofList text, rest))

end LayeredConfig.Toml
