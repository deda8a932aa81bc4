import LayeredConfig.Json.Basic

/-!
# LayeredConfig.Json.Parser

Reading JSON.  The grammar is that of RFC 8259: blanks are space, tab, line feed and carriage
return; a number has no needless leading zero; a string holds no control character below U+0020.
Nothing but blanks may follow the document.

Every reader takes what it needs from the front of the text and returns the rest.  A document in
brackets is shorter than the text it stands in, so the length of the text bounds the nesting.
-/

namespace LayeredConfig.Json.Parser

/-- Whether a character may stand between tokens. -/
def isSpace (c : Char) : Bool := c == ' ' || c == '\t' || c == '\n' || c == '\r'

def skip (cs : List Char) : List Char := cs.dropWhile isSpace

/-! ## Strings -/

def hexDigit? (c : Char) : Option Nat :=
  if c.isDigit then some (c.toNat - '0'.toNat)
  else if 'a' ≤ c ∧ c ≤ 'f' then some (c.toNat - 'a'.toNat + 10)
  else if 'A' ≤ c ∧ c ≤ 'F' then some (c.toNat - 'A'.toNat + 10)
  else none

def hexFour? (a b c d : Char) : Option Nat := do
  return ((← hexDigit? a) * 16 + (← hexDigit? b)) * 256 + (← hexDigit? c) * 16 + (← hexDigit? d)

/-- The character of a short escape. -/
def shortEscape? (c : Char) : Option Char :=
  if c = '"' ∨ c = '\\' ∨ c = '/' then some c
  else if c = 'b' then some '\x08'
  else if c = 'f' then some '\x0c'
  else if c = 'n' then some '\n'
  else if c = 'r' then some '\r'
  else if c = 't' then some '\t'
  else none

/-- The character of a `\u` escape, unless it is a surrogate. -/
def unit? (n : Nat) : Option Char :=
  if 0xD800 ≤ n ∧ n < 0xE000 then none else some (Char.ofNat n)

/-- The character of two `\u` escapes that are surrogates of each other. -/
def surrogatePair? (high low : Nat) : Option Char :=
  if 0xD800 ≤ high ∧ high < 0xDC00 ∧ 0xDC00 ≤ low ∧ low < 0xE000 then
    some (Char.ofNat (0x10000 + (high - 0xD800) * 0x400 + (low - 0xDC00)))
  else none

/-- Reads a string after its opening quote; `done` holds what was read, the last first.  A string
with a surrogate that has no partner is no text. -/
def stringRest? (done : Option (List Char)) : List Char → Option (Option String × List Char)
  | [] => none
  | c :: cs =>
    if c = '"' then some (done.map fun d => String.ofList d.reverse, cs)
    else if c = '\\' then
      match cs with
      | 'u' :: h1 :: h2 :: h3 :: h4 :: rest =>
        match hexFour? h1 h2 h3 h4 with
        | none => none
        | some n =>
          let alone := done.bind fun d => (unit? n).map (· :: d)
          match rest with
          | '\\' :: 'u' :: k1 :: k2 :: k3 :: k4 :: tail =>
            match (hexFour? k1 k2 k3 k4).bind (surrogatePair? n) with
            | some x => stringRest? (done.map (x :: ·)) tail
            | none => stringRest? alone ('\\' :: 'u' :: k1 :: k2 :: k3 :: k4 :: tail)
          | rest => stringRest? alone rest
      | e :: more =>
        match shortEscape? e with
        | some x => stringRest? (done.map (x :: ·)) more
        | none => none
      | [] => none
    else if c.toNat < 0x20 then none
    else stringRest? (done.map (c :: ·)) cs

/-! ## Numbers -/

/-- Reads the digits before the point. -/
def whole? (cs : List Char) : Option (List Char × List Char) :=
  match cs with
  | '0' :: rest =>
    match rest with
    | d :: _ => if d.isDigit then none else some (['0'], rest)
    | [] => some (['0'], rest)
  | cs =>
    match cs.takeWhile Char.isDigit with
    | [] => none
    | ds => some (ds, cs.dropWhile Char.isDigit)

/-- Reads a point and the digits after it, if a point comes next. -/
def fraction? (cs : List Char) : Option (List Char × List Char) :=
  match cs with
  | '.' :: rest =>
    match rest.takeWhile Char.isDigit with
    | [] => none
    | ds => some (ds, rest.dropWhile Char.isDigit)
  | cs => some ([], cs)

/-- Reads an exponent, if one comes next. -/
def exponent? (cs : List Char) : Option (Option (Bool × List Char) × List Char) :=
  match cs with
  | c :: rest =>
    if c = 'e' ∨ c = 'E' then
      let (negative, ds) := match rest with
        | '-' :: ds => (true, ds)
        | '+' :: ds => (false, ds)
        | ds => (false, ds)
      match ds.takeWhile Char.isDigit with
      | [] => none
      | xs => some (some (negative, xs), ds.dropWhile Char.isDigit)
    else some (none, cs)
  | [] => some (none, [])

def number? (cs : List Char) : Option (Number × List Char) := do
  let (negative, cs) := match cs with
    | '-' :: cs => (true, cs)
    | cs => (false, cs)
  let (whole, cs) ← whole? cs
  let (fraction, cs) ← fraction? cs
  let (exponent, cs) ← exponent? cs
  return (⟨negative, whole, fraction, exponent⟩, cs)

/-! ## Documents -/

mutual

/-- Reads a document, with its nesting bounded. -/
def value? : Nat → List Char → Option (Json × List Char)
  | 0, _ => none
  | depth + 1, cs =>
    match skip cs with
    | 'n' :: 'u' :: 'l' :: 'l' :: rest => some (.null, rest)
    | 't' :: 'r' :: 'u' :: 'e' :: rest => some (.bool true, rest)
    | 'f' :: 'a' :: 'l' :: 's' :: 'e' :: rest => some (.bool false, rest)
    | '"' :: rest => (stringRest? (some []) rest).map fun (s, r) => (.string s, r)
    | '[' :: rest =>
      match skip rest with
      | ']' :: rest => some (.array [], rest)
      | rest => (items? depth rest).map fun (js, r) => (.array js, r)
    | '{' :: rest =>
      match skip rest with
      | '}' :: rest => some (.object [], rest)
      | rest => (fields? depth rest).map fun (fs, r) => (.object fs, r)
    | rest => (number? rest).map fun (n, r) => (.number n, r)

/-- Reads the items of an array up to its closing bracket. -/
def items? : Nat → List Char → Option (List Json × List Char)
  | 0, _ => none
  | depth + 1, cs =>
    match value? depth cs with
    | none => none
    | some (j, rest) =>
      match skip rest with
      | ',' :: rest => (items? depth rest).map fun (js, r) => (j :: js, r)
      | ']' :: rest => some ([j], rest)
      | _ => none

/-- Reads the fields of an object up to its closing brace. -/
def fields? : Nat → List Char → Option (List (Option String × Json) × List Char)
  | 0, _ => none
  | depth + 1, cs =>
    match skip cs with
    | '"' :: rest =>
      match stringRest? (some []) rest with
      | none => none
      | some (name, rest) =>
        match skip rest with
        | ':' :: rest =>
          match value? depth rest with
          | none => none
          | some (j, rest) =>
            match skip rest with
            | ',' :: rest => (fields? depth rest).map fun (fs, r) => ((name, j) :: fs, r)
            | '}' :: rest => some ([(name, j)], rest)
            | _ => none
        | _ => none
    | _ => none

end

end LayeredConfig.Json.Parser

namespace LayeredConfig.Json

/-- Reads a document that fills a text. -/
def parse? (s : String) : Option Json :=
  let cs := s.toList
  match Parser.value? (2 * cs.length + 2) cs with
  | some (j, rest) => if Parser.skip rest = [] then some j else none
  | none => none

end LayeredConfig.Json
