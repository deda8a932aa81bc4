import LayeredConfig.Json.Basic

/-!
# LayeredConfig.Json.Printer

Writing JSON, without blanks.  In a string only the double quote, the backslash and the control
characters below U+0020 are escaped, the usual ones by a letter.
-/

namespace LayeredConfig.Json

/-- The written form of a character in a string. -/
def escapedChar (c : Char) : List Char :=
  if c = '"' then ['\\', '"']
  else if c = '\\' then ['\\', '\\']
  else if c = '\x08' then ['\\', 'b']
  else if c = '\t' then ['\\', 't']
  else if c = '\n' then ['\\', 'n']
  else if c = '\x0c' then ['\\', 'f']
  else if c = '\r' then ['\\', 'r']
  else if c.toNat < 0x20 then
    ['\\', 'u', '0', '0', Nat.digitChar (c.toNat / 16), Nat.digitChar (c.toNat % 16)]
  else [c]

def renderText (s : String) : String :=
  String.ofList ('"' :: s.toList.flatMap escapedChar ++ ['"'])

def Number.render (n : Number) : String :=
  let sign := if n.negative then ['-'] else []
  let fraction := if n.fraction = [] then [] else '.' :: n.fraction
  let exponent := match n.exponent with
    | none => []
    | some (negative, ds) => 'e' :: (if negative then '-' :: ds else ds)
  String.ofList (sign ++ n.whole ++ fraction ++ exponent)

mutual

/-- The written form of a document in pieces; a string that is no text is written as an empty
one. -/
def pieces : Json → List String
  | .null => ["null"]
  | .bool b => [if b then "true" else "false"]
  | .number n => [n.render]
  | .string s => [renderText (s.getD "")]
  | .array items => "[" :: itemPieces items ++ ["]"]
  | .object fields => "\x7b" :: fieldPieces fields ++ ["\x7d"]

/-- The items of an array with commas between them, in pieces. -/
def itemPieces : List Json → List String
  | [] => []
  | [j] => j.pieces
  | j :: js => j.pieces ++ "," :: itemPieces js

/-- The fields of an object with commas between them, in pieces. -/
def fieldPieces : List (Option String × Json) → List String
  | [] => []
  | [(k, j)] => renderText (k.getD "") :: ":" :: j.pieces
  | (k, j) :: fs => renderText (k.getD "") :: ":" :: j.pieces ++ "," :: fieldPieces fs

end

def render (j : Json) : String := String.join j.pieces

end LayeredConfig.Json
