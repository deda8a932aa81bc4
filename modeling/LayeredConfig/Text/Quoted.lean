import LayeredConfig.Text.VisibleTable

/-!
# LayeredConfig.Text.Quoted

Quoted text for diagnostics.

1. The text stands between double quotes.
2. A double quote and a backslash in it are escaped by a backslash; NUL, tab, line feed and
   carriage return are written `\0`, `\t`, `\n` and `\r`.
3. A character that shows nothing on its own is written `\u` with its code point in braces, in
   lower-case hexadecimal without leading zeros.
-/

namespace LayeredConfig.Text

/-- The written form of one character inside the quotes. -/
def quotedChar (c : Char) : List Char :=
  if c = '\x00' then ['\\', '0']
  else if c = '\t' then ['\\', 't']
  else if c = '\n' then ['\\', 'n']
  else if c = '\r' then ['\\', 'r']
  else if c = '"' then ['\\', '"']
  else if c = '\\' then ['\\', '\\']
  else if combiningRanges.contains c || invisibleRanges.contains c then
    ['\\', 'u', '\x7b'] ++ Nat.toDigits 16 c.toNat ++ ['\x7d']
  else [c]

def quoted (s : String) : String :=
  String.ofList ('"' :: s.toList.flatMap quotedChar ++ ['"'])

/-- A list of texts, each quoted, in square brackets. -/
def quotedList (ss : List String) : String :=
  "[" ++ String.intercalate ", " (ss.map quoted) ++ "]"

end LayeredConfig.Text
