import LayeredConfig.Text.Blank

/-!
# LayeredConfig.Metadata.TypeText

Declared types as texts, such as `String` or `Map<String, Integer>`.

1. Blanks mean nothing in a type.
2. A map type is a name that ends in `Map`, qualified or not, with at least two arguments.  The
   value type of a map is all that follows its first argument.
-/

namespace LayeredConfig.TypeText

/-- A type without blanks. -/
def compact (t : String) : List Char := Text.squeeze t.toList

/-- What follows the first comma outside of all angle brackets. -/
def afterComma? (depth : Nat) : List Char → Option (List Char)
  | [] => none
  | c :: cs =>
    if c = '<' then afterComma? (depth + 1) cs
    else if c = '>' then afterComma? (depth - 1) cs
    else if c = ',' ∧ depth = 0 then some cs
    else afterComma? depth cs

/-- The last part of a qualified name. -/
def simpleName (qualified : List Char) : List Char :=
  (qualified.reverse.takeWhile fun c => c ≠ '.' ∧ c ≠ ':').reverse

/-- The value type of a compact map type. -/
def mapValue? (t : List Char) : Option (List Char) :=
  match t.dropWhile (· ≠ '<') with
  | [] => none
  | _ :: arguments =>
    if "Map".toList.isSuffixOf (simpleName (t.takeWhile (· ≠ '<'))) then
      match arguments.reverse with
      | '>' :: reversed => afterComma? 0 reversed.reverse
      | _ => none
    else none

end LayeredConfig.TypeText
