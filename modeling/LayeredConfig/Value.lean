import LayeredConfig.Decimal.Shortest

/-!
# LayeredConfig.Value

The values that a configuration holds: flags, 64-bit integers, doubles, texts, and lists of
values.  Nothing is interpreted further than its form requires.
-/

namespace LayeredConfig

/-- A configuration value. -/
inductive Value where
  | bool (b : Bool)
  | integer (i : Int64)
  | float (x : Float)
  | text (s : String)
  | list (items : List Value)
deriving Repr

namespace Value

/-! ## Views -/

def asText? : Value → Option String
  | .text s => some s
  | _ => none

def asInteger? : Value → Option Int64
  | .integer i => some i
  | _ => none

/-- The content of a float, or the double nearest to an integer. -/
def asFloat? : Value → Option Float
  | .float x => some x
  | .integer i => some i.toFloat
  | _ => none

def asBool? : Value → Option Bool
  | .bool b => some b
  | _ => none

def asList? : Value → Option (List Value)
  | .list items => some items
  | _ => none

/-- Whether the value is an empty text or an empty list; it is present all the same. -/
def isEmpty : Value → Bool
  | .text s => s == ""
  | .list items => items.isEmpty
  | _ => false

/-! ## Text -/

mutual

/-- The value as a text; the items of a list, at any depth, are joined by commas. -/
def display : Value → String
  | .bool b => if b then "true" else "false"
  | .integer i => String.ofList (Decimal.signedDigits i.toInt)
  | .float x => Decimal.floatText x
  | .text s => s
  | .list items => displayItems items

def displayItems : List Value → String
  | [] => ""
  | [v] => v.display
  | v :: vs => v.display ++ "," ++ displayItems vs

end

instance : ToString Value := ⟨display⟩

end Value

end LayeredConfig
