import LayeredConfig.Name.Basic
import LayeredConfig.Value

/-!
# LayeredConfig.Property

Properties: values found for a name, with the place they come from.  An origin names a source and
a raw key in it; it is for diagnostics and decides nothing.
-/

namespace LayeredConfig

/-- A position in a text file. -/
structure Location where
  line : UInt32
  column : UInt32
deriving Repr, DecidableEq

/-- Where a value comes from. -/
structure Origin where
  source : String
  key : String
  location : Option Location
deriving Repr, DecidableEq

def Origin.display (o : Origin) : String :=
  let place := "\"" ++ o.key ++ "\" from property source \"" ++ o.source ++ "\""
  match o.location with
  | some l => place ++ s!" (line {l.line.toNat}, column {l.column.toNat})"
  | none => place

/-- A value found for a name. -/
structure Property where
  name : Name
  value : Value
  origin : Origin

/-- The property in words: `name=value (origin)`. -/
def Property.display (p : Property) : String :=
  p.name.canonical ++ "=" ++ p.value.display ++ " (" ++ p.origin.display ++ ")"

end LayeredConfig
