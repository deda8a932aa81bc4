import LayeredConfig.Provider.Basic

/-!
# LayeredConfig.Provider.Script

Providers whose answers are set by hand, to play a store that changes, breaks and recovers: which
keys have values, which are listed, and which fail.
-/

namespace LayeredConfig

/-- The present answers of a scripted provider. -/
structure Script where
  enumerable : Bool
  /-- The values; of equal keys the last one counts. -/
  values : List (String × Value)
  /-- The keys that are listed. -/
  keys : List String
  /-- The keys that fail, each with a reason, or without one if the provider is unavailable. -/
  failing : List (String × Option String)

namespace Script

/-- Gives a key a value; a key that was not listed is listed last. -/
def set (s : Script) (key : String) (v : Value) : Script :=
  { s with
    values := s.values ++ [(key, v)]
    keys := if key ∈ s.keys then s.keys else s.keys ++ [key] }

/-- Removes a key and its value. -/
def unset (s : Script) (key : String) : Script :=
  { s with
    values := s.values.filter (·.1 ≠ key)
    keys := s.keys.filter (· ≠ key) }

def heal (s : Script) (key : String) : Script :=
  { s with failing := s.failing.filter (·.1 ≠ key) }

def fail (s : Script) (key : String) (reason : Option String) : Script :=
  { s with failing := s.failing ++ [(key, reason)] }

/-- The provider that gives these answers. -/
def provider (name : String) (s : Script) : Provider where
  name := name
  capability := if s.enumerable then .enumerable else .lookupOnly
  get key :=
    match s.failing.reverse.lookup key with
    | some (some reason) => .error (.lookup key reason)
    | some none => .error (.unavailable name)
    | none => .ok (s.values.reverse.lookup key)
  keys := s.keys
  origin _ := none

end Script

end LayeredConfig
