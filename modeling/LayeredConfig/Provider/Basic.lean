import LayeredConfig.Property

/-!
# LayeredConfig.Provider.Basic

Providers: the raw keys and values behind a source.  A provider answers lookups of single keys,
each of which may fail; if it is *enumerable* it also lists its keys.  It may know where a value
was written.
-/

namespace LayeredConfig

/-- Whether the keys of a provider can be listed. -/
inductive Capability where
  | enumerable
  | lookupOnly
deriving Repr, DecidableEq

/-- Why a lookup failed. -/
inductive ProviderError where
  /-- The provider of this name answers nothing at present. -/
  | unavailable (provider : String)
  /-- The lookup of one key failed. -/
  | lookup (key reason : String)
deriving Repr, DecidableEq

def ProviderError.message : ProviderError → String
  | .unavailable provider => s!"Property provider unavailable: {provider}"
  | .lookup key reason => s!"Lookup of '{key}' failed: {reason}"

/-- Raw keys and values. -/
structure Provider where
  name : String
  capability : Capability
  /-- The value of a key, if there is one. -/
  get : String → Except ProviderError (Option Value)
  /-- The keys in listing order. -/
  keys : List String
  /-- Where the value of a key was written, if the provider knows. -/
  origin : String → Option Origin

end LayeredConfig
