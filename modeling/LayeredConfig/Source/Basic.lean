import LayeredConfig.Mapping.Cached

/-!
# LayeredConfig.Source.Basic

Sources: one provider seen through one mapper.

A source answers for names.  It has the name and the capability of its provider unless it is given
others: it can be renamed, it can be restricted to lookups, and it can be marked as made from
another source.
-/

namespace LayeredConfig

/-- A provider seen through a mapper. -/
structure Source where
  /-- Tells the source apart from all others of the session. -/
  id : SourceId
  name : String
  capability : Capability
  provider : Provider
  mapper : CachedMapper
  /-- The name of the source that this one was made from. -/
  derivedFrom : Option String

/-- What a source, or a chain, says about the names below a name. -/
inductive Containment where
  | present
  | absent
  | unknown
deriving Repr, DecidableEq

namespace Source

def create (p : Provider) (m : CachedMapper) : Run Source := do
  let id ← Run.fresh
  return ⟨id, p.name, p.capability, p, m, none⟩

/-- The source under another name. -/
def named (s : Source) (name : String) : Source := { s with name := name }

/-- The source without the capability to list keys. -/
def restricted (s : Source) : Source := { s with capability := .lookupOnly }

/-- The source marked as made from the source of the given name. -/
def markedFrom (s : Source) (origin : String) : Source := { s with derivedFrom := some origin }

/-- Where the value under a key comes from: what the provider knows, or else source and key. -/
def originOf (s : Source) (key : String) : Origin :=
  (s.provider.origin key).getD ⟨s.name, key, none⟩

end Source

end LayeredConfig
