import LayeredConfig.Session

/-!
# LayeredConfig.Mapping.Cached

Mappers whose candidate lists are kept in a shared cache.

1. A list is kept under the dialect and the canonical text of the name it was asked for, so that
   different spellings of a name that are written alike share it and others do not.
2. A failure is not kept.
3. Only the candidates are kept; the way back from keys to names is not.
-/

namespace LayeredConfig

/-- A mapper, and the cache it uses if it uses one. -/
structure CachedMapper where
  mapper : Mapper
  cache : Option CacheId

namespace CachedMapper

/-- The candidates for a name, from the cache where they are in it. -/
def candidates (m : CachedMapper) (n : Name) : Run (Except MappingError (List Candidate)) :=
  match m.cache with
  | none => pure (m.mapper.candidates n)
  | some id => do
    let cache := (← get).cache id
    let key := (m.mapper.dialect, n.canonical)
    match cache.lookup key with
    | some cs => pure (.ok cs)
    | none =>
      match m.mapper.candidates n with
      | .error e => pure (.error e)
      | .ok cs =>
        modify (·.setCache id ((key, cs) :: cache))
        pure (.ok cs)

/-- The candidates for a name; a failure is noted and means that there are none. -/
def candidatesOrNone (m : CachedMapper) (n : Name) : Run (List Candidate) := do
  match ← m.candidates n with
  | .ok cs => pure cs
  | .error e =>
    Run.note (.mappingFailed m.mapper.dialect n e)
    pure []

end CachedMapper

end LayeredConfig
