import LayeredConfig.Source.Basic

/-!
# LayeredConfig.Source.Lookup

Asking a source.

1. The candidates for a name are tried in order.  One that does not apply, has no value, or cannot
   use its value is passed over; a provider that fails ends the search.
2. A source that can list its keys then tries those that stand for the name and were no
   candidates, in listing order.  So every spelling is found.
3. A source that can list its keys knows which names lie below a name; any other does not.

The index of the keys is built at the first need and kept until it is dropped.
-/

namespace LayeredConfig.Source

/-! ## Trying keys -/

/-- Tries candidates for a name in order. -/
def tryAll (s : Source) (n : Name) : List Candidate → Run (Except ProviderError (Option Property))
  | [] => pure (.ok none)
  | c :: cs =>
    if c.applies n then do
      Run.noteLookup s.id c.key
      match s.provider.get c.key with
      | .error e => pure (.error e)
      | .ok none => s.tryAll n cs
      | .ok (some raw) =>
        match c.extract raw with
        | .ok v => pure (.ok (some ⟨n, v, s.originOf c.key⟩))
        | .error e => do
          Run.note (.extractionFailed s.name c.key e)
          s.tryAll n cs
    else s.tryAll n cs

/-! ## The index -/

/-- The index of the source's keys, as remembered or newly built. -/
def index (s : Source) : Run Index := do
  match (← get).index? s.id with
  | some ix => pure ix
  | none =>
    let ix := Index.ofKeys s.mapper.mapper s.provider.keys
    Run.noteAll (Index.failures s.mapper.mapper s.provider.keys)
    modify (·.remember s.id ix)
    pure ix

/-- Drops the remembered index, so that the keys are listed again at the next need. -/
def refresh (s : Source) : Run Unit := modify (·.forget s.id)

/-! ## Questions -/

/-- The further keys to try for a name, after the candidates. -/
def others (ix : Index) (cs : List Candidate) (n : Name) : List Candidate :=
  ((ix.keysOf n).filter fun key => !cs.any (·.key == key)).map (.plain · n)

/-- The property that the source has for a name. -/
def get (s : Source) (n : Name) : Run (Except ProviderError (Option Property)) := do
  let cs ← s.mapper.candidatesOrNone n
  match ← s.tryAll n cs with
  | .ok none =>
    match s.capability with
    | .lookupOnly => pure (.ok none)
    | .enumerable => s.tryAll n (others (← s.index) cs n)
  | found => pure found

/-- Whether the source has a key for a name below the given one. -/
def containsDescendantOf (s : Source) (n : Name) : Run Containment := do
  match s.capability with
  | .lookupOnly => pure .unknown
  | .enumerable =>
    let ix ← s.index
    pure (if ix.names.any (n.isAncestorOf ·) then .present else .absent)

/-- The names that the source has keys for, in order, if it can list them. -/
def propertyNames (s : Source) : Run (Option (List Name)) := do
  match s.capability with
  | .lookupOnly => pure none
  | .enumerable => pure (some (Name.sort (← s.index).names))

end LayeredConfig.Source
