import LayeredConfig.Source.Index

/-!
# LayeredConfig.Session

What the engine remembers and notes while it answers.

1. *Notes*: the events, and every raw key that a provider was asked for, in order.
2. *Memory*: the index of a source once it was built, and shared caches of candidate lists.
   Memory makes answers quicker and never different, as long as providers do not change.
3. A supply of fresh numbers by which sources, and caches of their own, are told apart.
-/

namespace LayeredConfig

/-- The number of a source. -/
abbrev SourceId := Nat

/-- A cache: one that mappers share by its name, or the own cache of a mapper. -/
inductive CacheId where
  | shared (name : String)
  | own (number : Nat)
deriving Repr, DecidableEq

/-- Candidate lists by dialect and canonical name. -/
abbrev Cache := List ((Dialect × String) × List Candidate)

/-- The state of the engine. -/
structure Session where
  events : Array Event
  lookups : Array (SourceId × String)
  indexes : List (SourceId × Index)
  caches : List (CacheId × Cache)
  next : Nat

/-- Computations in a session. -/
abbrev Run := StateM Session

namespace Session

/-- A session in which nothing has happened. -/
def start : Session := ⟨#[], #[], [], [], 0⟩

/-- The content of a cache; one that was never used is empty. -/
def cache (σ : Session) (id : CacheId) : Cache := (σ.caches.lookup id).getD []

/-- The session with a new content for a cache. -/
def setCache (σ : Session) (id : CacheId) (c : Cache) : Session :=
  { σ with caches := (id, c) :: σ.caches.filter (·.1 ≠ id) }

/-- The remembered index of a source. -/
def index? (σ : Session) (id : SourceId) : Option Index := σ.indexes.lookup id

def forget (σ : Session) (id : SourceId) : Session :=
  { σ with indexes := σ.indexes.filter (·.1 ≠ id) }

/-- The session with the index of a source remembered. -/
def remember (σ : Session) (id : SourceId) (ix : Index) : Session :=
  { σ with indexes := (id, ix) :: (σ.forget id).indexes }

/-! ## Laws -/

@[simp] theorem cache_setCache_self (σ : Session) (id : CacheId) (c : Cache) :
    (σ.setCache id c).cache id = c := by
  simp [setCache, cache]

@[simp] theorem index?_remember_self (σ : Session) (id : SourceId) (ix : Index) :
    (σ.remember id ix).index? id = some ix := by
  simp [remember, index?]

end Session

namespace Run

def note (e : Event) : Run Unit := modify fun σ => { σ with events := σ.events.push e }

def noteAll (es : List Event) : Run Unit :=
  modify fun σ => { σ with events := σ.events ++ es.toArray }

/-- Notes that the provider of a source is asked for a key. -/
def noteLookup (id : SourceId) (key : String) : Run Unit :=
  modify fun σ => { σ with lookups := σ.lookups.push (id, key) }

/-- A number that was not given out before. -/
def fresh : Run Nat := do
  let σ ← get
  set { σ with next := σ.next + 1 }
  return σ.next

/-- Takes the events noted since they were last taken. -/
def takeEvents : Run (List Event) := do
  let σ ← get
  set { σ with events := #[] }
  return σ.events.toList

/-- Takes the keys that the provider of a source was asked for since they were last taken. -/
def takeLookups (id : SourceId) : Run (List String) := do
  let σ ← get
  set { σ with lookups := σ.lookups.filter (·.1 ≠ id) }
  return (σ.lookups.toList.filter (·.1 = id)).map (·.2)

def clearCache (id : CacheId) : Run Unit := modify (·.setCache id [])

end Run

end LayeredConfig
