import LayeredConfig.Event
import LayeredConfig.Name.Filed

/-!
# LayeredConfig.Source.Index

The raw keys of a provider, grouped by the names they stand for.  A group is filed under the name
that its first key stands for; keys that stand for no name are left out.
-/

namespace LayeredConfig

/-- Groups of raw keys by name, in the order in which the names first occur. -/
structure Index where
  groups : List (Filed (List String))

namespace Index

def empty : Index := ⟨[]⟩

/-- The keys of two groups under the name of the first. -/
def merge (old new : Filed (List String)) : Filed (List String) :=
  { old with item := old.item ++ new.item }

/-- Adds a key that stands for a name. -/
def insert (ix : Index) (n : Name) (key : String) : Index :=
  ⟨Filed.place merge (.under n [key]) ix.groups⟩

/-- Adds a key if it stands for a name. -/
def add (m : Mapper) (ix : Index) (key : String) : Index :=
  match m.nameOf key with
  | .ok n => ix.insert n key
  | .error _ => ix

def ofKeys (m : Mapper) (keys : List String) : Index := keys.foldl (add m) empty

/-- What is noted while the keys are indexed: every key that stands for no name. -/
def failures (m : Mapper) (keys : List String) : List Event :=
  keys.filterMap fun key =>
    match m.nameOf key with
    | .ok _ => none
    | .error e => some (.reverseMappingFailed m.dialect key e)

def names (ix : Index) : List Name := ix.groups.map (·.name)

/-- The keys that stand for a name, in listing order. -/
def keysOf (ix : Index) (n : Name) : List String := (Filed.find? n ix.groups).getD []

end Index

end LayeredConfig
