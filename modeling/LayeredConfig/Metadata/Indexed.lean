import LayeredConfig.Metadata.Document

/-!
# LayeredConfig.Metadata.Indexed

The table of what is known of properties, with an index of the places of its entries.

1. The entries stand in the order in which their names were first entered; the index has the place
   of each of them under its name.
2. What is entered under a name that is there already takes the place of the old entry, with the
   name as it is spelled now.  The index keeps the name as it was first spelled.
3. An entry whose name is malformed is refused, and those that come after it are entered all the
   same.
-/

namespace LayeredConfig

/-- What is known of properties, and at which place it stands. -/
structure IndexedTable where
  entries : List (Name × Metadata)
  index : List (Filed Nat)

namespace IndexedTable

def empty : IndexedTable := ⟨[], []⟩

/-- The place of the entry under a name. -/
def place? (t : IndexedTable) (n : Name) : Option Nat := Filed.find? n t.index

/-- What is known of a name. -/
def get? (t : IndexedTable) (n : Name) : Option Metadata :=
  (t.place? n).bind fun i => t.entries[i]?.map (·.2)

/-- Enters something under a well-formed name. -/
def enter (t : IndexedTable) (n : Name) (m : Metadata) : IndexedTable :=
  match t.place? n with
  | some i => { t with entries := t.entries.set i (n, m) }
  | none => ⟨t.entries ++ [(n, m)], t.index ++ [.under n t.entries.length]⟩

/-- Enters something under its own name: the outcome, and the table afterwards. -/
def insert (t : IndexedTable) (m : Metadata) : Except Malformed Unit × IndexedTable :=
  match Name.parse m.name with
  | .ok n => (.ok (), t.enter n m)
  | .error e => (.error e, t)

/-- Enters things one after another, whatever the outcomes. -/
def insertEach (t : IndexedTable) (ms : List Metadata) : IndexedTable :=
  ms.foldl (fun t m => (t.insert m).2) t

end IndexedTable

end LayeredConfig
