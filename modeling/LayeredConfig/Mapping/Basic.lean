import LayeredConfig.Name.Parser
import LayeredConfig.Property
import LayeredConfig.Text.Blank

/-!
# LayeredConfig.Mapping.Basic

Raw keys and the names they stand for.

1. A *dialect* is a way of writing names as raw keys, such as `SERVER_HOST` for `server.host`.
2. A *mapper* turns a name into the raw keys to try for it, in order, and a raw key back into the
   name it stands for.
3. A *candidate* is one raw key to try.  Mostly it answers the one name it was made for and gives
   the stored value; a candidate that holds a whole list answers the names of the list's items
   and gives the item asked for.
-/

namespace LayeredConfig

/-! ## Dialects -/

/-- A way of writing names as raw keys. -/
inductive Dialect where
  | dotted
  | environment
  | environmentWithLists
  | custom (name : String)
deriving Repr, DecidableEq

def Dialect.display : Dialect → String
  | .dotted => "dotted-map"
  | .environment => "environment"
  | .environmentWithLists => "environment+list-shortcut"
  | .custom name => name

/-! ## Failures -/

/-- Why a raw key stands for no name. -/
inductive KeyFlaw where
  | malformed (m : Malformed)
  | contains (c : Char)
  | emptySegment
  | notInTable
deriving Repr, DecidableEq

def KeyFlaw.message : KeyFlaw → String
  | .malformed m => m.message
  | .contains c => s!"contains '{c}'"
  | .emptySegment => "empty segment"
  | .notInTable => "not in table"

/-- What can go wrong between names and raw keys. -/
inductive MappingError where
  /-- A raw key stands for no name. -/
  | unmappableKey (key : String) (flaw : KeyFlaw)
  /-- A name has no raw key. -/
  | unmappableName (name : String) (reason : String)
  /-- The value of a raw key has no item at an index. -/
  | noItem (key : String) (index : UInt64)
deriving Repr, DecidableEq

def MappingError.message : MappingError → String
  | .unmappableKey key flaw => s!"Raw key '{key}' cannot be mapped: {flaw.message}"
  | .unmappableName name reason => s!"Name '{name}' cannot be mapped: {reason}"
  | .noItem key index =>
    s!"Value of '{key}' could not be extracted: no element at index {index.toNat}"

/-! ## Candidates -/

/-- Which names a candidate answers, and with what.  These are the two ways in which the mappers here
make candidates; a candidate could also be given any test of names and any extractor of values, and
such custom ones are left out. -/
inductive Reach where
  /-- The candidate's own name, with the value as stored. -/
  | whole
  /-- The numeric children of the candidate's name, with one item of the value. -/
  | item (index : UInt64)
deriving Repr, DecidableEq

/-- A raw key to try. -/
structure Candidate where
  key : String
  name : Name
  reach : Reach

/-- The candidate for a name itself. -/
def Candidate.plain (key : String) (name : Name) : Candidate := ⟨key, name, .whole⟩

/-- Whether the candidate can answer a name. -/
def Candidate.applies (c : Candidate) (n : Name) : Bool :=
  match c.reach with
  | .whole => c.name.agrees n
  | .item _ => c.name.isParentOf n && n.last.asIndex?.isSome

/-- The item of a value at an index: of a list, its element; of a text, the piece between commas,
without the blanks around it; any other value is its own item 0. -/
def Value.item? (v : Value) (index : Nat) : Option Value :=
  match v with
  | .list items => items[index]?
  | .text s => (Text.pieceAt? ',' index s.toList).map fun piece =>
      .text (String.ofList (Text.trim piece))
  | v => if index = 0 then some v else none

/-- What the candidate makes of the value stored under its key. -/
def Candidate.extract (c : Candidate) (v : Value) : Except MappingError Value :=
  match c.reach with
  | .whole => .ok v
  | .item i =>
    match v.item? i.toNat with
    | some item => .ok item
    | none => .error (.noItem c.key i)

/-! ## Mappers -/

/-- A dialect at work. -/
structure Mapper where
  dialect : Dialect
  /-- The raw keys to try for a name, in order. -/
  candidates : Name → Except MappingError (List Candidate)
  /-- The name a raw key stands for. -/
  nameOf : String → Except MappingError Name

/-- A mapper given by two finite tables, one from canonical names to raw keys and one from raw
keys to written names. -/
def Mapper.ofTables (dialect : String) (keys : List (String × List String))
    (names : List (String × String)) : Mapper where
  dialect := .custom dialect
  candidates n :=
    match keys.lookup n.canonical with
    | some ks => .ok (ks.map (.plain · n))
    | none => .error (.unmappableName n.canonical "not in table")
  nameOf key :=
    match names.lookup key with
    | some text => (Name.parse text).mapError fun m => .unmappableKey key (.malformed m)
    | none => .error (.unmappableKey key .notInTable)

end LayeredConfig
