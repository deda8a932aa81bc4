import LayeredConfig.Loading.Document

/-!
# LayeredConfig.Toml.Tree

Tables under construction.

A TOML file names a table in several ways, and what may be added to it later depends on the way.

1. A table with a header, `[a.b]`, is defined once.  Headers may still add tables below it.
2. A table that is only passed through on the way to a header, as `a` in `[a.b]`, is *implied*; it
   may get a header of its own later.
3. A table made by a dotted key, as `a` in `a.b = 1`, may be extended by dotted keys in the same
   section and by headers below it, but gets no header itself.
4. An inline table, `{ … }`, is closed.
5. An array of tables grows by headers `[[a]]`; paths through it lead to its last table.
-/

namespace LayeredConfig.Toml

/-- How a table came about. -/
inductive Making where
  | header
  | implied
  | dotted
  | inline
deriving Repr, DecidableEq

/-- A node under construction. -/
inductive Node where
  | scalar (s : Scalar)
  | array (items : List Node)
  | table (making : Making) (fields : List (String × Node))
  | tables (items : List (List (String × Node)))

/-- The fields of a table, in order of definition. -/
abbrev Fields := List (String × Node)

/-- Gives a field a new node, at the end if it is a new field. -/
def setField (name : String) (n : Node) : Fields → Fields
  | [] => [(name, n)]
  | (k, m) :: rest => if k = name then (k, n) :: rest else (k, m) :: setField name n rest

/-- Walks down a path from a table made in the given way, changes the table it ends at, and
rebuilds the tables on the way.  Tables that are missing are made; those on a dotted key must not
have a header.  Fails where the path meets anything but a table. -/
def change {α : Type} (dotted : Bool) (f : Making → Fields → Option (α × Fields)) :
    Making → List String → Fields → Option (α × Fields)
  | making, [], fields => f making fields
  | _, name :: path, fields =>
    match fields.lookup name with
    | none => do
      let making := if dotted then .dotted else .implied
      let (a, t) ← change dotted f making path []
      return (a, setField name (.table making t) fields)
    | some (.table making t) =>
      if making = .inline ∨ (dotted ∧ making = .header) then none
      else do
        let (a, t) ← change dotted f making path t
        return (a, setField name (.table making t) fields)
    | some (.tables ts) =>
      match ts.getLast? with
      | none => none
      | some t => do
        let (a, t) ← change dotted f .header path t
        return (a, setField name (.tables (ts.dropLast ++ [t])) fields)
    | some _ => none

/-- Defines a key in a table.  The part of the key before its last name leads to a table made by
dotted keys; a key of one name stands in the table itself.  No key is defined twice. -/
def define (path : List String) (name : String) (n : Node) (fields : Fields) : Option Fields :=
  (change true (fun making t =>
    if decide (making = .dotted) = path.isEmpty then none
    else if (t.lookup name).isSome then none
    else some ((), t ++ [(name, n)])) .header path fields).map (·.2)

/-! ## Sections -/

/-- A file read so far: the finished sections, and the section that is being read, with its path
and whether it is a table of an array. -/
structure Draft where
  finished : Fields
  path : List String
  inArray : Bool
  current : Fields

def Draft.start : Draft := ⟨[], [], false, []⟩

/-- Moves the current section to the finished ones. -/
def Draft.finish (d : Draft) : Option Fields :=
  match d.path.getLast? with
  | none => some d.current
  | some name =>
    (change false (fun _ t =>
      if d.inArray then
        match t.lookup name with
        | none => some ((), setField name (.tables [d.current]) t)
        | some (.tables ts) => some ((), setField name (.tables (ts ++ [d.current])) t)
        | some _ => none
      else some ((), setField name (.table .header d.current) t))
      .header d.path.dropLast d.finished).map (·.2)

/-- Opens the section of a header `[path]`.  A table that was only implied so far is taken up. -/
def Draft.openTable (d : Draft) (path : List String) : Option Draft := do
  let finished ← d.finish
  let name ← path.getLast?
  let (current, finished) ← change false (fun _ t =>
    match t.lookup name with
    | none => some ([], t)
    | some (.table .implied taken) => some (taken, t.filter (·.1 ≠ name))
    | some _ => none) .header path.dropLast finished
  return ⟨finished, path, false, current⟩

/-- Opens a section of a header `[[path]]`. -/
def Draft.openArrayTable (d : Draft) (path : List String) : Option Draft := do
  let finished ← d.finish
  let name ← path.getLast?
  let (_, finished) ← change false (fun _ t =>
    match t.lookup name with
    | none => some ((), t ++ [(name, .tables [])])
    | some (.tables _) => some ((), t)
    | some _ => none) .header path.dropLast finished
  return ⟨finished, path, true, []⟩

/-- Defines a key in the current section. -/
def Draft.define (d : Draft) (path : List String) (name : String) (n : Node) : Option Draft := do
  return { d with current := ← Toml.define path name n d.current }

/-! ## The finished document -/

/-- The fields of a table in ascending order of their names. -/
def sortFields (fs : List (String × Document)) : List (String × Document) :=
  fs.mergeSort fun a b => a.1 ≤ b.1

mutual

/-- The document of a node; the fields of every table are in ascending order. -/
def Node.document : Node → Document
  | .scalar s => .scalar s
  | .array items => .array (documents items)
  | .table _ fields => .table (sortFields (fieldDocuments fields))
  | .tables items => .array (tableDocuments items)

def documents : List Node → List Document
  | [] => []
  | n :: ns => n.document :: documents ns

def fieldDocuments : List (String × Node) → List (String × Document)
  | [] => []
  | (k, n) :: fs => (k, n.document) :: fieldDocuments fs

def tableDocuments : List (List (String × Node)) → List Document
  | [] => []
  | t :: ts => .table (sortFields (fieldDocuments t)) :: tableDocuments ts

end

end LayeredConfig.Toml
