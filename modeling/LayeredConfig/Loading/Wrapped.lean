import LayeredConfig.Loading.Document

/-!
# LayeredConfig.Loading.Wrapped

Tables that stand for another value.

A loaded value is known by its content and by a number that it gets when it is loaded.  Both may be
written as the fields of a table, and such a table is not kept as a table:

1. A table with the content field stands for what that field holds.  Its other fields are dropped.
2. A table with the number field is refused, since numbers are never taken from a file.
3. This holds at every depth, the content of a table included, but not for the fields at the top
   of a document.
-/

namespace LayeredConfig.Document

/-- The field that holds the content of a value. -/
def contentField : String := "___figment_value_value"

/-- The field that holds the number of a value. -/
def numberField : String := "___figment_value_id"

/-- What a table with the given fields stands for. -/
def ofFields? (fields : List (String × Document)) : Option Document :=
  if (fields.lookup numberField).isSome then none
  else some ((fields.lookup contentField).getD (.table fields))

mutual

/-- The document with every table replaced by what it stands for. -/
def unwrap? : Document → Option Document
  | .scalar s => some (.scalar s)
  | .array items => (unwrapItems? items).map .array
  | .table fields => (unwrapFields? fields).bind ofFields?

def unwrapItems? : List Document → Option (List Document)
  | [] => some []
  | d :: ds => do return (← d.unwrap?) :: (← unwrapItems? ds)

def unwrapFields? : List (String × Document) → Option (List (String × Document))
  | [] => some []
  | (field, d) :: fs => do return (field, ← d.unwrap?) :: (← unwrapFields? fs)

end

end LayeredConfig.Document
