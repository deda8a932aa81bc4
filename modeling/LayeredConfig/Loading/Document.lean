import LayeredConfig.Provider.Entries
import LayeredConfig.Decimal.Natural

/-!
# LayeredConfig.Loading.Document

Parsed configuration files, and the raw keys they amount to.

1. A document is a tree of tables and arrays with scalars at its leaves.
2. Every leaf becomes one entry.  Its key is its path: a field of a table follows a dot, an item of
   an array stands as its index in brackets.
3. Empty tables and arrays leave no entry.
-/

namespace LayeredConfig

/-- A leaf of a document. -/
inductive Scalar where
  | text (s : String)
  | integer (i : Int64)
  | float (x : Float)
  | bool (b : Bool)
deriving Repr

def Scalar.value : Scalar → Value
  | .text s => .text s
  | .integer i => .integer i
  | .float x => .float x
  | .bool b => .bool b

/-- A tree of tables and arrays. -/
inductive Document where
  | scalar (s : Scalar)
  | array (items : List Document)
  | table (fields : List (String × Document))

namespace Document

/-- The key of a field of the table at a key. -/
def fieldKey (key field : String) : String := key ++ "." ++ field

/-- The key of an item of the array at a key. -/
def itemKey (key : String) (i : Nat) : String :=
  key ++ "[" ++ String.ofList (Decimal.digits i) ++ "]"

mutual

/-- The entries of the tree at a key, in document order. -/
def flatten (key : String) : Document → List (String × Value)
  | .scalar s => [(key, s.value)]
  | .array items => flattenItems key 0 items
  | .table fields => flattenFields key fields

/-- The entries of the items of an array, from the item numbered `i` on. -/
def flattenItems (key : String) (i : Nat) : List Document → List (String × Value)
  | [] => []
  | d :: ds => d.flatten (itemKey key i) ++ flattenItems key (i + 1) ds

/-- The entries of the fields of a table. -/
def flattenFields (key : String) : List (String × Document) → List (String × Value)
  | [] => []
  | (field, d) :: fs => d.flatten (fieldKey key field) ++ flattenFields key fs

end

/-- The entries of the fields at the top of a document. -/
def flattenTop : List (String × Document) → List (String × Value)
  | [] => []
  | (field, d) :: fs => d.flatten field ++ flattenTop fs

end Document

end LayeredConfig
