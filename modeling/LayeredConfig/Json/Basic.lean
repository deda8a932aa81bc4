import LayeredConfig.Decimal.Shortest

/-!
# LayeredConfig.Json.Basic

JSON documents.

1. A number is kept as it is written; what it amounts to depends on who reads it.
2. A string is `none` where it escapes half of a surrogate pair without the other half.  Such a
   string is no text, but it does no harm where nobody reads it.
3. An object keeps its fields in order, repeated names included.
-/

namespace LayeredConfig

/-- A number as written: sign, digits before the point, digits after it, and the exponent with its
own sign. -/
structure Json.Number where
  negative : Bool
  whole : List Char
  fraction : List Char
  exponent : Option (Bool × List Char)
deriving Repr, DecidableEq

/-- A JSON document. -/
inductive Json where
  | null
  | bool (b : Bool)
  | number (n : Json.Number)
  | string (s : Option String)
  | array (items : List Json)
  | object (fields : List (Option String × Json))

namespace Json

/-! ## Building documents -/

def text (s : String) : Json := .string (some s)

def ofInt (i : Int) : Json := .number ⟨i < 0, Decimal.digits i.natAbs, [], none⟩

def ofNat (n : Nat) : Json := ofInt n

/-- A double in its shortest form, with a point or an exponent; `null` if it is not finite. -/
def ofFloat (x : Float) : Json :=
  match Decimal.Binary64.ofFloat x with
  | .nan | .infinite _ => .null
  | .finite negative m q =>
    if m = 0 then .number ⟨negative, ['0'], ['0'], none⟩
    else
      let (ds, e) := (Decimal.shortest m q).significant
      let point := (ds.length : Int) + e
      if 0 ≤ e ∧ point ≤ 16 then
        .number ⟨negative, ds ++ List.replicate e.toNat '0', ['0'], none⟩
      else if 0 < point ∧ point ≤ 16 then
        .number ⟨negative, ds.take point.toNat, ds.drop point.toNat, none⟩
      else if -5 < point ∧ point ≤ 0 then
        .number ⟨negative, ['0'], List.replicate (-point).toNat '0' ++ ds, none⟩
      else
        let e := point - 1
        .number ⟨negative, ds.take 1, ds.drop 1, some (e < 0, Decimal.digits e.natAbs)⟩

/-- A document, or `null` where there is none. -/
def ofOption (j : Option Json) : Json := j.getD .null

def record (fields : List (String × Json)) : Json :=
  .object (fields.map fun (k, j) => (some k, j))

/-! ## Looking into documents -/

/-- The first field of a name, if the document is an object that has one. -/
def field? (j : Json) (name : String) : Option Json :=
  match j with
  | .object fields => fields.lookup (some name)
  | _ => none

def asText? : Json → Option String
  | .string s => s
  | _ => none

def asBool? : Json → Option Bool
  | .bool b => some b
  | _ => none

def asArray? : Json → Option (List Json)
  | .array items => some items
  | _ => none

end Json

end LayeredConfig
