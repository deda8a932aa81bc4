import LayeredConfig.Name.Basic

/-!
# LayeredConfig.Name.Parser

Reading names.  A written name is

    Name = (Literal | Index) (('.' Literal) | Index)*

1. a literal is a run of characters other than `.`, `[` and `]`, not all of them separators;
2. an index is `[`, decimal digits of a value below `2 ^ 64`, and `]`.

The elements are read from left to right, and the first flaw met is reported with the whole text.
-/

namespace LayeredConfig.Name

/-! ## One element -/

/-- Reads what stands between brackets. -/
def readIndex (cs : List Char) : Except Flaw UInt64 :=
  if cs = [] then .error .emptyIndex
  else
    match Decimal.read? cs with
    | none => .error .nonNumericIndex
    | some n => if n < UInt64.size then .ok (UInt64.ofNat n) else .error .largeIndex

/-- The rest of a text after something was read from its front. -/
abbrev Rest (cs : List Char) := { r : List Char // r.length < cs.length }

/-- Reads the element at the front of a text. -/
def readElement (afterDot : Bool) (cs : List Char) : Except Flaw (Element × Rest cs) :=
  match cs with
  | ']' :: _ => .error .unopened
  | '[' :: more =>
    if afterDot then .error .bracketAfterDot
    else
      match h : more.dropWhile (· ≠ ']') with
      | [] => .error .unclosed
      | _ :: rest =>
        match readIndex (more.takeWhile (· ≠ ']')) with
        | .error flaw => .error flaw
        | .ok i => .ok (.index i, ⟨rest, by
            have := (List.dropWhile_sublist (l := more) (· ≠ ']')).length_le
            rw [h] at this
            simp at this ⊢
            omega⟩)
  | cs =>
    match h : cs.takeWhile (!isReserved ·) with
    | [] => .error .emptyElement
    | c :: run =>
      match Literal.read (String.ofList (c :: run)) with
      | .error flaw => .error flaw
      | .ok l => .ok (.literal l, ⟨cs.dropWhile (!isReserved ·), by
          have hl : (cs.takeWhile (!isReserved ·) ++ cs.dropWhile (!isReserved ·)).length
              = cs.length := by rw [List.takeWhile_append_dropWhile]
          rw [h] at hl
          simp at hl
          omega⟩)

/-! ## All elements -/

/-- Reads elements up to the end of a text. -/
def readElements (afterDot : Bool) (cs : List Char) : Except Flaw (List Element) :=
  match readElement afterDot cs with
  | .error flaw => .error flaw
  | .ok (e, rest) =>
    match _left : rest.val with
    | [] => .ok [e]
    | '.' :: [] => .error .trailingDot
    | '.' :: c :: more => (readElements true (c :: more)).map (e :: ·)
    | '[' :: more => (readElements false ('[' :: more)).map (e :: ·)
    | ']' :: _ => .error .unopened
    | _ :: _ => .error .textAfterIndex
termination_by cs.length
decreasing_by
  · have shorter := rest.property
    rw [_left] at shorter
    exact Nat.lt_of_succ_lt shorter
  · have shorter := rest.property
    rw [_left] at shorter
    exact shorter

/-- A list with something put in front is not empty. -/
theorem ne_nil_of_map_cons {ε α : Type} {x : Except ε (List α)} {a : α} {as : List α}
    (h : x.map (a :: ·) = .ok as) : as ≠ [] := by
  cases x with
  | error e => cases h
  | ok l => cases h; simp

/-- What is read holds an element. -/
theorem readElements_ne_nil {afterDot : Bool} {cs : List Char} {es : List Element}
    (h : readElements afterDot cs = .ok es) : es ≠ [] := by
  unfold readElements at h
  split at h
  · cases h
  · split at h
    · cases h; simp
    · cases h
    · exact ne_nil_of_map_cons h
    · exact ne_nil_of_map_cons h
    · cases h
    · cases h

def parse (text : String) : Except Malformed Name :=
  if text = "" then .error ⟨text, .emptyName⟩
  else
    match h : readElements false text.toList with
    | .error flaw => .error ⟨text, flaw⟩
    | .ok es => .ok ⟨es, readElements_ne_nil h⟩

/-- The name extended by a written suffix: an index, or literals and indexes after an optional
dot.  A flaw is reported with the suffix less that dot. -/
def append (n : Name) (suffix : String) : Except Malformed Name :=
  let written := match suffix.toList with
    | '.' :: cs => String.ofList cs
    | _ => suffix
  match parse written with
  | .error e => .error e
  | .ok more => .ok (n.appendElements more.elements)

end LayeredConfig.Name
