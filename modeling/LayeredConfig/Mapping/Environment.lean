import LayeredConfig.Mapping.Basic

/-!
# LayeredConfig.Mapping.Environment

The dialect of environment variables.

1. The raw key of a name is made of the uniform forms of its elements, in upper case (ASCII
   letters only), joined by `_`: `SERVER_CONTEXTPATH`, `LIST_0_VALUE`.
2. Back again, the pieces between the `_` are lower-cased and become literals, the numeric ones
   indexes.  No piece may be empty, and none of `.`, `[` and `]` may occur.
3. With the list shortcut, a name that ends in a number has a second candidate: the raw key of its
   parent followed by `__`, which holds the whole list.  A raw key that ends in `__` stands for
   the list itself.
-/

namespace LayeredConfig.Mapping

/-- The marker at the end of the raw key of a whole list. -/
def listMarker : String := "__"

/-- The environment key of a sequence of elements. -/
def environmentKey (es : List Element) : String :=
  String.ofList (Text.join '_' (es.map fun e => e.uniformChars.map Char.toUpper))

/-- The candidate that holds the list of which a name is an item. -/
def listCandidate? (n : Name) : Option Candidate :=
  match n.last.asIndex?, n.parent? with
  | some i, some parent => some ⟨environmentKey parent.elements ++ listMarker, parent, .item i⟩
  | _, _ => none

def environmentCandidates (withLists : Bool) (n : Name) : List Candidate :=
  .plain (environmentKey n.elements) n :: (if withLists then (listCandidate? n).toList else [])

/-- The element that a piece of a raw key stands for. -/
def segmentElement (segment : List Char) : Except KeyFlaw Element :=
  if segment = [] then .error .emptySegment
  else
    match Element.read (Text.lowercase (String.ofList segment)) with
    | .error m => .error (.malformed m)
    | .ok e =>
      match e.asIndex? with
      | some i => .ok (.index i)
      | none => .ok e

/-- The elements that the pieces of a raw key stand for. -/
def segmentElements : List (List Char) → Except KeyFlaw (List Element)
  | [] => .ok []
  | s :: ss =>
    match segmentElement s with
    | .error flaw => .error flaw
    | .ok e => (segmentElements ss).map (e :: ·)

/-- A raw key without the marker of a list, where lists are marked. -/
def stem (withLists : Bool) (key : String) : List Char :=
  if withLists then (Text.beforeSuffix? listMarker.toList key.toList).getD key.toList
  else key.toList

/-- The name that a raw key stands for. -/
def environmentName (withLists : Bool) (key : String) : Except MappingError Name :=
  match key.toList.find? isReserved with
  | some c => .error (.unmappableKey key (.contains c))
  | none =>
    match segmentElements (Text.split '_' (stem withLists key)) with
    | .error flaw => .error (.unmappableKey key flaw)
    | .ok es => (Name.ofElements es).mapError fun m => .unmappableKey key (.malformed m)

/-- The dialect of environment variables, with or without the list shortcut. -/
def environment (withLists : Bool) : Mapper where
  dialect := if withLists then .environmentWithLists else .environment
  candidates n := .ok (environmentCandidates withLists n)
  nameOf := environmentName withLists

end LayeredConfig.Mapping
