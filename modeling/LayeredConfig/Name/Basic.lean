import LayeredConfig.Name.Element

/-!
# LayeredConfig.Name.Basic

Property names: sequences of one element or more.

1. Names are compared element by element, up to spelling: `server.contextPath` and
   `server.context_path` are the same name.
2. The canonical text writes every literal in its dashed form and every index in brackets.
3. Names are ordered lexicographically, a name before the names it begins.
-/

namespace LayeredConfig

/-- A property name. -/
structure Name where
  elements : List Element
  elements_ne_nil : elements ≠ []

namespace Name

/-! ## Building names -/

/-- A name of the given elements, of which there must be one. -/
def ofElements (es : List Element) : Except Malformed Name :=
  if h : es ≠ [] then .ok ⟨es, h⟩ else .error ⟨"", .noElements⟩

def length (n : Name) : Nat := n.elements.length

def last (n : Name) : Element := n.elements.getLast n.elements_ne_nil

/-- The name with further elements at its end. -/
def appendElements (n : Name) (es : List Element) : Name :=
  ⟨n.elements ++ es, by simp [n.elements_ne_nil]⟩

def push (n : Name) (e : Element) : Name := n.appendElements [e]

/-- The name without its last `k` elements, unless none would remain. -/
def chop? (n : Name) (k : Nat) : Option Name :=
  if h : k < n.elements.length then
    some ⟨n.elements.take (n.elements.length - k), by
      intro he
      have := congrArg List.length he
      simp at this
      omega⟩
  else none

/-- The name without its last element. -/
def parent? (n : Name) : Option Name := n.chop? 1

/-! ## Comparing names -/

/-- Whether two lists of elements are the same up to spelling. -/
def elementsAgree : List Element → List Element → Bool
  | [], [] => true
  | a :: as, b :: bs => a.agrees b && elementsAgree as bs
  | _, _ => false

/-- Whether two names are the same up to spelling. -/
def agrees (a b : Name) : Bool := elementsAgree a.elements b.elements

instance : BEq Name := ⟨agrees⟩

/-- Whether `a` is what remains of `b` after some of its last elements are dropped. -/
def isAncestorOf (a b : Name) : Bool :=
  a.length < b.length && elementsAgree a.elements (b.elements.take a.length)

/-- Whether `a` is `b` without its last element. -/
def isParentOf (a b : Name) : Bool :=
  a.length + 1 == b.length && a.isAncestorOf b

def order (a b : Name) : Ordering := List.compareLex Element.order a.elements b.elements

/-- Whether `a` does not come after `b`. -/
def le (a b : Name) : Bool := a.order b != .gt

/-! ## Text -/

/-- The uniform forms of the elements, joined by dots. -/
def uniform (n : Name) : String :=
  String.ofList (Text.join '.' (n.elements.map Element.uniformChars))

/-- A part of a written name: a number in brackets, or a plain text. -/
inductive Piece where
  | bracketed (i : UInt64)
  | plain (text : List Char)

/-- Writes pieces that follow another one, a dot before each plain text. -/
def layoutRest : List Piece → List Char
  | [] => []
  | .bracketed i :: ps => '[' :: Decimal.digits i.toNat ++ ']' :: layoutRest ps
  | .plain text :: ps => '.' :: text ++ layoutRest ps

/-- Writes the pieces of a name; a plain text at the beginning has no dot. -/
def layout : List Piece → List Char
  | .plain text :: ps => text ++ layoutRest ps
  | ps => layoutRest ps

/-- An index in brackets, a literal in its dashed form. -/
def canonicalPiece : Element → Piece
  | .index i => .bracketed i
  | e => .plain e.dashedChars

def canonical (n : Name) : String :=
  String.ofList (layout (n.elements.map canonicalPiece))

instance : ToString Name := ⟨canonical⟩

/-! ## Sorting -/

/-- The names in order; names that are the same up to spelling keep their places. -/
def sort (ns : List Name) : List Name := ns.mergeSort le

/-- Drops every name that agrees with the one before it in the list. -/
def dropRepeats : List Name → List Name
  | [] => []
  | n :: ns => n :: go n ns
where
  /-- Drops names for as long as they agree with `last`, and goes on from the next. -/
  go (last : Name) : List Name → List Name
    | [] => []
    | n :: ns => if n.agrees last then go last ns else n :: go n ns

end Name

end LayeredConfig
