import LayeredConfig.Decimal.Natural
import LayeredConfig.Text.Lowercase
import LayeredConfig.Text.Split

/-!
# LayeredConfig.Name.Element

The elements of a property name.

1. An element is a literal such as `context-path`, or an index, written `[N]`.
2. A literal has a *uniform* form: every character in lower case, `-` and `_` left out.  Literals
   with one uniform form are spellings of the same element.
3. A literal whose uniform form is a canonical decimal below `2 ^ 64` is *numeric* and agrees with
   the index of that value.
4. Two normal spellings are derived from a literal: `dashed` (`context-path`) and `camel`
   (`contextPath`).  They change the case of ASCII letters only.
-/

namespace LayeredConfig

/-! ## Characters -/

/-- The characters that structure a written name, so that no literal holds them. -/
def isReserved (c : Char) : Bool := c == '.' || c == '[' || c == ']'

/-- The characters that separate the words of a literal. -/
def isSeparator (c : Char) : Bool := c == '-' || c == '_'

/-! ## What can be wrong with a name -/

/-- Why a text is not a name or not an element. -/
inductive Flaw where
  | emptyName
  | noElements
  | emptyElement
  | bracketAfterDot
  | unopened
  | unclosed
  | emptyIndex
  | nonNumericIndex
  | largeIndex
  | trailingDot
  | textAfterIndex
  | emptyLiteral
  | reservedInLiteral (c : Char)
  | separatorsOnly
deriving Repr, DecidableEq

def Flaw.message : Flaw → String
  | .emptyName => "name is empty"
  | .noElements => "name has no elements"
  | .emptyElement => "empty element"
  | .bracketAfterDot => "empty element before '['"
  | .unopened => "unbalanced ']'"
  | .unclosed => "unbalanced '['"
  | .emptyIndex => "empty index '[]'"
  | .nonNumericIndex => "index is not a number"
  | .largeIndex => "index is out of range"
  | .trailingDot => "trailing '.'"
  | .textAfterIndex => "expected '.' or '[' after index"
  | .emptyLiteral => "element is empty"
  | .reservedInLiteral c => s!"element contains reserved character '{c}'"
  | .separatorsOnly => "element contains nothing but separators"

/-- A text that was refused as a name or as an element. -/
structure Malformed where
  text : String
  flaw : Flaw
deriving Repr, DecidableEq

/-- The refusal in words, naming the whole text. -/
def Malformed.message (m : Malformed) : String :=
  s!"Malformed configuration property name '{m.text}': {m.flaw.message}"

/-! ## Literals -/

/-- A literal element as it was written: it holds no reserved character and something besides
separators. -/
structure Literal where
  text : String
  unreserved : ∀ c ∈ text.toList, isReserved c = false
  substantial : ∃ c ∈ text.toList, isSeparator c = false

namespace Literal

/-- Accepts a text as a literal, or says what is wrong with it. -/
def read (text : String) : Except Flaw Literal :=
  if text.toList = [] then .error .emptyLiteral
  else
    match h : text.toList.find? isReserved with
    | some c => .error (.reservedInLiteral c)
    | none =>
      if hs : text.toList.any (!isSeparator ·) then
        .ok ⟨text, fun c hc => by simpa using List.find?_eq_none.mp h c hc, by simpa using hs⟩
      else .error .separatorsOnly

/-- The literal of given characters. -/
def ofChars (cs : List Char) (unreserved : cs.any isReserved = false)
    (substantial : cs.any (!isSeparator ·) = true) : Literal :=
  ⟨String.ofList cs, by simpa using unreserved, by simpa using substantial⟩

/-- The characters of the uniform form. -/
def uniformChars (l : Literal) : List Char :=
  (l.text.toList.filter (!isSeparator ·)).flatMap Text.lower

/-- Whether a word begins at `c` although no separator stands before it: a capital letter after a
small letter or a digit, all of them ASCII. -/
def startsWord (previous c : Char) : Bool :=
  c.isUpper && (previous.isLower || previous.isDigit)

/-- Writes `-` for every separator and before every word that starts without one. -/
def spaced (previous : Char) : List Char → List Char
  | [] => []
  | c :: cs =>
    if startsWord previous c then '-' :: c :: spaced c cs
    else (if isSeparator c then '-' else c) :: spaced c cs

/-- The words of a literal, with the ASCII letters in lower case. -/
def words (l : Literal) : List (List Char) :=
  ((Text.split '-' (spaced '-' l.text.toList)).filter (· ≠ [])).map (·.map Char.toLower)

end Literal

/-- A word with its first letter in upper case, if that is an ASCII letter. -/
def capitalized : List Char → List Char
  | [] => []
  | c :: cs => c.toUpper :: cs

/-! ## Elements -/

/-- An element of a name. -/
inductive Element where
  | literal (l : Literal)
  | index (i : UInt64)

namespace Element

/-- Accepts a text as a literal element. -/
def read (text : String) : Except Malformed Element :=
  match Literal.read text with
  | .ok l => .ok (.literal l)
  | .error flaw => .error ⟨text, flaw⟩

/-- Whether the element was written in brackets. -/
def isIndexed : Element → Bool
  | .literal _ => false
  | .index _ => true

/-- The characters of the uniform form; those of an index are its digits. -/
def uniformChars : Element → List Char
  | .literal l => l.uniformChars
  | .index i => Decimal.digits i.toNat

def uniform (e : Element) : String := String.ofList e.uniformChars

/-- The value of a numeric element. -/
def asIndex? : Element → Option UInt64
  | .literal l => Decimal.word? Decimal.canonical? l.uniformChars
  | .index i => some i

/-- The element in lower case with `-` between its words. -/
def dashedChars : Element → List Char
  | .literal l => Text.join '-' l.words
  | .index i => Decimal.digits i.toNat

/-- The element in lower case with `-` between its words. -/
def dashed (e : Element) : String := String.ofList e.dashedChars

/-- The element with its words run together, each but the first capitalized. -/
def camelChars : Element → List Char
  | .literal l =>
    match l.words with
    | [] => []
    | w :: ws => w ++ ws.flatMap capitalized
  | .index i => Decimal.digits i.toNat

/-- The element with its words run together, each but the first capitalized. -/
def camel (e : Element) : String := String.ofList e.camelChars

/-- Whether two elements are the same up to spelling. -/
def agrees : Element → Element → Bool
  | .index a, .index b => a == b
  | .index i, .literal l | .literal l, .index i => (Element.literal l).asIndex? == some i
  | .literal a, .literal b => a.uniformChars == b.uniformChars

instance : BEq Element := ⟨agrees⟩

/-- Numeric elements come first, by value; the others follow by their uniform forms. -/
def order (a b : Element) : Ordering :=
  match a.asIndex?, b.asIndex? with
  | some i, some j => compare i j
  | some _, none => .lt
  | none, some _ => .gt
  | none, none => compare a.uniform b.uniform

end Element

end LayeredConfig
