import LayeredConfig.Logging.Settings
import LayeredConfig.Text.Blank

/-!
# LayeredConfig.Logging.Directive

Which texts are log directives.

    Directive = Level | [Target] ['[' [Span] ['{' Field (',' Field)* '}'] ']'] ['=' [Level]]

1. A target begins with a letter, a digit, `-`, `:` or `_`; what follows up to `=`, `[` or `,` is
   not looked into, and neither are spans and fields, but no field is empty.
2. A level is a name in any case, `off` included, or a number from 0, which is off, to 5.
3. Blanks around a directive are passed over while its parts are told apart.  The text of the level
   is then taken from the directive with its blanks, from the place, counted in bytes of UTF-8, that
   it has without them.
-/

namespace LayeredConfig.Directive

/-- How far a directive was read. -/
inductive Stage where
  | start
  | target
  | span
  | field (empty : Bool)
  | fields
  | closed
  /-- The text of the level begins after this many bytes. -/
  | level (start : Nat)
  | complete
deriving Repr, DecidableEq

/-- Whether a text is a level or `off`. -/
def isLevel (s : String) : Bool :=
  match readCount? s with
  | some n => n ≤ 5
  | none => Text.asciiLowercase s == "off" || (Level.parse? s).isSome

/-- Whether a directive can begin with a character that opens no span. -/
def startsTarget (c : Char) : Bool :=
  c == '-' || c == ':' || c == '_' || c.isAlphanum || 0x80 ≤ c.toNat

/-- The first bytes of a text, as far as they make up whole characters. -/
def takeBytes (size : Nat) : List Char → List Char
  | [] => []
  | c :: cs => if c.utf8Size ≤ size then c :: takeBytes (size - c.utf8Size) cs else []

/-- What follows the first bytes of a text. -/
def dropBytes (size : Nat) : List Char → List Char
  | [] => []
  | c :: cs => if c.utf8Size ≤ size then dropBytes (size - c.utf8Size) cs else c :: cs

/-- The piece of a text from one byte up to another. -/
def piece (cs : List Char) (first last : Nat) : String :=
  String.ofList (dropBytes first (takeBytes last cs))

/-- Whether the text of a level, which may be left out, is one. -/
def levelOrNone (s : String) : Bool := s == "" || isLevel s

/-- Reads the character after `i` bytes, in a directive that is `whole` with its blanks. -/
def step (whole : List Char) (i : Nat) (c : Char) : Stage → Option Stage
  | .start => if c = '[' then some .span else if startsTarget c then some .target else none
  | .target =>
    if c = '=' then some (.level (i + 1))
    else if c = '[' then some .span
    else if c = ',' then some .complete
    else some .target
  | .span =>
    if c = ']' then some .closed
    else if c = '\x7b' then some (.field true)
    else some .span
  | .field empty =>
    if c = '\x7d' then (if empty then none else some .fields)
    else if c = ',' then (if empty then none else some (.field true))
    else some (.field false)
  | .fields => if c = ']' then some .closed else none
  | .closed => if c = '=' then some (.level (i + 1)) else none
  | .level start =>
    if c = ',' then (if levelOrNone (piece whole start i) then some .complete else none)
    else some (.level start)
  | .complete => none

/-- Reads the characters after `i` bytes. -/
def run (whole : List Char) : Nat → Stage → List Char → Option Stage
  | _, stage, [] => some stage
  | i, stage, c :: cs =>
    match step whole i c stage with
    | some next => run whole (i + c.utf8Size) next cs
    | none => none

/-- Whether a text is a directive. -/
def isValid (text : String) : Bool :=
  let whole := text.toList
  match run whole 0 .start (Text.trim whole) with
  | some .target | some .closed | some .complete => true
  | some (.level start) => levelOrNone (piece whole start text.utf8ByteSize)
  | _ => false

end LayeredConfig.Directive
