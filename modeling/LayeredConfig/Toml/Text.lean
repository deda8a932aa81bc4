import LayeredConfig.Json.Parser

/-!
# LayeredConfig.Toml.Text

Blanks, comments, strings and keys of TOML.

1. Blanks are spaces and tabs; a line ends in a line feed, with or without a carriage return
   before it.
2. A comment runs from `#` to the end of its line.  Neither comments nor strings hold control
   characters other than the tab.
3. Basic strings, in double quotes, know escapes; literal strings, in single quotes, do not.
4. Multi-line strings stand in three quotes; a line break directly after the opening quotes is
   dropped, every line break is read as a line feed, and up to two quotes may stand directly before
   the closing ones.  In a basic one a backslash at the end of a line drops the line break and all
   blanks and line breaks after it.

Every reader returns what it read and the rest of the text; `none` means that the text is no TOML.
-/

namespace LayeredConfig.Toml

/-! ## Blanks, line ends and comments -/

def isBlank (c : Char) : Bool := c == ' ' || c == '\t'

def skipBlanks (cs : List Char) : List Char := cs.dropWhile isBlank

def isControl (c : Char) : Bool := (c.toNat < 0x20 && c != '\t') || c.toNat == 0x7F

/-- What follows a line end, if one comes next. -/
def lineEnd? : List Char → Option (List Char)
  | '\n' :: cs => some cs
  | '\r' :: '\n' :: cs => some cs
  | _ => none

def skipComment : List Char → List Char
  | '#' :: cs => cs.dropWhile (!isControl ·)
  | cs => cs

/-- Reads blanks and a comment up to the end of the line or of the file. -/
def restOfLine? (cs : List Char) : Option (List Char) :=
  match skipComment (skipBlanks cs) with
  | [] => some []
  | cs => lineEnd? cs

/-- Drops blanks, line ends, and comments that end a line, for at most so many steps. -/
def skipLines : Nat → List Char → List Char
  | 0, cs => cs
  | steps + 1, cs =>
    match skipBlanks cs with
    | '#' :: rest =>
      match lineEnd? (skipComment ('#' :: rest)) with
      | some more => skipLines steps more
      | none => '#' :: rest
    | cs =>
      match lineEnd? cs with
      | some more => skipLines steps more
      | none => cs

/-! ## Strings -/

/-- Reads so many hexadecimal digits. -/
def hex? : Nat → Nat → List Char → Option (Nat × List Char)
  | 0, n, cs => some (n, cs)
  | _ + 1, _, [] => none
  | digits + 1, n, c :: cs =>
    match Json.Parser.hexDigit? c with
    | some d => hex? digits (16 * n + d) cs
    | none => none

/-- The character of a code point, unless it is a surrogate or too large. -/
def scalarChar? (n : Nat) : Option Char := if n.isValidChar then some (Char.ofNat n) else none

def escape? : List Char → Option (Char × List Char)
  | [] => none
  | c :: cs =>
    if c = 'b' then some ('\x08', cs)
    else if c = 't' then some ('\t', cs)
    else if c = 'n' then some ('\n', cs)
    else if c = 'f' then some ('\x0c', cs)
    else if c = 'r' then some ('\r', cs)
    else if c = '"' ∨ c = '\\' then some (c, cs)
    else if c = 'u' ∨ c = 'U' then
      match hex? (if c = 'u' then 4 else 8) 0 cs with
      | some (n, rest) => (scalarChar? n).map (·, rest)
      | none => none
    else none

/-- Reads a basic string after its opening quote. -/
def basicRest? : Nat → List Char → Option (List Char × List Char)
  | 0, _ => none
  | _ + 1, [] => none
  | steps + 1, c :: cs =>
    if c = '"' then some ([], cs)
    else if c = '\\' then
      match escape? cs with
      | some (x, rest) => (basicRest? steps rest).map fun (s, r) => (x :: s, r)
      | none => none
    else if isControl c then none
    else (basicRest? steps cs).map fun (s, r) => (c :: s, r)

/-- Reads a literal string after its opening quote. -/
def literalRest? : List Char → Option (List Char × List Char)
  | [] => none
  | c :: cs =>
    if c = '\x27' then some ([], cs)
    else if isControl c then none
    else (literalRest? cs).map fun (s, r) => (c :: s, r)

/-- Drops a line end directly after opening quotes. -/
def dropLineEnd (cs : List Char) : List Char := (lineEnd? cs).getD cs

def skipGaps : List Char → List Char
  | '\r' :: '\n' :: cs => skipGaps cs
  | c :: cs => if isBlank c || c == '\n' then skipGaps cs else c :: cs
  | [] => []

/-- What follows a backslash, blanks and a line end, less all further blanks and line ends. -/
def continuation? (cs : List Char) : Option (List Char) :=
  (lineEnd? (skipBlanks cs)).map skipGaps

/-- Reads a multi-line string after its opening quotes.  `quote` is its quote; only a basic string
knows escapes. -/
def linesRest? (quote : Char) (basic : Bool) : Nat → List Char → Option (List Char × List Char)
  | 0, _ => none
  | _ + 1, [] => none
  | steps + 1, c :: cs =>
    if c = quote then
      let more := (cs.takeWhile (· = quote)).length
      if more < 2 then (linesRest? quote basic steps cs).map fun (s, r) => (c :: s, r)
      else
        let kept := min (more - 2) 2
        some (List.replicate kept quote, cs.drop (kept + 2))
    else if c = '\\' ∧ basic then
      match continuation? cs with
      | some rest => linesRest? quote basic steps rest
      | none =>
        match escape? cs with
        | some (x, rest) => (linesRest? quote basic steps rest).map fun (s, r) => (x :: s, r)
        | none => none
    else
      match lineEnd? (c :: cs) with
      | some rest => (linesRest? quote basic steps rest).map fun (s, r) => ('\n' :: s, r)
      | none =>
        if isControl c then none
        else (linesRest? quote basic steps cs).map fun (s, r) => (c :: s, r)

def string? (cs : List Char) : Option (String × List Char) :=
  let read : Option (List Char × List Char) := match cs with
    | '"' :: '"' :: '"' :: rest => linesRest? '"' true (rest.length + 1) (dropLineEnd rest)
    | '"' :: rest => basicRest? (rest.length + 1) rest
    | '\x27' :: '\x27' :: '\x27' :: rest =>
      linesRest? '\x27' false (rest.length + 1) (dropLineEnd rest)
    | '\x27' :: rest => literalRest? rest
    | _ => none
  read.map fun (s, r) => (String.ofList s, r)

/-! ## Keys -/

/-- Whether a character may stand in a key without quotes. -/
def isBareKey (c : Char) : Bool :=
  c.isAlphanum || c == '-' || c == '_'

/-- Reads one name of a key. -/
def simpleKey? (cs : List Char) : Option (String × List Char) :=
  match cs with
  | '"' :: rest => (basicRest? (rest.length + 1) rest).map fun (s, r) => (String.ofList s, r)
  | '\x27' :: rest => (literalRest? rest).map fun (s, r) => (String.ofList s, r)
  | cs =>
    match cs.takeWhile isBareKey with
    | [] => none
    | name => some (String.ofList name, cs.dropWhile isBareKey)

/-- Reads names with dots between them. -/
def dottedKey? : Nat → List Char → Option (List String × List Char)
  | 0, _ => none
  | names + 1, cs =>
    match simpleKey? (skipBlanks cs) with
    | none => none
    | some (name, rest) =>
      match skipBlanks rest with
      | '.' :: more => (dottedKey? names more).map fun (ns, r) => (name :: ns, r)
      | rest => some ([name], rest)

/-- The nesting at which a file is refused. -/
def nestingLimit : Nat := 80

/-- Reads a key, of fewer names than the limit. -/
def key? (cs : List Char) : Option (List String × List Char) := dottedKey? (nestingLimit - 1) cs

end LayeredConfig.Toml
