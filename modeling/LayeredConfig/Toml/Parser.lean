import LayeredConfig.Toml.DateTime
import LayeredConfig.Toml.Number
import LayeredConfig.Toml.Tree

/-!
# LayeredConfig.Toml.Parser

Reading TOML 1.0.

1. A file is a sequence of lines, each blank, a comment, a header, or the definition of a key.  A
   byte order mark at the beginning is skipped.
2. Arrays may spread over lines and hold comments; inline tables stay on one line.
3. A date or a time becomes a table with a single field that holds its text.
4. Arrays and inline tables nest to a limited depth.
-/

namespace LayeredConfig.Toml

/-- The field that holds the text of a date or a time. -/
def dateTimeField : String := "$__toml_private_datetime"

/-! ## Values -/

/-- Reads a value that is no array and no inline table. -/
def scalar? (cs : List Char) : Option (Node × List Char) :=
  match cs with
  | 't' :: 'r' :: 'u' :: 'e' :: rest => some (.scalar (.bool true), rest)
  | 'f' :: 'a' :: 'l' :: 's' :: 'e' :: rest => some (.scalar (.bool false), rest)
  | '"' :: _ | '\x27' :: _ => (string? cs).map fun (s, r) => (.scalar (.text s), r)
  | cs =>
    match dateTime? cs with
    | none => none
    | some (some (text, rest)) =>
      some (.table .inline [(dateTimeField, .scalar (.text text))], rest)
    | some none => (number? cs).map fun (s, r) => (.scalar s, r)

mutual

/-- Reads a value; `depth` bounds the nesting, and `steps` the work.  Every step drops a character
or is followed by one that does, so twice as many steps as characters are enough. -/
def value? : Nat → Nat → List Char → Option (Node × List Char)
  | 0, _, _ => none
  | steps + 1, depth, cs =>
    match cs with
    | '[' :: rest =>
      match depth with
      | 0 => none
      | depth + 1 => (items? steps depth rest).map fun (ns, r) => (.array ns, r)
    | '{' :: rest =>
      match depth with
      | 0 => none
      | depth + 1 =>
        match skipBlanks rest with
        | '}' :: more => some (.table .inline [], more)
        | _ => (pairs? steps depth [] rest).map fun (fs, r) => (.table .inline fs, r)
    | cs => scalar? cs

/-- Reads the items of an array up to its closing bracket. -/
def items? : Nat → Nat → List Char → Option (List Node × List Char)
  | 0, _, _ => none
  | steps + 1, depth, cs =>
    match skipLines steps cs with
    | ']' :: rest => some ([], rest)
    | cs =>
      match value? steps depth cs with
      | none => none
      | some (n, rest) =>
        match skipLines steps rest with
        | ',' :: more => (items? steps depth more).map fun (ns, r) => (n :: ns, r)
        | ']' :: more => some ([n], more)
        | _ => none

/-- Reads the definitions of an inline table up to its closing brace. -/
def pairs? : Nat → Nat → Fields → List Char → Option (Fields × List Char)
  | 0, _, _, _ => none
  | steps + 1, depth, fields, cs =>
    match key? cs with
    | none => none
    | some (names, rest) =>
      match rest with
      | '=' :: rest =>
        match value? steps depth (skipBlanks rest) with
        | none => none
        | some (n, rest) =>
          match define names.dropLast (names.getLast?.getD "") n fields with
          | none => none
          | some fields =>
            match skipBlanks rest with
            | ',' :: more => pairs? steps depth fields more
            | '}' :: more => some (fields, more)
            | _ => none
      | _ => none

end

/-! ## Lines -/

/-- Reads a header after its opening bracket. -/
def header? (d : Draft) (cs : List Char) : Option (Draft × List Char) :=
  match cs with
  | '[' :: rest => do
    let (path, rest) ← key? rest
    let rest ← match rest with
      | ']' :: ']' :: more => restOfLine? more
      | _ => none
    return (← d.openArrayTable path, rest)
  | cs => do
    let (path, rest) ← key? cs
    let rest ← match rest with
      | ']' :: more => restOfLine? more
      | _ => none
    return (← d.openTable path, rest)

/-- Reads the definition of a key; `size` bounds the length of the text. -/
def definition? (size : Nat) (d : Draft) (cs : List Char) : Option (Draft × List Char) := do
  let (names, rest) ← key? cs
  match rest with
  | '=' :: rest =>
    let (n, rest) ← value? (2 * size + 2) (nestingLimit - 1) (skipBlanks rest)
    let rest ← restOfLine? rest
    return (← d.define names.dropLast (names.getLast?.getD "") n, rest)
  | _ => none

/-- Reads lines up to the end of the file, for at most so many steps, which must be more than the
text has characters. -/
def lines? : Nat → Draft → List Char → Option Draft
  | 0, _, _ => none
  | steps + 1, d, cs =>
    match skipBlanks cs with
    | [] => some d
    | '#' :: rest =>
      match restOfLine? ('#' :: rest) with
      | some more => lines? steps d more
      | none => none
    | '[' :: rest =>
      match header? d rest with
      | some (d, more) => lines? steps d more
      | none => none
    | cs =>
      match lineEnd? cs with
      | some more => lines? steps d more
      | none =>
        match definition? steps d cs with
        | some (d, more) => lines? steps d more
        | none => none

/-- Reads a file; the fields of the top table, in ascending order. -/
def parse? (text : String) : Option (List (String × Document)) :=
  let cs := match text.toList with
    | '\uFEFF' :: cs => cs
    | cs => cs
  match lines? (cs.length + 1) .start cs with
  | none => none
  | some d => d.finish.map fun fields => sortFields (fieldDocuments fields)

end LayeredConfig.Toml
