import LayeredConfig.Text.Split

/-!
# LayeredConfig.Files.Path

Paths as texts.  The parts of a path stand between slashes; empty parts and `.` name nothing.
-/

namespace LayeredConfig.Path

/-- Whether a path does not depend on the working directory. -/
def isAbsolute (path : String) : Bool := path.toList.head? == some '/'

/-- The path of `child` as seen from the directory `base`.  An absolute path stays as it is. -/
def join (base child : String) : String :=
  if isAbsolute child || base == "" then child
  else if base.toList.getLast? == some '/' then base ++ child
  else base ++ "/" ++ child

/-- The texts between the slashes. -/
def pieces (path : String) : List String := (Text.split '/' path.toList).map String.ofList

/-- The parts that name something. -/
def parts (path : String) : List String := (pieces path).filter fun p => p ≠ "" ∧ p ≠ "."

/-- The last part, unless it leads upwards. -/
def fileName? (path : String) : Option String :=
  match (parts path).getLast? with
  | some name => if name = ".." then none else some name
  | none => none

/-- What follows the last dot of the file name; a dot at its beginning does not count. -/
def extension? (path : String) : Option String :=
  match fileName? path with
  | none => none
  | some name =>
    let reversed := name.toList.reverse
    match reversed.dropWhile (· ≠ '.') with
    | '.' :: _ :: _ => some (String.ofList (reversed.takeWhile (· ≠ '.')).reverse)
    | _ => none

end LayeredConfig.Path
