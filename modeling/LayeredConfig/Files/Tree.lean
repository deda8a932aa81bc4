import LayeredConfig.Files.Path

/-!
# LayeredConfig.Files.Tree

Files and directories, and the working directory from which paths lead.

1. A directory and a file have a place: the names on the way from the root, a slash before each.
   The place of the root is empty.
2. A path is followed part by part: `.` and empty parts stay where they are, which must be a
   directory, and `..` goes up, from the root to the root itself.
3. The system refuses a path that holds a NUL character, one of 4096 bytes or more, and the lookup
   of a name of more than 255 bytes.
4. To make a directory is to make those that are missing along its path.
-/

namespace LayeredConfig

/-- The files and directories that are known, by their places. -/
structure FileTree where
  /-- The place of the working directory. -/
  workDir : String
  dirs : List String
  files : List (String × String)

/-- Why a path leads to no file. -/
inductive FileError where
  | notFound
  | notDirectory
  | nameTooLong
  | holdsNul
deriving Repr, DecidableEq

def FileError.message : FileError → String
  | .notFound => "No such file or directory (os error 2)"
  | .notDirectory => "Not a directory (os error 20)"
  | .nameTooLong => "File name too long (os error 36)"
  | .holdsNul => "file name contained an unexpected NUL byte"

/-- What a path leads to. -/
inductive FileNode where
  | dir (place : String)
  | file (place : String) (content : String)

namespace FileTree

/-! ## Places -/

/-- The place of a name in a directory. -/
def below (dir name : String) : String := dir ++ "/" ++ name

/-- The place of the directory that a directory lies in; the root lies in itself. -/
def above (dir : String) : String :=
  String.ofList ((dir.toList.reverse.dropWhile (· ≠ '/')).drop 1).reverse

/-! ## Following paths -/

/-- The most bytes of a name. -/
def maxNameSize : Nat := 255

/-- The number of bytes from which on a path is too long. -/
def pathSizeLimit : Nat := 4096

/-- The node of a name in a directory. -/
def child (t : FileTree) (dir name : String) : Except FileError FileNode :=
  let place := below dir name
  if maxNameSize < name.utf8ByteSize then .error .nameTooLong
  else
    match t.files.lookup place with
    | some content => .ok (.file place content)
    | none => if t.dirs.contains place then .ok (.dir place) else .error .notFound

/-- Follows the pieces of a path from a node. -/
def follow (t : FileTree) : FileNode → List String → Except FileError FileNode
  | n, [] => .ok n
  | .file .., _ :: _ => .error .notDirectory
  | .dir place, p :: ps =>
    if p = "" ∨ p = "." then t.follow (.dir place) ps
    else if p = ".." then t.follow (.dir (above place)) ps
    else
      match t.child place p with
      | .ok n => t.follow n ps
      | .error e => .error e

/-- The place where a path begins: the root, or the working directory. -/
def start (t : FileTree) (path : String) : String :=
  if Path.isAbsolute path then "" else t.workDir

/-- What a path leads to. -/
def find (t : FileTree) (path : String) : Except FileError FileNode :=
  if path.toList.contains '\x00' then .error .holdsNul
  else if path = "" then .error .notFound
  else if pathSizeLimit ≤ path.utf8ByteSize then .error .nameTooLong
  else t.follow (.dir (t.start path)) (Path.pieces path)

/-- The content of a file, if the path leads to a file. -/
def read? (t : FileTree) (path : String) : Option String :=
  match t.find path with
  | .ok (.file _ content) => some content
  | _ => none

/-- Whether a path leads to a file. -/
def isFile (t : FileTree) (path : String) : Bool := (t.read? path).isSome

/-! ## Making directories and files -/

/-- Goes along the pieces of a path from a directory and makes the directories that are missing;
the tree, and the place where the path leads.  Nothing comes of it where a file is in the way. -/
def enter (t : FileTree) (dir : String) : List String → Option (FileTree × String)
  | [] => some (t, dir)
  | p :: ps =>
    if p = "" ∨ p = "." then t.enter dir ps
    else if p = ".." then t.enter (above dir) ps
    else
      match t.child dir p with
      | .ok (.dir place) => t.enter place ps
      | .error .notFound => enter { t with dirs := below dir p :: t.dirs } (below dir p) ps
      | _ => none

/-- The tree with the directory at a path. -/
def makeDir (t : FileTree) (path : String) : FileTree :=
  match t.enter (t.start path) (Path.pieces path) with
  | some (t, _) => t
  | none => t

/-- A tree of an empty working directory and the directories it lies in. -/
def ofWorkDir (place : String) : FileTree := makeDir ⟨place, [], []⟩ place

/-- The tree with a file of the given name in the directory to which pieces lead, and the
directories it lies in.  The new content is made from the old one, if there is one. -/
def changeFile (t : FileTree) (start : String) (pieces : List String) (name : String)
    (change : Option String → String) : FileTree :=
  match t.enter start pieces with
  | none => t
  | some (t, dir) =>
    let place := below dir name
    match t.child dir name with
    | .ok (.file _ old) =>
      { t with files := (place, change (some old)) :: t.files.filter (·.1 ≠ place) }
    | .error .notFound => { t with files := (place, change none) :: t.files }
    | _ => t

/-- The tree with a file of the given content at a path, and the directories it lies in. -/
def write (t : FileTree) (path content : String) : FileTree :=
  match (Path.parts path).getLast? with
  | some name => t.changeFile (t.start path) (Path.parts path).dropLast name fun _ => content
  | none => t

/-- The tree with a file of the given name in the directory to which pieces lead, and the
directories it lies in; a file that is there keeps its content. -/
def touch (t : FileTree) (start : String) (pieces : List String) (name : String) : FileTree :=
  t.changeFile start pieces name (·.getD "")

/-- The paths of all files below the working directory, from there, in ascending order. -/
def filePaths (t : FileTree) : List String :=
  let inside := (below t.workDir "").toList
  let own := t.files.filterMap fun (place, _) =>
    (Text.afterPrefix? inside place.toList).map String.ofList
  own.mergeSort fun a b => a ≤ b

end FileTree

end LayeredConfig
