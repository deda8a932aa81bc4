import LayeredConfig.Files.Tree
import LayeredConfig.Logging.Directive

/-!
# LayeredConfig.Logging.Builder

Setting up the log.

1. A directive that cannot be read is noted and left out.
2. With output to a file, the file is made if it does not exist, together with the directory it
   lies in.  A path without a file name means `relaxed.log`.
3. With output to a file and no path, the standard output is used, and that is noted.
-/

namespace LayeredConfig

/-- The log as it is to be set up. -/
structure LogBuilder where
  directives : List String := []
  level : Option Level := none
  format : LogFormat := .compact
  output : LogOutput := .stdout
  withTarget : Bool := true
  withThreadIds : Bool := false
  withFile : Bool := false
  withLineNumber : Bool := false
  filePath : Option String := none
deriving Repr, DecidableEq

/-- A name with a capital letter. -/
def titled (s : String) : String :=
  match s.toList with
  | [] => ""
  | c :: cs => String.ofList (c.toUpper :: cs.map Char.toLower)

namespace LogBuilder

def ofSettings (s : LogSettings) : LogBuilder :=
  { directives := s.directives
    level := some s.level
    format := s.format
    output := s.output
    filePath := s.filePath }

/-- All settings in words. -/
def display (b : LogBuilder) : String :=
  let flag (x : Bool) := if x then "true" else "false"
  let level := match b.level with
    | some l => "Some(Level(" ++ titled l.display ++ "))"
    | none => "None"
  let path := match b.filePath with
    | some p => "Some(" ++ Text.quoted p ++ ")"
    | none => "None"
  "LoggingBuilder \x7b directives: " ++ Text.quotedList b.directives
    ++ ", level: " ++ level
    ++ ", format: " ++ titled b.format.name
    ++ ", output: " ++ titled b.output.name
    ++ ", with_target: " ++ flag b.withTarget
    ++ ", with_thread_ids: " ++ flag b.withThreadIds
    ++ ", with_file: " ++ flag b.withFile
    ++ ", with_line_number: " ++ flag b.withLineNumber
    ++ ", file_path: " ++ path ++ " \x7d"

/-- Notes the directives that cannot be read. -/
def checkDirectives : List String → Run Unit
  | [] => pure ()
  | d :: ds => do
    if !Directive.isValid d then Run.note (.invalidDirective d)
    checkDirectives ds

/-- The tree with the log file of a path. -/
def makeLogFile (tree : FileTree) (path : String) : FileTree :=
  let start := if Path.parts path = [] then tree.workDir else tree.start path
  tree.touch start (Path.parts path).dropLast ((Path.fileName? path).getD "relaxed.log")

/-- Sets the log up; the files afterwards. -/
def install (b : LogBuilder) (tree : FileTree) : Run FileTree := do
  checkDirectives b.directives
  match b.output, b.filePath with
  | .file, some path => pure (makeLogFile tree path)
  | .file, none => do
    Run.note .noLogFile
    pure tree
  | _, _ => pure tree

end LogBuilder

end LayeredConfig
