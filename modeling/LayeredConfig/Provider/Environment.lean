import LayeredConfig.Provider.Entries
import LayeredConfig.Text.Split

/-!
# LayeredConfig.Provider.Environment

Environment variables as a provider.

1. A *snapshot* holds variables taken once; it can be listed.
2. A *live* view asks the environment at every lookup; it cannot be listed, and a value that is
   not Unicode makes the lookup fail.  A snapshot leaves such variables out.
3. What the environment holds for a key is what follows the key and an equals sign in the text
   `NAME=VALUE` of a variable.
4. With a prefix, looking up `KEY` reads the variable named by the prefix and `KEY`; of the
   variables only those with the prefix and something after it are listed, without the prefix.
-/

namespace LayeredConfig

/-- The environment of a process: the values of the variables, `none` where one is not Unicode. -/
abbrev Environment := List (String × Option String)

namespace Environment

/-- The variables whose values are Unicode. -/
def readable (env : Environment) : List (String × String) :=
  env.filterMap fun (k, v) => v.map (k, ·)

/-- What follows a key and an equals sign in the text of a variable.  The text of a variable is its
name, an equals sign and its value, so a key that holds an equals sign reaches into the value. -/
def valueAfter? (key name value : String) : Option String :=
  (Text.afterPrefix? (key ++ "=").toList (name ++ "=" ++ value).toList).map String.ofList

/-- Together with the key, what follows gives back the text of the variable. -/
theorem valueAfter?_eq_some_iff {key name value rest : String} :
    valueAfter? key name value = some rest ↔ name ++ "=" ++ value = key ++ "=" ++ rest := by
  simp only [valueAfter?, Option.map_eq_some_iff, Text.afterPrefix?_eq_some_iff]
  constructor
  · rintro ⟨cs, text, rfl⟩
    rw [← String.toList_inj, text]
    simp only [String.toList_append, String.toList_ofList]
  · intro text
    exact ⟨rest.toList, by rw [text, String.toList_append], String.ofList_toList⟩

/-- The value that the environment holds for a key; `none` inside where it is not Unicode. -/
def find? (env : Environment) (key : String) : Option (Option String) :=
  env.findSome? fun
    | (name, some value) => (valueAfter? key name value).map some
    | (name, none) => if name = key then some none else none

/-- The usual name of the environment as a source. -/
def sourceName : String := "systemEnvironment"

/-- The full name of the variable behind a key. -/
def fullKey (pre : Option String) (key : String) : String := pre.getD "" ++ key

/-- The keys that are listed for the variables, given in order. -/
def listedKeys (pre : Option String) (keys : List String) : List String :=
  match pre with
  | none => keys
  | some p =>
    keys.filterMap fun k =>
      match Text.afterPrefix? p.toList k.toList with
      | some (c :: cs) => some (String.ofList (c :: cs))
      | _ => none

/-- A provider over the given variables; of equal names the last one counts. -/
def ofVariables (name : String) (pre : Option String) (vars : List (String × String)) : Provider :=
  let es := Entries.ofList (vars.map fun (k, v) => (k, .text v))
  { name := name
    capability := .enumerable
    get := fun key => .ok ((es.find? (fullKey pre key)).map (·.value))
    keys := listedKeys pre (es.map (·.1))
    origin := fun _ => none }

/-- A provider over the variables that the environment holds now. -/
def snapshot (name : String) (pre : Option String) (env : Environment) : Provider :=
  ofVariables name pre env.readable

/-- A provider that asks the environment at every lookup. -/
def live (name : String) (pre : Option String) (env : Environment) : Provider where
  name := name
  capability := .lookupOnly
  get key :=
    match env.find? (fullKey pre key) with
    | some (some v) => .ok (some (.text v))
    | some none => .error (.lookup (fullKey pre key) "value is not valid unicode")
    | none => .ok none
  keys := []
  origin _ := none

end Environment

end LayeredConfig
