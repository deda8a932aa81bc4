import LayeredConfig.Chain.Basic
import LayeredConfig.Name.Parser
import LayeredConfig.Source.Lookup

/-!
# LayeredConfig.Chain.Resolution

Asking a chain.

1. The sources are asked in order, and the first that has a property gives it; those after it are
   not asked.
2. A source that fails is noted and passed over.
3. Whether there are names below a name: *present* if a source knows of one, else *unknown* if a
   source cannot tell, else *absent*.
-/

namespace LayeredConfig.Chain

/-- The first property that one of the sources has for a name. -/
def resolveIn (n : Name) : List Source → Run (Option Property)
  | [] => pure none
  | s :: ss => do
    match ← s.get n with
    | .ok (some p) => pure (some p)
    | .ok none => resolveIn n ss
    | .error e =>
      Run.note (.sourceSkipped s.name n e)
      resolveIn n ss

def resolve (c : Chain) (n : Name) : Run (Option Property) := resolveIn n c.sources

def resolveText (c : Chain) (text : String) : Run (Except Malformed (Option Property)) :=
  match Name.parse text with
  | .error m => pure (.error m)
  | .ok n => do return .ok (← c.resolve n)

/-- Whether the sources have names below a name, where `soFar` was found before. -/
def descendantIn (n : Name) (soFar : Containment) : List Source → Run Containment
  | [] => pure soFar
  | s :: ss => do
    match ← s.containsDescendantOf n with
    | .present => pure .present
    | .unknown => descendantIn n .unknown ss
    | .absent => descendantIn n soFar ss

/-- Whether the chain has names below a name. -/
def containsDescendantOf (c : Chain) (n : Name) : Run Containment :=
  descendantIn n .absent c.sources

end LayeredConfig.Chain
