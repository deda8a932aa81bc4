import LayeredConfig.Text.Lowercase

/-!
# LayeredConfig.Loading.Profile

Profiles: the kind of deployment that configuration files are chosen for.  A profile's name is read
in any case; `prod` and `dev` are short for production and development.
-/

namespace LayeredConfig

/-- The kind of deployment. -/
inductive Profile where
  | development
  | production
  | custom (name : String)
deriving Repr, DecidableEq

namespace Profile

/-- The variable that selects a profile. -/
def selector : String := "RELAXED_PROFILE"

def name : Profile → String
  | .development => "development"
  | .production => "production"
  | .custom name => name

def parse (text : String) : Profile :=
  let name := Text.lowercase text
  if name = "production" ∨ name = "prod" then .production
  else if name = "development" ∨ name = "dev" then .development
  else .custom name

/-- The profile that the variable of `lookup` selects; development if it is not set. -/
def ofLookup (lookup : String → Option String) : Profile :=
  match lookup selector with
  | some text => parse text
  | none => .development

end Profile

end LayeredConfig
