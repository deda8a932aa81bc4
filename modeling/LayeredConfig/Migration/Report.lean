import LayeredConfig.Json.Property
import LayeredConfig.Metadata.Basic

/-!
# LayeredConfig.Migration.Report

What a migration found: for every source it looked into, the deprecated properties that the source
has, apart by whether their values can go to a replacement.
-/

namespace LayeredConfig

/-- What becomes of a deprecated property. -/
inductive Outcome where
  /-- Its value goes to the replacement. -/
  | matched
  /-- Nothing can take its place. -/
  | unhandled
deriving Repr, DecidableEq

/-- The name of an outcome in capitals. -/
def Outcome.display : Outcome → String
  | .matched => "MATCHED"
  | .unhandled => "UNHANDLED"

/-- A deprecated property that was found in a source. -/
structure Finding where
  /-- The property under its deprecated name. -/
  property : Property
  /-- The declared replacement, if it is a name. -/
  replacement : Option Name
  level : Severity
  reason : Option String
  outcome : Outcome

/-- The findings in one source. -/
structure SourceReport where
  source : String
  matched : List Finding
  unhandled : List Finding

/-- The findings in all sources that were looked into, in the order of the chain. -/
structure Report where
  sources : List SourceReport

namespace SourceReport

/-- The findings in a source, put apart by outcome. -/
def ofFindings (source : String) (fs : List Finding) : SourceReport where
  source := source
  matched := fs.filter (·.outcome = .matched)
  unhandled := fs.filter (·.outcome = .unhandled)

def isEmpty (r : SourceReport) : Bool := r.matched.isEmpty && r.unhandled.isEmpty

end SourceReport

namespace Report

/-- The findings in the source of a name. -/
def source? (r : Report) (name : String) : Option SourceReport :=
  r.sources.find? (·.source == name)

/-- All findings whose values go to a replacement. -/
def matched (r : Report) : List Finding := r.sources.flatMap (·.matched)

/-- All findings that nothing can take the place of. -/
def unhandled (r : Report) : List Finding := r.sources.flatMap (·.unhandled)

def isEmpty (r : Report) : Bool := r.sources.all (·.isEmpty)

end Report

/-! ## JSON -/

/-- A finding in JSON; a reason that is not given is left out. -/
def Finding.toJson (f : Finding) : Json :=
  .record ([("property", f.property.toJson),
      ("replacement", .ofOption (f.replacement.map (·.toJson))),
      ("level", .text f.level.name)]
    ++ (f.reason.map fun s => ("reason", Json.text s)).toList
    ++ [("outcome", .text f.outcome.display)])

def SourceReport.toJson (r : SourceReport) : Json :=
  .record [("source", .text r.source), ("matched", .array (r.matched.map (·.toJson))),
    ("unhandled", .array (r.unhandled.map (·.toJson)))]

def Report.toJson (r : Report) : Json :=
  .record [("sources", .array (r.sources.map (·.toJson)))]

end LayeredConfig
