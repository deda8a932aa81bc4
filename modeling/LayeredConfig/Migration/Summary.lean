import LayeredConfig.Migration.Report

/-!
# LayeredConfig.Migration.Summary

The findings of a migration in words for the operator: first the names that have replacements, then
those that are no longer supported.  The sources stand in the order of the chain, the names of a
source in their own order.
-/

namespace LayeredConfig

/-- A finding in words: its name, its origin, and what becomes of it. -/
def Finding.describe (f : Finding) : String :=
  let verdict := match f.replacement, f.outcome with
    | some r, .matched => "Replacement: " ++ r.canonical
    | some r, .unhandled =>
      "Reason: Replacement key '" ++ r.canonical ++ "' uses an incompatible target type"
    | none, _ => "Reason: " ++ f.reason.getD "none"
  "\tKey: " ++ f.property.name.canonical ++ "\n\t\tOrigin: " ++ f.property.origin.display
    ++ "\n\t\t" ++ verdict ++ "\n"

/-- Findings in the order of their names. -/
def Finding.sort (fs : List Finding) : List Finding :=
  fs.mergeSort fun a b => Name.le a.property.name b.property.name

/-- The findings of a source in words; nothing where there are none. -/
def SourceReport.describe (source : String) (fs : List Finding) : String :=
  if fs.isEmpty then ""
  else
    "Property source '" ++ source ++ "':\n"
      ++ String.join ((Finding.sort fs).map (·.describe)) ++ "\n"

namespace Report

/-- The chosen findings of all sources in words, between a header and a footer. -/
def summarize (r : Report) (header footer : String) (select : SourceReport → List Finding) :
    Option String :=
  let body := String.join (r.sources.map fun s => SourceReport.describe s.source (select s))
  if body = "" then none
  else some ("\n" ++ header ++ "\n\n" ++ body ++ "\n" ++ footer ++ "\n")

/-- The names that have replacements, in words. -/
def renamedSummary (r : Report) : Option String :=
  r.summarize
    "The use of configuration keys that have been renamed was found in the environment:"
    ("Each configuration key has been temporarily mapped to its replacement for your convenience. "
      ++ "To silence this warning, please update your configuration to use the new keys.")
    (·.matched)

/-- The names that are no longer supported, in words. -/
def unsupportedSummary (r : Report) : Option String :=
  r.summarize
    "The use of configuration keys that are no longer supported was found in the environment:"
    "Please refer to the release notes or reference guide for potential alternatives."
    (·.unhandled)

/-- Both in words, if anything was found. -/
def summary (r : Report) : Option String :=
  match r.renamedSummary, r.unsupportedSummary with
  | none, none => none
  | some a, none => some a
  | none, some b => some b
  | some a, some b => some (a ++ "\n" ++ b)

end Report

end LayeredConfig
