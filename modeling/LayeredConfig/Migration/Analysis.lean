import LayeredConfig.Chain.Basic
import LayeredConfig.Mapping.Dotted
import LayeredConfig.Migration.Summary
import LayeredConfig.Provider.Entries
import LayeredConfig.Source.Lookup

/-!
# LayeredConfig.Migration.Analysis

Finding deprecated properties in a chain and giving their values to their replacements.

1. Every source is asked for every property whose deprecation is an error.  Sources that an earlier
   run made are not asked.
2. A value can go to the declared replacement if the deprecated property has a type and the
   replacement has the same: its own entry says so, or, where it has none, the entry of its parent
   says that it is a map of such values.
3. For a source with such values, a source `migrate-<name>` is put next to it, which gives them
   under the names of the replacements.
4. A source that was made earlier and for which there is no use any more is removed.
-/

namespace LayeredConfig

namespace MetadataTable

/-- Whether the value of a deprecated property can stand for a replacement. -/
def isCompatible (t : MetadataTable) (deprecated : Metadata) (replacement : Name) : Bool :=
  match deprecated.type.map TypeText.compact with
  | none => false
  | some type =>
    match t.get? replacement with
    | some target => target.type.map TypeText.compact == some type
    | none =>
      let parent := replacement.parent?.bind t.get?
      (parent.bind (·.type)).bind (TypeText.mapValue? ∘ TypeText.compact) == some type

end MetadataTable

namespace Migration

/-- Where the source for replacements is put. -/
inductive Policy where
  /-- Before the source it was made from, so that its values win. -/
  | before
  /-- After it, so that values under the names of replacements win. -/
  | after
deriving Repr, DecidableEq

/-- The name of the source that is made from a source. -/
def migratedName (source : String) : String := "migrate-" ++ source

/-- Whether a source was made by a migration. -/
def isMigrated (s : Source) : Bool :=
  match s.derivedFrom with
  | some origin => s.name == migratedName origin
  | none => false

/-! ## Looking into a source -/

/-- The declared replacement, if it is a name. -/
def replacement? (d : Deprecation) : Option Name :=
  d.replacement.bind fun text =>
    match Name.parse text with
    | .ok n => some n
    | .error _ => none

/-- What becomes of a deprecated property. -/
def outcome (t : MetadataTable) (m : Metadata) (d : Deprecation) : Outcome :=
  match replacement? d with
  | some r => if t.isCompatible m r then .matched else .unhandled
  | none => .unhandled

/-- A deprecated property that was found, and what becomes of it. -/
def finding (t : MetadataTable) (m : Metadata) (d : Deprecation) (p : Property) : Finding :=
  ⟨p, replacement? d, d.level, d.reason, outcome t m d⟩

/-- What is noted of a finding. -/
def findingEvent (source : String) (deprecated : Name) (f : Finding) : Event :=
  match f.replacement, f.outcome with
  | some r, .matched => .migrating source deprecated r
  | _, _ => .noReplacement source deprecated

/-- Asks a source for deprecated properties, in order. -/
def inspectFor (t : MetadataTable) (s : Source) :
    List (Name × Metadata × Deprecation) → Run (List Finding)
  | [] => pure []
  | (n, m, d) :: rest => do
    match ← s.get n with
    | .ok none => inspectFor t s rest
    | .error e =>
      Run.note (.deprecatedSkipped s.name n e)
      inspectFor t s rest
    | .ok (some p) =>
      let f := finding t m d p
      Run.note (findingEvent s.name n f)
      return f :: (← inspectFor t s rest)

/-- Asks a source for all properties whose deprecation is an error. -/
def inspect (t : MetadataTable) (s : Source) : Run SourceReport := do
  let findings ← inspectFor t s (t.deprecated.filter fun (_, _, d) => d.level = .error)
  return .ofFindings s.name findings

/-! ## Changing the chain -/

/-- The entries of the source that is made from the findings in a source. -/
def migratedEntries (fs : List Finding) : Entries :=
  fs.foldl (fun es f =>
    match f.replacement with
    | some r => es.insert r.canonical ⟨f.property.value, some f.property.origin⟩
    | none => es) []

/-- The source that is made from the findings in a source. -/
def migratedSource (r : SourceReport) : Run Source := do
  let s ← Source.create ((migratedEntries r.matched).provider (migratedName r.source))
    ⟨Mapping.dotted, none⟩
  return s.markedFrom r.source

/-- The edit that puts a source next to the one it was made from. -/
def Policy.edit (p : Policy) (anchor : String) (s : Source) : Chain.Edit :=
  match p with
  | .before => .insertBefore anchor s
  | .after => .insertAfter anchor s

/-- Removes a source from a chain after noting why. -/
def discard (c : Chain) (name : String) (why : Event) : Run Chain := do
  Run.note why
  return (← c.edit (.remove name)).2

/-- Brings the source that is made from a source up to date. -/
def settle (p : Policy) (generated : List Source) (c : Chain) (s : Source) (r : SourceReport) :
    Run (Except ChainError Unit × Chain) := do
  if !r.matched.isEmpty then
    let edited ← c.edit (p.edit s.name (← migratedSource r))
    return edited.map (·.map fun _ => ()) id
  else if generated.any (·.name == migratedName s.name) then
    return (.ok (), ← discard c (migratedName s.name) (.staleRemoved s.name))
  else
    return (.ok (), c)

/-- Looks into sources in order and settles each, up to the first edit that is refused; the chain as
it is then, and the findings. -/
def settleAll (t : MetadataTable) (p : Policy) (generated : List Source) :
    Chain → List Source → Run (Chain × Except ChainError (List SourceReport))
  | c, [] => pure (c, .ok [])
  | c, s :: ss => do
    let r ← inspect t s
    match ← settle p generated c s r with
    | (.error e, c) => pure (c, .error e)
    | (.ok (), c) =>
      let (c, rest) ← settleAll t p generated c ss
      return (c, rest.map (r :: ·))

/-- Whether a source was made from one that is not among the given ones. -/
def isOrphan (sources : List Source) (s : Source) : Bool :=
  match s.derivedFrom with
  | some origin => !sources.any (·.name == origin)
  | none => true

/-- Removes the sources that were made from sources which are gone. -/
def dropOrphans (sources : List Source) : Chain → List Source → Run Chain
  | c, [] => pure c
  | c, g :: gs => do
    let c ← if isOrphan sources g && (c.find? g.name).any isMigrated
      then discard c g.name (.orphanRemoved g.name) else pure c
    dropOrphans sources c gs

/-- Looks into the sources of a chain and brings the chain up to date; the chain afterwards, which
also a refused edit leaves, and the findings. -/
def analyze (t : MetadataTable) (p : Policy) (c : Chain) :
    Run (Chain × Except ChainError Report) := do
  let generated := c.sources.filter isMigrated
  let sources := c.sources.filter (!isMigrated ·)
  match ← settleAll t p generated c sources with
  | (c, .error e) => pure (c, .error e)
  | (c, .ok reports) =>
    let c ← dropOrphans sources c generated
    let report : Report := ⟨reports⟩
    Run.noteAll (report.renamedSummary.toList.map .summary)
    Run.noteAll (report.unsupportedSummary.toList.map .summary)
    pure (c, .ok report)

end Migration

end LayeredConfig
