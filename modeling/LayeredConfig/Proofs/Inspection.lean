import LayeredConfig.Migration.Analysis
import LayeredConfig.Proofs.Memory

/-!
# LayeredConfig.Proofs.Inspection

What the inspection of sources finds, and what a second one finds.

1. An inspection is a question (`Migration.respects_inspect`), so nothing that is noted or
   numbered between two sources changes what is found in the second.
2. A second inspection finds the same, if the mappers that share a cache fail for the same names
   (`Migration.inspectAll_again`).  Otherwise a candidate list that one mapper has put into the cache
   answers for another that had none.
-/

namespace LayeredConfig.Migration

/-- The sources that no migration made. -/
def users (ss : List Source) : List Source := ss.filter (!isMigrated ·)

/-- The deprecated properties that sources are asked for. -/
def asked (t : MetadataTable) : List (Name × Metadata × Deprecation) :=
  t.deprecated.filter fun (_, _, d) => d.level = .error

/-- Looks into sources in order. -/
def inspectAll (t : MetadataTable) : List Source → Run (List SourceReport)
  | [] => pure []
  | s :: ss => do
    let r ← inspect t s
    return r :: (← inspectAll t ss)

/-- What is found in the sources of a chain. -/
def reports (t : MetadataTable) (c : Chain) (σ : Session) : List SourceReport :=
  (inspectAll t (users c.sources) σ).1

/-- A report names the source that it is about. -/
theorem source_inspect (t : MetadataTable) (s : Source) (σ : Session) :
    (inspect t s σ).1.source = s.name := rfl

/-! ## Inspections are questions -/

section Questions

variable {P : ∀ {α : Type}, Run α → Prop} {t : MetadataTable} {s : Source}

/-- What holds of the lookups of names holds of the inspection. -/
theorem compositional_inspectFor (hP : Run.Compositional P)
    (ds : List (Name × Metadata × Deprecation)) (h : ∀ d ∈ ds, P (s.get d.1)) :
    P (inspectFor t s ds) := by
  induction ds with
  | nil => exact hP.pure _
  | cons d ds ih =>
      have ⟨hd, hds⟩ := List.forall_mem_cons.mp h
      refine hP.bind hd fun found => ?_
      split
      · exact ih hds
      · exact hP.bind (hP.note _) fun _ => ih hds
      · exact hP.bind (hP.note _) fun _ => hP.bind (ih hds) fun _ => hP.pure _

/-- What holds of the question for every deprecated name, and is kept when computations are composed,
holds of an inspection. -/
theorem compositional_inspect (hP : Run.Compositional P) (h : ∀ d ∈ asked t, P (s.get d.1)) :
    P (inspect t s) :=
  hP.bind (compositional_inspectFor hP (asked t) h) fun _ => hP.pure _

/-- What holds of the questions to all sources holds of the inspection of all of them. -/
theorem compositional_inspectAll (hP : Run.Compositional P) {ss : List Source}
    (h : ∀ s ∈ ss, ∀ d ∈ asked t, P (s.get d.1)) : P (inspectAll t ss) := by
  induction ss with
  | nil => exact hP.pure _
  | cons s ss ih =>
      have ⟨hs, hss⟩ := List.forall_mem_cons.mp h
      exact hP.bind (compositional_inspect hP hs) fun _ => hP.bind (ih hss) fun _ => hP.pure _

end Questions

/-- Inspections go the same way in sessions of the same memory. -/
theorem respects_inspect (t : MetadataTable) (s : Source) : Run.Respects (inspect t s) :=
  compositional_inspect Run.respects_compositional fun d _ => s.respects_get d.1

/-! ## Inspecting again -/

/-- Mappers that share a cache fail for the same names, as far as they are asked. -/
def CachesAgree (t : MetadataTable) (ss : List Source) : Prop :=
  ∀ s ∈ ss, ∀ s' ∈ ss, ∀ id, s.mapper.cache = some id → s'.mapper.cache = some id →
    ∀ d ∈ asked t, ∀ d' ∈ asked t, s.mapper.cacheKey d.1 = s'.mapper.cacheKey d'.1 →
      s.mapper.Fails d.1 → s'.mapper.Fails d'.1

/-- The entries of caches that some mapper fails to make. -/
def Unmade (t : MetadataTable) (ss : List Source) (id : CacheId) (k : Dialect × String) : Prop :=
  ∃ s ∈ ss, s.mapper.cache = some id ∧ ∃ d ∈ asked t, s.mapper.cacheKey d.1 = k ∧ s.mapper.Fails d.1

variable {t : MetadataTable} {ss : List Source}

/-- Where the sharers of a cache agree, one of them fails to make an entry exactly if a given one does. -/
theorem CachesAgree.unmade_iff (h : CachesAgree t ss) {s : Source} (hs : s ∈ ss) {id : CacheId}
    (hid : s.mapper.cache = some id) {d : Name × Metadata × Deprecation} (hd : d ∈ asked t) :
    Unmade t ss id (s.mapper.cacheKey d.1) ↔ s.mapper.Fails d.1 := by
  constructor
  · rintro ⟨s', hs', hid', d', hd', hkey, hfails⟩
    exact h s' hs' s hs id hid' hid d' hd' d hd hkey hfails
  · intro hfails
    exact ⟨s, hs, hid, d, hd, rfl, hfails⟩

/-- Where the sharers of a cache agree, an inspection that is repeated finds what it found. -/
theorem CachesAgree.recalls_inspectAll (h : CachesAgree t ss) :
    Run.Recalls (Unmade t ss) (inspectAll t ss) :=
  compositional_inspectAll Run.recalls_compositional fun s hs d hd =>
    s.recalls_get d.1 fun _ hid => h.unmade_iff hs hid hd

/-- **A second inspection finds the same.** -/
theorem inspectAll_again (h : CachesAgree t ss) {σ τ : Session}
    (hτ : Session.SameMemory (inspectAll t ss σ).2 τ) :
    (inspectAll t ss τ).1 = (inspectAll t ss σ).1 :=
  h.recalls_inspectAll.again (.of_sameMemory hτ)

end LayeredConfig.Migration
