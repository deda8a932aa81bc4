import LayeredConfig.Proofs.Inspection
import Mathlib.Data.List.Nodup

/-!
# LayeredConfig.Proofs.Upkeep

What a migration does to a chain, as a change of the list of sources.

1. Settling a source takes out the source of the generated name and, if something was found, puts
   a new one next to the source (`Migration.settled`).  It never fails: the source is in the chain,
   and it does not have the name that is made from its own.
2. A run of the migration settles the user sources in order, then takes out what was made from
   sources that are gone (`Migration.analyze_spec`).
-/

namespace LayeredConfig.Migration

/-! ## Generated sources -/

/-- The source that is made from the findings in a source, under a number. -/
def madeSource (id : SourceId) (r : SourceReport) : Source where
  id := id
  name := migratedName r.source
  capability := .enumerable
  provider := (migratedEntries r.matched).provider (migratedName r.source)
  mapper := ⟨Mapping.dotted, none⟩
  derivedFrom := some r.source

/-- A made source is one that a migration made. -/
theorem isMigrated_madeSource (id : SourceId) (r : SourceReport) :
    isMigrated (madeSource id r) = true := beq_self_eq_true _

/-- A source was made by a migration if it has an origin and the name that is made from it. -/
theorem isMigrated_iff {s : Source} :
    isMigrated s = true ↔ ∃ origin, s.derivedFrom = some origin ∧ s.name = migratedName origin := by
  rw [isMigrated]
  cases s.derivedFrom with
  | none => simp
  | some origin => simp

/-- Different sources have made sources of different names. -/
theorem migratedName_injective {a b : String} (h : migratedName a = migratedName b) : a = b :=
  String.append_right_inj "migrate-" |>.mp h

/-- The name of a generated source is not the name it is made from: it is longer. -/
theorem migratedName_ne (a : String) : migratedName a ≠ a := by
  intro h
  have := congrArg String.length h
  rw [migratedName, String.length_append] at this
  have : "migrate-".length = 8 := by decide
  omega

/-! ## Settling a source -/

/-- Puts a source next to the first one of the given name. -/
def Policy.splice (p : Policy) (anchor : String) (m : Source) (xs : List Source) : List Source :=
  match p with
  | .before => Source.spliceBefore anchor m xs
  | .after => Source.spliceAfter anchor m xs

/-- A source with the one that is put next to it. -/
def Policy.pair (p : Policy) (m s : Source) : List Source :=
  match p with
  | .before => [m, s]
  | .after => [s, m]

theorem mem_pair {p : Policy} {m s x : Source} : x ∈ p.pair m s ↔ x = m ∨ x = s := by
  cases p with
  | before => simp [Policy.pair]
  | after => simp [Policy.pair, or_comm]

theorem splice_nil (p : Policy) (anchor : String) (m : Source) : p.splice anchor m [] = [] := by
  cases p <;> rfl

theorem splice_cons_self (p : Policy) (m x : Source) (xs : List Source) :
    p.splice x.name m (x :: xs) = p.pair m x ++ xs := by
  cases p <;> simp [Policy.splice, Policy.pair, Source.spliceBefore, Source.spliceAfter]

theorem splice_cons_of_ne (p : Policy) {anchor : String} {x : Source} (h : x.name ≠ anchor)
    (m : Source) (xs : List Source) : p.splice anchor m (x :: xs) = x :: p.splice anchor m xs := by
  cases p <;> simp [Policy.splice, Source.spliceBefore, Source.spliceAfter, h]

/-- The sources of a chain after one of them was settled; a new source gets the given number. -/
def settled (p : Policy) (generated : List Source) (id : SourceId) (s : Source) (r : SourceReport)
    (xs : List Source) : List Source :=
  if r.matched = [] then
    if migratedName s.name ∈ Source.namesOf generated then
      Source.without (migratedName s.name) xs
    else xs
  else p.splice s.name (madeSource id r) (Source.without (migratedName s.name) xs)

/-- A source is put next to an anchor that is in the chain. -/
theorem edit_apply (p : Policy) {c : Chain} {anchor : String} {m : Source} (hne : m.name ≠ anchor)
    (hin : anchor ∈ c.names) (σ : Session) :
    ∃ c', (c.edit (p.edit anchor m) σ).1 = (.ok none, c') ∧
      c'.sources = p.splice anchor m (Source.without m.name c.sources) ∧
      σ.SameMemory (c.edit (p.edit anchor m) σ).2 := by
  cases p with
  | before =>
      obtain ⟨c', hc, hsources⟩ := Chain.insertNextTo_of_mem Source.spliceBefore_perm hne hin
      simp only [Chain.edit, Policy.edit, Chain.apply, Chain.insertBefore, hc]
      exact ⟨c', rfl, hsources, rfl, rfl⟩
  | after =>
      obtain ⟨c', hc, hsources⟩ := Chain.insertNextTo_of_mem Source.spliceAfter_perm hne hin
      simp only [Chain.edit, Policy.edit, Chain.apply, Chain.insertAfter, hc]
      exact ⟨c', rfl, hsources, rfl, rfl⟩

/-- Discarding takes the source out and leaves the memory as it is. -/
theorem discard_apply (c : Chain) (name : String) (why : Event) (σ : Session) :
    (discard c name why σ).1 = c.remove name ∧ σ.SameMemory (discard c name why σ).2 :=
  ⟨congrArg Prod.snd (c.take_eq name), rfl, rfl⟩

section

variable {p : Policy} {generated : List Source} {c : Chain} {s : Source} {r : SourceReport}

/-- A source with a match is settled by the edit of the policy. -/
theorem settle_of_matched (h : r.matched ≠ []) (σ : Session) :
    settle p generated c s r σ =
      ((c.apply (p.edit s.name (madeSource σ.next r))).map (·.map fun _ => ()) id,
        (c.edit (p.edit s.name (madeSource σ.next r)) { σ with next := σ.next + 1 }).2) := by
  have : r.matched.isEmpty = false := by rwa [List.isEmpty_eq_false_iff]
  rw [settle, this, ← Chain.edit_fst]
  rfl

/-- A source without a match loses the source that was made for it. -/
theorem settle_of_stale (h : r.matched = []) (hg : migratedName s.name ∈ Source.namesOf generated) :
    settle p generated c s r =
      (discard c (migratedName s.name) (.staleRemoved s.name) >>= fun c' => pure (.ok (), c')) := by
  have : generated.any (·.name == migratedName s.name) = true := by
    simpa [Source.namesOf] using hg
  rw [settle, this, h]
  rfl

/-- A source without a match for which none was made leaves the chain as it is. -/
theorem settle_of_idle (h : r.matched = []) (hg : migratedName s.name ∉ Source.namesOf generated) :
    settle p generated c s r = pure (.ok (), c) := by
  have : generated.any (·.name == migratedName s.name) = false := by
    simpa [Source.namesOf] using hg
  rw [settle, this, h]
  rfl

variable (p generated) in
/-- **Settling a source that is in the chain succeeds.** -/
theorem settle_apply (hin : s.name ∈ c.names) (hr : r.source = s.name) (σ : Session) :
    ∃ c' id, (settle p generated c s r σ).1 = (.ok (), c') ∧
      c'.sources = settled p generated id s r c.sources ∧
      σ.SameMemory (settle p generated c s r σ).2 := by
  by_cases h : r.matched = []
  · by_cases hg : migratedName s.name ∈ Source.namesOf generated
    · rw [settle_of_stale h hg, Run.bind_apply, Run.pure_apply]
      have ⟨hc, hmem⟩ := discard_apply c (migratedName s.name) (.staleRemoved s.name) σ
      refine ⟨c.remove (migratedName s.name), 0, ?_, ?_, hmem⟩
      · rw [hc]
      · rw [settled, if_pos h, if_pos hg]
        rfl
    · rw [settle_of_idle h hg, Run.pure_apply]
      refine ⟨c, 0, rfl, ?_, .refl σ⟩
      rw [settled, if_pos h, if_neg hg]
  · have hname : (madeSource σ.next r).name = migratedName s.name := congrArg migratedName hr
    have hne : (madeSource σ.next r).name ≠ s.name := by
      rw [hname]
      exact migratedName_ne s.name
    obtain ⟨c', hc, hsources, hmem⟩ := edit_apply p hne hin { σ with next := σ.next + 1 }
    rw [Chain.edit_fst] at hc
    rw [settle_of_matched h, hc]
    refine ⟨c', σ.next, rfl, ?_, ⟨hmem.indexes, hmem.caches⟩⟩
    rw [settled, if_neg h, hsources, hname]

end

/-! ## Settling all sources -/

/-- The lists of sources that a chain goes through while sources are settled in order. -/
inductive Settles (p : Policy) (generated : List Source) :
    List Source → List SourceReport → List Source → List Source → Prop where
  | done (xs : List Source) : Settles p generated [] [] xs xs
  | step {s : Source} {ss : List Source} {r : SourceReport} {rs : List SourceReport}
      {xs zs : List Source} (id : SourceId) (hr : r.source = s.name)
      (rest : Settles p generated ss rs (settled p generated id s r xs) zs) :
      Settles p generated (s :: ss) (r :: rs) xs zs

/-- A splice next to a source that is there adds the one source. -/
theorem splice_perm (p : Policy) {anchor : String} {m : Source} {xs : List Source}
    (h : anchor ∈ Source.namesOf xs) : (p.splice anchor m xs).Perm (m :: xs) := by
  cases p with
  | before => exact Source.spliceBefore_perm h
  | after => exact Source.spliceAfter_perm h

/-- A name that no generated source had stays in the chain while a source is settled. -/
theorem mem_namesOf_settled {p : Policy} {generated : List Source} {id : SourceId} {s : Source}
    {r : SourceReport} {xs : List Source} (hr : r.source = s.name)
    (hin : s.name ∈ Source.namesOf xs) {name : String} (hname : name ∈ Source.namesOf xs)
    (hg : name ∉ Source.namesOf generated) :
    name ∈ Source.namesOf (settled p generated id s r xs) := by
  rw [settled]
  split
  · split
    · next hs => exact Source.mem_namesOf_without (fun he => hg (he ▸ hs)) hname
    · exact hname
  · have hs := Source.mem_namesOf_without (migratedName_ne s.name).symm hin
    have hp := (splice_perm p (m := madeSource id r) hs).map (·.name)
    rw [Source.namesOf, hp.mem_iff, List.map_cons, List.mem_cons]
    by_cases he : name = migratedName s.name
    · exact .inl (he.trans (congrArg migratedName hr.symm))
    · exact .inr (Source.mem_namesOf_without he hname)

/-- **Settling all sources succeeds**, and finds what an inspection of them all finds. -/
theorem settleAll_apply (t : MetadataTable) (p : Policy) (generated : List Source) {c : Chain}
    {ss : List Source} (hin : ∀ s ∈ ss, s.name ∈ c.names)
    (hout : ∀ s ∈ ss, s.name ∉ Source.namesOf generated) {σ τ : Session} (hm : σ.SameMemory τ) :
    ∃ c', (settleAll t p generated c ss σ).1 = (c', .ok (inspectAll t ss τ).1) ∧
      Settles p generated ss (inspectAll t ss τ).1 c.sources c'.sources ∧
      Session.SameMemory (settleAll t p generated c ss σ).2 (inspectAll t ss τ).2 := by
  induction ss generalizing c σ τ with
  | nil => exact ⟨c, rfl, .done _, hm⟩
  | cons s ss ih =>
      have ⟨hs, hss⟩ := List.forall_mem_cons.mp hin
      have ⟨_, hout'⟩ := List.forall_mem_cons.mp hout
      have ⟨hr, hm'⟩ := respects_inspect t s hm
      have hsource : (inspect t s τ).1.source = s.name := source_inspect t s τ
      obtain ⟨c₁, id, hc₁, hsources, hmem⟩ :=
        settle_apply p generated hs hsource (inspect t s σ).2
      have hin₁ : ∀ s' ∈ ss, s'.name ∈ c₁.names := by
        intro s' hs'
        rw [Chain.names, hsources]
        exact mem_namesOf_settled hsource hs (hss s' hs') (hout' s' hs')
      obtain ⟨c₂, hc₂, hsettles, hmem₂⟩ := ih hin₁ hout' (hmem.symm.trans hm')
      rw [settleAll, inspectAll]
      simp only [Run.bind_apply, Run.pure_apply, hr, hc₁, hc₂]
      exact ⟨c₂, rfl, .step id hsource (hsources ▸ hsettles), hmem₂⟩

/-! ## Taking out orphans -/

/-- The sources without those that were made from sources which are gone. -/
def withoutOrphans (sources : List Source) : List Source → List Source → List Source
  | xs, [] => xs
  | xs, g :: gs =>
    withoutOrphans sources
      (if isOrphan sources g && (xs.find? (·.name == g.name)).any isMigrated then
        Source.without g.name xs else xs) gs

/-- Orphans are taken out one after the other, and the memory stays as it is. -/
theorem dropOrphans_apply (sources : List Source) (c : Chain) (gs : List Source) (σ : Session) :
    (dropOrphans sources c gs σ).1.sources = withoutOrphans sources c.sources gs ∧
      σ.SameMemory (dropOrphans sources c gs σ).2 := by
  induction gs generalizing c σ with
  | nil => exact ⟨rfl, .refl σ⟩
  | cons g gs ih =>
      by_cases h : isOrphan sources g && (c.find? g.name).any isMigrated
      · have h' : isOrphan sources g && (c.sources.find? (·.name == g.name)).any isMigrated := h
        have ⟨hc, hmem⟩ := discard_apply c g.name (.orphanRemoved g.name) σ
        have ⟨hsources, hmem'⟩ := ih (c.remove g.name) (discard c g.name (.orphanRemoved g.name) σ).2
        rw [dropOrphans, withoutOrphans, if_pos h, if_pos h', Run.bind_apply, hc]
        exact ⟨hsources, hmem.trans hmem'⟩
      · have h' : ¬ (isOrphan sources g && (c.sources.find? (·.name == g.name)).any isMigrated) := h
        rw [dropOrphans, withoutOrphans, if_neg h, if_neg h', Run.bind_apply]
        exact ih c σ

/-! ## The whole migration -/

/-- A user source and a generated one have different names. -/
theorem name_notMem_generated {xs : List Source} (h : (Source.namesOf xs).Nodup) {s : Source}
    (hs : s ∈ users xs) : s.name ∉ Source.namesOf (xs.filter isMigrated) := by
  rw [users, List.mem_filter] at hs
  rw [Source.namesOf, List.mem_map]
  rintro ⟨g, hg, hname⟩
  rw [List.mem_filter] at hg
  have : g = s := List.inj_on_of_nodup_map h hg.1 hs.1 hname
  subst this
  simp [hg.2] at hs

/-- **A migration never fails.**  It settles the user sources in order and takes out the orphans; it
reports what an inspection of the user sources finds, and remembers what the inspection does. -/
theorem analyze_spec (t : MetadataTable) (p : Policy) (c : Chain) (σ : Session) :
    ∃ c' zs, (analyze t p c σ).1 = (c', .ok ⟨reports t c σ⟩) ∧
      Settles p (c.sources.filter isMigrated) (users c.sources) (reports t c σ) c.sources zs ∧
      c'.sources = withoutOrphans (users c.sources) zs (c.sources.filter isMigrated) ∧
      Session.SameMemory (inspectAll t (users c.sources) σ).2 (analyze t p c σ).2 := by
  have hin : ∀ s ∈ users c.sources, s.name ∈ c.names := fun s hs =>
    List.mem_map.mpr ⟨s, (List.mem_filter.mp hs).1, rfl⟩
  obtain ⟨c₁, hc₁, hsettles, hmem⟩ :=
    settleAll_apply t p (c.sources.filter isMigrated) hin
      (fun s hs => name_notMem_generated c.nodup hs) (.refl σ)
  have ⟨hsources, hmem'⟩ := dropOrphans_apply (users c.sources) c₁ (c.sources.filter isMigrated)
    (settleAll t p (c.sources.filter isMigrated) c (users c.sources) σ).2
  rw [users] at hsources hmem' hc₁
  refine ⟨_, c₁.sources, ?_, hsettles, hsources, ?_⟩
  · simp only [analyze, Run.bind_apply, hc₁, Run.pure_apply]
    rfl
  · refine hmem.symm.trans (hmem'.trans ?_)
    simp only [analyze, Run.bind_apply, hc₁, Run.pure_apply]
    exact ⟨rfl, rfl⟩

end LayeredConfig.Migration
