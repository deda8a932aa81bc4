import LayeredConfig.Proofs.Upkeep

/-!
# LayeredConfig.Proofs.UserSources

What a migration does to the sources that no migration made.

1. A source that is taken out for being stale or orphaned was made by a migration.
2. A source that is made takes the place of any source of its name.  So a user source is lost exactly
   if its name is the one made from the name of a source with matches; the others stay, in their
   order (`Migration.users_analyze`).
-/

namespace LayeredConfig.Migration

/-- The names of the sources that are made from findings. -/
def madeNames (rs : List SourceReport) : List String :=
  rs.filterMap fun r => if r.matched = [] then none else some (migratedName r.source)

theorem madeNames_of_idle {r : SourceReport} (h : r.matched = []) (rs : List SourceReport) :
    madeNames (r :: rs) = madeNames rs := by
  simp [madeNames, h]

theorem madeNames_of_matched {r : SourceReport} (h : r.matched ≠ []) (rs : List SourceReport) :
    madeNames (r :: rs) = migratedName r.source :: madeNames rs := by
  simp [madeNames, h]

/-! ## User sources among others -/

/-- A user source is one that no migration made. -/
theorem mem_users {s : Source} {xs : List Source} :
    s ∈ users xs ↔ s ∈ xs ∧ isMigrated s = false := by
  rw [users, List.mem_filter, Bool.not_eq_true']

theorem users_without (name : String) (xs : List Source) :
    users (Source.without name xs) = Source.without name (users xs) :=
  List.filter_comm _ _ xs

/-- A source that a filter drops may be put next to any source. -/
theorem filter_splice_of_neg (p : Policy) {q : Source → Bool} {m : Source} (hm : q m = false)
    (anchor : String) (xs : List Source) : (p.splice anchor m xs).filter q = xs.filter q := by
  induction xs with
  | nil => rw [splice_nil]
  | cons x xs ih =>
      by_cases hx : x.name = anchor
      · subst hx
        have hpair : (p.pair m x).filter q = [x].filter q := by
          cases p <;> simp [Policy.pair, List.filter_cons, hm]
        rw [splice_cons_self, List.filter_append, hpair, ← List.filter_append,
          List.singleton_append]
      · rw [splice_cons_of_ne p hx, List.filter_cons, List.filter_cons, ih]

/-- Splicing in a made source leaves the user sources as they are. -/
theorem users_splice (p : Policy) (anchor : String) (id : SourceId) (r : SourceReport)
    (xs : List Source) : users (p.splice anchor (madeSource id r) xs) = users xs :=
  filter_splice_of_neg p (by rw [isMigrated_madeSource, Bool.not_true]) anchor xs

/-! ## User sources through a migration -/

section

variable {p : Policy} {generated : List Source}

/-- No user source has the name of a generated one. -/
def Apart (generated xs : List Source) : Prop :=
  ∀ s ∈ users xs, s.name ∉ Source.namesOf generated

/-- No user source bears a name that is kept apart. -/
theorem Apart.notMem {generated xs : List Source} (h : Apart generated xs) {name : String}
    (hg : name ∈ Source.namesOf generated) : name ∉ Source.namesOf (users xs) := by
  rw [Source.namesOf, List.mem_map]
  rintro ⟨s, hs, rfl⟩
  exact h s hs hg

/-- Settling a source costs the user source whose name the made one has, and no other. -/
theorem users_settled {id : SourceId} {s : Source} {r : SourceReport} {xs : List Source}
    (hr : r.source = s.name) (h : Apart generated xs) :
    users (settled p generated id s r xs) =
      (users xs).filter (·.name ∉ madeNames [r]) := by
  rw [settled]
  split
  · next hm =>
    have hkeep : (users xs).filter (·.name ∉ madeNames [r]) = users xs := by
      rw [madeNames_of_idle hm, List.filter_eq_self]
      simp [madeNames]
    rw [hkeep]
    split
    · next hg => rw [users_without, Source.without_eq_self (h.notMem hg)]
    · rfl
  · next hm =>
    rw [users_splice, users_without, madeNames_of_matched hm, hr]
    simp [Source.without, madeNames]

/-- Settling a source keeps generated names apart from those of user sources. -/
theorem Apart.settled {id : SourceId} {s : Source} {r : SourceReport} {xs : List Source}
    (hr : r.source = s.name) (h : Apart generated xs) :
    Apart generated (settled p generated id s r xs) := by
  intro u hu
  rw [users_settled hr h] at hu
  exact h u (List.mem_filter.mp hu).1

/-- Settling the sources costs the user sources whose names are made, and no others. -/
theorem users_settles {ss : List Source} {rs : List SourceReport} {xs zs : List Source}
    (hs : Settles p generated ss rs xs zs) (h : Apart generated xs) :
    users zs = (users xs).filter (·.name ∉ madeNames rs) ∧ Apart generated zs := by
  induction hs with
  | done xs =>
      refine ⟨?_, h⟩
      rw [eq_comm, List.filter_eq_self]
      simp [madeNames]
  | @step s ss r rs xs zs id hr rest ih =>
      have ⟨hz, hapart⟩ := ih (h.settled hr)
      refine ⟨?_, hapart⟩
      have hsplit : madeNames (r :: rs) = madeNames [r] ++ madeNames rs := by
        rw [madeNames, ← List.singleton_append, List.filterMap_append]
        rfl
      rw [hz, users_settled hr h, List.filter_filter, hsplit]
      congr 1
      funext u
      simp [Bool.and_comm]

/-- What is taken out as an orphan was made by a migration. -/
theorem users_withoutOrphans (sources : List Source) {gs xs : List Source}
    (h : Apart gs xs) : users (withoutOrphans sources xs gs) = users xs := by
  induction gs generalizing xs with
  | nil => rfl
  | cons g gs ih =>
      have hg : users (Source.without g.name xs) = users xs := by
        rw [users_without,
          Source.without_eq_self (h.notMem (List.mem_map.mpr ⟨g, List.mem_cons_self, rfl⟩))]
      have hgs : Apart gs xs := fun s hs hm => h s hs (List.mem_cons_of_mem _ hm)
      rw [withoutOrphans]
      split
      · rw [ih (by rwa [Apart, hg]), hg]
      · exact ih hgs

end

/-- **A migration costs exactly the user sources whose names it gives to the sources it makes.**  The
others stay in the chain, as they are and in their order.  So all stay if and only if no user source
has the name that is made from the name of a source with matches. -/
theorem users_analyze (t : MetadataTable) (p : Policy) (c : Chain) (σ : Session) :
    ∃ c', (analyze t p c σ).1 = (c', .ok ⟨reports t c σ⟩) ∧
      users c'.sources = (users c.sources).filter (·.name ∉ madeNames (reports t c σ)) ∧
      ((users c.sources).Sublist c'.sources ↔
        ∀ s ∈ users c.sources, s.name ∉ madeNames (reports t c σ)) := by
  obtain ⟨c', zs, hrun, hsettles, hsources, _⟩ := analyze_spec t p c σ
  have hapart : Apart (c.sources.filter isMigrated) c.sources := fun s hs =>
    name_notMem_generated c.nodup hs
  have ⟨hz, hapart'⟩ := users_settles hsettles hapart
  have husers : users c'.sources =
      (users c.sources).filter (·.name ∉ madeNames (reports t c σ)) := by
    rw [hsources, users_withoutOrphans _ hapart', hz]
  refine ⟨c', hrun, husers, ?_⟩
  have hself : users (users c.sources) = users c.sources := by
    rw [users, users, List.filter_filter]
    simp
  constructor
  · intro h s hs
    have hsub : (users c.sources).Sublist (users c'.sources) := by
      rw [← hself]
      exact h.filter _
    rw [husers] at hsub
    have heq := hsub.antisymm List.filter_sublist
    have := List.filter_eq_self.mp heq.symm s hs
    rwa [decide_eq_true_eq] at this
  · intro h
    have : users c'.sources = users c.sources := by
      rw [husers, List.filter_eq_self]
      intro s hs
      rw [decide_eq_true_eq]
      exact h s hs
    rw [← this]
    exact List.filter_sublist

/-! ## A source that is lost -/

/-- A table with the text `old`, which was renamed to `new`. -/
def renamedTable : MetadataTable :=
  let old : Metadata := ⟨"old", some "string", none, some ⟨.error, some "new", none⟩⟩
  let new : Metadata := ⟨"new", some "string", none, none⟩
  match MetadataTable.empty.insertAll [old, new] with
  | .ok t => t
  | .error _ => .empty

/-- A source with dotted keys and texts. -/
def textSource (id : SourceId) (name : String) (texts : List (String × String)) : Source where
  id := id
  name := name
  capability := .enumerable
  provider := (Entries.ofList (texts.map fun (k, v) => (k, .text v))).provider name
  mapper := ⟨Mapping.dotted, none⟩
  derivedFrom := none

/-- A user source has the name that is made from the name of the other. -/
def crowdedChain : Chain :=
  ⟨[textSource 0 "migrate-file" [("user", "kept")], textSource 1 "file" [("old", "x")]], by decide⟩

example : Source.namesOf (users (analyze renamedTable .before crowdedChain .start).1.1.sources) =
    ["file"] := by
  decide +kernel

end LayeredConfig.Migration
