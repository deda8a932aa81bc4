import LayeredConfig.Proofs.MigrationLayout
import LayeredConfig.Proofs.Numbering
import LayeredConfig.Proofs.SourceLookup

/-!
# LayeredConfig.Proofs.MadeSources

What the sources answer that a migration makes.

1. Under the canonical text of a replacement such a source has the value and the origin of the last
   finding whose replacement is written so (`Migration.find?_migratedEntries`).
2. It answers for the names that agree with a replacement, and for no others
   (`Migration.get_madeSource`).
3. So no replacement is left without an answer, but where the replacements of two findings agree one
   finding can stand before the other (`Migration.made_source_answers`).
-/

namespace LayeredConfig.Migration

/-! ## Entries -/

/-- The last finding whose replacement is written so. -/
def lastUnder (fs : List Finding) (key : String) : Option Finding :=
  fs.reverse.find? fun f => f.replacement.any (·.canonical == key)

variable {fs : List Finding} {key : String} {f : Finding}

/-- The last finding counts if it is under the key, and else the one that counted before. -/
theorem lastUnder_append_singleton (fs : List Finding) (f : Finding) (key : String) :
    lastUnder (fs ++ [f]) key =
      if f.replacement.any (·.canonical == key) then some f else lastUnder fs key := by
  rw [lastUnder, List.reverse_append, List.reverse_singleton, List.singleton_append,
    List.find?_cons]
  cases f.replacement.any (·.canonical == key) <;> rfl

/-- What counts under a key is a finding whose replacement has this canonical text. -/
theorem exists_of_lastUnder (h : lastUnder fs key = some f) :
    f ∈ fs ∧ ∃ R, f.replacement = some R ∧ R.canonical = key := by
  refine ⟨List.mem_reverse.mp (List.mem_of_find?_eq_some h), ?_⟩
  have hkey := List.find?_some h
  rw [Option.any_eq_true] at hkey
  obtain ⟨R, hR, he⟩ := hkey
  exact ⟨R, hR, beq_iff_eq.mp he⟩

/-- Under the key of a replacement some finding counts. -/
theorem lastUnder_isSome {R : Name} (hf : f ∈ fs) (hR : f.replacement = some R) :
    (lastUnder fs R.canonical).isSome = true := by
  rw [lastUnder, List.find?_isSome]
  exact ⟨f, List.mem_reverse.mpr hf, by rw [hR, Option.any_some, beq_self_eq_true]⟩

/-- What is kept of a finding. -/
def keptEntry (f : Finding) : Entry := ⟨f.property.value, some f.property.origin⟩

/-- Adds the value of a finding under its replacement. -/
def addFinding (es : Entries) (f : Finding) : Entries :=
  match f.replacement with
  | some R => es.insert R.canonical (keptEntry f)
  | none => es

theorem migratedEntries_append_singleton (fs : List Finding) (f : Finding) :
    migratedEntries (fs ++ [f]) = addFinding (migratedEntries fs) f := by
  rw [migratedEntries, List.foldl_append]
  rfl

theorem ascending_migratedEntries (fs : List Finding) : (migratedEntries fs).Ascending := by
  induction fs using List.reverseRecOn with
  | nil => exact Entries.ascending_nil
  | append_singleton fs f ih =>
      rw [migratedEntries_append_singleton, addFinding]
      split
      · exact ih.insert _ _
      · exact ih

/-- **Of the findings whose replacements are written alike, the last one counts.** -/
theorem find?_migratedEntries (fs : List Finding) (key : String) :
    (migratedEntries fs).find? key = (lastUnder fs key).map keptEntry := by
  induction fs using List.reverseRecOn with
  | nil => rfl
  | append_singleton fs f ih =>
      rw [migratedEntries_append_singleton, lastUnder_append_singleton, addFinding]
      cases hR : f.replacement with
      | none => exact ih
      | some R =>
          rw [Option.any_some]
          by_cases hkey : R.canonical = key
          · subst hkey
            simp
          · have hne : (R.canonical == key) = false := beq_eq_false_iff_ne.mpr hkey
            simp only [hne]
            rw [Entries.find?_insert_of_ne (Ne.symm hkey), ih]
            rfl

/-- The keys of the entries are those under which a finding counts. -/
theorem mem_keys_migratedEntries (fs : List Finding) (key : String) :
    key ∈ (migratedEntries fs).keys ↔ ∃ f, lastUnder fs key = some f := by
  rw [← not_iff_not, ← Entries.find?_eq_none_iff, find?_migratedEntries, Option.map_eq_none_iff,
    Option.eq_none_iff_forall_ne_some, not_exists]

/-! ## Answers -/

/-- A canonical text stands for the names that agree with its name. -/
theorem standsFor_canonical (R n : Name) :
    Mapping.dotted.standsFor n R.canonical = R.agrees n := by
  have hname : Mapping.dotted.nameOf R.canonical = .ok (R.respell (.spelled .dashed)) :=
    congrArg (Except.mapError _) R.parse_canonical
  exact Mapper.standsFor_congr (Mapper.standsFor_iff.mpr ⟨_, hname, R.agrees_dashed⟩)

/-- The name is the replacement of a finding. -/
def replaces (fs : List Finding) (n : Name) : Bool :=
  fs.any fun f => f.replacement.any (·.agrees n)

/-- Findings replace a name if one of them has a spelling of it as its replacement. -/
theorem replaces_iff {n : Name} :
    replaces fs n = true ↔ ∃ f ∈ fs, ∃ R, f.replacement = some R ∧ R.agrees n = true := by
  simp only [replaces, List.any_eq_true, Option.any_eq_true]

section Answers

variable {id : SourceId} {r : SourceReport} {σ : Session} {n : Name}

/-- Under a key, a made source has the value and the origin of the finding that counts. -/
theorem get_madeSource_key {v : Value}
    (h : (madeSource id r).provider.get key = .ok (some v)) :
    ∃ f, lastUnder r.matched key = some f ∧ v = f.property.value ∧
      (madeSource id r).originOf key = f.property.origin := by
  have hfind := find?_migratedEntries r.matched key
  simp only [madeSource, Entries.provider, hfind] at h
  cases hlast : lastUnder r.matched key with
  | none =>
      rw [hlast] at h
      cases h
  | some f =>
      rw [hlast] at h
      cases h
      refine ⟨f, rfl, rfl, ?_⟩
      rw [Source.originOf, madeSource]
      simp only [Entries.provider, hfind, hlast]
      rfl

/-- A made source has the keys under which a finding counts. -/
theorem has_madeSource_iff :
    (madeSource id r).provider.Has key ↔ ∃ f, lastUnder r.matched key = some f :=
  (Provider.has_entries_iff _ _).trans (mem_keys_migratedEntries r.matched key)

theorem listing_madeSource (id : SourceId) (r : SourceReport) :
    (madeSource id r).provider.Listing :=
  (Provider.Stored.entries _ (ascending_migratedEntries r.matched)).listing

/-- **A made source answers for the names that agree with a replacement**, with what the last finding
under some writing of the replacement has; if it is written as the name is, with what the last finding
under this writing has. -/
theorem get_madeSource (hσ : σ.Faithful (madeSource id r)) (n : Name) :
    ∃ found, ((madeSource id r).get n σ).1 = .ok found ∧
      (found.isSome = true ↔ replaces r.matched n = true) ∧
      (∀ p, found = some p → ∃ (R : Name) (f : Finding), R.agrees n = true ∧
        lastUnder r.matched R.canonical = some f ∧
        p = ⟨n, f.property.value, f.property.origin⟩) ∧
      ∀ f, lastUnder r.matched n.canonical = some f →
        found = some ⟨n, f.property.value, f.property.origin⟩ := by
  have hm : (madeSource id r).mapper.mapper = Mapping.dotted ∨
      (madeSource id r).mapper.mapper = Mapping.environment false := .inl rfl
  have hdirect := Mapping.direct_of_eq hm
  have hp := listing_madeSource id r
  obtain ⟨found, hfound, hspec⟩ :=
    (madeSource id r).first_spec n hp.answers ((madeSource id r).searched n)
  have hsome := (Source.isSome_first_iff hspec).trans (Source.exists_searched_iff hm hp rfl)
  have hlists : σ.Trusts (madeSource id r).mapper := Session.trusts_of_cache_eq_none rfl
  refine ⟨found, (Source.get_of_direct hdirect hlists hσ).trans hfound, hsome.trans ?_, ?_, ?_⟩
  · rw [replaces_iff]
    constructor
    · rintro ⟨key, hkey, hstands⟩
      obtain ⟨f, hlast⟩ := (mem_keys_migratedEntries r.matched key).mp hkey
      obtain ⟨hf, R, hR, rfl⟩ := exists_of_lastUnder hlast
      exact ⟨f, hf, R, hR, (standsFor_canonical R n).symm.trans hstands⟩
    · rintro ⟨f, hf, R, hR, hagrees⟩
      refine ⟨R.canonical, ?_, (standsFor_canonical R n).trans hagrees⟩
      exact (mem_keys_migratedEntries r.matched _).mpr
        (Option.isSome_iff_exists.mp (lastUnder_isSome hf hR))
  · intro p hp
    obtain ⟨key, v, hfirst, hv, rfl⟩ := (hspec p).mp hp
    obtain ⟨f, hlast, rfl, horigin⟩ := get_madeSource_key hv
    obtain ⟨-, R, -, rfl⟩ := exists_of_lastUnder hlast
    have hstands := Source.standsFor_of_mem_searched hdirect hfirst.mem_has.1
    exact ⟨R, f, (standsFor_canonical R n).symm.trans hstands, hlast, by rw [horigin]⟩
  · intro f hlast
    have has : (madeSource id r).provider.Has n.canonical := has_madeSource_iff.mpr ⟨f, hlast⟩
    obtain ⟨v, hv⟩ := has
    obtain ⟨f', hlast', rfl, horigin⟩ := get_madeSource_key hv
    rw [hlast] at hlast'
    cases hlast'
    rw [← horigin]
    refine (hspec _).mpr ⟨n.canonical, _, ?_, hv, rfl⟩
    -- The canonical text is the first candidate of the dotted mapper.
    rw [Source.searched, Provider.firstIn_append_iff]
    refine .inl ?_
    have hkeys : (madeSource id r).mapper.mapper.keysFor n = Mapping.dottedKeys n :=
      Mapping.keysFor_dotted n
    rw [hkeys]
    exact .here ⟨_, hv⟩

end Answers

/-! ## Made sources in the chain -/

namespace Layout

variable {p : Policy} {ss xs : List Source} {rs : List SourceReport}

/-- For every report with matches a source is made. -/
theorem exists_made (h : Layout p ss rs xs) {r : SourceReport} (hr : r ∈ rs)
    (hm : r.matched ≠ []) : ∃ id, madeSource id r ∈ xs := by
  induction h with
  | nil => exact nomatch hr
  | @alone s ss r' rs xs _ hm' _ ih =>
      cases List.mem_cons.mp hr with
      | inl he =>
          subst he
          exact absurd hm' hm
      | inr hin =>
          obtain ⟨id, hid⟩ := ih hin
          exact ⟨id, List.mem_cons_of_mem _ hid⟩
  | @accompanied s ss r' rs xs id _ _ _ ih =>
      cases List.mem_cons.mp hr with
      | inl he =>
          subst he
          exact ⟨id, List.mem_append_left _ (mem_pair.mpr (.inl rfl))⟩
      | inr hin =>
          obtain ⟨id', hid⟩ := ih hin
          exact ⟨id', List.mem_append_right _ hid⟩

/-- A generated source was made from a report with matches. -/
theorem eq_made (h : Layout p ss rs xs) (hs : ∀ s ∈ ss, isMigrated s = false) {x : Source}
    (hx : x ∈ xs) (hmig : isMigrated x = true) :
    ∃ id, ∃ r ∈ rs, r.matched ≠ [] ∧ x = madeSource id r := by
  have huser {s : Source} (hs : isMigrated s = false) : x ≠ s := by
    rintro rfl
    rw [hs] at hmig
    contradiction
  induction h with
  | nil => exact nomatch hx
  | @alone s ss r rs xs _ _ _ ih =>
      have ⟨hs, hss⟩ := List.forall_mem_cons.mp hs
      have hx := (List.mem_cons.mp hx).resolve_left (huser hs)
      obtain ⟨id, r', hr', h⟩ := ih hss hx
      exact ⟨id, r', List.mem_cons_of_mem _ hr', h⟩
  | @accompanied s ss r rs xs id _ hm _ ih =>
      have ⟨hs, hss⟩ := List.forall_mem_cons.mp hs
      cases List.mem_append.mp hx with
      | inl hpair =>
          have he := (mem_pair.mp hpair).resolve_right (huser hs)
          exact ⟨id, r, List.mem_cons_self, hm, he⟩
      | inr hx =>
          obtain ⟨id', r', hr', h⟩ := ih hss hx
          exact ⟨id', r', List.mem_cons_of_mem _ hr', h⟩

end Layout

/-- After a migration no index is remembered for the sources that it made. -/
theorem Numbered.faithful_madeSource {N : SourceId} {rs : List SourceReport} {c : Chain}
    {σ : Session} (h : Numbered N rs c σ) {id : SourceId} {r : SourceReport} (hr : r ∈ rs)
    (hm : r.matched ≠ []) (hin : madeSource id r ∈ c.sources) : σ.Faithful (madeSource id r) :=
  Session.faithful_of_index?_eq_none (h.blank id (h.made _ hin (mem_madeNames hr hm)))

/-- **What a migration leaves**: the user sources and those that it made, laid out and with numbers of
their own, and what was remembered by the end of the inspection. -/
theorem layout_numbered (t : MetadataTable) (p : Policy) {c : Chain} {σ : Session}
    (htracks : σ.Tracks c) (hnew : ∀ s ∈ users c.sources, s.name ∉ madeNames (reports t c σ)) :
    ∃ c' τ, analyze t p c σ = ((c', .ok ⟨reports t c σ⟩), τ) ∧
      Layout p (users c.sources) (reports t c σ) c'.sources ∧
      Numbered σ.next (reports t c σ) c' τ ∧
      Session.SameMemory (inspectAll t (users c.sources) σ).2 τ := by
  obtain ⟨c', hrun, hlayout, hmem⟩ := layout_analyze p hnew
  have hnumbered := analyze_numbered t p htracks
  rw [hrun] at hnumbered
  exact ⟨c', _, Prod.ext hrun rfl, hlayout, hnumbered, hmem⟩

/-! ## Findings with matches -/

/-- A match has a replacement. -/
theorem replacement_of_matched (t : MetadataTable) (s : Source)
    (ds : List (Name × Metadata × Deprecation)) (σ : Session) :
    ∀ f ∈ (inspectFor t s ds σ).1, f.outcome = .matched → ∃ R, f.replacement = some R := by
  have hfinding (m : Metadata) (d : Deprecation) (p : Property)
      (h : (finding t m d p).outcome = .matched) : ∃ R, (finding t m d p).replacement = some R := by
    rw [finding, outcome] at h
    cases hR : replacement? d with
    | some R => exact ⟨R, hR⟩
    | none =>
        rw [hR] at h
        contradiction
  induction ds generalizing σ with
  | nil => exact fun f hf => nomatch hf
  | cons d ds ih =>
      obtain ⟨n, m, d⟩ := d
      rw [inspectFor, Run.bind_apply]
      cases (s.get n σ).1 with
      | error e => exact ih _
      | ok found =>
          cases found with
          | none => exact ih _
          | some p =>
              intro f hf
              cases List.mem_cons.mp hf with
              | inl he =>
                  subst he
                  exact hfinding m d p
              | inr hin => exact ih _ f hin

/-- A report is what the inspection of some source finds. -/
theorem exists_inspect_of_mem {t : MetadataTable} {ss : List Source} {σ : Session}
    {r : SourceReport} (h : r ∈ (inspectAll t ss σ).1) :
    ∃ s ∈ ss, ∃ υ, r = (inspect t s υ).1 := by
  induction ss generalizing σ with
  | nil => exact nomatch h
  | cons s ss ih =>
      cases List.mem_cons.mp h with
      | inl he => exact ⟨s, List.mem_cons_self, σ, he⟩
      | inr hin =>
          obtain ⟨s', hs', υ, he⟩ := ih hin
          exact ⟨s', List.mem_cons_of_mem _ hs', υ, he⟩

/-- Whatever is reported as matched has a replacement. -/
theorem replacement_of_mem_matched {t : MetadataTable} {c : Chain} {σ : Session}
    {r : SourceReport} (hr : r ∈ reports t c σ) {f : Finding} (hf : f ∈ r.matched) :
    ∃ R, f.replacement = some R := by
  obtain ⟨s, -, υ, rfl⟩ := exists_inspect_of_mem hr
  have ⟨hin, hmatched⟩ := List.mem_filter.mp hf
  exact replacement_of_matched t s _ υ f hin (of_decide_eq_true hmatched)

/-! ## Values of replacements -/

/-- **What becomes of the values of deprecated properties.**  After a migration the source that is made
from a source with matches has, for every spelling of the replacement of a match, the value and the
origin of a match whose replacement agrees.  It has those of the match itself for every spelling if
and only if, under each writing of the replacement, the last match has that value and that origin. -/
theorem made_source_answers (t : MetadataTable) (p : Policy) (c : Chain) (σ : Session)
    (htracks : σ.Tracks c) (hnew : ∀ s ∈ users c.sources, s.name ∉ madeNames (reports t c σ)) :
    ∃ c' τ, analyze t p c σ = ((c', .ok ⟨reports t c σ⟩), τ) ∧
      ∀ r ∈ reports t c σ, ∀ L ∈ r.matched, ∃ R, ∃ m ∈ c'.sources,
        L.replacement = some R ∧ m.name = migratedName r.source ∧
        (∀ n : Name, n.agrees R = true → ∃ f ∈ r.matched,
          (∃ R', f.replacement = some R' ∧ R'.agrees R = true) ∧
          (m.get n τ).1 = .ok (some ⟨n, f.property.value, f.property.origin⟩)) ∧
        ((∀ n : Name, n.agrees R = true →
            (m.get n τ).1 = .ok (some ⟨n, L.property.value, L.property.origin⟩)) ↔
          ∀ (R' : Name) (f : Finding), R'.agrees R = true →
            lastUnder r.matched R'.canonical = some f →
            f.property.value = L.property.value ∧ f.property.origin = L.property.origin) := by
  obtain ⟨c', τ, hrun, hlayout, hnumbered, -⟩ := layout_numbered t p htracks hnew
  refine ⟨c', τ, hrun, fun r hr L hL => ?_⟩
  obtain ⟨R, hR⟩ := replacement_of_mem_matched hr hL
  have hm : r.matched ≠ [] := List.ne_nil_of_mem hL
  obtain ⟨id, hin⟩ := hlayout.exists_made hr hm
  have hfaithful := hnumbered.faithful_madeSource hr hm hin
  have hfound {n : Name} (hn : n.agrees R = true) : ∃ (R' : Name) (f : Finding),
      R'.agrees R = true ∧ lastUnder r.matched R'.canonical = some f ∧
      ((madeSource id r).get n τ).1 =
        .ok (some ⟨n, f.property.value, f.property.origin⟩) := by
    obtain ⟨found, hget, hsome, hlast, -⟩ := get_madeSource hfaithful n
    have hreplaced := replaces_iff.mpr ⟨L, hL, R, hR, Name.agrees_symm hn⟩
    obtain ⟨q, hq⟩ := Option.isSome_iff_exists.mp (hsome.mpr hreplaced)
    obtain ⟨R', f, hR', hf, rfl⟩ := hlast q hq
    exact ⟨R', f, Name.agrees_trans hR' hn, hf, by rw [hget, hq]⟩
  refine ⟨R, _, hin, hR, rfl, fun n hn => ?_, fun h R' f hR' hf => ?_, fun h n hn => ?_⟩
  · obtain ⟨R', f, hR', hf, hget⟩ := hfound hn
    obtain ⟨hmem, R'', hR'', heq⟩ := exists_of_lastUnder hf
    exact ⟨f, hmem, ⟨R'', hR'', Name.agrees_trans (Name.agrees_of_canonical_eq heq) hR'⟩, hget⟩
  · obtain ⟨found, hget, -, -, hfirst⟩ := get_madeSource hfaithful R'
    have hown := h R' hR'
    rw [hget, hfirst f hf, Except.ok.injEq, Option.some.injEq, Property.mk.injEq] at hown
    exact hown.2
  · obtain ⟨R', f, hR', hf, hget⟩ := hfound hn
    obtain ⟨hvalue, horigin⟩ := h R' f hR' hf
    rw [hget, hvalue, horigin]

/-- A table with two texts that were both renamed to `new`. -/
def mergedTable : MetadataTable :=
  let renamed (name : String) : Metadata :=
    ⟨name, some "string", none, some ⟨.error, some "new", none⟩⟩
  match MetadataTable.empty.insertAll
      [renamed "old1", renamed "old2", ⟨"new", some "string", none, none⟩] with
  | .ok t => t
  | .error _ => .empty

def mergedChain : Chain := ⟨[textSource 0 "file" [("old1", "x"), ("old2", "y")]], by decide⟩

/-- The session in which the one source of the chain was made. -/
def mergedSession : Session := { Session.start with next := 1 }

/-- Two names were replaced by `new`, and the made source answers for it. -/
theorem made_source_answers_mergedChain :
    mergedSession.Tracks mergedChain ∧
    (∀ s ∈ users mergedChain.sources,
      s.name ∉ madeNames (reports mergedTable mergedChain mergedSession)) ∧
    ∃ c' τ, analyze mergedTable .before mergedChain mergedSession =
        ((c', .ok ⟨reports mergedTable mergedChain mergedSession⟩), τ) ∧
      ∀ r ∈ reports mergedTable mergedChain mergedSession, ∀ L ∈ r.matched, ∃ R,
        ∃ m ∈ c'.sources, L.replacement = some R ∧ m.name = migratedName r.source ∧
        ∀ n : Name, n.agrees R = true → ∃ f ∈ r.matched,
          (m.get n τ).1 = .ok (some ⟨n, f.property.value, f.property.origin⟩) := by
  have htracks : mergedSession.Tracks mergedChain := by
    refine ⟨List.nodup_singleton _, fun s hs => ?_, fun _ _ => rfl⟩
    rw [List.mem_singleton.mp hs]
    exact Nat.zero_lt_one
  have hnew : ∀ s ∈ users mergedChain.sources,
      s.name ∉ madeNames (reports mergedTable mergedChain mergedSession) := by
    decide +kernel
  obtain ⟨c', τ, hrun, hanswers⟩ :=
    made_source_answers mergedTable .before mergedChain mergedSession htracks hnew
  refine ⟨htracks, hnew, c', τ, hrun, fun r hr L hL => ?_⟩
  obtain ⟨R, m, hm, hR, hname, hfound, -⟩ := hanswers r hr L hL
  refine ⟨R, m, hm, hR, hname, fun n hn => ?_⟩
  obtain ⟨f, hf, -, hget⟩ := hfound n hn
  exact ⟨f, hf, hget⟩

/-- Both matches are reported, and the value of the first one is gone. -/
example :
    let out := analyze mergedTable .before mergedChain mergedSession
    let new : Name :=
      ⟨[.literal ⟨"new", by simp [isReserved], by simp [isSeparator]⟩], List.cons_ne_nil _ _⟩
    ((reports mergedTable mergedChain mergedSession).flatMap (·.matched)).map
        (·.property.origin.key) = ["old1", "old2"] ∧
      (out.1.1.resolve new out.2).1.map (·.origin.key) = some "old2" := by
  decide +kernel

end LayeredConfig.Migration
