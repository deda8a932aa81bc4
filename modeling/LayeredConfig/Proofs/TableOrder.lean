import LayeredConfig.Proofs.NameOrder
import LayeredConfig.Proofs.Numbering
import LayeredConfig.Proofs.Priming
import LayeredConfig.Proofs.Reporting
import Mathlib.Data.List.Forall2
import Mathlib.Data.List.Pairwise

/-!
# LayeredConfig.Proofs.TableOrder

What the order of the entries of a table has to do with a migration: nothing that an operator sees.

1. A table is only searched by name, so what becomes of a deprecated property is the same under both
   orders (`MetadataTable.Reordered.finding_eq`).
2. The inspection of a source asks for the deprecated properties in the order of the table.  A
   lookup leaves lists of candidates and an index behind, but none that change the answer for a name
   that does not agree, so the same properties are found, and what is remembered afterwards is the
   same (`Migration.inspectFor_perm`).
3. Findings under different names are sorted in one way only, so the summaries are the same texts.
4. The names of the chain depend on the sources for which anything was matched, not on what
   (`Migration.alike_settles`).
-/

namespace LayeredConfig

/-! ## Searches and sorting -/

/-- What a search finds does not depend on the order where at most one place has something. -/
theorem findSome?_perm {α β : Type} {f : α → Option β} {l l' : List α} (h : l.Perm l')
    (hone : l.Pairwise fun a b => f a = none ∨ f b = none) : l.findSome? f = l'.findSome? f := by
  induction h with
  | nil => rfl
  | cons a h ih =>
      rw [List.findSome?_cons, List.findSome?_cons, ih (List.pairwise_cons.mp hone).2]
  | swap a b l =>
      have hab := (List.pairwise_cons.mp hone).1 a List.mem_cons_self
      rw [List.findSome?_cons, List.findSome?_cons, List.findSome?_cons, List.findSome?_cons]
      rcases hab with hb | ha
      · rw [hb]
      · rw [ha]
  | trans h h' ih ih' =>
      exact (ih hone).trans (ih' (h.pairwise hone fun hab => hab.symm))

/-- Names that do not agree. -/
def Name.Apart (a b : Name) : Prop := a.agrees b = false

namespace Name.Apart

instance (a b : Name) : Decidable (a.Apart b) := inferInstanceAs (Decidable (a.agrees b = false))

variable {a b : Name} (h : a.Apart b)
include h

theorem symm : b.Apart a := by
  rw [Name.Apart, Bool.eq_false_iff] at h ⊢
  exact fun hba => h (agrees_symm hba)

/-- Names that are apart have different uniform texts. -/
theorem uniform_ne : a.uniform ≠ b.uniform := by
  rw [Ne, uniform_eq_iff, h]
  exact Bool.false_ne_true

theorem canonical_ne : b.canonical ≠ a.canonical := fun heq =>
  h.uniform_ne (uniform_eq_iff.mpr (agrees_of_canonical_eq heq.symm))

/-- Of two such names only one comes no later than the other. -/
theorem not_le_of_le (hle : a.le b = true) : ¬ b.le a = true := by
  intro hge
  have hlt : a.order b = .lt := order_eq_lt hle h
  have hgt : b.order a = .lt := order_eq_lt hge h.symm
  have hswap : b.order a = (a.order b).swap := Std.OrientedCmp.eq_swap
  rw [hswap, hlt] at hgt
  contradiction

end Name.Apart

/-- What is filed under names apart is filed under different texts. -/
theorem Filed.uniform_ne {α : Type} {f g : Filed α} (h : f.name.Apart g.name) :
    f.uniform ≠ g.uniform := by
  rw [f.uniform_eq, g.uniform_eq]
  exact h.uniform_ne

/-! ## Sessions in which sources answer alike -/

/-- Two sessions that have the same indexes and the same lists in caches. -/
structure Session.SameView (σ τ : Session) : Prop where
  index : ∀ id, σ.index? id = τ.index? id
  entry : ∀ id key, σ.entry id key = τ.entry id key

/-- Sessions of one memory look the same. -/
theorem Session.SameMemory.sameView {σ τ : Session} (h : σ.SameMemory τ) : σ.SameView τ :=
  ⟨h.index?, Session.entry_congr h.caches⟩

/-- What a mapper lists depends on the entry of its cache only. -/
theorem CachedMapper.listed_congr {m : CachedMapper} {n : Name} {σ τ : Session}
    (h : ∀ id, σ.entry id (m.cacheKey n) = τ.entry id (m.cacheKey n)) :
    m.listed n σ = m.listed n τ := by
  have hcache : m.cache.bind (σ.entry · (m.cacheKey n)) = m.cache.bind (τ.entry · (m.cacheKey n)) :=
    Option.bind_congr fun id _ => h id
  rw [listed_eq, listed_eq, candidates_fst, candidates_fst, hcache]

namespace Source

variable {s : Source} {n a : Name} {σ τ : Session}

/-- A lookup comes to the index of the source: no candidate has a value. -/
def Consults (s : Source) (n : Name) (σ : Session) : Prop :=
  s.capability = .enumerable ∧ s.tries n (s.mapper.listed n σ) = .ok none

/-- What the lookup of a name depends on. -/
structure Prepared (s : Source) (n : Name) (σ τ : Session) : Prop where
  listed : s.mapper.listed n σ = s.mapper.listed n τ
  known : s.known σ = s.known τ

/-- In sessions that look the same a source is prepared alike. -/
theorem prepared_of_sameView (h : σ.SameView τ) (s : Source) (n : Name) : s.Prepared n σ τ where
  listed := CachedMapper.listed_congr fun id => h.entry id _
  known := by rw [known, known, h.index]

/-- A lookup does not prepare those of names with other canonical texts. -/
theorem prepared_get_of_ne (h : a.canonical ≠ n.canonical) : s.Prepared a (s.get n σ).2 σ where
  listed := CachedMapper.listed_congr fun id => s.entry_get_of_ne h id σ
  known := known_get (fun _ => rfl) n σ

theorem Prepared.trans {υ : Session} (h : s.Prepared n σ τ) (h' : s.Prepared n τ υ) :
    s.Prepared n σ υ :=
  ⟨h.listed.trans h'.listed, h.known.trans h'.known⟩

/-- A source that is prepared alike answers alike. -/
theorem Prepared.get_eq (h : s.Prepared n σ τ) : (s.get n σ).1 = (s.get n τ).1 := by
  rw [get_apply, get_apply, h.listed, h.known]

theorem Prepared.consults_iff (h : s.Prepared n σ τ) : s.Consults n σ ↔ s.Consults n τ := by
  rw [Consults, Consults, h.listed]

theorem index?_index (s : Source) (σ : Session) : (s.index σ).2.index? s.id = some (s.known σ) := by
  rw [known]
  cases h : σ.index? s.id with
  | some ix => rw [s.index_remembered h, h, Option.getD_some]
  | none =>
      rw [← (s.index_built h).2.index?, Session.index?_remember_self, Option.getD_none]

/-- Listing candidates remembers no index. -/
theorem index?_candidatesOrNone (m : CachedMapper) (n : Name) (σ : Session) (id : SourceId) :
    (m.candidatesOrNone n σ).2.index? id = σ.index? id := by
  have hkeeps : Run.Keeps (·.index? id) (m.candidatesOrNone n) :=
    CachedMapper.compositional_candidatesOrNone (Run.keeps_compositional fun _ _ => rfl)
      (CachedMapper.keeps_candidates fun _ _ _ => rfl)
  exact hkeeps σ

/-- **The index of a source after a lookup**: it is there if it was before, or if the lookup came to
it. -/
theorem index?_get_iff (s : Source) (n : Name) (σ : Session) (ix : Index) :
    (s.get n σ).2.index? s.id = some ix ↔
      σ.index? s.id = some ix ∨ s.Consults n σ ∧ ix = s.known σ := by
  have hlist := index?_candidatesOrNone s.mapper n σ s.id
  have hknown := s.known_candidatesOrNone s.mapper n σ
  rw [get, Run.bind_apply, Consults, CachedMapper.listed, ← hlist, ← hknown]
  generalize (s.mapper.candidatesOrNone n σ).1 = cs
  generalize (s.mapper.candidatesOrNone n σ).2 = υ
  obtain ⟨hanswer, hsame⟩ := s.tryAll_apply n cs υ
  rw [Run.bind_apply, hanswer]
  cases s.tries n cs with
  | error e => cases s.capability <;> simp [Run.pure_apply, hsame.index?]
  | ok found =>
      cases found with
      | some p => cases s.capability <;> simp [Run.pure_apply, hsame.index?]
      | none =>
          cases s.capability with
          | lookupOnly => simp [Run.pure_apply, hsame.index?]
          | enumerable =>
              -- Only here is the index asked for, and made if it is not there.
              have hindex := s.index?_index (s.tryAll n cs υ).2
              have hknown : s.known (s.tryAll n cs υ).2 = s.known υ := by
                rw [known, known, hsame.index?]
              have hremembered (h : υ.index? s.id = some ix) : ix = s.known υ := by
                rw [known, h, Option.getD_some]
              simp only [Run.bind_apply, ← (s.tryAll_apply n _ _).2.index?, hindex, hknown]
              grind

end Source

/-! ## Inspections -/

namespace Migration

variable {t t' : MetadataTable} {s : Source} {d : Name × Metadata × Deprecation}
  {ds ds' : List (Name × Metadata × Deprecation)} {σ τ υ : Session}

/-- What an inspection finds for a deprecated property that is asked for. -/
def foundIn (t : MetadataTable) (s : Source) (σ : Session) (d : Name × Metadata × Deprecation) :
    Option Finding :=
  match (s.get d.1 σ).1 with
  | .ok (some p) => some (finding t d.2.1 d.2.2 p)
  | _ => none

/-- A source that is prepared alike has the same finding. -/
theorem foundIn_congr (h : s.Prepared d.1 σ τ) : foundIn t s σ d = foundIn t s τ d := by
  rw [foundIn, foundIn, h.get_eq]

/-- One step of an inspection, up to what is noted. -/
theorem inspectFor_cons (t : MetadataTable) (s : Source) (d : Name × Metadata × Deprecation)
    (ds : List (Name × Metadata × Deprecation)) (σ : Session) :
    ∃ υ, Session.SameMemory (s.get d.1 σ).2 υ ∧
      inspectFor t s (d :: ds) σ =
        ((foundIn t s σ d).toList ++ (inspectFor t s ds υ).1, (inspectFor t s ds υ).2) := by
  obtain ⟨n, m, d⟩ := d
  rw [inspectFor, foundIn, Run.bind_apply]
  cases (s.get n σ).1 with
  | error e => exact ⟨(Run.note (.deprecatedSkipped s.name n e) (s.get n σ).2).2, ⟨rfl, rfl⟩, rfl⟩
  | ok found =>
      cases found with
      | none => exact ⟨(s.get n σ).2, .refl _, rfl⟩
      | some p =>
          let e := findingEvent s.name n (finding t m d p)
          exact ⟨(Run.note e (s.get n σ).2).2, ⟨rfl, rfl⟩, rfl⟩

/-- No two of the names that are asked for agree. -/
def AskedApart (ds : List (Name × Metadata × Deprecation)) : Prop :=
  ds.Pairwise fun d d' => d.1.Apart d'.1

/-- **In an inspection every property is found as if it were asked for alone**, and the index of the
source is there afterwards if it was before or if some lookup came to it. -/
theorem inspectFor_apart (hds : AskedApart ds) (t : MetadataTable) (s : Source) (σ : Session) :
    (inspectFor t s ds σ).1 = ds.filterMap (foundIn t s σ) ∧
      ∀ ix, (inspectFor t s ds σ).2.index? s.id = some ix ↔
        σ.index? s.id = some ix ∨ (∃ d ∈ ds, s.Consults d.1 σ) ∧ ix = s.known σ := by
  induction ds generalizing σ with
  | nil => exact ⟨rfl, fun ix => by simp [inspectFor, Run.pure_apply]⟩
  | cons d ds ih =>
      obtain ⟨hd, hds⟩ := List.pairwise_cons.mp hds
      obtain ⟨υ, hsame, hstep⟩ := inspectFor_cons t s d ds σ
      have hasked (n : Name) : s.Prepared n υ (s.get d.1 σ).2 :=
        Source.prepared_of_sameView hsame.symm.sameView s n
      -- A lookup keeps its list under its canonical text, which no name after it has.
      have hprepared : ∀ d' ∈ ds, s.Prepared d'.1 υ σ := fun d' hd' =>
        (hasked d'.1).trans (Source.prepared_get_of_ne (hd d' hd').canonical_ne)
      have hknown : s.known υ = s.known σ :=
        (hasked d.1).known.trans (Source.known_get (fun _ => rfl) d.1 σ)
      obtain ⟨hfound, hindex⟩ := ih hds υ
      rw [hstep]
      refine ⟨?_, fun ix => ?_⟩
      · have hrest : ds.filterMap (foundIn t s υ) = ds.filterMap (foundIn t s σ) :=
          List.filterMap_congr fun d' hd' => foundIn_congr (hprepared d' hd')
        rw [hfound, hrest, List.filterMap_cons]
        cases foundIn t s σ d <;> rfl
      · have hconsults : (∃ d' ∈ ds, s.Consults d'.1 υ) ↔ ∃ d' ∈ ds, s.Consults d'.1 σ :=
          exists_congr fun d' => and_congr_right fun hd' => (hprepared d' hd').consults_iff
        rw [hindex, ← hsame.index?, Source.index?_get_iff, hconsults, hknown,
          List.exists_mem_cons_iff]
        grind

/-- The mapper makes the same lists in every order of different names. -/
theorem made_perm (m : CachedMapper) (id : CacheId) (key : Dialect × String) (h : ds.Perm ds')
    (hds : AskedApart ds) : m.made id key (ds.map (·.1)) = m.made id key (ds'.map (·.1)) := by
  rw [CachedMapper.made, CachedMapper.made]
  split
  · refine findSome?_perm (h.map _) (List.pairwise_map.mpr (hds.imp fun {a b} hab => ?_))
    by_cases ha : a.1.canonical = key.2
    · exact .inr (if_neg (ha ▸ hab.canonical_ne))
    · exact .inl (if_neg ha)
  · rfl

/-- An inspection remembers no index but that of the source. -/
theorem index?_inspectFor_of_ne {id : SourceId} (h : id ≠ s.id) (t : MetadataTable)
    (ds : List (Name × Metadata × Deprecation)) (σ : Session) :
    (inspectFor t s ds σ).2.index? id = σ.index? id := by
  have hkeeps : Run.Keeps (·.index? id) (inspectFor t s ds) :=
    compositional_inspectFor (Run.keeps_compositional fun _ _ => rfl) ds fun d _ =>
      Source.index?_get_of_ne h d.1
  exact hkeeps σ

/-- **The order in which different properties are asked for does not matter**: the same are found,
and sources answer alike afterwards. -/
theorem inspectFor_perm (h : ds.Perm ds') (hds : AskedApart ds) (hfinding : finding t = finding t')
    (s : Source) (hview : σ.SameView τ) :
    (inspectFor t s ds σ).1.Perm (inspectFor t' s ds' τ).1 ∧
      Session.SameView (inspectFor t s ds σ).2 (inspectFor t' s ds' τ).2 := by
  have hds' : AskedApart ds' := h.pairwise hds fun hab => hab.symm
  obtain ⟨hfound, hindex⟩ := inspectFor_apart hds t s σ
  obtain ⟨hfound', hindex'⟩ := inspectFor_apart hds' t' s τ
  have hprepared (n : Name) := Source.prepared_of_sameView hview s n
  refine ⟨?_, fun id => ?_, fun id key => ?_⟩
  · have hsame : foundIn t s σ = foundIn t' s τ := by
      funext d
      rw [foundIn_congr (hprepared d.1), foundIn, foundIn, hfinding]
    rw [hfound, hfound', hsame]
    exact h.filterMap _
  · by_cases hid : id = s.id
    · have hconsults : (∃ d ∈ ds, s.Consults d.1 σ) ↔ ∃ d ∈ ds', s.Consults d.1 τ :=
        exists_congr fun d => and_congr h.mem_iff (hprepared d.1).consults_iff
      have hknown : s.known σ = s.known τ := by rw [Source.known, hview.index, Source.known]
      refine hid ▸ Option.ext fun ix => ?_
      rw [hindex, hindex', hview.index, hconsults, hknown]
    · rw [index?_inspectFor_of_ne hid, index?_inspectFor_of_ne hid, hview.index]
  · rw [entry_inspectFor, entry_inspectFor, hview.entry, made_perm s.mapper id key h hds]

/-- What is found has the names that were asked for. -/
theorem apart_inspectFor (hds : AskedApart ds) (t : MetadataTable) (s : Source) (σ : Session) :
    (inspectFor t s ds σ).1.Pairwise fun f g => f.property.name.Apart g.property.name := by
  have hname {d : Name × Metadata × Deprecation} {f : Finding} (hf : foundIn t s σ d = some f) :
      f.property.name = d.1 := by
    rw [foundIn] at hf
    split at hf
    · next p hp =>
      cases hf
      exact Source.name_of_get hp
    · contradiction
  rw [(inspectFor_apart hds t s σ).1, List.pairwise_filterMap]
  refine hds.imp fun hab f hf g hg => ?_
  rwa [hname hf, hname hg]

end Migration

/-! ## Tables in another order -/

namespace MetadataTable

/-- Two tables that hold the same entries in any two orders, under names of which no two agree. -/
structure Reordered (t t' : MetadataTable) : Prop where
  perm : t.entries.Perm t'.entries
  apart : t.entries.Pairwise fun f g => f.name.Apart g.name

namespace Reordered

variable {t t' : MetadataTable} (h : t.Reordered t')
include h

/-- Every name has the same metadata in both tables. -/
theorem get?_eq : t.get? = t'.get? := by
  funext n
  rw [get?, get?, Filed.find?, Filed.find?, List.find?_eq_findSome?_guard,
    List.find?_eq_findSome?_guard]
  congr 1
  refine findSome?_perm h.perm (h.apart.imp fun {f g} hfg => ?_)
  have hne : f.uniform ≠ g.uniform := Filed.uniform_ne hfg
  grind [Option.guard]

theorem isCompatible_eq : t.isCompatible = t'.isCompatible := by
  funext m r
  rw [isCompatible, isCompatible, h.get?_eq]

/-- What is found of a property is the same by both tables. -/
theorem finding_eq : Migration.finding t = Migration.finding t' := by
  funext m d p
  rw [Migration.finding, Migration.finding, Migration.outcome, Migration.outcome,
    h.isCompatible_eq]

/-- Both tables ask for the same names, in some order. -/
theorem asked_perm : (Migration.asked t).Perm (Migration.asked t') :=
  (h.perm.filterMap _).filter _

/-- The names that are asked for are apart. -/
theorem askedApart : Migration.AskedApart (Migration.asked t) := by
  refine List.Pairwise.filter _ (List.pairwise_filterMap.mpr (h.apart.imp fun {f g} hfg => ?_))
  intro d hd d' hd'
  obtain ⟨_, -, rfl⟩ := Option.map_eq_some_iff.mp hd
  obtain ⟨_, -, rfl⟩ := Option.map_eq_some_iff.mp hd'
  exact hfg

end Reordered

/-- An entry under a name that no entry has is put at the end. -/
theorem place_of_apart {join : Filed Metadata → Filed Metadata → Filed Metadata}
    {new : Filed Metadata} {fs : List (Filed Metadata)} (h : ∀ f ∈ fs, f.name.Apart new.name) :
    Filed.place join new fs = fs ++ [new] := by
  induction fs with
  | nil => rfl
  | cons f fs ih =>
      obtain ⟨hf, hfs⟩ := List.forall_mem_cons.mp h
      rw [Filed.place, if_neg (Filed.uniform_ne hf), ih hfs, List.cons_append]

/-- The entry that is added for what is known of a property, if its name is well-formed. -/
def filed? (m : Metadata) : Option (Filed Metadata) :=
  match Name.parse m.name with
  | .ok n => some (.under n m)
  | .error _ => none

/-- **Entries under names of which no two agree stand in a table in the order in which they were
added.** -/
theorem entries_insertAll {done : List (Filed Metadata)} {ms : List Metadata} {t : MetadataTable}
    (hapart : (done ++ ms.filterMap filed?).Pairwise fun f g => f.name.Apart g.name)
    (h : insertAll ⟨done⟩ ms = .ok t) : t.entries = done ++ ms.filterMap filed? := by
  induction ms generalizing done with
  | nil =>
      cases h
      rw [List.filterMap_nil, List.append_nil]
  | cons m ms ih =>
      rw [insertAll, insert] at h
      cases hname : Name.parse m.name with
      | error e =>
          rw [hname] at h
          contradiction
      | ok n =>
          have hfiled : filed? m = some (.under n m) := by rw [filed?, hname]
          rw [List.filterMap_cons_some hfiled] at hapart ⊢
          have hfront : ∀ f ∈ done, f.name.Apart n := fun f hf =>
            (List.pairwise_append.mp hapart).2.2 f hf _ List.mem_cons_self
          have hplace : Filed.place (fun _ new => new) (.under n m) done = done ++ [.under n m] :=
            place_of_apart hfront
          simp only [hname, hplace] at h
          rw [List.append_cons] at hapart ⊢
          exact ih hapart h

/-- Tables that are made of the same entries in two orders are reordered. -/
theorem reordered_of_insertAll {ms ms' : List Metadata} {t t' : MetadataTable} (h : ms.Perm ms')
    (hapart : (ms.filterMap filed?).Pairwise fun f g => f.name.Apart g.name)
    (ht : empty.insertAll ms = .ok t) (ht' : empty.insertAll ms' = .ok t') : t.Reordered t' := by
  have hperm : (ms.filterMap filed?).Perm (ms'.filterMap filed?) := h.filterMap filed?
  have hapart' : (ms'.filterMap filed?).Pairwise fun f g => f.name.Apart g.name :=
    hperm.pairwise hapart fun hfg => hfg.symm
  have hentries : t.entries = ms.filterMap filed? := entries_insertAll hapart ht
  have hentries' : t'.entries = ms'.filterMap filed? := entries_insertAll hapart' ht'
  exact ⟨hentries ▸ hentries' ▸ hperm, hentries ▸ hapart⟩

end MetadataTable

/-! ## Reports and summaries -/

namespace Finding

/-- The same findings in any two orders, under names of which no two agree. -/
structure Reordered (fs gs : List Finding) : Prop where
  perm : fs.Perm gs
  apart : fs.Pairwise fun f g => f.property.name.Apart g.property.name

variable {fs gs : List Finding}

theorem Reordered.filter (h : Reordered fs gs) (q : Finding → Bool) :
    Reordered (fs.filter q) (gs.filter q) :=
  ⟨h.perm.filter q, h.apart.filter q⟩

/-- Sorted findings ascend by name. -/
theorem pairwise_sort (fs : List Finding) :
    (sort fs).Pairwise fun f g => f.property.name.le g.property.name = true :=
  List.pairwise_mergeSort
    (fun f g h => Name.le_trans f.property.name g.property.name h.property.name)
    (fun f g => Name.le_total f.property.name g.property.name) fs

theorem sort_perm (fs : List Finding) : (sort fs).Perm fs := List.mergeSort_perm fs _

/-- **Findings under different names are sorted in one way only.** -/
theorem Reordered.sort_eq (h : Reordered fs gs) : sort fs = sort gs := by
  have hsymm : Std.Symm fun f g : Finding => f.property.name.Apart g.property.name :=
    ⟨fun _ _ hfg => hfg.symm⟩
  have hperm : (sort fs).Perm (sort gs) := (sort_perm fs).trans (h.perm.trans (sort_perm gs).symm)
  refine hperm.eq_of_pairwise (fun f g hf hg hfg hgf => ?_) (pairwise_sort fs) (pairwise_sort gs)
  by_contra hne
  have hfs : f ∈ fs := (sort_perm fs).mem_iff.mp hf
  have hgs : g ∈ fs := h.perm.mem_iff.mpr ((sort_perm gs).mem_iff.mp hg)
  exact (h.apart.forall hfs hgs hne).not_le_of_le hfg hgf

end Finding

/-- Two reports on a source that hold the same findings in any two orders. -/
structure SourceReport.Reordered (r r' : SourceReport) : Prop where
  source : r.source = r'.source
  matched : Finding.Reordered r.matched r'.matched
  unhandled : Finding.Reordered r.unhandled r'.unhandled

/-- Reordered findings are described by one text, since they are sorted. -/
theorem SourceReport.describe_eq {fs gs : List Finding} (h : Finding.Reordered fs gs)
    (source : String) : describe source fs = describe source gs := by
  rw [describe, describe, h.perm.isEmpty_eq, h.sort_eq]

namespace Report

variable {rs rs' : List SourceReport} (h : List.Forall₂ SourceReport.Reordered rs rs')
include h

/-- Reordered reports have one summary. -/
theorem summarize_eq {select : SourceReport → List Finding}
    (hselect : ∀ r r', SourceReport.Reordered r r' → Finding.Reordered (select r) (select r'))
    (header footer : String) :
    summarize ⟨rs⟩ header footer select = summarize ⟨rs'⟩ header footer select := by
  have hbody : (rs.map fun r => SourceReport.describe r.source (select r)) =
      rs'.map fun r => SourceReport.describe r.source (select r) := by
    induction h with
    | nil => rfl
    | cons hr _ ih =>
        rw [List.map_cons, List.map_cons, hr.source, SourceReport.describe_eq (hselect _ _ hr), ih]
  rw [summarize, summarize, hbody]

theorem renamedSummary_eq : renamedSummary ⟨rs⟩ = renamedSummary ⟨rs'⟩ :=
  summarize_eq h (fun _ _ hr => hr.matched) _ _

theorem unsupportedSummary_eq : unsupportedSummary ⟨rs⟩ = unsupportedSummary ⟨rs'⟩ :=
  summarize_eq h (fun _ _ hr => hr.unhandled) _ _

theorem summary_eq : summary ⟨rs⟩ = summary ⟨rs'⟩ := by
  rw [summary, summary, renamedSummary_eq h, unsupportedSummary_eq h]

end Report

/-! ## Chains -/

/-- Sources under one name that were made from sources of one name. -/
structure Source.Alike (s s' : Source) : Prop where
  name : s.name = s'.name
  derivedFrom : s.derivedFrom = s'.derivedFrom

namespace Migration

variable {t t' : MetadataTable} {p : Policy} {generated xs ys : List Source} {m m' : Source}
  {r r' : SourceReport} {rs rs' : List SourceReport} {σ τ : Session}

/-- Of alike sources, both or neither were made. -/
theorem isMigrated_eq (h : m.Alike m') : isMigrated m = isMigrated m' := by
  rw [isMigrated, isMigrated, h.name, h.derivedFrom]

/-- Alike sources have the same names. -/
theorem namesOf_eq (h : List.Forall₂ Source.Alike xs ys) :
    Source.namesOf xs = Source.namesOf ys := by
  induction h with
  | nil => rfl
  | cons hx _ ih => rw [Source.namesOf_cons, Source.namesOf_cons, hx.name, ih]

theorem alike_without (h : List.Forall₂ Source.Alike xs ys) (name : String) :
    List.Forall₂ Source.Alike (Source.without name xs) (Source.without name ys) := by
  refine List.rel_filter (fun x y hxy => ?_) h
  simp only [hxy.name]

/-- Alike sources are spliced into alike chains. -/
theorem alike_splice (h : List.Forall₂ Source.Alike xs ys) (hm : m.Alike m') (p : Policy)
    (anchor : String) :
    List.Forall₂ Source.Alike (p.splice anchor m xs) (p.splice anchor m' ys) := by
  induction h with
  | nil => rw [splice_nil, splice_nil]; exact .nil
  | @cons x y xs ys hxy hrest ih =>
      by_cases hx : x.name = anchor
      · subst hx
        have hself : p.splice x.name m' (y :: ys) = p.pair m' y ++ ys := by
          rw [hxy.name, splice_cons_self]
        rw [splice_cons_self, hself]
        cases p with
        | before => exact .cons hm (.cons hxy hrest)
        | after => exact .cons hxy (.cons hm hrest)
      · have hy : y.name ≠ anchor := hxy.name ▸ hx
        rw [splice_cons_of_ne p hx, splice_cons_of_ne p hy]
        exact .cons hxy ih

/-- A source is settled alike in alike chains, if what was found in it differs in order only. -/
theorem alike_settled (h : List.Forall₂ Source.Alike xs ys) (hr : r.Reordered r') (p : Policy)
    (generated : List Source) (id id' : SourceId) (s : Source) :
    List.Forall₂ Source.Alike (settled p generated id s r xs)
      (settled p generated id' s r' ys) := by
  have hnil : r.matched = [] ↔ r'.matched = [] := by
    rw [← List.isEmpty_iff, hr.matched.perm.isEmpty_eq, List.isEmpty_iff]
  have hmade : (madeSource id r).Alike (madeSource id' r') :=
    ⟨congrArg migratedName hr.source, congrArg some hr.source⟩
  rw [settled, settled]
  simp only [hnil]
  split
  · split
    · exact alike_without h _
    · exact h
  · exact alike_splice (alike_without h _) hmade p s.name

/-- Settling sources leads to sources alike if the findings are the same in any order. -/
theorem alike_settles {ss zs zs' : List Source} (h : List.Forall₂ Source.Alike xs ys)
    (hr : List.Forall₂ SourceReport.Reordered rs rs') (hs : Settles p generated ss rs xs zs)
    (hs' : Settles p generated ss rs' ys zs') : List.Forall₂ Source.Alike zs zs' := by
  induction hs generalizing rs' ys with
  | done xs =>
      cases hs' with
      | done ys => exact h
  | step id _ _ ih =>
      cases hs' with
      | step id' _ rest' =>
          cases hr with
          | cons hr hrs => exact ih (alike_settled h hr p generated id id' _) hrs rest'

theorem any_find?_eq (h : List.Forall₂ Source.Alike xs ys) (name : String) :
    (xs.find? (·.name == name)).any isMigrated = (ys.find? (·.name == name)).any isMigrated := by
  induction h with
  | nil => rfl
  | cons hxy _ ih =>
      rw [List.find?_cons, List.find?_cons, hxy.name]
      split
      · exact isMigrated_eq hxy
      · exact ih

/-- Orphans are taken out of alike chains alike. -/
theorem alike_withoutOrphans (h : List.Forall₂ Source.Alike xs ys) (sources gs : List Source) :
    List.Forall₂ Source.Alike (withoutOrphans sources xs gs) (withoutOrphans sources ys gs) := by
  induction gs generalizing xs ys with
  | nil => exact h
  | cons g gs ih =>
      rw [withoutOrphans, withoutOrphans, any_find?_eq h]
      split
      · exact ih (alike_without h g.name)
      · exact ih h

/-! ## The whole migration -/

/-- **Sources are found the same in by tables in any two orders.** -/
theorem inspectAll_reordered (h : t.Reordered t') (ss : List Source) (hview : σ.SameView τ) :
    List.Forall₂ SourceReport.Reordered (inspectAll t ss σ).1 (inspectAll t' ss τ).1 := by
  induction ss generalizing σ τ with
  | nil => exact .nil
  | cons s ss ih =>
      obtain ⟨hfound, hafter⟩ := inspectFor_perm h.asked_perm h.askedApart h.finding_eq s hview
      have hfindings : Finding.Reordered (inspectFor t s (asked t) σ).1
          (inspectFor t' s (asked t') τ).1 :=
        ⟨hfound, apart_inspectFor h.askedApart t s σ⟩
      exact .cons ⟨rfl, hfindings.filter _, hfindings.filter _⟩ (ih hafter)

/-- **The order of the entries of a table does not matter to operators.**  Migrations of one chain
in one session, under one policy, by two tables that hold the same entries in any two orders, both
succeed.  The chains have the same names in the same order afterwards, the summaries are the same
texts, and on every source the same findings are reported, up to their order, among the matched ones
and among the unhandled ones. -/
theorem analyze_reordered (h : t.Reordered t') (p : Policy) (c : Chain) (σ : Session) :
    ∃ c₁ c₂ r₁ r₂, (analyze t p c σ).1 = (c₁, .ok r₁) ∧ (analyze t' p c σ).1 = (c₂, .ok r₂) ∧
      c₁.names = c₂.names ∧
      r₁.renamedSummary = r₂.renamedSummary ∧
      r₁.unsupportedSummary = r₂.unsupportedSummary ∧
      r₁.summary = r₂.summary ∧
      List.Forall₂ SourceReport.Reordered r₁.sources r₂.sources := by
  obtain ⟨c₁, zs, hrun, hsettles, hsources, -⟩ := analyze_spec t p c σ
  obtain ⟨c₂, zs', hrun', hsettles', hsources', -⟩ := analyze_spec t' p c σ
  have hview : σ.SameView σ := ⟨fun _ => rfl, fun _ _ => rfl⟩
  have hreports := inspectAll_reordered h (users c.sources) hview
  have hself : List.Forall₂ Source.Alike c.sources c.sources :=
    List.forall₂_same.mpr fun _ _ => ⟨rfl, rfl⟩
  have halike := alike_withoutOrphans (alike_settles hself hreports hsettles hsettles')
    (users c.sources) (c.sources.filter isMigrated)
  rw [← hsources, ← hsources'] at halike
  exact ⟨c₁, c₂, _, _, hrun, hrun', namesOf_eq halike, Report.renamedSummary_eq hreports,
    Report.unsupportedSummary_eq hreports, Report.summary_eq hreports, hreports⟩

/-- Two properties that were renamed, and one that is no longer supported. -/
def renamedMetadata : List Metadata :=
  [⟨"old", some "string", none, some ⟨.error, some "new", none⟩⟩,
    ⟨"aged", some "string", none, some ⟨.error, some "new", none⟩⟩,
    ⟨"gone", some "string", none, some ⟨.error, none, some "unused"⟩⟩,
    ⟨"new", some "string", none, none⟩]

/-- The table to which the entries are added in this order. -/
def agedTable (ms : List Metadata) : MetadataTable :=
  match MetadataTable.empty.insertAll ms with
  | .ok t => t
  | .error _ => .empty

theorem insertAll_agedTable {ms : List Metadata}
    (h : (MetadataTable.empty.insertAll ms).isOk = true) :
    MetadataTable.empty.insertAll ms = .ok (agedTable ms) := by
  unfold agedTable
  cases hms : MetadataTable.empty.insertAll ms with
  | ok t => rfl
  | error e =>
      rw [hms] at h
      contradiction

/-- A file that has all the deprecated properties. -/
def agedChain : Chain :=
  ⟨[textSource 0 "file" [("gone", "x"), ("old", "y"), ("aged", "z")]], by decide⟩

/-- The entries are added in this order and in reverse.  Both runs put a made source before the file and
give the same summary, and both find `old` and `aged`, in different orders. -/
theorem analyze_reordered_agedChain :
    let t := agedTable renamedMetadata
    let t' := agedTable renamedMetadata.reverse
    t.Reordered t' ∧
      ∃ c₁ c₂ r₁ r₂, (analyze t .before agedChain .start).1 = (c₁, .ok r₁) ∧
        (analyze t' .before agedChain .start).1 = (c₂, .ok r₂) ∧
        c₁.names = ["migrate-file", "file"] ∧ c₂.names = ["migrate-file", "file"] ∧
        r₁.matched.map (·.property.name.canonical) = ["old", "aged"] ∧
        r₂.matched.map (·.property.name.canonical) = ["aged", "old"] ∧
        r₁.summary.isSome = true ∧ r₁.summary = r₂.summary ∧
        List.Forall₂ SourceReport.Reordered r₁.sources r₂.sources := by
  intro t t'
  have hapart : (renamedMetadata.filterMap MetadataTable.filed?).Pairwise
      fun f g => f.name.Apart g.name := by
    decide +kernel
  have h : t.Reordered t' := MetadataTable.reordered_of_insertAll
    (List.reverse_perm renamedMetadata).symm hapart (insertAll_agedTable (by decide +kernel))
    (insertAll_agedTable (by decide +kernel))
  obtain ⟨c₁, c₂, r₁, r₂, hrun, hrun', hnames, -, -, hsummary, hreports⟩ :=
    analyze_reordered h .before agedChain .start
  have hmoved : (analyze t .before agedChain .start).1.1.names = ["migrate-file", "file"] := by
    decide +kernel
  have hfound : (analyze t .before agedChain .start).1.2.toOption.map
      (·.matched.map (·.property.name.canonical)) = some ["old", "aged"] := by
    decide +kernel
  have hfound' : (analyze t' .before agedChain .start).1.2.toOption.map
      (·.matched.map (·.property.name.canonical)) = some ["aged", "old"] := by
    decide +kernel
  have hshown : (analyze t .before agedChain .start).1.2.toOption.any (·.summary.isSome) = true := by
    decide +kernel
  rw [hrun] at hmoved hfound hshown
  rw [hrun'] at hfound'
  exact ⟨h, c₁, c₂, r₁, r₂, hrun, hrun', hmoved, hnames ▸ hmoved, Option.some.inj hfound,
    Option.some.inj hfound', hshown, hsummary, hreports⟩

end Migration

end LayeredConfig
