import LayeredConfig.Proofs.Answers
import LayeredConfig.Proofs.UserSources
import Mathlib.Data.List.Perm.Subperm

/-!
# LayeredConfig.Proofs.Numbering

The numbers of sources, by which indexes are remembered.

1. The sources of a chain have different numbers that were given out, and nothing is remembered for
   numbers that were not (`Session.Tracks`).  This is kept by every edit that puts in a new source, by
   every question and by every migration.
2. Sources that a migration makes have numbers that are given out in its course, and no index is
   remembered for them when it ends (`Migration.analyze_numbered`).
-/

namespace LayeredConfig

/-! ## Edits -/

namespace Chain

/-- The source that an edit puts in. -/
def Edit.source? : Edit → Option Source
  | .addFirst s => some s
  | .addLast s => some s
  | .insertBefore _ s => some s
  | .insertAfter _ s => some s
  | .replace _ s => some s
  | .remove _ => none

/-- A substitution adds at most the one source. -/
theorem substitute_subperm (name : String) (s : Source) (ss : List Source) :
    (Source.substitute name s ss).Subperm (s :: ss) := by
  induction ss with
  | nil => exact List.nil_subperm
  | cons x xs ih =>
      rw [Source.substitute]
      split
      · exact ((List.sublist_cons_self x xs).cons_cons s).subperm
      · exact ((List.subperm_cons x).mpr ih).trans (List.Perm.swap s x xs).subperm

theorem sources_remove_subperm (c : Chain) (name : String) :
    (c.remove name).sources.Subperm c.sources :=
  List.filter_sublist.subperm

theorem subperm_of_perm_remove {c : Chain} {s : Source} {xs : List Source}
    (h : xs.Perm (s :: (c.remove s.name).sources)) : xs.Subperm (s :: c.sources) :=
  h.subperm.trans ((List.subperm_cons s).mpr (c.sources_remove_subperm s.name))

theorem subperm_cons_of_subperm {xs ys : List Source} (s : Source) (h : xs.Subperm ys) :
    xs.Subperm (s :: ys) :=
  h.trans (List.sublist_cons_self s ys).subperm

/-- An insertion adds at most the one source, if it fails as well. -/
theorem sources_insertNextTo_subperm (c : Chain) {anchor : String} {s : Source}
    {splice : List Source → List Source}
    (joins : ∀ {ss}, anchor ∈ Source.namesOf ss → (splice ss).Perm (s :: ss)) :
    (c.insertNextTo anchor s splice joins).2.sources.Subperm (s :: c.sources) := by
  rw [insertNextTo]
  split
  · exact subperm_cons_of_subperm s (.refl _)
  · split
    · by_cases ha : anchor ∈ (c.remove s.name).names
      · rw [dif_pos ha]
        exact subperm_of_perm_remove (joins ha)
      · rw [dif_neg ha]
        exact subperm_cons_of_subperm s (c.sources_remove_subperm s.name)
    · exact subperm_cons_of_subperm s (.refl _)

/-- So does a replacement. -/
theorem sources_replace_subperm (c : Chain) (name : String) (s : Source) :
    (c.replace name s).2.sources.Subperm (s :: c.sources) := by
  have hway : (c.makeWay name s).sources.Subperm c.sources := by
    rw [makeWay]
    split
    · exact .refl _
    · exact c.sources_remove_subperm s.name
  rw [replace]
  split
  · dsimp only
    split
    · exact (substitute_subperm name s _).trans ((List.subperm_cons s).mpr hway)
    · exact subperm_cons_of_subperm s hway
  · exact subperm_cons_of_subperm s (.refl _)

/-- **An edit puts in its source and none but its source.** -/
theorem sources_apply_subperm (c : Chain) (e : Edit) :
    (c.apply e).2.sources.Subperm (e.source?.toList ++ c.sources) := by
  cases e with
  | addFirst s => exact subperm_of_perm_remove (.refl _)
  | addLast s => exact subperm_of_perm_remove (List.perm_append_singleton _ _)
  | insertBefore anchor s => exact c.sources_insertNextTo_subperm Source.spliceBefore_perm
  | insertAfter anchor s => exact c.sources_insertNextTo_subperm Source.spliceAfter_perm
  | replace name s => exact c.sources_replace_subperm name s
  | remove name => exact List.eraseP_sublist.subperm

/-- An edit in a session changes nothing but the notes. -/
theorem sameMemory_edit (c : Chain) (e : Edit) (σ : Session) :
    σ.SameMemory (c.edit e σ).2 ∧ (c.edit e σ).2.next = σ.next := by
  rw [edit]
  rcases c.apply e with ⟨outcome, c'⟩
  cases outcome <;> exact ⟨⟨rfl, rfl⟩, rfl⟩

/-- A source that was put next to an anchor is the only one of its name. -/
theorem sources_of_insertNextTo {c c' : Chain} {anchor : String} {s : Source}
    {splice : List Source → List Source}
    {joins : ∀ {ss}, anchor ∈ Source.namesOf ss → (splice ss).Perm (s :: ss)}
    (h : c.insertNextTo anchor s splice joins = (.ok (), c')) :
    c'.sources = splice (Source.without s.name c.sources) := by
  by_cases hs : s.name = anchor
  · rw [insertNextTo_self joins hs] at h
    cases h
  · by_cases ha : anchor ∈ c.names
    · obtain ⟨c'', happly, hsources⟩ := insertNextTo_of_mem joins hs ha
      rw [happly] at h
      cases h
      exact hsources
    · rw [insertNextTo_of_notMem joins hs ha] at h
      cases h

end Chain

/-! ## Numbers and indexes through a lookup -/

namespace Source

/-- A lookup gives out no number. -/
theorem next_get (s : Source) (n : Name) (σ : Session) : (s.get n σ).2.next = σ.next := by
  have hindex : Run.Keeps (·.next) s.index := by
    intro σ
    rw [index, Run.bind_apply, Run.get_apply]
    cases σ.index? s.id <;> rfl
  have hkeeps : Run.Keeps (·.next) (s.get n) :=
    compositional_get (Run.keeps_compositional fun _ _ => rfl) (fun _ _ => rfl)
      (CachedMapper.keeps_candidates fun _ _ _ => rfl) hindex
  exact hkeeps σ

/-- A lookup remembers no index but that of the source. -/
theorem index?_get_of_ne {s : Source} {id : SourceId} (h : id ≠ s.id) (n : Name) (σ : Session) :
    (s.get n σ).2.index? id = σ.index? id := by
  have hkeeps : Run.Keeps (·.index? id) (s.get n) :=
    compositional_get (Run.keeps_compositional fun _ _ => rfl) (fun _ _ => rfl)
      (CachedMapper.keeps_candidates fun _ _ _ => rfl)
      (s.keeps_index (fun hsame => hsame.index? id) fun υ _ => υ.index?_remember_of_ne h _)
  exact hkeeps σ

end Source

/-- The next number, and the indexes of the sources from a number on. -/
def Session.beyond (N : SourceId) (σ : Session) : Nat × ({id : SourceId // N ≤ id} → Option Index) :=
  (σ.next, fun id => σ.index? id)

/-- Sessions are the same beyond a number if they give out the same next number and keep the same
indexes from there on. -/
theorem Session.beyond_eq_iff {N : SourceId} {σ τ : Session} :
    τ.beyond N = σ.beyond N ↔ τ.next = σ.next ∧ ∀ id, N ≤ id → τ.index? id = σ.index? id := by
  rw [beyond, beyond, Prod.mk.injEq, funext_iff, Subtype.forall]

/-- **Questions to sources of lower numbers** give out no number and remember no index beyond. -/
theorem Source.beyond_get {s : Source} {N : SourceId} (h : s.id < N) (n : Name) :
    Run.Keeps (Session.beyond N) (s.get n) := fun σ =>
  Session.beyond_eq_iff.mpr ⟨s.next_get n σ, fun _ hid =>
    index?_get_of_ne (Nat.ne_of_gt (Nat.lt_of_lt_of_le h hid)) n σ⟩

/-! ## Sessions that keep track of a chain -/

/-- The sources of the chain have different numbers that were given out, and no index is remembered
for a number that was not. -/
structure Session.Tracks (σ : Session) (c : Chain) : Prop where
  distinct : c.Distinct
  given : ∀ s ∈ c.sources, s.id < σ.next
  blank : ∀ id, σ.next ≤ id → σ.index? id = none

namespace Session

variable {σ τ : Session} {c c' : Chain}

/-- Numbers that were apart stay apart when sources are taken out or moved. -/
theorem nodup_id_of_subperm {xs ys : List Source} (h : xs.Subperm ys)
    (hys : (ys.map (·.id)).Nodup) : (xs.map (·.id)).Nodup := by
  obtain ⟨zs, hperm, hsub⟩ := h
  exact (hperm.map _).nodup_iff.mp (hys.sublist (hsub.map _))

/-- Sources may leave, and numbers may be given out. -/
theorem Tracks.of_subperm (h : σ.Tracks c) (hsub : c'.sources.Subperm c.sources)
    (hnext : σ.next ≤ τ.next) (hindex : ∀ id, σ.next ≤ id → τ.index? id = σ.index? id) :
    τ.Tracks c' where
  distinct := nodup_id_of_subperm hsub h.distinct
  given := fun s hs => Nat.lt_of_lt_of_le (h.given s (hsub.subset hs)) hnext
  blank := fun id hid => by
    have hid : σ.next ≤ id := Nat.le_trans hnext hid
    rw [hindex id hid, h.blank id hid]

/-- A source of the next number may join. -/
theorem Tracks.of_subperm_cons (h : σ.Tracks c) {s : Source} (hs : s.id = σ.next)
    (hsub : c'.sources.Subperm (s :: c.sources)) (hnext : τ.next = σ.next + 1)
    (hindex : ∀ id, τ.index? id = σ.index? id) : τ.Tracks c' where
  distinct := by
    refine nodup_id_of_subperm hsub (List.nodup_cons.mpr ⟨fun hin => ?_, h.distinct⟩)
    obtain ⟨x, hx, hid⟩ := List.mem_map.mp hin
    exact Nat.ne_of_lt (h.given x hx) (hid.trans hs)
  given := fun x hx => by
    rw [hnext]
    cases List.mem_cons.mp (hsub.subset hx) with
    | inl he =>
        rw [he, hs]
        exact Nat.lt_succ_self _
    | inr hin => exact Nat.lt_succ_of_lt (h.given x hin)
  blank := fun id hid => by
    rw [hnext] at hid
    rw [hindex, h.blank id (Nat.le_of_succ_le hid)]

/-- **An edit that puts in a new source keeps track**, and so does one that takes a source out or
fails. -/
theorem Tracks.edit (h : σ.Tracks c) {e : Chain.Edit}
    (hnew : ∀ s, e.source? = some s → s.id = σ.next) :
    Tracks (c.edit e { σ with next := σ.next + 1 }).2 (c.edit e { σ with next := σ.next + 1 }).1.2 := by
  obtain ⟨hmem, hnext⟩ := c.sameMemory_edit e { σ with next := σ.next + 1 }
  have hsub := c.sources_apply_subperm e
  have hindex (id : SourceId) :
      (c.edit e { σ with next := σ.next + 1 }).2.index? id = σ.index? id :=
    (hmem.index? id).symm
  rw [Chain.edit_fst]
  cases hs : e.source? with
  | some s =>
      rw [hs] at hsub
      exact h.of_subperm_cons (hnew s hs) hsub hnext hindex
  | none =>
      rw [hs] at hsub
      refine h.of_subperm hsub ?_ fun id _ => hindex id
      rw [hnext]
      exact Nat.le_succ _

/-- **A question to the chain keeps track.** -/
theorem Tracks.resolve (h : σ.Tracks c) (n : Name) : Tracks (c.resolve n σ).2 c := by
  have hkeeps : Run.Keeps (beyond σ.next) (c.resolve n) :=
    Chain.compositional_resolveIn (Run.keeps_compositional fun _ _ => rfl) fun s hs =>
      Source.beyond_get (h.given s hs) n
  obtain ⟨hnext, hindex⟩ := beyond_eq_iff.mp (hkeeps σ)
  exact h.of_subperm (.refl _) (Nat.le_of_eq hnext.symm) hindex

end Session

/-! ## Migrations -/

namespace Migration

/-- The names of made sources are those of the one reports, and then of the others. -/
theorem madeNames_append (rs rs' : List SourceReport) :
    madeNames (rs ++ rs') = madeNames rs ++ madeNames rs' := List.filterMap_append

/-- A splice adds the one source only. -/
theorem mem_of_mem_splice {p : Policy} {anchor : String} {m x : Source} {xs : List Source}
    (h : x ∈ p.splice anchor m xs) : x = m ∨ x ∈ xs := by
  induction xs with
  | nil =>
      rw [splice_nil] at h
      exact nomatch h
  | cons y ys ih =>
      by_cases hy : y.name = anchor
      · subst hy
        rw [splice_cons_self, List.mem_append, mem_pair] at h
        rcases h with (rfl | rfl) | h
        · exact .inl rfl
        · exact .inr List.mem_cons_self
        · exact .inr (List.mem_cons_of_mem _ h)
      · rw [splice_cons_of_ne p hy, List.mem_cons] at h
        rcases h with rfl | h
        · exact .inr List.mem_cons_self
        · exact (ih h).imp_right (List.mem_cons_of_mem _)

theorem source?_edit (p : Policy) (anchor : String) (m : Source) :
    (p.edit anchor m).source? = some m := by
  cases p <;> rfl

/-- A settled source is spliced in where the policy says, after any of its name was taken out. -/
theorem sources_of_apply_edit {p : Policy} {anchor : String} {m : Source} {c c' : Chain}
    {old : Option Source} (h : c.apply (p.edit anchor m) = (.ok old, c')) :
    c'.sources = p.splice anchor m (Source.without m.name c.sources) := by
  cases p with
  | before =>
      rcases hc : c.insertBefore anchor m with ⟨outcome, c₁⟩
      rw [Policy.edit, Chain.apply, hc] at h
      cases outcome <;> cases h
      exact Chain.sources_of_insertNextTo hc
  | after =>
      rcases hc : c.insertAfter anchor m with ⟨outcome, c₁⟩
      rw [Policy.edit, Chain.apply, hc] at h
      cases outcome <;> cases h
      exact Chain.sources_of_insertNextTo hc

/-- What holds while a migration that began at a number settles sources: the sources that were made so
far have numbers that were given out since, and no index is remembered for those. -/
structure Numbered (N : SourceId) (done : List SourceReport) (c : Chain) (σ : Session) : Prop where
  tracks : σ.Tracks c
  later : N ≤ σ.next
  blank : ∀ id, N ≤ id → σ.index? id = none
  made : ∀ x ∈ c.sources, x.name ∈ madeNames done → N ≤ x.id

namespace Numbered

variable {N : SourceId} {done : List SourceReport} {c c' : Chain} {σ τ : Session}

/-- Taking sources out keeps the others numbered. -/
theorem of_sublist (h : Numbered N done c σ) (hsub : c'.sources.Sublist c.sources)
    (hb : τ.beyond N = σ.beyond N) : Numbered N done c' τ := by
  obtain ⟨hnext, hindex⟩ := Session.beyond_eq_iff.mp hb
  refine ⟨h.tracks.of_subperm hsub.subperm (Nat.le_of_eq hnext.symm) fun id hid => ?_,
    hnext ▸ h.later, fun id hid => ?_, fun x hx => h.made x (hsub.subset hx)⟩
  · exact hindex id (Nat.le_trans h.later hid)
  · rw [hindex id hid, h.blank id hid]

/-- **Inspecting a source that was there before** makes nothing. -/
theorem inspect (h : Numbered N done c σ) (t : MetadataTable) {s : Source} (hs : s.id < N) :
    Numbered N done c (inspect t s σ).2 := by
  have hkeeps : Run.Keeps (Session.beyond N) (Migration.inspect t s) :=
    compositional_inspect (Run.keeps_compositional fun _ _ => rfl) fun d _ =>
      Source.beyond_get hs d.1
  exact h.of_sublist (.refl _) (hkeeps σ)

/-- **Settling a source** gives the next number to the source that it makes, and drops any other of its
name. -/
theorem settle (h : Numbered N done c σ) {p : Policy} {generated : List Source} {s : Source}
    {r : SourceReport} (hc : (settle p generated c s r σ).1 = (.ok (), c')) :
    Numbered N (done ++ [r]) c' (settle p generated c s r σ).2 := by
  by_cases hm : r.matched = []
  · have hidle : madeNames (done ++ [r]) = madeNames done := by
      rw [madeNames_append, madeNames_of_idle hm]
      exact List.append_nil _
    have hsame (h' : Numbered N done c' (Migration.settle p generated c s r σ).2) :
        Numbered N (done ++ [r]) c' (Migration.settle p generated c s r σ).2 :=
      ⟨h'.tracks, h'.later, h'.blank, by rw [hidle]; exact h'.made⟩
    refine hsame ?_
    by_cases hg : migratedName s.name ∈ Source.namesOf generated
    · rw [settle_of_stale hm hg] at hc ⊢
      cases hc
      exact h.of_sublist List.eraseP_sublist rfl
    · rw [settle_of_idle hm hg] at hc ⊢
      cases hc
      exact h.of_sublist (.refl _) rfl
  · rw [settle_of_matched hm] at hc ⊢
    have hmade : ∀ m, (p.edit s.name (madeSource σ.next r)).source? = some m → m.id = σ.next := by
      intro m he
      rw [source?_edit] at he
      cases he
      rfl
    obtain ⟨hmem, hnext⟩ := c.sameMemory_edit (p.edit s.name (madeSource σ.next r))
      { σ with next := σ.next + 1 }
    have htracks := h.tracks.edit hmade
    rw [Chain.edit_fst] at htracks
    rcases happly : c.apply (p.edit s.name (madeSource σ.next r)) with ⟨outcome, c₁⟩
    rw [happly] at hc htracks
    obtain rfl : c₁ = c' := congrArg Prod.snd hc
    obtain ⟨old, rfl⟩ : ∃ old, outcome = .ok old := by
      cases outcome with
      | error err => cases hc
      | ok old => exact ⟨old, rfl⟩
    refine ⟨htracks, ?_, fun id hid => ?_, fun x hx hname => ?_⟩
    · rw [hnext]
      exact Nat.le_succ_of_le h.later
    · rw [← hmem.index? id]
      exact h.blank id hid
    · rw [sources_of_apply_edit happly] at hx
      cases mem_of_mem_splice hx with
      | inl hnew =>
          subst hnew
          exact h.later
      | inr hold =>
          rw [Source.without, List.mem_filter, decide_eq_true_eq] at hold
          rw [madeNames_append, List.mem_append, madeNames_of_matched hm] at hname
          cases hname with
          | inl hdone => exact h.made x hold.1 hdone
          | inr hthis => exact absurd (List.mem_singleton.mp hthis) hold.2

/-- Settling sources one after the other keeps the chain numbered. -/
theorem settleAll (h : Numbered N done c σ) {t : MetadataTable} {p : Policy}
    {generated ss : List Source} (hss : ∀ s ∈ ss, s.id < N) {rs : List SourceReport}
    (hrs : (settleAll t p generated c ss σ).1.2 = .ok rs) :
    Numbered N (done ++ rs) (settleAll t p generated c ss σ).1.1
      (settleAll t p generated c ss σ).2 := by
  induction ss generalizing done c σ rs with
  | nil =>
      cases hrs
      rw [List.append_nil]
      exact h
  | cons s ss ih =>
      have ⟨hs, hss⟩ := List.forall_mem_cons.mp hss
      have hinspect := h.inspect t hs
      rw [Migration.settleAll] at hrs ⊢
      simp only [Run.bind_apply] at hrs ⊢
      rcases hc : (Migration.settle p generated c s (Migration.inspect t s σ).1
          (Migration.inspect t s σ).2).1 with ⟨outcome, c₁⟩
      cases outcome with
      | error e =>
          rw [hc] at hrs
          contradiction
      | ok =>
          have hsettle := hinspect.settle hc
          rw [hc] at hrs
          simp only [Run.bind_apply, Run.pure_apply] at hrs ⊢
          cases hrest : (Migration.settleAll t p generated c₁ ss
              (Migration.settle p generated c s (Migration.inspect t s σ).1
                (Migration.inspect t s σ).2).2).1.2 with
          | error e =>
              rw [hrest] at hrs
              contradiction
          | ok rs' =>
              rw [hrest] at hrs
              cases hrs
              rw [List.append_cons]
              exact ih hsettle hss hrest

/-- Taking out orphans keeps the chain numbered. -/
theorem dropOrphans (h : Numbered N done c σ) (sources gs : List Source) :
    Numbered N done (dropOrphans sources c gs σ).1 (dropOrphans sources c gs σ).2 := by
  induction gs generalizing c σ with
  | nil => exact h
  | cons g gs ih =>
      rw [Migration.dropOrphans]
      split
      · exact ih (h.of_sublist List.eraseP_sublist rfl)
      · exact ih h

end Numbered

/-- **A migration keeps track**, and the sources that it makes have numbers of their own, for which no
index is remembered. -/
theorem analyze_numbered (t : MetadataTable) (p : Policy) {c : Chain} {σ : Session}
    (h : σ.Tracks c) :
    Numbered σ.next (reports t c σ) (analyze t p c σ).1.1 (analyze t p c σ).2 := by
  have hstart : Numbered σ.next [] c σ := ⟨h, Nat.le_refl _, h.blank, fun _ _ hm => nomatch hm⟩
  have hin : ∀ s ∈ users c.sources, s ∈ c.sources := fun s hs => (mem_users.mp hs).1
  obtain ⟨c₁, hc₁, -, -⟩ :=
    settleAll_apply t p (c.sources.filter isMigrated)
      (fun s hs => List.mem_map.mpr ⟨s, hin s hs, rfl⟩)
      (fun s hs => name_notMem_generated c.nodup hs) (.refl σ)
  have hsettled := hstart.settleAll (p := p) (fun s hs => h.given s (hin s hs))
    (congrArg Prod.snd hc₁)
  have hdropped := hsettled.dropOrphans (users c.sources) (c.sources.filter isMigrated)
  rw [hc₁] at hdropped
  rw [users] at hc₁ hdropped
  simp only [analyze, Run.bind_apply, hc₁, Run.pure_apply]
  exact hdropped.of_sublist (.refl _) rfl

end Migration

end LayeredConfig
