import LayeredConfig.Proofs.UserSources

/-!
# LayeredConfig.Proofs.MigrationLayout

How a chain looks after a migration, and after a second one.

1. The user sources stand in their order.  Next to each one with matches stands the source that is
   made from it, and nothing else was made (`Migration.Layout`).
2. While sources are settled, the sources that are *up to date* are the settled ones with what was
   made from them, and then the others (`Migration.layout_of_settles`).  What is not up to date in the
   end are orphans (`Migration.upToDate_iff_not_orphan`).
3. A second run finds the same user sources, so it makes the same sources in the same places.
-/

namespace LayeredConfig

/-- The source without its number. -/
def Source.unnumbered (s : Source) : Source := { s with id := 0 }

namespace Migration

/-! ## Layouts -/

/-- The user sources in their order, with the sources that are made from the reports next to them. -/
inductive Layout (p : Policy) : List Source → List SourceReport → List Source → Prop where
  | nil : Layout p [] [] []
  /-- Nothing is made from a source without matches. -/
  | alone {s : Source} {ss : List Source} {r : SourceReport} {rs : List SourceReport}
      {xs : List Source} (hr : r.source = s.name) (hm : r.matched = []) (rest : Layout p ss rs xs) :
      Layout p (s :: ss) (r :: rs) (s :: xs)
  /-- A source with matches has one next to it. -/
  | accompanied {s : Source} {ss : List Source} {r : SourceReport} {rs : List SourceReport}
      {xs : List Source} (id : SourceId) (hr : r.source = s.name) (hm : r.matched ≠ [])
      (rest : Layout p ss rs xs) :
      Layout p (s :: ss) (r :: rs) (p.pair (madeSource id r) s ++ xs)

namespace Layout

variable {p : Policy} {ss ss' : List Source} {rs rs' : List SourceReport} {xs ys : List Source}

/-- Layouts are put together part by part. -/
theorem append (h : Layout p ss rs xs) (h' : Layout p ss' rs' ys) :
    Layout p (ss ++ ss') (rs ++ rs') (xs ++ ys) := by
  induction h with
  | nil => exact h'
  | alone hr hm _ ih => exact .alone hr hm ih
  | accompanied id hr hm _ ih =>
      rw [List.append_assoc]
      exact .accompanied id hr hm ih

/-- There is a report for each source, in their order. -/
theorem sources_eq (h : Layout p ss rs xs) : rs.map (·.source) = Source.namesOf ss := by
  induction h with
  | nil => rfl
  | alone hr _ _ ih => simp [Source.namesOf, hr, ih]
  | accompanied _ hr _ _ ih => simp [Source.namesOf, hr, ih]

/-- A name in a layout is one of a user source, or is made. -/
theorem mem_namesOf (h : Layout p ss rs xs) {name : String} (hn : name ∈ Source.namesOf xs) :
    name ∈ Source.namesOf ss ∨ name ∈ madeNames rs := by
  rw [Source.namesOf, List.mem_map] at hn
  obtain ⟨x, hx, rfl⟩ := hn
  induction h with
  | nil => exact nomatch hx
  | @alone s ss r rs xs hr hm _ ih =>
      rw [madeNames_of_idle hm]
      cases List.mem_cons.mp hx with
      | inl hs =>
          subst hs
          exact .inl List.mem_cons_self
      | inr hx => exact (ih hx).imp_left (List.mem_cons_of_mem _)
  | @accompanied s ss r rs xs id hr hm _ ih =>
      rw [madeNames_of_matched hm]
      cases List.mem_append.mp hx with
      | inl hx =>
          cases mem_pair.mp hx with
          | inl hmade =>
              subst hmade
              exact .inr List.mem_cons_self
          | inr hs =>
              subst hs
              exact .inl List.mem_cons_self
      | inr hx => exact (ih hx).imp (List.mem_cons_of_mem _) (List.mem_cons_of_mem _)

/-- The user sources of a layout are those that it was made of. -/
theorem users_eq (h : Layout p ss rs xs) (hs : ∀ s ∈ ss, isMigrated s = false) : users xs = ss := by
  induction h with
  | nil => rfl
  | @alone s ss r rs xs _ _ _ ih =>
      have ⟨hs, hss⟩ := List.forall_mem_cons.mp hs
      rw [users, List.filter_cons_of_pos (by simp [hs]), ← users, ih hss]
  | @accompanied s ss r rs xs id _ _ _ ih =>
      have ⟨hs, hss⟩ := List.forall_mem_cons.mp hs
      have hpair : users (p.pair (madeSource id r) s) = [s] := by
        cases p <;> simp [users, Policy.pair, isMigrated_madeSource, hs]
      rw [users, List.filter_append, ← users, ← users, hpair, ih hss]
      rfl

/-- Two layouts of the same sources and reports differ in numbers at most. -/
theorem unnumbered_eq (h : Layout p ss rs xs) (h' : Layout p ss rs ys) :
    xs.map Source.unnumbered = ys.map Source.unnumbered := by
  induction h generalizing ys with
  | nil =>
      cases h' with
      | nil => rfl
  | alone _ hm _ ih =>
      cases h' with
      | alone _ _ rest' => rw [List.map_cons, List.map_cons, ih rest']
      | accompanied _ _ hm' _ => exact absurd hm hm'
  | accompanied id _ hm _ ih =>
      cases h' with
      | alone _ hm' _ => exact absurd hm' hm
      | accompanied id' _ _ rest' =>
          rw [List.map_append, List.map_append, ih rest']
          cases p <;> rfl

theorem namesOf_unnumbered (xs : List Source) :
    Source.namesOf (xs.map Source.unnumbered) = Source.namesOf xs := by
  rw [Source.namesOf, List.map_map]
  rfl

end Layout

/-! ## Splicing next to an anchor -/

section

variable (p : Policy) {m s : Source} {anchor : String}

/-- In the place of the anchor stand the made source and the anchor, in the order of the policy. -/
theorem splice_append {front : List Source} (h : s.name ∉ Source.namesOf front)
    (rest : List Source) :
    p.splice s.name m (front ++ s :: rest) = front ++ (p.pair m s ++ rest) := by
  induction front with
  | nil => exact splice_cons_self p m s rest
  | cons x xs ih =>
      rw [Source.namesOf, List.map_cons, List.mem_cons, not_or] at h
      rw [List.cons_append, splice_cons_of_ne p (Ne.symm h.1), ih h.2]
      rfl

/-- A filter that keeps the anchor and the new source may be applied before or after. -/
theorem filter_splice_of_pos {q : Source → Bool} (hm : q m = true) {xs : List Source}
    (ha : ∀ x ∈ xs, x.name = anchor → q x = true) :
    (p.splice anchor m xs).filter q = p.splice anchor m (xs.filter q) := by
  induction xs with
  | nil => rw [splice_nil, List.filter_nil, splice_nil]
  | cons x xs ih =>
      have ⟨hx, hxs⟩ := List.forall_mem_cons.mp ha
      by_cases hname : x.name = anchor
      · subst hname
        have hpair : (p.pair m x).filter q = p.pair m x := by
          cases p <;> simp [Policy.pair, hm, hx rfl]
        rw [splice_cons_self, List.filter_append, hpair, List.filter_cons_of_pos (hx rfl),
          splice_cons_self]
      · rw [splice_cons_of_ne p hname, List.filter_cons, List.filter_cons, ih hxs]
        split
        · rw [splice_cons_of_ne p hname]
        · rfl

end

/-! ## Sources that are up to date -/

/-- Whether a source is settled after the given ones were: it has no generated name, or it has the
one made from the name of a settled source. -/
def upToDate (generated done : List Source) (x : Source) : Bool :=
  x.name ∉ Source.namesOf generated ∨ x.name ∈ done.map (migratedName ·.name)

section

variable {generated done : List Source} {s x : Source}

/-- A source of a generated name is up to date if it is the name made for a source that is done. -/
theorem upToDate_iff : upToDate generated done x = true ↔
    x.name ∈ Source.namesOf generated → x.name ∈ done.map (migratedName ·.name) := by
  rw [upToDate, decide_eq_true_eq, imp_iff_not_or]

/-- One more source that is done brings the one name up to date. -/
theorem upToDate_append_iff : upToDate generated (done ++ [s]) x = true ↔
    upToDate generated done x = true ∨ x.name = migratedName s.name := by
  rw [upToDate_iff, upToDate_iff, List.map_append, List.mem_append, List.map_singleton,
    List.mem_singleton]
  tauto

/-- Without the source of the name that is made from a source, the others are as up to date as they
were. -/
theorem filter_upToDate_without (xs : List Source) :
    (Source.without (migratedName s.name) xs).filter (upToDate generated (done ++ [s])) =
      Source.without (migratedName s.name) (xs.filter (upToDate generated done)) := by
  rw [Source.without, Source.without, List.filter_filter, List.filter_filter]
  refine List.filter_congr fun x _ => ?_
  rw [Bool.eq_iff_iff, Bool.and_eq_true, Bool.and_eq_true, upToDate_append_iff, decide_eq_true_eq]
  tauto

/-- What settling a source makes of it: the source, with the made one next to it if there is one. -/
def placed (p : Policy) (id : SourceId) (s : Source) (r : SourceReport) : List Source :=
  if r.matched = [] then [s] else p.pair (madeSource id r) s

/-- **Settling a source moves it from those to settle to those that are up to date**, with what is
made from it, and changes nothing else among these. -/
theorem filter_settled (p : Policy) (id : SourceId) {r : SourceReport}
    {xs front ss : List Source} (hr : r.source = s.name)
    (hxs : xs.filter (upToDate generated done) = front ++ s :: ss)
    (hs : s.name ∉ Source.namesOf front) (hg : s.name ∉ Source.namesOf generated)
    (hnew : migratedName s.name ∈ Source.namesOf generated ∨ r.matched ≠ [] →
      migratedName s.name ∉ Source.namesOf (front ++ s :: ss)) :
    (settled p generated id s r xs).filter (upToDate generated (done ++ [s])) =
      front ++ (placed p id s r ++ ss) := by
  have hwithout (h : migratedName s.name ∉ Source.namesOf (front ++ s :: ss)) :
      (Source.without (migratedName s.name) xs).filter (upToDate generated (done ++ [s])) =
        front ++ s :: ss := by
    rw [filter_upToDate_without, hxs, Source.without_eq_self h]
  by_cases hm : r.matched = []
  · rw [settled, if_pos hm, placed, if_pos hm]
    by_cases hstale : migratedName s.name ∈ Source.namesOf generated
    · rw [if_pos hstale]
      exact hwithout (hnew (.inl hstale))
    · have hsame : xs.filter (upToDate generated (done ++ [s])) =
          xs.filter (upToDate generated done) := by
        refine List.filter_congr fun x _ => ?_
        rw [Bool.eq_iff_iff, upToDate_append_iff, or_iff_left_iff_imp]
        intro hx
        rw [upToDate_iff, hx]
        exact fun h => absurd h hstale
      rw [if_neg hstale, hsame, hxs]
      rfl
  · have hname : (madeSource id r).name = migratedName s.name := congrArg migratedName hr
    have hmade : upToDate generated (done ++ [s]) (madeSource id r) = true :=
      upToDate_append_iff.mpr (.inr hname)
    have hanchor : ∀ x ∈ Source.without (migratedName s.name) xs, x.name = s.name →
        upToDate generated (done ++ [s]) x = true := by
      intro x _ hx
      rw [upToDate_iff, hx]
      exact fun h => absurd h hg
    rw [settled, if_neg hm, placed, if_neg hm, filter_splice_of_pos p hmade hanchor,
      hwithout (hnew (.inr hm)), splice_append p hs]

end

/-! ## The layout of a settled chain -/

/-- The user sources have different names, which are neither those of generated sources nor of
made ones. -/
structure Separate (generated users : List Source) (rs : List SourceReport) : Prop where
  nodup : (Source.namesOf users).Nodup
  old : ∀ s ∈ users, s.name ∉ Source.namesOf generated
  new : ∀ s ∈ users, s.name ∉ madeNames rs

section

variable {p : Policy} {generated done ss : List Source} {ds rs : List SourceReport}

/-- A source with a matched finding gets a made source. -/
theorem mem_madeNames {r : SourceReport} (h : r ∈ rs) (hm : r.matched ≠ []) :
    migratedName r.source ∈ madeNames rs :=
  List.mem_filterMap.mpr ⟨r, h, if_neg hm⟩

/-- Every made name is that of a source that was reported on. -/
theorem exists_of_mem_madeNames {name : String} (h : name ∈ madeNames rs) :
    ∃ r ∈ rs, migratedName r.source = name := by
  rw [madeNames, List.mem_filterMap] at h
  obtain ⟨r, hr, hname⟩ := h
  by_cases hm : r.matched = []
  · rw [if_pos hm] at hname
    contradiction
  · rw [if_neg hm] at hname
    exact ⟨r, hr, Option.some.inj hname⟩

namespace Separate

variable {s : Source} {r : SourceReport}
  (h : Separate generated (done ++ s :: ss) (ds ++ r :: rs))
include h

theorem notMem_done : s.name ∉ Source.namesOf done := by
  have := h.nodup
  rw [Source.namesOf, List.map_append, List.nodup_append'] at this
  exact fun hs => this.2.2 hs List.mem_cons_self

/-- What is made from a source in its turn has no name of a source that is up to date, or that is
still to be settled. -/
theorem notMem_front {front : List Source} (hr : r.source = s.name)
    (hfront : Layout p done ds front)
    (hnew : migratedName s.name ∈ Source.namesOf generated ∨ r.matched ≠ []) :
    migratedName s.name ∉ Source.namesOf (front ++ s :: ss) := by
  have huser : migratedName s.name ∉ Source.namesOf (done ++ s :: ss) := by
    rw [Source.namesOf, List.mem_map]
    rintro ⟨u, hu, hname⟩
    cases hnew with
    | inl hg => exact h.old u hu (hname ▸ hg)
    | inr hm =>
        refine h.new u hu ?_
        rw [hname, ← hr]
        exact mem_madeNames (List.mem_append_right _ List.mem_cons_self) hm
  rw [Source.namesOf, List.map_append, List.mem_append] at huser ⊢
  rw [not_or] at huser ⊢
  refine ⟨fun hin => ?_, huser.2⟩
  cases hfront.mem_namesOf hin with
  | inl hdone => exact huser.1 hdone
  | inr hmade =>
      obtain ⟨r', hr', hname⟩ := exists_of_mem_madeNames hmade
      have : s.name ∈ ds.map (·.source) :=
        List.mem_map.mpr ⟨r', hr', migratedName_injective hname⟩
      rw [hfront.sources_eq] at this
      exact h.notMem_done this

/-- The source to be settled next is not among those that are up to date. -/
theorem notMem_upToDate {front : List Source} (hfront : Layout p done ds front) :
    s.name ∉ Source.namesOf front := by
  intro hin
  cases hfront.mem_namesOf hin with
  | inl hdone => exact h.notMem_done hdone
  | inr hmade =>
      refine h.new s (List.mem_append_right _ List.mem_cons_self) ?_
      rw [madeNames, List.filterMap_append, List.mem_append]
      exact .inl hmade

end Separate

/-- A source that was placed is laid out as its report asks for. -/
theorem layout_placed {s : Source} {r : SourceReport} (hr : r.source = s.name) (id : SourceId) :
    Layout p [s] [r] (placed p id s r) := by
  by_cases hm : r.matched = []
  · rw [placed, if_pos hm]
    exact .alone hr hm .nil
  · rw [placed, if_neg hm, ← List.append_nil (p.pair _ _)]
    exact .accompanied id hr hm .nil

/-- **When the sources are settled, those that are up to date are laid out.**  The invariant: the
settled sources are laid out in front of those to settle. -/
theorem layout_of_settles {xs zs front : List Source} (hs : Settles p generated ss rs xs zs)
    (hfront : Layout p done ds front) (hxs : xs.filter (upToDate generated done) = front ++ ss)
    (hsep : Separate generated (done ++ ss) (ds ++ rs)) :
    Layout p (done ++ ss) (ds ++ rs) (zs.filter (upToDate generated (done ++ ss))) := by
  induction hs generalizing done ds front with
  | done xs =>
      rw [List.append_nil] at hxs
      rw [List.append_nil, List.append_nil, hxs]
      exact hfront
  | @step s ss r rs xs zs id hr rest ih =>
      have hold : s.name ∉ Source.namesOf generated :=
        hsep.old s (List.mem_append_right _ List.mem_cons_self)
      have hnext := filter_settled p id hr hxs (hsep.notMem_upToDate hfront) hold
        (hsep.notMem_front hr hfront)
      rw [← List.append_assoc] at hnext
      rw [List.append_cons done, List.append_cons ds] at hsep ⊢
      exact ih (hfront.append (layout_placed hr id)) hnext hsep

end

/-! ## Orphans -/

/-- **Taking out the orphans leaves the sources that have no name of an orphan.** -/
theorem withoutOrphans_eq_filter (sources : List Source) {gs xs : List Source} (h : Apart gs xs) :
    withoutOrphans sources xs gs =
      xs.filter fun x => !gs.any fun g => isOrphan sources g && g.name == x.name := by
  induction gs generalizing xs with
  | nil => simp [withoutOrphans]
  | cons g gs ih =>
      have hgs : Apart gs xs := fun s hs hm => h s hs (List.mem_cons_of_mem _ hm)
      rw [withoutOrphans]
      cases ho : isOrphan sources g with
      | false =>
          rw [Bool.false_and, if_neg Bool.false_ne_true, ih hgs]
          simp [ho]
      | true =>
          have hwithout : (if true && (xs.find? (·.name == g.name)).any isMigrated then
              Source.without g.name xs else xs) = Source.without g.name xs := by
            split
            · rfl
            · next hfind =>
              refine (Source.without_eq_self fun hin => hfind ?_).symm
              -- The first source of the name cannot be a user's.
              obtain ⟨x, hx, hname⟩ := List.mem_map.mp hin
              obtain ⟨y, hy⟩ := Option.isSome_iff_exists.mp
                (List.find?_isSome (p := (·.name == g.name)) |>.mpr ⟨x, hx, by simpa using hname⟩)
              have hyname : y.name = g.name := by simpa using List.find?_some hy
              rw [hy, Bool.true_and, Option.any_some]
              by_contra hu
              refine h y (mem_users.mpr ⟨List.mem_of_find?_eq_some hy, by simpa using hu⟩) ?_
              rw [hyname]
              exact List.mem_map.mpr ⟨g, List.mem_cons_self, rfl⟩
          have hapart : Apart gs (Source.without g.name xs) := by
            intro s hs
            rw [users_without] at hs
            exact hgs s (List.mem_filter.mp hs).1
          rw [hwithout, ih hapart, Source.without, List.filter_filter]
          refine List.filter_congr fun x _ => ?_
          have hname : decide (x.name ≠ g.name) = !(g.name == x.name) := by
            rw [Bool.beq_comm, Bool.beq_eq_decide_eq, decide_not]
          rw [List.any_cons, ho, Bool.true_and, Bool.not_or, Bool.and_comm, hname]

/-- What is not up to date in the end has the name of an orphan. -/
theorem upToDate_iff_not_orphan {generated sources : List Source}
    (hg : ∀ g ∈ generated, isMigrated g = true) (x : Source) :
    upToDate generated sources x =
      !generated.any fun g => isOrphan sources g && g.name == x.name := by
  have horphan {g : Source} (h : g ∈ generated) :
      isOrphan sources g = true ↔ g.name ∉ sources.map (migratedName ·.name) := by
    obtain ⟨origin, horigin, hname⟩ := isMigrated_iff.mp (hg g h)
    rw [isOrphan, horigin, hname]
    simp [migratedName, String.append_right_inj]
  rw [Bool.eq_iff_iff, upToDate_iff, Bool.not_eq_true', List.any_eq_false]
  constructor
  · intro h g hin horph
    rw [Bool.and_eq_true, horphan hin, beq_iff_eq] at horph
    rw [← horph.2] at h
    exact horph.1 (h (List.mem_map.mpr ⟨g, hin, rfl⟩))
  · intro h hin
    obtain ⟨g, hgin, hname⟩ := List.mem_map.mp hin
    have := h g hgin
    rw [Bool.and_eq_true, horphan hgin, beq_iff_eq] at this
    rw [← hname]
    by_contra hnot
    exact this ⟨hnot, hname⟩

/-! ## The layout after a migration -/

/-- In the beginning the user sources are up to date, and no others are. -/
theorem filter_upToDate_nil {xs : List Source} (h : (Source.namesOf xs).Nodup) :
    xs.filter (upToDate (xs.filter isMigrated) []) = users xs := by
  refine List.filter_congr fun x hx => ?_
  rw [Bool.eq_iff_iff, upToDate_iff, List.map_nil, Bool.not_eq_true']
  constructor
  · intro hfree
    by_contra hm
    exact List.not_mem_nil (hfree (List.mem_map.mpr
      ⟨x, List.mem_filter.mpr ⟨hx, by simpa using hm⟩, rfl⟩))
  · intro hm hin
    exact absurd hin (name_notMem_generated h (mem_users.mpr ⟨hx, hm⟩))

theorem separate_users (c : Chain) {rs : List SourceReport}
    (hnew : ∀ s ∈ users c.sources, s.name ∉ madeNames rs) :
    Separate (c.sources.filter isMigrated) (users c.sources) rs where
  nodup := c.nodup.sublist (List.filter_sublist.map _)
  old := fun _ hs => name_notMem_generated c.nodup hs
  new := hnew

/-- A migration lays out the chain, if it makes no source of the name of a user source. -/
theorem layout_analyze {t : MetadataTable} (p : Policy) {c : Chain} {σ : Session}
    (hnew : ∀ s ∈ users c.sources, s.name ∉ madeNames (reports t c σ)) :
    ∃ c', (analyze t p c σ).1 = (c', .ok ⟨reports t c σ⟩) ∧
      Layout p (users c.sources) (reports t c σ) c'.sources ∧
      Session.SameMemory (inspectAll t (users c.sources) σ).2 (analyze t p c σ).2 := by
  obtain ⟨c', zs, hrun, hsettles, hsources, hmem⟩ := analyze_spec t p c σ
  have hapart : Apart (c.sources.filter isMigrated) c.sources := fun s hs =>
    name_notMem_generated c.nodup hs
  have hlayout := layout_of_settles hsettles .nil (filter_upToDate_nil c.nodup)
    (separate_users c hnew)
  have horphans : zs.filter (upToDate (c.sources.filter isMigrated) (users c.sources)) =
      c'.sources := by
    rw [hsources, withoutOrphans_eq_filter _ (users_settles hsettles hapart).2]
    refine List.filter_congr fun x _ => upToDate_iff_not_orphan (fun g hg => ?_) x
    exact (List.mem_filter.mp hg).2
  rw [List.nil_append, List.nil_append, horphans] at hlayout
  exact ⟨c', hrun, hlayout, hmem⟩

/-- **A migration succeeds and lays out the chain, and a second one changes nothing.**  The layout
needs that no user source has the name that is made from the name of a source with matches; the
second run finds the same if the mappers that share a cache fail for the same names. -/
theorem analyze_layout (t : MetadataTable) (p : Policy) (c : Chain) (σ : Session)
    (hnew : ∀ s ∈ users c.sources, s.name ∉ madeNames (reports t c σ)) :
    ∃ c₁ σ₁, analyze t p c σ = ((c₁, .ok ⟨reports t c σ⟩), σ₁) ∧
      Layout p (users c.sources) (reports t c σ) c₁.sources ∧
      (CachesAgree t (users c.sources) →
        ∃ c₂ σ₂, analyze t p c₁ σ₁ = ((c₂, .ok ⟨reports t c σ⟩), σ₂) ∧
          c₂.names = c₁.names ∧
          c₂.sources.map Source.unnumbered = c₁.sources.map Source.unnumbered) := by
  obtain ⟨c₁, hrun₁, hlayout₁, hmem₁⟩ := layout_analyze p hnew
  refine ⟨c₁, _, Prod.ext hrun₁ rfl, hlayout₁, fun hagree => ?_⟩
  have husers : users c₁.sources = users c.sources :=
    hlayout₁.users_eq fun s hs => (mem_users.mp hs).2
  have hreports : reports t c₁ (analyze t p c σ).2 = reports t c σ := by
    rw [reports, husers]
    exact inspectAll_again hagree hmem₁
  have hnew₂ : ∀ s ∈ users c₁.sources,
      s.name ∉ madeNames (reports t c₁ (analyze t p c σ).2) := by
    rwa [husers, hreports]
  obtain ⟨c₂, hrun₂, hlayout₂, _⟩ := layout_analyze p hnew₂
  rw [husers, hreports] at hlayout₂
  rw [hreports] at hrun₂
  have hsame := hlayout₂.unnumbered_eq hlayout₁
  refine ⟨c₂, _, Prod.ext hrun₂ rfl, ?_, hsame⟩
  rw [Chain.names, ← Layout.namesOf_unnumbered, hsame, Layout.namesOf_unnumbered]
  rfl

/-- One source with a match, and what is left of an earlier migration of a source that is gone. -/
def renamedChain : Chain :=
  ⟨[madeSource 0 ⟨"gone", [], []⟩, textSource 1 "file" [("old", "x")]], by decide⟩

/-- What was left goes, a source is made for the match, and a second run changes numbers only. -/
theorem analyze_layout_renamedChain :
    (∀ s ∈ users renamedChain.sources,
      s.name ∉ madeNames (reports renamedTable renamedChain .start)) ∧
    ∃ c₁ σ₁, analyze renamedTable .before renamedChain .start =
        ((c₁, .ok ⟨reports renamedTable renamedChain .start⟩), σ₁) ∧
      Layout .before (users renamedChain.sources) (reports renamedTable renamedChain .start)
        c₁.sources ∧
      ∃ c₂ σ₂, analyze renamedTable .before c₁ σ₁ =
          ((c₂, .ok ⟨reports renamedTable renamedChain .start⟩), σ₂) ∧
        c₂.names = c₁.names ∧
        c₂.sources.map Source.unnumbered = c₁.sources.map Source.unnumbered := by
  have hnew : ∀ s ∈ users renamedChain.sources,
      s.name ∉ madeNames (reports renamedTable renamedChain .start) := by
    decide +kernel
  have hagree : CachesAgree renamedTable (users renamedChain.sources) := by
    intro s hs s' _ id hid
    have : s = textSource 1 "file" [("old", "x")] := List.mem_singleton.mp hs
    subst this
    exact nomatch hid
  obtain ⟨c₁, σ₁, hrun, hlayout, hagain⟩ :=
    analyze_layout renamedTable .before renamedChain .start hnew
  exact ⟨hnew, c₁, σ₁, hrun, hlayout, hagain hagree⟩

/-! ## A second migration that finds more -/

/-- A source with a text under `k`, seen through a table in which `k` is the key of the one name that it
stands for; all such tables share a cache. -/
def sharingSource (id : SourceId) (name meant : String) : Source where
  id := id
  name := name
  capability := .enumerable
  provider := (Entries.ofList [("k", .text name)]).provider name
  mapper := ⟨Mapper.ofTables "tables" [(meant, ["k"])] [("k", meant)], some (.shared "tables")⟩
  derivedFrom := none

/-- The first mapper has no key for `old`; the second one has. -/
def sharingChain : Chain :=
  ⟨[sharingSource 0 "first" "other", sharingSource 1 "second" "old"], by decide⟩

/-- The list that the second mapper puts into the cache in a first run answers for the first mapper in
a second run, so that a source is made which was not made before. -/
theorem second_migration_finds_more :
    (∀ s ∈ users sharingChain.sources,
      s.name ∉ madeNames (reports renamedTable sharingChain .start)) ∧
    let first := analyze renamedTable .before sharingChain .start
    let second := analyze renamedTable .before first.1.1 first.2
    first.1.1.names = ["first", "migrate-second", "second"] ∧
      second.1.1.names = ["migrate-first", "first", "migrate-second", "second"] := by
  decide +kernel

end Migration

end LayeredConfig
