import LayeredConfig.Proofs.MadeSources
import LayeredConfig.Proofs.Priming

/-!
# LayeredConfig.Proofs.Conservation

What a migration leaves as it was: the answers for names that are no replacements.

1. A made source has nothing for such a name, so after a migration the chain answers as its user sources
   do (`Migration.resolve_users`).
2. The user sources answer as they did before, since the inspection has only primed the caches
   (`LayeredConfig.Proofs.Priming`).
3. Without agreement between the mappers that share a cache the second point fails
   (`Migration.inspection_uncovers_value`), and so it does with a mapper that tells spellings of a name
   apart (`Migration.inspection_respells`).
-/

namespace LayeredConfig.Migration

/-! ## Leaving out the made sources -/

/-- In both sessions the caches are the same and the user sources know the same indexes, and in the first
one the made sources know their own. -/
structure SameForUsers (c : Chain) (σ τ : Session) : Prop where
  entry : ∀ id key, σ.entry id key = τ.entry id key
  known : ∀ s ∈ c.sources, isMigrated s = false → s.known σ = s.known τ
  made : ∀ s ∈ c.sources, isMigrated s = true → σ.Faithful s

namespace SameForUsers

variable {c : Chain} {σ τ : Session} {s : Source}

/-- User sources match in such sessions. -/
theorem matches_get (hids : c.Distinct) (hs : s ∈ c.sources) (huser : isMigrated s = false)
    (n : Name) : Run.Matches (SameForUsers c) (s.get n) (s.get n) := by
  have hindex {x : Source} (hx : x ∈ c.sources) : x.id = s.id → x.newIndex = s.newIndex :=
    fun hid => by rw [hids.eq_of_id_eq hx hs hid]
  intro σ τ h
  refine ⟨?_, fun id key => ?_, fun x hx hxuser => ?_, fun x hx hxmade => ?_⟩
  · simp only [Source.get_apply, CachedMapper.listed_eq, CachedMapper.candidates_fst, h.entry,
      h.known s hs huser]
  · rw [Source.entry_get, Source.entry_get, CachedMapper.entry_candidates,
      CachedMapper.entry_candidates, h.entry]
  · rw [Source.known_get (hindex hx), Source.known_get (hindex hx), h.known x hx hxuser]
  · exact Source.faithful_get (hindex hx) n (h.made x hx hxmade)

/-- Asking a source without a cache for nothing is as good as not asking it. -/
theorem get_left (h : SameForUsers c σ τ) (hids : c.Distinct) (hs : s ∈ c.sources)
    (hcache : s.mapper.cache = none) (n : Name) : SameForUsers c (s.get n σ).2 τ where
  entry := fun id key => by
    rw [Source.entry_get, CachedMapper.candidates_uncached hcache, h.entry]
  known := fun x hx hxuser => by
    rw [Source.known_get fun hid => by rw [hids.eq_of_id_eq hx hs hid], h.known x hx hxuser]
  made := fun x hx hxmade =>
    Source.faithful_get (fun hid => by rw [hids.eq_of_id_eq hx hs hid]) n (h.made x hx hxmade)

end SameForUsers

/-- **A chain with made sources answers as its user sources do**, for names that are no replacements. -/
theorem resolve_users {p : Policy} {us : List Source} {rs : List SourceReport} {c : Chain}
    {σ : Session} (hlayout : Layout p us rs c.sources) (hus : ∀ s ∈ us, isMigrated s = false)
    (hids : c.Distinct)
    (hmade : ∀ s ∈ c.sources, isMigrated s = true → σ.Faithful s) {n : Name}
    (hn : ∀ r ∈ rs, replaces r.matched n = false) :
    (c.resolve n σ).1 = (Chain.resolveIn n us σ).1 := by
  have hself : SameForUsers c σ σ := ⟨fun _ _ => rfl, fun _ _ _ => rfl, hmade⟩
  have hmatches : Run.Matches (SameForUsers c) (Chain.resolveIn n c.sources)
      (Chain.resolveIn n (users c.sources)) := by
    refine Chain.resolveIn_filter (fun _ _ _ _ h => ⟨rfl, h.entry, h.known, h.made⟩) ?_ ?_
    · intro s hs huser
      exact SameForUsers.matches_get hids hs (by simpa using huser) n
    · intro s hs hmig σ τ h
      have hmig : isMigrated s = true := by simpa using hmig
      obtain ⟨id, r, hr, -, rfl⟩ := hlayout.eq_made hus hs hmig
      refine ⟨?_, h.get_left hids hs rfl n⟩
      obtain ⟨found, hget, hsome, -⟩ := get_madeSource (h.made _ hs hmig) n
      rw [hn r hr] at hsome
      cases found with
      | none => exact hget
      | some p => exact absurd (hsome.mp rfl) Bool.false_ne_true
  have := (hmatches σ σ hself).1
  rwa [hlayout.users_eq hus] at this

/-! ## Before and after -/

/-- **A migration changes no answer but for replacements.**  After it, every name that no replacement of
a match agrees with is resolved as the user sources by themselves resolve it.  It is resolved as they
did before the migration, if those that share a cache under one dialect fail for the same inspected
names, and the mappers with caches go by the canonical texts of names. -/
theorem resolve_after_analyze (t : MetadataTable) (p : Policy) (c : Chain) (σ : Session)
    (htracks : σ.Tracks c) (hnew : ∀ s ∈ users c.sources, s.name ∉ madeNames (reports t c σ)) :
    ∃ c' τ, analyze t p c σ = ((c', .ok ⟨reports t c σ⟩), τ) ∧
      ∀ n : Name, (∀ r ∈ reports t c σ, replaces r.matched n = false) →
        (c'.resolve n τ).1 = (Chain.resolveIn n (users c.sources) τ).1 ∧
        (CachesAgree t (users c.sources) →
          (∀ s ∈ users c.sources, s.mapper.cache ≠ none → s.mapper.mapper.ReadsCanonical) →
          (c'.resolve n τ).1 = (Chain.resolveIn n (users c.sources) σ).1) := by
  obtain ⟨c', τ, hrun, hlayout, hnumbered, hmem⟩ := layout_numbered t p htracks hnew
  have hus : ∀ s ∈ users c.sources, isMigrated s = false := fun s hs => (mem_users.mp hs).2
  have hmade : ∀ s ∈ c'.sources, isMigrated s = true → τ.Faithful s := by
    intro s hs hmig
    obtain ⟨id, r, hr, hm, rfl⟩ := hlayout.eq_made hus hs hmig
    exact hnumbered.faithful_madeSource hr hm hs
  refine ⟨c', τ, hrun, fun n hn => ?_⟩
  have hafter := resolve_users hlayout hus hnumbered.tracks.distinct hmade hn
  refine ⟨hafter, fun hagree hreads => ?_⟩
  have hids : ∀ x ∈ users c.sources, ∀ y ∈ users c.sources,
      x.id = y.id → x.newIndex = y.newIndex := by
    intro x hx y hy hid
    rw [htracks.distinct.eq_of_id_eq (mem_users.mp hx).1 (mem_users.mp hy).1 hid]
  have hprimed := primed_inspectAll hagree hreads hids n hmem
  rw [hafter, hprimed.resolveIn_eq hids]

/-- A session in which two sources were made. -/
def secondSession : Session := { Session.start with next := 2 }

theorem tracks_secondSession {c : Chain} (hids : c.Distinct) (hsmall : ∀ s ∈ c.sources, s.id < 2) :
    secondSession.Tracks c :=
  ⟨hids, hsmall, fun _ _ => rfl⟩

/-- The value of `old` stays what it was although its replacement now has one. -/
theorem resolve_after_analyze_renamedChain :
    secondSession.Tracks renamedChain ∧
    (∀ s ∈ users renamedChain.sources,
      s.name ∉ madeNames (reports renamedTable renamedChain secondSession)) ∧
    CachesAgree renamedTable (users renamedChain.sources) ∧
    ∃ c' τ, analyze renamedTable .after renamedChain secondSession =
        ((c', .ok ⟨reports renamedTable renamedChain secondSession⟩), τ) ∧
      ∀ n : Name, (∀ r ∈ reports renamedTable renamedChain secondSession,
          replaces r.matched n = false) →
        (c'.resolve n τ).1 =
          (Chain.resolveIn n (users renamedChain.sources) secondSession).1 := by
  have htracks : secondSession.Tracks renamedChain :=
    tracks_secondSession (by decide) (by decide)
  have hnew : ∀ s ∈ users renamedChain.sources,
      s.name ∉ madeNames (reports renamedTable renamedChain secondSession) := by
    decide +kernel
  have hcache : ∀ s ∈ users renamedChain.sources, s.mapper.cache = none := by
    intro s hs
    have : s = textSource 1 "file" [("old", "x")] := List.mem_singleton.mp hs
    subst this
    rfl
  have hagree : CachesAgree renamedTable (users renamedChain.sources) := by
    intro s hs s' _ id hid
    rw [hcache s hs] at hid
    exact nomatch hid
  obtain ⟨c', τ, hrun, hresolve⟩ :=
    resolve_after_analyze renamedTable .after renamedChain secondSession htracks hnew
  refine ⟨htracks, hnew, hagree, c', τ, hrun, fun n hn => ?_⟩
  exact (hresolve n hn).2 hagree fun s hs hkept => absurd (hcache s hs) hkept

/-- The inspection puts the list of the second mapper into the cache that the first one shares.  So the
first source, which had nothing for `old`, has a value for it after the migration, and this one wins. -/
theorem inspection_uncovers_value :
    let old : Name :=
      ⟨[.literal ⟨"old", by simp [isReserved], by simp [isSeparator]⟩], List.cons_ne_nil _ _⟩
    let out := analyze renamedTable .before sharingChain secondSession
    secondSession.Tracks sharingChain ∧
      (∀ s ∈ users sharingChain.sources,
        s.name ∉ madeNames (reports renamedTable sharingChain secondSession)) ∧
      (∀ r ∈ reports renamedTable sharingChain secondSession, replaces r.matched old = false) ∧
      (Chain.resolveIn old (users sharingChain.sources) secondSession).1.map (·.origin.source) =
        some "second" ∧
      (out.1.1.resolve old out.2).1.map (·.origin.source) = some "first" := by
  intro old out
  exact ⟨tracks_secondSession (by decide) (by decide), by decide +kernel, by decide +kernel,
    by decide +kernel, by decide +kernel⟩

/-- The name `old`. -/
def oldName : Name :=
  ⟨[.literal ⟨"old", by simp [isReserved], by simp [isSeparator]⟩], List.cons_ne_nil _ _⟩

/-- A mapper with the key `k` for `old`, and without keys for other spellings of it. -/
def spellingMapper : Mapper where
  dialect := .custom "spelling"
  candidates n :=
    .ok <| match n.elements with
      | [.literal l] => if l.text = "old" then [.plain "k" n] else []
      | _ => []
  nameOf key := if key = "k" then .ok oldName else .error (.unmappableKey key .notInTable)

/-- A source that cannot list its keys, and so finds a spelling by its own candidates only. -/
def spellingChain : Chain :=
  ⟨[{ sharingSource 0 "first" "old" with
      capability := .lookupOnly
      mapper := ⟨spellingMapper, some (.shared "spelling")⟩ }], by decide⟩

/-- A mapper that goes by spelling has no key for `OLD`, but after the inspection it has the one that
the cache keeps for `old`. -/
theorem inspection_respells :
    let capital : Name :=
      ⟨[.literal ⟨"OLD", by simp [isReserved], by simp [isSeparator]⟩], List.cons_ne_nil _ _⟩
    let out := analyze renamedTable .before spellingChain secondSession
    secondSession.Tracks spellingChain ∧
      (∀ s ∈ users spellingChain.sources,
        s.name ∉ madeNames (reports renamedTable spellingChain secondSession)) ∧
      CachesAgree renamedTable (users spellingChain.sources) ∧
      (∀ r ∈ reports renamedTable spellingChain secondSession, replaces r.matched capital = false) ∧
      (Chain.resolveIn capital (users spellingChain.sources) secondSession).1 = none ∧
      (out.1.1.resolve capital out.2).1.map (·.origin.source) = some "first" := by
  intro capital out
  refine ⟨tracks_secondSession (by decide) (by decide), by decide +kernel, ?_, by decide +kernel,
    ?_, by decide +kernel⟩
  · intro s hs _ _ _ _ _ d _ _ _ _ hfails
    cases List.mem_singleton.mp hs
    obtain ⟨e, he⟩ := hfails
    cases he
  · rw [← Option.isNone_iff_eq_none]
    decide +kernel

end LayeredConfig.Migration
