import LayeredConfig.Proofs.CacheKeys
import LayeredConfig.Proofs.Inspection

/-!
# LayeredConfig.Proofs.Priming

What an inspection leaves in the caches, and what this does to later answers.

1. An inspection puts a list under a key if none is there: that of the first mapper that keeps lists
   there and is asked for a name of the key without failing (`Migration.entry_inspectAll`).
2. So it *primes* the caches for a name: it puts in what the first source to be asked for the name would
   put in (`Migration.primed_inspectAll`).  This needs that mappers which share a cache fail for the
   same names, and that a mapper goes by the canonical texts of names.
3. With primed caches, sources answer as they would have without (`Session.Primed.resolveIn_eq`).
-/

namespace LayeredConfig

/-! ## What is put into caches -/

namespace CachedMapper

/-- Whether the mapper keeps lists of the dialect in the cache. -/
def keepsIn (m : CachedMapper) (id : CacheId) (d : Dialect) : Bool :=
  m.cache = some id && m.mapper.dialect = d

/-- A mapper keeps lists in its own cache, for its own dialect. -/
theorem keepsIn_iff {m : CachedMapper} {id : CacheId} {d : Dialect} :
    m.keepsIn id d = true ↔ m.cache = some id ∧ m.mapper.dialect = d := by
  rw [keepsIn, Bool.and_eq_true, decide_eq_true_eq, decide_eq_true_eq]

/-- The list that the mapper puts under a key when it is asked for names in order: that of the first
name of the key for which it does not fail. -/
def made (m : CachedMapper) (id : CacheId) (key : Dialect × String) (ns : List Name) :
    Option (List Candidate) :=
  if m.keepsIn id key.1 then
    ns.findSome? fun n => if n.canonical = key.2 then (m.mapper.candidates n).toOption else none
  else none

/-- What is made for the first name stays. -/
theorem made_cons (m : CachedMapper) (id : CacheId) (key : Dialect × String) (n : Name)
    (ns : List Name) : m.made id key (n :: ns) = (m.made id key [n]).or (m.made id key ns) := by
  rw [made, made, made]
  split
  · rw [List.findSome?_cons, List.findSome?_singleton]
    cases (if n.canonical = key.2 then (m.mapper.candidates n).toOption else none) <;> rfl
  · rfl

/-- A mapper makes nothing in caches that it does not keep lists in. -/
theorem made_of_not_keepsIn {m : CachedMapper} {id : CacheId} {key : Dialect × String}
    (h : m.keepsIn id key.1 = false) (ns : List Name) : m.made id key ns = none := by
  rw [made, h]
  rfl

/-- For one name a mapper makes the list of its candidates, unless it fails. -/
theorem made_singleton {m : CachedMapper} {id : CacheId} {d : Dialect} (h : m.keepsIn id d = true)
    (n : Name) : m.made id (d, n.canonical) [n] = (m.mapper.candidates n).toOption := by
  rw [made, if_pos h, List.findSome?_singleton, if_pos rfl]

end CachedMapper

/-- **A lookup adds what the mapper makes.** -/
theorem Source.entry_get_eq_or (s : Source) (n : Name) (σ : Session) (id : CacheId)
    (key : Dialect × String) :
    (s.get n σ).2.entry id key = (σ.entry id key).or (s.mapper.made id key [n]) := by
  rw [entry_get, CachedMapper.entry_candidates, CachedMapper.made, List.findSome?_singleton]
  by_cases hkeeps : s.mapper.keepsIn id key.1 = true
  · have ⟨hcache, hdialect⟩ : s.mapper.cache = some id ∧ s.mapper.mapper.dialect = key.1 := by
      simpa [CachedMapper.keepsIn] using hkeeps
    rw [if_pos hkeeps]
    by_cases htext : n.canonical = key.2
    · have hkey : key = s.mapper.cacheKey n := by
        rw [CachedMapper.cacheKey, hdialect, htext]
      rw [if_pos ⟨hcache, hkey⟩, if_pos htext]
    · rw [if_neg htext, Option.or_none, if_neg]
      rintro ⟨-, rfl⟩
      exact htext rfl
  · rw [if_neg hkeeps, Option.or_none, if_neg]
    rintro ⟨hcache, rfl⟩
    exact hkeeps (CachedMapper.keepsIn_iff.mpr ⟨hcache, rfl⟩)

namespace Migration

variable (t : MetadataTable) (id : CacheId) (key : Dialect × String)

/-- After the questions to a source, a cache has what it had, and else what was made for the names. -/
theorem entry_inspectFor (s : Source) (ds : List (Name × Metadata × Deprecation)) (σ : Session) :
    (inspectFor t s ds σ).2.entry id key =
      (σ.entry id key).or (s.mapper.made id key (ds.map (·.1))) := by
  induction ds generalizing σ with
  | nil =>
      have hnone : s.mapper.made id key [] = none := by
        rw [CachedMapper.made]
        split <;> rfl
      rw [List.map_nil, hnone, Option.or_none]
      rfl
  | cons d ds ih =>
      obtain ⟨n, m, d⟩ := d
      have hget := s.entry_get_eq_or n σ id key
      have hnote (e : Event) :
          Session.entry (Run.note e (s.get n σ).2).2 id key = (s.get n σ).2.entry id key := rfl
      rw [List.map_cons, CachedMapper.made_cons, ← Option.or_assoc, ← hget, inspectFor,
        Run.bind_apply]
      cases (s.get n σ).1 with
      | error e =>
          simp only [Run.bind_apply]
          rw [ih, hnote]
      | ok found =>
          cases found with
          | none => exact ih _
          | some p =>
              simp only [Run.bind_apply, Run.pure_apply]
              rw [ih, hnote]

/-- **An inspection adds what the first mapper makes that makes something.** -/
theorem entry_inspectAll (ss : List Source) (σ : Session) :
    (inspectAll t ss σ).2.entry id key =
      (σ.entry id key).or
        (ss.findSome? fun s => s.mapper.made id key ((asked t).map (·.1))) := by
  induction ss generalizing σ with
  | nil => rw [List.findSome?_nil, Option.or_none]; rfl
  | cons s ss ih =>
      have hinspect : (inspect t s σ).2.entry id key =
          (σ.entry id key).or (s.mapper.made id key ((asked t).map (·.1))) :=
        entry_inspectFor t id key s (asked t) σ
      have hfirst : (s :: ss).findSome? (fun s => s.mapper.made id key ((asked t).map (·.1))) =
          (s.mapper.made id key ((asked t).map (·.1))).or
            (ss.findSome? fun s => s.mapper.made id key ((asked t).map (·.1))) := by
        rw [List.findSome?_cons]
        cases s.mapper.made id key ((asked t).map (·.1)) <;> rfl
      rw [hfirst, ← Option.or_assoc, ← hinspect, ← ih]
      rfl

end Migration

/-! ## Primed caches -/

/-- What two caches have under a key for a name, before and after they were primed: nothing, lists that
are alike, or a list only in the second, which is what the first of the sources that keep lists there
gives. -/
inductive PrimedEntry (n : Name) (ss : List Source) (id : CacheId) (d : Dialect) :
    Option (List Candidate) → Option (List Candidate) → Prop where
  | absent : PrimedEntry n ss id d none none
  | shared {cs cs' : List Candidate} (h : CandidatesAlike cs cs') :
      PrimedEntry n ss id d (some cs) (some cs')
  | primed {cs' : List Candidate}
      (h : ∀ s, ss.find? (·.mapper.keepsIn id d) = some s →
        ∃ cs, s.mapper.mapper.candidates n = .ok cs ∧ CandidatesAlike cs cs') :
      PrimedEntry n ss id d none (some cs')

/-- The second session is the first one with the caches primed for a name that the sources are going
to be asked for. -/
structure Session.Primed (n : Name) (ss : List Source) (σ τ : Session) : Prop where
  known : ∀ s ∈ ss, s.known σ = s.known τ
  entry : ∀ id d, PrimedEntry n ss id d (σ.entry id (d, n.canonical)) (τ.entry id (d, n.canonical))

namespace Session.Primed

variable {n : Name} {s : Source} {ss : List Source} {σ τ : Session}

/-- The source that is asked next lists candidates that are alike. -/
theorem listed_alike (h : Primed n (s :: ss) σ τ) :
    CandidatesAlike (s.mapper.listed n σ) (s.mapper.listed n τ) := by
  rw [CachedMapper.listed_eq, CachedMapper.listed_eq, CachedMapper.candidates_fst,
    CachedMapper.candidates_fst]
  cases hid : s.mapper.cache with
  | none => exact candidatesAlike_refl _
  | some id =>
      have hkeeps : s.mapper.keepsIn id s.mapper.mapper.dialect = true :=
        CachedMapper.keepsIn_iff.mpr ⟨hid, rfl⟩
      have hentry := h.entry id s.mapper.mapper.dialect
      rw [Option.bind_some, Option.bind_some, CachedMapper.cacheKey]
      generalize σ.entry id (s.mapper.mapper.dialect, n.canonical) = old at hentry
      generalize τ.entry id (s.mapper.mapper.dialect, n.canonical) = new at hentry
      cases hentry with
      | absent => exact candidatesAlike_refl _
      | shared halike => exact halike
      | primed hfirst =>
          obtain ⟨cs, hcs, halike⟩ := hfirst s (List.find?_cons_of_pos hkeeps)
          rw [hcs]
          exact halike

/-- Afterwards the caches are primed for the rest. -/
theorem entry_get (h : Primed n (s :: ss) σ τ) (id : CacheId) (d : Dialect) :
    PrimedEntry n ss id d ((s.get n σ).2.entry id (d, n.canonical))
      ((s.get n τ).2.entry id (d, n.canonical)) := by
  have hentry := h.entry id d
  rw [s.entry_get_eq_or, s.entry_get_eq_or]
  generalize σ.entry id (d, n.canonical) = old at hentry
  generalize τ.entry id (d, n.canonical) = new at hentry
  cases hkeeps : s.mapper.keepsIn id d with
  | true =>
      rw [CachedMapper.made_singleton hkeeps]
      cases hentry with
      | absent =>
          rw [Option.none_or]
          cases (s.mapper.mapper.candidates n).toOption with
          | none => exact .absent
          | some cs => exact .shared (candidatesAlike_refl cs)
      | shared halike => exact .shared halike
      | primed hfirst =>
          obtain ⟨cs, hcs, halike⟩ := hfirst s (List.find?_cons_of_pos hkeeps)
          rw [hcs]
          exact .shared halike
  | false =>
      rw [CachedMapper.made_of_not_keepsIn hkeeps, Option.or_none, Option.or_none]
      cases hentry with
      | absent => exact .absent
      | shared halike => exact .shared halike
      | primed hfirst =>
          refine .primed fun s' hs' => hfirst s' ?_
          rw [List.find?_cons_of_neg (by simp [hkeeps]), hs']

/-- A question to the first source leaves the sessions primed for the others. -/
theorem get (h : Primed n (s :: ss) σ τ) (hids : ∀ x ∈ ss, x.id = s.id → x.newIndex = s.newIndex) :
    (s.get n σ).1 = (s.get n τ).1 ∧ Primed n ss (s.get n σ).2 (s.get n τ).2 := by
  refine ⟨?_, fun x hx => ?_, h.entry_get⟩
  · rw [Source.get_apply, Source.get_apply, h.known s List.mem_cons_self,
      Source.answer_congr _ h.listed_alike]
  · rw [Source.known_get (hids x hx), Source.known_get (hids x hx),
      h.known x (List.mem_cons_of_mem _ hx)]

/-- **Sources answer as they would if the caches had not been primed.** -/
theorem resolveIn_eq (h : Primed n ss σ τ)
    (hids : ∀ x ∈ ss, ∀ y ∈ ss, x.id = y.id → x.newIndex = y.newIndex) :
    (Chain.resolveIn n ss σ).1 = (Chain.resolveIn n ss τ).1 := by
  induction ss generalizing σ τ with
  | nil => rfl
  | cons s ss ih =>
      have ⟨hanswer, hafter⟩ := h.get fun x hx =>
        hids x (List.mem_cons_of_mem _ hx) s List.mem_cons_self
      have hrest := ih hafter fun x hx y hy =>
        hids x (List.mem_cons_of_mem _ hx) y (List.mem_cons_of_mem _ hy)
      rw [Chain.resolveIn_cons, Chain.resolveIn_cons, Source.contributes, Source.contributes,
        hanswer, hrest]

end Session.Primed

/-! ## An inspection primes the caches -/

namespace Migration

variable {t : MetadataTable} {n : Name} {s : Source} {ss : List Source} {id : CacheId} {d : Dialect}
  {cs : List Candidate}

/-- What a mapper makes when it is inspected is what it gives for some name of the key. -/
theorem exists_of_made (h : s.mapper.made id (d, n.canonical) ((asked t).map (·.1)) = some cs) :
    ∃ a ∈ asked t, a.1.canonical = n.canonical ∧ s.mapper.mapper.candidates a.1 = .ok cs := by
  rw [CachedMapper.made] at h
  split at h
  · obtain ⟨a, ha, hmade⟩ := List.exists_of_findSome?_eq_some h
    obtain ⟨asking, hasking, rfl⟩ := List.mem_map.mp ha
    split at hmade
    · next htext =>
      refine ⟨asking, hasking, htext, ?_⟩
      cases hc : s.mapper.mapper.candidates asking.1 with
      | ok cs' =>
          rw [hc] at hmade
          cases hmade
          rfl
      | error e =>
          rw [hc] at hmade
          contradiction
    · contradiction
  · contradiction

/-- A mapper makes something if it does not fail for a name of the key that it is asked for. -/
theorem made_ne_none (hkeeps : s.mapper.keepsIn id d = true)
    {a : Name × Metadata × Deprecation} (ha : a ∈ asked t) (htext : a.1.canonical = n.canonical)
    (hfails : ¬ s.mapper.Fails a.1) :
    s.mapper.made id (d, n.canonical) ((asked t).map (·.1)) ≠ none := by
  rw [CachedMapper.made, if_pos hkeeps, Ne, List.findSome?_eq_none_iff]
  intro hnone
  have := hnone a.1 (List.mem_map.mpr ⟨a, ha, rfl⟩)
  rw [if_pos htext] at this
  cases hc : s.mapper.mapper.candidates a.1 with
  | ok cs =>
      rw [hc] at this
      contradiction
  | error e => exact hfails ⟨e, hc⟩

theorem findSome?_of_find? {α β : Type} {p : α → Bool} {f : α → Option β} {l : List α} {a : α}
    (h : ∀ x ∈ l, (f x).isSome = p x) (hfirst : l.find? p = some a) : l.findSome? f = f a := by
  induction l with
  | nil => exact nomatch hfirst
  | cons x xs ih =>
      have ⟨hx, hxs⟩ := List.forall_mem_cons.mp h
      rw [List.find?_cons] at hfirst
      rw [List.findSome?_cons]
      cases hp : p x with
      | true =>
          rw [hp] at hfirst hx
          obtain ⟨b, hb⟩ := Option.isSome_iff_exists.mp hx
          cases hfirst
          rw [hb]
      | false =>
          rw [hp] at hfirst hx
          rw [Option.isSome_eq_false_iff, Option.isNone_iff_eq_none] at hx
          rw [hx]
          exact ih hxs hfirst

/-- What the sources make together is made by the first one that keeps lists there: if one of them does
not fail, none of them does. -/
theorem made_of_find? (hagree : CachesAgree t ss)
    (hmade : ss.findSome? (fun s => s.mapper.made id (d, n.canonical) ((asked t).map (·.1))) = some cs)
    (hfirst : ss.find? (fun s => s.mapper.keepsIn id d) = some s) :
    s.mapper.made id (d, n.canonical) ((asked t).map (·.1)) = some cs := by
  obtain ⟨u, hu, humade⟩ := List.exists_of_findSome?_eq_some hmade
  obtain ⟨a, ha, htext, hcs⟩ := exists_of_made humade
  have hukeeps : u.mapper.keepsIn id d = true := by
    by_contra hnot
    rw [CachedMapper.made_of_not_keepsIn (Bool.eq_false_iff.mpr hnot)] at humade
    contradiction
  have hmakes : ∀ x ∈ ss, (x.mapper.made id (d, n.canonical) ((asked t).map (·.1))).isSome =
      x.mapper.keepsIn id d := by
    intro x hx
    cases hkeeps : x.mapper.keepsIn id d with
    | false =>
        rw [CachedMapper.made_of_not_keepsIn hkeeps]
        rfl
    | true =>
        rw [Option.isSome_iff_ne_none]
        refine made_ne_none hkeeps ha htext fun hfails => ?_
        have ⟨hxid, hxd⟩ := CachedMapper.keepsIn_iff.mp hkeeps
        have ⟨huid, hud⟩ := CachedMapper.keepsIn_iff.mp hukeeps
        have hkey : x.mapper.cacheKey a.1 = u.mapper.cacheKey a.1 := by
          rw [CachedMapper.cacheKey, CachedMapper.cacheKey, hxd, hud]
        obtain ⟨e, he⟩ := hagree x hx u hu id hxid huid a ha a ha hkey hfails
        rw [hcs] at he
        contradiction
  rw [← findSome?_of_find? hmakes hfirst, hmade]

/-- **An inspection primes the caches for every name**, if mappers that share a cache fail for the same
names and go by the canonical texts of names. -/
theorem primed_inspectAll (hagree : CachesAgree t ss)
    (hreads : ∀ s ∈ ss, s.mapper.cache ≠ none → s.mapper.mapper.ReadsCanonical)
    (hids : ∀ x ∈ ss, ∀ y ∈ ss, x.id = y.id → x.newIndex = y.newIndex) (n : Name) {σ τ : Session}
    (hτ : Session.SameMemory (inspectAll t ss σ).2 τ) : Session.Primed n ss σ τ where
  known := fun s hs => by
    have hkeeps : Run.Keeps s.known (inspectAll t ss) :=
      compositional_inspectAll (Run.keeps_compositional fun _ _ => rfl) fun x hx d _ =>
        Source.known_get (hids s hs x hx) d.1
    have hmem : s.known τ = s.known (inspectAll t ss σ).2 := by
      rw [Source.known, Source.known, hτ.index?]
    rw [hmem, hkeeps σ]
  entry := fun id d => by
    rw [← Session.entry_congr hτ.caches, entry_inspectAll]
    cases σ.entry id (d, n.canonical) with
    | some cs => exact .shared (candidatesAlike_refl cs)
    | none =>
        rw [Option.none_or]
        cases hmade : ss.findSome? (fun s =>
            s.mapper.made id (d, n.canonical) ((asked t).map (·.1))) with
        | none => exact .absent
        | some cs =>
            refine .primed fun s hfirst => ?_
            have hs := List.mem_of_find?_eq_some hfirst
            have hkeeps := List.find?_some hfirst
            obtain ⟨a, _, htext, hcs⟩ := exists_of_made (made_of_find? hagree hmade hfirst)
            have hcache : s.mapper.cache ≠ none := by
              rw [(CachedMapper.keepsIn_iff.mp hkeeps).1]
              exact Option.some_ne_none id
            exact hreads s hs hcache a.1 n htext cs hcs

end Migration

end LayeredConfig
