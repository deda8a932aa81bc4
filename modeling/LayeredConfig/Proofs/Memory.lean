import LayeredConfig.Source.Lookup

/-!
# LayeredConfig.Proofs.Memory

What the memory of a session does to the answers.

1. Memory only grows: an index that is remembered stays, and so does a list in a cache
   (`Session.Grows`).
2. What is asked for is a question of the memory alone: notes and numbers play no part in it
   (`Run.Recalls.respects`).
3. A question that was answered once has the same answer ever after, as long as nobody else makes
   the entries of a cache that the question itself failed to make (`Run.Recalls.again`).  These are
   the *barred* entries.
-/

namespace LayeredConfig

/-! ## Growing memory -/

namespace Session

/-- Two sessions that remember the same. -/
structure SameMemory (σ τ : Session) : Prop where
  indexes : σ.indexes = τ.indexes
  caches : σ.caches = τ.caches

/-- The later session remembers what the earlier one did, and has no barred entries beyond it. -/
structure Grows (barred : CacheId → Dialect × String → Prop) (σ τ : Session) : Prop where
  index : ∀ {id ix}, σ.index? id = some ix → τ.index? id = some ix
  entry : ∀ {id k cs}, (σ.cache id).lookup k = some cs → (τ.cache id).lookup k = some cs
  none : ∀ {id k}, barred id k → (σ.cache id).lookup k = none → (τ.cache id).lookup k = none

theorem SameMemory.refl (σ : Session) : σ.SameMemory σ := ⟨rfl, rfl⟩

theorem SameMemory.symm {σ τ : Session} (h : σ.SameMemory τ) : τ.SameMemory σ :=
  ⟨h.indexes.symm, h.caches.symm⟩

theorem SameMemory.trans {σ τ υ : Session} (h : σ.SameMemory τ) (h' : τ.SameMemory υ) :
    σ.SameMemory υ :=
  ⟨h.indexes.trans h'.indexes, h.caches.trans h'.caches⟩

/-- Sessions of one memory keep the same indexes. -/
theorem SameMemory.index? {σ τ : Session} (h : σ.SameMemory τ) (id : SourceId) :
    σ.index? id = τ.index? id := by
  rw [Session.index?, h.indexes, Session.index?]

/-- Sessions of one memory have the same caches. -/
theorem SameMemory.cache {σ τ : Session} (h : σ.SameMemory τ) (id : CacheId) :
    σ.cache id = τ.cache id := by
  rw [Session.cache, h.caches, Session.cache]

/-- Remembering the same in both keeps the memories the same. -/
theorem SameMemory.remember {σ τ : Session} (h : σ.SameMemory τ) (id : SourceId) (ix : Index) :
    (σ.remember id ix).SameMemory (τ.remember id ix) :=
  ⟨by simp only [Session.remember, forget, h.indexes], h.caches⟩

theorem SameMemory.setCache {σ τ : Session} (h : σ.SameMemory τ) (id : CacheId) (c : Cache) :
    (σ.setCache id c).SameMemory (τ.setCache id c) :=
  ⟨h.indexes, by simp only [Session.setCache, h.caches]⟩

theorem lookup_filter_of_ne {α β : Type} [BEq α] [LawfulBEq α] [DecidableEq α] {a b : α}
    (h : b ≠ a) (l : List (α × β)) : (l.filter (·.1 ≠ a)).lookup b = l.lookup b := by
  induction l with
  | nil => rfl
  | cons p l ih =>
      by_cases hp : p.1 = a
      · have hb : (b == p.1) = false := by simpa [hp] using h
        rw [List.filter_cons_of_neg (by simpa using hp), ih, List.lookup_cons, hb]
      · rw [List.filter_cons_of_pos (by simpa using hp), List.lookup_cons, List.lookup_cons, ih]

/-- Remembering an index leaves those of other sources as they are. -/
theorem index?_remember_of_ne (σ : Session) {id other : SourceId} (h : other ≠ id) (ix : Index) :
    (σ.remember id ix).index? other = σ.index? other := by
  have hne : (other == id) = false := by simpa using h
  rw [index?, remember, List.lookup_cons, hne]
  exact lookup_filter_of_ne h σ.indexes

/-- Setting a cache leaves the others as they are. -/
theorem cache_setCache_of_ne (σ : Session) {id other : CacheId} (h : other ≠ id) (c : Cache) :
    (σ.setCache id c).cache other = σ.cache other := by
  have hne : (other == id) = false := by simpa using h
  simp only [cache, setCache, List.lookup_cons, hne]
  rw [lookup_filter_of_ne h]

variable {barred : CacheId → Dialect × String → Prop} {σ τ υ : Session}

/-- Memory that stays the same has grown. -/
theorem Grows.of_sameMemory (h : σ.SameMemory τ) : σ.Grows barred τ where
  index := fun hi => by rw [← h.index?, hi]
  entry := fun he => by rw [← h.cache, he]
  none := fun _ hn => by rw [← h.cache, hn]

theorem Grows.refl (σ : Session) : σ.Grows barred σ := .of_sameMemory (.refl σ)

theorem Grows.trans (h : σ.Grows barred τ) (h' : τ.Grows barred υ) : σ.Grows barred υ where
  index := fun hi => h'.index (h.index hi)
  entry := fun he => h'.entry (h.entry he)
  none := fun hb hn => h'.none hb (h.none hb hn)

/-- The first index of a source may be remembered. -/
theorem grows_remember {id : SourceId} (h : σ.index? id = none) (ix : Index) :
    σ.Grows barred (σ.remember id ix) where
  index := fun {other ix'} hi => by
    have hne : other ≠ id := by
      rintro rfl
      rw [h] at hi
      exact nomatch hi
    rw [index?_remember_of_ne σ hne, hi]
  entry := fun he => he
  none := fun _ hn => hn

/-- A list may be put into a cache that has none under its key, if this is not barred. -/
theorem grows_setCache {id : CacheId} {k : Dialect × String} (h : (σ.cache id).lookup k = none)
    (hb : ¬ barred id k) (cs : List Candidate) :
    σ.Grows barred (σ.setCache id ((k, cs) :: σ.cache id)) where
  index := fun hi => hi
  entry := fun {other k' cs'} he => by
    by_cases ho : other = id
    · subst ho
      have hne : (k' == k) = false := by
        rw [beq_eq_false_iff_ne]
        rintro rfl
        rw [h] at he
        exact nomatch he
      rw [cache_setCache_self, List.lookup_cons, hne, he]
    · rw [cache_setCache_of_ne σ ho, he]
  none := fun {other k'} hb' hn => by
    by_cases ho : other = id
    · subst ho
      have hne : (k' == k) = false := by
        rw [beq_eq_false_iff_ne]
        rintro rfl
        exact hb hb'
      rw [cache_setCache_self, List.lookup_cons, hne, hn]
    · rw [cache_setCache_of_ne σ ho, hn]

end Session

/-! ## Questions -/

namespace Run

theorem pure_apply {α : Type} (a : α) (σ : Session) : (pure a : Run α) σ = (a, σ) := rfl

theorem bind_apply {α β : Type} (x : Run α) (f : α → Run β) (σ : Session) :
    (x >>= f) σ = f (x σ).1 (x σ).2 := rfl

theorem get_apply (σ : Session) : (get : Run Session) σ = (σ, σ) := rfl

/-- A computation whose answer, and what it remembers, depend on the memory alone. -/
def Respects {α : Type} (x : Run α) : Prop :=
  ∀ {σ τ : Session}, σ.SameMemory τ → (x σ).1 = (x τ).1 ∧ Session.SameMemory (x σ).2 (x τ).2

/-- A computation that asks: its answer depends on the memory alone, the memory only grows, and
once answered it has the same answer ever after. -/
structure Recalls (barred : CacheId → Dialect × String → Prop) {α : Type} (x : Run α) : Prop where
  respects : Respects x
  grows : ∀ σ : Session, σ.Grows barred (x σ).2
  again : ∀ {σ τ : Session}, Session.Grows barred (x σ).2 τ → (x τ).1 = (x σ).1

/-- A property of computations that passes from the parts of a computation to the whole. -/
structure Compositional (P : ∀ {α : Type}, Run α → Prop) : Prop where
  pure : ∀ {α : Type} (a : α), P (Pure.pure a : Run α)
  bind : ∀ {α β : Type} {x : Run α} {f : α → Run β}, P x → (∀ a, P (f a)) → P (x >>= f)
  note : ∀ e : Event, P (Run.note e)

/-- Going the same way in sessions of one memory passes to composed computations. -/
theorem respects_compositional : Compositional @Respects where
  pure := fun _ _ _ h => ⟨rfl, h⟩
  bind := by
    intro α β x f hx hf σ τ h
    have ⟨hr, hm⟩ := hx h
    rw [bind_apply, bind_apply, hr]
    exact hf _ hm
  note := fun _ _ _ h => ⟨rfl, h.indexes, h.caches⟩

variable {barred : CacheId → Dialect × String → Prop}

/-- Recalling passes to composed computations. -/
theorem recalls_compositional : Compositional (@Recalls barred) where
  pure := fun a => ⟨respects_compositional.pure a, Session.Grows.refl, fun _ => rfl⟩
  bind := by
    intro α β x f hx hf
    refine ⟨respects_compositional.bind hx.respects fun a => (hf a).respects,
      fun σ => (hx.grows σ).trans ((hf _).grows _), fun {σ τ} h => ?_⟩
    have hfirst : (x τ).1 = (x σ).1 := hx.again (((hf _).grows _).trans h)
    rw [bind_apply, bind_apply, hfirst]
    exact (hf _).again (Session.Grows.trans h (hx.grows τ))
  note := fun e =>
    ⟨respects_compositional.note e, fun _ => .of_sameMemory ⟨rfl, rfl⟩, fun _ => rfl⟩

/-- A note of a lookup touches no memory. -/
theorem recalls_noteLookup (id : SourceId) (key : String) :
    Recalls barred (Run.noteLookup id key) :=
  ⟨fun h => ⟨rfl, h.indexes, h.caches⟩, fun _ => .of_sameMemory ⟨rfl, rfl⟩, fun _ => rfl⟩

end Run

/-! ## Asking a mapper -/

namespace CachedMapper

/-- The mapper fails for the name, so that its cache gets no entry for it. -/
def Fails (m : CachedMapper) (n : Name) : Prop := ∃ e, m.mapper.candidates n = .error e

/-- The key of a name in the cache. -/
def cacheKey (m : CachedMapper) (n : Name) : Dialect × String := (m.mapper.dialect, n.canonical)

variable {barred : CacheId → Dialect × String → Prop} {m : CachedMapper} {n : Name} {id : CacheId}
  {σ : Session}

/-- A list that is in the cache is given back. -/
theorem candidates_hit (hid : m.cache = some id) {cs : List Candidate}
    (h : (σ.cache id).lookup (m.cacheKey n) = some cs) : m.candidates n σ = (.ok cs, σ) := by
  rw [cacheKey] at h
  simp only [candidates, hid, Run.bind_apply, Run.get_apply, h, Run.pure_apply]

/-- A list that cannot be made is not kept. -/
theorem candidates_failed (hid : m.cache = some id)
    (h : (σ.cache id).lookup (m.cacheKey n) = none) {e : MappingError}
    (he : m.mapper.candidates n = .error e) : m.candidates n σ = (.error e, σ) := by
  rw [cacheKey] at h
  simp only [candidates, hid, Run.bind_apply, Run.get_apply, h, he, Run.pure_apply]

/-- A list that is made is put into the cache. -/
theorem candidates_made (hid : m.cache = some id)
    (h : (σ.cache id).lookup (m.cacheKey n) = none) {cs : List Candidate}
    (hcs : m.mapper.candidates n = .ok cs) :
    m.candidates n σ = (.ok cs, σ.setCache id ((m.cacheKey n, cs) :: σ.cache id)) := by
  rw [cacheKey] at h
  simp only [candidates, hid, Run.bind_apply, Run.get_apply, h, hcs]
  rfl

/-- Lists go by the memory alone. -/
theorem respects_candidates (hid : m.cache = some id) : Run.Respects (m.candidates n) := by
  intro σ τ hm
  have hsame := hm.cache id
  cases h : (σ.cache id).lookup (m.cacheKey n) with
  | some cs =>
      rw [candidates_hit hid h, candidates_hit hid (by rw [← hsame, h])]
      exact ⟨rfl, hm⟩
  | none =>
      have h' : (τ.cache id).lookup (m.cacheKey n) = none := by rw [← hsame, h]
      cases hc : m.mapper.candidates n with
      | error e =>
          rw [candidates_failed hid h hc, candidates_failed hid h' hc]
          exact ⟨rfl, hm⟩
      | ok cs =>
          rw [candidates_made hid h hc, candidates_made hid h' hc, hsame]
          exact ⟨rfl, hm.setCache id _⟩

/-- A list is put into the cache only where the mapper does not fail. -/
theorem grows_candidates (hid : m.cache = some id)
    (hbar : barred id (m.cacheKey n) ↔ m.Fails n) (σ : Session) :
    σ.Grows barred (m.candidates n σ).2 := by
  cases h : (σ.cache id).lookup (m.cacheKey n) with
  | some cs =>
      rw [candidates_hit hid h]
      exact .refl σ
  | none =>
      cases hc : m.mapper.candidates n with
      | error e =>
          rw [candidates_failed hid h hc]
          exact .refl σ
      | ok cs =>
          have hmade : ¬ barred id (m.cacheKey n) := by
            rw [hbar]
            rintro ⟨e, he⟩
            rw [hc] at he
            contradiction
          rw [candidates_made hid h hc]
          exact Session.grows_setCache h hmade cs

/-- A list that was found or made is in the cache ever after, and where the mapper failed nobody has
put a list in its place. -/
theorem candidates_again (hid : m.cache = some id)
    (hbar : barred id (m.cacheKey n) ↔ m.Fails n) {τ : Session}
    (hg : Session.Grows barred (m.candidates n σ).2 τ) :
    (m.candidates n τ).1 = (m.candidates n σ).1 := by
  cases h : (σ.cache id).lookup (m.cacheKey n) with
  | some cs =>
      rw [candidates_hit hid h] at hg ⊢
      rw [candidates_hit hid (hg.entry h)]
  | none =>
      cases hc : m.mapper.candidates n with
      | error e =>
          rw [candidates_failed hid h hc] at hg ⊢
          rw [candidates_failed hid (hg.none (hbar.mpr ⟨e, hc⟩) h) hc]
      | ok cs =>
          rw [candidates_made hid h hc] at hg ⊢
          have hτ : (τ.cache id).lookup (m.cacheKey n) = some cs :=
            hg.entry (by rw [Session.cache_setCache_self, List.lookup_cons_self])
          rw [candidates_hit hid hτ]

/-- **Candidate lists are recalled**, as long as the barred entries of the cache are those for which
the mapper fails. -/
theorem recalls_candidates
    (hbar : ∀ id, m.cache = some id → (barred id (m.cacheKey n) ↔ m.Fails n)) :
    Run.Recalls barred (m.candidates n) := by
  cases hid : m.cache with
  | none =>
      have : m.candidates n = pure (m.mapper.candidates n) := by rw [candidates, hid]
      rw [this]
      exact Run.recalls_compositional.pure _
  | some id =>
      have hbar := hbar id hid
      exact ⟨respects_candidates hid, grows_candidates hid hbar, candidates_again hid hbar⟩

/-- What holds of asking a mapper, and is kept when computations are composed, holds of the list it
gives. -/
theorem compositional_candidatesOrNone {P : ∀ {α : Type}, Run α → Prop}
    (hP : Run.Compositional P) (h : P (m.candidates n)) : P (m.candidatesOrNone n) := by
  refine hP.bind h fun r => ?_
  cases r with
  | ok cs => exact hP.pure cs
  | error e => exact hP.bind (hP.note _) fun _ => hP.pure []

end CachedMapper

/-! ## Asking a source -/

namespace Source

variable {barred : CacheId → Dialect × String → Prop}

/-- An index that is kept is given back. -/
theorem index_remembered (s : Source) {σ : Session} {ix : Index} (h : σ.index? s.id = some ix) :
    s.index σ = (ix, σ) := by
  simp only [index, Run.bind_apply, Run.get_apply, h, Run.pure_apply]

/-- The index that a source builds. -/
def newIndex (s : Source) : Index := Index.ofKeys s.mapper.mapper s.provider.keys

/-- An index that is not kept is made and remembered. -/
theorem index_built (s : Source) {σ : Session} (h : σ.index? s.id = none) :
    (s.index σ).1 = s.newIndex ∧
      Session.SameMemory (σ.remember s.id s.newIndex) (s.index σ).2 := by
  simp only [index, Run.bind_apply, Run.get_apply, h, Run.pure_apply]
  exact ⟨rfl, rfl, rfl⟩

/-- **The index of a source is recalled.** -/
theorem recalls_index (s : Source) : Run.Recalls barred s.index := by
  refine ⟨fun {σ τ} hm => ?_, fun σ => ?_, fun {σ τ} hg => ?_⟩
  · cases h : σ.index? s.id with
    | some ix =>
        rw [s.index_remembered h, s.index_remembered (by rw [← hm.index?, h])]
        exact ⟨rfl, hm⟩
    | none =>
        have ⟨hσ, hσm⟩ := s.index_built h
        have hτ : τ.index? s.id = none := by rw [← hm.index?, h]
        have ⟨hτ, hτm⟩ := s.index_built hτ
        exact ⟨hσ.trans hτ.symm, hσm.symm.trans ((hm.remember _ _).trans hτm)⟩
  · cases h : σ.index? s.id with
    | some ix =>
        rw [s.index_remembered h]
        exact .refl σ
    | none => exact (Session.grows_remember h _).trans (.of_sameMemory (s.index_built h).2)
  · cases h : σ.index? s.id with
    | some ix =>
        rw [s.index_remembered h] at hg ⊢
        rw [s.index_remembered (hg.index h)]
    | none =>
        have ⟨hσ, hσm⟩ := s.index_built h
        have hτ : τ.index? s.id = some s.newIndex :=
          hg.index (by rw [← hσm.index?, Session.index?_remember_self])
        rw [s.index_remembered hτ, hσ]

/-! ## What passes from the parts of a lookup to the whole -/

section Parts

variable {P : ∀ {α : Type}, Run α → Prop} {s : Source} {n : Name}

/-- What holds of noting a lookup, and is kept when computations are composed, holds of trying
candidates. -/
theorem compositional_tryAll (hP : Run.Compositional P)
    (hlookup : ∀ key, P (Run.noteLookup s.id key)) (cs : List Candidate) : P (s.tryAll n cs) := by
  induction cs with
  | nil => exact hP.pure _
  | cons c cs ih =>
      rw [tryAll]
      split
      · refine hP.bind (hlookup _) fun _ => ?_
        split
        · exact hP.pure _
        · exact ih
        · split
          · exact hP.pure _
          · exact hP.bind (hP.note _) fun _ => ih
      · exact ih

/-- **What holds of asking the mapper, of noting lookups and of the index holds of a lookup.** -/
theorem compositional_get (hP : Run.Compositional P)
    (hlookup : ∀ key, P (Run.noteLookup s.id key)) (hmapper : P (s.mapper.candidates n))
    (hindex : P s.index) : P (s.get n) := by
  refine hP.bind (CachedMapper.compositional_candidatesOrNone hP hmapper) fun cs => ?_
  refine hP.bind (compositional_tryAll hP hlookup cs) fun found => ?_
  split
  · split
    · exact hP.pure _
    · exact hP.bind hindex fun ix => compositional_tryAll hP hlookup _
  · exact hP.pure _

end Parts

/-- **What a source has for a name is recalled.** -/
theorem recalls_get (s : Source) (n : Name)
    (hbar : ∀ id, s.mapper.cache = some id → (barred id (s.mapper.cacheKey n) ↔ s.mapper.Fails n)) :
    Run.Recalls barred (s.get n) :=
  compositional_get Run.recalls_compositional (Run.recalls_noteLookup s.id)
    (CachedMapper.recalls_candidates hbar) s.recalls_index

/-- What a source has for a name depends on the memory alone. -/
theorem respects_get (s : Source) (n : Name) : Run.Respects (s.get n) :=
  (s.recalls_get n (fun _ _ => Iff.rfl) :
    Run.Recalls (fun _ _ => s.mapper.Fails n) (s.get n)).respects

end Source

end LayeredConfig
