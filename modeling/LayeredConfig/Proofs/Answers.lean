import LayeredConfig.Chain.Resolution
import LayeredConfig.Proofs.Memory
import Mathlib.Data.List.Forall2
import Mathlib.Data.List.Nodup

/-!
# LayeredConfig.Proofs.Answers

What is answered to a question, without the session that it is asked in.

1. A source answers from its provider, from the candidates that its mapper lists and from the index
   that it knows; all else of the session plays no part (`Source.answer`, `Source.get_apply`).
2. The known index is the remembered one, or else the one that would be built, so looking things up
   never changes it (`Source.known_get`).  It is the source's own if no other index is remembered
   (`Session.Faithful`).
3. A chain answers with what the first source contributes that contributes anything
   (`Chain.resolveIn_cons`).
-/

namespace LayeredConfig

/-! ## What is left as it was -/

namespace Run

/-- A computation that leaves a view of the session as it was. -/
def Keeps {β : Type} (view : Session → β) {α : Type} (x : Run α) : Prop :=
  ∀ σ : Session, view (x σ).2 = view σ

/-- A view that takes no notice of events is kept by the whole if it is kept by the parts. -/
theorem keeps_compositional {β : Type} {view : Session → β}
    (hnote : ∀ e, Keeps view (Run.note e)) : Compositional (@Keeps β view) where
  pure := fun _ _ => rfl
  bind := fun hx hf σ => (hf _ _).trans (hx σ)
  note := hnote

/-- Two computations that answer alike in related sessions, and leave them related. -/
def Matches (R : Session → Session → Prop) {α : Type} (x y : Run α) : Prop :=
  ∀ σ τ : Session, R σ τ → (x σ).1 = (y τ).1 ∧ R (x σ).2 (y τ).2

section Matches

variable {R : Session → Session → Prop} {α β : Type}

theorem Matches.pure (a : α) : Matches R (Pure.pure a : Run α) (Pure.pure a) :=
  fun _ _ h => ⟨rfl, h⟩

/-- Parts that match make wholes that match. -/
theorem Matches.bind {x y : Run α} {f g : α → Run β} (hx : Matches R x y)
    (hf : ∀ a, Matches R (f a) (g a)) : Matches R (x >>= f) (y >>= g) := by
  intro σ τ h
  have ⟨hanswer, hafter⟩ := hx σ τ h
  rw [bind_apply, bind_apply, hanswer]
  exact hf _ _ _ hafter

end Matches

end Run

/-! ## The candidates that are tried -/

/-- The list under a key of a cache. -/
def Session.entry (σ : Session) (id : CacheId) (key : Dialect × String) : Option (List Candidate) :=
  (σ.cache id).lookup key

/-- What a cache holds depends on the caches of the session only. -/
theorem Session.entry_congr {σ τ : Session} (h : σ.caches = τ.caches) (id : CacheId)
    (key : Dialect × String) : σ.entry id key = τ.entry id key := by
  rw [entry, cache, h, ← cache, ← entry]

namespace CachedMapper

variable {m : CachedMapper} {n : Name}

/-- The candidates that are tried for a name: none where the mapper fails. -/
def listed (m : CachedMapper) (n : Name) (σ : Session) : List Candidate :=
  (m.candidatesOrNone n σ).1

/-- A mapper that fails for a name lists nothing for it. -/
theorem listed_eq (m : CachedMapper) (n : Name) (σ : Session) :
    m.listed n σ = match (m.candidates n σ).1 with
      | .ok cs => cs
      | .error _ => [] := by
  rw [listed, candidatesOrNone, Run.bind_apply]
  cases (m.candidates n σ).1 <;> rfl

/-- Without a cache, the mapper is asked. -/
theorem candidates_uncached (h : m.cache = none) (σ : Session) :
    m.candidates n σ = (m.mapper.candidates n, σ) := by
  rw [candidates, h]
  rfl

/-- A mapper keeps what takes no notice of caches. -/
theorem keeps_candidates {β : Type} {view : Session → β}
    (hcache : ∀ σ id c, view (Session.setCache σ id c) = view σ) :
    Run.Keeps view (m.candidates n) := by
  intro σ
  cases hid : m.cache with
  | none => rw [candidates_uncached hid]
  | some id =>
      cases h : (σ.cache id).lookup (m.cacheKey n) with
      | some cs => rw [candidates_hit hid h]
      | none =>
          cases hc : m.mapper.candidates n with
          | error e => rw [candidates_failed hid h hc]
          | ok cs => rw [candidates_made hid h hc, hcache]

/-- **The answer of a mapper**: what its cache has, or else what it gives. -/
theorem candidates_fst (m : CachedMapper) (n : Name) (σ : Session) :
    (m.candidates n σ).1 = match m.cache.bind (σ.entry · (m.cacheKey n)) with
      | some cs => .ok cs
      | none => m.mapper.candidates n := by
  cases hid : m.cache with
  | none => rw [candidates_uncached hid, Option.bind_none]
  | some id =>
      rw [Option.bind_some]
      cases h : σ.entry id (m.cacheKey n) with
      | some cs => rw [candidates_hit hid h]
      | none =>
          cases hc : m.mapper.candidates n with
          | error e => rw [candidates_failed hid h hc]
          | ok cs => rw [candidates_made hid h hc]

/-- **The cache after the answer**: the entry for the name is made if it was not there and the mapper
does not fail, and all others are as they were. -/
theorem entry_candidates (m : CachedMapper) (n : Name) (σ : Session) (id : CacheId)
    (key : Dialect × String) :
    (m.candidates n σ).2.entry id key =
      if m.cache = some id ∧ key = m.cacheKey n then
        (σ.entry id key).or (m.mapper.candidates n).toOption
      else σ.entry id key := by
  cases hid : m.cache with
  | none => rw [candidates_uncached hid, if_neg (by simp)]
  | some own =>
      cases h : σ.entry own (m.cacheKey n) with
      | some cs =>
          rw [candidates_hit hid h]
          split
          · next heq =>
            obtain ⟨⟨⟩, rfl⟩ := heq
            rw [h, Option.some_or]
          · rfl
      | none =>
          cases hc : m.mapper.candidates n with
          | error e =>
              rw [candidates_failed hid h hc]
              split
              · next heq =>
                obtain ⟨⟨⟩, rfl⟩ := heq
                rw [h]
                rfl
              · rfl
          | ok cs =>
              rw [candidates_made hid h hc]
              split
              · next heq =>
                obtain ⟨⟨⟩, rfl⟩ := heq
                rw [h, Session.entry, Session.cache_setCache_self, List.lookup_cons_self]
                rfl
              · next hne =>
                by_cases ho : id = own
                · subst ho
                  have hkey : (key == m.cacheKey n) = false := by
                    rw [beq_eq_false_iff_ne]
                    exact fun he => hne ⟨rfl, he⟩
                  rw [Session.entry, Session.cache_setCache_self, List.lookup_cons, hkey]
                  rfl
                · rw [Session.entry, Session.cache_setCache_of_ne σ ho]
                  rfl

end CachedMapper

/-! ## The known index -/

namespace Source

/-- The index that a source uses: the remembered one, or else the one that it builds. -/
def known (s : Source) (σ : Session) : Index := (σ.index? s.id).getD s.newIndex

/-- An index that is asked for is the one that is known, whether it was kept or is made now. -/
theorem index_apply (s : Source) (σ : Session) : (s.index σ).1 = s.known σ := by
  rw [known]
  cases h : σ.index? s.id with
  | some ix => rw [s.index_remembered h, Option.getD_some]
  | none => rw [(s.index_built h).1, Option.getD_none]

/-- Using the index keeps what takes no notice of events and of this index. -/
theorem keeps_index {β : Type} {view : Session → β} (s : Source)
    (hsame : ∀ {σ τ : Session}, σ.SameMemory τ → view σ = view τ)
    (hindex : ∀ σ : Session, σ.index? s.id = none → view (σ.remember s.id s.newIndex) = view σ) :
    Run.Keeps view s.index := by
  intro σ
  cases h : σ.index? s.id with
  | some ix => rw [s.index_remembered h]
  | none => rw [← hsame (s.index_built h).2, hindex σ h]

end Source

/-- No index is remembered for the source but its own. -/
def Session.Faithful (σ : Session) (s : Source) : Prop :=
  ∀ ix, σ.index? s.id = some ix → ix = s.newIndex

theorem Session.Faithful.known_eq {σ : Session} {s : Source} (h : σ.Faithful s) :
    s.known σ = s.newIndex := by
  rw [Source.known]
  cases hix : σ.index? s.id with
  | some ix => exact h ix hix
  | none => rfl

/-- It suffices that the known index is the one that would be made now. -/
theorem Session.faithful_of_known_eq {σ : Session} {s : Source} (h : s.known σ = s.newIndex) :
    σ.Faithful s := by
  intro ix hix
  rw [← h, Source.known, hix, Option.getD_some]

/-- A session that keeps no index for a source cannot keep a wrong one. -/
theorem Session.faithful_of_index?_eq_none {σ : Session} {s : Source}
    (h : σ.index? s.id = none) : σ.Faithful s := by
  intro ix hix
  rw [h] at hix
  exact nomatch hix

/-- At the start no index is kept. -/
theorem Session.faithful_start (s : Source) : Session.start.Faithful s :=
  Session.faithful_of_index?_eq_none rfl

/-! ## Asking a source -/

namespace Source

/-- The first candidate that applies, has a value and can use it, or the first failure. -/
def tries (s : Source) (n : Name) : List Candidate → Except ProviderError (Option Property)
  | [] => .ok none
  | c :: cs =>
    if c.applies n then
      match s.provider.get c.key with
      | .error e => .error e
      | .ok none => s.tries n cs
      | .ok (some raw) =>
        match c.extract raw with
        | .ok v => .ok (some ⟨n, v, s.originOf c.key⟩)
        | .error _ => s.tries n cs
    else s.tries n cs

/-- Further candidates are tried only if the first ones lead to nothing; a failure ends the search. -/
theorem tries_append (s : Source) (n : Name) (cs cs' : List Candidate) :
    s.tries n (cs ++ cs') = match s.tries n cs with
      | .ok none => s.tries n cs'
      | found => found := by
  induction cs with
  | nil => rfl
  | cons c cs ih =>
      rw [List.cons_append, tries, tries]
      split
      · cases s.provider.get c.key with
        | error e => rfl
        | ok found =>
            cases found with
            | none => exact ih
            | some raw => cases hextract : c.extract raw <;> simp only [hextract, ih]
      · exact ih

/-- **Trying candidates remembers nothing.** -/
theorem tryAll_apply (s : Source) (n : Name) (cs : List Candidate) (σ : Session) :
    (s.tryAll n cs σ).1 = s.tries n cs ∧ σ.SameMemory (s.tryAll n cs σ).2 := by
  induction cs generalizing σ with
  | nil => exact ⟨rfl, .refl σ⟩
  | cons c cs ih =>
      rw [tryAll, tries]
      split
      · rw [Run.bind_apply]
        have hlookup : σ.SameMemory (Run.noteLookup s.id c.key σ).2 := ⟨rfl, rfl⟩
        generalize (Run.noteLookup s.id c.key σ).2 = υ at hlookup
        cases s.provider.get c.key with
        | error e => exact ⟨rfl, hlookup⟩
        | ok found =>
            cases found with
            | none => exact ⟨(ih υ).1, hlookup.trans (ih υ).2⟩
            | some raw =>
                cases hx : c.extract raw with
                | ok v =>
                    simp only [hx]
                    exact ⟨rfl, hlookup⟩
                | error e =>
                    simp only [hx]
                    rw [Run.bind_apply]
                    have hnote : υ.SameMemory
                        (Run.note (.extractionFailed s.name c.key e) υ).2 := ⟨rfl, rfl⟩
                    generalize (Run.note (.extractionFailed s.name c.key e) υ).2 = φ at hnote
                    exact ⟨(ih φ).1, hlookup.trans (hnote.trans (ih φ).2)⟩
      · exact ih σ

/-- What a source answers for a name, from the candidates and the index. -/
def answer (s : Source) (n : Name) (cs : List Candidate) (ix : Index) :
    Except ProviderError (Option Property) :=
  match s.tries n cs with
  | .ok none =>
    match s.capability with
    | .lookupOnly => .ok none
    | .enumerable => s.tries n (others ix cs n)
  | found => found

/-- **An answer is what a search comes to**: through the candidates, and then through the further keys of
the index. -/
theorem answer_eq_tries (s : Source) (n : Name) (cs : List Candidate) (ix : Index) :
    s.answer n cs ix = s.tries n (cs ++ match s.capability with
      | .lookupOnly => []
      | .enumerable => others ix cs n) := by
  rw [answer, tries_append]
  cases s.capability <;> rfl

/-- Listing candidates leaves the known indexes alone. -/
theorem known_candidatesOrNone (x : Source) (m : CachedMapper) (n : Name) (σ : Session) :
    x.known (m.candidatesOrNone n σ).2 = x.known σ :=
  CachedMapper.compositional_candidatesOrNone (Run.keeps_compositional fun _ _ => rfl)
    (CachedMapper.keeps_candidates fun _ _ _ => rfl) σ

/-- **A source answers from the listed candidates and the known index.** -/
theorem get_apply (s : Source) (n : Name) (σ : Session) :
    (s.get n σ).1 = s.answer n (s.mapper.listed n σ) (s.known σ) := by
  have hknown := s.known_candidatesOrNone s.mapper n σ
  rw [get, Run.bind_apply, answer, CachedMapper.listed, ← hknown]
  generalize (s.mapper.candidatesOrNone n σ).1 = cs
  generalize (s.mapper.candidatesOrNone n σ).2 = υ
  have ⟨hanswer, hsame⟩ := s.tryAll_apply n cs υ
  have hsame' : s.known (s.tryAll n cs υ).2 = s.known υ := by
    rw [known, known, hsame.index?]
  rw [Run.bind_apply, hanswer]
  cases s.tries n cs with
  | error e => cases s.capability <;> rfl
  | ok found =>
      cases found with
      | some p => cases s.capability <;> rfl
      | none =>
          cases s.capability with
          | lookupOnly => rfl
          | enumerable =>
              simp only [Run.bind_apply, index_apply, hsame', (s.tryAll_apply n _ _).1]

/-- Using an index changes no known index.  Sources of one number must have one index, since it is
remembered by the number. -/
theorem known_index {x s : Source} (h : x.id = s.id → x.newIndex = s.newIndex) :
    Run.Keeps x.known s.index := by
  refine s.keeps_index (fun {υ υ'} hsame => ?_) fun υ hυ => ?_
  · rw [known, known, hsame.index?]
  · by_cases hid : x.id = s.id
    · rw [known, known, hid, Session.index?_remember_self, hυ, h hid, Option.getD_some,
        Option.getD_none]
    · rw [known, known, υ.index?_remember_of_ne hid]

/-- **Looking a name up changes no known index.** -/
theorem known_get {x s : Source} (h : x.id = s.id → x.newIndex = s.newIndex) (n : Name)
    (σ : Session) : x.known (s.get n σ).2 = x.known σ :=
  compositional_get (Run.keeps_compositional fun _ _ => rfl) (fun _ _ => rfl)
    (CachedMapper.keeps_candidates fun _ _ _ => rfl) (known_index h) σ

/-- **A lookup keeps indexes faithful.** -/
theorem faithful_get {x s : Source} (h : x.id = s.id → x.newIndex = s.newIndex) (n : Name)
    {σ : Session} (hσ : σ.Faithful x) : (s.get n σ).2.Faithful x :=
  Session.faithful_of_known_eq ((known_get h n σ).trans hσ.known_eq)

/-- After a lookup the caches are as they are once the candidates are listed. -/
theorem caches_get (s : Source) (n : Name) (σ : Session) :
    (s.get n σ).2.caches = (s.mapper.candidates n σ).2.caches := by
  have hlist : (s.mapper.candidatesOrNone n σ).2.caches = (s.mapper.candidates n σ).2.caches := by
    rw [CachedMapper.candidatesOrNone, Run.bind_apply]
    cases (s.mapper.candidates n σ).1 <;> rfl
  rw [← hlist, get, Run.bind_apply]
  generalize (s.mapper.candidatesOrNone n σ).1 = cs
  generalize (s.mapper.candidatesOrNone n σ).2 = υ
  have htry (υ : Session) (cs : List Candidate) : (s.tryAll n cs υ).2.caches = υ.caches :=
    (s.tryAll_apply n cs υ).2.caches.symm
  have hindex (υ : Session) : (s.index υ).2.caches = υ.caches :=
    s.keeps_index (fun hsame => hsame.caches) (fun _ _ => rfl) υ
  rw [Run.bind_apply]
  cases (s.tryAll n cs υ).1 with
  | error e => cases s.capability <;> exact htry υ cs
  | ok found =>
      cases found with
      | some p => cases s.capability <;> exact htry υ cs
      | none =>
          cases s.capability with
          | lookupOnly => exact htry υ cs
          | enumerable =>
              simp only [Run.bind_apply, htry, hindex]

/-- A lookup makes the entries that the mapper makes for the name. -/
theorem entry_get (s : Source) (n : Name) (σ : Session) (id : CacheId) (key : Dialect × String) :
    (s.get n σ).2.entry id key = (s.mapper.candidates n σ).2.entry id key :=
  Session.entry_congr (s.caches_get n σ) id key

/-- A lookup leaves the entries for other names alone. -/
theorem entry_get_of_ne (s : Source) {n : Name} {key : Dialect × String}
    (h : key.2 ≠ n.canonical) (id : CacheId) (σ : Session) :
    (s.get n σ).2.entry id key = σ.entry id key := by
  rw [entry_get, CachedMapper.entry_candidates, if_neg]
  rintro ⟨-, rfl⟩
  exact h rfl

end Source

/-! ## Asking a chain -/

/-- The sources of a chain have different numbers. -/
def Chain.Distinct (c : Chain) : Prop := (c.sources.map (·.id)).Nodup

instance (c : Chain) : Decidable c.Distinct :=
  inferInstanceAs (Decidable (c.sources.map (·.id)).Nodup)

/-- Sources of one number in a chain are one source. -/
theorem Chain.Distinct.eq_of_id_eq {c : Chain} (h : c.Distinct) {x y : Source}
    (hx : x ∈ c.sources) (hy : y ∈ c.sources) (hid : x.id = y.id) : x = y :=
  List.inj_on_of_nodup_map h hx hy hid

/-- What a source contributes for a name: nothing where it fails. -/
def Source.contributes (s : Source) (n : Name) (σ : Session) : Option Property :=
  match (s.get n σ).1 with
  | .ok found => found
  | .error _ => none

namespace Chain

/-- What holds of every single question, and is kept when computations are composed, holds of the search
through a chain. -/
theorem compositional_resolveIn {P : ∀ {α : Type}, Run α → Prop} (hP : Run.Compositional P)
    {n : Name} {ss : List Source} (h : ∀ s ∈ ss, P (s.get n)) : P (resolveIn n ss) := by
  induction ss with
  | nil => exact hP.pure _
  | cons s ss ih =>
      have ⟨hs, hss⟩ := List.forall_mem_cons.mp h
      refine hP.bind hs fun found => ?_
      split
      · exact hP.pure _
      · exact ih hss
      · exact hP.bind (hP.note _) fun _ => ih hss

/-- Asking sources leaves the entries for other names alone. -/
theorem entry_resolveIn_of_ne {n : Name} {key : Dialect × String} (h : key.2 ≠ n.canonical)
    (id : CacheId) (ss : List Source) (σ : Session) :
    (resolveIn n ss σ).2.entry id key = σ.entry id key := by
  have hkeeps : Run.Keeps (fun σ => σ.entry id key) (resolveIn n ss) :=
    compositional_resolveIn (Run.keeps_compositional fun _ _ => rfl)
      fun s _ σ => s.entry_get_of_ne h id σ
  exact hkeeps σ

/-- Asking sources changes no known index. -/
theorem known_resolveIn {x : Source} {ss : List Source}
    (h : ∀ s ∈ ss, x.id = s.id → x.newIndex = s.newIndex) (n : Name) (σ : Session) :
    x.known (resolveIn n ss σ).2 = x.known σ := by
  have hkeeps : Run.Keeps x.known (resolveIn n ss) :=
    compositional_resolveIn (Run.keeps_compositional fun _ _ => rfl)
      fun s hs σ => Source.known_get (h s hs) n σ
  exact hkeeps σ

section Matches

variable {R : Session → Session → Prop} {n : Name} {ss ss' : List Source}
  (hnote : ∀ e e', Run.Matches R (Run.note e) (Run.note e'))
include hnote

/-- Two searches match if the first sources answer alike and the searches behind them match. -/
theorem resolveIn_cons_matches {s s' : Source} (hs : Run.Matches R (s.get n) (s'.get n))
    (hss : Run.Matches R (resolveIn n ss) (resolveIn n ss')) :
    Run.Matches R (resolveIn n (s :: ss)) (resolveIn n (s' :: ss')) := by
  refine .bind hs fun found => ?_
  cases found with
  | error e => exact .bind (hnote _ _) fun _ => hss
  | ok found =>
      cases found with
      | some p => exact .pure _
      | none => exact hss

/-- **Sources that match, one by one, answer alike**, whatever is noted on the way. -/
theorem resolveIn_matches
    (h : List.Forall₂ (fun s s' => Run.Matches R (s.get n) (s'.get n)) ss ss') :
    Run.Matches R (resolveIn n ss) (resolveIn n ss') := by
  induction h with
  | nil => exact .pure _
  | cons hs _ ih => exact resolveIn_cons_matches hnote hs ih

/-- **Sources that have nothing for a name may be left out.** -/
theorem resolveIn_filter {q : Source → Bool}
    (hkeep : ∀ s ∈ ss, q s = true → Run.Matches R (s.get n) (s.get n))
    (hskip : ∀ s ∈ ss, q s = false → ∀ σ τ, R σ τ → (s.get n σ).1 = .ok none ∧ R (s.get n σ).2 τ) :
    Run.Matches R (resolveIn n ss) (resolveIn n (ss.filter q)) := by
  induction ss with
  | nil => exact .pure _
  | cons s ss ih =>
      have ⟨hs, hss⟩ := List.forall_mem_cons.mp hkeep
      have ⟨hs', hss'⟩ := List.forall_mem_cons.mp hskip
      cases hq : q s with
      | true =>
          rw [List.filter_cons_of_pos hq]
          exact resolveIn_cons_matches hnote (hs hq) (ih hss hss')
      | false =>
          rw [List.filter_cons_of_neg (by rw [hq]; exact Bool.false_ne_true)]
          intro σ τ h
          have ⟨hnothing, hafter⟩ := hs' hq σ τ h
          rw [resolveIn, Run.bind_apply, hnothing]
          exact ih hss hss' _ _ hafter

end Matches

/-- A search through sources goes the same way in sessions of the same memory. -/
theorem respects_resolveIn (n : Name) (ss : List Source) : Run.Respects (resolveIn n ss) :=
  compositional_resolveIn Run.respects_compositional fun s _ => s.respects_get n

/-- **The first source that contributes a property gives it.** -/
theorem resolveIn_cons (n : Name) (s : Source) (ss : List Source) (σ : Session) :
    (resolveIn n (s :: ss) σ).1 = (s.contributes n σ).or (resolveIn n ss (s.get n σ).2).1 := by
  rw [resolveIn, Run.bind_apply, Source.contributes]
  cases (s.get n σ).1 with
  | ok found =>
      cases found with
      | some p => rfl
      | none => rfl
  | error e =>
      have hnote : Session.SameMemory (Run.note (.sourceSkipped s.name n e) (s.get n σ).2).2
          (s.get n σ).2 := ⟨rfl, rfl⟩
      exact (respects_resolveIn n ss hnote).1

end Chain

end LayeredConfig
