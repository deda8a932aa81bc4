import LayeredConfig.Proofs.Descendants
import Mathlib.Data.List.Dedup

/-!
# LayeredConfig.Proofs.Transparency

A cache that built-in mappers share, through any sequence of questions and clears.

1. A list is kept under a canonical text, but it is made for a name as it was written.  The candidates
   that a built-in mapper gives for two names of one canonical text cannot be told apart, not even by
   the texts of their names (`Mapper.BuiltIn.listed_equivalent`).
2. At all times the cache has one entry for each key asked for since it was last emptied, and the
   entry is what the mapper of that dialect gives for some name of that text (`Cache.Holds`).  One
   question keeps it so (`Cache.Holds.ask`).
3. So every answer is as good as that of the mapper itself, and the number of entries is that of the
   different keys asked for (`CacheUse.runAll_spec`).
-/

namespace LayeredConfig

/-! ## Candidates that cannot be told apart -/

/-- Names of one canonical text have parents of one canonical text. -/
theorem Name.canonical_parent {a b p q : Name} (h : a.canonical = b.canonical)
    (hp : a.parent? = some p) (hq : b.parent? = some q) : p.canonical = q.canonical := by
  obtain ⟨e, ha⟩ := parent?_eq_some_iff.mp hp
  obtain ⟨e', hb⟩ := parent?_eq_some_iff.mp hq
  have hdashed := congrArg elements (respell_dashed_eq h)
  simp only [respell, ha, hb, List.map_append, List.map_singleton] at hdashed
  have hparents : p.respell (.spelled .dashed) = q.respell (.spelled .dashed) := by
    simp only [respell, (List.append_inj' hdashed rfl).1]
  rw [← p.canonical_dashed, hparents, q.canonical_dashed]

/-- Candidates with the same key, with names that agree and are written alike, and with the same
answers to every name and every value. -/
structure Candidate.Equivalent (a b : Candidate) : Prop where
  key : a.key = b.key
  name : a.name.agrees b.name = true
  text : a.name.canonical = b.name.canonical
  applies : ∀ n, a.applies n = b.applies n
  extract : ∀ v, a.extract v = b.extract v

/-- Alike candidates of one canonical text are equivalent. -/
theorem Candidate.Alike.equivalent {a b : Candidate} (h : a.Alike b)
    (text : a.name.canonical = b.name.canonical) : a.Equivalent b :=
  ⟨h.key, h.name, text, h.applies_eq, h.extract_eq⟩

namespace Mapper.BuiltIn

variable {m : Mapper} {a b : Name}

/-- A candidate is made for the name itself or for its parent, so its text goes by that of the name. -/
theorem canonical_candidate (h : m.BuiltIn) (hab : a.canonical = b.canonical) {c d : Candidate}
    (hc : c ∈ m.listed a) (hd : d ∈ m.listed b) (halike : c.Alike d) :
    c.name.canonical = d.name.canonical := by
  rcases Mapping.mem_listed h hc with ⟨key, rfl, -⟩ | ⟨-, hlist⟩
  · rcases Mapping.mem_listed h hd with ⟨key', rfl, -⟩ | ⟨-, hlist'⟩
    · exact hab
    · obtain ⟨q, j, -, -, rfl⟩ := Mapping.listCandidate?_eq_some_iff.mp hlist'
      exact nomatch halike.reach
  · obtain ⟨p, i, hp, -, rfl⟩ := Mapping.listCandidate?_eq_some_iff.mp hlist
    rcases Mapping.mem_listed h hd with ⟨key', rfl, -⟩ | ⟨-, hlist'⟩
    · exact nomatch halike.reach
    · obtain ⟨q, j, hq, -, rfl⟩ := Mapping.listCandidate?_eq_some_iff.mp hlist'
      exact Name.canonical_parent hab hp hq

/-- **The canonical text determines the candidates**, as far as anybody can tell. -/
theorem listed_equivalent (h : m.BuiltIn) (hab : a.canonical = b.canonical) :
    List.Forall₂ Candidate.Equivalent (m.listed a) (m.listed b) := by
  obtain ⟨hlength, halike⟩ := List.forall₂_iff_zip.mp (h.listed_alike hab)
  refine List.forall₂_iff_zip.mpr ⟨hlength, fun hmem => ?_⟩
  obtain ⟨hc, hd⟩ := List.of_mem_zip hmem
  exact (halike hmem).equivalent (h.canonical_candidate hab hc hd (halike hmem))

end Mapper.BuiltIn

/-! ## What the cache holds -/

/-- A cache with one entry for each of the keys, made by the built-in mapper of its dialect for a name
of its text. -/
structure Cache.Holds (c : Cache) (keys : List (Dialect × String)) : Prop where
  once : (c.map (·.1)).Nodup
  keys : ∀ key, key ∈ c.map (·.1) ↔ key ∈ keys
  lists : ∀ key cs, (key, cs) ∈ c →
    ∃ (m : Mapper) (n : Name), m.BuiltIn ∧ key = (m.dialect, n.canonical) ∧ cs = m.listed n

namespace Cache.Holds

variable {c : Cache} {keys : List (Dialect × String)} {key : Dialect × String}
  {cs : List Candidate} {m : Mapper} {n : Name}

theorem nil : Cache.Holds [] [] := ⟨.nil, fun _ => Iff.rfl, fun _ _ h => nomatch h⟩

/-- A cache holds a list for each of its keys, repeated keys counted once. -/
theorem length_eq (h : c.Holds keys) : c.length = keys.dedup.length := by
  have hperm : (c.map (·.1)).Perm keys.dedup :=
    (List.perm_ext_iff_of_nodup h.once keys.nodup_dedup).mpr fun key =>
      (h.keys key).trans List.mem_dedup.symm
  rw [← hperm.length_eq, List.length_map]

/-- A list that is found is in the cache, under its key. -/
theorem mem_of_lookup (h : c.lookup key = some cs) : (key, cs) ∈ c := by
  obtain ⟨before, after, rfl, -⟩ := List.lookup_eq_some_iff.mp h
  exact List.mem_append_right _ List.mem_cons_self

/-- The cache is as good when one of its keys is asked for again. -/
theorem hit (h : c.Holds keys) (hkey : c.lookup key = some cs) : c.Holds (key :: keys) where
  once := h.once
  keys := fun k => by
    have hmem : key ∈ keys := (h.keys key).mp (List.mem_map.mpr ⟨_, mem_of_lookup hkey, rfl⟩)
    rw [h.keys, List.mem_cons]
    exact ⟨.inr, fun hk => hk.elim (· ▸ hmem) id⟩
  lists := h.lists

/-- The cache is as good when it gets an entry for a key that it did not have. -/
theorem miss (h : c.Holds keys) (hm : m.BuiltIn)
    (hkey : c.lookup (m.dialect, n.canonical) = none) :
    Cache.Holds (((m.dialect, n.canonical), m.listed n) :: c)
      ((m.dialect, n.canonical) :: keys) where
  once := by
    rw [List.map_cons, List.nodup_cons]
    refine ⟨fun hmem => ?_, h.once⟩
    obtain ⟨⟨key, cs⟩, hentry, rfl⟩ := List.mem_map.mp hmem
    have hne := List.lookup_eq_none_iff.mp hkey _ hentry
    exact bne_iff_ne.mp hne rfl
  keys := fun k => by rw [List.map_cons, List.mem_cons, List.mem_cons, h.keys]
  lists := fun k cs hmem => by
    cases List.mem_cons.mp hmem with
    | inl hnew =>
        cases hnew
        exact ⟨m, n, hm, rfl, rfl⟩
    | inr hold => exact h.lists k cs hold

/-- **A question through the cache** is answered as by the mapper itself, and leaves the cache with the
key that was asked for. -/
theorem ask {id : CacheId} {σ : Session} (h : (σ.cache id).Holds keys) (hm : m.BuiltIn) (n : Name) :
    ∃ cs, (CachedMapper.candidates ⟨m, some id⟩ n σ).1 = .ok cs ∧
      List.Forall₂ Candidate.Equivalent cs (m.listed n) ∧
      ((CachedMapper.candidates ⟨m, some id⟩ n σ).2.cache id).Holds
        ((m.dialect, n.canonical) :: keys) := by
  have hid : (CachedMapper.mk m (some id)).cache = some id := rfl
  cases hkey : (σ.cache id).lookup (m.dialect, n.canonical) with
  | some cs =>
      rw [CachedMapper.candidates_hit hid hkey]
      obtain ⟨m', n', hm', heq, rfl⟩ := h.lists _ _ (mem_of_lookup hkey)
      obtain rfl : m' = m := hm'.eq_of_dialect_eq hm (congrArg Prod.fst heq).symm
      exact ⟨_, rfl, hm.listed_equivalent (congrArg Prod.snd heq).symm, h.hit hkey⟩
  | none =>
      rw [CachedMapper.candidates_made hid hkey (hm.candidates_eq n), Session.cache_setCache_self]
      exact ⟨_, rfl, hm.listed_equivalent rfl, h.miss hm hkey⟩

end Cache.Holds

/-! ## Questions and clears -/

/-- What is done with a cache: a built-in mapper that uses it is asked for the candidates of a name,
or it is emptied. -/
inductive CacheUse where
  | ask (m : Mapper) (builtIn : m.BuiltIn) (n : Name)
  | clear

namespace CacheUse

/-- Uses a cache in order; the answers to the questions. -/
def runAll (id : CacheId) : List CacheUse → Run (List (Except MappingError (List Candidate)))
  | [] => pure []
  | .ask m _ n :: us => do
    let answer ← CachedMapper.candidates ⟨m, some id⟩ n
    return answer :: (← runAll id us)
  | .clear :: us => do
    Run.clearCache id
    runAll id us

/-- The answers of the mappers themselves. -/
def uncached : List CacheUse → List (Except MappingError (List Candidate))
  | [] => []
  | .ask m _ n :: us => m.candidates n :: uncached us
  | .clear :: us => uncached us

/-- The keys that are asked for since the cache is emptied for the last time; `soFar` were asked for
before. -/
def asked (soFar : List (Dialect × String)) : List CacheUse → List (Dialect × String)
  | [] => soFar
  | .ask m _ n :: us => asked ((m.dialect, n.canonical) :: soFar) us
  | .clear :: us => asked [] us

/-- Answers with candidates that cannot be told apart. -/
def SameAnswer (a b : Except MappingError (List Candidate)) : Prop :=
  ∃ cs ds, a = .ok cs ∧ b = .ok ds ∧ List.Forall₂ Candidate.Equivalent cs ds

/-- The run from a cache in use: the induction is on the uses, and carries the keys that the cache
holds. -/
theorem runAll_holds (us : List CacheUse) {id : CacheId} {σ : Session}
    {keys : List (Dialect × String)} (h : (σ.cache id).Holds keys) :
    List.Forall₂ SameAnswer (runAll id us σ).1 (uncached us) ∧
      ((runAll id us σ).2.cache id).Holds (asked keys us) := by
  induction us generalizing σ keys with
  | nil => exact ⟨.nil, h⟩
  | cons u us ih =>
      cases u with
      | ask m hm n =>
          obtain ⟨cs, hanswer, halike, hafter⟩ := h.ask hm n
          obtain ⟨hanswers, hend⟩ := ih hafter
          exact ⟨.cons ⟨cs, _, hanswer, hm.candidates_eq n, halike⟩ hanswers, hend⟩
      | clear =>
          have hempty : ((Run.clearCache id σ).2.cache id).Holds [] := by
            rw [show (Run.clearCache id σ).2 = σ.setCache id [] from rfl,
              Session.cache_setCache_self]
            exact .nil
          exact ih hempty

/-- **A shared cache is not noticed.**  Whatever is asked through mappers that share a cache which was
empty, and whenever it is emptied in between, each answer is that of the wrapped mapper for the very
name, up to what nobody can tell; and in the end there are as many entries as different pairs of
dialect and canonical text were asked for since the cache was last emptied. -/
theorem runAll_spec (us : List CacheUse) (id : CacheId) {σ : Session} (hσ : σ.cache id = []) :
    List.Forall₂ SameAnswer (runAll id us σ).1 (uncached us) ∧
      ((runAll id us σ).2.cache id).length = (asked [] us).dedup.length := by
  have hempty : (σ.cache id).Holds [] := by
    rw [hσ]
    exact .nil
  obtain ⟨hanswers, hend⟩ := runAll_holds us hempty
  exact ⟨hanswers, hend.length_eq⟩

/-- A name, and the same name as its canonical text writes it. -/
def timeOut : Name :=
  ⟨[.literal ⟨"timeOut", by simp [isReserved], by simp [isSeparator]⟩], List.cons_ne_nil _ _⟩

def timeOutDashed : Name :=
  ⟨[.literal ⟨"time-out", by simp [isReserved], by simp [isSeparator]⟩], List.cons_ne_nil _ _⟩

/-- A question before a clear; after it both spellings in one dialect, and one of them in another. -/
def timeOutUses : List CacheUse :=
  [.ask _ .dotted timeOut, .clear, .ask _ .dotted timeOut, .ask _ .dotted timeOutDashed,
    .ask _ (.environment true) timeOut]

/-- The two spellings share an entry, and the two dialects do not. -/
theorem runAll_spec_timeOutUses :
    Session.start.cache (.own 0) = [] ∧
      List.Forall₂ SameAnswer (runAll (.own 0) timeOutUses .start).1 (uncached timeOutUses) ∧
      ((runAll (.own 0) timeOutUses .start).2.cache (.own 0)).length = 2 := by
  have hempty : Session.start.cache (.own 0) = [] := rfl
  obtain ⟨hanswers, hlength⟩ := runAll_spec timeOutUses (.own 0) hempty
  have hasked : (asked [] timeOutUses).dedup.length = 2 := by decide +kernel
  exact ⟨hempty, hanswers, hlength.trans hasked⟩

end CacheUse

end LayeredConfig
