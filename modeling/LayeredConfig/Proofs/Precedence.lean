import LayeredConfig.Proofs.ChainEdits
import LayeredConfig.Proofs.LookupLog
import LayeredConfig.Provider.Script

/-!
# LayeredConfig.Proofs.Precedence

Which source answers for a name, and which are left alone.

1. A source that is asked does not change what another one tries, as long as mappers that share a cache
   under one dialect have the same candidates (`Source.attempts_get`).  Otherwise it can: the list that
   it puts into the cache is then another one (`Chain.resolve_without_failing_differs`).
2. One source either ends the question or is passed over (`Chain.resolveIn_cons_cases`).  So what a
   chain does is told by what its sources do, each in the session that the chain is asked in, up to
   the first one that contributes a property (`Chain.resolveIn_reached`).
3. From this follow precedence, isolation and short circuit (`Chain.resolve_precedence`).
-/

namespace LayeredConfig

/-! ## Sources that do not disturb each other -/

namespace Source

variable {s x y : Source} {n : Name} {σ τ : Session}

/-- If the mappers of two sources share a cache under one dialect, they have the same candidates for a
name. -/
def SharesAlike (n : Name) (x y : Source) : Prop :=
  ∀ id, x.mapper.cache = some id → y.mapper.cache = some id →
    x.mapper.mapper.dialect = y.mapper.mapper.dialect →
    x.mapper.mapper.listed n = y.mapper.mapper.listed n

/-- Built-in mappers of one dialect are the same. -/
theorem sharesAlike_of_builtIn (hx : x.mapper.mapper.BuiltIn) (hy : y.mapper.mapper.BuiltIn)
    (n : Name) : x.SharesAlike n y := fun _ _ _ hdialect => by
  rw [hx.eq_of_dialect_eq hy hdialect]

/-- The candidates of one source are the same after another one was asked: an entry that was not there
is made by a mapper with the same candidates. -/
theorem listed_get (h : x.SharesAlike n y) :
    y.mapper.listed n (x.get n σ).2 = y.mapper.listed n σ := by
  rw [CachedMapper.listed_eq, CachedMapper.listed_eq, CachedMapper.candidates_fst,
    CachedMapper.candidates_fst]
  cases hid : y.mapper.cache with
  | none => rfl
  | some id =>
      rw [Option.bind_some, Option.bind_some, entry_get, CachedMapper.entry_candidates]
      by_cases hsame : x.mapper.cache = some id ∧ y.mapper.cacheKey n = x.mapper.cacheKey n
      · have hlisted := h id hsame.1 hid (congrArg Prod.fst hsame.2).symm
        rw [Mapper.listed, Mapper.listed] at hlisted
        rw [if_pos hsame]
        cases σ.entry id (y.mapper.cacheKey n) with
        | some cs => rfl
        | none =>
            rw [Option.none_or]
            cases hx : x.mapper.mapper.candidates n with
            | error e => rfl
            | ok cs =>
                rw [hx] at hlisted
                exact hlisted
      · rw [if_neg hsame]

/-- **A source that is asked does not change what another one tries.** -/
theorem attempts_get (hid : y.id ≠ x.id) (h : x.SharesAlike n y) :
    y.attempts n (x.get n σ).2 = y.attempts n σ := by
  have hknown := known_get (fun heq => absurd heq hid) n σ
  rw [attempts, attempts, hknown, listed_get h]

/-! ## What one source does -/

/-- The failure of a source for a name, if it fails. -/
def failure? (s : Source) (n : Name) (σ : Session) : Option ProviderError :=
  match (s.get n σ).1 with
  | .ok _ => none
  | .error e => some e

/-- The note that a source failed and was passed over, if it fails. -/
def skip? (s : Source) (n : Name) (σ : Session) : Option Event :=
  (s.failure? n σ).map (.sourceSkipped s.name n)

/-- A source answers alike in sessions in which it makes the same attempts. -/
theorem get_congr (h : s.attempts n τ = s.attempts n σ) : (s.get n τ).1 = (s.get n σ).1 := by
  rw [get_eq_tries, get_eq_tries, h]

/-- It also asks for the same keys. -/
theorem asks_congr (h : s.attempts n τ = s.attempts n σ) :
    Run.asks (s.get n) τ = Run.asks (s.get n) σ := by
  rw [asks_get, asks_get, h]

theorem contributes_congr (h : s.attempts n τ = s.attempts n σ) :
    s.contributes n τ = s.contributes n σ := by
  rw [contributes, contributes, get_congr h]

theorem skip?_congr (h : s.attempts n τ = s.attempts n σ) : s.skip? n τ = s.skip? n σ := by
  rw [skip?, skip?, failure?, failure?, get_congr h]

/-- A source that fails contributes nothing. -/
theorem contributes_of_failure (h : (s.failure? n σ).isNone = false) : s.contributes n σ = none := by
  rw [failure?] at h
  rw [contributes]
  cases hget : (s.get n σ).1 with
  | error e => rfl
  | ok found =>
      rw [hget] at h
      contradiction

/-- A source that contributes a property does not fail. -/
theorem skip?_of_contributes {p : Property} (h : s.contributes n σ = some p) :
    s.skip? n σ = none := by
  rw [contributes] at h
  rw [skip?, failure?]
  cases hget : (s.get n σ).1 with
  | ok found => rfl
  | error e =>
      rw [hget] at h
      contradiction

/-- The keys that a source asks for are noted under its number. -/
theorem id_of_mem_asks {id : SourceId} {key : String} (h : (id, key) ∈ Run.asks (s.get n) σ) :
    id = s.id := by
  rw [asks_get] at h
  obtain ⟨key', -, heq⟩ := List.mem_map.mp h
  exact (congrArg Prod.fst heq).symm

end Source

namespace Chain

variable {n : Name} {σ τ : Session} {ss ts : List Source}

/-! ## One source of several -/

/-- **One source**: it contributes a property, which is the answer, or it is passed over, which is
noted if it failed. -/
theorem resolveIn_cons_cases (n : Name) (s : Source) (τ : Session) :
    (∃ p, s.contributes n τ = some p ∧ ∀ ss, resolveIn n (s :: ss) τ = (some p, (s.get n τ).2)) ∨
      s.contributes n τ = none ∧ ∃ φ, (∀ ss, resolveIn n (s :: ss) τ = resolveIn n ss φ) ∧
        (s.get n τ).2.SameMemory φ ∧ φ.askedKeys = Session.askedKeys (s.get n τ).2 ∧
        φ.skipNotes = Session.skipNotes (s.get n τ).2 ++ (s.skip? n τ).toList := by
  rw [Source.contributes, Source.skip?, Source.failure?]
  cases hget : (s.get n τ).1 with
  | ok found =>
      cases found with
      | some p =>
          refine .inl ⟨p, rfl, fun ss => ?_⟩
          rw [resolveIn, Run.bind_apply, hget]
          rfl
      | none =>
          refine .inr ⟨rfl, _, fun ss => ?_, .refl _, rfl, (List.append_nil _).symm⟩
          rw [resolveIn, Run.bind_apply, hget]
  | error e =>
      refine .inr ⟨rfl, (Run.note (.sourceSkipped s.name n e) (s.get n τ).2).2, fun ss => ?_,
        ⟨rfl, rfl⟩, rfl, Run.skipNotes_note _ _⟩
      rw [resolveIn, Run.bind_apply, hget]
      rfl

/-- The sources after those that have an answer play no part. -/
theorem resolveIn_append_of_some {p : Property} (h : (resolveIn n ss σ).1 = some p)
    (ts : List Source) : resolveIn n (ss ++ ts) σ = resolveIn n ss σ := by
  induction ss generalizing σ with
  | nil => exact nomatch h
  | cons s ss ih =>
      rw [List.cons_append]
      rcases resolveIn_cons_cases n s σ with ⟨q, -, hend⟩ | ⟨-, φ, hpassed, -⟩
      · rw [hend, hend]
      · rw [hpassed] at h
        rw [hpassed, hpassed, ih h]

/-! ## The sources that are asked -/

/-- The sources that are asked: all up to the first one that contributes a property. -/
def reached (n : Name) (σ : Session) : List Source → List Source
  | [] => []
  | s :: ss => s :: if (s.contributes n σ).isSome then [] else reached n σ ss

/-- Where no source contributes, all of them are reached. -/
theorem reached_eq_self (h : ∀ s ∈ ss, s.contributes n σ = none) : reached n σ ss = ss := by
  induction ss with
  | nil => rfl
  | cons s ss ih =>
      obtain ⟨hs, hss⟩ := List.forall_mem_cons.mp h
      rw [reached, hs, ih hss]
      rfl

/-- The sources that are reached end with the first that contributes. -/
theorem reached_append_cons {before after : List Source} {w : Source} {p : Property}
    (h : ∀ s ∈ before, s.contributes n σ = none) (hw : w.contributes n σ = some p) :
    reached n σ (before ++ w :: after) = before ++ [w] := by
  induction before with
  | nil =>
      rw [List.nil_append, reached, hw]
      rfl
  | cons s ss ih =>
      obtain ⟨hs, hss⟩ := List.forall_mem_cons.mp h
      rw [List.cons_append, reached, hs, List.cons_append]
      exact congrArg (s :: ·) (ih hss)

/-- What a chain of undisturbed sources does: it answers, asks and notes what its sources do in the
session `σ`, up to the first that contributes a property.  The induction is on the sources, and carries
that those to come try the same in the present session `τ` as in `σ`. -/
theorem resolveIn_reached (hids : (ss.map (·.id)).Nodup)
    (hshare : ∀ x ∈ ss, ∀ y ∈ ss, x.SharesAlike n y)
    (hτ : ∀ s ∈ ss, s.attempts n τ = s.attempts n σ) :
    (resolveIn n ss τ).1 = ss.findSome? (·.contributes n σ) ∧
      Session.askedKeys (resolveIn n ss τ).2 =
        τ.askedKeys ++ (reached n σ ss).flatMap (fun s => Run.asks (s.get n) σ) ∧
      Session.skipNotes (resolveIn n ss τ).2 =
        τ.skipNotes ++ (reached n σ ss).filterMap (·.skip? n σ) := by
  induction ss generalizing τ with
  | nil => exact ⟨rfl, (List.append_nil _).symm, (List.append_nil _).symm⟩
  | cons s ss ih =>
      obtain ⟨hid, hids⟩ := List.nodup_cons.mp hids
      obtain ⟨hs, hss⟩ := List.forall_mem_cons.mp hτ
      have hasked : Session.askedKeys (s.get n τ).2 =
          τ.askedKeys ++ Run.asks (s.get n) σ := by
        rw [← Source.asks_congr hs, Source.asks_get, Source.askedKeys_get]
      have hskips : Session.skipNotes (s.get n τ).2 = τ.skipNotes := s.skipNotes_get n τ
      have hcontributes := Source.contributes_congr hs
      rw [List.findSome?_cons, reached]
      rcases resolveIn_cons_cases n s τ with ⟨p, hp, hend⟩ | ⟨hnone, φ, hpassed, hsame, hφ, hφ'⟩
      · rw [hend, ← hcontributes, hp, hasked, hskips]
        have hskip := Source.skip?_of_contributes (hcontributes ▸ hp)
        simp [hskip]
      · rw [hpassed, ← hcontributes, hnone]
        have hundisturbed : ∀ y ∈ ss, y.attempts n φ = y.attempts n σ := fun y hy => by
          have hne : y.id ≠ s.id := fun heq => hid (List.mem_map.mpr ⟨y, hy, heq⟩)
          rw [← Source.attempts_congr hsame, Source.attempts_get hne, hss y hy]
          exact hshare s List.mem_cons_self y (List.mem_cons_of_mem _ hy)
        obtain ⟨hanswer, hkeys, hnotes⟩ := ih hids (fun x hx y hy =>
          hshare x (List.mem_cons_of_mem _ hx) y (List.mem_cons_of_mem _ hy)) hundisturbed
        refine ⟨hanswer, ?_, ?_⟩
        · rw [hkeys, hφ, hasked, List.append_assoc]
          rfl
        · rw [hnotes, hφ', hskips, Source.skip?_congr hs, List.append_assoc]
          rw [List.filterMap_eq_flatMap_toList, List.filterMap_eq_flatMap_toList]
          rfl

/-! ## Precedence, isolation and short circuit -/

/-- Sources whose mappers share a cache under one dialect have the same candidates for a name. -/
def SharesAlike (c : Chain) (n : Name) : Prop :=
  ∀ x ∈ c.sources, ∀ y ∈ c.sources, x.SharesAlike n y

variable {c : Chain}

/-- Where all mappers are built-in, those that share a cache list alike. -/
theorem sharesAlike_of_builtIn (h : ∀ s ∈ c.sources, s.mapper.mapper.BuiltIn) (n : Name) :
    c.SharesAlike n := fun x hx y hy => Source.sharesAlike_of_builtIn (h x hx) (h y hy) n

/-- Some of the sources of a chain, in its order. -/
theorem resolveIn_sublist (hids : c.Distinct) (hshare : c.SharesAlike n)
    (h : ss.Sublist c.sources) (σ : Session) :
    (resolveIn n ss σ).1 = ss.findSome? (·.contributes n σ) ∧
      Run.asks (resolveIn n ss) σ = (reached n σ ss).flatMap (fun s => Run.asks (s.get n) σ) ∧
      Run.skips (resolveIn n ss) σ = (reached n σ ss).filterMap (·.skip? n σ) := by
  obtain ⟨hanswer, hasked, hskips⟩ := resolveIn_reached (hids.sublist (h.map _))
    (fun x hx y hy => hshare x (h.subset hx) y (h.subset hy)) fun s _ => Eq.refl (s.attempts n σ)
  exact ⟨hanswer, Run.adds_eq hasked, Run.adds_eq hskips⟩

/-- Sources that contribute nothing may be left out. -/
theorem findSome?_filter {q : Source → Bool} (h : ∀ s, q s = false → s.contributes n σ = none)
    (ss : List Source) :
    (ss.filter q).findSome? (·.contributes n σ) = ss.findSome? (·.contributes n σ) := by
  induction ss with
  | nil => rfl
  | cons s ss ih =>
      cases hq : q s with
      | true => rw [List.filter_cons_of_pos hq, List.findSome?_cons, List.findSome?_cons, ih]
      | false =>
          rw [List.filter_cons_of_neg (by rw [hq]; exact Bool.false_ne_true), ih,
            List.findSome?_cons, h s hq]

section Winner

variable {before after : List Source} {w : Source} {p : Property} (hids : c.Distinct)
  (hshare : c.SharesAlike n) (hsources : c.sources = before ++ w :: after)
  (hbefore : ∀ s ∈ before, s.contributes n σ = none)
include hids hshare hsources hbefore

/-- **Without the first source that could answer, those after it answer.** -/
theorem resolve_remove :
    ((c.remove w.name).resolve n σ).1 = (resolveIn n after σ).1 := by
  have hrest : (before ++ after).Sublist c.sources := by
    rw [hsources]
    exact List.Sublist.append_left (List.sublist_cons_self w after) before
  have hafter := (List.sublist_append_right before after).trans hrest
  rw [resolve, sources_remove hsources, (resolveIn_sublist hids hshare hrest σ).1,
    (resolveIn_sublist hids hshare hafter σ).1, List.findSome?_append,
    List.findSome?_eq_none_iff.mpr hbefore, Option.none_or]

variable (hw : w.contributes n σ = some p)
include hw

/-- **Nobody after the winner is asked.** -/
theorem asks_of_winner :
    Run.asks (c.resolve n) σ = (before ++ [w]).flatMap (fun s => Run.asks (s.get n) σ) ∧
      ∀ s ∈ after, ∀ key, (s.id, key) ∉ Run.asks (c.resolve n) σ := by
  obtain ⟨-, hasks, -⟩ := resolveIn_sublist hids hshare (.refl c.sources) σ
  rw [hsources, reached_append_cons hbefore hw, ← hsources] at hasks
  refine ⟨hasks, fun s hs key hmem => ?_⟩
  rw [resolve, hasks] at hmem
  obtain ⟨x, hx, hkey⟩ := List.mem_flatMap.mp hmem
  have hdisjoint := hids
  rw [Distinct, hsources, List.append_cons, List.map_append, List.nodup_append] at hdisjoint
  exact hdisjoint.2.2 x.id (List.mem_map_of_mem hx) s.id (List.mem_map_of_mem hs)
    (Source.id_of_mem_asks hkey).symm

/-- **What comes after the winner plays no part**, neither for the answer nor for the session. -/
theorem resolveIn_of_winner (others : List Source) :
    resolveIn n (before ++ w :: others) σ = c.resolve n σ := by
  have hsub : (before ++ [w]).Sublist c.sources := by
    rw [hsources, List.append_cons before w after]
    exact List.sublist_append_left _ _
  have hend : (resolveIn n (before ++ [w]) σ).1 = some p := by
    rw [(resolveIn_sublist hids hshare hsub σ).1, List.findSome?_append,
      List.findSome?_eq_none_iff.mpr hbefore, Option.none_or, List.findSome?_singleton, hw]
  rw [resolve, hsources, List.append_cons before w others, List.append_cons before w after,
    resolveIn_append_of_some hend, resolveIn_append_of_some hend]

/-- **Failures before the winner are noted**, once each. -/
theorem skips_of_winner : Run.skips (c.resolve n) σ = before.filterMap (·.skip? n σ) := by
  obtain ⟨-, -, hskips⟩ := resolveIn_sublist hids hshare (.refl c.sources) σ
  rw [hsources, reached_append_cons hbefore hw, ← hsources, List.filterMap_append,
    List.filterMap_cons, Source.skip?_of_contributes hw] at hskips
  exact hskips.trans (List.append_nil _)

end Winner

/-- **Precedence, isolation and short circuit.**  In a chain of sources that share caches alike, whatever
the session remembers:

* the answer is the property of the first source that contributes one, and it is the same without the
  sources that fail; no failure comes out of it;
* if `w` is this source, then those up to `w` are asked, each for the keys that it asks for by itself,
  and none after `w`; other sources after `w` change neither the answer nor the session; each source
  before `w` that fails is noted once; and without `w` the answer is that of the sources after it;
* if there is no such source, then all are asked, and each that fails is noted once;
* a source with a built-in mapper, whose cache holds nothing wrong and whose index is one of different
  keys, asks for each key at most once: first for the candidates, then for the other keys of the name,
  up to the first failure or value. -/
theorem resolve_precedence (c : Chain) (n : Name) (σ : Session) (hids : c.Distinct)
    (hshare : c.SharesAlike n) :
    ((c.resolve n σ).1 = c.sources.findSome? (·.contributes n σ) ∧
        (resolveIn n (c.sources.filter fun s => (s.failure? n σ).isNone) σ).1 = (c.resolve n σ).1) ∧
      (∀ before w after p, c.sources = before ++ w :: after →
        (∀ s ∈ before, s.contributes n σ = none) → w.contributes n σ = some p →
          Run.asks (c.resolve n) σ =
              (before ++ [w]).flatMap (fun s => Run.asks (s.get n) σ) ∧
            (∀ s ∈ after, ∀ key, (s.id, key) ∉ Run.asks (c.resolve n) σ) ∧
            (∀ after', resolveIn n (before ++ w :: after') σ = c.resolve n σ) ∧
            Run.skips (c.resolve n) σ = before.filterMap (·.skip? n σ) ∧
            ((c.remove w.name).resolve n σ).1 = (resolveIn n after σ).1) ∧
      ((∀ s ∈ c.sources, s.contributes n σ = none) →
        Run.asks (c.resolve n) σ = c.sources.flatMap (fun s => Run.asks (s.get n) σ) ∧
          Run.skips (c.resolve n) σ = c.sources.filterMap (·.skip? n σ)) ∧
      ∀ s ∈ c.sources, s.mapper.mapper.BuiltIn → σ.Trusts s.mapper →
        ∀ listed : List String, listed.Nodup →
          s.known σ = Index.ofKeys s.mapper.mapper listed →
          ∃ keys, Run.asks (s.get n) σ = keys.map (s.id, ·) ∧ keys.Nodup ∧
            s.Searches n (s.attempts n σ) keys (s.get n σ).1 := by
  obtain ⟨hanswer, hasks, hskips⟩ := resolveIn_sublist hids hshare (.refl c.sources) σ
  refine ⟨⟨hanswer, ?without⟩, ?winner, ?noWinner, ?search⟩
  case without =>
    rw [(resolveIn_sublist hids hshare List.filter_sublist σ).1,
      findSome?_filter fun s => Source.contributes_of_failure]
    exact hanswer.symm
  case winner =>
    intro before w after p hsources hbefore hw
    obtain ⟨hasked, hafter⟩ := asks_of_winner hids hshare hsources hbefore hw
    exact ⟨hasked, hafter, resolveIn_of_winner hids hshare hsources hbefore hw,
      skips_of_winner hids hshare hsources hbefore hw,
      resolve_remove hids hshare hsources hbefore⟩
  case noWinner =>
    intro hnone
    rw [reached_eq_self hnone] at hasks hskips
    exact ⟨hasks, hskips⟩
  case search =>
    intro s _ hm hσ listed hlisted hindex
    have hsearch := s.searches_trail n (s.attempts n σ)
    refine ⟨_, s.asks_get n σ, ?_, s.get_eq_tries n σ ▸ hsearch⟩
    exact (Source.nodup_keys_attempts hm hσ hlisted hindex n).sublist hsearch.sublist

open Source (contextPath)

/-- A script with one text, under a key that fails. -/
def brokenScript (key : String) : Script :=
  ⟨true, [(key, .text "broken")], [key], [(key, some "down")]⟩

def brokenStore : Source :=
  ⟨0, "store", .enumerable, (brokenScript "server.context-path").provider "store", ⟨Mapping.dotted, none⟩, none⟩

def workingFile : Source :=
  ⟨1, "file", .enumerable, (Entries.ofList [("server.context-path", .text "/app")]).provider "file",
    ⟨Mapping.dotted, none⟩, none⟩

def workingVariables : Source :=
  ⟨2, Environment.sourceName, .enumerable,
    Environment.snapshot Environment.sourceName none [("SERVER_CONTEXTPATH", some "/")],
    ⟨Mapping.environment true, none⟩, none⟩

/-- A store that is out of order, a file and the environment. -/
def threeChain : Chain := ⟨[brokenStore, workingFile, workingVariables], by decide⟩

/-- The store fails and the file answers; the environment is not asked. -/
theorem resolve_precedence_threeChain :
    threeChain.Distinct ∧ threeChain.SharesAlike contextPath ∧
      Run.asks (threeChain.resolve contextPath) .start =
        [(0, "server.context-path"), (1, "server.context-path")] ∧
      (∀ key, (2, key) ∉ Run.asks (threeChain.resolve contextPath) .start) ∧
      (Run.skips (threeChain.resolve contextPath) .start).length = 1 ∧
      ((threeChain.remove "file").resolve contextPath .start).1 =
        (resolveIn contextPath [workingVariables] .start).1 ∧
      ∃ keys, Run.asks (workingFile.get contextPath) .start = keys.map (1, ·) ∧ keys.Nodup ∧
        workingFile.Searches contextPath (workingFile.attempts contextPath .start) keys
          (workingFile.get contextPath .start).1 := by
  have hids : threeChain.Distinct := by decide
  have hshare : threeChain.SharesAlike contextPath := by
    refine sharesAlike_of_builtIn (List.forall_mem_cons.mpr ⟨.dotted, ?_⟩) contextPath
    exact List.forall_mem_cons.mpr ⟨.dotted, List.forall_mem_singleton.mpr (.environment true)⟩
  have hbefore : ∀ s ∈ [brokenStore], s.contributes contextPath .start = none :=
    List.forall_mem_singleton.mpr (Option.isNone_iff_eq_none.mp (by decide +kernel))
  have hsome : (workingFile.contributes contextPath .start).isSome = true := by decide +kernel
  obtain ⟨p, hp⟩ := Option.isSome_iff_exists.mp hsome
  obtain ⟨-, hwinner, -, hsearch⟩ := resolve_precedence threeChain contextPath .start hids hshare
  obtain ⟨hasked, hafter, -, hskips, hremove⟩ :=
    hwinner [brokenStore] workingFile [workingVariables] p rfl hbefore hp
  have hkeys : ([brokenStore] ++ [workingFile]).flatMap (fun s => Run.asks (s.get contextPath) .start) =
      [(0, "server.context-path"), (1, "server.context-path")] := by decide +kernel
  have hnoted : ([brokenStore].filterMap (·.skip? contextPath .start)).length = 1 := by decide +kernel
  have hfile : workingFile ∈ threeChain.sources := List.mem_cons_of_mem _ List.mem_cons_self
  refine ⟨hids, hshare, hasked.trans hkeys, hafter workingVariables (List.mem_singleton_self _),
    hskips ▸ hnoted, hremove, ?_⟩
  exact hsearch workingFile hfile .dotted (fun _ hid => nomatch hid) _ (List.nodup_singleton _)
    (Session.faithful_start workingFile).known_eq

/-! ## Mappers that share a cache and differ -/

/-- A source that is seen through a table in which `k` is the key of the one name that it stands for,
with a cache for all tables. -/
def tableSource (id : SourceId) (p : Provider) (meant : String) : Source where
  id := id
  name := p.name
  capability := .enumerable
  provider := p
  mapper := ⟨Mapper.ofTables "tables" [(meant, ["k"])] [("k", meant)], some (.shared "tables")⟩
  derivedFrom := none

/-- The first source fails under the key that its table has for the name; the second one has no key for
it in its table. -/
def tableChain : Chain :=
  ⟨[tableSource 0 ((brokenScript "k").provider "first") "server.context-path",
    tableSource 1 ((Entries.ofList [("k", .text "second")]).provider "second") "other"], by decide⟩

/-- The list that the failing source puts into the cache answers for the second source.  By itself none
of the two contributes a property, and without the failing source there is no answer. -/
theorem resolve_without_failing_differs :
    tableChain.Distinct ∧
      let working := tableChain.sources.filter fun s => (s.failure? contextPath .start).isNone
      Source.namesOf working = ["second"] ∧
        (tableChain.sources.findSome? (·.contributes contextPath .start)).isSome = false ∧
        (tableChain.resolve contextPath .start).1.isSome = true ∧
        (resolveIn contextPath working .start).1.isSome = false := by
  decide +kernel

end Chain

end LayeredConfig
