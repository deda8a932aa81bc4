import LayeredConfig.Proofs.Replies
import LayeredConfig.Provider.Script

/-!
# LayeredConfig.Proofs.KeyIsolation

How far a single raw key reaches.

1. Two providers can be the same but for one key, which may have another value or none, be listed or
   not, or fail (`Provider.SameBut`).  Every change of a script is of that kind.
2. A source with a direct mapper does not try the key for names that it does not stand for, so with
   either provider it answers alike (`Source.get_behind`).
3. Two chains that differ in such a provider are asked in parallel sessions (`Session.Parallel`): what
   is remembered in one is remembered in the other, but for names that the key stands for.  Any
   question keeps sessions parallel (`Session.Parallel.resolve`), so all names that the key does not
   stand for are resolved alike, whatever was asked before (`Chain.resolve_reconnect`).
-/

namespace LayeredConfig

/-! ## Providers that differ in one key -/

/-- Two providers are the same but for one key. -/
structure Provider.SameBut (k : String) (p q : Provider) : Prop where
  get : ∀ key, key ≠ k → p.get key = q.get key
  origin : ∀ key, key ≠ k → p.origin key = q.origin key
  keys : p.keys.filter (· ≠ k) = q.keys.filter (· ≠ k)

namespace Script

variable (name : String) (s : Script) {key other : String}

theorem lookup_reverse_append_of_ne {β : Type} (h : other ≠ key) (l : List (String × β)) (b : β) :
    (l ++ [(key, b)]).reverse.lookup other = l.reverse.lookup other := by
  have : (other == key) = false := beq_eq_false_iff_ne.mpr h
  rw [List.reverse_append, List.reverse_singleton, List.singleton_append, List.lookup_cons, this]

theorem lookup_reverse_filter_of_ne {β : Type} (h : other ≠ key) (l : List (String × β)) :
    (l.filter (·.1 ≠ key)).reverse.lookup other = l.reverse.lookup other := by
  rw [← List.filter_reverse, Session.lookup_filter_of_ne h]

variable (key)

/-- Setting the value of a key changes nothing at other keys. -/
theorem sameBut_set (v : Value) : (s.provider name).SameBut key ((s.set key v).provider name) where
  get := fun other h => by simp only [provider, set, lookup_reverse_append_of_ne h]
  origin := fun _ _ => rfl
  keys := by
    simp only [provider, set]
    split
    · rfl
    · simp [List.filter_append]

/-- Neither does taking the value away. -/
theorem sameBut_unset : (s.provider name).SameBut key ((s.unset key).provider name) where
  get := fun other h => by simp only [provider, unset, lookup_reverse_filter_of_ne h]
  origin := fun _ _ => rfl
  keys := by simp only [provider, unset, List.filter_filter, Bool.and_self]

/-- Neither does making the key fail. -/
theorem sameBut_fail (reason : Option String) :
    (s.provider name).SameBut key ((s.fail key reason).provider name) where
  get := fun other h => by simp only [provider, fail, lookup_reverse_append_of_ne h]
  origin := fun _ _ => rfl
  keys := rfl

/-- Neither does making it work again. -/
theorem sameBut_heal : (s.provider name).SameBut key ((s.heal key).provider name) where
  get := fun other h => by simp only [provider, heal, lookup_reverse_filter_of_ne h]
  origin := fun _ _ => rfl
  keys := rfl

end Script

/-! ## One source -/

namespace Source

/-- The source with another provider behind it. -/
def behind (s : Source) (p : Provider) : Source := { s with provider := p }

variable {s : Source} {p : Provider} {k : String} {n : Name}

/-- The same keys are tried for a name that the one key does not stand for. -/
theorem searched_behind (hp : s.provider.SameBut k p)
    (hk : s.mapper.mapper.standsFor n k = false) : (s.behind p).searched n = s.searched n := by
  have hfilter (keys : List String) : keys.filter (s.mapper.mapper.standsFor n) =
      (keys.filter (· ≠ k)).filter (s.mapper.mapper.standsFor n) := by
    rw [List.filter_filter]
    refine List.filter_congr fun key _ => ?_
    by_cases hkey : key = k
    · rw [hkey, hk, Bool.false_and]
    · rw [decide_eq_true hkey, Bool.and_true]
  have hkeys : p.keys.filter (s.mapper.mapper.standsFor n) =
      s.provider.keys.filter (s.mapper.mapper.standsFor n) := by
    rw [hfilter, hfilter s.provider.keys, hp.keys]
  rw [searched, searched, behind]
  simp only [hkeys]

/-- **A key plays no part in the answers for names that it does not stand for.** -/
theorem get_behind (hm : s.mapper.mapper.Direct) (hp : s.provider.SameBut k p)
    (hk : s.mapper.mapper.standsFor n k = false) {σ τ : Session} (hσ : σ.Faithful s)
    (hlists : σ.Trusts s.mapper) (hτ : τ.Faithful (s.behind p)) (hlists' : τ.Trusts s.mapper) :
    (s.get n σ).1 = ((s.behind p).get n τ).1 := by
  have hmapper : (s.behind p).mapper.mapper.Direct := hm
  have hget : ((s.behind p).get n τ).1 = (s.behind p).first n ((s.behind p).searched n) :=
    get_of_direct hmapper hlists' hτ
  have hne : ∀ key ∈ s.searched n, key ≠ k := by
    rintro key hkey rfl
    rw [standsFor_of_mem_searched hm hkey] at hk
    contradiction
  rw [get_of_direct hm hlists hσ, hget, searched_behind hp hk]
  refine first_congr (fun key hkey => hp.get key (hne key hkey)) fun key hkey => ?_
  rw [originOf, hp.origin key (hne key hkey), originOf]
  rfl

end Source

/-! ## What the mapper of the source finds in its cache -/

/-- The mapper of a source is built-in, and so are the mappers of the chain that share its cache. -/
structure Chain.KeepsLists (c : Chain) (s : Source) : Prop where
  builtIn : s.mapper.mapper.BuiltIn
  shared : ∀ x ∈ c.sources, ∀ id, s.mapper.cache = some id → x.mapper.cache = some id →
    x.mapper.mapper.BuiltIn

/-- **A question puts nothing wrong into the cache.** -/
theorem Chain.KeepsLists.get {c : Chain} {s : Source} (h : c.KeepsLists s) {x y : Source}
    (hx : x ∈ c.sources) (hy : y.mapper = x.mapper) (n : Name) :
    Run.Maintains (·.Trusts s.mapper) (y.get n) := by
  intro σ hσ id hid m cs hcs
  rw [Source.entry_get, hy] at hcs
  exact hσ.candidates h.builtIn (h.shared x hx) n id hid m cs hcs

/-! ## Parallel sessions -/

/-- Sessions of two chains that differ in the provider of one source, which are the same but for one
key: the caches have the same for names that the key does not stand for, the other sources know the
same indexes, and the one source has its own index and right candidates in each. -/
structure Session.Parallel (c : Chain) (s : Source) (p : Provider) (k : String) (σ τ : Session) :
    Prop where
  entry : ∀ n, s.mapper.mapper.standsFor n k = false →
    ∀ id d, σ.entry id (d, n.canonical) = τ.entry id (d, n.canonical)
  known : ∀ x ∈ c.sources, x.id ≠ s.id → x.known σ = x.known τ
  left : σ.Faithful s
  right : τ.Faithful (s.behind p)
  leftLists : σ.Trusts s.mapper
  rightLists : τ.Trusts s.mapper

namespace Session.Parallel

variable {c : Chain} {s : Source} {p : Provider} {k : String} {σ τ : Session}

/-- Before the index of the source is built, one session is parallel to itself. -/
theorem of_index?_eq_none (h : σ.index? s.id = none) (hlists : σ.Trusts s.mapper) :
    Parallel c s p k σ σ where
  entry := fun _ _ _ _ => rfl
  known := fun _ _ _ => rfl
  left := faithful_of_index?_eq_none h
  right := faithful_of_index?_eq_none h
  leftLists := hlists
  rightLists := hlists

/-- The source of the second chain in the place of one of the first. -/
def counterpart (s : Source) (p : Provider) (x : Source) : Source :=
  if x.id = s.id then x.behind p else x

theorem id_counterpart (x : Source) : (counterpart s p x).id = x.id := by
  rw [counterpart]
  split <;> rfl

theorem mapper_counterpart (x : Source) : (counterpart s p x).mapper = x.mapper := by
  rw [counterpart]
  split <;> rfl

theorem counterpart_self : counterpart s p s = s.behind p := if_pos rfl

theorem counterpart_of_ne {x : Source} (h : x.id ≠ s.id) : counterpart s p x = x := if_neg h

/-- Reconnecting puts the counterpart of each source in its place. -/
theorem sources_reconnect (c : Chain) (s : Source) (p : Provider) :
    (c.reconnect s.id p).sources = c.sources.map (counterpart s p) := rfl

/-- Sources of one number have counterparts with one index. -/
theorem newIndex_counterpart (hids : c.Distinct) {x y : Source} (hx : x ∈ c.sources)
    (hy : y ∈ c.sources) (h : (counterpart s p x).id = (counterpart s p y).id) :
    (counterpart s p x).newIndex = (counterpart s p y).newIndex := by
  rw [id_counterpart, id_counterpart] at h
  rw [hids.eq_of_id_eq hx hy h]

/-- **Asking a source and its counterpart keeps sessions parallel.**  Both have one mapper, so the
caches get the same. -/
theorem get (hids : c.Distinct) (hs : s ∈ c.sources) (hlists : c.KeepsLists s)
    (h : Parallel c s p k σ τ) {x : Source} (hx : x ∈ c.sources) (n : Name) :
    Parallel c s p k (x.get n σ).2 ((counterpart s p x).get n τ).2 where
  entry := fun m hm id d => by
    rw [Source.entry_get, Source.entry_get, CachedMapper.entry_candidates,
      CachedMapper.entry_candidates, mapper_counterpart, h.entry m hm]
  known := fun y hy hne => by
    have hleft : y.id = x.id → y.newIndex = x.newIndex := fun hid => by
      rw [hids.eq_of_id_eq hy hx hid]
    have hright : y.id = (counterpart s p x).id → y.newIndex = (counterpart s p x).newIndex := by
      have := newIndex_counterpart (s := s) (p := p) hids hy hx
      rwa [counterpart_of_ne hne] at this
    rw [Source.known_get hleft, Source.known_get hright, h.known y hy hne]
  left := Source.faithful_get (fun hid => by rw [hids.eq_of_id_eq hs hx hid]) n h.left
  right := by
    refine Source.faithful_get ?_ n h.right
    have := newIndex_counterpart (s := s) (p := p) hids hs hx
    rwa [counterpart_self] at this
  leftLists := hlists.get hx rfl n σ h.leftLists
  rightLists := hlists.get hx (mapper_counterpart x) n τ h.rightLists

/-- A source and its counterpart answer alike for names that the key does not stand for. -/
theorem matches_get (hids : c.Distinct) (hs : s ∈ c.sources) (hm : s.mapper.mapper.Direct)
    (hlists : c.KeepsLists s) (hp : s.provider.SameBut k p) {n : Name}
    (hk : s.mapper.mapper.standsFor n k = false) {x : Source} (hx : x ∈ c.sources) :
    Run.Matches (Parallel c s p k) (x.get n) ((counterpart s p x).get n) := by
  intro σ τ h
  refine ⟨?_, h.get hids hs hlists hx n⟩
  by_cases hid : x.id = s.id
  · rw [hids.eq_of_id_eq hx hs hid, counterpart_self]
    exact Source.get_behind hm hp hk h.left h.leftLists h.right h.rightLists
  · have hentry : x.mapper.cache.bind (σ.entry · (x.mapper.cacheKey n)) =
        x.mapper.cache.bind (τ.entry · (x.mapper.cacheKey n)) := by
      cases x.mapper.cache with
      | none => rfl
      | some id => exact h.entry n hk id _
    rw [counterpart_of_ne hid, Source.get_apply, Source.get_apply, CachedMapper.listed_eq,
      CachedMapper.listed_eq, CachedMapper.candidates_fst, CachedMapper.candidates_fst, hentry,
      h.known x hx hid]

/-- **Chains answer alike for names that the key does not stand for**, and their sessions stay
parallel. -/
theorem matches_resolve (hids : c.Distinct) (hs : s ∈ c.sources) (hm : s.mapper.mapper.Direct)
    (hlists : c.KeepsLists s) (hp : s.provider.SameBut k p) {n : Name}
    (hk : s.mapper.mapper.standsFor n k = false) :
    Run.Matches (Parallel c s p k) (c.resolve n) ((c.reconnect s.id p).resolve n) := by
  have hsources : ∀ ss : List Source, (∀ x ∈ ss, x ∈ c.sources) →
      List.Forall₂ (fun x y => Run.Matches (Parallel c s p k) (x.get n) (y.get n)) ss
        (ss.map (counterpart s p)) := by
    intro ss hss
    induction ss with
    | nil => exact .nil
    | cons x ss ih =>
        have ⟨hx, hss⟩ := List.forall_mem_cons.mp hss
        exact .cons (matches_get hids hs hm hlists hp hk hx) (ih hss)
  have hnote : ∀ e e', Run.Matches (Parallel c s p k) (Run.note e) (Run.note e') :=
    fun _ _ _ _ h => ⟨rfl, h.entry, h.known, h.left, h.right, h.leftLists, h.rightLists⟩
  exact Chain.resolveIn_matches hnote (hsources c.sources fun _ h => h)

/-- A question to the reconnected chain changes no index that its sources know. -/
theorem known_reconnect (hids : c.Distinct) {x : Source} (hx : x ∈ c.sources) (n : Name)
    (τ : Session) :
    (counterpart s p x).known ((c.reconnect s.id p).resolve n τ).2 = (counterpart s p x).known τ := by
  refine Chain.known_resolveIn (fun y' hy' hid => ?_) n τ
  rw [sources_reconnect, List.mem_map] at hy'
  obtain ⟨y, hy, rfl⟩ := hy'
  exact newIndex_counterpart hids hx hy hid

/-- **Any question keeps sessions parallel**, also one about a name that the key stands for: of the
caches it changes only what is kept for names that agree. -/
theorem resolve (hids : c.Distinct) (hs : s ∈ c.sources) (hm : s.mapper.mapper.Direct)
    (hlists : c.KeepsLists s) (hp : s.provider.SameBut k p) (h : Parallel c s p k σ τ)
    (n : Name) : Parallel c s p k (c.resolve n σ).2 ((c.reconnect s.id p).resolve n τ).2 := by
  cases hk : s.mapper.mapper.standsFor n k with
  | false => exact (matches_resolve hids hs hm hlists hp hk σ τ h).2
  | true =>
      have hleft {x : Source} (hx : x ∈ c.sources) : x.known (c.resolve n σ).2 = x.known σ :=
        Chain.known_resolveIn (fun y hy hid => by rw [hids.eq_of_id_eq hx hy hid]) n σ
      have hright {x : Source} (hx : x ∈ c.sources) := known_reconnect (s := s) (p := p) hids hx n τ
      have hcompositional : Run.Compositional (@Run.Maintains (·.Trusts s.mapper)) :=
        Run.maintains_compositional fun _ _ h => h
      constructor
      case entry =>
        intro m hm id d
        have hne : m.canonical ≠ n.canonical := by
          intro heq
          rw [Mapper.standsFor_congr hk, Name.agrees_of_canonical_eq heq.symm] at hm
          contradiction
        rw [Chain.resolve, Chain.resolve, Chain.entry_resolveIn_of_ne hne,
          Chain.entry_resolveIn_of_ne hne, h.entry m hm]
      case known =>
        intro x hx hne
        have hsame := hright hx
        rw [counterpart_of_ne hne] at hsame
        rw [hleft hx, hsame, h.known x hx hne]
      case left => exact faithful_of_known_eq ((hleft hs).trans h.left.known_eq)
      case right =>
        have hsame := hright hs
        rw [counterpart_self] at hsame
        exact faithful_of_known_eq (hsame.trans h.right.known_eq)
      case leftLists =>
        exact Chain.compositional_resolveIn hcompositional (fun x hx => hlists.get hx rfl n) σ
          h.leftLists
      case rightLists =>
        refine Chain.compositional_resolveIn hcompositional (fun y hy => ?_) τ h.rightLists
        rw [sources_reconnect, List.mem_map] at hy
        obtain ⟨x, hx, rfl⟩ := hy
        exact hlists.get hx (mapper_counterpart x) n

end Session.Parallel

/-! ## Chains -/

namespace Chain

/-- The session after the chain was asked for names. -/
def afterAsking (c : Chain) : List Name → Session → Session
  | [], σ => σ
  | n :: ns, σ => c.afterAsking ns (c.resolve n σ).2

/-- **A raw key reaches no further than the name it stands for.**  In two chains that are the same but
for one key of one source, seen through the dotted mapper or the environment mapper without lists,
every name that the key does not stand for is resolved alike, whatever names both were asked for
before.  Mappers that share a cache with that of the source, if it has one, are built-in. -/
theorem resolve_reconnect (c : Chain) (s : Source) (p : Provider) (k : String) (n : Name)
    (before : List Name) {σ τ : Session} (hids : c.Distinct) (hs : s ∈ c.sources)
    (hmapper : s.mapper.mapper = Mapping.dotted ∨ s.mapper.mapper = Mapping.environment false)
    (hshared : ∀ x ∈ c.sources, ∀ id, s.mapper.cache = some id → x.mapper.cache = some id →
      x.mapper.mapper.BuiltIn)
    (hp : s.provider.SameBut k p) (hk : s.mapper.mapper.standsFor n k = false)
    (h : Session.Parallel c s p k σ τ) :
    (c.resolve n (c.afterAsking before σ)).1 =
      ((c.reconnect s.id p).resolve n ((c.reconnect s.id p).afterAsking before τ)).1 := by
  have hm := Mapping.direct_of_eq hmapper
  have hlists : c.KeepsLists s := ⟨Mapping.builtIn_of_eq hmapper, hshared⟩
  induction before generalizing σ τ with
  | nil => exact (Session.Parallel.matches_resolve hids hs hm hlists hp hk σ τ h).1
  | cons m ms ih => exact ih (h.resolve hids hs hm hlists hp m)

/-- A source whose provider is set by hand, with a cache of its own. -/
def scriptedSource (s : Script) : Source where
  id := 0
  name := "store"
  capability := .enumerable
  provider := s.provider "store"
  mapper := ⟨Mapping.environment false, some (.own 0)⟩
  derivedFrom := none

/-- A store with the keys `HOST` and `Port`. -/
def storeScript : Script := ⟨true, [("HOST", .text "a"), ("Port", .text "1")], ["HOST", "Port"], []⟩

def storeChain : Chain := ⟨[scriptedSource storeScript], by decide⟩

/-- With `Port` out of order, `host` is resolved as before. -/
theorem resolve_reconnect_storeChain :
    let s := scriptedSource storeScript
    let p := (storeScript.fail "Port" none).provider "store"
    let host : Name :=
      ⟨[.literal ⟨"host", by simp [isReserved], by simp [isSeparator]⟩], List.cons_ne_nil _ _⟩
    storeChain.Distinct ∧ s ∈ storeChain.sources ∧
      (∀ x ∈ storeChain.sources, x.mapper.mapper.BuiltIn) ∧ s.provider.SameBut "Port" p ∧
      s.mapper.mapper.standsFor host "Port" = false ∧
      Session.Parallel storeChain s p "Port" .start .start ∧
      (storeChain.resolve host (storeChain.afterAsking [host] .start)).1 =
        ((storeChain.reconnect s.id p).resolve host
          ((storeChain.reconnect s.id p).afterAsking [host] .start)).1 := by
  intro s p host
  have hids : storeChain.Distinct := List.nodup_singleton _
  have hs : s ∈ storeChain.sources := List.mem_singleton_self _
  have hbuiltIn : ∀ x ∈ storeChain.sources, x.mapper.mapper.BuiltIn :=
    List.forall_mem_singleton.mpr (.environment false)
  have hp : s.provider.SameBut "Port" p := Script.sameBut_fail "store" storeScript "Port" none
  have hk : s.mapper.mapper.standsFor host "Port" = false := by decide +kernel
  have h : Session.Parallel storeChain s p "Port" .start .start :=
    .of_index?_eq_none rfl (Session.trusts_start _)
  exact ⟨hids, hs, hbuiltIn, hp, hk, h,
    resolve_reconnect storeChain s p "Port" host [host] hids hs (.inr rfl)
      (fun x hx _ _ _ => hbuiltIn x hx) hp hk h⟩

end Chain

end LayeredConfig
