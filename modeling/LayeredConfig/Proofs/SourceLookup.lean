import LayeredConfig.Proofs.CacheKeys
import LayeredConfig.Proofs.KeyIndex
import LayeredConfig.Proofs.Listing
import LayeredConfig.Proofs.MapperSoundness

/-!
# LayeredConfig.Proofs.SourceLookup

What a source finds.

1. The dotted mapper and the environment mapper without lists are *direct*: every candidate is for
   the name itself, under a key that stands for it (`Mapper.Direct`).
2. A source with a direct mapper tries keys that stand for the name, and no others: the candidates,
   and then the listed keys that were no candidates (`Source.get_of_direct`).
3. Over stored entries it finds a property if and only if there is a key that stands for the name
   (`Source.lookup_spec`).
-/

namespace LayeredConfig

/-! ## Direct mappers -/

namespace Mapper

/-- The raw keys that a mapper gives for a name. -/
def keysFor (m : Mapper) (n : Name) : List String :=
  match m.candidates n with
  | .ok cs => cs.map (·.key)
  | .error _ => []

/-- A mapper whose candidates are all for the name itself, under keys that stand for it. -/
structure Direct (m : Mapper) : Prop where
  candidates : ∀ n, m.candidates n = .ok ((m.keysFor n).map (.plain · n))
  stands : ∀ n, ∀ key ∈ m.keysFor n, m.standsFor n key = true

/-- The empty key stands for no name. -/
theorem BuiltIn.standsFor_empty {m : Mapper} (h : m.BuiltIn) (n : Name) :
    m.standsFor n "" = false := by
  cases h with
  | dotted => rfl
  | environment withLists => cases withLists <;> rfl

end Mapper

namespace Mapping

/-- Dotted keys are tried in their order. -/
theorem keysFor_dotted (n : Name) : dotted.keysFor n = dottedKeys n := by
  simp [Mapper.keysFor, dotted, Function.comp_def, Candidate.plain]

/-- Without lists, one variable is tried. -/
theorem keysFor_environment (n : Name) :
    (environment false).keysFor n = [environmentKey n.elements] := rfl

/-- Dotted keys are direct: their values are taken as they are. -/
theorem direct_dotted : dotted.Direct where
  candidates := fun n => by
    rw [keysFor_dotted]
    rfl
  stands := fun n key hkey => by
    rw [keysFor_dotted] at hkey
    exact Mapper.standsFor_iff.mpr (nameOf_dottedKeys hkey)

/-- The variable of a name stands for it. -/
theorem standsFor_environmentKey (withLists : Bool) (n : Name) :
    (environment withLists).standsFor n (environmentKey n.elements) = true :=
  Mapper.standsFor_iff.mpr ⟨_, environmentName_environmentKey withLists n, agrees_lowered n⟩

/-- Variables are direct unless lists are read. -/
theorem direct_environment : (environment false).Direct where
  candidates := fun _ => rfl
  stands := fun n key hkey => by
    rw [keysFor_environment, List.mem_singleton] at hkey
    exact hkey ▸ standsFor_environmentKey false n

theorem direct_of_eq {m : Mapper} (h : m = dotted ∨ m = environment false) : m.Direct := by
  cases h with
  | inl h => exact h ▸ direct_dotted
  | inr h => exact h ▸ direct_environment

theorem builtIn_of_eq {m : Mapper} (h : m = dotted ∨ m = environment false) : m.BuiltIn := by
  cases h with
  | inl h => exact h ▸ .dotted
  | inr h => exact h ▸ .environment false

end Mapping

namespace Source

/-! ## Trying keys -/

/-- The property under the first of the keys that has a value, or the first failure. -/
def first (s : Source) (n : Name) : List String → Except ProviderError (Option Property)
  | [] => .ok none
  | key :: keys =>
    match s.provider.get key with
    | .error e => .error e
    | .ok none => s.first n keys
    | .ok (some v) => .ok (some ⟨n, v, s.originOf key⟩)

variable {s : Source} {n : Name}

/-- Plain candidates are tried as their keys are. -/
theorem tries_plain (s : Source) (n : Name) (keys : List String) :
    s.tries n (keys.map (.plain · n)) = s.first n keys := by
  induction keys with
  | nil => rfl
  | cons key keys ih =>
      have happlies : (Candidate.plain key n).applies n = true := n.agrees_refl
      rw [List.map_cons, tries, if_pos happlies, first, ih]
      rfl

/-- Further keys are tried only if the first ones have nothing; a failure ends the search. -/
theorem first_append (s : Source) (n : Name) (keys keys' : List String) :
    s.first n (keys ++ keys') = match s.first n keys with
      | .ok none => s.first n keys'
      | found => found := by
  have happend := s.tries_append n (keys.map (.plain · n)) (keys'.map (.plain · n))
  rw [← List.map_append, tries_plain, tries_plain, tries_plain] at happend
  exact happend

/-- Sources that answer alike for the keys, and give them the same origins, find the same. -/
theorem first_congr {s' : Source} {keys : List String}
    (hget : ∀ key ∈ keys, s.provider.get key = s'.provider.get key)
    (horigin : ∀ key ∈ keys, s.originOf key = s'.originOf key) :
    s.first n keys = s'.first n keys := by
  induction keys with
  | nil => rfl
  | cons key keys ih =>
      have ⟨hg, hgs⟩ := List.forall_mem_cons.mp hget
      have ⟨ho, hos⟩ := List.forall_mem_cons.mp horigin
      rw [first, first, hg, ho, ih hgs hos]

/-! ## The keys that are tried -/

/-- The raw keys that a source tries for a name, in order. -/
def searched (s : Source) (n : Name) : List String :=
  s.mapper.mapper.keysFor n ++ match s.capability with
    | .lookupOnly => []
    | .enumerable =>
      (s.provider.keys.filter (s.mapper.mapper.standsFor n)).filter
        (· ∉ s.mapper.mapper.keysFor n)

/-- The candidates after the first ones are for the keys that are no candidates. -/
theorem others_plain (ix : Index) (keys : List String) (n : Name) :
    others ix (keys.map (.plain · n)) n = ((ix.keysOf n).filter (· ∉ keys)).map (.plain · n) := by
  rw [others]
  congr 1
  refine List.filter_congr fun key _ => ?_
  rw [List.any_map, Bool.eq_iff_iff, Bool.not_eq_true', List.any_eq_false, decide_eq_true_eq]
  constructor
  · intro h hkey
    exact h key hkey (beq_self_eq_true key)
  · intro h k hk he
    exact h (beq_iff_eq.mp he ▸ hk)

/-- What a direct mapper gives and what the own index holds are the keys that are tried. -/
theorem answer_of_direct (s : Source) (n : Name) :
    s.answer n ((s.mapper.mapper.keysFor n).map (.plain · n)) s.newIndex =
      s.first n (s.searched n) := by
  rw [answer, tries_plain, others_plain, newIndex, Index.keysOf_ofKeys, tries_plain, searched]
  cases s.capability with
  | lookupOnly =>
      rw [List.append_nil]
      cases s.first n (s.mapper.mapper.keysFor n) with
      | error e => rfl
      | ok found => cases found <;> rfl
  | enumerable => exact (first_append s n _ _).symm

/-- **A source with a direct mapper looks under the keys that it gives and then under those that it
lists**, also where the candidates are kept in a cache. -/
theorem get_of_direct (hm : s.mapper.mapper.Direct) {σ : Session} (hlists : σ.Trusts s.mapper)
    (hσ : σ.Faithful s) : (s.get n σ).1 = s.first n (s.searched n) := by
  have hlisted : s.mapper.mapper.listed n = (s.mapper.mapper.keysFor n).map (.plain · n) := by
    rw [Mapper.listed, hm.candidates]
  have hcandidates : s.mapper.mapper.candidates n = .ok (s.mapper.mapper.listed n) := by
    rw [hlisted, hm.candidates]
  rw [get_apply, answer_congr _ (hlists.listed_alike hcandidates), hlisted, hσ.known_eq,
    answer_of_direct]

/-- A restricted source looks under the keys that the mapper gives, and under no others. -/
theorem get_restricted_of_direct (hm : s.mapper.mapper.Direct) {σ : Session}
    (hlists : σ.Trusts s.mapper) (hσ : σ.Faithful s) :
    (s.restricted.get n σ).1 = s.first n (s.mapper.mapper.keysFor n) := by
  have hmapper : s.restricted.mapper.mapper.Direct := hm
  have hget : (s.restricted.get n σ).1 = s.restricted.first n (s.restricted.searched n) :=
    get_of_direct hmapper hlists hσ
  have hsearched : s.restricted.searched n = s.mapper.mapper.keysFor n := List.append_nil _
  rw [hget, hsearched]
  exact first_congr (fun _ _ => rfl) fun _ _ => rfl

/-- **Only keys that stand for the name are tried.** -/
theorem standsFor_of_mem_searched (hm : s.mapper.mapper.Direct) {key : String}
    (h : key ∈ s.searched n) : s.mapper.mapper.standsFor n key = true := by
  rw [searched] at h
  cases List.mem_append.mp h with
  | inl hkey => exact hm.stands n key hkey
  | inr hkey =>
      cases hcap : s.capability with
      | lookupOnly =>
          rw [hcap] at hkey
          exact nomatch hkey
      | enumerable =>
          rw [hcap] at hkey
          exact (List.mem_filter.mp (List.mem_filter.mp hkey).1).2

end Source

/-! ## The first key with a value -/

namespace Provider

/-- The first of the keys that has a value. -/
inductive FirstIn (p : Provider) : List String → String → Prop where
  | here {key : String} {keys : List String} (has : p.Has key) : FirstIn p (key :: keys) key
  | later {k key : String} {keys : List String} (hk : ¬ p.Has k) (rest : FirstIn p keys key) :
      FirstIn p (k :: keys) key

variable {p : Provider} {key k : String} {keys keys' : List String}

/-- The first key that the provider has is the front one, or else the first of the others. -/
theorem firstIn_cons_iff :
    p.FirstIn (k :: keys) key ↔ p.Has k ∧ key = k ∨ ¬ p.Has k ∧ p.FirstIn keys key := by
  constructor
  · intro h
    cases h with
    | here has => exact .inl ⟨has, rfl⟩
    | later hk rest => exact .inr ⟨hk, rest⟩
  · rintro (⟨has, rfl⟩ | ⟨hk, rest⟩)
    · exact .here has
    · exact .later hk rest

theorem FirstIn.mem_has (h : p.FirstIn keys key) : key ∈ keys ∧ p.Has key := by
  induction h with
  | here has => exact ⟨List.mem_cons_self, has⟩
  | later _ _ ih => exact ⟨List.mem_cons_of_mem _ ih.1, ih.2⟩

/-- There is a first key if the provider has any. -/
theorem exists_firstIn_iff : (∃ key, p.FirstIn keys key) ↔ ∃ key ∈ keys, p.Has key := by
  refine ⟨fun ⟨key, h⟩ => ⟨key, h.mem_has⟩, ?_⟩
  rintro ⟨key, hkey, has⟩
  induction keys with
  | nil => exact nomatch hkey
  | cons k keys ih =>
      by_cases hk : p.Has k
      · exact ⟨k, .here hk⟩
      · have hne : key ≠ k := fun he => hk (he ▸ has)
        obtain ⟨first, hfirst⟩ := ih ((List.mem_cons.mp hkey).resolve_left hne)
        exact ⟨first, .later hk hfirst⟩

/-- The first key of two lists is that of the one, or that of the other if the one has none. -/
theorem firstIn_append_iff : p.FirstIn (keys ++ keys') key ↔
    p.FirstIn keys key ∨ (∀ k ∈ keys, ¬ p.Has k) ∧ p.FirstIn keys' key := by
  induction keys with
  | nil => simpa using fun h : p.FirstIn [] key => nomatch h
  | cons k keys ih =>
      rw [List.cons_append, firstIn_cons_iff, firstIn_cons_iff, ih, List.forall_mem_cons]
      tauto

/-- Of ascending keys that all have values, the first is the least. -/
theorem firstIn_iff_least (h : keys.Pairwise (· < ·)) (has : ∀ k ∈ keys, p.Has k) :
    p.FirstIn keys key ↔ key ∈ keys ∧ ∀ k ∈ keys, key ≤ k := by
  cases keys with
  | nil =>
      refine ⟨fun h => (nomatch h), fun h => ?_⟩
      exact nomatch h.1
  | cons k keys =>
      have ⟨hk, hkeys⟩ := List.pairwise_cons.mp h
      have hhas := has k List.mem_cons_self
      rw [firstIn_cons_iff]
      constructor
      · rintro (⟨-, rfl⟩ | ⟨hno, -⟩)
        · refine ⟨List.mem_cons_self, fun k' hk' => ?_⟩
          cases List.mem_cons.mp hk' with
          | inl he => exact he ▸ String.le_refl k'
          | inr hin => exact String.not_lt.mp (String.lt_asymm (hk k' hin))
        · exact absurd hhas hno
      · rintro ⟨hkey, hleast⟩
        cases List.mem_cons.mp hkey with
        | inl he => exact .inl ⟨hhas, he⟩
        | inr hin => exact absurd (hk key hin) (String.not_lt.mpr (hleast k List.mem_cons_self))

end Provider

namespace Source

variable {s : Source} {n : Name} {σ : Session}

/-- **A search that never fails finds what is under the first key with a value.** -/
theorem first_spec (s : Source) (n : Name) (hs : ∀ key, ∃ found, s.provider.get key = .ok found)
    (keys : List String) :
    ∃ found, s.first n keys = .ok found ∧
      ∀ p, found = some p ↔ ∃ key v, s.provider.FirstIn keys key ∧
        s.provider.get key = .ok (some v) ∧ p = ⟨n, v, s.originOf key⟩ := by
  induction keys with
  | nil =>
      refine ⟨none, rfl, fun p => ⟨fun h => (nomatch h), ?_⟩⟩
      rintro ⟨key, v, h, -⟩
      exact nomatch h
  | cons k keys ih =>
      obtain ⟨found, hfound⟩ := hs k
      rw [first, hfound]
      cases found with
      | some v =>
          refine ⟨_, rfl, fun p => ⟨?_, ?_⟩⟩
          · rintro ⟨⟩
            exact ⟨k, v, .here ⟨v, hfound⟩, hfound, rfl⟩
          · rintro ⟨key, v', hfirst, hv', rfl⟩
            cases hfirst with
            | here _ =>
                rw [hfound] at hv'
                cases hv'
                rfl
            | later hno _ => exact absurd ⟨v, hfound⟩ hno
      | none =>
          have hno : ¬ s.provider.Has k := by
            rintro ⟨v, hv⟩
            rw [hfound] at hv
            cases hv
          obtain ⟨found, hrest, hspec⟩ := ih
          refine ⟨found, hrest, fun p => (hspec p).trans ?_⟩
          simp only [Provider.firstIn_cons_iff, hno, false_and, not_false_eq_true, true_and,
            false_or]

/-- Something is found if the provider has any of the keys. -/
theorem isSome_first_iff {keys : List String} {found : Option Property}
    (hspec : ∀ p, found = some p ↔ ∃ key v, s.provider.FirstIn keys key ∧
      s.provider.get key = .ok (some v) ∧ p = ⟨n, v, s.originOf key⟩) :
    found.isSome = true ↔ ∃ key ∈ keys, s.provider.Has key := by
  rw [Option.isSome_iff_exists, ← Provider.exists_firstIn_iff]
  simp only [hspec]
  constructor
  · rintro ⟨p, key, v, hfirst, -⟩
    exact ⟨key, hfirst⟩
  · rintro ⟨key, hfirst⟩
    obtain ⟨v, hv⟩ := hfirst.mem_has.2
    exact ⟨_, key, v, hfirst, hv, rfl⟩

/-! ## Stored entries -/

/-- **The key that answers for a name**: the first candidate with a value, or else the least of the
keys with values that stand for the name.  (Texts are in the order of their code points, which is
that of the bytes that encode them.) -/
inductive AnswersBy (s : Source) (n : Name) (key : String) : Prop where
  | candidate (h : s.provider.FirstIn (s.mapper.mapper.keysFor n) key)
  | least (hnone : ∀ k ∈ s.mapper.mapper.keysFor n, ¬ s.provider.Has k)
      (has : s.provider.Has key) (stands : s.mapper.mapper.standsFor n key = true)
      (least : ∀ k, s.provider.Has k → s.mapper.mapper.standsFor n k = true → key ≤ k)

/-- Of the keys that stand for names, those with values are listed. -/
theorem mem_keys_iff_of_stands (hm : s.mapper.mapper.BuiltIn) (hp : s.provider.Listing)
    {key : String} (h : s.mapper.mapper.standsFor n key = true) :
    key ∈ s.provider.keys ↔ s.provider.Has key := by
  refine hp.mem_keys_iff key ?_
  rintro rfl
  rw [hm.standsFor_empty] at h
  contradiction

section Stored

variable (hm : s.mapper.mapper = Mapping.dotted ∨ s.mapper.mapper = Mapping.environment false)
  (hp : s.provider.Listing)
include hm hp

/-- A key answers exactly if it is the first of those that are tried. -/
theorem firstIn_searched_iff (hcap : s.capability = .enumerable) {key : String} :
    s.provider.FirstIn (s.searched n) key ↔ s.AnswersBy n key := by
  have hbuiltIn := Mapping.builtIn_of_eq hm
  have hmem (hnone : ∀ k ∈ s.mapper.mapper.keysFor n, ¬ s.provider.Has k) (k : String) :
      k ∈ (s.provider.keys.filter (s.mapper.mapper.standsFor n)).filter
          (· ∉ s.mapper.mapper.keysFor n) ↔
        s.provider.Has k ∧ s.mapper.mapper.standsFor n k = true := by
    rw [List.mem_filter, List.mem_filter, decide_eq_true_eq]
    constructor
    · rintro ⟨⟨hkey, hstands⟩, -⟩
      exact ⟨(mem_keys_iff_of_stands hbuiltIn hp hstands).mp hkey, hstands⟩
    · rintro ⟨has, hstands⟩
      exact ⟨⟨(mem_keys_iff_of_stands hbuiltIn hp hstands).mpr has, hstands⟩,
        fun h => hnone k h has⟩
  have hleast (hnone : ∀ k ∈ s.mapper.mapper.keysFor n, ¬ s.provider.Has k) :
      s.provider.FirstIn ((s.provider.keys.filter (s.mapper.mapper.standsFor n)).filter
          (· ∉ s.mapper.mapper.keysFor n)) key ↔ _ :=
    Provider.firstIn_iff_least ((hp.ascending.filter _).filter _)
      fun k hk => ((hmem hnone k).mp hk).1
  rw [searched, hcap, Provider.firstIn_append_iff]
  constructor
  · rintro (h | ⟨hnone, h⟩)
    · exact .candidate h
    · obtain ⟨hkey, hle⟩ := (hleast hnone).mp h
      obtain ⟨has, hstands⟩ := (hmem hnone key).mp hkey
      exact .least hnone has hstands fun k hk hks => hle k ((hmem hnone k).mpr ⟨hk, hks⟩)
  · rintro (h | ⟨hnone, has, hstands, hle⟩)
    · exact .inl h
    · refine .inr ⟨hnone, (hleast hnone).mpr ⟨(hmem hnone key).mpr ⟨has, hstands⟩, ?_⟩⟩
      intro k hk
      obtain ⟨hk, hks⟩ := (hmem hnone k).mp hk
      exact hle k hk hks

/-- A key that is tried has a value exactly if a listed key stands for the name. -/
theorem exists_searched_iff (hcap : s.capability = .enumerable) :
    (∃ key ∈ s.searched n, s.provider.Has key) ↔
      ∃ key ∈ s.provider.keys, s.mapper.mapper.standsFor n key = true := by
  have hbuiltIn := Mapping.builtIn_of_eq hm
  constructor
  · rintro ⟨key, hkey, has⟩
    have hstands := standsFor_of_mem_searched (Mapping.direct_of_eq hm) hkey
    exact ⟨key, (mem_keys_iff_of_stands hbuiltIn hp hstands).mpr has, hstands⟩
  · rintro ⟨key, hkey, hstands⟩
    refine ⟨key, ?_, (mem_keys_iff_of_stands hbuiltIn hp hstands).mp hkey⟩
    rw [searched, hcap, List.mem_append]
    by_cases h : key ∈ s.mapper.mapper.keysFor n
    · exact .inl h
    · exact .inr (by simp [hkey, hstands, h])

end Stored

/-- A source that lists its keys has the names of its index, sorted. -/
theorem propertyNames_apply (hcap : s.capability = .enumerable) (σ : Session) :
    (s.propertyNames σ).1 = some (Name.sort (s.known σ).names) := by
  rw [← index_apply, propertyNames, hcap]
  rfl

/-- **What a source over stored entries finds.**  Seen through the dotted mapper or the environment
mapper without lists, it never fails; it has a property for exactly the names for which a listed key
stands, which are those that it enumerates, each once and in ascending order; the property is what the
answering key has, with the origin that the provider knows or else source and key.  A restricted
source answers if a candidate has a value, and then alike. -/
theorem lookup_spec (s : Source) (n : Name) (σ : Session)
    (hm : s.mapper.mapper = Mapping.dotted ∨ s.mapper.mapper = Mapping.environment false)
    (hstored : s.provider.Stored) (hcap : s.capability = .enumerable) (hσ : σ.Faithful s)
    (hlists : σ.Trusts s.mapper) :
    ∃ found names, (s.get n σ).1 = .ok found ∧ (s.propertyNames σ).1 = some names ∧
      (found.isSome = true ↔ ∃ key ∈ s.provider.keys, s.mapper.mapper.standsFor n key = true) ∧
      (found.isSome = true ↔ ∃ a ∈ names, a.agrees n = true) ∧
      (∀ p, found = some p ↔ ∃ key v, s.AnswersBy n key ∧ s.provider.get key = .ok (some v) ∧
        p = ⟨n, v, (s.provider.origin key).getD ⟨s.name, key, none⟩⟩) ∧
      (names.Pairwise fun a b => a.order b = .lt ∧ a.agrees b = false) ∧
      ∃ direct, (s.restricted.get n σ).1 = .ok direct ∧
        (direct.isSome = true ↔ ∃ key ∈ s.mapper.mapper.keysFor n, s.provider.Has key) ∧
        ∀ p, direct = some p → found = some p := by
  have hdirect := Mapping.direct_of_eq hm
  have hp := hstored.listing
  obtain ⟨found, hfound, hspec⟩ := s.first_spec n hp.answers (s.searched n)
  obtain ⟨direct, hdirectly, hdirectSpec⟩ := s.first_spec n hp.answers (s.mapper.mapper.keysFor n)
  have hsome := (isSome_first_iff hspec).trans (exists_searched_iff hm hp hcap)
  have hnames : (∃ a ∈ Name.sort (s.known σ).names, a.agrees n = true) ↔
      ∃ key ∈ s.provider.keys, s.mapper.mapper.standsFor n key = true := by
    rw [hσ.known_eq, newIndex, ← Index.exists_mem_names_iff]
    simp only [Name.mem_sort]
  refine ⟨found, _, (get_of_direct hdirect hlists hσ).trans hfound, propertyNames_apply hcap σ,
    hsome, hsome.trans hnames.symm, ?answering, ?names, direct, ?restricted,
    isSome_first_iff hdirectSpec, ?alike⟩
  case answering =>
    intro p
    simp only [hspec, firstIn_searched_iff hm hp hcap, originOf]
  case names =>
    rw [hσ.known_eq, newIndex]
    refine (Name.pairwise_sort (Index.pairwise_names _ _)).imp fun {a b} hab => ⟨hab, ?_⟩
    rw [Bool.eq_false_iff]
    intro hagrees
    rw [Name.order_eq_eq_iff.mpr hagrees] at hab
    contradiction
  case restricted =>
    rw [get_restricted_of_direct hdirect hlists hσ, hdirectly]
  case alike =>
    intro p hfirst
    obtain ⟨key, v, hin, hv, rfl⟩ := (hdirectSpec p).mp hfirst
    refine (hspec _).mpr ⟨key, v, ?_, hv, rfl⟩
    rw [searched, Provider.firstIn_append_iff]
    exact .inl hin

/-- Two spellings of `server.context-path`, in ascending order. -/
def spelledEntries : Entries :=
  .ofList [("server.context_path", .text "/app"), ("SERVER.CONTEXT_PATH", .text "/")]

def spelledSource : Source where
  id := 0
  name := "file"
  capability := .enumerable
  provider := spelledEntries.provider "file"
  mapper := ⟨Mapping.dotted, some (.own 0)⟩
  derivedFrom := none

def contextPath : Name :=
  ⟨[.literal ⟨"server", by simp [isReserved], by simp [isSeparator]⟩,
    .literal ⟨"contextPath", by simp [isReserved], by simp [isSeparator]⟩], List.cons_ne_nil _ _⟩

/-- Neither spelling is a candidate for `server.contextPath`, so the least one answers. -/
theorem answersBy_spelledSource : spelledSource.AnswersBy contextPath "SERVER.CONTEXT_PATH" := by
  have hhas (key : String) : spelledSource.provider.Has key ↔ key ∈ spelledEntries.keys :=
    Provider.has_entries_iff _ _
  have hnone : ∀ k ∈ Mapping.dottedKeys contextPath, k ∉ spelledEntries.keys := by decide +kernel
  have hleast : ∀ k ∈ spelledEntries.keys, "SERVER.CONTEXT_PATH" ≤ k := by decide +kernel
  refine .least (fun k hk => ?_) ((hhas _).mpr ?_) ?_ fun k hk _ => hleast k ((hhas k).mp hk)
  · rw [hhas]
    exact hnone k (Mapping.keysFor_dotted contextPath ▸ hk)
  · decide +kernel
  · decide +kernel

/-- A name is found under a key that spells it in capital letters. -/
theorem lookup_spec_spelledSource :
    spelledSource.provider.Stored ∧ Session.start.Faithful spelledSource ∧
      Session.start.Trusts spelledSource.mapper ∧
      (spelledSource.get contextPath .start).1 =
        .ok (some ⟨contextPath, .text "/", ⟨"file", "SERVER.CONTEXT_PATH", none⟩⟩) := by
  have hstored : spelledSource.provider.Stored := .entries "file" (Entries.ascending_ofList _)
  have hσ := Session.faithful_start spelledSource
  have hlists := Session.trusts_start spelledSource.mapper
  obtain ⟨found, names, hget, -, -, -, hanswer, -⟩ :=
    lookup_spec spelledSource contextPath .start (.inl rfl) hstored rfl hσ hlists
  refine ⟨hstored, hσ, hlists, ?_⟩
  rw [hget, (hanswer _).mpr ⟨_, .text "/", answersBy_spelledSource, rfl, rfl⟩]
  rfl

end Source

end LayeredConfig
