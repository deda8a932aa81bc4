import LayeredConfig.Proofs.Replies

/-!
# LayeredConfig.Proofs.Respelling

Names that agree, however they are spelled, are resolved alike.

1. Seen through a direct mapper, a source over stored entries supplies what is under a listed key that
   stands for the name (`Source.exists_key_of_supplied`).  Which keys stand for it does not depend on
   its spelling, so it supplies all spellings or none (`Source.isSome_supplied_congr`).
2. The candidates do depend on the spelling, so where several keys stand for the name, two spellings
   may be answered from different keys.  They are answered by one source in any case, and from one key
   if there is only one (`Chain.resolve_of_agrees`).
-/

namespace LayeredConfig

namespace Source

variable {s : Source} {a b n : Name} {p : Property}

/-- A source with a direct mapper looks under the keys that are tried. -/
theorem reply_of_direct (hm : s.mapper.mapper.Direct) (n : Name) :
    s.reply n = s.first n (s.searched n) := by
  rw [reply, Mapper.listed, hm.candidates, answer_of_direct]

section Stored

variable (hm : s.mapper.mapper = Mapping.dotted ∨ s.mapper.mapper = Mapping.environment false)
  (hp : s.provider.Listing)
include hm hp

/-- **What is supplied is under a listed key that stands for the name.** -/
theorem exists_key_of_supplied (h : s.supplied n = some p) :
    ∃ key v, (key ∈ s.provider.keys ∧ s.mapper.mapper.standsFor n key = true) ∧
      s.provider.get key = .ok (some v) ∧ p = ⟨n, v, s.originOf key⟩ := by
  have hdirect := Mapping.direct_of_eq hm
  obtain ⟨found, hfound, hspec⟩ := s.first_spec n hp.answers (s.searched n)
  rw [supplied, reply_of_direct hdirect, hfound] at h
  obtain ⟨key, v, hfirst, hget, hprop⟩ := (hspec p).mp h
  obtain ⟨hkey, has⟩ := hfirst.mem_has
  have hstands := standsFor_of_mem_searched hdirect hkey
  have hlisted := (mem_keys_iff_of_stands (Mapping.builtIn_of_eq hm) hp hstands).mpr has
  exact ⟨key, v, ⟨hlisted, hstands⟩, hget, hprop⟩

/-- A source that lists its keys supplies a name if a listed key stands for it. -/
theorem isSome_supplied_iff_listed (hcap : s.capability = .enumerable) :
    (s.supplied n).isSome = true ↔
      ∃ key ∈ s.provider.keys, s.mapper.mapper.standsFor n key = true := by
  obtain ⟨found, hfound, hspec⟩ := s.first_spec n hp.answers (s.searched n)
  rw [supplied, reply_of_direct (Mapping.direct_of_eq hm), hfound]
  exact (isSome_first_iff hspec).trans (exists_searched_iff hm hp hcap)

/-- **All spellings of a name are supplied, or none.** -/
theorem isSome_supplied_congr (hcap : s.capability = .enumerable) (hab : a.agrees b = true) :
    (s.supplied a).isSome = (s.supplied b).isSome := by
  rw [Bool.eq_iff_iff, isSome_supplied_iff_listed hm hp hcap, isSome_supplied_iff_listed hm hp hcap]
  refine exists_congr fun key => and_congr_right fun _ => ?_
  exact ⟨Mapper.standsFor_of_agrees hab, Mapper.standsFor_of_agrees (Name.agrees_symm hab)⟩

/-- **Where one key stands for a name, all its spellings have one value and one origin.** -/
theorem supplied_alike (hab : a.agrees b = true) {q : Property} (ha : s.supplied a = some p)
    (hb : s.supplied b = some q)
    (hone : ∃! key, key ∈ s.provider.keys ∧ s.mapper.mapper.standsFor a key = true) :
    p.value = q.value ∧ p.origin = q.origin := by
  obtain ⟨key, v, hkey, hv, rfl⟩ := exists_key_of_supplied hm hp ha
  obtain ⟨key', v', ⟨hkey', hstands'⟩, hv', rfl⟩ := exists_key_of_supplied hm hp hb
  have hstands := Mapper.standsFor_of_agrees (Name.agrees_symm hab) hstands'
  obtain rfl : key = key' := hone.unique hkey ⟨hkey', hstands⟩
  rw [hv] at hv'
  cases hv'
  exact ⟨rfl, rfl⟩

end Stored

end Source

namespace Chain

/-- **Names that agree are resolved alike.**  In a chain of sources that list the keys of stored entries,
seen through the dotted mapper or the environment mapper without lists, both names have no property,
since no key stands for them, or both are answered by one source; and if one key of this source stands
for them, both have one value and one origin. -/
theorem resolve_of_agrees (c : Chain) (a b : Name) {σ τ : Session} (hab : a.agrees b = true)
    (hids : c.Distinct)
    (hmapper : ∀ s ∈ c.sources,
      s.mapper.mapper = Mapping.dotted ∨ s.mapper.mapper = Mapping.environment false)
    (hstored : ∀ s ∈ c.sources, s.provider.Stored)
    (hcap : ∀ s ∈ c.sources, s.capability = .enumerable)
    (hσ : σ.Knows c) (hτ : τ.Knows c) :
    (c.resolve a σ).1 = none ∧ (c.resolve b τ).1 = none ∧
        (∀ s ∈ c.sources, ∀ key ∈ s.provider.keys, s.mapper.mapper.standsFor a key = false) ∨
      ∃ s p q, c.AnsweredBy a σ s p ∧ c.AnsweredBy b τ s q ∧
        (c.resolve a σ).1 = some p ∧ (c.resolve b τ).1 = some q ∧
        ((∃! key, key ∈ s.provider.keys ∧ s.mapper.mapper.standsFor a key = true) →
          p.value = q.value ∧ p.origin = q.origin) := by
  have hc : c.Standard := ⟨hids, fun s hs => Mapping.builtIn_of_eq (hmapper s hs)⟩
  have hcongr : ∀ s ∈ c.sources, (s.supplied a).isSome = (s.supplied b).isSome := fun s hs =>
    Source.isSome_supplied_congr (hmapper s hs) (hstored s hs).listing (hcap s hs) hab
  have hnone : ∀ s ∈ c.sources, s.supplied a = none → s.supplied b = none := fun s hs ha => by
    rw [← Option.not_isSome_iff_eq_none, ← hcongr s hs, ha]
    exact Bool.false_ne_true
  rw [resolve_eq_findSome? hc hσ, resolve_eq_findSome? hc hτ]
  cases ha : c.sources.findSome? (·.supplied a) with
  | none =>
      rw [List.findSome?_eq_none_iff] at ha
      refine .inl ⟨rfl, List.findSome?_eq_none_iff.mpr fun s hs => hnone s hs (ha s hs), ?_⟩
      intro s hs key hkey
      rw [Bool.eq_false_iff]
      intro hstands
      have hsome := (Source.isSome_supplied_iff_listed (hmapper s hs) (hstored s hs).listing
        (hcap s hs)).mpr ⟨key, hkey, hstands⟩
      rw [ha s hs] at hsome
      contradiction
  | some p =>
      obtain ⟨before, s, after, hsources, hp, hbefore⟩ := List.findSome?_eq_some_iff.mp ha
      have hs : s ∈ c.sources := by simp [hsources]
      have hsome : (s.supplied b).isSome = true := by rw [← hcongr s hs, hp, Option.isSome_some]
      obtain ⟨q, hq⟩ := Option.isSome_iff_exists.mp hsome
      have hbefore' : ∀ x ∈ before, x.supplied b = none := fun x hx =>
        hnone x (by simp [hsources, hx]) (hbefore x hx)
      refine .inr ⟨s, p, q, ?_, ?_, rfl, ?_, fun hone => ?_⟩
      · exact (answeredBy_iff hc hσ).mpr ⟨before, after, hsources, hbefore, hp⟩
      · exact (answeredBy_iff hc hτ).mpr ⟨before, after, hsources, hbefore', hq⟩
      · exact List.findSome?_eq_some_iff.mpr ⟨before, s, after, hsources, hq, hbefore'⟩
      · exact Source.supplied_alike (hmapper s hs) (hstored s hs).listing hab hp hq hone

/-- A file with the one key `base-path`. -/
def pathSource : Source where
  id := 0
  name := "file"
  capability := .enumerable
  provider := (Entries.ofList [("base-path", .text "/app")]).provider "file"
  mapper := ⟨Mapping.dotted, none⟩
  derivedFrom := none

def pathChain : Chain := ⟨[pathSource], by decide⟩

def basePath : Name :=
  ⟨[.literal ⟨"basePath", by simp [isReserved], by simp [isSeparator]⟩], List.cons_ne_nil _ _⟩

/-- The same name in small letters, of which the key is no candidate. -/
def smallPath : Name :=
  ⟨[.literal ⟨"basepath", by simp [isReserved], by simp [isSeparator]⟩], List.cons_ne_nil _ _⟩

/-- The key is a candidate for one spelling and is found by the index for the other. -/
theorem resolve_of_agrees_pathChain :
    basePath.agrees smallPath = true ∧ pathChain.Distinct ∧
      (∀ s ∈ pathChain.sources,
        s.mapper.mapper = Mapping.dotted ∨ s.mapper.mapper = Mapping.environment false) ∧
      (∀ s ∈ pathChain.sources, s.provider.Stored) ∧
      (∀ s ∈ pathChain.sources, s.capability = .enumerable) ∧
      Session.start.Knows pathChain ∧
      ∃ p q, (pathChain.resolve basePath .start).1 = some p ∧
        (pathChain.resolve smallPath .start).1 = some q ∧
        p.value = q.value ∧ p.origin = q.origin := by
  have hab : basePath.agrees smallPath = true := by decide +kernel
  have hids : pathChain.Distinct := List.nodup_singleton _
  have hmapper : ∀ s ∈ pathChain.sources,
      s.mapper.mapper = Mapping.dotted ∨ s.mapper.mapper = Mapping.environment false :=
    List.forall_mem_singleton.mpr (.inl rfl)
  have hstored : ∀ s ∈ pathChain.sources, s.provider.Stored :=
    List.forall_mem_singleton.mpr (.entries "file" (Entries.ascending_ofList _))
  have hcap : ∀ s ∈ pathChain.sources, s.capability = .enumerable :=
    List.forall_mem_singleton.mpr rfl
  have hσ := Session.knows_start pathChain
  refine ⟨hab, hids, hmapper, hstored, hcap, hσ, ?_⟩
  rcases resolve_of_agrees pathChain _ _ hab hids hmapper hstored hcap hσ hσ with
    ⟨hnone, -, -⟩ | ⟨s, p, q, ⟨before, after, hsources, -⟩, -, hp, hq, halike⟩
  · have hsome : (pathChain.resolve basePath .start).1.isSome = true := by decide +kernel
    rw [hnone] at hsome
    contradiction
  · have hs : s ∈ pathChain.sources := by simp [hsources]
    obtain rfl := List.mem_singleton.mp hs
    refine ⟨p, q, hp, hq, halike ⟨"base-path", ⟨?_, ?_⟩, fun key hkey => ?_⟩⟩
    · decide +kernel
    · decide +kernel
    · exact List.mem_singleton.mp hkey.1

end Chain

end LayeredConfig
