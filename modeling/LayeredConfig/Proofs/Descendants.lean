import LayeredConfig.Proofs.Replies

/-!
# LayeredConfig.Proofs.Descendants

What is said about the names below a name, and what is found there.

1. A source with a built-in mapper tries listed keys that stand for the name, and with the list
   shortcut the key of the parent's whole list (`Source.mem_tried`).  Over stored entries it supplies
   the names for which a listed key stands, and the items of its lists
   (`Source.isSome_supplied_iff`).
2. Its word about the names below a name goes by the listed keys alone
   (`Source.containment_eq_present_iff`, `Source.containment_eq_absent_iff`).
3. So where a chain says that there are names below, one of them is found, and where it says that there
   are none, only items of whole lists are (`Chain.containsDescendantOf_spec`).
-/

namespace LayeredConfig

/-! ## Candidates that are tried -/

namespace Mapping

/-- The candidates of a built-in mapper are under keys that stand for the name, but for the one that
holds the list of which it is an item. -/
theorem mem_listed {m : Mapper} (h : m.BuiltIn) {n : Name} {c : Candidate} (hc : c ∈ m.listed n) :
    (∃ key, c = .plain key n ∧ m.standsFor n key = true) ∨
      m = environment true ∧ listCandidate? n = some c := by
  cases h with
  | dotted =>
      obtain ⟨key, hkey, rfl⟩ := List.mem_map.mp hc
      exact .inl ⟨key, rfl, Mapper.standsFor_iff.mpr (nameOf_dottedKeys hkey)⟩
  | environment withLists =>
      rcases mem_environmentCandidates hc with rfl | ⟨rfl, hlist⟩
      · exact .inl ⟨_, rfl, standsFor_environmentKey withLists n⟩
      · exact .inr ⟨rfl, hlist⟩

/-- The item of a list is among the candidates of an environment that reads lists. -/
theorem listCandidate_mem_listed {n : Name} {c : Candidate} (h : listCandidate? n = some c) :
    c ∈ (environment true).listed n := by
  simp [Mapper.listed, environment, environmentCandidates, h]

/-- The key of a whole list stands for the list. -/
theorem standsFor_listKey (n : Name) :
    (environment true).standsFor n (environmentKey n.elements ++ listMarker) = true :=
  Mapper.standsFor_iff.mpr ⟨_, environmentName_listKey n, agrees_lowered n⟩

end Mapping

namespace Source

open Mapping

variable {s : Source} {n d : Name}

/-- The candidate applies, and there is a value that it can use. -/
def Yields (s : Source) (n : Name) (c : Candidate) : Prop :=
  c.applies n = true ∧ ∃ raw v, s.provider.get c.key = .ok (some raw) ∧ c.extract raw = .ok v

/-- A plain candidate yields something if the provider has its key. -/
theorem yields_plain_iff {key : String} : s.Yields n (.plain key n) ↔ s.provider.Has key := by
  constructor
  · rintro ⟨-, raw, -, hget, -⟩
    exact ⟨raw, hget⟩
  · rintro ⟨raw, hget⟩
    exact ⟨n.agrees_refl, raw, raw, hget, rfl⟩

/-- A candidate for an item takes it out of a list that is long enough. -/
theorem extract_item_iff {key : String} {parent : Name} {i : UInt64} {list item : Value} :
    Candidate.extract ⟨key, parent, .item i⟩ list = .ok item ↔ list.item? i.toNat = some item := by
  simp only [Candidate.extract]
  cases list.item? i.toNat <;> simp

/-- The candidate for a list applies to the items of the list. -/
theorem applies_item {parent : Name} {i : UInt64} (key : String)
    (hparent : n.parent? = some parent) (hi : n.last.asIndex? = some i) :
    Candidate.applies ⟨key, parent, .item i⟩ n = true := by
  have hof := (Name.isParentOf_iff_parent hparent).mpr parent.agrees_refl
  simp [Candidate.applies, hof, hi]

/-- The candidate for the list of which a name is an item yields the item. -/
theorem yields_item_iff {parent : Name} {i : UInt64} {key : String}
    (hparent : n.parent? = some parent) (hi : n.last.asIndex? = some i) :
    s.Yields n ⟨key, parent, .item i⟩ ↔ ∃ list item,
      s.provider.get key = .ok (some list) ∧ list.item? i.toNat = some item := by
  simp only [Yields, applies_item key hparent hi, true_and, extract_item_iff]

/-- **Where no lookup fails, a property is found if a candidate yields one.** -/
theorem tries_spec (h : ∀ key, ∃ found, s.provider.get key = .ok found) (cs : List Candidate) :
    ∃ found, s.tries n cs = .ok found ∧ (found.isSome = true ↔ ∃ c ∈ cs, s.Yields n c) := by
  induction cs with
  | nil => exact ⟨none, rfl, by simp⟩
  | cons c cs ih =>
      obtain ⟨found, hfound, hiff⟩ := ih
      have hskip (hno : ¬ s.Yields n c) :
          found.isSome = true ↔ ∃ c' ∈ c :: cs, s.Yields n c' := by
        rw [List.exists_mem_cons_iff, or_iff_right hno, hiff]
      rw [tries]
      split
      · next happlies =>
        obtain ⟨stored, hget⟩ := h c.key
        rw [hget]
        cases stored with
        | none =>
            refine ⟨found, hfound, hskip ?_⟩
            rintro ⟨-, raw, v, hraw, -⟩
            rw [hget] at hraw
            cases hraw
        | some raw =>
            cases hextract : c.extract raw with
            | ok v =>
                refine ⟨some ⟨n, v, s.originOf c.key⟩, by simp only [hextract], iff_of_true rfl ?_⟩
                exact ⟨c, List.mem_cons_self, happlies, raw, v, hget, hextract⟩
            | error e =>
                refine ⟨found, by simp only [hextract, hfound], hskip ?_⟩
                rintro ⟨-, raw', v, hraw, hv⟩
                rw [hget] at hraw
                cases hraw
                rw [hextract] at hv
                cases hv
      · next hno => exact ⟨found, hfound, hskip fun hyields => hno hyields.1⟩

/-- The candidates that a source tries for a name, in order. -/
def tried (s : Source) (n : Name) : List Candidate :=
  s.mapper.mapper.listed n ++ match s.capability with
    | .lookupOnly => []
    | .enumerable => others s.newIndex (s.mapper.mapper.listed n) n

theorem reply_eq_tries (s : Source) (n : Name) : s.reply n = s.tries n (s.tried n) :=
  s.answer_eq_tries n _ _

/-- **What is tried is a key that stands for the name**, or the key of the list of which it is an
item. -/
theorem mem_tried (hm : s.mapper.mapper.BuiltIn) {c : Candidate} (hc : c ∈ s.tried n) :
    (∃ key, c = .plain key n ∧ s.mapper.mapper.standsFor n key = true) ∨
      s.mapper.mapper = environment true ∧ listCandidate? n = some c := by
  rw [tried] at hc
  cases List.mem_append.mp hc with
  | inl hc => exact mem_listed hm hc
  | inr hc =>
      cases hcap : s.capability with
      | lookupOnly =>
          rw [hcap] at hc
          exact nomatch hc
      | enumerable =>
          rw [hcap] at hc
          obtain ⟨key, hkey, rfl⟩ := List.mem_map.mp hc
          have hkey := (List.mem_filter.mp hkey).1
          rw [newIndex, Index.keysOf_ofKeys] at hkey
          exact .inl ⟨key, rfl, (List.mem_filter.mp hkey).2⟩

/-- **Every listed key that stands for the name is tried.** -/
theorem plain_mem_tried (hm : s.mapper.mapper.BuiltIn) (hcap : s.capability = .enumerable)
    {key : String} (hkey : key ∈ s.provider.keys)
    (hstands : s.mapper.mapper.standsFor n key = true) : .plain key n ∈ s.tried n := by
  rw [tried, hcap, List.mem_append]
  by_cases hcandidate : ∃ c ∈ s.mapper.mapper.listed n, c.key = key
  · obtain ⟨c, hc, rfl⟩ := hcandidate
    rcases mem_listed hm hc with ⟨key, rfl, -⟩ | ⟨hlists, hlist⟩
    · exact .inl hc
    · -- A key cannot stand for the name and for the list of which it is an item.
      obtain ⟨parent, i, hparent, -, rfl⟩ := listCandidate?_eq_some_iff.mp hlist
      rw [hlists, Mapper.standsFor_congr (standsFor_listKey parent)] at hstands
      have hagrees := Name.agrees_symm hstands
      rw [Name.agrees_parent hparent] at hagrees
      contradiction
  · refine .inr (List.mem_map_of_mem (List.mem_filter.mpr ⟨?_, ?_⟩))
    · rw [newIndex, Index.keysOf_ofKeys]
      exact List.mem_filter.mpr ⟨hkey, hstands⟩
    · rw [Bool.not_eq_true', List.any_eq_false]
      intro c hc hck
      exact hcandidate ⟨c, hc, beq_iff_eq.mp hck⟩

/-! ## What is supplied -/

/-- The source keeps a whole list for a name, with an item for one below it. -/
structure HoldsItem (s : Source) (n d : Name) : Prop where
  lists : s.mapper.mapper = environment true
  parent : n.isParentOf d = true
  item : ∃ i list item, d.last.asIndex? = some i ∧
    s.provider.get (environmentKey n.elements ++ listMarker) = .ok (some list) ∧
    list.item? i.toNat = some item

/-- Whether a list holds the item of a name does not depend on the spelling of the name. -/
theorem HoldsItem.of_agrees {m : Name} (h : s.HoldsItem m d) (hmn : m.agrees n = true) :
    s.HoldsItem n d where
  lists := h.lists
  parent := Name.isParentOf_congr hmn d ▸ h.parent
  item := environmentKey_eq_iff.mpr hmn ▸ h.item

/-- An item is held if the candidate for the whole list yields one. -/
theorem exists_holdsItem_iff (hlists : s.mapper.mapper = environment true) :
    (∃ m, s.HoldsItem m d) ↔ ∃ c, listCandidate? d = some c ∧ s.Yields d c := by
  constructor
  · rintro ⟨m, hm⟩
    obtain ⟨parent, hparent⟩ := Name.exists_parent (Name.isAncestorOf_of_isParentOf hm.parent)
    have hagrees := (Name.isParentOf_iff_parent hparent).mp hm.parent
    obtain ⟨-, -, i, list, item, hi, hitem⟩ := hm.of_agrees (Name.agrees_symm hagrees)
    exact ⟨_, listCandidate?_eq_some_iff.mpr ⟨parent, i, hparent, hi, rfl⟩,
      (yields_item_iff hparent hi).mpr ⟨list, item, hitem⟩⟩
  · rintro ⟨c, hc, hyields⟩
    obtain ⟨parent, i, hparent, hi, rfl⟩ := listCandidate?_eq_some_iff.mp hc
    obtain ⟨list, item, hitem⟩ := (yields_item_iff hparent hi).mp hyields
    exact ⟨parent, hlists, (Name.isParentOf_iff_parent hparent).mpr parent.agrees_refl,
      i, list, item, hi, hitem⟩

/-- **A source that can list its keys supplies a name if a listed key stands for it**, or if it holds
it as an item. -/
theorem isSome_supplied_iff (hm : s.mapper.mapper.BuiltIn) (hp : s.provider.Listing)
    (hcap : s.capability = .enumerable) :
    (s.supplied d).isSome = true ↔
      (∃ key ∈ s.provider.keys, s.mapper.mapper.standsFor d key = true) ∨
        ∃ m, s.HoldsItem m d := by
  obtain ⟨found, hfound, hiff⟩ := tries_spec (n := d) hp.answers (s.tried d)
  rw [supplied, reply_eq_tries, hfound]
  refine hiff.trans ⟨?_, ?_⟩
  · rintro ⟨c, hc, hyields⟩
    rcases mem_tried hm hc with ⟨key, rfl, hstands⟩ | ⟨hlists, hlist⟩
    · exact .inl ⟨key, (mem_keys_iff_of_stands hm hp hstands).mpr (yields_plain_iff.mp hyields),
        hstands⟩
    · exact .inr ((exists_holdsItem_iff hlists).mpr ⟨c, hlist, hyields⟩)
  · rintro (⟨key, hkey, hstands⟩ | ⟨m, hitem⟩)
    · have has := (mem_keys_iff_of_stands hm hp hstands).mp hkey
      exact ⟨_, plain_mem_tried hm hcap hkey hstands, yields_plain_iff.mpr has⟩
    · obtain ⟨c, hlist, hyields⟩ := (exists_holdsItem_iff hitem.lists).mp ⟨m, hitem⟩
      refine ⟨c, List.mem_append_left _ ?_, hyields⟩
      rw [hitem.lists]
      exact listCandidate_mem_listed hlist

/-- The key of a list that has items is listed. -/
theorem HoldsItem.listKey_mem_keys (h : s.HoldsItem n d) (hp : s.provider.Listing) :
    environmentKey n.elements ++ listMarker ∈ s.provider.keys := by
  obtain ⟨i, list, item, -, hget, -⟩ := h.item
  have hm : s.mapper.mapper.BuiltIn := h.lists ▸ .environment true
  exact (mem_keys_iff_of_stands hm hp (h.lists ▸ standsFor_listKey n)).mpr ⟨list, hget⟩

/-! ## What is said about the names below -/

/-- A listed key stands for a name below the given one. -/
def ListsBelow (s : Source) (n : Name) : Prop :=
  ∃ d, n.isAncestorOf d = true ∧ ∃ key ∈ s.provider.keys, s.mapper.mapper.standsFor d key = true

/-- The index has a name below `n` if a listed key stands for one. -/
theorem any_isAncestorOf_iff :
    s.newIndex.names.any (n.isAncestorOf ·) = true ↔ s.ListsBelow n := by
  rw [List.any_eq_true, ListsBelow]
  simp only [← Index.exists_mem_names_iff]
  constructor
  · rintro ⟨a, ha, hna⟩
    exact ⟨a, hna, a, ha, a.agrees_refl⟩
  · rintro ⟨d, hnd, a, ha, hagrees⟩
    exact ⟨a, ha, by rw [Name.isAncestorOf_congr_right hagrees, hnd]⟩

/-- A source has something below a name if it lists its keys and one of them stands for a name below. -/
theorem containment_eq_present_iff :
    s.containment n = .present ↔ s.capability = .enumerable ∧ s.ListsBelow n := by
  rw [containment, ← any_isAncestorOf_iff]
  cases s.capability with
  | lookupOnly => simp
  | enumerable => simp

/-- A source has nothing below a name if it lists its keys and none stands for a name below. -/
theorem containment_eq_absent_iff :
    s.containment n = .absent ↔ s.capability = .enumerable ∧ ¬ s.ListsBelow n := by
  rw [containment, ← any_isAncestorOf_iff]
  cases s.capability with
  | lookupOnly => simp
  | enumerable => simp

/-- **Where no listed key stands for a name below, only items are supplied there.** -/
theorem isSome_supplied_below_iff (hm : s.mapper.mapper.BuiltIn) (hp : s.provider.Listing)
    (hcap : s.capability = .enumerable) (hnone : ¬ s.ListsBelow n)
    (hbelow : n.isAncestorOf d = true) : (s.supplied d).isSome = true ↔ s.HoldsItem n d := by
  refine (isSome_supplied_iff hm hp hcap).trans ⟨?_, fun hitem => .inr ⟨n, hitem⟩⟩
  rintro (hkey | ⟨m, hitem⟩)
  · exact absurd ⟨d, hbelow, hkey⟩ hnone
  · -- The key of the list stands for the list itself, which is then not below the name.
    obtain ⟨parent, hparent⟩ := Name.exists_parent hbelow
    have hagrees := (Name.isParentOf_iff_parent hparent).mp hitem.parent
    cases (Name.isAncestorOf_iff_parent hparent).mp hbelow with
    | inl hn => exact hitem.of_agrees (Name.agrees_trans (Name.agrees_symm hagrees) hn)
    | inr hn =>
        rw [Name.isAncestorOf_congr_right hagrees] at hn
        exact absurd ⟨m, hn, _, hitem.listKey_mem_keys hp, hitem.lists ▸ standsFor_listKey m⟩ hnone

end Source

/-! ## Chains -/

namespace Containment

variable {soFar : Containment} {cs : List Containment}

/-- A chain has something below a name if one of its sources has. -/
theorem overall_eq_present_iff (h : soFar ≠ .present) :
    overall soFar cs = .present ↔ .present ∈ cs := by
  induction cs generalizing soFar with
  | nil => simpa [overall] using h
  | cons c cs ih => cases c <;> simp [overall, ih, h]

/-- A chain has nothing below a name if none of its sources has, and all can tell. -/
theorem overall_eq_absent_iff :
    overall soFar cs = .absent ↔ soFar = .absent ∧ ∀ c ∈ cs, c = .absent := by
  induction cs generalizing soFar with
  | nil => simp [overall]
  | cons c cs ih => cases c <;> simp [overall, ih]

end Containment

namespace Chain

/-- A name is resolved if some source supplies it. -/
theorem isSome_resolve_iff {c : Chain} {σ : Session} (hc : c.Standard) (hσ : σ.Knows c) (n : Name) :
    (c.resolve n σ).1.isSome = true ↔ ∃ s ∈ c.sources, (s.supplied n).isSome = true := by
  rw [resolve_eq_findSome? hc hσ, List.findSome?_isSome_iff]

/-- **What a chain says about the names below a name.**  It says that there are some exactly if a listed
key stands for one, and that there are none only if all sources can tell.  Where it says that there are
some, one of them is found.  Where it says that there are none, what is found below are the items of
whole lists: an environment mapper with lists finds them under the key of the list, which stands for
the name of the list and not for any name below it. -/
theorem containsDescendantOf_spec (c : Chain) (n : Name) {σ : Session} (hc : c.Standard)
    (hstored : ∀ s ∈ c.sources, s.provider.Stored) (hσ : σ.Knows c) :
    ((c.containsDescendantOf n σ).1 = .present ↔
      ∃ s ∈ c.sources, s.capability = .enumerable ∧ s.ListsBelow n) ∧
    ((c.containsDescendantOf n σ).1 = .absent ↔
      ∀ s ∈ c.sources, s.capability = .enumerable ∧ ¬ s.ListsBelow n) ∧
    ((c.containsDescendantOf n σ).1 = .present →
      ∃ d, n.isAncestorOf d = true ∧ ∀ τ : Session, τ.Knows c →
        (c.resolve d τ).1.isSome = true) ∧
    ((c.containsDescendantOf n σ).1 = .absent →
      ∀ d, n.isAncestorOf d = true → ∀ τ : Session, τ.Knows c →
        ((c.resolve d τ).1.isSome = true ↔ ∃ s ∈ c.sources, s.HoldsItem n d)) := by
  have hpresent : (c.containsDescendantOf n σ).1 = .present ↔
      ∃ s ∈ c.sources, s.capability = .enumerable ∧ s.ListsBelow n := by
    rw [containsDescendantOf_eq hc hσ, Containment.overall_eq_present_iff (by decide), List.mem_map]
    exact exists_congr fun s => and_congr_right fun _ => Source.containment_eq_present_iff
  have habsent : (c.containsDescendantOf n σ).1 = .absent ↔
      ∀ s ∈ c.sources, s.capability = .enumerable ∧ ¬ s.ListsBelow n := by
    rw [containsDescendantOf_eq hc hσ, Containment.overall_eq_absent_iff, List.forall_mem_map]
    exact (and_iff_right rfl).trans (forall₂_congr fun s _ => Source.containment_eq_absent_iff)
  refine ⟨hpresent, habsent, fun h => ?_, fun h d hbelow τ hτ => ?_⟩
  · obtain ⟨s, hs, hcap, d, hbelow, hkey⟩ := hpresent.mp h
    refine ⟨d, hbelow, fun τ hτ => (isSome_resolve_iff hc hτ d).mpr ⟨s, hs, ?_⟩⟩
    exact (Source.isSome_supplied_iff (hc.builtIn s hs) (hstored s hs).listing hcap).mpr (.inl hkey)
  · rw [isSome_resolve_iff hc hτ]
    refine exists_congr fun s => and_congr_right fun hs => ?_
    obtain ⟨hcap, hnone⟩ := habsent.mp h s hs
    exact Source.isSome_supplied_below_iff (hc.builtIn s hs) (hstored s hs).listing hcap hnone hbelow

/-- An environment with the list of `foo.bar` in one variable. -/
def listSource : Source where
  id := 0
  name := "systemEnvironment"
  capability := .enumerable
  provider := Environment.ofVariables "systemEnvironment" none [("FOO_BAR__", "a,b")]
  mapper := ⟨Mapping.environment true, none⟩
  derivedFrom := none

def listChain : Chain := ⟨[listSource], by decide⟩

def listParent : Name :=
  ⟨[.literal ⟨"foo", by simp [isReserved], by simp [isSeparator]⟩], List.cons_ne_nil _ _⟩

def listName : Name := listParent.push (.literal ⟨"bar", by simp [isReserved], by simp [isSeparator]⟩)

/-- Below `foo` there is a name and it is found; below `foo.bar` there is said to be none, and yet its
first item is found. -/
theorem containsDescendantOf_spec_listChain :
    listChain.Standard ∧ (∀ s ∈ listChain.sources, s.provider.Stored) ∧
      Session.start.Knows listChain ∧
      (listChain.containsDescendantOf listParent .start).1 = .present ∧
      (∃ d, listParent.isAncestorOf d = true ∧ (listChain.resolve d .start).1.isSome = true) ∧
      (listChain.containsDescendantOf listName .start).1 = .absent ∧
      listName.isAncestorOf (listName.push (.index 0)) = true ∧
      (listChain.resolve (listName.push (.index 0)) .start).1.isSome = true := by
  have hc : listChain.Standard :=
    ⟨List.nodup_singleton _, List.forall_mem_singleton.mpr (.environment true)⟩
  have hstored : ∀ s ∈ listChain.sources, s.provider.Stored :=
    List.forall_mem_singleton.mpr (.snapshot _ _ _)
  have hσ := Session.knows_start listChain
  have hpresent : (listChain.containsDescendantOf listParent .start).1 = .present := by decide +kernel
  have habsent : (listChain.containsDescendantOf listName .start).1 = .absent := by decide +kernel
  have hbelow : listName.isAncestorOf (listName.push (.index 0)) = true := by decide +kernel
  have hitem : listSource.HoldsItem listName (listName.push (.index 0)) :=
    ⟨rfl, by decide +kernel, 0, .text "a,b", .text "a", rfl, rfl, rfl⟩
  obtain ⟨-, -, hfound, -⟩ := containsDescendantOf_spec listChain listParent hc hstored hσ
  obtain ⟨d, hd, hresolve⟩ := hfound hpresent
  obtain ⟨-, -, -, hitems⟩ := containsDescendantOf_spec listChain listName hc hstored hσ
  have hiff := hitems habsent _ hbelow _ hσ
  exact ⟨hc, hstored, hσ, hpresent, ⟨d, hd, hresolve _ hσ⟩, habsent, hbelow,
    hiff.mpr ⟨listSource, List.mem_singleton_self _, hitem⟩⟩

end Chain

end LayeredConfig
