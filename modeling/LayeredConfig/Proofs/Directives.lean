import LayeredConfig.Logging.Settings
import LayeredConfig.Proofs.ListItems
import LayeredConfig.Provider.Script
import Mathlib.Combinatorics.Enumerative.DoubleCounting

/-!
# LayeredConfig.Proofs.Directives

Reading the log directives of a chain comes to an end.

1. A provider holds finitely many values if all that it answers is among them, each with so many items
   (`Provider.HoldsWithin`).  Tables, environment variables and scripted providers do.
2. A source answers for an item of a list from a key that stands for it, or from an item of the value
   under the key of the list.  No key and no item serves two indexes, so there are no more indexes
   than items (`Source.card_supplied_le`), and the same holds of a chain (`Chain.card_supplied_le`).
3. The directives are a streak of what the chain displays from index 0 on
   (`LogSettings.directivesFrom_apply`).  Since the streak cannot be longer than there are items, it
   ends at the least index that is missing, and the loop that stops only there ends
   (`LogSettings.ofChain_spec`).
-/

namespace LayeredConfig

/-! ## Providers that hold finitely many values -/

/-- How many items a value has, at least one. -/
def Value.itemCount : Value → Nat
  | .list items => max 1 items.length
  | .text s => (Text.split ',' s.toList).length
  | _ => 1

namespace Value

theorem itemCount_pos (v : Value) : 0 < v.itemCount := by
  cases v with
  | text s => exact List.length_pos_iff.mpr (Text.split_ne_nil _ _)
  | list items => exact Nat.lt_of_lt_of_le Nat.zero_lt_one (Nat.le_max_left _ _)
  | bool b | integer i | float x => exact Nat.zero_lt_one

/-- The items of a value stand below its count. -/
theorem lt_itemCount {v w : Value} {i : Nat} (h : v.item? i = some w) : i < v.itemCount := by
  cases item?_eq_some_iff.mp h with
  | piece hpiece _ => exact (List.getElem?_eq_some_iff.mp hpiece).1
  | element hitem =>
      exact Nat.lt_of_lt_of_le (List.getElem?_eq_some_iff.mp hitem).1 (Nat.le_max_right _ _)
  | itself => exact v.itemCount_pos

end Value

namespace Provider

/-- How many items there are in values that are held under keys. -/
def itemsHeld (held : List (String × Value)) : Nat := (held.map fun kv => kv.2.itemCount).sum

/-- The values of a provider are among finitely many, which have so many items at most. -/
def HoldsWithin (p : Provider) (k : Nat) : Prop :=
  ∃ held : List (String × Value),
    (∀ key v, p.get key = .ok (some v) → (key, v) ∈ held) ∧ itemsHeld held ≤ k

/-- A provider of entries holds no more items than the values of its entries have. -/
theorem holdsWithin_entries (name : String) (es : Entries) :
    (es.provider name).HoldsWithin (itemsHeld (es.map fun ke => (ke.1, ke.2.value))) := by
  refine ⟨_, fun key v h => ?_, Nat.le_refl _⟩
  rw [Entries.provider, Except.ok.injEq, Option.map_eq_some_iff] at h
  obtain ⟨e, he, rfl⟩ := h
  obtain ⟨before, after, rfl, -⟩ := List.lookup_eq_some_iff.mp he
  exact List.mem_map.mpr ⟨(key, e), by simp, rfl⟩

/-- A scripted provider holds no more items than its values have, failing keys or not. -/
theorem holdsWithin_script (name : String) (s : Script) :
    (s.provider name).HoldsWithin (itemsHeld s.values) := by
  refine ⟨s.values, fun key v h => ?_, Nat.le_refl _⟩
  simp only [Script.provider] at h
  split at h
  · contradiction
  · contradiction
  · rw [Except.ok.injEq] at h
    obtain ⟨before, after, hvalues, -⟩ := List.lookup_eq_some_iff.mp h
    have hmem : (key, v) ∈ s.values.reverse := by
      rw [hvalues]
      simp
    exact List.mem_reverse.mp hmem

end Provider

namespace Environment

/-- The key behind a full name. -/
def keyOf (pre : Option String) (full : List Char) : String :=
  String.ofList (full.drop (pre.getD "").toList.length)

theorem keyOf_fullKey (pre : Option String) (key : String) :
    keyOf pre (fullKey pre key).toList = key := by
  rw [keyOf, fullKey, String.toList_append, List.drop_left, String.ofList_toList]

/-- What variables that were taken once can answer. -/
def heldBy (pre : Option String) (vars : List (String × String)) : List (String × Value) :=
  (Entries.ofList (vars.map fun (k, v) => (k, .text v))).map fun ke =>
    (keyOf pre ke.1.toList, ke.2.value)

/-- Variables that were taken once hold no more items than those behind the prefix have. -/
theorem holdsWithin_ofVariables (name : String) (pre : Option String)
    (vars : List (String × String)) :
    (ofVariables name pre vars).HoldsWithin (Provider.itemsHeld (heldBy pre vars)) := by
  refine ⟨_, fun key v h => ?_, Nat.le_refl _⟩
  rw [ofVariables, Except.ok.injEq, Option.map_eq_some_iff] at h
  obtain ⟨e, he, rfl⟩ := h
  obtain ⟨before, after, hes, -⟩ := List.lookup_eq_some_iff.mp he
  rw [heldBy, hes]
  refine List.mem_map.mpr ⟨(fullKey pre key, e), by simp, ?_⟩
  rw [keyOf_fullKey]

/-- What can be cut out of the text of a variable: wherever it is cut, what stands before the place is
a full name, and what stands after it a value. -/
def cuts (pre : Option String) (text : List Char) : List (String × Value) :=
  (List.range text.length).map fun n =>
    (keyOf pre (text.take n), .text (String.ofList (text.drop (n + 1))))

/-- A value that a lookup cuts out of the text of a variable is among its cuts. -/
theorem mem_cuts (pre : Option String) (key value : String) :
    (key, .text value) ∈ cuts pre (fullKey pre key ++ "=" ++ value).toList := by
  have htext : (fullKey pre key ++ "=" ++ value).toList =
      (fullKey pre key).toList ++ '=' :: value.toList := by simp
  refine List.mem_map.mpr ⟨(fullKey pre key).toList.length, ?_, ?_⟩
  · simp [htext]
  · rw [htext, List.take_left, keyOf_fullKey, ← List.drop_drop, List.drop_left]
    simp

/-- What variables can answer that are asked at every lookup. -/
def heldLive (pre : Option String) (env : Environment) : List (String × Value) :=
  env.flatMap fun
    | (name, some value) => cuts pre (name ++ "=" ++ value).toList
    | (_, none) => []

/-- A process that is asked holds no more items than the cuts of its variables have. -/
theorem holdsWithin_live (name : String) (pre : Option String) (env : Environment) :
    (live name pre env).HoldsWithin (Provider.itemsHeld (heldLive pre env)) := by
  refine ⟨_, fun key v h => ?_, Nat.le_refl _⟩
  simp only [live] at h
  split at h
  · next value hvalue =>
    cases h
    obtain ⟨⟨k, found⟩, hmem, hfound⟩ := List.exists_of_findSome?_eq_some hvalue
    refine List.mem_flatMap.mpr ⟨_, hmem, ?_⟩
    cases found with
    | none =>
        simp only [Option.ite_none_right_eq_some] at hfound
        exact nomatch hfound.2
    | some text =>
        simp only [Option.map_eq_some_iff, Option.some.injEq, exists_eq_right] at hfound
        simp only [valueAfter?_eq_some_iff.mp hfound]
        exact mem_cuts pre key value
  · contradiction
  · cases h

end Environment

/-! ## What answers for the indexes of a list -/

namespace Provider

/-- The items of values that are held under keys, each a key and a number. -/
def slots (held : List (String × Value)) : List (String × Nat) :=
  held.flatMap fun kv => (List.range kv.2.itemCount).map (kv.1, ·)

theorem length_slots (held : List (String × Value)) : (slots held).length = itemsHeld held := by
  simp [slots, itemsHeld, List.length_flatMap]

/-- Every item of what is held has a slot of its own. -/
theorem mem_slots {held : List (String × Value)} {key : String} {v : Value} {j : Nat}
    (hheld : (key, v) ∈ held) (hj : j < v.itemCount) : (key, j) ∈ slots held :=
  List.mem_flatMap.mpr ⟨_, hheld, List.mem_map_of_mem (List.mem_range.mpr hj)⟩

end Provider

/-- The name of an item of a list. -/
def Name.itemName (b : Name) (i : Nat) : Name := b.push (.index (UInt64.ofNat i))

/-- Items of one list agree only if they have one index. -/
theorem Name.eq_of_agrees_itemName {b : Name} {i j : Nat} (hi : i < UInt64.size)
    (hj : j < UInt64.size) (h : (b.itemName i).agrees (b.itemName j) = true) : i = j := by
  have hlast := Mapping.asIndex?_last_eq h
  rw [itemName, itemName, last_push, last_push] at hlast
  have hindex := congrArg UInt64.toNat (Option.some.inj hlast)
  rwa [UInt64.toNat_ofNat_of_lt' hi, UInt64.toNat_ofNat_of_lt' hj] at hindex

namespace Mapping

variable {m : Mapper} {b : Name} {i j : Nat} {slot : String × Nat}

/-- A held item can answer for an index of a list: the first under a key that stands for the index, or
the one with this number under the key of the whole list. -/
inductive Serves (m : Mapper) (b : Name) (i : Nat) : String × Nat → Prop where
  | own {key : String} (h : m.standsFor (b.itemName i) key = true) : Serves m b i (key, 0)
  | item (h : m = environment true) : Serves m b i (listKey b, i)

/-- **No item answers for two indexes.** -/
theorem Serves.unique (h : Serves m b i slot) (h' : Serves m b j slot) (hi : i < UInt64.size)
    (hj : j < UInt64.size) : i = j := by
  cases h with
  | own h =>
      cases h' with
      | own h' =>
          rw [Mapper.standsFor_congr h] at h'
          exact Name.eq_of_agrees_itemName hi hj h'
      | item hm =>
          rw [hm, Name.itemName, standsFor_listKey_push] at h
          contradiction
  | item hm =>
      -- Under the key of the list the number of the item is the index.
      cases h' with
      | own h' =>
          rw [hm, Name.itemName, standsFor_listKey_push] at h'
          contradiction
      | item => rfl

end Mapping

namespace Source

open Mapping

variable {s : Source} {b : Name} {k : Nat}

/-- **What is found is yielded by a candidate**, whether other lookups fail or not. -/
theorem yields_of_tries {n : Name} {cs : List Candidate} {p : Property}
    (h : s.tries n cs = .ok (some p)) : ∃ c ∈ cs, s.Yields n c := by
  induction cs with
  | nil => cases h
  | cons c cs ih =>
      have hrest (h : s.tries n cs = .ok (some p)) : ∃ c' ∈ c :: cs, s.Yields n c' := by
        obtain ⟨c', hc', hyields⟩ := ih h
        exact ⟨c', List.mem_cons_of_mem _ hc', hyields⟩
      rw [tries] at h
      split at h
      · next happlies =>
        cases hget : s.provider.get c.key with
        | error e =>
            rw [hget] at h
            cases h
        | ok stored =>
            rw [hget] at h
            cases stored with
            | none => exact hrest h
            | some raw =>
                cases hextract : c.extract raw with
                | ok v => exact ⟨c, List.mem_cons_self, happlies, raw, v, hget, hextract⟩
                | error e =>
                    simp only [hextract] at h
                    exact hrest h
      · exact hrest h

/-- What is supplied for an index of a list is a held item that can answer for it. -/
theorem exists_serves (hm : s.mapper.mapper.BuiltIn) {held : List (String × Value)}
    (hheld : ∀ key v, s.provider.get key = .ok (some v) → (key, v) ∈ held) {i : Nat}
    (hi : i < UInt64.size) (h : (s.supplied (b.itemName i)).isSome = true) :
    ∃ slot ∈ Provider.slots held, Serves s.mapper.mapper b i slot := by
  obtain ⟨p, hp⟩ := Option.isSome_iff_exists.mp h
  rw [supplied_eq_some_iff, reply_eq_tries] at hp
  obtain ⟨c, hc, hyields⟩ := yields_of_tries hp
  rcases mem_tried hm hc with ⟨key, rfl, hstands⟩ | ⟨hlists, hlist⟩
  · obtain ⟨v, hget⟩ := yields_plain_iff.mp hyields
    exact ⟨(key, 0), Provider.mem_slots (hheld key v hget) v.itemCount_pos, .own hstands⟩
  · rw [Name.itemName, listCandidate?_push] at hlist
    cases hlist
    obtain ⟨list, item, hget, hitem⟩ :=
      (yields_item_iff (b.parent?_push _) (congrArg _ (b.last_push _))).mp hyields
    rw [UInt64.toNat_ofNat_of_lt' hi] at hitem
    exact ⟨(listKey b, i), Provider.mem_slots (hheld _ _ hget) (Value.lt_itemCount hitem),
      .item hlists⟩

/-- **A source supplies no more indexes of a list than it holds items.** -/
theorem card_supplied_le (hm : s.mapper.mapper.BuiltIn) (hs : s.provider.HoldsWithin k)
    {indexes : Finset Nat} (hbound : ∀ i ∈ indexes, i < UInt64.size)
    (h : ∀ i ∈ indexes, (s.supplied (b.itemName i)).isSome = true) : indexes.card ≤ k := by
  obtain ⟨held, hheld, hk⟩ := hs
  -- Every index goes with an item that answers for it, and no item with two indexes.
  calc indexes.card
    _ ≤ (Provider.slots held).toFinset.card := by
        refine Finset.card_le_card_of_forall_subsingleton (Serves s.mapper.mapper b) (fun i hi => ?_)
          fun slot _ i hi j hj => hi.2.unique hj.2 (hbound i hi.1) (hbound j hj.1)
        obtain ⟨slot, hslot, hserves⟩ := exists_serves hm hheld (hbound i hi) (h i hi)
        exact ⟨slot, List.mem_toFinset.mpr hslot, hserves⟩
    _ ≤ (Provider.slots held).length := List.toFinset_card_le _
    _ ≤ k := Provider.length_slots held ▸ hk

end Source

/-- **Several sources supply no more indexes of a list than they hold items**, whichever of them
supplies which. -/
theorem Chain.card_supplied_le {b : Name} {ss : List Source} {ks : List Nat}
    (hfinite : List.Forall₂ (fun s k => s.provider.HoldsWithin k) ss ks)
    (hm : ∀ s ∈ ss, s.mapper.mapper.BuiltIn) {indexes : Finset Nat}
    (hbound : ∀ i ∈ indexes, i < UInt64.size)
    (h : ∀ i ∈ indexes, (ss.findSome? (·.supplied (b.itemName i))).isSome = true) :
    indexes.card ≤ ks.sum := by
  induction hfinite generalizing indexes with
  | nil =>
      have hempty : indexes = ∅ := Finset.eq_empty_of_forall_notMem fun i hi => nomatch h i hi
      simp [hempty]
  | @cons s k ss ks hs _ ih =>
      have ⟨hms, hmss⟩ := List.forall_mem_cons.mp hm
      -- What the first source leaves out is supplied by one of the others.
      let first (i : Nat) : Bool := (s.supplied (b.itemName i)).isSome
      have hfirst : (indexes.filter (first · = true)).card ≤ k :=
        Source.card_supplied_le hms hs (fun i hi => hbound i (Finset.mem_filter.mp hi).1)
          fun i hi => (Finset.mem_filter.mp hi).2
      have hothers : (indexes.filter (¬ first · = true)).card ≤ ks.sum := by
        refine ih hmss (fun i hi => hbound i (Finset.mem_filter.mp hi).1) fun i hi => ?_
        obtain ⟨hmem, hnone⟩ := Finset.mem_filter.mp hi
        have hsome := h i hmem
        rw [List.findSome?_cons, Option.not_isSome_iff_eq_none.mp hnone] at hsome
        exact hsome
      calc indexes.card
        _ = (indexes.filter (first · = true)).card + (indexes.filter (¬ first · = true)).card :=
            (Finset.card_filter_add_card_filter_not _).symm
        _ ≤ k + ks.sum := Nat.add_le_add hfirst hothers
        _ = (k :: ks).sum := (List.sum_cons ..).symm

/-! ## Reading the directives -/

namespace LogSettings

variable {c : Chain} {n : Name} {σ τ : Session} {count i : Nat}

/-- The text that a chain has for an item of the list of directives. -/
def directive? (c : Chain) (i : Nat) : Option String :=
  (c.sources.findSome? (·.supplied (directivesName.itemName i))).map (·.value.display)

/-- The directive of an index, as it is read from a chain that the session knows. -/
theorem textOf_directive (hc : c.Standard) (hσ : σ.Knows c) (i : Nat) :
    (textOf c (directivesName.itemName i) σ).1 = directive? c i := by
  rw [textOf, Run.bind_apply, Run.pure_apply, Chain.resolve_eq_findSome? hc hσ]
  rfl

/-- Reading a text leaves the session knowing the chain. -/
theorem maintains_textOf (hc : c.Standard) (n : Name) :
    Run.Maintains (·.Knows c) (textOf c n) :=
  Chain.Standard.compositional_knows.bind (hc.maintains_resolveIn fun _ hs => hs) fun _ =>
    Chain.Standard.compositional_knows.pure _

/-- Reading a setting leaves the session knowing the chain. -/
theorem maintains_readOr {α : Type} (hc : c.Standard) (n : Name) (parse : String → Except String α)
    (default : α) : Run.Maintains (·.Knows c) (readOr c n parse default) := by
  refine Chain.Standard.compositional_knows.bind (maintains_textOf hc n) fun found => ?_
  cases found with
  | none => exact Chain.Standard.compositional_knows.pure _
  | some text =>
      dsimp only
      cases parse text with
      | ok a => exact Chain.Standard.compositional_knows.pure _
      | error e =>
          exact Chain.Standard.compositional_knows.bind (Chain.Standard.compositional_knows.note _)
            fun _ => Chain.Standard.compositional_knows.pure _

/-- **The directives that are read are a streak of what the chain has.** -/
theorem directivesFrom_apply (hc : c.Standard) (hσ : σ.Knows c) (count i : Nat) :
    (directivesFrom c count i σ).1 = streak (directive? c) count i := by
  induction count generalizing i σ with
  | zero => rfl
  | succ count ih =>
      have htext := textOf_directive hc hσ i
      have hafter := maintains_textOf hc (directivesName.itemName i) σ hσ
      rw [Name.itemName] at htext hafter
      rw [directivesFrom, Run.bind_apply, streak, htext]
      cases directive? c i with
      | none => rfl
      | some text =>
          rw [← ih hafter (i + 1)]
          rfl

/-- The loop that reads directives from an index on and stops only at one that is missing: from one
session it comes to an end in another one, with these texts.  Indexes have 64 bits. -/
inductive ReadsOn (c : Chain) : Nat → Session → List String → Session → Prop where
  | stop {i : Nat} {σ : Session} (hi : i < UInt64.size)
      (h : (textOf c (directivesName.itemName i) σ).1 = none) :
      ReadsOn c i σ [] (textOf c (directivesName.itemName i) σ).2
  | read {i : Nat} {σ τ : Session} {text : String} {texts : List String} (hi : i < UInt64.size)
      (h : (textOf c (directivesName.itemName i) σ).1 = some text)
      (rest : ReadsOn c (i + 1) (textOf c (directivesName.itemName i) σ).2 texts τ) :
      ReadsOn c i σ (text :: texts) τ

/-- **If less is read than may be, the loop has stopped by itself.** -/
theorem readsOn_directivesFrom (hbound : i + count ≤ UInt64.size)
    (h : (directivesFrom c count i σ).1.length < count) :
    ReadsOn c i σ (directivesFrom c count i σ).1 (directivesFrom c count i σ).2 := by
  induction count generalizing i σ with
  | zero => exact absurd h (Nat.not_lt_zero _)
  | succ count ih =>
      have hi : i < UInt64.size := by omega
      rw [directivesFrom, Run.bind_apply] at h ⊢
      cases htext : (textOf c (directivesName.itemName i) σ).1 with
      | none =>
          rw [Name.itemName] at htext
          rw [htext]
          exact .stop hi htext
      | some text =>
          rw [Name.itemName] at htext
          rw [htext] at h ⊢
          exact .read hi htext (ih (by omega) (Nat.lt_of_succ_lt_succ h))

/-- The directives are read last, in a session that knows the chain. -/
theorem exists_ofChain_eq (hc : c.Standard) (hσ : σ.Knows c) :
    ∃ υ : Session, υ.Knows c ∧
      (ofChain c σ).1.directives = (directivesFrom c indexCount 0 υ).1 ∧
      (ofChain c σ).2 = (directivesFrom c indexCount 0 υ).2 :=
  ⟨_, maintains_textOf hc _ _ (maintains_readOr hc _ _ _ _ (maintains_readOr hc _ _ _ _
    (maintains_readOr hc _ _ _ _ hσ))), rfl, rfl⟩

/-- The texts of the directives are those of properties that the chain has. -/
theorem directive?_eq_some_iff (hc : c.Standard) (hτ : τ.Knows c) {text : String} :
    directive? c i = some text ↔ ∃ p,
      (c.resolve (directivesName.itemName i) τ).1 = some p ∧ p.value.display = text := by
  rw [directive?, Option.map_eq_some_iff, Chain.resolve_eq_findSome? hc hτ]

/-- A chain has no more directives than its providers hold items. -/
theorem length_streak_directive?_le (hc : c.Standard) {ks : List Nat}
    (hfinite : List.Forall₂ (fun s k => s.provider.HoldsWithin k) c.sources ks) :
    (streak (directive? c) indexCount 0).length ≤ ks.sum := by
  let indexes := Finset.range (streak (directive? c) indexCount 0).length
  have hbound : ∀ i ∈ indexes, i < UInt64.size := fun i hi =>
    Nat.lt_of_lt_of_le (Finset.mem_range.mp hi) (length_streak_le _ _ _)
  have hsome : ∀ i ∈ indexes,
      (c.sources.findSome? (·.supplied (directivesName.itemName i))).isSome = true := by
    intro i hi
    have hread := streak_getElem? (List.getElem?_eq_getElem (Finset.mem_range.mp hi))
    rw [Nat.zero_add, directive?, Option.map_eq_some_iff] at hread
    obtain ⟨p, hp, -⟩ := hread
    exact Option.isSome_of_eq_some hp
  calc (streak (directive? c) indexCount 0).length
    _ = indexes.card := (Finset.card_range _).symm
    _ ≤ ks.sum := Chain.card_supplied_le hfinite hc.builtIn hbound hsome

/-- **The log directives that a chain has.**  If its providers hold finitely many values, what is read
are the values of `logging.directives[0]`, `logging.directives[1]` and so on, as displayed, up to the
least index that is missing, whichever sources supply them; there are no more of them than there are
items in the values.  The loop that stops only at a missing index ends there.  Indexes have 64 bits, so
none is missing only if there are at least as many items as indexes. -/
theorem ofChain_spec (c : Chain) (σ : Session) (ks : List Nat) (hc : c.Standard) (hσ : σ.Knows c)
    (hfinite : List.Forall₂ (fun s k => s.provider.HoldsWithin k) c.sources ks) :
    ∃ k ≤ ks.sum, (ofChain c σ).1.directives.length = k ∧
      (∀ i < k, ∀ τ : Session, τ.Knows c → ∃ p,
        (c.resolve (directivesName.itemName i) τ).1 = some p ∧
        (ofChain c σ).1.directives[i]? = some p.value.display) ∧
      (k < UInt64.size →
        (∀ τ : Session, τ.Knows c → (c.resolve (directivesName.itemName k) τ).1 = none) ∧
        ∃ υ : Session, υ.Knows c ∧ ReadsOn c 0 υ (ofChain c σ).1.directives (ofChain c σ).2) := by
  obtain ⟨υ, hυ, hread, hend⟩ := exists_ofChain_eq hc hσ
  have hstreak := directivesFrom_apply hc hυ indexCount 0
  have hle := length_streak_directive?_le hc hfinite
  rw [← hstreak] at hle
  rw [hread, hend]
  refine ⟨_, hle, rfl, fun i hi τ hτ => ?_, fun hk => ?_⟩
  · obtain ⟨text, hget⟩ : ∃ text, (directivesFrom c indexCount 0 υ).1[i]? = some text :=
      ⟨_, List.getElem?_eq_getElem hi⟩
    have htext := streak_getElem? (hstreak ▸ hget)
    rw [Nat.zero_add, directive?_eq_some_iff hc hτ] at htext
    obtain ⟨p, hp, rfl⟩ := htext
    exact ⟨p, hp, hget⟩
  · -- There are more indexes than texts, so the streak has come to its end.
    refine ⟨fun τ hτ => ?_, υ, hυ, readsOn_directivesFrom (Nat.zero_add _).le hk⟩
    have hnone := eq_none_of_length_streak_lt (hstreak ▸ hk)
    rw [Nat.zero_add, ← hstreak, directive?, Option.map_eq_none_iff] at hnone
    rw [Chain.resolve_eq_findSome? hc hτ, hnone]

/-- A store that has the second directive and fails for the third. -/
def storeSource : Source where
  id := 0
  name := "store"
  capability := .lookupOnly
  provider := Script.provider "store"
    ⟨false, [("logging.directives[1]", .text "app=debug")], [], [("logging.directives[2]", none)]⟩
  mapper := ⟨Mapping.dotted, none⟩
  derivedFrom := none

/-- An environment with a list of two directives in one variable. -/
def variableSource : Source where
  id := 1
  name := "systemEnvironment"
  capability := .enumerable
  provider := Environment.ofVariables "systemEnvironment" none
    [("LOGGING_DIRECTIVES__", "warn, db=off")]
  mapper := ⟨Mapping.environment true, none⟩
  derivedFrom := none

def directiveChain : Chain := ⟨[storeSource, variableSource], by decide⟩

/-- The first directive comes from the list and the second one from the store, before the list; the
third is in neither. -/
theorem ofChain_spec_directiveChain :
    directiveChain.Standard ∧ Session.start.Knows directiveChain ∧
      List.Forall₂ (fun s k => s.provider.HoldsWithin k) directiveChain.sources [1, 2] ∧
      (ofChain directiveChain .start).1.directives = ["warn", "app=debug"] ∧
      (directiveChain.resolve (directivesName.itemName 2) .start).1 = none ∧
      ∃ υ : Session, υ.Knows directiveChain ∧
        ReadsOn directiveChain 0 υ ["warn", "app=debug"] (ofChain directiveChain .start).2 := by
  have hc : directiveChain.Standard :=
    ⟨by decide, List.forall_mem_cons.mpr ⟨.dotted, List.forall_mem_singleton.mpr (.environment true)⟩⟩
  have hσ := Session.knows_start directiveChain
  have hfinite :
      List.Forall₂ (fun s k => s.provider.HoldsWithin k) directiveChain.sources [1, 2] := by
    have hstore : storeSource.provider.HoldsWithin 1 := Provider.holdsWithin_script _ _
    have hvariable : variableSource.provider.HoldsWithin 2 := by
      have hitems : 2 = Provider.itemsHeld
          (Environment.heldBy none [("LOGGING_DIRECTIVES__", "warn, db=off")]) := by decide +kernel
      rw [hitems]
      exact Environment.holdsWithin_ofVariables _ _ _
    exact .cons hstore (.cons hvariable .nil)
  have hread : (ofChain directiveChain .start).1.directives = ["warn", "app=debug"] := by
    decide +kernel
  obtain ⟨k, -, hlength, -, hend⟩ := ofChain_spec directiveChain .start [1, 2] hc hσ hfinite
  rw [hread] at hlength hend
  subst hlength
  obtain ⟨hnone, hloop⟩ := hend (by decide)
  exact ⟨hc, hσ, hfinite, hread, hnone _ hσ, hloop⟩

end LogSettings

end LayeredConfig
