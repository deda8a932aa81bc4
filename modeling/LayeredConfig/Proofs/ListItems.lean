import LayeredConfig.Proofs.Descendants
import Mathlib.Data.List.TakeWhile

/-!
# LayeredConfig.Proofs.ListItems

The items of a list that one environment variable holds.

1. An item of a text is a piece between commas without the blanks around it (`Text.trimmed_iff`,
   `Value.item?_eq_some_iff`).
2. A source with the list shortcut looks for an item under the key of the item itself, then in the
   value under the key of the whole list, and then under the least of the other keys that stand for
   the item; a list without the item is passed over, and nothing fails (`Source.reply_item`).
3. What is read from index 0 on, up to the first index that is missing, is the beginning of the
   answers that are there (`streak_eq_take`).  Where no key stands for an item, these are the pieces of
   the text (`Source.readItems_spec`).
-/

namespace LayeredConfig

/-! ## Texts without the blanks around them -/

namespace Text

variable {cs t : List Char}

/-- A text without the blanks at both of its ends. -/
structure Trimmed (cs t : List Char) : Prop where
  around : ∃ before after, cs = before ++ t ++ after ∧ (∀ c ∈ before, isBlank c = true) ∧
    ∀ c ∈ after, isBlank c = true
  front : ∀ c, t.head? = some c → isBlank c = false
  back : ∀ c, t.getLast? = some c → isBlank c = false

/-- Nothing is dropped where the front is not blank. -/
theorem dropWhile_isBlank_eq_self (h : ∀ c, cs.head? = some c → isBlank c = false) :
    cs.dropWhile isBlank = cs := by
  cases cs with
  | nil => rfl
  | cons c cs => rw [List.dropWhile_cons_of_neg (by simp [h c rfl])]

theorem isBlank_head?_dropWhile {c : Char} (h : (cs.dropWhile isBlank).head? = some c) :
    isBlank c = false := by
  have hhead := List.head?_dropWhile_not isBlank cs
  rw [h] at hhead
  simpa using hhead

/-- **What is dropped at both ends are exactly the blanks there.** -/
theorem trimmed_iff : Trimmed cs t ↔ t = trim cs := by
  constructor
  · rintro ⟨⟨before, after, rfl, hbefore, hafter⟩, hfront, hback⟩
    have hback' : ∀ c, t.reverse.head? = some c → isBlank c = false := fun c hc =>
      hback c (List.head?_reverse ▸ hc)
    rw [trim, List.append_assoc, List.dropWhile_append_of_pos hbefore]
    cases t with
    | nil =>
        rw [List.nil_append, List.dropWhile_eq_nil_iff.mpr hafter]
        rfl
    | cons c t =>
        have hfront' : ∀ d, (c :: t ++ after).head? = some d → isBlank d = false := hfront
        rw [dropWhile_isBlank_eq_self hfront', List.reverse_append,
          List.dropWhile_append_of_pos (by simpa using hafter), dropWhile_isBlank_eq_self hback',
          List.reverse_reverse]
  · rintro rfl
    have hsplit := List.takeWhile_append_dropWhile (p := isBlank) (l := cs)
    generalize hd : cs.dropWhile isBlank = ds at hsplit
    have hsplit' := List.takeWhile_append_dropWhile (p := isBlank) (l := ds.reverse)
    have htrim : ds = trim cs ++ (ds.reverse.takeWhile isBlank).reverse := by
      rw [trim, hd, ← List.reverse_append, hsplit', List.reverse_reverse]
    refine ⟨⟨cs.takeWhile isBlank, (ds.reverse.takeWhile isBlank).reverse, ?_,
      fun c hc => List.mem_takeWhile_imp hc,
      fun c hc => List.mem_takeWhile_imp (List.mem_reverse.mp hc)⟩, fun c hc => ?_, fun c hc => ?_⟩
    · rw [List.append_assoc, ← htrim, hsplit]
    · have hne : trim cs ≠ [] := by
        rintro hempty
        simp [hempty] at hc
      have hfirst : (cs.dropWhile isBlank).head? = some c := by
        rw [hd, htrim]
        exact (List.head?_append_of_ne_nil _ hne).trans hc
      exact isBlank_head?_dropWhile hfirst
    · rw [trim, List.getLast?_reverse] at hc
      exact isBlank_head?_dropWhile hc

end Text

/-! ## Items of values -/

/-- A value has an item at a place: a text the piece there between its commas, trimmed, a list its
element there, and any other value itself at the first place. -/
inductive Value.ItemAt : Value → Nat → Value → Prop where
  | piece {s : String} {i : Nat} {piece t : List Char}
      (h : (Text.split ',' s.toList)[i]? = some piece) (ht : Text.Trimmed piece t) :
      ItemAt (.text s) i (.text (String.ofList t))
  | element {items : List Value} {i : Nat} {v : Value} (h : items[i]? = some v) :
      ItemAt (.list items) i v
  | itself {v : Value} (htext : v.asText? = none) (hlist : v.asList? = none) : ItemAt v 0 v

/-- An item is read from a list exactly if the list has it at this place. -/
theorem Value.item?_eq_some_iff {v w : Value} {i : Nat} : v.item? i = some w ↔ v.ItemAt i w := by
  constructor
  · intro h
    cases v with
    | text s =>
        rw [item?, Option.map_eq_some_iff] at h
        obtain ⟨piece, hpiece, rfl⟩ := h
        exact .piece (Text.pieceAt?_eq _ _ _ ▸ hpiece) (Text.trimmed_iff.mpr rfl)
    | list items => exact .element h
    | bool b | integer j | float x =>
        simp only [item?, Option.ite_none_right_eq_some, Option.some.injEq] at h
        obtain ⟨rfl, rfl⟩ := h
        exact .itself rfl rfl
  · intro h
    cases h with
    | piece h ht => rw [item?, Text.pieceAt?_eq, h, Text.trimmed_iff.mp ht, Option.map_some]
    | element h => exact h
    | itself htext hlist =>
        cases v with
        | text s => exact nomatch htext
        | list items => exact nomatch hlist
        | bool b | integer j | float x => rfl

/-! ## The keys of an item -/

theorem Name.parent?_push (b : Name) (e : Element) : (b.push e).parent? = some b :=
  Name.parent?_eq_some_iff.mpr ⟨e, rfl⟩

theorem Name.last_push (b : Name) (e : Element) : (b.push e).last = e := by
  simp [last, push, appendElements]

namespace Mapping

/-- The raw key of a whole list. -/
def listKey (b : Name) : String := environmentKey b.elements ++ listMarker

/-- The item `b[i]` is looked for in the list under the key of `b`. -/
theorem listCandidate?_push (b : Name) (i : UInt64) :
    listCandidate? (b.push (.index i)) = some ⟨listKey b, b, .item i⟩ :=
  listCandidate?_eq_some_iff.mpr ⟨b, i, b.parent?_push _, congrArg _ (b.last_push _), rfl⟩

/-- For an item the mapper gives its own key and that of its list. -/
theorem listed_push (b : Name) (i : UInt64) :
    (environment true).listed (b.push (.index i)) =
      [.plain (environmentKey (b.push (.index i)).elements) (b.push (.index i)),
        ⟨listKey b, b, .item i⟩] := by
  rw [Mapper.listed, environment]
  simp only [environmentCandidates, listCandidate?_push]
  rfl

/-- The key of a whole list stands for no item. -/
theorem standsFor_listKey_push (b : Name) (e : Element) :
    (environment true).standsFor (b.push e) (listKey b) = false := by
  rw [listKey, Mapper.standsFor_congr (standsFor_listKey b), Bool.eq_false_iff]
  intro h
  have happart := Name.agrees_parent (b.parent?_push e)
  rw [Name.agrees_symm h] at happart
  contradiction

end Mapping

namespace Source

open Mapping

variable {s : Source} {b : Name} {i : UInt64} {σ : Session}

/-- **Where an item comes from**: under its own key, or else out of the list, or else, if keys can be
listed, under the least of the keys that stand for it. -/
inductive ItemFrom (s : Source) (b : Name) (i : UInt64) : String → Value → Prop where
  | direct {v : Value}
      (h : s.provider.get (environmentKey (b.push (.index i)).elements) = .ok (some v)) :
      ItemFrom s b i (environmentKey (b.push (.index i)).elements) v
  | item {list v : Value} (hnone : ¬ s.provider.Has (environmentKey (b.push (.index i)).elements))
      (h : s.provider.get (listKey b) = .ok (some list)) (hitem : list.ItemAt i.toNat v) :
      ItemFrom s b i (listKey b) v
  | least {key : String} {v : Value}
      (hnone : ¬ s.provider.Has (environmentKey (b.push (.index i)).elements))
      (hno : ∀ list item, s.provider.get (listKey b) = .ok (some list) → ¬ list.ItemAt i.toNat item)
      (hcap : s.capability = .enumerable) (h : s.provider.get key = .ok (some v))
      (stands : (environment true).standsFor (b.push (.index i)) key = true)
      (least : ∀ k, s.provider.Has k →
        (environment true).standsFor (b.push (.index i)) k = true → key ≤ k) :
      ItemFrom s b i key v

/-- The listed keys that stand for a name and are no candidates. -/
def furtherKeys (s : Source) (n : Name) : List String :=
  match s.capability with
  | .lookupOnly => []
  | .enumerable => (s.newIndex.keysOf n).filter fun key =>
      !(s.mapper.mapper.listed n).any (·.key == key)

/-- A source tries the candidates of its mapper, and then the further keys that stand for the name. -/
theorem tried_eq (s : Source) (n : Name) :
    s.tried n = s.mapper.mapper.listed n ++ (s.furtherKeys n).map (.plain · n) := by
  rw [tried, furtherKeys]
  cases s.capability <;> rfl

/-- Where the item has no key of its own, the further keys are those with values that stand for
it. -/
theorem mem_furtherKeys (hm : s.mapper.mapper = environment true) (hp : s.provider.Listing)
    (hcap : s.capability = .enumerable)
    (hnone : ¬ s.provider.Has (environmentKey (b.push (.index i)).elements)) {key : String} :
    key ∈ s.furtherKeys (b.push (.index i)) ↔
      s.provider.Has key ∧ (environment true).standsFor (b.push (.index i)) key = true := by
  have hkeys : s.newIndex.keysOf (b.push (.index i)) =
      s.provider.keys.filter ((environment true).standsFor (b.push (.index i))) := by
    rw [newIndex, Index.keysOf_ofKeys, hm]
  have hlisted (hstands : (environment true).standsFor (b.push (.index i)) key = true) :
      key ∈ s.provider.keys ↔ s.provider.Has key :=
    mem_keys_iff_of_stands (hm ▸ .environment true) hp (hm ▸ hstands)
  rw [furtherKeys, hcap, hm, listed_push]
  simp only [hkeys, List.mem_filter, List.any_cons, List.any_nil, Bool.or_false, Candidate.plain,
    Bool.not_eq_true', Bool.or_eq_false_iff, beq_eq_false_iff_ne]
  constructor
  · rintro ⟨⟨hkey, hstands⟩, -⟩
    exact ⟨(hlisted hstands).mp hkey, hstands⟩
  · rintro ⟨has, hstands⟩
    refine ⟨⟨(hlisted hstands).mpr has, hstands⟩, ?_, ?_⟩
    · rintro rfl
      exact hnone has
    · rintro rfl
      rw [standsFor_listKey_push] at hstands
      contradiction

/-- After the candidates, the least of the other keys that stand for the item is found. -/
theorem tries_furtherKeys (hm : s.mapper.mapper = environment true) (hp : s.provider.Listing)
    (hnone : ¬ s.provider.Has (environmentKey (b.push (.index i)).elements)) :
    ∃ found, s.tries (b.push (.index i))
        ((s.furtherKeys (b.push (.index i))).map (.plain · (b.push (.index i)))) = .ok found ∧
      ∀ p, found = some p ↔ ∃ key v, s.capability = .enumerable ∧
        s.provider.get key = .ok (some v) ∧
        (environment true).standsFor (b.push (.index i)) key = true ∧
        (∀ k, s.provider.Has k → (environment true).standsFor (b.push (.index i)) k = true →
          key ≤ k) ∧
        p = ⟨b.push (.index i), v, s.originOf key⟩ := by
  rw [tries_plain]
  obtain ⟨found, hfound, hspec⟩ := s.first_spec (b.push (.index i)) hp.answers
    (s.furtherKeys (b.push (.index i)))
  refine ⟨found, hfound, fun p => (hspec p).trans ?_⟩
  cases hcap : s.capability with
  | lookupOnly =>
      have hempty : s.furtherKeys (b.push (.index i)) = [] := by rw [furtherKeys, hcap]
      rw [hempty]
      refine ⟨?_, ?_⟩
      · rintro ⟨key, v, h, -⟩
        exact nomatch h
      · rintro ⟨key, v, h, -⟩
        exact nomatch h
  | enumerable =>
      have hmem {key : String} : key ∈ s.furtherKeys (b.push (.index i)) ↔
          s.provider.Has key ∧ (environment true).standsFor (b.push (.index i)) key = true :=
        mem_furtherKeys hm hp hcap hnone
      have hascending : (s.furtherKeys (b.push (.index i))).Pairwise (· < ·) := by
        rw [furtherKeys, hcap, newIndex, Index.keysOf_ofKeys]
        exact (hp.ascending.filter _).filter _
      have hleast {key : String} :
          s.provider.FirstIn (s.furtherKeys (b.push (.index i))) key ↔
            key ∈ s.furtherKeys (b.push (.index i)) ∧
              ∀ k ∈ s.furtherKeys (b.push (.index i)), key ≤ k :=
        Provider.firstIn_iff_least hascending fun k hk => (hmem.mp hk).1
      simp only [hleast, hmem, true_and]
      constructor
      · rintro ⟨key, v, ⟨⟨-, hstands⟩, hle⟩, hget, rfl⟩
        exact ⟨key, v, hget, hstands, fun k has hk => hle k ⟨has, hk⟩, rfl⟩
      · rintro ⟨key, v, hget, hstands, hle, rfl⟩
        exact ⟨key, v, ⟨⟨⟨v, hget⟩, hstands⟩, fun k hk => hle k hk.1 hk.2⟩, hget, rfl⟩

/-- A candidate that applies is taken if its value can be used, and passed over if not. -/
theorem tries_cons {n : Name} {c : Candidate} {stored : Option Value} (happlies : c.applies n = true)
    (hget : s.provider.get c.key = .ok stored) (cs : List Candidate) :
    s.tries n (c :: cs) =
      match stored.bind fun raw => (c.extract raw).toOption with
      | some v => .ok (some ⟨n, v, s.originOf c.key⟩)
      | none => s.tries n cs := by
  rw [tries, if_pos happlies, hget]
  cases stored with
  | none => rfl
  | some raw => cases hextract : c.extract raw <;> simp [hextract, Except.toOption]

theorem extract_item_toOption (key : String) (parent : Name) (i : UInt64) (list : Value) :
    (Candidate.extract ⟨key, parent, .item i⟩ list).toOption = list.item? i.toNat := by
  simp only [Candidate.extract]
  cases list.item? i.toNat <;> rfl

/-- What is replied for an item, told by what is under its own key and under the key of the list. -/
theorem reply_push {own whole : Option Value} (hm : s.mapper.mapper = environment true)
    (hown : s.provider.get (environmentKey (b.push (.index i)).elements) = .ok own)
    (hwhole : s.provider.get (listKey b) = .ok whole) :
    s.reply (b.push (.index i)) =
      match own with
      | some v => .ok (some ⟨b.push (.index i), v,
          s.originOf (environmentKey (b.push (.index i)).elements)⟩)
      | none =>
        match whole.bind fun list => list.item? i.toNat with
        | some v => .ok (some ⟨b.push (.index i), v, s.originOf (listKey b)⟩)
        | none => s.tries (b.push (.index i))
            ((s.furtherKeys (b.push (.index i))).map (.plain · (b.push (.index i)))) := by
  have hplain : Candidate.applies (.plain (environmentKey (b.push (.index i)).elements)
      (b.push (.index i))) (b.push (.index i)) = true := Name.agrees_refl _
  have hlist : Candidate.applies ⟨listKey b, b, .item i⟩ (b.push (.index i)) = true :=
    applies_item _ (b.parent?_push _) (congrArg _ (b.last_push _))
  rw [reply_eq_tries, tried_eq, hm, listed_push, List.cons_append, List.singleton_append,
    tries_cons hplain hown, tries_cons hlist hwhole]
  simp only [extract_item_toOption]
  cases own <;> rfl

/-! ### Each place shuts out the others -/

section ItemFrom

variable {key : String} {v w : Value}

/-- An item that has a key of its own comes from this key. -/
theorem itemFrom_iff_direct
    (hown : s.provider.get (environmentKey (b.push (.index i)).elements) = .ok (some v)) :
    s.ItemFrom b i key w ↔ key = environmentKey (b.push (.index i)).elements ∧ w = v := by
  constructor
  · intro h
    cases h with
    | direct h =>
        rw [hown] at h
        cases h
        exact ⟨rfl, rfl⟩
    | item hnone | least hnone => exact absurd ⟨v, hown⟩ hnone
  · rintro ⟨rfl, rfl⟩
    exact .direct hown

/-- An item without a key of its own comes from the list, if the list is long enough. -/
theorem itemFrom_iff_item {list : Value}
    (hnone : ¬ s.provider.Has (environmentKey (b.push (.index i)).elements))
    (hget : s.provider.get (listKey b) = .ok (some list)) (hitem : list.item? i.toNat = some v) :
    s.ItemFrom b i key w ↔ key = listKey b ∧ w = v := by
  constructor
  · intro h
    cases h with
    | direct h => exact absurd ⟨w, h⟩ hnone
    | item _ h hat =>
        rw [hget] at h
        cases h
        rw [← Value.item?_eq_some_iff, hitem] at hat
        cases hat
        exact ⟨rfl, rfl⟩
    | least _ hno => exact absurd (Value.item?_eq_some_iff.mp hitem) (hno list v hget)
  · rintro ⟨rfl, rfl⟩
    exact .item hnone hget (Value.item?_eq_some_iff.mp hitem)

/-- An item that has neither comes from the least key that stands for it, if keys are listed. -/
theorem itemFrom_iff_least
    (hnone : ¬ s.provider.Has (environmentKey (b.push (.index i)).elements))
    (hno : ∀ list item, s.provider.get (listKey b) = .ok (some list) →
      ¬ list.ItemAt i.toNat item) :
    s.ItemFrom b i key v ↔ s.capability = .enumerable ∧ s.provider.get key = .ok (some v) ∧
      (environment true).standsFor (b.push (.index i)) key = true ∧
      ∀ k, s.provider.Has k → (environment true).standsFor (b.push (.index i)) k = true →
        key ≤ k := by
  constructor
  · intro h
    cases h with
    | direct h => exact absurd ⟨v, h⟩ hnone
    | item _ h hat => exact absurd hat (hno _ _ h)
    | least _ _ hcap h stands least => exact ⟨hcap, h, stands, least⟩
  · rintro ⟨hcap, h, stands, least⟩
    exact .least hnone hno hcap h stands least

end ItemFrom

/-- **What is found for an item of a list.** -/
theorem reply_item (hm : s.mapper.mapper = environment true) (hp : s.provider.Listing) :
    ∃ found, s.reply (b.push (.index i)) = .ok found ∧
      ∀ p, found = some p ↔ ∃ key v, s.ItemFrom b i key v ∧
        p = ⟨b.push (.index i), v, s.originOf key⟩ := by
  obtain ⟨own, hown⟩ := hp.answers (environmentKey (b.push (.index i)).elements)
  obtain ⟨whole, hwhole⟩ := hp.answers (listKey b)
  rw [reply_push hm hown hwhole]
  -- The cases are those of the reply, and in each of them only one place is left.
  cases own with
  | some v =>
      refine ⟨_, rfl, fun p => ?_⟩
      simp [itemFrom_iff_direct hown, eq_comm]
  | none =>
      have hnone : ¬ s.provider.Has (environmentKey (b.push (.index i)).elements) := by
        rintro ⟨v, hv⟩
        rw [hown] at hv
        cases hv
      cases hwith : whole.bind fun list => list.item? i.toNat with
      | some v =>
          obtain ⟨list, rfl, hitem⟩ := Option.bind_eq_some_iff.mp hwith
          refine ⟨_, rfl, fun p => ?_⟩
          simp [itemFrom_iff_item hnone hwhole hitem, eq_comm]
      | none =>
          have hno (list item : Value) (hget : s.provider.get (listKey b) = .ok (some list)) :
              ¬ list.ItemAt i.toNat item := by
            intro hat
            rw [hwhole] at hget
            cases hget
            rw [Option.bind_some, Value.item?_eq_some_iff.mpr hat] at hwith
            cases hwith
          obtain ⟨found, hfurther, hspec⟩ := tries_furtherKeys hm hp hnone
          refine ⟨found, hfurther, fun p => (hspec p).trans ?_⟩
          simp only [itemFrom_iff_least hnone hno, and_assoc]

end Source

/-! ## Reading on up to the first index that is missing -/

section Streak

variable {α : Type} {f : Nat → Option α} {count i : Nat}

/-- What is there from an index on, up to the first that is missing, for so many indexes at most. -/
def streak (f : Nat → Option α) : Nat → Nat → List α
  | 0, _ => []
  | count + 1, i =>
    match f i with
    | none => []
    | some a => a :: streak f count (i + 1)

/-- Where a list is all that is there, a streak is its beginning. -/
theorem streak_eq_take {l : List α} (h : ∀ j < count, f (i + j) = l[j]?) :
    streak f count i = l.take count := by
  induction count generalizing i l with
  | zero => rfl
  | succ count ih =>
      have hfirst : f i = l[0]? := h 0 (Nat.zero_lt_succ count)
      rw [streak, hfirst]
      cases l with
      | nil => rfl
      | cons a l =>
          have hrest : ∀ j < count, f (i + 1 + j) = l[j]? := fun j hj => by
            rw [Nat.add_assoc, Nat.add_comm 1 j]
            exact h (j + 1) (Nat.succ_lt_succ hj)
          rw [List.take_succ_cons, ← ih hrest]
          rfl

/-- A streak is no longer than the number of indexes that are tried. -/
theorem length_streak_le (f : Nat → Option α) (count i : Nat) :
    (streak f count i).length ≤ count := by
  induction count generalizing i with
  | zero => exact Nat.le_refl 0
  | succ count ih =>
      rw [streak]
      cases f i with
      | none => exact Nat.zero_le _
      | some a => exact Nat.succ_le_succ (ih (i + 1))

/-- Along a streak everything is there. -/
theorem streak_getElem? {j : Nat} {a : α} (h : (streak f count i)[j]? = some a) :
    f (i + j) = some a := by
  induction count generalizing i j with
  | zero => exact nomatch h
  | succ count ih =>
      rw [streak] at h
      cases hf : f i with
      | none =>
          rw [hf] at h
          exact nomatch h
      | some b =>
          rw [hf] at h
          cases j with
          | zero => exact hf.trans h
          | succ j =>
              rw [← Nat.add_assoc, Nat.add_right_comm]
              exact ih h

/-- **A streak ends only where something is missing**, unless it is as long as it may be. -/
theorem eq_none_of_length_streak_lt (h : (streak f count i).length < count) :
    f (i + (streak f count i).length) = none := by
  induction count generalizing i with
  | zero => exact absurd h (Nat.not_lt_zero _)
  | succ count ih =>
      rw [streak] at h ⊢
      cases hf : f i with
      | none => exact hf
      | some a =>
          rw [hf] at h
          rw [List.length_cons, ← Nat.add_assoc, Nat.add_right_comm]
          exact ih (Nat.lt_of_succ_lt_succ h)

end Streak

/-- The items of a text: the pieces between its commas, without the blanks around them. -/
def Value.pieces (text : String) : List Value :=
  (Text.split ',' text.toList).map fun piece => .text (String.ofList (Text.trim piece))

/-- The items of a text are its pieces. -/
theorem Value.item?_text (text : String) (i : Nat) : (Value.text text).item? i = (pieces text)[i]? := by
  rw [item?, Text.pieceAt?_eq, pieces, List.getElem?_map]

namespace Source

open Mapping

variable {s : Source} {b : Name} {σ : Session}

/-- Reads the values of the items of a list from an index on, up to the first that is missing, for so
many indexes at most. -/
def readItems (s : Source) (b : Name) : Nat → Nat → Run (Except ProviderError (List Value))
  | 0, _ => pure (.ok [])
  | count + 1, i => do
    match ← s.get (b.push (.index (UInt64.ofNat i))) with
    | .error e => pure (.error e)
    | .ok none => pure (.ok [])
    | .ok (some p) => return (← s.readItems b count (i + 1)).map (p.value :: ·)

/-- A lookup leaves in caches what the mapper gives. -/
theorem trusts_get (hm : s.mapper.mapper.BuiltIn) (h : σ.Trusts s.mapper) (n : Name) :
    (s.get n σ).2.Trusts s.mapper := by
  intro id hid a cs hcs
  rw [entry_get] at hcs
  exact h.candidates hm (fun _ _ _ => hm) n id hid a cs hcs

/-- **The items that are read are a streak of what is supplied.** -/
theorem readItems_apply (hm : s.mapper.mapper = environment true) (hp : s.provider.Listing)
    (hσ : σ.Faithful s) (hlists : σ.Trusts s.mapper) (count i : Nat) :
    (s.readItems b count i σ).1 = .ok (streak
      (fun k => (s.supplied (b.push (.index (UInt64.ofNat k)))).map (·.value)) count i) := by
  have hbuiltIn : s.mapper.mapper.BuiltIn := hm ▸ .environment true
  induction count generalizing i σ with
  | zero => rfl
  | succ count ih =>
      -- One more lookup leaves a session that gives the same replies.
      have hget := get_eq_reply hbuiltIn hσ hlists (b.push (.index (UInt64.ofNat i)))
      have hafter := ih (faithful_get (fun _ => rfl) (b.push (.index (UInt64.ofNat i))) hσ)
        (trusts_get hbuiltIn hlists (b.push (.index (UInt64.ofNat i)))) (i + 1)
      obtain ⟨found, hfound, -⟩ := reply_item (b := b) (i := UInt64.ofNat i) hm hp
      rw [readItems, Run.bind_apply, streak, supplied, hget, hfound]
      cases found with
      | none => rfl
      | some p =>
          simp only [Run.bind_apply, Option.map_some]
          rw [Run.pure_apply, hafter]
          rfl

/-- Where no key stands for an item, the items are those of the list. -/
theorem supplied_eq_item? (hm : s.mapper.mapper = environment true) (hp : s.provider.Listing)
    {list : Value} (hlist : s.provider.get (listKey b) = .ok (some list))
    (hnone : ∀ key ∈ s.provider.keys, ∀ i,
      (environment true).standsFor (b.push (.index i)) key = false) (i : UInt64) :
    (s.supplied (b.push (.index i))).map (·.value) = list.item? i.toNat := by
  have hno {key : String} (hstands : (environment true).standsFor (b.push (.index i)) key = true) :
      ¬ s.provider.Has key := by
    intro has
    have hkey := (mem_keys_iff_of_stands (hm ▸ .environment true) hp (hm ▸ hstands)).mpr has
    rw [hnone key hkey i] at hstands
    contradiction
  have hown := hno (standsFor_environmentKey true (b.push (.index i)))
  obtain ⟨found, hfound, hspec⟩ := reply_item (b := b) (i := i) hm hp
  have hfrom {key : String} {v : Value} (h : s.ItemFrom b i key v) :
      list.item? i.toNat = some v := by
    cases h with
    | direct h => exact absurd ⟨v, h⟩ hown
    | item _ h hat =>
        rw [hlist] at h
        cases h
        exact Value.item?_eq_some_iff.mpr hat
    | least _ _ _ h hstands => exact absurd ⟨v, h⟩ (hno hstands)
  rw [supplied, hfound]
  cases hitem : list.item? i.toNat with
  | some v =>
      have hat := Value.item?_eq_some_iff.mp hitem
      rw [(hspec _).mpr ⟨_, v, .item hown hlist hat, rfl⟩]
      rfl
  | none =>
      cases found with
      | none => rfl
      | some p =>
          obtain ⟨key, v, h, -⟩ := (hspec p).mp rfl
          rw [hfrom h] at hitem
          cases hitem

/-- **The list shortcut.**  A source with it, over stored entries, finds for an item what is under the
item's own key, or else the item of the value under the key of the whole list, or else what is under
the least of the other keys that stand for the item, if keys can be listed; otherwise nothing, and
there is no failure.  So if the key of the list holds a text and no key stands for an item, what is
read up to the first index that is missing are the pieces of the text between commas, without the
blanks around them, for as many as there are indexes. -/
theorem readItems_spec (s : Source) (b : Name) (σ : Session)
    (hmapper : s.mapper.mapper = environment true) (hstored : s.provider.Stored)
    (hσ : σ.Faithful s) (hlists : σ.Trusts s.mapper) :
    (∀ i, ∃ found, (s.get (b.push (.index i)) σ).1 = .ok found ∧
      ∀ p, found = some p ↔ ∃ key v, s.ItemFrom b i key v ∧
        p = ⟨b.push (.index i), v, s.originOf key⟩) ∧
    ∀ text, s.provider.get (listKey b) = .ok (some (.text text)) →
      (∀ key ∈ s.provider.keys, ∀ i,
        (environment true).standsFor (b.push (.index i)) key = false) →
      (s.readItems b UInt64.size 0 σ).1 = .ok ((Value.pieces text).take UInt64.size) ∧
      ((Value.pieces text).length ≤ UInt64.size →
        (s.readItems b UInt64.size 0 σ).1 = .ok (Value.pieces text)) := by
  have hp := hstored.listing
  have hbuiltIn : s.mapper.mapper.BuiltIn := hmapper ▸ .environment true
  refine ⟨fun i => ?_, fun text htext hnone => ?_⟩
  · obtain ⟨found, hfound, hspec⟩ := reply_item (b := b) (i := i) hmapper hp
    exact ⟨found, (get_eq_reply hbuiltIn hσ hlists _).trans hfound, hspec⟩
  · have hall : (s.readItems b UInt64.size 0 σ).1 =
        .ok ((Value.pieces text).take UInt64.size) := by
      rw [readItems_apply hmapper hp hσ hlists]
      refine congrArg _ (streak_eq_take fun j hj => ?_)
      rw [Nat.zero_add, supplied_eq_item? hmapper hp htext hnone, UInt64.toNat_ofNat_of_lt' hj,
        Value.item?_text]
    exact ⟨hall, fun hlength => by rw [hall, List.take_of_length_le hlength]⟩

/-- The two items of `FOO_BAR__` are found and read. -/
theorem readItems_spec_listSource :
    Chain.listSource.mapper.mapper = environment true ∧ Chain.listSource.provider.Stored ∧
      Session.start.Faithful Chain.listSource ∧ Session.start.Trusts Chain.listSource.mapper ∧
      (Chain.listSource.get (Chain.listName.push (.index 1)) .start).1 =
        .ok (some ⟨Chain.listName.push (.index 1), .text "b",
          ⟨"systemEnvironment", "FOO_BAR__", none⟩⟩) ∧
      (Chain.listSource.readItems Chain.listName UInt64.size 0 .start).1 =
        .ok [.text "a", .text "b"] := by
  have hstored : Chain.listSource.provider.Stored := .snapshot _ _ _
  have hσ := Session.faithful_start Chain.listSource
  have hlists := (Session.knows_start Chain.listChain).lists Chain.listSource
    (List.mem_singleton_self _)
  obtain ⟨hitems, hread⟩ :=
    readItems_spec Chain.listSource Chain.listName .start rfl hstored hσ hlists
  have hkey : "FOO_BAR__" = listKey Chain.listName := by decide +kernel
  have htext : Chain.listSource.provider.get (listKey Chain.listName) =
      .ok (some (.text "a,b")) := by
    rw [← hkey]
    rfl
  have hnone : ∀ key ∈ Chain.listSource.provider.keys, ∀ i,
      (environment true).standsFor (Chain.listName.push (.index i)) key = false := by
    have hkeys : Chain.listSource.provider.keys = [listKey Chain.listName] := by
      rw [← hkey]
      decide +kernel
    rw [hkeys]
    exact List.forall_mem_singleton.mpr fun i => standsFor_listKey_push _ _
  obtain ⟨found, hget, hspec⟩ := hitems 1
  have hown : ¬ Chain.listSource.provider.Has
      (environmentKey (Chain.listName.push (.index 1)).elements) := by
    have hownKey : environmentKey (Chain.listName.push (.index 1)).elements = "FOO_BAR_1" := by
      decide +kernel
    rw [hownKey]
    rintro ⟨v, hv⟩
    cases hv
  have hat : (Value.text "a,b").ItemAt (1 : UInt64).toNat (.text "b") :=
    Value.item?_eq_some_iff.mp rfl
  refine ⟨rfl, hstored, hσ, hlists, ?_, (hread "a,b" htext hnone).2 (by decide +kernel)⟩
  rw [hget, (hspec _).mpr ⟨_, .text "b", .item hown htext hat, rfl⟩, ← hkey]
  rfl

end Source

end LayeredConfig
