import LayeredConfig.Metadata.Indexed
import LayeredConfig.Proofs.TableOrder
import Mathlib.Data.Finset.Card
import Mathlib.Data.List.Zip

/-!
# LayeredConfig.Proofs.TableIndex

A table of what is known of properties and the index of its places stay in step.

1. A table records what was entered: its entries stand under the names that were first of their
   class (`Name.firsts`), each entry is the latest one of its class, and the index has the first
   spellings in this order (`IndexedTable.Records`).
2. Whatever is entered next, the table records that too (`IndexedTable.Records.enter`); what is
   refused changes nothing.  So every history of insertions is recorded
   (`IndexedTable.records_insertEach`).
3. The table without an index, which searches its entries, has the same entries and answers the
   same (`IndexedTable.Follows`).
4. A document is loaded exactly if none of its names is malformed, and the first that is malformed
   is reported (`MetadataTable.insertAll_eq`).
-/

namespace LayeredConfig

/-! ## The first of each class -/

namespace Name

/-- What agrees with a name is apart from what the name is apart from. -/
theorem Apart.of_agrees {a b n : Name} (h : a.Apart n) (hagrees : a.agrees b = true) :
    b.Apart n := by
  rw [Apart, ← agrees_congr hagrees]
  exact h

/-- The names that agree with none before them. -/
def firsts : List Name → List Name
  | [] => []
  | n :: ns => n :: (firsts ns).filter fun a => !n.agrees a

/-- **A further name is one of the first of their class if none before it agrees.** -/
theorem firsts_append_singleton (ns : List Name) (n : Name) :
    firsts (ns ++ [n]) = if ns.any (·.agrees n) then firsts ns else firsts ns ++ [n] := by
  induction ns with
  | nil => rfl
  | cons a ns ih =>
      rw [List.cons_append, firsts, ih, firsts, List.any_cons]
      cases ha : a.agrees n <;> cases hns : ns.any (·.agrees n) <;> simp [ha]

theorem firsts_sublist (ns : List Name) : (firsts ns).Sublist ns := by
  induction ns with
  | nil => exact .refl _
  | cons n ns ih => exact (List.filter_sublist.trans ih).cons_cons n

theorem pairwise_firsts (ns : List Name) : (firsts ns).Pairwise Name.Apart := by
  induction ns with
  | nil => exact .nil
  | cons n ns ih =>
      refine List.pairwise_cons.mpr ⟨fun a ha => ?_, ih.filter _⟩
      simpa [Apart] using (List.mem_filter.mp ha).2

/-- Every name agrees with one that is the first of its class. -/
theorem any_firsts (ns : List Name) (n : Name) :
    (firsts ns).any (·.agrees n) = ns.any (·.agrees n) := by
  induction ns with
  | nil => rfl
  | cons a ns ih =>
      rw [firsts, List.any_cons, List.any_cons, ← ih, List.any_filter]
      cases ha : a.agrees n with
      | true => rw [Bool.true_or, Bool.true_or]
      | false =>
          congr 1
          refine List.any_congr rfl fun b => ?_
          cases hab : a.agrees b with
          | false => rw [Bool.not_false, Bool.true_and]
          | true => rw [Bool.not_true, Bool.false_and, ← agrees_congr hab, ha]

/-- The first of each class are as many as there are classes. -/
theorem length_firsts (ns : List Name) :
    (firsts ns).length = (ns.map Name.uniform).toFinset.card := by
  have hnodup : ((firsts ns).map Name.uniform).Nodup :=
    List.pairwise_map.mpr ((pairwise_firsts ns).imp fun h => h.uniform_ne)
  have hsame : ((firsts ns).map Name.uniform).toFinset = (ns.map Name.uniform).toFinset := by
    ext u
    simp only [List.mem_toFinset, List.mem_map]
    constructor
    · rintro ⟨a, ha, rfl⟩
      exact ⟨a, (firsts_sublist ns).subset ha, rfl⟩
    · rintro ⟨n, hn, rfl⟩
      have hany : (firsts ns).any (·.agrees n) = true := by
        rw [any_firsts]
        exact List.any_eq_true.mpr ⟨n, hn, n.agrees_refl⟩
      obtain ⟨a, ha, hagrees⟩ := List.any_eq_true.mp hany
      exact ⟨a, ha, uniform_eq_iff.mpr hagrees⟩
  rw [← hsame, List.toFinset_card_of_nodup hnodup, List.length_map]

end Name

/-! ## The latest of each class -/

/-- What was entered last under a name, spelling apart. -/
def latest (h : List (Name × Metadata)) (n : Name) : Option (Name × Metadata) :=
  h.reverse.find? (·.1.agrees n)

/-- The last entry counts for the names that agree with its own. -/
theorem latest_append_singleton (h : List (Name × Metadata)) (a n : Name) (m : Metadata) :
    latest (h ++ [(a, m)]) n = if a.agrees n then some (a, m) else latest h n := by
  rw [latest, List.reverse_append, List.reverse_singleton, List.singleton_append, List.find?_cons]
  cases a.agrees n <;> rfl

/-- What counts for a name was entered under a spelling of it. -/
theorem agrees_of_latest {h : List (Name × Metadata)} {n : Name} {e : Name × Metadata}
    (he : latest h n = some e) : e.1.agrees n = true :=
  List.find?_some (p := fun e : Name × Metadata => e.1.agrees n) he

/-- The same counts for all spellings of a name. -/
theorem latest_congr {a n : Name} (hagrees : a.agrees n = true) (h : List (Name × Metadata)) :
    latest h a = latest h n := by
  have htest : (fun e : Name × Metadata => e.1.agrees a) = fun e => e.1.agrees n := by
    funext e
    rw [Bool.eq_iff_iff]
    exact ⟨fun he => Name.agrees_trans he hagrees,
      fun he => Name.agrees_trans he (Name.agrees_symm hagrees)⟩
  rw [latest, latest, htest]

/-- Something was entered under a name if a name that agrees was entered. -/
theorem latest_eq_none_iff {h : List (Name × Metadata)} {n : Name} :
    latest h n = none ↔ (h.map (·.1)).any (·.agrees n) = false := by
  simp [latest]

/-- What is entered of a list: all whose names are well-formed, in order. -/
def entered (ms : List Metadata) : List (Name × Metadata) :=
  ms.filterMap fun m => (Name.parse m.name).toOption.map (·, m)

namespace IndexedTable

variable {t : IndexedTable} {h : List (Name × Metadata)} {a n : Name} {m : Metadata}

/-! ## What a table records -/

/-- A table of what was entered, in this order: under each name that was the first of its class the
latest of its class, and the first spellings in the index. -/
structure Records (t : IndexedTable) (h : List (Name × Metadata)) : Prop where
  entries : t.entries.map some = (Name.firsts (h.map (·.1))).map (latest h)
  index : t.index = (Name.firsts (h.map (·.1))).zipIdx.map fun p => .under p.1 p.2

/-- Among names filed by their places, a name is found at the first place of a spelling of it. -/
theorem find?_zipIdx (ns : List Name) (k : Nat) (n : Name) :
    Filed.find? n ((ns.zipIdx k).map fun p => .under p.1 p.2) =
      (ns.findIdx? (·.agrees n)).map (· + k) := by
  induction ns generalizing k with
  | nil => rfl
  | cons a ns ih =>
      have htest : (a.uniform == n.uniform) = a.agrees n := by
        rw [Bool.eq_iff_iff, beq_iff_eq, Name.uniform_eq_iff]
      simp only [Filed.find?] at ih ⊢
      rw [List.zipIdx_cons, List.map_cons, List.find?_cons, List.findIdx?_cons]
      simp only [Filed.under, htest] at ih ⊢
      cases a.agrees n with
      | true => simp
      | false =>
          rw [ih]
          cases ns.findIdx? (·.agrees n) with
          | none => rfl
          | some i => simp [Nat.add_assoc, Nat.add_comm 1 k]

/-- The empty table records that nothing was entered. -/
theorem records_empty : empty.Records [] := ⟨rfl, rfl⟩

namespace Records

variable (hr : t.Records h)
include hr

/-- There is an entry for each name that was entered, spellings of one name counted once. -/
theorem length_eq : t.entries.length = (Name.firsts (h.map (·.1))).length := by
  simpa using congrArg List.length hr.entries

/-- The place of a name is its place among the names in the order in which they were first entered. -/
theorem place?_eq (n : Name) :
    t.place? n = (Name.firsts (h.map (·.1))).findIdx? (·.agrees n) := by
  rw [place?, hr.index, find?_zipIdx]
  cases (Name.firsts (h.map (·.1))).findIdx? (·.agrees n) <;> rfl

/-- The entry at a place is the latest under the name that was first there. -/
theorem getElem?_eq (i : Nat) :
    t.entries[i]? = (Name.firsts (h.map (·.1)))[i]?.bind (latest h) := by
  have hi : (t.entries.map some)[i]? = ((Name.firsts (h.map (·.1))).map (latest h))[i]? :=
    congrArg (·[i]?) hr.entries
  rw [List.getElem?_map, List.getElem?_map] at hi
  cases hf : (Name.firsts (h.map (·.1)))[i]? <;> cases he : t.entries[i]? <;> simp_all

/-- The entries stand under the names that were the first of their class. -/
theorem order : List.Forall₂ (fun e n => e.1.agrees n = true) t.entries
    (Name.firsts (h.map (·.1))) := by
  refine List.forall₂_iff_get.mpr ⟨hr.length_eq, fun i hi hi' => ?_⟩
  have he := hr.getElem?_eq i
  rw [List.getElem?_eq_getElem hi, List.getElem?_eq_getElem hi', Option.bind_some] at he
  exact agrees_of_latest he.symm

/-- What is entered under a name that is there takes the place of the old entry. -/
theorem replace {n : Name} {i : Nat} (m : Metadata)
    (hplace : (Name.firsts (h.map (·.1))).findIdx? (·.agrees n) = some i) :
    Records { t with entries := t.entries.set i (n, m) } (h ++ [(n, m)]) := by
  obtain ⟨hi, hagrees, -⟩ := List.findIdx?_eq_some_iff_getElem.mp hplace
  have hany : (h.map (·.1)).any (·.agrees n) = true := by
    rw [← Name.any_firsts]
    exact List.any_eq_true.mpr ⟨_, List.getElem_mem hi, hagrees⟩
  have hfirsts : Name.firsts ((h ++ [(n, m)]).map (·.1)) = Name.firsts (h.map (·.1)) := by
    rw [List.map_append, List.map_singleton, Name.firsts_append_singleton, if_pos hany]
  refine ⟨?_, by rw [hfirsts]; exact hr.index⟩
  rw [hfirsts, List.map_set, hr.entries]
  refine List.ext_getElem (by simp) fun j hj hj' => ?_
  rw [List.getElem_map, latest_append_singleton, List.getElem_set]
  have hj : j < (Name.firsts (h.map (·.1))).length := by simpa using hj'
  by_cases hij : i = j
  · subst hij
    rw [if_pos rfl, if_pos (Name.agrees_symm hagrees)]
  · -- No other of the first names agrees with this one.
    have hapart : (Name.firsts (h.map (·.1)))[i].Apart (Name.firsts (h.map (·.1)))[j] := by
      have hpairwise := List.pairwise_iff_getElem.mp (Name.pairwise_firsts (h.map (·.1)))
      cases Nat.lt_or_gt_of_ne hij with
      | inl hlt => exact hpairwise i j hi hj hlt
      | inr hgt => exact (hpairwise j i hj hi hgt).symm
    have hother : n.agrees (Name.firsts (h.map (·.1)))[j] = false := hapart.of_agrees hagrees
    rw [if_neg hij, hother, List.getElem_map]
    rfl

/-- What is entered under a new name has a place of its own at the end. -/
theorem append {n : Name} (m : Metadata)
    (hplace : (Name.firsts (h.map (·.1))).findIdx? (·.agrees n) = none) :
    Records ⟨t.entries ++ [(n, m)], t.index ++ [.under n t.entries.length]⟩ (h ++ [(n, m)]) := by
  have hany : (h.map (·.1)).any (·.agrees n) = false := by
    rw [← Name.any_firsts, List.any_eq_false]
    simpa using hplace
  have hfirsts : Name.firsts ((h ++ [(n, m)]).map (·.1)) = Name.firsts (h.map (·.1)) ++ [n] := by
    rw [List.map_append, List.map_singleton, Name.firsts_append_singleton, hany]
    rfl
  have hself : latest (h ++ [(n, m)]) n = some (n, m) := by
    rw [latest_append_singleton, if_pos n.agrees_refl]
  have hothers : ∀ a ∈ Name.firsts (h.map (·.1)), latest (h ++ [(n, m)]) a = latest h a := by
    intro a ha
    have hna : n.agrees a = false := Name.Apart.symm (List.findIdx?_eq_none_iff.mp hplace a ha)
    rw [latest_append_singleton, hna]
    rfl
  refine ⟨?_, ?_⟩
  · rw [hfirsts, List.map_append, List.map_append, List.map_singleton, List.map_singleton, hself,
      List.map_congr_left hothers, hr.entries]
  · rw [hfirsts, List.zipIdx_append, List.map_append, ← hr.index, Nat.zero_add, ← hr.length_eq]
    rfl

/-- **A table goes on recording**: what is entered takes the place of what agrees with it, or a place
of its own at the end. -/
theorem enter (n : Name) (m : Metadata) : (t.enter n m).Records (h ++ [(n, m)]) := by
  rw [IndexedTable.enter, hr.place?_eq]
  cases hplace : (Name.firsts (h.map (·.1))).findIdx? (·.agrees n) with
  | some i => exact hr.replace m hplace
  | none => exact hr.append m hplace

/-! ## What follows for the table -/

/-- No two entries have spellings of one name. -/
theorem apart : (t.entries.map (·.1)).Pairwise Name.Apart := by
  refine List.pairwise_iff_getElem.mpr fun i j hi hj hij => ?_
  simp only [List.length_map] at hi hj
  rw [List.getElem_map, List.getElem_map]
  obtain ⟨-, hagrees⟩ := List.forall₂_iff_get.mp hr.order
  have hi' := hr.length_eq ▸ hi
  have hj' := hr.length_eq ▸ hj
  have hapart := List.pairwise_iff_getElem.mp (Name.pairwise_firsts _) i j hi' hj' hij
  have hleft := hapart.of_agrees (Name.agrees_symm (hagrees i hi hi'))
  exact (hleft.symm.of_agrees (Name.agrees_symm (hagrees j hj hj'))).symm

/-- The place of a name is where the first entry under it stands. -/
theorem place?_eq_findIdx? (n : Name) : t.place? n = t.entries.findIdx? (·.1.agrees n) := by
  rw [hr.place?_eq]
  have horder := hr.order
  clear hr
  generalize Name.firsts (h.map (·.1)) = ns at horder ⊢
  generalize t.entries = es at horder ⊢
  induction horder with
  | nil => rfl
  | cons hea _ ih => rw [List.findIdx?_cons, List.findIdx?_cons, Name.agrees_congr hea, ih]

/-- The place of a name is where the entry of a spelling of it stands. -/
theorem place?_eq_some_iff (n : Name) (i : Nat) :
    t.place? n = some i ↔ ∃ e, t.entries[i]? = some e ∧ e.1.agrees n = true := by
  rw [hr.place?_eq_findIdx?, List.findIdx?_eq_some_iff_getElem]
  constructor
  · rintro ⟨hi, hagrees, -⟩
    exact ⟨_, List.getElem?_eq_getElem hi, hagrees⟩
  · rintro ⟨e, he, hagrees⟩
    obtain ⟨hi, rfl⟩ := List.getElem?_eq_some_iff.mp he
    refine ⟨hi, hagrees, fun j hji hj => ?_⟩
    have hapart := List.pairwise_iff_getElem.mp hr.apart j i (by simp; omega) (by simpa) hji
    rw [List.getElem_map, List.getElem_map] at hapart
    rw [Name.Apart, Name.agrees_trans hj (Name.agrees_symm hagrees)] at hapart
    contradiction

theorem index_places : t.index.map (·.item) = List.range t.entries.length := by
  rw [hr.index, hr.length_eq, List.map_map]
  exact List.zipIdx_map_snd 0 _ |>.trans List.range_eq_range'.symm

theorem index_names :
    List.Forall₂ (fun f e => f.name.agrees e.1 = true) t.index t.entries := by
  have hfirsts : t.index.map (·.name) = Name.firsts (h.map (·.1)) := by
    rw [hr.index, List.map_map]
    exact List.zipIdx_map_fst 0 _
  have horder := hr.order
  rw [← hfirsts, List.forall₂_map_right_iff] at horder
  exact horder.flip.imp fun _ _ => Name.agrees_symm

/-- A name has the metadata that were entered last for it. -/
theorem get?_eq (n : Name) : t.get? n = (latest h n).map (·.2) := by
  rw [get?, hr.place?_eq]
  cases hplace : (Name.firsts (h.map (·.1))).findIdx? (·.agrees n) with
  | some i =>
      obtain ⟨hi, hagrees, -⟩ := List.findIdx?_eq_some_iff_getElem.mp hplace
      rw [Option.bind_some, hr.getElem?_eq, List.getElem?_eq_getElem hi, Option.bind_some,
        latest_congr hagrees]
  | none =>
      have hnone : latest h n = none := by
        rw [latest_eq_none_iff, ← Name.any_firsts, List.any_eq_false]
        simpa using hplace
      rw [hnone]
      rfl

end Records

/-! ## Insertions, accepted and refused -/

/-- The outcome of an insertion is that of reading the name. -/
theorem insert_fst (t : IndexedTable) (m : Metadata) :
    (t.insert m).1 = (Name.parse m.name).map fun _ => () := by
  rw [insert]
  cases Name.parse m.name <;> rfl

/-- What is refused changes nothing. -/
theorem insert_of_error (t : IndexedTable) {m : Metadata} {e : Malformed}
    (he : (t.insert m).1 = .error e) : (t.insert m).2 = t := by
  rw [insert] at he ⊢
  cases hname : Name.parse m.name with
  | ok n =>
      rw [hname] at he
      contradiction
  | error e => rfl

/-- An insertion is recorded, if it was not refused. -/
theorem Records.insert (hr : t.Records h) (m : Metadata) :
    (t.insert m).2.Records (h ++ entered [m]) := by
  rw [IndexedTable.insert, entered, List.filterMap_cons]
  cases Name.parse m.name with
  | ok n => exact hr.enter n m
  | error e =>
      show t.Records (h ++ [])
      rwa [List.append_nil]

theorem insertEach_append_singleton (t : IndexedTable) (ms : List Metadata) (m : Metadata) :
    t.insertEach (ms ++ [m]) = ((t.insertEach ms).insert m).2 := by
  rw [insertEach, List.foldl_append]
  rfl

/-- **Every history of insertions is recorded**, whichever of them were refused. -/
theorem records_insertEach (ms : List Metadata) : (empty.insertEach ms).Records (entered ms) := by
  induction ms using List.reverseRecOn with
  | nil => exact records_empty
  | append_singleton ms m ih =>
      rw [insertEach_append_singleton, entered, List.filterMap_append]
      exact ih.insert m

end IndexedTable

/-! ## The table that is searched -/

/-- What a place does to a list whose things are found under their names. -/
theorem Filed.place_eq (new : Filed Metadata) (fs : List (Filed Metadata)) :
    Filed.place (fun _ new => new) new fs =
      match fs.findIdx? (·.name.agrees new.name) with
      | some i => fs.set i new
      | none => fs ++ [new] := by
  induction fs with
  | nil => rfl
  | cons f fs ih =>
      have htest : f.uniform = new.uniform ↔ f.name.agrees new.name = true := by
        rw [f.uniform_eq, new.uniform_eq, Name.uniform_eq_iff]
      rw [Filed.place, List.findIdx?_cons]
      cases hagrees : f.name.agrees new.name with
      | true => rw [if_pos (htest.mpr hagrees)]; rfl
      | false =>
          rw [if_neg (by simp [htest, hagrees]), ih]
          cases fs.findIdx? (·.name.agrees new.name) <;> rfl

/-- A thing that is filed is found by its name. -/
theorem Filed.find?_eq {α : Type} (n : Name) (fs : List (Filed α)) :
    Filed.find? n fs = (fs.find? (·.name.agrees n)).map (·.item) := by
  have htest : (fun f : Filed α => f.uniform == n.uniform) = fun f => f.name.agrees n := by
    funext f
    rw [Bool.eq_iff_iff, beq_iff_eq, f.uniform_eq, Name.uniform_eq_iff]
  rw [Filed.find?, htest]

namespace MetadataTable

/-- Adds entries one after another, and goes on after those that are refused. -/
def insertEach (t : MetadataTable) (ms : List Metadata) : MetadataTable :=
  ms.foldl (fun t m => (t.insert m).toOption.getD t) t

/-- The names of the entries, with what is known of them. -/
def listed (t : MetadataTable) : List (Name × Metadata) := t.entries.map fun f => (f.name, f.item)

/-- Why the name of an entry is refused, if it is. -/
def flaw? (m : Metadata) : Option Malformed :=
  match Name.parse m.name with
  | .ok _ => none
  | .error e => some e

/-- **Entries are added up to the first that is refused**: all of them, or none of them. -/
theorem insertAll_eq (t : MetadataTable) (ms : List Metadata) :
    t.insertAll ms =
      match ms.findSome? flaw? with
      | none => .ok (t.insertEach ms)
      | some e => .error e := by
  induction ms generalizing t with
  | nil => rfl
  | cons m ms ih =>
      rw [insertAll, List.findSome?_cons, insertEach, List.foldl_cons, flaw?]
      cases hname : Name.parse m.name with
      | ok n =>
          simp only [insert, hname]
          exact ih _
      | error e => simp only [insert, hname]

end MetadataTable

namespace IndexedTable

variable {t : IndexedTable} {u : MetadataTable} {h : List (Name × Metadata)}

/-- A table with an index that has the entries of a table without one. -/
def Follows (t : IndexedTable) (u : MetadataTable) : Prop := t.entries = u.listed

/-- Both tables enter the same. -/
theorem Follows.insert (hf : t.Follows u) (hr : t.Records h) (m : Metadata) :
    (t.insert m).2.Follows ((u.insert m).toOption.getD u) := by
  rw [IndexedTable.insert, MetadataTable.insert]
  cases hname : Name.parse m.name with
  | error e => exact hf
  | ok n =>
      have hplace : t.place? n = u.entries.findIdx? (·.name.agrees n) := by
        rw [hr.place?_eq_findIdx?, hf, MetadataTable.listed, List.findIdx?_map]
        rfl
      show (t.enter n m).entries = MetadataTable.listed ⟨_⟩
      rw [enter, hplace, MetadataTable.listed, Filed.place_eq]
      show _ = List.map _ (match u.entries.findIdx? (·.name.agrees n) with
        | some i => u.entries.set i _
        | none => u.entries ++ [_])
      cases u.entries.findIdx? (·.name.agrees n) with
      | some i => rw [List.map_set, ← MetadataTable.listed, ← hf]; rfl
      | none => rw [List.map_append, ← MetadataTable.listed, ← hf]; rfl

/-- Both tables answer the same. -/
theorem Follows.get?_eq (hf : t.Follows u) (hr : t.Records h) (n : Name) : t.get? n = u.get? n := by
  have hentry : t.get? n = (t.entries.find? (·.1.agrees n)).map (·.2) := by
    rw [get?, hr.place?_eq_findIdx?, List.find?_eq_bind_findIdx?_getElem?, Option.map_bind]
    rfl
  rw [hentry, hf, MetadataTable.listed, List.find?_map, Option.map_map, MetadataTable.get?,
    Filed.find?_eq]
  rfl

/-- After the same insertions the entries are those that the plain table lists. -/
theorem follows_insertEach (ms : List Metadata) :
    (empty.insertEach ms).Follows (MetadataTable.empty.insertEach ms) := by
  induction ms using List.reverseRecOn with
  | nil => rfl
  | append_singleton ms m ih =>
      rw [insertEach_append_singleton, MetadataTable.insertEach, List.foldl_append]
      exact ih.insert (records_insertEach ms) m

/-! ## The whole history -/

/-- What a table tells of what was entered, in this order. -/
structure Reflects (t : IndexedTable) (h : List (Name × Metadata)) : Prop where
  /-- No two entries have names that agree. -/
  apart : (t.entries.map (·.1)).Pairwise Name.Apart
  /-- The entries are listed in the order in which the first of each class was entered. -/
  order : List.Forall₂ (fun e n => e.1.agrees n = true) t.entries (Name.firsts (h.map (·.1)))
  /-- There is one entry for each class of names. -/
  length : t.entries.length = ((h.map (·.1)).map Name.uniform).toFinset.card
  /-- The names of the index are those of the entries, spelling apart. -/
  index_names : List.Forall₂ (fun f e => f.name.agrees e.1 = true) t.index t.entries
  /-- The places of the index are those of the entries. -/
  index_places : t.index.map (·.item) = List.range t.entries.length
  /-- A name leads to the entry that stands under it. -/
  place? : ∀ n i, t.place? n = some i ↔ ∃ e, t.entries[i]? = some e ∧ e.1.agrees n = true
  /-- What is known of a name is what was entered last under it, if anything was. -/
  get? : ∀ n, t.get? n = (h.reverse.find? (·.1.agrees n)).map (·.2)

/-- A table that records what was entered reflects it. -/
theorem Records.reflects (hr : t.Records h) : t.Reflects h where
  apart := hr.apart
  order := hr.order
  length := by rw [hr.length_eq, Name.length_firsts]
  index_names := hr.index_names
  index_places := hr.index_places
  place? := hr.place?_eq_some_iff
  get? := hr.get?_eq

/-- **A table and its index stay in step.**  Whatever was entered into the empty table, and whatever
of it was refused, the table reflects what was accepted: its entries are apart and in the order of
the first of each class, the index has their names and places and nothing else, and a name has the
metadata that were entered last under it.  An insertion is refused exactly if its name is malformed,
and then the table stays as it is.  The table that is searched has the same entries and answers the
same.  Any list of properties is entered by these insertions if no name in it is malformed, and is
refused for the first that is; and a document is loaded as the properties that its reader finds. -/
theorem reflects_insertEach (ms : List Metadata) :
    (empty.insertEach ms).Reflects (entered ms) ∧
      (∀ m, ((empty.insertEach ms).insert m).1 = (Name.parse m.name).map fun _ => ()) ∧
      (∀ m e, ((empty.insertEach ms).insert m).1 = .error e →
        ((empty.insertEach ms).insert m).2 = empty.insertEach ms) ∧
      (MetadataTable.empty.insertEach ms).listed = (empty.insertEach ms).entries ∧
      (∀ n, (MetadataTable.empty.insertEach ms).get? n = (empty.insertEach ms).get? n) ∧
      (∀ ps, MetadataTable.empty.insertAll ps =
        match ps.findSome? MetadataTable.flaw? with
        | none => .ok (MetadataTable.empty.insertEach ps)
        | some e => .error e) ∧
      ∀ read? text, MetadataTable.parse read? text =
        match read? text with
        | none => .error .notADocument
        | some ps =>
          match ps.findSome? MetadataTable.flaw? with
          | none => .ok (MetadataTable.empty.insertEach ps)
          | some e => .error (.invalidName e) := by
  have hr := records_insertEach ms
  have hf := follows_insertEach ms
  refine ⟨hr.reflects, insert_fst _, fun m e => insert_of_error _, hf.symm,
    fun n => (hf.get?_eq hr n).symm, MetadataTable.insertAll_eq _, fun read? text => ?_⟩
  rw [MetadataTable.parse]
  cases read? text with
  | none => rfl
  | some ps =>
      simp only [MetadataTable.insertAll_eq]
      cases ps.findSome? MetadataTable.flaw? <;> rfl

/-- An entry takes the place and the spelling of an older one, and what is malformed is left out. -/
example :
    (empty.insertEach [⟨"server.port", some "Integer", none, none⟩, ⟨"a..b", none, none, none⟩,
      ⟨"Server.PO-RT", some "String", none, none⟩]).entries.map (fun e => (e.1.canonical, e.2.type)) =
      [("server.po-rt", some "String")] := by
  decide +kernel

end IndexedTable

end LayeredConfig
