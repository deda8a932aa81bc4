import LayeredConfig.Loading.Loader
import LayeredConfig.Proofs.Agreement
import LayeredConfig.Proofs.Listing
import LayeredConfig.Proofs.Reading
import Mathlib.Data.List.Nodup
import Mathlib.Data.List.Perm.Basic

/-!
# LayeredConfig.Proofs.Leaves

The leaves of a document and the entries that they become.

1. A leaf is reached by a way of fields and items (`Document.at?`).  Where no table has a field twice,
   `Document.leaves` lists every leaf once, with its way (`Document.mem_leaves`,
   `Document.nodup_leaves`).
2. Flattening writes every way as a raw key (`Document.flattenTop_eq`).  Where no field holds a
   character that structures names, the way is found again in the key (`Step.rawKey_injective`).
3. So no entry takes the place of another: there is one for every leaf, and it holds the leaf's value
   (`ConfigFile.find?_rawKey`, `ConfigFile.length_entries`).
-/

namespace LayeredConfig

/-! ## Ways through a document -/

/-- A step into a table or an array. -/
inductive Step where
  | field (name : String)
  | item (i : Nat)
deriving DecidableEq

namespace Document

/-- What a way leads to. -/
def at? : Document → List Step → Option Document
  | d, [] => some d
  | .array items, .item i :: path => items[i]?.bind fun d => d.at? path
  | .table fields, .field name :: path => (fields.lookup name).bind fun d => d.at? path
  | _, _ :: _ => none

mutual

/-- The leaves of a document, with the ways that lead to them. -/
def leaves : Document → List (List Step × Scalar)
  | .scalar s => [([], s)]
  | .array items => itemLeaves 0 items
  | .table fields => fieldLeaves fields

/-- The leaves of the items of an array, from the item numbered `i` on. -/
def itemLeaves (i : Nat) : List Document → List (List Step × Scalar)
  | [] => []
  | d :: ds => d.leaves.map (fun l => (.item i :: l.1, l.2)) ++ itemLeaves (i + 1) ds

/-- The leaves of the fields of a table. -/
def fieldLeaves : List (String × Document) → List (List Step × Scalar)
  | [] => []
  | (name, d) :: fs => d.leaves.map (fun l => (.field name :: l.1, l.2)) ++ fieldLeaves fs

end

/-- A document in which no table has a field twice, and no field holds a character that structures
names. -/
inductive Keyed : Document → Prop where
  | scalar (s : Scalar) : Keyed (.scalar s)
  | array {items : List Document} (below : ∀ d ∈ items, Keyed d) : Keyed (.array items)
  | table {fields : List (String × Document)} (once : (fields.map (·.1)).Nodup)
      (plain : ∀ f ∈ fields, ∀ c ∈ f.1.toList, isReserved c = false)
      (below : ∀ f ∈ fields, Keyed f.2) : Keyed (.table fields)

/-- What holds of every scalar, and of arrays and tables if it holds of what is in them, holds of every
document. -/
theorem induct {motive : Document → Prop} (scalar : ∀ s, motive (.scalar s))
    (array : ∀ items, (∀ d ∈ items, motive d) → motive (.array items))
    (table : ∀ fields, (∀ f ∈ fields, motive f.2) → motive (.table fields)) :
    ∀ d, motive d
  | .scalar s => scalar s
  | .array items => array items fun d _ => induct scalar array table d
  | .table fields => table fields fun f hf =>
      have hsmaller : sizeOf f.2 < sizeOf fields := by
        have hmem := List.sizeOf_lt_of_mem hf
        have hpair : sizeOf f = 1 + sizeOf f.1 + sizeOf f.2 := rfl
        omega
      induct scalar array table f.2
termination_by d => sizeOf d

/-! ## Every leaf is listed once -/

variable {d : Document} {p : List Step} {s : Scalar}

/-- A leaf of a list is a leaf of one of its items, below the position of the item. -/
theorem mem_itemLeaves {i : Nat} {ds : List Document} :
    (p, s) ∈ itemLeaves i ds ↔
      ∃ j d q, ds[j]? = some d ∧ (q, s) ∈ d.leaves ∧ p = .item (i + j) :: q := by
  induction ds generalizing i with
  | nil => simp [itemLeaves]
  | cons d ds ih =>
      rw [itemLeaves, List.mem_append, List.mem_map, ih]
      constructor
      · rintro (⟨⟨q, t⟩, hq, ⟨⟩⟩ | ⟨j, d', q, hd', hq, rfl⟩)
        · exact ⟨0, d, q, rfl, hq, rfl⟩
        · exact ⟨j + 1, d', q, hd', hq, by rw [Nat.add_assoc, Nat.add_comm 1 j]⟩
      · rintro ⟨j, d', q, hd', hq, rfl⟩
        cases j with
        | zero =>
            cases hd'
            exact .inl ⟨(q, s), hq, rfl⟩
        | succ j => exact .inr ⟨j, d', q, hd', hq, by rw [Nat.add_assoc, Nat.add_comm 1 j]⟩

/-- A leaf of a table is a leaf of one of its fields, below the name of the field. -/
theorem mem_fieldLeaves {fs : List (String × Document)} :
    (p, s) ∈ fieldLeaves fs ↔ ∃ f ∈ fs, ∃ q, (q, s) ∈ f.2.leaves ∧ p = .field f.1 :: q := by
  induction fs with
  | nil => simp [fieldLeaves]
  | cons f fs ih =>
      obtain ⟨name, d⟩ := f
      rw [fieldLeaves, List.mem_append, List.mem_map, ih, List.exists_mem_cons_iff]
      refine or_congr ⟨?_, ?_⟩ Iff.rfl
      · rintro ⟨⟨q, t⟩, hq, ⟨⟩⟩
        exact ⟨q, hq, rfl⟩
      · rintro ⟨q, hq, rfl⟩
        exact ⟨(q, s), hq, rfl⟩

/-- In a table without repeated fields, what a field has is found. -/
theorem lookup_eq_some_iff {fields : List (String × Document)} (h : (fields.map (·.1)).Nodup)
    {name : String} : fields.lookup name = some d ↔ (name, d) ∈ fields := by
  induction fields with
  | nil => simp
  | cons f fs ih =>
      obtain ⟨k, d'⟩ := f
      obtain ⟨hk, hfs⟩ := List.nodup_cons.mp h
      rw [List.lookup_cons, List.mem_cons, ← ih hfs]
      by_cases he : name = k
      · subst he
        have hnone : fs.lookup name ≠ some d := fun hd => by
          have hmem := (ih hfs).mp hd
          exact hk (List.mem_map.mpr ⟨_, hmem, rfl⟩)
        simp [hnone, eq_comm]
      · have hne : (name == k) = false := by simpa using he
        simp [hne, he]

/-- **The leaves that are listed are those that a way leads to.** -/
theorem mem_leaves (hd : d.Keyed) : (p, s) ∈ d.leaves ↔ d.at? p = some (.scalar s) := by
  induction d using induct generalizing p with
  | scalar t => cases p <;> simp [leaves, at?, eq_comm]
  | array items ih =>
      cases hd with
      | array below =>
        rw [leaves, mem_itemLeaves]
        constructor
        · rintro ⟨j, d, q, hj, hq, rfl⟩
          have hmem := List.mem_of_getElem? hj
          rw [Nat.zero_add, at?, hj]
          exact (ih d hmem (below d hmem)).mp hq
        · intro h
          match p, h with
          | .item i :: q, h =>
            rw [at?, Option.bind_eq_some_iff] at h
            obtain ⟨d, hi, hq⟩ := h
            have hmem := List.mem_of_getElem? hi
            exact ⟨i, d, q, hi, (ih d hmem (below d hmem)).mpr hq, by rw [Nat.zero_add]⟩
  | table fields ih =>
      cases hd with
      | table once plain below =>
        rw [leaves, mem_fieldLeaves]
        constructor
        · rintro ⟨f, hf, q, hq, rfl⟩
          rw [at?, (lookup_eq_some_iff once).mpr hf]
          exact (ih f hf (below f hf)).mp hq
        · intro h
          match p, h with
          | .field name :: q, h =>
            rw [at?, Option.bind_eq_some_iff] at h
            obtain ⟨d, hname, hq⟩ := h
            have hf := (lookup_eq_some_iff once).mp hname
            exact ⟨_, hf, q, (ih _ hf (below _ hf)).mpr hq, rfl⟩

/-- Ways that go on from one step are as different as what follows the step. -/
theorem nodup_map_step (x : Step) {ls : List (List Step × Scalar)} (h : (ls.map (·.1)).Nodup) :
    ((ls.map fun l => (x :: l.1, l.2)).map (·.1)).Nodup := by
  have hmap : (ls.map fun l => (x :: l.1, l.2)).map (·.1) = (ls.map (·.1)).map (x :: ·) := by
    rw [List.map_map, List.map_map]
    rfl
  rw [hmap]
  exact h.map fun _ _ heq => (List.cons.inj heq).2

/-- No two leaves of a list have one way if none of any item have. -/
theorem nodup_itemLeaves (i : Nat) {ds : List Document}
    (h : ∀ d ∈ ds, (d.leaves.map (·.1)).Nodup) : ((itemLeaves i ds).map (·.1)).Nodup := by
  induction ds generalizing i with
  | nil => exact List.nodup_nil
  | cons d ds ih =>
      obtain ⟨hfirst, hrest⟩ := List.forall_mem_cons.mp h
      rw [itemLeaves, List.map_append, List.nodup_append']
      refine ⟨nodup_map_step _ hfirst, ih (i + 1) hrest, fun p hp hp' => ?_⟩
      obtain ⟨⟨_, s⟩, hmem, rfl⟩ := List.mem_map.mp hp
      obtain ⟨⟨_, s'⟩, hmem', rfl⟩ := List.mem_map.mp hp'
      obtain ⟨_, -, ⟨⟩⟩ := List.mem_map.mp hmem
      obtain ⟨j, _, _, -, -, heq⟩ := mem_itemLeaves.mp hmem'
      simp only [List.cons.injEq, Step.item.injEq] at heq
      omega

/-- No two leaves of a table have one way if its fields have names of their own and none of any field
have. -/
theorem nodup_fieldLeaves {fs : List (String × Document)} (once : (fs.map (·.1)).Nodup)
    (h : ∀ f ∈ fs, (f.2.leaves.map (·.1)).Nodup) : ((fieldLeaves fs).map (·.1)).Nodup := by
  induction fs with
  | nil => exact List.nodup_nil
  | cons f fs ih =>
      obtain ⟨name, d⟩ := f
      obtain ⟨hfirst, hrest⟩ := List.forall_mem_cons.mp h
      obtain ⟨hname, once⟩ := List.nodup_cons.mp once
      rw [fieldLeaves, List.map_append, List.nodup_append']
      refine ⟨nodup_map_step _ hfirst, ih once hrest, fun p hp hp' => ?_⟩
      obtain ⟨⟨_, s⟩, hmem, rfl⟩ := List.mem_map.mp hp
      obtain ⟨⟨_, s'⟩, hmem', rfl⟩ := List.mem_map.mp hp'
      obtain ⟨_, -, ⟨⟩⟩ := List.mem_map.mp hmem
      obtain ⟨f, hf, _, -, heq⟩ := mem_fieldLeaves.mp hmem'
      simp only [List.cons.injEq, Step.field.injEq] at heq
      exact hname (List.mem_map.mpr ⟨f, hf, heq.1.symm⟩)

/-- **No way is listed twice.** -/
theorem nodup_leaves (hd : d.Keyed) : (d.leaves.map (·.1)).Nodup := by
  induction d using induct with
  | scalar t => exact List.nodup_singleton _
  | array items ih =>
      cases hd with
      | array below => exact nodup_itemLeaves 0 fun d hmem => ih d hmem (below d hmem)
  | table fields ih =>
      cases hd with
      | table once plain below => exact nodup_fieldLeaves once fun f hf => ih f hf (below f hf)

end Document

/-! ## Ways as raw keys -/

namespace Step

/-- A step in a raw key: a field after a dot, an index in brackets. -/
def chars : Step → List Char
  | .field name => '.' :: name.toList
  | .item i => '[' :: (Decimal.digits i ++ [']'])

/-- The steps of a way, one after another. -/
def pathChars (p : List Step) : List Char := p.flatMap chars

/-- The raw key of what a way leads to from what stands at a key. -/
def keyAfter (key : String) (p : List Step) : String := String.ofList (key.toList ++ pathChars p)

/-- The raw key of what a way leads to from the top; the first field has no dot before it. -/
def rawKey : List Step → String
  | .field name :: p => keyAfter name p
  | p => keyAfter "" p

/-- A way over fields without characters that structure names. -/
def PlainWay (p : List Step) : Prop :=
  ∀ name, .field name ∈ p → ∀ c ∈ name.toList, isReserved c = false

theorem PlainWay.tail {x : Step} {p : List Step} (h : PlainWay (x :: p)) : PlainWay p :=
  fun name hname => h name (List.mem_cons_of_mem _ hname)

theorem keyAfter_nil (key : String) : keyAfter key [] = key := by
  rw [keyAfter, pathChars, List.flatMap_nil, List.append_nil, String.ofList_toList]

/-- A field is appended to the key before the rest of the way is. -/
theorem keyAfter_field (key name : String) (p : List Step) :
    keyAfter (Document.fieldKey key name) p = keyAfter key (.field name :: p) := by
  simp [keyAfter, Document.fieldKey, pathChars, chars]

/-- A position is appended to the key before the rest of the way is. -/
theorem keyAfter_item (key : String) (i : Nat) (p : List Step) :
    keyAfter (Document.itemKey key i) p = keyAfter key (.item i :: p) := by
  simp [keyAfter, Document.itemKey, pathChars, chars]

end Step

namespace Document

open Step

/-- The flattened items of a list are its leaves with their keys, if so are those of every item. -/
theorem flattenItems_eq {key : String} {i : Nat} {ds : List Document}
    (h : ∀ d ∈ ds, ∀ key, d.flatten key = d.leaves.map fun l => (keyAfter key l.1, l.2.value)) :
    flattenItems key i ds = (itemLeaves i ds).map fun l => (keyAfter key l.1, l.2.value) := by
  induction ds generalizing i with
  | nil => rfl
  | cons d ds ih =>
      obtain ⟨hd, hds⟩ := List.forall_mem_cons.mp h
      rw [flattenItems, itemLeaves, hd, ih hds, List.map_append, List.map_map]
      simp only [Function.comp_def, keyAfter_item]

/-- The flattened fields of a table are its leaves with their keys, if so are those of every field. -/
theorem flattenFields_eq {key : String} {fs : List (String × Document)}
    (h : ∀ f ∈ fs, ∀ key,
      f.2.flatten key = f.2.leaves.map fun l => (keyAfter key l.1, l.2.value)) :
    flattenFields key fs = (fieldLeaves fs).map fun l => (keyAfter key l.1, l.2.value) := by
  induction fs with
  | nil => rfl
  | cons f fs ih =>
      obtain ⟨name, d⟩ := f
      obtain ⟨hd, hfs⟩ := List.forall_mem_cons.mp h
      rw [flattenFields, fieldLeaves, hd, ih hfs, List.map_append, List.map_map]
      simp only [Function.comp_def, keyAfter_field]

/-- **Flattening writes the way to every leaf after the key.** -/
theorem flatten_eq (d : Document) (key : String) :
    d.flatten key = d.leaves.map fun l => (keyAfter key l.1, l.2.value) := by
  induction d using induct generalizing key with
  | scalar s => rw [flatten, leaves, List.map_singleton, keyAfter_nil]
  | array items ih => rw [flatten, leaves, flattenItems_eq ih]
  | table fields ih => rw [flatten, leaves, flattenFields_eq ih]

/-- At the top, the way itself is the key. -/
theorem flattenTop_eq (fields : List (String × Document)) :
    flattenTop fields = (table fields).leaves.map fun l => (rawKey l.1, l.2.value) := by
  rw [leaves]
  induction fields with
  | nil => rfl
  | cons f fs ih =>
      obtain ⟨name, d⟩ := f
      rw [flattenTop, fieldLeaves, flatten_eq, ih, List.map_append, List.map_map]
      rfl

/-! ## Ways are found again in raw keys -/

/-- The way to a scalar in a keyed document is plain. -/
theorem plainWay_of_at? {d : Document} {p : List Step} {s : Scalar} (hd : d.Keyed)
    (h : d.at? p = some (.scalar s)) : PlainWay p := by
  induction p generalizing d with
  | nil => exact fun name hname => nomatch hname
  | cons x p ih =>
      intro name hname
      match d, x, h with
      | .array items, .item i, h =>
        cases hd with
        | array below =>
          rw [at?, Option.bind_eq_some_iff] at h
          obtain ⟨d, hi, hp⟩ := h
          refine ih (below d (List.mem_of_getElem? hi)) hp name ?_
          simpa using hname
      | .table fields, .field k, h =>
        cases hd with
        | table once plain below =>
          rw [at?, Option.bind_eq_some_iff] at h
          obtain ⟨d, hk, hp⟩ := h
          have hf := (lookup_eq_some_iff once).mp hk
          cases List.mem_cons.mp hname with
          | inl heq => cases heq; exact plain _ hf
          | inr hrest => exact ih (below _ hf) hp name hrest

/-- A way from the top begins with a field. -/
theorem exists_field_of_at? {fields : List (String × Document)} {p : List Step} {s : Scalar}
    (h : (table fields).at? p = some (.scalar s)) : ∃ name q, p = .field name :: q := by
  match p, h with
  | .field name :: q, _ => exact ⟨name, q, rfl⟩

end Document

namespace Step

open Document

/-- What follows a field in a raw key begins with a character that structures names. -/
theorem follows_pathChars (p : List Step) : Name.Follows (pathChars p) := by
  cases p with
  | nil => simp [Name.Follows, pathChars]
  | cons x p => cases x <;> simp [Name.Follows, pathChars, chars, isReserved]

/-- Two runs of a class of characters are the same if what follows them is not of the class. -/
theorem append_inj_of_ends {p : Char → Bool} {as bs cs ds : List Char}
    (ha : ∀ c ∈ as, p c = true) (hb : ∀ c ∈ bs, p c = true) (hc : ∀ c ∈ cs.head?, p c = false)
    (hd : ∀ c ∈ ds.head?, p c = false) (h : as ++ cs = bs ++ ds) : as = bs ∧ cs = ds := by
  obtain ⟨htake, hdrop⟩ := Name.takeWhile_append_of_ends ha hc
  obtain ⟨htake', hdrop'⟩ := Name.takeWhile_append_of_ends hb hd
  rw [h] at htake hdrop
  exact ⟨htake.symm.trans htake', hdrop.symm.trans hdrop'⟩

/-- A field ends where the next step begins. -/
theorem field_append_inj {a b cs ds : List Char} (ha : ∀ c ∈ a, isReserved c = false)
    (hb : ∀ c ∈ b, isReserved c = false) (hc : Name.Follows cs) (hd : Name.Follows ds)
    (h : a ++ cs = b ++ ds) : a = b ∧ cs = ds :=
  append_inj_of_ends (p := (!isReserved ·)) (fun c hca => by simp [ha c hca])
    (fun c hcb => by simp [hb c hcb]) (fun c hcc => by simp [hc c hcc])
    (fun c hcd => by simp [hd c hcd]) h

/-- The digits of an index end at the bracket. -/
theorem digits_append_inj {i j : Nat} {cs ds : List Char}
    (h : Decimal.digits i ++ ']' :: cs = Decimal.digits j ++ ']' :: ds) : i = j ∧ cs = ds := by
  obtain ⟨hdigits, hrest⟩ := append_inj_of_ends (p := Char.isDigit)
    (fun _ => Decimal.isDigit_of_mem_digits) (fun _ => Decimal.isDigit_of_mem_digits)
    (by simp) (by simp) h
  exact ⟨Decimal.digits_injective hdigits, (List.cons.inj hrest).2⟩

theorem pathChars_cons (x : Step) (p : List Step) : pathChars (x :: p) = chars x ++ pathChars p :=
  List.flatMap_cons

/-- **Different ways are written differently.** -/
theorem pathChars_injective {p q : List Step} (hp : PlainWay p) (hq : PlainWay q)
    (h : pathChars p = pathChars q) : p = q := by
  induction p generalizing q with
  | nil =>
      cases q with
      | nil => rfl
      | cons y q => cases y <;> simp [pathChars, chars] at h
  | cons x p ih =>
      cases q with
      | nil => cases x <;> simp [pathChars, chars] at h
      | cons y q =>
          rw [pathChars_cons, pathChars_cons] at h
          -- The first character tells the kind of the step, and a step ends where the next one begins.
          match x, y, h with
          | .field a, .field b, h =>
            obtain ⟨hname, hrest⟩ := field_append_inj (hp a List.mem_cons_self)
              (hq b List.mem_cons_self) (follows_pathChars p) (follows_pathChars q)
              (List.cons.inj h).2
            rw [String.toList_inj.mp hname, ih hp.tail hq.tail hrest]
          | .item i, .item j, h =>
            simp only [chars, List.cons_append, List.append_assoc, List.nil_append,
              List.cons.injEq, true_and] at h
            obtain ⟨hij, hrest⟩ := digits_append_inj h
            rw [hij, ih hp.tail hq.tail hrest]
          | .field _, .item _, h => exact nomatch (List.cons.inj h).1
          | .item _, .field _, h => exact nomatch (List.cons.inj h).1

/-- **Different ways from the top have different raw keys.** -/
theorem rawKey_injective {a b : String} {p q : List Step} (hp : PlainWay (.field a :: p))
    (hq : PlainWay (.field b :: q)) (h : rawKey (.field a :: p) = rawKey (.field b :: q)) :
    (Step.field a :: p : List Step) = .field b :: q := by
  rw [rawKey, rawKey, keyAfter, keyAfter, String.ofList_inj] at h
  obtain ⟨hname, hrest⟩ := field_append_inj (hp a List.mem_cons_self) (hq b List.mem_cons_self)
    (follows_pathChars p) (follows_pathChars q) h
  rw [String.toList_inj.mp hname, pathChars_injective hp.tail hq.tail hrest]

end Step

/-! ## Entries -/

namespace Entries

variable {kvs : List (String × Value)} {key : String}

/-- The last pair is inserted into the entries of the others. -/
theorem ofList_append_singleton (kvs : List (String × Value)) (kv : String × Value) :
    ofList (kvs ++ [kv]) = (ofList kvs).insert kv.1 ⟨kv.2, none⟩ := by
  rw [ofList, List.foldl_append]
  rfl

/-- Of keys without repeats, each keeps its value. -/
theorem find?_ofList (h : (kvs.map (·.1)).Nodup) {e : Entry} :
    (ofList kvs).find? key = some e ↔ ∃ v, (key, v) ∈ kvs ∧ e = ⟨v, none⟩ := by
  induction kvs using List.reverseRecOn with
  | nil => simp [ofList, find?]
  | append_singleton kvs kv ih =>
      obtain ⟨k, v⟩ := kv
      rw [List.map_append, List.map_singleton, List.nodup_append'] at h
      obtain ⟨hkvs, -, hapart⟩ := h
      rw [ofList_append_singleton]
      by_cases hk : key = k
      · subst hk
        have hnot : ∀ w, (key, w) ∉ kvs := fun w hw =>
          hapart (List.mem_map.mpr ⟨_, hw, rfl⟩) List.mem_cons_self
        rw [find?_insert_self]
        simp [hnot, eq_comm]
      · rw [find?_insert_of_ne hk, ih hkvs]
        simp [hk]

theorem mem_keys_ofList : key ∈ (ofList kvs).keys ↔ key ∈ kvs.map (·.1) := by
  induction kvs using List.reverseRecOn with
  | nil => rfl
  | append_singleton kvs kv ih =>
      rw [ofList_append_singleton, mem_keys_insert, ih, List.map_append, List.mem_append,
        List.map_singleton, List.mem_singleton]
      exact or_comm

/-- Of keys without repeats, none is lost. -/
theorem length_ofList (h : (kvs.map (·.1)).Nodup) : (ofList kvs).length = kvs.length := by
  have hnodup : (ofList kvs).keys.Nodup :=
    List.Pairwise.imp String.ne_of_lt (ascending_ofList kvs)
  have hperm : (ofList kvs).keys.Perm (kvs.map (·.1)) :=
    (List.perm_ext_iff_of_nodup hnodup h).mpr fun _ => mem_keys_ofList
  simpa [keys] using hperm.length_eq

end Entries

/-! ## Files -/

namespace ConfigFile

open Document Step

/-- The file at a path whose content is a table of the given fields. -/
def ofFields (path : String) (fields : List (String × Document)) : ConfigFile :=
  ⟨"config:" ++ path, Entries.ofList (flattenTop fields)⟩

/-- **A file is loaded as what its content amounts to.** -/
theorem load_eq {host : Host} {path content : String} {fields : List (String × Document)}
    (hread : host.tree.read? path = some content) (hext : Path.extension? path = some "toml")
    (hfields : host.parse content = some fields) (σ : Session) :
    (load host path σ).1 = .ok (ofFields path fields) := by
  rw [load, hread]
  simp only [hext, ne_eq, not_true_eq_false, if_false, hfields]
  rfl

variable {fields : List (String × Document)} {p q : List Step} {s t : Scalar}
  (h : (table fields).Keyed)
include h

/-- Leaves with one raw key are reached in one way. -/
theorem way_eq_of_rawKey_eq (hp : (table fields).at? p = some (.scalar s))
    (hq : (table fields).at? q = some (.scalar t)) (heq : rawKey p = rawKey q) : p = q := by
  have hplain := plainWay_of_at? h hp
  have hplain' := plainWay_of_at? h hq
  obtain ⟨a, p, rfl⟩ := exists_field_of_at? hp
  obtain ⟨b, q, rfl⟩ := exists_field_of_at? hq
  exact rawKey_injective hplain hplain' heq

/-- The leaves of a keyed document get different keys. -/
theorem nodup_keys_flattenTop : ((flattenTop fields).map (·.1)).Nodup := by
  have hkeys : (flattenTop fields).map (·.1) = ((table fields).leaves.map (·.1)).map rawKey := by
    rw [flattenTop_eq, List.map_map, List.map_map]
    rfl
  rw [hkeys]
  refine (nodup_leaves h).map_on fun p hp q hq heq => ?_
  obtain ⟨⟨_, s⟩, hs, rfl⟩ := List.mem_map.mp hp
  obtain ⟨⟨_, t⟩, ht, rfl⟩ := List.mem_map.mp hq
  exact way_eq_of_rawKey_eq h ((mem_leaves h).mp hs) ((mem_leaves h).mp ht) heq

/-- **The entries of a file are those of its leaves.** -/
theorem find?_eq_some_iff (path : String) {key : String} {e : Entry} :
    (ofFields path fields).entries.find? key = some e ↔
      ∃ p s, (table fields).at? p = some (.scalar s) ∧ key = rawKey p ∧ e = ⟨s.value, none⟩ := by
  rw [ofFields, Entries.find?_ofList (nodup_keys_flattenTop h), flattenTop_eq]
  simp only [List.mem_map, Prod.exists, Prod.mk.injEq, mem_leaves h]
  constructor
  · rintro ⟨v, ⟨p, s, hp, rfl, rfl⟩, rfl⟩
    exact ⟨p, s, hp, rfl, rfl⟩
  · rintro ⟨p, s, hp, rfl, rfl⟩
    exact ⟨s.value, ⟨p, s, hp, rfl, rfl⟩, rfl⟩

/-- There are as many entries as leaves. -/
theorem length_entries (path : String) :
    (ofFields path fields).entries.length = (table fields).leaves.length := by
  rw [ofFields, Entries.length_ofList (nodup_keys_flattenTop h), flattenTop_eq, List.length_map]

end ConfigFile

end LayeredConfig
