import LayeredConfig.Provider.Basic

/-!
# LayeredConfig.Provider.Entries

Providers over a finite table of entries: programmatic settings, parsed files, and what a
migration produces.

1. The entries are kept in ascending order of their keys, one for each key.
2. Inserting a key again replaces its value and forgets the origin it had.
3. Lookups never fail, and all keys can be listed.
-/

namespace LayeredConfig

/-- The value of a raw key, with the place it was written at. -/
structure Entry where
  value : Value
  origin : Option Origin

/-- Entries by key, in ascending order of the keys. -/
abbrev Entries := List (String × Entry)

namespace Entries

/-- Inserts or replaces an entry, keeping the order. -/
def insert (key : String) (e : Entry) : Entries → Entries
  | [] => [(key, e)]
  | (k, e') :: rest =>
    if key < k then (key, e) :: (k, e') :: rest
    else if key = k then (key, e) :: rest
    else (k, e') :: insert key e rest

/-- The entries of a list of keys and values; of equal keys the last one counts. -/
def ofList (kvs : List (String × Value)) : Entries :=
  kvs.foldl (fun es (k, v) => es.insert k ⟨v, none⟩) []

def find? (es : Entries) (key : String) : Option Entry := es.lookup key

/-- The provider over a table of entries. -/
def provider (name : String) (es : Entries) : Provider where
  name := name
  capability := .enumerable
  get key := .ok ((es.find? key).map (·.value))
  keys := es.map (·.1)
  origin key := (es.find? key).bind (·.origin)

/-! ## Laws -/

@[simp] theorem find?_insert_self (key : String) (e : Entry) (es : Entries) :
    (es.insert key e).find? key = some e := by
  induction es with
  | nil => simp [insert, find?]
  | cons kv es ih =>
    obtain ⟨k, e'⟩ := kv
    unfold insert
    split
    · simp [find?]
    · split
      · simp [find?]
      · next hne =>
        have : (key == k) = false := by simpa using hne
        simpa [find?, List.lookup_cons, this] using ih

/-- Inserting an entry leaves those of other keys as they are. -/
theorem find?_insert_of_ne {key other : String} (h : other ≠ key) (e : Entry) (es : Entries) :
    (es.insert key e).find? other = es.find? other := by
  have hk : (other == key) = false := by simpa using h
  induction es with
  | nil => simp [insert, find?, List.lookup_cons, hk]
  | cons kv es ih =>
    obtain ⟨k, e'⟩ := kv
    unfold insert
    split
    · simp [find?, List.lookup_cons, hk]
    · split
      · next hkk => subst hkk; simp [find?, List.lookup_cons, hk]
      · simp only [find?, List.lookup_cons] at ih ⊢
        split <;> simp_all

end Entries

end LayeredConfig
