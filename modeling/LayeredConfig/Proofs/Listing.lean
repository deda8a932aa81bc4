import LayeredConfig.Provider.Environment
import Mathlib.Data.List.Basic

/-!
# LayeredConfig.Proofs.Listing

What providers over stored entries list.

1. Entries that are built by insertions are in strictly ascending order of their keys
   (`Entries.Ascending.insert`, `Entries.ascending_ofList`).
2. Tables of such entries, and environment variables that were taken once, answer every lookup, list
   the keys that have values, and list them in strictly ascending order (`Provider.Stored.listing`).
   Only the empty key may have a value and not be listed: it is the variable whose name is the prefix
   alone.
-/

namespace LayeredConfig

/-! ## Entries -/

namespace Entries

/-- The keys of entries. -/
def keys (es : Entries) : List String := es.map (·.1)

/-- The keys are in strictly ascending order. -/
def Ascending (es : Entries) : Prop := es.keys.Pairwise (· < ·)

variable {es : Entries} {key k : String} {e : Entry}

/-- Inserting adds the one key. -/
theorem mem_keys_insert : k ∈ (es.insert key e).keys ↔ k = key ∨ k ∈ es.keys := by
  induction es with
  | nil => simp [insert, keys]
  | cons kv es ih =>
      obtain ⟨k', e'⟩ := kv
      rw [keys, keys] at ih
      rw [insert]
      split
      · simp [keys]
      · split
        · next he => simp [keys, he]
        · simp only [keys, List.map_cons, List.mem_cons, ih]
          tauto

/-- **An insertion keeps the keys ascending.** -/
theorem Ascending.insert (h : es.Ascending) (key : String) (e : Entry) :
    (es.insert key e).Ascending := by
  induction es with
  | nil => exact List.pairwise_singleton _ _
  | cons kv es ih =>
      obtain ⟨k', e'⟩ := kv
      have ⟨hk', hes⟩ := List.pairwise_cons.mp h
      rw [Entries.insert]
      split
      · next hlt =>
        refine List.pairwise_cons.mpr ⟨fun k hk => ?_, h⟩
        cases List.mem_cons.mp hk with
        | inl hk => exact hk ▸ hlt
        | inr hk => exact String.lt_trans hlt (hk' k hk)
      · next hlt =>
        split
        · next he => exact List.pairwise_cons.mpr ⟨fun k hk => he ▸ hk' k hk, hes⟩
        · next hne =>
          refine List.pairwise_cons.mpr ⟨fun k hk => ?_, ih hes⟩
          cases mem_keys_insert.mp hk with
          | inl hk =>
              subst hk
              by_contra hge
              exact hne (String.le_antisymm (String.not_lt.mp hge) (String.not_lt.mp hlt))
          | inr hk => exact hk' k hk

theorem ascending_nil : Ascending [] := .nil

/-- Entries that are made from pairs have ascending keys. -/
theorem ascending_ofList (kvs : List (String × Value)) : (ofList kvs).Ascending := by
  have hfold {es : Entries} (h : es.Ascending) :
      Ascending (kvs.foldl (fun es kv => es.insert kv.1 ⟨kv.2, none⟩) es) := by
    induction kvs generalizing es with
    | nil => exact h
    | cons kv kvs ih => exact ih (h.insert _ _)
  exact hfold ascending_nil

/-- The keys that are found are those of the entries. -/
theorem find?_eq_none_iff : es.find? key = none ↔ key ∉ es.keys := by
  rw [find?, List.lookup_eq_none_iff, keys, List.mem_map]
  constructor
  · rintro h ⟨p, hp, rfl⟩
    simpa using h p hp
  · intro h p hp
    rw [bne_iff_ne]
    rintro rfl
    exact h ⟨p, hp, rfl⟩

end Entries

/-! ## Keys of variables with a prefix -/

namespace Environment

/-- With a prefix, a key is listed if the variable of its full name is there. -/
theorem mem_listedKeys {pre : Option String} {names : List String} {key : String} (h : key ≠ "") :
    key ∈ listedKeys pre names ↔ fullKey pre key ∈ names := by
  cases pre with
  | none => simp [listedKeys, fullKey]
  | some p =>
      simp only [listedKeys, fullKey, Option.getD_some, List.mem_filterMap]
      constructor
      · rintro ⟨name, hname, hkey⟩
        split at hkey
        · next c cs hcut =>
          have : name = p ++ key := by
            rw [← String.toList_inj, Text.afterPrefix?_eq_some_iff.mp hcut, ← Option.some.inj hkey,
              String.toList_append, String.toList_ofList]
          exact this ▸ hname
        · contradiction
      · intro hname
        refine ⟨p ++ key, hname, ?_⟩
        have hcut : Text.afterPrefix? p.toList (p ++ key).toList = some key.toList :=
          Text.afterPrefix?_eq_some_iff.mpr String.toList_append
        have hne : key.toList ≠ [] := by simpa using h
        obtain ⟨c, cs, hcs⟩ := List.exists_cons_of_ne_nil hne
        rw [hcut, hcs]
        simp only [← hcs, String.ofList_toList]

/-- What follows a common beginning is ordered as the whole. -/
theorem lt_of_append_lt {p a b : List Char} (h : p ++ a < p ++ b) : a < b := by
  induction p with
  | nil => exact h
  | cons c p ih =>
      cases List.cons_lt_cons_iff.mp h with
      | inl hc => exact absurd hc (Char.lt_irrefl c)
      | inr htail => exact ih htail.2

/-- **Without the prefix, keys are as ascending as with it.** -/
theorem pairwise_listedKeys (pre : Option String) {names : List String}
    (h : names.Pairwise (· < ·)) : (listedKeys pre names).Pairwise (· < ·) := by
  cases pre with
  | none => exact h
  | some p =>
      refine h.filterMap _ fun a b hab a' ha b' hb => ?_
      split at ha
      · next c cs hcut =>
        split at hb
        · next d ds hcut' =>
          rw [← Option.some.inj ha, ← Option.some.inj hb, String.lt_iff, String.toList_ofList,
            String.toList_ofList]
          rw [String.lt_iff, Text.afterPrefix?_eq_some_iff.mp hcut,
            Text.afterPrefix?_eq_some_iff.mp hcut'] at hab
          exact lt_of_append_lt hab
        · contradiction
      · contradiction

end Environment

/-! ## Stored entries -/

namespace Provider

/-- A provider has a value for a key. -/
def Has (p : Provider) (key : String) : Prop := ∃ v, p.get key = .ok (some v)

/-- What a provider over stored entries does: no lookup fails, the keys with values are listed, and
they are in ascending order.  The empty key, which stands for no name, need not be listed. -/
structure Listing (p : Provider) : Prop where
  answers : ∀ key, ∃ found, p.get key = .ok found
  mem_keys_iff : ∀ key, key ≠ "" → (key ∈ p.keys ↔ p.Has key)
  ascending : p.keys.Pairwise (· < ·)

/-- The providers over tables of entries and over environment variables that were taken once. -/
inductive Stored : Provider → Prop where
  | entries (name : String) {es : Entries} (h : es.Ascending) : Stored (es.provider name)
  | snapshot (name : String) (pre : Option String) (vars : List (String × String)) :
      Stored (Environment.ofVariables name pre vars)

/-- A provider of entries has the keys of its entries. -/
theorem has_entries_iff (es : Entries) (name : String) {key : String} :
    (es.provider name).Has key ↔ key ∈ es.keys := by
  rw [Has, ← not_iff_not, ← Entries.find?_eq_none_iff]
  cases h : es.find? key <;> simp [Entries.provider, h]

/-- A snapshot has a key if the variable behind the prefix is among those taken. -/
theorem has_snapshot_iff {name key : String} {pre : Option String}
    {vars : List (String × String)} :
    (Environment.ofVariables name pre vars).Has key ↔
      Environment.fullKey pre key ∈ (Entries.ofList (vars.map fun (k, v) => (k, .text v))).keys :=
  has_entries_iff _ name

/-- **Providers over stored entries answer every lookup and list the keys with values.** -/
theorem Stored.listing {p : Provider} (h : p.Stored) : p.Listing := by
  cases h with
  | entries name h =>
      exact ⟨fun _ => ⟨_, rfl⟩, fun _ _ => (has_entries_iff _ name).symm, h⟩
  | snapshot name pre vars =>
      refine ⟨fun _ => ⟨_, rfl⟩, fun key hkey => ?_,
        Environment.pairwise_listedKeys pre (Entries.ascending_ofList _)⟩
      rw [has_snapshot_iff]
      exact Environment.mem_listedKeys hkey

end Provider

end LayeredConfig
