import LayeredConfig.Proofs.NameOrder
import LayeredConfig.Source.Index

/-!
# LayeredConfig.Proofs.KeyIndex

What an index of raw keys holds.

1. The keys of a name are those of the list that stand for it, in listing order
   (`Index.keysOf_ofKeys`).  So keys that stand for other names, or for none, are never among them.
2. No two groups have names that agree (`Index.pairwise_names`), and a name has a group exactly if
   a key stands for it (`Index.exists_mem_names_iff`).
-/

namespace LayeredConfig

/-! ## Keys that stand for a name -/

namespace Mapper

/-- Whether a raw key stands for a name. -/
def standsFor (m : Mapper) (n : Name) (key : String) : Bool :=
  match m.nameOf key with
  | .ok n' => n'.agrees n
  | .error _ => false

/-- A key stands for a name if it is mapped to a spelling of it. -/
theorem standsFor_iff {m : Mapper} {n : Name} {key : String} :
    m.standsFor n key = true ↔ ∃ n', m.nameOf key = .ok n' ∧ n'.agrees n = true := by
  rw [standsFor]
  cases m.nameOf key <;> simp

/-- A key stands for the names that agree with one it stands for, and for no others. -/
theorem standsFor_congr {m : Mapper} {a b : Name} {key : String} (h : m.standsFor a key = true) :
    m.standsFor b key = a.agrees b := by
  obtain ⟨n, hn, hna⟩ := standsFor_iff.mp h
  rw [standsFor, hn, Bool.eq_iff_iff]
  exact ⟨Name.agrees_trans (Name.agrees_symm hna), Name.agrees_trans hna⟩

/-- A key stands for all spellings of a name. -/
theorem standsFor_of_agrees {m : Mapper} {a b : Name} {key : String}
    (hab : a.agrees b = true) (h : m.standsFor a key = true) : m.standsFor b key = true := by
  rw [standsFor_congr h, hab]

end Mapper

/-! ## Groups -/

namespace Index

variable {m : Mapper} {a n : Name} {key : String}

/-- A key that is filed under a spelling of `n` comes last among the keys of `n`. -/
theorem keysOf_insert_of_agrees (h : a.agrees n = true) (ix : Index) :
    (ix.insert a key).keysOf n = ix.keysOf n ++ [key] := by
  have hu : a.uniform = n.uniform := Name.uniform_eq_iff.mpr h
  obtain ⟨groups⟩ := ix
  simp only [insert, keysOf, Filed.find?, Filed.under]
  induction groups with
  | nil => simp [Filed.place, hu]
  | cons f fs ih =>
      rw [Filed.place]
      split
      · next hf =>
        have hfn : f.uniform = n.uniform := hf.trans hu
        simp [merge, hfn]
      · next hf =>
        have hfn : (f.uniform == n.uniform) = false := by
          rw [beq_eq_false_iff_ne, ← hu]
          exact hf
        simp only [List.find?_cons, hfn]
        exact ih

/-- A key that is filed under another name leaves the keys of `n` as they are. -/
theorem keysOf_insert_of_not_agrees (h : a.agrees n = false) (ix : Index) :
    (ix.insert a key).keysOf n = ix.keysOf n := by
  have hu : a.uniform ≠ n.uniform := by
    intro hu
    rw [Name.uniform_eq_iff.mp hu] at h
    contradiction
  have hfind : Filed.find? n (Filed.place merge (.under a [key]) ix.groups) =
      Filed.find? n ix.groups :=
    Filed.find?_place_of_ne hu (fun _ _ => rfl) ix.groups
  rw [keysOf, keysOf, insert, hfind]

/-- A key joins the keys of the names that it stands for. -/
theorem keysOf_add (ix : Index) :
    (ix.add m key).keysOf n = ix.keysOf n ++ [key].filter (m.standsFor n) := by
  rw [add, List.filter_singleton, Mapper.standsFor]
  cases m.nameOf key with
  | error e => simp
  | ok a =>
      cases h : a.agrees n with
      | true => simp [keysOf_insert_of_agrees h, h]
      | false => simp [keysOf_insert_of_not_agrees h, h]

/-- **The keys of a name are those that stand for it**, in listing order. -/
theorem keysOf_ofKeys (m : Mapper) (keys : List String) (n : Name) :
    (ofKeys m keys).keysOf n = keys.filter (m.standsFor n) := by
  have hfold (ix : Index) :
      (keys.foldl (add m) ix).keysOf n = ix.keysOf n ++ keys.filter (m.standsFor n) := by
    induction keys generalizing ix with
    | nil => simp
    | cons key keys ih =>
        rw [List.foldl_cons, ih, keysOf_add, List.append_assoc, ← List.filter_append,
          List.singleton_append]
  exact hfold empty

/-! ## Names -/

/-- A key whose name has a group joins it. -/
theorem names_insert_of_mem {ix : Index} {b : Name} (hb : b ∈ ix.names) (h : b.agrees a = true) :
    (ix.insert a key).names = ix.names := by
  obtain ⟨groups⟩ := ix
  simp only [insert, names] at hb ⊢
  induction groups with
  | nil => exact nomatch hb
  | cons f fs ih =>
      rw [Filed.place]
      split
      · rfl
      · next hne =>
        rw [List.map_cons, List.map_cons]
        cases List.mem_cons.mp hb with
        | inl hf =>
            subst hf
            rw [← Name.uniform_eq_iff, ← f.uniform_eq] at h
            exact absurd h hne
        | inr hb => rw [ih hb]

/-- A key whose name has no group makes one at the end. -/
theorem names_insert_of_not_mem {ix : Index} (h : ∀ b ∈ ix.names, b.agrees a = false) :
    (ix.insert a key).names = ix.names ++ [a] := by
  obtain ⟨groups⟩ := ix
  simp only [insert, names] at h ⊢
  induction groups with
  | nil => rfl
  | cons f fs ih =>
      have ⟨hf, hfs⟩ := List.forall_mem_cons.mp h
      have hne : f.uniform ≠ (Filed.under a [key]).uniform := by
        intro he
        rw [f.uniform_eq] at he
        rw [Name.uniform_eq_iff.mp he] at hf
        contradiction
      rw [Filed.place, if_neg hne, List.map_cons, ih hfs, List.map_cons, List.cons_append]

theorem mem_or_not_mem_names (ix : Index) (a : Name) :
    (∃ b ∈ ix.names, b.agrees a = true) ∨ ∀ b ∈ ix.names, b.agrees a = false := by
  simpa using em (∃ b ∈ ix.names, b.agrees a = true)

theorem ofKeys_append_singleton (m : Mapper) (keys : List String) (key : String) :
    ofKeys m (keys ++ [key]) = (ofKeys m keys).add m key := by
  rw [ofKeys, List.foldl_append]
  rfl

/-- **No two groups have names that agree.** -/
theorem pairwise_names (m : Mapper) (keys : List String) :
    (ofKeys m keys).names.Pairwise fun a b => a.agrees b = false := by
  induction keys using List.reverseRecOn with
  | nil => exact .nil
  | append_singleton keys key ih =>
      rw [ofKeys_append_singleton, add]
      cases m.nameOf key with
      | error e => exact ih
      | ok a =>
          cases (ofKeys m keys).mem_or_not_mem_names a with
          | inl hold =>
              obtain ⟨b, hb, hba⟩ := hold
              rw [names_insert_of_mem hb hba]
              exact ih
          | inr hnew =>
              rw [names_insert_of_not_mem hnew, List.pairwise_append]
              exact ⟨ih, List.pairwise_singleton _ _, by simpa using hnew⟩

/-- **A name has a group exactly if a key stands for it.** -/
theorem exists_mem_names_iff (m : Mapper) (keys : List String) (n : Name) :
    (∃ a ∈ (ofKeys m keys).names, a.agrees n = true) ↔ ∃ key ∈ keys, m.standsFor n key = true := by
  induction keys using List.reverseRecOn with
  | nil => simp [ofKeys, empty, names]
  | append_singleton keys key ih =>
      have hsplit : (∃ k ∈ keys ++ [key], m.standsFor n k = true) ↔
          (∃ k ∈ keys, m.standsFor n k = true) ∨ m.standsFor n key = true := by
        simp [or_and_right, exists_or]
      rw [ofKeys_append_singleton, add, hsplit, ← ih, Mapper.standsFor]
      cases m.nameOf key with
      | error e => simp
      | ok a =>
          cases (ofKeys m keys).mem_or_not_mem_names a with
          | inl hold =>
              obtain ⟨b, hb, hba⟩ := hold
              rw [names_insert_of_mem hb hba]
              exact ⟨.inl, fun h => h.elim id fun han => ⟨b, hb, Name.agrees_trans hba han⟩⟩
          | inr hnew =>
              rw [names_insert_of_not_mem hnew]
              simp [or_and_right, exists_or]

end Index

end LayeredConfig
