import LayeredConfig.Proofs.NameOrder

/-!
# LayeredConfig.Proofs.Ancestry

Names below a name.

1. Up to spelling a name is the sequence of the uniform forms of its elements, its *forms*.  The names
   below it are those whose forms go on after its own (`Name.isAncestorOf_iff`).
2. A name that has a parent is the parent and one element more (`Name.parent?_eq_some_iff`).  What is
   above it is the parent, or above the parent (`Name.isAncestorOf_iff_parent`).
-/

namespace LayeredConfig.Name

variable {a b n d p : Name}

/-! ## Ancestors -/

/-- The uniform forms of the elements. -/
def forms (n : Name) : List (List Char) := n.elements.map Element.uniformChars

/-- Names are the same if their elements have the same uniform forms, in order. -/
theorem agrees_iff_forms : a.agrees b = true ↔ a.forms = b.forms := agrees_iff

theorem length_forms (n : Name) : n.forms.length = n.length := List.length_map _

/-- An ancestor has the leading uniform forms of the other name, and fewer of them. -/
theorem isAncestorOf_iff_take :
    a.isAncestorOf b = true ↔ a.length < b.length ∧ a.forms = b.forms.take a.length := by
  rw [isAncestorOf, Bool.and_eq_true, decide_eq_true_eq, elementsAgree_iff, List.map_take, forms,
    forms]

/-- **The names below a name go on after it.** -/
theorem isAncestorOf_iff :
    a.isAncestorOf b = true ↔ ∃ rest, rest ≠ [] ∧ b.forms = a.forms ++ rest := by
  rw [isAncestorOf_iff_take, ← length_forms, ← length_forms]
  constructor
  · rintro ⟨hlength, htake⟩
    refine ⟨b.forms.drop a.forms.length, by simpa using hlength, ?_⟩
    rw [htake, List.length_take_of_le (Nat.le_of_lt hlength), List.take_append_drop]
  · rintro ⟨rest, hrest, hb⟩
    have := List.length_pos_iff.mpr hrest
    rw [hb, List.length_append, List.take_left]
    exact ⟨by omega, rfl⟩

/-- A parent lacks exactly the last uniform form. -/
theorem isParentOf_iff : a.isParentOf b = true ↔ ∃ form, b.forms = a.forms ++ [form] := by
  rw [isParentOf, Bool.and_eq_true, beq_iff_eq, isAncestorOf_iff, ← length_forms, ← length_forms]
  constructor
  · rintro ⟨hlength, rest, -, hb⟩
    rw [hb, List.length_append, Nat.add_left_cancel_iff] at hlength
    obtain ⟨form, rfl⟩ := List.length_eq_one_iff.mp hlength.symm
    exact ⟨form, hb⟩
  · rintro ⟨form, hb⟩
    exact ⟨by rw [hb, List.length_append, List.length_singleton], [form], List.cons_ne_nil _ _, hb⟩

/-- A parent is an ancestor. -/
theorem isAncestorOf_of_isParentOf (h : a.isParentOf b = true) : a.isAncestorOf b = true := by
  rw [isParentOf, Bool.and_eq_true] at h
  exact h.2

/-- Names that agree have the same names below them. -/
theorem isParentOf_congr (h : a.agrees b = true) (n : Name) : a.isParentOf n = b.isParentOf n := by
  rw [Bool.eq_iff_iff, isParentOf_iff, isParentOf_iff, agrees_iff_forms.mp h]

/-- Names that agree lie below the same names. -/
theorem isAncestorOf_congr_right (h : b.agrees d = true) : a.isAncestorOf b = a.isAncestorOf d := by
  rw [Bool.eq_iff_iff, isAncestorOf_iff, isAncestorOf_iff, agrees_iff_forms.mp h]

/-! ## Parents -/

/-- **A name that has a parent is the parent and one element more.** -/
theorem parent?_eq_some_iff : d.parent? = some p ↔ ∃ e, d.elements = p.elements ++ [e] := by
  rw [parent?, chop?]
  constructor
  · intro h
    split at h
    · next hlong =>
      obtain ⟨rfl⟩ := h
      have hsplit := List.dropLast_append_getLast d.elements_ne_nil
      rw [List.dropLast_eq_take] at hsplit
      exact ⟨d.last, hsplit.symm⟩
    · contradiction
  · rintro ⟨e, he⟩
    have hp := List.length_pos_iff.mpr p.elements_ne_nil
    have hlength : d.elements.length = p.elements.length + 1 := by
      rw [he, List.length_append, List.length_singleton]
    have htake : d.elements.take (d.elements.length - 1) = p.elements := by
      rw [hlength, he, Nat.add_sub_cancel, List.take_left]
    rw [dif_pos (by omega)]
    simp only [htake]

theorem forms_of_parent (h : d.parent? = some p) : d.forms = p.forms ++ [d.last.uniformChars] := by
  obtain ⟨e, he⟩ := parent?_eq_some_iff.mp h
  have hlast : d.last = e := by simp [last, he]
  rw [forms, he, List.map_append, hlast, forms]
  rfl

/-- Whatever has an ancestor has a parent. -/
theorem exists_parent (h : a.isAncestorOf d = true) : ∃ p, d.parent? = some p := by
  have hlong : 1 < d.elements.length :=
    Nat.lt_of_le_of_lt (List.length_pos_iff.mpr a.elements_ne_nil) (isAncestorOf_iff_take.mp h).1
  rw [parent?, chop?, dif_pos hlong]
  exact ⟨_, rfl⟩

/-- A name is no parent of itself. -/
theorem agrees_parent (h : d.parent? = some p) : d.agrees p = false := by
  rw [Bool.eq_false_iff, Ne, agrees_iff_forms, forms_of_parent h]
  simp

/-- What is a name's parent, up to spelling. -/
theorem isParentOf_iff_parent (h : d.parent? = some p) :
    a.isParentOf d = true ↔ p.agrees a = true := by
  rw [isParentOf_iff, agrees_iff_forms, forms_of_parent h]
  constructor
  · rintro ⟨form, hforms⟩
    exact (List.append_inj' hforms rfl).1
  · intro hforms
    exact ⟨d.last.uniformChars, by rw [hforms]⟩

/-- **Above a name is its parent, and what is above the parent.** -/
theorem isAncestorOf_iff_parent (h : d.parent? = some p) :
    a.isAncestorOf d = true ↔ p.agrees a = true ∨ a.isAncestorOf p = true := by
  rw [isAncestorOf_iff, isAncestorOf_iff, agrees_iff_forms, forms_of_parent h]
  constructor
  · rintro ⟨rest, hrest, hforms⟩
    obtain ⟨rest, form, rfl⟩ := (List.eq_nil_or_concat' rest).resolve_left hrest
    rw [← List.append_assoc] at hforms
    have hp := (List.append_inj' hforms rfl).1
    by_cases hnil : rest = []
    · exact .inl (by rw [hp, hnil, List.append_nil])
    · exact .inr ⟨rest, hnil, hp⟩
  · rintro (hp | ⟨rest, -, hp⟩)
    · exact ⟨[d.last.uniformChars], List.cons_ne_nil _ _, by rw [hp]⟩
    · exact ⟨rest ++ [d.last.uniformChars], by simp, by rw [hp, List.append_assoc]⟩

end LayeredConfig.Name
