import LayeredConfig.Proofs.Reading

/-!
# LayeredConfig.Proofs.NameOrder

The order of names, and the text that names are found by.

Both are up to spelling: elements, and so names, are of equal rank exactly when they agree
(`Element.order_eq_eq_iff`, `Name.order_eq_eq_iff`), and names have one uniform text exactly when
they agree (`Name.uniform_eq_iff`).  So names of which no two agree stand in strictly ascending
order once they are sorted (`Name.pairwise_sort`).  Names of one canonical text agree, since one
dashed form is read from it (`Name.agrees_of_canonical_eq`).
-/

namespace LayeredConfig

/-! ## Elements -/

namespace Element

/-- The rank of elements that are both numeric, or both not, is that of their values or uniform
texts; numeric ones come first. -/
theorem order_of_some_some {a b : Element} {i j : UInt64} (ha : a.asIndex? = some i)
    (hb : b.asIndex? = some j) : a.order b = compare i j := by
  rw [order, ha, hb]

/-- Elements that are no numbers are ordered by their uniform forms. -/
theorem order_of_none_none {a b : Element} (ha : a.asIndex? = none) (hb : b.asIndex? = none) :
    a.order b = compare a.uniform b.uniform := by
  rw [order, ha, hb]

/-- Numbers come before all other elements. -/
theorem order_of_some_none {a b : Element} {i : UInt64} (ha : a.asIndex? = some i)
    (hb : b.asIndex? = none) : a.order b = .lt := by
  rw [order, ha, hb]

theorem order_of_none_some {a b : Element} {j : UInt64} (ha : a.asIndex? = none)
    (hb : b.asIndex? = some j) : a.order b = .gt := by
  rw [order, ha, hb]

/-- Elements are the same if their uniform forms are. -/
theorem uniform_eq_iff {a b : Element} : a.uniform = b.uniform ↔ a.agrees b = true := by
  rw [uniform, uniform, String.ofList_inj, agrees_iff]

/-- **Elements are of equal rank exactly when they agree.** -/
theorem order_eq_eq_iff {a b : Element} : a.order b = .eq ↔ a.agrees b = true := by
  rw [agrees_iff]
  cases ha : a.asIndex? with
  | some i =>
      have hai := asIndex?_eq_some_iff.mp ha
      cases hb : b.asIndex? with
      | some j =>
          have hbj := asIndex?_eq_some_iff.mp hb
          rw [order_of_some_some ha hb, Std.LawfulEqOrd.compare_eq_iff_eq, hai, hbj]
          refine ⟨fun h => by rw [h], fun h => ?_⟩
          exact UInt64.toNat_inj.mp (Decimal.digits_injective h)
      | none =>
          rw [order_of_some_none ha hb]
          refine ⟨fun h => (nomatch h), fun h => ?_⟩
          rw [asIndex?_congr h, hb] at ha
          contradiction
  | none =>
      cases hb : b.asIndex? with
      | some j =>
          rw [order_of_none_some ha hb]
          refine ⟨fun h => (nomatch h), fun h => ?_⟩
          rw [asIndex?_congr h, hb] at ha
          contradiction
      | none =>
          rw [order_of_none_none ha hb, Std.LawfulEqOrd.compare_eq_iff_eq, uniform_eq_iff,
            agrees_iff]

/-- Asked the other way round, the order is reversed. -/
theorem order_eq_swap {a b : Element} : a.order b = (b.order a).swap := by
  cases ha : a.asIndex? with
  | some i =>
      cases hb : b.asIndex? with
      | some j =>
          rw [order_of_some_some ha hb, order_of_some_some hb ha]
          exact Std.OrientedCmp.eq_swap
      | none => rw [order_of_some_none ha hb, order_of_none_some hb ha, Ordering.swap]
  | none =>
      cases hb : b.asIndex? with
      | some j => rw [order_of_none_some ha hb, order_of_some_none hb ha, Ordering.swap]
      | none =>
          rw [order_of_none_none ha hb, order_of_none_none hb ha]
          exact Std.OrientedCmp.eq_swap

/-- Where the middle one is numeric the first one is too, and where it is not the last one is
neither. -/
theorem isLE_order_trans {a b c : Element} (hab : (a.order b).isLE = true)
    (hbc : (b.order c).isLE = true) : (a.order c).isLE = true := by
  cases hb : b.asIndex? with
  | some j =>
      cases ha : a.asIndex? with
      | none =>
          rw [order_of_none_some ha hb] at hab
          contradiction
      | some i =>
          cases hc : c.asIndex? with
          | none =>
              rw [order_of_some_none ha hc]
              rfl
          | some k =>
              rw [order_of_some_some ha hb] at hab
              rw [order_of_some_some hb hc] at hbc
              rw [order_of_some_some ha hc]
              exact Std.TransCmp.isLE_trans hab hbc
  | none =>
      cases hc : c.asIndex? with
      | some k =>
          rw [order_of_none_some hb hc] at hbc
          contradiction
      | none =>
          cases ha : a.asIndex? with
          | some i =>
              rw [order_of_some_none ha hc]
              rfl
          | none =>
              rw [order_of_none_none ha hb] at hab
              rw [order_of_none_none hb hc] at hbc
              rw [order_of_none_none ha hc]
              exact Std.TransCmp.isLE_trans hab hbc

/-- **Elements are totally ordered**, up to spelling. -/
instance : Std.TransCmp order where
  eq_swap := order_eq_swap
  isLE_trans := isLE_order_trans

end Element

/-! ## Names -/

namespace Name

theorem agrees_refl (n : Name) : n.agrees n = true := agrees_iff.mpr rfl

theorem agrees_symm {a b : Name} (h : a.agrees b = true) : b.agrees a = true :=
  agrees_iff.mpr (agrees_iff.mp h).symm

theorem agrees_trans {a b c : Name} (hab : a.agrees b = true) (hbc : b.agrees c = true) :
    a.agrees c = true :=
  agrees_iff.mpr ((agrees_iff.mp hab).trans (agrees_iff.mp hbc))

/-- No dot stands in a uniform form, so the forms of the elements are found again between the
dots. -/
theorem split_uniform (n : Name) :
    Text.split '.' n.uniform.toList = n.elements.map Element.uniformChars := by
  rw [uniform, String.toList_ofList]
  refine Text.split_join (by simp [n.elements_ne_nil]) fun p hp hdot => ?_
  obtain ⟨e, -, rfl⟩ := List.mem_map.mp hp
  have := (Element.wordChar_of_mem_uniformChars hdot).1.unreserved
  exact absurd this (by decide)

/-- **Names have one uniform text exactly when they agree.** -/
theorem uniform_eq_iff {a b : Name} : a.uniform = b.uniform ↔ a.agrees b = true := by
  rw [agrees_iff]
  constructor
  · intro h
    rw [← split_uniform, ← split_uniform, h]
  · intro h
    rw [uniform, uniform, h]

/-- Names of one canonical text have one dashed form, which is read from it. -/
theorem respell_dashed_eq {a b : Name} (h : a.canonical = b.canonical) :
    a.respell (.spelled .dashed) = b.respell (.spelled .dashed) := by
  have hparse := a.parse_canonical
  rw [h, b.parse_canonical] at hparse
  exact (Except.ok.inj hparse).symm

/-- Names of one canonical text agree. -/
theorem agrees_of_canonical_eq {a b : Name} (h : a.canonical = b.canonical) :
    a.agrees b = true :=
  agrees_trans (agrees_symm a.agrees_dashed) (respell_dashed_eq h ▸ b.agrees_dashed)

/-- **Names are of equal rank exactly when they agree.** -/
theorem order_eq_eq_iff {a b : Name} : a.order b = .eq ↔ a.agrees b = true := by
  rw [order, agrees, elementsAgree_iff]
  generalize a.elements = as
  generalize b.elements = bs
  induction as generalizing bs with
  | nil => cases bs <;> simp [List.compareLex_nil_cons, List.compareLex_nil_nil]
  | cons e es ih =>
      cases bs with
      | nil => simp [List.compareLex_cons_nil]
      | cons f fs =>
          rw [List.compareLex_cons_cons, Ordering.then_eq_eq, ih, Element.order_eq_eq_iff,
            Element.agrees_iff, List.map_cons, List.map_cons, List.cons.injEq]

/-- Lists of elements are ordered lexicographically, and so transitively. -/
theorem transCmp_elements : Std.TransCmp (List.compareLex Element.order) := inferInstance

/-- **Names are totally ordered**, up to spelling. -/
instance : Std.TransCmp order where
  eq_swap := transCmp_elements.eq_swap
  isLE_trans := transCmp_elements.isLE_trans

theorem le_iff {a b : Name} : a.le b = true ↔ (a.order b).isLE = true := by
  rw [le]
  cases a.order b <;> decide

theorem le_trans (a b c : Name) (hab : a.le b = true) (hbc : b.le c = true) : a.le c = true :=
  le_iff.mpr (Std.TransCmp.isLE_trans (le_iff.mp hab) (le_iff.mp hbc))

theorem le_total (a b : Name) : (a.le b || b.le a) = true := by
  have hswap : a.order b = (b.order a).swap := Std.OrientedCmp.eq_swap
  rw [le, le, hswap]
  cases b.order a <;> decide

/-- A name that comes no later than another, and does not agree with it, comes before it. -/
theorem order_eq_lt {a b : Name} (hle : a.le b = true) (hne : a.agrees b = false) :
    a.order b = .lt := by
  have hisLE := le_iff.mp hle
  cases hord : a.order b with
  | lt => rfl
  | eq =>
      rw [order_eq_eq_iff, hne] at hord
      contradiction
  | gt =>
      rw [hord] at hisLE
      contradiction

/-- A name is not the same as one after it. -/
theorem agrees_eq_false_of_lt {a b : Name} (h : a.order b = .lt) : a.agrees b = false := by
  rw [Bool.eq_false_iff]
  intro hagrees
  rw [order_eq_eq_iff.mpr hagrees] at h
  contradiction

/-- Sorted names ascend. -/
theorem pairwise_sort_le (ns : List Name) : (sort ns).Pairwise fun a b => a.le b = true :=
  List.pairwise_mergeSort le_trans le_total ns

/-- Names of which no two agree stand in strictly ascending order once they are sorted. -/
theorem pairwise_sort {ns : List Name} (h : ns.Pairwise fun a b => a.agrees b = false) :
    (sort ns).Pairwise fun a b => a.order b = .lt := by
  have hapart : (sort ns).Pairwise fun a b => a.agrees b = false := by
    refine (List.mergeSort_perm ns le).symm.pairwise h fun {a b} hab => ?_
    by_contra hba
    rw [Bool.not_eq_false] at hba
    rw [agrees_symm hba] at hab
    contradiction
  exact (pairwise_sort_le ns).imp₂ (fun _ _ => order_eq_lt) hapart

/-- Sorting leaves out no name and adds none. -/
theorem mem_sort {n : Name} {ns : List Name} : n ∈ sort ns ↔ n ∈ ns := List.mem_mergeSort

end Name

end LayeredConfig
