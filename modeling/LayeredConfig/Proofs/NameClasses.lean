import LayeredConfig.Proofs.NameOrder

/-!
# LayeredConfig.Proofs.NameClasses

One comparison of names in three forms: agreement, a text and an order.

1. Agreement is an equivalence, what agrees has one uniform text, and it has one rank in a total
   order (`Coherent`).  This holds of elements and of names.
2. The rank of an element is that of its number, if it has one, and numbers come before all else.
3. So names that agree stand side by side once they are sorted, and of every class of names that agree
   one is left when repeats are dropped (`Name.countP_dropRepeats_sort`).
-/

namespace LayeredConfig

/-- An agreement, a text and an order that tell the same things apart. -/
structure Coherent {α : Type} (agrees : α → α → Bool) (text : α → String)
    (order : α → α → Ordering) : Prop where
  equivalence : Equivalence fun a b => agrees a b = true
  text_eq_iff : ∀ a b, text a = text b ↔ agrees a b = true
  order_eq_iff : ∀ a b, order a b = .eq ↔ agrees a b = true
  order_total : Std.TransCmp order

/-- An agreement that a text decides is an equivalence. -/
theorem Coherent.of_text {α : Type} {agrees : α → α → Bool} {text : α → String}
    {order : α → α → Ordering} (htext : ∀ a b, text a = text b ↔ agrees a b = true)
    (horder : ∀ a b, order a b = .eq ↔ agrees a b = true) (htotal : Std.TransCmp order) :
    Coherent agrees text order where
  equivalence :=
    { refl := fun a => (htext a a).mp rfl
      symm := fun {a b} h => (htext b a).mp ((htext a b).mpr h).symm
      trans := fun {a b c} h h' =>
        (htext a c).mp (((htext a b).mpr h).trans ((htext b c).mpr h')) }
  text_eq_iff := htext
  order_eq_iff := horder
  order_total := htotal

/-! ## Elements -/

namespace Element

/-- The order, the uniform form and the comparison of single elements agree with each other. -/
theorem coherent : Coherent agrees uniform order :=
  .of_text (fun _ _ => uniform_eq_iff) (fun _ _ => order_eq_eq_iff) inferInstance

/-- An element is numeric if it agrees with an index. -/
theorem asIndex?_eq_some_iff_agrees {e : Element} {i : UInt64} :
    e.asIndex? = some i ↔ e.agrees (.index i) = true := by
  rw [asIndex?_eq_some_iff, agrees_iff]
  rfl

/-- **Numeric elements are ordered by value**, whether they are literals or indexes. -/
theorem order_of_agrees_index {a b : Element} {i j : UInt64} (ha : a.agrees (.index i) = true)
    (hb : b.agrees (.index j) = true) : a.order b = compare i j :=
  order_of_some_some (asIndex?_eq_some_iff_agrees.mpr ha) (asIndex?_eq_some_iff_agrees.mpr hb)

/-- **Numeric elements come before all others.** -/
theorem order_eq_lt_of_agrees_index {a b : Element} {i : UInt64} (ha : a.agrees (.index i) = true)
    (hb : ∀ j, b.agrees (.index j) = false) : a.order b = .lt := by
  refine order_of_some_none (asIndex?_eq_some_iff_agrees.mpr ha) ?_
  rw [Option.eq_none_iff_forall_ne_some]
  intro j hj
  rw [asIndex?_eq_some_iff_agrees, hb j] at hj
  contradiction

end Element

/-! ## Names -/

namespace Name

theorem coherent : Coherent agrees uniform order :=
  .of_text (fun _ _ => uniform_eq_iff) (fun _ _ => order_eq_eq_iff) inferInstance

/-! ## Dropping repeats -/

theorem go_sublist (last : Name) (ns : List Name) : (dropRepeats.go last ns).Sublist ns := by
  induction ns generalizing last with
  | nil => exact .refl _
  | cons n ns ih =>
      rw [dropRepeats.go]
      split
      · exact (ih last).cons n
      · exact (ih n).cons_cons n

/-- What is left are names of the list, in their order. -/
theorem dropRepeats_sublist (ns : List Name) : (dropRepeats ns).Sublist ns := by
  cases ns with
  | nil => exact .refl _
  | cons n ns => exact (go_sublist n ns).cons_cons n

/-- Among sorted names, those that are left after one ascend from it. -/
theorem pairwise_go {last : Name} {ns : List Name}
    (h : (last :: ns).Pairwise fun a b => a.le b = true) :
    (last :: dropRepeats.go last ns).Pairwise fun a b => a.order b = .lt := by
  induction ns generalizing last with
  | nil => exact List.pairwise_singleton _ _
  | cons n ns ih =>
      rw [dropRepeats.go]
      split
      · exact ih (h.sublist ((List.sublist_cons_self n ns).cons_cons last))
      · next hne =>
        have ⟨hlast, hns⟩ := List.pairwise_cons.mp h
        have hlt : last.order n = .lt := by
          refine order_eq_lt (hlast n List.mem_cons_self) ?_
          rw [Bool.eq_false_iff]
          exact fun hagrees => hne (agrees_symm hagrees)
        have hrest := ih hns
        refine List.pairwise_cons.mpr ⟨fun a ha => ?_, hrest⟩
        cases List.mem_cons.mp ha with
        | inl he => exact he ▸ hlt
        | inr hin => exact Std.TransCmp.lt_trans hlt ((List.pairwise_cons.mp hrest).1 a hin)

/-- **Sorted names ascend strictly once repeats are dropped.** -/
theorem pairwise_dropRepeats {ns : List Name} (h : ns.Pairwise fun a b => a.le b = true) :
    (dropRepeats ns).Pairwise fun a b => a.order b = .lt := by
  cases ns with
  | nil => exact .nil
  | cons n ns => exact pairwise_go h

/-- What is dropped agrees with something that is left. -/
theorem exists_mem_go {last n : Name} {ns : List Name} (h : n ∈ last :: ns) :
    ∃ a ∈ last :: dropRepeats.go last ns, a.agrees n = true := by
  induction ns generalizing last with
  | nil => exact ⟨n, h, n.agrees_refl⟩
  | cons m ns ih =>
      rw [dropRepeats.go]
      split
      · next hagrees =>
        have hmem : n = m ∨ n ∈ last :: ns := by
          simp only [List.mem_cons] at h ⊢
          tauto
        cases hmem with
        | inl he => exact ⟨last, List.mem_cons_self, he ▸ agrees_symm hagrees⟩
        | inr hin => exact ih hin
      · cases List.mem_cons.mp h with
        | inl he => exact ⟨n, he ▸ List.mem_cons_self, n.agrees_refl⟩
        | inr hin =>
            obtain ⟨a, ha, hagrees⟩ := ih hin
            exact ⟨a, List.mem_cons_of_mem _ ha, hagrees⟩

/-- **Dropping repeats loses no class.** -/
theorem exists_mem_dropRepeats {n : Name} {ns : List Name} (h : n ∈ ns) :
    ∃ a ∈ dropRepeats ns, a.agrees n = true := by
  cases ns with
  | nil => exact nomatch h
  | cons m ns => exact exists_mem_go h

/-! ## One of each class -/

/-- Of names of which no two agree, at most one agrees with a name. -/
theorem countP_agrees {ns : List Name} (h : ns.Pairwise fun a b => a.agrees b = false) (n : Name) :
    ns.countP (·.agrees n) = if ns.any (·.agrees n) then 1 else 0 := by
  induction ns with
  | nil => rfl
  | cons a ns ih =>
      have ⟨ha, hns⟩ := List.pairwise_cons.mp h
      rw [List.countP_cons, ih hns, List.any_cons]
      cases han : a.agrees n with
      | false => rfl
      | true =>
          have hnone : ns.any (·.agrees n) = false := by
            rw [List.any_eq_false]
            intro b hb hbn
            have hab := agrees_trans han (agrees_symm hbn)
            rw [ha b hb] at hab
            contradiction
          rw [hnone]
          rfl

/-- **Of every class of names in a list, sorting and dropping repeats leaves one**, and it leaves
nothing else. -/
theorem countP_dropRepeats_sort (ns : List Name) (n : Name) :
    (dropRepeats (sort ns)).countP (·.agrees n) = if ns.any (·.agrees n) then 1 else 0 := by
  have happart : (dropRepeats (sort ns)).Pairwise fun a b => a.agrees b = false :=
    (pairwise_dropRepeats (pairwise_sort_le ns)).imp agrees_eq_false_of_lt
  have hclasses : (dropRepeats (sort ns)).any (·.agrees n) = ns.any (·.agrees n) := by
    rw [Bool.eq_iff_iff, List.any_eq_true, List.any_eq_true]
    constructor
    · rintro ⟨a, ha, han⟩
      exact ⟨a, mem_sort.mp ((dropRepeats_sublist _).subset ha), han⟩
    · rintro ⟨b, hb, hbn⟩
      obtain ⟨a, ha, hab⟩ := exists_mem_dropRepeats (mem_sort.mpr hb)
      exact ⟨a, ha, agrees_trans hab hbn⟩
  rw [countP_agrees happart, hclasses]

/-- **Agreement, uniform texts and order cohere**, for elements and for names.  Elements that agree
with an index come first, by its value.  A sorted list of names without its repeats ascends strictly, is
made of names of the list, and has one name of each class of the list. -/
theorem agreement_coherent :
    Coherent Element.agrees Element.uniform Element.order ∧
      (∀ (a b : Element) (i j : UInt64), a.agrees (.index i) = true → b.agrees (.index j) = true →
        a.order b = compare i j) ∧
      (∀ (a b : Element) (i : UInt64), a.agrees (.index i) = true →
        (∀ j, b.agrees (.index j) = false) → a.order b = .lt) ∧
      Coherent agrees uniform order ∧
      ∀ ns : List Name,
        (dropRepeats (sort ns)).Pairwise (fun a b => a.order b = .lt) ∧
        (∀ a ∈ dropRepeats (sort ns), a ∈ ns) ∧
        ∀ n : Name, (dropRepeats (sort ns)).countP (·.agrees n) =
          if ns.any (·.agrees n) then 1 else 0 :=
  ⟨Element.coherent, fun _ _ _ _ => Element.order_of_agrees_index,
    fun _ _ _ => Element.order_eq_lt_of_agrees_index, coherent,
    fun ns => ⟨pairwise_dropRepeats (pairwise_sort_le ns),
      fun _ ha => mem_sort.mp ((dropRepeats_sublist _).subset ha), countP_dropRepeats_sort ns⟩⟩

end Name

end LayeredConfig
