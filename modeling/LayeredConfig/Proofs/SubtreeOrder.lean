import LayeredConfig.Proofs.Ancestry

/-!
# LayeredConfig.Proofs.SubtreeOrder

The names below a name, and where the order puts them.

1. To be below a name is to have its forms at the front of one's own.  So being below is a strict
   order that takes no notice of spelling, and what is above one name is a line
   (`Name.isAncestorOf_total`).
2. The order compares element by element, and elements rank equally exactly when they agree.  So what
   stands between a name and a name below it has the same forms at its front
   (`Name.isAncestorOf_of_between`).
3. A sorted list is the names before a name, those that agree with it, those below it, and the rest, one
   after the other (`Name.sorted_eq_append`).
-/

namespace LayeredConfig

namespace Name

variable {a b d x : Name}

/-! ## Names below a name -/

/-- An ancestor has fewer forms, and the other name begins with them. -/
theorem isAncestorOf_iff_forms :
    a.isAncestorOf b = true ↔ a.forms <+: b.forms ∧ a.length < b.length := by
  rw [isAncestorOf_iff, ← length_forms, ← length_forms]
  constructor
  · intro ⟨rest, hrest, hb⟩
    have := List.length_pos_iff.mpr hrest
    exact ⟨⟨rest, hb.symm⟩, by simp [hb]; omega⟩
  · intro ⟨⟨rest, hb⟩, hlength⟩
    refine ⟨rest, fun hnil => ?_, hb.symm⟩
    simp [← hb, hnil] at hlength

/-- **Above a name is what is left of it** when its last elements are chopped off. -/
theorem isAncestorOf_iff_chop : a.isAncestorOf b = true ↔
    ∃ k p, 0 < k ∧ b.length = a.length + k ∧ b.chop? k = some p ∧ p.agrees a = true := by
  have hpos : 0 < a.length := List.length_pos_iff.mpr a.elements_ne_nil
  have hchop {k : Nat} (hk : b.length = a.length + k) :
      ∃ p, b.chop? k = some p ∧ p.forms = b.forms.take a.length := by
    rw [length] at hk
    have hlong : k < b.elements.length := by omega
    have htake : b.elements.length - k = a.length := by omega
    refine ⟨_, dif_pos hlong, ?_⟩
    simp only [forms, htake, List.map_take]
  rw [isAncestorOf_iff_take]
  constructor
  · rintro ⟨hlength, hforms⟩
    have hk : b.length = a.length + (b.length - a.length) := by omega
    obtain ⟨p, hp, hpforms⟩ := hchop hk
    exact ⟨_, p, by omega, hk, hp, agrees_iff_forms.mpr (hpforms.trans hforms.symm)⟩
  · rintro ⟨k, p, hkpos, hk, hp, hagrees⟩
    obtain ⟨q, hq, hqforms⟩ := hchop hk
    rw [hp, Option.some.injEq] at hq
    subst hq
    exact ⟨by omega, (agrees_iff_forms.mp hagrees).symm.trans hqforms⟩

/-- No name is its own ancestor. -/
theorem isAncestorOf_irrefl (a : Name) : a.isAncestorOf a = false := by
  simp [isAncestorOf]

/-- What is above an ancestor is an ancestor. -/
theorem isAncestorOf_trans (hab : a.isAncestorOf b = true) (hbd : b.isAncestorOf d = true) :
    a.isAncestorOf d = true := by
  rw [isAncestorOf_iff_forms] at hab hbd ⊢
  exact ⟨hab.1.trans hbd.1, by omega⟩

/-- Spellings of one name have the same descendants. -/
theorem isAncestorOf_congr_left (h : a.agrees b = true) (n : Name) :
    a.isAncestorOf n = b.isAncestorOf n := by
  rw [Bool.eq_iff_iff, isAncestorOf_iff, isAncestorOf_iff, agrees_iff_forms.mp h]

/-- **Names above one name form a line.** -/
theorem isAncestorOf_total (had : a.isAncestorOf d = true) (hbd : b.isAncestorOf d = true) :
    a.agrees b = true ∨ a.isAncestorOf b = true ∨ b.isAncestorOf a = true := by
  rw [isAncestorOf_iff_forms] at had hbd
  simp only [isAncestorOf_iff_forms, agrees_iff_forms, ← length_forms]
  rcases Nat.lt_trichotomy a.forms.length b.forms.length with hlt | heq | hgt
  · exact .inr (.inl ⟨List.prefix_of_prefix_length_le had.1 hbd.1 (Nat.le_of_lt hlt), hlt⟩)
  · exact .inl ((List.prefix_of_prefix_length_le had.1 hbd.1 (Nat.le_of_eq heq)).eq_of_length heq)
  · exact .inr (.inr ⟨List.prefix_of_prefix_length_le hbd.1 had.1 (Nat.le_of_lt hgt), hgt⟩)

/-! ## Their place in the order -/

/-- Elements that go on after others come later. -/
theorem compareLex_lt_of_isPrefix {as ds : List Element}
    (h : as.map Element.uniformChars <+: ds.map Element.uniformChars)
    (hlength : as.length < ds.length) : List.compareLex Element.order as ds = .lt := by
  induction as generalizing ds with
  | nil =>
      cases ds with
      | nil => simp at hlength
      | cons f ds => exact List.compareLex_nil_cons
  | cons e as ih =>
      cases ds with
      | nil => simp at hlength
      | cons f ds =>
          rw [List.map_cons, List.map_cons, List.cons_prefix_cons] at h
          have hef : e.order f = .eq := Element.order_eq_eq_iff.mpr (Element.agrees_iff.mpr h.1)
          rw [List.compareLex_cons_cons, hef, Ordering.eq_then]
          exact ih h.2 (by simpa using hlength)

/-- Elements that come between others and a continuation of those are a continuation too: an element
that differs would come before both or after both. -/
theorem isPrefix_of_between {as xs ds : List Element}
    (had : as.map Element.uniformChars <+: ds.map Element.uniformChars)
    (hax : List.compareLex Element.order as xs = .lt)
    (hxd : List.compareLex Element.order xs ds ≠ .gt) :
    as.map Element.uniformChars <+: xs.map Element.uniformChars := by
  induction as generalizing xs ds with
  | nil => exact List.nil_prefix
  | cons e as ih =>
      cases ds with
      | nil => simp at had
      | cons f ds =>
          cases xs with
          | nil => simp [List.compareLex_cons_nil] at hax
          | cons x xs =>
              rw [List.map_cons, List.map_cons, List.cons_prefix_cons] at had ⊢
              rw [List.compareLex_cons_cons] at hax hxd
              have hef : e.order f = .eq :=
                Element.order_eq_eq_iff.mpr (Element.agrees_iff.mpr had.1)
              have hxf : x.order f = (e.order x).swap := by
                rw [← Std.TransCmp.congr_right hef]
                exact Std.OrientedCmp.eq_swap
              cases hex : e.order x with
              | gt => simp [hex] at hax
              | lt => simp [hxf, hex] at hxd
              | eq =>
                  refine ⟨Element.agrees_iff.mp (Element.order_eq_eq_iff.mp hex), ih had.2 ?_ ?_⟩
                  · simpa [hex] using hax
                  · simpa [hxf, hex] using hxd

/-- **A name comes before the names below it.** -/
theorem order_eq_lt_of_isAncestorOf (h : a.isAncestorOf d = true) : a.order d = .lt := by
  rw [isAncestorOf_iff_forms] at h
  exact compareLex_lt_of_isPrefix h.1 h.2

/-- **What comes between a name and a name below it is below it**, or agrees with the latter. -/
theorem isAncestorOf_of_between (had : a.isAncestorOf d = true) (hax : a.order x = .lt)
    (hxd : x.le d = true) : a.isAncestorOf x = true := by
  rw [isAncestorOf_iff_forms] at had ⊢
  have hfront : a.forms <+: x.forms := isPrefix_of_between had.1 hax (by simpa [le, order] using hxd)
  refine ⟨hfront, ?_⟩
  rw [← length_forms, ← length_forms]
  by_contra hshort
  have hforms := hfront.eq_of_length_le (Nat.not_lt.mp hshort)
  have hapart := agrees_eq_false_of_lt hax
  rw [agrees_iff_forms.mpr hforms] at hapart
  contradiction

/-! ## Sorted lists -/

/-- Of what does not have one property, a list has first what has another one and then the rest, where
nothing with the latter property follows something with neither. -/
theorem filter_not_eq_append {p q : Name → Bool} {ns : List Name}
    (hapart : ∀ n, q n = true → p n = false)
    (h : ns.Pairwise fun x y => p x = false → q y = true → q x = true) :
    ns.filter (!p ·) = ns.filter q ++ ns.filter fun n => !(p n || q n) := by
  induction ns with
  | nil => rfl
  | cons n ns ih =>
      have ⟨hn, hns⟩ := List.pairwise_cons.mp h
      cases hp : p n with
      | true =>
          have hq : q n = false := by
            by_contra hq
            simp [hapart n (by simpa using hq)] at hp
          simpa [hp, hq] using ih hns
      | false =>
          cases hq : q n with
          | true => simpa [hp, hq] using ih hns
          | false =>
              have hnone : ns.filter q = [] := by
                rw [List.filter_eq_nil_iff]
                intro y hy hqy
                simp [hn y hy hp hqy] at hq
              simpa [hp, hq, hnone] using ih hns

/-- Names are the same if neither comes before the other. -/
theorem agrees_eq_order (n a : Name) : n.agrees a = (n.order a == .eq) := by
  rw [Bool.eq_iff_iff, ← order_eq_eq_iff, beq_iff_eq]

/-- What comes before a name is what the name comes after. -/
theorem order_lt_eq_swap (a n : Name) : (a.order n == .lt) = (n.order a == .gt) := by
  have hswap : n.order a = (a.order n).swap := Std.OrientedCmp.eq_swap
  rw [hswap]
  cases a.order n <;> rfl

/-- **The names below a name are one block of a sorted list**: the names before a name are followed by
those that agree with it, these by the names below it, and these by the rest. -/
theorem sorted_eq_append {ns : List Name} (h : ns.Pairwise fun x y => x.le y = true) (a : Name) :
    ns = ns.filter (·.order a == .lt) ++ (ns.filter (·.agrees a) ++
      (ns.filter (a.isAncestorOf ·) ++
        ns.filter fun n => a.order n == .lt && !a.isAncestorOf n)) := by
  -- Three cuts, each of what the one before it has left.
  have hbefore : ns = ns.filter (·.order a == .lt) ++ ns.filter fun n => !(n.order a == .lt) := by
    have hcut := filter_not_eq_append (p := fun _ => false) (q := fun n => n.order a == .lt)
      (fun _ _ => rfl) (h.imp fun {x y} hxy _ hya => by
        rw [beq_iff_eq] at hya ⊢
        exact Std.TransCmp.lt_of_isLE_of_lt (le_iff.mp hxy) hya)
    simpa using hcut
  have hsame : ns.filter (fun n => !(n.order a == .lt)) =
      ns.filter (·.agrees a) ++ ns.filter fun n => !(n.order a == .lt || n.agrees a) := by
    refine filter_not_eq_append (fun n hn => by simp [order_eq_eq_iff.mpr hn])
      (h.imp fun {x y} hxy hx hya => ?_)
    rw [agrees_eq_order, beq_iff_eq] at hya ⊢
    have hle : (x.order a).isLE = true := by
      rw [← Std.TransCmp.congr_right hya]
      exact le_iff.mp hxy
    revert hx hle
    cases x.order a <;> simp
  have hbelow : ns.filter (fun n => !(n.order a == .lt || n.agrees a)) =
      ns.filter (a.isAncestorOf ·) ++
        ns.filter fun n => !(n.order a == .lt || n.agrees a || a.isAncestorOf n) := by
    refine filter_not_eq_append (fun n hn => ?_) (h.imp fun {x y} hxy hx hay => ?_)
    · have hgt := order_lt_eq_swap a n
      rw [order_eq_lt_of_isAncestorOf hn, beq_self_eq_true, eq_comm, beq_iff_eq] at hgt
      simp [agrees_eq_order, hgt]
    · refine isAncestorOf_of_between hay ?_ hxy
      rw [← beq_iff_eq, order_lt_eq_swap]
      rw [agrees_eq_order] at hx
      revert hx
      cases x.order a <;> simp
  have hrest : (fun n => !(n.order a == .lt || n.agrees a || a.isAncestorOf n)) =
      fun n => a.order n == .lt && !a.isAncestorOf n := by
    funext n
    rw [order_lt_eq_swap a n, agrees_eq_order]
    cases n.order a <;> simp
  rw [← hrest, ← hbelow, ← hsame, ← hbefore]

/-- **Ancestry and order.**  Above a name are the names that are left when elements are chopped off its
end.  No name is above itself, what is above is above all that is below, spelling plays no part, and of
two names above one name, if they do not agree, one is above the other.  A name comes before the names
below it, what comes strictly between it and one of these is below it too, and so in a sorted list they
stand together, right after what does not come after the name. -/
theorem ancestry_ordered :
    (∀ a b : Name, a.isAncestorOf b = true ↔
      ∃ k p, 0 < k ∧ b.length = a.length + k ∧ b.chop? k = some p ∧ p.agrees a = true) ∧
    (∀ a : Name, a.isAncestorOf a = false) ∧
    (∀ a b d : Name, a.isAncestorOf b = true → b.isAncestorOf d = true → a.isAncestorOf d = true) ∧
    (∀ a a' b b' : Name, a.agrees a' = true → b.agrees b' = true →
      a.isAncestorOf b = a'.isAncestorOf b') ∧
    (∀ a b d : Name, a.isAncestorOf d = true → b.isAncestorOf d = true →
      a.agrees b = true ∨ a.isAncestorOf b = true ∨ b.isAncestorOf a = true) ∧
    (∀ a d : Name, a.isAncestorOf d = true → a.order d = .lt) ∧
    (∀ a x d : Name, a.isAncestorOf d = true → a.order x = .lt → x.order d = .lt →
      a.isAncestorOf x = true) ∧
    ∀ (a : Name) (ns : List Name), ns.Pairwise (fun x y => x.le y = true) →
      ns = ns.filter (·.order a == .lt) ++ (ns.filter (·.agrees a) ++
        (ns.filter (a.isAncestorOf ·) ++
          ns.filter fun n => a.order n == .lt && !a.isAncestorOf n)) :=
  ⟨fun _ _ => isAncestorOf_iff_chop, isAncestorOf_irrefl, fun _ _ _ => isAncestorOf_trans,
    fun _ _ _ _ ha hb => (isAncestorOf_congr_left ha _).trans (isAncestorOf_congr_right hb),
    fun _ _ _ => isAncestorOf_total, fun _ _ => order_eq_lt_of_isAncestorOf,
    fun _ _ _ had hax hxd => isAncestorOf_of_between had hax (by simp [le, hxd]),
    fun a _ h => sorted_eq_append h a⟩

/-- The name `rows` with the given elements below it. -/
def rowName (below : List Element) : Name :=
  ⟨.literal ⟨"rows", by simp [isReserved], by simp [isSeparator]⟩ :: below, List.cons_ne_nil _ _⟩

/-- The names `[3]`, `rows`, `rows[0]`, `rows[0][2]` and `rows[1]`, in order. -/
def rowNames : List Name :=
  [⟨[.index 3], List.cons_ne_nil _ _⟩, rowName [], rowName [.index 0],
    rowName [.index 0, .index 2], rowName [.index 1]]

/-- Below `rows[0]`, which stands in the middle, is the name that follows it. -/
theorem ancestry_ordered_rowNames :
    (rowName [.index 0]).isAncestorOf (rowName [.index 0, .index 2]) = true ∧
      rowNames.Pairwise (fun x y => x.le y = true) ∧
      rowNames = rowNames.filter (·.order (rowName [.index 0]) == .lt) ++
        (rowNames.filter (·.agrees (rowName [.index 0])) ++
          (rowNames.filter ((rowName [.index 0]).isAncestorOf ·) ++
            rowNames.filter fun n =>
              (rowName [.index 0]).order n == .lt && !(rowName [.index 0]).isAncestorOf n)) := by
  have hsorted : rowNames.Pairwise (fun x y => x.le y = true) := by decide +kernel
  obtain ⟨-, -, -, -, -, -, -, hblock⟩ := ancestry_ordered
  exact ⟨by decide +kernel, hsorted, hblock _ _ hsorted⟩

end Name

end LayeredConfig
