import LayeredConfig.Name.Basic
import LayeredConfig.Proofs.Lowercase
import Mathlib.Data.List.Basic
import Mathlib.Data.List.Induction

/-!
# LayeredConfig.Proofs.Agreement

When elements, and names, are the same up to spelling.

A literal and an index are compared by the value of a canonical decimal, two literals by their
uniform forms, two indexes by their values.  All three are one comparison: elements agree when
their uniform forms are equal (`Element.agrees_iff`), since a canonical decimal is what `digits`
writes (`Decimal.canonical?_eq_some_iff`).  Names agree when they have the same uniform forms
element by element (`Name.agrees_iff`).
-/

namespace LayeredConfig

/-! ## Canonical decimals -/

namespace Decimal

theorem value_append_digit (cs : List Char) (c : Char) :
    value (cs ++ [c]) = 10 * value cs + (c.toNat - '0'.toNat) := by
  simp [value, List.foldl_append]

/-- A digit is the digit of its value. -/
theorem digitChar_of_isDigit {c : Char} (h : c.isDigit = true) :
    c.toNat - '0'.toNat < 10 ∧ Nat.digitChar (c.toNat - '0'.toNat) = c := by
  have hc : c.toNat < 128 := by
    have := (Char.isDigit_iff_toNat.mp h).2
    have h9 : '9'.toNat = 57 := rfl
    omega
  exact Text.forall_ascii (p := fun c => c.isDigit = true →
    c.toNat - '0'.toNat < 10 ∧ Nat.digitChar (c.toNat - '0'.toNat) = c) (by decide +kernel) hc h

/-- A number that is not zero is written without a leading zero. -/
theorem head?_digits {n : Nat} (h : n ≠ 0) : (digits n).head? ≠ some '0' := by
  induction n using Nat.strongRecOn with
  | ind n ih =>
      rw [digits_eq]
      split
      · next hlt =>
          have : ∀ d < 10, d ≠ 0 → [Nat.digitChar d].head? ≠ some '0' := by decide
          exact this n hlt h
      · next hge =>
          rw [List.head?_append_of_ne_nil _ (digits_ne_nil _)]
          exact ih (n / 10) (by omega) (by omega)

/-- No needless zero leads the digits of a number. -/
theorem canonical?_digits (n : Nat) : canonical? (digits n) = some n := by
  rw [canonical?, if_neg, read?_digits]
  rintro ⟨hlen, hhead⟩
  have hzero : n = 0 := by
    by_contra hne
    exact head?_digits hne hhead
  subst hzero
  have : ¬ 1 < (digits 0).length := by decide
  exact this hlen

/-- Digits without a needless leading zero are those of their value. -/
theorem digits_value {cs : List Char} (hne : cs ≠ []) (hdigit : ∀ c ∈ cs, c.isDigit = true)
    (hlead : ¬ (1 < cs.length ∧ cs.head? = some '0')) : digits (value cs) = cs := by
  induction cs using List.reverseRecOn with
  | nil => exact absurd rfl hne
  | append_singleton cs c ih =>
      obtain ⟨hlt, hc⟩ := digitChar_of_isDigit (hdigit c (by simp))
      rw [value_append_digit, digits_eq]
      by_cases hnil : cs = []
      · subst hnil
        have hzero : value [] = 0 := rfl
        rw [hzero, if_pos (by omega), Nat.mul_zero, Nat.zero_add, hc, List.nil_append]
      · have hhead : cs.head? ≠ some '0' := by
          intro hh
          apply hlead
          rw [List.head?_append_of_ne_nil _ hnil, List.length_append, List.length_singleton]
          have := List.length_pos_iff.mpr hnil
          exact ⟨by omega, hh⟩
        have hcs : digits (value cs) = cs :=
          ih hnil (fun d hd => hdigit d (List.mem_append_left _ hd)) (fun h => hhead h.2)
        have hpos : value cs ≠ 0 := by
          intro hzero
          rw [hzero] at hcs
          rw [← hcs] at hhead
          exact hhead rfl
        rw [if_neg (by omega)]
        have hdiv : (10 * value cs + (c.toNat - '0'.toNat)) / 10 = value cs := by omega
        have hmod : (10 * value cs + (c.toNat - '0'.toNat)) % 10 = c.toNat - '0'.toNat := by omega
        rw [hdiv, hmod, hcs, hc]

/-- Canonical decimals are what `digits` writes. -/
theorem canonical?_eq_some_iff {cs : List Char} {n : Nat} :
    canonical? cs = some n ↔ cs = digits n := by
  constructor
  · intro h
    rw [canonical?] at h
    split at h
    · contradiction
    · next hlead =>
        rw [read?] at h
        split at h
        · next hcs =>
            rw [← Option.some.inj h]
            exact (digits_value hcs.1 (List.all_eq_true.mp hcs.2) hlead).symm
        · contradiction
  · rintro rfl
    exact canonical?_digits n

/-- Canonical decimals of 64-bit numbers are what `digits` writes of them. -/
theorem word?_canonical?_eq_some_iff {cs : List Char} {i : UInt64} :
    word? canonical? cs = some i ↔ cs = digits i.toNat := by
  rw [word?]
  constructor
  · intro h
    split at h
    · next n hn =>
        split at h
        · next hlt =>
            rw [← Option.some.inj h, UInt64.toNat_ofNat_of_lt' hlt]
            exact canonical?_eq_some_iff.mp hn
        · contradiction
    · contradiction
  · rintro rfl
    have hlt : i.toNat < UInt64.size := i.toNat_lt_size
    simp only [canonical?_digits, if_pos hlt, UInt64.ofNat_toNat]

/-- Different numbers have different digits. -/
theorem digits_injective {m n : Nat} (h : digits m = digits n) : m = n := by
  have := congrArg value h
  rwa [value_digits, value_digits] at this

end Decimal

/-! ## Elements -/

namespace Element

/-- An element is numeric when its uniform form is a canonical decimal, however it is written. -/
theorem asIndex?_eq_some_iff {e : Element} {i : UInt64} :
    e.asIndex? = some i ↔ e.uniformChars = Decimal.digits i.toNat := by
  cases e with
  | literal l => exact Decimal.word?_canonical?_eq_some_iff
  | index j =>
      simp only [asIndex?, uniformChars, Option.some.injEq]
      constructor
      · rintro rfl
        rfl
      · intro h
        exact UInt64.toNat_inj.mp (Decimal.digits_injective h)

/-- **Elements agree when their uniform forms are equal.** -/
theorem agrees_iff {a b : Element} : a.agrees b = true ↔ a.uniformChars = b.uniformChars := by
  cases a with
  | literal l =>
      cases b with
      | literal m => simp only [agrees, uniformChars, beq_iff_eq]
      | index j => rw [agrees, beq_iff_eq, asIndex?_eq_some_iff, uniformChars, uniformChars]
  | index i =>
      cases b with
      | literal m =>
          rw [agrees, beq_iff_eq, asIndex?_eq_some_iff]
          exact eq_comm
      | index j =>
          simp only [agrees, beq_iff_eq, uniformChars]
          constructor
          · rintro rfl
            rfl
          · intro h
            exact UInt64.toNat_inj.mp (Decimal.digits_injective h)

/-- Elements with one uniform form are numeric together, and with the same value. -/
theorem asIndex?_congr {a b : Element} (h : a.uniformChars = b.uniformChars) :
    a.asIndex? = b.asIndex? := by
  apply Option.ext
  intro i
  rw [asIndex?_eq_some_iff, asIndex?_eq_some_iff, h]

/-- A digit structures nothing, separates nothing and has no letter case. -/
theorem plain_of_isDigit {c : Char} (h : c.isDigit = true) :
    isReserved c = false ∧ isSeparator c = false ∧ c.toLower = c ∧ c ≠ 'Σ' := by
  obtain ⟨hlt, hc⟩ := Decimal.digitChar_of_isDigit h
  have : ∀ d < 10, isReserved (Nat.digitChar d) = false ∧ isSeparator (Nat.digitChar d) = false
      ∧ (Nat.digitChar d).toLower = Nat.digitChar d ∧ Nat.digitChar d ≠ 'Σ' := by decide
  have := this _ hlt
  rwa [hc] at this

end Element

/-! ## Names -/

namespace Name

/-- Elements agree if their uniform forms are the same, in order. -/
theorem elementsAgree_iff {as bs : List Element} :
    elementsAgree as bs = true ↔ as.map Element.uniformChars = bs.map Element.uniformChars := by
  induction as generalizing bs with
  | nil => cases bs <;> simp [elementsAgree]
  | cons a as ih =>
      cases bs with
      | nil => simp [elementsAgree]
      | cons b bs =>
          rw [elementsAgree, Bool.and_eq_true, Element.agrees_iff, ih, List.map_cons, List.map_cons,
            List.cons.injEq]

/-- **Names agree when their elements have the same uniform forms.** -/
theorem agrees_iff {a b : Name} :
    a.agrees b = true ↔ a.elements.map Element.uniformChars = b.elements.map Element.uniformChars :=
  elementsAgree_iff

end Name

end LayeredConfig
