/-!
# LayeredConfig.Decimal.Natural

Natural numbers in decimal.

1. `digits` writes a number without leading zeros.
2. `read?` reads any run of the digits `0` to `9`, leading zeros included.
3. `canonical?` reads only what `digits` writes.
-/

namespace LayeredConfig.Decimal

def digits (n : Nat) : List Char := Nat.toDigits 10 n

/-- The number that a run of digits stands for. -/
def value (cs : List Char) : Nat :=
  cs.foldl (fun n c => 10 * n + (c.toNat - '0'.toNat)) 0

/-- Reads a number: one digit or more, and nothing else. -/
def read? (cs : List Char) : Option Nat :=
  if cs ≠ [] ∧ cs.all Char.isDigit then some (value cs) else none

/-- Reads a number that has no needless leading zero. -/
def canonical? (cs : List Char) : Option Nat :=
  if 1 < cs.length ∧ cs.head? = some '0' then none else read? cs

/-- A number read with `f`, if it is below `2 ^ 64`. -/
def word? (f : List Char → Option Nat) (cs : List Char) : Option UInt64 :=
  match f cs with
  | some n => if n < UInt64.size then some (UInt64.ofNat n) else none
  | none => none

/-- The 64-bit integer of a value, if there is one. -/
def int64? (i : Int) : Option Int64 :=
  if Int64.minValue.toInt ≤ i ∧ i ≤ Int64.maxValue.toInt then some (Int64.ofInt i) else none

/-- The decimal digits of an integer, after a minus sign if it is negative. -/
def signedDigits (i : Int) : List Char :=
  if i < 0 then '-' :: digits i.natAbs else digits i.natAbs

/-! ## Laws -/

/-- A number below ten is written as one digit, any other as the digits of its tens and one more. -/
theorem digits_eq (n : Nat) :
    digits n =
      if n < 10 then [Nat.digitChar n] else digits (n / 10) ++ [Nat.digitChar (n % 10)] := by
  unfold digits
  split
  · next h => exact Nat.toDigits_of_lt_base h
  · next h => exact Nat.toDigits_of_base_le (by decide) (by omega)

theorem isDigit_digitChar : ∀ d < 10, (Nat.digitChar d).isDigit = true := by decide

theorem toNat_digitChar : ∀ d < 10, (Nat.digitChar d).toNat - '0'.toNat = d := by decide

theorem isDigit_of_mem_digits {n : Nat} {c : Char} (h : c ∈ digits n) : c.isDigit = true := by
  induction n using Nat.strongRecOn with
  | ind n ih =>
    rw [digits_eq] at h
    split at h
    · next hn => simp at h; subst h; exact isDigit_digitChar n hn
    · next hn =>
      rcases List.mem_append.mp h with h | h
      · exact ih (n / 10) (by omega) h
      · simp at h; subst h; exact isDigit_digitChar _ (by omega)

/-- Every number has a digit. -/
theorem digits_ne_nil (n : Nat) : digits n ≠ [] := by
  rw [digits_eq]; split <;> simp

/-- The digits of a number stand for it. -/
@[simp] theorem value_digits (n : Nat) : value (digits n) = n := by
  induction n using Nat.strongRecOn with
  | ind n ih =>
    rw [digits_eq]
    split
    · next hn => simpa [value] using toNat_digitChar n hn
    · next hn =>
      have := ih (n / 10) (by omega)
      simp only [value] at this ⊢
      rw [List.foldl_append, this, List.foldl_cons, List.foldl_nil, toNat_digitChar _ (by omega)]
      omega

/-- What is written is read back. -/
theorem read?_digits (n : Nat) : read? (digits n) = some n := by
  have h : (digits n).all Char.isDigit = true :=
    List.all_eq_true.mpr fun _ h => isDigit_of_mem_digits h
  simp [read?, digits_ne_nil, h]

end LayeredConfig.Decimal
