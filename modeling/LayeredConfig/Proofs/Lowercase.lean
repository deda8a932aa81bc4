import LayeredConfig.Text.Lowercase

/-!
# LayeredConfig.Proofs.Lowercase

Laws of lower-casing, read off the table of case runs once and for all characters:

1. lower-casing a character a second time changes nothing (`lower_of_mem_lower`);
2. on ASCII it is `Char.toLower` (`lower_of_ascii`);
3. what it newly brings into a text is an ASCII small letter or no ASCII character at all
   (`mem_lower_cases`), so it brings in no punctuation;
4. a text without capital sigmas is lower-cased character by character (`lowercase_eq`).
-/

namespace LayeredConfig.Text

/-! ## The table -/

/-- The small letter of a run's first letter, as a code point. -/
def CaseRun.lowest (r : CaseRun) : Nat := (r.first + r.shift).toNat

/-- The small letter of a run's last letter, as a code point. -/
def CaseRun.highest (r : CaseRun) : Nat := (r.last + r.shift).toNat

/-- The small letters of a run are characters, other than U+0130, and ASCII only if they are ASCII
small letters. -/
def CaseRun.regular (r : CaseRun) : Bool :=
  decide (0 ≤ (r.first : Int) + r.shift) && r.highest.blt 0x110000
    && (r.highest.blt 0xD800 || Nat.blt 0xDFFF r.lowest)
    && (r.highest.blt 0x130 || Nat.blt 0x130 r.lowest)
    && ((Nat.ble 0x61 r.lowest && r.highest.ble 0x7A) || Nat.blt 0x7F r.lowest)

/-- No small letter of `r` is a capital letter of `s`: they lie apart, or capitals and small letters
alternate. -/
def CaseRun.apart (r s : CaseRun) : Bool :=
  r.highest.blt s.first || s.last.blt r.lowest
    || ((r.stride.beq 2 || r.first.beq r.last) && s.stride.beq 2
      && ((r.lowest + s.first) % 2).beq 1)

/-- Every run of the table is well formed. -/
theorem caseRuns_regular : caseRuns.all CaseRun.regular = true := by decide +kernel

/-- Any two runs of the table keep apart. -/
theorem caseRuns_apart : (caseRuns.all fun r => caseRuns.all r.apart) = true := by decide +kernel

/-- A small letter of a run lies between the first and the last of them. -/
theorem CaseRun.shifted_of_contains {r : CaseRun} {n : Nat} (hr : r ∈ caseRuns)
    (h : r.contains n = true) :
    (n + r.shift).toNat = r.lowest + (n - r.first) ∧ r.lowest + (n - r.first) ≤ r.highest
      ∧ (n - r.first) % r.stride = 0 := by
  have hreg := List.all_eq_true.mp caseRuns_regular r hr
  simp only [CaseRun.regular, Bool.and_eq_true, decide_eq_true_eq] at hreg
  simp only [CaseRun.contains, Bool.and_eq_true, decide_eq_true_eq, beq_iff_eq] at h
  have hpos := hreg.1.1.1.1
  simp only [CaseRun.lowest, CaseRun.highest]
  omega

/-- The small letter of a capital letter is no capital letter. -/
theorem not_contains_shifted {r s : CaseRun} {n : Nat} (hr : r ∈ caseRuns) (hs : s ∈ caseRuns)
    (h : r.contains n = true) : s.contains (n + r.shift).toNat = false := by
  obtain ⟨hm, hle, hstep⟩ := CaseRun.shifted_of_contains hr h
  have hapart := List.all_eq_true.mp (List.all_eq_true.mp caseRuns_apart r hr) s hs
  simp only [CaseRun.apart, Bool.or_eq_true, Bool.and_eq_true, Nat.blt_eq, Nat.beq_eq] at hapart
  simp only [CaseRun.contains, Bool.and_eq_true, decide_eq_true_eq, beq_iff_eq] at h
  rw [hm, Bool.eq_false_iff]
  intro hc
  simp only [CaseRun.contains, Bool.and_eq_true, decide_eq_true_eq, beq_iff_eq] at hc
  rcases hapart with (hlt | hgt) | ⟨⟨hr2, hs2⟩, hodd⟩
  · omega
  · omega
  · rw [hs2] at hc
    rcases hr2 with hr2 | hr1
    · rw [hr2] at hstep
      omega
    · omega

/-! ## One character -/

/-- A character with a small letter has a run. -/
theorem lowerOne_cases (c : Char) :
    lowerOne c = c ∨
      ∃ r ∈ caseRuns, r.contains c.toNat = true ∧ (lowerOne c).toNat = (c.toNat + r.shift).toNat := by
  unfold lowerOne
  split
  · next r hfind =>
    split
    · next hc =>
      have hr := List.mem_of_find?_eq_some hfind
      refine .inr ⟨r, hr, hc, ?_⟩
      obtain ⟨hm, hle, -⟩ := CaseRun.shifted_of_contains hr hc
      have hreg := List.all_eq_true.mp caseRuns_regular r hr
      simp only [CaseRun.regular, Bool.and_eq_true, Bool.or_eq_true, Nat.blt_eq] at hreg
      have hvalid : (c.toNat + r.shift).toNat.isValidChar := by
        unfold Nat.isValidChar
        omega
      rw [Char.ofNat, dif_pos hvalid]
      rfl
    · exact .inl rfl
  · exact .inl rfl

/-- A character that is no capital letter of a run is its own small letter. -/
theorem lowerOne_of_not_contains {c : Char} (h : ∀ r ∈ caseRuns, r.contains c.toNat = false) :
    lowerOne c = c := by
  unfold lowerOne
  split
  · next r hfind => simp [h r (List.mem_of_find?_eq_some hfind)]
  · rfl

/-- Lower-casing a character twice is lower-casing it once. -/
theorem lowerOne_lowerOne (c : Char) : lowerOne (lowerOne c) = lowerOne c := by
  rcases lowerOne_cases c with heq | ⟨r, hr, hc, hm⟩
  · rw [heq, heq]
  · apply lowerOne_of_not_contains
    intro s hs
    rw [hm]
    exact not_contains_shifted hr hs hc

/-- A small letter is the character itself, an ASCII small letter, or beyond ASCII; it is never
the dotted capital I. -/
theorem lowerOne_range (c : Char) :
    lowerOne c = c ∨
      ((lowerOne c).isLower = true ∨ 127 < (lowerOne c).toNat) ∧ lowerOne c ≠ '\u0130' := by
  rcases lowerOne_cases c with heq | ⟨r, hr, hc, hm⟩
  · exact .inl heq
  · obtain ⟨hlow, hle, -⟩ := CaseRun.shifted_of_contains hr hc
    have hreg := List.all_eq_true.mp caseRuns_regular r hr
    simp only [CaseRun.regular, Bool.and_eq_true, Bool.or_eq_true, Nat.blt_eq, Nat.ble_eq] at hreg
    refine .inr ⟨?_, ?_⟩
    · rcases hreg.2 with hascii | hbeyond
      · refine .inl ?_
        delta Char.isLower
        simp only [Bool.and_eq_true, decide_eq_true_eq, ge_iff_le, UInt32.le_iff_toNat_le,
          Char.toNat_val]
        have ha : 'a'.toNat = 0x61 := rfl
        have hz : 'z'.toNat = 0x7A := rfl
        omega
      · exact .inr (by omega)
    · intro hdot
      have := congrArg Char.toNat hdot
      rw [hm] at this
      have hd : '\u0130'.toNat = 0x130 := rfl
      omega

/-! ## ASCII letters -/

/-- `Char.toLower` leaves characters beyond ASCII alone. -/
theorem toLower_of_not_ascii {c : Char} (h : ¬ c.toNat < 128) : c.toLower = c := by
  delta Char.toLower
  rw [dif_neg]
  rintro ⟨-, hle⟩
  rw [UInt32.le_iff_toNat_le, Char.toNat_val] at hle
  have hz : 'Z'.val.toNat = 90 := rfl
  omega

/-- `Char.toUpper` leaves characters beyond ASCII alone. -/
theorem toUpper_of_not_ascii {c : Char} (h : ¬ c.toNat < 128) : c.toUpper = c := by
  delta Char.toUpper
  rw [dif_neg]
  rintro ⟨-, hle⟩
  rw [UInt32.le_iff_toNat_le, Char.toNat_val] at hle
  have hz : 'z'.val.toNat = 122 := rfl
  omega

/-- A fact about ASCII characters and their letter case is a matter of 128 cases. -/
theorem forall_ascii {p : Char → Prop} (h : ∀ n < 128, p (Char.ofNat n)) {c : Char}
    (hc : c.toNat < 128) : p c := by
  have := h c.toNat hc
  rwa [Char.ofNat_toNat] at this

/-- What does not tell an ASCII letter from its small letter, tells no characters from theirs. -/
theorem apply_toLower {α : Type} {f : Char → α}
    (h : ∀ n < 128, f (Char.ofNat n).toLower = f (Char.ofNat n)) (c : Char) :
    f c.toLower = f c := by
  by_cases hc : c.toNat < 128
  · exact forall_ascii (p := fun c => f c.toLower = f c) h hc
  · rw [toLower_of_not_ascii hc]

/-- What does not tell an ASCII letter from its capital, tells no characters from theirs. -/
theorem apply_toUpper {α : Type} {f : Char → α}
    (h : ∀ n < 128, f (Char.ofNat n).toUpper = f (Char.ofNat n)) (c : Char) :
    f c.toUpper = f c := by
  by_cases hc : c.toNat < 128
  · exact forall_ascii (p := fun c => f c.toUpper = f c) h hc
  · rw [toUpper_of_not_ascii hc]

/-! ## Laws of `lower` -/

/-- On ASCII, lower-casing is that of ASCII letters. -/
theorem lower_of_ascii {c : Char} (h : c.toNat < 128) : lower c = [c.toLower] :=
  forall_ascii (p := fun c => lower c = [c.toLower]) (by decide +kernel) h

/-- The case of an ASCII letter does not matter to lower-casing. -/
theorem lower_toLower (c : Char) : lower c.toLower = lower c :=
  apply_toLower (f := lower) (by decide +kernel) c

/-- The case of an ASCII letter does not matter to lower-casing. -/
theorem lower_toUpper (c : Char) : lower c.toUpper = lower c :=
  apply_toUpper (f := lower) (by decide +kernel) c

/-- Lower-casing a second time changes nothing. -/
theorem lower_of_mem_lower {c d : Char} (h : d ∈ lower c) : lower d = [d] := by
  unfold lower at h
  split at h
  · simp only [List.mem_cons, List.not_mem_nil, or_false] at h
    rcases h with rfl | rfl <;> decide +kernel
  · next hne =>
    simp only [List.mem_singleton] at h
    subst h
    have hdot : lowerOne c ≠ '\u0130' := by
      rcases lowerOne_range c with heq | hrange
      · rw [heq]
        exact hne
      · exact hrange.2
    rw [lower, if_neg hdot, lowerOne_lowerOne]

/-- A character of a lower-cased text was there before, is an ASCII small letter, or is not
ASCII. -/
theorem mem_lower_cases {c d : Char} (h : d ∈ lower c) :
    d = c ∨ d.isLower = true ∨ 127 < d.toNat := by
  unfold lower at h
  split at h
  · simp only [List.mem_cons, List.not_mem_nil, or_false] at h
    rcases h with rfl | rfl
    · exact .inr (.inl (by decide))
    · exact .inr (.inr (by decide))
  · simp only [List.mem_singleton] at h
    subst h
    rcases lowerOne_range c with heq | hrange
    · exact .inl heq
    · exact .inr hrange.1

/-- Lower-casing brings in no character that is ASCII and no small letter. -/
theorem eq_of_mem_lower {c d : Char} (h : d ∈ lower c) (hletter : d.isLower = false)
    (hascii : d.toNat < 128) : d = c := by
  rcases mem_lower_cases h with heq | hlow | hbeyond
  · exact heq
  · rw [hletter] at hlow
    contradiction
  · omega

/-- A lower-cased text has no ASCII capital letters. -/
theorem toLower_of_mem_lower {c d : Char} (h : d ∈ lower c) : d.toLower = d := by
  by_cases hascii : d.toNat < 128
  · have hd := lower_of_mem_lower h
    rw [lower_of_ascii hascii] at hd
    exact List.singleton_inj.mp hd
  · exact toLower_of_not_ascii hascii

/-- A text of small letters is lower-cased already. -/
theorem flatMap_lower_of_fixed {cs : List Char} (h : ∀ c ∈ cs, lower c = [c]) :
    cs.flatMap lower = cs := by
  induction cs with
  | nil => rfl
  | cons c cs ih =>
      rw [List.flatMap_cons, h c List.mem_cons_self,
        ih fun d hd => h d (List.mem_cons_of_mem c hd), List.singleton_append]

/-! ## Whole texts -/

/-- Without capital sigmas, what stands around a character does not matter. -/
theorem lowercaseAfter_eq {before cs : List Char} (h : 'Σ' ∉ cs) :
    lowercaseAfter before cs = cs.flatMap lower := by
  induction cs generalizing before with
  | nil => rfl
  | cons c cs ih =>
      simp only [List.mem_cons, not_or] at h
      rw [lowercaseAfter, if_neg (Ne.symm h.1), ih h.2, List.flatMap_cons]

/-- Without capital sigmas, a text is lower-cased character by character. -/
theorem lowercase_eq {cs : List Char} (h : 'Σ' ∉ cs) :
    lowercase (String.ofList cs) = String.ofList (cs.flatMap lower) := by
  rw [lowercase, String.toList_ofList, lowercaseAfter_eq h]

end LayeredConfig.Text
