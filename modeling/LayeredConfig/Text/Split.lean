/-!
# LayeredConfig.Text.Split

Cutting a text at every occurrence of a character, and joining the pieces again.  A text with `n`
occurrences has `n + 1` pieces; the pieces hold no occurrence, and joined they are the text again
(`join_split`, `split_join`).
-/

namespace LayeredConfig.Text

/-- The pieces of a text between the occurrences of `sep`; the empty text is one empty piece. -/
def split (sep : Char) : List Char → List (List Char)
  | [] => [[]]
  | c :: cs =>
    if c = sep then [] :: split sep cs
    else
      match split sep cs with
      | piece :: pieces => (c :: piece) :: pieces
      | [] => [[c]]

/-- The piece at a place, counted from zero, found without cutting the rest of the text
(`pieceAt?_eq`). -/
def pieceAt? (sep : Char) : Nat → List Char → Option (List Char)
  | 0, cs => some (cs.takeWhile (· ≠ sep))
  | i + 1, cs =>
    match cs.dropWhile (· ≠ sep) with
    | [] => none
    | _ :: rest => pieceAt? sep i rest

/-- Puts `sep` between the pieces. -/
def join (sep : Char) (pieces : List (List Char)) : List Char :=
  List.intercalate [sep] pieces

/-- Whether `pre` begins the text, and what follows it. -/
def afterPrefix? : List Char → List Char → Option (List Char)
  | [], cs => some cs
  | _ :: _, [] => none
  | p :: ps, c :: cs => if p = c then afterPrefix? ps cs else none

/-- What stands before `suf`, if it ends the text. -/
def beforeSuffix? (suf cs : List Char) : Option (List Char) :=
  (afterPrefix? suf.reverse cs.reverse).map List.reverse

/-! ## Laws -/

theorem split_ne_nil (sep : Char) (cs : List Char) : split sep cs ≠ [] := by
  cases cs with
  | nil => simp [split]
  | cons c cs => unfold split; split <;> (try split) <;> simp

theorem join_singleton (sep : Char) (p : List Char) : join sep [p] = p :=
  List.intercalate_singleton

theorem join_cons_cons (sep : Char) (p q : List Char) (ps : List (List Char)) :
    join sep (p :: q :: ps) = p ++ sep :: join sep (q :: ps) := by
  rw [join, List.intercalate_cons_cons, List.append_assoc, List.singleton_append, join]

/-- Joining the pieces gives the text back. -/
theorem join_split (sep : Char) (cs : List Char) : join sep (split sep cs) = cs := by
  induction cs with
  | nil => simp [split, join]
  | cons c cs ih =>
    unfold split
    split
    · next h =>
      cases hs : split sep cs with
      | nil => exact absurd hs (split_ne_nil sep cs)
      | cons p ps => simp [join, hs, h] at ih ⊢; exact ih
    · next h =>
      split
      · next p ps hs =>
        rw [hs] at ih
        cases ps with
        | nil => simp [join] at ih ⊢; exact ih
        | cons q qs => simp [join] at ih ⊢; exact ih
      · next hs => exact absurd hs (split_ne_nil sep cs)

/-- No piece holds the separator. -/
theorem not_mem_of_mem_split {sep : Char} {cs p : List Char} (h : p ∈ split sep cs) : sep ∉ p := by
  induction cs generalizing p with
  | nil => simp [split] at h; simp [h]
  | cons c cs ih =>
    unfold split at h
    split at h
    · rcases List.mem_cons.mp h with rfl | h
      · simp
      · exact ih h
    · next hc =>
      split at h
      · next q qs hs =>
        rcases List.mem_cons.mp h with rfl | h
        · have := ih (p := q) (by simp [hs])
          simp [this, Ne.symm hc]
        · exact ih (by simp [hs, h])
      · next hs => exact absurd hs (split_ne_nil sep cs)

/-- A text without separators is one piece. -/
theorem split_of_not_mem {sep : Char} {p : List Char} (h : sep ∉ p) : split sep p = [p] := by
  induction p with
  | nil => rfl
  | cons c cs ih =>
    simp only [List.mem_cons, not_or] at h
    simp [split, Ne.symm h.1, ih h.2]

/-- The first piece ends at the first separator. -/
theorem split_append {sep : Char} {p : List Char} (h : sep ∉ p) (cs : List Char) :
    split sep (p ++ sep :: cs) = p :: split sep cs := by
  induction p with
  | nil => simp [split]
  | cons c p ih =>
    simp only [List.mem_cons, not_or] at h
    simp [split, Ne.symm h.1, ih h.2]

/-- Splitting gives back the pieces that were joined, if none holds the separator. -/
theorem split_join {sep : Char} {ps : List (List Char)} (hne : ps ≠ [])
    (h : ∀ p ∈ ps, sep ∉ p) : split sep (join sep ps) = ps := by
  induction ps with
  | nil => exact absurd rfl hne
  | cons p ps ih =>
    cases ps with
    | nil => rw [join_singleton, split_of_not_mem (h p (by simp))]
    | cons q qs =>
      have := ih (by simp) fun r hr => h r (List.mem_cons_of_mem _ hr)
      rw [join_cons_cons, split_append (h p (by simp)), this]

/-- The piece at a place is found without splitting what follows. -/
theorem pieceAt?_eq (sep : Char) (i : Nat) (cs : List Char) :
    pieceAt? sep i cs = (split sep cs)[i]? := by
  induction cs generalizing i with
  | nil => cases i <;> simp [pieceAt?, split]
  | cons c cs ih =>
    by_cases h : c = sep
    · cases i with
      | zero => simp [pieceAt?, split, h]
      | succ i => simp [pieceAt?, split, h, ih]
    · unfold split
      cases hs : split sep cs with
      | nil => exact absurd hs (split_ne_nil sep cs)
      | cons p ps =>
        cases i with
        | zero => simpa [pieceAt?, h, hs] using ih 0
        | succ i => simpa [pieceAt?, h, hs] using ih (i + 1)

theorem afterPrefix?_eq_some_iff {p cs r : List Char} :
    afterPrefix? p cs = some r ↔ cs = p ++ r := by
  induction p generalizing cs with
  | nil => simp [afterPrefix?, eq_comm]
  | cons c p ih =>
    cases cs with
    | nil => simp [afterPrefix?]
    | cons d cs =>
      simp only [afterPrefix?, List.cons_append, List.cons.injEq]
      split
      · next h => simp [ih, h]
      · next h => simp [Ne.symm h]

end LayeredConfig.Text
