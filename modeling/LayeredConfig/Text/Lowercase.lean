import LayeredConfig.Text.CaseTable

/-!
# LayeredConfig.Text.Lowercase

Lower-casing, in the two ways a configuration needs it:

1. `lower` maps one character on its own.  The result is one character, except for the dotted
   capital I (U+0130), which becomes `i` and a combining dot.
2. `lowercase` maps a whole text.  It differs from mapping each character only at a capital
   sigma: one that ends a word becomes `ς`, any other `σ`.

Both leave a character without a small letter as it is.
-/

namespace LayeredConfig.Text

/-! ## One character -/

/-- The small letter of a character that has exactly one, else the character.  As the runs do not
overlap, only the first that does not end before the character can hold it. -/
def lowerOne (c : Char) : Char :=
  match caseRuns.find? (c.toNat ≤ ·.last) with
  | some r => if r.contains c.toNat then Char.ofNat (c.toNat + r.shift).toNat else c
  | none => c

/-- The lower-case form of one character, whatever stands around it. -/
def lower (c : Char) : List Char :=
  if c = '\u0130' then ['i', '\u0307'] else [lowerOne c]

/-- No character vanishes in lower case. -/
theorem lower_ne_nil (c : Char) : lower c ≠ [] := by
  unfold lower; split <;> simp

/-! ## A whole text -/

/-- Whether the first character that is not case-ignorable is a cased one. -/
def meetsCased (cs : List Char) : Bool :=
  match cs.dropWhile caseIgnorableRanges.contains with
  | c :: _ => casedRanges.contains c
  | [] => false

/-- Lower-cases a text whose earlier characters are `before`, the nearest first.  A capital sigma
ends a word when a cased character comes before it and none after it. -/
def lowercaseAfter (before : List Char) : List Char → List Char
  | [] => []
  | c :: rest =>
    (if c = 'Σ' then
      [if meetsCased before && !meetsCased rest then 'ς' else 'σ']
    else lower c) ++ lowercaseAfter (c :: before) rest

def lowercase (s : String) : String :=
  String.ofList (lowercaseAfter [] s.toList)

/-! ## ASCII only -/

/-- Lower-cases the letters `A` to `Z` of a text and leaves all else. -/
def asciiLowercase (s : String) : String := s.map Char.toLower

end LayeredConfig.Text
