/-!
# LayeredConfig.Text.Ranges

Sets of characters given by intervals of code points, the form in which character properties are
tabulated.
-/

namespace LayeredConfig.Text

/-- A set of code points: closed intervals in ascending order. -/
abbrev Ranges := List (Nat × Nat)

/-- Whether a character lies in one of the intervals. -/
def Ranges.contains (r : Ranges) (c : Char) : Bool :=
  r.any fun (lo, hi) => lo ≤ c.toNat && c.toNat ≤ hi

end LayeredConfig.Text
