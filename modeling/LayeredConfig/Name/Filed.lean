import LayeredConfig.Name.Basic

/-!
# LayeredConfig.Name.Filed

Things filed under names, spelling apart.

1. Names that are the same up to spelling have the same uniform text, so a thing keeps that text
   and is found by it.
2. A name is filed once: what is filed under it again is joined to what is there, and stays in its
   place.

What is filed anew is found under its name (`find?_place_self`), and other names are left alone
(`find?_place_of_ne`).
-/

namespace LayeredConfig

/-- A thing under a name. -/
structure Filed (α : Type) where
  name : Name
  uniform : String
  uniform_eq : uniform = name.uniform
  item : α

namespace Filed

variable {α : Type}

/-- A thing under a name. -/
def under (n : Name) (a : α) : Filed α := ⟨n, n.uniform, rfl, a⟩

/-- Files a thing at the end, or joins it to what is filed under its name. -/
def place (join : Filed α → Filed α → Filed α) (new : Filed α) : List (Filed α) → List (Filed α)
  | [] => [new]
  | f :: fs => if f.uniform = new.uniform then join f new :: fs else f :: place join new fs

/-- What is filed under a name. -/
def find? (n : Name) (fs : List (Filed α)) : Option α :=
  let uniform := n.uniform
  (fs.find? (·.uniform == uniform)).map (·.item)

/-! ## Laws -/

/-- What is filed anew under a name is found there. -/
theorem find?_place_self (new : Filed α) (fs : List (Filed α)) :
    find? new.name (place (fun _ new => new) new fs) = some new.item := by
  induction fs with
  | nil => simp [place, find?, new.uniform_eq]
  | cons f fs ih =>
    unfold place
    split
    · simp [find?, new.uniform_eq]
    · next other =>
      have passed : (f.uniform == new.name.uniform) = false := by
        simpa [new.uniform_eq] using other
      simpa [find?, List.find?_cons, passed] using ih

/-- Other names keep what is filed under them. -/
theorem find?_place_of_ne {join : Filed α → Filed α → Filed α} {new : Filed α} {n : Name}
    (other : new.uniform ≠ n.uniform)
    (kept : ∀ f, f.uniform = new.uniform → (join f new).uniform = f.uniform)
    (fs : List (Filed α)) : find? n (place join new fs) = find? n fs := by
  have passed : (new.uniform == n.uniform) = false := by simpa using other
  induction fs with
  | nil => simp [place, find?, passed]
  | cons f fs ih =>
    unfold place
    split
    · next same => simp [find?, kept f same, same, passed]
    · simp only [find?, List.find?_cons] at ih ⊢
      split <;> simp_all

end Filed

end LayeredConfig
