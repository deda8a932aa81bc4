import LayeredConfig.Metadata.TypeText
import LayeredConfig.Proofs.Reading
import Mathlib.Data.List.TakeWhile

/-!
# LayeredConfig.Proofs.MapTypes

The value type of a map type, read off the text of its declaration:

```
Type = Identifier | Identifier '<' [Type (',' Type)*] '>'
```

1. Blanks may stand anywhere in a text, and the compact text is without them
   (`Text.interspersed_iff`).
2. The depth of brackets is the same before and after a type, however deep it is, and no comma in
   it is found (`TypeExpr.afterComma?_chars`).  Inside of brackets this holds of arguments too.
3. So the comma that is found is the one behind the first argument, and the value type of a map is
   what follows it (`TypeExpr.mapValue?_of_writtenAs`).
-/

namespace LayeredConfig

/-! ## Blanks anywhere -/

namespace Text

/-- The second text is the first with blanks put in anywhere. -/
inductive Interspersed : List Char → List Char → Prop where
  | nil : Interspersed [] []
  | keep (c : Char) {cs text : List Char} (rest : Interspersed cs text) :
      Interspersed (c :: cs) (c :: text)
  | blank {b : Char} (h : isBlank b = true) {cs text : List Char} (rest : Interspersed cs text) :
      Interspersed cs (b :: text)

/-- Every text is what remains of it without blanks, with blanks put in. -/
theorem interspersed_squeeze (text : List Char) : Interspersed (squeeze text) text := by
  induction text with
  | nil => exact .nil
  | cons c text ih =>
      cases hc : isBlank c with
      | true => simpa [squeeze, hc] using Interspersed.blank hc ih
      | false => simpa [squeeze, hc] using Interspersed.keep c ih

/-- Leaving the blanks out gives back a text that has none itself. -/
theorem interspersed_iff {cs text : List Char} (solid : ∀ c ∈ cs, isBlank c = false) :
    Interspersed cs text ↔ squeeze text = cs := by
  constructor
  · intro h
    induction h with
    | nil => rfl
    | keep c rest ih =>
        rw [List.forall_mem_cons] at solid
        rw [squeeze, List.filter_cons_of_pos (by simp [solid.1])]
        exact congrArg (c :: ·) (ih solid.2)
    | blank hb rest ih =>
        rw [squeeze, List.filter_cons_of_neg (by simp [hb])]
        exact ih solid
  · rintro rfl
    exact interspersed_squeeze text

end Text

/-! ## Types -/

/-- The name of a type, qualified or not. -/
structure Identifier where
  chars : List Char
  solid : ∀ c ∈ chars, Text.isBlank c = false
  plain : ∀ c ∈ chars, c ≠ '<' ∧ c ≠ '>' ∧ c ≠ ','

/-- The name with a given text. -/
def Identifier.ofText (text : String) (solid : text.toList.all (!Text.isBlank ·) = true)
    (plain : text.toList.all (fun c => c != '<' && c != '>' && c != ',') = true) : Identifier where
  chars := text.toList
  solid c hc := by simpa using List.all_eq_true.mp solid c hc
  plain c hc := by simpa [and_assoc] using List.all_eq_true.mp plain c hc

/-- A type: a name, or a name applied to types. -/
inductive TypeExpr where
  | named (i : Identifier)
  | applied (head : Identifier) (arguments : List TypeExpr)

namespace TypeExpr

mutual

/-- The compact text of a type. -/
def chars : TypeExpr → List Char
  | .named i => i.chars
  | .applied head arguments => head.chars ++ '<' :: (argumentChars arguments ++ ['>'])

/-- The compact texts of arguments, with commas between them. -/
def argumentChars : List TypeExpr → List Char
  | [] => []
  | [t] => t.chars
  | t :: u :: ts => t.chars ++ ',' :: argumentChars (u :: ts)

end

/-- A text of a type, with blanks anywhere. -/
def WrittenAs (t : TypeExpr) (text : String) : Prop := Text.Interspersed t.chars text.toList

mutual

theorem solid_chars : ∀ (t : TypeExpr), ∀ c ∈ t.chars, Text.isBlank c = false
  | .named i, c, hc => i.solid c hc
  | .applied head arguments, c, hc => by
      rw [chars, List.mem_append, List.mem_cons, List.mem_append, List.mem_singleton] at hc
      rcases hc with hc | rfl | hc | rfl
      · exact head.solid c hc
      · decide
      · exact solid_argumentChars arguments c hc
      · decide

theorem solid_argumentChars :
    ∀ (ts : List TypeExpr), ∀ c ∈ argumentChars ts, Text.isBlank c = false
  | [], c, hc => by simp [argumentChars] at hc
  | [t], c, hc => solid_chars t c hc
  | t :: u :: ts, c, hc => by
      rw [argumentChars, List.mem_append, List.mem_cons] at hc
      rcases hc with hc | rfl | hc
      · exact solid_chars t c hc
      · decide
      · exact solid_argumentChars (u :: ts) c hc

end

end TypeExpr

/-! ## Names of maps -/

/-- The part of a qualified name behind its last `.` or `:`. -/
structure LastPart (part qualified : List Char) : Prop where
  unqualified : ∀ c ∈ part, c ≠ '.' ∧ c ≠ ':'
  behind : ∃ before, qualified = before ++ part ∧ ∀ c ∈ before.getLast?, c = '.' ∨ c = ':'

namespace TypeText

variable {part qualified : List Char}

/-- The simple name is the last part of a qualified one. -/
theorem lastPart_simpleName (qualified : List Char) :
    LastPart (simpleName qualified) qualified where
  unqualified c hc := by simpa using List.mem_takeWhile_imp (List.mem_reverse.mp hc)
  behind := by
    refine ⟨(qualified.reverse.dropWhile fun c => c ≠ '.' ∧ c ≠ ':').reverse, ?_, fun c hc => ?_⟩
    · rw [simpleName, ← List.reverse_append, List.takeWhile_append_dropWhile,
        List.reverse_reverse]
    · rw [List.getLast?_reverse, Option.mem_def] at hc
      have hhead := List.head?_dropWhile_not (fun c => c ≠ '.' ∧ c ≠ ':') qualified.reverse
      rw [hc] at hhead
      simpa [Decidable.or_iff_not_not_and_not] using hhead

/-- **The simple name is the last part.** -/
theorem simpleName_eq_iff : simpleName qualified = part ↔ LastPart part qualified := by
  constructor
  · rintro rfl
    exact lastPart_simpleName qualified
  · rintro ⟨hpart, before, rfl, hbefore⟩
    have hrun : ∀ c ∈ part.reverse, decide (c ≠ '.' ∧ c ≠ ':') = true :=
      fun c hc => decide_eq_true (hpart c (List.mem_reverse.mp hc))
    have hend : ∀ c ∈ before.reverse.head?, decide (c ≠ '.' ∧ c ≠ ':') = false := by
      intro c hc
      rw [List.head?_reverse] at hc
      rcases hbefore c hc with rfl | rfl <;> decide
    rw [simpleName, List.reverse_append, (Name.takeWhile_append_of_ends hrun hend).1,
      List.reverse_reverse]

end TypeText

/-- The last part of the name ends in `Map`. -/
def Identifier.NamesMap (i : Identifier) : Prop :=
  ∃ part, LastPart part i.chars ∧ "Map".toList <:+ part

/-- An identifier names a map if its simple name ends in `Map`. -/
theorem Identifier.namesMap_iff {i : Identifier} :
    i.NamesMap ↔ "Map".toList.isSuffixOf (TypeText.simpleName i.chars) = true := by
  rw [List.isSuffixOf_iff_suffix, NamesMap]
  constructor
  · rintro ⟨part, hpart, hmap⟩
    rwa [TypeText.simpleName_eq_iff.mpr hpart]
  · intro hmap
    exact ⟨_, TypeText.simpleName_eq_iff.mp rfl, hmap⟩

instance (i : Identifier) : Decidable i.NamesMap := decidable_of_iff _ Identifier.namesMap_iff.symm

/-! ## The first comma outside of all brackets -/

namespace TypeText

/-- An opening bracket goes one level down. -/
theorem afterComma?_open (depth : Nat) (rest : List Char) :
    afterComma? depth ('<' :: rest) = afterComma? (depth + 1) rest := by
  simp [afterComma?]

/-- A closing bracket goes one level up. -/
theorem afterComma?_close (depth : Nat) (rest : List Char) :
    afterComma? (depth + 1) ('>' :: rest) = afterComma? depth rest := by
  simp [afterComma?]

/-- A comma outside of all brackets ends the search. -/
theorem afterComma?_comma_outside (rest : List Char) :
    afterComma? 0 (',' :: rest) = some rest := by
  simp [afterComma?]

/-- A comma within brackets is passed over. -/
theorem afterComma?_comma_inside (depth : Nat) (rest : List Char) :
    afterComma? (depth + 1) (',' :: rest) = afterComma? (depth + 1) rest := by
  simp [afterComma?]

/-- The search passes over what holds neither brackets nor commas. -/
theorem afterComma?_plain {cs : List Char} (h : ∀ c ∈ cs, c ≠ '<' ∧ c ≠ '>' ∧ c ≠ ',')
    (depth : Nat) (rest : List Char) : afterComma? depth (cs ++ rest) = afterComma? depth rest := by
  induction cs with
  | nil => rfl
  | cons c cs ih =>
      obtain ⟨⟨hopen, hclose, hcomma⟩, hcs⟩ := List.forall_mem_cons.mp h
      rw [List.cons_append, afterComma?, if_neg hopen, if_neg hclose, if_neg fun h => hcomma h.1,
        ih hcs]

end TypeText

namespace TypeExpr

open TypeText

mutual

/-- **The search passes over a whole type,** and is as deep behind it as before. -/
theorem afterComma?_chars : ∀ (t : TypeExpr) (depth : Nat) (rest : List Char),
    afterComma? depth (t.chars ++ rest) = afterComma? depth rest
  | .named i, depth, rest => afterComma?_plain i.plain depth rest
  | .applied head arguments, depth, rest => by
      -- Between the brackets the depth is not zero, whatever it is outside of them.
      rw [chars, List.append_assoc, afterComma?_plain head.plain, List.cons_append, afterComma?_open,
        List.append_assoc, afterComma?_argumentChars, List.singleton_append, afterComma?_close]

/-- Inside of brackets, the search passes over arguments and their commas. -/
theorem afterComma?_argumentChars : ∀ (ts : List TypeExpr) (depth : Nat) (rest : List Char),
    afterComma? (depth + 1) (argumentChars ts ++ rest) = afterComma? (depth + 1) rest
  | [], _, _ => rfl
  | [t], depth, rest => afterComma?_chars t (depth + 1) rest
  | t :: u :: ts, depth, rest => by
      rw [argumentChars, List.append_assoc, afterComma?_chars, List.cons_append,
        afterComma?_comma_inside, afterComma?_argumentChars]

end

/-- The comma outside of all brackets is the one behind the first argument. -/
theorem afterComma?_arguments (key value : TypeExpr) (more : List TypeExpr) :
    afterComma? 0 (argumentChars (key :: value :: more)) = some (argumentChars (value :: more)) := by
  rw [argumentChars, afterComma?_chars, afterComma?_comma_outside]

/-- A single argument has no comma outside of all brackets. -/
theorem afterComma?_argument (t : TypeExpr) : afterComma? 0 (argumentChars [t]) = none := by
  rw [argumentChars, ← List.append_nil t.chars, afterComma?_chars, afterComma?]

/-! ## Value types -/

/-- The value type of a map: all of its arguments but the first, without blanks. -/
def mapValue? : TypeExpr → Option (List Char)
  | .applied head (_ :: value :: more) =>
    if head.NamesMap then some (argumentChars (value :: more)) else none
  | _ => none

/-- A type without arguments is not a map. -/
theorem mapValue?_named (i : Identifier) : TypeText.mapValue? i.chars = none := by
  have hend : i.chars.dropWhile (· ≠ '<') = [] :=
    List.dropWhile_eq_nil_iff.mpr fun c hc => by simp [(i.plain c hc).1]
  simp only [TypeText.mapValue?, hend]

/-- Of a map, what follows the first comma between the arguments is the type of the values. -/
theorem mapValue?_applied (head : Identifier) (arguments : List TypeExpr) :
    TypeText.mapValue? (applied head arguments).chars =
      if head.NamesMap then afterComma? 0 (argumentChars arguments) else none := by
  obtain ⟨htake, hdrop⟩ :
      (head.chars ++ '<' :: (argumentChars arguments ++ ['>'])).takeWhile (· ≠ '<') = head.chars ∧
        (head.chars ++ '<' :: (argumentChars arguments ++ ['>'])).dropWhile (· ≠ '<') =
          '<' :: (argumentChars arguments ++ ['>']) :=
    Name.takeWhile_append_of_ends (fun c hc => by simp [(head.plain c hc).1]) (by simp)
  rw [chars, TypeText.mapValue?, htake, hdrop]
  simp [Identifier.namesMap_iff]

/-- **What is read off a written type is the value type of the type.** -/
theorem mapValue?_of_writtenAs {t : TypeExpr} {text : String} (h : t.WrittenAs text) :
    TypeText.mapValue? (TypeText.compact text) = t.mapValue? := by
  rw [TypeText.compact, (Text.interspersed_iff t.solid_chars).mp h]
  match t with
  | .named i => exact mapValue?_named i
  | .applied head [] => simp [mapValue?_applied, mapValue?, argumentChars, afterComma?]
  | .applied head [argument] => simp [mapValue?_applied, mapValue?, afterComma?_argument]
  | .applied head (key :: value :: more) =>
      rw [mapValue?_applied, mapValue?, afterComma?_arguments]

end TypeExpr

/-! ## Declared texts -/

namespace TypeText

open TypeExpr (argumentChars)

/-- **The value type of a map is read off any text of it,** whatever its key and its value are and
wherever blanks stand.  Nothing is read off a name, off a type with one argument and off a type that is
no map; off a map with further arguments, all that follows the first. -/
theorem written_mapValue (text : String) :
    (∀ (head : Identifier) (key value : TypeExpr), head.NamesMap →
      (TypeExpr.applied head [key, value]).WrittenAs text →
        mapValue? (compact text) = some value.chars) ∧
    (∀ i : Identifier, (TypeExpr.named i).WrittenAs text → mapValue? (compact text) = none) ∧
    (∀ (head : Identifier) (argument : TypeExpr),
      (TypeExpr.applied head [argument]).WrittenAs text → mapValue? (compact text) = none) ∧
    (∀ (head : Identifier) (arguments : List TypeExpr), ¬ head.NamesMap →
      (TypeExpr.applied head arguments).WrittenAs text → mapValue? (compact text) = none) ∧
    ∀ (head : Identifier) (key value : TypeExpr) (more : List TypeExpr), head.NamesMap →
      (TypeExpr.applied head (key :: value :: more)).WrittenAs text →
        mapValue? (compact text) = some (argumentChars (value :: more)) := by
  refine ⟨?_, ?_, ?_, ?_, ?_⟩
  · intro head key value hmap h
    rw [TypeExpr.mapValue?_of_writtenAs h, TypeExpr.mapValue?, if_pos hmap, argumentChars]
  · intro i h
    rw [TypeExpr.mapValue?_of_writtenAs h]
    rfl
  · intro head argument h
    rw [TypeExpr.mapValue?_of_writtenAs h]
    rfl
  · intro head arguments hmap h
    rw [TypeExpr.mapValue?_of_writtenAs h]
    match arguments with
    | [] | [_] | _ :: _ :: _ => simp [TypeExpr.mapValue?, hmap]
  · intro head key value more hmap h
    rw [TypeExpr.mapValue?_of_writtenAs h, TypeExpr.mapValue?, if_pos hmap]

/-- The name `std::HashMap`. -/
def hashMap : Identifier := .ofText "std::HashMap" (by decide) (by decide)

/-- The type `Pair<u8,u8>`. -/
def pairType : TypeExpr :=
  .applied (.ofText "Pair" (by decide) (by decide))
    [.named (.ofText "u8" (by decide) (by decide)), .named (.ofText "u8" (by decide) (by decide))]

/-- The type `Vec<Pair<u8,u8>>`. -/
def pairsType : TypeExpr := .applied (.ofText "Vec" (by decide) (by decide)) [pairType]

/-- A map whose commas are inside of brackets but for one, with a blank inside of its name; and its
value, which is no map. -/
theorem written_mapValue_hashMap :
    (hashMap.NamesMap ∧
      (TypeExpr.applied hashMap [pairType, pairsType]).WrittenAs
        "std::Hash Map <Pair<u8,\tu8 >, Vec< Pair<u8,u8>>\u00A0>" ∧
      mapValue? (compact "std::Hash Map <Pair<u8,\tu8 >, Vec< Pair<u8,u8>>\u00A0>") =
        some "Vec<Pair<u8,u8>>".toList) ∧
    pairsType.WrittenAs "Vec< Pair<u8,u8>>" ∧ mapValue? (compact "Vec< Pair<u8,u8>>") = none := by
  have hmap : hashMap.NamesMap := by decide
  have hwritten : (TypeExpr.applied hashMap [pairType, pairsType]).WrittenAs
      "std::Hash Map <Pair<u8,\tu8 >, Vec< Pair<u8,u8>>\u00A0>" :=
    (Text.interspersed_iff (TypeExpr.solid_chars _)).mpr (by decide +kernel)
  have hpairs : pairsType.WrittenAs "Vec< Pair<u8,u8>>" :=
    (Text.interspersed_iff (TypeExpr.solid_chars _)).mpr (by decide +kernel)
  exact ⟨⟨hmap, hwritten, (written_mapValue _).1 hashMap pairType pairsType hmap hwritten⟩, hpairs,
    (written_mapValue _).2.2.1 _ _ hpairs⟩

end TypeText

end LayeredConfig
