import LayeredConfig.Proofs.Grammar
import LayeredConfig.Proofs.Ancestry

/-!
# LayeredConfig.Proofs.Appending

Appending a written suffix, and parsing the two texts put together.

1. Behind an element stands the end of the text, a dot with a literal, or a bracket
   (`Name.readRest`).  A text that is read and then goes on is read in the same way up to there
   (`Name.readElements_append`).
2. So `n.append suffix` is what the text of `n` and the suffix together are parsed as, with a dot
   between them where the suffix brings none (`Name.append_agrees_with_parse`).
3. The one exception is a suffix that begins with `.[`.  Its dot is dropped before it is parsed, and
   the bracket is then at the front, where it may stand; behind a dot it may not.
-/

namespace LayeredConfig

variable {afterDot : Bool} {cs tail : List Char} {es : List Element}

/-! ## Where reading goes on -/

namespace Grammar.Resumes

variable {text : List Char} (h : Resumes text afterDot cs)
include h

/-- What resumes a text resumes it with more text behind both. -/
theorem append (tail : List Char) : Resumes (text ++ tail) afterDot (cs ++ tail) := by
  cases h with
  | dot => exact .dot _
  | bracket => exact .bracket _

theorem follows : Name.Follows text := by
  cases h <;> simp [Name.Follows, isReserved]

end Grammar.Resumes

namespace Name

open Grammar

/-- Reads what stands behind an element. -/
def readRest : List Char → Except Flaw (List Element)
  | [] => .ok []
  | '.' :: [] => .error .trailingDot
  | '.' :: c :: more => readElements true (c :: more)
  | '[' :: more => readElements false ('[' :: more)
  | ']' :: _ => .error .unopened
  | _ :: _ => .error .textAfterIndex

/-- Behind an element the parser goes on with what resumes the text. -/
theorem readRest_of_resumes {text : List Char} (h : Resumes text afterDot cs) (hcs : cs ≠ []) :
    readRest text = readElements afterDot cs := by
  cases h with
  | dot =>
      obtain ⟨c, more, rfl⟩ := List.exists_cons_of_ne_nil hcs
      rfl
  | bracket => rfl

/-- An element is read, and then what stands behind it. -/
theorem readElements_eq_readRest {e : Element} {r : Rest cs}
    (h : readElement afterDot cs = .ok (e, r)) :
    readElements afterDot cs = (readRest r.val).map (e :: ·) := by
  obtain ⟨rest, hr⟩ := r
  rw [readElements, h]
  dsimp only
  split <;> simp_all [readRest, Except.map]

/-- There is nothing to read in an empty text. -/
theorem ne_nil_of_readElements (h : readElements afterDot cs = .ok es) : cs ≠ [] := by
  rintro rfl
  simp [readElements, readElement] at h

/-! ## Texts that go on -/

/-- An element that was read is read again when the text goes on behind what is left of it. -/
theorem readElement_append {e : Element} {r : Rest cs} (h : readElement afterDot cs = .ok (e, r))
    (htail : Follows (r.val ++ tail)) :
    ∃ r' : Rest (cs ++ tail),
      readElement afterDot (cs ++ tail) = .ok (e, r') ∧ r'.val = r.val ++ tail := by
  rcases readElement_sound h with ⟨l, rfl, hcs⟩ | ⟨ds, i, rfl, hindex, hvalue, rfl, hcs⟩
  · have happend : cs ++ tail = l.text.toList ++ (r.val ++ tail) := by
      rw [← List.append_assoc, ← hcs]
    rw [happend]
    exact readElement_literal l afterDot htail
  · have happend : cs ++ tail = '[' :: (ds ++ ']' :: (r.val ++ tail)) := by
      conv_lhs => rw [hcs]
      simp
    rw [happend]
    exact readElement_bracketed (readIndex_eq_ok_iff.mpr ⟨hindex, hvalue⟩) hindex.ne_bracket _

/-- **A text that is read and then goes on is read in the same way up to there**, and after it the
tail.  The induction is on the elements: each ends where it did, since what follows it is as before,
or the tail. -/
theorem readElements_append {afterDot : Bool} {cs : List Char} {es : List Element}
    (h : readElements afterDot cs = .ok es) (htail : Follows tail) :
    readElements afterDot (cs ++ tail) = (readRest tail).map (es ++ ·) := by
  obtain ⟨e, r, hread, hend | ⟨next, more, rest, hresumes, hmore, rfl⟩⟩ := readElements_cases h
  · obtain ⟨hr, rfl⟩ := hend
    have hfollows : Follows (r.val ++ tail) := by rwa [hr]
    obtain ⟨r', hread', hr'⟩ := readElement_append hread hfollows
    rw [readElements_eq_readRest hread', hr', hr]
    rfl
  · have hresumes' := hresumes.append tail
    have hne : more ++ tail ≠ [] :=
      List.append_ne_nil_of_left_ne_nil (ne_nil_of_readElements hmore) tail
    have hshorter : more.length < cs.length := Nat.lt_of_le_of_lt hresumes.length_le r.property
    obtain ⟨r', hread', hr'⟩ := readElement_append hread hresumes'.follows
    rw [readElements_eq_readRest hread', hr', readRest_of_resumes hresumes' hne,
      readElements_append hmore htail]
    cases readRest tail <;> rfl
termination_by cs.length

/-- Behind a dot a literal is read as it is at the front of a text. -/
theorem readElements_afterDot (hcs : ∀ more, cs ≠ '[' :: more) :
    readElements true cs = readElements false cs := by
  have hfirst : readElement true cs = readElement false cs := by
    unfold readElement
    split
    · rfl
    · exact absurd rfl (hcs _)
    · rfl
  unfold readElements
  rw [hfirst]

/-- Behind a dot no bracket may open. -/
theorem readElements_bracketAfterDot (more : List Char) :
    readElements true ('[' :: more) = .error .bracketAfterDot := by
  rw [readElements, readElement, if_pos rfl]

/-! ## Suffixes -/

/-- What stands between a name and a suffix when they are written together. -/
def separator (suffix : String) : String :=
  match suffix.toList with
  | '.' :: _ | '[' :: _ => ""
  | _ => "."

/-- A suffix without the dot at its front. -/
def undotted (suffix : String) : String :=
  match suffix.toList with
  | '.' :: cs => String.ofList cs
  | _ => suffix

/-- A suffix begins with a dot, with a bracket, or with neither. -/
theorem suffix_cases (suffix : String) :
    (∃ cs, suffix.toList = '.' :: cs ∧ separator suffix = "" ∧ (undotted suffix).toList = cs) ∨
      (∃ cs, suffix.toList = '[' :: cs ∧ separator suffix = "" ∧ undotted suffix = suffix) ∨
      ((∀ cs, suffix.toList ≠ '[' :: cs) ∧ separator suffix = "." ∧ undotted suffix = suffix) := by
  rw [separator, undotted]
  rcases suffix.toList with _ | ⟨c, cs⟩
  · simp
  · by_cases hdot : c = '.'
    · simp [hdot]
    · by_cases hbracket : c = '[' <;> simp [hdot, hbracket]

/-- An appended suffix is read by itself, without a dot at its front. -/
theorem append_eq (n : Name) (suffix : String) :
    n.append suffix = (parse (undotted suffix)).map (n.appendElements ·.elements) := by
  rw [append, undotted]
  cases parse _ <;> rfl

/-- A suffix that is appended is a name, and its elements are put at the end. -/
theorem append_eq_ok_iff {n m : Name} {suffix : String} :
    n.append suffix = .ok m ↔
      ∃ more, parse (undotted suffix) = .ok more ∧ n.appendElements more.elements = m := by
  rw [append_eq]
  cases parse (undotted suffix) <;> simp [Except.map]

/-- A suffix goes on after a name, and opens a bracket behind a dot only if it has both. -/
theorem resumes_suffix (suffix : String) :
    ∃ afterDot, Resumes (separator suffix ++ suffix).toList afterDot (undotted suffix).toList ∧
      ((∀ more, suffix.toList ≠ '.' :: '[' :: more) → afterDot = true →
        ∀ more, (undotted suffix).toList ≠ '[' :: more) := by
  rw [String.toList_append]
  rcases suffix_cases suffix with ⟨cs, hdot, hsep, hcs⟩ | ⟨cs, hbracket, hsep, hcs⟩ | ⟨h, hsep, hcs⟩
  · rw [hsep, hdot, hcs]
    exact ⟨true, .dot cs, fun hsuffix _ more heq => hsuffix more (by rw [heq])⟩
  · rw [hsep, hcs, hbracket]
    exact ⟨false, .bracket cs, fun _ hdot => nomatch hdot⟩
  · rw [hsep, hcs]
    exact ⟨true, .dot suffix.toList, fun _ _ => h⟩

/-- What goes on after a name is read as the suffix is on its own. -/
theorem readRest_suffix {suffix : String} (hsuffix : ∀ more, suffix.toList ≠ '.' :: '[' :: more) :
    readRest (separator suffix ++ suffix).toList = .ok es ↔
      readElements false (undotted suffix).toList = .ok es := by
  obtain ⟨afterDot, hresumes, hbracket⟩ := resumes_suffix suffix
  by_cases hnil : (undotted suffix).toList = []
  · rw [hnil] at hresumes
    have hright : readElements false (undotted suffix).toList ≠ .ok es :=
      fun h => ne_nil_of_readElements h hnil
    generalize (separator suffix ++ suffix).toList = text at hresumes
    cases hresumes
    exact iff_of_false (fun h => nomatch h) hright
  · rw [readRest_of_resumes hresumes hnil]
    cases afterDot with
    | false => rfl
    | true => rw [readElements_afterDot (hbracket hsuffix rfl)]

/-- A text is refused for the flaw that is met in it. -/
theorem parse_of_readElements_error {text : String} {flaw : Flaw} (hne : text ≠ "")
    (h : readElements false text.toList = .error flaw) : parse text = .error ⟨text, flaw⟩ := by
  rw [parse, if_neg hne]
  split <;> simp_all

/-- A name and a suffix written together are read as the name, and then what goes on after it. -/
theorem readElements_written_suffix {text : String} {n : Name} (h : parse text = .ok n)
    (suffix : String) :
    readElements false (text ++ separator suffix ++ suffix).toList =
      (readRest (separator suffix ++ suffix).toList).map (n.elements ++ ·) := by
  obtain ⟨_, hresumes, -⟩ := resumes_suffix suffix
  rw [String.append_assoc, String.toList_append]
  exact readElements_append (parse_eq_ok_iff.mp h).2 hresumes.follows

theorem written_suffix_ne_empty {text : String} {n : Name} (h : parse text = .ok n)
    (suffix : String) : text ++ separator suffix ++ suffix ≠ "" := by
  have htext := (parse_eq_ok_iff.mp h).1
  simp [htext]

/-- What is appended to a name makes it longer, below the name. -/
theorem appendElements_spec (n more : Name) :
    ∃ k, 0 < k ∧ (n.appendElements more.elements).length = n.length + k ∧
      n.isAncestorOf (n.appendElements more.elements) = true ∧
      (n.appendElements more.elements).chop? k = some n := by
  have hmore := List.length_pos_iff.mpr more.elements_ne_nil
  have hn := List.length_pos_iff.mpr n.elements_ne_nil
  have hlength : (n.elements ++ more.elements).length = n.elements.length + more.elements.length :=
    List.length_append
  refine ⟨more.elements.length, hmore, hlength, isAncestorOf_iff.mpr ⟨more.forms, ?_, ?_⟩, ?_⟩
  · simpa [forms] using more.elements_ne_nil
  · simp [forms, appendElements]
  · have hshorter : more.elements.length < (n.appendElements more.elements).elements.length := by
      rw [appendElements, hlength]
      omega
    rw [chop?, dif_pos hshorter]
    simp [appendElements]

variable {text suffix : String} {n m : Name}

/-- What is parsed of a name and a suffix written together begins with the elements of the name. -/
theorem parse_written_suffix_iff (h : parse text = .ok n)
    (hsuffix : ∀ more, suffix.toList ≠ '.' :: '[' :: more) :
    parse (text ++ separator suffix ++ suffix) = .ok m ↔
      ∃ more, parse (undotted suffix) = .ok more ∧ n.appendElements more.elements = m := by
  rw [parse_eq_ok_iff, readElements_written_suffix h]
  constructor
  · rintro ⟨-, hread⟩
    cases hrest : readRest (separator suffix ++ suffix).toList with
    | error flaw =>
        rw [hrest] at hread
        contradiction
    | ok es =>
        rw [hrest] at hread
        have hes := (readRest_suffix hsuffix).mp hrest
        have hne : undotted suffix ≠ "" := fun hempty =>
          ne_nil_of_readElements hes (by rw [hempty]; rfl)
        refine ⟨_, parse_of_readElements hne hes, ?_⟩
        obtain ⟨_, _⟩ := m
        cases hread
        rfl
  · rintro ⟨more, hmore, rfl⟩
    have hread := (readRest_suffix hsuffix).mpr (parse_eq_ok_iff.mp hmore).2
    exact ⟨written_suffix_ne_empty h suffix, by rw [hread]; rfl⟩

/-- A bracket behind the dot of a suffix is refused. -/
theorem parse_written_suffix_of_bracket {more : List Char} (h : parse text = .ok n)
    (hsuffix : suffix.toList = '.' :: '[' :: more) :
    parse (text ++ separator suffix ++ suffix) =
      .error ⟨text ++ separator suffix ++ suffix, .bracketAfterDot⟩ := by
  have hrest : readRest (separator suffix ++ suffix).toList = .error .bracketAfterDot := by
    have hsep : separator suffix = "" := by simp [separator, hsuffix]
    rw [hsep, String.empty_append, hsuffix]
    exact readElements_bracketAfterDot more
  refine parse_of_readElements_error (written_suffix_ne_empty h suffix) ?_
  rw [readElements_written_suffix h, hrest]
  rfl

/-- **Appending a written suffix agrees with parsing the two texts together**, unless the suffix
begins with `.[`.

Let `text` be parsed as `n`, and write a suffix behind it, with a dot between them unless the suffix
begins with a dot or a bracket itself.  A suffix that does not begin with `.[` is appended exactly
if the whole text is parsed, and both give one name.  Of a suffix that does, the dot is dropped and
the bracket is appended as it stands, while the whole text is refused, since no bracket may stand
behind a dot.  What is appended at all gives a name below `n`, longer by some number of elements,
and chopping as many gives `n` back. -/
theorem append_agrees_with_parse (h : parse text = .ok n) (suffix : String) :
    ((∀ more, suffix.toList ≠ '.' :: '[' :: more) →
      ∀ m, n.append suffix = .ok m ↔ parse (text ++ separator suffix ++ suffix) = .ok m) ∧
    (∀ more, suffix.toList = '.' :: '[' :: more →
      n.append suffix = n.append (String.ofList ('[' :: more)) ∧
      parse (text ++ separator suffix ++ suffix) =
        .error ⟨text ++ separator suffix ++ suffix, .bracketAfterDot⟩) ∧
    ∀ m, n.append suffix = .ok m →
      ∃ k, 0 < k ∧ m.length = n.length + k ∧ n.isAncestorOf m = true ∧ m.chop? k = some n := by
  refine ⟨fun hsuffix m => ?_, fun more hmore => ⟨?_, ?_⟩, fun m hm => ?_⟩
  · exact append_eq_ok_iff.trans (parse_written_suffix_iff h hsuffix).symm
  · have hundotted : undotted suffix = undotted (String.ofList ('[' :: more)) := by
      simp [undotted, hmore]
    rw [append_eq, append_eq, hundotted]
  · exact parse_written_suffix_of_bracket h hmore
  · obtain ⟨more, -, rfl⟩ := append_eq_ok_iff.mp hm
    exact appendElements_spec n more

/-- The name `list`. -/
def listName : Name :=
  ⟨[.literal ⟨"list", by simp [isReserved], by simp [isSeparator]⟩], List.cons_ne_nil _ _⟩

/-- An index behind a dot is appended to `list`, and is not parsed there. -/
theorem append_agrees_with_parse_list :
    parse "list" = .ok listName ∧
      (∃ item, listName.append "[0]" = .ok item ∧ parse "list[0]" = .ok item ∧
        listName.append ".[0]" = .ok item ∧ item.chop? 1 = some listName) ∧
      parse "list.[0]" = .error ⟨"list.[0]", .bracketAfterDot⟩ := by
  have hn : parse "list" = .ok listName := parse_written listName
  have hitem : parse "list[0]" = .ok (listName.push (.index 0)) :=
    parse_written (listName.push (.index 0))
  have hfirst : ∀ more, "[0]".toList ≠ '.' :: '[' :: more := by simp
  have happend := ((append_agrees_with_parse hn "[0]").1 hfirst _).mpr hitem
  obtain ⟨hdrop, hparse⟩ := (append_agrees_with_parse hn ".[0]").2.1 ['0', ']'] rfl
  obtain ⟨k, -, hlength, -, hchop⟩ := (append_agrees_with_parse hn "[0]").2.2 _ happend
  obtain rfl : k = 1 := (Nat.add_left_cancel hlength).symm
  exact ⟨hn, ⟨_, happend, hitem, hdrop.trans happend, hchop⟩, hparse⟩

end Name

end LayeredConfig
