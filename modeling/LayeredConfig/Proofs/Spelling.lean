import LayeredConfig.Proofs.Agreement

/-!
# LayeredConfig.Proofs.Spelling

The spellings derived from a literal are spellings of it.

The words of a literal hold its characters other than separators, ASCII letters in lower case
(`Literal.words_flatten`); no word is empty.  So each text that is made of the words, with
separators between them and any case of ASCII letters, is a literal again and has the same uniform
form: the dashed form, the camel case form, and the uniform form itself.  Of these the dashed form
is a fixed point (`Literal.words_dashed`).
-/

namespace LayeredConfig

/-! ## Characters -/

/-- No character becomes reserved in lower case, and none stops being so. -/
theorem isReserved_toLower (c : Char) : isReserved c.toLower = isReserved c :=
  Text.apply_toLower (f := isReserved) (by decide) c

theorem isSeparator_toLower (c : Char) : isSeparator c.toLower = isSeparator c :=
  Text.apply_toLower (f := isSeparator) (by decide) c

theorem isReserved_toUpper (c : Char) : isReserved c.toUpper = isReserved c :=
  Text.apply_toUpper (f := isReserved) (by decide) c

theorem isSeparator_toUpper (c : Char) : isSeparator c.toUpper = isSeparator c :=
  Text.apply_toUpper (f := isSeparator) (by decide) c

theorem toLower_toLower (c : Char) : c.toLower.toLower = c.toLower :=
  Text.apply_toLower (f := Char.toLower) (by decide) c

/-- A character without another lower-case form is no capital letter. -/
theorem isUpper_of_toLower {c : Char} (h : c.toLower = c) : c.isUpper = false := by
  rw [Bool.eq_false_iff]
  intro hu
  have hc : c.toNat < 128 := by
    delta Char.isUpper at hu
    simp only [decide_eq_true_eq, UInt32.le_iff_toNat_le, Char.toNat_val] at hu
    have hz : 'Z'.toNat = 90 := rfl
    omega
  exact Text.forall_ascii (p := fun c => c.isUpper = true → c.toLower ≠ c) (by decide) hc hu h

/-- A character that is no capital letter is its own small one. -/
theorem toLower_of_not_isUpper {c : Char} (h : c.isUpper = false) : c.toLower = c := by
  by_cases hc : c.toNat < 128
  · exact Text.forall_ascii (p := fun c => c.isUpper = false → c.toLower = c) (by decide) hc h
  · exact Text.toLower_of_not_ascii hc

/-- A character of a word: it structures nothing, separates nothing and is no ASCII capital. -/
structure WordChar (c : Char) : Prop where
  unreserved : isReserved c = false
  inseparable : isSeparator c = false
  toLower_eq : c.toLower = c

theorem WordChar.ne_dash {c : Char} (h : WordChar c) : c ≠ '-' := by
  rintro rfl
  exact absurd h.inseparable (by decide)

/-! ## Words -/

namespace Literal

/-- Spacing adds separators only. -/
theorem filter_spaced (p : Char) (cs : List Char) :
    (spaced p cs).filter (!isSeparator ·) = cs.filter (!isSeparator ·) := by
  have hdash : isSeparator '-' = true := by decide
  induction cs generalizing p with
  | nil => rfl
  | cons c cs ih =>
      unfold spaced
      split
      · simp only [List.filter_cons, hdash, ih, Bool.not_true, Bool.false_eq_true, if_false]
      · cases hc : isSeparator c <;>
          simp only [List.filter_cons, hc, hdash, ih, Bool.not_true, Bool.not_false,
            Bool.false_eq_true, if_false, if_true]

/-- After spacing, the only separator is `-`. -/
theorem eq_dash_of_mem_spaced {p d : Char} {cs : List Char} (h : d ∈ spaced p cs)
    (hd : isSeparator d = true) : d = '-' := by
  induction cs generalizing p with
  | nil => simp [spaced] at h
  | cons c cs ih =>
      unfold spaced at h
      split at h
      · next hstart =>
          rcases List.mem_cons.mp h with rfl | h
          · rfl
          · rcases List.mem_cons.mp h with rfl | h
            · have hupper : d.isUpper = true := (Bool.and_eq_true _ _ ▸ hstart).1
              simp only [isSeparator, Bool.or_eq_true, beq_iff_eq] at hd
              rcases hd with rfl | rfl
              · rfl
              · exact absurd hupper (by decide)
            · exact ih h
      · rcases List.mem_cons.mp h with rfl | h
        · split at hd
          · next hc => simp [hc]
          · next hc => exact absurd hd (by simpa using hc)
        · exact ih h

end Literal

/-- The pieces of a text hold its characters other than the separator. -/
theorem Text.flatten_split (sep : Char) (cs : List Char) :
    (Text.split sep cs).flatten = cs.filter (· ≠ sep) := by
  induction cs with
  | nil => rfl
  | cons c cs ih =>
      unfold Text.split
      split
      · next h => simp [h, ih]
      · next h =>
          split
          · next p ps hs =>
              rw [hs] at ih
              simp only [List.flatten_cons, List.cons_append] at ih ⊢
              rw [List.filter_cons, if_pos (by simpa using h), ih]
          · next hs => exact absurd hs (Text.split_ne_nil sep cs)

namespace Literal

/-- The words of a literal hold all of it but the separators. -/
theorem words_flatten (l : Literal) :
    l.words.flatten = (l.text.toList.filter (!isSeparator ·)).map Char.toLower := by
  have hkeep : ∀ c ∈ spaced '-' l.text.toList, decide (c ≠ '-') = !isSeparator c := by
    intro c hc
    cases hs : isSeparator c with
    | true => simp [eq_dash_of_mem_spaced hc hs]
    | false =>
        have : c ≠ '-' := by
          rintro rfl
          exact absurd hs (by decide)
        simp [this]
  rw [words, ← List.map_flatten, List.flatten_filter_ne_nil, Text.flatten_split,
    List.filter_congr hkeep, filter_spaced]

/-- A literal has a word. -/
theorem words_ne_nil (l : Literal) : l.words ≠ [] := by
  intro h
  have hflat := l.words_flatten
  rw [h, List.flatten_nil, eq_comm, List.map_eq_nil_iff, List.filter_eq_nil_iff] at hflat
  obtain ⟨c, hc, hs⟩ := l.substantial
  exact hflat c hc (by simp [hs])

/-- No word of a literal is empty. -/
theorem ne_nil_of_mem_words {l : Literal} {w : List Char} (h : w ∈ l.words) : w ≠ [] := by
  obtain ⟨v, hv, rfl⟩ := List.mem_map.mp h
  have := (List.mem_filter.mp hv).2
  simpa using this

/-- The words consist of word characters. -/
theorem wordChar_of_mem_words {l : Literal} {w : List Char} {c : Char} (hw : w ∈ l.words)
    (hc : c ∈ w) : WordChar c := by
  have hflat : c ∈ l.words.flatten := List.mem_flatten.mpr ⟨w, hw, hc⟩
  rw [words_flatten] at hflat
  obtain ⟨d, hd, rfl⟩ := List.mem_map.mp hflat
  obtain ⟨hmem, hsep⟩ := List.mem_filter.mp hd
  refine ⟨?_, ?_, toLower_toLower d⟩
  · rw [isReserved_toLower]
    exact l.unreserved d hmem
  · rw [isSeparator_toLower]
    simpa using hsep

/-- The uniform form of a literal is that of its words. -/
theorem uniformChars_eq (l : Literal) : l.uniformChars = l.words.flatten.flatMap Text.lower := by
  rw [words_flatten, List.flatMap_map, uniformChars]
  exact List.flatMap_congr fun c _ => (Text.lower_toLower c).symm

/-- The uniform form is not empty. -/
theorem uniformChars_ne_nil (l : Literal) : l.uniformChars ≠ [] := by
  obtain ⟨c, hc, hs⟩ := l.substantial
  intro h
  rw [uniformChars, List.flatMap_eq_nil_iff] at h
  exact Text.lower_ne_nil c (h c (List.mem_filter.mpr ⟨hc, by simp [hs]⟩))

/-- The uniform form consists of word characters, none of them with another lower-case form. -/
theorem wordChar_of_mem_uniformChars {l : Literal} {c : Char} (h : c ∈ l.uniformChars) :
    WordChar c ∧ Text.lower c = [c] := by
  obtain ⟨d, hd, hcd⟩ := List.mem_flatMap.mp h
  obtain ⟨hmem, hsep⟩ := List.mem_filter.mp hd
  have hkeep (hc : isReserved c = true ∨ isSeparator c = true) : c = d := by
    apply Text.eq_of_mem_lower hcd <;>
      simp only [isReserved, isSeparator, Bool.or_eq_true, beq_iff_eq] at hc <;>
      rcases hc with ((rfl | rfl) | rfl) | rfl | rfl <;> decide
  refine ⟨⟨?_, ?_, Text.toLower_of_mem_lower hcd⟩, Text.lower_of_mem_lower hcd⟩
  · rw [Bool.eq_false_iff]
    intro hc
    rw [hkeep (.inl hc), l.unreserved d hmem] at hc
    contradiction
  · rw [Bool.eq_false_iff]
    intro hc
    rw [hkeep (.inr hc)] at hc
    simp [hc] at hsep

/-! ## Respelling a literal -/

/-- Another text for a literal, with the same uniform form. -/
def respell (l : Literal) (cs : List Char) (unreserved : ∀ c ∈ cs, isReserved c = false)
    (same : (cs.filter (!isSeparator ·)).flatMap Text.lower = l.uniformChars) : Literal where
  text := String.ofList cs
  unreserved := by
    rw [String.toList_ofList]
    exact unreserved
  substantial := by
    rw [String.toList_ofList]
    obtain ⟨c, hc⟩ := List.exists_mem_of_ne_nil _ l.uniformChars_ne_nil
    rw [← same] at hc
    obtain ⟨d, hd, -⟩ := List.mem_flatMap.mp hc
    obtain ⟨hmem, hsep⟩ := List.mem_filter.mp hd
    exact ⟨d, hmem, by simpa using hsep⟩

/-- Whatever respells a literal has its uniform form. -/
theorem uniformChars_respell {l : Literal} {cs : List Char}
    (unreserved : ∀ c ∈ cs, isReserved c = false)
    (same : (cs.filter (!isSeparator ·)).flatMap Text.lower = l.uniformChars) :
    (l.respell cs unreserved same).uniformChars = l.uniformChars := by
  rw [uniformChars, respell, String.toList_ofList, same]

end Literal

/-! ## Dashed -/

/-- The characters of a joined text are those of its parts, and the separator. -/
theorem Text.mem_join {sep c : Char} {ps : List (List Char)} (h : c ∈ Text.join sep ps) :
    c = sep ∨ ∃ p ∈ ps, c ∈ p := by
  induction ps with
  | nil => simp [Text.join] at h
  | cons p ps ih =>
      cases ps with
      | nil => exact .inr ⟨p, by simp, by rwa [Text.join_singleton] at h⟩
      | cons q qs =>
          rw [Text.join_cons_cons] at h
          rcases List.mem_append.mp h with h | h
          · exact .inr ⟨p, by simp, h⟩
          · rcases List.mem_cons.mp h with rfl | h
            · exact .inl rfl
            · rcases ih h with rfl | ⟨r, hr, hc⟩
              · exact .inl rfl
              · exact .inr ⟨r, List.mem_cons_of_mem p hr, hc⟩

/-- Joining words by a separator adds separators only. -/
theorem Text.filter_join {sep : Char} {ps : List (List Char)} (hsep : isSeparator sep = true)
    (h : ∀ p ∈ ps, ∀ c ∈ p, isSeparator c = false) :
    (Text.join sep ps).filter (!isSeparator ·) = ps.flatten := by
  have hkeep (p : List Char) (hp : ∀ c ∈ p, isSeparator c = false) :
      p.filter (!isSeparator ·) = p :=
    List.filter_eq_self.mpr fun c hc => by simp [hp c hc]
  induction ps with
  | nil => rfl
  | cons p ps ih =>
      have hp := hkeep p (h p List.mem_cons_self)
      cases ps with
      | nil => rw [Text.join_singleton, hp, List.flatten_singleton]
      | cons q qs =>
          have hqs := ih fun r hr => h r (List.mem_cons_of_mem p hr)
          rw [Text.join_cons_cons, List.filter_append, hp, List.filter_cons_of_neg (by simp [hsep]),
            hqs]
          exact List.flatten_cons.symm

namespace Literal

/-- The dashed form of a literal, as a literal. -/
def dashed (l : Literal) : Literal :=
  l.respell (Text.join '-' l.words)
    (fun c hc => by
      rcases Text.mem_join hc with rfl | ⟨w, hw, hc⟩
      · decide
      · exact (wordChar_of_mem_words hw hc).unreserved)
    (by
      rw [Text.filter_join (by decide) fun w hw c hc => (wordChar_of_mem_words hw hc).inseparable,
        uniformChars_eq])

/-- The dashed form is the words, joined by dashes. -/
theorem text_dashed (l : Literal) : l.dashed.text = String.ofList (Text.join '-' l.words) := rfl

/-- The dashed form is a spelling of the literal. -/
theorem uniformChars_dashed (l : Literal) : l.dashed.uniformChars = l.uniformChars :=
  uniformChars_respell _ _

/-- Spacing leaves a text alone that has no capital letters and no underscores. -/
theorem spaced_of_plain {p : Char} {cs : List Char}
    (h : ∀ c ∈ cs, c.isUpper = false ∧ (isSeparator c = true → c = '-')) : spaced p cs = cs := by
  induction cs generalizing p with
  | nil => rfl
  | cons c cs ih =>
      obtain ⟨hupper, hdash⟩ := h c List.mem_cons_self
      rw [spaced, startsWord, hupper, Bool.false_and, if_neg Bool.false_ne_true,
        ih fun d hd => h d (List.mem_cons_of_mem c hd)]
      split
      · next hsep => rw [hdash hsep]
      · rfl

/-- Words that a text joins by dashes are the words of the literal. -/
theorem words_of_join {l : Literal} {ws : List (List Char)}
    (htext : l.text.toList = Text.join '-' ws) (hne : ws ≠ []) (hfull : ∀ w ∈ ws, w ≠ [])
    (hword : ∀ w ∈ ws, ∀ c ∈ w, WordChar c) : l.words = ws := by
  have hspaced : spaced '-' (Text.join '-' ws) = Text.join '-' ws := by
    apply spaced_of_plain
    intro c hc
    rcases Text.mem_join hc with rfl | ⟨w, hw, hc⟩
    · exact ⟨by decide, fun _ => rfl⟩
    · have hword := hword w hw c hc
      exact ⟨isUpper_of_toLower hword.toLower_eq, fun hs => by simp [hword.inseparable] at hs⟩
  have hsplit : Text.split '-' (Text.join '-' ws) = ws :=
    Text.split_join hne fun w hw hdash => (hword w hw '-' hdash).ne_dash rfl
  have hfilter : ws.filter (· ≠ []) = ws :=
    List.filter_eq_self.mpr fun w hw => by simpa using hfull w hw
  have hlower : ws.map (·.map Char.toLower) = ws := by
    calc
      ws.map (·.map Char.toLower) = ws.map id :=
        List.map_congr_left fun w hw =>
          (List.map_congr_left fun c hc => (hword w hw c hc).toLower_eq).trans (List.map_id w)
      _ = ws := List.map_id _
  rw [words, htext, hspaced, hsplit, hfilter, hlower]

/-- **The dashed form has the words of the literal,** so it is its own dashed form. -/
theorem words_dashed (l : Literal) : l.dashed.words = l.words :=
  words_of_join (by rw [text_dashed, String.toList_ofList]) l.words_ne_nil
    (fun _ => ne_nil_of_mem_words) fun _ hw _ => wordChar_of_mem_words hw

/-! ## Camel case -/

/-- A capitalized word has the characters of the word, or their capitals. -/
theorem capitalized_cases {w : List Char} {c : Char} (h : c ∈ capitalized w) :
    ∃ d ∈ w, c = d ∨ c = d.toUpper := by
  cases w with
  | nil => simp [capitalized] at h
  | cons d ds =>
      rcases List.mem_cons.mp h with rfl | h
      · exact ⟨d, List.mem_cons_self, .inr rfl⟩
      · exact ⟨c, List.mem_cons_of_mem d h, .inl rfl⟩

/-- A capitalized word is lower-cased like the word. -/
theorem flatMap_lower_capitalized (w : List Char) :
    (capitalized w).flatMap Text.lower = w.flatMap Text.lower := by
  cases w with
  | nil => rfl
  | cons c cs => rw [capitalized, List.flatMap_cons, List.flatMap_cons, Text.lower_toUpper]

theorem flatMap_lower_flatMap_capitalized (ws : List (List Char)) :
    (ws.flatMap capitalized).flatMap Text.lower = ws.flatten.flatMap Text.lower := by
  induction ws with
  | nil => rfl
  | cons w ws ih =>
      rw [List.flatMap_cons, List.flatMap_append, flatMap_lower_capitalized, ih, List.flatten_cons,
        List.flatMap_append]

/-- The characters of the camel case form neither structure nor separate. -/
theorem mem_camelChars {l : Literal} {c : Char} (h : c ∈ (Element.literal l).camelChars) :
    isReserved c = false ∧ isSeparator c = false := by
  have hwords {w : List Char} {d : Char} (hw : w ∈ l.words) (hd : d ∈ w) :
      isReserved d = false ∧ isSeparator d = false :=
    ⟨(wordChar_of_mem_words hw hd).unreserved, (wordChar_of_mem_words hw hd).inseparable⟩
  rw [Element.camelChars] at h
  split at h
  · simp at h
  · next w ws heq =>
      rw [heq] at hwords
      rcases List.mem_append.mp h with h | h
      · exact hwords List.mem_cons_self h
      · obtain ⟨v, hv, hc⟩ := List.mem_flatMap.mp h
        obtain ⟨d, hd, rfl | rfl⟩ := capitalized_cases hc
        · exact hwords (List.mem_cons_of_mem w hv) hd
        · rw [isReserved_toUpper, isSeparator_toUpper]
          exact hwords (List.mem_cons_of_mem w hv) hd

/-- Capital letters in place of separators leave the uniform form as it is. -/
theorem flatMap_lower_camelChars (l : Literal) :
    (Element.literal l).camelChars.flatMap Text.lower = l.uniformChars := by
  rw [uniformChars_eq, Element.camelChars]
  split
  · next heq =>
      rw [heq]
      rfl
  · next w ws heq =>
      rw [heq, List.flatten_cons, List.flatMap_append, List.flatMap_append,
        flatMap_lower_flatMap_capitalized]

/-- The camel case form of a literal, as a literal. -/
def camel (l : Literal) : Literal :=
  l.respell (Element.literal l).camelChars (fun _ hc => (mem_camelChars hc).1)
    (by
      rw [List.filter_eq_self.mpr fun c hc => by simp [(mem_camelChars hc).2],
        flatMap_lower_camelChars])

/-- The text of the camel form is the literal in camel case. -/
theorem text_camel (l : Literal) :
    l.camel.text = String.ofList (Element.literal l).camelChars := rfl

/-- The camel form is a spelling of the literal. -/
theorem uniformChars_camel (l : Literal) : l.camel.uniformChars = l.uniformChars :=
  uniformChars_respell _ _

/-! ## Uniform -/

/-- The uniform form of a literal, as a literal. -/
def lowered (l : Literal) : Literal :=
  l.respell l.uniformChars (fun _ hc => (wordChar_of_mem_uniformChars hc).1.unreserved)
    (by
      rw [List.filter_eq_self.mpr fun c hc => by
          simp [(wordChar_of_mem_uniformChars hc).1.inseparable],
        Text.flatMap_lower_of_fixed fun c hc => (wordChar_of_mem_uniformChars hc).2])

/-- The lower-cased literal is a spelling of it. -/
theorem uniformChars_lowered (l : Literal) : l.lowered.uniformChars = l.uniformChars :=
  uniformChars_respell _ _

/-! ## Numbers -/

/-- The digits of a number, as a literal. -/
def ofNumber (i : UInt64) : Literal where
  text := String.ofList (Decimal.digits i.toNat)
  unreserved := by
    rw [String.toList_ofList]
    exact fun c hc => (Element.plain_of_isDigit (Decimal.isDigit_of_mem_digits hc)).1
  substantial := by
    rw [String.toList_ofList]
    obtain ⟨c, hc⟩ := List.exists_mem_of_ne_nil _ (Decimal.digits_ne_nil i.toNat)
    exact ⟨c, hc, (Element.plain_of_isDigit (Decimal.isDigit_of_mem_digits hc)).2.1⟩

end Literal

/-! ## Elements -/

namespace Element

/-- A digit may stand in a word, and is its own small character. -/
theorem wordChar_of_isDigit {c : Char} (h : c.isDigit = true) :
    WordChar c ∧ Text.lower c = [c] := by
  obtain ⟨hres, hsep, hlow, -⟩ := plain_of_isDigit h
  have hc : c.toNat < 128 := by
    have := (Char.isDigit_iff_toNat.mp h).2
    have h9 : '9'.toNat = 57 := rfl
    omega
  exact ⟨⟨hres, hsep, hlow⟩, by rw [Text.lower_of_ascii hc, hlow]⟩

/-- The uniform form of an element consists of word characters, none of them with another
lower-case form. -/
theorem wordChar_of_mem_uniformChars {e : Element} {c : Char} (h : c ∈ e.uniformChars) :
    WordChar c ∧ Text.lower c = [c] := by
  cases e with
  | literal l => exact Literal.wordChar_of_mem_uniformChars h
  | index i => exact wordChar_of_isDigit (Decimal.isDigit_of_mem_digits h)

theorem uniformChars_ne_nil (e : Element) : e.uniformChars ≠ [] := by
  cases e with
  | literal l => exact l.uniformChars_ne_nil
  | index i => exact Decimal.digits_ne_nil i.toNat

end Element

theorem Literal.text_ofNumber (i : UInt64) :
    (Literal.ofNumber i).text = String.ofList (Decimal.digits i.toNat) := rfl

/-- The uniform form of a number is its digits. -/
theorem Literal.uniformChars_ofNumber (i : UInt64) :
    (Literal.ofNumber i).uniformChars = Decimal.digits i.toNat := by
  have hword {c : Char} (hc : c ∈ Decimal.digits i.toNat) : WordChar c ∧ Text.lower c = [c] :=
    Element.wordChar_of_isDigit (Decimal.isDigit_of_mem_digits hc)
  rw [uniformChars, ofNumber, String.toList_ofList,
    List.filter_eq_self.mpr fun c hc => by simp [(hword hc).1.inseparable],
    Text.flatMap_lower_of_fixed fun c hc => (hword hc).2]

namespace Element

/-- An element whose literals are respelled by `f`. -/
def spelled (f : Literal → Literal) : Element → Element
  | .literal l => .literal (f l)
  | .index i => .index i

/-- An element whose literals are respelled by `f`, and whose numbers are literals. -/
def dotted (f : Literal → Literal) : Element → Element
  | .literal l => .literal (f l)
  | .index i => .literal (.ofNumber i)

/-- An element whose literals are respelled by `f`, unless they are numeric and become indexes. -/
def numbered (f : Literal → Literal) : Element → Element
  | .literal l =>
    match (Element.literal l).asIndex? with
    | some i => .index i
    | none => .literal (f l)
  | .index i => .index i

section

variable {f : Literal → Literal} (same : ∀ l, (f l).uniformChars = l.uniformChars)
include same

/-- Respelled literals keep their uniform forms. -/
theorem uniformChars_spelled (e : Element) : (e.spelled f).uniformChars = e.uniformChars := by
  cases e with
  | literal l => exact same l
  | index i => rfl

/-- Numbers may be written as literals. -/
theorem uniformChars_dotted (e : Element) : (e.dotted f).uniformChars = e.uniformChars := by
  cases e with
  | literal l => exact same l
  | index i => exact Literal.uniformChars_ofNumber i

/-- Literals that are numbers may be written as indexes. -/
theorem uniformChars_numbered (e : Element) : (e.numbered f).uniformChars = e.uniformChars := by
  cases e with
  | literal l =>
      cases h : (literal l).asIndex? with
      | some i =>
          simp only [numbered, h]
          exact (asIndex?_eq_some_iff.mp h).symm
      | none =>
          simp only [numbered, h]
          exact same l
  | index i => rfl

end

end Element

/-! ## Names -/

namespace Name

/-- A name with every element respelled by `f`. -/
def respell (f : Element → Element) (n : Name) : Name :=
  ⟨n.elements.map f, by simp [n.elements_ne_nil]⟩

/-- A name whose elements are respelled is the same name. -/
theorem agrees_respell {f : Element → Element} (same : ∀ e, (f e).uniformChars = e.uniformChars)
    (n : Name) : (n.respell f).agrees n = true := by
  rw [agrees_iff, respell, List.map_map]
  exact List.map_congr_left fun e _ => same e

end Name

end LayeredConfig
