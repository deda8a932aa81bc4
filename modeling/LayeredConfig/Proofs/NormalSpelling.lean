import LayeredConfig.Proofs.Grammar
import Mathlib.Data.List.Chain
import Mathlib.Data.List.Pairwise

/-!
# LayeredConfig.Proofs.NormalSpelling

The two normal spellings of a literal, `context-path` and `contextPath`.

1. No piece of a text is empty exactly when the separators neither lead, trail nor touch
   (`Text.parted_join_iff`).
2. So the dashed form, whose words are not empty, is in kebab case (`Literal.isKebab_dashedChars`), and
   a literal is its own dashed form exactly when it is in kebab case (`Literal.dashedChars_eq_iff`).
   Dashing a second time therefore changes nothing.
3. Each normal spelling of an accepted text is accepted, and is a spelling of the same element
   (`Element.normal_spellings`).
-/

namespace LayeredConfig

/-! ## Texts in pieces -/

namespace Text

/-- The separators of a text stand one at a time, and between other characters. -/
structure Parted (sep : Char) (cs : List Char) : Prop where
  ne_nil : cs ≠ []
  not_leading : cs.head? ≠ some sep
  not_trailing : cs.getLast? ≠ some sep
  apart : cs.IsChain fun a b => ¬ (a = sep ∧ b = sep)

variable {sep : Char} {p cs : List Char}

/-- A text without separators is parted if it is not empty. -/
theorem parted_of_notMem (h : sep ∉ p) (hne : p ≠ []) : Parted sep p where
  ne_nil := hne
  not_leading hhead := h (List.mem_of_head? hhead)
  not_trailing hlast := h (List.mem_of_getLast? hlast)
  apart :=
    List.Pairwise.isChain (List.pairwise_of_forall_mem_list fun _ ha _ _ hab => h (hab.1 ▸ ha))

/-- A text that begins with a piece and a separator is parted exactly if the piece is not empty and
what follows is parted. -/
theorem parted_append_iff (h : sep ∉ p) :
    Parted sep (p ++ sep :: cs) ↔ p ≠ [] ∧ Parted sep cs := by
  constructor
  · intro hparted
    have hne : p ≠ [] := by
      rintro rfl
      exact hparted.not_leading rfl
    have hcs : cs ≠ [] := by
      rintro rfl
      exact hparted.not_trailing (by simp)
    -- Were `cs` to begin with a separator, it would touch the one behind the piece.
    obtain ⟨hnext, hchain⟩ := List.isChain_cons.mp hparted.apart.right_of_append
    refine ⟨hne, hcs, fun hhead => hnext sep hhead ⟨rfl, rfl⟩, fun hlast => ?_, hchain⟩
    apply hparted.not_trailing
    rw [List.getLast?_append_of_ne_nil _ (List.cons_ne_nil sep cs), List.getLast?_cons, hlast,
      Option.getD_some]
  · rintro ⟨hne, hparted⟩
    have hp := parted_of_notMem h hne
    refine ⟨List.append_ne_nil_of_left_ne_nil hne _, ?_, ?_, hp.apart.append ?_ ?_⟩
    · rw [List.head?_append_of_ne_nil _ hne]
      exact hp.not_leading
    · have hlast : (sep :: cs).getLast? = cs.getLast? := by
        rw [← List.singleton_append, List.getLast?_append_of_ne_nil _ hparted.ne_nil]
      rw [List.getLast?_append_of_ne_nil _ (List.cons_ne_nil sep cs), hlast]
      exact hparted.not_trailing
    · exact List.isChain_cons.mpr
        ⟨fun _ ha hab => hparted.not_leading (hab.2 ▸ ha), hparted.apart⟩
    · exact fun _ ha _ _ hab => h (hab.1 ▸ List.mem_of_getLast? ha)

/-- **Joined pieces are parted exactly if none of them is empty.** -/
theorem parted_join_iff {ps : List (List Char)} (hne : ps ≠ []) (h : ∀ p ∈ ps, sep ∉ p) :
    Parted sep (join sep ps) ↔ ∀ p ∈ ps, p ≠ [] := by
  induction ps with
  | nil => exact absurd rfl hne
  | cons p ps ih =>
      have hp := h p List.mem_cons_self
      cases ps with
      | nil =>
          rw [join_singleton, List.forall_mem_singleton]
          exact ⟨Parted.ne_nil, parted_of_notMem hp⟩
      | cons q qs =>
          have hrest := ih (List.cons_ne_nil q qs) fun r hr => h r (List.mem_cons_of_mem p hr)
          rw [join_cons_cons, parted_append_iff hp, hrest, List.forall_mem_cons (l := q :: qs)]

end Text

/-! ## Kebab case -/

/-- A text in kebab case: words without ASCII capital letters, with one `-` between them. -/
structure IsKebab (cs : List Char) : Prop extends Text.Parted '-' cs where
  no_capital : ∀ c ∈ cs, c.isUpper = false
  no_underscore : '_' ∉ cs

namespace Literal

/-- **The dashed form is in kebab case.** -/
theorem isKebab_dashedChars (l : Literal) : IsKebab (Element.literal l).dashedChars := by
  have hparted : Text.Parted '-' (Text.join '-' l.words) :=
    (Text.parted_join_iff l.words_ne_nil fun w hw hc =>
      (wordChar_of_mem_words hw hc).ne_dash rfl).mpr fun w hw => ne_nil_of_mem_words hw
  have hchars : ∀ c ∈ Text.join '-' l.words, c = '-' ∨ WordChar c := by
    intro c hc
    rcases Text.mem_join hc with rfl | ⟨w, hw, hc⟩
    · exact .inl rfl
    · exact .inr (wordChar_of_mem_words hw hc)
  refine ⟨hparted, fun c hc => ?_, fun hc => ?_⟩
  · rcases hchars c hc with rfl | hword
    · decide
    · exact isUpper_of_toLower hword.toLower_eq
  · rcases hchars '_' hc with hdash | hword
    · exact absurd hdash (by decide)
    · exact absurd hword.inseparable (by decide)

/-- The words of a literal in kebab case are what stands between its dashes. -/
theorem words_of_isKebab {l : Literal} (h : IsKebab l.text.toList) :
    l.words = Text.split '-' l.text.toList := by
  have hfull : ∀ w ∈ Text.split '-' l.text.toList, w ≠ [] := by
    rw [← Text.parted_join_iff (Text.split_ne_nil _ _) fun _ => Text.not_mem_of_mem_split,
      Text.join_split]
    exact h.toParted
  refine words_of_join (Text.join_split _ _).symm (Text.split_ne_nil _ _) hfull ?_
  intro w hw c hc
  have hflat : c ∈ (Text.split '-' l.text.toList).flatten := List.mem_flatten.mpr ⟨w, hw, hc⟩
  rw [Text.flatten_split] at hflat
  have hmem : c ∈ l.text.toList := (List.mem_filter.mp hflat).1
  have hdash : c ≠ '-' := ne_of_mem_of_not_mem hc (Text.not_mem_of_mem_split hw)
  have hunderscore : c ≠ '_' := ne_of_mem_of_not_mem hmem h.no_underscore
  exact ⟨l.unreserved c hmem, by simp [isSeparator, hdash, hunderscore],
    toLower_of_not_isUpper (h.no_capital c hmem)⟩

/-- **The dashed form leaves a literal alone exactly if it is in kebab case.** -/
theorem dashedChars_eq_iff {l : Literal} :
    (Element.literal l).dashedChars = l.text.toList ↔ IsKebab l.text.toList := by
  constructor
  · intro h
    exact h ▸ l.isKebab_dashedChars
  · intro h
    rw [Element.dashedChars, words_of_isKebab h, Text.join_split]

theorem camelChars_ne_nil (l : Literal) : (Element.literal l).camelChars ≠ [] := by
  intro h
  apply l.uniformChars_ne_nil
  rw [← l.flatMap_lower_camelChars, h, List.flatMap_nil]

end Literal

/-! ## Accepted texts -/

namespace Element

/-- What is accepted as an element is a literal with the text as it stands. -/
theorem exists_literal_of_read {text : String} {e : Element} (h : read text = .ok e) :
    ∃ l : Literal, e = .literal l ∧ l.text = text := by
  rw [read] at h
  split at h
  · next l hl =>
      cases h
      exact ⟨l, rfl, Grammar.text_of_read hl⟩
  · contradiction

/-- **The dashed and the camel case form of an accepted text are spellings of the same element.**
The dashed form is in kebab case, and is the text itself if that is in kebab case; so it is its own
dashed form.  The camel case form holds no separators.  Both are accepted, with the uniform form and the
number of the text. -/
theorem normal_spellings {text : String} {e : Element} (accepted : read text = .ok e) :
    IsKebab e.dashed.toList ∧
      (e.dashed = text ↔ IsKebab text.toList) ∧
      (∃ d, read e.dashed = .ok d ∧ d.dashed = e.dashed ∧ d.uniform = e.uniform ∧
        d.asIndex? = e.asIndex?) ∧
      e.camel ≠ "" ∧ (∀ c ∈ e.camel.toList, c ≠ '-' ∧ c ≠ '_') ∧
      ∃ c, read e.camel = .ok c ∧ c.uniform = e.uniform ∧ c.asIndex? = e.asIndex? := by
  obtain ⟨l, rfl, rfl⟩ := exists_literal_of_read accepted
  have hkebab : IsKebab l.dashed.text.toList := by
    rw [l.text_dashed, String.toList_ofList]
    exact l.isKebab_dashedChars
  have hagain : (literal l.dashed).dashed = (literal l).dashed := by
    rw [dashed, Literal.dashedChars_eq_iff.mpr hkebab, String.ofList_toList]
    rfl
  have hfixed : (literal l).dashed = l.text ↔ IsKebab l.text.toList := by
    rw [← Literal.dashedChars_eq_iff, ← String.toList_inj, dashed, String.toList_ofList]
  have hcamel : ∀ c ∈ (literal l).camel.toList, c ≠ '-' ∧ c ≠ '_' := by
    intro c hc
    rw [camel, String.toList_ofList] at hc
    simpa [isSeparator] using (Literal.mem_camelChars hc).2
  refine ⟨hkebab, hfixed, ?_, ?_, hcamel, ?_⟩
  · exact ⟨literal l.dashed, read_text l.dashed, hagain,
      congrArg String.ofList l.uniformChars_dashed, asIndex?_congr l.uniformChars_dashed⟩
  · intro hempty
    have hchars : (literal l).camelChars = [] := by simpa [camel] using hempty
    exact l.camelChars_ne_nil hchars
  · exact ⟨literal l.camel, read_text l.camel, congrArg String.ofList l.uniformChars_camel,
      asIndex?_congr l.uniformChars_camel⟩

/-- The literal `__max_-poolSize2GB_İ`. -/
def poolSize : Literal :=
  ⟨"__max_-poolSize2GB_İ", by simp [isReserved], by simp [isSeparator]⟩

/-- Separators lead, trail and touch, words begin with capitals, and a letter beyond ASCII has two
characters as its small letter. -/
theorem normal_spellings_poolSize :
    read "__max_-poolSize2GB_İ" = .ok (literal poolSize) ∧
      (literal poolSize).dashed = "max-pool-size2-gb-İ" ∧
      (literal poolSize).camel = "maxPoolSize2Gbİ" ∧
      IsKebab "max-pool-size2-gb-İ".toList ∧
      (∃ d, read "max-pool-size2-gb-İ" = .ok d ∧ d.dashed = "max-pool-size2-gb-İ" ∧
        d.uniform = (literal poolSize).uniform ∧ d.asIndex? = (literal poolSize).asIndex?) ∧
      ∃ c, read "maxPoolSize2Gbİ" = .ok c ∧ c.uniform = (literal poolSize).uniform ∧
        c.asIndex? = (literal poolSize).asIndex? := by
  have haccepted : read "__max_-poolSize2GB_İ" = .ok (literal poolSize) := read_text poolSize
  have hdashed : (literal poolSize).dashed = "max-pool-size2-gb-İ" := by decide +kernel
  have hcamel : (literal poolSize).camel = "maxPoolSize2Gbİ" := by decide +kernel
  obtain ⟨hkebab, -, hread, -, -, hread'⟩ := normal_spellings haccepted
  rw [hdashed] at hkebab hread
  rw [hcamel] at hread'
  exact ⟨haccepted, hdashed, hcamel, hkebab, hread, hread'⟩

end Element

end LayeredConfig
