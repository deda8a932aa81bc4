import LayeredConfig.Proofs.Replies

/-!
# LayeredConfig.Proofs.IndexNotation

The two notations of a number in a name, `list[0]` and `list.0`.

1. A number in brackets and the literal that writes it have the same dashed form
   (`Element.Renotes.dashedChars_eq`).
2. Of the dotted keys of a name, the one with all numbers after dots and the one with all numbers in
   brackets depend on the dashed forms only: the uniform form is the dashed form without its dashes, so
   the dashed form tells which elements are numeric (`Mapping.bracketedPiece_congr`).
3. So names that differ in the notation of numbers share these two keys, and a source that has one of
   them and lists none answers all such names from it (`Source.notation_irrelevant`).
-/

namespace LayeredConfig

/-! ## Other notations -/

/-- The words of a written number are its digits, in one word. -/
theorem Literal.words_ofNumber (i : UInt64) :
    (Literal.ofNumber i).words = [Decimal.digits i.toNat] := by
  have hword {c : Char} (hc : c ∈ Decimal.digits i.toNat) : WordChar c :=
    (Element.wordChar_of_isDigit (Decimal.isDigit_of_mem_digits hc)).1
  have htext : (Literal.ofNumber i).text.toList = Text.join '-' [Decimal.digits i.toNat] := by
    rw [text_ofNumber, String.toList_ofList, Text.join_singleton]
  refine words_of_join htext (List.cons_ne_nil _ _) ?_ ?_
  · exact List.forall_mem_singleton.mpr (Decimal.digits_ne_nil i.toNat)
  · exact List.forall_mem_singleton.mpr fun _ => hword

namespace Element

/-- An element in the same or in the other notation: a number in brackets may become the literal that
writes it, and a literal that writes a number may become the number in brackets.  (A literal such as
`1-2` is numeric too, but it does not write the number 12.) -/
inductive Renotes : Element → Element → Prop where
  | same (e : Element) : Renotes e e
  | unbracketed (i : UInt64) : Renotes (.index i) (.literal (.ofNumber i))
  | bracketed (l : Literal) (i : UInt64)
      (h : (literal l).dashedChars = Decimal.digits i.toNat) : Renotes (.literal l) (.index i)

variable {e f : Element}

/-- Another notation of an element has the same dashed form. -/
theorem Renotes.dashedChars_eq (h : e.Renotes f) : e.dashedChars = f.dashedChars := by
  cases h with
  | same => rfl
  | unbracketed i => simp [dashedChars, Literal.words_ofNumber, Text.join]
  | bracketed l i h => exact h

/-- The uniform form is what the dashed form holds besides dashes, in lower case. -/
theorem uniformChars_eq (e : Element) :
    e.uniformChars = (e.dashedChars.filter (!isSeparator ·)).flatMap Text.lower := by
  cases e with
  | literal l =>
      rw [uniformChars, ← l.uniformChars_dashed, Literal.uniformChars, Literal.text_dashed,
        String.toList_ofList]
      rfl
  | index i =>
      rw [uniformChars, ← Literal.uniformChars_ofNumber, Literal.uniformChars,
        Literal.text_ofNumber, String.toList_ofList]
      rfl

/-- The uniform form depends on the dashed form only. -/
theorem uniformChars_congr (h : e.dashedChars = f.dashedChars) : e.uniformChars = f.uniformChars := by
  rw [uniformChars_eq, h, ← uniformChars_eq]

end Element

namespace Name

/-- A name with any of its numbers in the other notation. -/
def Renotes (n n' : Name) : Prop := List.Forall₂ Element.Renotes n.elements n'.elements

/-- The text of a name with all numeric elements in brackets, and dashed forms otherwise. -/
def bracketedText (n : Name) : String := (n.respell (.numbered .dashed)).written

/-- The text of a name with all numeric elements after dots, and dashed forms otherwise. -/
def dottedText (n : Name) : String := (n.respell (.dotted .dashed)).written

/-- Names in other notations are spellings of each other. -/
theorem Renotes.agrees {n n' : Name} (h : n.Renotes n') : n.agrees n' = true := by
  have huniform : List.Forall₂ (·.uniformChars = ·.uniformChars) n.elements n'.elements :=
    h.imp fun e f hef => Element.uniformChars_congr hef.dashedChars_eq
  simpa [agrees_iff, ← List.forall₂_eq_eq_eq, List.forall₂_map_left_iff,
    List.forall₂_map_right_iff] using huniform

end Name

/-! ## The keys that they share -/

namespace Mapping

variable {e f : Element} {n n' : Name}

/-- So does the piece of a key with numbers after dots. -/
theorem plainPiece_congr (h : e.dashedChars = f.dashedChars) : plainPiece e = plainPiece f := by
  rw [plainPiece, plainPiece, h]

/-- So does the piece of a key with numbers in brackets. -/
theorem bracketedPiece_congr (h : e.dashedChars = f.dashedChars) :
    bracketedPiece e = bracketedPiece f := by
  have hindex : e.asIndex? = f.asIndex? := Element.asIndex?_congr (Element.uniformChars_congr h)
  simp only [bracketedPiece, hindex, h]

/-- What is written from dashed forms is written alike in all notations. -/
theorem written_congr {piece : Element → Name.Piece}
    (hpiece : ∀ {e f : Element}, e.dashedChars = f.dashedChars → piece e = piece f)
    (h : n.Renotes n') : written piece n = written piece n' := by
  have hpieces : List.Forall₂ (piece · = piece ·) n.elements n'.elements :=
    h.imp fun e f hef => hpiece hef.dashedChars_eq
  have hmap : n.elements.map piece = n'.elements.map piece := by
    simpa [← List.forall₂_eq_eq_eq, List.forall₂_map_left_iff, List.forall₂_map_right_iff] using
      hpieces
  rw [written, written, hmap]

/-- **A name and its other notations have two keys in common.** -/
theorem mem_keysFor_of_renotes (h : n.Renotes n') {key : String}
    (hkey : key = n.bracketedText ∨ key = n.dottedText) :
    key ∈ dotted.keysFor n ∧ key ∈ dotted.keysFor n' := by
  have hbracketed : n.bracketedText = written bracketedPiece n := (written_eq bracketedPiece_eq n).symm
  have hdotted : n.dottedText = written plainPiece n := (written_eq plainPiece_eq n).symm
  simp only [keysFor_dotted, dottedKeys, mem_distinct, List.mem_cons]
  rcases hkey with rfl | rfl
  · simp [hbracketed, ← written_congr bracketedPiece_congr h]
  · simp [hdotted, ← written_congr plainPiece_congr h]

end Mapping

/-! ## Sources with one key -/

/-- A provider with a value under one key, and under no other. -/
def Provider.HasOnly (p : Provider) (key : String) (v : Value) : Prop :=
  ∀ k, p.get k = .ok (if k = key then some v else none)

namespace Source

variable {s : Source} {n n' : Name} {σ τ : Session} {key : String} {v : Value}

/-- What is tried first plays no part where one key has a value. -/
theorem first_of_hasOnly {keys : List String} (hp : s.provider.HasOnly key v) (hkey : key ∈ keys) :
    s.first n keys = .ok (some ⟨n, v, s.originOf key⟩) := by
  induction keys with
  | nil => simp at hkey
  | cons k keys ih =>
      rw [first, hp k]
      by_cases hk : k = key
      · simp [hk]
      · have hrest : key ∈ keys := by simpa [Ne.symm hk] using hkey
        simpa [hk] using ih hrest

/-- A source that lists no keys needs no index for its reply. -/
theorem get_eq_reply_of_lookupOnly (hm : s.mapper.mapper.BuiltIn) (hcap : s.capability = .lookupOnly)
    (hlists : σ.Trusts s.mapper) (n : Name) : (s.get n σ).1 = s.reply n := by
  rw [get_apply, answer_congr _ (hlists.listed_alike (hm.candidates_eq n)), reply, answer, answer, hcap]

/-- A source that lists no keys and has the key of a candidate answers from it. -/
theorem get_of_hasOnly (hm : s.mapper.mapper = Mapping.dotted) (hcap : s.capability = .lookupOnly)
    (hlists : σ.Trusts s.mapper) (hp : s.provider.HasOnly key v)
    (hkey : key ∈ Mapping.dotted.keysFor n) :
    (s.get n σ).1 = .ok (some ⟨n, v, s.originOf key⟩) := by
  have hbuiltIn : s.mapper.mapper.BuiltIn := Mapping.builtIn_of_eq (.inl hm)
  have hdirect : s.mapper.mapper.Direct := Mapping.direct_of_eq (.inl hm)
  have hlisted : s.mapper.mapper.listed n = (Mapping.dotted.keysFor n).map (.plain · n) := by
    rw [Mapper.listed, hdirect.candidates, hm]
  rw [get_eq_reply_of_lookupOnly hbuiltIn hcap hlists, reply, hlisted, answer, tries_plain,
    first_of_hasOnly hp hkey]

/-- **The notation of numbers plays no part for a source that lists no keys**, seen through the dotted
mapper.  The text of a name with all numbers in brackets and the one with all numbers after dots are
candidates for the name and for each name that differs from it in the notation of numbers.  If one of
them is the only key of the source, the source answers both names, with one value and one origin. -/
theorem notation_irrelevant (n n' : Name) (key : String) (h : n.Renotes n')
    (hkey : key = n.bracketedText ∨ key = n.dottedText) :
    (key ∈ Mapping.dotted.keysFor n ∧ key ∈ Mapping.dotted.keysFor n') ∧
      ∀ (s : Source) (v : Value) (σ τ : Session), s.mapper.mapper = Mapping.dotted →
        s.capability = .lookupOnly → s.provider.HasOnly key v →
        σ.Trusts s.mapper → τ.Trusts s.mapper →
        (s.get n σ).1 = .ok (some ⟨n, v, s.originOf key⟩) ∧
          (s.get n' τ).1 = .ok (some ⟨n', v, s.originOf key⟩) := by
  have ⟨hn, hn'⟩ := Mapping.mem_keysFor_of_renotes h hkey
  exact ⟨⟨hn, hn'⟩, fun s v σ τ hm hcap hp hσ hτ =>
    ⟨get_of_hasOnly hm hcap hσ hp hn, get_of_hasOnly hm hcap hτ hp hn'⟩⟩

/-- A file with the one key `grid.2.0`, which it does not list. -/
def cellSource : Source where
  id := 0
  name := "file"
  capability := .lookupOnly
  provider := (Entries.ofList [("grid.2.0", .text "x")]).provider "file"
  mapper := ⟨Mapping.dotted, none⟩
  derivedFrom := none

/-- The name `grid[2].0`. -/
def cell : Name :=
  ⟨[.literal ⟨"grid", by simp [isReserved], by simp [isSeparator]⟩, .index 2,
    .literal (.ofNumber 0)], List.cons_ne_nil _ _⟩

/-- The name `grid.2[0]`, with both numbers in the other notation. -/
def renotedCell : Name :=
  ⟨[.literal ⟨"grid", by simp [isReserved], by simp [isSeparator]⟩, .literal (.ofNumber 2),
    .index 0], List.cons_ne_nil _ _⟩

theorem renotes_cell : cell.Renotes renotedCell :=
  .cons (.same _) (.cons (.unbracketed 2) (.cons (.bracketed _ 0 (by decide +kernel)) .nil))

/-- A cell of a grid that is stored under dots is found with its numbers in brackets. -/
theorem notation_irrelevant_cell :
    cell.Renotes renotedCell ∧ cell.dottedText = "grid.2.0" ∧
      cellSource.provider.HasOnly "grid.2.0" (.text "x") ∧
      (cellSource.get cell .start).1 = .ok (some ⟨cell, .text "x", ⟨"file", "grid.2.0", none⟩⟩) ∧
      (cellSource.get renotedCell .start).1 =
        .ok (some ⟨renotedCell, .text "x", ⟨"file", "grid.2.0", none⟩⟩) := by
  have htext : cell.dottedText = "grid.2.0" := by decide +kernel
  have honly : cellSource.provider.HasOnly "grid.2.0" (.text "x") := by
    intro k
    by_cases hk : k = "grid.2.0" <;>
      simp [cellSource, Entries.provider, Entries.ofList, Entries.insert, Entries.find?, hk]
  have hlists := Session.trusts_start cellSource.mapper
  obtain ⟨-, hanswers⟩ := notation_irrelevant cell renotedCell _ renotes_cell (.inr htext.symm)
  exact ⟨renotes_cell, htext, honly, hanswers cellSource _ .start .start rfl rfl honly hlists hlists⟩

end Source

end LayeredConfig
