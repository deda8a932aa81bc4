import LayeredConfig.Name.Parser
import LayeredConfig.Proofs.Spelling

/-!
# LayeredConfig.Proofs.Reading

What is written is read back.

A name is laid out piece by piece: literals as they stand, a dot before each but the first, and
indexes in brackets.  Reading splits a text in the same places, since no literal holds a character
that structures names; so a name laid out as it stands is read back exactly (`Name.parse_written`).
Every other way to write a name, such as the canonical one, lays out a respelled name as it stands.
-/

namespace LayeredConfig

namespace Literal

theorem text_ne_nil (l : Literal) : l.text.toList ≠ [] := by
  obtain ⟨c, hc, -⟩ := l.substantial
  exact List.ne_nil_of_mem hc

/-- The text of a literal is accepted, and as this literal. -/
theorem read_text (l : Literal) : Literal.read l.text = .ok l := by
  have hfind : l.text.toList.find? isReserved = none :=
    List.find?_eq_none.mpr fun c hc => by simp [l.unreserved c hc]
  have hany : l.text.toList.any (!isSeparator ·) = true := by
    obtain ⟨c, hc, hs⟩ := l.substantial
    exact List.any_eq_true.mpr ⟨c, hc, by simp [hs]⟩
  rw [read, if_neg l.text_ne_nil]
  split
  · next c h =>
      rw [hfind] at h
      contradiction
  · rw [dif_pos hany]

end Literal

/-- The text of a literal is read as the literal. -/
theorem Element.read_text (l : Literal) : Element.read l.text = .ok (.literal l) := by
  rw [read, l.read_text]

namespace Name

/-! ## One element -/

/-- The piece that writes an element as it stands. -/
def writtenPiece : Element → Piece
  | .literal l => .plain l.text.toList
  | .index i => .bracketed i

/-- What follows a literal in a written name begins with a character that structures names. -/
def Follows (rest : List Char) : Prop := ∀ c ∈ rest.head?, isReserved c = true

/-- A run of a character class ends where a character outside of it follows. -/
theorem takeWhile_append_of_ends {p : Char → Bool} {cs rest : List Char} (hcs : ∀ c ∈ cs, p c = true)
    (hrest : ∀ c ∈ rest.head?, p c = false) :
    (cs ++ rest).takeWhile p = cs ∧ (cs ++ rest).dropWhile p = rest := by
  rw [List.takeWhile_append_of_pos hcs, List.dropWhile_append_of_pos hcs]
  cases rest with
  | nil => simp
  | cons c rest => simp [hrest c rfl]

/-- A literal is read from the front of a text, up to the next structuring character. -/
theorem readElement_literal (l : Literal) (afterDot : Bool) {rest : List Char} (h : Follows rest) :
    ∃ r : Rest (l.text.toList ++ rest),
      readElement afterDot (l.text.toList ++ rest) = .ok (.literal l, r) ∧ r.val = rest := by
  obtain ⟨htake, hdrop⟩ :
      (l.text.toList ++ rest).takeWhile (!isReserved ·) = l.text.toList
        ∧ (l.text.toList ++ rest).dropWhile (!isReserved ·) = rest :=
    takeWhile_append_of_ends (fun c hc => by simp [l.unreserved c hc])
      (fun c hc => by simp [h c hc])
  have hfront (d : Char) (cs : List Char) (hd : isReserved d = true) :
      l.text.toList ++ rest ≠ d :: cs := by
    intro heq
    rw [heq, List.takeWhile_cons_of_neg (by simp [hd])] at htake
    exact l.text_ne_nil htake.symm
  rw [readElement.eq_3 _ _ (fun cs heq => hfront ']' cs (by decide) heq)
    (fun cs heq => hfront '[' cs (by decide) heq)]
  split
  · next hrun =>
      rw [htake] at hrun
      exact absurd hrun l.text_ne_nil
  · next c run hrun =>
      rw [htake] at hrun
      have hread := l.read_text
      rw [← String.ofList_toList (s := l.text), hrun] at hread
      split
      · next flaw herror =>
          rw [hread] at herror
          contradiction
      · next m hm =>
          rw [hread] at hm
          rw [← Except.ok.inj hm]
          exact ⟨_, rfl, hdrop⟩

/-- What `digits` writes of a 64-bit number is read as this number. -/
theorem readIndex_digits (i : UInt64) : readIndex (Decimal.digits i.toNat) = .ok i := by
  have hlt : i.toNat < UInt64.size := i.toNat_lt_size
  simp only [readIndex, if_neg (Decimal.digits_ne_nil i.toNat), Decimal.read?_digits, if_pos hlt,
    UInt64.ofNat_toNat]

/-- Digits are read from the front of a text, with their brackets. -/
theorem readElement_bracketed {ds : List Char} {i : UInt64} (hi : readIndex ds = .ok i)
    (hds : ∀ d ∈ ds, d ≠ ']') (rest : List Char) :
    ∃ r : Rest ('[' :: (ds ++ ']' :: rest)),
      readElement false ('[' :: (ds ++ ']' :: rest)) = .ok (.index i, r) ∧ r.val = rest := by
  obtain ⟨htake, hdrop⟩ :
      (ds ++ ']' :: rest).takeWhile (· ≠ ']') = ds
        ∧ (ds ++ ']' :: rest).dropWhile (· ≠ ']') = ']' :: rest :=
    takeWhile_append_of_ends (fun c hc => by simpa using hds c hc) (by simp)
  rw [readElement.eq_2, if_neg Bool.false_ne_true]
  split
  · next h =>
      rw [hdrop] at h
      contradiction
  · next c more h =>
      rw [hdrop, List.cons.injEq] at h
      split
      · next flaw herror =>
          rw [htake, hi] at herror
          contradiction
      · next j hj =>
          rw [htake, hi] at hj
          rw [← Except.ok.inj hj]
          exact ⟨_, rfl, h.2.symm⟩

/-- An index is read from the front of a text. -/
theorem readElement_index (i : UInt64) (rest : List Char) :
    ∃ r : Rest ('[' :: (Decimal.digits i.toNat ++ ']' :: rest)),
      readElement false ('[' :: (Decimal.digits i.toNat ++ ']' :: rest)) = .ok (.index i, r)
        ∧ r.val = rest := by
  refine readElement_bracketed (readIndex_digits i) ?_ rest
  rintro _ hd rfl
  exact absurd (Element.plain_of_isDigit (Decimal.isDigit_of_mem_digits hd)).1 (by decide)

/-! ## All elements -/

/-- The text of an element as it stands. -/
def writtenText : Element → List Char
  | .literal l => l.text.toList
  | .index i => '[' :: (Decimal.digits i.toNat ++ [']'])

/-- Elements laid out after another one begin with a dot or a bracket. -/
theorem follows_layoutRest (es : List Element) : Follows (layoutRest (es.map writtenPiece)) := by
  cases es with
  | nil => simp [Follows, layoutRest]
  | cons e es =>
      cases e with
      | literal l => simp [Follows, layoutRest, writtenPiece, isReserved]
      | index i => simp [Follows, layoutRest, writtenPiece, isReserved]

/-- An element is read from the front of a layout; after a dot, only a literal stands. -/
theorem readElement_written (e : Element) {afterDot : Bool}
    (hdot : e.isIndexed = true → afterDot = false) (es : List Element) :
    ∃ r, readElement afterDot (writtenText e ++ layoutRest (es.map writtenPiece)) = .ok (e, r)
      ∧ r.val = layoutRest (es.map writtenPiece) := by
  cases e with
  | literal l => exact readElement_literal l afterDot (follows_layoutRest es)
  | index i =>
      have happend : writtenText (.index i) ++ layoutRest (es.map writtenPiece)
          = '[' :: (Decimal.digits i.toNat ++ ']' :: layoutRest (es.map writtenPiece)) := by
        simp [writtenText]
      rw [hdot rfl, happend]
      exact readElement_index i _

section

variable {afterDot : Bool} {cs : List Char} {e : Element} {r : Rest cs}
  (hread : readElement afterDot cs = .ok (e, r))
include hread

/-- At the end of the text, reading ends. -/
theorem readElements_end (hr : r.val = []) : readElements afterDot cs = .ok [e] := by
  obtain ⟨v, hv⟩ := r
  subst hr
  rw [readElements, hread]

/-- After a dot, reading goes on with what must be a literal. -/
theorem readElements_dot {c : Char} {more : List Char} (hr : r.val = '.' :: c :: more) :
    readElements afterDot cs = (readElements true (c :: more)).map (e :: ·) := by
  obtain ⟨v, hv⟩ := r
  subst hr
  rw [readElements, hread]
  rfl

/-- At an opening bracket, reading goes on with an index. -/
theorem readElements_bracket {more : List Char} (hr : r.val = '[' :: more) :
    readElements afterDot cs = (readElements false ('[' :: more)).map (e :: ·) := by
  obtain ⟨v, hv⟩ := r
  subst hr
  rw [readElements, hread]
  rfl

end

/-- Elements laid out as they stand are read back. -/
theorem readElements_written (e : Element) {afterDot : Bool}
    (hdot : e.isIndexed = true → afterDot = false) (es : List Element) :
    readElements afterDot (writtenText e ++ layoutRest (es.map writtenPiece)) = .ok (e :: es) := by
  induction es generalizing e afterDot with
  | nil =>
      obtain ⟨r, hread, hr⟩ := readElement_written e hdot []
      exact readElements_end hread hr
  | cons f es ih =>
      obtain ⟨r, hread, hr⟩ := readElement_written e hdot (f :: es)
      cases f with
      | literal l =>
          obtain ⟨c, cs, hcs⟩ := List.exists_cons_of_ne_nil l.text_ne_nil
          have hr' : r.val = '.' :: c :: (cs ++ layoutRest (es.map writtenPiece)) := by
            rw [hr]
            simp [layoutRest, writtenPiece, hcs]
          have hih : readElements true (l.text.toList ++ layoutRest (es.map writtenPiece))
              = .ok (.literal l :: es) := ih (.literal l) (by simp [Element.isIndexed])
          rw [hcs, List.cons_append] at hih
          rw [readElements_dot hread hr', hih]
          rfl
      | index i =>
          have hr' : r.val
              = '[' :: (Decimal.digits i.toNat ++ ']' :: layoutRest (es.map writtenPiece)) := hr
          have hih := ih (.index i) (fun _ => rfl)
          rw [writtenText, List.cons_append, List.append_assoc] at hih
          rw [readElements_bracket hread hr']
          exact congrArg (·.map (e :: ·)) hih

/-! ## Names -/

/-- A name as it stands. -/
def written (n : Name) : String := String.ofList (layout (n.elements.map writtenPiece))

/-- A layout begins with the text of the first element. -/
theorem layout_written (e : Element) (es : List Element) :
    layout ((e :: es).map writtenPiece) = writtenText e ++ layoutRest (es.map writtenPiece) := by
  cases e with
  | literal l => rfl
  | index i => simp [layout, layoutRest, writtenPiece, writtenText]

theorem writtenText_ne_nil (e : Element) : writtenText e ≠ [] := by
  cases e with
  | literal l => exact l.text_ne_nil
  | index i => simp [writtenText]

/-- A name is parsed when its elements are read. -/
theorem parse_of_readElements {text : String} {es : List Element} (hne : text ≠ "")
    (h : readElements false text.toList = .ok es) :
    parse text = .ok ⟨es, readElements_ne_nil h⟩ := by
  rw [parse, if_neg hne]
  split
  · next flaw herror =>
      rw [h] at herror
      contradiction
  · next fs hok =>
      rw [h] at hok
      cases hok
      rfl

/-- **A name written as it stands is read back.** -/
theorem parse_written (n : Name) : parse n.written = .ok n := by
  obtain ⟨es, hes⟩ := n
  obtain ⟨e, es, rfl⟩ := List.exists_cons_of_ne_nil hes
  have hlayout : (written ⟨e :: es, hes⟩).toList
      = writtenText e ++ layoutRest (es.map writtenPiece) := by
    rw [written, String.toList_ofList, layout_written]
  have hread : readElements false (written ⟨e :: es, hes⟩).toList = .ok (e :: es) := by
    rw [hlayout]
    exact readElements_written e (fun _ => rfl) es
  have hne : written ⟨e :: es, hes⟩ ≠ "" := by
    intro h
    rw [h] at hlayout
    exact writtenText_ne_nil e (List.append_eq_nil_iff.mp hlayout.symm).1
  exact parse_of_readElements hne hread

/-! ## Canonical texts -/

/-- A canonical text is that of the dashed spelling. -/
theorem canonicalPiece_eq (e : Element) :
    canonicalPiece e = writtenPiece (e.spelled Literal.dashed) := by
  cases e with
  | literal l =>
      rw [Element.spelled, writtenPiece, Literal.text_dashed, String.toList_ofList]
      rfl
  | index i => rfl

/-- The canonical text is that of the name with dashed literals, as it stands. -/
theorem canonical_eq_written (n : Name) :
    n.canonical = (n.respell (Element.spelled Literal.dashed)).written := by
  rw [canonical, written, respell, List.map_map]
  exact congrArg (String.ofList ∘ layout) (List.map_congr_left fun e _ => canonicalPiece_eq e)

/-- The canonical text of a name is parsed as its dashed spelling. -/
theorem parse_canonical (n : Name) :
    parse n.canonical = .ok (n.respell (Element.spelled Literal.dashed)) := by
  rw [canonical_eq_written, parse_written]

/-- Dashing literals changes no canonical text. -/
theorem canonical_dashed (n : Name) :
    (n.respell (Element.spelled Literal.dashed)).canonical = n.canonical := by
  have hpiece (e : Element) : canonicalPiece (e.spelled Literal.dashed) = canonicalPiece e := by
    cases e with
    | literal l =>
        simp only [canonicalPiece, Element.spelled, Element.dashedChars, Literal.words_dashed]
    | index i => rfl
  rw [canonical, canonical, respell, List.map_map]
  exact congrArg (String.ofList ∘ layout) (List.map_congr_left fun e _ => hpiece e)

/-- The dashed spelling is one of the name. -/
theorem agrees_dashed (n : Name) : (n.respell (Element.spelled Literal.dashed)).agrees n = true :=
  agrees_respell (Element.uniformChars_spelled Literal.uniformChars_dashed) n

/-- **Canonical round trip**: the canonical text of any name is read as the same name, of elements
of the same kinds, and printed as the same text again; so names of one canonical text agree.

Literals hold their well-formedness and names their first element, so a name is whatever parsing,
elements, appending and chopping can give. -/
theorem canonical_round_trip (n : Name) :
    0 < n.length
      ∧ (∃ m, parse n.canonical = .ok m ∧ m.agrees n = true ∧ m.length = n.length
          ∧ m.elements.map Element.isIndexed = n.elements.map Element.isIndexed
          ∧ m.canonical = n.canonical)
      ∧ ∀ k : Name, k.canonical = n.canonical → k.agrees n = true := by
  refine ⟨List.length_pos_iff.mpr n.elements_ne_nil, ?_, ?_⟩
  · refine ⟨_, parse_canonical n, agrees_dashed n, List.length_map _, ?_, canonical_dashed n⟩
    rw [respell, List.map_map]
    refine List.map_congr_left fun e _ => ?_
    cases e <;> rfl
  · intro k hk
    have hparse := parse_canonical k
    rw [hk, parse_canonical n] at hparse
    have hsame := Except.ok.inj hparse
    have hn := agrees_iff.mp (agrees_dashed n)
    rw [hsame, agrees_iff.mp (agrees_dashed k)] at hn
    exact agrees_iff.mpr hn

end Name

end LayeredConfig
