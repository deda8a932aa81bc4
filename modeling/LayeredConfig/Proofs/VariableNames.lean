import LayeredConfig.Proofs.Grammar
import LayeredConfig.Proofs.Ancestry
import LayeredConfig.Proofs.Respelling

/-!
# LayeredConfig.Proofs.VariableNames

The names that environment variables stand for, without the list shortcut.

1. A raw key is cut at every `_`, and each piece is lower-cased as a whole before it becomes a
   literal.  A capital sigma that ends a word then becomes `ς` and not `σ`, and nothing else becomes
   another letter than by itself, so a piece keeps its uniform form exactly if it has no such sigma
   (`Text.uniformOf_lowercaseAfter`).
2. The keys that stand for names are those whose pieces are literals
   (`Mapping.exists_environmentName_iff`), and the name has the uniform forms of the lower-cased
   pieces (`Mapping.forms_of_environmentName`).
3. So a key stands for the name that its pieces spell, and the variable is found under it, exactly
   if no sigma is final (`Mapping.environmentName_spec`).
-/

namespace LayeredConfig

/-- The uniform form of a text: every character in lower case, `-` and `_` left out. -/
def uniformOf (cs : List Char) : List Char := (cs.filter (!isSeparator ·)).flatMap Text.lower

@[simp] theorem uniformOf_append (cs ds : List Char) :
    uniformOf (cs ++ ds) = uniformOf cs ++ uniformOf ds := by
  simp [uniformOf]

/-- A small letter and a character beyond ASCII neither structure nor separate. -/
theorem plain_of_isLower_or {c : Char} (h : c.isLower = true ∨ 127 < c.toNat) :
    isReserved c = false ∧ isSeparator c = false := by
  have hne (d : Char) (hlower : d.isLower = false) (hascii : d.toNat ≤ 127) : c ≠ d := by
    rintro rfl
    rw [hlower] at h
    exact absurd (h.resolve_left Bool.false_ne_true) (by omega)
  have hdot := hne '.' (by decide) (by decide)
  have hopen := hne '[' (by decide) (by decide)
  have hclose := hne ']' (by decide) (by decide)
  have hdash := hne '-' (by decide) (by decide)
  have hline := hne '_' (by decide) (by decide)
  simp [isReserved, isSeparator, hdot, hopen, hclose, hdash, hline]

namespace Text

variable {before cs : List Char} {c d : Char}

/-! ## Lower-casing a whole text -/

/-- Lower-casing makes no character structure or separate, and keeps none from it. -/
theorem class_of_mem_lower (h : d ∈ lower c) :
    isReserved d = isReserved c ∧ isSeparator d = isSeparator c := by
  by_cases hascii : c.toNat < 128
  · rw [lower_of_ascii hascii, List.mem_singleton] at h
    rw [h, isReserved_toLower, isSeparator_toLower]
    exact ⟨rfl, rfl⟩
  · have hc := plain_of_isLower_or (c := c) (.inr (by omega))
    rcases mem_lower_cases h with rfl | hd
    · exact ⟨rfl, rfl⟩
    · have hd := plain_of_isLower_or hd
      exact ⟨hd.1.trans hc.1.symm, hd.2.trans hc.2.symm⟩

/-- Lower-casing a character leaves its uniform form as it is. -/
theorem uniformOf_lower (c : Char) : uniformOf (lower c) = uniformOf [c] := by
  cases h : isSeparator c with
  | true =>
      have hnone : (lower c).filter (!isSeparator ·) = [] :=
        List.filter_eq_nil_iff.mpr fun d hd => by simp [(class_of_mem_lower hd).2, h]
      simp [uniformOf, hnone, h]
  | false =>
      have hall : (lower c).filter (!isSeparator ·) = lower c :=
        List.filter_eq_self.mpr fun d hd => by simp [(class_of_mem_lower hd).2, h]
      rw [uniformOf, hall, flatMap_lower_of_fixed fun d hd => lower_of_mem_lower hd]
      simp [uniformOf, h]

/-- What lower-casing a text makes of one character of it. -/
def lowerIn (before : List Char) (c : Char) (after : List Char) : List Char :=
  if c = 'Σ' then [if meetsCased before && !meetsCased after then 'ς' else 'σ'] else lower c

theorem lowercaseAfter_cons :
    lowercaseAfter before (c :: cs) = lowerIn before c cs ++ lowercaseAfter (c :: before) cs := rfl

/-- A capital sigma is taken by itself for the small one, unless it ends a word. -/
theorem lowerIn_eq (before : List Char) (c : Char) (after : List Char) :
    lowerIn before c after =
      if c = 'Σ' ∧ meetsCased before = true ∧ meetsCased after = false then ['ς'] else lower c := by
  have hsigma : lower 'Σ' = ['σ'] := by decide +kernel
  by_cases hc : c = 'Σ'
  · subst hc
    cases hbefore : meetsCased before <;> cases hafter : meetsCased after <;>
      simp [lowerIn, hbefore, hafter, hsigma]
  · simp [lowerIn, hc]

/-- What is true of a character and its small letters alike is true somewhere in the lower-cased
text exactly if it is somewhere in the text. -/
theorem any_lowercaseAfter {p : Char → Bool} (hp : ∀ c, ∀ d ∈ lower c, p d = p c)
    (hsigma : p 'ς' = p 'Σ') : (lowercaseAfter before cs).any p = cs.any p := by
  have hfirst (before : List Char) (c : Char) (after : List Char) :
      (lowerIn before c after).any p = p c := by
    rw [lowerIn_eq]
    split
    · next h => simp [h.1, hsigma]
    · obtain ⟨d, hd⟩ := List.exists_mem_of_ne_nil _ (lower_ne_nil c)
      cases hc : p c with
      | true => exact List.any_eq_true.mpr ⟨d, hd, by rw [hp c d hd, hc]⟩
      | false => exact List.any_eq_false.mpr fun d hd => by simp [hp c d hd, hc]
  induction cs generalizing before with
  | nil => rfl
  | cons c cs ih => rw [lowercaseAfter_cons, List.any_append, hfirst, ih, List.any_cons]

/-! ## Final sigmas -/

/-- A capital sigma of a text ends a word: a cased character stands before it, and none after it. -/
def EndsInSigma (before cs : List Char) : Prop :=
  ∃ pre post, cs = pre ++ 'Σ' :: post ∧
    meetsCased (pre.reverse ++ before) = true ∧ meetsCased post = false

/-- A sigma that ends a word is the first character, or stands behind it. -/
theorem endsInSigma_cons_iff : EndsInSigma before (c :: cs) ↔
    (c = 'Σ' ∧ meetsCased before = true ∧ meetsCased cs = false) ∨
      EndsInSigma (c :: before) cs := by
  constructor
  · rintro ⟨pre, post, hcs, hbefore, hpost⟩
    cases pre with
    | nil =>
        cases hcs
        exact .inl ⟨rfl, hbefore, hpost⟩
    | cons d pre =>
        cases hcs
        exact .inr ⟨pre, post, rfl, by simpa using hbefore, hpost⟩
  · rintro (⟨rfl, hbefore, hpost⟩ | ⟨pre, post, rfl, hbefore, hpost⟩)
    · exact ⟨[], cs, rfl, hbefore, hpost⟩
    · exact ⟨c :: pre, post, rfl, by simpa using hbefore, hpost⟩

/-- Without a capital sigma no word ends in one. -/
theorem not_endsInSigma_of_not_mem (h : 'Σ' ∉ cs) : ¬ EndsInSigma before cs := by
  rintro ⟨pre, post, rfl, -⟩
  simp at h

/-- **Lower-casing a whole text keeps its uniform form exactly if no capital sigma ends a word.**
One that does becomes another small letter than by itself, and all else becomes what it is by
itself. -/
theorem uniformOf_lowercaseAfter :
    uniformOf (lowercaseAfter before cs) = uniformOf cs ↔ ¬ EndsInSigma before cs := by
  have hfinal : uniformOf ['ς'] = ['ς'] := by decide +kernel
  have hsigma : uniformOf ['Σ'] = ['σ'] := by decide +kernel
  induction cs generalizing before with
  | nil => simp [lowercaseAfter, EndsInSigma]
  | cons c cs ih =>
      have hsplit : uniformOf (c :: cs) = uniformOf [c] ++ uniformOf cs := uniformOf_append [c] cs
      rw [endsInSigma_cons_iff, lowercaseAfter_cons, uniformOf_append, hsplit, lowerIn_eq]
      split
      · next hends =>
          rw [hends.1, hfinal, hsigma]
          simp [hends]
      · next hends =>
          rw [uniformOf_lower, List.append_cancel_left_eq, or_iff_right hends]
          exact ih

end Text

/-! ## The pieces of a key -/

/-- A text is accepted as a literal if it holds no reserved character and something besides
separators. -/
theorem Literal.exists_read_iff {text : String} : (∃ l, read text = .ok l) ↔
    text.toList.any isReserved = false ∧ text.toList.any (!isSeparator ·) = true := by
  constructor
  · rintro ⟨l, hl⟩
    rw [← Grammar.text_of_read hl]
    exact ⟨List.any_eq_false.mpr fun c hc => by simp [l.unreserved c hc], by
      simpa using l.substantial⟩
  · rintro ⟨hunreserved, hsubstantial⟩
    have hread := read_text ⟨text, by simpa using hunreserved, by simpa using hsubstantial⟩
    exact ⟨_, hread⟩

namespace Mapping

variable {s : List Char} {e : Element} {ss : List (List Char)} {es : List Element}

/-- The uniform form of a piece of a raw key once it is lower-cased. -/
def loweredForm (s : List Char) : List Char := uniformOf (Text.lowercaseAfter [] s)

/-- A segment that is read as a literal has the lower-cased form of the segment. -/
theorem uniformChars_of_read {l : Literal}
    (h : Literal.read (Text.lowercase (String.ofList s)) = .ok l) :
    l.uniformChars = loweredForm s := by
  rw [Literal.uniformChars, Grammar.text_of_read h, Text.lowercase, String.toList_ofList,
    String.toList_ofList]
  rfl

/-- A lower-cased segment is a literal if nothing in the segment is reserved and something is no
separator. -/
theorem exists_read_lowercase_iff : (∃ l, Literal.read (Text.lowercase (String.ofList s)) = .ok l) ↔
    s.any isReserved = false ∧ s.any (!isSeparator ·) = true := by
  have hreserved : (Text.lowercaseAfter [] s).any isReserved = s.any isReserved :=
    Text.any_lowercaseAfter (fun c d hd => (Text.class_of_mem_lower hd).1) (by decide)
  have hseparator : (Text.lowercaseAfter [] s).any (!isSeparator ·) = s.any (!isSeparator ·) :=
    Text.any_lowercaseAfter (fun c d hd => by rw [(Text.class_of_mem_lower hd).2]) (by decide)
  rw [Literal.exists_read_iff, Text.lowercase, String.toList_ofList, String.toList_ofList,
    hreserved, hseparator]

/-- A piece stands for the literal that it is once lower-cased, or for its number. -/
theorem segmentElement_of_read {l : Literal} (hs : s ≠ [])
    (h : Literal.read (Text.lowercase (String.ofList s)) = .ok l) :
    ∃ e, segmentElement s = .ok e ∧ e.uniformChars = loweredForm s := by
  rw [segmentElement, if_neg hs, Element.read, h, ← uniformChars_of_read h]
  cases hi : (Element.literal l).asIndex? with
  | none => exact ⟨.literal l, by simp only [hi], rfl⟩
  | some i => exact ⟨.index i, by simp only [hi], (Element.asIndex?_eq_some_iff.mp hi).symm⟩

/-- A piece stands for an element exactly if it is a literal. -/
theorem exists_segmentElement_iff : (∃ e, segmentElement s = .ok e) ↔
    s.any isReserved = false ∧ s.any (!isSeparator ·) = true := by
  rw [← exists_read_lowercase_iff]
  by_cases hs : s = []
  · subst hs
    refine iff_of_false ?_ ?_
    · rintro ⟨e, he⟩
      contradiction
    · rw [exists_read_lowercase_iff]
      simp
  · constructor
    · rintro ⟨e, he⟩
      rw [segmentElement, if_neg hs, Element.read] at he
      cases h : Literal.read (Text.lowercase (String.ofList s)) with
      | error flaw =>
          rw [h] at he
          contradiction
      | ok l => exact ⟨l, rfl⟩
    · rintro ⟨l, hl⟩
      obtain ⟨e, he, -⟩ := segmentElement_of_read hs hl
      exact ⟨e, he⟩

/-- The uniform form of the element is that of the piece once it is lower-cased. -/
theorem uniformChars_of_segmentElement (h : segmentElement s = .ok e) :
    e.uniformChars = loweredForm s := by
  obtain ⟨l, hl⟩ := exists_read_lowercase_iff.mpr (exists_segmentElement_iff.mp ⟨e, h⟩)
  have hs : s ≠ [] := by
    rintro rfl
    contradiction
  obtain ⟨e', he', huniform⟩ := segmentElement_of_read hs hl
  rw [h] at he'
  cases he'
  exact huniform

/-- Segments are elements if each of them is one. -/
theorem exists_segmentElements_iff : (∃ es, segmentElements ss = .ok es) ↔
    ∀ s ∈ ss, ∃ e, segmentElement s = .ok e := by
  induction ss with
  | nil => simp [segmentElements]
  | cons s ss ih =>
      rw [List.forall_mem_cons, ← ih, segmentElements]
      cases segmentElement s <;> cases segmentElements ss <;> simp [Except.map]

/-- The uniform forms of the elements are the lower-cased forms of the segments. -/
theorem uniformChars_of_segmentElements (h : segmentElements ss = .ok es) :
    es.map Element.uniformChars = ss.map loweredForm := by
  induction ss generalizing es with
  | nil =>
      cases h
      rfl
  | cons s ss ih =>
      rw [segmentElements] at h
      cases he : segmentElement s with
      | error flaw => simp [he] at h
      | ok e =>
          cases hes : segmentElements ss with
          | error flaw => simp [he, hes, Except.map] at h
          | ok es' =>
              simp only [he, hes, Except.map, Except.ok.injEq] at h
              rw [← h, List.map_cons, List.map_cons, uniformChars_of_segmentElement he, ih hes]

/-! ## Keys -/

/-- The pieces of a raw key, between its `_`. -/
def pieces (key : String) : List (List Char) := Text.split '_' key.toList

/-- The raw keys that variables have: free of `.`, `[` and `]`, and with something other than `-` in
every piece. -/
structure Mappable (key : String) : Prop where
  unreserved : ∀ c ∈ key.toList, isReserved c = false
  substantial : ∀ s ∈ pieces key, ∃ c ∈ s, c ≠ '-'

/-- The pieces of a raw key as a dotted name. -/
def dottedText (key : String) : String := String.ofList (Text.join '.' (pieces key))

variable {key : String} {n : Name}

theorem pieces_ne_nil (key : String) : pieces key ≠ [] := Text.split_ne_nil '_' key.toList

/-- A piece holds characters of the key, other than `_`. -/
theorem mem_of_mem_pieces {c : Char} (hs : s ∈ pieces key) (hc : c ∈ s) :
    c ∈ key.toList ∧ c ≠ '_' := by
  have hflat : c ∈ (pieces key).flatten := List.mem_flatten.mpr ⟨s, hs, hc⟩
  rw [pieces, Text.flatten_split] at hflat
  simpa using hflat

/-- The pieces of a key that can be mapped are literals. -/
theorem Mappable.isLiteral (h : Mappable key) (hs : s ∈ pieces key) : Grammar.IsLiteral s where
  ne_nil := by
    obtain ⟨c, hc, -⟩ := h.substantial s hs
    exact List.ne_nil_of_mem hc
  unreserved := fun c hc =>
    Grammar.isReserved_eq_false_iff.mp (h.unreserved c (mem_of_mem_pieces hs hc).1)
  substantial := by
    obtain ⟨c, hc, hdash⟩ := h.substantial s hs
    exact ⟨c, hc, hdash, (mem_of_mem_pieces hs hc).2⟩

theorem ne_nil_of_segmentElements (h : segmentElements (pieces key) = .ok es) : es ≠ [] := by
  rintro rfl
  exact pieces_ne_nil key (List.map_eq_nil_iff.mp (uniformChars_of_segmentElements h).symm)

/-- The name of a variable is that of its pieces, if it has no reserved character. -/
theorem environmentName_eq_ok_iff : environmentName false key = .ok n ↔
    (∀ c ∈ key.toList, isReserved c = false) ∧ segmentElements (pieces key) = .ok n.elements := by
  have hpieces : Text.split '_' (stem false key) = pieces key := rfl
  rw [environmentName, hpieces]
  cases hfind : key.toList.find? isReserved with
  | some c =>
      refine iff_of_false (by simp) fun h => ?_
      have hc := List.find?_some hfind
      rw [h.1 c (List.mem_of_find?_eq_some hfind)] at hc
      contradiction
  | none =>
      have hunreserved : ∀ c ∈ key.toList, isReserved c = false := by simpa using hfind
      rw [and_iff_right hunreserved]
      cases hes : segmentElements (pieces key) with
      | error flaw => simp
      | ok es =>
          obtain ⟨_, _⟩ := n
          simp [Name.ofElements, ne_nil_of_segmentElements hes, Except.mapError]

/-- **A raw key stands for a name exactly if it is mappable.** -/
theorem exists_environmentName_iff : (∃ n, environmentName false key = .ok n) ↔ Mappable key := by
  constructor
  · rintro ⟨n, hn⟩
    obtain ⟨hunreserved, hes⟩ := environmentName_eq_ok_iff.mp hn
    refine ⟨hunreserved, fun s hs => ?_⟩
    obtain ⟨-, hany⟩ := exists_segmentElement_iff.mp (exists_segmentElements_iff.mp ⟨_, hes⟩ s hs)
    obtain ⟨c, hc, hsep⟩ := List.any_eq_true.mp hany
    refine ⟨c, hc, ?_⟩
    rintro rfl
    contradiction
  · intro h
    obtain ⟨es, hes⟩ := exists_segmentElements_iff.mpr fun s hs => by
      have hl := h.isLiteral hs
      refine exists_segmentElement_iff.mpr ⟨?_, ?_⟩
      · simpa using hl.isReserved_eq_false
      · simpa [isSeparator] using hl.substantial
    exact ⟨⟨es, ne_nil_of_segmentElements hes⟩,
      environmentName_eq_ok_iff.mpr ⟨h.unreserved, hes⟩⟩

/-- The name has the uniform forms of the pieces once they are lower-cased. -/
theorem forms_of_environmentName (h : environmentName false key = .ok n) :
    n.forms = (pieces key).map loweredForm :=
  uniformChars_of_segmentElements (environmentName_eq_ok_iff.mp h).2

/-- No capital sigma ends a word in a piece of the key. -/
def NoFinalSigma (key : String) : Prop := ∀ s ∈ pieces key, ¬ Text.EndsInSigma [] s

/-- Lower-casing keeps the uniform forms of all pieces exactly if no sigma is final. -/
theorem map_loweredForm_eq_iff :
    (pieces key).map loweredForm = (pieces key).map uniformOf ↔ NoFinalSigma key :=
  List.map_inj_left.trans (forall₂_congr fun _ _ => Text.uniformOf_lowercaseAfter)

end Mapping

/-! ## The dotted name -/

namespace Name

theorem append_layoutRest_plain (p : List Char) (ps : List (List Char)) :
    p ++ layoutRest (ps.map .plain) = Text.join '.' (p :: ps) := by
  induction ps generalizing p with
  | nil => simp [layoutRest, Text.join]
  | cons q ps ih =>
      rw [List.map_cons, layoutRest, List.cons_append, ih, Text.join_cons_cons]

/-- Plain texts are laid out with dots between them. -/
theorem layout_plain {ps : List (List Char)} (h : ps ≠ []) :
    layout (ps.map .plain) = Text.join '.' ps := by
  obtain ⟨p, ps, rfl⟩ := List.exists_cons_of_ne_nil h
  exact append_layoutRest_plain p ps

/-- Literals with dots between them are read as a name of these literals. -/
theorem parse_join {ss : List (List Char)} (hne : ss ≠ []) (h : ∀ s ∈ ss, Grammar.IsLiteral s) :
    ∃ d, parse (String.ofList (Text.join '.' ss)) = .ok d ∧ d.forms = ss.map uniformOf := by
  obtain ⟨ls, rfl⟩ : ∃ ls : List Literal, ls.map (·.text.toList) = ss := by
    clear hne
    induction ss with
    | nil => exact ⟨[], rfl⟩
    | cons s ss ih =>
        obtain ⟨hs, hss⟩ := List.forall_mem_cons.mp h
        obtain ⟨l, rfl⟩ := hs.exists_literal
        obtain ⟨ls, rfl⟩ := ih hss
        exact ⟨l :: ls, rfl⟩
  have hls : ls.map Element.literal ≠ [] := by simpa using hne
  have hwritten : written ⟨ls.map .literal, hls⟩
      = String.ofList (Text.join '.' (ls.map (·.text.toList))) := by
    rw [written, ← layout_plain hne, List.map_map, List.map_map]
    rfl
  refine ⟨⟨ls.map .literal, hls⟩, hwritten ▸ parse_written _, ?_⟩
  rw [forms, List.map_map, List.map_map]
  rfl

end Name

/-! ## Sources over variables -/

/-- A source that can list its keys answers a name for which a listed key with a value stands,
unless a lookup fails. -/
theorem Source.get_of_listed {s : Source} {n : Name} {key : String} {σ : Session}
    (hm : s.mapper.mapper = Mapping.dotted ∨ s.mapper.mapper = Mapping.environment false)
    (hcap : s.capability = .enumerable) (hanswers : ∀ k, ∃ found, s.provider.get k = .ok found)
    (hindex : σ.Faithful s) (hlists : σ.Trusts s.mapper) (hkey : key ∈ s.provider.keys)
    (has : s.provider.Has key) (hstands : s.mapper.mapper.standsFor n key = true) :
    ∃ key' v, s.mapper.mapper.standsFor n key' = true ∧ s.provider.get key' = .ok (some v) ∧
      (s.get n σ).1 = .ok (some ⟨n, v, s.originOf key'⟩) := by
  have hdirect := Mapping.direct_of_eq hm
  have hsearched : key ∈ s.searched n := by
    rw [searched, hcap, List.mem_append]
    by_cases h : key ∈ s.mapper.mapper.keysFor n
    · exact .inl h
    · exact .inr (by simp [hkey, hstands, h])
  rw [get_eq_reply (Mapping.builtIn_of_eq hm) hindex hlists, reply_of_direct hdirect]
  obtain ⟨found, hfound, hspec⟩ := s.first_spec n hanswers (s.searched n)
  have hsome : found.isSome = true := (isSome_first_iff hspec).mpr ⟨key, hsearched, has⟩
  obtain ⟨p, rfl⟩ := Option.isSome_iff_exists.mp hsome
  obtain ⟨key', v, hfirst, hv, rfl⟩ := (hspec p).mp rfl
  exact ⟨key', v, standsFor_of_mem_searched hdirect hfirst.mem_has.1, hv, hfound⟩

namespace Mapping

variable {key' : String} {n' : Name}

/-- Keys without final sigmas stand for one name exactly if their pieces have the same uniform
forms. -/
theorem agrees_iff_pieces (hn : environmentName false key = .ok n)
    (hn' : environmentName false key' = .ok n') (h : NoFinalSigma key) (h' : NoFinalSigma key') :
    n.agrees n' = true ↔ (pieces key).map uniformOf = (pieces key').map uniformOf := by
  rw [Name.agrees_iff_forms, forms_of_environmentName hn, forms_of_environmentName hn',
    map_loweredForm_eq_iff.mpr h, map_loweredForm_eq_iff.mpr h']

/-- A key stands for the name that its pieces spell exactly if no sigma is final. -/
theorem standsFor_iff_noFinalSigma (hkey : Mappable key) {d : Name}
    (hd : d.forms = (pieces key).map uniformOf) :
    (environment false).standsFor d key = true ↔ NoFinalSigma key := by
  obtain ⟨n, hn⟩ := exists_environmentName_iff.mpr hkey
  have hagrees : n.agrees d = true ↔ NoFinalSigma key := by
    rw [Name.agrees_iff_forms, forms_of_environmentName hn, hd, map_loweredForm_eq_iff]
  have hname : (environment false).nameOf key = .ok n := hn
  rw [← hagrees, Mapper.standsFor, hname]

/-- **The names that environment variables stand for.**  Without the list shortcut, a raw key stands
for a name exactly if it is free of `.`, `[` and `]` and every piece between its `_` holds something
other than `-`.  The elements of the name have the uniform forms of the pieces, each of them
lower-cased as a whole before; these are the uniform forms of the pieces themselves exactly if no
capital sigma ends a word in a piece, since only such a sigma has another small letter in a text
than by itself.

So keys without final sigmas whose pieces have the same uniform forms stand for names that agree,
and the pieces of such a key, written with dots, are a name that the key stands for and that every
source over the variable answers, if it can list its keys and no lookup fails.  A key with a final
sigma does not stand for the name that its pieces spell. -/
theorem environmentName_spec (key : String) :
    ((∃ n, (environment false).nameOf key = .ok n) ↔ Mappable key) ∧
    (∀ n, (environment false).nameOf key = .ok n →
      n.forms = (pieces key).map loweredForm ∧
      (n.forms = (pieces key).map uniformOf ↔ NoFinalSigma key)) ∧
    (∀ key' n n', (environment false).nameOf key = .ok n →
      (environment false).nameOf key' = .ok n' → NoFinalSigma key → NoFinalSigma key' →
      (n.agrees n' = true ↔ (pieces key).map uniformOf = (pieces key').map uniformOf)) ∧
    (Mappable key → ∃ d, Name.parse (dottedText key) = .ok d ∧
      d.forms = (pieces key).map uniformOf ∧
      ((environment false).standsFor d key = true ↔ NoFinalSigma key) ∧
      ∀ (s : Source) (σ : Session), s.mapper.mapper = environment false →
        s.capability = .enumerable → (∀ k, ∃ found, s.provider.get k = .ok found) →
        σ.Faithful s → σ.Trusts s.mapper → key ∈ s.provider.keys → s.provider.Has key →
        NoFinalSigma key →
        ∃ key' v, (environment false).standsFor d key' = true ∧
          s.provider.get key' = .ok (some v) ∧
          (s.get d σ).1 = .ok (some ⟨d, v, s.originOf key'⟩)) := by
  refine ⟨exists_environmentName_iff, fun n hn => ?_,
    fun key' n n' hn hn' h h' => agrees_iff_pieces hn hn' h h', fun hkey => ?_⟩
  · have hforms := forms_of_environmentName hn
    refine ⟨hforms, ?_⟩
    rw [hforms]
    exact map_loweredForm_eq_iff
  · obtain ⟨d, hd, hforms⟩ := Name.parse_join (pieces_ne_nil key) fun s hs => hkey.isLiteral hs
    have hstands := standsFor_iff_noFinalSigma hkey hforms
    refine ⟨d, hd, hforms, hstands, ?_⟩
    intro s σ hm hcap hanswers hindex hlists hlisted has hsigma
    rw [← hm] at hstands ⊢
    exact Source.get_of_listed (.inr hm) hcap hanswers hindex hlists hlisted has
      (hstands.mpr hsigma)

/-- The environment with the variables `SERVER_CONTEXT-PATH` and `ΟΔΟΣ`. -/
def variableSource : Source where
  id := 0
  name := Environment.sourceName
  capability := .enumerable
  provider := Environment.ofVariables Environment.sourceName none
    [("SERVER_CONTEXT-PATH", "/app"), ("ΟΔΟΣ", "/street")]
  mapper := ⟨environment false, none⟩
  derivedFrom := none

/-- The variable `SERVER_CONTEXT-PATH` is found under its own spelling, and `ΟΔΟΣ` does not stand
for the name that it spells. -/
theorem environmentName_spec_variableSource :
    (∃ d key v, Name.parse "SERVER.CONTEXT-PATH" = .ok d ∧
      (environment false).standsFor d key = true ∧
      (variableSource.get d .start).1 = .ok (some ⟨d, v, variableSource.originOf key⟩)) ∧
    ∃ d, Name.parse "ΟΔΟΣ" = .ok d ∧ (environment false).standsFor d "ΟΔΟΣ" = false := by
  have hpieces : pieces "SERVER_CONTEXT-PATH" = ["SERVER".toList, "CONTEXT-PATH".toList] := by
    decide +kernel
  have hpiece : pieces "ΟΔΟΣ" = ["ΟΔΟΣ".toList] := by decide +kernel
  have hserver : Mappable "SERVER_CONTEXT-PATH" := ⟨by simp [isReserved], by simp [hpieces]⟩
  have hstreet : Mappable "ΟΔΟΣ" := ⟨by simp [isReserved], by simp [hpiece]⟩
  have hplain : NoFinalSigma "SERVER_CONTEXT-PATH" := fun s hs =>
    Text.not_endsInSigma_of_not_mem fun h =>
      absurd (mem_of_mem_pieces hs h).1 (by decide +kernel)
  have hfinal : ¬ NoFinalSigma "ΟΔΟΣ" := fun h =>
    h "ΟΔΟΣ".toList (by simp [hpiece]) ⟨['Ο', 'Δ', 'Ο'], [], by decide, by decide +kernel, rfl⟩
  obtain ⟨-, -, -, hdotted⟩ := environmentName_spec "SERVER_CONTEXT-PATH"
  obtain ⟨d, hd, -, -, hanswer⟩ := hdotted hserver
  obtain ⟨-, -, -, hspelled⟩ := environmentName_spec "ΟΔΟΣ"
  obtain ⟨street, hparse, -, hstands, -⟩ := hspelled hstreet
  have hstored : variableSource.provider.Stored := .snapshot _ _ _
  have hlisted : "SERVER_CONTEXT-PATH" ∈ variableSource.provider.keys := by decide +kernel
  have hknows := Session.knows_start ⟨[variableSource], by decide⟩
  obtain ⟨key, v, hkey, -, hget⟩ := hanswer variableSource .start rfl rfl hstored.listing.answers
    (hknows.index _ (by simp)) (hknows.lists _ (by simp)) hlisted
    ((hstored.listing.mem_keys_iff _ (by decide)).mp hlisted) hplain
  refine ⟨⟨d, key, v, hd, hkey, hget⟩, street, hparse, ?_⟩
  rw [Bool.eq_false_iff, Ne, hstands]
  exact hfinal

end Mapping

end LayeredConfig
