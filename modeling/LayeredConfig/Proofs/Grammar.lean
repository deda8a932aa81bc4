import LayeredConfig.Proofs.Reading
import Mathlib.Data.List.Forall2

/-!
# LayeredConfig.Proofs.Grammar

The grammar of written names:

```
Name    = (Literal | Index) (('.' Literal) | Index)*
Literal = characters other than '.', '[' and ']', one of them other than '-' and '_'
Index   = '[' decimal digits of a value below 2 ^ 64 ']'
```

1. A text has one derivation at most, since no literal and no number holds a character that ends it
   (`Grammar.Derives.unique`).
2. Whatever is read off a text is derived (`Grammar.derives_of_readElements`), and whatever is derived
   is read (`Grammar.Derives.readElements_eq`).
3. So the parser accepts exactly the texts that are derived, with the elements that the derivation
   says, and refuses all others with the whole text (`Name.parse_iff_derives`).
-/

namespace LayeredConfig

namespace Grammar

/-! ## Derivations -/

/-- The text of a literal. -/
structure IsLiteral (cs : List Char) : Prop where
  ne_nil : cs ≠ []
  unreserved : ∀ c ∈ cs, c ≠ '.' ∧ c ≠ '[' ∧ c ≠ ']'
  substantial : ∃ c ∈ cs, c ≠ '-' ∧ c ≠ '_'

/-- The digits of an index. -/
structure IsIndex (ds : List Char) : Prop where
  ne_nil : ds ≠ []
  isDigit : ∀ d ∈ ds, d.isDigit = true
  value_lt : Decimal.value ds < UInt64.size

/-- A part of a written name: a literal with its text, or an index with its digits. -/
inductive Part where
  | literal (text : List Char)
  | index (digits : List Char)

/-- What may follow the first part of a name: `(('.' Literal) | Index)*`. -/
inductive Continues : List Part → List Char → Prop where
  | done : Continues [] []
  | literal {l cs : List Char} {ps : List Part} (h : IsLiteral l) (rest : Continues ps cs) :
      Continues (.literal l :: ps) ('.' :: (l ++ cs))
  | index {ds cs : List Char} {ps : List Part} (h : IsIndex ds) (rest : Continues ps cs) :
      Continues (.index ds :: ps) ('[' :: (ds ++ ']' :: cs))

/-- A name: `(Literal | Index) (('.' Literal) | Index)*`. -/
inductive Derives : List Part → List Char → Prop where
  | literal {l cs : List Char} {ps : List Part} (h : IsLiteral l) (rest : Continues ps cs) :
      Derives (.literal l :: ps) (l ++ cs)
  | index {ds cs : List Char} {ps : List Part} (h : IsIndex ds) (rest : Continues ps cs) :
      Derives (.index ds :: ps) ('[' :: (ds ++ ']' :: cs))

/-- The element that a part stands for: a literal of the same text, an index of the same value. -/
inductive Part.Means : Part → Element → Prop where
  | literal {cs : List Char} {l : Literal} (h : l.text.toList = cs) : Means (.literal cs) (.literal l)
  | index {ds : List Char} {i : UInt64} (h : i.toNat = Decimal.value ds) :
      Means (.index ds) (.index i)

variable {l l' ds ds' cs cs' : List Char} {ps qs : List Part} {afterDot : Bool} {es : List Element}

/-! ## One derivation at most -/

/-- What is not reserved is neither the dot nor a bracket. -/
theorem isReserved_eq_false_iff {c : Char} :
    isReserved c = false ↔ c ≠ '.' ∧ c ≠ '[' ∧ c ≠ ']' := by
  simp [isReserved, and_assoc]

theorem IsLiteral.isReserved_eq_false (h : IsLiteral l) : ∀ c ∈ l, isReserved c = false :=
  fun c hc => isReserved_eq_false_iff.mpr (h.unreserved c hc)

theorem IsIndex.ne_bracket (h : IsIndex ds) : ∀ d ∈ ds, d ≠ ']' := by
  rintro _ hd rfl
  exact absurd (h.isDigit _ hd) (by decide)

/-- What follows a part begins with a character that ends a literal. -/
theorem Continues.follows (h : Continues ps cs) : Name.Follows cs := by
  cases h <;> simp [Name.Follows, isReserved]

/-- A literal ends where the rest begins. -/
theorem IsLiteral.append_inj (h : IsLiteral l) (h' : IsLiteral l') (hcs : Name.Follows cs)
    (hcs' : Name.Follows cs') (heq : l ++ cs = l' ++ cs') : l = l' ∧ cs = cs' := by
  have split {l cs : List Char} (h : IsLiteral l) (hcs : Name.Follows cs) :
      (l ++ cs).takeWhile (!isReserved ·) = l ∧ (l ++ cs).dropWhile (!isReserved ·) = cs :=
    Name.takeWhile_append_of_ends (fun c hc => by simp [h.isReserved_eq_false c hc])
      (fun c hc => by simp [hcs c hc])
  have ⟨htake, hdrop⟩ := split h hcs
  have ⟨htake', hdrop'⟩ := split h' hcs'
  rw [heq] at htake hdrop
  exact ⟨htake.symm.trans htake', hdrop.symm.trans hdrop'⟩

/-- The digits of an index end at the closing bracket. -/
theorem IsIndex.append_inj (h : IsIndex ds) (h' : IsIndex ds')
    (heq : ds ++ ']' :: cs = ds' ++ ']' :: cs') : ds = ds' ∧ cs = cs' := by
  have split {ds : List Char} (cs : List Char) (h : IsIndex ds) :
      (ds ++ ']' :: cs).takeWhile (· ≠ ']') = ds ∧
        (ds ++ ']' :: cs).dropWhile (· ≠ ']') = ']' :: cs :=
    Name.takeWhile_append_of_ends (fun c hc => by simp [h.ne_bracket c hc]) (by simp)
  have ⟨htake, hdrop⟩ := split cs h
  have ⟨htake', hdrop'⟩ := split cs' h'
  rw [heq] at htake hdrop
  exact ⟨htake.symm.trans htake', List.tail_eq_of_cons_eq (hdrop.symm.trans hdrop')⟩

/-- What stands behind an element can be read in one way. -/
theorem Continues.unique (h : Continues ps cs) (h' : Continues qs cs) : ps = qs := by
  induction h generalizing qs with
  | done => cases h'; rfl
  | @literal l cs ps hl rest ih =>
      generalize htext : '.' :: (l ++ cs) = text at h'
      cases h' with
      | done => contradiction
      | index => exact nomatch (List.cons.inj htext).1
      | literal hl' rest' =>
          obtain ⟨rfl, rfl⟩ :=
            hl.append_inj hl' rest.follows rest'.follows (List.cons.inj htext).2
          rw [ih rest']
  | @index ds cs ps hd rest ih =>
      generalize htext : '[' :: (ds ++ ']' :: cs) = text at h'
      cases h' with
      | done => contradiction
      | literal => exact nomatch (List.cons.inj htext).1
      | index hd' rest' =>
          obtain ⟨rfl, rfl⟩ := hd.append_inj hd' (List.cons.inj htext).2
          rw [ih rest']

/-- A literal does not begin with a bracket. -/
theorem IsLiteral.append_ne_bracket (h : IsLiteral l) : l ++ cs ≠ '[' :: cs' := by
  obtain ⟨c, l, rfl⟩ := List.exists_cons_of_ne_nil h.ne_nil
  intro heq
  exact (h.unreserved c List.mem_cons_self).2.1 (List.cons.inj heq).1

/-- **A text has one derivation at most.** -/
theorem Derives.unique (h : Derives ps cs) (h' : Derives qs cs) : ps = qs := by
  cases h with
  | @literal l cs ps hl rest =>
      generalize htext : l ++ cs = text at h'
      cases h' with
      | index => exact absurd htext hl.append_ne_bracket
      | literal hl' rest' =>
          obtain ⟨rfl, rfl⟩ := hl.append_inj hl' rest.follows rest'.follows htext
          rw [rest.unique rest']
  | @index ds cs ps hd rest =>
      generalize htext : '[' :: (ds ++ ']' :: cs) = text at h'
      cases h' with
      | literal hl' => exact absurd htext.symm hl'.append_ne_bracket
      | index hd' rest' =>
          obtain ⟨rfl, rfl⟩ := hd.append_inj hd' (List.cons.inj htext).2
          rw [rest.unique rest']

/-! ## What is read is derived -/

/-- The text of a literal is a literal of the grammar. -/
theorem isLiteral_text (l : Literal) : IsLiteral l.text.toList where
  ne_nil := l.text_ne_nil
  unreserved := fun c hc => isReserved_eq_false_iff.mp (l.unreserved c hc)
  substantial := by
    obtain ⟨c, hc, hs⟩ := l.substantial
    exact ⟨c, hc, by simpa [isSeparator] using hs⟩

/-- What is accepted as a literal has the text as it stands. -/
theorem text_of_read {text : String} {l : Literal} (h : Literal.read text = .ok l) :
    l.text = text := by
  rw [Literal.read] at h
  split at h
  · contradiction
  · split at h
    · contradiction
    · split at h
      · cases h
        rfl
      · contradiction

/-- **Digits are read as an index of their value**, if it has 64 bits, and nothing else is. -/
theorem readIndex_eq_ok_iff {i : UInt64} :
    Name.readIndex ds = .ok i ↔ IsIndex ds ∧ i.toNat = Decimal.value ds := by
  rw [Name.readIndex, Decimal.read?]
  by_cases hnil : ds = []
  · rw [if_pos hnil]
    refine iff_of_false (fun h => ?_) fun h => h.1.ne_nil hnil
    contradiction
  · rw [if_neg hnil]
    by_cases hdigits : ds.all Char.isDigit
    · rw [if_pos ⟨hnil, hdigits⟩]
      by_cases hlt : Decimal.value ds < UInt64.size
      · simp only [if_pos hlt, Except.ok.injEq]
        constructor
        · rintro rfl
          exact ⟨⟨hnil, List.all_eq_true.mp hdigits, hlt⟩, UInt64.toNat_ofNat_of_lt' hlt⟩
        · rintro ⟨-, hi⟩
          rw [← hi, UInt64.ofNat_toNat]
      · simp only [if_neg hlt]
        refine iff_of_false (fun h => ?_) fun h => hlt h.1.value_lt
        contradiction
    · rw [if_neg fun h => hdigits h.2]
      refine iff_of_false (fun h => ?_) fun h => hdigits (List.all_eq_true.mpr h.1.isDigit)
      contradiction

/-- The element at the front of a text: a literal, or an index in its brackets, which does not stand
after a dot. -/
theorem readElement_sound {e : Element} {r : Name.Rest cs}
    (h : Name.readElement afterDot cs = .ok (e, r)) :
    (∃ l, e = .literal l ∧ cs = l.text.toList ++ r.val) ∨
      ∃ ds i, e = .index i ∧ IsIndex ds ∧ i.toNat = Decimal.value ds ∧ afterDot = false ∧
        cs = '[' :: (ds ++ ']' :: r.val) := by
  unfold Name.readElement at h
  split at h
  · contradiction
  · next more =>
    split at h
    · contradiction
    · next hdot =>
      split at h
      · contradiction
      · next c rest hdrop =>
        split at h
        · contradiction
        · next i hi =>
          cases h
          obtain ⟨hindex, hvalue⟩ := readIndex_eq_ok_iff.mp hi
          have hc : c = ']' := by
            have hhead := List.head?_dropWhile_not (· ≠ ']') more
            rw [hdrop] at hhead
            simpa using hhead
          have hmore : more = more.takeWhile (· ≠ ']') ++ ']' :: rest := by
            rw [← hc, ← hdrop, hc, List.takeWhile_append_dropWhile]
          exact .inr ⟨_, i, rfl, hindex, hvalue, by simpa using hdot, congrArg ('[' :: ·) hmore⟩
  · next hclosed hopened =>
    split at h
    · contradiction
    · next c run hrun =>
      split at h
      · contradiction
      · next l hl =>
        cases h
        have hcs : l.text.toList ++ cs.dropWhile (!isReserved ·) = cs := by
          rw [text_of_read hl, String.toList_ofList, ← hrun, List.takeWhile_append_dropWhile]
        exact .inl ⟨l, rfl, hcs.symm⟩

/-- Where reading goes on after an element: behind a dot, or at an opening bracket. -/
inductive Resumes : List Char → Bool → List Char → Prop where
  | dot (cs : List Char) : Resumes ('.' :: cs) true cs
  | bracket (cs : List Char) : Resumes ('[' :: cs) false ('[' :: cs)

/-- What is left to read is no longer than the text. -/
theorem Resumes.length_le {text : List Char} (h : Resumes text afterDot cs) :
    cs.length ≤ text.length := by
  cases h <;> simp

/-- Elements that are read are the one at the front, and those where reading goes on. -/
theorem readElements_cases (h : Name.readElements afterDot cs = .ok es) :
    ∃ e r, Name.readElement afterDot cs = .ok (e, r) ∧
      (r.val = [] ∧ es = [e] ∨ ∃ next more rest, Resumes r.val next more ∧
        Name.readElements next more = .ok rest ∧ es = e :: rest) := by
  have of_map {x : Except Flaw (List Element)} {e : Element} (h : x.map (e :: ·) = .ok es) :
      ∃ rest, x = .ok rest ∧ es = e :: rest := by
    cases x with
    | error flaw => contradiction
    | ok rest => cases h; exact ⟨rest, rfl, rfl⟩
  rw [Name.readElements] at h
  split at h
  · contradiction
  · next e r hread =>
    refine ⟨e, r, hread, ?_⟩
    split at h
    · next hr => cases h; exact .inl ⟨hr, rfl⟩
    · contradiction
    · next c more hr =>
      obtain ⟨rest, hrest, hes⟩ := of_map h
      exact .inr ⟨true, _, rest, hr ▸ .dot _, hrest, hes⟩
    · next more hr =>
      obtain ⟨rest, hrest, hes⟩ := of_map h
      exact .inr ⟨false, _, rest, hr ▸ .bracket _, hrest, hes⟩
    · contradiction
    · contradiction

/-- An element at the front of a text stands for a part before those that continue the name. -/
theorem derives_of_readElement {e : Element} {r : Name.Rest cs}
    (h : Name.readElement afterDot cs = .ok (e, r)) (hrest : Continues ps r.val) :
    ∃ p, p.Means e ∧ Derives (p :: ps) cs ∧
      ∀ text, Resumes text afterDot cs → Continues (p :: ps) text := by
  rcases readElement_sound h with ⟨l, rfl, hcs⟩ | ⟨ds, i, rfl, hindex, hvalue, hdot, hcs⟩
  · have hl := isLiteral_text l
    refine ⟨.literal l.text.toList, .literal rfl, hcs ▸ .literal hl hrest, fun text htext => ?_⟩
    cases htext with
    | dot => exact hcs ▸ .literal hl hrest
    | bracket => exact absurd hcs.symm hl.append_ne_bracket
  · refine ⟨.index ds, .index hvalue, hcs ▸ .index hindex hrest, fun text htext => ?_⟩
    cases htext with
    | dot => contradiction
    | bracket => exact hcs ▸ .index hindex hrest

/-- **What is read off a text is derived.** -/
theorem derives_of_readElements {afterDot : Bool} {cs : List Char} {es : List Element}
    (h : Name.readElements afterDot cs = .ok es) :
    ∃ ps, Derives ps cs ∧ List.Forall₂ Part.Means ps es ∧
      ∀ text, Resumes text afterDot cs → Continues ps text := by
  obtain ⟨e, r, hread, hend | ⟨next, more, rest, hresumes, hmore, rfl⟩⟩ := readElements_cases h
  · obtain ⟨hr, rfl⟩ := hend
    have hnone : Continues [] r.val := hr ▸ Continues.done
    obtain ⟨p, hp, hderives, hcontinues⟩ := derives_of_readElement hread hnone
    exact ⟨[p], hderives, .cons hp .nil, hcontinues⟩
  · have hshorter : more.length < cs.length := Nat.lt_of_le_of_lt hresumes.length_le r.property
    obtain ⟨ps, -, hmeans, hrest⟩ := derives_of_readElements hmore
    obtain ⟨p, hp, hderives, hcontinues⟩ := derives_of_readElement hread (hrest _ hresumes)
    exact ⟨p :: ps, hderives, .cons hp hmeans, hcontinues⟩
termination_by cs.length

/-! ## What is derived is read -/

/-- Every literal of the grammar is the text of a literal element. -/
theorem IsLiteral.exists_literal (h : IsLiteral l) : ∃ m : Literal, m.text.toList = l := by
  refine ⟨⟨String.ofList l, ?_, ?_⟩, String.toList_ofList⟩
  · simpa using h.isReserved_eq_false
  · obtain ⟨c, hc, hs⟩ := h.substantial
    exact ⟨c, by simpa using hc, by simpa [isSeparator] using hs⟩

/-- Every index of the grammar is read as a number. -/
theorem IsIndex.exists_index (h : IsIndex ds) : ∃ i, Name.readIndex ds = .ok i :=
  ⟨.ofNat (Decimal.value ds), readIndex_eq_ok_iff.mpr ⟨h, UInt64.toNat_ofNat_of_lt' h.value_lt⟩⟩

/-- **What continues a name is read**, after whatever element stands before it. -/
theorem Continues.readElements_eq (h : Continues ps cs) :
    ∃ es, List.Forall₂ Part.Means ps es ∧ ∀ {afterDot text e} {r : Name.Rest text},
      Name.readElement afterDot text = .ok (e, r) → r.val = cs →
        Name.readElements afterDot text = .ok (e :: es) := by
  induction h with
  | done => exact ⟨[], .nil, Name.readElements_end⟩
  | @literal l cs ps hl rest ih =>
      obtain ⟨es, hmeans, hread⟩ := ih
      obtain ⟨m, rfl⟩ := hl.exists_literal
      refine ⟨.literal m :: es, .cons (.literal rfl) hmeans, fun {afterDot text e r} hfirst hr => ?_⟩
      obtain ⟨r', hr', hcs⟩ := Name.readElement_literal m true rest.follows
      obtain ⟨c, m', hm⟩ := List.exists_cons_of_ne_nil hl.ne_nil
      have hnext := hread hr' hcs
      rw [hm] at hr hnext
      rw [Name.readElements_dot hfirst hr]
      exact congrArg (·.map (e :: ·)) hnext
  | @index ds cs ps hd rest ih =>
      obtain ⟨es, hmeans, hread⟩ := ih
      obtain ⟨i, hi⟩ := hd.exists_index
      refine ⟨.index i :: es, .cons (.index (readIndex_eq_ok_iff.mp hi).2) hmeans,
        fun {afterDot text e r} hfirst hr => ?_⟩
      obtain ⟨r', hr', hcs⟩ := Name.readElement_bracketed hi hd.ne_bracket cs
      rw [Name.readElements_bracket hfirst hr]
      exact congrArg (·.map (e :: ·)) (hread hr' hcs)

/-- **What is derived is read.** -/
theorem Derives.readElements_eq (h : Derives ps cs) :
    ∃ es, List.Forall₂ Part.Means ps es ∧ Name.readElements false cs = .ok es := by
  cases h with
  | literal hl rest =>
      obtain ⟨es, hmeans, hread⟩ := rest.readElements_eq
      obtain ⟨m, rfl⟩ := hl.exists_literal
      obtain ⟨r, hr, hcs⟩ := Name.readElement_literal m false rest.follows
      exact ⟨_, .cons (.literal rfl) hmeans, hread hr hcs⟩
  | @index ds cs ps hd rest =>
      obtain ⟨es, hmeans, hread⟩ := rest.readElements_eq
      obtain ⟨i, hi⟩ := hd.exists_index
      obtain ⟨r, hr, hcs⟩ := Name.readElement_bracketed hi hd.ne_bracket cs
      exact ⟨_, .cons (.index (readIndex_eq_ok_iff.mp hi).2) hmeans, hread hr hcs⟩

/-- The grammar has no empty text. -/
theorem Derives.ne_nil (h : Derives ps cs) : cs ≠ [] := by
  cases h with
  | literal hl _ => exact List.append_ne_nil_of_left_ne_nil hl.ne_nil _
  | index => exact List.cons_ne_nil _ _

/-- A part stands for one element. -/
theorem Part.rightUnique_means : Relator.RightUnique Part.Means := by
  intro p e e' h h'
  cases h with
  | @literal _ m hm =>
      cases h' with
      | @literal _ m' hm' =>
          obtain ⟨text, _, _⟩ := m
          obtain ⟨text', _, _⟩ := m'
          have htext : text = text' := String.toList_inj.mp (hm.trans hm'.symm)
          subst htext
          rfl
  | index hi =>
      cases h' with
      | index hi' => rw [UInt64.toNat_inj.mp (hi.trans hi'.symm)]

end Grammar

/-! ## The parser -/

namespace Name

open Grammar

/-- A text is parsed as a name if it is not empty and is read to its end as the elements of the name. -/
theorem parse_eq_ok_iff {text : String} {n : Name} :
    parse text = .ok n ↔ text ≠ "" ∧ readElements false text.toList = .ok n.elements := by
  constructor
  · intro h
    rw [parse] at h
    split at h
    · contradiction
    · next hne =>
      split at h
      · contradiction
      · next es hread =>
        cases h
        exact ⟨hne, hread⟩
  · rintro ⟨hne, hread⟩
    rw [parse_of_readElements hne hread]

/-- A refusal holds the whole text. -/
theorem text_of_parse_eq_error {text : String} {m : Malformed} (h : parse text = .error m) :
    m.text = text := by
  rw [parse] at h
  split at h
  · cases h
    rfl
  · split at h
    · cases h
      rfl
    · contradiction

/-- **The parser accepts exactly the names of the grammar.**  A text is parsed as a name exactly if it
has a derivation, which is then the only one, and the elements of the name are in order what the parts
of the derivation stand for: literals of the same texts and indexes of the same values.  Every other
text is refused, and the refusal holds all of it. -/
theorem parse_iff_derives (text : String) :
    (∀ n, parse text = .ok n ↔
      ∃ ps, Derives ps text.toList ∧ List.Forall₂ Part.Means ps n.elements) ∧
    ((∃ n, parse text = .ok n) ↔ ∃ ps, Derives ps text.toList) ∧
    (∀ ps qs, Derives ps text.toList → Derives qs text.toList → ps = qs) ∧
    ((¬ ∃ ps, Derives ps text.toList) → ∃ flaw, parse text = .error ⟨text, flaw⟩) := by
  have hderives (n : Name) : parse text = .ok n ↔
      ∃ ps, Derives ps text.toList ∧ List.Forall₂ Part.Means ps n.elements := by
    rw [parse_eq_ok_iff]
    constructor
    · rintro ⟨-, hread⟩
      obtain ⟨ps, hps, hmeans, -⟩ := derives_of_readElements hread
      exact ⟨ps, hps, hmeans⟩
    · rintro ⟨ps, hps, hmeans⟩
      obtain ⟨es, hes, hread⟩ := hps.readElements_eq
      have hsame : es = n.elements := Part.rightUnique_means.forall₂ hes hmeans
      exact ⟨fun htext => hps.ne_nil (by rw [htext]; rfl), hsame ▸ hread⟩
  have hsome : (∃ n, parse text = .ok n) ↔ ∃ ps, Derives ps text.toList := by
    constructor
    · rintro ⟨n, hn⟩
      obtain ⟨ps, hps, -⟩ := (hderives n).mp hn
      exact ⟨ps, hps⟩
    · rintro ⟨ps, hps⟩
      obtain ⟨es, hes, hread⟩ := hps.readElements_eq
      exact ⟨⟨es, readElements_ne_nil hread⟩, (hderives _).mpr ⟨ps, hps, hes⟩⟩
  refine ⟨hderives, hsome, fun ps qs => Derives.unique, fun hnone => ?_⟩
  cases hparse : parse text with
  | ok n => exact absurd (hsome.mp ⟨n, hparse⟩) hnone
  | error m =>
      have htext := text_of_parse_eq_error hparse
      exact ⟨m.flaw, by rw [← htext]⟩

end Name

end LayeredConfig
