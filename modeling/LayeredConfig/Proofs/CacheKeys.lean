import LayeredConfig.Proofs.Ancestry
import LayeredConfig.Proofs.Answers
import LayeredConfig.Proofs.MapperSoundness

/-!
# LayeredConfig.Proofs.CacheKeys

Candidate lists under the keys of a cache.

1. A list is kept under the canonical text of the name that it was made for, and then serves every name
   of that text.  What may differ between such names is their spelling, and lists that differ in the
   spelling of names only have the same answers (`Source.answer_congr`).
2. So a cache does no harm to a mapper that goes by the canonical texts of names
   (`Mapper.ReadsCanonical`).  All built-in mappers do: the dotted mapper writes dashed and camel
   forms, which the canonical text determines, and the environment mapper writes uniform forms.
3. The built-in mappers never fail, and their dialects tell them apart (`Mapper.BuiltIn`).  So what they
   put into a cache is right for all of them that share it (`Session.Trusts`).
-/

namespace LayeredConfig

/-! ## Candidates that differ in spelling only -/

namespace Name

/-- A name agrees with whatever another spelling of it agrees with. -/
theorem agrees_congr {a b : Name} (h : a.agrees b = true) (n : Name) : a.agrees n = b.agrees n := by
  rw [Bool.eq_iff_iff]
  exact ⟨agrees_trans (agrees_symm h), agrees_trans h⟩

end Name

/-- Candidates with the same key and reach, and names that agree. -/
structure Candidate.Alike (a b : Candidate) : Prop where
  key : a.key = b.key
  reach : a.reach = b.reach
  name : a.name.agrees b.name = true

namespace Candidate.Alike

variable {a b : Candidate}

theorem refl (a : Candidate) : a.Alike a := ⟨rfl, rfl, a.name.agrees_refl⟩

/-- Alike candidates stand for the same names. -/
theorem applies_eq (h : a.Alike b) (n : Name) : a.applies n = b.applies n := by
  rw [applies, applies, h.reach]
  cases b.reach with
  | whole => exact Name.agrees_congr h.name n
  | item i => rw [Name.isParentOf_congr h.name]

/-- Alike candidates take the same value out of what their key holds. -/
theorem extract_eq (h : a.Alike b) (v : Value) : a.extract v = b.extract v := by
  rw [extract, extract, h.reach, h.key]

end Candidate.Alike

/-- Lists of candidates that differ in the spelling of names only. -/
abbrev CandidatesAlike : List Candidate → List Candidate → Prop := List.Forall₂ Candidate.Alike

theorem candidatesAlike_refl (cs : List Candidate) : CandidatesAlike cs cs :=
  List.forall₂_same.mpr fun c _ => .refl c

/-- Alike lists of candidates have the same keys in the same order. -/
theorem keys_congr {cs cs' : List Candidate} (h : CandidatesAlike cs cs') :
    cs.map (·.key) = cs'.map (·.key) := by
  induction h with
  | nil => rfl
  | cons hc _ ih => rw [List.map_cons, List.map_cons, hc.key, ih]

namespace Source

variable {s : Source} {n : Name} {cs cs' : List Candidate}

/-- Alike candidates lead to the same property. -/
theorem tries_congr (h : CandidatesAlike cs cs') : s.tries n cs = s.tries n cs' := by
  induction h with
  | nil => rfl
  | cons hc _ ih =>
      rw [tries, tries, hc.applies_eq, hc.key, ih]
      simp only [hc.extract_eq]

/-- Alike candidates leave the same keys of the index to try. -/
theorem others_congr (ix : Index) (h : CandidatesAlike cs cs') :
    others ix cs n = others ix cs' n := by
  have hany (key : String) : cs.any (·.key == key) = cs'.any (·.key == key) := by
    have hmap (l : List Candidate) : l.any (·.key == key) = (l.map (·.key)).any (· == key) := by
      rw [List.any_map]
      rfl
    rw [hmap, hmap, keys_congr h]
  rw [others, others]
  simp only [hany]

/-- **Spellings of the names in candidates change no answer.** -/
theorem answer_congr (ix : Index) (h : CandidatesAlike cs cs') :
    s.answer n cs ix = s.answer n cs' ix := by
  rw [answer, answer, tries_congr h, others_congr ix h]

end Source

/-! ## Mappers that go by canonical texts -/

/-- A mapper that goes by the canonical texts of names: for names of one text it fails for both, or
gives candidates that differ in spelling only. -/
def Mapper.ReadsCanonical (m : Mapper) : Prop :=
  ∀ a b : Name, a.canonical = b.canonical → ∀ cs, m.candidates a = .ok cs →
    ∃ cs', m.candidates b = .ok cs' ∧ CandidatesAlike cs' cs

/-- The same keys for names that agree make candidates that are alike. -/
theorem candidatesAlike_plain {a b : Name} (h : a.agrees b = true) (keys : List String) :
    CandidatesAlike (keys.map (.plain · a)) (keys.map (.plain · b)) := by
  rw [CandidatesAlike, List.forall₂_map_left_iff, List.forall₂_map_right_iff, List.forall₂_same]
  exact fun _ _ => ⟨rfl, rfl, h⟩

namespace Mapping

/-- What is written with the dashed forms of elements is written with the elements themselves. -/
theorem written_respell_dashed {piece : Element → Name.Piece}
    (h : ∀ e : Element, piece (e.spelled .dashed) = piece e) (n : Name) :
    written piece (n.respell (.spelled .dashed)) = written piece n := by
  have hmap : (n.elements.map (Element.spelled .dashed)).map piece = n.elements.map piece := by
    rw [List.map_map]
    exact List.map_congr_left fun e _ => h e
  rw [written, written, Name.respell, hmap]

theorem camelPiece_dashed (e : Element) : camelPiece (e.spelled .dashed) = camelPiece e := by
  cases e with
  | index i => rfl
  | literal l =>
      simp only [camelPiece, Element.spelled, Element.camelChars, Literal.words_dashed]

theorem plainPiece_dashed (e : Element) : plainPiece (e.spelled .dashed) = plainPiece e := by
  cases e with
  | index i => rfl
  | literal l =>
      simp only [plainPiece, Element.spelled, Element.dashedChars, Literal.words_dashed]

theorem bracketedPiece_dashed (e : Element) :
    bracketedPiece (e.spelled .dashed) = bracketedPiece e := by
  have hindex : (e.spelled .dashed).asIndex? = e.asIndex? :=
    Element.asIndex?_congr (Element.uniformChars_spelled Literal.uniformChars_dashed e)
  have hplain := plainPiece_dashed e
  rw [plainPiece, plainPiece] at hplain
  rw [bracketedPiece, bracketedPiece, hindex, hplain]

/-- The dotted keys of a name depend on its canonical text only. -/
theorem dottedKeys_eq {a b : Name} (h : a.canonical = b.canonical) :
    dottedKeys a = dottedKeys b := by
  have hwritten {piece : Element → Name.Piece}
      (hp : ∀ e : Element, piece (e.spelled .dashed) = piece e) :
      written piece a = written piece b := by
    rw [← written_respell_dashed hp, Name.respell_dashed_eq h, written_respell_dashed hp]
  rw [dottedKeys, dottedKeys, h, hwritten camelPiece_dashed, hwritten plainPiece_dashed,
    hwritten bracketedPiece_dashed]

/-- **The dotted mapper goes by canonical texts.** -/
theorem readsCanonical_dotted : dotted.ReadsCanonical := by
  rintro a b h _ ⟨⟩
  refine ⟨_, rfl, ?_⟩
  rw [dottedKeys_eq h]
  exact candidatesAlike_plain (Name.agrees_of_canonical_eq h.symm) _

/-- Two spellings of a name end in the same index, or neither ends in one. -/
theorem asIndex?_last_eq {a b : Name} (h : a.agrees b = true) :
    a.last.asIndex? = b.last.asIndex? := by
  have hlast := congrArg List.getLast? (Name.agrees_iff.mp h)
  rw [List.getLast?_map, List.getLast?_map, List.getLast?_eq_some_getLast a.elements_ne_nil,
    List.getLast?_eq_some_getLast b.elements_ne_nil] at hlast
  exact Element.asIndex?_congr (Option.some.inj hlast)

/-- Names that agree have parents that agree, or have none. -/
theorem parent?_rel {a b : Name} (h : a.agrees b = true) :
    Option.Rel (fun p q => p.agrees q = true) a.parent? b.parent? := by
  have huniform := Name.agrees_iff.mp h
  have hlength : a.elements.length = b.elements.length := by
    have := congrArg List.length huniform
    rwa [List.length_map, List.length_map] at this
  rw [Name.parent?, Name.parent?, Name.chop?, Name.chop?]
  by_cases hlong : 1 < a.elements.length
  · rw [dif_pos hlong, dif_pos (hlength ▸ hlong)]
    refine .some (Name.agrees_iff.mpr ?_)
    rw [List.map_take, List.map_take, huniform, hlength]
  · rw [dif_neg hlong, dif_neg (hlength ▸ hlong)]
    exact .none

/-- Two spellings of a name have alike candidates for an item of a list. -/
theorem listCandidate?_alike {a b : Name} (h : a.agrees b = true) :
    CandidatesAlike (listCandidate? a).toList (listCandidate? b).toList := by
  have hparent := parent?_rel h
  rw [listCandidate?, listCandidate?, asIndex?_last_eq h]
  generalize a.parent? = p at hparent
  generalize b.parent? = q at hparent
  cases b.last.asIndex? with
  | none => exact .nil
  | some i =>
      cases hparent with
      | none => exact .nil
      | some hpq =>
          exact .cons ⟨by rw [environmentKey_eq_iff.mpr hpq], rfl, hpq⟩ .nil

/-- **The environment mapper goes by canonical texts**: even names that agree have candidates that are
alike. -/
theorem readsCanonical_environment (withLists : Bool) :
    (environment withLists).ReadsCanonical := by
  rintro a b h _ ⟨⟩
  have hagrees := Name.agrees_of_canonical_eq h.symm
  refine ⟨_, rfl, .cons ⟨environmentKey_eq_iff.mpr hagrees, rfl, hagrees⟩ ?_⟩
  cases withLists with
  | false => exact .nil
  | true => exact listCandidate?_alike hagrees

end Mapping

/-- **A mapper over tables goes by canonical texts.** -/
theorem Mapper.readsCanonical_ofTables (dialect : String) (keys : List (String × List String))
    (names : List (String × String)) : (Mapper.ofTables dialect keys names).ReadsCanonical := by
  intro a b h cs hcs
  have hagrees := Name.agrees_of_canonical_eq h.symm
  simp only [ofTables, h] at hcs ⊢
  cases hlookup : keys.lookup b.canonical with
  | none =>
      rw [hlookup] at hcs
      contradiction
  | some ks =>
      rw [hlookup] at hcs
      cases hcs
      exact ⟨_, rfl, candidatesAlike_plain hagrees ks⟩

/-! ## Built-in mappers -/

namespace Mapper

/-- The candidates that a mapper gives for a name: none where it fails. -/
def listed (m : Mapper) (n : Name) : List Candidate :=
  match m.candidates n with
  | .ok cs => cs
  | .error _ => []

/-- The dotted mapper and the environment mappers. -/
inductive BuiltIn : Mapper → Prop where
  | dotted : BuiltIn Mapping.dotted
  | environment (withLists : Bool) : BuiltIn (Mapping.environment withLists)

namespace BuiltIn

variable {m m' : Mapper}

/-- **Built-in mappers never fail.** -/
theorem candidates_eq (h : m.BuiltIn) (n : Name) : m.candidates n = .ok (m.listed n) := by
  cases h <;> rfl

theorem readsCanonical (h : m.BuiltIn) : m.ReadsCanonical := by
  cases h with
  | dotted => exact Mapping.readsCanonical_dotted
  | environment withLists => exact Mapping.readsCanonical_environment withLists

/-- For names of one canonical text the candidates differ in spelling only. -/
theorem listed_alike (h : m.BuiltIn) {a b : Name} (hab : a.canonical = b.canonical) :
    CandidatesAlike (m.listed a) (m.listed b) := by
  obtain ⟨cs, hcs, halike⟩ := h.readsCanonical b a hab.symm _ (h.candidates_eq b)
  rw [h.candidates_eq a] at hcs
  cases hcs
  exact halike

/-- **The dialect tells built-in mappers apart.** -/
theorem eq_of_dialect_eq (h : m.BuiltIn) (h' : m'.BuiltIn) (hd : m.dialect = m'.dialect) :
    m = m' := by
  cases h with
  | dotted =>
      cases h' with
      | dotted => rfl
      | environment withLists => cases withLists <;> exact nomatch hd
  | environment withLists =>
      cases h' with
      | dotted => cases withLists <;> exact nomatch hd
      | environment withLists' =>
          cases withLists <;> cases withLists' <;> first | rfl | exact nomatch hd

end BuiltIn

end Mapper

/-! ## What a cache is trusted to hold -/

namespace Session

variable {σ : Session} {m : CachedMapper}

/-- The cache of a mapper holds what the mapper gives, up to spelling. -/
def Trusts (σ : Session) (m : CachedMapper) : Prop :=
  ∀ id, m.cache = some id → ∀ n cs, σ.entry id (m.cacheKey n) = some cs →
    CandidatesAlike cs (m.mapper.listed n)

/-- At the start nothing is kept, so every mapper can be trusted. -/
theorem trusts_start (m : CachedMapper) : start.Trusts m := fun _ _ _ _ h => nomatch h

/-- A mapper without a cache has nothing to trust. -/
theorem trusts_of_cache_eq_none (h : m.cache = none) : σ.Trusts m := fun id hid => by
  rw [h] at hid
  contradiction

/-- What is tried for a name is what the mapper gives, from the cache or not. -/
theorem Trusts.listed_alike (h : σ.Trusts m) {n : Name}
    (hn : m.mapper.candidates n = .ok (m.mapper.listed n)) :
    CandidatesAlike (m.listed n σ) (m.mapper.listed n) := by
  rw [CachedMapper.listed_eq, CachedMapper.candidates_fst, hn]
  cases hid : m.cache with
  | none => exact candidatesAlike_refl _
  | some id =>
      rw [Option.bind_some]
      cases he : σ.entry id (m.cacheKey n) with
      | none => exact candidatesAlike_refl _
      | some cs => exact h id hid n cs he

/-- What a built-in mapper puts into a cache is right for all built-in mappers that share it; a mapper
that does not share it puts nothing there. -/
theorem Trusts.candidates (h : σ.Trusts m) (hm : m.mapper.BuiltIn) {m' : CachedMapper}
    (hm' : ∀ id, m.cache = some id → m'.cache = some id → m'.mapper.BuiltIn) (n : Name) :
    Trusts (m'.candidates n σ).2 m := by
  intro id hid a cs hcs
  rw [CachedMapper.entry_candidates] at hcs
  split at hcs
  · next hkey =>
    cases he : σ.entry id (m.cacheKey a) with
    | some cs' =>
        rw [he, Option.some_or] at hcs
        exact h id hid a cs (he.trans hcs)
    | none =>
        have hbuiltIn := hm' id hid hkey.1
        have hdialect : m.mapper = m'.mapper :=
          hm.eq_of_dialect_eq hbuiltIn (congrArg Prod.fst hkey.2)
        have htext : a.canonical = n.canonical := congrArg Prod.snd hkey.2
        rw [he, hbuiltIn.candidates_eq, ← hdialect] at hcs
        cases hcs
        exact hm.listed_alike htext.symm
  · exact h id hid a cs hcs

end Session

end LayeredConfig
