import LayeredConfig.Mapping.Dotted
import LayeredConfig.Mapping.Environment
import LayeredConfig.Proofs.Reading

/-!
# LayeredConfig.Proofs.MapperSoundness

The raw keys of a name stand for that name.

1. Each dotted key is a respelling of the name, written as it stands, so it is read back
   (`Mapping.nameOf_dottedKeys`).
2. The environment key joins the uniform forms of the elements.  They hold no `_`, so splitting
   finds them again, and a lower-cased piece is the uniform form that was raised
   (`Mapping.environmentName_environmentKey`).
3. With the list shortcut, only the key of a whole list ends in the marker; it stands for the
   parent.
-/

namespace LayeredConfig

/-! ## Splitting at the end of a text -/

namespace Text

/-- What stands before a suffix is what the text is without it. -/
theorem beforeSuffix?_eq_some_iff {suf cs r : List Char} :
    beforeSuffix? suf cs = some r ↔ cs = r ++ suf := by
  simp only [beforeSuffix?, Option.map_eq_some_iff, afterPrefix?_eq_some_iff]
  constructor
  · rintro ⟨q, hq, rfl⟩
    have := congrArg List.reverse hq
    rwa [List.reverse_reverse, List.reverse_append, List.reverse_reverse] at this
  · rintro rfl
    exact ⟨r.reverse, List.reverse_append, List.reverse_reverse r⟩

/-- After a last separator stands an empty piece. -/
theorem split_append_sep (sep : Char) (cs : List Char) :
    split sep (cs ++ [sep]) = split sep cs ++ [[]] := by
  induction cs with
  | nil => simp [split]
  | cons c cs ih =>
      rw [List.cons_append, split, split]
      split
      · rw [ih, List.cons_append]
      · cases hs : split sep cs with
        | nil => exact absurd hs (split_ne_nil sep cs)
        | cons p ps =>
            rw [ih, hs]
            rfl

end Text

namespace Mapping

/-! ## Dotted keys -/

/-- Leaving out repetitions leaves out no key. -/
theorem mem_distinct {k : String} {ks : List String} : k ∈ distinct ks ↔ k ∈ ks := by
  induction ks with
  | nil => rfl
  | cons k' ks ih =>
      rw [distinct, List.mem_cons, List.mem_filter, ih, List.mem_cons]
      by_cases h : k = k' <;> simp [h]

/-- No key is left twice. -/
theorem nodup_distinct (ks : List String) : (distinct ks).Nodup := by
  induction ks with
  | nil => exact List.nodup_nil
  | cons k ks ih =>
      rw [distinct, List.nodup_cons]
      exact ⟨by simp, ih.filter _⟩

/-- A rendering by pieces is a respelled name as it stands, if every piece is an element's. -/
theorem written_eq {piece : Element → Name.Piece} {f : Element → Element}
    (h : ∀ e, piece e = Name.writtenPiece (f e)) (n : Name) :
    written piece n = (n.respell f).written := by
  rw [written, Name.written, Name.respell, List.map_map]
  exact congrArg (String.ofList ∘ Name.layout) (List.map_congr_left fun e _ => h e)

theorem camelPiece_eq (e : Element) :
    camelPiece e = Name.writtenPiece (e.spelled Literal.camel) := by
  cases e with
  | literal l =>
      rw [Element.spelled, Name.writtenPiece, Literal.text_camel, String.toList_ofList]
      rfl
  | index i => rfl

theorem plainPiece_eq (e : Element) :
    plainPiece e = Name.writtenPiece (e.dotted Literal.dashed) := by
  cases e with
  | literal l =>
      rw [Element.dotted, Name.writtenPiece, Literal.text_dashed, String.toList_ofList]
      rfl
  | index i =>
      rw [Element.dotted, Name.writtenPiece, Literal.text_ofNumber, String.toList_ofList]
      rfl

theorem bracketedPiece_eq (e : Element) :
    bracketedPiece e = Name.writtenPiece (e.numbered Literal.dashed) := by
  cases e with
  | literal l =>
      cases h : (Element.literal l).asIndex? with
      | some i => simp only [bracketedPiece, Element.numbered, h, Name.writtenPiece]
      | none =>
          simp only [bracketedPiece, Element.numbered, h, Name.writtenPiece, Literal.text_dashed,
            String.toList_ofList]
          rfl
  | index i => rfl

/-- A raw key that is a name as it stands stands for this name. -/
theorem nameOf_written (n : Name) : dotted.nameOf n.written = .ok n := by
  rw [show dotted.nameOf n.written = (Name.parse n.written).mapError _ from rfl, Name.parse_written]
  rfl

/-- **Every dotted key of a name stands for it.** -/
theorem nameOf_dottedKeys {n : Name} {k : String} (h : k ∈ dottedKeys n) :
    ∃ m, dotted.nameOf k = .ok m ∧ m.agrees n = true := by
  have hread {f : Element → Element} (same : ∀ e, (f e).uniformChars = e.uniformChars)
      (hk : k = (n.respell f).written) : ∃ m, dotted.nameOf k = .ok m ∧ m.agrees n = true := by
    rw [hk]
    exact ⟨n.respell f, nameOf_written _, Name.agrees_respell same n⟩
  have hdashed := Literal.uniformChars_dashed
  rw [dottedKeys, mem_distinct] at h
  simp only [List.mem_cons, List.not_mem_nil, or_false] at h
  rcases h with rfl | rfl | rfl | rfl
  · exact hread (Element.uniformChars_spelled hdashed) n.canonical_eq_written
  · exact hread (Element.uniformChars_spelled Literal.uniformChars_camel) (written_eq camelPiece_eq n)
  · exact hread (Element.uniformChars_dotted hdashed) (written_eq plainPiece_eq n)
  · exact hread (Element.uniformChars_numbered hdashed) (written_eq bracketedPiece_eq n)

end Mapping

theorem Name.ofElements_elements (n : Name) : Name.ofElements n.elements = .ok n :=
  dif_pos n.elements_ne_nil

namespace Mapping

/-! ## Environment keys -/

/-- The pieces of an environment key. -/
def segments (es : List Element) : List (List Char) :=
  es.map fun e => e.uniformChars.map Char.toUpper

/-- The name of a variable is its segments, joined by underscores. -/
theorem toList_environmentKey (es : List Element) :
    (environmentKey es).toList = Text.join '_' (segments es) := by
  rw [environmentKey, String.toList_ofList, segments]

/-- A piece holds no character that structures or separates, and no capital sigma. -/
theorem mem_segments {es : List Element} {s : List Char} {c : Char} (hs : s ∈ segments es)
    (hc : c ∈ s) : isReserved c = false ∧ c ≠ '_' ∧ c ≠ 'Σ' := by
  obtain ⟨e, -, rfl⟩ := List.mem_map.mp hs
  obtain ⟨d, hd, rfl⟩ := List.mem_map.mp hc
  obtain ⟨hword, hlower⟩ := Element.wordChar_of_mem_uniformChars hd
  refine ⟨?_, ?_, ?_⟩
  · rw [isReserved_toUpper, hword.unreserved]
  · intro h
    have hsep := isSeparator_toUpper d
    rw [h, hword.inseparable] at hsep
    exact absurd hsep (by decide)
  · intro h
    have hsigma := Text.lower_toUpper d
    rw [h, hlower] at hsigma
    have hd : 'σ' = d := List.singleton_inj.mp hsigma
    subst hd
    exact absurd h (by decide)

theorem segments_ne_nil {n : Name} : segments n.elements ≠ [] := by
  simp [segments, n.elements_ne_nil]

/-- No segment is empty. -/
theorem nil_not_mem_segments (es : List Element) : [] ∉ segments es := by
  intro h
  obtain ⟨e, -, he⟩ := List.mem_map.mp h
  exact e.uniformChars_ne_nil (List.map_eq_nil_iff.mp he)

/-- The pieces of an environment key are found again. -/
theorem split_environmentKey (n : Name) :
    Text.split '_' (environmentKey n.elements).toList = segments n.elements := by
  rw [toList_environmentKey]
  exact Text.split_join segments_ne_nil fun s hs h => (mem_segments hs h).2.1 rfl

/-- The name of a variable has no reserved character. -/
theorem unreserved_environmentKey {es : List Element} {c : Char}
    (h : c ∈ (environmentKey es).toList) : isReserved c = false := by
  rw [toList_environmentKey] at h
  rcases Text.mem_join h with rfl | ⟨s, hs, hc⟩
  · decide
  · exact (mem_segments hs hc).1

/-- Lower-casing takes raised capitals back. -/
theorem flatMap_lower_toUpper (e : Element) :
    (e.uniformChars.map Char.toUpper).flatMap Text.lower = e.uniformChars := by
  rw [List.flatMap_map, List.flatMap_congr fun c _ => Text.lower_toUpper c]
  exact Text.flatMap_lower_of_fixed fun c hc => (Element.wordChar_of_mem_uniformChars hc).2

/-- The uniform form of an element is accepted as a literal. -/
theorem read_uniformChars (e : Element) :
    Element.read (String.ofList e.uniformChars) = .ok (e.dotted Literal.lowered) := by
  cases e with
  | literal l => exact Element.read_text l.lowered
  | index i => exact Element.read_text (.ofNumber i)

/-- A piece of an environment key stands for the element it was made from. -/
theorem segmentElement_toUpper (e : Element) :
    segmentElement (e.uniformChars.map Char.toUpper) = .ok (e.numbered Literal.lowered) := by
  have hne : e.uniformChars.map Char.toUpper ≠ [] := by simp [e.uniformChars_ne_nil]
  have hs : e.uniformChars.map Char.toUpper ∈ segments [e] := List.mem_cons_self
  have hsigma : 'Σ' ∉ e.uniformChars.map Char.toUpper := fun h => (mem_segments hs h).2.2 rfl
  rw [segmentElement, if_neg hne, Text.lowercase_eq hsigma, flatMap_lower_toUpper,
    read_uniformChars]
  simp only [Element.asIndex?_congr (Element.uniformChars_dotted Literal.uniformChars_lowered e)]
  cases e with
  | literal l =>
      cases h : (Element.literal l).asIndex? <;> simp only [Element.numbered, h]
      rfl
  | index i => rfl

/-- The segments of a variable are read as the lower-cased elements. -/
theorem segmentElements_segments (es : List Element) :
    segmentElements (segments es) = .ok (es.map (Element.numbered Literal.lowered)) := by
  induction es with
  | nil => rfl
  | cons e es ih =>
      rw [segments] at ih
      rw [segments, List.map_cons, segmentElements, segmentElement_toUpper, ih]
      rfl

/-- An environment key ends in no marker. -/
theorem stem_environmentKey (withLists : Bool) (n : Name) :
    stem withLists (environmentKey n.elements) = (environmentKey n.elements).toList := by
  cases withLists with
  | false => rfl
  | true =>
      cases h : Text.beforeSuffix? listMarker.toList (environmentKey n.elements).toList with
      | none => simp [stem, h]
      | some r =>
          have hkey := Text.beforeSuffix?_eq_some_iff.mp h
          have hmarker : r ++ listMarker.toList = (r ++ ['_']) ++ ['_'] := by simp [listMarker]
          rw [hmarker] at hkey
          have hsplit := split_environmentKey n
          rw [hkey, Text.split_append_sep] at hsplit
          have hnil : [] ∈ segments n.elements := by simp [← hsplit]
          exact absurd hnil (nil_not_mem_segments n.elements)

/-- Without its marker, the key of a whole list is the key of the list. -/
theorem stem_listKey (n : Name) :
    stem true (environmentKey n.elements ++ listMarker) = (environmentKey n.elements).toList := by
  have h : Text.beforeSuffix? listMarker.toList (environmentKey n.elements ++ listMarker).toList
      = some (environmentKey n.elements).toList :=
    Text.beforeSuffix?_eq_some_iff.mpr String.toList_append
  rw [stem, if_pos rfl, h, Option.getD_some]

/-- A raw key stands for a name if, its marker dropped, it is the environment key of the name. -/
theorem environmentName_of_stem {withLists : Bool} {key : String} {n : Name}
    (hkey : ∀ c ∈ key.toList, isReserved c = false)
    (hstem : stem withLists key = (environmentKey n.elements).toList) :
    environmentName withLists key = .ok (n.respell (Element.numbered Literal.lowered)) := by
  have hfind : key.toList.find? isReserved = none :=
    List.find?_eq_none.mpr fun c hc => by simp [hkey c hc]
  rw [environmentName, hfind]
  simp only [hstem, split_environmentKey, segmentElements_segments]
  have hname := Name.ofElements_elements (n.respell (Element.numbered Literal.lowered))
  rw [Name.respell] at hname ⊢
  rw [hname]
  rfl

/-- The lower-cased elements are a spelling of the name. -/
theorem agrees_lowered (n : Name) :
    (n.respell (Element.numbered Literal.lowered)).agrees n = true :=
  Name.agrees_respell (Element.uniformChars_numbered Literal.uniformChars_lowered) n

/-- **The environment key of a name stands for it.** -/
theorem environmentName_environmentKey (withLists : Bool) (n : Name) :
    environmentName withLists (environmentKey n.elements)
      = .ok (n.respell (Element.numbered Literal.lowered)) :=
  environmentName_of_stem (fun _ hc => unreserved_environmentKey hc)
    (stem_environmentKey withLists n)

/-- **The key of a whole list stands for the list.** -/
theorem environmentName_listKey (n : Name) :
    environmentName true (environmentKey n.elements ++ listMarker)
      = .ok (n.respell (Element.numbered Literal.lowered)) := by
  refine environmentName_of_stem (fun c hc => ?_) (stem_listKey n)
  rw [String.toList_append] at hc
  rcases List.mem_append.mp hc with hc | hc
  · exact unreserved_environmentKey hc
  · have : listMarker.toList.all (!isReserved ·) = true := by decide
    simpa using List.all_eq_true.mp this c hc

/-- **Names have one environment key exactly when they agree.** -/
theorem environmentKey_eq_iff {a b : Name} :
    environmentKey a.elements = environmentKey b.elements ↔ a.agrees b = true := by
  have hback (n : Name) : (segments n.elements).map (·.flatMap Text.lower)
      = n.elements.map Element.uniformChars := by
    rw [segments, List.map_map]
    exact List.map_congr_left fun e _ => flatMap_lower_toUpper e
  rw [Name.agrees_iff]
  constructor
  · intro h
    rw [← hback a, ← hback b, ← split_environmentKey, ← split_environmentKey, h]
  · intro h
    have hsegments : segments a.elements = segments b.elements := by
      have hmap (es : List Element) :
          segments es = (es.map Element.uniformChars).map (·.map Char.toUpper) := by
        rw [segments, List.map_map]
        rfl
      rw [hmap, hmap, h]
    rw [← String.toList_inj, toList_environmentKey, toList_environmentKey, hsegments]

end Mapping

/-! ## Soundness -/

/-- What a mapper owes a name: candidates under different keys, each of which stands for the name,
or for its parent if it holds a whole list. -/
structure Mapper.SoundFor (m : Mapper) (n : Name) : Prop where
  candidates : ∃ cs, m.candidates n = .ok cs ∧ cs ≠ [] ∧ (cs.map (·.key)).Nodup
  whole : ∀ cs, m.candidates n = .ok cs → ∀ c ∈ cs, c.reach = .whole →
    ∃ n', m.nameOf c.key = .ok n' ∧ n'.agrees n = true
  item : ∀ cs, m.candidates n = .ok cs → ∀ c ∈ cs, c.reach ≠ .whole →
    ∃ parent n', n.parent? = some parent ∧ m.nameOf c.key = .ok n' ∧ n'.agrees parent = true

namespace Mapping

/-- Dotted keys are mapped back to the name. -/
theorem dotted_soundFor (n : Name) : dotted.SoundFor n where
  candidates := by
    refine ⟨_, rfl, by simp [dottedKeys, distinct], ?_⟩
    rw [List.map_map, show (Candidate.key ∘ (Candidate.plain · n)) = id from rfl, List.map_id]
    exact nodup_distinct _
  whole := by
    rintro _ ⟨⟩ c hc -
    obtain ⟨k, hk, rfl⟩ := List.mem_map.mp hc
    exact nameOf_dottedKeys hk
  item := by
    rintro _ ⟨⟩ c hc hreach
    obtain ⟨k, -, rfl⟩ := List.mem_map.mp hc
    exact absurd rfl hreach

/-- The candidate for a whole list is there for the names that end in a number below a parent. -/
theorem listCandidate?_eq_some_iff {n : Name} {c : Candidate} :
    listCandidate? n = some c ↔ ∃ parent i, n.parent? = some parent ∧ n.last.asIndex? = some i
      ∧ c = ⟨environmentKey parent.elements ++ listMarker, parent, .item i⟩ := by
  rw [listCandidate?]
  cases n.last.asIndex? <;> cases n.parent? <;> simp [eq_comm]

/-- The candidates for a variable are the plain one and, if lists are read, the one for an item. -/
theorem mem_environmentCandidates {withLists : Bool} {n : Name} {c : Candidate}
    (h : c ∈ environmentCandidates withLists n) :
    c = .plain (environmentKey n.elements) n ∨ withLists = true ∧ listCandidate? n = some c := by
  rw [environmentCandidates, List.mem_cons] at h
  refine h.imp_right fun h => ?_
  cases withLists with
  | false => simp at h
  | true => exact ⟨rfl, by simpa using h⟩

/-- The environment key of a name and the key of its parent's list differ, by the marker. -/
theorem environmentKey_ne_listKey (n parent : Name) :
    environmentKey n.elements ≠ environmentKey parent.elements ++ listMarker := by
  intro h
  have hstem := stem_environmentKey true n
  rw [h, stem_listKey, String.toList_append] at hstem
  have := congrArg List.length hstem
  simp [listMarker] at this

/-- Names of variables are mapped back to the name. -/
theorem environment_soundFor (withLists : Bool) (n : Name) :
    (environment withLists).SoundFor n where
  candidates := by
    refine ⟨_, rfl, List.cons_ne_nil _ _, ?_⟩
    cases withLists with
    | false => simp [environmentCandidates]
    | true =>
        cases h : listCandidate? n with
        | none => simp [environmentCandidates, h]
        | some c =>
            obtain ⟨parent, i, -, -, rfl⟩ := listCandidate?_eq_some_iff.mp h
            have hne := environmentKey_ne_listKey n parent
            simpa [environmentCandidates, h, Candidate.plain] using hne
  whole := by
    rintro _ ⟨⟩ c hc hreach
    rcases mem_environmentCandidates hc with rfl | ⟨-, h⟩
    · exact ⟨_, environmentName_environmentKey withLists n, agrees_lowered n⟩
    · obtain ⟨parent, i, -, -, rfl⟩ := listCandidate?_eq_some_iff.mp h
      contradiction
  item := by
    rintro _ ⟨⟩ c hc hreach
    rcases mem_environmentCandidates hc with rfl | ⟨rfl, h⟩
    · exact absurd rfl hreach
    · obtain ⟨parent, i, hparent, -, rfl⟩ := listCandidate?_eq_some_iff.mp h
      exact ⟨parent, _, hparent, environmentName_listKey parent, agrees_lowered parent⟩

/-- **Mapper soundness**: for every name, the candidates of the dotted mapper and of both
environment mappers have different keys, there is one, and each stands for the name or, if it holds
a whole list, for the parent.  Both environment mappers try the environment key first, which names
share exactly when they agree. -/
theorem mappers_sound (n : Name) :
    dotted.SoundFor n
      ∧ (∀ withLists, (environment withLists).SoundFor n
          ∧ ∃ lists, (environment withLists).candidates n
              = .ok (.plain (environmentKey n.elements) n :: lists))
      ∧ ∀ n' : Name, environmentKey n.elements = environmentKey n'.elements ↔ n.agrees n' = true :=
  ⟨dotted_soundFor n, fun withLists => ⟨environment_soundFor withLists n, _, rfl⟩,
    fun _ => environmentKey_eq_iff⟩

end Mapping

end LayeredConfig
