import LayeredConfig.Proofs.Replies

/-!
# LayeredConfig.Proofs.LookupLog

What a lookup leaves in the notes of a session.

1. A source asks its provider for the keys of what it attempts: the candidates that its mapper lists,
   and then the further keys that its index has (`Source.attempts`).  It goes through them in order,
   and stops where the provider fails or a value is found (`Source.Searches`, `Source.asks_get`).
2. A built-in mapper makes it ask for different keys, if those that the index was built of are
   different (`Source.nodup_keys_attempts`).
3. It notes nothing about sources that are passed over (`Source.skipNotes_get`).
-/

namespace LayeredConfig

/-! ## Notes -/

/-- The keys that providers were asked for. -/
def Session.askedKeys (σ : Session) : List (SourceId × String) := σ.lookups.toList

/-- The note that a source failed and was passed over. -/
def Event.isSkip : Event → Bool
  | .sourceSkipped .. => true
  | _ => false

/-- The notes about sources that were passed over. -/
def Session.skipNotes (σ : Session) : List Event := σ.events.toList.filter Event.isSkip

namespace Run

variable {α β γ : Type} {view : Session → List γ}

/-- What a computation adds to a list that is read off the session. -/
def adds (view : Session → List γ) (x : Run α) (σ : Session) : List γ :=
  (view (x σ).2).drop (view σ).length

/-- The keys that a computation asks providers for, in order. -/
abbrev asks (x : Run α) (σ : Session) : List (SourceId × String) := adds Session.askedKeys x σ

/-- What a computation notes about sources that are passed over. -/
abbrev skips (x : Run α) (σ : Session) : List Event := adds Session.skipNotes x σ

theorem adds_eq {x : Run α} {σ : Session} {added : List γ} (h : view (x σ).2 = view σ ++ added) :
    adds view x σ = added := by
  rw [adds, h, List.drop_left]

/-- What neither of two computations adds to, both together do not add to. -/
theorem Keeps.bind {x : Run α} {f : α → Run β} (hx : Keeps view x) (hf : ∀ a, Keeps view (f a)) :
    Keeps view (x >>= f) :=
  fun σ => (hf _ _).trans (hx σ)

/-- A lookup is noted after those before it. -/
theorem askedKeys_noteLookup (id : SourceId) (key : String) (σ : Session) :
    Session.askedKeys (noteLookup id key σ).2 = σ.askedKeys ++ [(id, key)] := Array.toList_push

/-- A note joins the notes of skipped sources if it is one of them. -/
theorem skipNotes_note (e : Event) (σ : Session) :
    Session.skipNotes (note e σ).2 = σ.skipNotes ++ [e].filter Event.isSkip := by
  have hafter : (note e σ).2.events.toList = σ.events.toList ++ [e] := Array.toList_push
  rw [Session.skipNotes, hafter, List.filter_append, Session.skipNotes]

theorem keeps_note {e : Event} (h : e.isSkip = false) : Keeps Session.skipNotes (note e) := by
  intro σ
  rw [skipNotes_note, List.filter_singleton, h, cond_false, List.append_nil]

end Run

/-! ## Built-in mappers -/

/-- The candidates of a built-in mapper have different keys. -/
theorem Mapper.BuiltIn.nodup_keys_listed {m : Mapper} (h : m.BuiltIn) (n : Name) :
    ((m.listed n).map (·.key)).Nodup := by
  have hsound : m.SoundFor n := by
    cases h with
    | dotted => exact Mapping.dotted_soundFor n
    | environment withLists => exact Mapping.environment_soundFor withLists n
  obtain ⟨cs, hcs, -, hnodup⟩ := hsound.candidates
  rw [h.candidates_eq n] at hcs
  cases hcs
  exact hnodup

namespace Source

variable {s : Source} {n : Name} {σ τ : Session}

/-! ## The parts of a lookup -/

theorem askedKeys_candidatesOrNone (m : CachedMapper) (n : Name) :
    Run.Keeps Session.askedKeys (m.candidatesOrNone n) :=
  CachedMapper.compositional_candidatesOrNone (Run.keeps_compositional fun _ _ => rfl)
    (CachedMapper.keeps_candidates fun _ _ _ => rfl)

/-- Making an index asks for no key. -/
theorem askedKeys_index (s : Source) : Run.Keeps Session.askedKeys s.index := by
  intro σ
  simp only [index, Run.bind_apply, Run.get_apply]
  cases σ.index? s.id <;> rfl

/-- Listing candidates skips no source. -/
theorem skipNotes_candidatesOrNone (m : CachedMapper) (n : Name) :
    Run.Keeps Session.skipNotes (m.candidatesOrNone n) := by
  refine .bind (CachedMapper.keeps_candidates fun _ _ _ => rfl) fun r => ?_
  cases r with
  | ok cs => exact fun _ => rfl
  | error e => exact .bind (Run.keeps_note rfl) fun _ _ => rfl

/-- Keys that stand for no name are noted, and no source is passed over for them. -/
theorem filter_isSkip_failures (m : Mapper) (keys : List String) :
    (Index.failures m keys).filter Event.isSkip = [] := by
  rw [List.filter_eq_nil_iff]
  intro e he
  obtain ⟨key, -, hkey⟩ := List.mem_filterMap.mp he
  cases hname : m.nameOf key with
  | ok n =>
      rw [hname] at hkey
      contradiction
  | error flaw =>
      rw [hname] at hkey
      cases hkey
      exact Bool.false_ne_true

theorem skipNotes_index (s : Source) : Run.Keeps Session.skipNotes s.index := by
  intro σ
  cases h : σ.index? s.id with
  | some ix => rw [s.index_remembered h]
  | none =>
      have hevents : (s.index σ).2.events.toList =
          σ.events.toList ++ Index.failures s.mapper.mapper s.provider.keys := by
        simp only [index, Run.bind_apply, Run.get_apply, h, Run.pure_apply]
        exact Array.toList_append
      rw [Session.skipNotes, hevents, List.filter_append, filter_isSkip_failures, List.append_nil,
        Session.skipNotes]

/-- Trying candidates skips no source: a failure is noted by the chain. -/
theorem skipNotes_tryAll (s : Source) (n : Name) (cs : List Candidate) :
    Run.Keeps Session.skipNotes (s.tryAll n cs) := by
  induction cs with
  | nil => exact fun _ => rfl
  | cons c cs ih =>
      rw [tryAll]
      split
      · refine .bind (fun _ => rfl) fun _ => ?_
        split
        · exact fun _ => rfl
        · exact ih
        · split
          · exact fun _ => rfl
          · exact .bind (Run.keeps_note rfl) fun _ => ih
      · exact ih

/-- **A lookup notes nothing about sources that are passed over.** -/
theorem skipNotes_get (s : Source) (n : Name) : Run.Keeps Session.skipNotes (s.get n) := by
  refine .bind (skipNotes_candidatesOrNone s.mapper n) fun cs => ?_
  refine .bind (skipNotes_tryAll s n cs) fun found => ?_
  split
  · split
    · exact fun _ => rfl
    · exact .bind (skipNotes_index s) fun ix => skipNotes_tryAll s n _
  · exact fun _ => rfl

/-! ## Searching -/

/-- A search through candidates, with the keys that are asked for and what comes of it.  Candidates
for other names are left out; a value that is missing or of no use is passed over; a failure or a
value of use is the end. -/
inductive Searches (s : Source) (n : Name) :
    List Candidate → List String → Except ProviderError (Option Property) → Prop where
  | exhausted : Searches s n [] [] (.ok none)
  | other {c : Candidate} {cs : List Candidate} {keys : List String}
      {r : Except ProviderError (Option Property)} (happlies : c.applies n = false)
      (rest : Searches s n cs keys r) : Searches s n (c :: cs) keys r
  | failed {c : Candidate} {cs : List Candidate} {e : ProviderError}
      (happlies : c.applies n = true) (hget : s.provider.get c.key = .error e) :
      Searches s n (c :: cs) [c.key] (.error e)
  | missing {c : Candidate} {cs : List Candidate} {keys : List String}
      {r : Except ProviderError (Option Property)} (happlies : c.applies n = true)
      (hget : s.provider.get c.key = .ok none) (rest : Searches s n cs keys r) :
      Searches s n (c :: cs) (c.key :: keys) r
  | useless {c : Candidate} {cs : List Candidate} {keys : List String}
      {r : Except ProviderError (Option Property)} {raw : Value} {e : MappingError}
      (happlies : c.applies n = true) (hget : s.provider.get c.key = .ok (some raw))
      (hextract : c.extract raw = .error e) (rest : Searches s n cs keys r) :
      Searches s n (c :: cs) (c.key :: keys) r
  | found {c : Candidate} {cs : List Candidate} {raw v : Value} (happlies : c.applies n = true)
      (hget : s.provider.get c.key = .ok (some raw)) (hextract : c.extract raw = .ok v) :
      Searches s n (c :: cs) [c.key] (.ok (some ⟨n, v, s.originOf c.key⟩))

/-- The keys that are asked for are keys of the candidates, in order. -/
theorem Searches.sublist {cs : List Candidate} {keys : List String}
    {r : Except ProviderError (Option Property)} (h : s.Searches n cs keys r) :
    keys.Sublist (cs.map (·.key)) := by
  induction h with
  | exhausted => exact .slnil
  | other _ _ ih => exact ih.cons _
  | failed => exact (List.nil_sublist _).cons_cons _
  | missing _ _ _ ih => exact ih.cons_cons _
  | useless _ _ _ _ ih => exact ih.cons_cons _
  | found => exact (List.nil_sublist _).cons_cons _

/-- The keys that are asked for while candidates are tried. -/
def trail (s : Source) (n : Name) : List Candidate → List String
  | [] => []
  | c :: cs =>
    if c.applies n then
      c.key :: match s.provider.get c.key with
        | .error _ => []
        | .ok none => s.trail n cs
        | .ok (some raw) =>
          match c.extract raw with
          | .ok _ => []
          | .error _ => s.trail n cs
    else s.trail n cs

/-- **Trying candidates is a search.** -/
theorem searches_trail (s : Source) (n : Name) (cs : List Candidate) :
    s.Searches n cs (s.trail n cs) (s.tries n cs) := by
  induction cs with
  | nil => exact .exhausted
  | cons c cs ih =>
      rw [trail, tries]
      split
      · next happlies =>
        cases hget : s.provider.get c.key with
        | error e => exact .failed happlies hget
        | ok found =>
            cases found with
            | none => exact .missing happlies hget ih
            | some raw =>
                cases hextract : c.extract raw with
                | ok v =>
                    simp only [hextract]
                    exact .found happlies hget hextract
                | error e =>
                    simp only [hextract]
                    exact .useless happlies hget hextract ih
      · next hother => exact .other (Bool.eq_false_iff.mpr hother) ih

/-- Further candidates are asked for only if the first ones lead to nothing. -/
theorem trail_append (s : Source) (n : Name) (cs cs' : List Candidate) :
    s.trail n (cs ++ cs') = s.trail n cs ++ match s.tries n cs with
      | .ok none => s.trail n cs'
      | _ => [] := by
  induction cs with
  | nil => rfl
  | cons c cs ih =>
      rw [List.cons_append, trail, trail, tries]
      split
      · cases s.provider.get c.key with
        | error e => rfl
        | ok found =>
            cases found with
            | none => exact congrArg (c.key :: ·) ih
            | some raw =>
                cases hextract : c.extract raw with
                | ok v => simp only [hextract, List.append_nil]
                | error e =>
                    simp only [hextract]
                    exact congrArg (c.key :: ·) ih
      · exact ih

/-- The keys that are asked for are those of the trail, in its order. -/
theorem askedKeys_tryAll (s : Source) (n : Name) (cs : List Candidate) (σ : Session) :
    Session.askedKeys (s.tryAll n cs σ).2 = σ.askedKeys ++ (s.trail n cs).map (s.id, ·) := by
  induction cs generalizing σ with
  | nil => exact (List.append_nil _).symm
  | cons c cs ih =>
      rw [tryAll, trail]
      split
      · have hasked := Run.askedKeys_noteLookup s.id c.key σ
        rw [Run.bind_apply, List.map_cons, List.append_cons, ← hasked]
        generalize (Run.noteLookup s.id c.key σ).2 = υ
        cases s.provider.get c.key with
        | error e => exact (List.append_nil _).symm
        | ok found =>
            cases found with
            | none => exact ih υ
            | some raw =>
                cases hextract : c.extract raw with
                | ok v =>
                    simp only [hextract]
                    exact (List.append_nil _).symm
                | error e =>
                    simp only [hextract]
                    exact ih (Run.note (.extractionFailed s.name c.key e) υ).2
      · exact ih σ

/-! ## The keys of a lookup -/

/-- What a source tries for a name, in order: the listed candidates, and then the further keys of its
index. -/
def attempts (s : Source) (n : Name) (σ : Session) : List Candidate :=
  s.mapper.listed n σ ++ match s.capability with
    | .lookupOnly => []
    | .enumerable => others (s.known σ) (s.mapper.listed n σ) n

/-- What is remembered determines what is tried. -/
theorem attempts_congr (h : σ.SameMemory τ) (n : Name) : s.attempts n σ = s.attempts n τ := by
  have hlisted : s.mapper.listed n σ = s.mapper.listed n τ := by
    rw [CachedMapper.listed_eq, CachedMapper.listed_eq, CachedMapper.candidates_fst,
      CachedMapper.candidates_fst]
    simp only [Session.entry_congr h.caches]
  rw [attempts, attempts, hlisted, known, known, h.index?]

/-- **A source answers with what its search comes to.** -/
theorem get_eq_tries (s : Source) (n : Name) (σ : Session) :
    (s.get n σ).1 = s.tries n (s.attempts n σ) := by
  rw [get_apply]
  exact s.answer_eq_tries n _ _

/-- **A source asks for the keys of its search.** -/
theorem askedKeys_get (s : Source) (n : Name) (σ : Session) :
    Session.askedKeys (s.get n σ).2 =
      σ.askedKeys ++ (s.trail n (s.attempts n σ)).map (s.id, ·) := by
  have hknown := s.known_candidatesOrNone s.mapper n σ
  rw [get, Run.bind_apply, attempts, trail_append, CachedMapper.listed, ← hknown, List.map_append,
    ← askedKeys_candidatesOrNone s.mapper n σ]
  generalize (s.mapper.candidatesOrNone n σ).1 = cs
  generalize (s.mapper.candidatesOrNone n σ).2 = υ
  obtain ⟨hanswer, hsame⟩ := s.tryAll_apply n cs υ
  have hasked := s.askedKeys_tryAll n cs υ
  have hsame' : s.known (s.tryAll n cs υ).2 = s.known υ := by
    rw [known, known, hsame.index?]
  rw [Run.bind_apply, hanswer, ← List.append_assoc, ← hasked]
  cases s.tries n cs with
  | error e => cases s.capability <;> exact (List.append_nil _).symm
  | ok found =>
      cases found with
      | some p => cases s.capability <;> exact (List.append_nil _).symm
      | none =>
          cases s.capability with
          | lookupOnly => exact (List.append_nil _).symm
          | enumerable =>
              simp only [Run.bind_apply, index_apply, hsame', askedKeys_tryAll,
                askedKeys_index s _]

/-- A question for a name asks for the keys of the trail through the attempts. -/
theorem asks_get (s : Source) (n : Name) (σ : Session) :
    Run.asks (s.get n) σ = (s.trail n (s.attempts n σ)).map (s.id, ·) :=
  Run.adds_eq (s.askedKeys_get n σ)

/-! ## Different keys -/

/-- The further keys are those of the index that are no candidates. -/
theorem keys_others (ix : Index) (cs : List Candidate) (n : Name) :
    (others ix cs n).map (·.key) = (ix.keysOf n).filter fun key => !cs.any (·.key == key) := by
  rw [others, List.map_map]
  exact List.map_id _

/-- **All keys that are attempted are different.**  The candidates of a built-in mapper have different
keys, and the further keys are no candidates. -/
theorem nodup_keys_attempts (hm : s.mapper.mapper.BuiltIn) (hσ : σ.Trusts s.mapper)
    {keys : List String} (hkeys : keys.Nodup)
    (hindex : s.known σ = Index.ofKeys s.mapper.mapper keys) (n : Name) :
    ((s.attempts n σ).map (·.key)).Nodup := by
  have hcandidates : ((s.mapper.listed n σ).map (·.key)).Nodup := by
    rw [keys_congr (hσ.listed_alike (hm.candidates_eq n))]
    exact hm.nodup_keys_listed n
  rw [attempts, List.map_append]
  cases s.capability with
  | lookupOnly => rwa [List.map_nil, List.append_nil]
  | enumerable =>
      rw [hindex, keys_others, Index.keysOf_ofKeys]
      refine List.Nodup.append hcandidates ((hkeys.filter _).filter _) fun key hkey hother => ?_
      obtain ⟨c, hc, rfl⟩ := List.mem_map.mp hkey
      have hnone := (List.mem_filter.mp hother).2
      rw [Bool.not_eq_true', List.any_eq_false] at hnone
      exact hnone c hc (beq_self_eq_true _)

end Source

end LayeredConfig
