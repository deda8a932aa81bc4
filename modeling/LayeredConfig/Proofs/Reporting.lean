import LayeredConfig.Proofs.Replies
import LayeredConfig.Proofs.UserSources

/-!
# LayeredConfig.Proofs.Reporting

What a migration reports.

1. The value of a deprecated property can go to its replacement if the table declares one type for
   both (`Migration.Replaceable`), which is what the migration tests
   (`Migration.outcome_eq_matched_iff`).
2. The inspection of a source asks it for the error-level entries of the table in order.  What it
   answers and what is reported are in step, entry by entry (`Migration.Recorded`).
3. So the report of a migration holds for every user source what the source answered, no more and no
   less (`Migration.analyze_reports`).
-/

namespace LayeredConfig

/-! ## Declared types -/

namespace MetadataTable

/-- The table declares a type for a name: in the entry of the name, or, if it has none, as the value
type of the map that the entry of its parent declares.  Types are without blanks. -/
inductive Declares (t : MetadataTable) (n : Name) (type : List Char) : Prop where
  | own {m : Metadata} {text : String} (hentry : t.get? n = some m) (htype : m.type = some text)
      (h : TypeText.compact text = type)
  | ofParent {parent : Name} {m : Metadata} {text : String} (hnone : t.get? n = none)
      (hparent : n.parent? = some parent) (hentry : t.get? parent = some m)
      (htype : m.type = some text) (h : TypeText.mapValue? (TypeText.compact text) = some type)

variable {t : MetadataTable} {n : Name} {type : List Char}

/-- A name with an entry has the type of the entry. -/
theorem declares_iff_of_entry {m : Metadata} (h : t.get? n = some m) :
    t.Declares n type ↔ m.type.map TypeText.compact = some type := by
  constructor
  · intro hdeclares
    cases hdeclares with
    | own hentry htype heq =>
        rw [h] at hentry
        cases hentry
        rw [htype, Option.map_some, heq]
    | ofParent hnone =>
        rw [h] at hnone
        contradiction
  · intro htype
    obtain ⟨text, htext, heq⟩ := Option.map_eq_some_iff.mp htype
    exact .own h htext heq

/-- A name without an entry has the type of the values of the map that it is in. -/
theorem declares_iff_of_no_entry (h : t.get? n = none) :
    t.Declares n type ↔ ((n.parent?.bind t.get?).bind (·.type)).bind
      (TypeText.mapValue? ∘ TypeText.compact) = some type := by
  simp only [Option.bind_eq_some_iff, Function.comp_apply]
  constructor
  · intro hdeclares
    cases hdeclares with
    | own hentry =>
        rw [h] at hentry
        contradiction
    | ofParent _ hparent hentry htype heq => exact ⟨_, ⟨_, ⟨_, hparent, hentry⟩, htype⟩, heq⟩
  · rintro ⟨_, ⟨_, ⟨_, hparent, hentry⟩, htype⟩, heq⟩
    exact .ofParent h hparent hentry htype heq

/-- A deprecated property is compatible with a replacement for which its type is declared. -/
theorem isCompatible_iff {m : Metadata} {r : Name} : t.isCompatible m r = true ↔
    ∃ type, m.type = some type ∧ t.Declares r (TypeText.compact type) := by
  rw [isCompatible]
  cases m.type with
  | none => simp
  | some type =>
      simp only [Option.map_some, Option.some.injEq, exists_eq_left']
      cases h : t.get? r with
      | some target => exact beq_iff_eq.trans (declares_iff_of_entry h).symm
      | none => exact beq_iff_eq.trans (declares_iff_of_no_entry h).symm

end MetadataTable

namespace Migration

variable {t : MetadataTable} {m : Metadata} {d : Deprecation}

/-- The value of a deprecated property can go to a replacement: the property has a type, the
replacement is a name, and the table declares the same type for it. -/
def Replaceable (t : MetadataTable) (m : Metadata) (d : Deprecation) : Prop :=
  ∃ type text r, m.type = some type ∧ d.replacement = some text ∧ Name.parse text = .ok r ∧
    t.Declares r (TypeText.compact type)

/-- A deprecation has a replacement if its text is a name. -/
theorem replacement?_eq_some_iff {r : Name} : replacement? d = some r ↔
    ∃ text, d.replacement = some text ∧ Name.parse text = .ok r := by
  rw [replacement?, Option.bind_eq_some_iff]
  refine exists_congr fun text => and_congr_right fun _ => ?_
  cases Name.parse text <;> simp

/-- **A deprecated property is matched exactly if its value can go to the replacement.** -/
theorem outcome_eq_matched_iff : outcome t m d = .matched ↔ Replaceable t m d := by
  have hreplaceable : Replaceable t m d ↔
      ∃ r, replacement? d = some r ∧ t.isCompatible m r = true := by
    simp only [Replaceable, replacement?_eq_some_iff, MetadataTable.isCompatible_iff]
    constructor
    · rintro ⟨type, text, r, htype, htext, hr, h⟩
      exact ⟨r, ⟨text, htext, hr⟩, type, htype, h⟩
    · rintro ⟨r, ⟨text, htext, hr⟩, type, htype, h⟩
      exact ⟨type, text, r, htype, htext, hr, h⟩
  rw [hreplaceable, outcome]
  cases replacement? d with
  | none => simp
  | some r => simp

/-! ## What a source is asked and what is reported -/

/-- What a source says to a question for a property. -/
abbrev Answer := Except ProviderError (Option Property)

/-- The deprecation of an entry is an error. -/
def Retired (f : Filed Metadata) (d : Deprecation) : Prop :=
  f.item.deprecation = some d ∧ d.level = .error

/-- The answers of a source to the questions for the error-level entries of a table, in order, and
what is reported of them.  Entries that are not deprecated, or only with a warning, are not asked
for. -/
inductive Recorded (t : MetadataTable) :
    List (Filed Metadata) → List Answer → List Finding → List Finding → Prop where
  | done : Recorded t [] [] [] []
  | passed {f : Filed Metadata} {fs : List (Filed Metadata)} {as : List Answer}
      {ms us : List Finding} (h : ∀ d, ¬ Retired f d) (rest : Recorded t fs as ms us) :
      Recorded t (f :: fs) as ms us
  | absent {f : Filed Metadata} {fs : List (Filed Metadata)} {as : List Answer}
      {ms us : List Finding} {d : Deprecation} (h : Retired f d) (rest : Recorded t fs as ms us) :
      Recorded t (f :: fs) (.ok none :: as) ms us
  | failed {f : Filed Metadata} {fs : List (Filed Metadata)} {as : List Answer}
      {ms us : List Finding} {d : Deprecation} {e : ProviderError} (h : Retired f d)
      (rest : Recorded t fs as ms us) : Recorded t (f :: fs) (.error e :: as) ms us
  | matched {f : Filed Metadata} {fs : List (Filed Metadata)} {as : List Answer}
      {ms us : List Finding} {d : Deprecation} {p : Property} (h : Retired f d)
      (hname : p.name = f.name) (hreplace : Replaceable t f.item d) (rest : Recorded t fs as ms us) :
      Recorded t (f :: fs) (.ok (some p) :: as)
        (⟨p, replacement? d, .error, d.reason, .matched⟩ :: ms) us
  | unhandled {f : Filed Metadata} {fs : List (Filed Metadata)} {as : List Answer}
      {ms us : List Finding} {d : Deprecation} {p : Property} (h : Retired f d)
      (hname : p.name = f.name) (hreplace : ¬ Replaceable t f.item d)
      (rest : Recorded t fs as ms us) :
      Recorded t (f :: fs) (.ok (some p) :: as) ms
        (⟨p, replacement? d, .error, d.reason, .unhandled⟩ :: us)

end Migration

/-- Asks a source for names in order. -/
def Source.getAll (s : Source) : List Name → Run (List (Except ProviderError (Option Property)))
  | [] => pure []
  | n :: ns => do
    let found ← s.get n
    return found :: (← s.getAll ns)

namespace Source

variable {s : Source} {n : Name} {p : Property}

/-- A property is found under the name that was asked for. -/
theorem name_of_tries {cs : List Candidate} (h : s.tries n cs = .ok (some p)) : p.name = n := by
  induction cs with
  | nil => cases h
  | cons c cs ih =>
      rw [tries] at h
      split at h
      · split at h
        · contradiction
        · exact ih h
        · split at h
          · cases h
            rfl
          · exact ih h
      · exact ih h

/-- **What a source has for a name has this name.** -/
theorem name_of_get {σ : Session} (h : (s.get n σ).1 = .ok (some p)) : p.name = n := by
  rw [get_apply, answer_eq_tries] at h
  exact name_of_tries h

end Source

namespace Migration

/-- Asks sources for names, one source after the other. -/
def interview (ns : List Name) : List Source → Run (List (List Answer))
  | [] => pure []
  | s :: ss => do
    let as ← s.getAll ns
    return as :: (← interview ns ss)

variable {f : Filed Metadata} {fs : List (Filed Metadata)} {s : Source} {ss : List Source}
  {σ τ : Session}

/-- The name of a property that sources are asked for. -/
def askedNames (t : MetadataTable) : List Name := (asked t).map (·.1)

/-- An entry that is deprecated on the level of errors is asked for. -/
theorem asked_cons_of_retired (h : Retired f d) :
    asked ⟨f :: fs⟩ = (f.name, f.item, d) :: asked ⟨fs⟩ := by
  simp [asked, MetadataTable.deprecated, h.1, h.2]

/-- Any other entry is not asked for. -/
theorem asked_cons_of_not_retired (h : ∀ d, ¬ Retired f d) : asked ⟨f :: fs⟩ = asked ⟨fs⟩ := by
  cases hd : f.item.deprecation with
  | none => simp [asked, MetadataTable.deprecated, hd]
  | some d =>
      have hlevel : d.level ≠ .error := fun hlevel => h d ⟨hd, hlevel⟩
      simp [asked, MetadataTable.deprecated, hd, hlevel]

/-- A property that is found is recorded under what becomes of it. -/
theorem Recorded.found {as : List Answer} {findings : List Finding} {p : Property}
    (h : Retired f d) (hname : p.name = f.name)
    (rest : Recorded t fs as (findings.filter (·.outcome = .matched))
      (findings.filter (·.outcome = .unhandled))) :
    Recorded t (f :: fs) (.ok (some p) :: as)
      ((finding t f.item d p :: findings).filter (·.outcome = .matched))
      ((finding t f.item d p :: findings).filter (·.outcome = .unhandled)) := by
  cases houtcome : outcome t f.item d with
  | matched =>
      have hfinding : finding t f.item d p = ⟨p, replacement? d, .error, d.reason, .matched⟩ := by
        rw [finding, houtcome, h.2]
      rw [hfinding]
      exact .matched h hname (outcome_eq_matched_iff.mp houtcome) rest
  | unhandled =>
      have hfinding : finding t f.item d p = ⟨p, replacement? d, .error, d.reason, .unhandled⟩ := by
        rw [finding, houtcome, h.2]
      rw [hfinding]
      refine .unhandled h hname (fun hreplace => ?_) rest
      rw [outcome_eq_matched_iff.mpr hreplace] at houtcome
      contradiction

/-- **What an inspection finds is what the source answers**, entry by entry.  Notes between the
questions change no answer. -/
theorem recorded_inspectFor (t : MetadataTable) (s : Source) (fs : List (Filed Metadata))
    (hm : σ.SameMemory τ) :
    Recorded t fs (s.getAll (askedNames ⟨fs⟩) τ).1
        ((inspectFor t s (asked ⟨fs⟩) σ).1.filter (·.outcome = .matched))
        ((inspectFor t s (asked ⟨fs⟩) σ).1.filter (·.outcome = .unhandled)) ∧
      Session.SameMemory (inspectFor t s (asked ⟨fs⟩) σ).2 (s.getAll (askedNames ⟨fs⟩) τ).2 := by
  rw [askedNames]
  induction fs generalizing σ τ with
  | nil => exact ⟨.done, hm⟩
  | cons f fs ih =>
      by_cases h : ∃ d, Retired f d
      · obtain ⟨d, hd⟩ := h
        obtain ⟨hanswer, hafter⟩ := s.respects_get f.name hm
        rw [asked_cons_of_retired hd, List.map_cons, inspectFor, Source.getAll]
        have hnote (e : Event) :
            Session.SameMemory (Run.note e (s.get f.name σ).2).2 (s.get f.name τ).2 :=
          ⟨hafter.indexes, hafter.caches⟩
        simp only [Run.bind_apply, Run.pure_apply]
        rw [hanswer]
        cases hfound : (s.get f.name τ).1 with
        | error e =>
            obtain ⟨hrest, hmem⟩ := ih (hnote (.deprecatedSkipped s.name f.name e))
            exact ⟨.failed hd hrest, hmem⟩
        | ok found =>
            cases found with
            | none =>
                obtain ⟨hrest, hmem⟩ := ih hafter
                exact ⟨.absent hd hrest, hmem⟩
            | some p =>
                obtain ⟨hrest, hmem⟩ :=
                  ih (hnote (findingEvent s.name f.name (finding t f.item d p)))
                exact ⟨.found hd (Source.name_of_get hfound) hrest, hmem⟩
      · rw [asked_cons_of_not_retired (not_exists.mp h)]
        obtain ⟨hrest, hmem⟩ := ih hm
        exact ⟨.passed (not_exists.mp h) hrest, hmem⟩

/-- What is reported of a source is what it answers. -/
theorem recorded_inspectAll (t : MetadataTable) (ss : List Source) (hm : σ.SameMemory τ) :
    List.Forall₂ (fun as r => Recorded t t.entries as r.matched r.unhandled)
      (interview (askedNames t) ss τ).1 (inspectAll t ss σ).1 := by
  induction ss generalizing σ τ with
  | nil => exact .nil
  | cons s ss ih =>
      obtain ⟨hrecorded, hmem⟩ := recorded_inspectFor t s t.entries hm
      exact .cons hrecorded (ih hmem)

/-- There is a report for each source, in their order. -/
theorem sources_inspectAll (t : MetadataTable) (ss : List Source) (σ : Session) :
    (inspectAll t ss σ).1.map (·.source) = Source.namesOf ss := by
  induction ss generalizing σ with
  | nil => rfl
  | cons s ss ih => exact congrArg (s.name :: ·) (ih _)

/-! ## Interviews without their session -/

section Standard

variable {c : Chain} (hc : c.Standard)
include hc

/-- Through built-in mappers a source gives its replies, one for each name. -/
theorem getAll_eq_reply (hs : s ∈ c.sources) (hσ : σ.Knows c) (ns : List Name) :
    (s.getAll ns σ).1 = ns.map s.reply ∧ Session.Knows (s.getAll ns σ).2 c := by
  induction ns generalizing σ with
  | nil => exact ⟨rfl, hσ⟩
  | cons n ns ih =>
      have hget := Source.get_eq_reply (hc.builtIn s hs) (hσ.index s hs) (hσ.lists s hs) n
      obtain ⟨hrest, hknows⟩ := ih (hc.maintains_get (n := n) hs σ hσ)
      rw [Source.getAll]
      simp only [Run.bind_apply, Run.pure_apply]
      exact ⟨by rw [hget, hrest, List.map_cons], hknows⟩

/-- Through built-in mappers, sources answer in an interview as they do when asked alone. -/
theorem interview_eq_reply (hss : ∀ s ∈ ss, s ∈ c.sources) (hσ : σ.Knows c) (ns : List Name) :
    (interview ns ss σ).1 = ss.map fun s => ns.map s.reply := by
  induction ss generalizing σ with
  | nil => rfl
  | cons s ss ih =>
      obtain ⟨hs, hss⟩ := List.forall_mem_cons.mp hss
      obtain ⟨hanswers, hknows⟩ := getAll_eq_reply hc hs hσ ns
      rw [interview]
      simp only [Run.bind_apply, Run.pure_apply]
      rw [hanswers, ih hss hknows, List.map_cons]

end Standard

/-! ## The report of a migration -/

/-- **The report of a migration is complete and exact.**  A migration of any chain, by any table and
under either policy, succeeds and reports on every source that no migration made, in the order of
the chain.  The report on a source holds what the source answers when it is asked, as its turn
comes, for the error-level deprecated entries of the table: for each entry that it has, once and in
the order of the table, the property itself, among the matched ones if its value can go to the
replacement and among the unhandled ones if not.  Nothing is reported of the other entries, nor of
those that the source does not have or fails for.

Where all sources are seen through built-in mappers, their turn does not matter: each answers as it
does when it is asked alone before the migration. -/
theorem analyze_reports (t : MetadataTable) (p : Policy) (c : Chain) (σ : Session) :
    ∃ c' rs, (analyze t p c σ).1 = (c', .ok ⟨rs⟩) ∧
      rs.map (·.source) = Source.namesOf (users c.sources) ∧
      List.Forall₂ (fun as r => Recorded t t.entries as r.matched r.unhandled)
        (interview (askedNames t) (users c.sources) σ).1 rs ∧
      (c.Standard → σ.Knows c →
        (interview (askedNames t) (users c.sources) σ).1 =
          (users c.sources).map fun s => (askedNames t).map fun n => (s.get n σ).1) := by
  obtain ⟨c', -, hrun, -⟩ := analyze_spec t p c σ
  refine ⟨c', _, hrun, sources_inspectAll t _ σ, recorded_inspectAll t _ (.refl σ),
    fun hc hσ => ?_⟩
  have husers : ∀ s ∈ users c.sources, s ∈ c.sources := fun s hs => (List.mem_filter.mp hs).1
  rw [interview_eq_reply hc husers hσ]
  refine List.map_congr_left fun s hs => List.map_congr_left fun n _ => ?_
  have hs := husers s hs
  exact (Source.get_eq_reply (hc.builtIn s hs) (hσ.index s hs) (hσ.lists s hs) n).symm

/-- In a chain of two files, of which one has the deprecated `old`, both are reported on. -/
theorem analyze_reports_crowdedChain :
    crowdedChain.Standard ∧ Session.start.Knows crowdedChain ∧
      ∃ c' rs, (analyze renamedTable .after crowdedChain .start).1 = (c', .ok ⟨rs⟩) ∧
        rs.map (·.source) = ["migrate-file", "file"] ∧
        List.Forall₂
          (fun as r => Recorded renamedTable renamedTable.entries as r.matched r.unhandled)
          ((users crowdedChain.sources).map fun s =>
            (askedNames renamedTable).map fun n => (s.get n .start).1) rs := by
  have hdistinct : crowdedChain.Distinct := by decide
  have hbuiltIn : ∀ s ∈ crowdedChain.sources, s.mapper.mapper.BuiltIn := by
    simp only [crowdedChain, List.forall_mem_cons]
    exact ⟨.dotted, .dotted, by simp⟩
  have hc : crowdedChain.Standard := ⟨hdistinct, hbuiltIn⟩
  have hnames : Source.namesOf (users crowdedChain.sources) = ["migrate-file", "file"] := by
    decide +kernel
  have hσ := Session.knows_start crowdedChain
  obtain ⟨c', rs, hrun, hsources, hrecorded, hanswers⟩ :=
    analyze_reports renamedTable .after crowdedChain .start
  rw [hanswers hc hσ] at hrecorded
  exact ⟨hc, hσ, c', rs, hrun, hsources.trans hnames, hrecorded⟩

end Migration

end LayeredConfig
