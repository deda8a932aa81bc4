import LayeredConfig.Proofs.CacheKeys
import LayeredConfig.Proofs.SourceLookup

/-!
# LayeredConfig.Proofs.Replies

What is answered to a question, whatever was asked before.

1. A session knows a chain if it holds nothing wrong about its sources: no other index than their own,
   and no other candidates than those of their mappers, up to spelling (`Session.Knows`).  A new
   session does, and any question keeps it so.
2. Asked in such a session, a source gives its own reply (`Source.get_eq_reply`), and a chain gives
   what the first source supplies that supplies anything (`Chain.resolve_eq_findSome?`).  What the
   sources say about the names below a name is told in the same way (`Chain.containsDescendantOf_eq`).
-/

namespace LayeredConfig

/-- A chain of sources with different numbers that are seen through built-in mappers. -/
structure Chain.Standard (c : Chain) : Prop where
  distinct : c.Distinct
  builtIn : ∀ s ∈ c.sources, s.mapper.mapper.BuiltIn

/-! ## What a session knows -/

namespace Session

/-- The session holds nothing wrong about the sources of a chain. -/
structure Knows (σ : Session) (c : Chain) : Prop where
  index : ∀ s ∈ c.sources, σ.Faithful s
  lists : ∀ s ∈ c.sources, σ.Trusts s.mapper

/-- **A new session knows every chain.** -/
theorem knows_start (c : Chain) : start.Knows c where
  index := fun s _ => faithful_start s
  lists := fun s _ => trusts_start s.mapper

end Session

/-! ## Questions keep it so -/

/-- A computation after which the session is as good as before. -/
def Run.Maintains (I : Session → Prop) {α : Type} (x : Run α) : Prop := ∀ σ, I σ → I (x σ).2

/-- What notes maintain passes to composed computations. -/
theorem Run.maintains_compositional {I : Session → Prop} (hnote : ∀ e, Maintains I (Run.note e)) :
    Compositional (@Maintains I) where
  pure := fun _ _ h => h
  bind := fun hx hf σ h => hf _ _ (hx σ h)
  note := hnote

namespace Chain.Standard

variable {c : Chain} {s : Source} {n : Name}

theorem compositional_knows : Run.Compositional (@Run.Maintains (·.Knows c)) :=
  Run.maintains_compositional fun _ _ h => ⟨h.index, h.lists⟩

/-- Sources of one number in a standard chain make one index. -/
theorem newIndex_eq (hc : c.Standard) {x : Source} (hx : x ∈ c.sources) (hs : s ∈ c.sources)
    (hid : x.id = s.id) : x.newIndex = s.newIndex := by
  rw [hc.distinct.eq_of_id_eq hx hs hid]

/-- Listing candidates leaves the session knowing the chain. -/
theorem maintains_candidates (hc : c.Standard) (hs : s ∈ c.sources) :
    Run.Maintains (·.Knows c) (s.mapper.candidates n) := by
  intro σ h
  refine ⟨fun x hx => ?_, fun x hx => ?_⟩
  · have hknown : x.known (s.mapper.candidates n σ).2 = x.known σ :=
      CachedMapper.keeps_candidates (fun _ _ _ => rfl) σ
    exact Session.faithful_of_known_eq (hknown.trans (h.index x hx).known_eq)
  · exact (h.lists x hx).candidates (hc.builtIn x hx) (fun _ _ _ => hc.builtIn s hs) n

/-- Making an index leaves the session knowing the chain. -/
theorem maintains_index (hc : c.Standard) (hs : s ∈ c.sources) :
    Run.Maintains (·.Knows c) s.index := by
  intro σ h
  refine ⟨fun x hx => ?_, fun x hx id hid a cs hcs => h.lists x hx id hid a cs ?_⟩
  · have hknown := Source.known_index (hc.newIndex_eq hx hs) σ
    exact Session.faithful_of_known_eq (hknown.trans (h.index x hx).known_eq)
  · have hcaches : (s.index σ).2.caches = σ.caches :=
      s.keeps_index (fun hsame => hsame.caches) (fun _ _ => rfl) σ
    rwa [Session.entry_congr hcaches] at hcs

/-- Asking a source for a name leaves the session knowing the chain. -/
theorem maintains_get (hc : c.Standard) (hs : s ∈ c.sources) :
    Run.Maintains (·.Knows c) (s.get n) :=
  Source.compositional_get compositional_knows (fun _ _ h => ⟨h.index, h.lists⟩)
    (hc.maintains_candidates hs) (hc.maintains_index hs)

theorem maintains_containsDescendantOf (hc : c.Standard) (hs : s ∈ c.sources) :
    Run.Maintains (·.Knows c) (s.containsDescendantOf n) := by
  rw [Source.containsDescendantOf]
  cases s.capability with
  | lookupOnly => exact compositional_knows.pure _
  | enumerable => exact compositional_knows.bind (hc.maintains_index hs) fun _ =>
      compositional_knows.pure _

/-- **Resolving a name keeps what the session knows.** -/
theorem maintains_resolveIn (hc : c.Standard) {ss : List Source} (hss : ∀ s ∈ ss, s ∈ c.sources) :
    Run.Maintains (·.Knows c) (resolveIn n ss) :=
  compositional_resolveIn compositional_knows fun s hs => hc.maintains_get (hss s hs)

end Chain.Standard

/-! ## Replies -/

namespace Source

variable {s : Source} {n : Name} {σ : Session}

/-- What a source replies from its own index and the candidates of its mapper. -/
def reply (s : Source) (n : Name) : Except ProviderError (Option Property) :=
  s.answer n (s.mapper.mapper.listed n) s.newIndex

/-- The property that a source supplies for a name: none where it fails. -/
def supplied (s : Source) (n : Name) : Option Property :=
  match s.reply n with
  | .ok found => found
  | .error _ => none

/-- A source supplies the property that is its reply. -/
theorem supplied_eq_some_iff {p : Property} : s.supplied n = some p ↔ s.reply n = .ok (some p) := by
  rw [supplied]
  cases s.reply n <;> simp

/-- **A source that is asked gives its reply.** -/
theorem get_eq_reply (hm : s.mapper.mapper.BuiltIn) (hindex : σ.Faithful s)
    (hlists : σ.Trusts s.mapper) (n : Name) : (s.get n σ).1 = s.reply n := by
  rw [get_apply, hindex.known_eq, answer_congr _ (hlists.listed_alike (hm.candidates_eq n)), reply]

/-- What a source says about the names below a name. -/
def containment (s : Source) (n : Name) : Containment :=
  match s.capability with
  | .lookupOnly => .unknown
  | .enumerable => if s.newIndex.names.any (n.isAncestorOf ·) then .present else .absent

/-- A source that is asked for descendants tells what its index has. -/
theorem containsDescendantOf_eq (hindex : σ.Faithful s) (n : Name) :
    (s.containsDescendantOf n σ).1 = s.containment n := by
  rw [containsDescendantOf, containment]
  cases s.capability with
  | lookupOnly => rfl
  | enumerable => rw [← hindex.known_eq, ← index_apply]; rfl

end Source

/-- What sources say together where `soFar` was found before. -/
def Containment.overall (soFar : Containment) : List Containment → Containment
  | [] => soFar
  | .present :: _ => .present
  | .unknown :: cs => overall .unknown cs
  | .absent :: cs => overall soFar cs

namespace Chain

variable {c : Chain} {n : Name} {σ : Session}

/-- A search through sources ends with the first that supplies the name. -/
theorem resolveIn_eq_findSome? (hc : c.Standard) {ss : List Source}
    (hss : ∀ s ∈ ss, s ∈ c.sources) (hσ : σ.Knows c) (n : Name) :
    (resolveIn n ss σ).1 = ss.findSome? (·.supplied n) := by
  induction ss generalizing σ with
  | nil => rfl
  | cons s ss ih =>
      have ⟨hs, hss⟩ := List.forall_mem_cons.mp hss
      have hget := Source.get_eq_reply (hc.builtIn s hs) (hσ.index s hs) (hσ.lists s hs) n
      have hsupplied : s.contributes n σ = s.supplied n := by
        rw [Source.contributes, hget]
        rfl
      rw [resolveIn_cons, hsupplied, ih hss (hc.maintains_get hs σ hσ), List.findSome?_cons]
      cases s.supplied n <;> rfl

/-- **A chain gives what the first source supplies that supplies anything.** -/
theorem resolve_eq_findSome? (hc : c.Standard) (hσ : σ.Knows c) (n : Name) :
    (c.resolve n σ).1 = c.sources.findSome? (·.supplied n) :=
  resolveIn_eq_findSome? hc (fun _ h => h) hσ n

/-- A chain that is asked for descendants combines what its sources tell. -/
theorem descendantIn_eq (hc : c.Standard) {ss : List Source} (hss : ∀ s ∈ ss, s ∈ c.sources)
    (hσ : σ.Knows c) (n : Name) (soFar : Containment) :
    (descendantIn n soFar ss σ).1 = .overall soFar (ss.map (·.containment n)) := by
  induction ss generalizing σ soFar with
  | nil => rfl
  | cons s ss ih =>
      have ⟨hs, hss⟩ := List.forall_mem_cons.mp hss
      have hafter := hc.maintains_containsDescendantOf (n := n) hs σ hσ
      rw [descendantIn, Run.bind_apply, Source.containsDescendantOf_eq (hσ.index s hs),
        List.map_cons]
      cases s.containment n with
      | present => rfl
      | absent => exact ih hss hafter soFar
      | unknown => exact ih hss hafter .unknown

/-- **What a chain says about the names below a name is what its sources say together.** -/
theorem containsDescendantOf_eq (hc : c.Standard) (hσ : σ.Knows c) (n : Name) :
    (c.containsDescendantOf n σ).1 = .overall .absent (c.sources.map (·.containment n)) :=
  descendantIn_eq hc (fun _ h => h) hσ n .absent

/-! ## The answering source -/

/-- A source of the chain has the property that is found for a name, and those before it have none. -/
def AnsweredBy (c : Chain) (n : Name) (σ : Session) (s : Source) (p : Property) : Prop :=
  ∃ before after, c.sources = before ++ s :: after ∧ (resolveIn n before σ).1 = none ∧
    (s.get n (resolveIn n before σ).2).1 = .ok (some p)

/-- A source answers for the chain if it is the first that supplies the name. -/
theorem answeredBy_iff (hc : c.Standard) (hσ : σ.Knows c) {s : Source} {p : Property} :
    c.AnsweredBy n σ s p ↔ ∃ before after, c.sources = before ++ s :: after ∧
      (∀ x ∈ before, x.supplied n = none) ∧ s.supplied n = some p := by
  refine exists₂_congr fun before after => and_congr_right fun hsources => ?_
  have hbefore : ∀ x ∈ before, x ∈ c.sources := fun x hx => by simp [hsources, hx]
  have hs : s ∈ c.sources := by simp [hsources]
  have hafter := hc.maintains_resolveIn (n := n) hbefore σ hσ
  rw [resolveIn_eq_findSome? hc hbefore hσ, List.findSome?_eq_none_iff,
    Source.get_eq_reply (hc.builtIn s hs) (hafter.index s hs) (hafter.lists s hs),
    Source.supplied_eq_some_iff]

end Chain

end LayeredConfig
