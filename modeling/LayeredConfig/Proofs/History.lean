import LayeredConfig.Proofs.Replies

/-!
# LayeredConfig.Proofs.History

Any number of questions to a chain, in any order.

1. A source, and a chain, have a fixed reply to each question (`Source.replyTo`, `Chain.replyTo`), in
   which no session takes part.
2. A session that knows the chain is answered with this reply and knows the chain afterwards
   (`Chain.ask_spec`).  Dropping an index or emptying a cache does no harm: what a session has forgotten
   it cannot have wrong.
3. So the answers do not depend on what was asked before, and a copy of the chain gives the same ones
   in a new session (`Chain.askAll_spec`).
-/

namespace LayeredConfig

/-! ## Questions -/

/-- A question to a source, or the request to list its keys again. -/
inductive SourceQuery where
  | property (n : Name)
  | below (n : Name)
  | names
  | refresh

/-- A question to a chain or to one of its sources, or the request to empty a cache. -/
inductive Query where
  | property (n : Name)
  | below (n : Name)
  | source (name : String) (q : SourceQuery)
  | clear (id : CacheId)

/-- What is answered to questions. -/
inductive Reply where
  | found (p : Option Property)
  | looked (r : Except ProviderError (Option Property))
  | below (c : Containment)
  | names (ns : Option (List Name))
  | done
  | noSource

/-- Asks a source. -/
def Source.ask (s : Source) : SourceQuery → Run Reply
  | .property n => return .looked (← s.get n)
  | .below n => return .below (← s.containsDescendantOf n)
  | .names => return .names (← s.propertyNames)
  | .refresh => do
    s.refresh
    return .done

namespace Chain

/-- Asks a chain. -/
def ask (c : Chain) : Query → Run Reply
  | .property n => return .found (← c.resolve n)
  | .below n => return .below (← c.containsDescendantOf n)
  | .source name q =>
    match c.find? name with
    | some s => s.ask q
    | none => pure .noSource
  | .clear id => do
    Run.clearCache id
    return .done

/-- Asks a chain several questions in order. -/
def askAll (c : Chain) : List Query → Run (List Reply)
  | [] => pure []
  | q :: qs => do
    let r ← c.ask q
    return r :: (← c.askAll qs)

end Chain

/-! ## Fixed replies -/

namespace Source

variable {s : Source} {σ : Session}

/-- The names that a source lists, from its own index. -/
def ownNames (s : Source) : Option (List Name) :=
  match s.capability with
  | .lookupOnly => none
  | .enumerable => some (Name.sort s.newIndex.names)

/-- A source that is asked for its names gives those of the index that would be made now. -/
theorem propertyNames_eq (hindex : σ.Faithful s) : (s.propertyNames σ).1 = s.ownNames := by
  rw [ownNames]
  cases hcap : s.capability with
  | lookupOnly =>
      rw [propertyNames, hcap]
      rfl
  | enumerable => rw [propertyNames_apply hcap, hindex.known_eq]

/-- What a source replies to a question. -/
def replyTo (s : Source) : SourceQuery → Reply
  | .property n => .looked (s.reply n)
  | .below n => .below (s.containment n)
  | .names => .names s.ownNames
  | .refresh => .done

end Source

/-- What a chain replies to a question. -/
def Chain.replyTo (c : Chain) : Query → Reply
  | .property n => .found (c.sources.findSome? (·.supplied n))
  | .below n => .below (.overall .absent (c.sources.map (·.containment n)))
  | .source name q =>
    match c.find? name with
    | some s => s.replyTo q
    | none => .noSource
  | .clear _ => .done

/-! ## One question -/

namespace Session

variable {σ : Session} {c : Chain}

/-- What is forgotten is not kept. -/
theorem index?_forget_self (σ : Session) (id : SourceId) : (σ.forget id).index? id = none := by
  rw [index?, List.lookup_eq_none_iff]
  intro p hp
  exact bne_iff_ne.mpr (of_decide_eq_true (List.mem_filter.mp hp).2).symm

/-- Only the index of the one source is forgotten. -/
theorem index?_forget_of_ne (σ : Session) {id other : SourceId} (h : other ≠ id) :
    (σ.forget id).index? other = σ.index? other :=
  lookup_filter_of_ne h σ.indexes

/-- A session that has forgotten an index still knows the chain. -/
theorem Knows.forget (h : σ.Knows c) (id : SourceId) : (σ.forget id).Knows c where
  index := fun x hx => by
    by_cases hid : x.id = id
    · exact faithful_of_index?_eq_none (by rw [hid, index?_forget_self])
    · intro ix hix
      rw [index?_forget_of_ne σ hid] at hix
      exact h.index x hx ix hix
  lists := h.lists

/-- A session with an emptied cache still knows the chain. -/
theorem Knows.clearCache (h : σ.Knows c) (id : CacheId) : (σ.setCache id []).Knows c where
  index := h.index
  lists := fun x hx own hown n cs hcs => by
    by_cases hid : own = id
    · rw [entry, hid, cache_setCache_self] at hcs
      contradiction
    · rw [entry, cache_setCache_of_ne σ hid] at hcs
      exact h.lists x hx own hown n cs hcs

end Session

namespace Chain

variable {c : Chain} {s : Source} {σ : Session}

/-- Asking a source for its names leaves the session knowing the chain. -/
theorem Standard.maintains_propertyNames (hc : c.Standard) (hs : s ∈ c.sources) :
    Run.Maintains (·.Knows c) s.propertyNames := by
  rw [Source.propertyNames]
  cases s.capability with
  | lookupOnly => exact Standard.compositional_knows.pure _
  | enumerable => exact Standard.compositional_knows.bind (hc.maintains_index hs) fun _ =>
      Standard.compositional_knows.pure _

/-- **One question to a source** gets the fixed reply. -/
theorem Standard.ask_source (hc : c.Standard) (hs : s ∈ c.sources) (hσ : σ.Knows c)
    (q : SourceQuery) : (s.ask q σ).1 = s.replyTo q ∧ (s.ask q σ).2.Knows c := by
  have hindex := hσ.index s hs
  cases q with
  | property n =>
      refine ⟨?_, hc.maintains_get hs σ hσ⟩
      exact congrArg Reply.looked (Source.get_eq_reply (hc.builtIn s hs) hindex (hσ.lists s hs) n)
  | below n =>
      refine ⟨?_, hc.maintains_containsDescendantOf hs σ hσ⟩
      exact congrArg Reply.below (Source.containsDescendantOf_eq hindex n)
  | names =>
      refine ⟨?_, hc.maintains_propertyNames hs σ hσ⟩
      exact congrArg Reply.names (Source.propertyNames_eq hindex)
  | refresh => exact ⟨rfl, hσ.forget s.id⟩

/-- Asking sources for descendants leaves the session knowing the chain. -/
theorem Standard.maintains_descendantIn (hc : c.Standard) {ss : List Source}
    (hss : ∀ s ∈ ss, s ∈ c.sources) (n : Name) (soFar : Containment) :
    Run.Maintains (·.Knows c) (descendantIn n soFar ss) := by
  induction ss generalizing soFar with
  | nil => exact Standard.compositional_knows.pure _
  | cons s ss ih =>
      obtain ⟨hs, hss⟩ := List.forall_mem_cons.mp hss
      refine Standard.compositional_knows.bind (hc.maintains_containsDescendantOf hs) fun found => ?_
      cases found with
      | present => exact Standard.compositional_knows.pure _
      | unknown => exact ih hss .unknown
      | absent => exact ih hss soFar

/-- **One question** gets the fixed reply, and the session knows the chain afterwards. -/
theorem ask_spec (hc : c.Standard) (hσ : σ.Knows c) (q : Query) :
    (c.ask q σ).1 = c.replyTo q ∧ (c.ask q σ).2.Knows c := by
  have hall : ∀ s ∈ c.sources, s ∈ c.sources := fun _ h => h
  cases q with
  | property n =>
      refine ⟨?_, hc.maintains_resolveIn hall σ hσ⟩
      exact congrArg Reply.found (resolve_eq_findSome? hc hσ n)
  | below n =>
      refine ⟨?_, hc.maintains_descendantIn hall n .absent σ hσ⟩
      exact congrArg Reply.below (containsDescendantOf_eq hc hσ n)
  | source name q =>
      rw [ask, replyTo]
      cases hfind : c.find? name with
      | some s => exact hc.ask_source (List.mem_of_find?_eq_some hfind) hσ q
      | none => exact ⟨rfl, hσ⟩
  | clear id => exact ⟨rfl, hσ.clearCache id⟩

/-- **Many questions** get the fixed replies, and the session knows the chain all the while. -/
theorem askAll_eq (hc : c.Standard) (hσ : σ.Knows c) (qs : List Query) :
    (c.askAll qs σ).1 = qs.map c.replyTo ∧ (c.askAll qs σ).2.Knows c := by
  induction qs generalizing σ with
  | nil => exact ⟨rfl, hσ⟩
  | cons q qs ih =>
      obtain ⟨hreply, hafter⟩ := ask_spec hc hσ q
      obtain ⟨hreplies, hend⟩ := ih hafter
      exact ⟨congrArg₂ List.cons hreply hreplies, hend⟩

end Chain

/-! ## Copies -/

/-- A source that was made like another one, maybe under another number and with other caches. -/
structure Source.CopyOf (s t : Source) : Prop where
  name : s.name = t.name
  capability : s.capability = t.capability
  provider : s.provider = t.provider
  mapper : s.mapper.mapper = t.mapper.mapper
  derivedFrom : s.derivedFrom = t.derivedFrom

/-- A source over a provider as it stands by itself, without a number and without a cache. -/
def Source.plain (p : Provider) (m : Mapper) : Source where
  id := 0
  name := p.name
  capability := p.capability
  provider := p
  mapper := ⟨m, none⟩
  derivedFrom := none

/-- A source that is created over a provider is like the one that stands by itself. -/
theorem Source.copyOf_plain (p : Provider) (m : CachedMapper) (σ : Session) :
    (Source.create p m σ).1.CopyOf (.plain p m.mapper) := ⟨rfl, rfl, rfl, rfl, rfl⟩

/-- A chain of sources that were made like those of another one. -/
def Chain.CopyOf (c d : Chain) : Prop := List.Forall₂ Source.CopyOf c.sources d.sources

namespace Source.CopyOf

variable {s t : Source} (h : s.CopyOf t)
include h

/-- A copy makes the same index. -/
theorem newIndex_eq : s.newIndex = t.newIndex := by
  rw [newIndex, newIndex, h.mapper, h.provider]

/-- Candidates lead to the same property in a copy. -/
theorem tries_eq (n : Name) (cs : List Candidate) : s.tries n cs = t.tries n cs := by
  induction cs with
  | nil => rfl
  | cons c cs ih => rw [tries, tries, originOf, originOf, h.provider, h.name, ih]

/-- A copy gives the same reply for every name. -/
theorem reply_eq (n : Name) : s.reply n = t.reply n := by
  rw [reply, reply, answer, answer, h.newIndex_eq, h.mapper, h.capability, h.tries_eq, h.tries_eq]

theorem supplied_eq (n : Name) : s.supplied n = t.supplied n := by
  rw [supplied, supplied, h.reply_eq]

theorem containment_eq (n : Name) : s.containment n = t.containment n := by
  rw [containment, containment, h.capability, h.newIndex_eq]

theorem ownNames_eq : s.ownNames = t.ownNames := by
  rw [ownNames, ownNames, h.capability, h.newIndex_eq]

/-- A copy gives the same reply to every question. -/
theorem replyTo_eq (q : SourceQuery) : s.replyTo q = t.replyTo q := by
  cases q with
  | property n => exact congrArg Reply.looked (h.reply_eq n)
  | below n => exact congrArg Reply.below (h.containment_eq n)
  | names => exact congrArg Reply.names h.ownNames_eq
  | refresh => rfl

end Source.CopyOf

namespace Chain

variable {c d : Chain}

/-- By its name, a copy is found where the source is found. -/
theorem find?_copies {ss ts : List Source} (h : List.Forall₂ Source.CopyOf ss ts) (name : String) :
    Option.Rel Source.CopyOf (ss.find? (·.name == name)) (ts.find? (·.name == name)) := by
  induction h with
  | nil => exact .none
  | cons hs _ ih =>
      rw [List.find?_cons, List.find?_cons, hs.name]
      split
      · exact .some hs
      · exact ih

/-- What sources say together is what their copies say together. -/
theorem map_copies {β : Type} {f : Source → β} (hf : ∀ {s t}, Source.CopyOf s t → f s = f t)
    {ss ts : List Source} (h : List.Forall₂ Source.CopyOf ss ts) : ss.map f = ts.map f := by
  induction h with
  | nil => rfl
  | cons hs _ ih => rw [List.map_cons, List.map_cons, hf hs, ih]

/-- The first property that sources supply is the first that their copies supply. -/
theorem findSome?_copies {ss ts : List Source} (h : List.Forall₂ Source.CopyOf ss ts) (n : Name) :
    ss.findSome? (·.supplied n) = ts.findSome? (·.supplied n) := by
  induction h with
  | nil => rfl
  | cons hs _ ih => rw [List.findSome?_cons, List.findSome?_cons, hs.supplied_eq, ih]

/-- Copies are seen through built-in mappers too. -/
theorem builtIn_copies {ss ts : List Source} (h : List.Forall₂ Source.CopyOf ss ts)
    (hts : ∀ t ∈ ts, t.mapper.mapper.BuiltIn) : ∀ s ∈ ss, s.mapper.mapper.BuiltIn := by
  have hmappers : ss.map (·.mapper.mapper) = ts.map (·.mapper.mapper) :=
    map_copies (fun hs => hs.mapper) h
  have hall : ∀ m ∈ ss.map (·.mapper.mapper), m.BuiltIn := by
    rw [hmappers]
    exact List.forall_mem_map.mpr hts
  exact List.forall_mem_map.mp hall

/-- **A copy has the same replies.** -/
theorem CopyOf.replyTo_eq (h : c.CopyOf d) (q : Query) : c.replyTo q = d.replyTo q := by
  cases q with
  | property n => exact congrArg Reply.found (findSome?_copies h n)
  | below n =>
      rw [replyTo, replyTo, map_copies (fun hs => Source.CopyOf.containment_eq hs n) h]
  | source name q =>
      have hfind : Option.Rel Source.CopyOf (c.find? name) (d.find? name) := find?_copies h name
      rw [replyTo, replyTo]
      generalize c.find? name = s? at hfind ⊢
      generalize d.find? name = t? at hfind ⊢
      cases hfind with
      | some hs => exact hs.replyTo_eq q
      | none => rfl
  | clear id => rfl

/-- A copy of a standard chain is standard if its sources have numbers of their own. -/
theorem CopyOf.standard (h : d.CopyOf c) (hids : d.Distinct) (hc : c.Standard) : d.Standard :=
  ⟨hids, builtIn_copies h hc.builtIn⟩

/-- **Answers do not depend on history.**  Whatever a chain with built-in mappers is asked, in any order
and with indexes dropped and caches emptied in between, each question is answered as it is when it is
the first one to a copy of the chain in a new session; and of each source no other index is ever
remembered than that of the keys that its provider lists. -/
theorem askAll_spec (c d : Chain) (qs : List Query) {σ : Session} (hids : c.Distinct)
    (hmapper : ∀ s ∈ c.sources, s.mapper.mapper.BuiltIn) (hcopy : d.CopyOf c)
    (hids' : d.Distinct) (hσ : σ.Knows c) :
    (c.askAll qs σ).1 = qs.map (fun q => (d.ask q .start).1) ∧
      ∀ s ∈ c.sources, (c.askAll qs σ).2.index? s.id = none ∨
        (c.askAll qs σ).2.index? s.id =
          some (Index.ofKeys s.mapper.mapper s.provider.keys) := by
  have hc : c.Standard := ⟨hids, hmapper⟩
  have hd : d.Standard := hcopy.standard hids' hc
  obtain ⟨hreplies, hend⟩ := askAll_eq hc hσ qs
  constructor
  · rw [hreplies]
    refine List.map_congr_left fun q _ => ?_
    rw [(ask_spec hd (Session.knows_start d) q).1, hcopy.replyTo_eq]
  · intro s hs
    cases hix : (c.askAll qs σ).2.index? s.id with
    | none => exact .inl rfl
    | some ix => exact .inr (congrArg some (hend.index s hs ix hix))

/-- A file and the environment, numbered from `id`, with mappers that use a cache or none. -/
def layeredChain (id : SourceId) (cache : Option CacheId) : Chain where
  sources :=
    [⟨id, "file", .enumerable, (Entries.ofList [("server.host", .text "a")]).provider "file",
        ⟨Mapping.dotted, cache⟩, none⟩,
      ⟨id + 1, Environment.sourceName, .enumerable,
        Environment.snapshot Environment.sourceName none [("SERVER_CONTEXTPATH", some "/app")],
        ⟨Mapping.environment true, cache⟩, none⟩]
  nodup := by simp [Source.namesOf, Environment.sourceName]

/-- Questions that build indexes and fill the cache, and others that drop them again. -/
def layeredQueries : List Query :=
  [.below Source.contextPath, .property Source.contextPath, .source "file" .refresh,
    .source "file" .names, .clear (.shared "all"), .property Source.contextPath]

/-- With a cache that both mappers share, the chain answers as it does without one. -/
theorem askAll_spec_layeredChain :
    let c := layeredChain 0 (some (.shared "all"))
    let d := layeredChain 7 none
    c.Distinct ∧ (∀ s ∈ c.sources, s.mapper.mapper.BuiltIn) ∧ d.CopyOf c ∧ d.Distinct ∧
      Session.start.Knows c ∧
      (c.askAll layeredQueries .start).1 = layeredQueries.map (fun q => (d.ask q .start).1) := by
  intro c d
  have hids : c.Distinct := by decide
  have hmapper : ∀ s ∈ c.sources, s.mapper.mapper.BuiltIn :=
    List.forall_mem_cons.mpr ⟨.dotted, List.forall_mem_singleton.mpr (.environment true)⟩
  have hcopy : d.CopyOf c := .cons ⟨rfl, rfl, rfl, rfl, rfl⟩ (.cons ⟨rfl, rfl, rfl, rfl, rfl⟩ .nil)
  have hids' : d.Distinct := by decide
  have hσ := Session.knows_start c
  exact ⟨hids, hmapper, hcopy, hids', hσ,
    (askAll_spec c d layeredQueries hids hmapper hcopy hids' hσ).1⟩

end Chain

end LayeredConfig
