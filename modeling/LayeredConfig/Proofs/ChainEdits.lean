import LayeredConfig.Chain.Basic
import LayeredConfig.Proofs.Memory
import Mathlib.Data.List.Nodup

/-!
# LayeredConfig.Proofs.ChainEdits

What edits make of a chain.

1. An edit that is made leaves out what had the name of the new source, puts that source at a place
   that is told by what stands around it, and leaves all else as it was (`Chain.Edit.Makes`).  An edit
   that is refused is refused for its anchor (`Chain.Edit.Refused`), and nothing changes.
2. Every edit is made or refused, and `Chain.apply` does what is said (`Chain.apply_eq_ok_iff`,
   `Chain.apply_eq_error_iff`).
3. A list of sources is collected into the last ones of each name (`Source.latest`).
4. So after any operations the names are pairwise different, and the chain is what the operations make
   of it one after the other (`Chain.performAll_spec`).
-/

namespace LayeredConfig

/-! ## Lists of sources -/

namespace Source

variable {name : String} {s x : Source} {ss pre post : List Source}

/-- A source of a name stands somewhere among the sources. -/
theorem exists_of_mem_namesOf (h : name ∈ namesOf ss) :
    ∃ pre x post, ss = pre ++ x :: post ∧ x.name = name := by
  obtain ⟨x, hx, hname⟩ := List.mem_map.mp h
  obtain ⟨pre, post, hss⟩ := List.append_of_mem hx
  exact ⟨pre, x, post, hss, hname⟩

theorem notMem_without {other : String} (h : other ∉ namesOf ss) (name : String) :
    other ∉ namesOf (without name ss) :=
  fun hmem => h ((List.filter_sublist.map _).subset hmem)

/-- Where names are distinct, the name of a source is not in front of it and not behind it. -/
theorem notMem_of_nodup (h : (namesOf (pre ++ x :: post)).Nodup) :
    x.name ∉ namesOf pre ∧ x.name ∉ namesOf post := by
  rw [namesOf_append, namesOf_cons, List.nodup_middle, List.nodup_cons, List.mem_append] at h
  tauto

/-- What goes through sources up to the first of a name, and puts others in its place. -/
theorem at_first {f : List Source → List Source} (put : Source → List Source)
    (hcons : ∀ x xs, f (x :: xs) = if x.name = name then put x ++ xs else x :: f xs)
    (hpre : name ∉ namesOf pre) (hx : x.name = name) (post : List Source) :
    f (pre ++ x :: post) = pre ++ (put x ++ post) := by
  induction pre with
  | nil => rw [List.nil_append, hcons, if_pos hx, List.nil_append]
  | cons y pre ih =>
      rw [namesOf_cons, List.mem_cons, not_or] at hpre
      rw [List.cons_append, hcons, if_neg (Ne.symm hpre.1), ih hpre.2, List.cons_append]

/-- The place before the anchor is the one before its first and only occurrence. -/
theorem spliceBefore_append (s : Source) (hpre : name ∉ namesOf pre) (hx : x.name = name)
    (post : List Source) : spliceBefore name s (pre ++ x :: post) = pre ++ s :: x :: post :=
  at_first (fun x => [s, x]) (fun _ _ => rfl) hpre hx post

/-- The place after the anchor is the one after its first and only occurrence. -/
theorem spliceAfter_append (s : Source) (hpre : name ∉ namesOf pre) (hx : x.name = name)
    (post : List Source) : spliceAfter name s (pre ++ x :: post) = pre ++ x :: s :: post :=
  at_first (fun x => [x, s]) (fun _ _ => rfl) hpre hx post

/-- What is put in the place of a source leaves the others where they are. -/
theorem substitute_append (s : Source) (hpre : name ∉ namesOf pre) (hx : x.name = name)
    (post : List Source) : substitute name s (pre ++ x :: post) = pre ++ s :: post :=
  at_first (fun _ => [s]) (fun _ _ => rfl) hpre hx post

/-! ### The last of each name -/

/-- The sources that have no other of their name after them. -/
def latest : List Source → List Source
  | [] => []
  | s :: ss => if s.name ∈ namesOf ss then latest ss else s :: latest ss

/-- Collecting only leaves sources out. -/
theorem latest_sublist (ss : List Source) : (latest ss).Sublist ss := by
  induction ss with
  | nil => exact .refl _
  | cons s ss ih =>
      rw [latest]
      split
      · exact ih.cons s
      · exact ih.cons_cons s

/-- Of sources of one name a single one is collected. -/
theorem nodup_latest (ss : List Source) : (namesOf (latest ss)).Nodup := by
  induction ss with
  | nil => exact .nil
  | cons s ss ih =>
      rw [latest]
      split
      · exact ih
      · next hs =>
        rw [namesOf_cons, List.nodup_cons]
        exact ⟨fun hmem => hs (((latest_sublist ss).map _).subset hmem), ih⟩

end Source

namespace Chain

open Source

/-! ## What edits ask for -/

/-- Why an edit is refused: a new source may not be its own anchor, and the anchor, or the source to
replace, must be there. -/
inductive Edit.Refused : Edit → List Source → ChainError → Prop where
  | beforeItself {anchor : String} {s : Source} {ss : List Source} (hs : s.name = anchor) :
      Refused (.insertBefore anchor s) ss (.relativeToSelf anchor)
  | beforeMissing {anchor : String} {s : Source} {ss : List Source} (hs : s.name ≠ anchor)
      (ha : anchor ∉ namesOf ss) : Refused (.insertBefore anchor s) ss (.sourceNotFound anchor)
  | afterItself {anchor : String} {s : Source} {ss : List Source} (hs : s.name = anchor) :
      Refused (.insertAfter anchor s) ss (.relativeToSelf anchor)
  | afterMissing {anchor : String} {s : Source} {ss : List Source} (hs : s.name ≠ anchor)
      (ha : anchor ∉ namesOf ss) : Refused (.insertAfter anchor s) ss (.sourceNotFound anchor)
  | replaceMissing {name : String} {s : Source} {ss : List Source} (hn : name ∉ namesOf ss) :
      Refused (.replace name s) ss (.sourceNotFound name)

/-- What an edit makes of sources, and which one it gives back.  All that had the name of the new source
is left out, and the new source stands first, last, immediately before or after the anchor `x`, or in
the place of the replaced `x`; the other sources stand as they did.  What is replaced or removed is
given back. -/
inductive Edit.Makes : Edit → List Source → Option Source → List Source → Prop where
  | first (s : Source) (ss : List Source) : Makes (.addFirst s) ss none (s :: without s.name ss)
  | last (s : Source) (ss : List Source) : Makes (.addLast s) ss none (without s.name ss ++ [s])
  | before {s x : Source} (pre post : List Source) (hs : s.name ≠ x.name) :
      Makes (.insertBefore x.name s) (pre ++ x :: post) none
        (without s.name pre ++ s :: x :: without s.name post)
  | after {s x : Source} (pre post : List Source) (hs : s.name ≠ x.name) :
      Makes (.insertAfter x.name s) (pre ++ x :: post) none
        (without s.name pre ++ x :: s :: without s.name post)
  | inPlace {s x : Source} (pre post : List Source) :
      Makes (.replace x.name s) (pre ++ x :: post) (some x)
        (without s.name pre ++ s :: without s.name post)
  | gone {x : Source} (pre post : List Source) :
      Makes (.remove x.name) (pre ++ x :: post) (some x) (pre ++ post)
  | nothing {name : String} {ss : List Source} (hn : name ∉ namesOf ss) :
      Makes (.remove name) ss none ss

/-- The same edit again, with the same source or another one of its name. -/
inductive Edit.Again : Edit → Edit → Prop where
  | first {s s' : Source} (h : s'.name = s.name) : Again (.addFirst s) (.addFirst s')
  | last {s s' : Source} (h : s'.name = s.name) : Again (.addLast s) (.addLast s')
  | before {anchor : String} {s s' : Source} (h : s'.name = s.name) :
      Again (.insertBefore anchor s) (.insertBefore anchor s')
  | after {anchor : String} {s s' : Source} (h : s'.name = s.name) :
      Again (.insertAfter anchor s) (.insertAfter anchor s')

variable {c c' : Chain} {e e' : Edit} {ss ts : List Source} {old : Option Source} {err : ChainError}

/-- **Every edit is made or refused.** -/
theorem Edit.makes_or_refused (e : Edit) (ss : List Source) :
    (∃ old ts, e.Makes ss old ts) ∨ ∃ err, e.Refused ss err := by
  cases e with
  | addFirst s => exact .inl ⟨_, _, .first s ss⟩
  | addLast s => exact .inl ⟨_, _, .last s ss⟩
  | insertBefore anchor s =>
      by_cases hs : s.name = anchor
      · exact .inr ⟨_, .beforeItself hs⟩
      · by_cases ha : anchor ∈ namesOf ss
        · obtain ⟨pre, x, post, rfl, rfl⟩ := exists_of_mem_namesOf ha
          exact .inl ⟨_, _, .before pre post hs⟩
        · exact .inr ⟨_, .beforeMissing hs ha⟩
  | insertAfter anchor s =>
      by_cases hs : s.name = anchor
      · exact .inr ⟨_, .afterItself hs⟩
      · by_cases ha : anchor ∈ namesOf ss
        · obtain ⟨pre, x, post, rfl, rfl⟩ := exists_of_mem_namesOf ha
          exact .inl ⟨_, _, .after pre post hs⟩
        · exact .inr ⟨_, .afterMissing hs ha⟩
  | replace name s =>
      by_cases hn : name ∈ namesOf ss
      · obtain ⟨pre, x, post, rfl, rfl⟩ := exists_of_mem_namesOf hn
        exact .inl ⟨_, _, .inPlace pre post⟩
      · exact .inr ⟨_, .replaceMissing hn⟩
  | remove name =>
      by_cases hn : name ∈ namesOf ss
      · obtain ⟨pre, x, post, rfl, rfl⟩ := exists_of_mem_namesOf hn
        exact .inl ⟨_, _, .gone pre post⟩
      · exact .inl ⟨_, _, .nothing hn⟩

/-! ## What edits do -/

theorem ext_sources (h : c.sources = c'.sources) : c = c' := by
  cases c
  cases c'
  cases h
  rfl

/-- **A refused edit gives back the chain as it was.** -/
theorem Edit.Refused.apply_eq (h : e.Refused c.sources err) : c.apply e = (.error err, c) := by
  cases h with
  | beforeItself hs => rw [apply, Chain.insertBefore, insertNextTo_self _ hs]; rfl
  | beforeMissing hs ha => rw [apply, Chain.insertBefore, insertNextTo_of_notMem _ hs ha]; rfl
  | afterItself hs => rw [apply, Chain.insertAfter, insertNextTo_self _ hs]; rfl
  | afterMissing hs ha => rw [apply, Chain.insertAfter, insertNextTo_of_notMem _ hs ha]; rfl
  | replaceMissing hn => rw [apply, replace_of_notMem hn]; rfl

/-- A source is found by its name. -/
theorem find?_of_sources_eq {pre post : List Source} {x : Source}
    (h : c.sources = pre ++ x :: post) : c.find? x.name = some x := by
  have hnodup := c.nodup
  rw [h] at hnodup
  have hpre : ∀ y ∈ pre, y.name ≠ x.name := fun y hy hname =>
    (notMem_of_nodup hnodup).1 (hname ▸ List.mem_map_of_mem hy)
  rw [find?, h, List.find?_append, List.find?_eq_none.mpr (by simpa using hpre), Option.none_or,
    List.find?_cons_of_pos (by simp)]

/-- A source that is put next to an anchor stands beside the only source of that name. -/
theorem insertNextTo_append {s x : Source} {pre post : List Source}
    {splice : List Source → List Source} (put : List Source)
    (joins : ∀ {ss}, x.name ∈ namesOf ss → (splice ss).Perm (s :: ss))
    (hput : ∀ {pre} post, x.name ∉ namesOf pre → splice (pre ++ x :: post) = pre ++ (put ++ post))
    (h : c.sources = pre ++ x :: post) (hs : s.name ≠ x.name) :
    ∃ c', c.insertNextTo x.name s splice joins = (.ok (), c') ∧
      c'.sources = without s.name pre ++ (put ++ without s.name post) := by
  have ha : x.name ∈ c.names := by rw [names, h]; simp
  obtain ⟨c', happly, hsources⟩ := insertNextTo_of_mem joins hs ha
  refine ⟨c', happly, ?_⟩
  rw [hsources, h, without_append, without_cons_of_ne (Ne.symm hs)]
  exact hput _ (notMem_without (notMem_of_nodup (h ▸ c.nodup)).1 s.name)

/-- A source that replaces another one stands in its place, also if it has the same name. -/
theorem replace_append (s : Source) {x : Source} {pre post : List Source}
    (h : c.sources = pre ++ x :: post) :
    ∃ c', c.replace x.name s = (.ok x, c') ∧
      c'.sources = without s.name pre ++ s :: without s.name post := by
  obtain ⟨hpre, hpost⟩ := notMem_of_nodup (h ▸ c.nodup)
  obtain ⟨c', happly, hsources⟩ := replace_of_find? (s := s) (find?_of_sources_eq h)
  refine ⟨c', happly, ?_⟩
  rw [hsources, makeWay]
  by_cases hs : s.name = x.name
  · rw [if_pos hs, h, hs, without_eq_self hpre, without_eq_self hpost]
    exact substitute_append s hpre rfl post
  · have hremove : (c.remove s.name).sources = without s.name c.sources := rfl
    rw [if_neg hs, hremove, h, without_append, without_cons_of_ne (Ne.symm hs)]
    exact substitute_append s (notMem_without hpre s.name) rfl _

/-- The chain without one of its sources has those before and after it. -/
theorem sources_remove {x : Source} {pre post : List Source} (h : c.sources = pre ++ x :: post) :
    (c.remove x.name).sources = pre ++ post := by
  obtain ⟨hpre, hpost⟩ := notMem_of_nodup (h ▸ c.nodup)
  have hremove : (c.remove x.name).sources = without x.name c.sources := rfl
  rw [hremove, h, without_append, without_cons_self, without_eq_self hpre, without_eq_self hpost]

/-- Nothing is taken out for a name that is not there. -/
theorem take_of_notMem {name : String} (h : name ∉ c.names) : c.take name = (none, c) := by
  have hnone : c.find? name = none := by
    rw [find?, List.find?_eq_none]
    intro x hx
    simpa using fun hname : x.name = name => h (hname ▸ List.mem_map_of_mem hx)
  rw [take_eq, hnone]
  exact congrArg (none, ·) (ext_sources (without_eq_self h))

/-- The anchor, or the source to replace, is where it is said to be, since no other has its name. -/
theorem Edit.Makes.apply_eq (h : e.Makes c.sources old ts) :
    ∃ c', c.apply e = (.ok old, c') ∧ c'.sources = ts := by
  generalize hss : c.sources = ss at h
  have hremove (name : String) : (c.remove name).sources = without name ss := by rw [← hss]; rfl
  cases h with
  | first s _ => exact ⟨_, rfl, congrArg (s :: ·) (hremove s.name)⟩
  | last s _ => exact ⟨_, rfl, congrArg (· ++ [s]) (hremove s.name)⟩
  | @before s x pre post hs =>
      obtain ⟨c', happly, hsources⟩ := insertNextTo_append [s, x] spliceBefore_perm
        (fun post hpre => spliceBefore_append s hpre rfl post) hss hs
      exact ⟨c', by rw [apply, Chain.insertBefore, happly]; rfl, hsources⟩
  | @after s x pre post hs =>
      obtain ⟨c', happly, hsources⟩ := insertNextTo_append [x, s] spliceAfter_perm
        (fun post hpre => spliceAfter_append s hpre rfl post) hss hs
      exact ⟨c', by rw [apply, Chain.insertAfter, happly]; rfl, hsources⟩
  | @inPlace s x pre post =>
      obtain ⟨c', happly, hsources⟩ := replace_append s hss
      exact ⟨c', by rw [apply, happly]; rfl, hsources⟩
  | @gone x pre post =>
      refine ⟨c.remove x.name, ?_, sources_remove hss⟩
      rw [apply, take_eq, find?_of_sources_eq hss]
      rfl
  | @nothing name _ hn =>
      have hnone : name ∉ c.names := by rwa [names, hss]
      exact ⟨c, by rw [apply, take_of_notMem hnone]; rfl, hss⟩

/-- **An edit succeeds with what it makes.** -/
theorem apply_eq_ok_iff : c.apply e = (.ok old, c') ↔ e.Makes c.sources old c'.sources := by
  constructor
  · intro h
    rcases e.makes_or_refused c.sources with ⟨old', ts, hmakes⟩ | ⟨err, hrefused⟩
    · obtain ⟨c'', happly, hsources⟩ := hmakes.apply_eq
      rw [h] at happly
      cases happly
      exact hsources ▸ hmakes
    · rw [hrefused.apply_eq] at h
      cases h
  · intro h
    obtain ⟨c'', happly, hsources⟩ := h.apply_eq
    rw [happly, ext_sources hsources]

/-- **An edit fails for the reason that it is refused for.** -/
theorem apply_eq_error_iff : (c.apply e).1 = .error err ↔ e.Refused c.sources err := by
  refine ⟨fun h => ?_, fun h => congrArg Prod.fst h.apply_eq⟩
  rcases e.makes_or_refused c.sources with ⟨old, ts, hmakes⟩ | ⟨err', hrefused⟩
  · obtain ⟨c'', happly, -⟩ := hmakes.apply_eq
    rw [happly] at h
    cases h
  · rw [hrefused.apply_eq] at h
    cases h
    exact hrefused

/-- **An edit that fails notes nothing.** -/
theorem edit_snd_of_error (h : (c.apply e).1 = .error err) (σ : Session) : (c.edit e σ).2 = σ := by
  rw [edit]
  rcases happly : c.apply e with ⟨outcome, c'⟩
  rw [happly] at h
  obtain rfl : outcome = .error err := h
  rfl

/-! ## What edits keep -/

/-- **An edit keeps names different.** -/
theorem Edit.Makes.nodup (h : e.Makes ss old ts) (hss : (namesOf ss).Nodup) : (namesOf ts).Nodup := by
  have hjoin {s : Source} {xs : List Source} (hxs : (namesOf xs).Nodup)
      (hts : ts.Perm (s :: without s.name xs)) : (namesOf ts).Nodup :=
    nodup_of_perm_cons hts (not_mem_namesOf_without _ _) (nodup_without _ hxs)
  cases h with
  | first s _ => exact hjoin hss (.refl _)
  | last s _ => exact hjoin hss (List.perm_append_singleton _ _)
  | @before s _ pre post hs =>
      refine hjoin (s := s) hss ?_
      rw [without_append, without_cons_of_ne (Ne.symm hs)]
      exact List.perm_middle
  | @after s x pre post hs =>
      refine hjoin (s := s) hss ?_
      rw [without_append, without_cons_of_ne (Ne.symm hs)]
      exact ((List.Perm.swap s x _).append_left _).trans List.perm_middle
  | @inPlace s _ pre post =>
      refine hjoin (s := s) (hss.sublist (((List.sublist_cons_self _ _).append_left pre).map _)) ?_
      rw [without_append]
      exact List.perm_middle
  | gone pre post => exact hss.sublist (((List.sublist_cons_self _ _).append_left pre).map _)
  | nothing hn => exact hss

/-- **The same edit on what it made** leaves the names as they are. -/
theorem Edit.Makes.again (h : e.Makes ss old ts) (ha : e.Again e') :
    ∃ us, e'.Makes ts none us ∧ namesOf us = namesOf ts := by
  cases ha with
  | @first s s' hname =>
      cases h
      refine ⟨_, .first s' _, ?_⟩
      simp [hname]
  | @last s s' hname =>
      cases h
      refine ⟨_, .last s' _, ?_⟩
      have hself : without s.name [s] = [] := without_cons_self s []
      simp [hname, hself]
  | @before _ s s' hname =>
      cases h with
      | @before _ x pre post hs =>
          have hmakes := Edit.Makes.before (x := x) (without s.name pre ++ [s])
            (without s.name post) (hname ▸ hs : s'.name ≠ x.name)
          have hself : without s.name [s] = [] := without_cons_self s []
          rw [List.append_assoc, List.singleton_append] at hmakes
          refine ⟨_, hmakes, ?_⟩
          simp [hname, hself]
  | @after _ s s' hname =>
      cases h with
      | @after _ x pre post hs =>
          have hmakes := Edit.Makes.after (x := x) (without s.name pre)
            (s :: without s.name post) (hname ▸ hs : s'.name ≠ x.name)
          refine ⟨_, hmakes, ?_⟩
          simp [hname]

/-! ## One operation after the other -/

/-- What is done to a chain: it is edited, or a new one is collected from sources. -/
inductive Operation where
  | edit (e : Edit)
  | collect (ss : List Source)

/-- The chain after an operation, whether an edit succeeds or fails. -/
def perform (c : Chain) : Operation → Run Chain
  | .edit e => do return (← c.edit e).2
  | .collect ss => Chain.empty.collect ss

/-- The chain after operations, one after the other. -/
def performAll (c : Chain) : List Operation → Run Chain
  | [] => pure c
  | o :: os => do (← c.perform o).performAll os

/-- What operations make of sources. -/
inductive Reaches : List Operation → List Source → List Source → Prop where
  | done (ss : List Source) : Reaches [] ss ss
  | made {e : Edit} {os : List Operation} {ss ts us : List Source} {old : Option Source}
      (h : e.Makes ss old ts) (rest : Reaches os ts us) : Reaches (.edit e :: os) ss us
  | refused {e : Edit} {os : List Operation} {ss us : List Source} {err : ChainError}
      (h : e.Refused ss err) (rest : Reaches os ss us) : Reaches (.edit e :: os) ss us
  | collected {os : List Operation} (xs ss : List Source) {us : List Source}
      (rest : Reaches os (latest xs) us) : Reaches (.collect xs :: os) ss us

/-- **Operations keep names different.** -/
theorem Reaches.nodup {os : List Operation} (h : Reaches os ss ts) (hss : (namesOf ss).Nodup) :
    (namesOf ts).Nodup := by
  induction h with
  | done _ => exact hss
  | made hmakes _ ih => exact ih (hmakes.nodup hss)
  | refused _ _ ih => exact ih hss
  | collected xs _ _ ih => exact ih (nodup_latest xs)

/-- What is collected onto a chain are the sources of other names, and then the last of each name. -/
theorem sources_collect (c : Chain) (ss : List Source) (σ : Session) :
    (c.collect ss σ).1.sources = c.sources.filter (·.name ∉ namesOf ss) ++ latest ss := by
  induction ss generalizing c σ with
  | nil => simp [collect, Run.pure_apply, namesOf, latest]
  | cons s ss ih =>
      have hsources : (c.addLast s).sources = without s.name c.sources ++ [s] := rfl
      have hfilter : (without s.name c.sources).filter (·.name ∉ namesOf ss) =
          c.sources.filter (·.name ∉ namesOf (s :: ss)) := by
        rw [without, List.filter_filter]
        refine List.filter_congr fun x _ => ?_
        simp [not_or, Bool.and_comm]
      rw [collect, Run.bind_apply, pushLast, Run.bind_apply, Run.pure_apply, ih, hsources,
        List.filter_append, hfilter, List.append_assoc, latest]
      by_cases hs : s.name ∈ namesOf ss <;> simp [hs]

/-- **Operations on a chain make what they make of its sources.** -/
theorem performAll_reaches (c : Chain) (os : List Operation) (σ : Session) :
    Reaches os c.sources (c.performAll os σ).1.sources := by
  induction os generalizing c σ with
  | nil => exact .done _
  | cons o os ih =>
      rw [performAll, Run.bind_apply]
      cases o with
      | edit e =>
          have hedit := c.edit_fst e σ
          rw [perform, Run.bind_apply, Run.pure_apply]
          rcases happly : (c.edit e σ).1 with ⟨outcome, c'⟩
          rw [happly] at hedit
          cases outcome with
          | ok old => exact .made (apply_eq_ok_iff.mp hedit.symm) (ih c' _)
          | error err =>
              have hrefused := apply_eq_error_iff.mp (congrArg Prod.fst hedit.symm)
              obtain rfl : c = c' := congrArg Prod.snd (hrefused.apply_eq.symm.trans hedit.symm)
              exact .refused hrefused (ih c _)
      | collect xs =>
          have hcollect : (Chain.empty.collect xs σ).1.sources = latest xs := sources_collect _ xs σ
          have hrest := ih (Chain.empty.collect xs σ).1 (Chain.empty.collect xs σ).2
          rw [hcollect] at hrest
          exact .collected xs _ hrest

/-- **What edits do to a chain**, after any operations from the empty chain on.  The names are pairwise
different.  An edit fails exactly for its anchor, and then the chain that it gives back is the one it
was given, and nothing is noted; any other edit makes exactly what it is for of the sources, and gives
back the source that it replaces or removes; and the same edit again leaves the names as they are. -/
theorem performAll_spec (os : List Operation) (σ : Session) :
    let c := (Chain.empty.performAll os σ).1
    c.names.Nodup ∧ Reaches os [] c.sources ∧ ∀ (e : Edit) (τ : Session),
      (∀ err, (c.edit e τ).1.1 = .error err ↔ e.Refused c.sources err) ∧
      (∀ err, (c.edit e τ).1.1 = .error err →
        (c.edit e τ).1.2 = c ∧ (c.edit e τ).2 = τ ∧ (c.perform (.edit e) τ).1 = c) ∧
      (∀ old c', (c.edit e τ).1 = (.ok old, c') ↔ e.Makes c.sources old c'.sources) ∧
      ∀ old c' e', (c.edit e τ).1 = (.ok old, c') → e.Again e' →
        ∀ υ, ∃ c'', (c'.edit e' υ).1 = (.ok none, c'') ∧ c''.names = c'.names := by
  intro c
  have hreaches : Reaches os [] c.sources := performAll_reaches .empty os σ
  refine ⟨hreaches.nodup .nil, hreaches, fun e τ => ?_⟩
  rw [c.edit_fst e τ]
  refine ⟨fun err => apply_eq_error_iff, fun err herr => ?_,
    fun old c' => apply_eq_ok_iff, fun old c' e' hmade hagain υ => ?_⟩
  · have hchain : (c.apply e).2 = c := congrArg Prod.snd (apply_eq_error_iff.mp herr).apply_eq
    refine ⟨hchain, edit_snd_of_error herr τ, ?_⟩
    rw [perform, Run.bind_apply, Run.pure_apply, edit_fst]
    exact hchain
  · obtain ⟨us, hmakes, hnames⟩ := (apply_eq_ok_iff.mp hmade).again hagain
    obtain ⟨c'', hagainApply, rfl⟩ := hmakes.apply_eq
    exact ⟨c'', (c'.edit_fst e' υ).trans hagainApply, hnames⟩

end Chain

end LayeredConfig
