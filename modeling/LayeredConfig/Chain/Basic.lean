import LayeredConfig.Source.Basic

/-!
# LayeredConfig.Chain.Basic

Chains: sources in order of precedence, of pairwise different names.

1. A source that is put into the chain takes the place asked for; a source of its name that was
   there before leaves.
2. A place is the front, the end, next to an anchor, or that of a source to replace.  The anchor
   and the replaced source must be in the chain, and a source cannot be its own anchor.
3. An edit gives back its outcome and the chain, which is the same as before if the edit failed.
-/

namespace LayeredConfig

/-! ## Lists of sources -/

namespace Source

def namesOf (ss : List Source) : List String := ss.map (·.name)

/-- The sources that do not have the given name. -/
def without (name : String) (ss : List Source) : List Source := ss.filter (·.name ≠ name)

/-- Puts a source immediately before the first one of the given name. -/
def spliceBefore (anchor : String) (s : Source) : List Source → List Source
  | [] => []
  | x :: xs => if x.name = anchor then s :: x :: xs else x :: spliceBefore anchor s xs

/-- Puts a source immediately after the first one of the given name. -/
def spliceAfter (anchor : String) (s : Source) : List Source → List Source
  | [] => []
  | x :: xs => if x.name = anchor then x :: s :: xs else x :: spliceAfter anchor s xs

/-- Puts a source in the place of the first one of the given name. -/
def substitute (name : String) (s : Source) : List Source → List Source
  | [] => []
  | x :: xs => if x.name = name then s :: xs else x :: substitute name s xs

@[simp] theorem namesOf_cons (s : Source) (ss : List Source) :
    namesOf (s :: ss) = s.name :: namesOf ss := rfl

@[simp] theorem namesOf_append (ss ts : List Source) :
    namesOf (ss ++ ts) = namesOf ss ++ namesOf ts := List.map_append

@[simp] theorem without_append (name : String) (ss ts : List Source) :
    without name (ss ++ ts) = without name ss ++ without name ts := by
  rw [without, List.filter_append, without, without]

@[simp] theorem without_cons_self (s : Source) (ss : List Source) :
    without s.name (s :: ss) = without s.name ss :=
  List.filter_cons_of_neg (by simp)

theorem without_cons_of_ne {name : String} {s : Source} (h : s.name ≠ name) (ss : List Source) :
    without name (s :: ss) = s :: without name ss :=
  List.filter_cons_of_pos (by simpa using h)

@[simp] theorem without_without (name : String) (ss : List Source) :
    without name (without name ss) = without name ss := by
  simp [without, List.filter_filter]

/-- Where no source has the name, none is left out. -/
theorem without_eq_self {name : String} {ss : List Source} (h : name ∉ namesOf ss) :
    without name ss = ss := by
  rw [without, List.filter_eq_self]
  intro s hs
  rw [decide_eq_true_eq]
  rintro rfl
  exact h (List.mem_map_of_mem hs)

/-- Names stay distinct when sources are left out. -/
theorem nodup_without {ss : List Source} (name : String) (h : (namesOf ss).Nodup) :
    (namesOf (without name ss)).Nodup :=
  h.sublist (List.filter_sublist.map _)

theorem not_mem_namesOf_without (name : String) (ss : List Source) :
    name ∉ namesOf (without name ss) := by
  simp [namesOf, without]

theorem mem_namesOf_without {name other : String} {ss : List Source} (hne : other ≠ name)
    (h : other ∈ namesOf ss) : other ∈ namesOf (without name ss) := by
  simp only [namesOf, without, List.mem_map, List.mem_filter] at h ⊢
  obtain ⟨s, hs, rfl⟩ := h
  exact ⟨s, ⟨hs, by simpa using hne⟩, rfl⟩

/-- Where names are different, taking out the first source of a name takes out all of them. -/
theorem eraseP_eq_without (name : String) {ss : List Source} (h : (namesOf ss).Nodup) :
    ss.eraseP (·.name == name) = without name ss := by
  induction ss with
  | nil => rfl
  | cons s ss ih =>
    have ⟨hs, hss⟩ := List.nodup_cons.mp h
    by_cases hname : s.name = name
    · subst hname
      rw [List.eraseP_cons_of_pos (by simp), without_cons_self, without_eq_self hs]
    · rw [List.eraseP_cons_of_neg (by simpa using hname), ih hss, without_cons_of_ne hname]

/-- A source that is spliced in before an anchor joins the others. -/
theorem spliceBefore_perm {anchor : String} {s : Source} {ss : List Source}
    (h : anchor ∈ namesOf ss) : (spliceBefore anchor s ss).Perm (s :: ss) := by
  induction ss with
  | nil => simp [namesOf] at h
  | cons x xs ih =>
    unfold spliceBefore
    split
    · exact .refl _
    · next hx =>
      have : anchor ∈ namesOf xs := by simpa [namesOf, Ne.symm hx] using h
      exact ((ih this).cons x).trans (.swap s x xs)

/-- A source that is spliced in after an anchor joins the others. -/
theorem spliceAfter_perm {anchor : String} {s : Source} {ss : List Source}
    (h : anchor ∈ namesOf ss) : (spliceAfter anchor s ss).Perm (s :: ss) := by
  induction ss with
  | nil => simp [namesOf] at h
  | cons x xs ih =>
    unfold spliceAfter
    split
    · exact .swap s x xs
    · next hx =>
      have : anchor ∈ namesOf xs := by simpa [namesOf, Ne.symm hx] using h
      exact ((ih this).cons x).trans (.swap s x xs)

/-- Names stay distinct when a source of a new name joins, at whatever place. -/
theorem nodup_of_perm_cons {s : Source} {ss ts : List Source} (hp : ts.Perm (s :: ss))
    (hs : s.name ∉ namesOf ss) (h : (namesOf ss).Nodup) : (namesOf ts).Nodup := by
  have : (namesOf ts).Perm (namesOf (s :: ss)) := hp.map _
  exact this.nodup_iff.mpr (List.nodup_cons.mpr ⟨hs, h⟩)

/-- A substitution brings in no name but that of the new source. -/
theorem mem_namesOf_substitute {name other : String} {s : Source} {ss : List Source}
    (h : other ∈ namesOf (substitute name s ss)) : other = s.name ∨ other ∈ namesOf ss := by
  induction ss with
  | nil => simp [namesOf, substitute] at h
  | cons x xs ih =>
    unfold substitute at h
    split at h <;> simp only [namesOf, List.map_cons, List.mem_cons] at h ⊢
    · exact h.imp_right .inr
    · rcases h with rfl | h
      · exact .inr (.inl rfl)
      · exact (ih h).imp_right .inr

/-- Where the other sources have other names than the new one, the names stay different. -/
theorem nodup_substitute {name : String} {s : Source} {ss : List Source}
    (hs : s.name = name ∨ s.name ∉ namesOf ss) (h : (namesOf ss).Nodup) :
    (namesOf (substitute name s ss)).Nodup := by
  induction ss with
  | nil => simp [namesOf, substitute]
  | cons x xs ih =>
    have hn := List.nodup_cons.mp h
    unfold substitute
    split
    · next hx =>
      refine List.nodup_cons.mpr ⟨?_, hn.2⟩
      rcases hs with rfl | hs
      · show s.name ∉ namesOf xs
        rw [← hx]
        exact hn.1
      · exact fun hm => hs (List.mem_cons_of_mem _ hm)
    · next hx =>
      refine List.nodup_cons.mpr ⟨fun hm => ?_, ih ?_ hn.2⟩
      · rcases mem_namesOf_substitute hm with he | hm
        · rcases hs with rfl | hs
          · exact hx he
          · exact hs (by simp [namesOf, ← he])
        · exact hn.1 hm
      · exact hs.imp_right fun hs hm => hs (List.mem_cons_of_mem _ hm)

end Source

/-! ## Chains -/

/-- Sources in order of precedence, the first to be asked in front. -/
structure Chain where
  sources : List Source
  nodup : (Source.namesOf sources).Nodup

/-- Why an edit of a chain is refused. -/
inductive ChainError where
  | sourceNotFound (name : String)
  | relativeToSelf (name : String)
deriving Repr, DecidableEq

def ChainError.message : ChainError → String
  | .sourceNotFound name => s!"Property source not found: {name}"
  | .relativeToSelf name => s!"Property source '{name}' cannot be added relative to itself"

namespace Chain

def empty : Chain := ⟨[], .nil⟩

def names (c : Chain) : List String := Source.namesOf c.sources

/-- The source of a name. -/
def find? (c : Chain) (name : String) : Option Source := c.sources.find? (·.name == name)

/-- The place of the source of a name, counted from zero. -/
def position? (c : Chain) (name : String) : Option Nat :=
  c.sources.findIdx? (·.name == name)

/-- The chain without the source of a name; without such a source nothing changes. -/
def remove (c : Chain) (name : String) : Chain :=
  ⟨Source.without name c.sources, Source.nodup_without name c.nodup⟩

/-- The chain with a source in front. -/
def addFirst (c : Chain) (s : Source) : Chain :=
  ⟨s :: (c.remove s.name).sources,
    List.nodup_cons.mpr ⟨Source.not_mem_namesOf_without _ _, (c.remove s.name).nodup⟩⟩

/-- The chain with a source at its end. -/
def addLast (c : Chain) (s : Source) : Chain :=
  ⟨(c.remove s.name).sources ++ [s],
    Source.nodup_of_perm_cons (List.perm_append_singleton _ _)
      (Source.not_mem_namesOf_without _ _) (c.remove s.name).nodup⟩

/-- Puts a source next to an anchor.  What has its name leaves, and the anchor is looked for before
that and after it; where it is missing, the chain is given back as it is by then. -/
def insertNextTo (c : Chain) (anchor : String) (s : Source) (splice : List Source → List Source)
    (joins : ∀ {ss}, anchor ∈ Source.namesOf ss → (splice ss).Perm (s :: ss)) :
    Except ChainError Unit × Chain :=
  if s.name = anchor then (.error (.relativeToSelf anchor), c)
  else if anchor ∈ c.names then
    let rest := c.remove s.name
    if ha : anchor ∈ rest.names then
      (.ok (), ⟨splice rest.sources,
        Source.nodup_of_perm_cons (joins ha) (Source.not_mem_namesOf_without _ _) rest.nodup⟩)
    else (.error (.sourceNotFound anchor), rest)
  else (.error (.sourceNotFound anchor), c)

def insertBefore (c : Chain) (anchor : String) (s : Source) : Except ChainError Unit × Chain :=
  c.insertNextTo anchor s (Source.spliceBefore anchor s) Source.spliceBefore_perm

def insertAfter (c : Chain) (anchor : String) (s : Source) : Except ChainError Unit × Chain :=
  c.insertNextTo anchor s (Source.spliceAfter anchor s) Source.spliceAfter_perm

/-- The chain without what has the name of a new source, unless that is the one to be replaced. -/
def makeWay (c : Chain) (name : String) (s : Source) : Chain :=
  if s.name = name then c else c.remove s.name

/-- Once way is made, no other source has the name of the new one, unless that is the name to be
replaced. -/
theorem name_makeWay (c : Chain) (name : String) (s : Source) :
    s.name = name ∨ s.name ∉ Source.namesOf (c.makeWay name s).sources := by
  by_cases h : s.name = name
  · exact .inl h
  · rw [makeWay, if_neg h]
    exact .inr (Source.not_mem_namesOf_without _ _)

/-- Puts a source in the place of the one of the given name, and gives that one back. -/
def replace (c : Chain) (name : String) (s : Source) : Except ChainError Source × Chain :=
  if name ∈ c.names then
    let rest := c.makeWay name s
    match rest.find? name with
    | some old => (.ok old, ⟨Source.substitute name s rest.sources,
        Source.nodup_substitute (c.name_makeWay name s) rest.nodup⟩)
    | none => (.error (.sourceNotFound name), rest)
  else (.error (.sourceNotFound name), c)

section

variable {c : Chain} {anchor : String} {s : Source} {splice : List Source → List Source}
  (joins : ∀ {ss}, anchor ∈ Source.namesOf ss → (splice ss).Perm (s :: ss))

/-- A source cannot be put next to itself, and nothing is taken out then. -/
theorem insertNextTo_self (hs : s.name = anchor) :
    c.insertNextTo anchor s splice joins = (.error (.relativeToSelf anchor), c) := if_pos hs

/-- Next to what is not there nothing is put, and nothing is taken out then. -/
theorem insertNextTo_of_notMem (hs : s.name ≠ anchor) (ha : anchor ∉ c.names) :
    c.insertNextTo anchor s splice joins = (.error (.sourceNotFound anchor), c) :=
  (if_neg hs).trans (if_neg ha)

/-- The anchor stays when what has the name of the new source leaves, so the second look finds it. -/
theorem insertNextTo_of_mem (hs : s.name ≠ anchor) (ha : anchor ∈ c.names) :
    ∃ c', c.insertNextTo anchor s splice joins = (.ok (), c') ∧
      c'.sources = splice (Source.without s.name c.sources) := by
  have hrest : anchor ∈ (c.remove s.name).names := Source.mem_namesOf_without (Ne.symm hs) ha
  rw [insertNextTo, if_neg hs, if_pos ha, dif_pos hrest]
  exact ⟨_, rfl, rfl⟩

end

/-- The source to be replaced stays when what has the name of the new one leaves. -/
theorem find?_makeWay (c : Chain) (name : String) (s : Source) :
    (c.makeWay name s).find? name = c.find? name := by
  rw [makeWay]
  split
  · rfl
  · next hs =>
    simp only [find?, remove, Source.without, List.find?_filter]
    congr 1
    funext x
    by_cases hx : x.name = name
    · simp [hx, Ne.symm hs]
    · simp [hx]

/-- What is not there is not replaced, and nothing is taken out then. -/
theorem replace_of_notMem {c : Chain} {name : String} {s : Source} (h : name ∉ c.names) :
    c.replace name s = (.error (.sourceNotFound name), c) := if_neg h

/-- What is there is replaced and given back. -/
theorem replace_of_find? {c : Chain} {name : String} {s old : Source}
    (h : c.find? name = some old) :
    ∃ c', c.replace name s = (.ok old, c') ∧
      c'.sources = Source.substitute name s (c.makeWay name s).sources := by
  have hname : name ∈ c.names := by
    obtain rfl : old.name = name := by simpa using List.find?_some h
    exact List.mem_map_of_mem (List.mem_of_find?_eq_some h)
  have hrest := (c.find?_makeWay name s).trans h
  simp only [replace, if_pos hname, hrest]
  exact ⟨_, rfl, rfl⟩

/-- Takes the first source of a name out of the chain, and gives it back if there was one. -/
def take (c : Chain) (name : String) : Option Source × Chain :=
  (c.find? name, ⟨c.sources.eraseP (·.name == name),
    c.nodup.sublist (List.eraseP_sublist.map _)⟩)

/-- Since no other source has its name, the rest is the chain without it. -/
theorem take_eq (c : Chain) (name : String) : c.take name = (c.find? name, c.remove name) := by
  have hrest : c.sources.eraseP (·.name == name) = Source.without name c.sources :=
    Source.eraseP_eq_without name c.nodup
  simp only [take, remove, hrest]

@[simp] theorem names_remove (c : Chain) (name : String) :
    (c.remove name).names = c.names.filter (· ≠ name) := by
  simp [names, remove, Source.namesOf, Source.without, List.filter_map, Function.comp_def]

@[simp] theorem names_addFirst (c : Chain) (s : Source) :
    (c.addFirst s).names = s.name :: c.names.filter (· ≠ s.name) := by
  rw [← names_remove]
  rfl

@[simp] theorem names_addLast (c : Chain) (s : Source) :
    (c.addLast s).names = c.names.filter (· ≠ s.name) ++ [s.name] := by
  rw [← names_remove]
  simp [addLast, names, Source.namesOf]

/-! ## Edits -/

/-- A change of a chain. -/
inductive Edit where
  | addFirst (s : Source)
  | addLast (s : Source)
  | insertBefore (anchor : String) (s : Source)
  | insertAfter (anchor : String) (s : Source)
  | replace (name : String) (s : Source)
  | remove (name : String)

/-- What an edit gives back, and the chain after it.  A source that is replaced or removed is given
back. -/
def apply (c : Chain) : Edit → Except ChainError (Option Source) × Chain
  | .addFirst s => (.ok none, c.addFirst s)
  | .addLast s => (.ok none, c.addLast s)
  | .insertBefore anchor s => (c.insertBefore anchor s).map (·.map fun _ => none) id
  | .insertAfter anchor s => (c.insertAfter anchor s).map (·.map fun _ => none) id
  | .replace name s => (c.replace name s).map (·.map some) id
  | .remove name => (c.take name).map .ok id

/-- What is noted when an edit of a chain succeeds; removing what is not there goes unnoted. -/
def Edit.event? (c : Chain) : Edit → Option Event
  | .addFirst s => some (.addedFirst s.name)
  | .addLast s => some (.addedLast s.name)
  | .insertBefore anchor s => some (.insertedBefore s.name anchor)
  | .insertAfter anchor s => some (.insertedAfter s.name anchor)
  | .replace name s => some (.replaced name s.name)
  | .remove name => if name ∈ c.names then some (.removed name) else none

/-- Edits a chain in a session. -/
def edit (c : Chain) (e : Edit) : Run (Except ChainError (Option Source) × Chain) := do
  match c.apply e with
  | (.error err, c') => pure (.error err, c')
  | (.ok old, c') =>
    Run.noteAll (e.event? c).toList
    pure (.ok old, c')

/-- The notes of an edit have no part in what it does. -/
theorem edit_fst (c : Chain) (e : Edit) (σ : Session) : (c.edit e σ).1 = c.apply e := by
  rw [edit]
  rcases c.apply e with ⟨outcome, c'⟩
  cases outcome <;> rfl

def pushFirst (c : Chain) (s : Source) : Run Chain := do
  Run.note (.addedFirst s.name)
  pure (c.addFirst s)

def pushLast (c : Chain) (s : Source) : Run Chain := do
  Run.note (.addedLast s.name)
  pure (c.addLast s)

/-- The chain of a list of sources; of equal names the last one counts. -/
def collect : Chain → List Source → Run Chain
  | c, [] => pure c
  | c, s :: ss => do collect (← c.pushLast s) ss

/-! ## Providers that change -/

/-- Puts another provider behind the source of the given number. -/
def reconnect (c : Chain) (id : SourceId) (p : Provider) : Chain :=
  ⟨c.sources.map fun s => if s.id = id then { s with provider := p } else s, by
    have : Source.namesOf (c.sources.map fun s => if s.id = id then { s with provider := p } else s)
        = Source.namesOf c.sources := by
      simp only [Source.namesOf, List.map_map]
      apply List.map_congr_left
      intro s _
      simp only [Function.comp]
      split <;> rfl
    rw [this]
    exact c.nodup⟩

end Chain

end LayeredConfig
