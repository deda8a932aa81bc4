import LayeredConfig.Proofs.ExposedVariables
import LayeredConfig.Proofs.Respelling
import LayeredConfig.Proofs.SelectedFiles

/-!
# LayeredConfig.Proofs.LoadingOrder

Which sources a loaded chain has, and in which order.

1. The layers of a chain are the overrides, the environment, the files and the defaults, those of them
   that there are (`Loader.layers`).
2. The chain is made by edits, each of which puts in a source of a new name, so none takes another one
   out.  Along the way the sources are numbered apart, and nothing is remembered (`Loader.Built`).
3. So a chain that is loaded has its sources in the order of the layers, and a name is resolved by the
   first layer that supplies it; and a chain is loaded unless a file cannot be (`Loader.load_spec`).
-/

namespace LayeredConfig

/-! ## Layers -/

namespace Loader

/-- The layer of the overrides, if there are any. -/
def overrideLayers (l : Loader) : List Source :=
  if l.overrides.isEmpty then [] else [.plain (l.overrides.provider "overrides") Mapping.dotted]

/-- The layer of the environment, unless it is switched off. -/
def environmentLayers (l : Loader) (env : Source) : List Source := if l.useEnv then [env] else []

/-- The layers of files. -/
def fileLayers (fs : List ConfigFile) : List Source :=
  fs.map fun f => .plain f.provider Mapping.dotted

/-- The layer of the defaults, if there are any. -/
def defaultLayers (l : Loader) : List Source :=
  if l.defaults.isEmpty then [] else [.plain (l.defaults.provider "defaults") Mapping.dotted]

/-- The layers of a chain, the first to be asked in front. -/
def layers (l : Loader) (env : Source) (fs : List ConfigFile) : List Source :=
  l.overrideLayers ++ (l.environmentLayers env ++ fileLayers fs) ++ l.defaultLayers

/-! ## Making a chain -/

/-- A computation that makes a source like the given one: it gives it a number, and a cache of its own
if any, that were not given out before, and remembers nothing. -/
structure Makes (x : Run Source) (s : Source) : Prop where
  copy : ∀ τ, (x τ).1.CopyOf s
  number : ∀ τ, τ.next ≤ (x τ).1.id ∧ (x τ).1.id < (x τ).2.next
  cache : ∀ τ id, (x τ).1.mapper.cache = some id → ∃ k, τ.next ≤ k ∧ id = .own k
  memory : ∀ τ : Session, τ.SameMemory (x τ).2

/-- Making a source only gives out further numbers. -/
theorem Makes.next_le {x : Run Source} {s : Source} (h : Makes x s) (τ : Session) :
    τ.next ≤ (x τ).2.next :=
  Nat.le_of_lt (Nat.lt_of_le_of_lt (h.number τ).1 (h.number τ).2)

/-- Providers are put behind dotted keys, without a cache. -/
theorem makes_dottedSource (p : Provider) : Makes (dottedSource p) (.plain p Mapping.dotted) where
  copy := fun _ => ⟨rfl, rfl, rfl, rfl, rfl⟩
  number := fun τ => ⟨Nat.le_refl _, Nat.lt_succ_self τ.next⟩
  cache := fun _ _ h => nomatch h
  memory := fun _ => ⟨rfl, rfl⟩

/-- The source of the environment is like its layer, with a cache of its own. -/
theorem makes_environmentSource (l : Loader) (env : Environment) :
    Makes (l.environmentSource env) (l.environmentLayer env) := by
  have happly (τ : Session) : l.environmentSource env τ =
      (let p := l.environmentProvider env
       let s : Source := ⟨τ.next + 1, p.name, p.capability, p,
         ⟨Mapping.environment l.settings.envLists, some (.own τ.next)⟩, none⟩
       (if l.restrictedEnv then s.restricted else s, { τ with next := τ.next + 1 + 1 })) := rfl
  constructor <;> intro τ <;> rw [happly]
  · rw [environmentLayer]
    cases l.restrictedEnv <;> exact ⟨rfl, rfl, rfl, rfl, rfl⟩
  · cases l.restrictedEnv <;> exact ⟨Nat.le_succ _, Nat.lt_succ_self _⟩
  · cases l.restrictedEnv <;> rintro id ⟨⟩ <;> exact ⟨_, Nat.le_refl _, rfl⟩
  · exact ⟨rfl, rfl⟩

/-- What the making of a chain has come to: since a session its sources were made, like the given
layers, with numbers of their own and caches of their own if any, and nothing was remembered. -/
structure Built (σ τ : Session) (c : Chain) (layers : List Source) : Prop where
  copies : List.Forall₂ Source.CopyOf c.sources layers
  distinct : c.Distinct
  numbers : ∀ s ∈ c.sources, σ.next ≤ s.id ∧ s.id < τ.next
  caches : ∀ s ∈ c.sources, ∀ id, s.mapper.cache = some id → ∃ k, σ.next ≤ k ∧ id = .own k
  memory : σ.SameMemory τ
  next : σ.next ≤ τ.next

namespace Built

variable {σ τ υ : Session} {c : Chain} {ss : List Source} {s : Source} {x : Run Source}

/-- A chain begins without sources. -/
theorem empty (σ : Session) : Built σ σ .empty [] where
  copies := .nil
  distinct := .nil
  numbers := fun _ h => nomatch h
  caches := fun _ h => nomatch h
  memory := .refl σ
  next := Nat.le_refl _

/-- Notes make no difference. -/
theorem of_sameMemory (h : Built σ τ c ss) (hmemory : τ.SameMemory υ) (hnext : υ.next = τ.next) :
    Built σ υ c ss :=
  { h with
    numbers := by simpa only [hnext] using h.numbers
    memory := h.memory.trans hmemory
    next := by simpa only [hnext] using h.next }

/-- The sources of a chain in the making have the names of its layers. -/
theorem namesOf_eq (h : Built σ τ c ss) : c.names = Source.namesOf ss :=
  Chain.map_copies (fun hs => hs.name) h.copies

/-- A new source joins the others. -/
theorem join (h : Built σ τ c ss) (hx : Makes x s) {c' : Chain} {ss' : List Source}
    (hperm : c'.sources.Perm ((x τ).1 :: c.sources))
    (hcopies : List.Forall₂ Source.CopyOf c'.sources ss') : Built σ (x τ).2 c' ss' where
  copies := hcopies
  distinct := by
    have hapart : (((x τ).1 :: c.sources).map (·.id)).Nodup := by
      rw [List.map_cons, List.nodup_cons]
      refine ⟨fun hin => ?_, h.distinct⟩
      obtain ⟨y, hy, hid⟩ := List.mem_map.mp hin
      exact Nat.ne_of_lt (Nat.lt_of_lt_of_le (h.numbers y hy).2 (hx.number τ).1) hid
    exact (hperm.map _).nodup_iff.mpr hapart
  numbers := fun y hy => by
    rcases List.mem_cons.mp (hperm.subset hy) with rfl | hold
    · exact ⟨Nat.le_trans h.next (hx.number τ).1, (hx.number τ).2⟩
    · have ⟨hfrom, hbelow⟩ := h.numbers y hold
      exact ⟨hfrom, Nat.lt_of_lt_of_le hbelow (hx.next_le τ)⟩
  caches := fun y hy id hid => by
    rcases List.mem_cons.mp (hperm.subset hy) with rfl | hold
    · obtain ⟨k, hk, rfl⟩ := hx.cache τ id hid
      exact ⟨k, Nat.le_trans h.next hk, rfl⟩
    · exact h.caches y hold id hid
  memory := h.memory.trans (hx.memory τ)
  next := Nat.le_trans h.next (hx.next_le τ)

/-- What is not in the chain is not taken out of it. -/
theorem remove_eq (h : Built σ τ c ss) (hx : Makes x s) (hname : s.name ∉ Source.namesOf ss) :
    (c.remove (x τ).1.name).sources = c.sources := by
  rw [(hx.copy τ).name]
  exact Source.without_eq_self (by rwa [← Chain.names, h.namesOf_eq])

/-- **A source of a new name is put at the end.** -/
theorem pushLast (h : Built σ τ c ss) (hx : Makes x s) (hname : s.name ∉ Source.namesOf ss) :
    Built σ ((x >>= c.pushLast) τ).2 ((x >>= c.pushLast) τ).1 (ss ++ [s]) := by
  have hsources : (c.addLast (x τ).1).sources = c.sources ++ [(x τ).1] :=
    congrArg (· ++ [(x τ).1]) (h.remove_eq hx hname)
  have hjoined : Built σ (x τ).2 (c.addLast (x τ).1) (ss ++ [s]) :=
    h.join hx (hsources ▸ List.perm_append_singleton _ _)
      (hsources ▸ List.rel_append h.copies (.cons (hx.copy τ) .nil))
  exact hjoined.of_sameMemory ⟨rfl, rfl⟩ rfl

/-- **A source of a new name is put in front.** -/
theorem pushFirst (h : Built σ τ c ss) (hx : Makes x s) (hname : s.name ∉ Source.namesOf ss) :
    Built σ ((x >>= c.pushFirst) τ).2 ((x >>= c.pushFirst) τ).1 (s :: ss) := by
  have hsources : (c.addFirst (x τ).1).sources = (x τ).1 :: c.sources :=
    congrArg ((x τ).1 :: ·) (h.remove_eq hx hname)
  have hjoined : Built σ (x τ).2 (c.addFirst (x τ).1) (s :: ss) :=
    h.join hx (hsources ▸ .refl _) (hsources ▸ .cons (hx.copy τ) h.copies)
  exact hjoined.of_sameMemory ⟨rfl, rfl⟩ rfl

end Built

/-! ## The names of layers -/

variable {l : Loader} {vars : Environment} {env : Source} {host : Host} {paths : List String}

/-- There is one name for the environment, unless it is switched off. -/
theorem namesOf_environmentLayers (henv : l.Exposes vars env) :
    Source.namesOf (l.environmentLayers env) = if l.useEnv then ["systemEnvironment"] else [] := by
  rw [environmentLayers]
  cases l.useEnv <;> simp [Source.namesOf, henv.name]

/-- The layers of files are named after their paths. -/
theorem namesOf_fileLayers {fs : List ConfigFile}
    (h : List.Forall₂ (ConfigFile.Loads host) paths fs) :
    Source.namesOf (fileLayers fs) = paths.map ("config:" ++ ·) := by
  induction h with
  | nil => rfl
  | cons hf _ ih => exact congrArg₂ List.cons hf.name_eq ih

/-- The names of the layers, in order. -/
theorem namesOf_layers (henv : l.Exposes vars env) {fs : List ConfigFile}
    (h : List.Forall₂ (ConfigFile.Loads host) paths fs) :
    Source.namesOf (l.layers env fs) =
      (if l.overrides.isEmpty then [] else ["overrides"]) ++
        ((if l.useEnv then ["systemEnvironment"] else []) ++ paths.map ("config:" ++ ·)) ++
        if l.defaults.isEmpty then [] else ["defaults"] := by
  rw [layers, Source.namesOf_append, Source.namesOf_append, Source.namesOf_append,
    namesOf_environmentLayers henv, namesOf_fileLayers h, overrideLayers, defaultLayers]
  cases l.overrides.isEmpty <;> cases l.defaults.isEmpty <;> rfl

/-- The names of files begin alike. -/
theorem config_append_ne {name : String} (h : name.toList.head? ≠ some 'c') (path : String) :
    "config:" ++ path ≠ name := by
  rintro rfl
  simp at h

theorem notMem_environmentLayers (henv : l.Exposes vars env) {name : String}
    (h : name ≠ "systemEnvironment") : name ∉ Source.namesOf (l.environmentLayers env) := by
  rw [namesOf_environmentLayers henv]
  split <;> simp [h]

/-- The overrides and the defaults have other names than the layers between them. -/
theorem notMem_layers (henv : l.Exposes vars env) {name : String} {fs : List ConfigFile}
    (hfs : List.Forall₂ (ConfigFile.Loads host) paths fs) (h : name.toList.head? ≠ some 'c')
    (hname : name ≠ "systemEnvironment") :
    name ∉ Source.namesOf (l.environmentLayers env ++ fileLayers fs) := by
  rw [Source.namesOf_append, List.mem_append, not_or, namesOf_fileLayers hfs, List.mem_map]
  exact ⟨notMem_environmentLayers henv hname, fun ⟨path, _, hpath⟩ => config_append_ne h path hpath⟩

theorem notMem_overrideLayers {name : String} (h : name ≠ "overrides") :
    name ∉ Source.namesOf l.overrideLayers := by
  have hname (p : Entries) : (Source.plain (p.provider "overrides") Mapping.dotted).name =
      "overrides" := rfl
  rw [overrideLayers]
  split <;> simp [Source.namesOf, hname, h]

/-! ## Loading -/

section Loading

variable {σ τ : Session} {c : Chain} {ss : List Source}

/-- A file that can be loaded is put at the end, and the others follow. -/
theorem addFiles_of_loads {path : String} {f : ConfigFile} (h : ConfigFile.Loads host path f)
    (c : Chain) (paths : List String) (τ : Session) :
    ∃ υ, τ.SameMemory υ ∧ υ.next = τ.next ∧ addFiles host c (path :: paths) τ =
      (let made := (dottedSource f.provider >>= c.pushLast) υ
       addFiles host made.1 paths made.2) := by
  obtain ⟨event, hload⟩ := h.load_apply (Run.note (.loadingFile path) τ).2
  refine ⟨(Run.note event (Run.note (.loadingFile path) τ).2).2, ⟨rfl, rfl⟩, rfl, ?_⟩
  rw [addFiles, Run.bind_apply, Run.bind_apply, hload]
  rfl

/-- A file that cannot be loaded ends the loading. -/
theorem addFiles_of_fails {path : String} {e : LoaderError} (h : ConfigFile.Fails host path e)
    (c : Chain) (paths : List String) (τ : Session) :
    (addFiles host c (path :: paths) τ).1 = .error e := by
  rw [addFiles, Run.bind_apply, Run.bind_apply, h.load_apply]
  rfl

/-- **Files are put at the end, one after the other**, up to the first that cannot be loaded. -/
theorem addFiles_cases (host : Host) (h : Built σ τ c ss) (hpaths : paths.Nodup)
    (hnew : ∀ path ∈ paths, "config:" ++ path ∉ Source.namesOf ss) :
    (∃ before path after e, paths = before ++ path :: after ∧
        (∀ p ∈ before, ∃ f, ConfigFile.Loads host p f) ∧ ConfigFile.Fails host path e ∧
        (addFiles host c paths τ).1 = .error e) ∨
      ∃ fs c', List.Forall₂ (ConfigFile.Loads host) paths fs ∧
        (addFiles host c paths τ).1 = .ok c' ∧
        Built σ (addFiles host c paths τ).2 c' (ss ++ fileLayers fs) := by
  induction paths generalizing τ c ss with
  | nil => exact .inr ⟨[], c, .nil, rfl, (List.append_nil ss).symm ▸ h⟩
  | cons path paths ih =>
      have ⟨hpath, hrest⟩ := List.nodup_cons.mp hpaths
      have ⟨hname, hnew⟩ := List.forall_mem_cons.mp hnew
      rcases ConfigFile.loads_or_fails host path with ⟨f, hf⟩ | ⟨e, he⟩
      · obtain ⟨υ, hmemory, hnext, happly⟩ := addFiles_of_loads hf c paths τ
        have hfile : (Source.plain f.provider Mapping.dotted).name = "config:" ++ path := hf.name_eq
        have hmade := (h.of_sameMemory hmemory hnext).pushLast (makes_dottedSource f.provider)
          (hfile ▸ hname)
        have hapart : ∀ p ∈ paths, "config:" ++ p ∉
            Source.namesOf (ss ++ [Source.plain f.provider Mapping.dotted]) := by
          intro p hp
          have hne : p ≠ path := fun heq => hpath (heq ▸ hp)
          rw [Source.namesOf_append, List.mem_append, not_or]
          exact ⟨hnew p hp, by simpa [Source.namesOf, hfile, ← String.toList_inj] using hne⟩
        rw [happly]
        rcases ih hmade hrest hapart with
          ⟨before, p, after, e, rfl, hbefore, hp, herror⟩ | ⟨fs, c', hfs, hok, hbuilt⟩
        · exact .inl ⟨path :: before, p, after, e, rfl,
            List.forall_mem_cons.mpr ⟨⟨f, hf⟩, hbefore⟩, hp, herror⟩
        · exact .inr ⟨f :: fs, c', .cons hf hfs, hok, by simpa [fileLayers] using hbuilt⟩
      · exact .inl ⟨[], path, paths, e, rfl, by simp, he, addFiles_of_fails he c paths τ⟩

/-- A chain of the source of the environment, unless it is switched off. -/
def withEnvironment (l : Loader) (vars : Environment) : Run Chain :=
  if l.useEnv then l.environmentSource vars >>= Chain.empty.pushLast else pure .empty

/-- Puts the overrides in front, if there are any. -/
def withOverrides (l : Loader) (c : Chain) : Run Chain :=
  if l.overrides.isEmpty then pure c
  else dottedSource (l.overrides.provider "overrides") >>= c.pushFirst

/-- Puts the defaults at the end, if there are any. -/
def withDefaults (l : Loader) (c : Chain) : Run Chain :=
  if l.defaults.isEmpty then pure c
  else dottedSource (l.defaults.provider "defaults") >>= c.pushLast

/-- Loading, as a sequence of the steps above. -/
theorem load_eq (l : Loader) (host : Host) :
    l.load host = (do
      match ← l.files host with
      | .error e => pure (.error e)
      | .ok paths =>
        let c ← l.withEnvironment host.env
        match ← addFiles host c paths with
        | .error e => pure (.error e)
        | .ok c =>
          let c ← l.withOverrides c
          let c ← l.withDefaults c
          Run.note (.sourcesLoaded l.profile.name c.names)
          pure (.ok c)) := by
  simp only [load, withEnvironment, withOverrides, withDefaults]
  cases l.useEnv <;> cases l.overrides.isEmpty <;> cases l.defaults.isEmpty <;> rfl

/-- The chain begins with the layer of the environment, if any. -/
theorem built_withEnvironment (l : Loader) (vars : Environment) (h : Built σ τ .empty []) :
    Built σ (l.withEnvironment vars τ).2 (l.withEnvironment vars τ).1
      (l.environmentLayers (l.environmentLayer vars)) := by
  rw [withEnvironment, environmentLayers]
  cases l.useEnv with
  | false => exact h
  | true => exact h.pushLast (l.makes_environmentSource vars) List.not_mem_nil

/-- The layer of the overrides, if any, comes before the others. -/
theorem built_withOverrides (l : Loader) (h : Built σ τ c ss) (hnew : "overrides" ∉ Source.namesOf ss) :
    Built σ (l.withOverrides c τ).2 (l.withOverrides c τ).1 (l.overrideLayers ++ ss) := by
  rw [withOverrides, overrideLayers]
  cases l.overrides.isEmpty with
  | true => exact h
  | false => exact h.pushFirst (makes_dottedSource _) hnew

/-- The layer of the defaults, if any, comes after the others. -/
theorem built_withDefaults (l : Loader) (h : Built σ τ c ss) (hnew : "defaults" ∉ Source.namesOf ss) :
    Built σ (l.withDefaults c τ).2 (l.withDefaults c τ).1 (ss ++ l.defaultLayers) := by
  rw [withDefaults, defaultLayers]
  cases l.defaults.isEmpty with
  | true => exact (List.append_nil ss).symm ▸ h
  | false => exact h.pushLast (makes_dottedSource _) hnew

/-- Why no chain is made: the file that is asked for is not there, or a selected file cannot be loaded,
and those before it can. -/
inductive Refuses (l : Loader) (host : Host) : LoaderError → Prop where
  | missing {path : String} (h : l.file = some path) (hfile : host.tree.isFile path = false) :
      Refuses l host (.fileNotFound path)
  | fails {before after : List String} {path : String} {e : LoaderError}
      (h : l.Selects host (before ++ path :: after))
      (hbefore : ∀ p ∈ before, ∃ f, ConfigFile.Loads host p f)
      (hfails : ConfigFile.Fails host path e) : Refuses l host e

/-- **A chain is refused, or it is made of the layers.** -/
theorem load_cases (l : Loader) (host : Host) (σ : Session) :
    (∃ e, l.Refuses host e ∧ (l.load host σ).1 = .error e) ∨
      ∃ paths fs env c, l.Selects host paths ∧ List.Forall₂ (ConfigFile.Loads host) paths fs ∧
        l.Exposes host.env env ∧ (l.load host σ).1 = .ok c ∧
        Built σ (l.load host σ).2 c (l.layers env fs) := by
  rw [load_eq, Run.bind_apply]
  have ⟨hmemory, hnext⟩ := l.sameMemory_files host σ
  rcases l.files_cases host σ with ⟨path, hfile, hpath, herror⟩ | ⟨paths, hpaths, hok⟩
  · rw [herror]
    exact .inl ⟨_, .missing hfile hpath, rfl⟩
  · have hexposes := l.exposes_environmentLayer host.env
    have henv := l.built_withEnvironment host.env ((Built.empty σ).of_sameMemory hmemory hnext)
    have hconfig : ∀ path ∈ paths,
        "config:" ++ path ∉ Source.namesOf (l.environmentLayers (l.environmentLayer host.env)) :=
      fun path _ => notMem_environmentLayers hexposes (config_append_ne (by decide) path)
    rw [hok]
    simp only [Run.bind_apply]
    rcases addFiles_cases host henv hpaths.nodup hconfig with
      ⟨before, path, after, e, rfl, hbefore, hfails, herror⟩ | ⟨fs, c, hfs, hok, hfiles⟩
    · rw [herror]
      exact .inl ⟨e, .fails hpaths hbefore hfails, rfl⟩
    · have hover := l.built_withOverrides hfiles
        (notMem_layers hexposes hfs (by decide) (by decide))
      have hdefaults : "defaults" ∉ Source.namesOf l.overrideLayers :=
        notMem_overrideLayers (by decide)
      have hall := l.built_withDefaults hover (by
        rw [Source.namesOf_append, List.mem_append, not_or]
        exact ⟨hdefaults, notMem_layers hexposes hfs (by decide) (by decide)⟩)
      rw [hok]
      exact .inr ⟨paths, fs, _, _, hpaths, hfs, hexposes, rfl, hall.of_sameMemory ⟨rfl, rfl⟩ rfl⟩

theorem loads_of_mem {fs : List ConfigFile} (h : List.Forall₂ (ConfigFile.Loads host) paths fs)
    {path : String} (hpath : path ∈ paths) : ∃ f, ConfigFile.Loads host path f := by
  have hboth : List.Forall₂
      (fun p f => (∃ f, ConfigFile.Loads host p f) ∧ ConfigFile.Loads host p f) paths fs :=
    h.imp fun p f hf => ⟨⟨f, hf⟩, hf⟩
  exact ((List.forall₂_and_left _ _).mp hboth).1 path hpath

/-- **What keeps a chain from being loaded**: the file that is asked for is not there, or a selected file
has no supported extension or does not parse. -/
theorem load_error_iff (l : Loader) (host : Host) (σ : Session) :
    (∃ e, (l.load host σ).1 = .error e) ↔
      (∃ path, l.file = some path ∧ host.tree.isFile path = false) ∨
        ∃ paths, l.Selects host paths ∧ ∃ path ∈ paths, Path.extension? path ≠ some "toml" ∨
          ∃ content, host.tree.read? path = some content ∧ host.parse content = none := by
  rcases l.load_cases host σ with ⟨e, hrefuses, herror⟩ | ⟨paths, fs, _, c, hpaths, hfs, -, hok, -⟩
  · refine iff_of_true ⟨e, herror⟩ ?_
    cases hrefuses with
    | missing hfile hpath => exact .inl ⟨_, hfile, hpath⟩
    | @fails before after path e hpaths _ hfails =>
        have hmem : path ∈ before ++ path :: after := by simp
        refine .inr ⟨_, hpaths, path, hmem, ?_⟩
        cases hfails with
        | missing hread => simpa [FileTree.isFile, hread] using hpaths.isFile hmem
        | unsupported _ hext => exact .inl hext
        | unreadable hread _ hparse => exact .inr ⟨_, hread, hparse⟩
  · refine iff_of_false (by simp [hok]) ?_
    rintro (⟨path, hfile, hpath⟩ | ⟨paths', hpaths', path, hmem, hbad⟩)
    · have hasked := ((selects_iff_of_file_eq_some hfile).mp hpaths).1
      simp [hpath] at hasked
    · obtain rfl := hpaths.unique hpaths'
      obtain ⟨f, hf⟩ := loads_of_mem hfs hmem
      cases hf with
      | intro hread hext hparse =>
          rcases hbad with hbad | ⟨content, hread', hnone⟩
          · exact hbad hext
          · simp_all

end Loading

end Loader

/-! ## Resolving names -/

/-- Nothing is remembered for numbers that were not given out. -/
structure Session.Blank (σ : Session) : Prop where
  index : ∀ id, σ.next ≤ id → σ.index? id = none
  entry : ∀ k, σ.next ≤ k → ∀ key, σ.entry (.own k) key = none

theorem Session.blank_start : start.Blank := ⟨fun _ _ => rfl, fun _ _ _ => rfl⟩

namespace Loader

variable {σ τ υ : Session} {c : Chain} {ss : List Source}

/-- All layers are seen through built-in mappers. -/
theorem builtIn_layers {l : Loader} {vars : Environment} {env : Source} (henv : l.Exposes vars env)
    (fs : List ConfigFile) : ∀ s ∈ l.layers env fs, s.mapper.mapper.BuiltIn := by
  have henv : env.mapper.mapper.BuiltIn := henv.mapper ▸ .environment _
  have hplain (p : Provider) : (Source.plain p Mapping.dotted).mapper.mapper.BuiltIn := .dotted
  intro s hs
  simp only [layers, overrideLayers, environmentLayers, fileLayers, defaultLayers] at hs
  grind

/-- A chain of layers that are seen through built-in mappers is standard. -/
theorem Built.standard (h : Built σ τ c ss) (hss : ∀ s ∈ ss, s.mapper.mapper.BuiltIn) :
    c.Standard :=
  ⟨h.distinct, Chain.builtIn_copies h.copies hss⟩

/-- **A session that was blank knows the chain that it made.** -/
theorem Built.knows (h : Built σ τ c ss) (hσ : σ.Blank) : τ.Knows c where
  index := fun s hs => Session.faithful_of_index?_eq_none (by
    rw [← h.memory.index?, hσ.index _ (h.numbers s hs).1])
  lists := fun s hs id hid n cs hcs => by
    obtain ⟨k, hk, rfl⟩ := h.caches s hs id hid
    rw [← Session.entry_congr h.memory.caches, hσ.entry k hk] at hcs
    contradiction

/-- **Loading.**  If a chain is made, its sources are made like the layers, in their order: the overrides
if there are any, the environment unless it is switched off, the selected files, and the defaults if
there are any.  The environment shows what the loader sees of the variables.  Whenever the session knows
the chain, which it does right after loading if it was blank before, a name is resolved by the first
layer that supplies it.  No chain is made exactly if the file that is asked for is not there, or a
selected file has no supported extension or does not parse. -/
theorem load_spec (l : Loader) (host : Host) (σ : Session) :
    (∀ c, (l.load host σ).1 = .ok c →
      ∃ paths fs env, l.Selects host paths ∧ List.Forall₂ (ConfigFile.Loads host) paths fs ∧
        l.Exposes host.env env ∧
        c.names = (if l.overrides.isEmpty then [] else ["overrides"]) ++
          ((if l.useEnv then ["systemEnvironment"] else []) ++ paths.map ("config:" ++ ·)) ++
          (if l.defaults.isEmpty then [] else ["defaults"]) ∧
        List.Forall₂ Source.CopyOf c.sources (l.layers env fs) ∧
        (σ.Blank → (l.load host σ).2.Knows c) ∧
        ∀ τ n, τ.Knows c →
          (c.resolve n τ).1 = (l.layers env fs).findSome? (·.supplied n)) ∧
    ((∃ e, (l.load host σ).1 = .error e) ↔
      (∃ path, l.file = some path ∧ host.tree.isFile path = false) ∨
        ∃ paths, l.Selects host paths ∧ ∃ path ∈ paths, Path.extension? path ≠ some "toml" ∨
          ∃ content, host.tree.read? path = some content ∧ host.parse content = none) := by
  refine ⟨fun c hc => ?_, l.load_error_iff host σ⟩
  rcases l.load_cases host σ with
    ⟨e, -, herror⟩ | ⟨paths, fs, env, c', hpaths, hfs, henv, hok, hbuilt⟩
  · simp [hc] at herror
  · obtain rfl : c = c' := by simpa [hc] using hok
    have hstandard := hbuilt.standard (builtIn_layers henv fs)
    refine ⟨paths, fs, env, hpaths, hfs, henv, ?_, hbuilt.copies, hbuilt.knows, fun τ n hτ => ?_⟩
    · rw [hbuilt.namesOf_eq, namesOf_layers henv hfs]
    · rw [Chain.resolve_eq_findSome? hstandard hτ, Chain.findSome?_copies hbuilt.copies]

/-- An environment that selects the production profile, on a host where the directory `a` holds no file
of the loader, and `b` and the working directory do. -/
def bootHost : Host where
  env := [("RELAXED_PROFILE", some "prod"), ("PORT", some "4")]
  tree :=
    { workDir := "/w"
      dirs := ["/w", "/w/a", "/w/b"]
      files := [("/w/a/application-dev.toml", "port = 0"), ("/w/b/application.toml", "port = 1"),
        ("/w/b/application-production.toml", "port = 2"), ("/w/application.toml", "port = 3")] }
  configDir? := some "/w/config"
  parse := ConfigFile.ofToml?

/-- A loader of everything that a chain can have. -/
def bootLoader : Loader :=
  { create bootHost.env with
    searchPaths := ["a", "b", "."]
    overrides := .ofList [("host", .text "h")]
    defaults := .ofList [("port", .text "5")] }

def port : Name :=
  ⟨[.literal ⟨"port", by simp [isReserved], by simp [isSeparator]⟩], List.cons_ne_nil _ _⟩

/-- The environment supplies the variable `PORT`, since the prefix is empty. -/
theorem supplied_bootLoader {env : Source} (henv : bootLoader.Exposes bootHost.env env) :
    env.supplied port = some ⟨port, .text "4", ⟨"systemEnvironment", "PORT", none⟩⟩ := by
  have hlatest : Environment.Latest "PORT" "4" (bootLoader.knownVars bootHost.env) :=
    ⟨[("RELAXED_PROFILE", some "prod")], [], rfl, by simp⟩
  have hget : env.provider.get "PORT" = .ok (some (.text "4")) :=
    (henv.found "PORT" (.text "4")).mpr ⟨"4", rfl, .taken (by rintro ⟨-, ⟨⟩⟩) hlatest⟩
  have horigin : env.originOf "PORT" = ⟨"systemEnvironment", "PORT", none⟩ := by
    rw [Source.originOf, henv.origin, henv.name]
    rfl
  have hmapper : env.mapper.mapper = Mapping.environment false := henv.mapper
  have hkeys : env.mapper.mapper.keysFor port = ["PORT"] := by
    rw [hmapper]
    decide +kernel
  have hreply : env.reply port =
      .ok (some ⟨port, .text "4", ⟨"systemEnvironment", "PORT", none⟩⟩) := by
    rw [Source.reply_of_direct (hmapper ▸ Mapping.direct_environment), Source.searched, hkeys,
      List.singleton_append, Source.first, hget, horigin]
  exact Source.supplied_eq_some_iff.mpr hreply

/-- The files are those of `b`, that of the profile first, and the port is the variable `PORT`: the
overrides have none, and the files and the defaults are asked after the environment. -/
theorem load_spec_bootLoader :
    Session.start.Blank ∧ ∃ c, (bootLoader.load bootHost .start).1 = .ok c ∧
      c.names = ["overrides", "systemEnvironment", "config:b/application-production.toml",
        "config:b/application.toml", "defaults"] ∧
      (c.resolve port (bootLoader.load bootHost .start).2).1 =
        some ⟨port, .text "4", ⟨"systemEnvironment", "PORT", none⟩⟩ := by
  have hloaded : (bootLoader.load bootHost .start).1.toOption.isSome = true := by decide +kernel
  have hfound : bootLoader.firstFound bootHost (bootLoader.directories bootHost) =
      ["b/application-production.toml", "b/application.toml"] := by decide +kernel
  cases hc : (bootLoader.load bootHost .start).1 with
  | error e => simp [hc, Except.toOption] at hloaded
  | ok c =>
      obtain ⟨paths, fs, env, hpaths, -, henv, hnames, -, hknows, hresolve⟩ :=
        (load_spec bootLoader bootHost .start).1 c hc
      rw [selects_iff_of_file_eq_none rfl, hfound] at hpaths
      subst hpaths
      refine ⟨Session.blank_start, c, rfl, hnames, ?_⟩
      have hoverrides : (Source.plain (bootLoader.overrides.provider "overrides")
          Mapping.dotted).supplied port = none :=
        Option.isNone_iff_eq_none.mp (by decide +kernel)
      have hlayers : bootLoader.layers env fs =
          .plain (bootLoader.overrides.provider "overrides") Mapping.dotted ::
            env :: (fileLayers fs ++ bootLoader.defaultLayers) := rfl
      rw [hresolve _ port (hknows Session.blank_start), hlayers, List.findSome?_cons, hoverrides,
        List.findSome?_cons, supplied_bootLoader henv]

end Loader

end LayeredConfig
