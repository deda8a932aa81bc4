import LayeredConfig.Loading.Loader
import LayeredConfig.Proofs.ChainEdits
import LayeredConfig.Proofs.Leaves

/-!
# LayeredConfig.Proofs.SelectedFiles

Which files a loader loads, and what becomes of them.

1. A directory holds the file of the profile, the main file, both in this order, or nothing
   (`Loader.Holds`, `Loader.Bare`).  The files to load are the one asked for, or else those of the first
   directory that holds any, or none (`Loader.Selects`, `Loader.files_cases`).  No two have one path
   (`Loader.Selects.nodup`).
2. A file is loaded if it is there, has the supported extension and parses; any other fails for a reason
   of its own (`ConfigFile.loads_or_fails`).
-/

namespace LayeredConfig

/-! ## Paths -/

/-- In one directory, different paths lead to different places, if both are relative or both are not. -/
theorem Path.join_injective {dir a b : String} (h : isAbsolute a = isAbsolute b)
    (hjoin : join dir a = join dir b) : a = b := by
  simp only [join, h] at hjoin
  split at hjoin
  · exact hjoin
  · split at hjoin <;> simpa [← String.toList_inj] using hjoin

namespace Loader

variable {l : Loader} {host : Host} {dir : String} {paths : List String}

/-! ## The files of a directory -/

/-- The path of the main file in a directory. -/
def mainFile (l : Loader) (dir : String) : String := Path.join dir (l.settings.baseName ++ ".toml")

/-- The path of the file of the profile in a directory. -/
def profileFile (l : Loader) (dir : String) : String :=
  Path.join dir (l.settings.baseName ++ "-" ++ l.profile.name ++ ".toml")

/-- The file of the profile and the main file have different paths. -/
theorem profileFile_ne_mainFile (l : Loader) (dir : String) :
    l.profileFile dir ≠ l.mainFile dir := by
  have habsolute : Path.isAbsolute (l.settings.baseName ++ "-" ++ l.profile.name ++ ".toml") =
      Path.isAbsolute (l.settings.baseName ++ ".toml") := by
    simp only [Path.isAbsolute, String.toList_append]
    cases l.settings.baseName.toList <;> simp
  intro hjoin
  have hlength := congrArg (·.toList.length) (Path.join_injective habsolute hjoin)
  simp at hlength

/-- A directory holds neither of the files that a loader looks for. -/
def Bare (l : Loader) (host : Host) (dir : String) : Prop :=
  host.tree.isFile (l.profileFile dir) = false ∧ host.tree.isFile (l.mainFile dir) = false

/-- The files that a directory holds, in order of precedence: that of the profile stands before the
main file. -/
inductive Holds (l : Loader) (host : Host) (dir : String) : List String → Prop where
  | both (hprofile : host.tree.isFile (l.profileFile dir) = true)
      (hmain : host.tree.isFile (l.mainFile dir) = true) :
      Holds l host dir [l.profileFile dir, l.mainFile dir]
  | profile (hprofile : host.tree.isFile (l.profileFile dir) = true)
      (hmain : host.tree.isFile (l.mainFile dir) = false) : Holds l host dir [l.profileFile dir]
  | main (hprofile : host.tree.isFile (l.profileFile dir) = false)
      (hmain : host.tree.isFile (l.mainFile dir) = true) : Holds l host dir [l.mainFile dir]

/-- The loader finds no file in a directory that is bare. -/
theorem held_eq_nil_iff : l.held host dir = [] ↔ l.Bare host dir := by
  rw [held, List.filter_eq_nil_iff]
  simp [candidateFiles, Bare, profileFile, mainFile]

/-- The loader finds the files that a directory holds. -/
theorem held_eq_iff (hne : paths ≠ []) : l.held host dir = paths ↔ l.Holds host dir paths := by
  have hheld : l.held host dir =
      [l.profileFile dir, l.mainFile dir].filter host.tree.isFile := rfl
  constructor
  · rintro rfl
    rw [hheld] at hne ⊢
    cases hprofile : host.tree.isFile (l.profileFile dir) <;>
      cases hmain : host.tree.isFile (l.mainFile dir) <;>
      simp only [hprofile, hmain, List.filter_cons, List.filter_nil, if_true,
        Bool.false_eq_true, if_false] at hne ⊢
    · exact absurd rfl hne
    · exact .main hprofile hmain
    · exact .profile hprofile hmain
    · exact .both hprofile hmain
  · intro h
    cases h with
    | both hprofile hmain | profile hprofile hmain | main hprofile hmain =>
        simp [hheld, hprofile, hmain]

/-! ## The files to load -/

/-- The directories that are searched: those that were added, or else the working directory, and then
the directory `relaxed` in the user's configuration if there is one. -/
inductive Searches (l : Loader) (host : Host) : List String → Prop where
  | added (h : l.searchPaths ≠ []) : Searches l host l.searchPaths
  | usual {dir : String} (h : l.searchPaths = []) (hdir : host.configDir? = some dir) :
      Searches l host [host.tree.workDir, Path.join dir "relaxed"]
  | working (h : l.searchPaths = []) (hdir : host.configDir? = none) :
      Searches l host [host.tree.workDir]

/-- The loader searches the directories that are to be searched. -/
theorem searches_iff {dirs : List String} : l.Searches host dirs ↔ dirs = l.directories host := by
  constructor
  · intro h
    cases h with
    | added h => rw [directories, if_neg h]
    | usual h hdir | working h hdir =>
        rw [directories, if_pos h, userDir?, hdir]
        rfl
  · rintro rfl
    by_cases h : l.searchPaths = []
    · cases hdir : host.configDir? with
      | none =>
          rw [directories, if_pos h, userDir?, hdir]
          exact .working h hdir
      | some dir =>
          rw [directories, if_pos h, userDir?, hdir]
          exact .usual h hdir
    · rw [directories, if_neg h]
      exact .added h

/-- The files that are loaded: the one asked for, which must be there, or else those of the first
directory that holds any, or none if no directory does. -/
inductive Selects (l : Loader) (host : Host) : List String → Prop where
  | asked {path : String} (h : l.file = some path) (hfile : host.tree.isFile path = true) :
      Selects l host [path]
  | found {before after paths : List String} {dir : String} (h : l.file = none)
      (hdirs : l.Searches host (before ++ dir :: after)) (hbefore : ∀ d ∈ before, l.Bare host d)
      (hfound : l.Holds host dir paths) : Selects l host paths
  | nowhere {dirs : List String} (h : l.file = none) (hdirs : l.Searches host dirs)
      (hnone : ∀ d ∈ dirs, l.Bare host d) : Selects l host []

theorem Holds.ne_nil (h : l.Holds host dir paths) : paths ≠ [] := by
  cases h <;> exact List.cons_ne_nil _ _

/-- Directories that hold nothing are passed over. -/
theorem firstFound_append {before : List String} (h : ∀ d ∈ before, l.Bare host d)
    (rest : List String) : l.firstFound host (before ++ rest) = l.firstFound host rest := by
  induction before with
  | nil => rfl
  | cons d before ih =>
      have ⟨hd, hbefore⟩ := List.forall_mem_cons.mp h
      rw [List.cons_append, firstFound, if_pos (held_eq_nil_iff.mpr hd), ih hbefore]

/-- The search ends at the first directory that holds a file. -/
theorem firstFound_of_holds {before after : List String} (hbefore : ∀ d ∈ before, l.Bare host d)
    (hfound : l.Holds host dir paths) : l.firstFound host (before ++ dir :: after) = paths := by
  have hheld := (held_eq_iff hfound.ne_nil).mpr hfound
  rw [firstFound_append hbefore, firstFound, hheld, if_neg hfound.ne_nil]

/-- Where no directory holds a file the search finds none. -/
theorem firstFound_of_bare {dirs : List String} (h : ∀ d ∈ dirs, l.Bare host d) :
    l.firstFound host dirs = [] := by
  rw [← List.append_nil dirs, firstFound_append h, firstFound]

/-- The search ends at the first directory that holds a file, or nowhere. -/
theorem directories_cases (l : Loader) (host : Host) (dirs : List String) :
    (∀ d ∈ dirs, l.Bare host d) ∨
      ∃ before dir after paths, dirs = before ++ dir :: after ∧ (∀ d ∈ before, l.Bare host d) ∧
        l.Holds host dir paths := by
  induction dirs with
  | nil => exact .inl (by simp)
  | cons dir dirs ih =>
      by_cases hdir : l.held host dir = []
      · have hbare := held_eq_nil_iff.mp hdir
        rcases ih with hnone | ⟨before, d, after, paths, rfl, hbefore, hd⟩
        · exact .inl (List.forall_mem_cons.mpr ⟨hbare, hnone⟩)
        · exact .inr ⟨dir :: before, d, after, paths, rfl,
            List.forall_mem_cons.mpr ⟨hbare, hbefore⟩, hd⟩
      · exact .inr ⟨[], dir, dirs, _, rfl, by simp, (held_eq_iff hdir).mp rfl⟩

/-- Without a file that is asked for, the search says which files are loaded. -/
theorem selects_iff_of_file_eq_none (h : l.file = none) :
    l.Selects host paths ↔ paths = l.firstFound host (l.directories host) := by
  constructor
  · intro hselects
    cases hselects with
    | asked h' => simp [h] at h'
    | found _ hdirs hbefore hfound =>
        rw [← searches_iff.mp hdirs, firstFound_of_holds hbefore hfound]
    | nowhere _ hdirs hnone => rw [← searches_iff.mp hdirs, firstFound_of_bare hnone]
  · rintro rfl
    have hdirs := searches_iff.mpr (rfl : l.directories host = _)
    rcases directories_cases l host (l.directories host) with
      hnone | ⟨before, dir, after, paths, heq, hbefore, hfound⟩
    · rw [firstFound_of_bare hnone]
      exact .nowhere h hdirs hnone
    · rw [heq] at hdirs
      rw [heq, firstFound_of_holds hbefore hfound]
      exact .found h hdirs hbefore hfound

/-- A file that is asked for is the only one, and it has to be there. -/
theorem selects_iff_of_file_eq_some {path : String} (h : l.file = some path) :
    l.Selects host paths ↔ host.tree.isFile path = true ∧ paths = [path] := by
  constructor
  · intro hselects
    cases hselects with
    | asked h' hfile => simp_all
    | found h' => simp [h] at h'
    | nowhere h' => simp [h] at h'
  · rintro ⟨hfile, rfl⟩
    exact .asked h hfile

/-- The files to load are determined. -/
theorem Selects.unique {paths' : List String} (h : l.Selects host paths)
    (h' : l.Selects host paths') : paths = paths' := by
  cases hfile : l.file with
  | none =>
      rw [selects_iff_of_file_eq_none hfile] at h h'
      rw [h, h']
  | some path =>
      rw [selects_iff_of_file_eq_some hfile] at h h'
      rw [h.2, h'.2]

/-- **The files that are loaded have different paths.** -/
theorem Selects.nodup (h : l.Selects host paths) : paths.Nodup := by
  cases h with
  | asked => exact List.nodup_singleton _
  | found _ _ _ hfound =>
      cases hfound with
      | both => simpa using l.profileFile_ne_mainFile _
      | profile | main => exact List.nodup_singleton _
  | nowhere => exact List.nodup_nil

/-- Every file to load is there. -/
theorem Selects.isFile (h : l.Selects host paths) {path : String} (hpath : path ∈ paths) :
    host.tree.isFile path = true := by
  cases h with
  | asked _ hfile => rwa [List.mem_singleton.mp hpath]
  | found _ _ _ hfound =>
      cases hfound with
      | both hprofile hmain =>
          rcases List.mem_cons.mp hpath with rfl | hpath
          · exact hprofile
          · rwa [List.mem_singleton.mp hpath]
      | profile hprofile _ => rwa [List.mem_singleton.mp hpath]
      | main _ hmain => rwa [List.mem_singleton.mp hpath]
  | nowhere => simp at hpath

/-- **The search finds what is to be loaded**, or the file that is asked for is not there. -/
theorem files_cases (l : Loader) (host : Host) (σ : Session) :
    (∃ path, l.file = some path ∧ host.tree.isFile path = false ∧
        (l.files host σ).1 = .error (.fileNotFound path)) ∨
      ∃ paths, l.Selects host paths ∧ (l.files host σ).1 = .ok paths := by
  cases hfile : l.file with
  | some path =>
      cases hpath : host.tree.isFile path with
      | false => exact .inl ⟨path, rfl, hpath, by simp [files, hfile, hpath, Run.pure_apply]⟩
      | true => exact .inr ⟨[path], .asked hfile hpath, by simp [files, hfile, hpath, Run.pure_apply]⟩
  | none =>
      refine .inr ⟨_, (selects_iff_of_file_eq_none hfile).mpr rfl, ?_⟩
      rw [files, hfile]
      cases l.firstFound host (l.directories host) <;> rfl

/-- The search remembers nothing and gives out no number. -/
theorem sameMemory_files (l : Loader) (host : Host) (σ : Session) :
    σ.SameMemory (l.files host σ).2 ∧ (l.files host σ).2.next = σ.next := by
  rw [files]
  cases l.file with
  | some path => exact ⟨.refl σ, rfl⟩
  | none => cases l.firstFound host (l.directories host) <;> exact ⟨⟨rfl, rfl⟩, rfl⟩

end Loader

/-! ## Loading a file -/

namespace ConfigFile

/-- A path leads to a file with the supported extension that parses. -/
inductive Loads (host : Host) (path : String) : ConfigFile → Prop where
  | intro {content : String} {fields : List (String × Document)}
      (hread : host.tree.read? path = some content) (hext : Path.extension? path = some "toml")
      (hparse : host.parse content = some fields) :
      Loads host path (ofFields path fields)

/-- Why what a path leads to cannot be loaded. -/
inductive Fails (host : Host) (path : String) : LoaderError → Prop where
  | missing (hread : host.tree.read? path = none) : Fails host path (.fileNotFound path)
  | unsupported {content : String} (hread : host.tree.read? path = some content)
      (hext : Path.extension? path ≠ some "toml") : Fails host path (.unsupportedFormat path)
  | unreadable {content : String} (hread : host.tree.read? path = some content)
      (hext : Path.extension? path = some "toml")
      (hparse : host.parse content = none) :
      Fails host path (.unreadable path)

variable {host : Host} {path : String} {f : ConfigFile} {e : LoaderError}

theorem Loads.name_eq (h : Loads host path f) : f.name = "config:" ++ path := by
  cases h
  rfl

/-- A file is loaded, or it fails for some reason. -/
theorem loads_or_fails (host : Host) (path : String) :
    (∃ f, Loads host path f) ∨ ∃ e, Fails host path e := by
  cases hread : host.tree.read? path with
  | none => exact .inr ⟨_, .missing hread⟩
  | some content =>
      by_cases hext : Path.extension? path = some "toml"
      · cases hparse : host.parse content with
        | none => exact .inr ⟨_, .unreadable hread hext hparse⟩
        | some fields => exact .inl ⟨_, .intro hread hext hparse⟩
      · exact .inr ⟨_, .unsupported hread hext⟩

/-- **What can be loaded is loaded**, and only a note is made. -/
theorem Loads.load_apply (h : Loads host path f) (σ : Session) :
    ∃ event, load host path σ = (.ok f, (Run.note event σ).2) := by
  cases h with
  | @intro content fields hread hext hparse =>
      refine ⟨.parsedFile path (Document.flattenTop fields).length, ?_⟩
      rw [load, hread]
      simp only [hext, ne_eq, not_true_eq_false, if_false, hparse]
      rfl

/-- **What fails is refused**, and nothing happens. -/
theorem Fails.load_apply (h : Fails host path e) (σ : Session) :
    load host path σ = (.error e, σ) := by
  cases h with
  | missing hread =>
      rw [load, hread]
      rfl
  | unsupported hread hext =>
      rw [load, hread]
      simp only [ne_eq, hext, not_false_eq_true, if_true, Run.pure_apply]
  | unreadable hread hext hparse =>
      rw [load, hread]
      simp only [hext, ne_eq, not_true_eq_false, if_false, hparse, Run.pure_apply]

end ConfigFile

end LayeredConfig
