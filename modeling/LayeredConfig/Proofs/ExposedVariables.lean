import LayeredConfig.Loading.Loader
import LayeredConfig.Proofs.PrefixedVariables

/-!
# LayeredConfig.Proofs.ExposedVariables

What the environment shows of the variables of a loader.

1. Variables that are taken once are those that the loader is given, or else those of the process; of
   equal names the last one that is Unicode counts (`Environment.Latest`).
2. A process that is asked at every lookup answers with the first of its variables that bears the name,
   and fails where that one is not Unicode (`Environment.Bears`).
3. A loader sees the variables in one of these two ways (`Loader.Sees`), and its environment shows what
   it sees, behind the prefix (`Loader.Exposes`, `Loader.exposes_environmentLayer`).
-/

namespace LayeredConfig

namespace Environment

variable {key v w : String} {env : Environment} {x : String × Option String}

/-! ## Variables that are taken once -/

/-- The last Unicode value of a variable. -/
def Latest (key v : String) (env : Environment) : Prop :=
  ∃ before after, env = before ++ (key, some v) :: after ∧ ∀ w, (key, some w) ∉ after

/-- A variable that comes last has its own value. -/
theorem latest_append_self : Latest key v (env ++ [(key, some w)]) ↔ v = w := by
  constructor
  · rintro ⟨before, after, henv, hafter⟩
    rcases List.eq_nil_or_concat after with rfl | ⟨after, y, rfl⟩
    · have := (List.append_inj' henv rfl).2
      simp_all
    · rw [List.concat_eq_append, ← List.cons_append, ← List.append_assoc] at henv
      obtain rfl : (key, some w) = y := by simpa using (List.append_inj' henv rfl).2
      exact absurd (by simp) (hafter w)
  · rintro rfl
    exact ⟨env, [], rfl, fun _ => List.not_mem_nil⟩

/-- A variable of another name, or one that is not Unicode, leaves the latest value as it is. -/
theorem latest_append_of_ne (h : ∀ w, (key, some w) ≠ x) :
    Latest key v (env ++ [x]) ↔ Latest key v env := by
  constructor
  · rintro ⟨before, after, henv, hafter⟩
    rcases List.eq_nil_or_concat after with rfl | ⟨after, y, rfl⟩
    · exact absurd (by simpa using (List.append_inj' henv rfl).2.symm) (h v)
    · rw [List.concat_eq_append, ← List.cons_append, ← List.append_assoc] at henv
      refine ⟨before, after, (List.append_inj' henv rfl).1, fun w hw => hafter w ?_⟩
      rw [List.concat_eq_append]
      exact List.mem_append_left _ hw
  · rintro ⟨before, after, rfl, hafter⟩
    refine ⟨before, after ++ [x], by simp, fun w => ?_⟩
    rw [List.mem_append, List.mem_singleton, not_or]
    exact ⟨hafter w, h w⟩

/-- **The table of variables has the last value of each.** -/
theorem find?_table_readable {e : Entry} :
    (table env.readable).find? key = some e ↔ ∃ v, e = ⟨.text v, none⟩ ∧ Latest key v env := by
  induction env using List.reverseRecOn with
  | nil => simp [readable, table, Entries.ofList, Entries.find?, Latest]
  | append_singleton env x ih =>
      obtain ⟨name, value⟩ := x
      cases value with
      | none =>
          have hreadable : readable (env ++ [(name, none)]) = readable env := by simp [readable]
          simp only [hreadable, ih, latest_append_of_ne (x := (name, none)) (by simp)]
      | some w =>
          have hreadable : readable (env ++ [(name, some w)]) = readable env ++ [(name, w)] := by
            simp [readable]
          rw [hreadable, find?_table_append_singleton]
          by_cases h : key = name
          · subst h
            simp only [if_true, latest_append_self, Option.some.injEq, exists_eq_right]
            exact eq_comm
          · have hne : ∀ w', (key, some w') ≠ (name, some w) := by simp [h]
            simp only [if_neg h, ih, latest_append_of_ne hne]

/-- A variable is in the table if it has a Unicode value. -/
theorem mem_keys_table_readable : key ∈ (table env.readable).keys ↔ ∃ v, Latest key v env := by
  rw [← not_iff_not, ← Entries.find?_eq_none_iff, Option.eq_none_iff_forall_ne_some]
  simp only [ne_eq, find?_table_readable]
  constructor
  · rintro h ⟨v, hv⟩
    exact h _ ⟨v, rfl, hv⟩
  · rintro h e ⟨v, -, hv⟩
    exact h ⟨v, hv⟩

theorem readable_map_some (vars : List (String × String)) :
    readable (vars.map fun (k, v) => (k, some v)) = vars := by
  induction vars with
  | nil => rfl
  | cons kv vars ih => simp [readable]

/-! ## A process that is asked -/

/-- A variable bears a name, with what follows.  The text of a variable is its own name, an equals sign
and its value; it bears any name that it begins with and that an equals sign follows.  A value that is
not Unicode is borne under the variable's own name. -/
inductive Bears (key : String) : String × Option String → Option String → Prop where
  | text {name value rest : String} (h : name ++ "=" ++ value = key ++ "=" ++ rest) :
      Bears key (name, some value) (some rest)
  | garbled : Bears key (key, none) none

/-- The first variable that bears a name, with what follows. -/
def First (key : String) (found : Option String) (env : Environment) : Prop :=
  ∃ before x after, env = before ++ x :: after ∧ Bears key x found ∧
    ∀ y ∈ before, ∀ other, ¬ Bears key y other

/-- What a lookup finds in one variable. -/
def held? (key : String) : String × Option String → Option (Option String)
  | (name, some value) => (valueAfter? key name value).map some
  | (name, none) => if name = key then some none else none

/-- A lookup finds what a variable bears under the name. -/
theorem held?_eq_some_iff {found : Option String} : held? key x = some found ↔ Bears key x found := by
  obtain ⟨name, value⟩ := x
  cases value with
  | none =>
      constructor
      · intro h
        by_cases hname : name = key
        · subst hname
          obtain rfl : none = found := by simpa [held?] using h
          exact .garbled
        · simp [held?, hname] at h
      · rintro ⟨⟩
        simp [held?]
  | some value =>
      constructor
      · intro h
        obtain ⟨rest, hrest, rfl⟩ := Option.map_eq_some_iff.mp h
        exact .text (valueAfter?_eq_some_iff.mp hrest)
      · rintro (⟨h⟩ | _)
        simp [held?, valueAfter?_eq_some_iff.mpr h]

/-- **A process answers with the first variable that bears the name.** -/
theorem find?_eq_some_iff {found : Option String} :
    env.find? key = some found ↔ First key found env := by
  have hfind : env.find? key = env.findSome? (held? key) := rfl
  rw [hfind, List.findSome?_eq_some_iff]
  constructor
  · rintro ⟨before, x, after, rfl, hx, hbefore⟩
    refine ⟨before, x, after, rfl, held?_eq_some_iff.mp hx, fun y hy other hother => ?_⟩
    rw [← held?_eq_some_iff, hbefore y hy] at hother
    contradiction
  · rintro ⟨before, x, after, rfl, hx, hbefore⟩
    refine ⟨before, x, after, rfl, held?_eq_some_iff.mpr hx, fun y hy => ?_⟩
    exact Option.eq_none_iff_forall_ne_some.mpr fun other hother =>
      hbefore y hy other (held?_eq_some_iff.mp hother)

/-- A lookup in the process succeeds if the first variable that bears the full name is Unicode. -/
theorem get_live_eq_some_iff {name : String} {pre : Option String} {value : Value} :
    (live name pre env).get key = .ok (some value) ↔
      ∃ v, value = .text v ∧ First (fullKey pre key) (some v) env := by
  simp only [live, ← find?_eq_some_iff]
  cases env.find? (fullKey pre key) with
  | none => simp
  | some found => cases found <;> simp [eq_comm]

/-- A lookup in the process fails if the first variable that bears the full name is not Unicode. -/
theorem get_live_eq_error_iff {name : String} {pre : Option String} {e : ProviderError} :
    (live name pre env).get key = .error e ↔
      e = .lookup (fullKey pre key) "value is not valid unicode" ∧
        First (fullKey pre key) none env := by
  simp only [live, ← find?_eq_some_iff]
  cases env.find? (fullKey pre key) with
  | none => simp
  | some found => cases found <;> simp [eq_comm]

end Environment

namespace Loader

open Environment

variable {l : Loader} {env : Environment} {key : String}

/-! ## What a loader sees -/

/-- The process is asked at every lookup: the environment is restricted, and no variables are given. -/
def Live (l : Loader) : Prop := l.givenVars = none ∧ l.restrictedEnv = true

/-- The variables of a loader: those that it is given, or else those of the process. -/
def knownVars (l : Loader) (env : Environment) : Environment :=
  match l.givenVars with
  | some vars => vars.map fun (k, v) => (k, some v)
  | none => env

/-- The value that a loader sees for the name of a variable; `none` where it is not Unicode. -/
inductive Sees (l : Loader) (env : Environment) (key : String) : Option String → Prop where
  | taken {v : String} (h : ¬ l.Live) (hv : Latest key v (l.knownVars env)) : Sees l env key (some v)
  | asked {found : Option String} (h : l.Live) (hfound : First key found env) : Sees l env key found

/-- The full name of the variable behind a key. -/
def behind (l : Loader) (key : String) : String := l.settings.envPrefix.getD "" ++ key

/-- What a source shows of the variables of a loader.  A key leads to what the loader sees behind the
prefix.  A source that is not restricted lists, in ascending order, what stands after the prefix in the
names that the loader sees, if anything does. -/
structure Exposes (l : Loader) (env : Environment) (s : Source) : Prop where
  name : s.name = "systemEnvironment"
  mapper : s.mapper.mapper = Mapping.environment l.settings.envLists
  capability : s.capability = if l.restrictedEnv then .lookupOnly else .enumerable
  derivedFrom : s.derivedFrom = none
  found : ∀ key value, s.provider.get key = .ok (some value) ↔
    ∃ v, value = .text v ∧ l.Sees env (l.behind key) (some v)
  failed : ∀ key e, s.provider.get key = .error e ↔
    e = .lookup (l.behind key) "value is not valid unicode" ∧ l.Sees env (l.behind key) none
  listed : s.capability = .enumerable → ∀ key, key ∈ s.provider.keys ↔
    (l.settings.envPrefix ≠ none → key ≠ "") ∧ ∃ v, l.Sees env (l.behind key) (some v)
  ascending : s.provider.keys.Pairwise (· < ·)
  origin : ∀ key, s.provider.origin key = none

/-! ## What the environment shows -/

/-- Variables that are taken once are seen with their latest values, which are Unicode. -/
theorem sees_iff_of_not_live (h : ¬ l.Live) {found : Option String} :
    l.Sees env key found ↔ ∃ v, found = some v ∧ Latest key v (l.knownVars env) := by
  constructor
  · rintro (⟨-, hv⟩ | ⟨h', -⟩)
    · exact ⟨_, rfl, hv⟩
    · exact absurd h' h
  · rintro ⟨v, rfl, hv⟩
    exact .taken h hv

theorem sees_iff_of_live (h : l.Live) {found : Option String} :
    l.Sees env key found ↔ First key found env := by
  constructor
  · rintro (⟨h', -⟩ | ⟨-, hfound⟩)
    · exact absurd h h'
    · exact hfound
  · exact .asked h

/-- Such a loader asks the process at every lookup. -/
theorem environmentProvider_of_live (h : l.Live) :
    l.environmentProvider env = live "systemEnvironment" l.settings.envPrefix env := by
  rw [environmentProvider, h.1, h.2]
  rfl

/-- Any other loader takes a snapshot of the variables that it knows. -/
theorem environmentProvider_of_not_live (h : ¬ l.Live) :
    l.environmentProvider env =
      ofVariables "systemEnvironment" l.settings.envPrefix (l.knownVars env).readable := by
  rw [environmentProvider, knownVars]
  cases hvars : l.givenVars with
  | some vars =>
      simp only [readable_map_some]
      rfl
  | none =>
      have hr : l.restrictedEnv = false := by simpa [Live, hvars] using h
      rw [hr]
      rfl

/-- What is listed behind a prefix. -/
theorem mem_keys_ofVariables {name : String} {pre : Option String} {vars : List (String × String)} :
    key ∈ (ofVariables name pre vars).keys ↔
      (pre ≠ none → key ≠ "") ∧ pre.getD "" ++ key ∈ (table vars).keys := by
  cases pre with
  | none => simp [ofVariables, listedKeys, table, Entries.keys]
  | some p =>
      have hkeys : (ofVariables name (some p) vars).keys = (table vars).keys.filterMap (rest? p) := rfl
      simp [hkeys, rest?_eq_some_iff, and_comm]

/-- The layer of the environment. -/
def environmentLayer (l : Loader) (env : Environment) : Source :=
  let s := Source.plain (l.environmentProvider env) (Mapping.environment l.settings.envLists)
  if l.restrictedEnv then s.restricted else s

/-- Restricted or not, the layer is the provider under the names of variables. -/
theorem environmentLayer_fields (l : Loader) (env : Environment) :
    (l.environmentLayer env).provider = l.environmentProvider env ∧
      (l.environmentLayer env).name = (l.environmentProvider env).name ∧
      (l.environmentLayer env).mapper.mapper = Mapping.environment l.settings.envLists ∧
      ((l.environmentLayer env).capability =
        if l.restrictedEnv then .lookupOnly else (l.environmentProvider env).capability) ∧
      (l.environmentLayer env).derivedFrom = none := by
  rw [environmentLayer]
  cases l.restrictedEnv <;> exact ⟨rfl, rfl, rfl, rfl, rfl⟩

/-- A process that is asked shows the first variables that bear the full names, and lists none. -/
theorem exposes_of_live (h : l.Live) (env : Environment) : l.Exposes env (l.environmentLayer env) := by
  obtain ⟨hprovider, hname, hmapper, hcap, hfrom⟩ := l.environmentLayer_fields env
  rw [environmentProvider_of_live h] at hprovider hname hcap
  rw [h.2, if_pos rfl] at hcap
  constructor
  case name => exact hname
  case mapper => exact hmapper
  case capability => rw [hcap, h.2, if_pos rfl]
  case derivedFrom => exact hfrom
  case found =>
    intro key value
    simp only [sees_iff_of_live h, hprovider, get_live_eq_some_iff]
    rfl
  case failed =>
    intro key e
    simp only [sees_iff_of_live h, hprovider, get_live_eq_error_iff]
    rfl
  case listed =>
    intro hlists
    rw [hcap] at hlists
    cases hlists
  case ascending =>
    rw [hprovider]
    exact .nil
  case origin =>
    intro key
    rw [hprovider]
    rfl

/-- Variables that are taken once are shown with their last values, and listed. -/
theorem exposes_of_not_live (h : ¬ l.Live) (env : Environment) :
    l.Exposes env (l.environmentLayer env) := by
  obtain ⟨hprovider, hname, hmapper, hcap, hfrom⟩ := l.environmentLayer_fields env
  rw [environmentProvider_of_not_live h] at hprovider hname hcap
  have hget (key : String) : (l.environmentLayer env).provider.get key =
      .ok (((table (l.knownVars env).readable).find? (l.behind key)).map (·.value)) := by
    rw [hprovider]
    rfl
  constructor
  case name => exact hname
  case mapper => exact hmapper
  case capability => exact hcap
  case derivedFrom => exact hfrom
  case found =>
    intro key value
    simp only [sees_iff_of_not_live h, hget, Except.ok.injEq, Option.map_eq_some_iff,
      find?_table_readable, Option.some.injEq]
    constructor
    · rintro ⟨_, ⟨v, rfl, hv⟩, rfl⟩
      exact ⟨v, rfl, v, rfl, hv⟩
    · rintro ⟨v, rfl, _, rfl, hv⟩
      exact ⟨_, ⟨v, rfl, hv⟩, rfl⟩
  case failed =>
    intro key e
    simp [sees_iff_of_not_live h, hget]
  case listed =>
    intro _ key
    simp only [sees_iff_of_not_live h, hprovider, mem_keys_ofVariables, mem_keys_table_readable,
      behind, Option.some.injEq, exists_eq_left']
  case ascending =>
    rw [hprovider]
    exact (Provider.Stored.snapshot _ _ _).listing.ascending
  case origin =>
    intro key
    rw [hprovider]
    rfl

/-- **The environment shows what the loader sees.** -/
theorem exposes_environmentLayer (l : Loader) (env : Environment) :
    l.Exposes env (l.environmentLayer env) := by
  by_cases h : l.Live
  · exact exposes_of_live h env
  · exact exposes_of_not_live h env

end Loader

end LayeredConfig
