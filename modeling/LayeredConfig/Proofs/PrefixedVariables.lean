import LayeredConfig.Proofs.Descendants
import LayeredConfig.Proofs.History
import LayeredConfig.Proofs.Leaves
import Mathlib.Data.List.Sort

/-!
# LayeredConfig.Proofs.PrefixedVariables

Environment variables seen through a prefix.

1. A lookup puts the prefix in front of the key, and a listing takes it away.  Both tell of the variables
   whose names are the prefix and something after it, under what comes after it
   (`Environment.find?_stripped`, `Environment.keys_stripped`).
2. Only the empty key is different: the variable whose name is the prefix alone can be looked up and is
   not listed.  No built-in mapper makes a source try the empty key (`Source.key_ne_empty`), so a source
   over the variables with the prefix answers like one over the stripped variables
   (`Environment.prefixed_eq_stripped`).
-/

namespace LayeredConfig

namespace Environment

variable {p key name : String} {vars : List (String × String)}

/-! ## Stripping -/

/-- What follows a prefix in the name of a variable, if anything does. -/
def rest? (p name : String) : Option String :=
  match Text.afterPrefix? p.toList name.toList with
  | some (c :: cs) => some (String.ofList (c :: cs))
  | _ => none

/-- A variable has a key behind the prefix if something stands behind the prefix in its name. -/
theorem rest?_eq_some_iff : rest? p name = some key ↔ key ≠ "" ∧ name = p ++ key := by
  have hname : name = p ++ key ↔ Text.afterPrefix? p.toList name.toList = some key.toList := by
    rw [Text.afterPrefix?_eq_some_iff, ← String.toList_append, String.toList_inj]
  have hkey : key ≠ "" ↔ key.toList ≠ [] := by simp
  rw [hname, hkey, rest?]
  cases Text.afterPrefix? p.toList name.toList with
  | none => simp
  | some cs => cases cs <;> grind [String.toList_inj, String.toList_ofList]

/-- The variables whose names are a prefix and something after it, under what comes after it. -/
def stripped (p : String) (vars : List (String × String)) : List (String × String) :=
  vars.filterMap fun (name, v) => (rest? p name).map (·, v)

/-- The stripped variables are those behind the prefix, without it. -/
theorem mem_stripped {v : String} :
    (key, v) ∈ stripped p vars ↔ key ≠ "" ∧ (p ++ key, v) ∈ vars := by
  simp [stripped, rest?_eq_some_iff, and_comm]

/-! ## Lookups -/

/-- The table of variables; of equal names the last one counts. -/
def table (vars : List (String × String)) : Entries :=
  .ofList (vars.map fun (k, v) => (k, .text v))

/-- The last variable of a name counts. -/
theorem find?_table_append_singleton (vars : List (String × String)) (name v key : String) :
    (table (vars ++ [(name, v)])).find? key =
      if key = name then some ⟨.text v, none⟩ else (table vars).find? key := by
  have htable : table (vars ++ [(name, v)]) = (table vars).insert name ⟨.text v, none⟩ := by
    rw [table, List.map_append, List.map_singleton, Entries.ofList_append_singleton, ← table]
  by_cases h : key = name
  · rw [htable, if_pos h, h, Entries.find?_insert_self]
  · rw [htable, if_neg h, Entries.find?_insert_of_ne h]

/-- **A lookup behind a prefix is a lookup in the stripped variables.** -/
theorem find?_stripped (p : String) (vars : List (String × String)) (hkey : key ≠ "") :
    (table vars).find? (p ++ key) = (table (stripped p vars)).find? key := by
  induction vars using List.reverseRecOn with
  | nil => rfl
  | append_singleton vars kv ih =>
      obtain ⟨name, v⟩ := kv
      rw [find?_table_append_singleton, ih]
      cases hrest : rest? p name with
      | none =>
          have hne : p ++ key ≠ name := by
            rintro rfl
            simp [rest?_eq_some_iff.mpr ⟨hkey, rfl⟩] at hrest
          have hstripped : stripped p (vars ++ [(name, v)]) = stripped p vars := by
            simp [stripped, hrest]
          rw [if_neg hne, hstripped]
      | some r =>
          have hname : p ++ key = name ↔ key = r := by
            rw [(rest?_eq_some_iff.mp hrest).2]
            simp
          have hstripped : stripped p (vars ++ [(name, v)]) = stripped p vars ++ [(r, v)] := by
            simp [stripped, hrest]
          simp only [hstripped, find?_table_append_singleton, hname]

/-- Any key but the empty one has the same value behind the prefix as among the stripped variables. -/
theorem get_stripped (name p : String) (vars : List (String × String)) (hkey : key ≠ "") :
    (ofVariables name (some p) vars).get key =
      (ofVariables name none (stripped p vars)).get key := by
  have hget (pre : Option String) (vars : List (String × String)) :
      (ofVariables name pre vars).get key =
        .ok (((table vars).find? (fullKey pre key)).map (·.value)) := rfl
  rw [hget, hget, fullKey, fullKey, Option.getD_some, Option.getD_none, String.empty_append,
    find?_stripped p vars hkey]

/-! ## Listings -/

/-- The table has the names of the variables. -/
theorem mem_keys_table : key ∈ (table vars).keys ↔ ∃ v, (key, v) ∈ vars := by
  simp [table, Entries.mem_keys_ofList]

/-- **A listing behind a prefix is the listing of the stripped variables**, in the same order. -/
theorem keys_stripped (name p : String) (vars : List (String × String)) :
    (ofVariables name (some p) vars).keys = (ofVariables name none (stripped p vars)).keys := by
  have hascending := (Provider.Stored.snapshot name (some p) vars).listing.ascending
  refine List.Pairwise.eq_of_mem_iff hascending (Entries.ascending_ofList _) fun key => ?_
  -- Both list what follows the prefix in a name, and that is not empty.
  calc
    key ∈ (table vars).keys.filterMap (rest? p) ↔ key ≠ "" ∧ p ++ key ∈ (table vars).keys := by
      simp [rest?_eq_some_iff, and_comm]
    _ ↔ key ∈ (table (stripped p vars)).keys := by
      simp only [mem_keys_table, mem_stripped, exists_and_left]

/-- What is listed has a value, the empty key too. -/
theorem has_of_listed {pre : Option String} (h : key ∈ (ofVariables name pre vars).keys) :
    (ofVariables name pre vars).Has key := by
  rw [Provider.has_snapshot_iff]
  cases pre with
  | none =>
      rw [fullKey, Option.getD_none, String.empty_append]
      exact h
  | some p =>
      obtain ⟨full, hfull, hrest⟩ := List.mem_filterMap.mp h
      obtain ⟨-, rfl⟩ := rest?_eq_some_iff.mp hrest
      exact hfull

/-- What is not listed has no value, but for the empty key. -/
theorem get_of_not_listed {pre : Option String} (hkey : key ≠ "")
    (h : key ∉ (ofVariables name pre vars).keys) :
    (ofVariables name pre vars).get key = .ok none := by
  have hlisting := (Provider.Stored.snapshot name pre vars).listing
  rw [hlisting.mem_keys_iff key hkey] at h
  obtain ⟨found, hfound⟩ := hlisting.answers key
  cases found with
  | none => exact hfound
  | some v => exact absurd ⟨v, hfound⟩ h

end Environment

/-! ## Sources -/

/-- **No built-in mapper makes a source try the empty key**, since that stands for no name. -/
theorem Source.key_ne_empty {s : Source} {n : Name} (hm : s.mapper.mapper.BuiltIn) {c : Candidate}
    (hc : c ∈ s.tried n) : c.key ≠ "" := by
  intro hempty
  rcases mem_tried hm hc with ⟨key, rfl, hstands⟩ | ⟨-, hlist⟩
  · rw [show key = "" from hempty, hm.standsFor_empty] at hstands
    contradiction
  · obtain ⟨parent, i, -, -, rfl⟩ := Mapping.listCandidate?_eq_some_iff.mp hlist
    simp [Mapping.listMarker] at hempty

/-- Providers that give the same for all keys but the empty one. -/
structure Provider.Interchangeable (p q : Provider) : Prop where
  name : p.name = q.name
  capability : p.capability = q.capability
  keys : p.keys = q.keys
  get : ∀ key ≠ "", p.get key = q.get key
  origin : ∀ key ≠ "", p.origin key = q.origin key

namespace Provider.Interchangeable

open Source

variable {p q : Provider} {m : Mapper} (h : p.Interchangeable q)
include h

theorem newIndex_eq (m : Mapper) : (plain p m).newIndex = (plain q m).newIndex := by
  rw [newIndex, newIndex, plain, plain, h.keys]

/-- Candidates lead to the same property behind interchangeable providers if no key is empty. -/
theorem tries_eq {n : Name} {cs : List Candidate} (hcs : ∀ c ∈ cs, c.key ≠ "") :
    (plain p m).tries n cs = (plain q m).tries n cs := by
  induction cs with
  | nil => rfl
  | cons c cs ih =>
      have ⟨hc, hrest⟩ := List.forall_mem_cons.mp hcs
      have hget : (plain p m).provider.get c.key = (plain q m).provider.get c.key := h.get _ hc
      have horigin : (plain p m).originOf c.key = (plain q m).originOf c.key := by
        simp only [originOf, plain, h.origin _ hc, h.name]
      rw [tries, tries, ih hrest, hget, horigin]

/-- **Sources over interchangeable providers reply alike.** -/
theorem reply_eq (hm : m.BuiltIn) (n : Name) : (plain p m).reply n = (plain q m).reply n := by
  have htried : (plain p m).tried n = (plain q m).tried n := by
    rw [tried, tried, h.newIndex_eq]
    simp only [plain, h.capability]
  have hne : ∀ c ∈ (plain p m).tried n, c.key ≠ "" := fun _ hc => key_ne_empty hm hc
  rw [reply_eq_tries, reply_eq_tries, ← htried, h.tries_eq hne]

/-- Sources of interchangeable providers contain the same names. -/
theorem containment_eq (m : Mapper) (n : Name) :
    (plain p m).containment n = (plain q m).containment n := by
  rw [containment, containment, h.newIndex_eq]
  simp only [plain, h.capability]

theorem ownNames_eq (m : Mapper) : (plain p m).ownNames = (plain q m).ownNames := by
  rw [ownNames, ownNames, h.newIndex_eq]
  simp only [plain, h.capability]

end Provider.Interchangeable

namespace Environment

/-- A prefix makes no difference but at the empty key, which it may have a value for. -/
theorem interchangeable_stripped (name p : String) (vars : List (String × String)) :
    (ofVariables name (some p) vars).Interchangeable (ofVariables name none (stripped p vars)) where
  name := rfl
  capability := rfl
  keys := keys_stripped name p vars
  get := fun _ hkey => get_stripped name p vars hkey
  origin := fun _ _ => rfl

/-- **Variables behind a prefix are the stripped variables.**  A provider over the variables with the
prefix lists the same keys, in the same order, as one over the variables whose names are the prefix and
something after it, under what comes after it.  Such providers have values for all keys that they list
and, but for the empty key, for no others.  Sources that are created over the two and seen through the
same built-in mapper, with a cache or without, have the same property with the same origin for each
name, say the same about the names below it, and enumerate the same names. -/
theorem prefixed_eq_stripped (name p : String) (vars : List (String × String)) (m : Mapper)
    (hm : m.BuiltIn) :
    (ofVariables name (some p) vars).keys = (ofVariables name none (stripped p vars)).keys ∧
    (∀ pre vars key,
      (key ∈ (ofVariables name pre vars).keys →
        ∃ v, (ofVariables name pre vars).get key = .ok (some v)) ∧
      (key ≠ "" → key ∉ (ofVariables name pre vars).keys →
        (ofVariables name pre vars).get key = .ok none)) ∧
    ∀ (s t : Source) (σ τ : Session), s.CopyOf (.plain (ofVariables name (some p) vars) m) →
      t.CopyOf (.plain (ofVariables name none (stripped p vars)) m) →
      σ.Faithful s → σ.Trusts s.mapper → τ.Faithful t → τ.Trusts t.mapper → ∀ n,
      (s.get n σ).1 = (t.get n τ).1 ∧
      (s.containsDescendantOf n σ).1 = (t.containsDescendantOf n τ).1 ∧
      (s.propertyNames σ).1 = (t.propertyNames τ).1 := by
  have halike := interchangeable_stripped name p vars
  refine ⟨halike.keys, fun pre vars key => ⟨has_of_listed, get_of_not_listed⟩, ?_⟩
  intro s t σ τ hs ht hσ hlists hτ hlists' n
  have hsm : s.mapper.mapper.BuiltIn := hs.mapper ▸ hm
  have htm : t.mapper.mapper.BuiltIn := ht.mapper ▸ hm
  refine ⟨?_, ?_, ?_⟩
  · rw [Source.get_eq_reply hsm hσ hlists, Source.get_eq_reply htm hτ hlists', hs.reply_eq,
      ht.reply_eq, halike.reply_eq hm]
  · rw [Source.containsDescendantOf_eq hσ, Source.containsDescendantOf_eq hτ, hs.containment_eq,
      ht.containment_eq, halike.containment_eq]
  · rw [Source.propertyNames_eq hσ, Source.propertyNames_eq hτ, hs.ownNames_eq, ht.ownNames_eq,
      halike.ownNames_eq]

/-- Two values of `APP_MAIL_SENDER`, a variable without the prefix `APP_`, and the prefix alone. -/
def appVariables : List (String × String) :=
  [("APP_MAIL_SENDER", "1"), ("MAIL_SENDER", "2"), ("APP_", "3"), ("APP_MAIL_SENDER", "4")]

/-- A source over the given variables. -/
def appSource (pre : Option String) (vars : List (String × String)) : Source :=
  (Source.create (ofVariables sourceName pre vars) ⟨Mapping.environment true, none⟩ .start).1

/-- The name `mail.sender`. -/
def mailSender : Name :=
  ⟨[.literal ⟨"mail", by simp [isReserved], by simp [isSeparator]⟩,
    .literal ⟨"sender", by simp [isReserved], by simp [isSeparator]⟩], List.cons_ne_nil _ _⟩

/-- Behind the prefix, the last of two variables of one name answers, as it does without the prefix. -/
theorem prefixed_eq_stripped_appVariables :
    stripped "APP_" appVariables = [("MAIL_SENDER", "1"), ("MAIL_SENDER", "4")] ∧
      ((appSource (some "APP_") appVariables).get mailSender .start).1 =
        ((appSource none (stripped "APP_" appVariables)).get mailSender .start).1 ∧
      ((appSource (some "APP_") appVariables).get mailSender .start).1 =
        .ok (some ⟨mailSender, .text "4", ⟨"systemEnvironment", "MAIL_SENDER", none⟩⟩) := by
  have hstripped : stripped "APP_" appVariables = [("MAIL_SENDER", "1"), ("MAIL_SENDER", "4")] := by
    decide +kernel
  have hanswer : ((appSource (some "APP_") appVariables).get mailSender .start).1 =
      .ok (some ⟨mailSender, .text "4", ⟨"systemEnvironment", "MAIL_SENDER", none⟩⟩) := rfl
  have ⟨_, _, halike⟩ := prefixed_eq_stripped sourceName "APP_" appVariables
    (Mapping.environment true) (.environment true)
  have ⟨hget, _, _⟩ := halike (appSource _ _) (appSource _ _) .start .start
    (Source.copyOf_plain _ _ _) (Source.copyOf_plain _ _ _) (Session.faithful_start _)
    (Session.trusts_start _) (Session.faithful_start _) (Session.trusts_start _) mailSender
  exact ⟨hstripped, hget, hanswer⟩

end Environment

end LayeredConfig
