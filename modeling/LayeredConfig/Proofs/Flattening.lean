import LayeredConfig.Proofs.Grammar
import LayeredConfig.Proofs.Leaves
import LayeredConfig.Proofs.Replies

/-!
# LayeredConfig.Proofs.Flattening

What a flattened configuration file answers.

1. The steps of a way are the parts of a written name: a field is a literal, an item an index
   (`Step.Means`).  A raw key is a name exactly if its way is one, but for one thing: an empty field at
   the top leaves no trace before an index (`Step.parse_rawKey_iff`).
2. So a way whose fields are all more than separators is a name, and its raw key is parsed as this
   name (`Step.exists_parse_rawKey`).
3. A dotted source finds a leaf under every spelling of its name, if no other raw key stands for the
   name (`ConfigFile.get_eq`, `ConfigFile.flattening_spec`).
4. The exception is no mere form: below an empty field an item may stand in the place of another leaf
   (`ConfigFile.get_shadowedFile`).
-/

namespace LayeredConfig

namespace Step

open Grammar

/-! ## Steps and the parts of names -/

/-- The element that a step is: a field a literal of the same text, an item an index of the same
value. -/
inductive Means : Step → Element → Prop where
  | field {name : String} {l : Literal} (h : l.text = name) : Means (.field name) (.literal l)
  | item {i : Nat} {j : UInt64} (h : j.toNat = i) : Means (.item i) (.index j)

/-- The part of a written name that a step is written as. -/
def part : Step → Part
  | .field name => .literal name.toList
  | .item i => .index (Decimal.digits i)

/-- What is written for a step stands for the elements that the step means. -/
theorem means_part_iff {x : Step} {e : Element} : (part x).Means e ↔ Means x e := by
  constructor
  · intro h
    cases x with
    | field name => cases h with | literal h => exact .field (String.toList_inj.mp h)
    | item i => cases h with | index h => exact .item (h.trans (Decimal.value_digits i))
  · intro h
    cases h with
    | field h => exact .literal (h ▸ rfl)
    | item h => exact .index (h.trans (Decimal.value_digits _).symm)

/-- The way that a raw key is read as: an empty field leaves nothing before an index. -/
def named : List Step → List Step
  | .field name :: .item i :: p =>
    if name = "" then .item i :: p else .field name :: .item i :: p
  | p => p

theorem named_of_ne_empty {name : String} (h : name ≠ "") (p : List Step) :
    named (.field name :: p) = .field name :: p := by
  match p with
  | [] | .field _ :: _ => rfl
  | .item i :: p => rw [named, if_neg h]

/-- A field that means an element has a name that is a literal. -/
theorem isLiteral_of_means {name : String} {e : Element} (h : Means (.field name) e) :
    IsLiteral name.toList := by
  cases h with
  | field h => exact h ▸ isLiteral_text _

/-- The digits of a position that fits into 64 bits are an index. -/
theorem isIndex_digits {i : Nat} (h : i < UInt64.size) : IsIndex (Decimal.digits i) where
  ne_nil := Decimal.digits_ne_nil i
  isDigit := fun _ => Decimal.isDigit_of_mem_digits
  value_lt := (Decimal.value_digits i).symm ▸ h

/-- A position that means an element is written as an index. -/
theorem isIndex_of_means {i : Nat} {e : Element} (h : Means (.item i) e) :
    IsIndex (Decimal.digits i) := by
  cases h with
  | @item _ j h => exact isIndex_digits (h ▸ j.toNat_lt)

theorem chars_item_append (i : Nat) (cs : List Char) :
    chars (.item i) ++ cs = '[' :: (Decimal.digits i ++ ']' :: cs) := by
  simp [chars]

/-- Steps that are elements continue a name. -/
theorem continues_pathChars {p : List Step} {es : List Element} (h : List.Forall₂ Means p es) :
    Continues (p.map part) (pathChars p) := by
  induction h with
  | nil => exact .done
  | @cons x e p es hx _ ih =>
      rw [pathChars_cons, List.map_cons]
      cases x with
      | field name => exact .literal (isLiteral_of_means hx) ih
      | item i => exact chars_item_append i _ ▸ .index (isIndex_of_means hx) ih

/-- The parts that continue a name along a way are its steps. -/
theorem parts_of_continues {p : List Step} {ps : List Part} (hp : PlainWay p)
    (h : Continues ps (pathChars p)) : ps = p.map part := by
  induction p generalizing ps with
  | nil =>
      generalize hcs : pathChars [] = cs at h
      cases h with
      | done => rfl
      | literal | index => exact nomatch hcs
  | cons x p ih =>
      rw [pathChars_cons] at h
      rw [List.map_cons]
      -- In either case the step and the part are read off the same front, up to the same end.
      cases x with
      | field name =>
          generalize hcs : chars (.field name) ++ pathChars p = cs at h
          cases h with
          | done => exact nomatch hcs
          | index => exact nomatch (List.cons.inj hcs).1
          | @literal l cs ps hl rest =>
              obtain ⟨hname, htail⟩ := field_append_inj (hp name List.mem_cons_self)
                hl.isReserved_eq_false (follows_pathChars p) rest.follows (List.cons.inj hcs).2
              have hps : ps = p.map part := ih hp.tail (htail ▸ rest)
              rw [hps, part, hname]
      | item i =>
          rw [chars_item_append] at h
          generalize hcs : '[' :: (Decimal.digits i ++ ']' :: pathChars p) = cs at h
          cases h with
          | done => exact nomatch hcs
          | literal => exact nomatch (List.cons.inj hcs).1
          | @index ds cs ps hd rest =>
              obtain ⟨hdigits, htail⟩ := append_inj_of_ends (p := Char.isDigit)
                (fun _ => Decimal.isDigit_of_mem_digits) hd.isDigit (by simp) (by simp)
                (List.cons.inj hcs).2
              have hps : ps = p.map part := ih hp.tail ((List.cons.inj htail).2 ▸ rest)
              rw [hps, part, hdigits]

/-- The raw key of a way is the name of its first field, with the text of the rest. -/
theorem toList_rawKey (name : String) (p : List Step) :
    (rawKey (.field name :: p)).toList = name.toList ++ pathChars p := by
  rw [rawKey, keyAfter, String.toList_ofList]

/-- A way that is a name is derived from its raw key. -/
theorem derives_rawKey {name : String} {p : List Step} {es : List Element}
    (h : List.Forall₂ Means (named (.field name :: p)) es) :
    Derives ((named (.field name :: p)).map part) (rawKey (.field name :: p)).toList := by
  have hplain (h : List.Forall₂ Means (.field name :: p) es) :
      Derives (((.field name : Step) :: p).map part) (name.toList ++ pathChars p) := by
    cases h with
    | cons hname hrest => exact .literal (isLiteral_of_means hname) (continues_pathChars hrest)
  rw [toList_rawKey]
  match p with
  | [] | .field _ :: _ => exact hplain h
  | .item i :: p =>
    rw [named] at h ⊢
    split at h
    · next hname =>
      cases h with
      | cons hi hrest =>
        rw [if_pos hname, hname, pathChars_cons, chars_item_append]
        exact .index (isIndex_of_means hi) (continues_pathChars hrest)
    · next hname =>
      rw [if_neg hname]
      exact hplain h

/-- What is derived from a raw key is its way, without an empty field before an index. -/
theorem parts_of_derives {name : String} {p : List Step} {ps : List Part}
    (hp : PlainWay (.field name :: p)) (h : Derives ps (rawKey (.field name :: p)).toList) :
    ps = (named (.field name :: p)).map part := by
  have hname := hp name List.mem_cons_self
  rw [toList_rawKey] at h
  generalize hcs : name.toList ++ pathChars p = cs at h
  cases h with
  | literal hl rest =>
      obtain ⟨htext, htail⟩ := field_append_inj hname hl.isReserved_eq_false (follows_pathChars p)
        rest.follows hcs
      have hparts := parts_of_continues hp.tail (htail ▸ rest)
      have hne : name ≠ "" := by
        rintro rfl
        exact hl.ne_nil htext.symm
      rw [named_of_ne_empty hne, hparts, ← htext]
      rfl
  | @index ds cs ps hd rest =>
      -- The bracket cannot stand in a field, so the field is empty.
      have hempty : name.toList = [] := by
        cases hlist : name.toList with
        | nil => rfl
        | cons c l =>
            rw [hlist] at hcs hname
            have hc := hname c List.mem_cons_self
            rw [(List.cons.inj hcs).1] at hc
            exact absurd hc (by decide)
      rw [hempty, List.nil_append] at hcs
      have hcontinues : Continues (.index ds :: ps) (pathChars p) := hcs ▸ .index hd rest
      have hparts := parts_of_continues hp.tail hcontinues
      match p with
      | .item i :: p => rw [named, if_pos (String.toList_eq_nil_iff.mp hempty), hparts]
      | [] => exact nomatch hparts
      | .field _ :: _ => exact nomatch hparts

/-- **A raw key is a name exactly if its way is**, an empty field before an index left out. -/
theorem parse_rawKey_iff {name : String} {p : List Step} {n : Name}
    (hp : PlainWay (.field name :: p)) :
    Name.parse (rawKey (.field name :: p)) = .ok n ↔
      List.Forall₂ Means (named (.field name :: p)) n.elements := by
  have hmap (p : List Step) (es : List Element) :
      List.Forall₂ Part.Means (p.map part) es ↔ List.Forall₂ Means p es := by
    rw [List.forall₂_map_left_iff]
    simp only [means_part_iff]
  rw [Name.parse_eq_ok_iff]
  constructor
  · rintro ⟨-, hread⟩
    obtain ⟨ps, hps, hmeans, -⟩ := derives_of_readElements hread
    rw [parts_of_derives hp hps] at hmeans
    exact (hmap _ _).mp hmeans
  · intro h
    have hderives := derives_rawKey h
    obtain ⟨es, hes, hread⟩ := hderives.readElements_eq
    have hsame : es = n.elements := Part.rightUnique_means.forall₂ hes ((hmap _ _).mpr h)
    exact ⟨fun htext => hderives.ne_nil (by rw [htext]; rfl), hsame ▸ hread⟩

/-- Steps that are elements one by one are elements together. -/
theorem exists_elements {p : List Step} (h : ∀ x ∈ p, ∃ e, Means x e) :
    ∃ es, List.Forall₂ Means p es := by
  induction p with
  | nil => exact ⟨[], .nil⟩
  | cons x p ih =>
      obtain ⟨⟨e, he⟩, hp⟩ := List.forall_mem_cons.mp h
      obtain ⟨es, hes⟩ := ih hp
      exact ⟨e :: es, .cons he hes⟩

/-- **The raw key of a way over fields that are more than separators is parsed as this way.** -/
theorem exists_parse_rawKey {name : String} {p : List Step} (hp : PlainWay (.field name :: p))
    (hfields : ∀ k, .field k ∈ Step.field name :: p → ∃ c ∈ k.toList, c ≠ '-' ∧ c ≠ '_')
    (hitems : ∀ i, .item i ∈ Step.field name :: p → i < UInt64.size) :
    ∃ n, Name.parse (rawKey (.field name :: p)) = .ok n ∧
      List.Forall₂ Means (.field name :: p) n.elements := by
  have helement (x : Step) (hx : x ∈ Step.field name :: p) : ∃ e, Means x e := by
    cases x with
    | field k =>
        obtain ⟨c, hc, hsub⟩ := hfields k hx
        exact ⟨.literal ⟨k, hp k hx, c, hc, by simpa [isSeparator] using hsub⟩, .field rfl⟩
    | item i => exact ⟨.index (.ofNat i), .item (UInt64.toNat_ofNat_of_lt' (hitems i hx))⟩
  have hname : name ≠ "" := by
    rintro rfl
    obtain ⟨c, hc, -⟩ := hfields "" List.mem_cons_self
    exact nomatch hc
  obtain ⟨es, hes⟩ := exists_elements helement
  have hne : es ≠ [] := by
    rintro rfl
    cases hes
  exact ⟨⟨es, hne⟩, (parse_rawKey_iff hp).mpr ((named_of_ne_empty hname p).symm ▸ hes), hes⟩

end Step

/-! ## Answers -/

/-- A dotted raw key stands for the name that it is parsed as. -/
theorem Mapping.nameOf_dotted_eq_ok_iff {key : String} {n : Name} :
    dotted.nameOf key = .ok n ↔ Name.parse key = .ok n := by
  rw [show dotted.nameOf key = (Name.parse key).mapError _ from rfl]
  cases Name.parse key <;> simp [Except.mapError]

/-- **What the answering key has is found.** -/
theorem Source.get_eq_of_answersBy {s : Source} {a : Name} {key : String} {v : Value} {σ : Session}
    (hm : s.mapper.mapper = Mapping.dotted) (hp : s.provider.Listing)
    (hcap : s.capability = .enumerable) (hσ : σ.Faithful s) (hlists : σ.Trusts s.mapper)
    (hkey : s.AnswersBy a key) (hv : s.provider.get key = .ok (some v)) :
    (s.get a σ).1 = .ok (some ⟨a, v, s.originOf key⟩) := by
  have hlisted : s.mapper.mapper.listed a = (s.mapper.mapper.keysFor a).map (.plain · a) := by
    rw [hm, Mapping.keysFor_dotted]
    rfl
  obtain ⟨found, hfound, hspec⟩ := s.first_spec a hp.answers (s.searched a)
  rw [get_eq_reply (hm ▸ .dotted) hσ hlists, reply, hlisted, answer_of_direct, hfound,
    (hspec _).mpr ⟨key, v, (firstIn_searched_iff (.inl hm) hp hcap).mpr hkey, hv, rfl⟩]

namespace ConfigFile

open Document Step

/-- A source of the entries of a file with dotted keys, in a session that knows it. -/
structure SeenThrough (f : ConfigFile) (s : Source) (σ : Session) : Prop where
  provider : s.provider = f.provider
  dotted : s.mapper.mapper = Mapping.dotted
  enumerable : s.capability = .enumerable
  index : σ.Faithful s
  lists : σ.Trusts s.mapper

variable {path : String} {fields : List (String × Document)} {p : List Step} {v : Scalar}
  {n a : Name} {s : Source} {σ : Session}

/-- A file that is seen through a source lists its keys. -/
theorem SeenThrough.listing (hs : (ofFields path fields).SeenThrough s σ) : s.provider.Listing := by
  rw [hs.provider]
  exact (Provider.Stored.entries _ (Entries.ascending_ofList _)).listing

/-- The value under a raw key is that of the leaf that it leads to. -/
theorem SeenThrough.get_rawKey (hs : (ofFields path fields).SeenThrough s σ)
    (h : (table fields).Keyed) (hp : (table fields).at? p = some (.scalar v)) :
    s.provider.get (rawKey p) = .ok (some v.value) ∧
      s.originOf (rawKey p) = ⟨s.name, rawKey p, none⟩ := by
  have hfind := (find?_eq_some_iff h path).mpr ⟨p, v, hp, rfl, rfl⟩
  rw [Source.originOf, hs.provider, ConfigFile.provider, Entries.provider]
  simp [hfind]

/-- Raw keys that have values lead to leaves. -/
theorem SeenThrough.exists_leaf (hs : (ofFields path fields).SeenThrough s σ)
    (h : (table fields).Keyed) {key : String} (has : s.provider.Has key) :
    ∃ q t, (table fields).at? q = some (.scalar t) ∧ key = rawKey q := by
  obtain ⟨w, hw⟩ := has
  rw [hs.provider, ConfigFile.provider, Entries.provider, Except.ok.injEq,
    Option.map_eq_some_iff] at hw
  obtain ⟨e, he, -⟩ := hw
  obtain ⟨q, t, hq, hkey, -⟩ := (find?_eq_some_iff h path).mp he
  exact ⟨q, t, hq, hkey⟩

/-- **A leaf is found under every spelling of its name** if no other leaf's raw key is read as the
same name. -/
theorem get_eq (hs : (ofFields path fields).SeenThrough s σ) (h : (table fields).Keyed)
    (hp : (table fields).at? p = some (.scalar v)) (hn : Name.parse (rawKey p) = .ok n)
    (hothers : ∀ q t (m : Name), (table fields).at? q = some (.scalar t) → q ≠ p →
      List.Forall₂ Means (named q) m.elements → m.agrees n = false)
    (ha : a.agrees n = true) :
    (s.get a σ).1 = .ok (some ⟨a, v.value, ⟨s.name, rawKey p, none⟩⟩) := by
  obtain ⟨hget, horigin⟩ := hs.get_rawKey h hp
  have has : s.provider.Has (rawKey p) := ⟨v.value, hget⟩
  have hstands : s.mapper.mapper.standsFor a (rawKey p) = true := by
    rw [hs.dotted]
    exact Mapper.standsFor_iff.mpr
      ⟨n, Mapping.nameOf_dotted_eq_ok_iff.mpr hn, Name.agrees_symm ha⟩
  -- Any other key that stands for the name would be the raw key of another leaf.
  have honly {key : String} (hkey : s.provider.Has key)
      (hka : s.mapper.mapper.standsFor a key = true) : key = rawKey p := by
    obtain ⟨q, t, hq, rfl⟩ := hs.exists_leaf h hkey
    by_contra hne
    have hqp : q ≠ p := fun heq => hne (heq ▸ rfl)
    rw [hs.dotted] at hka
    obtain ⟨m, hm, hma⟩ := Mapper.standsFor_iff.mp hka
    have hplain := plainWay_of_at? h hq
    obtain ⟨name, q', rfl⟩ := exists_field_of_at? hq
    have hparse := Mapping.nameOf_dotted_eq_ok_iff.mp hm
    have hagrees := hothers _ t m hq hqp ((parse_rawKey_iff hplain).mp hparse)
    rw [Name.agrees_trans hma ha] at hagrees
    contradiction
  have hanswers : s.AnswersBy a (rawKey p) := by
    by_cases hcandidate : ∃ k ∈ s.mapper.mapper.keysFor a, s.provider.Has k
    · obtain ⟨key, hfirst⟩ := Provider.exists_firstIn_iff.mpr hcandidate
      obtain ⟨hmem, hkey⟩ := hfirst.mem_has
      have hdirect := Mapping.direct_of_eq (.inl hs.dotted)
      exact .candidate (honly hkey (hdirect.stands a key hmem) ▸ hfirst)
    · refine .least (fun k hk hhas => hcandidate ⟨k, hk, hhas⟩) has hstands fun k hk hka => ?_
      exact honly hk hka ▸ String.le_refl _
  rw [Source.get_eq_of_answersBy hs.dotted hs.listing hs.enumerable hs.index hs.lists hanswers hget,
    horigin]

/-- **Flattening loses no leaf and keeps every way.**  For a file whose content is a table in which no
table has a field twice and no field holds a character that structures names: its entries are as many
as the leaves, each leaf's value stands under the raw key of its way, and different ways have different
raw keys.  If every field on the way is more than separators, and every item on it has an index of 64
bits, as all have that fit into a memory, the raw key is parsed as the way, step by step; and if
besides the way of no other leaf is the same name, an empty field before an index left out, a dotted
source of the entries finds the leaf under every spelling of the name and says under which raw key it
stands. -/
theorem flattening_spec (path : String) {fields : List (String × Document)}
    (h : (table fields).Keyed) :
    (∀ (host : Host) content σ, host.tree.read? path = some content →
      Path.extension? path = some "toml" → host.parse content = some fields →
        (load host path σ).1 = .ok (ofFields path fields)) ∧
    (∀ p v, (p, v) ∈ (table fields).leaves ↔ (table fields).at? p = some (.scalar v)) ∧
    ((table fields).leaves.map (·.1)).Nodup ∧
    (ofFields path fields).entries.length = (table fields).leaves.length ∧
    (∀ p v, (table fields).at? p = some (.scalar v) →
      (ofFields path fields).entries.find? (rawKey p) = some ⟨v.value, none⟩) ∧
    (∀ p v q w, (table fields).at? p = some (.scalar v) → (table fields).at? q = some (.scalar w) →
      rawKey p = rawKey q → p = q) ∧
    ∀ p v, (table fields).at? p = some (.scalar v) →
      (∀ k, .field k ∈ p → ∃ c ∈ k.toList, c ≠ '-' ∧ c ≠ '_') →
      (∀ i, .item i ∈ p → i < UInt64.size) →
      ∃ n, Name.parse (rawKey p) = .ok n ∧ List.Forall₂ Means p n.elements ∧
        ∀ s σ, (ofFields path fields).SeenThrough s σ →
          (∀ q t (m : Name), (table fields).at? q = some (.scalar t) → q ≠ p →
            List.Forall₂ Means (named q) m.elements → m.agrees n = false) →
          ∀ a : Name, a.agrees n = true →
            (s.get a σ).1 = .ok (some ⟨a, v.value, ⟨s.name, rawKey p, none⟩⟩) := by
  refine ⟨fun tree content σ hread hext hfields => load_eq hread hext hfields σ,
    fun p v => mem_leaves h, nodup_leaves h, length_entries h path,
    fun p v hp => (find?_eq_some_iff h path).mpr ⟨p, v, hp, rfl, rfl⟩,
    fun p v q w hp hq => way_eq_of_rawKey_eq h hp hq, fun p v hp hfields hitems => ?_⟩
  have hplain := plainWay_of_at? h hp
  obtain ⟨name, q, rfl⟩ := exists_field_of_at? hp
  obtain ⟨n, hn, hmeans⟩ := exists_parse_rawKey hplain hfields hitems
  exact ⟨n, hn, hmeans, fun s σ hs hothers a ha => get_eq hs h hp hn hothers ha⟩

/-- A file with two fields and two items below `server`. -/
def serverFields : List (String × Document) :=
  [("server", .table [("context-path", .scalar (.text "/app")),
    ("ports", .array [.scalar (.integer 80), .scalar (.integer 81)])])]

def sourceOf (fields : List (String × Document)) : Source where
  id := 0
  name := "config:application.toml"
  capability := .enumerable
  provider := (ofFields "application.toml" fields).provider
  mapper := ⟨Mapping.dotted, none⟩
  derivedFrom := none

/-- A file is seen through the source that is made of it, right at the start. -/
theorem seenThrough_sourceOf (fields : List (String × Document)) :
    (ofFields "application.toml" fields).SeenThrough (sourceOf fields) .start where
  provider := rfl
  dotted := rfl
  enumerable := rfl
  index := Session.faithful_start _
  lists := fun _ hid => nomatch hid

/-- A table whose fields are checked one character after the other. -/
theorem keyed_table {fields : List (String × Document)} (once : (fields.map (·.1)).Nodup)
    (plain : fields.all (fun f => f.1.toList.all (!isReserved ·)) = true)
    (below : ∀ f ∈ fields, f.2.Keyed) : (table fields).Keyed := by
  refine .table once (fun f hf c hc => ?_) below
  simpa using List.all_eq_true.mp (List.all_eq_true.mp plain f hf) c hc

theorem keyed_serverFields : (table serverFields).Keyed := by
  refine keyed_table (by decide) (by decide +kernel) (List.forall_mem_singleton.mpr ?_)
  refine keyed_table (by decide) (by decide +kernel) (List.forall_mem_cons.mpr ⟨.scalar _, ?_⟩)
  refine List.forall_mem_singleton.mpr (.array (List.forall_mem_cons.mpr ⟨.scalar _, ?_⟩))
  exact List.forall_mem_singleton.mpr (.scalar _)

/-- The second port is found under its name and says where it stands. -/
theorem flattening_spec_serverFields :
    (table serverFields).Keyed ∧
      ∃ n, Name.parse "server.ports[1]" = .ok n ∧
        ((sourceOf serverFields).get n .start).1 =
          .ok (some ⟨n, .integer 81, ⟨"config:application.toml", "server.ports[1]", none⟩⟩) := by
  have hways : ∀ q ∈ (table serverFields).leaves.map (·.1),
      q ≠ [.field "server", .field "ports", .item 1] →
      ∀ m n, Name.parse (rawKey q) = .ok m → Name.parse "server.ports[1]" = .ok n →
        m.agrees n = false := by
    have hdecided : ∀ q ∈ (table serverFields).leaves.map (·.1),
        q ≠ [.field "server", .field "ports", .item 1] →
        ((Name.parse (rawKey q)).toOption.all fun m =>
          (Name.parse "server.ports[1]").toOption.all fun n => !m.agrees n) = true := by
      decide +kernel
    intro q hq hne m n hm hn
    simpa [hm, hn, Except.toOption] using hdecided q hq hne
  obtain ⟨-, hleaves, -, -, -, -, hnames⟩ :=
    flattening_spec "application.toml" keyed_serverFields
  obtain ⟨n, hn, -, hanswers⟩ := hnames [.field "server", .field "ports", .item 1] (.integer 81)
    rfl (by
      intro k hk
      simp only [List.mem_cons, Step.field.injEq, reduceCtorEq, List.not_mem_nil, or_false] at hk
      rcases hk with rfl | rfl
      · exact ⟨'s', by decide +kernel⟩
      · exact ⟨'p', by decide +kernel⟩) (by
      intro i hi
      simp only [List.mem_cons, Step.item.injEq, reduceCtorEq, List.not_mem_nil, or_false,
        false_or] at hi
      exact hi ▸ by decide)
  have hkey : rawKey [.field "server", .field "ports", .item 1] = "server.ports[1]" := by
    decide +kernel
  rw [hkey] at hn hanswers
  refine ⟨keyed_serverFields, n, hn, ?_⟩
  refine hanswers _ .start (seenThrough_sourceOf _) (fun q t m hq hne hm => ?_) n n.agrees_refl
  have hplain := plainWay_of_at? keyed_serverFields hq
  have hmem : q ∈ (table serverFields).leaves.map (·.1) :=
    List.mem_map.mpr ⟨_, (hleaves q t).mpr hq, rfl⟩
  obtain ⟨name, q', rfl⟩ := exists_field_of_at? hq
  exact hways _ hmem hne m n ((parse_rawKey_iff hplain).mpr hm) hn

/-- A file with an item below an empty field, beside a field that is a number. -/
def shadowedFields : List (String × Document) :=
  [("", .array [.scalar (.text "x")]), ("0", .scalar (.text "y"))]

/-- The name `0`. -/
def zeroName : Name :=
  ⟨[.literal ⟨"0", by simp [isReserved], by simp [isSeparator]⟩], List.cons_ne_nil _ _⟩

/-- The name `[0]`. -/
def firstName : Name := ⟨[.index 0], List.cons_ne_nil _ _⟩

theorem keyed_shadowedFields : (table shadowedFields).Keyed := by
  refine keyed_table (by decide) (by decide +kernel) (List.forall_mem_cons.mpr ⟨?_, ?_⟩)
  · exact .array (List.forall_mem_singleton.mpr (.scalar _))
  · exact List.forall_mem_singleton.mpr (.scalar _)

/-- **An item below an empty field may stand in the place of another leaf.**  The field is a name, and
the way of no other leaf is a name at all; yet the raw key of the item is `[0]`, and the source that is
asked for `[0]`, a spelling of `0`, finds the item. -/
theorem get_shadowedFile :
    (table shadowedFields).Keyed ∧
    (table shadowedFields).at? [.field "0"] = some (.scalar (.text "y")) ∧
    Name.parse (rawKey [.field "0"]) = .ok zeroName ∧
    List.Forall₂ Means [.field "0"] zeroName.elements ∧
    (∀ q t (m : Name), (table shadowedFields).at? q = some (.scalar t) → q ≠ [.field "0"] →
      ¬ List.Forall₂ Means q m.elements) ∧
    (ofFields "application.toml" shadowedFields).SeenThrough (sourceOf shadowedFields) .start ∧
    firstName.agrees zeroName = true ∧
    ((sourceOf shadowedFields).get firstName .start).1 =
      .ok (some ⟨firstName, .text "x", ⟨"config:application.toml", "[0]", none⟩⟩) ∧
    ¬ ∀ a : Name, a.agrees zeroName = true →
      ((sourceOf shadowedFields).get a .start).1 =
        .ok (some ⟨a, .text "y", ⟨"config:application.toml", rawKey [.field "0"], none⟩⟩) := by
  have hkeyed := keyed_shadowedFields
  have hseen := seenThrough_sourceOf shadowedFields
  have hagrees : firstName.agrees zeroName = true := by decide +kernel
  have hmeans : List.Forall₂ Means [.field "0"] zeroName.elements := .cons (.field rfl) .nil
  have hitem : (table shadowedFields).at? [.field "", .item 0] = some (.scalar (.text "x")) := rfl
  obtain ⟨hget, horigin⟩ := hseen.get_rawKey hkeyed hitem
  have hkey : rawKey [.field "", .item 0] = "[0]" := by decide +kernel
  rw [hkey] at hget horigin
  have hkeys : (sourceOf shadowedFields).mapper.mapper.keysFor firstName = ["[0]", "0"] := by
    rw [hseen.dotted, Mapping.keysFor_dotted]
    decide +kernel
  have hanswers : (sourceOf shadowedFields).AnswersBy firstName "[0]" :=
    .candidate (hkeys ▸ .here ⟨_, hget⟩)
  have hfound := Source.get_eq_of_answersBy hseen.dotted hseen.listing hseen.enumerable hseen.index
    hseen.lists hanswers hget
  rw [horigin] at hfound
  refine ⟨hkeyed, rfl, ?_, hmeans, fun q t m hq hne hm => ?_, hseen, hagrees, hfound,
    fun hall => ?_⟩
  · exact (parse_rawKey_iff (plainWay_of_at? hkeyed (s := .text "y") rfl)).mpr hmeans
  · have hmem : q ∈ (table shadowedFields).leaves.map (·.1) :=
      List.mem_map.mpr ⟨_, (mem_leaves hkeyed).mpr hq, rfl⟩
    have hq : q = [.field "", .item 0] := by
      have hways : ∀ q ∈ (table shadowedFields).leaves.map (·.1), q ≠ [.field "0"] →
          q = [.field "", .item 0] := by decide +kernel
      exact hways q hmem hne
    subst hq
    generalize m.elements = es at hm
    cases hm with
    | cons hempty _ => exact (isLiteral_of_means hempty).ne_nil rfl
  · have hother := hall firstName hagrees
    rw [hfound] at hother
    simp [Scalar.value] at hother

end ConfigFile

end LayeredConfig
