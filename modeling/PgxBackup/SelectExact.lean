import PgxBackup.SelectRemove

/-!
# The expression of a selective restore

Each alternative of the expression begins a name. For a number it is what the
files of the database begin with, except that the dot in the path of the version
stands for any character. A plus sign in front of the number repeats the slash.

A restore that is accepted zeroes the databases to zero that no entry has
taken. A file below a database is matched for this database, or for the same
number with a plus sign, and for no other one.
-/

namespace PgxBackup

open List Pattern

variable {manifest : Manifest} {dbExclude dbInclude : List Str}

/-! ## Names that begin with a word -/

variable {s id id' : Str} {zero taken : List Str}

theorem regExpMatch_iff {expression : Pattern Char} :
    regExpMatch expression s = true ↔ ∃ w, Spells expression w ∧ w <+: s := by
  unfold regExpMatch
  rw [Bool.not_eq_true', isEmpty_eq_false_iff_exists_mem]
  constructor
  · rintro ⟨t, ht⟩
    obtain ⟨w, hw, rfl⟩ := mem_rest.mp ht
    exact ⟨w, hw, t, rfl⟩
  · rintro ⟨w, hw, t, rfl⟩
    exact ⟨t, mem_rest.mpr ⟨w, hw, rfl⟩⟩

theorem spells_strExp {w : Str} : Spells (strExp s) w ↔ Alike s w := by
  induction s generalizing w with
  | nil =>
    show w = [] ↔ _
    unfold Alike
    rw [forall₂_nil_left_iff]
  | cons c s ih =>
    show Spells (ones ((fun d => c == '.' || d == c) :: s.map (fun c d => c == '.' || d == c))) w ↔ _
    unfold Alike
    rw [spells_ones_cons, forall₂_cons_left_iff]
    constructor
    · rintro ⟨d, t, hd, ht, rfl⟩
      exact ⟨d, t, by simpa using hd, ih.mp ht, rfl⟩
    · rintro ⟨d, t, hd, ht, rfl⟩
      exact ⟨d, t, by simpa using hd, ih.mpr ht, rfl⟩

/-- A string without a dot spells itself. -/
theorem alike_iff {w : Str} (hs : '.' ∉ s) : Alike s w ↔ w = s := by
  constructor
  · intro h
    induction h with
    | nil => rfl
    | cons hor _ ih =>
      rw [mem_cons, not_or] at hs
      rw [hor.resolve_left (Ne.symm hs.1), ih hs.2]
  · rintro rfl
    exact forall₂_same.mpr (fun c _ => .inr rfl)

theorem Alike.self (s : Str) : Alike s s := forall₂_same.mpr (fun _ _ => .inr rfl)

theorem spells_seqs_lit {s w : Str} {patterns : List (Pattern Char)} :
    Spells (seqs (lit s :: patterns)) w ↔ ∃ v, Spells (seqs patterns) v ∧ w = s ++ v := by
  rw [spells_seqs_cons]
  simp only [spells_lit]
  constructor
  · rintro ⟨u, v, rfl, hv, rfl⟩
    exact ⟨v, hv, rfl⟩
  · rintro ⟨v, hv, rfl⟩
    exact ⟨s, v, rfl, hv, rfl⟩

/-- The first component of a path that begins another one is the same. -/
theorem slash_cut {a b t : Str} (ha : '/' ∉ a) (hb : '/' ∉ b) (h : a ++ '/' :: s <+: b ++ '/' :: t) :
    a = b ∧ s <+: t := by
  induction a generalizing b with
  | nil =>
    cases b with
    | nil => exact ⟨rfl, (cons_prefix_cons.mp h).2⟩
    | cons d b =>
      rw [mem_cons, not_or] at hb
      exact absurd (cons_prefix_cons.mp h).1 hb.1
  | cons c a ih =>
    rw [mem_cons, not_or] at ha
    cases b with
    | nil => exact absurd (cons_prefix_cons.mp h).1.symm ha.1
    | cons d b =>
      rw [mem_cons, not_or] at hb
      obtain ⟨rfl, hrest⟩ := cons_prefix_cons.mp h
      obtain ⟨rfl, htail⟩ := ih ha.2 hb.2 hrest
      exact ⟨rfl, htail⟩

/-! ## The ids of databases -/

theorem not_mem_digits (hs : ∀ c ∈ s, c.isDigit = true) {c : Char} (hc : c.isDigit = false) :
    c ∉ s := fun hmem => absurd (hs c hmem) (by rw [hc]; exact Bool.false_ne_true)

/-- A number, in front of which there may be a plus sign. -/
def IsDbId (id : Str) : Prop :=
  ∃ digits : Str, (∀ c ∈ digits, c.isDigit = true) ∧ digits ≠ [] ∧ (id = digits ∨ id = '+' :: digits)

theorem isDbId_of_cvtZToUInt {n : ℕ} (h : cvtZToUInt id = .ok n) : IsDbId id := by
  have hvalue : ∃ m, strtoull 10 id = some m := by
    unfold cvtZToUInt cvtZToUIntBase cvtZToUnsigned at h
    cases hid : strtoull 10 id with
    | none =>
      rw [hid] at h
      cases h
    | some m => exact ⟨m, rfl⟩
  obtain ⟨m, hm⟩ := hvalue
  have ⟨hdigits, _⟩ := Option.filter_eq_some_iff.mp hm
  split at hdigits
  · have ⟨hne, hall⟩ := digitsValue_some hdigits
    exact ⟨_, hall, hne, .inr rfl⟩
  · have ⟨hne, hall⟩ := digitsValue_some hdigits
    exact ⟨_, hall, hne, .inl rfl⟩

theorem isDbId_dbIdStr (id : ℕ) : IsDbId (dbIdStr id) :=
  ⟨_, fun _ hc => Nat.isDigit_of_mem_toDigits (by decide) (by decide) hc, Nat.toDigits_ne_nil, .inl rfl⟩

theorem FoundDb.isDbId (hnumbered : ∀ name ∈ manifest.fileList.map ManifestFile.name,
      manifest.isDbFile name = true → ∃ n, cvtZToUInt (fileDbId name) = .ok n)
    (h : FoundDb manifest id) : IsDbId id := by
  rcases h with ⟨db, -, -, rfl⟩ | ⟨name, hname, hdb, rfl⟩
  · exact isDbId_dbIdStr _
  · obtain ⟨n, hn⟩ := hnumbered name hname hdb
    exact isDbId_of_cvtZToUInt hn

theorem IsDbId.slash (h : IsDbId id) : '/' ∉ id := by
  obtain ⟨digits, hdigits, -, rfl | rfl⟩ := h
  · exact not_mem_digits hdigits (by decide)
  · rw [mem_cons, not_or]
    exact ⟨by decide, not_mem_digits hdigits (by decide)⟩

/-! ## What is zeroed -/

/-- A name is matched by one of the alternatives for a database. -/
def ZeroMatch (manifest : Manifest) (id name : Str) : Prop :=
  ∃ expression ∈ zeroExp manifest id, regExpMatch expression name = true

theorem selectiveFileZeroed_iff {name : Str} :
    selectiveFileZeroed name (if zero = [] then none else some (zero.flatMap (zeroExp manifest))) = true ↔
      (∃ id ∈ zero, ZeroMatch manifest id name) ∧ ¬"/PG_VERSION".toList <:+ name := by
  unfold selectiveFileZeroed ZeroMatch
  by_cases hzero : zero = []
  · rw [if_pos hzero, hzero]
    simp [restoreFileZeroed]
  · rw [if_neg hzero]
    show (((zero.flatMap (zeroExp manifest)).any (fun expression => regExpMatch expression name) &&
      !"/PG_VERSION".toList.isSuffixOf name) = true) ↔ _
    rw [Bool.and_eq_true, any_eq_true, Bool.not_eq_true', ← Bool.not_eq_true, isSuffixOf_iff_suffix]
    refine and_congr_left (fun _ => ?_)
    simp only [mem_flatMap]
    constructor
    · rintro ⟨expression, ⟨id, hid, hmem⟩, hmatch⟩
      exact ⟨id, hid, expression, hmem, hmatch⟩
    · rintro ⟨id, hid, expression, hmem, hmatch⟩
      exact ⟨expression, ⟨id, hid, hmem⟩, hmatch⟩

theorem slashId_iff (hplus : '+' ∉ id) {w : Str} : SlashId id w ↔ w = '/' :: id := by
  unfold SlashId
  split
  · exact absurd mem_cons_self hplus
  · rfl

theorem spells_slashIdExp (hid : IsDbId id) {w : Str} : Spells (slashIdExp id) w ↔ SlashId id w := by
  obtain ⟨digits, hdigits, -, hor⟩ := hid
  have hdot : '.' ∉ digits := not_mem_digits hdigits (by decide)
  rcases hor with rfl | rfl
  · have hplus : '+' ∉ id := not_mem_digits hdigits (by decide)
    have hexp : slashIdExp id = seq (lit "/".toList) (strExp id) := by
      unfold slashIdExp
      split
      · exact absurd mem_cons_self hplus
      · rfl
    rw [hexp, slashId_iff hplus]
    show (∃ u v, Spells (lit "/".toList) u ∧ Spells (strExp id) v ∧ w = u ++ v) ↔ _
    simp only [spells_lit, spells_strExp, alike_iff hdot]
    constructor
    · rintro ⟨u, v, rfl, rfl, rfl⟩
      rfl
    · rintro rfl
      exact ⟨_, _, rfl, rfl, rfl⟩
  · show (∃ u v, (u ≠ [] ∧ ∀ c ∈ u, (c == '/') = true) ∧ Spells (strExp digits) v ∧ w = u ++ v) ↔
      ∃ slashes : Str, slashes ≠ [] ∧ (∀ c ∈ slashes, c = '/') ∧ w = slashes ++ digits
    simp only [spells_strExp, alike_iff hdot, beq_iff_eq, exists_eq_left, and_assoc, exists_and_left]

/-- **The files that the expression for a database matches** look like those
below it. -/
theorem zeroMatch_iff (h : SelectManifest manifest) {name : Str} (hid : IsDbId id) :
    ZeroMatch manifest id name ↔ LikeDb manifest id name := by
  have hend {w : Str} : Spells (seqs [slashIdExp id, lit "/".toList]) w ↔
      ∃ v, SlashId id v ∧ w = v ++ "/".toList := by
    rw [spells_seqs_cons]
    simp only [spells_slashIdExp hid, spells_seqs_lit]
    constructor
    · rintro ⟨u, v, hu, ⟨t, rfl, rfl⟩, rfl⟩
      exact ⟨u, hu, rfl⟩
    · rintro ⟨v, hv, rfl⟩
      exact ⟨v, _, hv, ⟨[], rfl, rfl⟩, rfl⟩
  have hbase : regExpMatch (seqs [lit "pg_data/base".toList, slashIdExp id, lit "/".toList]) name = true ↔
      ∃ w, SlashId id w ∧ "pg_data/base".toList ++ w ++ "/".toList <+: name := by
    rw [regExpMatch_iff]
    simp only [@spells_seqs_lit "pg_data/base".toList, hend]
    constructor
    · rintro ⟨w, ⟨v, ⟨u, hu, rfl⟩, rfl⟩, hname⟩
      exact ⟨u, hu, by simpa using hname⟩
    · rintro ⟨w, hw, hname⟩
      exact ⟨_, ⟨_, ⟨w, hw, rfl⟩, rfl⟩, by simpa using hname⟩
  have htarget (target : ManifestTarget) (hmem : target ∈ manifest.targetList) (hne : target.tablespaceId ≠ 0) :
      regExpMatch (seqs [strExp target.name, lit "/".toList, strExp manifest.tablespaceId, slashIdExp id,
        lit "/".toList]) name = true ↔ ∃ w, SlashId id w ∧ ∃ version, Alike manifest.tablespaceId version ∧
          target.name ++ "/".toList ++ version ++ w ++ "/".toList <+: name := by
    have hdot : '.' ∉ target.name := by
      obtain ⟨digits, hdigits, hname⟩ := h.targetName target hmem hne
      rw [hname, mem_append, not_or]
      exact ⟨by decide, not_mem_digits hdigits (by decide)⟩
    rw [regExpMatch_iff]
    simp only [@spells_seqs_cons Char (strExp _), @spells_seqs_lit "/".toList _ (_ :: _ :: _), spells_strExp,
      alike_iff hdot, hend]
    constructor
    · rintro ⟨w, ⟨u, v, rfl, ⟨t, ⟨version, e, halike, ⟨r, hr, rfl⟩, rfl⟩, rfl⟩, rfl⟩, hname⟩
      exact ⟨r, hr, version, halike, by simpa using hname⟩
    · rintro ⟨w, hw, version, halike, hname⟩
      exact ⟨_, ⟨_, _, rfl, ⟨_, ⟨version, _, halike, ⟨w, hw, rfl⟩, rfl⟩, rfl⟩, rfl⟩, by simpa using hname⟩
  unfold ZeroMatch zeroExp LikeDb
  rw [exists_mem_cons_iff, hbase]
  constructor
  · rintro (⟨w, hw, hname⟩ | ⟨expression, hmem, hmatch⟩)
    · exact ⟨w, hw, .inl hname⟩
    · obtain ⟨target, htarget', rfl⟩ := mem_map.mp hmem
      have ⟨hmemTarget, hne⟩ := mem_filter.mp htarget'
      have hne : target.tablespaceId ≠ 0 := of_decide_eq_true hne
      obtain ⟨w, hw, hversion⟩ := (htarget target hmemTarget hne).mp hmatch
      exact ⟨w, hw, .inr ⟨target, hmemTarget, hne, hversion⟩⟩
  · rintro ⟨w, hw, hname | ⟨target, hmemTarget, hne, hversion⟩⟩
    · exact .inl ⟨w, hw, hname⟩
    · refine .inr ⟨_, mem_map.mpr ⟨target, mem_filter.mpr ⟨hmemTarget, decide_eq_true hne⟩, rfl⟩, ?_⟩
      exact (htarget target hmemTarget hne).mpr ⟨w, hw, hversion⟩

/-! ## The database of a file -/

theorem BelowDb.likeDb {name : Str} (h : BelowDb manifest id name) {expId : Str}
    (hslash : SlashId expId ('/' :: id)) : LikeDb manifest expId name := by
  refine ⟨_, hslash, ?_⟩
  rcases h with hbase | ⟨target, hmem, hne, hname⟩
  · exact .inl (by simpa using hbase)
  · exact .inr ⟨target, hmem, hne, manifest.tablespaceId, .self _, by simpa using hname⟩

/-- **The id behind the slashes** is that of the database, but for a plus
sign. -/
theorem slashId_cut (hid : IsDbId id) (hid' : IsDbId id') {w t : Str} (hw : SlashId id' w)
    (h : w ++ "/".toList <+: '/' :: (id ++ '/' :: t)) : id' = id ∧ '+' ∉ id ∨ id' = '+' :: id := by
  obtain ⟨digits, hdigits, hne, hor⟩ := hid'
  have hcut (h : digits ++ '/' :: [] <+: id ++ '/' :: t) : digits = id :=
    (slash_cut (not_mem_digits hdigits (by decide)) hid.slash h).1
  rcases hor with rfl | rfl
  · have hplus : '+' ∉ id' := not_mem_digits hdigits (by decide)
    rw [(slashId_iff hplus).mp hw] at h
    obtain rfl := hcut (cons_prefix_cons.mp h).2
    exact .inl ⟨rfl, hplus⟩
  · obtain ⟨slashes, hslashes, hall, rfl⟩ := hw
    cases slashes with
    | nil => exact absurd rfl hslashes
    | cons c slashes =>
      have h := (cons_prefix_cons.mp h).2
      cases slashes with
      | nil => exact .inr (congrArg _ (hcut h))
      | cons c' slashes =>
        -- there is no second slash in front of an id
        obtain rfl : c' = '/' := hall c' (by simp)
        have hslash := hid.slash
        obtain ⟨digits', -, hne', heq | heq⟩ := hid
        · obtain ⟨d, rest, rfl⟩ := exists_cons_of_ne_nil hne'
          rw [heq] at h hslash
          rw [mem_cons, not_or] at hslash
          exact absurd (cons_prefix_cons.mp h).1 hslash.1
        · rw [heq] at h
          exact absurd (cons_prefix_cons.mp h).1 (by decide)

/-- **A file below a database looks like one below this one**, or below the same
number with a plus sign. -/
theorem BelowDb.like_cut (hm : SelectManifest manifest) (hid : IsDbId id) (hid' : IsDbId id') {name : Str}
    (hbelow : BelowDb manifest id name) (hlike : LikeDb manifest id' name) :
    id' = id ∧ '+' ∉ id ∨ id' = '+' :: id := by
  have hapart {target : ManifestTarget} (hmem : target ∈ manifest.targetList) (hne : target.tablespaceId ≠ 0)
      {base : Str} (hbegin : target.name <+: name) : ¬"pg_data/base".toList ++ base <+: name := by
    obtain ⟨digits, -, hname⟩ := hm.targetName target hmem hne
    rw [hname] at hbegin
    intro hbase
    rcases prefix_or_prefix_of_prefix ((prefix_append _ _).trans hbegin) ((prefix_append _ _).trans hbase) with h | h
    · exact absurd h (by decide)
    · exact absurd h (by decide)
  obtain ⟨w, hw, hlike⟩ := hlike
  rcases hbelow with ⟨t, rfl⟩ | ⟨target, hmem, hne, t, rfl⟩
  · rcases hlike with hbase | ⟨target, hmem, hne, version, -, hbegin⟩
    · have hsplit : "pg_data/base/".toList ++ id ++ "/".toList ++ t
          = "pg_data/base".toList ++ '/' :: (id ++ '/' :: t) := by simp
      rw [hsplit, append_assoc, prefix_append_right_inj] at hbase
      exact slashId_cut hid hid' hw hbase
    · rw [append_assoc, append_assoc, append_assoc] at hbegin
      exact absurd (by simp) (@hapart _ hmem hne ('/' :: (id ++ '/' :: t)) ((prefix_append _ _).trans hbegin))
  · rcases hlike with hbase | ⟨target', hmem', hne', version, halike, hbegin⟩
    · rw [append_assoc] at hbase
      refine absurd hbase (hapart hmem hne ?_)
      simp only [append_assoc]
      exact prefix_append _ _
    · obtain ⟨digits, hdigits, hname⟩ := hm.targetName target hmem hne
      obtain ⟨digits', hdigits', hname'⟩ := hm.targetName target' hmem' hne'
      rw [hname, hname'] at hbegin
      simp only [append_assoc] at hbegin
      rw [prefix_append_right_inj] at hbegin
      have hbegin : version ++ (w ++ "/".toList) <+: manifest.tablespaceId ++ '/' :: (id ++ '/' :: t) :=
        (slash_cut (not_mem_digits hdigits' (by decide)) (not_mem_digits hdigits (by decide)) hbegin).2
      -- the path of the version is as long
      have hlength := halike.length_eq
      have hversion := prefix_of_prefix_length_le ((prefix_append version _).trans hbegin)
        (prefix_append manifest.tablespaceId _) hlength.ge
      rw [hversion.eq_of_length hlength.symm, prefix_append_right_inj] at hbegin
      exact slashId_cut hid hid' hw hbegin

/-! ## When a selective restore is exact -/

theorem ZeroDb.found (h : ZeroDb manifest dbExclude dbInclude id) : FoundDb manifest id := by
  unfold ZeroDb at h
  split at h
  · obtain ⟨entry, -, hdes⟩ := h
    exact hdes.1
  · exact h.1

/-- What is included, and what is of the system and is not excluded, is not to be
zeroed. -/
theorem zeroDb_spared (id : Str) (h : ZeroDb manifest dbExclude dbInclude id) :
    (∀ entry ∈ dbInclude, ¬Designates manifest entry id) ∧
      (SystemDb manifest id → ∃ entry ∈ dbExclude, Designates manifest entry id) := by
  unfold ZeroDb at h
  split at h
  · rename_i hnil
    rw [hnil]
    exact ⟨fun entry hentry => absurd hentry not_mem_nil, fun _ => h⟩
  · exact h.2

/-- Without any entries nothing is zeroed. -/
theorem selectsExactly_nil : SelectsExactly manifest [] [] where
  error_iff := by
    refine ⟨?_, fun h => absurd rfl (h.1.elim id id)⟩
    rintro ⟨error, h⟩
    cases h
  zeroed_iff := by
    intro expression h name _
    cases h
    refine ⟨fun h => absurd h Bool.false_ne_true, ?_⟩
    rintro ⟨⟨id, ⟨entry, hentry, -⟩, -⟩, -⟩
    cases hentry
  spared := zeroDb_spared

section

variable (h : SelectManifest manifest) (hentry : dbExclude ≠ [] ∨ dbInclude ≠ [])
include h hentry

theorem selectsExactly_of_error (herror : SelectError manifest dbExclude dbInclude) :
    SelectsExactly manifest dbExclude dbInclude := by
  have hrefused (expression : Option (List (Pattern Char))) :
      restoreSelectiveExpression manifest dbExclude dbInclude ≠ .ok expression := by
    intro hok
    obtain ⟨taken, haccepts⟩ := selectAccepts_of_ok h.dbName hentry hok
    exact haccepts.not_error h.dbName herror
  refine ⟨iff_of_true ?_ ⟨hentry, herror⟩, fun expression hok => absurd hok (hrefused expression), zeroDb_spared⟩
  cases hresult : restoreSelectiveExpression manifest dbExclude dbInclude with
  | error error => exact ⟨error, rfl⟩
  | ok expression => exact absurd hresult (hrefused expression)

variable (herror : ¬SelectError manifest dbExclude dbInclude)
include herror

/-- **A restore that has not to be refused** and for which the conditions hold
is accepted and exact. -/
theorem selectsExactly_of_holds (holds : SelectHolds manifest dbExclude dbInclude taken) :
    SelectsExactly manifest dbExclude dbInclude := by
  have hopen := herror
  unfold SelectError at hopen
  push Not at hopen
  obtain ⟨hnonempty, hentries, -⟩ := hopen
  have haccepts : SelectAccepts manifest dbExclude dbInclude taken :=
    ⟨holds.numbered, hnonempty, fun entry hmem => hentries entry (mem_append_left _ hmem), holds.takes,
      holds.allowed⟩
  obtain ⟨zero, hzero, hrun⟩ := haccepts.run h.dbName hentry
  refine ⟨iff_of_false ?_ (fun hand => herror hand.2), ?_, zeroDb_spared⟩
  · rintro ⟨error, hresult⟩
    rw [hrun] at hresult
    cases hresult
  · intro expression hok name hname
    cases hrun.symm.trans hok
    rw [selectiveFileZeroed_iff]
    refine and_congr_left (fun hversion => ?_)
    constructor
    · rintro ⟨id, hid, hmatch⟩
      have ⟨hdb, hfree⟩ := (hzero id).mp hid
      exact holds.like name hname hversion id hfree hdb
        ((zeroMatch_iff h (hdb.found.isDbId holds.numbered)).mp hmatch)
    · rintro ⟨id, hdb, hbelow⟩
      have hdbId := hdb.found.isDbId holds.numbered
      rcases holds.below name hname hversion id hdb hbelow with ⟨hfree, hplus⟩ | ⟨hfree, hdbPlus⟩
      · exact ⟨id, (hzero id).mpr ⟨hdb, hfree⟩, (zeroMatch_iff h hdbId).mpr (hbelow.likeDb ((slashId_iff hplus).mpr rfl))⟩
      · refine ⟨'+' :: id, (hzero _).mpr ⟨hdbPlus, hfree⟩, ?_⟩
        exact (zeroMatch_iff h (hdbPlus.found.isDbId holds.numbered)).mpr
          (hbelow.likeDb ⟨"/".toList, by simp, by simp, rfl⟩)

/-- **If a restore is exact** then the conditions hold. -/
theorem selectHolds_of_exact (exact : SelectsExactly manifest dbExclude dbInclude) :
    ∃ taken, SelectHolds manifest dbExclude dbInclude taken := by
  cases hresult : restoreSelectiveExpression manifest dbExclude dbInclude with
  | error error => exact absurd (exact.error_iff.mp ⟨error, hresult⟩).2 herror
  | ok expression =>
    obtain ⟨taken, haccepts⟩ := selectAccepts_of_ok h.dbName hentry hresult
    obtain ⟨zero, hzero, hrun⟩ := haccepts.run h.dbName hentry
    cases hrun.symm.trans hresult
    have hzeroed {name : Str} (hname : name ∈ manifest.fileList.map ManifestFile.name)
        (hversion : ¬"/PG_VERSION".toList <:+ name) : (∃ id ∈ zero, ZeroMatch manifest id name) ↔
          ∃ id, ZeroDb manifest dbExclude dbInclude id ∧ BelowDb manifest id name := by
      have hiff := exact.zeroed_iff _ hresult name hname
      rw [selectiveFileZeroed_iff] at hiff
      simpa only [hversion, not_false_eq_true, and_true] using hiff
    have hdbId {id : Str} (hdb : ZeroDb manifest dbExclude dbInclude id) : IsDbId id :=
      hdb.found.isDbId haccepts.numbered
    refine ⟨taken, haccepts.numbered, haccepts.takes, haccepts.allowed, ?_, ?_⟩
    · intro name hname hversion id hdb hbelow
      obtain ⟨id', hid', hmatch⟩ := (hzeroed hname hversion).mpr ⟨id, hdb, hbelow⟩
      have ⟨hdb', hfree⟩ := (hzero id').mp hid'
      have hlike := (zeroMatch_iff h (hdbId hdb')).mp hmatch
      rcases hbelow.like_cut h (hdbId hdb) (hdbId hdb') hlike with ⟨rfl, hplus⟩ | rfl
      · exact .inl ⟨hfree, hplus⟩
      · exact .inr ⟨hfree, hdb'⟩
    · intro name hname hversion id hfree hdb hlike
      exact (hzeroed hname hversion).mp
        ⟨id, (hzero id).mpr ⟨hdb, hfree⟩, (zeroMatch_iff h (hdbId hdb)).mpr hlike⟩

end

/-- **A selective restore zeroes exactly what is deselected** if and only if it
has to be refused or the directories of databases are numbers below `2 ^ 32`,
each entry to include takes a database, no file lies below one that an entry
takes without designating it, and a plus sign or a dot makes no difference for
any file. -/
theorem restoreSelectiveExpression_exact_iff (h : SelectManifest manifest) :
    SelectsExactly manifest dbExclude dbInclude ↔ (dbExclude = [] ∧ dbInclude = []) ∨
      SelectError manifest dbExclude dbInclude ∨ ∃ taken, SelectHolds manifest dbExclude dbInclude taken := by
  by_cases hentry : dbExclude = [] ∧ dbInclude = []
  · obtain ⟨rfl, rfl⟩ := hentry
    exact iff_of_true selectsExactly_nil (.inl ⟨rfl, rfl⟩)
  · have hentry' : dbExclude ≠ [] ∨ dbInclude ≠ [] := not_and_or.mp hentry
    by_cases herror : SelectError manifest dbExclude dbInclude
    · exact iff_of_true (selectsExactly_of_error h hentry' herror) (.inr (.inl herror))
    · simp only [hentry, herror, false_or]
      refine ⟨selectHolds_of_exact h hentry' herror, ?_⟩
      rintro ⟨taken, holds⟩
      exact selectsExactly_of_holds h hentry' herror holds

/-! ## A database that is included twice -/

/-- A cluster with a database in the base and another one in a tablespace. -/
def selectSample : Manifest :=
  { Manifest.plain "20200101-000000F".toList .full none ["20200101-000000F".toList] with
    dbList := [⟨"db1".toList, 16384, 16383⟩, ⟨"db2".toList, 32768, 16383⟩, ⟨"postgres".toList, 5, 16383⟩]
    fileList := [manifestFileSample "pg_data/PG_VERSION", manifestFileSample "pg_data/base/16384/1249",
      manifestFileSample "pg_data/base/16384/PG_VERSION", manifestFileSample "pg_data/base/5/PG_VERSION",
      manifestFileSample "pg_tblspc/400/PG_16_202307071/32768/1249",
      manifestFileSample "pg_tblspc/400/PG_16_202307071/32768/PG_VERSION"]
    targetList := [⟨"pg_data".toList, .path, "/pg".toList, none, 0, none⟩,
      ⟨"pg_tblspc/400".toList, .link, "/ts".toList, none, 400, some "ts".toList⟩] }

theorem selectSample_selectManifest : SelectManifest selectSample where
  dbName := by decide
  targetName := by
    intro target hmem hne
    have htargets : ∀ target ∈ selectSample.targetList, target.tablespaceId ≠ 0 →
        target.name = "pg_tblspc/".toList ++ "400".toList := by decide
    exact ⟨"400".toList, by decide, htargets target hmem hne⟩

set_option maxRecDepth 4000 in
theorem selectSample_found :
    FoundDb selectSample id ↔ id ∈ ["5".toList, "16384".toList, "32768".toList] := by
  have hsystem : ∀ db ∈ selectSample.dbList, db.IsSystem → dbIdStr db.id = "5".toList := by
    unfold ManifestDb.IsSystem
    decide
  have hfile : ∀ name ∈ selectSample.fileList.map ManifestFile.name, selectSample.isDbFile name = true →
      fileDbId name ∈ ["5".toList, "16384".toList, "32768".toList] := by decide
  constructor
  · rintro (⟨db, hdb, his, rfl⟩ | ⟨name, hname, his, rfl⟩)
    · rw [hsystem db hdb his]
      exact mem_cons_self
    · exact hfile name hname his
  · have hall : ∀ id ∈ ["5".toList, "16384".toList, "32768".toList],
        ∃ name ∈ selectSample.fileList.map ManifestFile.name, selectSample.isDbFile name = true ∧
          id = fileDbId name := by decide
    exact fun hmem => .inr (hall id hmem)

theorem selectSample_designates : Designates selectSample "db1".toList "16384".toList := by
  refine ⟨selectSample_found.mpr (by decide), .inr ⟨?_, ⟨"db1".toList, 16384, 16383⟩, by decide, rfl, by decide⟩⟩
  rw [selectSample_found]
  decide

set_option maxRecDepth 4000 in
theorem selectSample_not_system : ¬SystemDb selectSample "16384".toList := by
  have hsystem : ∀ db ∈ selectSample.dbList, db.IsSystem → "16384".toList ≠ dbIdStr db.id := by
    unfold ManifestDb.IsSystem
    decide
  rintro (⟨db, hdb, his, heq⟩ | ⟨name, -, -, -, n, hn, his⟩)
  · exact hsystem db hdb his heq
  · have hvalue : cvtZToUInt "16384".toList = .ok 16384 := by decide
    rw [hvalue] at hn
    rw [← Except.ok.inj hn] at his
    cases his

theorem restoreSelectiveExpression_exact_iff_sample : SelectsExactly selectSample [] ["db1".toList] := by
  have hplus {id : Str} (hfound : FoundDb selectSample id) : '+' ∉ id := by
    have hall : ∀ id ∈ ["5".toList, "16384".toList, "32768".toList], '+' ∉ id := by decide
    exact hall id (selectSample_found.mp hfound)
  have hdot : '.' ∉ selectSample.tablespaceId := by decide +kernel
  refine (restoreSelectiveExpression_exact_iff selectSample_selectManifest).mpr
    (.inr (.inr ⟨["16384".toList], ?_, .cons not_mem_nil (.inl selectSample_designates) (.nil _), ?_, ?_, ?_⟩))
  · have hvalue : ∀ name ∈ selectSample.fileList.map ManifestFile.name, selectSample.isDbFile name = true →
        (cvtZToUInt (fileDbId name)).toOption.isSome = true := by decide +kernel
    intro name hname his
    have hsome := hvalue name hname his
    cases hn : cvtZToUInt (fileDbId name) with
    | error error =>
      rw [hn] at hsome
      cases hsome
    | ok n => exact ⟨n, rfl⟩
  · simpa using selectSample_not_system
  · intro name _ _ id hzero _
    refine .inl ⟨fun hmem => ?_, hplus hzero.found⟩
    rw [mem_singleton.mp hmem] at hzero
    exact (zeroDb_spared _ hzero).1 _ mem_cons_self selectSample_designates
  · intro name _ _ id _ hzero hlike
    refine ⟨id, hzero, ?_⟩
    obtain ⟨w, hw, hor⟩ := hlike
    rw [(slashId_iff (hplus hzero.found)).mp hw] at hor
    simp only [alike_iff hdot, exists_eq_left] at hor
    simpa [BelowDb] using hor

/-- The second time it is not found any more, although it is there. -/
theorem restoreSelectiveExpression_twice :
    ¬SelectsExactly selectSample [] ["db1".toList, "db1".toList] := by
  intro h
  have hrefused : (restoreSelectiveExpression selectSample [] ["db1".toList, "db1".toList]).toOption.isSome = false := by
    decide +kernel
  have herror : ∃ error,
      restoreSelectiveExpression selectSample [] ["db1".toList, "db1".toList] = .error error := by
    cases hresult : restoreSelectiveExpression selectSample [] ["db1".toList, "db1".toList] with
    | error error => exact ⟨error, rfl⟩
    | ok expression =>
      rw [hresult] at hrefused
      cases hrefused
  have hentry : ∀ entry ∈ ["db1".toList, "db1".toList], entry = "db1".toList := by decide
  rcases (h.error_iff.mp herror).2 with hnone | ⟨entry, hmem, hnone⟩ | ⟨entry, hmem, id, hdes, hor⟩
  · exact hnone _ selectSample_designates.1
  · rw [nil_append] at hmem
    rw [hentry entry hmem] at hnone
    exact hnone _ selectSample_designates
  · rw [hentry entry hmem] at hdes
    rw [hdes.unique selectSample_selectManifest.dbName selectSample_designates] at hor
    rcases hor with hsystem | ⟨excluded, hexcluded, -⟩
    · exact selectSample_not_system hsystem
    · cases hexcluded

end PgxBackup
