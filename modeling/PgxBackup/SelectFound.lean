import Mathlib.Data.List.Forall2
import PgxBackup.Select

/-!
# Which databases a selective restore zeroes

An option designates a database by its id or else by its name. The options say
which databases are zeroed, and a file is zeroed if it lies below one of them.

The list that is searched for a database to include is the list that included
databases are removed from. A database that is included twice is not found the
second time, unless its id happens to be the name of another one, which is
then included as well.

What the databases to zero are shows in the files of the manifest only. So it
does no harm that the expression would match other names, or that a database
was removed of which there is no file.
-/

namespace PgxBackup

open List Pattern

variable {manifest : Manifest} {dbExclude dbInclude : List Str}

/-! ## What is selected -/

/-- A database of the system in the list of the manifest. -/
def ManifestDb.IsSystem (db : ManifestDb) : Prop :=
  (pgDbIsSystem db.name || pgDbIsSystemId db.id) = true

/-- **A database is found**: it is one of the system in the list, or there is a
file that shows it. -/
def FoundDb (manifest : Manifest) (id : Str) : Prop :=
  (∃ db ∈ manifest.dbList, db.IsSystem ∧ id = dbIdStr db.id) ∨
    ∃ name ∈ manifest.fileList.map ManifestFile.name, manifest.isDbFile name = true ∧ id = fileDbId name

/-- A database of the system is found. -/
def SystemDb (manifest : Manifest) (id : Str) : Prop :=
  (∃ db ∈ manifest.dbList, db.IsSystem ∧ id = dbIdStr db.id) ∨
    ∃ name ∈ manifest.fileList.map ManifestFile.name, manifest.isDbFile name = true ∧ id = fileDbId name ∧
      ∃ n, cvtZToUInt id = .ok n ∧ pgDbIsSystemId n = true

/-- **The database that an entry designates**, by id or else by name. -/
def Designates (manifest : Manifest) (entry id : Str) : Prop :=
  FoundDb manifest id ∧ (id = entry ∨
    ¬FoundDb manifest entry ∧ ∃ db ∈ manifest.dbList, db.name = entry ∧ id = dbIdStr db.id)

/-- **What a selective restore is refused for**: no database is found, an entry
names none, or a database that is included is one of the system or excluded. -/
def SelectError (manifest : Manifest) (dbExclude dbInclude : List Str) : Prop :=
  (∀ id, ¬FoundDb manifest id) ∨ (∃ entry ∈ dbExclude ++ dbInclude, ∀ id, ¬Designates manifest entry id) ∨
    ∃ entry ∈ dbInclude, ∃ id, Designates manifest entry id ∧
      (SystemDb manifest id ∨ ∃ excluded ∈ dbExclude, Designates manifest excluded id)

/-- **The databases to zero**: those that are excluded if none is included, and
else all but those that are included and but those of the system that are not
excluded. -/
def ZeroDb (manifest : Manifest) (dbExclude dbInclude : List Str) (id : Str) : Prop :=
  if dbInclude = [] then ∃ entry ∈ dbExclude, Designates manifest entry id
  else FoundDb manifest id ∧ (∀ entry ∈ dbInclude, ¬Designates manifest entry id) ∧
    (SystemDb manifest id → ∃ entry ∈ dbExclude, Designates manifest entry id)

/-- A file lies below a database, in the base or in a tablespace. -/
def BelowDb (manifest : Manifest) (id name : Str) : Prop :=
  "pg_data/base/".toList ++ id ++ "/".toList <+: name ∨
    ∃ target ∈ manifest.targetList, target.tablespaceId ≠ 0 ∧
      target.name ++ "/".toList ++ manifest.tablespaceId ++ "/".toList ++ id ++ "/".toList <+: name

/-- **The restore zeroes exactly what is deselected**: if there is an entry it is
refused when it has to be, and else a file of the manifest is zeroed if it lies below a database to
zero and does not tell the version. Included databases and those of the system that are not
excluded are never zeroed. -/
structure SelectsExactly (manifest : Manifest) (dbExclude dbInclude : List Str) : Prop where
  error_iff : (∃ error, restoreSelectiveExpression manifest dbExclude dbInclude = .error error) ↔
    (dbExclude ≠ [] ∨ dbInclude ≠ []) ∧ SelectError manifest dbExclude dbInclude
  zeroed_iff : ∀ expression, restoreSelectiveExpression manifest dbExclude dbInclude = .ok expression →
    ∀ name ∈ manifest.fileList.map ManifestFile.name, selectiveFileZeroed name expression = true ↔
      (∃ id, ZeroDb manifest dbExclude dbInclude id ∧ BelowDb manifest id name) ∧
        ¬"/PG_VERSION".toList <:+ name
  spared : ∀ id, ZeroDb manifest dbExclude dbInclude id →
    (∀ entry ∈ dbInclude, ¬Designates manifest entry id) ∧
      (SystemDb manifest id → ∃ entry ∈ dbExclude, Designates manifest entry id)

/-- **A manifest as it is built**: a database name stands in it once, and a
tablespace is named after its directory. -/
structure SelectManifest (manifest : Manifest) : Prop where
  dbName : (manifest.dbList.map ManifestDb.name).Nodup
  targetName : ∀ target ∈ manifest.targetList, target.tablespaceId ≠ 0 →
    ∃ digits : Str, (∀ c ∈ digits, c.isDigit = true) ∧ target.name = "pg_tblspc/".toList ++ digits

/-! ## When the restore is right -/

/-- **What the entries to include take**, one after the other, beside what is gone:
the database that an entry designates, or if the entry is the id of one that is gone, then
the database of that name. -/
inductive Takes (manifest : Manifest) : List Str → List Str → List Str → Prop
  | nil (gone : List Str) : Takes manifest gone [] []
  | cons {gone entries ids : List Str} {entry id : Str} (hfree : id ∉ gone)
      (htakes : Designates manifest entry id ∨ entry ∈ gone ∧ FoundDb manifest id ∧
        ∃ db ∈ manifest.dbList, db.name = entry ∧ id = dbIdStr db.id)
      (rest : Takes manifest (id :: gone) entries ids) : Takes manifest gone (entry :: entries) (id :: ids)

/-- What a string spells in an expression, where a dot is any character. -/
def Alike (s w : Str) : Prop := List.Forall₂ (fun c d => c = '.' ∨ d = c) s w

/-- An id behind a slash, of which a plus sign in front of the number makes one
or more. -/
def SlashId : Str → Str → Prop
  | '+' :: digits, w => ∃ slashes : Str, slashes ≠ [] ∧ (∀ c ∈ slashes, c = '/') ∧ w = slashes ++ digits
  | digits, w => w = '/' :: digits

/-- **A file looks like one below a database**: any character may stand for a dot
in the path of the version, and any number of slashes for a plus sign. -/
def LikeDb (manifest : Manifest) (id name : Str) : Prop :=
  ∃ w, SlashId id w ∧ ("pg_data/base".toList ++ w ++ "/".toList <+: name ∨
    ∃ target ∈ manifest.targetList, target.tablespaceId ≠ 0 ∧ ∃ version, Alike manifest.tablespaceId version ∧
      target.name ++ "/".toList ++ version ++ w ++ "/".toList <+: name)

/-- The databases and the files of a manifest and the entries, which take some of
the databases, are such that the restore is right. -/
structure SelectHolds (manifest : Manifest) (dbExclude dbInclude taken : List Str) : Prop where
  /-- The directories of databases are numbers. -/
  numbered : ∀ name ∈ manifest.fileList.map ManifestFile.name, manifest.isDbFile name = true →
    ∃ n, cvtZToUInt (fileDbId name) = .ok n
  /-- Each entry to include takes a database, so that none is included twice. -/
  takes : Takes manifest [] dbInclude taken
  allowed : ∀ id ∈ taken, ¬SystemDb manifest id ∧ ¬∃ entry ∈ dbExclude, Designates manifest entry id
  /-- No file lies below a database to zero that was taken or has a plus sign, unless the same
  number with a plus sign is zeroed. -/
  below : ∀ name ∈ manifest.fileList.map ManifestFile.name, ¬"/PG_VERSION".toList <:+ name →
    ∀ id, ZeroDb manifest dbExclude dbInclude id → BelowDb manifest id name →
      id ∉ taken ∧ '+' ∉ id ∨ '+' :: id ∉ taken ∧ ZeroDb manifest dbExclude dbInclude ('+' :: id)
  /-- A file that looks like one below a database to zero lies below one. -/
  like : ∀ name ∈ manifest.fileList.map ManifestFile.name, ¬"/PG_VERSION".toList <:+ name →
    ∀ id ∉ taken, ZeroDb manifest dbExclude dbInclude id → LikeDb manifest id name →
      ∃ other, ZeroDb manifest dbExclude dbInclude other ∧ BelowDb manifest other name

/-! ## The databases in a manifest -/

/-- **The lists of databases**: each has what was found so far. A database of the
system stands in both as often, and another one once. -/
structure DbsInv (found system : Str → Prop) (dbs : SelectDbs) : Prop where
  mem_dbList : ∀ id, id ∈ dbs.dbList ↔ found id
  mem_system : ∀ id, id ∈ dbs.systemDbIdList ↔ system id
  count_system : ∀ id ∈ dbs.systemDbIdList, dbs.dbList.count id = dbs.systemDbIdList.count id
  count_le : ∀ id ∉ dbs.systemDbIdList, dbs.dbList.count id ≤ 1
  system_of_number : ∀ id ∈ dbs.dbList, ∀ n, cvtZToUInt id = .ok n → pgDbIsSystemId n = true →
    id ∈ dbs.systemDbIdList

theorem mem_strLstAddIfMissing {this : List Str} {string id : Str} :
    id ∈ strLstAddIfMissing this string ↔ id ∈ this ∨ id = string := by
  unfold strLstAddIfMissing
  split
  · rename_i hmem
    refine ⟨.inl, ?_⟩
    rintro (h | rfl)
    · exact h
    · exact hmem
  · rw [mem_append, mem_singleton]

theorem dbsInv_system (dbList : List ManifestDb) (dbs : SelectDbs) (found : Str → Prop)
    (hsame : dbs.dbList = dbs.systemDbIdList) (hmem : ∀ id, id ∈ dbs.dbList ↔ found id) :
    DbsInv (fun id => found id ∨ ∃ db ∈ dbList, db.IsSystem ∧ id = dbIdStr db.id)
      (fun id => found id ∨ ∃ db ∈ dbList, db.IsSystem ∧ id = dbIdStr db.id)
      (dbList.foldl SelectDbs.system dbs) := by
  induction dbList generalizing dbs found with
  | nil =>
    have hfound (id : Str) : id ∈ dbs.dbList ↔ found id ∨
        ∃ db ∈ ([] : List ManifestDb), db.IsSystem ∧ id = dbIdStr db.id := by
      rw [hmem]
      simp
    rw [foldl_nil]
    refine ⟨hfound, fun id => by rw [← hsame]; exact hfound id, fun id _ => by rw [hsame], fun id hid => ?_,
      fun id hid _ _ _ => hsame ▸ hid⟩
    rw [hsame, count_eq_zero_of_not_mem hid]
    exact Nat.zero_le _
  | cons db dbList ih =>
    rw [foldl_cons]
    have hstep : (dbs.system db).dbList = (dbs.system db).systemDbIdList ∧
        ∀ id, id ∈ (dbs.system db).dbList ↔ found id ∨ db.IsSystem ∧ id = dbIdStr db.id := by
      unfold SelectDbs.system ManifestDb.IsSystem
      split
      · rename_i hsystem
        refine ⟨by rw [hsame], fun id => ?_⟩
        rw [mem_append, mem_singleton, hmem]
        exact or_congr Iff.rfl ⟨fun h => ⟨hsystem, h⟩, And.right⟩
      · rename_i hsystem
        refine ⟨hsame, fun id => ?_⟩
        rw [hmem]
        exact ⟨.inl, fun hor => hor.resolve_right (fun hand => hsystem hand.1)⟩
    have h := ih _ _ hstep.1 hstep.2
    have hsets : (fun id => (found id ∨ db.IsSystem ∧ id = dbIdStr db.id) ∨
        ∃ db ∈ dbList, db.IsSystem ∧ id = dbIdStr db.id)
        = fun id => found id ∨ ∃ other ∈ db :: dbList, other.IsSystem ∧ id = dbIdStr other.id := by
      funext id
      simp only [mem_cons, exists_eq_or_imp, or_assoc]
    rwa [hsets] at h

/-- A string that was added is there at least once, and others are as often as before. -/
theorem count_strLstAddIfMissing (this : List Str) (string id : Str) :
    (strLstAddIfMissing this string).count id = if id = string then max (this.count id) 1 else this.count id := by
  unfold strLstAddIfMissing
  split
  · rename_i hmem
    rcases eq_or_ne id string with rfl | hne
    · rw [if_pos rfl, max_eq_left (Nat.succ_le_of_lt (count_pos_iff.mpr hmem))]
    · rw [if_neg hne]
  · rename_i hmem
    rw [count_append]
    rcases eq_or_ne id string with rfl | hne
    · rw [if_pos rfl, count_eq_zero_of_not_mem hmem, count_singleton_self]
      rfl
    · rw [if_neg hne, count_singleton, if_neg (by simpa using hne.symm), Nat.add_zero]

/-- **A file that shows a database** adds it to what was found. -/
theorem DbsInv.file {found system : Str → Prop} {dbs : SelectDbs} (h : DbsInv found system dbs)
    {name : Str} (hname : manifest.isDbFile name = true) {n : ℕ}
    (hnumber : cvtZToUInt (fileDbId name) = .ok n) :
    ∃ dbs', dbs.file manifest name = .ok dbs' ∧
      DbsInv (fun id => found id ∨ id = fileDbId name)
        (fun id => system id ∨ id = fileDbId name ∧ pgDbIsSystemId n = true) dbs' := by
  refine ⟨⟨if pgDbIsSystemId n then strLstAddIfMissing dbs.systemDbIdList (fileDbId name) else
      dbs.systemDbIdList, strLstAddIfMissing dbs.dbList (fileDbId name)⟩, ?_, ?_⟩
  · unfold SelectDbs.file
    rw [if_pos hname]
    dsimp only
    rw [hnumber]
    rfl
  · have hdbList (id : Str) : id ∈ strLstAddIfMissing dbs.dbList (fileDbId name) ↔
        found id ∨ id = fileDbId name := by
      rw [mem_strLstAddIfMissing, h.mem_dbList]
    have hcount := count_strLstAddIfMissing dbs.dbList (fileDbId name)
    by_cases hsystem : pgDbIsSystemId n = true
    · rw [if_pos hsystem]
      refine ⟨hdbList, fun id => ?_, fun id hid => ?_, fun id hid => ?_, fun id hid m hm hmSystem => ?_⟩
      · dsimp only
        rw [mem_strLstAddIfMissing, h.mem_system]
        exact or_congr Iff.rfl ⟨fun heq => ⟨heq, hsystem⟩, And.left⟩
      · rw [hcount, count_strLstAddIfMissing]
        rcases mem_strLstAddIfMissing.mp hid with hin | rfl
        · rw [h.count_system id hin]
        · -- it is missing in one list if and only if in the other
          by_cases hin : fileDbId name ∈ dbs.systemDbIdList
          · rw [h.count_system _ hin]
          · have hnot : fileDbId name ∉ dbs.dbList := fun hmem =>
              hin (h.system_of_number _ hmem n hnumber hsystem)
            rw [count_eq_zero_of_not_mem hin, count_eq_zero_of_not_mem hnot]
      · rw [mem_strLstAddIfMissing, not_or] at hid
        rw [hcount, if_neg hid.2]
        exact h.count_le id hid.1
      · rw [mem_strLstAddIfMissing] at hid ⊢
        exact hid.imp_left (fun hid => h.system_of_number id hid m hm hmSystem)
    · rw [if_neg hsystem]
      refine ⟨hdbList, fun id => ?_, fun id hid => ?_, fun id hid => ?_, fun id hid m hm hmSystem => ?_⟩
      · dsimp only
        rw [h.mem_system]
        exact ⟨.inl, fun hor => hor.resolve_right (fun hand => hsystem hand.2)⟩
      · have hpos := count_pos_iff.mpr hid
        rw [hcount, h.count_system id hid, max_eq_left (Nat.succ_le_of_lt hpos), ite_self]
      · have hle := h.count_le id hid
        rw [hcount, max_eq_right hle]
        split
        · exact le_rfl
        · exact hle
      · rcases mem_strLstAddIfMissing.mp hid with hid | rfl
        · exact h.system_of_number id hid m hm hmSystem
        · rw [hnumber] at hm
          rw [Except.ok.inj hm] at hsystem
          exact absurd hmSystem hsystem

/-- The files, if those that show a database are numbered. -/
theorem dbsInv_files {names : List Str} {found system : Str → Prop} {dbs : SelectDbs}
    (h : DbsInv found system dbs)
    (hnumbered : ∀ name ∈ names, manifest.isDbFile name = true → ∃ n, cvtZToUInt (fileDbId name) = .ok n) :
    ∃ dbs', names.foldlM (SelectDbs.file manifest) dbs = .ok dbs' ∧
      DbsInv (fun id => found id ∨ ∃ name ∈ names, manifest.isDbFile name = true ∧ id = fileDbId name)
        (fun id => system id ∨ ∃ name ∈ names, manifest.isDbFile name = true ∧ id = fileDbId name ∧
          ∃ n, cvtZToUInt id = .ok n ∧ pgDbIsSystemId n = true) dbs' := by
  induction names generalizing found system dbs with
  | nil =>
    refine ⟨dbs, rfl, ?_⟩
    simpa using h
  | cons name names ih =>
    rw [forall_mem_cons] at hnumbered
    by_cases hname : manifest.isDbFile name = true
    · obtain ⟨n, hn⟩ := hnumbered.1 hname
      obtain ⟨dbs₁, hone, h₁⟩ := h.file hname hn
      obtain ⟨dbs', hrest, h'⟩ := ih h₁ hnumbered.2
      refine ⟨dbs', ?_, ?_⟩
      · rw [foldlM_cons, hone]
        exact hrest
      · have hsystem (id : Str) : id = fileDbId name ∧ pgDbIsSystemId n = true ↔
            manifest.isDbFile name = true ∧ id = fileDbId name ∧
              ∃ n, cvtZToUInt id = .ok n ∧ pgDbIsSystemId n = true := by
          constructor
          · rintro ⟨rfl, hsystem⟩
            exact ⟨hname, rfl, n, hn, hsystem⟩
          · rintro ⟨-, rfl, m, hm, hsystem⟩
            rw [hn] at hm
            exact ⟨rfl, Except.ok.inj hm ▸ hsystem⟩
        simpa only [mem_cons, exists_eq_or_imp, or_assoc, hsystem, hname, true_and] using h'
    · obtain ⟨dbs', hrest, h'⟩ := ih h hnumbered.2
      refine ⟨dbs', ?_, ?_⟩
      · have hone : dbs.file manifest name = .ok dbs := if_neg hname
        rw [foldlM_cons, hone]
        exact hrest
      · have hfalse : manifest.isDbFile name = false := by simpa using hname
        simpa only [mem_cons, exists_eq_or_imp, hfalse, Bool.false_eq_true, false_and, false_or] using h'

/-- **The databases of a manifest** are found if their directories are
numbers. -/
theorem selectDbs_ok (hnumbered : ∀ name ∈ manifest.fileList.map ManifestFile.name,
    manifest.isDbFile name = true → ∃ n, cvtZToUInt (fileDbId name) = .ok n) :
    ∃ dbs, selectDbs manifest = .ok dbs ∧ DbsInv (FoundDb manifest) (SystemDb manifest) dbs := by
  have hsystem := dbsInv_system manifest.dbList ⟨[], []⟩ (fun _ => False) rfl (by simp)
  simp only [false_or] at hsystem
  exact dbsInv_files hsystem hnumbered

theorem numbered_of_foldlM {names : List Str} {dbs dbs' : SelectDbs}
    (h : names.foldlM (SelectDbs.file manifest) dbs = .ok dbs') :
    ∀ name ∈ names, manifest.isDbFile name = true → ∃ n, cvtZToUInt (fileDbId name) = .ok n := by
  induction names generalizing dbs with
  | nil => exact fun name hmem => absurd hmem not_mem_nil
  | cons name names ih =>
    obtain ⟨dbs₁, hone, hrest⟩ := ok_of_bind h
    rw [forall_mem_cons]
    refine ⟨fun hname => ?_, ih hrest⟩
    unfold SelectDbs.file at hone
    rw [if_pos hname] at hone
    obtain ⟨n, hn, -⟩ := ok_of_bind hone
    exact ⟨n, hn⟩

end PgxBackup
