import PgxBackup.SelectFound

/-!
# Removing what is included

An entry to include is looked up in the list that the entries before it have
been removed from. A restore is accepted if each of them takes a database that
has not been taken, and what has been taken is not zeroed.
-/

namespace PgxBackup

open List

variable {manifest : Manifest} {dbExclude dbInclude : List Str}

/-! ## The database of an entry -/

theorem manifestDbFind_eq_some (hdbName : (manifest.dbList.map ManifestDb.name).Nodup) {name : Str}
    {db : ManifestDb} : manifestDbFind manifest name = some db ↔ db ∈ manifest.dbList ∧ db.name = name := by
  unfold manifestDbFind
  constructor
  · intro h
    exact ⟨mem_of_find?_eq_some h, by simpa using find?_some h⟩
  · rintro ⟨hmem, rfl⟩
    cases hfind : manifest.dbList.find? (fun other => other.name = db.name) with
    | none => exact absurd (find?_eq_none.mp hfind db hmem) (by simp)
    | some other =>
      have hname : other.name = db.name := by simpa using find?_some hfind
      rw [inj_on_of_nodup_map hdbName (mem_of_find?_eq_some hfind) hmem hname]

theorem Designates.unique (hdbName : (manifest.dbList.map ManifestDb.name).Nodup) {entry id id' : Str}
    (h : Designates manifest entry id) (h' : Designates manifest entry id') : id = id' := by
  rcases h.2 with rfl | ⟨hnot, db, hdb, hname, rfl⟩
  · rcases h'.2 with rfl | ⟨hnot, -⟩
    · rfl
    · exact absurd h.1 hnot
  · rcases h'.2 with rfl | ⟨-, db', hdb', hname', rfl⟩
    · exact absurd h'.1 hnot
    · rw [inj_on_of_nodup_map hdbName hdb hdb' (hname.trans hname'.symm)]

section SelectDb

variable {dbList gone : List Str} {entry id : Str} (hdbName : (manifest.dbList.map ManifestDb.name).Nodup)
include hdbName

/-- **The database of an entry** in a list from which some are gone. -/
theorem selectDb_eq_some (hlist : ∀ id, id ∈ dbList ↔ FoundDb manifest id ∧ id ∉ gone) :
    selectDb manifest dbList entry = some id ↔ id ∉ gone ∧ (Designates manifest entry id ∨
      entry ∈ gone ∧ FoundDb manifest id ∧ ∃ db ∈ manifest.dbList, db.name = entry ∧ id = dbIdStr db.id) := by
  unfold selectDb
  by_cases hentry : entry ∈ dbList
  · have ⟨hfound, hfree⟩ := (hlist entry).mp hentry
    rw [if_pos hentry, Option.some_inj]
    constructor
    · rintro rfl
      exact ⟨hfree, .inl ⟨hfound, .inl rfl⟩⟩
    · rintro ⟨-, ⟨-, heq | ⟨hnot, -⟩⟩ | ⟨hgone, -⟩⟩
      · exact heq.symm
      · exact absurd hfound hnot
      · exact absurd hgone hfree
  · -- it is no id, or the id of what is gone
    rw [hlist, not_and_not_right] at hentry
    rw [if_neg (by rwa [hlist, not_and_not_right])]
    have hname : (∃ db ∈ manifest.dbList, db.name = entry ∧ id = dbIdStr db.id) ∧ id ∈ dbList ↔
        id ∉ gone ∧ (Designates manifest entry id ∨ entry ∈ gone ∧ FoundDb manifest id ∧
          ∃ db ∈ manifest.dbList, db.name = entry ∧ id = dbIdStr db.id) := by
      rw [hlist]
      constructor
      · rintro ⟨hdb, hfound, hfree⟩
        by_cases hisId : FoundDb manifest entry
        · exact ⟨hfree, .inr ⟨hentry hisId, hfound, hdb⟩⟩
        · exact ⟨hfree, .inl ⟨hfound, .inr ⟨hisId, hdb⟩⟩⟩
      · rintro ⟨hfree, ⟨hfound, rfl | ⟨-, hdb⟩⟩ | ⟨-, hfound, hdb⟩⟩
        · exact absurd (hentry hfound) hfree
        · exact ⟨hdb, hfound, hfree⟩
        · exact ⟨hdb, hfound, hfree⟩
    rw [← hname]
    cases hfind : manifestDbFind manifest entry with
    | none =>
      refine iff_of_false (by simp) ?_
      rintro ⟨⟨db, hdb, hdbEntry, -⟩, -⟩
      have hsome := (manifestDbFind_eq_some hdbName).mpr ⟨hdb, hdbEntry⟩
      rw [hfind] at hsome
      cases hsome
    | some db =>
      have ⟨hdb, hdbEntry⟩ := (manifestDbFind_eq_some hdbName).mp hfind
      dsimp only
      constructor
      · intro h
        split at h
        · rename_i hmem
          cases h
          exact ⟨⟨db, hdb, hdbEntry, rfl⟩, hmem⟩
        · cases h
      · rintro ⟨⟨other, hother, hotherEntry, rfl⟩, hmem⟩
        rw [inj_on_of_nodup_map hdbName hother hdb (hotherEntry.trans hdbEntry.symm)] at hmem ⊢
        exact if_pos hmem

end SelectDb

/-! ## The databases to exclude -/

section

variable {dbList : List Str} (hdbName : (manifest.dbList.map ManifestDb.name).Nodup)
  (hlist : ∀ id, id ∈ dbList ↔ FoundDb manifest id)
include hdbName hlist

theorem selectDb_all {entry id : Str} : selectDb manifest dbList entry = some id ↔ Designates manifest entry id := by
  rw [@selectDb_eq_some _ dbList [] _ _ hdbName (by simpa using hlist)]
  simp

/-- **The entries to exclude** are accepted if each designates a database. -/
theorem selectExclude_ok (hentries : ∀ entry ∈ dbExclude, ∃ id, Designates manifest entry id) :
    ∃ ids, selectExclude manifest dbList dbExclude = .ok ids ∧
      ∀ id, id ∈ ids ↔ ∃ entry ∈ dbExclude, Designates manifest entry id := by
  induction dbExclude with
  | nil => exact ⟨[], rfl, fun id => by simp⟩
  | cons entry dbExclude ih =>
    rw [forall_mem_cons] at hentries
    have ⟨⟨id, hid⟩, hentries⟩ := hentries
    have ⟨ids, hids, hmem⟩ := ih hentries
    refine ⟨id :: ids, ?_, fun other => ?_⟩
    · unfold selectExclude
      rw [(selectDb_all hdbName hlist).mpr hid, hids]
      rfl
    · rw [mem_cons, hmem]
      simp only [mem_cons, exists_eq_or_imp]
      refine or_congr_left ⟨?_, fun h => h.unique hdbName hid⟩
      rintro rfl
      exact hid

theorem designates_of_selectExclude {ids : List Str}
    (h : selectExclude manifest dbList dbExclude = .ok ids) :
    ∀ entry ∈ dbExclude, ∃ id, Designates manifest entry id := by
  induction dbExclude generalizing ids with
  | nil => exact fun entry hentry => absurd hentry not_mem_nil
  | cons entry dbExclude ih =>
    unfold selectExclude at h
    split at h
    · cases h
    · rename_i id hid
      obtain ⟨rest, hrest, -⟩ := ok_of_bind h
      rw [forall_mem_cons]
      exact ⟨⟨id, (selectDb_all hdbName hlist).mp hid⟩, ih hrest⟩

end

/-! ## The databases to include -/

theorem Takes.free {gone taken : List Str} (h : Takes manifest gone dbInclude taken) :
    taken.Nodup ∧ ∀ id ∈ taken, id ∉ gone ∧ FoundDb manifest id := by
  induction h with
  | nil gone => exact ⟨nodup_nil, fun id hid => absurd hid not_mem_nil⟩
  | cons hfree htakes rest ih =>
    refine ⟨nodup_cons.mpr ⟨fun hmem => (ih.2 _ hmem).1 mem_cons_self, ih.1⟩, ?_⟩
    rw [forall_mem_cons]
    refine ⟨⟨hfree, ?_⟩, fun other hother => ?_⟩
    · exact htakes.elim And.left (fun h => h.2.1)
    · exact (ih.2 other hother).imp_left (mt (mem_cons_of_mem _))

/-- **What an entry designates** is taken or gone before it. -/
theorem Takes.designated {gone taken : List Str}
    (h : Takes manifest gone dbInclude taken) (hgone : ∀ id ∈ gone, FoundDb manifest id) :
    ∀ entry ∈ dbInclude, ∃ id, Designates manifest entry id ∧ (id ∈ taken ∨ id ∈ gone) := by
  induction h with
  | nil gone => exact fun entry hentry => absurd hentry not_mem_nil
  | @cons gone entries ids entry id hfree htakes rest ih =>
    rw [forall_mem_cons]
    constructor
    · rcases htakes with hdes | ⟨hmem, -⟩
      · exact ⟨id, hdes, .inl mem_cons_self⟩
      · exact ⟨entry, ⟨hgone entry hmem, .inl rfl⟩, .inr hmem⟩
    · have hfound : ∀ other ∈ id :: gone, FoundDb manifest other :=
        forall_mem_cons.mpr ⟨htakes.elim And.left (fun h => h.2.1), hgone⟩
      intro other hother
      obtain ⟨otherId, hdes, hor⟩ := ih hfound other hother
      rw [mem_cons] at hor
      exact ⟨otherId, hdes, by rw [mem_cons]; tauto⟩

/-- **The entries to include are accepted** if each takes a database that may be
included, and these are removed. -/
theorem selectInclude_eq_ok (hdbName : (manifest.dbList.map ManifestDb.name).Nodup)
    {systemDbIdList excludeDbIdList dbList gone out : List Str}
    (hlist : ∀ id, id ∈ dbList ↔ FoundDb manifest id ∧ id ∉ gone)
    (hcount : ∀ id ∉ systemDbIdList, dbList.count id ≤ 1) :
    selectInclude manifest systemDbIdList excludeDbIdList dbList dbInclude = .ok out ↔
      ∃ taken, Takes manifest gone dbInclude taken ∧
        (∀ id ∈ taken, id ∉ systemDbIdList ∧ id ∉ excludeDbIdList) ∧ out = dbList.diff taken := by
  induction dbInclude generalizing dbList gone with
  | nil =>
    constructor
    · intro h
      exact ⟨[], .nil gone, fun id hid => absurd hid not_mem_nil, (Except.ok.inj h).symm⟩
    · rintro ⟨taken, ⟨⟩, -, rfl⟩
      rfl
  | cons entry dbInclude ih =>
    -- what it takes is gone for the entries behind it
    have hrest {id : Str} (hid : id ∈ dbList) (hsystem : id ∉ systemDbIdList) :
        (∀ other, other ∈ dbList.erase id ↔ FoundDb manifest other ∧ other ∉ id :: gone) ∧
          ∀ other ∉ systemDbIdList, (dbList.erase id).count other ≤ 1 := by
      refine ⟨fun other => ?_, fun other hother => ?_⟩
      · rw [mem_cons, not_or]
        by_cases heq : other = id
        · subst heq
          refine iff_of_false (fun hmem => ?_) (fun h => h.2.1 rfl)
          have hpos := count_pos_iff.mpr hmem
          have hle := hcount other hsystem
          rw [count_erase_self] at hpos
          omega
        · rw [mem_erase_of_ne heq, hlist]
          tauto
      · exact (erase_sublist.count_le other).trans (hcount other hother)
    unfold selectInclude
    cases hselect : selectDb manifest dbList entry with
    | none =>
      refine iff_of_false (by simp) ?_
      rintro ⟨taken, htakes, -⟩
      cases htakes with
      | cons hfree htakes rest =>
        rw [(selectDb_eq_some hdbName hlist).mpr ⟨hfree, htakes⟩] at hselect
        cases hselect
    | some id =>
      have ⟨hfree, hid⟩ := (selectDb_eq_some hdbName hlist).mp hselect
      have hmem : id ∈ dbList := (hlist id).mpr ⟨hid.elim And.left (fun h => h.2.1), hfree⟩
      dsimp only
      constructor
      · intro h
        split at h
        · cases h
        · rename_i hsystem
          split at h
          · cases h
          · rename_i hexclude
            have ⟨hlist', hcount'⟩ := hrest hmem hsystem
            obtain ⟨taken, htakes, hallowed, rfl⟩ := (ih hlist' hcount').mp h
            exact ⟨id :: taken, .cons hfree hid htakes, forall_mem_cons.mpr ⟨⟨hsystem, hexclude⟩, hallowed⟩,
              (diff_cons _ _ _).symm⟩
      · rintro ⟨taken, htakes, hallowed, rfl⟩
        cases htakes with
        | cons hfree' hid' rest =>
          have hsame := hselect.symm.trans ((selectDb_eq_some hdbName hlist).mpr ⟨hfree', hid'⟩)
          cases hsame
          have ⟨⟨hsystem, hexclude⟩, hallowed⟩ := forall_mem_cons.mp hallowed
          have ⟨hlist', hcount'⟩ := hrest hmem hsystem
          rw [if_neg hsystem, if_neg hexclude]
          exact (ih hlist' hcount').mpr ⟨_, rest, hallowed, diff_cons _ _ _⟩

/-! ## The databases to zero -/

/-- **What is left of a sorted list** without what stands in another one. -/
theorem count_strLstMergeAnti {this anti : List Str} (hthis : this.Pairwise (· ≤ ·))
    (hanti : anti.Pairwise (· ≤ ·)) (id : Str) :
    (strLstMergeAnti this anti).count id = this.count id - anti.count id := by
  fun_induction MergeWalk.common this anti with
  | case1 anti => simp [strLstMergeAnti]
  | case2 item this =>
    have hnil : ∀ this : List Str, strLstMergeAnti this [] = this := by
      intro this
      induction this with
      | nil => rfl
      | cons item this ih => exact congrArg (item :: ·) ih
    rw [hnil, count_nil, Nat.sub_zero]
  | case3 item this next anti h ih =>
    obtain ⟨-, hthis⟩ := pairwise_cons.mp hthis
    obtain ⟨hnext, -⟩ := pairwise_cons.mp hanti
    have hstep : strLstMergeAnti (item :: this) (next :: anti) = item :: strLstMergeAnti this (next :: anti) := by
      rw [strLstMergeAnti, strLstMergeAntiNext, if_pos h]
      rfl
    rw [hstep, count_cons, ih hthis hanti, count_cons (b := item)]
    by_cases heq : item = id
    · -- it is less than all that is left to remove
      have hnot : id ∉ next :: anti := by
        rw [mem_cons, ← heq]
        rintro (hmem | hmem)
        · exact absurd h (hmem ▸ lt_irrefl _)
        · exact absurd h (not_lt.mpr (hnext _ hmem))
      rw [count_eq_zero_of_not_mem hnot, Nat.sub_zero, Nat.sub_zero]
    · rw [if_neg (by simpa using heq), Nat.add_zero, Nat.add_zero]
  | case4 this item anti h ih =>
    have hstep : strLstMergeAnti (item :: this) (item :: anti) = strLstMergeAnti this anti := by
      rw [strLstMergeAnti, strLstMergeAntiNext, if_neg h, if_pos rfl]
      rfl
    rw [hstep, ih (pairwise_cons.mp hthis).2 (pairwise_cons.mp hanti).2, count_cons,
      count_cons, Nat.add_sub_add_right]
  | case5 item this next anti h hne ih =>
    have hlt : next < item := lt_of_le_of_ne (not_lt.mp h) (Ne.symm hne)
    obtain ⟨hitem, -⟩ := pairwise_cons.mp hthis
    have hstep : strLstMergeAnti (item :: this) (next :: anti) = strLstMergeAnti (item :: this) anti := by
      rw [strLstMergeAnti, strLstMergeAntiNext, if_neg h, if_neg hne, strLstMergeAnti]
    rw [hstep, ih hthis (pairwise_cons.mp hanti).2, count_cons (b := next)]
    by_cases heq : next = id
    · -- it is less than all that is left to keep
      have hnot : id ∉ item :: this := by
        rw [mem_cons, ← heq]
        rintro (hmem | hmem)
        · exact absurd hlt (hmem ▸ lt_irrefl _)
        · exact absurd hlt (not_lt.mpr (hitem _ hmem))
      rw [count_eq_zero_of_not_mem hnot, Nat.zero_sub, Nat.zero_sub]
    · rw [if_neg (by simpa using heq), Nat.add_zero]

theorem strLstMergeAnti_sublist (this anti : List Str) : (strLstMergeAnti this anti).Sublist this := by
  induction this generalizing anti with
  | nil => exact List.Sublist.refl _
  | cons item this ih =>
    unfold strLstMergeAnti
    dsimp only
    split
    · exact (ih _).cons_cons _
    · exact (ih _).cons _

theorem count_strLstSort (l : List Str) (id : Str) : (strLstSort l .asc).count id = l.count id :=
  (perm_insertionSort _ l).count_eq id

theorem pairwise_strLstSort (l : List Str) : (strLstSort l .asc).Pairwise (· ≤ ·) :=
  pairwise_insertionSort _ l

/-- **The databases that are left**: what was found without what was removed, and
of the system only what is excluded. -/
theorem mem_merged {found system : Str → Prop} {dbs : SelectDbs} (h : DbsInv found system dbs)
    {removed excludeDbIdList : List Str} (hcount : ∀ id, removed.count id ≤ dbs.dbList.count id)
    (hallowed : ∀ id ∈ removed, id ∉ dbs.systemDbIdList) (id : Str) :
    id ∈ strLstMergeAnti ((strLstSort dbs.dbList .asc).diff removed)
        (strLstMergeAnti (strLstSort dbs.systemDbIdList .asc) (strLstSort excludeDbIdList .asc)) ↔
      found id ∧ id ∉ removed ∧ (system id → id ∈ excludeDbIdList) := by
  have hsorted : ((strLstSort dbs.dbList .asc).diff removed).Pairwise (· ≤ ·) :=
    (pairwise_strLstSort dbs.dbList).sublist (diff_sublist _ _)
  have hsystem : (strLstMergeAnti (strLstSort dbs.systemDbIdList .asc)
      (strLstSort excludeDbIdList .asc)).Pairwise (· ≤ ·) :=
    (pairwise_strLstSort dbs.systemDbIdList).sublist (strLstMergeAnti_sublist _ _)
  rw [← count_pos_iff, count_strLstMergeAnti hsorted hsystem,
    count_strLstMergeAnti (pairwise_strLstSort _) (pairwise_strLstSort _), count_diff,
    count_strLstSort, count_strLstSort, count_strLstSort, ← h.mem_dbList, ← h.mem_system]
  by_cases hid : id ∈ dbs.systemDbIdList
  · -- it stands in both lists as often
    have hnot : id ∉ removed := fun hmem => hallowed id hmem hid
    have heq := h.count_system id hid
    rw [count_eq_zero_of_not_mem hnot, ← count_pos_iff (l := dbs.dbList),
      ← count_pos_iff (l := excludeDbIdList)]
    simp only [hid, hnot, not_false_eq_true, true_and, forall_true_left]
    omega
  · -- it stands in the list of all databases once
    have hle := h.count_le id hid
    have hremoved := hcount id
    rw [count_eq_zero_of_not_mem hid, ← count_pos_iff (l := dbs.dbList),
      ← count_eq_zero (l := removed)]
    simp only [hid, false_imp_iff, and_true]
    omega

/-! ## A selective restore -/

/-- **What a selective restore is accepted for**, if the entries to include take
some databases. -/
structure SelectAccepts (manifest : Manifest) (dbExclude dbInclude taken : List Str) : Prop where
  numbered : ∀ name ∈ manifest.fileList.map ManifestFile.name, manifest.isDbFile name = true →
    ∃ n, cvtZToUInt (fileDbId name) = .ok n
  nonempty : ∃ id, FoundDb manifest id
  excluded : ∀ entry ∈ dbExclude, ∃ id, Designates manifest entry id
  takes : Takes manifest [] dbInclude taken
  allowed : ∀ id ∈ taken, ¬SystemDb manifest id ∧ ¬∃ entry ∈ dbExclude, Designates manifest entry id

section

variable (hdbName : (manifest.dbList.map ManifestDb.name).Nodup) {taken : List Str}
include hdbName

/-- **A selective restore that is accepted** zeroes the databases to zero that
are not taken. -/
theorem SelectAccepts.run (h : SelectAccepts manifest dbExclude dbInclude taken)
    (hentry : dbExclude ≠ [] ∨ dbInclude ≠ []) :
    ∃ zero, (∀ id, id ∈ zero ↔ ZeroDb manifest dbExclude dbInclude id ∧ id ∉ taken) ∧
      restoreSelectiveExpression manifest dbExclude dbInclude
        = .ok (if zero = [] then none else some (zero.flatMap (zeroExp manifest))) := by
  obtain ⟨dbs, hdbs, hinv⟩ := selectDbs_ok h.numbered
  have hlist (id : Str) : id ∈ strLstSort dbs.dbList .asc ↔ FoundDb manifest id := by
    rw [mem_strLstSort, hinv.mem_dbList]
  obtain ⟨excludeDbIdList, hexclude, hmemExclude⟩ := selectExclude_ok hdbName hlist h.excluded
  have hallowed : ∀ id ∈ taken, id ∉ dbs.systemDbIdList ∧ id ∉ excludeDbIdList := fun id hid => by
    rw [hinv.mem_system, hmemExclude]
    exact h.allowed id hid
  have hinclude := (@selectInclude_eq_ok _ dbInclude hdbName _ excludeDbIdList _ [] _ (by simpa using hlist)
    (fun id hid => count_strLstSort dbs.dbList id ▸ hinv.count_le id hid)).mpr ⟨taken, h.takes, hallowed, rfl⟩
  obtain ⟨id, hid⟩ := h.nonempty
  have hne : strLstSort dbs.dbList .asc ≠ [] := ne_nil_of_mem ((hlist id).mpr hid)
  refine ⟨if dbInclude = [] then excludeDbIdList else strLstMergeAnti ((strLstSort dbs.dbList .asc).diff taken)
      (strLstMergeAnti (strLstSort dbs.systemDbIdList .asc) (strLstSort excludeDbIdList .asc)), fun id => ?_, ?_⟩
  · unfold ZeroDb
    split
    · rename_i hnil
      have htakes := h.takes
      rw [hnil] at htakes
      cases htakes
      simp [hmemExclude]
    · have hcount (id : Str) : taken.count id ≤ dbs.dbList.count id := by
        by_cases hid : id ∈ taken
        · rw [count_eq_one_of_mem h.takes.free.1 hid]
          exact count_pos_iff.mpr ((hinv.mem_dbList id).mpr (h.takes.free.2 id hid).2)
        · rw [count_eq_zero_of_not_mem hid]
          exact Nat.zero_le _
      have hnone (hid : id ∉ taken) : ∀ entry ∈ dbInclude, ¬Designates manifest entry id := by
        intro entry hmem hdes
        obtain ⟨other, hother, hor⟩ := h.takes.designated (by simp) entry hmem
        rw [hdes.unique hdbName hother] at hid
        exact hid (hor.resolve_right not_mem_nil)
      rw [mem_merged hinv hcount (fun id hid => (hallowed id hid).1), hmemExclude]
      tauto
  · unfold restoreSelectiveExpression
    rw [if_neg (by tauto), hdbs, ok_bind]
    rw [if_neg hne, hexclude, ok_bind, hinclude, ok_bind]
    exact (apply_ite Except.ok _ _ _).symm

theorem selectAccepts_of_ok (hentry : dbExclude ≠ [] ∨ dbInclude ≠ []) {expression : Option (List (Pattern Char))}
    (h : restoreSelectiveExpression manifest dbExclude dbInclude = .ok expression) :
    ∃ taken, SelectAccepts manifest dbExclude dbInclude taken := by
  unfold restoreSelectiveExpression at h
  rw [if_neg (by tauto)] at h
  obtain ⟨dbs, hdbs, h⟩ := ok_of_bind h
  have hnumbered := numbered_of_foldlM hdbs
  obtain ⟨dbs', hdbs', hinv⟩ := selectDbs_ok hnumbered
  obtain rfl : dbs' = dbs := Except.ok.inj (hdbs'.symm.trans hdbs)
  dsimp only at h
  split at h
  · cases h
  · rename_i hne
    have hlist (id : Str) : id ∈ strLstSort dbs'.dbList .asc ↔ FoundDb manifest id := by
      rw [mem_strLstSort, hinv.mem_dbList]
    obtain ⟨excludeDbIdList, hexclude, h⟩ := ok_of_bind h
    have hexcluded := designates_of_selectExclude hdbName hlist hexclude
    obtain ⟨ids, hids, hmemExclude⟩ := selectExclude_ok hdbName hlist hexcluded
    obtain rfl : ids = excludeDbIdList := Except.ok.inj (hids.symm.trans hexclude)
    obtain ⟨out, hout, -⟩ := ok_of_bind h
    obtain ⟨taken, htakes, hallowed, -⟩ := (@selectInclude_eq_ok _ dbInclude hdbName _ ids _ [] _
      (by simpa using hlist)
      (fun id hid => count_strLstSort dbs'.dbList id ▸ hinv.count_le id hid)).mp hout
    obtain ⟨id, hid⟩ := exists_mem_of_ne_nil _ hne
    refine ⟨taken, hnumbered, ⟨id, (hlist id).mp hid⟩, hexcluded, htakes, fun id hid => ?_⟩
    rw [← hinv.mem_system, ← hmemExclude]
    exact hallowed id hid

theorem SelectAccepts.not_error (h : SelectAccepts manifest dbExclude dbInclude taken) :
    ¬SelectError manifest dbExclude dbInclude := by
  have hdesignated (entry : Str) (hentry : entry ∈ dbInclude) : ∃ id ∈ taken, Designates manifest entry id := by
    obtain ⟨id, hdes, hor⟩ := h.takes.designated (by simp) entry hentry
    exact ⟨id, hor.resolve_right not_mem_nil, hdes⟩
  rintro (hnone | ⟨entry, hentry, hnone⟩ | ⟨entry, hentry, id, hdes, hor⟩)
  · obtain ⟨id, hid⟩ := h.nonempty
    exact hnone id hid
  · rcases mem_append.mp hentry with hentry | hentry
    · obtain ⟨id, hid⟩ := h.excluded entry hentry
      exact hnone id hid
    · obtain ⟨id, -, hid⟩ := hdesignated entry hentry
      exact hnone id hid
  · obtain ⟨id', hmem, hdes'⟩ := hdesignated entry hentry
    obtain rfl := hdes.unique hdbName hdes'
    exact hor.elim (h.allowed id hmem).1 (h.allowed id hmem).2

end

end PgxBackup
