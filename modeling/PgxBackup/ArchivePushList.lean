import PgxBackup.MergeWalk
import PgxBackup.QueueNeed

/-!
# What archive-push still has to push

`archivePushProcessList` compares what PostgreSQL has marked ready with what is
marked ok in the spool queue: ok files that are not ready any more are removed,
and ready files that are not ok are returned.

The two lists of names are sorted when they still have their extensions and are
compared without them. If one name begins with another this is not the same
order.
-/

namespace PgxBackup

open List

def STATUS_EXT_READY : Str := ".ready".toList

/-- `storageRemove` with an error if the file is missing. -/
def storageRemove (path : Str) (files : Finset Str) (file : Str) : Except Error (Finset Str) :=
  if file ∈ files then .ok (files.erase file)
  else .error ⟨.fileRemoveError,
    "unable to remove '".toList ++ path ++ '/' :: file ++ "': [2] No such file or directory".toList⟩

/-- Find an item in what is left of `anti`. -/
def strLstMergeAntiNext (listItem : Str) : List Str → Bool × List Str
  | [] => (true, [])
  | item :: anti =>
    -- if the current item in this is less than the current item in anti then it will be added
    if listItem < item then (true, item :: anti)
    -- if they are equal it will not be added
    else if listItem = item then (false, anti)
    -- otherwise keep searching anti for a match
    else strLstMergeAntiNext listItem anti

/-- `strLstMergeAnti`. -/
def strLstMergeAnti : List Str → List Str → List Str
  | [], _ => []
  | listItem :: this, anti =>
    let next := strLstMergeAntiNext listItem anti
    if next.1 then listItem :: strLstMergeAnti this next.2 else strLstMergeAnti this next.2

/-- `archivePushReadyList`. -/
def archivePushReadyList (archiveStatus : Finset Str) : List Str :=
  let readyListRaw := (archiveStatus.filter fun file => strEndsWith file STATUS_EXT_READY).sort (· ≤ ·)
  readyListRaw.map fun ready => strSubN ready 0 (ready.length - STATUS_EXT_READY.length)

/-- What is done with a status file: it is removed if it does not end in ok, and
added to the list of ok files if it does. -/
def archivePushStatusFile (path : Str) (state : Finset Str × List Str) (statusFile : Str) :
    Except Error (Finset Str × List Str) :=
  if strEndsWith statusFile STATUS_EXT_OK then
    .ok (state.1, state.2 ++ [strSubN statusFile 0 (statusFile.length - STATUS_EXT_OK.length)])
  else do
    let files ← storageRemove path state.1 statusFile
    .ok (files, state.2)

/-- `archivePushProcessList`, with what is left in the spool queue. -/
def archivePushProcessList (path : Str) (queue archiveStatus : Finset Str) :
    Except Error (Finset Str × List Str) := do
  let statusList := queue.sort (· ≤ ·)
  let (queue, okList) ← statusList.foldlM (archivePushStatusFile path) (queue, [])
  let readyList := archivePushReadyList archiveStatus
  -- remove ok files that are not in the ready list
  let okRemoveList := strLstMergeAnti okList readyList
  let queue ← okRemoveList.foldlM (fun queue ok => storageRemove path queue (ok ++ STATUS_EXT_OK)) queue
  -- return all ready files that are not in the ok list
  .ok (queue, strLstMergeAnti readyList okList)

/-! ## Merging -/

/-- What is not found in the walk over both lists is left. -/
theorem strLstMergeAnti_eq_filter {this anti : List Str} (hnodup : this.Nodup) :
    strLstMergeAnti this anti = this.filter fun item => item ∉ MergeWalk.common this anti := by
  fun_induction MergeWalk.common this anti with
  | case1 anti => rfl
  | case2 item this =>
    have hnil : ∀ this : List Str, strLstMergeAnti this [] = this := by
      intro this
      induction this with
      | nil => rfl
      | cons item this ih => exact congrArg (item :: ·) ih
    rw [hnil]
    exact (filter_eq_self.mpr fun item _ => by simp).symm
  | case3 item this next anti h ih =>
    obtain ⟨hnotMem, hnodup⟩ := nodup_cons.mp hnodup
    have hnotFound : item ∉ MergeWalk.common this (next :: anti) :=
      fun hmem => hnotMem (MergeWalk.common_subset _ _ hmem)
    rw [strLstMergeAnti, strLstMergeAntiNext, if_pos h, filter_cons_of_pos (by simpa using hnotFound),
      ← ih hnodup]
    rfl
  | case4 this item anti h ih =>
    obtain ⟨hnotMem, hnodup⟩ := nodup_cons.mp hnodup
    have hcongr : ∀ other ∈ this, decide (other ∉ item :: MergeWalk.common this anti)
        = decide (other ∉ MergeWalk.common this anti) := by
      intro other hother
      have hne : other ≠ item := fun heq => hnotMem (heq ▸ hother)
      simp [hne]
    rw [strLstMergeAnti, strLstMergeAntiNext, if_neg h, if_pos rfl, filter_cons_of_neg (by simp),
      filter_congr hcongr, ← ih hnodup]
    rfl
  | case5 item this next anti h hne ih =>
    rw [← ih hnodup, strLstMergeAnti, strLstMergeAntiNext, if_neg h, if_neg hne, strLstMergeAnti]

/-! ## Names without their extension -/

section Extension

variable {ext : Str}

theorem map_strSubN {files : List Str} (hfiles : files.Pairwise (· < ·))
    (hext : ∀ file ∈ files, strEndsWith file ext = true) :
    (files.map fun file => strSubN file 0 (file.length - ext.length)).Pairwise
        (fun a b => a ++ ext < b ++ ext)
      ∧ ∀ name, name ∈ (files.map fun file => strSubN file 0 (file.length - ext.length))
        ↔ name ++ ext ∈ files := by
  have hname : ∀ file ∈ files, strSubN file 0 (file.length - ext.length) ++ ext = file := by
    intro file hfile
    have ⟨name, heq⟩ := strEndsWith_iff.mp (hext file hfile)
    rw [heq, strSubN_append]
  constructor
  · rw [pairwise_map]
    refine hfiles.imp_of_mem fun ha hb h => ?_
    rwa [hname _ ha, hname _ hb]
  · intro name
    rw [mem_map]
    constructor
    · rintro ⟨file, hfile, rfl⟩
      rwa [hname file hfile]
    · exact fun h => ⟨_, h, strSubN_append name ext⟩

end Extension

theorem pairwise_sort (files : Finset Str) : (files.sort (· ≤ ·)).Pairwise (· < ·) :=
  files.sortedLT_sort.pairwise

theorem archivePushReadyList_spec (archiveStatus : Finset Str) :
    (archivePushReadyList archiveStatus).Pairwise
        (fun a b => a ++ STATUS_EXT_READY < b ++ STATUS_EXT_READY)
      ∧ ∀ name, name ∈ archivePushReadyList archiveStatus
        ↔ name ∈ {name | name ++ STATUS_EXT_READY ∈ archiveStatus} := by
  have hmem : ∀ {file : Str}, file ∈ (archiveStatus.filter fun file =>
      strEndsWith file STATUS_EXT_READY).sort (· ≤ ·) ↔
        file ∈ archiveStatus ∧ strEndsWith file STATUS_EXT_READY = true := by
    intro file
    rw [Finset.mem_sort, Finset.mem_filter]
  have ⟨hsorted, hnames⟩ := map_strSubN (pairwise_sort _) fun file hfile => (hmem.mp hfile).2
  refine ⟨hsorted, fun name => (hnames name).trans (hmem.trans ?_)⟩
  exact and_iff_left (strEndsWith_iff.mpr ⟨name, rfl⟩)

/-! ## Files that are removed -/

theorem foldlM_archivePushStatusFile (path : Str) {statusList : List Str} (hnodup : statusList.Nodup) :
    ∀ (queue : Finset Str) (okList : List Str), (∀ file ∈ statusList, file ∈ queue) →
      statusList.foldlM (archivePushStatusFile path) (queue, okList) =
        .ok (queue.filter fun file => file ∈ statusList → strEndsWith file STATUS_EXT_OK = true,
          okList ++ (statusList.filter fun file => strEndsWith file STATUS_EXT_OK).map
            fun file => strSubN file 0 (file.length - STATUS_EXT_OK.length)) := by
  induction statusList with
  | nil =>
    intro queue okList _
    simp [pure, Except.pure]
  | cons file statusList ih =>
    intro queue okList hqueue
    have ⟨hnotMem, hnodup⟩ := nodup_cons.mp hnodup
    have hfile := hqueue file mem_cons_self
    rw [foldlM_cons, archivePushStatusFile]
    by_cases hok : strEndsWith file STATUS_EXT_OK = true
    · rw [if_pos hok]
      refine (ih hnodup queue _ fun other hother => hqueue other (mem_cons_of_mem _ hother)).trans ?_
      rw [filter_cons, if_pos hok, append_assoc]
      refine congrArg (fun queue => Except.ok (queue, _)) (Finset.filter_congr fun other _ => ?_)
      rw [mem_cons, or_imp]
      exact (and_iff_right fun heq => heq ▸ hok).symm
    · rw [if_neg hok, storageRemove, if_pos hfile, filter_cons, if_neg hok]
      refine (ih hnodup (queue.erase file) okList fun other hother => ?_).trans ?_
      · exact Finset.mem_erase.mpr ⟨fun heq => hnotMem (heq ▸ hother),
          hqueue other (mem_cons_of_mem _ hother)⟩
      · refine congrArg (fun queue => Except.ok (queue, _)) ?_
        ext other
        rw [Finset.mem_filter, Finset.mem_filter, Finset.mem_erase, mem_cons, or_imp]
        constructor
        · exact fun h => ⟨h.1.2, fun heq => absurd heq h.1.1, h.2⟩
        · exact fun h => ⟨⟨fun heq => hok (heq ▸ h.2.1 heq), h.1⟩, h.2.2⟩

theorem foldlM_storageRemove (path : Str) {names : List Str} (hnodup : names.Nodup) :
    ∀ queue : Finset Str, (∀ name ∈ names, name ++ STATUS_EXT_OK ∈ queue) →
      names.foldlM (fun queue ok => storageRemove path queue (ok ++ STATUS_EXT_OK)) queue =
        .ok (queue.filter fun file => ∀ name ∈ names, file ≠ name ++ STATUS_EXT_OK) := by
  induction names with
  | nil =>
    intro queue _
    simp [pure, Except.pure]
  | cons name names ih =>
    intro queue hqueue
    have ⟨hnotMem, hnodup⟩ := nodup_cons.mp hnodup
    rw [foldlM_cons, storageRemove, if_pos (hqueue name mem_cons_self)]
    refine (ih hnodup _ fun other hother => ?_).trans (congrArg Except.ok ?_)
    · refine Finset.mem_erase.mpr ⟨fun heq => hnotMem ?_, hqueue other (mem_cons_of_mem _ hother)⟩
      rwa [← append_cancel_right heq]
    · ext file
      rw [Finset.mem_filter, Finset.mem_filter, Finset.mem_erase, forall_mem_cons]
      exact ⟨fun h => ⟨h.1.2, h.1.1, h.2⟩, fun h => ⟨⟨h.2.1, h.1⟩, h.2.2⟩⟩

/-! ## The differences -/

/-- Only the ok files that are ready are left in the queue, and the ready files
that are not ok are returned, each once. -/
structure PushProcessed (queue archiveStatus remaining : Finset Str) (processList : List Str) : Prop where
  remains : ∀ file, file ∈ remaining ↔
    ∃ name, file = name ++ STATUS_EXT_OK ∧ file ∈ queue ∧ name ++ STATUS_EXT_READY ∈ archiveStatus
  returned : ∀ name, name ∈ processList ↔
    name ++ STATUS_EXT_READY ∈ archiveStatus ∧ name ++ STATUS_EXT_OK ∉ queue
  nodup : processList.Nodup

/-- What `archivePushProcessList` does with the names that are found to be both
ok and ready. -/
theorem archivePushProcessList_spec (path : Str) (queue archiveStatus : Finset Str) :
    ∃ okList readyList : List Str,
      okList.Pairwise (fun a b => a ++ STATUS_EXT_OK < b ++ STATUS_EXT_OK)
      ∧ readyList.Pairwise (fun a b => a ++ STATUS_EXT_READY < b ++ STATUS_EXT_READY)
      ∧ (∀ name, name ∈ okList ↔ name ∈ {name | name ++ STATUS_EXT_OK ∈ queue})
      ∧ (∀ name, name ∈ readyList ↔ name ∈ {name | name ++ STATUS_EXT_READY ∈ archiveStatus})
      ∧ archivePushProcessList path queue archiveStatus =
        .ok (queue.filter fun file => ∃ name ∈ MergeWalk.common okList readyList, file = name ++ STATUS_EXT_OK,
          readyList.filter fun name => name ∉ MergeWalk.common okList readyList) := by
  have hne : ∀ {ext : Str} {names : List Str}, names.Pairwise (fun a b => a ++ ext < b ++ ext) →
      names.Nodup := fun h => h.imp fun hlt heq => hlt.ne (congrArg (· ++ _) heq)
  have hsorted := pairwise_sort queue
  have hstatus : ∀ file ∈ queue.sort (· ≤ ·), file ∈ queue := fun file => (Finset.mem_sort _).mp
  have hfold := foldlM_archivePushStatusFile path (hsorted.imp fun h => h.ne) queue [] hstatus
  have ⟨hokSorted, hokMem⟩ := map_strSubN (hsorted.filter fun file => strEndsWith file STATUS_EXT_OK)
    fun file hfile => (mem_filter.mp hfile).2
  have ⟨hreadySorted, hreadyMem⟩ := archivePushReadyList_spec archiveStatus
  generalize ((queue.sort (· ≤ ·)).filter fun file => strEndsWith file STATUS_EXT_OK).map
    (fun file => strSubN file 0 (file.length - STATUS_EXT_OK.length)) = okList at hfold hokSorted hokMem
  generalize hreadyList : archivePushReadyList archiveStatus = readyList at hreadySorted hreadyMem
  have hok : ∀ name, name ∈ okList ↔ name ++ STATUS_EXT_OK ∈ queue := by
    intro name
    rw [hokMem, mem_filter, Finset.mem_sort]
    exact and_iff_left (strEndsWith_iff.mpr ⟨name, rfl⟩)
  refine ⟨okList, readyList, hokSorted, hreadySorted, hok, hreadyMem, ?_⟩
  unfold archivePushProcessList
  dsimp only
  rw [hfold, hreadyList]
  show ((foldlM _ _ _ : Except Error (Finset Str)) >>= fun queue => _) = _
  rw [nil_append, strLstMergeAnti_eq_filter (hne hokSorted), strLstMergeAnti_eq_filter (hne hreadySorted),
    MergeWalk.common_comm readyList okList, foldlM_storageRemove path ((hne hokSorted).filter _)]
  · refine congrArg (fun queue => Except.ok (queue, _)) ?_
    ext file
    rw [Finset.mem_filter, Finset.mem_filter, Finset.mem_filter, Finset.mem_sort, and_assoc]
    refine and_congr_right fun hfile => ?_
    rw [imp_iff_right hfile, strEndsWith_iff]
    constructor
    · rintro ⟨⟨name, heq⟩, hkept⟩
      refine ⟨name, not_not.mp fun hnot => ?_, heq⟩
      refine hkept name (mem_filter.mpr ⟨(hok name).mpr (heq ▸ hfile), ?_⟩) heq
      exact decide_eq_true hnot
    · rintro ⟨name, hmem, heq⟩
      refine ⟨⟨name, heq⟩, fun other hother heq' => ?_⟩
      rw [heq] at heq'
      rw [← append_cancel_right heq'] at hother
      exact absurd hmem (of_decide_eq_true (mem_filter.mp hother).2)
  · intro name hname
    have hmem := (hok name).mp (mem_filter.mp hname).1
    exact Finset.mem_filter.mpr ⟨hmem, fun _ => strEndsWith_iff.mpr ⟨name, rfl⟩⟩

/-- **The differences are exact** when the names agree: those that are both ok
and ready are in one order with both extensions, and every other name is less
than the next of them. -/
theorem archivePushProcessList_exact (path : Str) (queue archiveStatus : Finset Str) :
    ∃ remaining processList, archivePushProcessList path queue archiveStatus = .ok (remaining, processList)
      ∧ (PushProcessed queue archiveStatus remaining processList ↔
        MergeWalk.Agree (· ++ STATUS_EXT_OK) (· ++ STATUS_EXT_READY)
          {name | name ++ STATUS_EXT_OK ∈ queue} {name | name ++ STATUS_EXT_READY ∈ archiveStatus}) := by
  have ⟨okList, readyList, hokSorted, hreadySorted, hok, hready, heq⟩ :=
    archivePushProcessList_spec path queue archiveStatus
  refine ⟨_, _, heq, ?_⟩
  rw [← MergeWalk.forall_mem_common_iff_agree hokSorted hreadySorted hok hready]
  constructor
  · intro h name hmemOk hmemReady
    refine not_not.mp fun hnot => ?_
    have hreturned := (h.returned name).mp (mem_filter.mpr ⟨hmemReady, decide_eq_true hnot⟩)
    exact hreturned.2 ((hok name).mp hmemOk)
  · intro hall
    have hcommon : ∀ name, name ∈ MergeWalk.common okList readyList ↔
        name ++ STATUS_EXT_OK ∈ queue ∧ name ++ STATUS_EXT_READY ∈ archiveStatus := by
      refine fun name => ⟨fun hmem => ?_, fun h => hall name ((hok name).mpr h.1) ((hready name).mpr h.2)⟩
      have hmem' := hmem
      rw [MergeWalk.common_comm] at hmem'
      exact ⟨(hok name).mp (MergeWalk.common_subset _ _ hmem),
        (hready name).mp (MergeWalk.common_subset _ _ hmem')⟩
    refine ⟨fun file => ?_, fun name => ?_, ?_⟩
    · rw [Finset.mem_filter]
      constructor
      · rintro ⟨hfile, name, hmem, rfl⟩
        exact ⟨name, rfl, hfile, ((hcommon name).mp hmem).2⟩
      · rintro ⟨name, rfl, hfile, hmem⟩
        exact ⟨hfile, name, (hcommon name).mpr ⟨hfile, hmem⟩, rfl⟩
    · rw [mem_filter, hready, decide_eq_true_eq, hcommon]
      exact and_congr_right fun hmem => not_congr (and_iff_left hmem)
    · refine (hreadySorted.filter _).imp fun hlt heq => hlt.ne ?_
      exact congrArg (· ++ STATUS_EXT_READY) heq

/-- A segment that is ready and ok. Its backup file is ready as well. -/
def pushQueueSample : Finset Str := {"000000010000000100000001.ok".toList}

def archiveStatusSample : Finset Str :=
  {"000000010000000100000001.ready".toList, "000000010000000100000001.00000028.backup.ready".toList}

/-- The segment is pushed again, and its ok file is removed. -/
theorem archivePushProcessList_backup : ∃ remaining processList,
    archivePushProcessList "<SPOOL:ARCHIVE:OUT>".toList pushQueueSample archiveStatusSample
        = .ok (remaining, processList)
      ∧ remaining = ∅
      ∧ processList = ["000000010000000100000001.00000028.backup".toList, "000000010000000100000001".toList]
      ∧ ¬ PushProcessed pushQueueSample archiveStatusSample remaining processList := by
  have hqueue : pushQueueSample.sort (· ≤ ·) = ["000000010000000100000001.ok".toList] :=
    Finset.sort_singleton _ _
  have hready : archiveStatusSample.filter (fun file => strEndsWith file STATUS_EXT_READY) =
      ["000000010000000100000001.00000028.backup.ready".toList,
        "000000010000000100000001.ready".toList].toFinset := by
    decide +kernel
  have hsort := (toFinset_sort (r := (· ≤ ·)) (by decide +kernel :
    ["000000010000000100000001.00000028.backup.ready".toList,
      "000000010000000100000001.ready".toList].Nodup)).mpr (by decide +kernel)
  refine ⟨_, _, ?_, rfl, rfl, fun h => ?_⟩
  · unfold archivePushProcessList archivePushReadyList
    rw [hqueue, hready, hsort]
    decide +kernel
  · have hremains := (h.remains "000000010000000100000001.ok".toList).mpr
      ⟨"000000010000000100000001".toList, by decide +kernel, by decide +kernel, by decide +kernel⟩
    exact absurd hremains (Finset.notMem_empty _)

end PgxBackup
