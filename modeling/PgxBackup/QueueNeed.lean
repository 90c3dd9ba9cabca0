import Mathlib.Data.Finset.Sort
import PgxBackup.ArchiveAsync
import PgxBackup.ArchiveGetAsyncSafe
import PgxBackup.WalSegmentName

/-!
# Reconciling the queue of archive-get

`queueNeed` removes from the spool queue what is not wanted any more and finds
which of the wanted segments are missing. An ok file that belongs to a segment
is to stay with it.

Whether the segment of an ok file is there is looked up in the list of files
from before anything was removed, so the ok file of a segment that is removed
stays. The number of wanted segments is cut to 32 bits.
-/

namespace PgxBackup

open List

/-- `strEndsWith`. -/
def strEndsWith (s endsWith : Str) : Bool := endsWith.isSuffixOf s

/-- What `queueNeed` leaves in the queue and what it returns. -/
structure QueueNeed where
  queue : Finset Str
  result : List Str

/-- What is done with a file of the queue: it is added to the files that are
kept, removed, or left alone. -/
def queueNeedFile (idealQueue actualQueue : List Str) (state : Finset Str × List Str) (file : Str) :
    Finset Str × List Str :=
  -- does this match a file we want to preserve?
  if file ∈ idealQueue then (state.1, state.2 ++ [file])
  -- else delete if it does not match an ok file for a WAL segment that has already been preserved
  else if !strEndsWith file STATUS_EXT_OK ∨
      strSubN file 0 (file.length - STATUS_EXT_OK.length) ∉ actualQueue then
    (state.1.erase file, state.2)
  else state

/-- The first segment that is wanted. If the requested one was found but the
queue is not full then this is the next one. -/
def queueNeedFirst (walSegment : Str) (found : Bool) (walSegmentSize : ℕ) : Except Error Str :=
  if found then walSegmentNextStr walSegment walSegmentSize else .ok walSegment

/-- `queueNeed`, on the names of the files in the queue. -/
def queueNeedStr (walSegment : Str) (found : Bool) (queueSize walSegmentSize : ℕ) (queue : Finset Str) :
    Except Error QueueNeed := do
  let walSegmentFirst ← queueNeedFirst walSegment found walSegmentSize
  -- the queue total is an `unsigned int`
  let walSegmentQueueTotal := queueSize / walSegmentSize % 2 ^ 32
  let walSegmentQueueTotal := if walSegmentQueueTotal < 2 then 2 else walSegmentQueueTotal
  let range ← walSegmentRangeStr walSegmentFirst walSegmentSize walSegmentQueueTotal
  let idealQueue := strLstSort range .asc
  let actualQueue := queue.sort (· ≤ ·)
  let (queue, keepQueue) := actualQueue.foldl (queueNeedFile idealQueue actualQueue) (queue, [])
  .ok ⟨queue, idealQueue.filter fun file => file ∉ keepQueue⟩

/-! ## Names of segments -/

def WalSegment.name (walSegment : WalSegment) : Str :=
  walSegmentFmt walSegment.timeline walSegment.major walSegment.minor

def IsWalSegmentName (walSegment : Str) : Prop :=
  walSegment.length = 24 ∧ ∀ c ∈ walSegment, ∃ i < 16, c = hexDigit i

theorem WalSegment.name_injective : Function.Injective WalSegment.name := by
  intro a b h
  unfold WalSegment.name at h
  have ha := a.timeline_lt
  have hb := b.timeline_lt
  have hmajor := a.major_lt
  have hmajor' := b.major_lt
  have hminor := a.minor_lt
  have hminor' := b.minor_lt
  rw [walSegmentFmt_eq_digits hmajor hminor, walSegmentFmt_eq_digits hmajor' hminor',
    FixedWidth.digits_inj hexDigit_lt (by omega) (by omega)] at h
  have htimelines : a.timeline = b.timeline := by omega
  have hmajors : a.major = b.major := by omega
  have hminors : a.minor = b.minor := by omega
  cases a
  cases b
  simp only [WalSegment.mk.injEq]
  exact ⟨htimelines, hmajors, hminors⟩

/-- **Every name of 24 digits** is the name of a segment. -/
theorem IsWalSegmentName.exists_name {walSegment : Str} (h : IsWalSegmentName walSegment) :
    ∃ segment : WalSegment, walSegment = segment.name := by
  have hvalue : ∀ c ∈ walSegment, hexValue c < 16 ∧ hexDigit (hexValue c) = c := by
    intro c hc
    have ⟨i, hi, heq⟩ := h.2 c hc
    rw [heq, hexValue_hexDigit i hi]
    exact ⟨hi, rfl⟩
  have hdigits := FixedWidth.digits_ofDigits hvalue
  have hlt := FixedWidth.ofDigits_lt fun c hc => (hvalue c hc).1
  rw [h.1] at hdigits hlt
  refine ⟨⟨FixedWidth.ofDigits hexValue 16 walSegment / 2 ^ 64,
    FixedWidth.ofDigits hexValue 16 walSegment / 2 ^ 32 % 2 ^ 32,
    FixedWidth.ofDigits hexValue 16 walSegment % 2 ^ 32, by omega, Nat.mod_lt _ (by decide),
    Nat.mod_lt _ (by decide)⟩, ?_⟩
  unfold WalSegment.name
  rw [walSegmentFmt_eq_digits (Nat.mod_lt _ (by decide)) (Nat.mod_lt _ (by decide))]
  refine hdigits.symm.trans (congrArg _ ?_)
  dsimp only
  omega

/-- `walSegmentNext` on the name is `walSegmentNext` on the numbers. -/
theorem walSegmentNextStr_name (walSegmentSize : ℕ) (walSegment : WalSegment) :
    walSegmentNextStr walSegment.name walSegmentSize
      = .ok (walSegmentNext walSegmentSize walSegment).name := by
  unfold WalSegment.name
  rw [walSegmentNextStr_fmt walSegment.timeline_lt walSegment.major_lt walSegment.minor_lt]
  refine congrArg Except.ok ?_
  unfold walSegmentNext
  dsimp only
  split
  next h => rfl
  next h => rfl

/-- `walSegmentRange` on the name is `walSegmentRange` on the numbers. -/
theorem walSegmentRangeLoop_name (walSegmentSize range : ℕ) : ∀ walSegment : WalSegment,
    walSegmentRangeLoop walSegmentSize range walSegment.name =
      .ok ((iterate (walSegmentNext walSegmentSize) (walSegmentNext walSegmentSize walSegment)
        range).map WalSegment.name) := by
  induction range with
  | zero => exact fun _ => rfl
  | succ range ih =>
    intro walSegment
    unfold walSegmentRangeLoop
    rw [walSegmentNextStr_name]
    show (walSegmentRangeLoop _ _ _ >>= fun list => _) = _
    rw [ih]
    rfl

theorem walSegmentRangeStr_name (walSegment : WalSegment) (walSegmentSize : ℕ) {range : ℕ}
    (hrange : 0 < range) :
    walSegmentRangeStr walSegment.name walSegmentSize range =
      .ok ((walSegmentRange walSegment walSegmentSize range).map WalSegment.name) := by
  have ⟨n, hn⟩ := Nat.exists_eq_succ_of_ne_zero hrange.ne'
  unfold walSegmentRangeStr
  rw [walSegmentRangeLoop_name, hn]
  rfl

/-! ## What stays in the queue -/

/-- A file that stays: a wanted segment, or the ok file of a file that was there. -/
def QueueKeeps (idealQueue actualQueue : List Str) (file : Str) : Prop :=
  file ∈ idealQueue ∨ ∃ segment ∈ actualQueue, file = segment ++ STATUS_EXT_OK

theorem strEndsWith_iff {s ext : Str} : strEndsWith s ext = true ↔ ∃ name, s = name ++ ext := by
  unfold strEndsWith
  rw [isSuffixOf_iff_suffix]
  exact ⟨fun ⟨name, h⟩ => ⟨name, h.symm⟩, fun ⟨name, h⟩ => ⟨name, h.symm⟩⟩

theorem strSubN_append (name ext : Str) :
    strSubN (name ++ ext) 0 ((name ++ ext).length - ext.length) = name := by
  show (name ++ ext).take _ = name
  rw [length_append, Nat.add_sub_cancel, take_left]

theorem queueNeedFile_removes {actualQueue : List Str} {file : Str} :
    ((!strEndsWith file STATUS_EXT_OK) = true ∨
        strSubN file 0 (file.length - STATUS_EXT_OK.length) ∉ actualQueue)
      ↔ ¬ ∃ segment ∈ actualQueue, file = segment ++ STATUS_EXT_OK := by
  constructor
  · rintro h ⟨segment, hmem, rfl⟩
    rcases h with h | h
    · rw [Bool.not_eq_true', ← Bool.not_eq_true] at h
      exact h (strEndsWith_iff.mpr ⟨segment, rfl⟩)
    · rw [strSubN_append] at h
      exact h hmem
  · intro h
    by_cases hends : strEndsWith file STATUS_EXT_OK = true
    · have ⟨segment, heq⟩ := strEndsWith_iff.mp hends
      refine Or.inr fun hmem => h ⟨segment, ?_, heq⟩
      rwa [heq, strSubN_append] at hmem
    · exact Or.inl (by rwa [Bool.not_eq_true', ← Bool.not_eq_true])

section Files

variable {idealQueue actualQueue : List Str}

theorem mem_queueNeedFile (state : Finset Str × List Str) (next file : Str) :
    (file ∈ (queueNeedFile idealQueue actualQueue state next).1
        ↔ file ∈ state.1 ∧ (file = next → QueueKeeps idealQueue actualQueue file))
      ∧ (file ∈ (queueNeedFile idealQueue actualQueue state next).2
        ↔ file ∈ state.2 ∨ file = next ∧ file ∈ idealQueue) := by
  unfold queueNeedFile QueueKeeps
  by_cases hideal : next ∈ idealQueue
  · rw [if_pos hideal, mem_append, mem_singleton]
    refine ⟨⟨fun h => ⟨h, ?_⟩, fun h => h.1⟩, or_congr_right ⟨fun h => ⟨h, ?_⟩, fun h => h.1⟩⟩
    · rintro rfl
      exact Or.inl hideal
    · rwa [h]
  · rw [if_neg hideal]
    have hnot : ¬ (file = next ∧ file ∈ idealQueue) := by
      rintro ⟨rfl, h⟩
      exact hideal h
    split
    next h =>
      rw [queueNeedFile_removes] at h
      refine ⟨?_, (or_iff_left hnot).symm⟩
      rw [Finset.mem_erase, and_comm]
      refine and_congr_right fun _ => ⟨fun hne heq => absurd heq hne, ?_⟩
      rintro hkeeps rfl
      exact (hkeeps rfl).elim hideal h
    next h =>
      rw [queueNeedFile_removes, not_not] at h
      refine ⟨(and_iff_left ?_).symm, (or_iff_left hnot).symm⟩
      rintro rfl
      exact Or.inr h

theorem mem_queueNeed_foldl (files : List Str) (file : Str) : ∀ state : Finset Str × List Str,
    (file ∈ (files.foldl (queueNeedFile idealQueue actualQueue) state).1
        ↔ file ∈ state.1 ∧ (file ∈ files → QueueKeeps idealQueue actualQueue file))
      ∧ (file ∈ (files.foldl (queueNeedFile idealQueue actualQueue) state).2
        ↔ file ∈ state.2 ∨ file ∈ files ∧ file ∈ idealQueue) := by
  induction files with
  | nil => exact fun state => by simp
  | cons next files ih =>
    intro state
    have hstep := @mem_queueNeedFile idealQueue actualQueue state next file
    rw [foldl_cons, (ih _).1, (ih _).2, hstep.1, hstep.2, mem_cons, and_assoc, or_imp, or_assoc,
      or_and_right]
    exact ⟨Iff.rfl, Iff.rfl⟩

end Files

/-- **What `queueNeed` does**, when it is asked for the segments of a range. -/
theorem queueNeedStr_range {walSegment walSegmentFirst : Str} {found : Bool}
    {queueSize walSegmentSize total : ℕ} {queue : Finset Str} {range : List Str}
    (hfirst : queueNeedFirst walSegment found walSegmentSize = .ok walSegmentFirst)
    (htotal : total = max 2 (queueSize / walSegmentSize % 2 ^ 32))
    (hrange : walSegmentRangeStr walSegmentFirst walSegmentSize total = .ok range)
    (hnodup : range.Nodup) :
    ∃ need, queueNeedStr walSegment found queueSize walSegmentSize queue = .ok need
      ∧ (∀ file, file ∈ need.queue ↔ file ∈ queue
        ∧ (file ∈ range ∨ ∃ segment ∈ queue, file = segment ++ STATUS_EXT_OK))
      ∧ (∀ file, file ∈ need.result ↔ file ∈ range ∧ file ∉ queue)
      ∧ need.result.Pairwise (· < ·) := by
  have hideal : ∀ {file : Str}, file ∈ strLstSort range .asc ↔ file ∈ range := mem_strLstSort
  have hactual : ∀ {file : Str}, file ∈ queue.sort (· ≤ ·) ↔ file ∈ queue := Finset.mem_sort _
  have hfold := fun file => @mem_queueNeed_foldl (strLstSort range .asc) (queue.sort (· ≤ ·))
    (queue.sort (· ≤ ·)) file (queue, [])
  have hmax : total = if queueSize / walSegmentSize % 2 ^ 32 < 2 then 2
      else queueSize / walSegmentSize % 2 ^ 32 := by
    rw [htotal]
    split <;> omega
  unfold queueNeedStr
  rw [hfirst]
  dsimp only [bind, Except.bind]
  rw [← hmax, hrange]
  refine ⟨_, rfl, fun file => ?_, fun file => ?_, ?_⟩
  · rw [(hfold file).1, hactual]
    unfold QueueKeeps
    rw [hideal]
    simp only [hactual]
    exact and_congr_right fun hmem => imp_iff_right hmem
  · rw [mem_filter, decide_eq_true_eq, (hfold file).2, hactual, hideal]
    refine and_congr_right fun hmem => not_congr ?_
    exact ⟨fun h => h.elim (absurd · not_mem_nil) And.left, fun h => Or.inr ⟨h, hmem⟩⟩
  · have hle : (strLstSort range .asc).Pairwise (· ≤ ·) := pairwise_insertionSort _ range
    have hne : (strLstSort range .asc).Nodup := (perm_insertionSort _ range).nodup_iff.mpr hnodup
    have hlt : (strLstSort range .asc).Pairwise (· < ·) :=
      List.Pairwise.imp₂ (fun _ _ hle hne => lt_of_le_of_ne hle hne) hle hne
    exact hlt.filter _

/-! ## The window -/

/-- The segments that should be in the queue, as many as fit in its size. -/
def walSegmentWindow (walSegment : Str) (found : Bool) (queueSize walSegmentSize : ℕ) :
    Except Error (List Str) := do
  let walSegmentFirst ← queueNeedFirst walSegment found walSegmentSize
  walSegmentRangeStr walSegmentFirst walSegmentSize (max 2 (queueSize / walSegmentSize))

/-- The queue holds the wanted segments that were there and their ok files, and
the other wanted segments are returned in order. -/
structure QueueReconciled (window : List Str) (actual : Finset Str) (need : QueueNeed) : Prop where
  queue : ∀ file, file ∈ need.queue ↔ file ∈ actual
    ∧ (file ∈ window ∨ ∃ segment ∈ window, segment ∈ actual ∧ file = segment ++ STATUS_EXT_OK)
  result : ∀ file, file ∈ need.result ↔ file ∈ window ∧ file ∉ actual
  sorted : need.result.Pairwise (· < ·)

def WalSegment.first (walSegment : WalSegment) (found : Bool) (walSegmentSize : ℕ) : WalSegment :=
  if found then walSegmentNext walSegmentSize walSegment else walSegment

section

variable (walSegment : WalSegment)

theorem queueNeedFirst_name (found : Bool) (walSegmentSize : ℕ) :
    queueNeedFirst walSegment.name found walSegmentSize
      = .ok (walSegment.first found walSegmentSize).name := by
  cases found with
  | true => exact walSegmentNextStr_name walSegmentSize walSegment
  | false => rfl

theorem walSegmentWindow_name (found : Bool) (queueSize walSegmentSize : ℕ) :
    walSegmentWindow walSegment.name found queueSize walSegmentSize =
      .ok ((walSegmentRange (walSegment.first found walSegmentSize) walSegmentSize
        (max 2 (queueSize / walSegmentSize))).map WalSegment.name) := by
  unfold walSegmentWindow
  rw [queueNeedFirst_name]
  exact walSegmentRangeStr_name _ _ (lt_of_lt_of_le (by decide) (le_max_left _ _))

theorem name_ne_ok (file : Str) : walSegment.name ≠ file ++ STATUS_EXT_OK := by
  intro h
  have hdot : '.' ∈ walSegment.name := by
    rw [h]
    exact mem_append_right _ (by decide)
  have hhex : ∀ n, '.' ∈ hex8 n → False := by
    intro n hmem
    cases isHexDigit_of_mem_hex8 hmem
  unfold WalSegment.name walSegmentFmt at hdot
  rw [mem_append, mem_append] at hdot
  exact hdot.elim (fun h => h.elim (hhex _) (hhex _)) (hhex _)

end

/-- The wanted segments of `queueNeed` are the first ones of the window, and one
of the window is missing if they are fewer. -/
theorem exists_notMem_range {first : WalSegment} {walSegmentSize n total : ℕ} (hlt : n < total)
    (hn : n < 2 ^ 32) : ∃ segment : WalSegment, segment ∈ walSegmentRange first walSegmentSize total
      ∧ segment ∉ walSegmentRange first walSegmentSize n := by
  have hmem : ∀ {segment : WalSegment} {n : ℕ}, segment ∈ walSegmentRange first walSegmentSize n ↔
      ∃ m < n, segment = (walSegmentNext walSegmentSize)^[m] first := mem_iterate
  refine ⟨(walSegmentNext walSegmentSize)^[n] first, hmem.mpr ⟨n, hlt, rfl⟩, fun h => ?_⟩
  have hnodup := @nodup_walSegmentRange walSegmentSize first (n + 1) hn
  have ⟨m, hm, heq⟩ := hmem.mp h
  unfold walSegmentRange at hnodup
  rw [← range_map_iterate] at hnodup
  have hn := inj_on_of_nodup_map hnodup (mem_range.mpr (Nat.lt_succ_self n))
    (mem_range.mpr (hm.trans (Nat.lt_succ_self n))) heq
  exact hm.ne' hn

/-- What `queueNeed` does for a segment. The number of wanted segments is cut. -/
theorem queueNeedStr_name (segment : WalSegment) (found : Bool) (queueSize walSegmentSize : ℕ)
    (queue : Finset Str) : ∃ range need,
      range = (walSegmentRange (segment.first found walSegmentSize) walSegmentSize
        (max 2 (queueSize / walSegmentSize % 2 ^ 32))).map WalSegment.name
      ∧ queueNeedStr segment.name found queueSize walSegmentSize queue = .ok need
      ∧ (∀ file, file ∈ need.queue ↔ file ∈ queue
        ∧ (file ∈ range ∨ ∃ segment ∈ queue, file = segment ++ STATUS_EXT_OK))
      ∧ (∀ file, file ∈ need.result ↔ file ∈ range ∧ file ∉ queue)
      ∧ need.result.Pairwise (· < ·) := by
  have hcut : max 2 (queueSize / walSegmentSize % 2 ^ 32) ≤ 2 ^ 32 := by omega
  have hnodup := (nodup_walSegmentRange walSegmentSize (segment.first found walSegmentSize)
    hcut).map WalSegment.name_injective
  have ⟨need, hneed⟩ := @queueNeedStr_range _ _ _ _ _ _ queue _
    (queueNeedFirst_name segment found walSegmentSize) rfl
    (walSegmentRangeStr_name _ _ (lt_of_lt_of_le (by decide) (le_max_left _ _))) hnodup
  exact ⟨_, need, rfl, hneed⟩

section Reconciled

variable {window range : List WalSegment} {queue : Finset Str} {need : QueueNeed}

section

variable (h : QueueReconciled (window.map WalSegment.name) queue need)
  (hqueue : ∀ file, file ∈ need.queue ↔ file ∈ queue ∧
    (file ∈ range.map WalSegment.name ∨ ∃ segment ∈ queue, file = segment ++ STATUS_EXT_OK))
include h hqueue

/-- Every ok file that stays is for a wanted segment. -/
theorem QueueReconciled.wanted :
    ∀ segment ∈ queue, segment ++ STATUS_EXT_OK ∈ queue → segment ∈ window.map WalSegment.name := by
  intro segment hsegment hok
  have hstays := (hqueue _).mpr ⟨hok, Or.inr ⟨segment, hsegment, rfl⟩⟩
  rcases ((h.queue _).mp hstays).2 with hwindow | ⟨wanted, hwindow, _, heq⟩
  · have ⟨wanted, _, heq⟩ := mem_map.mp hwindow
    exact absurd heq (name_ne_ok wanted segment)
  · rwa [append_cancel_right heq]

theorem QueueReconciled.complete
    (hresult : ∀ file, file ∈ need.result ↔ file ∈ range.map WalSegment.name ∧ file ∉ queue) :
    ∀ segment ∈ window, segment ∈ range := by
  intro segment hsegment
  have hwindow : segment.name ∈ window.map WalSegment.name := mem_map_of_mem hsegment
  rw [← mem_map_of_injective WalSegment.name_injective]
  by_cases hmem : segment.name ∈ queue
  · -- it is there and should stay
    rcases ((hqueue _).mp ((h.queue _).mpr ⟨hmem, Or.inl hwindow⟩)).2 with hrange | ⟨file, _, hok⟩
    · exact hrange
    · exact absurd hok (name_ne_ok segment file)
  · -- it is not there and should be fetched
    exact ((hresult _).mp ((h.result _).mpr ⟨hwindow, hmem⟩)).1

end

end Reconciled

/-- **The queue is reconciled exactly** when the number of wanted segments fits
32 bits and every ok file of a file in the queue is for a wanted segment. -/
theorem queueNeed_exact {walSegment : Str} (hwal : IsWalSegmentName walSegment) (found : Bool)
    (queueSize walSegmentSize : ℕ) (queue : Finset Str) :
    ∃ window need, walSegmentWindow walSegment found queueSize walSegmentSize = .ok window
      ∧ queueNeedStr walSegment found queueSize walSegmentSize queue = .ok need
      ∧ (QueueReconciled window queue need ↔ queueSize / walSegmentSize < 2 ^ 32
        ∧ ∀ segment ∈ queue, segment ++ STATUS_EXT_OK ∈ queue → segment ∈ window) := by
  have ⟨segment, hname⟩ := hwal.exists_name
  rw [hname]
  have ⟨range, need, hrange, hneed, hqueue, hresult, hsorted⟩ :=
    queueNeedStr_name segment found queueSize walSegmentSize queue
  refine ⟨_, need, walSegmentWindow_name segment found queueSize walSegmentSize, hneed, ?_⟩
  constructor
  · intro h
    rw [hrange] at hqueue hresult
    refine ⟨?_, h.wanted hqueue⟩
    by_contra hlarge
    have ⟨missing, hwindow, hmissing⟩ := @exists_notMem_range (segment.first found walSegmentSize)
      walSegmentSize (max 2 (queueSize / walSegmentSize % 2 ^ 32))
      (max 2 (queueSize / walSegmentSize)) (by omega) (by omega)
    exact hmissing (h.complete hqueue hresult missing hwindow)
  · rintro ⟨hfit, hok⟩
    rw [Nat.mod_eq_of_lt hfit] at hrange
    rw [← hrange] at hok ⊢
    refine ⟨fun file => ?_, hresult, hsorted⟩
    rw [hqueue]
    refine and_congr_right fun hfile => or_congr_right ⟨?_, ?_⟩
    · rintro ⟨segment, hmem, rfl⟩
      exact ⟨segment, hok segment hmem hfile, hmem, rfl⟩
    · rintro ⟨segment, _, hmem, heq⟩
      exact ⟨segment, hmem, heq⟩

/-- A wanted segment with its ok file, and a segment that is not wanted. -/
def queueNeedWanted : Finset Str :=
  {walSegmentFmt 1 0 1, walSegmentFmt 1 0 1 ++ STATUS_EXT_OK, walSegmentFmt 1 0 5}

/-- The queue is reconciled when only a wanted segment has an ok file. -/
theorem queueNeed_exact_wanted :
    IsWalSegmentName (walSegmentFmt 1 0 1) ∧ ∃ window need,
      walSegmentWindow (walSegmentFmt 1 0 1) false 0 (2 ^ 24) = .ok window
      ∧ queueNeedStr (walSegmentFmt 1 0 1) false 0 (2 ^ 24) queueNeedWanted = .ok need
      ∧ QueueReconciled window queueNeedWanted need := by
  have hname : IsWalSegmentName (walSegmentFmt 1 0 1) := by
    unfold IsWalSegmentName
    decide +kernel
  have ⟨window, need, hwindow, hneed, hiff⟩ := queueNeed_exact hname false 0 (2 ^ 24) queueNeedWanted
  refine ⟨hname, window, need, hwindow, hneed, hiff.mpr ⟨by decide, fun segment hsegment hok => ?_⟩⟩
  have hfirst := walSegmentWindow_name ⟨1, 0, 1, by decide, by decide, by decide⟩ false 0 (2 ^ 24)
  have hvalue := Except.ok.inj (hwindow.symm.trans hfirst)
  simp only [queueNeedWanted, Finset.mem_insert, Finset.mem_singleton] at hsegment
  obtain rfl | rfl | rfl := hsegment
  · rw [hvalue]
    decide +kernel
  · exact absurd hok (by decide +kernel)
  · exact absurd hok (by decide +kernel)

/-- A segment that is not wanted, with its ok file. -/
def queueNeedSample : Finset Str :=
  {walSegmentFmt 1 0 5, walSegmentFmt 1 0 5 ++ STATUS_EXT_OK}

/-- The ok file of a segment that is removed stays. -/
theorem queueNeedStr_staleOk : ∃ window need,
    walSegmentWindow (walSegmentFmt 1 0 1) false 0 (2 ^ 24) = .ok window
      ∧ queueNeedStr (walSegmentFmt 1 0 1) false 0 (2 ^ 24) queueNeedSample = .ok need
      ∧ ¬ QueueReconciled window queueNeedSample need := by
  have ⟨range, need, hrange, hneed, hqueue, hresult, hsorted⟩ :=
    queueNeedStr_name ⟨1, 0, 1, by decide, by decide, by decide⟩ false 0 (2 ^ 24) queueNeedSample
  refine ⟨_, need, walSegmentWindow_name ⟨1, 0, 1, by decide, by decide, by decide⟩ false 0 (2 ^ 24),
    hneed, fun h => ?_⟩
  rw [hrange] at hqueue
  have hwanted := h.wanted hqueue (walSegmentFmt 1 0 5) (by simp [queueNeedSample])
    (by simp [queueNeedSample])
  exact absurd hwanted (by decide +kernel)

end PgxBackup
