import Mathlib.Data.List.Nodup
import Mathlib.Data.Nat.ModEq
import PgxBackup.ArchiveGetAsync

/-!
# A fetched segment is not reported missing

The foreground process tests for the segment and then for the ok file. When
the worker writes the ok file with the warnings of a fetched segment between
the two tests, or has written it and not yet renamed the segment, the ok file
without a segment reads as "missing". Apart from this order of steps, a segment
that the worker fetches is never reported missing.
-/

namespace PgxBackup

open List

variable {B : Type}

/-! ### The segments of the queue are distinct -/

/-- The last segment of a log file. -/
def walSegmentMinorMax (walSegmentSize : ℕ) : ℕ := (2 ^ 32 - 1) / walSegmentSize

/-- The number of segments before this one, on its timeline. -/
def WalSegment.index (walSegmentSize : ℕ) (walSegment : WalSegment) : ℕ :=
  walSegment.major * (walSegmentMinorMax walSegmentSize + 1) + walSegment.minor

/-- The number of segments of a timeline. -/
def walSegmentTotal (walSegmentSize : ℕ) : ℕ :=
  2 ^ 32 * (walSegmentMinorMax walSegmentSize + 1)

variable {walSegmentSize : ℕ}

theorem minor_walSegmentNext_le (walSegmentSize : ℕ) (walSegment : WalSegment) :
    (walSegmentNext walSegmentSize walSegment).minor ≤ walSegmentMinorMax walSegmentSize := by
  unfold walSegmentNext
  dsimp only
  split
  · exact Nat.zero_le _
  · next h => exact Nat.le_of_not_lt h

variable {walSegment : WalSegment}

theorem index_lt
    (hminor : walSegment.minor ≤ walSegmentMinorMax walSegmentSize) :
    walSegment.index walSegmentSize < walSegmentTotal walSegmentSize := by
  have hmajor : walSegment.major + 1 ≤ 2 ^ 32 := walSegment.major_lt
  calc walSegment.index walSegmentSize
      < walSegment.major * (walSegmentMinorMax walSegmentSize + 1)
          + (walSegmentMinorMax walSegmentSize + 1) :=
        Nat.add_lt_add_left (Nat.lt_succ_of_le hminor) _
    _ = (walSegment.major + 1) * (walSegmentMinorMax walSegmentSize + 1) := by
        rw [Nat.succ_mul]
    _ ≤ walSegmentTotal walSegmentSize := Nat.mul_le_mul_right _ hmajor

section

variable (hmax : walSegmentMinorMax walSegmentSize < 2 ^ 32 - 1)
  (hminor : walSegment.minor ≤ walSegmentMinorMax walSegmentSize)
include hmax hminor

theorem walSegmentNext_cases :
    ((walSegmentNext walSegmentSize walSegment).major = walSegment.major ∧
      (walSegmentNext walSegmentSize walSegment).minor = walSegment.minor + 1) ∨
    (walSegment.minor = walSegmentMinorMax walSegmentSize ∧
      (walSegmentNext walSegmentSize walSegment).major = (walSegment.major + 1) % 2 ^ 32 ∧
      (walSegmentNext walSegmentSize walSegment).minor = 0) := by
  have hnext : (walSegment.minor + 1) % 2 ^ 32 = walSegment.minor + 1 :=
    Nat.mod_eq_of_lt (Nat.add_lt_of_lt_sub (hminor.trans_lt hmax))
  unfold walSegmentNext
  dsimp only
  split
  next h =>
    rw [hnext] at h
    exact Or.inr ⟨Nat.le_antisymm hminor (Nat.le_of_lt_succ h), rfl, rfl⟩
  next h => exact Or.inl ⟨rfl, hnext⟩

theorem index_walSegmentNext :
    (walSegmentNext walSegmentSize walSegment).index walSegmentSize =
      (walSegment.index walSegmentSize + 1) % walSegmentTotal walSegmentSize := by
  rcases walSegmentNext_cases hmax hminor with ⟨hmajor, hnext⟩ | ⟨hlast, hmajor, hnext⟩
  · have hlt := index_lt (minor_walSegmentNext_le walSegmentSize walSegment)
    unfold WalSegment.index at hlt ⊢
    rw [hmajor, hnext, ← Nat.add_assoc] at hlt ⊢
    exact (Nat.mod_eq_of_lt hlt).symm
  · unfold WalSegment.index walSegmentTotal
    rw [hmajor, hnext, hlast, Nat.add_zero, Nat.add_assoc, ← Nat.succ_mul, Nat.mul_mod_mul_right]

theorem index_iterate (n : ℕ) :
    ((walSegmentNext walSegmentSize)^[n] walSegment).index walSegmentSize =
      (walSegment.index walSegmentSize + n) % walSegmentTotal walSegmentSize ∧
    ((walSegmentNext walSegmentSize)^[n] walSegment).minor ≤ walSegmentMinorMax walSegmentSize := by
  induction n with
  | zero => exact ⟨(Nat.mod_eq_of_lt (index_lt hminor)).symm, hminor⟩
  | succ n ih =>
    rw [Function.iterate_succ_apply', index_walSegmentNext hmax ih.2, ih.1, Nat.mod_add_mod]
    exact ⟨rfl, minor_walSegmentNext_le ..⟩

/-- The segments of a range are distinct, when it is not longer than the
timeline. -/
theorem nodup_iterate_walSegmentNext {n : ℕ} (hn : n ≤ walSegmentTotal walSegmentSize) :
    (iterate (walSegmentNext walSegmentSize) walSegment n).Nodup := by
  rw [← range_map_iterate]
  refine List.Nodup.map_on (fun i hi j hj hij => ?_) nodup_range
  rw [mem_range] at hi hj
  have hindex := congrArg (WalSegment.index walSegmentSize) hij
  rw [(index_iterate hmax hminor i).1, (index_iterate hmax hminor j).1] at hindex
  have hmod : i ≡ j [MOD walSegmentTotal walSegmentSize] := Nat.ModEq.add_left_cancel' _ hindex
  exact hmod.eq_of_lt_of_lt (lt_of_lt_of_le hi hn) (lt_of_lt_of_le hj hn)

end

/-- With segments of one byte only the minor counts, around its end. -/
theorem minor_iterate (hmax : walSegmentMinorMax walSegmentSize = 2 ^ 32 - 1) (walSegment : WalSegment)
    (n : ℕ) : ((walSegmentNext walSegmentSize)^[n] walSegment).minor
      = (walSegment.minor + n) % 2 ^ 32 := by
  induction n with
  | zero => exact (Nat.mod_eq_of_lt walSegment.minor_lt).symm
  | succ n ih =>
    have hnext : ∀ walSegment : WalSegment,
        (walSegmentNext walSegmentSize walSegment).minor = (walSegment.minor + 1) % 2 ^ 32 := by
      intro walSegment
      have hle : ¬ (walSegment.minor + 1) % 2 ^ 32 > (2 ^ 32 - 1) / walSegmentSize := by
        rw [show (2 ^ 32 - 1) / walSegmentSize = 2 ^ 32 - 1 from hmax]
        omega
      unfold walSegmentNext
      rw [if_neg hle]
    rw [Function.iterate_succ_apply', hnext, ih, Nat.mod_add_mod, Nat.add_assoc]

/-- **The segments of a range are distinct**, whatever their size is. The
first segment may have a name that PostgreSQL never uses; the others have not. -/
theorem nodup_walSegmentRange (walSegmentSize : ℕ) (walSegment : WalSegment) {range : ℕ}
    (hrange : range ≤ 2 ^ 32) : (walSegmentRange walSegment walSegmentSize range).Nodup := by
  have htotal : range ≤ walSegmentTotal walSegmentSize :=
    hrange.trans (Nat.le_mul_of_pos_right _ (Nat.succ_pos _))
  have hle : walSegmentMinorMax walSegmentSize ≤ 2 ^ 32 - 1 := Nat.div_le_self _ _
  unfold walSegmentRange
  rcases Nat.lt_or_eq_of_le hle with hmax | hmax
  · by_cases hminor : walSegment.minor ≤ walSegmentMinorMax walSegmentSize
    · exact nodup_iterate_walSegmentNext hmax hminor htotal
    · cases range with
      | zero => exact nodup_nil
      | succ n =>
        have hnext := minor_walSegmentNext_le walSegmentSize walSegment
        refine nodup_cons.mpr ⟨fun hmem => hminor ?_,
          nodup_iterate_walSegmentNext hmax hnext (Nat.le_of_succ_le htotal)⟩
        obtain ⟨m, -, hm⟩ := mem_iterate.mp hmem
        rw [hm]
        exact (index_iterate hmax hnext m).2
  · rw [← range_map_iterate]
    refine List.Nodup.map_on (fun i hi j hj hij => ?_) nodup_range
    rw [mem_range] at hi hj
    have hminor := congrArg WalSegment.minor hij
    rw [minor_iterate hmax, minor_iterate hmax] at hminor
    have hmod : i ≡ j [MOD 2 ^ 32] := Nat.ModEq.add_left_cancel' _ hminor
    exact hmod.eq_of_lt_of_lt (hi.trans_le hrange) (hj.trans_le hrange)

theorem nodup_queueIdeal (walSegment : WalSegment) (found : Bool) (queueSize walSegmentSize : ℕ) :
    (queueIdeal walSegment found queueSize walSegmentSize).Nodup := by
  unfold queueIdeal
  rw [(perm_insertionSort _ _).nodup_iff]
  refine nodup_walSegmentRange _ _ (max_le (by decide) ?_)
  exact (Nat.mod_lt _ (by decide)).le

/-! ### The invariant -/

/-- The segments that the worker may still fetch. -/
def ArchiveGetWorker.pending : ArchiveGetWorker B → List WalSegment
  | .forked queue => queue
  | .running jobs _ | .okWrite _ _ jobs _ | .rename _ jobs _ => jobs
  | .none | .exited => []

/-- The segment that was fetched and is not yet renamed. -/
def ArchiveGetWorker.handing : ArchiveGetWorker B → Option WalSegment
  | .okWrite file _ _ _ | .rename file _ _ => some file
  | _ => Option.none

/-- **The invariant of asynchronous archive-get.** -/
structure ArchiveGetInv (param : ArchiveGetParam) (spool : ArchiveSpool B) (s : ArchiveGet B) :
    Prop where
  /-- Nothing is fetched before the worker is forked. -/
  idle : s.forked = false → s.worker = .none ∧ ∀ file, s.fetched file = none
  /-- What is still to be fetched was not fetched. -/
  pending : s.worker.pending.Nodup ∧ ∀ file ∈ s.worker.pending, s.fetched file = none
  /-- The segment that is not yet renamed is complete. -/
  handing : ∀ file, s.worker.handing = some file →
    ∃ content, s.spool.temp file = some content ∧ s.fetched file = some content
  /-- The requested segment comes from the worker or from an earlier run. -/
  segment : ∀ content, s.spool.segment param.walSegment = some content →
    s.fetched param.walSegment = some content ∨ spool.segment param.walSegment = some content
  /-- Only the worker adds segments. -/
  unforked : s.forked = false → s.phase ≠ .segment ∧ s.phase ≠ .thrown → s.found = false →
    s.spool.segment param.walSegment = none
  /-- Only the worker adds ok files, for a segment that it has fetched or right
  before it exits. -/
  ok : s.forked = true → s.phase ≠ .found → (s.spool.ok param.walSegment).isSome →
    s.fetched param.walSegment ≠ none ∨ s.worker = .exited
  /-- A segment that is reported missing is not fetched any more. -/
  missing : (s.phase = .notFound ∨
      (s.phase = .okRemove ∧ s.found = false ∧ s.missingRetry param = false)) →
    s.fetched param.walSegment = none ∧ (s.forked = false ∨ s.worker = .exited)
  /-- A segment that is reported found is at its destination. -/
  moved : (s.phase = .found ∨ (s.phase = .fork ∧ s.found = true)) →
    ∃ content, s.destination = some content ∧
      (s.fetched param.walSegment = some content ∨ spool.segment param.walSegment = some content)

variable {param : ArchiveGetParam} {spool : ArchiveSpool B} {s s' : ArchiveGet B}

theorem archiveGetInv_initial : ArchiveGetInv param spool (archiveGetInitial spool) where
  idle := fun _ => ⟨rfl, fun _ => rfl⟩
  pending := ⟨nodup_nil, fun _ h => absurd h not_mem_nil⟩
  handing := fun _ h => nomatch h
  segment := fun _ h => Or.inr h
  unforked := fun _ h => absurd rfl h.1
  ok := nofun
  missing := by rintro (h | ⟨h, -⟩) <;> cases h
  moved := by rintro (h | ⟨h, -⟩) <;> cases h

/-! ### The foreground process -/

/-- The foreground process goes to another phase, and changes nothing else that
the invariant speaks of. -/
theorem ArchiveGetInv.setPhase (hs : ArchiveGetInv param spool s) (phase : ArchiveGetPhase)
    (hsegment : s.phase ≠ .segment ∧ s.phase ≠ .thrown) (hfound : phase ≠ .found ∧ s.phase ≠ .found)
    (hmissing : (phase = .notFound ∨
      (phase = .okRemove ∧ s.found = false ∧ s.missingRetry param = false)) →
      s.fetched param.walSegment = none ∧ (s.forked = false ∨ s.worker = .exited))
    (hmoved : phase ≠ .fork ∨ s.found = false) :
    ArchiveGetInv param spool { s with phase := phase } where
  idle := hs.idle
  pending := hs.pending
  handing := hs.handing
  segment := hs.segment
  unforked := fun hforked _ => hs.unforked hforked hsegment
  ok := fun hforked _ => hs.ok hforked hfound.2
  missing := hmissing
  moved := by
    rintro (h | ⟨h, hf⟩)
    · exact absurd h hfound.1
    · rcases hmoved with hne | hf'
      · exact absurd h hne
      · rw [show s.found = true from hf] at hf'
        cases hf'

/-- The order of steps that goes wrong: the foreground process, which has found
no segment and does not retry, tests for the ok file when it was written for a
segment that the worker has fetched. -/
def ArchiveGetQuiet (param : ArchiveGetParam) (s : ArchiveGet B) : ArchiveGetEvent B → Prop
  | .get => s.phase = .okFile → s.found = false → s.missingRetry param = false →
      (s.spool.ok param.walSegment).isSome → s.fetched param.walSegment = none
  | _ => True

instance (param : ArchiveGetParam) (s : ArchiveGet B) :
    ∀ event, Decidable (ArchiveGetQuiet param s event)
  | .get => inferInstanceAs (Decidable (_ → _ → _ → _ → _))
  | .fork _ _ | .wait _ | .throw | .check _ _ _ | .job _ _ | .async | .fail _ _ => isTrue trivial

section

variable (hs : ArchiveGetInv param spool s)
include hs

theorem ArchiveGetInv.okFile (hphase : s.phase = .okFile) (hquiet : ArchiveGetQuiet param s .get) :
    ArchiveGetInv param spool { s with
      phase := if (s.spool.ok param.walSegment).isSome then .okRemove else .errorFile } := by
  have hne : s.phase ≠ .found := by rw [hphase]; nofun
  refine hs.setPhase _ (by rw [hphase]; exact ⟨nofun, nofun⟩) ⟨by split <;> nofun, hne⟩ ?_
    (Or.inl (by split <;> nofun))
  rintro (h | ⟨h, hfound, hretry⟩)
  · split at h <;> cases h
  · split at h
    next hok =>
      have hfetched := hquiet hphase hfound hretry hok
      refine ⟨hfetched, ?_⟩
      cases hforked : s.forked with
      | false => exact Or.inl rfl
      | true => exact Or.inr ((hs.ok hforked hne hok).resolve_left (fun h => h hfetched))
    next => cases h

theorem ArchiveGetInv.okRemove (hphase : s.phase = .okRemove) :
    ArchiveGetInv param spool { s with
      spool := { s.spool with ok := Function.update s.spool.ok param.walSegment none }
      phase :=
        if !s.found && !s.missingRetry param then .notFound
        else if s.found then .move else .fork } where
  idle := hs.idle
  pending := hs.pending
  handing := hs.handing
  segment := hs.segment
  unforked := fun hforked _ => hs.unforked hforked (by rw [hphase]; exact ⟨nofun, nofun⟩)
  ok := fun _ _ hok => by
    simp at hok
  missing := by
    rintro (h | ⟨h, -⟩)
    · dsimp only at h
      split at h
      next hmissing =>
        rw [Bool.and_eq_true, Bool.not_eq_true', Bool.not_eq_true'] at hmissing
        exact hs.missing (Or.inr ⟨hphase, hmissing.1, hmissing.2⟩)
      next => split at h <;> cases h
    · dsimp only at h
      split at h
      · cases h
      · split at h <;> cases h
  moved := by
    rintro (h | ⟨h, hfound⟩)
    · dsimp only at h
      split at h
      · cases h
      · split at h <;> cases h
    · dsimp only at h hfound
      rw [hfound] at h
      cases h

theorem ArchiveGetInv.move (hphase : s.phase = .move) {content : B}
    (hcontent : s.spool.segment param.walSegment = some content) :
    ArchiveGetInv param spool { s with
      spool := { s.spool with segment := Function.update s.spool.segment param.walSegment none }
      destination := some content
      phase := .fork } where
  idle := hs.idle
  pending := hs.pending
  handing := hs.handing
  segment := fun content' h => by
    simp at h
  unforked := fun _ _ _ => Function.update_self ..
  ok := fun hforked _ => hs.ok hforked (by rw [hphase]; nofun)
  missing := by rintro (h | ⟨h, -⟩) <;> cases h
  moved := fun _ => ⟨content, rfl, hs.segment content hcontent⟩

/-- **A file operation of the foreground process keeps the invariant.** -/
theorem ArchiveGetInv.get (hquiet : ArchiveGetQuiet param s .get)
    (h : archiveGetNext param s = some s') : ArchiveGetInv param spool s' := by
  unfold archiveGetNext at h
  split at h
  next hphase =>
    cases h
    refine ⟨hs.idle, hs.pending, hs.handing, hs.segment, ?_, ?_, ?_, ?_⟩
    · intro _ _ hfound
      simpa using hfound
    · intro hforked _
      exact hs.ok hforked (by rw [hphase]; nofun)
    · rintro (h | ⟨h, -⟩) <;> cases h
    · rintro (h | ⟨h, -⟩) <;> cases h
  next hphase =>
    cases h
    exact hs.okFile hphase hquiet
  next hphase =>
    split at h
    next =>
      cases h
      refine hs.setPhase _ (by rw [hphase]; exact ⟨nofun, nofun⟩) ⟨nofun, by rw [hphase]; nofun⟩ ?_
        (Or.inl nofun)
      rintro (h | ⟨h, -⟩) <;> cases h
    next =>
      cases h
      refine hs.setPhase _ (by rw [hphase]; exact ⟨nofun, nofun⟩) ⟨by split <;> nofun, by rw [hphase]; nofun⟩ ?_ ?_
      · rintro (h | ⟨h, -⟩) <;> split at h <;> cases h
      · cases hfound : s.found with
        | false => exact Or.inr rfl
        | true => exact Or.inl nofun
  next hphase =>
    cases h
    exact hs.okRemove hphase
  next hphase =>
    split at h
    next content hcontent =>
      cases h
      exact hs.move hphase hcontent
    next =>
      cases h
      refine hs.setPhase _ (by rw [hphase]; exact ⟨nofun, nofun⟩) ⟨nofun, by rw [hphase]; nofun⟩ ?_
        (Or.inl nofun)
      rintro (h | ⟨h, -⟩) <;> cases h
  next => cases h

/-- **Forking the worker keeps the invariant.** The queue is cleaned before, so
that the requested segment has no ok file when it was not found. -/
theorem ArchiveGetInv.forkWorker (hphase : s.phase = .fork) (hforked : s.forked = false)
    {ideal : List WalSegment} (hideal : ideal.Nodup) :
    ArchiveGetInv param spool { s with
      spool := queueClean ideal s.spool
      worker := .forked (queueNeed ideal s.spool)
      forked := true
      phase := if s.found then .found else .wait
      first := if s.found then s.first else false } := by
  obtain ⟨-, hfetched⟩ := hs.idle hforked
  refine ⟨nofun, ⟨hideal.filter _, fun file _ => hfetched file⟩, (fun _ h => nomatch h), ?_,
    nofun, ?_, ?_, ?_⟩
  · intro content hcontent
    refine hs.segment content ?_
    simp only [queueClean] at hcontent
    split at hcontent
    · exact hcontent
    · cases hcontent
  · intro _ hfound hok
    split at hfound
    · exact absurd rfl hfound
    next hnot =>
      have hnone := hs.unforked hforked (by rw [hphase]; exact ⟨nofun, nofun⟩) (by simpa using hnot)
      simp [queueClean, hnone] at hok
  · rintro (h | ⟨h, -⟩) <;> dsimp only at h <;> split at h <;> cases h
  · rintro (h | ⟨h, -⟩)
    · dsimp only at h
      split at h
      next hfound => exact hs.moved (Or.inr ⟨hphase, hfound⟩)
      next => cases h
    · dsimp only at h
      split at h <;> cases h

theorem ArchiveGetInv.fork (hphase : s.phase = .fork) (queueFull acquired : Bool) :
    ArchiveGetInv param spool (archiveGetFork param queueFull acquired s) := by
  unfold archiveGetFork
  dsimp only
  by_cases hfork : (!s.forked && (!s.found || !queueFull) && acquired) = true
  · have hforked : s.forked = false := by
      simp only [Bool.and_eq_true, Bool.not_eq_true'] at hfork
      exact hfork.1.1
    have hinv := hs.forkWorker hphase hforked
      (nodup_queueIdeal param.walSegment s.found param.archiveGetQueueMax param.walSegmentSize)
    rw [if_pos hfork]
    dsimp only
    split
    next hfound => simpa [hfound] using hinv
    next hfound => simpa [hfound] using hinv
  · rw [if_neg hfork]
    split
    next hfound =>
      refine ⟨hs.idle, hs.pending, hs.handing, hs.segment, ?_, ?_, ?_, ?_⟩
      · intro _ _ hnot
        rw [show s.found = false from hnot] at hfound
        cases hfound
      · exact fun _ h => absurd rfl h
      · rintro (h | ⟨h, -⟩) <;> cases h
      · exact fun _ => hs.moved (Or.inr ⟨hphase, hfound⟩)
    next hfound =>
      refine ⟨hs.idle, hs.pending, hs.handing, hs.segment, ?_, ?_, ?_, ?_⟩
      · exact fun hforked _ => hs.unforked hforked (by rw [hphase]; exact ⟨nofun, nofun⟩)
      · exact fun hforked _ => hs.ok hforked (by rw [hphase]; nofun)
      · rintro (h | ⟨h, -⟩) <;> cases h
      · rintro (h | ⟨h, -⟩) <;> cases h

end

/-! ### The worker -/

/-- While the worker runs, it was forked and the requested segment is not
reported missing. -/
theorem ArchiveGetInv.running (hs : ArchiveGetInv param spool s) (hworker : s.worker ≠ .none)
    (hexited : s.worker ≠ .exited) :
    s.forked = true ∧ ¬ (s.phase = .notFound ∨
      (s.phase = .okRemove ∧ s.found = false ∧ s.missingRetry param = false)) := by
  have hforked : s.forked = true := by
    cases hforked : s.forked with
    | false => exact absurd (hs.idle hforked).1 hworker
    | true => rfl
  refine ⟨hforked, fun h => ?_⟩
  obtain ⟨-, hnot | hex⟩ := hs.missing h
  · cases hforked.symm.trans hnot
  · exact absurd hex hexited

/-- The worker goes on without a change to what was fetched, to the requested
segment or to its ok file. -/
theorem ArchiveGetInv.setWorker (hs : ArchiveGetInv param spool s) (hworker : s.worker ≠ .none)
    (hexited : s.worker ≠ .exited) {worker : ArchiveGetWorker B} {spool' : ArchiveSpool B}
    (hpending : worker.pending.Sublist s.worker.pending)
    (hhanding : ∀ file, worker.handing = some file → s.worker.handing = some file)
    (htemp : spool'.temp = s.spool.temp)
    (hsegment : spool'.segment = s.spool.segment)
    (hok : worker = .exited ∨ spool'.ok param.walSegment = s.spool.ok param.walSegment ∨
      s.fetched param.walSegment ≠ none) :
    ArchiveGetInv param spool { s with spool := spool', worker := worker } := by
  obtain ⟨hforked, hmissing⟩ := hs.running hworker hexited
  refine ⟨?_, ⟨hs.pending.1.sublist hpending, ?_⟩, ?_, ?_, ?_, ?_, ?_, hs.moved⟩
  · exact fun h => absurd (hforked.symm.trans h) nofun
  · exact fun file hmem => hs.pending.2 file (hpending.subset hmem)
  · intro file hfile
    rw [htemp]
    exact hs.handing file (hhanding file hfile)
  · intro content hcontent
    exact hs.segment content (hsegment ▸ hcontent)
  · exact fun h => absurd (hforked.symm.trans h) nofun
  · intro _ hphase hsome
    rcases hok with rfl | heq | hne
    · exact Or.inr rfl
    · dsimp only at hsome
      rw [heq] at hsome
      exact Or.inl ((hs.ok hforked hphase hsome).resolve_right hexited)
    · exact Or.inl hne
  · exact fun h => absurd h hmissing

section

variable (spool : ArchiveSpool B) (file : Option WalSegment) (code : ℕ) (message : String)

@[simp] theorem temp_errorWrite : (spool.errorWrite file code message).temp = spool.temp := by
  cases file <;> rfl

@[simp] theorem segment_errorWrite :
    (spool.errorWrite file code message).segment = spool.segment := by
  cases file <;> rfl

@[simp] theorem ok_errorWrite : (spool.errorWrite file code message).ok = spool.ok := by
  cases file <;> rfl

end

section

variable (hs : ArchiveGetInv param spool s)
include hs

/-- **A segment is fetched.** It was not fetched before, so nothing that was
found or moved changes. -/
theorem ArchiveGetInv.fetch {file : WalSegment} {jobs : List WalSegment} {last : ArchiveGetLast}
    (hworker : s.worker = .running jobs last) (hfile : file ∈ jobs) (content : B) (warning : String) :
    ArchiveGetInv param spool (archiveGetJob s file jobs last (.ok content warning)) := by
  have hpending : jobs.Nodup ∧ ∀ file ∈ jobs, s.fetched file = none := by
    have hpending := hs.pending
    rw [hworker] at hpending
    exact hpending
  have hnone := hpending.2 file hfile
  obtain ⟨hforked, hmissing⟩ := hs.running (by rw [hworker]; nofun) (by rw [hworker]; nofun)
  -- what was fetched stays fetched
  have hstays : ∀ {c}, s.fetched param.walSegment = some c →
      Function.update s.fetched file (some content) param.walSegment = some c := by
    intro c hc
    rwa [Function.update_of_ne]
    rintro rfl
    rw [hnone] at hc
    cases hc
  unfold archiveGetJob
  refine ⟨?_, ⟨?_, ?_⟩, ?_, ?_, ?_, ?_, ?_, ?_⟩
  · exact fun h => absurd (hforked.symm.trans h) nofun
  · dsimp only
    split <;> exact hpending.1.erase file
  · intro file' hmem
    have hmem : file' ∈ jobs.erase file := by
      dsimp only at hmem
      split at hmem <;> exact hmem
    have hne : file' ≠ file := fun h => hpending.1.not_mem_erase (h ▸ hmem)
    show Function.update s.fetched file (some content) file' = none
    rw [Function.update_of_ne hne]
    exact hpending.2 file' (mem_of_mem_erase hmem)
  · intro file' hfile'
    obtain rfl : file = file' := by
      dsimp only at hfile'
      split at hfile' <;> exact Option.some.inj hfile'
    exact ⟨content, Function.update_self .., Function.update_self ..⟩
  · intro c hc
    exact (hs.segment c hc).imp_left hstays
  · exact fun h => absurd (hforked.symm.trans h) nofun
  · intro _ hphase hok
    have hfetched := (hs.ok hforked hphase hok).resolve_right (by rw [hworker]; nofun)
    obtain ⟨c, hc⟩ := Option.ne_none_iff_exists'.mp hfetched
    left
    show Function.update s.fetched file (some content) param.walSegment ≠ none
    rw [hstays hc]
    nofun
  · exact fun h => absurd h hmissing
  · intro h
    obtain ⟨c, hdestination, hc⟩ := hs.moved h
    exact ⟨c, hdestination, hc.imp_left hstays⟩

/-- **The segment gets its name.** -/
theorem ArchiveGetInv.rename {file : WalSegment} {jobs : List WalSegment} {last : ArchiveGetLast}
    (hworker : s.worker = .rename file jobs last) :
    ArchiveGetInv param spool { s with
      spool := { s.spool with
        segment := Function.update s.spool.segment file (s.spool.temp file)
        temp := Function.update s.spool.temp file none }
      worker := .running jobs last } := by
  obtain ⟨hforked, hmissing⟩ := hs.running (by rw [hworker]; nofun) (by rw [hworker]; nofun)
  have hpending := hs.pending
  rw [hworker] at hpending
  obtain ⟨content, htemp, hfetched⟩ := hs.handing file (by rw [hworker]; rfl)
  refine ⟨?_, hpending, (fun _ h => nomatch h), ?_, ?_, ?_, ?_, hs.moved⟩
  · exact fun h => absurd (hforked.symm.trans h) nofun
  · intro c hc
    dsimp only at hc ⊢
    by_cases hne : param.walSegment = file
    · rw [hne, Function.update_self, htemp] at hc
      rw [hne, hfetched]
      exact Or.inl hc
    · rw [Function.update_of_ne hne] at hc
      exact hs.segment c hc
  · exact fun h => absurd (hforked.symm.trans h) nofun
  · intro _ hphase hok
    exact Or.inl ((hs.ok hforked hphase hok).resolve_right (by rw [hworker]; nofun))
  · exact fun h => absurd h hmissing

theorem ArchiveGetInv.exit (hworker : s.worker ≠ .none) (hexited : s.worker ≠ .exited)
    {spool' : ArchiveSpool B} (htemp : spool'.temp = s.spool.temp)
    (hsegment : spool'.segment = s.spool.segment) :
    ArchiveGetInv param spool { s with spool := spool', worker := .exited } :=
  hs.setWorker hworker hexited (nil_sublist _) (fun _ h => nomatch h) htemp hsegment
    (Or.inl rfl)

/-- **A file operation of the worker keeps the invariant.** -/
theorem ArchiveGetInv.async (h : archiveGetAsyncNext s = some s') :
    ArchiveGetInv param spool s' := by
  unfold archiveGetAsyncNext at h
  split at h
  next file warning jobs last hworker =>
    cases h
    refine hs.setWorker (by rw [hworker]; nofun) (by rw [hworker]; nofun) ?_ ?_ rfl rfl ?_
    · rw [hworker]
      exact List.Sublist.refl _
    · rw [hworker]
      exact fun _ => id
    · right
      by_cases hne : param.walSegment = file
      · obtain ⟨content, -, hfetched⟩ := hs.handing file (by rw [hworker]; rfl)
        rw [hne, hfetched]
        exact Or.inr nofun
      · exact Or.inl (Function.update_of_ne hne ..)
  next file jobs last hworker =>
    cases h
    exact hs.rename hworker
  next file code message hworker =>
    cases h
    exact hs.exit (by rw [hworker]; nofun) (by rw [hworker]; nofun) (temp_errorWrite ..)
      (segment_errorWrite ..)
  next file message hworker =>
    cases h
    exact hs.exit (by rw [hworker]; nofun) (by rw [hworker]; nofun) rfl rfl
  next hworker =>
    cases h
    exact hs.exit (by rw [hworker]; nofun) (by rw [hworker]; nofun) rfl rfl
  next => cases h

/-- **One step keeps the invariant**, unless the test for the ok file falls
where it goes wrong. -/
theorem ArchiveGetInv.step {event : ArchiveGetEvent B} (hquiet : ArchiveGetQuiet param s event)
    (h : archiveGetStep param s event = some s') : ArchiveGetInv param spool s' := by
  cases event with
  | get => exact hs.get hquiet h
  | fork queueFull acquired =>
    simp only [archiveGetStep] at h
    split at h
    next hphase =>
      cases h
      exact hs.fork hphase queueFull acquired
    next => cases h
  | wait more =>
    simp only [archiveGetStep] at h
    split at h
    next hphase =>
      cases h
      refine hs.setPhase _ (by rw [hphase]; exact ⟨nofun, nofun⟩) ⟨by split <;> nofun, by rw [hphase]; nofun⟩ ?_
        (Or.inl (by split <;> nofun))
      rintro (h | ⟨h, -⟩) <;> split at h <;> cases h
    next => cases h
  | throw =>
    simp only [archiveGetStep] at h
    split at h
    iterate 3 cases h
    next hfound hnotFound hthrown =>
      cases h
      refine ⟨hs.idle, hs.pending, hs.handing, hs.segment, fun _ h => absurd rfl h.2,
        fun hforked _ => hs.ok hforked hfound, ?_, ?_⟩ <;>
        rintro (h | ⟨h, -⟩) <;> cases h
  | check total error message =>
    simp only [archiveGetStep] at h
    split at h
    next queue hworker =>
      cases h
      refine hs.setWorker (by rw [hworker]; nofun) (by rw [hworker]; nofun) ?_
        (fun _ h => nomatch h) rfl rfl (Or.inr (Or.inl rfl))
      rw [hworker]
      exact take_sublist ..
    next => cases h
  | job file result =>
    simp only [archiveGetStep] at h
    split at h
    next jobs last hworker =>
      split at h
      next hfile =>
        cases h
        cases result with
        | ok content warning => exact hs.fetch hworker hfile content warning
        | error code message =>
          refine hs.setWorker (by rw [hworker]; nofun) (by rw [hworker]; nofun) ?_
            (fun _ h => nomatch h) (temp_errorWrite ..) (segment_errorWrite ..)
            (Or.inr (Or.inl (by rw [ok_errorWrite])))
          rw [hworker]
          exact erase_sublist
      next => cases h
    next => cases h
  | async => exact hs.async h
  | fail code message =>
    simp only [archiveGetStep] at h
    split at h
    iterate 2 cases h
    next hnone hexited =>
      cases h
      exact hs.exit hnone hexited (temp_errorWrite ..) (segment_errorWrite ..)

end

/-- **A fetched segment is not reported missing.** In every run of the two
processes, with any files in the spool at the beginning, in which the test for
the ok file does not fall on the ok file of a segment that the worker has
fetched, after the foreground process has found no segment: when the worker has
fetched the requested segment, the foreground process does not return "not
found", and when it returns success, the destination holds the segment that the
worker has fetched or that was in the spool. -/
theorem cmdArchiveGet_async (param : ArchiveGetParam) (spool : ArchiveSpool B)
    (events : List (ArchiveGetEvent B)) (t : ArchiveGet B)
    (hquiet : Steps.Meets (archiveGetStep param) (ArchiveGetQuiet param)
      (archiveGetInitial spool) events)
    (hrun : Steps.run (archiveGetStep param) (archiveGetInitial spool) events = some t) :
    (t.fetched param.walSegment ≠ none → t.phase ≠ .notFound) ∧
    (t.phase = .found → ∃ content, t.destination = some content ∧
      (t.fetched param.walSegment = some content ∨
        spool.segment param.walSegment = some content)) := by
  have ht : ArchiveGetInv param spool t :=
    Steps.run_invariant_of_meets (fun _ _ _ hs hquiet h => hs.step hquiet h) events
      archiveGetInv_initial hquiet hrun
  exact ⟨fun hfetched hphase => hfetched (ht.missing (Or.inl hphase)).1,
    fun hphase => ht.moved (Or.inl hphase)⟩

theorem major_zero_lt : 0 < 2 ^ 32 := by decide

/-- The second segment of a timeline, of 16 MiB. -/
def archiveGetParamSample : ArchiveGetParam where
  walSegment := ⟨1, 0, 1, by decide, major_zero_lt, by decide⟩
  archiveMissingRetry := true
  archiveGetQueueMax := 0
  walSegmentSize := 2 ^ 24
  walSegmentSize_valid := by decide

def archiveSpoolSample : ArchiveSpool ℕ := ⟨fun _ => none, fun _ => none, fun _ => none,
  fun _ => none, none⟩

/-- The worker is forked and has fetched the segment, with a warning. -/
def archiveGetFetchSample : List (ArchiveGetEvent ℕ) :=
  [.get, .get, .get, .fork false true, .check 2 none none,
    .job archiveGetParamSample.walSegment (.ok 7 "warning"), .wait true]

/-- The foreground process tests for the segment after the worker has renamed
it. -/
theorem cmdArchiveGet_async_sample :
    ∃ t, Steps.run (archiveGetStep archiveGetParamSample) (archiveGetInitial archiveSpoolSample)
        (archiveGetFetchSample ++ [.async, .async, .get, .get, .get, .get, .fork false true]) = some t ∧
      t.phase = .found ∧ ∃ content, t.destination = some content ∧
        (t.fetched archiveGetParamSample.walSegment = some content ∨
          archiveSpoolSample.segment archiveGetParamSample.walSegment = some content) := by
  have heval : (Steps.run (archiveGetStep archiveGetParamSample)
      (archiveGetInitial archiveSpoolSample)
      (archiveGetFetchSample ++ [.async, .async, .get, .get, .get, .get, .fork false true])).map
      (fun t => t.phase) = some .found := by decide +kernel
  obtain ⟨t, hrun, hphase⟩ := Option.map_eq_some_iff.mp heval
  exact ⟨t, hrun, hphase, (cmdArchiveGet_async archiveGetParamSample archiveSpoolSample _ t
    (by decide +kernel) hrun).2 hphase⟩

/-- **A fetched segment is reported missing.** The worker writes the ok file
with the warning of the fetch between the two tests of the foreground process,
which has found no segment and now finds the ok file. -/
theorem cmdArchiveGet_async_reports_missing :
    ¬ ∀ (events : List (ArchiveGetEvent ℕ)) (t : ArchiveGet ℕ),
      Steps.run (archiveGetStep archiveGetParamSample) (archiveGetInitial archiveSpoolSample)
        events = some t →
      (t.fetched archiveGetParamSample.walSegment ≠ none → t.phase ≠ .notFound) ∧
      (t.phase = .found → ∃ content, t.destination = some content ∧
        (t.fetched archiveGetParamSample.walSegment = some content ∨
          archiveSpoolSample.segment archiveGetParamSample.walSegment = some content)) := by
  intro h
  have heval : (Steps.run (archiveGetStep archiveGetParamSample)
      (archiveGetInitial archiveSpoolSample)
      (archiveGetFetchSample ++ [.get, .async, .get, .get])).map
      (fun t => (t.phase, t.fetched archiveGetParamSample.walSegment)) =
      some (.notFound, some 7) := by decide +kernel
  obtain ⟨t, hrun, ht⟩ := Option.map_eq_some_iff.mp heval
  obtain ⟨hphase, hfetched⟩ := Prod.mk.inj ht
  refine (h _ t hrun).1 ?_ hphase
  rw [hfetched]
  nofun

end PgxBackup
