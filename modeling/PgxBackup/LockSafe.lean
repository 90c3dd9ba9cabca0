import PgxBackup.Lock

/-!
# Mutual exclusion of locks

While the name of the lock file refers to the inode that is locked, whoever
opens the name meets the holder. The name is removed before the lock is
given up, so a process that has opened the file before and locks it after
this has a lock that nobody else can meet. Apart from that, at most one
process holds the lock.
-/

namespace PgxBackup

open Steps

variable {E : Type}

/-! ## What a process has to do with an inode -/

namespace LockPhase

/-- The inode that the process has locked. -/
def owns : LockPhase E → Option ℕ
  | .locked i | .holding i | .releasing i | .unlinked i => some i
  | _ => none

/-- The inode that the process has opened by the name and still counts on. -/
def uses : LockPhase E → Option ℕ
  | .opened i | .locked i | .holding i | .releasing i => some i
  | _ => none

/-- The inode of a process in `lockAcquire`. -/
def acquires : LockPhase E → Option ℕ
  | .opened i | .locked i | .denied i => some i
  | _ => none

end LockPhase

/-- **What holds while no file is removed under a process that is about to
lock it.** -/
structure LockInv (execId : ℕ → E) (s : LockState E) : Prop where
  owner : ∀ p i, (s.phase p).owns = some i → s.flock i = some ⟨p, false⟩
  named : ∀ p i, (s.phase p).uses = some i → s.name = some i
  fresh : ∀ i, s.inodeNext ≤ i → s.name ≠ some i ∧ s.content i = none
  /-- A process that is alive finds its own exec-id only in a file it holds. -/
  content : ∀ p i, s.content i = some (execId p) → s.phase p = .dead ∨ s.phase p = .holding i ∨
    s.phase p = .releasing i ∨ s.name ≠ some i ∧ (s.phase p).acquires ≠ some i
  denied : ∀ p i, s.phase p ≠ .deniedRead i (some (execId p))
  noExecId : ∀ p, s.phase p ≠ .holdingExecId

/-- The condition on a step: **when a name is removed, nobody has the file open
that is not locked yet.** -/
def UnlinkQuiet (s : LockState E) (call : ℕ × LockCall) : Prop :=
  call.2 = .unlink → ∀ q i, s.phase q = .opened i → s.name ≠ some i

section Step

variable {execId : ℕ → E} {s s' : LockState E} {p : ℕ}

theorem lockInv_initial : LockInv execId (lockInitial : LockState E) where
  owner _ _ h := absurd h (by simp [lockInitial, LockPhase.owns])
  named _ _ h := absurd h (by simp [lockInitial, LockPhase.uses])
  fresh _ _ := ⟨by simp [lockInitial], rfl⟩
  content _ _ h := absurd h (by simp [lockInitial])
  denied _ _ := by simp [lockInitial]
  noExecId _ := by simp [lockInitial]

section

variable (h : LockInv execId s)
include h

/-- Changes of the phase of `lockRead` do not matter. -/
theorem LockInv.setRead (read : LockReadPhase) :
    LockInv execId (s.setRead p read) := ⟨h.owner, h.named, h.fresh, h.content, h.denied, h.noExecId⟩

/-- A descriptor of a phase that changes to one that has less to do with the
inodes. -/
theorem LockInv.setPhase {phase : LockPhase E}
    (howns : ∀ i, phase.owns = some i → s.flock i = some ⟨p, false⟩)
    (huses : ∀ i, phase.uses = some i → s.name = some i)
    (hcontent : ∀ i, s.content i = some (execId p) → phase = .dead ∨ phase = .holding i ∨
      phase = .releasing i ∨ s.name ≠ some i ∧ phase.acquires ≠ some i)
    (hdenied : ∀ i, phase ≠ .deniedRead i (some (execId p))) (hexec : phase ≠ .holdingExecId) :
    LockInv execId (s.setPhase p phase) := by
  have hphase : ∀ q, (s.setPhase p phase).phase q = if q = p then phase else s.phase q := by
    intro q
    exact Function.update_apply _ _ _ _
  refine ⟨fun q i hq => ?_, fun q i hq => ?_, h.fresh, fun q i hq => ?_, fun q i => ?_, fun q => ?_⟩
  · rw [hphase] at hq
    split at hq
    · rename_i heq
      exact heq ▸ howns i hq
    · exact h.owner q i hq
  · rw [hphase] at hq
    split at hq
    · exact huses i hq
    · exact h.named q i hq
  · rw [hphase]
    split
    · rename_i heq
      exact hcontent i (heq ▸ hq)
    · exact h.content q i hq
  · rw [hphase]
    split
    · rename_i heq
      exact heq ▸ hdenied i
    · exact h.denied q i
  · rw [hphase]
    split
    · exact hexec
    · exact h.noExecId q

theorem LockInv.lock {i : ℕ} (hfree : s.flock i = none) (fd : LockFd) :
    LockInv execId (s.lock i fd) := by
  refine ⟨fun q j hq => ?_, h.named, h.fresh, h.content, h.denied, h.noExecId⟩
  have hown := h.owner q j hq
  show Function.update s.flock i (some fd) j = _
  rw [Function.update_of_ne]
  · exact hown
  · rintro rfl
    rw [hfree] at hown
    cases hown

/-- A lock is given up by a descriptor that no phase counts on. -/
theorem LockInv.unlock {i : ℕ} {fd : LockFd}
    (hnone : ∀ q, (s.phase q).owns = some i → fd ≠ ⟨q, false⟩) :
    LockInv execId (s.unlock i fd) := by
  unfold LockState.unlock
  split
  · rename_i hfd
    refine ⟨fun q j hq => ?_, h.named, h.fresh, h.content, h.denied, h.noExecId⟩
    have hown := h.owner q j hq
    show Function.update s.flock i none j = _
    rw [Function.update_of_ne]
    · exact hown
    · rintro rfl
      exact hnone q hq (Option.some.inj (hfd.symm.trans hown))
  · exact h

end

theorem LockInv.setContent (hinj : Function.Injective execId) (h : LockInv execId s) {i : ℕ}
    (hphase : s.phase p = .holding i) {content : Option E}
    (hcontent : content = none ∨ content = some (execId p)) :
    LockInv execId (s.setContent i content) := by
  have hname : s.name = some i := h.named p i (by rw [hphase]; rfl)
  have hupdate : ∀ j, (s.setContent i content).content j = if j = i then content else s.content j := by
    intro j
    exact Function.update_apply _ _ _ _
  refine ⟨h.owner, h.named, fun j hj => ⟨(h.fresh j hj).1, ?_⟩, fun q j hq => ?_, h.denied, h.noExecId⟩
  · rw [hupdate, if_neg]
    · exact (h.fresh j hj).2
    · rintro rfl
      exact (h.fresh j hj).1 hname
  · rw [hupdate] at hq
    split at hq
    · rename_i hji
      rcases hcontent with hnone | hown
      · rw [hnone] at hq
        cases hq
      · have hqp : p = q := hinj (Option.some.inj (hown.symm.trans hq))
        rw [← hqp, hji]
        exact .inr (.inl hphase)
    · exact h.content q j hq

section

variable (h : LockInv execId s)
include h

/-- A process that is not acquiring or holding keeps away from its files. -/
theorem LockInv.away {i : ℕ} (hcontent : s.content i = some (execId p)) (hdead : s.phase p ≠ .dead)
    (hhold : s.phase p ≠ .holding i) (hrelease : s.phase p ≠ .releasing i) :
    s.name ≠ some i ∧ (s.phase p).acquires ≠ some i := by
  rcases h.content p i hcontent with hd | hh | hr | haway
  · exact absurd hd hdead
  · exact absurd hh hhold
  · exact absurd hr hrelease
  · exact haway

theorem LockInv.lt_of_content {i : ℕ} {id : E} (hi : s.content i = some id) : i < s.inodeNext := by
  by_contra hle
  rw [(h.fresh i (Nat.le_of_not_lt hle)).2] at hi
  cases hi

/-- A new file gets the name, which nobody counts on. -/
theorem LockInv.create (hname : s.name = none) :
    LockInv execId { s with name := some s.inodeNext, inodeNext := s.inodeNext + 1 } := by
  refine ⟨h.owner, fun q i hq => ?_, fun i hi => ⟨?_, ?_⟩, fun q i hq => ?_, h.denied, h.noExecId⟩
  · rw [h.named q i hq] at hname
    cases hname
  · intro heq
    have heq : s.inodeNext = i := Option.some.inj heq
    have hi : s.inodeNext + 1 ≤ i := hi
    omega
  · have hi : s.inodeNext + 1 ≤ i := hi
    exact (h.fresh i (by omega)).2
  · have hlt := h.lt_of_content hq
    rcases h.content q i hq with hd | hh | hr | haway
    · exact .inl hd
    · exact .inr (.inl hh)
    · exact .inr (.inr (.inl hr))
    · refine .inr (.inr (.inr ⟨fun heq => ?_, haway.2⟩))
      have heq : s.inodeNext = i := Option.some.inj heq
      omega

theorem LockInv.opened {inode : ℕ} (hphase : s.phase p = .idle) (hname : s.name = some inode) :
    LockInv execId (s.setPhase p (.opened inode)) := by
  refine h.setPhase (fun i hi => absurd hi (by simp [LockPhase.owns])) (fun i hi => ?_)
    (fun i hi => ?_) (fun i => nofun) nofun
  · rw [hname]
    exact hi
  · have haway := (h.away hi (by rw [hphase]; nofun) (by rw [hphase]; nofun)
      (by rw [hphase]; nofun)).1
    refine .inr (.inr (.inr ⟨haway, ?_⟩))
    show some inode ≠ some i
    rw [← hname]
    exact haway

theorem LockInv.openCreate (hphase : s.phase p = .idle) : LockInv execId (lockOpenCreate s p) := by
  unfold lockOpenCreate
  split
  · rename_i inode hname
    exact h.opened hphase hname
  · rename_i hname
    exact (h.create hname).opened hphase rfl

/-- The name is removed by a process that has locked the file. -/
theorem LockInv.unlink {inode : ℕ} (hphase : s.phase p = .releasing inode)
    (hquiet : ∀ q i, s.phase q = .opened i → s.name ≠ some i) :
    LockInv execId ({ s with name := none }.setPhase p (.unlinked inode)) := by
  have hown : s.flock inode = some ⟨p, false⟩ := h.owner p inode (by rw [hphase]; rfl)
  have hname : s.name = some inode := h.named p inode (by rw [hphase]; rfl)
  -- all others that count on the name would have locked the same inode
  have hothers : ∀ q i, q ≠ p → (s.phase q).uses ≠ some i := by
    intro q i hq huses
    have hi : inode = i := Option.some.inj (hname.symm.trans (h.named q i huses))
    have howns : (s.phase q).owns = some i := by
      cases hcase : s.phase q with
      | opened j =>
        rw [hcase] at huses
        obtain rfl : j = i := Option.some.inj huses
        exact absurd (h.named q j (by rw [hcase]; rfl)) (hquiet q j hcase)
      | locked j | holding j | releasing j =>
        rw [hcase] at huses
        exact huses
      | idle | denied j | deniedRead j id | holdingExecId | unlinked j | dead =>
        rw [hcase] at huses
        cases huses
    have := h.owner q i howns
    rw [← hi, hown] at this
    exact hq (LockFd.mk.inj (Option.some.inj this)).1.symm
  have hphaseNew : ∀ q, ({ s with name := none }.setPhase p (.unlinked inode)).phase q
      = if q = p then .unlinked inode else s.phase q := fun q => Function.update_apply _ _ _ _
  refine ⟨fun q i hq => ?_, fun q i hq => ?_, fun i hi => ⟨nofun, (h.fresh i hi).2⟩,
    fun q i hq => ?_, fun q i => ?_, fun q => ?_⟩
  · rw [hphaseNew] at hq
    split at hq
    · rename_i heq
      cases hq
      exact heq ▸ hown
    · exact h.owner q i hq
  · rw [hphaseNew] at hq
    split at hq
    · cases hq
    · rename_i hne
      exact absurd hq (hothers q i hne)
  · rw [hphaseNew]
    split
    · exact .inr (.inr (.inr ⟨nofun, nofun⟩))
    · rename_i hne
      rcases h.content q i hq with hd | hh | hr | haway
      · exact .inl hd
      · exact absurd (by rw [hh]; rfl) (hothers q i hne)
      · exact absurd (by rw [hr]; rfl) (hothers q i hne)
      · exact .inr (.inr (.inr ⟨nofun, haway.2⟩))
  · rw [hphaseNew]
    split
    · exact nofun
    · exact h.denied q i
  · rw [hphaseNew]
    split
    · exact nofun
    · exact h.noExecId q

theorem LockInv.die : LockInv execId (lockDie s p) := by
  have hphaseNew : ∀ q, (lockDie s p).phase q = if q = p then .dead else s.phase q :=
    fun q => Function.update_apply _ _ _ _
  refine ⟨fun q i hq => ?_, fun q i hq => ?_, h.fresh, fun q i hq => ?_, fun q i => ?_, fun q => ?_⟩
  · rw [hphaseNew] at hq
    split at hq
    · cases hq
    · rename_i hne
      show (s.flock i).filter _ = _
      rw [h.owner q i hq, Option.filter_some, if_pos (by simpa using hne)]
  · rw [hphaseNew] at hq
    split at hq
    · cases hq
    · exact h.named q i hq
  · rw [hphaseNew]
    split
    · exact .inl rfl
    · exact h.content q i hq
  · rw [hphaseNew]
    split
    · exact nofun
    · exact h.denied q i
  · rw [hphaseNew]
    split
    · exact nofun
    · exact h.noExecId q

theorem LockInv.readStep {call : LockCall} (hstep : lockReadStep s p call = some s') :
    LockInv execId s' := by
  unfold lockReadStep at hstep
  split at hstep
  · obtain ⟨inode, -, rfl⟩ := Option.map_eq_some_iff.mp hstep
    exact h.setRead _
  · split at hstep
    · rename_i hfree
      exact Option.some.inj hstep ▸ (h.lock hfree _).setRead _
    · exact Option.some.inj hstep ▸ h.setRead _
  · refine Option.some.inj hstep ▸ (h.unlock (fun q _ heq => ?_)).setRead _
    exact absurd (LockFd.mk.inj heq).2 (by decide)
  · exact Option.some.inj hstep ▸ h.setRead _
  · cases hstep

end

theorem LockInv.acquireStep [DecidableEq E] (hinj : Function.Injective execId)
    (h : LockInv execId s) {call : LockCall} (hquiet : UnlinkQuiet s (p, call))
    (hstep : lockAcquireStep execId s p call = some s') : LockInv execId s' := by
  -- the own exec-id is in no file while the process is in `lockAcquire`
  have haway : ∀ {phase : LockPhase E}, s.phase p = phase → phase ≠ .dead →
      (∀ i, phase ≠ .holding i) → (∀ i, phase ≠ .releasing i) →
      ∀ i, s.content i = some (execId p) → s.name ≠ some i ∧ phase.acquires ≠ some i := by
    intro phase hphase hdead hhold hrelease i hi
    subst hphase
    exact h.away hi hdead (hhold i) (hrelease i)
  unfold lockAcquireStep at hstep
  split at hstep
  · rename_i hphase
    exact Option.some.inj hstep ▸ h.openCreate hphase
  · rename_i inode hphase
    have hname : s.name = some inode := h.named p inode (by rw [hphase]; rfl)
    have hcontent := haway hphase nofun (fun _ => nofun) (fun _ => nofun)
    split at hstep
    · rename_i hfree
      refine Option.some.inj hstep ▸ (h.lock hfree _).setPhase (fun i hi => ?_) (fun i hi => ?_)
        (fun i hi => .inr (.inr (.inr (hcontent i hi)))) (fun i => nofun) nofun
      · cases hi
        exact Function.update_self _ _ _
      · exact hname.trans hi
    · exact Option.some.inj hstep ▸ h.setPhase (fun i hi => absurd hi nofun)
        (fun i hi => absurd hi nofun) (fun i hi => .inr (.inr (.inr (hcontent i hi))))
        (fun i => nofun) nofun
  · rename_i inode hphase
    have hcontent := haway hphase nofun (fun _ => nofun) (fun _ => nofun)
    have hheld : LockInv execId (s.setPhase p (.holding inode)) :=
      h.setPhase (fun i hi => h.owner p i (by rw [hphase]; exact hi))
        (fun i hi => h.named p i (by rw [hphase]; exact hi))
        (fun i hi => .inr (.inr (.inr ⟨(hcontent i hi).1, nofun⟩))) (fun i => nofun) nofun
    exact Option.some.inj hstep ▸ hheld.setContent hinj (Function.update_self _ _ _) (.inr rfl)
  · rename_i inode fails hphase
    have hcontent := haway hphase nofun (fun _ => nofun) (fun _ => nofun)
    refine Option.some.inj hstep ▸ h.setPhase (fun i hi => absurd hi nofun)
      (fun i hi => absurd hi nofun) (fun i hi => .inr (.inr (.inr ⟨(hcontent i hi).1, nofun⟩)))
      (fun i heq => ?_) nofun
    have hread := (LockPhase.deniedRead.inj heq).2
    cases fails with
    | true => cases hread
    | false => exact (hcontent inode hread).2 rfl
  · rename_i inode id hphase
    have hcontent := haway hphase nofun (fun _ => nofun) (fun _ => nofun)
    rw [if_neg (fun hid => h.denied p inode (by rw [hphase, hid]))] at hstep
    exact Option.some.inj hstep ▸ h.setPhase (fun i hi => absurd hi nofun)
      (fun i hi => absurd hi nofun) (fun i hi => .inr (.inr (.inr ⟨(hcontent i hi).1, nofun⟩)))
      (fun i => nofun) nofun
  · rename_i inode hphase
    exact Option.some.inj hstep ▸ h.setContent hinj hphase (.inl rfl)
  · rename_i inode hphase
    exact Option.some.inj hstep ▸ h.setContent hinj hphase (.inr rfl)
  · rename_i inode hphase
    refine Option.some.inj hstep ▸ h.setPhase (fun i hi => h.owner p i (by rw [hphase]; exact hi))
      (fun i hi => h.named p i (by rw [hphase]; exact hi)) (fun i hi => ?_) (fun i => nofun) nofun
    by_cases hi' : inode = i
    · exact .inr (.inr (.inl (hi' ▸ rfl)))
    · have := h.away hi (by rw [hphase]; nofun) (by rw [hphase]; simpa using hi')
        (by rw [hphase]; nofun)
      exact .inr (.inr (.inr ⟨this.1, nofun⟩))
  · rename_i hphase
    exact absurd hphase (h.noExecId p)
  · rename_i inode hphase
    exact Option.some.inj hstep ▸ h.unlink hphase (hquiet rfl)
  · rename_i inode hphase
    have hcontent := haway hphase nofun (fun _ => nofun) (fun _ => nofun)
    have hidle : LockInv execId (s.setPhase p .idle) :=
      h.setPhase (fun i hi => absurd hi nofun) (fun i hi => absurd hi nofun)
        (fun i hi => .inr (.inr (.inr ⟨(hcontent i hi).1, nofun⟩))) (fun i => nofun) nofun
    have hswap : (s.unlock inode ⟨p, false⟩).setPhase p .idle
        = (s.setPhase p .idle).unlock inode ⟨p, false⟩ := by
      unfold LockState.unlock
      show _ = if s.flock inode = some ⟨p, false⟩ then _ else _
      split
      · rfl
      · rfl
    refine Option.some.inj hstep ▸ hswap ▸ hidle.unlock (fun q hq heq => ?_)
    obtain rfl : p = q := (LockFd.mk.inj heq).1
    have hq : (Function.update s.phase p LockPhase.idle p).owns = some inode := hq
    rw [Function.update_self] at hq
    cases hq
  · cases hstep

/-- **One system call** of one process. -/
theorem LockInv.step [DecidableEq E] (hinj : Function.Injective execId) (h : LockInv execId s)
    {call : ℕ × LockCall} (hquiet : UnlinkQuiet s call) (hstep : lockStep execId s call = some s') :
    LockInv execId s' := by
  unfold lockStep at hstep
  split at hstep
  · split at hstep
    · cases hstep
    · exact Option.some.inj hstep ▸ h.die
  · split at hstep
    · split at hstep
      · split at hstep
        · exact h.readStep hstep
        · cases hstep
      · exact h.acquireStep hinj hquiet hstep
    · exact h.readStep hstep

/-- Two processes that hold the lock have locked the same inode. -/
theorem LockInv.exclusive (h : LockInv execId s) {q : ℕ} (hp : (s.phase p).holds = true)
    (hq : (s.phase q).holds = true) : p = q := by
  have hold : ∀ r, (s.phase r).holds = true → ∃ i, s.phase r = .holding i := by
    intro r hr
    cases hphase : s.phase r with
    | holding i => exact ⟨i, rfl⟩
    | holdingExecId => exact absurd hphase (h.noExecId r)
    | idle | opened i | locked i | denied i | deniedRead i id | releasing i | unlinked i | dead =>
      rw [hphase] at hr
      cases hr
  obtain ⟨i, hi⟩ := hold p hp
  obtain ⟨j, hj⟩ := hold q hq
  have hname := (h.named p i (by rw [hi]; rfl)).symm.trans (h.named q j (by rw [hj]; rfl))
  cases hname
  have hown := (h.owner p i (by rw [hi]; rfl)).symm.trans (h.owner q i (by rw [hj]; rfl))
  exact (LockFd.mk.inj (Option.some.inj hown)).1

end Step

/-- **At most one process holds the lock**, in every state of a run in which no
name is removed while a process has the file open and has not locked it. The
processes have different exec-ids. -/
theorem lockAcquire_exclusive [DecidableEq E] (execId : ℕ → E) (hinj : Function.Injective execId)
    (calls : List (ℕ × LockCall)) (s : LockState E)
    (hquiet : Meets (lockStep execId) UnlinkQuiet lockInitial calls)
    (hrun : run (lockStep execId) lockInitial calls = some s) (p q : ℕ)
    (hp : (s.phase p).holds = true) (hq : (s.phase q).holds = true) : p = q :=
  (run_invariant_of_meets (fun _ _ _ h hquiet hstep => h.step hinj hquiet hstep) calls
    lockInv_initial hquiet hrun).exclusive hp hq

/-- The first process releases the lock after the second one was denied, which
then acquires it. -/
def lockRunSample : List (ℕ × LockCall) :=
  [(0, .openCreate), (0, .flock), (0, .write), (1, .openCreate), (1, .flock), (1, .readData false),
    (1, .closeDenied), (0, .release), (0, .unlink), (0, .close), (1, .openCreate), (1, .flock),
    (1, .write)]

theorem lockAcquire_exclusive_sample :
    ∃ s, run (lockStep id) (lockInitial : LockState ℕ) lockRunSample = some s ∧
      (s.phase 1).holds = true ∧ ∀ q, (s.phase q).holds = true → 1 = q := by
  refine ⟨_, rfl, rfl, fun q hq => lockAcquire_exclusive id Function.injective_id lockRunSample _
    ?_ rfl 1 q rfl hq⟩
  iterate 8 refine meets_cons (fun h => absurd h (by decide)) rfl ?_
  refine meets_cons (fun _ q i hq => ?_) rfl ?_
  · -- nobody has the file open when the name is removed
    match q with
    | 0 => cases hq
    | 1 => cases hq
    | q + 2 => cases hq
  · iterate 4 refine meets_cons (fun h => absurd h (by decide)) rfl ?_
    trivial

/-- **A lock on a file without a name.** The second process opens the file
before the first one removes the name, and locks it after this; the third one
locks a new file. -/
theorem lockAcquire_not_exclusive :
    ¬ ∀ (calls : List (ℕ × LockCall)) (s : LockState ℕ),
      run (lockStep id) lockInitial calls = some s →
      ∀ p q, (s.phase p).holds = true → (s.phase q).holds = true → p = q := by
  intro h
  refine absurd (h [(0, .openCreate), (0, .flock), (0, .write), (1, .openCreate), (0, .release),
    (0, .unlink), (0, .close), (1, .flock), (1, .write), (2, .openCreate), (2, .flock),
    (2, .write)] _ rfl 1 2 rfl rfl) (by decide)

end PgxBackup
