import PgxBackup.BackupLabelCreate

/-!
# The shape of a label

The expressions for labels match the date and time of a full backup, and what
follows it is nothing or that of a backup that depends on it. So labels are
ordered by the full backup first, and the names of the history manifests are in
the order of the labels.
-/

namespace PgxBackup

open List

/-! ## The shape of a label -/

/-- A date and time as it is formatted in a label. -/
def DateTime (s : Str) : Prop := matchDateTime s = some []

theorem DateTime.length {s : Str} (h : DateTime s) : s.length = DATE_TIME_LEN := length_of_matchDateTime h

section Match

variable {s s' : Str}

theorem matchDigits_append {count : ℕ} (h : matchDigits count s = some s') (rest : Str) :
    matchDigits count (s ++ rest) = some (s' ++ rest) := by
  induction count generalizing s with
  | zero =>
    rw [← Option.some.inj h]
    rfl
  | succ count ih =>
    cases s with
    | nil => cases h
    | cons c s =>
      unfold matchDigits at h
      rw [cons_append]
      unfold matchDigits
      split at h
      · rw [if_pos ‹_›]
        exact ih h
      · cases h

theorem matchDigits_split {count : ℕ} (h : matchDigits count s = some s') :
    ∃ digits, s = digits ++ s' ∧ matchDigits count digits = some [] := by
  induction count generalizing s with
  | zero => exact ⟨[], Option.some.inj h, rfl⟩
  | succ count ih =>
    cases s with
    | nil => cases h
    | cons c s =>
      unfold matchDigits at h
      split at h
      · obtain ⟨digits, hs, hdigits⟩ := ih h
        refine ⟨c :: digits, by rw [hs]; rfl, ?_⟩
        unfold matchDigits
        rw [if_pos ‹_›]
        exact hdigits
      · cases h

theorem matchChr_eq {c : Char} (h : matchChr c s = some s') : s = c :: s' := by
  cases s with
  | nil => cases h
  | cons d s =>
    simp only [matchChr] at h
    split at h
    · rename_i hd
      rw [Option.some.inj h, hd]
    · cases h

theorem matchChr_self (c : Char) (s : Str) : matchChr c (c :: s) = some s := by
  exact if_pos rfl

theorem DateTime.match (h : DateTime s) (rest : Str) : matchDateTime (s ++ rest) = some rest := by
  obtain ⟨s₁, hs₁, h₁⟩ := Option.bind_eq_some_iff.mp h
  obtain ⟨s₂, hs₂, h₂⟩ := Option.bind_eq_some_iff.mp h₁
  have hdash : matchChr '-' (s₁ ++ rest) = some (s₂ ++ rest) := by
    rw [matchChr_eq hs₂]
    exact matchChr_self _ _
  exact Option.bind_eq_some_iff.mpr ⟨_, matchDigits_append hs₁ rest,
    Option.bind_eq_some_iff.mpr ⟨_, hdash, matchDigits_append h₂ rest⟩⟩

theorem matchDateTime_split (h : matchDateTime s = some s') : ∃ dateTime, DateTime dateTime ∧ s = dateTime ++ s' := by
  obtain ⟨s₁, hs₁, h₁⟩ := Option.bind_eq_some_iff.mp h
  obtain ⟨s₂, hs₂, h₂⟩ := Option.bind_eq_some_iff.mp h₁
  obtain ⟨date, hdateEq, hdate⟩ := matchDigits_split hs₁
  obtain ⟨time, htimeEq, htime⟩ := matchDigits_split h₂
  refine ⟨date ++ '-' :: time, ?_, ?_⟩
  · exact Option.bind_eq_some_iff.mpr ⟨_, matchDigits_append hdate _,
      Option.bind_eq_some_iff.mpr ⟨_, matchChr_self _ _, htime⟩⟩
  · rw [hdateEq, matchChr_eq hs₂, htimeEq, append_assoc, cons_append]

end Match

/-- The letter of a backup that depends on others. -/
def DependentLetter (c : Char) : Prop := c = 'D' ∨ c = 'I'

/-- What follows the full backup in a label. -/
inductive LabelTail : Str → Prop
  | full : LabelTail []
  | dependent {dateTime : Str} {c : Char} (hdateTime : DateTime dateTime) (hletter : DependentLetter c) :
    LabelTail ('_' :: (dateTime ++ [c]))

/-- **The parts of a label**: the date and time of the full backup, and what
follows it. -/
structure LabelParts (label full tail : Str) : Prop where
  eq : label = full ++ 'F' :: tail
  dateTime : DateTime full
  labelTail : LabelTail tail

theorem matchDiffIncr_iff {s s' : Str} : matchDiffIncr { differential := true, incremental := true } s = some s' ↔
    ∃ dateTime c, DateTime dateTime ∧ DependentLetter c ∧ s = '_' :: (dateTime ++ c :: s') := by
  constructor
  · intro h
    obtain ⟨s₁, hs₁, h₁⟩ := Option.bind_eq_some_iff.mp h
    obtain ⟨s₂, hs₂, h₂⟩ := Option.bind_eq_some_iff.mp h₁
    obtain ⟨dateTime, hdateTime, heq⟩ := matchDateTime_split hs₂
    cases s₂ with
    | nil => cases h₂
    | cons c s₂ =>
      dsimp only at h₂
      split at h₂
      · rename_i hc
        rw [Bool.true_and, Bool.true_and, Bool.or_eq_true, beq_iff_eq, beq_iff_eq] at hc
        exact ⟨dateTime, c, hdateTime, hc, by rw [matchChr_eq hs₁, heq, Option.some.inj h₂]⟩
      · cases h₂
  · rintro ⟨dateTime, c, hdateTime, hc, rfl⟩
    unfold matchDiffIncr
    simp only [matchChr_self, Option.bind_eq_bind, Option.bind_some, hdateTime.match]
    refine if_pos ?_
    rw [Bool.true_and, Bool.true_and, Bool.or_eq_true, beq_iff_eq, beq_iff_eq]
    exact hc

theorem match_full_iff {s s' : Str} : (matchDateTime s).bind (matchChr 'F') = some s' ↔
    ∃ full, DateTime full ∧ s = full ++ 'F' :: s' := by
  constructor
  · intro h
    obtain ⟨s₁, hs₁, h₁⟩ := Option.bind_eq_some_iff.mp h
    obtain ⟨full, hfull, heq⟩ := matchDateTime_split hs₁
    exact ⟨full, hfull, by rw [heq, matchChr_eq h₁]⟩
  · rintro ⟨full, hfull, rfl⟩
    exact Option.bind_eq_some_iff.mpr ⟨_, hfull.match _, matchChr_self _ _⟩

theorem append_full_inj {a b x y : Str} (ha : DateTime a) (hb : DateTime b) (h : a ++ x = b ++ y) : a = b ∧ x = y :=
  append_inj h (ha.length.trans hb.length.symm)

/-- **The expression for all labels.** -/
theorem backupRegExp_all_iff {label : Str} :
    backupRegExp backupAllRegExp label = true ↔ ∃ full tail, LabelParts label full tail := by
  unfold backupRegExp
  cases hfull : (matchDateTime label).bind (matchChr 'F') with
  | none =>
    refine iff_of_false nofun ?_
    rintro ⟨full, tail, h⟩
    rw [match_full_iff.mpr ⟨full, h.dateTime, h.eq⟩] at hfull
    cases hfull
  | some s =>
    obtain ⟨full, hdateTime, rfl⟩ := match_full_iff.mp hfull
    have hparts : (∃ full' tail, LabelParts (full ++ 'F' :: s) full' tail) ↔ LabelTail s := by
      constructor
      · rintro ⟨full', tail, h⟩
        obtain ⟨-, heq⟩ := append_full_inj hdateTime h.dateTime h.eq
        rw [cons_inj_right] at heq
        exact heq ▸ h.labelTail
      · exact fun h => ⟨full, s, rfl, hdateTime, h⟩
    have hmatch : matchDiffIncr backupAllRegExp s = matchDiffIncr { differential := true, incremental := true } s := rfl
    dsimp only
    rw [hparts, hmatch]
    dsimp only [backupAllRegExp]
    rw [Bool.true_or, Bool.true_and, Bool.or_false, Bool.or_eq_true, List.isEmpty_iff, Bool.true_or, Bool.true_and]
    constructor
    · rintro (rfl | h)
      · exact .full
      · split at h
        · cases h
        · rename_i s' hs'
          obtain ⟨dateTime, c, hdateTime', hc, rfl⟩ := matchDiffIncr_iff.mp hs'
          rw [Bool.or_false, List.isEmpty_iff] at h
          rw [h]
          exact .dependent hdateTime' hc
    · rintro (_ | ⟨hdateTime', hc⟩)
      · exact .inl rfl
      · refine .inr ?_
        rw [matchDiffIncr_iff.mpr ⟨_, _, hdateTime', hc, rfl⟩]
        rfl

/-- **The expression for the history manifests of all labels.** -/
theorem historyFileRegExp_iff {file : Str} : historyFileRegExp file = true ↔
    ∃ label, file = label ++ historyManifestExt ∧ ∃ full tail, LabelParts label full tail := by
  unfold historyFileRegExp
  cases hfull : (matchDateTime file).bind (matchChr 'F') with
  | none =>
    refine iff_of_false nofun ?_
    rintro ⟨label, rfl, full, tail, h⟩
    rw [h.eq, append_assoc, cons_append, match_full_iff.mpr ⟨full, h.dateTime, rfl⟩] at hfull
    cases hfull
  | some s =>
    obtain ⟨full, hdateTime, rfl⟩ := match_full_iff.mp hfull
    rw [Bool.or_eq_true, decide_eq_true_iff, decide_eq_true_iff, matchDiffIncr_iff]
    constructor
    · rintro (rfl | ⟨dateTime, c, hdateTime', hc, rfl⟩)
      · exact ⟨full ++ ['F'], by rw [append_assoc, singleton_append], full, [], rfl, hdateTime, .full⟩
      · refine ⟨full ++ 'F' :: ('_' :: (dateTime ++ [c])), ?_, full, _, rfl, hdateTime, .dependent hdateTime' hc⟩
        simp only [append_assoc, cons_append, nil_append]
    · rintro ⟨label, heq, full', tail, h⟩
      rw [h.eq, append_assoc] at heq
      obtain ⟨-, heq⟩ := append_full_inj hdateTime h.dateTime heq
      rw [cons_append, cons_inj_right] at heq
      rcases h.labelTail with _ | ⟨hdateTime', hc⟩
      · exact .inl heq
      · refine .inr ⟨_, _, hdateTime', hc, ?_⟩
        rw [heq, cons_append, append_assoc, singleton_append]

/-- **The expression for the history manifests of one full backup.** -/
theorem historyDependentRegExp_iff {latest full tail file : Str} (hlatest : LabelParts latest full tail) :
    historyDependentRegExp latest file = true ↔
      ∃ dateTime c, DateTime dateTime ∧ DependentLetter c ∧
        file = full ++ 'F' :: ('_' :: (dateTime ++ [c])) ++ historyManifestExt := by
  have htake : latest.take DATE_TIME_LEN = full := by
    rw [hlatest.eq, ← hlatest.dateTime.length, take_left]
  unfold historyDependentRegExp
  rw [htake, Bool.and_eq_true, decide_eq_true_iff]
  constructor
  · rintro ⟨hfull, hmatch⟩
    cases hchr : matchChr 'F' (file.drop DATE_TIME_LEN) with
    | none =>
      rw [hchr] at hmatch
      cases hmatch
    | some s =>
      rw [hchr] at hmatch
      obtain ⟨dateTime, c, hdateTime, hc, rfl⟩ := matchDiffIncr_iff.mp (of_decide_eq_true hmatch)
      refine ⟨dateTime, c, hdateTime, hc, ?_⟩
      rw [← take_append_drop DATE_TIME_LEN file, hfull, matchChr_eq hchr]
      simp only [append_assoc, cons_append, nil_append]
  · rintro ⟨dateTime, c, hdateTime, hc, rfl⟩
    rw [append_assoc, ← hlatest.dateTime.length, take_left, drop_left, cons_append, matchChr_self]
    refine ⟨rfl, decide_eq_true (matchDiffIncr_iff.mpr ⟨dateTime, c, hdateTime, hc, ?_⟩)⟩
    simp only [append_assoc, cons_append, nil_append]

/-! ## The order of labels -/

theorem append_lt_iff_of_length {a b x y : Str} (h : a.length = b.length) : a ++ x < b ++ y ↔ a < b ∨ a = b ∧ x < y := by
  induction a generalizing b with
  | nil =>
    obtain rfl := length_eq_zero_iff.mp h.symm
    simp
  | cons c a ih =>
    cases b with
    | nil => cases h
    | cons d b =>
      rw [cons_append, cons_append, cons_lt_cons_iff, cons_lt_cons_iff, ih (Nat.succ.inj h),
        cons.injEq]
      constructor
      · rintro (hlt | ⟨rfl, hlt | ⟨rfl, hlt⟩⟩)
        · exact .inl (.inl hlt)
        · exact .inl (.inr ⟨rfl, hlt⟩)
        · exact .inr ⟨⟨rfl, rfl⟩, hlt⟩
      · rintro ((hlt | ⟨rfl, hlt⟩) | ⟨⟨rfl, rfl⟩, hlt⟩)
        · exact .inl hlt
        · exact .inr ⟨rfl, .inl hlt⟩
        · exact .inr ⟨rfl, .inr ⟨rfl, hlt⟩⟩

/-- The extension is before what follows a full backup. -/
theorem historyManifestExt_lt (s : Str) : historyManifestExt < '_' :: s :=
  cons_lt_cons_iff.mpr (.inl (by decide))

section Tail

variable {s t : Str}

theorem LabelTail.append_lt_append_iff (hs : LabelTail s) (ht : LabelTail t) :
    s ++ historyManifestExt < t ++ historyManifestExt ↔ s < t := by
  cases hs with
  | full =>
    cases ht with
    | full => exact iff_of_false (lt_irrefl _) (lt_irrefl _)
    | dependent => exact iff_of_true (historyManifestExt_lt _) (nil_lt_cons _ _)
  | dependent hs hc =>
    cases ht with
    | full => exact iff_of_false (historyManifestExt_lt _).asymm (not_lt_nil _)
    | dependent ht hd =>
      rw [append_lt_iff_of_length (by simp [hs.length, ht.length]), or_iff_left]
      exact fun h => lt_irrefl _ h.2

theorem LabelTail.lt_append_iff (hs : LabelTail s) (ht : LabelTail t) : t < s ++ historyManifestExt ↔ t ≤ s := by
  cases hs with
  | full =>
    cases ht with
    | full => exact iff_of_true (nil_lt_cons _ _) le_rfl
    | dependent =>
      exact iff_of_false (historyManifestExt_lt _).asymm (not_le.mpr (nil_lt_cons _ _))
  | dependent hs hc =>
    cases ht with
    | full => exact iff_of_true (nil_lt_cons _ _) (nil_lt_cons _ _).le
    | dependent ht hd =>
      rw [← append_nil ('_' :: _), append_lt_iff_of_length (by simp [hs.length, ht.length]), le_iff_lt_or_eq,
        append_nil]
      exact or_congr_right (and_iff_left (nil_lt_cons _ _))

end Tail

section Order

variable {l m lfull mfull ltail mtail : Str}

section

variable (hl : LabelParts l lfull ltail) (hm : LabelParts m mfull mtail)
include hl hm

theorem LabelParts.lt_iff (x y : Str) :
    l ++ x < m ++ y ↔ lfull < mfull ∨ lfull = mfull ∧ ltail ++ x < mtail ++ y := by
  rw [hl.eq, hm.eq, append_assoc, append_assoc,
    append_lt_iff_of_length (hl.dateTime.length.trans hm.dateTime.length.symm), cons_append, cons_append,
    cons_lt_cons_iff, or_iff_right (lt_irrefl _), and_iff_right rfl]

/-- **The files of the history are in the order of the labels.** -/
theorem LabelParts.file_lt_iff : l ++ historyManifestExt < m ++ historyManifestExt ↔ l < m := by
  have hlt := hl.lt_iff hm [] []
  rw [append_nil, append_nil, append_nil, append_nil] at hlt
  rw [hl.lt_iff hm, hlt, hl.labelTail.append_lt_append_iff hm.labelTail]

/-- **A label is before a file of the history** if it is not after its label. -/
theorem LabelParts.lt_file_iff : m < l ++ historyManifestExt ↔ m ≤ l := by
  have hlt := hm.lt_iff hl [] historyManifestExt
  have hle := hl.lt_iff hm [] []
  rw [append_nil, append_nil] at hlt
  rw [append_nil, append_nil, append_nil, append_nil] at hle
  rw [hlt, hl.labelTail.lt_append_iff hm.labelTail, ← not_lt, ← not_lt, hle]
  rcases lt_trichotomy lfull mfull with hfull | rfl | hfull
  · exact iff_of_false (fun h => h.elim hfull.asymm (fun h => hfull.ne' h.1)) (fun h => h (.inl hfull))
  · simp
  · exact iff_of_true (.inl hfull) (fun h => h.elim hfull.asymm (fun h => hfull.ne' h.1))

end

end Order

end PgxBackup
