import PgxBackup.Text

/-!
# Backup labels

A full backup is labelled by its date and time followed by `F`; a
differential or incremental backup by the label of its full, an underscore,
its own date and time, and `D` or `I`. Commands pick the labels of certain
types with the regular expression that `backupRegExp` builds. The model
keeps its parameters and decides the match directly.
-/

namespace PgxBackup

/-- Parameters of `backupRegExp`. -/
structure BackupRegExpParam where
  full : Bool := false
  differential : Bool := false
  incremental : Bool := false
  noAnchorEnd : Bool := false

/-- Match `count` digits and return what follows. -/
def matchDigits : ℕ → Str → Option Str
  | 0, s => some s
  | _ + 1, [] => none
  | count + 1, c :: s => if c.isDigit then matchDigits count s else none

/-- Match one character and return what follows. -/
def matchChr (c : Char) : Str → Option Str
  | [] => none
  | d :: s => if d = c then some s else none

/-- Match `DATE_TIME_REGEX` (`[0-9]{8}\-[0-9]{6}`) and return what follows. -/
def matchDateTime (s : Str) : Option Str := do
  let s ← matchDigits 8 s
  let s ← matchChr '-' s
  matchDigits 6 s

theorem length_of_matchDigits {count : ℕ} {s s' : Str} (h : matchDigits count s = some s') :
    s.length = count + s'.length := by
  induction count generalizing s with
  | zero =>
    rw [Option.some.inj h, Nat.zero_add]
  | succ count ih =>
    cases s with
    | nil => cases h
    | cons c s =>
      simp only [matchDigits] at h
      split at h
      · rw [List.length_cons, ih h, Nat.add_right_comm]
      · cases h

theorem length_of_matchChr {c : Char} {s s' : Str} (h : matchChr c s = some s') :
    s.length = 1 + s'.length := by
  cases s with
  | nil => cases h
  | cons d s =>
    simp only [matchChr] at h
    split at h
    · rw [List.length_cons, Option.some.inj h, Nat.add_comm]
    · cases h

theorem length_of_matchDateTime {s s' : Str} (h : matchDateTime s = some s') :
    s.length = 15 + s'.length := by
  obtain ⟨s₁, hs₁, h⟩ := Option.bind_eq_some_iff.mp h
  obtain ⟨s₂, hs₂, h⟩ := Option.bind_eq_some_iff.mp h
  rw [length_of_matchDigits hs₁, length_of_matchChr hs₂, length_of_matchDigits h,
    ← Nat.add_assoc, ← Nat.add_assoc]

/-- Match the part of a label after the full backup: an underscore, a date
and time and the letter of a type that the parameters ask for. -/
def matchDiffIncr (param : BackupRegExpParam) (s : Str) : Option Str := do
  let s ← matchChr '_' s
  let s ← matchDateTime s
  match s with
  | [] => none
  | c :: s =>
    if (param.differential && c == 'D') || (param.incremental && c == 'I') then some s
    else none

/-- **Does the label match the expression of `backupRegExp`?** -/
def backupRegExp (param : BackupRegExpParam) (label : Str) : Bool :=
  match (matchDateTime label).bind (matchChr 'F') with
  | none => false
  | some s =>
    let full :=
      (param.full || !(param.differential || param.incremental)) &&
        (s.isEmpty || param.noAnchorEnd)
    let diffIncr :=
      (param.differential || param.incremental) &&
        match matchDiffIncr param s with
        | none => false
        | some s => s.isEmpty || param.noAnchorEnd
    full || diffIncr

end PgxBackup
