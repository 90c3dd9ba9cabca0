import Mathlib.Order.Bounds.Basic
import PgxBackup.ExpireHistory

/-!
# The label of a new backup

The label of a new backup is made from the time, and for a backup that depends
on others from the full backup of its prior (`backupLabelCreate`). It must be
later than the newest label, which is looked for among the backups and in the
newest year of the history.

The files of the history are sorted by their names. They are in the order of
their labels, since the extension begins with a character that is before the
underscore that follows the full backup in a label.
-/

namespace PgxBackup

/-! ## Making a label -/

/-- `compressTypeFromName`. -/
def compressTypeFromName (name : Str) : CompressType :=
  match [CompressType.bz2, .gz, .lz4, .zst, .xz].find? (fun type => decide (compressExtStr type <:+ name)) with
  | some type => type
  | none => .none

/-- `compressExtStrip`. -/
def compressExtStrip (file : Str) (type : CompressType) : Except Error Str :=
  if compressExtStr type <:+ file then .ok (strSubN file 0 (file.length - (compressExtStr type).length))
  else .error ⟨.formatError, "'".toList ++ file ++ "' must have '".toList ++ compressExtStr type
    ++ "' extension".toList⟩

/-- `BACKUP_MANIFEST_EXT`. -/
def BACKUP_MANIFEST_EXT : Str := ".manifest".toList

/-- The expression of a history manifest of a backup that depends on the full
backup of a label. The first characters of the label are put into it. -/
def historyDependentRegExp (backupLabelLatest file : Str) : Bool :=
  decide (file.take DATE_TIME_LEN = backupLabelLatest.take DATE_TIME_LEN) &&
    match matchChr 'F' (file.drop DATE_TIME_LEN) with
    | none => false
    | some s => decide (matchDiffIncr { differential := true, incremental := true } s = some historyManifestExt)

/-- The label in the name of a history manifest. -/
def historyLabelStrip (historyLabelLatest : Str) : Except Error Str := do
  let label ← compressExtStrip historyLabelLatest (compressTypeFromName historyLabelLatest)
  .ok (strSubN label 0 (label.length - BACKUP_MANIFEST_EXT.length))

/-- The expression that the history is listed with: all labels for a full
backup, and for others those of the full backup of the newest label. -/
def historyCreateRegExp (type : BackupType) (backupLabelLatest : Option Str) : Except Error (Str → Bool) :=
  if type = .full then .ok historyFileRegExp
  else
    match backupLabelLatest with
    | none => .error ⟨.assertError, "assertion 'this != NULL' failed".toList⟩
    | some backupLabelLatest => .ok (historyDependentRegExp backupLabelLatest)

/-- The newest label of the backups and of some files of the history. -/
def historyLabelLatest (historyList : List Str) (backupLabelLatest : Option Str) : Except Error (Option Str) :=
  match (strLstSort historyList .desc).head? with
  | none => .ok backupLabelLatest
  | some historyLabelLatest =>
    match backupLabelLatest with
    | none => (historyLabelStrip historyLabelLatest).map some
    | some backupLabelLatest =>
      if strCmp historyLabelLatest backupLabelLatest > 0 then (historyLabelStrip historyLabelLatest).map some
      else .ok (some backupLabelLatest)

/-- The newest label that is found. -/
def backupLabelLatest (backup : List Str) (history : History) (type : BackupType) : Except Error (Option Str) :=
  let backupLabelLatest := (strLstSort (backup.filter (backupRegExp backupAllRegExp)) .desc).head?
  match (strLstSort ((history.years.map HistoryYear.year).filter historyYearRegExp) .desc).head? with
  | none => .ok backupLabelLatest
  | some historyYear => do
    let fileNameRegExp ← historyCreateRegExp type backupLabelLatest
    historyLabelLatest ((history.list historyYear).filter fileNameRegExp) backupLabelLatest

/-- **Make the label of a new backup** (`backupLabelCreate`) from the names in
the backup path and the history. -/
def backupLabelCreate (strftime : ℤ → Option Str) (backup : List Str) (history : History) (type : BackupType)
    (backupLabelPrior : Option Str) (timestamp : ℤ) : Except Error Str := do
  if ¬ ((type = .full ∧ backupLabelPrior = none) ∨ (type ≠ .full ∧ backupLabelPrior ≠ none)) then
    throw ⟨.assertError, ("assertion '(type == backupTypeFull && backupLabelPrior == NULL) || " ++
      "(type != backupTypeFull && backupLabelPrior != NULL)' failed").toList⟩
  if ¬ timestamp > 0 then
    throw ⟨.assertError, "assertion 'timestamp > 0' failed".toList⟩
  match ← backupLabelLatest backup history type with
  | none => backupLabelFormat strftime type backupLabelPrior timestamp
  | some backupLabelLatest =>
    let result ← backupLabelFormat strftime type backupLabelPrior timestamp
    if strCmp result backupLabelLatest ≤ 0 then
      -- two backups have run very close together
      let result ← backupLabelFormat strftime type backupLabelPrior (timestamp + 1)
      if strCmp result backupLabelLatest ≤ 0 then
        throw ⟨.clockError, "new backup label '".toList ++ result ++ "' is not later than latest backup label '".toList
          ++ backupLabelLatest ++ "'\nHINT: has the timezone changed?\nHINT: is there clock skew?".toList⟩
      return result
    return result

end PgxBackup
