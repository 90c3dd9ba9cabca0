import PgxBackup.ArchiveAsync
import PgxBackup.Pattern
import PgxBackup.WalSegmentName

/-!
# Timelines of a restore

Before a restore it is verified that the timeline that recovery follows passes
through the backup. The history of a timeline is a file in the archive that
lists its ancestors, each with the LSN where the next one forked off. The
latest timeline is taken from the names of these files.

Assertions are not in a released build and left out here.
-/

namespace PgxBackup

/-! ## Numbers in base 16 -/

/-- The value of a non-empty sequence of hexadecimal digits. -/
def hexDigitsValue (s : Str) : Option ℕ :=
  if s ≠ [] ∧ s.all isHexDigit then some (FixedWidth.ofDigits hexValue 16 s) else none

/-- `strtoull` in base 16 on the whole string, without the blanks and the minus
sign that the callers reject. -/
def strtoullHex (value : Str) : Option ℕ :=
  let digits := match value with
    | '+' :: s => s
    | s => s
  let n := match digits with
    | '0' :: 'x' :: s => hexDigitsValue s
    | '0' :: 'X' :: s => hexDigitsValue s
    | s => hexDigitsValue s
  n.filter (fun n => decide (n < 2 ^ 64))

/-- `cvtZToUnsigned` in base 16. -/
def cvtZToUnsignedHex (bound : ℕ) (type : String) (value : Str) : Except Error ℕ :=
  match (strtoullHex value).filter (fun n => decide (n < bound)) with
  | some n => .ok n
  | none => .error (cvtError 16 value type)

/-- `pgLsnFromStr`. -/
def pgLsnFromStr (lsn : Str) : Except Error ℕ :=
  match lsn.splitOn '/' with
  | [high, low] => do
    let high ← cvtZToUnsignedHex (2 ^ 64) "uint64" high
    let low ← cvtZToUnsignedHex (2 ^ 64) "uint64" low
    .ok (((high <<< 32) % 2 ^ 64 + low) % 2 ^ 64)
  | _ => .error ⟨.formatError, "lsn requires two parts".toList⟩

/-- `pgLsnToStr`. -/
def pgLsnToStr (lsn : ℕ) : Str :=
  Nat.toDigits 16 (lsn >>> 32) ++ "/".toList ++ Nat.toDigits 16 (lsn &&& 0xFFFFFFFF)

/-- `%X`. -/
def timelineFmt (timeline : ℕ) : Str := (Nat.toDigits 16 timeline).map Char.toUpper

/-! ## History files -/

/-- `HistoryItem`. -/
structure HistoryItem where
  /-- Parent timeline. -/
  timeline : ℕ
  /-- Boundary LSN. -/
  lsn : ℕ
  deriving DecidableEq, Repr

def historyParseLine (line : Str) : Except Error (Option HistoryItem) :=
  let line := strTrim line
  -- skip empty lines and comments
  if line = [] then .ok none
  else if strBeginsWith line "#".toList then .ok none
  else
    match line.splitOn '\t' with
    | timeline :: lsn :: _ => do
      let timeline ← cvtZToUInt timeline
      let lsn ← pgLsnFromStr lsn
      .ok (some ⟨timeline, lsn⟩)
    | _ => .error ⟨.formatError, "invalid history line format '".toList ++ line ++ "'".toList⟩

/-- The lines of a history file, of which one after the other is parsed. -/
def historyParseLines : List Str → Except Error (List HistoryItem)
  | [] => .ok []
  | line :: lines => do
    let item ← historyParseLine line
    let items ← historyParseLines lines
    .ok (item.toList ++ items)

/-- `historyParse`. -/
def historyParse (history : Str) : Except Error (List HistoryItem) :=
  historyParseLines (history.splitOn '\n')

/-- The archive of a cluster in a repository: the path of the archive id and
what is in it, the files with their decrypted content. -/
structure HistoryArchive where
  path : Str
  files : List (Str × Str)

def HistoryArchive.names (archive : HistoryArchive) : List Str := archive.files.map Prod.fst

def historyName (timeline : ℕ) : Str := hex8 timeline ++ ".history".toList

/-- `historyLoad`. -/
def historyLoad (archive : HistoryArchive) (timeline : ℕ) : Except Error (List HistoryItem) :=
  let historyFile := archive.path ++ "/".toList ++ historyName timeline
  match archive.files.find? (fun file => file.1 = historyName timeline) with
  | none => .error ⟨.fileMissingError,
      "unable to open missing file '".toList ++ historyFile ++ "' for read".toList⟩
  | some file =>
    match historyParse file.2 with
    | .ok items => .ok items
    | .error error => .error ⟨.formatError, "invalid timeline '".toList ++ timelineFmt timeline ++
        "' at '".toList ++ historyFile ++ "': ".toList ++ error.message⟩

/-! ## The latest timeline -/

/-- The characters from `0` to `F`. -/
def isHistoryChar (c : Char) : Bool := '0' ≤ c && c ≤ 'F'

/-- The expression that history files are listed by, which has no anchors. -/
def historyPattern : Pattern Char :=
  .seq (Pattern.ones (List.replicate 8 isHistoryChar)) (Pattern.lit ".history".toList)

/-- Does a name match the expression, anywhere in it? -/
def historyMatch (name : Str) : Bool := name.tails.any (fun s => !(historyPattern.rest s).isEmpty)

/-- `timelineLatest`. -/
def timelineLatest (archive : HistoryArchive) (timelineCurrent : ℕ) : Except Error ℕ :=
  match strLstSort (archive.names.filter historyMatch) .desc with
  | [] => .ok timelineCurrent
  | name :: _ => do
    let timelineLatest ← cvtZToUnsignedHex (2 ^ 32) "unsigned int" (strSubN name 0 8)
    .ok (if timelineLatest > timelineCurrent then timelineLatest else timelineCurrent)

/-! ## Verification -/

/-- `PG_VERSION_11`. -/
def PG_VERSION_11 : ℕ := 110000

def timelineTargetParse (timelineTargetStr : Str) : Except Error ℕ :=
  let timeline :=
    if strBeginsWith timelineTargetStr "0x".toList then
      cvtZToUnsignedHex (2 ^ 32) "unsigned int" (timelineTargetStr.drop 2)
    else cvtZToUInt timelineTargetStr
  match timeline with
  | .ok timeline => .ok timeline
  | .error _ => .error ⟨.dbMismatchError,
      "invalid target timeline '".toList ++ timelineTargetStr ++ "'".toList⟩

/-- The error when the history of the target does not lead through the
backup. -/
def timelineError (historyList : List HistoryItem) (timelineTarget timelineBackup lsnBackup : ℕ) : Error :=
  match (historyList.filter (fun item => item.timeline = timelineBackup)).getLast? with
  | some item => ⟨.dbMismatchError,
      "target timeline ".toList ++ timelineFmt timelineTarget ++ " forked from backup timeline ".toList ++
      timelineFmt timelineBackup ++ " at ".toList ++ pgLsnToStr item.lsn ++
      " which is before backup lsn of ".toList ++ pgLsnToStr lsnBackup ++
      ("\nHINT: was the target timeline created by accidentally promoting a standby?" ++
        "\nHINT: was the target timeline created by testing a restore without --archive-mode=off?" ++
        "\nHINT: was the backup made after the target timeline was created?").toList⟩
  | none => ⟨.dbMismatchError,
      "backup timeline ".toList ++ timelineFmt timelineBackup ++ ", lsn ".toList ++ pgLsnToStr lsnBackup ++
      " is not in the history of target timeline ".toList ++ timelineFmt timelineTarget ++
      "\nHINT: was the target timeline created by promoting from a timeline < latest?".toList⟩

/-- `timelineVerify`, where a recovery of type `immediate` forces the default
target to be current. -/
def timelineVerify (archive : HistoryArchive) (pgVersion timelineBackup lsnBackup : ℕ)
    (timelineTargetStr : Option Str) (immediate : Bool) : Except Error Unit :=
  let timelineTargetStr := timelineTargetStr.getD
    (if pgVersion ≤ PG_VERSION_11 || immediate then "current".toList else "latest".toList)
  if timelineTargetStr = "current".toList then .ok ()
  else do
    let timelineTarget ←
      (if timelineTargetStr = "latest".toList then timelineLatest archive timelineBackup
      else timelineTargetParse timelineTargetStr)
    if timelineTarget = timelineBackup then .ok ()
    else
      let historyList ← historyLoad archive timelineTarget
      if historyList.any (fun item => item.timeline = timelineBackup && lsnBackup < item.lsn) then .ok ()
      else .error (timelineError historyList timelineTarget timelineBackup lsnBackup)

end PgxBackup
