import PgxBackup.Timeline

/-!
# The timeline of a backup and that of the target

A history says which timeline wrote which part of the WAL: every timeline owns
the LSNs from the switch point before it up to its own. The loop over the
history compares the LSN of the backup only with the switch point of the
timeline of the backup, which is enough since a backup does not begin before
its timeline does.

The latest timeline is the number at the start of the last name that contains
something like the name of a history file. A name may do so without being one,
such as that of a file that was not completely written.
-/

namespace PgxBackup

open List

/-! ## Timelines as PostgreSQL reads them -/

/-- **The timeline that owns an LSN** (`tliOfPointInHistory`): the entry whose
interval, from the switch point before it up to its own, holds the LSN. What
comes after the last switch point belongs to the target. -/
def tliOfPointInHistory (timelineTarget : ℕ) (begin : ℕ) (lsn : ℕ) : List HistoryItem → Option ℕ
  | [] => if begin ≤ lsn then some timelineTarget else none
  | item :: items =>
    if begin ≤ lsn ∧ lsn < item.lsn then some item.timeline
    else tliOfPointInHistory timelineTarget item.lsn lsn items

def NotBeforeTimeline (timeline : ℕ) (begin : ℕ) (lsn : ℕ) : List HistoryItem → Prop
  | [] => True
  | item :: items =>
    (item.timeline = timeline → begin ≤ lsn) ∧ NotBeforeTimeline timeline item.lsn lsn items

/-- **What a line of a history file says.** -/
inductive LineSays : Str → Option HistoryItem → Prop
  | comment {blank rest : Str} (hblank : ∀ c ∈ blank, strTrimBlank c = true) :
    LineSays (blank ++ '#' :: rest) none
  | blank {blank : Str} (hblank : ∀ c ∈ blank, strTrimBlank c = true) : LineSays blank none
  | item {timeline high low reason : Str} {t h l : ℕ} (htimeline : digitsValue 10 timeline = some t)
    (ht : t < 2 ^ 32) (hhigh : hexDigitsValue high = some h) (hh : h < 2 ^ 32)
    (hlow : hexDigitsValue low = some l) (hl : l < 2 ^ 32) :
    LineSays (timeline ++ '\t' :: (high ++ '/' :: (low ++ '\t' :: reason))) (some ⟨t, h * 2 ^ 32 + l⟩)

/-- **What a history file says**: its lines one after the other. -/
def HistorySays (history : Str) (items : List HistoryItem) : Prop :=
  ∃ lines : List (Str × Option HistoryItem), lines ≠ [] ∧
    (∀ line ∈ lines, '\n' ∉ line.1 ∧ LineSays line.1 line.2) ∧
    history = ['\n'].intercalate (lines.map Prod.fst) ∧ items = lines.flatMap (fun line => line.2.toList)

inductive TimelineTarget
  | latest
  | timeline (timeline : ℕ)
  deriving DecidableEq

/-- **What a target says**: the latest timeline, or the one with a number. -/
inductive TargetSays : Str → TimelineTarget → Prop
  | latest : TargetSays "latest".toList .latest
  | decimal {s : Str} {n : ℕ} (hvalue : digitsValue 10 s = some n) (hlt : n < 2 ^ 32) :
    TargetSays s (.timeline n)
  | hex {s : Str} {n : ℕ} (hvalue : hexDigitsValue s = some n) (hlt : n < 2 ^ 32) :
    TargetSays ("0x".toList ++ s) (.timeline n)

/-- No timeline after this one has a history file. -/
def NoneAfter (names : List Str) (timeline : ℕ) : Prop :=
  ∀ other < 2 ^ 32, historyName other ∈ names → other ≤ timeline

/-- **The latest timeline**: the largest one with a history file, or the
current one if that is not exceeded. -/
def IsLatest (names : List Str) (current latest : ℕ) : Prop :=
  NoneAfter names latest ∧
    (latest = current ∨ current < latest ∧ latest < 2 ^ 32 ∧ historyName latest ∈ names)

def Resolves (names : List Str) (current : ℕ) : TimelineTarget → ℕ → Prop
  | .latest, n => IsLatest names current n
  | .timeline timeline, n => n = timeline

structure HistoryFile (archive : HistoryArchive) (timeline : ℕ) (items : List HistoryItem) : Prop where
  content : ∃ file, archive.files.find? (fun file => file.1 = historyName timeline) = some file ∧
    HistorySays file.2 items
  lsn_le : items.Pairwise (fun item next => item.lsn ≤ next.lsn)

/-! ## Numbers -/

variable {s : Str} {n : ℕ} {items : List HistoryItem} {archive : HistoryArchive}

section

variable (h : hexDigitsValue s = some n)
include h

theorem hexDigitsValue_some : s ≠ [] ∧ ∀ c ∈ s, isHexDigit c = true := by
  unfold hexDigitsValue at h
  split at h
  · rename_i hs
    exact ⟨hs.1, all_eq_true.mp hs.2⟩
  · cases h

theorem strtoullHex_digits (hn : n < 2 ^ 64) : strtoullHex s = some n := by
  obtain ⟨hne, hdigits⟩ := hexDigitsValue_some h
  have hplus : ∀ t, s ≠ '+' :: t := by
    rintro t rfl
    cases hdigits '+' mem_cons_self
  have hx : ∀ t, s ≠ '0' :: 'x' :: t := by
    rintro t rfl
    cases hdigits 'x' (by simp)
  have hX : ∀ t, s ≠ '0' :: 'X' :: t := by
    rintro t rfl
    cases hdigits 'X' (by simp)
  have hvalue : strtoullHex s = (hexDigitsValue s).filter (fun n => decide (n < 2 ^ 64)) := by
    unfold strtoullHex
    split
    · rename_i t
      exact absurd rfl (hplus t)
    · dsimp only
      split
      · rename_i t _
        exact absurd rfl (hx t)
      · rename_i t _
        exact absurd rfl (hX t)
      · rfl
  rw [hvalue, h]
  exact if_pos (decide_eq_true hn)

theorem cvtZToUnsignedHex_digits {bound : ℕ} {type : String} (hn : n < bound)
    (hbound : bound ≤ 2 ^ 64) : cvtZToUnsignedHex bound type s = .ok n := by
  unfold cvtZToUnsignedHex
  rw [strtoullHex_digits h (lt_of_lt_of_le hn hbound)]
  rw [show (some n).filter (fun n => decide (n < bound)) = some n from if_pos (decide_eq_true hn)]

end

theorem cvtZToUInt_digits (h : digitsValue 10 s = some n) (hn : n < 2 ^ 32) :
    cvtZToUInt s = .ok n := by
  obtain ⟨hne, hdigits⟩ := digitsValue_some h
  have hvalue : strtoull 10 s = (digitsValue 10 s).filter (fun n => decide (n < 2 ^ 64)) := by
    unfold strtoull
    split
    · rename_i t
      cases hdigits '+' mem_cons_self
    · rfl
  unfold cvtZToUInt cvtZToUIntBase cvtZToUnsigned
  rw [hvalue, h]
  rw [show ((some n).filter (fun n => decide (n < 2 ^ 64))).filter (fun n => decide (n < 2 ^ 32)) = some n by
    simp only [Option.filter_some, decide_eq_true (show n < 2 ^ 64 by omega), decide_eq_true hn, if_true]]

theorem pgLsnFromStr_parts {high low : Str} {h l : ℕ} (hhigh : hexDigitsValue high = some h)
    (hh : h < 2 ^ 32) (hlow : hexDigitsValue low = some l) (hl : l < 2 ^ 32) :
    pgLsnFromStr (high ++ '/' :: low) = .ok (h * 2 ^ 32 + l) := by
  have hslash {s : Str} {n : ℕ} (hs : hexDigitsValue s = some n) : '/' ∉ s := fun hmem =>
    absurd ((hexDigitsValue_some hs).2 _ hmem) (by decide)
  have hsplit : (high ++ '/' :: low).splitOn '/' = [high, low] := by
    have hparts : (['/'].intercalate [high, low]).splitOn '/' = [high, low] :=
      splitOn_intercalate '/' (by simpa using ⟨hslash hhigh, hslash hlow⟩) (cons_ne_nil _ _)
    simpa [intercalate] using hparts
  unfold pgLsnFromStr
  rw [hsplit]
  dsimp only
  rw [cvtZToUnsignedHex_digits hhigh (by omega) le_rfl, ok_bind,
    cvtZToUnsignedHex_digits hlow (by omega) le_rfl, ok_bind, Nat.shiftLeft_eq]
  congr 1
  omega

/-! ## The history of a timeline -/

theorem not_strTrimBlank {c : Char} (h : isHexDigit c = true) : strTrimBlank c = false := by
  by_contra hblank
  rw [Bool.not_eq_false] at hblank
  unfold strTrimBlank at hblank
  simp only [Bool.or_eq_true, beq_iff_eq] at hblank
  rcases hblank with ((rfl | rfl) | rfl) | rfl <;> cases h

theorem isHexDigit_of_isDigit {c : Char} (h : c.isDigit = true) : isHexDigit c = true := by
  unfold isHexDigit
  rw [h, Bool.true_or, Bool.true_or]

theorem rdropWhile_append_not {s t : Str} {c : Char} (hc : strTrimBlank c = false) :
    (s ++ c :: t).rdropWhile strTrimBlank = s ++ c :: t.rdropWhile strTrimBlank := by
  induction t using reverseRecOn with
  | nil =>
    rw [rdropWhile_nil, rdropWhile_concat_neg _ _ _ (by rw [hc]; exact Bool.false_ne_true)]
  | append_singleton t d ih =>
    have hassoc : s ++ c :: (t ++ [d]) = (s ++ c :: t) ++ [d] := by simp
    by_cases hd : strTrimBlank d = true
    · rw [hassoc, rdropWhile_concat_pos _ _ _ hd, rdropWhile_concat_pos _ _ _ hd, ih]
    · rw [hassoc, rdropWhile_concat_neg _ _ _ hd, rdropWhile_concat_neg _ _ _ hd, ← hassoc]

theorem historyParseLine_none {line : Str} (h : LineSays line none) : historyParseLine line = .ok none := by
  unfold historyParseLine strTrim
  cases h with
  | comment hblank =>
    rename_i blank rest
    have hdrop : (blank ++ '#' :: rest).dropWhile strTrimBlank = '#' :: rest := by
      rw [dropWhile_append_of_pos hblank, dropWhile_cons_of_neg (by decide)]
    have htrim := @rdropWhile_append_not [] rest '#' rfl
    rw [nil_append, nil_append] at htrim
    rw [hdrop, htrim]
    rw [if_neg (cons_ne_nil _ _), if_pos (by simp [strBeginsWith])]
  | blank hblank =>
    rw [dropWhile_eq_nil_iff.mpr hblank, rdropWhile_nil]
    exact if_pos rfl

theorem rdropWhile_tab (reason : Str) :
    ('\t' :: reason).rdropWhile strTrimBlank = [] ∨
      ∃ rest, ('\t' :: reason).rdropWhile strTrimBlank = '\t' :: rest := by
  have hpre : ('\t' :: reason).rdropWhile strTrimBlank <+: '\t' :: reason := rdropWhile_prefix _ _
  cases hrest : ('\t' :: reason).rdropWhile strTrimBlank with
  | nil => exact .inl rfl
  | cons c rest =>
    rw [hrest, cons_prefix_cons] at hpre
    exact .inr ⟨rest, by rw [hpre.1]⟩

/-- **A line with a timeline is parsed** to what it says. -/
theorem historyParseLine_some {line : Str} {item : HistoryItem} (h : LineSays line (some item)) :
    historyParseLine line = .ok (some item) := by
  cases h with
  | item htimeline ht hhigh hh hlow hl =>
    rename_i timeline high low reason t h l
    obtain ⟨hne, hdigits⟩ := digitsValue_some htimeline
    obtain ⟨hneLow, hdigitsLow⟩ := hexDigitsValue_some hlow
    have hdigitsHigh := (hexDigitsValue_some hhigh).2
    -- the line begins with a digit and its LSN ends with one, so only the reason is trimmed
    have htrim : strTrim (timeline ++ '\t' :: (high ++ '/' :: (low ++ '\t' :: reason)))
        = timeline ++ '\t' :: ((high ++ '/' :: low) ++ ('\t' :: reason).rdropWhile strTrimBlank) := by
      obtain ⟨first, rest, hfirst⟩ := exists_cons_of_ne_nil hne
      have hblank : strTrimBlank first = false :=
        not_strTrimBlank (isHexDigit_of_isDigit (hdigits first (by rw [hfirst]; exact mem_cons_self)))
      obtain ⟨low', last, hlast⟩ := (eq_nil_or_concat low).resolve_left hneLow
      rw [concat_eq_append] at hlast
      have hblankLast : strTrimBlank last = false :=
        not_strTrimBlank (hdigitsLow last (by rw [hlast]; simp))
      unfold strTrim
      rw [hfirst, cons_append, dropWhile_cons_of_neg (by rw [hblank]; exact Bool.false_ne_true),
        ← cons_append, ← hfirst]
      have hassoc (tail : Str) : timeline ++ '\t' :: (high ++ '/' :: (low ++ tail))
          = (timeline ++ '\t' :: (high ++ '/' :: low')) ++ last :: tail := by
        rw [hlast]
        simp
      rw [hassoc, rdropWhile_append_not hblankLast, ← hassoc]
      simp
    have htab {s : Str} (hs : ∀ c ∈ s, isHexDigit c = true) : '\t' ∉ s := fun hmem =>
      absurd (hs _ hmem) (by decide)
    have htimelineTab : '\t' ∉ timeline := htab (fun c hc => isHexDigit_of_isDigit (hdigits c hc))
    have hlsnTab : '\t' ∉ high ++ '/' :: low := by
      simp only [mem_append, mem_cons, not_or]
      exact ⟨htab hdigitsHigh, by decide, htab hdigitsLow⟩
    have hsplit : ∃ parts, (timeline ++ '\t' :: ((high ++ '/' :: low) ++
        ('\t' :: reason).rdropWhile strTrimBlank)).splitOn '\t' = timeline :: (high ++ '/' :: low) :: parts := by
      rw [splitOn_append_cons_self, splitOn_eq_singleton htimelineTab]
      rcases rdropWhile_tab reason with htail | ⟨rest, htail⟩
      · rw [htail, append_nil, splitOn_eq_singleton hlsnTab]
        exact ⟨[], rfl⟩
      · rw [htail, splitOn_append_cons_self, splitOn_eq_singleton hlsnTab]
        exact ⟨rest.splitOn '\t', rfl⟩
    have hnone : timeline ++ '\t' :: ((high ++ '/' :: low) ++ ('\t' :: reason).rdropWhile strTrimBlank) ≠ [] := by
      simp
    have hcomment : strBeginsWith (timeline ++ '\t' :: ((high ++ '/' :: low) ++
        ('\t' :: reason).rdropWhile strTrimBlank)) "#".toList = false := by
      obtain ⟨first, rest, rfl⟩ := exists_cons_of_ne_nil hne
      have hfirst : first ≠ '#' := by
        rintro rfl
        cases hdigits '#' mem_cons_self
      rw [cons_append]
      show ('#' == first && _) = false
      rw [beq_false_of_ne hfirst.symm, Bool.false_and]
    obtain ⟨parts, hparts⟩ := hsplit
    unfold historyParseLine
    rw [htrim]
    rw [if_neg hnone, if_neg (by rw [hcomment]; exact Bool.false_ne_true), hparts]
    dsimp only
    rw [cvtZToUInt_digits htimeline ht, ok_bind, pgLsnFromStr_parts hhigh hh hlow hl, ok_bind]

/-- **A history file is parsed** to what it says. -/
theorem historyParse_ok {history : Str} (h : HistorySays history items) :
    historyParse history = .ok items := by
  obtain ⟨lines, hne, hlines, rfl, rfl⟩ := h
  have hsplit : (['\n'].intercalate (lines.map Prod.fst)).splitOn '\n' = lines.map Prod.fst := by
    refine splitOn_intercalate '\n' ?_ (by simpa using hne)
    intro text hmem
    obtain ⟨line, hline, rfl⟩ := mem_map.mp hmem
    exact (hlines line hline).1
  unfold historyParse
  rw [hsplit]
  clear hsplit hne
  induction lines with
  | nil => rfl
  | cons line lines ih =>
    rw [forall_mem_cons] at hlines
    have hline : historyParseLine line.1 = .ok line.2 := by
      have hsame := hlines.1.2
      cases hitem : line.2 with
      | none =>
        rw [hitem] at hsame
        exact historyParseLine_none hsame
      | some item =>
        rw [hitem] at hsame
        exact historyParseLine_some hsame
    rw [map_cons]
    unfold historyParseLines
    rw [hline, ok_bind, ih hlines.2, ok_bind, flatMap_cons]

/-! ## One comparison is enough -/

theorem NotBeforeTimeline.le {timeline begin lsn : ℕ}
    (h : NotBeforeTimeline timeline begin lsn items) (hlsn : ∀ item ∈ items, begin ≤ item.lsn)
    (hsorted : items.Pairwise (fun item next => item.lsn ≤ next.lsn)) {item : HistoryItem}
    (hmem : item ∈ items) (htimeline : item.timeline = timeline) : begin ≤ lsn := by
  induction items generalizing begin with
  | nil => cases hmem
  | cons first items ih =>
    rw [pairwise_cons] at hsorted
    rcases mem_cons.mp hmem with rfl | hmem
    · exact h.1 htimeline
    · exact (hlsn first mem_cons_self).trans (ih h.2 hsorted.1 hsorted.2 hmem)

/-- **The LSN is owned by the timeline of the backup** if it is before the
switch point of that timeline. -/
theorem tliOfPointInHistory_iff {timelineTarget timeline begin lsn : ℕ}
    (htarget : timelineTarget ≠ timeline) (h : NotBeforeTimeline timeline begin lsn items)
    (hsorted : items.Pairwise (fun item next => item.lsn ≤ next.lsn)) :
    tliOfPointInHistory timelineTarget begin lsn items = some timeline ↔
      ∃ item ∈ items, item.timeline = timeline ∧ lsn < item.lsn := by
  induction items generalizing begin with
  | nil =>
    unfold tliOfPointInHistory
    constructor
    · intro heq
      split at heq
      · exact absurd (Option.some.inj heq) htarget
      · cases heq
    · rintro ⟨item, hmem, -⟩
      cases hmem
  | cons item items ih =>
    rw [pairwise_cons] at hsorted
    unfold tliOfPointInHistory
    by_cases hin : begin ≤ lsn ∧ lsn < item.lsn
    · rw [if_pos hin]
      constructor
      · intro heq
        exact ⟨item, mem_cons_self, Option.some.inj heq, hin.2⟩
      · rintro ⟨other, hmem, htimeline, hlt⟩
        rcases mem_cons.mp hmem with rfl | hmem
        · rw [htimeline]
        · -- a later entry begins behind this one
          have hle := h.2.le hsorted.1 hsorted.2 hmem htimeline
          exact absurd hin.2 (not_lt.mpr hle)
    · rw [if_neg hin, ih h.2 hsorted.2]
      constructor
      · rintro ⟨other, hmem, hother⟩
        exact ⟨other, mem_cons_of_mem _ hmem, hother⟩
      · rintro ⟨other, hmem, htimeline, hlt⟩
        rcases mem_cons.mp hmem with rfl | hmem
        · exact absurd ⟨h.1 htimeline, hlt⟩ hin
        · exact ⟨other, hmem, htimeline, hlt⟩

/-! ## The latest timeline -/

def LastMatch (names : List Str) (name : Str) : Prop :=
  name ∈ names ∧ historyMatch name = true ∧ ∀ other ∈ names, historyMatch other = true → other ≤ name

/-- **The last name that matches begins with the number of the latest
timeline**: of one that has a history file with none after it, or of one that is
not after the current timeline while no history file is. -/
def LastMatchNamesLatest (names : List Str) (current : ℕ) : Prop :=
  ∀ name, LastMatch names name → ∃ m < 2 ^ 32, strtoullHex (name.take 8) = some m ∧
    (m ≤ current ∧ NoneAfter names current ∨
      current < m ∧ historyName m ∈ names ∧ NoneAfter names m)

theorem historyName_inj {m : ℕ} (hm : m < 2 ^ 32) (hn : n < 2 ^ 32) :
    historyName m = historyName n ↔ m = n := by
  unfold historyName hex8
  rw [append_left_inj]
  exact FixedWidth.digits_inj hexDigit_lt hm hn

theorem spells_replicate {α : Type} {p : α → Bool} {w : List α} (h : ∀ c ∈ w, p c = true) :
    (Pattern.ones (replicate w.length p)).Spells w := by
  induction w with
  | nil => rfl
  | cons c w ih =>
    rw [forall_mem_cons] at h
    rw [length_cons, replicate_succ, Pattern.spells_ones_cons]
    exact ⟨c, w, h.1, ih h.2, rfl⟩

theorem historyMatch_historyName (timeline : ℕ) : historyMatch (historyName timeline) = true := by
  have hchars : ∀ c ∈ hex8 timeline, isHistoryChar c = true := by
    intro c hc
    obtain ⟨i, hi, rfl⟩ := FixedWidth.mem_digits hexDigit 16 (by decide) hc
    have hall : ∀ i < 16, isHistoryChar (hexDigit i) = true := by decide
    exact hall i hi
  have hspells : historyPattern.Spells (historyName timeline) := by
    refine ⟨hex8 timeline, ".history".toList, ?_, Pattern.spells_lit.mpr rfl, rfl⟩
    have h := spells_replicate hchars
    rwa [length_hex8] at h
  have hrest : [] ∈ historyPattern.rest (historyName timeline) :=
    Pattern.mem_rest.mpr ⟨_, hspells, (append_nil _).symm⟩
  unfold historyMatch
  rw [any_eq_true]
  refine ⟨historyName timeline, (mem_tails _ _).mpr suffix_rfl, ?_⟩
  rw [Bool.not_eq_true', isEmpty_eq_false_iff]
  exact ne_nil_of_mem hrest

/-- **An archive whose matching names are history files** meets the condition. -/
theorem lastMatchNamesLatest_of_history {names : List Str} (current : ℕ)
    (hnames : ∀ name ∈ names, historyMatch name = true → ∃ timeline < 2 ^ 32, name = historyName timeline) :
    LastMatchNamesLatest names current := by
  rintro name ⟨hmem, hmatch, hlast⟩
  obtain ⟨m, hm, rfl⟩ := hnames name hmem hmatch
  have htake (timeline : ℕ) : (historyName timeline).take 8 = hex8 timeline := take_left' (length_hex8 timeline)
  have hvalue : hexDigitsValue (hex8 m) = some m := by
    unfold hexDigitsValue
    rw [if_pos ⟨ne_nil_of_length_pos (by rw [length_hex8]; decide), all_eq_true.mpr fun c hc => isHexDigit_of_mem_hex8 hc⟩]
    rw [hex8, FixedWidth.ofDigits_digits hexValue_hexDigit (by decide)]
    exact congrArg some (Nat.mod_eq_of_lt hm)
  have hafter : NoneAfter names m := by
    intro other hother hin
    have hle : hex8 other ≤ hex8 m := by
      rw [← htake other, ← htake m]
      exact take_le_take 8 (hlast _ hin (historyMatch_historyName other))
    exact not_lt.mp fun hlt => not_lt.mpr hle ((FixedWidth.digits_lt_iff hexDigit_lt hm hother).mpr hlt)
  refine ⟨m, hm, ?_, ?_⟩
  · rw [htake]
    exact strtoullHex_digits hvalue (hm.trans (by decide))
  · rcases le_or_gt m current with hle | hlt
    · exact .inl ⟨hle, fun other hother hin => (hafter other hother hin).trans hle⟩
    · exact .inr ⟨hlt, hmem, hafter⟩

theorem IsLatest.unique {names : List Str} {current m : ℕ} (hm : IsLatest names current m)
    (hn : IsLatest names current n) : m = n := by
  obtain ⟨hafterM, rfl | ⟨hltM, hboundM, hmemM⟩⟩ := hm
  · obtain ⟨-, rfl | ⟨hltN, hboundN, hmemN⟩⟩ := hn
    · rfl
    · exact absurd (hafterM n hboundN hmemN) (not_le.mpr hltN)
  · obtain ⟨hafterN, rfl | ⟨hltN, hboundN, hmemN⟩⟩ := hn
    · exact absurd (hafterN m hboundM hmemM) (not_le.mpr hltM)
    · exact le_antisymm (hafterN m hboundM hmemM) (hafterM n hboundN hmemN)

/-- The first name in descending order is the last match. -/
theorem lastMatch_of_sort {name : Str} {rest : List Str}
    (h : strLstSort (archive.names.filter historyMatch) .desc = name :: rest) :
    LastMatch archive.names name := by
  have hmem : name ∈ archive.names.filter historyMatch := by
    rw [← mem_strLstSort, h]
    exact mem_cons_self
  have hsorted : (strLstSort (archive.names.filter historyMatch) .desc).Pairwise (· ≥ ·) :=
    pairwise_insertionSort _ _
  rw [mem_filter] at hmem
  refine ⟨hmem.1, hmem.2, fun other hother hmatch => ?_⟩
  have hin : other ∈ name :: rest := by
    rw [← h, mem_strLstSort, mem_filter]
    exact ⟨hother, hmatch⟩
  rw [h, pairwise_cons] at hsorted
  rcases mem_cons.mp hin with rfl | hin
  · exact le_rfl
  · exact hsorted.1 other hin

theorem cvtZToUnsignedHex_ok {bound : ℕ} {type : String} :
    cvtZToUnsignedHex bound type s = .ok n ↔ strtoullHex s = some n ∧ n < bound := by
  unfold cvtZToUnsignedHex
  cases hvalue : strtoullHex s with
  | none => simp
  | some m =>
    by_cases hm : m < bound
    · simp only [Option.filter_some, decide_eq_true hm, if_true, Except.ok.injEq, Option.some.injEq]
      constructor
      · rintro rfl
        exact ⟨rfl, hm⟩
      · exact And.left
    · simp only [Option.filter_some, decide_eq_false hm, Bool.false_eq_true, if_false, reduceCtorEq,
        false_iff, Option.some.injEq, not_and]
      rintro rfl
      exact hm

/-- **The latest timeline is found** if the last match names it, and else it is
not. -/
theorem timelineLatest_iff {current : ℕ}
    (hlatest : IsLatest archive.names current n) :
    timelineLatest archive current = .ok n ↔ LastMatchNamesLatest archive.names current := by
  unfold timelineLatest
  cases hsort : strLstSort (archive.names.filter historyMatch) .desc with
  | nil =>
    have hnone (name : Str) (hname : name ∈ archive.names) : historyMatch name ≠ true := by
      intro hmatch
      have hin : name ∈ strLstSort (archive.names.filter historyMatch) .desc := by
        rw [mem_strLstSort, mem_filter]
        exact ⟨hname, hmatch⟩
      rw [hsort] at hin
      cases hin
    have hcurrent : IsLatest archive.names current current :=
      ⟨fun other _ hmem => absurd (historyMatch_historyName other) (hnone _ hmem), .inl rfl⟩
    rw [hlatest.unique hcurrent]
    exact iff_of_true rfl (fun name hlast => absurd hlast.2.1 (hnone name hlast.1))
  | cons name rest =>
    have hlast := lastMatch_of_sort hsort
    have hsub : strSubN name 0 8 = name.take 8 := rfl
    dsimp only
    rw [hsub]
    constructor
    · intro h
      obtain ⟨m, hvalue, hn⟩ := ok_of_bind h
      obtain ⟨hvalue, hm⟩ := cvtZToUnsignedHex_ok.mp hvalue
      have hn : (if m > current then m else current) = n := Except.ok.inj hn
      intro other hother
      obtain rfl : other = name :=
        le_antisymm (hlast.2.2 other hother.1 hother.2.1) (hother.2.2 name hlast.1 hlast.2.1)
      refine ⟨m, hm, hvalue, ?_⟩
      by_cases hlt : m > current
      · rw [if_pos hlt] at hn
        subst hn
        obtain ⟨hafter, rfl | ⟨-, -, hmem⟩⟩ := hlatest
        · exact absurd hlt (lt_irrefl _)
        · exact .inr ⟨hlt, hmem, hafter⟩
      · rw [if_neg hlt] at hn
        subst hn
        exact .inl ⟨not_lt.mp hlt, hlatest.1⟩
    · intro h
      obtain ⟨m, hm, hvalue, hcases⟩ := h name hlast
      rw [cvtZToUnsignedHex_ok.mpr ⟨hvalue, hm⟩, ok_bind]
      rcases hcases with ⟨hle, hafter⟩ | ⟨hlt, hmem, hafter⟩
      · rw [if_neg (not_lt.mpr hle), hlatest.unique ⟨hafter, .inl rfl⟩]
      · rw [if_pos hlt, hlatest.unique ⟨hafter, .inr ⟨hlt, hm, hmem⟩⟩]

/-! ## Verification -/

theorem timelineTargetParse_ok (h : TargetSays s (.timeline n)) :
    timelineTargetParse s = .ok n := by
  unfold timelineTargetParse
  cases h with
  | decimal hvalue hlt =>
    have hdecimal : strBeginsWith s "0x".toList = false := by
      by_contra hhex
      rw [Bool.not_eq_false] at hhex
      obtain ⟨rest, rfl⟩ := isPrefixOf_iff_prefix.mp hhex
      cases (digitsValue_some hvalue).2 'x' (by simp)
    rw [hdecimal, cvtZToUInt_digits hvalue hlt]
    rfl
  | hex hvalue hlt =>
    rename_i digits
    have hhex : strBeginsWith ("0x".toList ++ digits) "0x".toList = true :=
      isPrefixOf_iff_prefix.mpr (prefix_append _ _)
    have hdrop : ("0x".toList ++ digits).drop 2 = digits := rfl
    rw [hhex, hdrop, if_pos rfl, cvtZToUnsignedHex_digits hvalue hlt (by decide)]

/-- A target says neither the current timeline nor, if it is a number, the
latest one. -/
theorem TargetSays.ne {named : TimelineTarget} (h : TargetSays s named) :
    s ≠ "current".toList ∧ (s = "latest".toList ↔ named = .latest) := by
  cases h with
  | latest => exact ⟨by decide, iff_of_true rfl rfl⟩
  | decimal hvalue hlt =>
    have hdigits := (digitsValue_some hvalue).2
    refine ⟨?_, iff_of_false ?_ nofun⟩
    · rintro rfl
      cases hdigits 'c' (by simp)
    · rintro rfl
      cases hdigits 'l' (by simp)
  | hex hvalue hlt =>
    refine ⟨?_, iff_of_false ?_ nofun⟩
    · intro heq
      exact absurd (cons.inj heq).1 (by decide)
    · intro heq
      exact absurd (cons.inj heq).1 (by decide)

/-- **The timeline of the target is verified** against its history. -/
theorem timelineVerify_target {timelineTarget timelineBackup lsnBackup : ℕ}
    (hne : timelineTarget ≠ timelineBackup)
    (hfile : HistoryFile archive timelineTarget items)
    (hbefore : NotBeforeTimeline timelineBackup 0 lsnBackup items) :
    (historyLoad archive timelineTarget >>= fun historyList =>
      if historyList.any (fun item => item.timeline = timelineBackup && lsnBackup < item.lsn) then .ok ()
      else .error (timelineError historyList timelineTarget timelineBackup lsnBackup)) = .ok () ↔
      tliOfPointInHistory timelineTarget 0 lsnBackup items = some timelineBackup := by
  obtain ⟨file, hfind, hcontent⟩ := hfile.content
  have hload : historyLoad archive timelineTarget = .ok items := by
    unfold historyLoad
    rw [hfind]
    dsimp only
    rw [historyParse_ok hcontent]
  rw [hload, ok_bind, tliOfPointInHistory_iff hne hbefore hfile.lsn_le]
  have hany : items.any (fun item => item.timeline = timelineBackup && lsnBackup < item.lsn) = true ↔
      ∃ item ∈ items, item.timeline = timelineBackup ∧ lsnBackup < item.lsn := by
    simp only [any_eq_true, Bool.and_eq_true, decide_eq_true_eq]
  rw [← hany]
  split
  · rename_i hfound
    exact iff_of_true rfl hfound
  · rename_i hfound
    exact iff_of_false nofun hfound

/-- **When the verification agrees with PostgreSQL**: for a target that is a
number always, and for the latest timeline if and only if the last name in the
archive that matches the expression names it. -/
theorem timelineVerify_agrees_iff {archive : HistoryArchive} {timelineTarget timelineBackup lsnBackup : ℕ}
    {timelineTargetStr : Str} {named : TimelineTarget} {items : List HistoryItem} (pgVersion : ℕ)
    (immediate : Bool) (htarget : TargetSays timelineTargetStr named)
    (hresolves : Resolves archive.names timelineBackup named timelineTarget)
    (hhistory : timelineTarget ≠ timelineBackup →
      HistoryFile archive timelineTarget items ∧ NotBeforeTimeline timelineBackup 0 lsnBackup items) :
    ((named = .latest → timelineLatest archive timelineBackup = .ok timelineTarget) ∧
      (timelineVerify archive pgVersion timelineBackup lsnBackup (some timelineTargetStr) immediate = .ok () ↔
        timelineTarget = timelineBackup ∨
          tliOfPointInHistory timelineTarget 0 lsnBackup items = some timelineBackup)) ↔
      (named = .latest → LastMatchNamesLatest archive.names timelineBackup) := by
  obtain ⟨hcurrent, hlatest⟩ := htarget.ne
  constructor
  · rintro ⟨hfound, -⟩ rfl
    exact (timelineLatest_iff hresolves).mp (hfound rfl)
  · intro h
    have hresolved : (if timelineTargetStr = "latest".toList then timelineLatest archive timelineBackup
        else timelineTargetParse timelineTargetStr) = .ok timelineTarget := by
      cases named with
      | latest =>
        rw [if_pos (hlatest.mpr rfl)]
        exact (timelineLatest_iff hresolves).mpr (h rfl)
      | timeline n =>
        obtain rfl : timelineTarget = n := hresolves
        rw [if_neg (fun heq => absurd (hlatest.mp heq) nofun), timelineTargetParse_ok htarget]
    refine ⟨?_, ?_⟩
    · rintro rfl
      exact (timelineLatest_iff hresolves).mpr (h rfl)
    · unfold timelineVerify
      rw [Option.getD_some]
      rw [if_neg hcurrent, hresolved, ok_bind]
      by_cases hsame : timelineTarget = timelineBackup
      · rw [if_pos hsame]
        exact iff_of_true rfl (.inl hsame)
      · obtain ⟨hfile, hbefore⟩ := hhistory hsame
        rw [if_neg hsame, timelineVerify_target hsame hfile hbefore]
        exact ⟨.inr, fun hor => hor.resolve_left hsame⟩

/-- An archive with the history file of timeline 2. -/
def sampleHistory : HistoryArchive where
  path := "/repo/archive/demo/14-1".toList
  files := [("00000002.history".toList, "1\t0/5000000\tno recovery target specified\n".toList)]

/-- The same archive where a history file was not completely written. -/
def leftoverHistory : HistoryArchive where
  path := "/repo/archive/demo/14-1".toList
  files := sampleHistory.files ++ [("00000003.history.pgxbackup.tmp".toList, [])]

theorem sampleHistory_content : HistorySays "1\t0/5000000\tno recovery target specified\n".toList
    [⟨1, 0x5000000⟩] := by
  refine ⟨[("1\t0/5000000\tno recovery target specified".toList, some ⟨1, 0x5000000⟩), ([], none)],
    cons_ne_nil _ _, ?_, rfl, rfl⟩
  simp only [forall_mem_cons]
  refine ⟨⟨by decide, ?_⟩, ⟨by decide, LineSays.blank (fun c hc => absurd hc not_mem_nil)⟩,
    fun line hline => absurd hline not_mem_nil⟩
  exact @LineSays.item "1".toList "0".toList "5000000".toList "no recovery target specified".toList 1 0
    0x5000000 (by decide) (by decide) (by decide) (by decide) (by decide) (by decide)

theorem isLatest_two {names : List Str} (hmem : historyName 2 ∈ names)
    (hnames : ∀ name ∈ names, name = historyName 2 ∨ name.length ≠ 16) : IsLatest names 1 2 := by
  refine ⟨fun other hlt hother => ?_, .inr ⟨by decide, by decide, hmem⟩⟩
  rcases hnames _ hother with heq | hlength
  · exact ((historyName_inj hlt (by decide)).mp heq).le
  · refine absurd ?_ hlength
    unfold historyName
    rw [length_append, length_hex8]
    rfl

theorem timelineVerify_agrees_iff_sample :
    (((.latest : TimelineTarget) = .latest → timelineLatest sampleHistory 1 = .ok 2) ∧
      (timelineVerify sampleHistory 140000 1 0x2000028 (some "latest".toList) false = .ok () ↔
        2 = 1 ∨ tliOfPointInHistory 2 0 0x2000028 [⟨1, 0x5000000⟩] = some 1)) ↔
      ((.latest : TimelineTarget) = .latest → LastMatchNamesLatest sampleHistory.names 1) := by
  refine timelineVerify_agrees_iff 140000 false TargetSays.latest ?_ (fun _ => ⟨⟨⟨_, rfl, ?_⟩, ?_⟩, ?_⟩)
  · exact isLatest_two (by decide) (by decide)
  · exact sampleHistory_content
  · exact pairwise_singleton _ _
  · exact ⟨fun _ => Nat.zero_le _, trivial⟩

/-- **A leftover of a history file hides the latest timeline**: timeline 2 is the
latest one and leads through the backup, but the restore is refused. -/
theorem timelineVerify_leftover :
    IsLatest leftoverHistory.names 1 2 ∧ HistoryFile leftoverHistory 2 [⟨1, 0x5000000⟩] ∧
      tliOfPointInHistory 2 0 0x2000028 [⟨1, 0x5000000⟩] = some 1 ∧
      timelineLatest leftoverHistory 1 = .ok 3 ∧
      timelineVerify leftoverHistory 140000 1 0x2000028 (some "latest".toList) false =
        .error ⟨.fileMissingError,
          "unable to open missing file '/repo/archive/demo/14-1/00000003.history' for read".toList⟩ := by
  refine ⟨isLatest_two (by decide) (by decide), ⟨⟨_, rfl, sampleHistory_content⟩, pairwise_singleton _ _⟩,
    by decide, by decide +kernel, by decide +kernel⟩

end PgxBackup
