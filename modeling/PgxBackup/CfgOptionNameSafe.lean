import Mathlib.Data.List.DropRight
import PgxBackup.CfgOptionName

/-!
# Edits inside of the buffer

The size of a move is the size of all that is left of the name and the zero,
also when it moves only the part behind the key. So the removal of a key reads
as many bytes too many as there are characters in front of the key. For a name
that is short enough this reads zeros of the rest of the buffer; for others it
reads, and may write, what lies behind the buffer.

The removal of a prefix moves all that is left and stays inside.
-/

namespace PgxBackup

open List

/-! ## What a buffer holds -/

/-- After the first zero there are zeros only. -/
def ZeroTail (s : Str) : Prop := ∀ c ∈ s.drop (cString s).length, c = '\x00'

/-- **The buffer is exactly the zero-terminated string**, and the size is its
length. -/
structure OptionName.Holds (name : OptionName) (s : Str) : Prop where
  size : name.size = s.length
  buffer : name.buffer.take (s.length + 1) = s ++ ['\x00']

/-- What the copy of a string holds, whatever its characters: the part in front
of the first zero, and zeros. -/
structure OptionName.Stored (name : OptionName) (s : Str) : Prop where
  size : name.size = s.length
  length : name.buffer.length = OPTION_NAME_SIZE_MAX + 1
  size_le : s.length ≤ OPTION_NAME_SIZE_MAX
  buffer : name.buffer.take (s.length + 1)
    = cString s ++ replicate (s.length + 1 - (cString s).length) '\x00'

theorem cString_append_drop (s : Str) : cString s ++ s.drop (cString s).length = s := by
  unfold cString
  conv_rhs => rw [← takeWhile_append_dropWhile (p := fun c => decide (c ≠ '\x00')) (l := s)]
  rw [dropWhile_eq_drop_findIdx_not, takeWhile_eq_take_findIdx_not]
  rw [length_take, findIdx_le_length |> Nat.min_eq_left]

theorem length_cString_le (s : Str) : (cString s).length ≤ s.length :=
  (List.takeWhile_prefix _).length_le

theorem zero_not_mem_cString (s : Str) : '\x00' ∉ cString s := fun h =>
  absurd (mem_takeWhile_imp h) (by decide)

theorem cString_append {front : Str} (h : '\x00' ∉ front) (s : Str) :
    cString (front ++ s) = front ++ cString s := by
  refine takeWhile_append_of_pos fun c hc => decide_eq_true ?_
  rintro rfl
  exact h hc

theorem cString_of_not_mem {s : Str} (h : '\x00' ∉ s) : cString s = s := by
  have happend := cString_append h []
  rwa [append_nil, show cString [] = [] from rfl, append_nil] at happend

theorem zeroTail_iff {s : Str} :
    ZeroTail s ↔ s = cString s ++ replicate (s.length - (cString s).length) '\x00' := by
  have hsplit := cString_append_drop s
  constructor
  · intro h
    conv_lhs => rw [← hsplit]
    congr 1
    rw [eq_replicate_iff, length_drop]
    exact ⟨rfl, h⟩
  · intro h c hc
    have hdrop := congrArg (drop (cString s).length) h
    rw [drop_left] at hdrop
    rw [hdrop] at hc
    exact eq_of_mem_replicate hc

namespace OptionName

variable {name : OptionName} {s : Str}

/-- What is stored is exactly the string when it has no character after a
zero. -/
theorem Stored.holds_iff (h : name.Stored s) : name.Holds s ↔ ZeroTail s := by
  have hle := length_cString_le s
  have hzeros : cString s ++ replicate (s.length + 1 - (cString s).length) '\x00'
      = cString s ++ replicate (s.length - (cString s).length) '\x00' ++ ['\x00'] := by
    rw [append_assoc, ← replicate_succ', Nat.succ_sub hle]
  rw [zeroTail_iff]
  constructor
  · intro hholds
    have hbuffer := hholds.buffer
    rw [h.buffer, hzeros, append_cancel_right_eq] at hbuffer
    exact hbuffer.symm
  · intro htail
    refine ⟨h.size, ?_⟩
    rw [h.buffer, hzeros, ← htail]

theorem stored_copy {c : Str} (hc : c.length ≤ OPTION_NAME_SIZE_MAX) :
    (optionNameCopy c).Stored c := by
  have hle := length_cString_le c
  refine ⟨rfl, ?_, hc, ?_⟩
  · show (cString c ++ replicate _ '\x00').length = _
    rw [length_append, length_replicate]
    omega
  · show (cString c ++ replicate _ '\x00').take _ = _
    rw [take_append, take_of_length_le (by omega), take_replicate]
    congr 2
    omega

theorem Stored.cString_buffer (h : name.Stored s) : cString name.buffer = cString s := by
  have hle := length_cString_le s
  rw [← take_append_drop (s.length + 1) name.buffer, h.buffer, append_assoc,
    cString_append (zero_not_mem_cString s), Nat.succ_sub hle, replicate_succ]
  show cString s ++ [] = _
  rw [append_nil]

theorem Stored.take (h : name.Stored s) {n : ℕ} (hn : n ≤ (cString s).length) :
    name.buffer.take n = s.take n := by
  have hle := length_cString_le s
  have htake : (name.buffer.take (s.length + 1)).take n = name.buffer.take n := by
    rw [take_take, Nat.min_eq_left (by omega)]
  rw [← htake, h.buffer, take_append_of_le_length hn]
  conv_rhs => rw [← cString_append_drop s, take_append_of_le_length hn]

end OptionName

/-- A string without the characters from one position to another one. -/
def removed (s : Str) (edit : NameEdit) : Str := s.take edit.dst ++ s.drop edit.src

section Removed

variable {s : Str} {cut : NameEdit}

section

variable (hle : cut.dst ≤ cut.src) (hsrc : cut.src ≤ (cString s).length)
include hle hsrc

theorem cString_removed :
    cString (removed s cut) = (cString s).take cut.dst ++ (cString s).drop cut.src ∧
      (removed s cut).drop (cString (removed s cut)).length = s.drop (cString s).length := by
  have hsplit := cString_append_drop s
  generalize htail : s.drop (cString s).length = tail at hsplit
  have hzero := zero_not_mem_cString s
  -- the tail is empty or begins with a zero
  have htailz : cString tail = [] := by
    have h := congrArg cString hsplit
    rw [cString_append hzero] at h
    exact append_cancel_left (h.trans (append_nil _).symm)
  have hremoved : removed s cut
      = ((cString s).take cut.dst ++ (cString s).drop cut.src) ++ tail := by
    unfold removed
    conv_lhs => rw [← hsplit]
    rw [take_append_of_le_length (by omega), drop_append_of_le_length hsrc,
      append_assoc]
  have hfront : '\x00' ∉ (cString s).take cut.dst ++ (cString s).drop cut.src := by
    rw [mem_append]
    exact fun h => h.elim (fun h => hzero (mem_of_mem_take h))
      (fun h => hzero (mem_of_mem_drop h))
  have hc : cString (removed s cut)
      = (cString s).take cut.dst ++ (cString s).drop cut.src := by
    rw [hremoved, cString_append hfront, htailz, append_nil]
  refine ⟨hc, ?_⟩
  rw [hc, hremoved, drop_left]

theorem zeroTail_removed : ZeroTail (removed s cut) ↔ ZeroTail s := by
  unfold ZeroTail
  rw [(cString_removed hle hsrc).2]

end

theorem length_removed (hle : cut.dst ≤ cut.src) (hsrc : cut.src ≤ s.length) :
    (removed s cut).length = s.length - (cut.src - cut.dst) := by
  unfold removed
  rw [length_append, length_take, length_drop]
  omega

/-- **When an edit stays inside of the buffer**, and what it leaves there. -/
theorem OptionName.Stored.edit {name : OptionName} (h : name.Stored s) (cut : NameEdit)
    (hle : cut.dst ≤ cut.src) (hsrc : cut.src ≤ (cString s).length) :
    if cut.dst + s.length ≤ OPTION_NAME_SIZE_MAX then
      ∃ name', name.edit cut = some name' ∧ name'.Stored (removed s cut)
    else name.edit cut = none := by
  have hsize := h.size
  have hlength := h.length
  have hcle := length_cString_le s
  have hrlen := length_removed hle (show cut.src ≤ s.length by omega)
  obtain ⟨hcremoved, _⟩ := cString_removed hle hsrc
  have hcut : (cString (removed s cut)).length = (cString s).length - (cut.src - cut.dst) := by
    rw [hcremoved, length_append, length_take, length_drop]
    omega
  unfold OptionName.edit memmove
  rw [hsize, hlength]
  dsimp only
  split
  next hin =>
    rw [if_pos (by omega)]
    refine ⟨_, rfl, hrlen.symm, ?_, by omega, ?_⟩
    · show (name.buffer.take _ ++ (name.buffer.drop _).take _ ++ name.buffer.drop _).length = _
      simp only [length_append, length_take, length_drop, hlength]
      omega
    · -- what is moved is what was stored from the end of the removed part on
      show (name.buffer.take _ ++ (name.buffer.drop _).take _ ++ name.buffer.drop _).take _ = _
      have hmoved : (name.buffer.drop cut.src).take ((removed s cut).length + 1 - cut.dst)
          = (name.buffer.take (s.length + 1)).drop cut.src := by
        rw [drop_take, hrlen]
        congr 1
        omega
      have hdst : (name.buffer.take cut.dst).length = cut.dst := by
        rw [length_take, hlength]
        omega
      have hfront : (name.buffer.take (s.length + 1)).take cut.dst = name.buffer.take cut.dst := by
        rw [take_take, Nat.min_eq_left (by omega)]
      rw [append_assoc, take_append, hdst, take_of_length_le (by omega),
        take_append_of_le_length (by
          rw [length_take, length_drop, hlength, hrlen]; omega),
        take_take, show min ((removed s cut).length + 1 - cut.dst)
            (s.length - (cut.src - cut.dst) + 1) = (removed s cut).length + 1 - cut.dst by omega,
        hmoved, ← hfront, h.buffer,
        take_append_of_le_length (by omega), drop_append_of_le_length hsrc,
        ← append_assoc, ← hcremoved]
      congr 2
      omega
  next hout => rw [if_neg (by omega)]; rfl

end Removed

/-! ## The key in a name -/

/-- **The first dash and the digits in front of it.** -/
structure DashForm (s base digits rest : Str) : Prop where
  eq : s = base ++ digits ++ '-' :: rest
  last : ∀ c ∈ base.getLast?, c.isDigit = false
  digit : ∀ c ∈ digits, c.isDigit = true
  dash : '-' ∉ base
  zero : '\x00' ∉ base

/-- A name with a key. -/
structure KeyForm (s base digits rest : Str) : Prop extends DashForm s base digits rest where
  base_ne : base ≠ []
  digits_ne : digits ≠ []

theorem not_mem_of_digit {digits : Str} (h : ∀ c ∈ digits, c.isDigit = true) {c : Char}
    (hc : c.isDigit = false) : c ∉ digits := by
  intro hmem
  rw [h c hmem] at hc
  cases hc

namespace DashForm

variable {s base digits rest : Str}

section

variable (h : DashForm s base digits rest)
include h

theorem zero_front : '\x00' ∉ base ++ digits := by
  rw [mem_append]
  exact fun hmem => hmem.elim h.zero (not_mem_of_digit h.digit (by decide))

theorem dash_front : '-' ∉ base ++ digits := by
  rw [mem_append]
  exact fun hmem => hmem.elim h.dash (not_mem_of_digit h.digit (by decide))

theorem cString_eq : cString s = base ++ digits ++ '-' :: cString rest := by
  rw [h.eq, cString_append h.zero_front]
  rfl

end

theorem exists_of_mem (h : '-' ∈ cString s) : ∃ base digits rest, DashForm s base digits rest := by
  obtain ⟨front, rest, hsplit, hdash⟩ := eq_append_cons_of_mem h
  have hzero : '\x00' ∉ front := fun hmem =>
    zero_not_mem_cString s (by rw [hsplit]; exact mem_append_left _ hmem)
  refine ⟨front.rdropWhile Char.isDigit, front.rtakeWhile Char.isDigit,
    rest ++ s.drop (cString s).length, ?_, ?_, ?_, ?_, ?_⟩
  · rw [rdropWhile_append_rtakeWhile]
    conv_lhs => rw [← cString_append_drop s, hsplit]
    rw [hsplit, append_assoc]
    rfl
  · intro c hc
    have hne : front.rdropWhile Char.isDigit ≠ [] := by
      intro hnil
      rw [hnil] at hc
      cases hc
    rw [getLast?_eq_getLast_of_ne_nil hne] at hc
    cases hc
    exact Bool.not_eq_true _ ▸ rdropWhile_last_not _ _ hne
  · exact fun c hc => mem_rtakeWhile_imp hc
  · exact fun hmem => hdash ((List.rdropWhile_prefix _ _).subset hmem)
  · exact fun hmem => hzero ((List.rdropWhile_prefix _ _).subset hmem)

end DashForm

/-- The tally of the digits that a stretch ends with. The key is added from
right to left, in 32 bits. -/
theorem keyTally_eq {buffer : List Char} {base : Str} (hlast : ∀ c ∈ base.getLast?, c.isDigit = false)
    (digits : Str) (hdigit : ∀ c ∈ digits, c.isDigit = true)
    (hget : ∀ i < base.length + digits.length, buffer[i]? = (base ++ digits)[i]?)
    (keyIdx multiplier : UInt32) :
    keyTally buffer (base.length + digits.length) keyIdx multiplier
      = (base.length, keyIdx + UInt32.ofNat (Nat.ofDigitChars 10 digits 0) * multiplier) := by
  induction digits using reverseRecOn generalizing keyIdx multiplier with
  | nil =>
    rw [Nat.ofDigitChars_nil, show UInt32.ofNat 0 = 0 from rfl, UInt32.zero_mul, UInt32.add_zero]
    cases base using reverseRecOn with
    | nil => rfl
    | append_singleton base c =>
      have hc : c.isDigit = false := hlast c (by simp)
      have hat := hget base.length (by simp)
      rw [append_nil, getElem?_concat_length] at hat
      show keyTally buffer ((base ++ [c]).length + 0) keyIdx multiplier = _
      rw [length_append, length_singleton, Nat.add_zero, keyTally, hat]
      dsimp only
      rw [hc]
      rfl
  | append_singleton digits c ih =>
    have hc : c.isDigit = true := hdigit c (by simp)
    have hat := hget (base.length + digits.length) (by simp)
    rw [← append_assoc, ← length_append, getElem?_concat_length] at hat
    have hget' : ∀ i < base.length + digits.length, buffer[i]? = (base ++ digits)[i]? := by
      intro i hi
      rw [hget i (by simp; omega), ← append_assoc,
        getElem?_append_left (by rw [length_append]; exact hi)]
    rw [length_append, length_singleton, ← Nat.add_assoc, keyTally,
      ← length_append, hat]
    dsimp only
    rw [if_pos hc, length_append, ih (fun x hx => hdigit x (by simp [hx])) hget',
      Nat.ofDigitChars_append, Nat.ofDigitChars_cons, Nat.ofDigitChars_nil, UInt32.ofNat_add,
      UInt32.ofNat_mul]
    congr 1
    show keyIdx + UInt32.ofNat (c.toNat - 48) * multiplier
        + UInt32.ofNat (Nat.ofDigitChars 10 digits 0) * (multiplier * 10)
      = keyIdx + (10 * UInt32.ofNat (Nat.ofDigitChars 10 digits 0)
        + UInt32.ofNat (c.toNat - 48)) * multiplier
    grind

namespace OptionName

variable {name : OptionName} {s base digits rest : Str}

section

variable (h : name.Stored s)
include h

theorem Stored.dash_none (hdash : '-' ∉ cString s) : name.dash = none := by
  unfold OptionName.dash
  rw [h.cString_buffer, findIdx?_eq_none_iff]
  intro c hc
  refine decide_eq_false ?_
  rintro rfl
  exact hdash hc

theorem Stored.dash (hform : DashForm s base digits rest) :
    name.dash = some (base.length + digits.length) := by
  unfold OptionName.dash
  rw [h.cString_buffer, hform.cString_eq, findIdx?_append]
  have hnone : (base ++ digits).findIdx? (fun c => decide (c = '-')) = none := by
    rw [findIdx?_eq_none_iff]
    intro c hc
    refine decide_eq_false ?_
    rintro rfl
    exact hform.dash_front hc
  rw [hnone, findIdx?_cons, length_append]
  simp

/-- **Where the key begins, and its tally.** -/
theorem Stored.key (hform : DashForm s base digits rest) :
    name.key (base.length + digits.length)
      = (base.length, UInt32.ofNat (Nat.ofDigitChars 10 digits 0)) := by
  have htake : name.buffer.take (base.length + digits.length) = base ++ digits := by
    rw [h.take (by rw [hform.cString_eq, length_append, length_append]; omega),
      hform.eq, ← length_append, take_left]
  unfold OptionName.key
  rw [keyTally_eq hform.last digits hform.digit, UInt32.zero_add, UInt32.mul_one]
  intro i hi
  rw [← htake, getElem?_take_of_lt hi]

theorem Stored.keyEdit_iff {cut : NameEdit} :
    name.keyEdit = some cut ↔ ∃ base digits rest, KeyForm s base digits rest ∧
      cut = ⟨base.length, base.length + digits.length⟩ := by
  unfold OptionName.keyEdit
  by_cases hdash : '-' ∈ cString s
  · obtain ⟨base, digits, rest, hform⟩ := DashForm.exists_of_mem hdash
    rw [h.dash hform, Option.bind_some, h.key hform]
    constructor
    · intro hcut
      split at hcut
      next => cases hcut
      next hne =>
        rw [not_or] at hne
        refine ⟨base, digits, rest, ⟨hform, ?_, ?_⟩, (Option.some.inj hcut).symm⟩
        · exact fun hnil => hne.1 (by rw [hnil]; rfl)
        · exact fun hnil => hne.2 (by rw [hnil]; rfl)
    · rintro ⟨base', digits', rest', hform', rfl⟩
      -- the two forms are the same
      have hdash' := h.dash hform'.toDashForm
      rw [h.dash hform, Option.some.injEq] at hdash'
      have hkey' := h.key hform'.toDashForm
      rw [← hdash', h.key hform, Prod.mk.injEq] at hkey'
      have hbase := length_pos_iff.mpr hform'.base_ne
      have hdigits := length_pos_iff.mpr hform'.digits_ne
      rw [if_neg (by omega), hkey'.1, ← hdash', hkey'.1]
  · rw [h.dash_none hdash]
    refine iff_of_false nofun ?_
    rintro ⟨base, digits, rest, hform, _⟩
    refine hdash ?_
    rw [hform.cString_eq]
    simp

end

end OptionName

/-! ## The prefix of a name -/

/-- The length of the prefix that a candidate begins with. -/
def optionPrefix (c : Str) : ℕ :=
  if OPTION_PREFIX_NEGATE <+: c then OPTION_PREFIX_NEGATE.length
  else if OPTION_PREFIX_RESET <+: c then OPTION_PREFIX_RESET.length
  else 0

theorem take_eq_iff_begins {c p : Str} (hp : '\x00' ∉ p) (n : ℕ) :
    (cString c ++ replicate n '\x00').take p.length = p ↔ p <+: c := by
  constructor
  · intro h
    have hpre : p <+: cString c ++ replicate n '\x00' := h ▸ take_prefix _ _
    have hlen : p.length ≤ (cString c).length := by
      by_contra hlt
      -- the character behind the string would be a zero
      have hget := hpre.getElem (i := (cString c).length) (by omega)
      rw [getElem_append_right le_rfl, getElem_replicate] at hget
      exact hp (hget ▸ getElem_mem _)
    rw [take_append_of_le_length hlen] at h
    exact (h ▸ take_prefix _ _ : p <+: cString c).trans (List.takeWhile_prefix _)
  · rintro ⟨rest, rfl⟩
    rw [cString_append hp, append_assoc, take_left]

theorem prefixSize_copy (c : Str) : (optionNameCopy c).prefixSize = optionPrefix c := by
  unfold OptionName.prefixSize optionPrefix optionNameCopy
  simp only [take_eq_iff_begins (show '\x00' ∉ OPTION_PREFIX_NEGATE by decide),
    take_eq_iff_begins (show '\x00' ∉ OPTION_PREFIX_RESET by decide)]

theorem optionPrefix_le (c : Str) : optionPrefix c ≤ (cString c).length := by
  have hstrip {p : Str} (hp : '\x00' ∉ p) (h : p <+: c) : p.length ≤ (cString c).length := by
    obtain ⟨rest, rfl⟩ := h
    rw [cString_append hp, length_append]
    omega
  unfold optionPrefix
  split
  next h => exact hstrip (by decide) h
  next =>
    split
    next h => exact hstrip (by decide) h
    next => exact Nat.zero_le _

theorem prefixEdit_copy (c : Str) : (optionNameCopy c).prefixEdit
    = if optionPrefix c = 0 then none else some ⟨0, optionPrefix c⟩ := by
  unfold OptionName.prefixEdit
  rw [prefixSize_copy]

/-- **The prefix is removed**, whatever the characters are. -/
theorem stored_prefix {c : Str} (hc : c.length ≤ OPTION_NAME_SIZE_MAX) :
    ∃ name, (optionNameCopy c).edited (optionNameCopy c).prefixEdit = some name ∧
      name.Stored (c.drop (optionPrefix c)) := by
  have hcopy := OptionName.stored_copy hc
  rw [prefixEdit_copy]
  split
  next h =>
    refine ⟨_, rfl, ?_⟩
    rw [h, drop_zero]
    exact hcopy
  next =>
    have hedit := hcopy.edit ⟨0, optionPrefix c⟩ (Nat.zero_le _) (optionPrefix_le c)
    rw [if_pos (by dsimp only; omega)] at hedit
    exact hedit

theorem zeroTail_drop {c : Str} : ZeroTail (c.drop (optionPrefix c)) ↔ ZeroTail c := by
  show ZeroTail (removed c ⟨0, optionPrefix c⟩) ↔ _
  exact zeroTail_removed (Nat.zero_le _) (optionPrefix_le c)

theorem KeyForm.removed {s base digits rest : Str} (h : KeyForm s base digits rest) :
    PgxBackup.removed s ⟨base.length, base.length + digits.length⟩ = base ++ '-' :: rest := by
  unfold PgxBackup.removed
  rw [h.eq, ← length_append, drop_left, append_assoc, take_left]

/-! ## Every move -/

/-- **The moves of a candidate** read and write inside of the buffer, and after
each of them the buffer is exactly what it has to be: the candidate without
the prefix, and without the prefix and the digits of the key. -/
structure NameEditsSafe (c : Str) : Prop where
  prefixEdit : ∀ cut, (optionNameCopy c).prefixEdit = some cut →
    ∃ name, (optionNameCopy c).edit cut = some name ∧ name.Holds (c.drop (optionPrefix c))
  keyEdit : ∀ name cut, (optionNameCopy c).edited (optionNameCopy c).prefixEdit = some name →
    name.keyEdit = some cut →
    ∃ base digits rest, KeyForm (c.drop (optionPrefix c)) base digits rest ∧
      ∃ name', name.edit cut = some name' ∧ name'.Holds (base ++ '-' :: rest)

/-- **When the moves stay inside of the buffer**: exactly when the characters
in front of the key and the whole name together are at most 64; a name with a
zero in it is not complete in the buffer. -/
theorem nameEditsSafe_iff (c : Str) :
    (c.length ≤ OPTION_NAME_SIZE_MAX → NameEditsSafe c) ↔
      (c.length ≤ OPTION_NAME_SIZE_MAX →
        (optionPrefix c ≠ 0 → ZeroTail c) ∧
        ∀ base digits rest, KeyForm (c.drop (optionPrefix c)) base digits rest →
          ZeroTail c ∧
            base.length + (c.drop (optionPrefix c)).length ≤ OPTION_NAME_SIZE_MAX) := by
  refine forall_congr' fun hc => ?_
  obtain ⟨stripped, hstripped, hstored⟩ := stored_prefix hc
  have hstrip : (optionPrefix c ≠ 0 → ZeroTail c) ↔
      ∀ cut, (optionNameCopy c).prefixEdit = some cut →
        ∃ name, (optionNameCopy c).edit cut = some name ∧
          name.Holds (c.drop (optionPrefix c)) := by
    rw [prefixEdit_copy] at hstripped ⊢
    split at hstripped
    next h => exact iff_of_true (fun hne => absurd h hne) (fun cut hcut => by
      rw [if_pos h] at hcut; cases hcut)
    next h =>
      rw [if_neg h]
      have hedit : (optionNameCopy c).edit ⟨0, optionPrefix c⟩ = some stripped := hstripped
      rw [← zeroTail_drop, ← hstored.holds_iff]
      constructor
      · rintro hholds cut hcut
        cases hcut
        exact ⟨stripped, hedit, hholds h⟩
      · intro hall _
        obtain ⟨name, hname, hholds⟩ := hall _ rfl
        rw [hedit] at hname
        cases hname
        exact hholds
  have hkey : (∀ base digits rest, KeyForm (c.drop (optionPrefix c)) base digits rest →
      ZeroTail c ∧ base.length + (c.drop (optionPrefix c)).length ≤ OPTION_NAME_SIZE_MAX) ↔
      ∀ name cut, (optionNameCopy c).edited (optionNameCopy c).prefixEdit = some name →
        name.keyEdit = some cut →
        ∃ base digits rest, KeyForm (c.drop (optionPrefix c)) base digits rest ∧
          ∃ name', name.edit cut = some name' ∧ name'.Holds (base ++ '-' :: rest) := by
    have hcut {base digits rest : Str}
        (hform : KeyForm (c.drop (optionPrefix c)) base digits rest) :
        base.length + digits.length ≤ (cString (c.drop (optionPrefix c))).length := by
      rw [hform.cString_eq, length_append, length_append]
      omega
    constructor
    · intro hall name cut hname hkeyEdit
      rw [hstripped] at hname
      cases hname
      obtain ⟨base, digits, rest, hform, rfl⟩ := hstored.keyEdit_iff.mp hkeyEdit
      obtain ⟨htail, hfits⟩ := hall base digits rest hform
      have hedit := hstored.edit ⟨base.length, base.length + digits.length⟩
        (Nat.le_add_right _ _) (hcut hform)
      rw [if_pos hfits] at hedit
      obtain ⟨name', hname', hstored'⟩ := hedit
      refine ⟨base, digits, rest, hform, name', hname', ?_⟩
      rw [← hform.removed, hstored'.holds_iff,
        zeroTail_removed (Nat.le_add_right _ _) (hcut hform), zeroTail_drop]
      exact htail
    · intro hall base digits rest hform
      obtain ⟨_, _, _, hform', name', hname', hholds⟩ := hall stripped _ hstripped
        (hstored.keyEdit_iff.mpr ⟨base, digits, rest, hform, rfl⟩)
      have hedit := hstored.edit ⟨base.length, base.length + digits.length⟩
        (Nat.le_add_right _ _) (hcut hform)
      by_cases hfits : base.length + (c.drop (optionPrefix c)).length ≤ OPTION_NAME_SIZE_MAX
      · rw [if_pos hfits] at hedit
        obtain ⟨name'', hname'', hstored'⟩ := hedit
        rw [hname'] at hname''
        cases hname''
        -- a key is found in one place only
        have hplace := (hstored.keyEdit_iff.mpr ⟨_, _, _, hform', rfl⟩).symm.trans
          (hstored.keyEdit_iff.mpr ⟨base, digits, rest, hform, rfl⟩)
        rw [← hform'.removed, Option.some.inj hplace, hstored'.holds_iff,
          zeroTail_removed (Nat.le_add_right _ _) (hcut hform), zeroTail_drop] at hholds
        exact ⟨hholds, hfits⟩
      · rw [if_neg hfits, hname'] at hedit
        cases hedit
  rw [hstrip, hkey]
  exact ⟨fun h => ⟨h.prefixEdit, h.keyEdit⟩, fun h => ⟨h.1, h.2⟩⟩

/-- A name of 35 characters with the key behind 32 of them: the move reads up
to offset 67 of the 65 bytes. -/
theorem nameEditsSafe_longName :
    ¬ ((replicate 32 'a' ++ "1-a".toList).length ≤ OPTION_NAME_SIZE_MAX →
      NameEditsSafe (replicate 32 'a' ++ "1-a".toList)) := by
  intro h
  have hedit : (optionNameCopy (replicate 32 'a' ++ "1-a".toList)).edit ⟨32, 33⟩ = none := by
    decide +kernel
  obtain ⟨_, _, _, _, name, hname, _⟩ := (h (by decide)).keyEdit
    (optionNameCopy (replicate 32 'a' ++ "1-a".toList)) ⟨32, 33⟩ (by decide +kernel)
    (by decide +kernel)
  rw [hedit] at hname
  cases hname

end PgxBackup
