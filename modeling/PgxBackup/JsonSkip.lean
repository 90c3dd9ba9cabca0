import PgxBackup.JsonVar

/-!
# Skipping and reading

`jsonReadSkip` and `jsonReadVar` take the same steps but for the strings. After
a `\u` escape `jsonReadSkipStr` passes one character more than
`jsonReadStr`, and it wants four digits where `jsonReadStr` takes hexadecimal
ones. If the character is the closing quote then the string goes on behind it.
What the skip makes of the text of a string is `Skippable`.

A string that the text cuts off behind a backslash or behind the digits of a
`\u` escape takes the skip behind the terminating zero (`CutOff`).
-/

namespace PgxBackup

/-! ## One string -/

/-- **The text of a string is passed up to its closing quote**: every `\u` escape
is four digits and a further character, whatever it is, and no escape or
quote is left that the text was read without. -/
def Skippable : Str → Prop
  | [] => True
  | '\\' :: 'u' :: body =>
    match body with
    | a :: b :: c :: d :: _ :: body => [a, b, c, d].all Char.isDigit = true ∧ Skippable body
    | _ => False
  | ['\\'] => False
  | '\\' :: _ :: body => Skippable body
  | c :: body => c ≠ '"' ∧ Skippable body

/-- **The text ends in the string**, right behind a backslash or behind the four
digits of a `\u` escape. -/
def CutOff : Str → Prop
  | [] => False
  | '"' :: _ => False
  | ['\\'] => True
  | '\\' :: 'u' :: json =>
    match json with
    | [a, b, c, d] => [a, b, c, d].all Char.isDigit = true
    | a :: b :: c :: d :: _ :: json => [a, b, c, d].all Char.isDigit = true ∧ CutOff json
    | _ => False
  | '\\' :: _ :: json => CutOff json
  | _ :: json => CutOff json

section Strings

variable {json body rest : Str}

theorem length_lt_of_skipStrLoop (h : jsonReadSkipStrLoop json = .ok rest) :
    rest.length < json.length := by
  have hpost := jsonReadSkipStrLoop_post json
  rw [h] at hpost
  exact hpost

theorem skippable_escape {c : Char} (h : c ≠ 'u') (body : Str) :
    Skippable ('\\' :: c :: body) = Skippable body := by
  rw [Skippable]
  exact h

theorem skippable_char {c : Char} (h : c ≠ '\\') (body : Str) :
    Skippable (c :: body) = (c ≠ '"' ∧ Skippable body) := by
  rw [Skippable]
  · exact fun _ heq => absurd heq h
  · exact fun heq => absurd heq h
  · exact fun _ _ heq => absurd heq h

theorem ne_backslash {c : Char} {json : Str} (hend : c = '\\' → json = [] → False)
    (hescape : ∀ c' json', c = '\\' → json = c' :: json' → False) : c ≠ '\\' := by
  intro heq
  cases json with
  | nil => exact hend heq rfl
  | cons c' json => exact hescape c' json heq rfl

/-- A `\u` escape at the closing quote. -/
theorem skipStrLoop_short {body : Str} (rest : Str)
    (hshort : ∀ a b c d e body', body = a :: b :: c :: d :: e :: body' → False) :
    jsonReadSkipStrLoop ('\\' :: 'u' :: (body ++ '"' :: rest)) ≠ .ok rest := by
  have hquote : Char.isDigit '"' = false := rfl
  match body with
  | [] | [a] | [a, b] | [a, b, c] =>
    rw [skipStrLoop_noDigits]
    · exact nofun
    · rintro _ _ _ _ _ ⟨⟩
      simp [hquote]
  | [a, b, c, d] =>
    by_cases hdigits : [a, b, c, d].all Char.isDigit = true
    · show jsonReadSkipStrLoop ('\\' :: 'u' :: a :: b :: c :: d :: '"' :: rest) ≠ _
      rw [skipStrLoop_unicode hdigits]
      exact fun h => absurd (length_lt_of_skipStrLoop h) (lt_irrefl _)
    · rw [skipStrLoop_noDigits]
      · exact nofun
      · rintro _ _ _ _ _ ⟨⟩
        exact hdigits
  | a :: b :: c :: d :: e :: body' => exact (hshort a b c d e body' rfl).elim

/-- **The skip ends at the closing quote** just when the text is skippable. -/
theorem jsonReadSkipStrLoop_iff (body rest : Str) :
    jsonReadSkipStrLoop (body ++ '"' :: rest) = .ok rest ↔ Skippable body := by
  induction body using Skippable.induct with
  | case1 => exact iff_of_true rfl trivial
  | case2 a b c d e body ih =>
    show jsonReadSkipStrLoop ('\\' :: 'u' :: a :: b :: c :: d :: e :: (body ++ '"' :: rest)) = _ ↔ _
    by_cases hdigits : [a, b, c, d].all Char.isDigit = true
    · rw [skipStrLoop_unicode hdigits, ih]
      exact (and_iff_right hdigits).symm
    · rw [skipStrLoop_noDigits]
      · exact iff_of_false nofun (fun h => hdigits h.1)
      · rintro _ _ _ _ _ ⟨⟩
        exact hdigits
  | case3 body hshort =>
    refine iff_of_false (skipStrLoop_short rest hshort) ?_
    rw [Skippable]
    · exact id
    · exact hshort
  | case4 =>
    show jsonReadSkipStrLoop ('\\' :: '"' :: rest) = _ ↔ _
    rw [skipStrLoop_escape (by decide)]
    exact iff_of_false (fun h => absurd (length_lt_of_skipStrLoop h) (lt_irrefl _)) id
  | case5 c body hc ih =>
    show jsonReadSkipStrLoop ('\\' :: c :: (body ++ '"' :: rest)) = _ ↔ _
    rw [skipStrLoop_escape hc, skippable_escape hc]
    exact ih
  | case6 c body _ hend hescape ih =>
    have hc := ne_backslash hend hescape
    show jsonReadSkipStrLoop (c :: (body ++ '"' :: rest)) = _ ↔ _
    rw [skippable_char hc]
    by_cases hquote : c = '"'
    · refine iff_of_false (fun h => ?_) (fun h => h.1 hquote)
      have hlength := congrArg List.length (Except.ok.inj (hquote ▸ h))
      rw [List.length_append, List.length_cons] at hlength
      omega
    · rw [skipStrLoop_char hquote hc, ih]
      exact (and_iff_right hquote).symm

theorem cutOff_escape {c : Char} (h : c ≠ 'u') (json : Str) :
    CutOff ('\\' :: c :: json) = CutOff json := by
  rw [CutOff]
  exact h

theorem cutOff_char {c : Char} (hquote : c ≠ '"') (hescape : c ≠ '\\') (json : Str) :
    CutOff (c :: json) = CutOff json := by
  rw [CutOff]
  · exact hquote
  · exact fun heq => absurd heq hescape
  · exact fun _ heq => absurd heq hescape
  · exact fun _ _ heq => absurd heq hescape

/-- **The skip goes behind the end of the text** just when the text cuts the string
off. -/
theorem jsonReadSkipStrLoop_overrun (json : Str) :
    jsonReadSkipStrLoop json = .error .overrun ↔ CutOff json := by
  induction json using jsonReadSkipStrLoop.induct with
  | case1 | case2 => exact iff_of_false (by rintro ⟨⟩) id
  | case3 => exact iff_of_true rfl trivial
  | case4 a b c d hdigits => exact iff_of_true (skipStrLoop_unicode_end hdigits) hdigits
  | case5 a b c d hdigits e json ih =>
    rw [skipStrLoop_unicode hdigits, ih]
    exact (and_iff_right hdigits).symm
  | case6 a b c d json hdigits =>
    rw [skipStrLoop_noDigits]
    · refine iff_of_false (by rintro ⟨⟩) ?_
      cases json with
      | nil => exact hdigits
      | cons e json => exact fun h => hdigits h.1
    · rintro _ _ _ _ _ ⟨⟩
      exact hdigits
  | case7 json hshort =>
    rw [skipStrLoop_noDigits (fun a b c d json' heq => (hshort a b c d json' heq).elim)]
    refine iff_of_false (by rintro ⟨⟩) ?_
    rcases json with _ | ⟨a, _ | ⟨b, _ | ⟨c, _ | ⟨d, json'⟩⟩⟩⟩
    any_goals exact id
    exact (hshort a b c d json' rfl).elim
  | case8 c json hc ih =>
    rw [skipStrLoop_escape hc, cutOff_escape hc]
    exact ih
  | case9 c json hquote hend _ hescape ih =>
    have hc := ne_backslash hend hescape
    rw [skipStrLoop_char hquote hc, cutOff_char hquote hc]
    exact ih

end Strings

/-! ## The strings of a value -/

/-- The string value that is read next is skippable. -/
def StrPasses (this : JsonRead) : Prop :=
  ∀ next, jsonReadPush this .string false = .ok next → ∀ string body rest,
    jsonReadStrLoop .empty [] next.next.json = .ok (string, rest) →
      next.next.json = body ++ '"' :: rest → Skippable body

mutual

/-- **All string values of a value are skippable.** -/
def Passes : ℕ → JsonRead → Prop
  | 0, _ => True
  | turns + 1, this => ∀ type next, jsonReadTypeNextIgnoreComma this = .ok (type, next) →
    match type with
    | .bool | .null | .number => True
    | .string => StrPasses next
    | .arrayBegin => ∀ inner, jsonReadArrayBegin next = .ok inner → PassesLst turns inner
    | .arrayEnd | .objectBegin | .objectEnd =>
      ∀ inner, jsonReadObjectBegin next = .ok inner → PassesKv turns inner

/-- The values of an array. -/
def PassesLst : ℕ → JsonRead → Prop
  | 0, _ => True
  | turns + 1, this => ∀ type next, jsonReadTypeNextIgnoreComma this = .ok (type, next) →
    type ≠ .arrayEnd → Passes turns next ∧
      ∀ value after, jsonReadVarRecurse turns next = .ok (value, after) → PassesLst turns after

/-- The values of an object. -/
def PassesKv : ℕ → JsonRead → Prop
  | 0, _ => True
  | turns + 1, this => ∀ type next, jsonReadTypeNextIgnoreComma this = .ok (type, next) →
    type ≠ .objectEnd → ∀ key at_, jsonReadKey next = .ok (key, at_) → Passes turns at_ ∧
      ∀ value after, jsonReadVarRecurse turns at_ = .ok (value, after) → PassesKv turns after

end

section Agree

variable {this this' : JsonRead}

theorem jsonReadSkipStr_of_read {next : JsonRead} {string : Str} {rest : Str}
    (hread : jsonReadStrLoop .empty [] next.next.json = .ok (string, rest))
    (hskip : ∀ body, next.next.json = body ++ '"' :: rest → Skippable body) :
    jsonReadSkipStr next = .ok { next with json := rest } := by
  have hpost := jsonReadStrLoop_post .empty [] next.next.json
  rw [hread] at hpost
  obtain ⟨body, hbody⟩ := hpost
  have hloop := (jsonReadSkipStrLoop_iff body rest).mpr (hskip body hbody)
  unfold jsonReadSkipStr
  rw [hbody, hloop]
  rfl

theorem jsonReadKeyLoop_skip (json : Str) :
    ∀ key rest, jsonReadKeyLoop json = .ok (key, rest) → jsonReadSkipStrLoop json = .ok rest := by
  induction json with
  | nil => rintro key rest ⟨⟩
  | cons c json ih =>
    intro key rest h
    unfold jsonReadKeyLoop at h
    by_cases hquote : c = '"'
    · rw [if_pos hquote] at h
      cases h
      rw [hquote]
      rfl
    · rw [if_neg hquote] at h
      by_cases hescape : c = '\\'
      · rw [if_pos hescape] at h
        cases h
      · rw [if_neg hescape] at h
        rw [skipStrLoop_char hquote hescape]
        obtain ⟨result, hloop, h⟩ := ok_of_bind h
        obtain ⟨-, hrest⟩ := ok_inj h
        exact ih result.1 rest (by rw [hloop, ← hrest])

theorem jsonReadColon_message {message : Str} (h : jsonReadColon this message = .ok this')
    (message' : Str) : jsonReadColon this message' = .ok this' := by
  unfold jsonReadColon at h ⊢
  by_cases hcolon : (jsonReadConsumeWhiteSpace this).json.head? ≠ some ':'
  · rw [if_pos hcolon] at h
    cases h
  · rw [if_neg hcolon] at h ⊢
    exact h

/-- **A value that is read is skipped** to the same place. -/
theorem jsonReadSkipRecurse_of_passes (turns : ℕ) :
    (∀ this value this', Passes turns this → jsonReadVarRecurse turns this = .ok (value, this') →
      jsonReadSkipRecurse turns this = .ok this') ∧
    (∀ this list this', PassesLst turns this → jsonReadVarLstLoop turns this = .ok (list, this') →
      jsonReadSkipLstLoop turns this = .ok this') ∧
    ∀ kv this kv' this', PassesKv turns this → jsonReadKvLoop turns kv this = .ok (kv', this') →
      jsonReadSkipKvLoop turns this = .ok this' := by
  induction turns with
  | zero =>
    refine ⟨fun _ _ _ _ h => ?_, fun _ _ _ _ h => ?_, fun _ _ _ _ _ h => ?_⟩
    all_goals cases h
  | succ turns ih =>
    obtain ⟨ihvalue, ihlist, ihkv⟩ := ih
    refine ⟨fun this value this' hpasses h => ?_, fun this list this' hpasses h => ?_,
      fun kv this kv' this' hpasses h => ?_⟩
    · unfold jsonReadVarRecurse at h
      obtain ⟨⟨type, next⟩, htype, h⟩ := ok_of_bind h
      have hpasses := hpasses type next htype
      unfold jsonReadSkipRecurse
      rw [htype, ok_bind]
      cases type with
      | bool =>
        obtain ⟨⟨b, after⟩, hbool, h⟩ := ok_of_bind h
        cases h
        dsimp only
        rw [hbool, ok_bind]
      | null =>
        obtain ⟨after, hnull, h⟩ := ok_of_bind h
        cases h
        exact hnull
      | number =>
        obtain ⟨pushed, hpush, h⟩ := ok_of_bind h
        obtain ⟨⟨number, after⟩, hnumber, h⟩ := ok_of_bind h
        cases h
        dsimp only
        rw [hpush, ok_bind, hnumber, ok_bind]
      | string =>
        obtain ⟨⟨string, after⟩, hstr, h⟩ := ok_of_bind h
        cases h
        unfold jsonReadStr at hstr
        rw [jsonReadTypeNextIgnoreComma_again htype, ok_bind] at hstr
        dsimp only at hstr
        rw [if_neg (by decide)] at hstr
        obtain ⟨pushed, hpush, hstr⟩ := ok_of_bind hstr
        obtain ⟨⟨read, rest⟩, hread, hstr⟩ := ok_of_bind hstr
        cases hstr
        dsimp only
        rw [hpush, ok_bind]
        exact jsonReadSkipStr_of_read hread (fun body => hpasses pushed hpush read body rest hread)
      | arrayBegin =>
        obtain ⟨inner, hbegin, h⟩ := ok_of_bind h
        obtain ⟨⟨list, after⟩, hlist, h⟩ := ok_of_bind h
        obtain ⟨last, hend, h⟩ := ok_of_bind h
        cases h
        dsimp only
        rw [hbegin, ok_bind, ihlist inner list after (hpasses inner hbegin) hlist, ok_bind]
        exact hend
      | arrayEnd | objectBegin | objectEnd =>
        obtain ⟨inner, hbegin, h⟩ := ok_of_bind h
        obtain ⟨⟨kv, after⟩, hkv, h⟩ := ok_of_bind h
        obtain ⟨last, hend, h⟩ := ok_of_bind h
        cases h
        dsimp only
        rw [hbegin, ok_bind, ihkv [] inner kv after (hpasses inner hbegin) hkv, ok_bind]
        exact hend
    · unfold jsonReadVarLstLoop at h
      obtain ⟨⟨type, next⟩, htype, h⟩ := ok_of_bind h
      unfold jsonReadSkipLstLoop
      rw [htype, ok_bind]
      dsimp only at h ⊢
      by_cases hlast : type = .arrayEnd
      · rw [if_pos hlast] at h ⊢
        rw [(ok_inj h).2]
      · rw [if_neg hlast] at h ⊢
        obtain ⟨hvalue, hrest⟩ := hpasses type next htype hlast
        obtain ⟨⟨value, after⟩, hread, h⟩ := ok_of_bind h
        obtain ⟨⟨list', last⟩, hlist, h⟩ := ok_of_bind h
        cases h
        rw [ihvalue next value after hvalue hread, ok_bind]
        exact ihlist after list' last (hrest value after hread) hlist
    · unfold jsonReadKvLoop at h
      obtain ⟨⟨type, next⟩, htype, h⟩ := ok_of_bind h
      unfold jsonReadSkipKvLoop
      rw [htype, ok_bind]
      dsimp only at h ⊢
      by_cases hlast : type = .objectEnd
      · rw [if_pos hlast] at h ⊢
        rw [(ok_inj h).2]
      · rw [if_neg hlast] at h ⊢
        obtain ⟨⟨key, behind⟩, hkey, h⟩ := ok_of_bind h
        obtain ⟨hvalue, hrest⟩ := hpasses type next htype hlast key behind hkey
        obtain ⟨⟨value, after⟩, hread, h⟩ := ok_of_bind h
        obtain ⟨pushed, hpush, hkey⟩ := ok_of_bind hkey
        obtain ⟨⟨name, rest⟩, hname, hkey⟩ := ok_of_bind hkey
        obtain ⟨colon, hcolon, hkey⟩ := ok_of_bind hkey
        obtain ⟨-, rfl⟩ := ok_inj hkey
        rw [hpush, ok_bind]
        unfold jsonReadSkipStr
        rw [jsonReadKeyLoop_skip _ name rest hname, ok_bind, ok_bind,
          jsonReadColon_message hcolon, ok_bind, ihvalue colon value after hvalue hread, ok_bind]
        exact ihkv _ after kv' this' (hrest value after hread) h

/-! ## Behind the end of the text -/

/-- The string that is skipped next is cut off. -/
def StrCutOff (this : JsonRead) (key : Bool) : Prop :=
  ∃ next, jsonReadPush this .string key = .ok next ∧ CutOff next.next.json

mutual

/-- **A string of a value is cut off** by the end of the text. -/
def MeetsCutOff : ℕ → JsonRead → Prop
  | 0, _ => False
  | turns + 1, this => ∃ type next, jsonReadTypeNextIgnoreComma this = .ok (type, next) ∧
    match type with
    | .bool | .null | .number => False
    | .string => StrCutOff next false
    | .arrayBegin => ∃ inner, jsonReadArrayBegin next = .ok inner ∧ MeetsCutOffLst turns inner
    | .arrayEnd | .objectBegin | .objectEnd =>
      ∃ inner, jsonReadObjectBegin next = .ok inner ∧ MeetsCutOffKv turns inner

/-- The values of an array. -/
def MeetsCutOffLst : ℕ → JsonRead → Prop
  | 0, _ => False
  | turns + 1, this => ∃ type next, jsonReadTypeNextIgnoreComma this = .ok (type, next) ∧
    type ≠ .arrayEnd ∧ (MeetsCutOff turns next ∨
      ∃ after, jsonReadSkipRecurse turns next = .ok after ∧ MeetsCutOffLst turns after)

/-- The keys and values of an object. -/
def MeetsCutOffKv : ℕ → JsonRead → Prop
  | 0, _ => False
  | turns + 1, this => ∃ type next, jsonReadTypeNextIgnoreComma this = .ok (type, next) ∧
    type ≠ .objectEnd ∧ (StrCutOff next true ∨
      ∃ pushed skipped behind, jsonReadPush next .string true = .ok pushed ∧
        jsonReadSkipStr pushed = .ok skipped ∧
        jsonReadColon skipped "expected : after key".toList = .ok behind ∧
          (MeetsCutOff turns behind ∨
            ∃ after, jsonReadSkipRecurse turns behind = .ok after ∧ MeetsCutOffKv turns after))

end

theorem strCutOff_iff (this : JsonRead) (key : Bool) :
    (jsonReadPush this .string key >>= jsonReadSkipStr) = .error .overrun ↔ StrCutOff this key := by
  rw [(jsonReadPush_post this .string key).overrun_bind]
  refine exists_congr (fun next => and_congr_right (fun _ => ?_))
  unfold jsonReadSkipStr
  rw [overrun_bind, jsonReadSkipStrLoop_overrun]
  exact or_iff_left (fun ⟨_, _, heq⟩ => absurd heq nofun)

/-- **The skip goes behind the terminating zero** just when it comes upon a string
that the text cuts off. -/
theorem jsonReadSkipRecurse_overrun (turns : ℕ) :
    (∀ this, jsonReadSkipRecurse turns this = .error .overrun ↔ MeetsCutOff turns this) ∧
    (∀ this, jsonReadSkipLstLoop turns this = .error .overrun ↔ MeetsCutOffLst turns this) ∧
    ∀ this, jsonReadSkipKvLoop turns this = .error .overrun ↔ MeetsCutOffKv turns this := by
  induction turns with
  | zero => exact ⟨fun _ => iff_of_false nofun id, fun _ => iff_of_false nofun id,
      fun _ => iff_of_false nofun id⟩
  | succ turns ih =>
    obtain ⟨ihvalue, ihlist, ihkv⟩ := ih
    refine ⟨fun this => ?_, fun this => ?_, fun this => ?_⟩
    · unfold jsonReadSkipRecurse MeetsCutOff
      rw [(jsonReadTypeNextIgnoreComma_post this).overrun_bind, Prod.exists]
      refine exists_congr (fun type => exists_congr (fun next => and_congr_right (fun _ => ?_)))
      cases type with
      | bool =>
        refine iff_of_false (fun h => ?_) id
        obtain ⟨_, _, h⟩ := (jsonReadBool_post next).overrun_bind.mp h
        cases h
      | null => exact iff_of_false (jsonReadNull_post next).ne_overrun id
      | number =>
        refine iff_of_false (fun h => ?_) id
        obtain ⟨pushed, _, h⟩ := (jsonReadPush_post next _ _).overrun_bind.mp h
        obtain ⟨_, _, h⟩ := (jsonReadNumber_post pushed).overrun_bind.mp h
        cases h
      | string => exact strCutOff_iff next false
      | arrayBegin =>
        rw [(jsonReadArrayBegin_post next).overrun_bind]
        refine exists_congr (fun inner => and_congr_right (fun _ => ?_))
        rw [overrun_bind, ihlist]
        exact or_iff_left (fun ⟨last, _, h⟩ => (jsonReadArrayEnd_post last).ne_overrun h)
      | arrayEnd | objectBegin | objectEnd =>
        rw [(jsonReadObjectBegin_post next).overrun_bind]
        refine exists_congr (fun inner => and_congr_right (fun _ => ?_))
        rw [overrun_bind, ihkv]
        exact or_iff_left (fun ⟨last, _, h⟩ => (jsonReadObjectEnd_post last).ne_overrun h)
    · unfold jsonReadSkipLstLoop MeetsCutOffLst
      rw [(jsonReadTypeNextIgnoreComma_post this).overrun_bind, Prod.exists]
      refine exists_congr (fun type => exists_congr (fun next => and_congr_right (fun _ => ?_)))
      dsimp only
      by_cases hlast : type = .arrayEnd
      · rw [if_pos hlast]
        exact iff_of_false nofun (fun h => h.1 hlast)
      · rw [if_neg hlast, overrun_bind, ihvalue, and_iff_right hlast]
        simp only [ihlist]
    · unfold jsonReadSkipKvLoop MeetsCutOffKv
      rw [(jsonReadTypeNextIgnoreComma_post this).overrun_bind, Prod.exists]
      refine exists_congr (fun type => exists_congr (fun next => and_congr_right (fun _ => ?_)))
      dsimp only
      by_cases hlast : type = .objectEnd
      · rw [if_pos hlast]
        exact iff_of_false nofun (fun h => h.1 hlast)
      · rw [if_neg hlast, and_iff_right hlast, ← strCutOff_iff]
        constructor
        · intro h
          obtain ⟨pushed, hpush, h⟩ := (jsonReadPush_post next _ _).overrun_bind.mp h
          obtain h | ⟨skipped, hskip, h⟩ := overrun_bind.mp h
          · exact .inl ((jsonReadPush_post next _ _).overrun_bind.mpr ⟨pushed, hpush, h⟩)
          · obtain ⟨behind, hcolon, h⟩ := (jsonReadColon_post skipped _).overrun_bind.mp h
            refine .inr ⟨pushed, skipped, behind, hpush, hskip, hcolon, ?_⟩
            obtain h | ⟨after, hafter, h⟩ := overrun_bind.mp h
            · exact .inl ((ihvalue behind).mp h)
            · exact .inr ⟨after, hafter, (ihkv after).mp h⟩
        · rintro (h | ⟨pushed, skipped, behind, hpush, hskip, hcolon, h⟩)
          · obtain ⟨pushed, hpush, h⟩ := (jsonReadPush_post next _ _).overrun_bind.mp h
            rw [hpush, ok_bind, h]
            rfl
          · rw [hpush, ok_bind, hskip, ok_bind, hcolon, ok_bind]
            obtain h | ⟨after, hafter, h⟩ := h
            · rw [(ihvalue behind).mpr h]
              rfl
            · rw [hafter, ok_bind]
              exact (ihkv after).mpr h

/-- A string value is skipped to the place where it is read to just when its text is
skippable. -/
theorem jsonReadSkip_str_iff {next : JsonRead} {value : Variant}
    (htype : jsonReadTypeNextIgnoreComma this = .ok (.string, next))
    (h : jsonReadVar this = .ok (value, this')) :
    jsonReadSkip this = .ok this' ↔ Passes this.turns this := by
  refine ⟨fun hskip => ?_, fun hpasses => (jsonReadSkipRecurse_of_passes _).1 _ _ _ hpasses h⟩
  intro type next' htype'
  cases htype.symm.trans htype'
  intro pushed hpush string body rest hread hbody
  -- where the string is read to
  unfold jsonReadVar JsonRead.turns jsonReadVarRecurse at h
  rw [htype, ok_bind] at h
  obtain ⟨⟨read, after⟩, hstr, h⟩ := ok_of_bind h
  cases h
  unfold jsonReadStr at hstr
  rw [jsonReadTypeNextIgnoreComma_again htype, ok_bind] at hstr
  dsimp only at hstr
  rw [if_neg (by decide), hpush, ok_bind, hread, ok_bind] at hstr
  cases hstr
  -- and skipped to
  unfold jsonReadSkip JsonRead.turns jsonReadSkipRecurse at hskip
  rw [htype, ok_bind] at hskip
  dsimp only at hskip
  rw [hpush, ok_bind] at hskip
  unfold jsonReadSkipStr at hskip
  rw [hbody] at hskip
  obtain ⟨rest', hloop, hskip⟩ := ok_of_bind hskip
  obtain rfl : rest' = rest := congrArg JsonRead.json (Except.ok.inj hskip)
  exact (jsonReadSkipStrLoop_iff body rest').mp hloop

end Agree

/-- **Skipping and reading JSON agree** on every text whose string values are
skippable, and the skip goes behind the terminating zero just when it comes upon
a string that the text cuts off. -/
theorem jsonReadSkip_agrees_of_passes (this : JsonRead) :
    (Passes this.turns this → ∀ value this', jsonReadVar this = .ok (value, this') →
      jsonReadSkip this = .ok this') ∧
    (∀ next value this', jsonReadTypeNextIgnoreComma this = .ok (.string, next) →
      jsonReadVar this = .ok (value, this') →
        (jsonReadSkip this = .ok this' ↔ Passes this.turns this)) ∧
    (jsonReadSkip this = .error .overrun ↔ MeetsCutOff this.turns this) ∧
    ∀ json, this = jsonReadNew json → Passes this.turns this →
      (jsonReadVar this).map (fun result => (jsonReadConsumeWhiteSpace result.2).json) = .ok [] →
        jsonValidate json = .ok () := by
  refine ⟨fun hpasses value this' h => ?_, fun _ _ _ => jsonReadSkip_str_iff,
    (jsonReadSkipRecurse_overrun _).1 this, ?_⟩
  · exact (jsonReadSkipRecurse_of_passes _).1 this value this' hpasses h
  rintro json rfl hpasses h
  obtain ⟨result, hread, h⟩ := ok_of_bind h
  have hend : (jsonReadConsumeWhiteSpace result.2).json = [] := Except.ok.inj h
  have hskip : jsonReadSkip (jsonReadNew json) = .ok result.2 :=
    (jsonReadSkipRecurse_of_passes _).1 _ _ _ hpasses hread
  unfold jsonValidate
  rw [hskip, ok_bind]
  exact if_neg (not_not_intro hend)

/-- What is left after a read shows that there was one. -/
theorem read_of_left {α : Type} {x : Except JsonStop (α × JsonRead)} {next : JsonRead}
    (h : x.map Prod.snd = .ok next) : ∃ value, x = .ok (value, next) := by
  cases x with
  | error stop => cases h
  | ok result => exact ⟨result.1, congrArg (fun n => Except.ok (result.1, n)) (Except.ok.inj h)⟩

/-- An escape with another character between it and the closing quote. -/
theorem jsonReadSkip_agrees_of_passes_sample :
    jsonReadSkip (jsonReadNew "\"\\u0041b\" ".toList) = .ok ⟨[' '], none, false, true⟩ ∧
      jsonValidate "\"\\u0041b\" ".toList = .ok () := by
  have hpasses : Passes (jsonReadNew "\"\\u0041b\" ".toList).turns
      (jsonReadNew "\"\\u0041b\" ".toList) := by
    intro type next htype
    have hfirst : jsonReadTypeNextIgnoreComma (jsonReadNew "\"\\u0041b\" ".toList)
        = .ok (.string, jsonReadNew "\"\\u0041b\" ".toList) := by decide +kernel
    cases hfirst.symm.trans htype
    intro pushed hpush string body rest hread hbody
    have hpushed : jsonReadPush (jsonReadNew "\"\\u0041b\" ".toList) .string false
        = .ok ⟨"\"\\u0041b\" ".toList, none, false, true⟩ := by decide +kernel
    cases hpushed.symm.trans hpush
    have hstring : jsonReadStrLoop .empty [] "\\u0041b\" ".toList = .ok (['A', 'b'], [' ']) := by
      decide +kernel
    cases hstring.symm.trans hread
    obtain rfl : "\\u0041b".toList = body := List.append_cancel_right hbody
    exact ⟨rfl, trivial⟩
  have hread : ∃ value, jsonReadVar (jsonReadNew "\"\\u0041b\" ".toList)
      = .ok (value, ⟨[' '], none, false, true⟩) := by
    refine read_of_left ?_
    decide +kernel
  obtain ⟨value, hread⟩ := hread
  refine ⟨(jsonReadSkip_agrees_of_passes _).1 hpasses value _ hread, ?_⟩
  refine (jsonReadSkip_agrees_of_passes _).2.2.2 _ rfl hpasses ?_
  decide +kernel

/-- An escape at the closing quote is read, and takes the skip past the quote. A
backslash at the end of the text takes it past the end. -/
theorem jsonReadSkip_disagrees :
    (¬ ∀ json value this', jsonReadVar (jsonReadNew json) = .ok (value, this') →
      ∃ next, jsonReadSkip (jsonReadNew json) = .ok next ∧ next.json = this'.json) ∧
    jsonReadSkip (jsonReadNew "\"\\".toList) = .error .overrun := by
  refine ⟨fun h => ?_, by decide +kernel⟩
  have hread : ∃ value, jsonReadVar (jsonReadNew "\"\\u0041\"".toList)
      = .ok (value, ⟨[], none, false, true⟩) := by
    refine read_of_left ?_
    decide +kernel
  obtain ⟨value, hread⟩ := hread
  obtain ⟨next, hskip, -⟩ := h _ value _ hread
  have hthrow : jsonReadSkip (jsonReadNew "\"\\u0041\"".toList)
      = jsonThrow "expected '\"' but found null delimiter".toList := by decide +kernel
  cases hthrow.symm.trans hskip

end PgxBackup
