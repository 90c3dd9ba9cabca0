import Mathlib.Data.List.TakeWhile
import PgxBackup.JsonText
import PgxBackup.JsonVar

/-!
# Writing a variant and reading it back

The reader goes through the text of a variant with a state that corresponds to
the writer's. What is read is the variant with every number as the widest type
of its sign and with the keys in order (`Variant.norm`), and its text is the
same.
-/

namespace PgxBackup

open List

def normNumber (value : ℤ) : Variant :=
  if value < 0 then .int64 (Int64.ofInt value) else .uint64 (UInt64.ofNat value.toNat)

mutual

/-- A variant with numbers of the widest type and keys in order. -/
def Variant.norm : Variant → Variant
  | .int value => normNumber value.toInt
  | .int64 value => normNumber value.toInt
  | .uint value => normNumber value.toNat
  | .uint64 value => normNumber value.toNat
  | .varLst list => .varLst (normList list)
  | .kv pairs =>
    .kv ((sortedKeys pairs).map (fun key => (key, (kvGet (normPairs pairs) key).getD .null)))
  | value => value

def normList : List Variant → List Variant
  | [] => []
  | value :: list => value.norm :: normList list

/-- The values of a key/value. -/
def normPairs : List (Str × Variant) → List (Str × Variant)
  | [] => []
  | (key, value) :: pairs => (key, value.norm) :: normPairs pairs

end

/-! ## States of the reader -/

namespace Place

/-- The containers outside of a value, once it is one of theirs. -/
def readOuter : Place JsonReadStack → List JsonReadStack
  | .top => []
  | .inside item below => { item with first := true } :: below

/-- The comma before a value. -/
def readLead : Place JsonReadStack → Str
  | .top => []
  | .inside item _ => if item.first && decide (item.type ≠ .objectBegin) then [','] else []

/-- A value is read next. -/
def toRead (place : Place JsonReadStack) (json : Str) : JsonRead :=
  match place with
  | .top => ⟨json, none, false, false⟩
  | .inside item below => ⟨json, some (item :: below), decide (item.type = .objectBegin), false⟩

/-- A value was read. -/
def haveRead (place : Place JsonReadStack) (scalar : Bool) (json : Str) : JsonRead :=
  match place with
  | .top => ⟨json, if scalar then none else some [], false, true⟩
  | .inside _ _ => ⟨json, some place.readOuter, false, false⟩

end Place

section TypeNext

variable {this : JsonRead} {c : Char} {json : Str} {type : JsonType}

/-- What begins a value is neither whitespace nor a comma. -/
theorem not_whiteSpace_of_type (h : jsonTypeOf c = some type) : jsonWhiteSpace c = false := by
  by_contra hwhite
  rw [Bool.not_eq_false] at hwhite
  simp only [jsonWhiteSpace, Bool.or_eq_true, decide_eq_true_eq] at hwhite
  have hnone : jsonTypeOf c = none := by
    obtain ((rfl | rfl) | rfl) | rfl := hwhite
    all_goals decide
  cases hnone.symm.trans h

theorem ne_comma_of_type (h : jsonTypeOf c = some type) : c ≠ ',' := by
  rintro rfl
  have hnone : jsonTypeOf ',' = none := by decide
  cases hnone.symm.trans h

theorem consumeWhiteSpace_cons (hjson : this.json = c :: json) (hwhite : jsonWhiteSpace c = false) :
    jsonReadConsumeWhiteSpace this = this := by
  unfold jsonReadConsumeWhiteSpace
  rw [hjson, dropWhile_cons_of_neg (by rw [hwhite]; exact Bool.false_ne_true), ← hjson]

theorem jsonReadTypeNext_cons (hjson : this.json = c :: json) (h : jsonTypeOf c = some type) :
    jsonReadTypeNext this = .ok (type, this) := by
  unfold jsonReadTypeNext
  rw [consumeWhiteSpace_cons hjson (not_whiteSpace_of_type h)]
  dsimp only
  rw [hjson]
  dsimp only
  rw [h]

theorem jsonReadTypeNextIgnoreComma_cons {lead : Str} (hlead : lead = [] ∨ lead = [','])
    (hjson : this.json = lead ++ c :: json) (h : jsonTypeOf c = some type) :
    jsonReadTypeNextIgnoreComma this = .ok (type, this) := by
  unfold jsonReadTypeNextIgnoreComma
  obtain rfl | rfl := hlead
  · rw [consumeWhiteSpace_cons hjson (not_whiteSpace_of_type h)]
    have hhead : this.json.head? ≠ some ',' := by
      rw [hjson]
      exact fun hc => ne_comma_of_type h (Option.some.inj hc)
    rw [if_neg hhead]
    exact jsonReadTypeNext_cons hjson h
  · rw [consumeWhiteSpace_cons hjson (by decide)]
    have hhead : this.json.head? = some ',' := congrArg head? hjson
    rw [if_pos hhead]
    have hnext : this.next.json = c :: json := congrArg tail hjson
    rw [jsonReadTypeNext_cons hnext h]
    rfl

end TypeNext

theorem Place.readLead_eq (place : Place JsonReadStack) :
    place.readLead = [] ∨ place.readLead = [','] := by
  cases place with
  | top => exact .inl rfl
  | inside item below =>
    show (if _ then _ else _) = _ ∨ (if _ then _ else _) = _
    split
    · exact .inr rfl
    · exact .inl rfl

section Push

variable {place : Place JsonReadStack} {c : Char} {json : Str} {type : JsonType}

theorem jsonReadTypeNextIgnoreComma_toRead (h : jsonTypeOf c = some type) :
    jsonReadTypeNextIgnoreComma (place.toRead (place.readLead ++ c :: json))
      = .ok (type, place.toRead (place.readLead ++ c :: json)) := by
  have hjson : (place.toRead (place.readLead ++ c :: json)).json = place.readLead ++ c :: json := by
    cases place with
    | top => rfl
    | inside item below => rfl
  exact jsonReadTypeNextIgnoreComma_cons place.readLead_eq hjson h

theorem jsonReadPush_inside {this : JsonRead} {stack : List JsonReadStack} {key : Bool}
    (htype : jsonReadTypeNextIgnoreComma this = .ok (type, this)) (hstack : this.stack = some stack)
    (hcomplete : this.complete = false) :
    jsonReadPush this type key
      = (jsonReadPushItem this key >>= fun this => .ok (this.addContainer type)) := by
  unfold jsonReadPush
  rw [if_neg (fun hc => Bool.false_ne_true (hcomplete.symm.trans hc)), htype]
  show (if type ≠ type then _ else if this.stack = none ∧ _ then _ else _) = _
  rw [if_neg (fun hne => hne rfl),
    if_neg (fun hs => Option.some_ne_none _ (hstack.symm.trans hs.1))]

theorem jsonReadPushItem_toRead {item : JsonReadStack} {below : List JsonReadStack}
    (h : jsonTypeOf c = some type) :
    jsonReadPushItem ((Place.inside item below).toRead ((Place.inside item below).readLead ++ c :: json))
        false
      = .ok ⟨c :: json, some ({ item with first := true } :: below), false, false⟩ := by
  have hpush : ∀ json, jsonReadPushKey ⟨json, some (item :: below),
      decide (item.type = .objectBegin), false⟩ item false
        = .ok ⟨json, some (item :: below), false, false⟩ := by
    intro json
    unfold jsonReadPushKey
    rw [if_neg Bool.false_ne_true]
    by_cases htype : item.type = .objectBegin
    · rw [if_pos htype, decide_eq_true htype]
      rfl
    · rw [if_neg htype, decide_eq_false htype]
  show (jsonReadPushKey ⟨_, some (item :: below), decide (item.type = .objectBegin), false⟩ item
    false >>= fun this => jsonReadPushComma this item below false) = _
  rw [hpush, ok_bind]
  unfold jsonReadPushComma
  rw [Bool.or_false]
  show (if (item.first && decide (item.type ≠ .objectBegin)) = true then _ else _) = _
  by_cases hcomma : (item.first && decide (item.type ≠ .objectBegin)) = true
  · have hfirst : { item with first := true } = item := by
      rw [← Bool.and_elim_left hcomma]
    have hlead : (Place.inside item below).readLead = [','] := if_pos hcomma
    rw [if_pos hcomma, hlead, hfirst]
    show Except.ok (jsonReadConsumeWhiteSpace ⟨c :: json, _, false, false⟩) = _
    rw [consumeWhiteSpace_cons rfl (not_whiteSpace_of_type h)]
  · have hlead : (Place.inside item below).readLead = [] := if_neg hcomma
    rw [if_neg hcomma, hlead]
    rfl

/-- **A scalar is accounted for.** -/
theorem jsonReadPush_scalar (htype : jsonTypeScalar type = true) (h : jsonTypeOf c = some type) :
    jsonReadPush (place.toRead (place.readLead ++ c :: json)) type false
      = .ok (place.haveRead true (c :: json)) := by
  have hnext := @jsonReadTypeNextIgnoreComma_toRead place c json type h
  cases place with
  | top =>
    unfold jsonReadPush
    rw [hnext]
    show (if type ≠ type then _ else if none = none ∧ jsonTypeScalar type = true then _ else _) = _
    rw [if_neg (fun hne => hne rfl), if_pos ⟨rfl, htype⟩]
    rfl
  | inside item below =>
    rw [jsonReadPush_inside hnext rfl rfl, jsonReadPushItem_toRead h, ok_bind]
    unfold JsonRead.addContainer
    rw [if_pos htype]
    rfl

/-- **A container is accounted for** and is the innermost one then. -/
theorem jsonReadPush_container (htype : jsonTypeScalar type = false) (h : jsonTypeOf c = some type) :
    jsonReadPush (place.toRead (place.readLead ++ c :: json)) type false
      = .ok ⟨c :: json, some (⟨type, false⟩ :: place.readOuter), false, false⟩ := by
  have hnot : ¬ jsonTypeScalar type = true := fun hs => Bool.false_ne_true (htype.symm.trans hs)
  have hnext := @jsonReadTypeNextIgnoreComma_toRead place c json type h
  cases place with
  | top =>
    unfold jsonReadPush
    rw [hnext]
    show (if type ≠ type then _ else if none = none ∧ jsonTypeScalar type = true then _ else _) = _
    rw [if_neg (fun hne => hne rfl), if_neg (fun hs => hnot hs.2)]
    show Except.ok (JsonRead.addContainer _ type) = _
    unfold JsonRead.addContainer
    rw [if_neg hnot]
    rfl
  | inside item below =>
    rw [jsonReadPush_inside hnext rfl rfl, jsonReadPushItem_toRead h, ok_bind]
    unfold JsonRead.addContainer
    rw [if_neg hnot]
    rfl

theorem comma_eq (first : Bool) :
    (if first then [','] else []) = ([] : Str) ∨ (if first then [','] else []) = [','] := by
  cases first with
  | true => exact .inr rfl
  | false => exact .inl rfl

theorem jsonReadTypeNextIgnoreComma_key (first : Bool) (stack : Option (List JsonReadStack)) :
    jsonReadTypeNextIgnoreComma
        ⟨(if first then [','] else []) ++ '"' :: json, stack, false, false⟩
      = .ok (.string, ⟨(if first then [','] else []) ++ '"' :: json, stack, false, false⟩) := by
  have hquote : jsonTypeOf '"' = some .string := rfl
  exact jsonReadTypeNextIgnoreComma_cons (comma_eq first) rfl hquote

theorem jsonReadPush_key {first : Bool} {below : List JsonReadStack} :
    jsonReadPush ⟨(if first then [','] else []) ++ '"' :: json,
        some (⟨.objectBegin, first⟩ :: below), false, false⟩ .string true
      = .ok ⟨'"' :: json, some (⟨.objectBegin, true⟩ :: below), true, false⟩ := by
  rw [jsonReadPush_inside (jsonReadTypeNextIgnoreComma_key first _) rfl rfl]
  cases first with
  | true =>
    show Except.ok (JsonRead.addContainer (jsonReadConsumeWhiteSpace ⟨'"' :: json, _, true, false⟩)
      .string) = _
    rw [consumeWhiteSpace_cons rfl (by decide)]
    rfl
  | false => rfl

end Push

/-! ## Scalars -/

/-- What follows a number. -/
def NoDigit (rest : Str) : Prop := ∀ c ∈ rest.head?, c.isDigit = false

variable {rest : Str}

theorem takeWhile_digits {digits : Str} (hdigits : ∀ c ∈ digits, c.isDigit = true)
    (hrest : NoDigit rest) : (digits ++ rest).takeWhile Char.isDigit = digits := by
  rw [takeWhile_append_of_pos hdigits]
  cases rest with
  | nil => exact append_nil _
  | cons c rest =>
    rw [takeWhile_cons_of_neg, append_nil]
    rw [hrest c rfl]
    exact Bool.false_ne_true

/-- A signed number that was printed is read back. -/
theorem cvtZToInt64Base_neg {n : ℕ} (hn : n ≤ 2 ^ 63) :
    cvtZToInt64Base 10 ('-' :: Nat.toDigits 10 n) = .ok (-(n : ℤ)) := by
  have hlow : (-2 ^ 63 : ℤ) ≤ -(n : ℤ) := by omega
  have hhigh : -(n : ℤ) < 2 ^ 63 := by omega
  unfold cvtZToInt64Base cvtZToSigned
  rw [strtoll_neg_toDigits (by decide) le_rfl hn, Option.filter_some,
    if_pos (decide_eq_true ⟨hlow, hhigh⟩)]

theorem jsonReadNumber_digits {this : JsonRead} {sign digits : Str}
    (hsign : sign = if this.json.head? = some '-' then ['-'] else [])
    (hjson : this.json = sign ++ (digits ++ rest)) (hdigits : ∀ c ∈ digits, c.isDigit = true)
    (hne : digits ≠ []) (hlength : digits.length < CVT_BASE10_BUFFER_SIZE) (hrest : NoDigit rest) :
    jsonReadNumber this =
      if sign ≠ [] then (cvt (cvtZToInt64Base 10 (sign ++ digits))) >>= fun value =>
        .ok (.i64 (Int64.ofInt value), { this with json := rest })
      else (cvt (cvtZToUInt64Base 10 digits)) >>= fun value =>
        .ok (.u64 (UInt64.ofNat value), { this with json := rest }) := by
  have htake : (this.json.drop sign.length).takeWhile Char.isDigit = digits := by
    rw [hjson, drop_left, takeWhile_digits hdigits hrest]
  have hdrop : this.json.drop (sign.length + digits.length) = rest := by
    rw [hjson, ← drop_drop, drop_left, drop_left]
  unfold jsonReadNumber
  rw [← hsign]
  dsimp only
  rw [htake, if_neg hne, if_neg (Nat.not_le_of_lt hlength), hdrop]

/-- **A number that was written is read**, with the widest type of its sign. -/
theorem jsonReadNumber_cvtToZ {value : ℤ} (hlow : -2 ^ 63 ≤ value) (hhigh : value < 2 ^ 64)
    (hrest : NoDigit rest) {this : JsonRead} (hjson : this.json = cvtToZ value ++ rest) :
    ∃ number, jsonReadNumber this = .ok (number, { this with json := rest }) ∧
      number.toVariant = normNumber value := by
  have hdigit : ∀ c ∈ Nat.toDigits 10 value.natAbs, c.isDigit = true :=
    fun c hc => Nat.isDigit_of_mem_toDigits (by decide) le_rfl hc
  have hlength : (Nat.toDigits 10 value.natAbs).length < CVT_BASE10_BUFFER_SIZE := by
    have hle := (Nat.length_toDigits_le_iff (n := value.natAbs) (k := 20) (b := 10) (by decide)
      (by decide)).mpr (by omega)
    unfold CVT_BASE10_BUFFER_SIZE
    omega
  have hne : Nat.toDigits 10 value.natAbs ≠ [] := Nat.toDigits_ne_nil
  by_cases hneg : value < 0
  · have htext : cvtToZ value = '-' :: Nat.toDigits 10 value.natAbs := if_pos hneg
    have hvalue : (-(value.natAbs : ℤ)) = value := by omega
    rw [htext] at hjson
    have hsign : ['-'] = if this.json.head? = some '-' then ['-'] else [] := by
      rw [hjson]
      rfl
    have hcvt := cvtZToInt64Base_neg (n := value.natAbs) (by omega)
    rw [jsonReadNumber_digits hsign hjson hdigit hne hlength hrest]
    refine ⟨.i64 (Int64.ofInt value), ?_, (if_pos hneg).symm⟩
    rw [if_pos nofun, singleton_append, hcvt, hvalue]
    rfl
  · have htext : cvtToZ value = Nat.toDigits 10 value.natAbs := if_neg hneg
    have hvalue : value.natAbs = value.toNat := by omega
    rw [htext] at hjson
    obtain ⟨c, s, hcs, hc⟩ := toDigits_eq_cons (n := value.natAbs) (b := 10) (by decide) le_rfl
    have hsign : [] = if this.json.head? = some '-' then ['-'] else [] := by
      rw [hjson, hcs, if_neg]
      rintro ⟨⟩
      cases hc
    have hcvt : cvtZToUInt64Base 10 (Nat.toDigits 10 value.natAbs) = .ok value.natAbs :=
      cvtZToUnsigned_toDigits (by decide) le_rfl (by omega) le_rfl _
    rw [jsonReadNumber_digits hsign hjson hdigit hne hlength hrest]
    refine ⟨.u64 (UInt64.ofNat value.toNat), ?_, (if_neg hneg).symm⟩
    rw [if_neg (fun h => h rfl), hcvt, hvalue]
    rfl

/-! ## Strings -/

variable {c : Char}

theorem jsonReadStrLoop_escape {escape : Str} (h : jsonWriteEscape c = some escape)
    (result : StrBuf) (noEscape json : Str) :
    jsonReadStrLoop result noEscape (escape ++ json) = (do
      let result ← cvt (result.cat noEscape)
      let result ← cvt (result.cat [c])
      jsonReadStrLoop result [] json) := by
  unfold jsonWriteEscape at h
  split at h
  all_goals first
    | cases Option.some.inj h
      rfl
    | cases h

theorem jsonReadStrLoop_char (h : jsonWriteEscape c = none) (result : StrBuf)
    (noEscape json : Str) :
    jsonReadStrLoop result noEscape (c :: json) = jsonReadStrLoop result (noEscape ++ [c]) json := by
  rw [jsonReadStrLoop]
  · rintro rfl
    cases h
  · rintro rfl
    cases h

theorem cat_cvt {result : StrBuf} {text : Str}
    (h : result.str.length + text.length ≤ STRING_SIZE_MAX) :
    ∃ next, cvt (result.cat text) = .ok next ∧ next.str = result.str ++ text := by
  obtain ⟨next, hnext, hstr⟩ := result.cat_ok text h
  exact ⟨next, by rw [hnext]; rfl, hstr⟩

/-- **A string that was written is read.** -/
theorem jsonReadStrLoop_escapeText (value : Str) :
    ∀ (result : StrBuf) (noEscape : Str),
      result.str.length + noEscape.length + value.length ≤ STRING_SIZE_MAX →
      jsonReadStrLoop result noEscape (escapeText value ++ '"' :: rest)
        = .ok (result.str ++ noEscape ++ value, rest) := by
  induction value with
  | nil =>
    intro result noEscape hlength
    obtain ⟨next, hnext, hstr⟩ := @cat_cvt result noEscape hlength
    show (cvt (result.cat noEscape) >>= fun result => .ok (result.str, rest)) = _
    rw [hnext, ok_bind, hstr, append_nil]
  | cons c value ih =>
    intro result noEscape hlength
    rw [length_cons] at hlength
    have htext : escapeText (c :: value) = (jsonWriteEscape c).getD [c] ++ escapeText value := rfl
    rw [htext, append_assoc]
    cases hescape : jsonWriteEscape c with
    | some escape =>
      obtain ⟨next, hnext, hstr⟩ := @cat_cvt result noEscape (by omega)
      have hroom : next.str.length + [c].length ≤ STRING_SIZE_MAX := by
        rw [hstr, length_append, length_singleton]
        omega
      obtain ⟨last, hlast, hstr'⟩ := cat_cvt hroom
      have hrest : last.str.length + ([] : Str).length + value.length ≤ STRING_SIZE_MAX := by
        rw [hstr', hstr, length_append, length_append, length_singleton,
          length_nil]
        omega
      rw [Option.getD_some, jsonReadStrLoop_escape hescape, hnext, ok_bind, hlast, ok_bind,
        ih last [] hrest, hstr', hstr]
      simp
    | none =>
      have hrest : result.str.length + (noEscape ++ [c]).length + value.length
          ≤ STRING_SIZE_MAX := by
        rw [length_append, length_singleton]
        omega
      rw [Option.getD_none, singleton_append, jsonReadStrLoop_char hescape, ih _ _ hrest]
      simp

variable {key value : Str}

/-- **A key that was written is read.** -/
theorem jsonReadKeyLoop_key (hvalid : KeyValid key) (rest : Str) :
    jsonReadKeyLoop (key ++ '"' :: rest) = .ok (key, rest) := by
  have hallowed := hvalid.allowed
  clear hvalid
  induction key with
  | nil => rfl
  | cons c key ih =>
    rw [forall_mem_cons] at hallowed
    have hquote : c ≠ '"' := fun heq => hallowed.1 (heq ▸ by decide)
    have hescape : c ≠ '\\' := fun heq => hallowed.1 (heq ▸ by decide)
    rw [cons_append, jsonReadKeyLoop, if_neg hquote, if_neg hescape, ih hallowed.2]
    rfl

variable {below : List JsonReadStack}

theorem jsonReadKey_keyText (hvalid : KeyValid key) {first : Bool} (rest : Str) :
    jsonReadKey ⟨(if first then [','] else []) ++ (keyText key ++ rest),
        some (⟨.objectBegin, first⟩ :: below), false, false⟩
      = .ok (key, ⟨rest, some (⟨.objectBegin, true⟩ :: below), true, false⟩) := by
  have htext : keyText key ++ rest = '"' :: (key ++ '"' :: (':' :: rest)) := by
    unfold keyText
    rw [cons_append, append_assoc]
    rfl
  unfold jsonReadKey
  rw [htext, jsonReadPush_key, ok_bind]
  show (jsonReadKeyLoop (key ++ '"' :: (':' :: rest)) >>= _) = _
  rw [jsonReadKeyLoop_key hvalid, ok_bind]
  rfl

/-! ## Variants -/

def Variant.jsonType : Variant → JsonType
  | .null => .null
  | .bool _ => .bool
  | .int _ | .int64 _ | .uint _ | .uint64 _ => .number
  | .str _ => .string
  | .varLst _ => .arrayBegin
  | .kv _ => .objectBegin

theorem jsonTypeOf_digit (h : c.isDigit = true) : jsonTypeOf c = some .number := by
  have hquote : c ≠ '"' := by
    rintro rfl
    cases h
  unfold jsonTypeOf
  rw [if_neg hquote, if_pos (.inr h)]

theorem cvtToZ_cons (value : ℤ) :
    ∃ c text, cvtToZ value = c :: text ∧ jsonTypeOf c = some .number := by
  unfold cvtToZ
  split
  · exact ⟨'-', _, rfl, by decide⟩
  · obtain ⟨c, text, htext, hc⟩ := toDigits_eq_cons (n := value.natAbs) (b := 10) (by decide) le_rfl
    exact ⟨c, text, htext, jsonTypeOf_digit hc⟩

/-- The first character of a text is enough to tell its type. -/
theorem Variant.text_cons (value : Variant) :
    ∃ c text, value.text = c :: text ∧ jsonTypeOf c = some value.jsonType := by
  cases value with
  | null => exact ⟨'n', _, rfl, by decide⟩
  | bool value =>
    cases value with
    | true => exact ⟨'t', _, rfl, by decide⟩
    | false => exact ⟨'f', _, rfl, by decide⟩
  | int | int64 | uint | uint64 => exact cvtToZ_cons _
  | str value => exact ⟨'"', _, rfl, rfl⟩
  | varLst list => exact ⟨'[', _, rfl, rfl⟩
  | kv pairs => exact ⟨'\x7b', _, rfl, rfl⟩

theorem jsonReadTypeNextIgnoreComma_text (value : Variant) (place : Place JsonReadStack) (rest : Str) :
    jsonReadTypeNextIgnoreComma (place.toRead (place.readLead ++ (value.text ++ rest)))
      = .ok (value.jsonType, place.toRead (place.readLead ++ (value.text ++ rest))) := by
  obtain ⟨c, text, htext, htype⟩ := value.text_cons
  rw [htext, cons_append]
  exact jsonReadTypeNextIgnoreComma_toRead htype

section Read

variable {place : Place JsonReadStack} {rest : Str}

theorem jsonReadNull_text : jsonReadNull (place.toRead (place.readLead ++ ("null".toList ++ rest)))
    = .ok (place.haveRead true rest) := by
  have hpush := @jsonReadPush_scalar place 'n' ("ull".toList ++ rest) .null rfl rfl
  unfold jsonReadNull
  rw [show "null".toList ++ rest = 'n' :: ("ull".toList ++ rest) from rfl, hpush, ok_bind]
  cases place with
  | top => rfl
  | inside item below => rfl

theorem jsonReadBool_text (value : Bool) :
    jsonReadBool (place.toRead (place.readLead ++ ((Variant.bool value).text ++ rest)))
      = .ok (value, place.haveRead true rest) := by
  unfold jsonReadBool
  cases value with
  | true =>
    have hpush := @jsonReadPush_scalar place 't' ("rue".toList ++ rest) .bool rfl rfl
    rw [show (Variant.bool true).text ++ rest = 't' :: ("rue".toList ++ rest) from rfl, hpush,
      ok_bind]
    cases place with
    | top => rfl
    | inside item below => rfl
  | false =>
    have hpush := @jsonReadPush_scalar place 'f' ("alse".toList ++ rest) .bool rfl rfl
    rw [show (Variant.bool false).text ++ rest = 'f' :: ("alse".toList ++ rest) from rfl, hpush,
      ok_bind]
    cases place with
    | top => rfl
    | inside item below => rfl

section

variable (place : Place JsonReadStack) (scalar : Bool) (json : Str)

theorem Place.haveRead_json : (place.haveRead scalar json).json = json := by
  cases place with
  | top => rfl
  | inside item below => rfl

theorem Place.haveRead_with :
    { place.haveRead scalar json with json := rest } = place.haveRead scalar rest := by
  cases place with
  | top => rfl
  | inside item below => rfl

end

theorem jsonReadNumber_text {value : ℤ} (hlow : -2 ^ 63 ≤ value) (hhigh : value < 2 ^ 64)
    (hrest : NoDigit rest) :
    (jsonReadPush (place.toRead (place.readLead ++ (cvtToZ value ++ rest))) .number false >>=
        fun this => jsonReadNumber this >>= fun result => .ok (result.1.toVariant, result.2))
      = .ok (normNumber value, place.haveRead true rest) := by
  obtain ⟨c, text, htext, htype⟩ := cvtToZ_cons value
  have hpush := @jsonReadPush_scalar place c (text ++ rest) .number rfl htype
  rw [← cons_append, ← htext] at hpush
  obtain ⟨number, hnumber, hnorm⟩ :=
    jsonReadNumber_cvtToZ hlow hhigh hrest (place.haveRead_json true (cvtToZ value ++ rest))
  rw [hpush, ok_bind, hnumber, ok_bind, hnorm, Place.haveRead_with]

theorem jsonReadStr_text {value : Str} (hlength : value.length ≤ STRING_SIZE_MAX) :
    jsonReadStr (place.toRead (place.readLead ++ ((Variant.str value).text ++ rest)))
      = .ok (some value, place.haveRead true rest) := by
  have htext : (Variant.str value).text ++ rest = '"' :: (escapeText value ++ '"' :: rest) := by
    show '"' :: (escapeText value ++ ['"'] ++ rest) = _
    rw [append_assoc]
    rfl
  have hroom : StrBuf.empty.str.length + ([] : Str).length + value.length ≤ STRING_SIZE_MAX := by
    show 0 + 0 + value.length ≤ _
    omega
  have htype := jsonReadTypeNextIgnoreComma_text (.str value) place rest
  unfold jsonReadStr
  rw [htype, ok_bind, htext]
  dsimp only
  rw [if_neg nofun, jsonReadPush_scalar rfl rfl, ok_bind]
  have htail : (place.haveRead true ('"' :: (escapeText value ++ '"' :: rest))).next.json
      = escapeText value ++ '"' :: rest := congrArg tail (place.haveRead_json _ _)
  rw [htail, jsonReadStrLoop_escapeText value .empty [] hroom, ok_bind]
  rw [Place.haveRead_with]
  rfl

end Read

/-- **What is read of the text of a value**, with enough turns. -/
def ReadsText (value : Variant) : Prop :=
  ∀ (place : Place JsonReadStack) (rest : Str) (turns : ℕ), 2 * value.text.length + 1 ≤ turns →
    NoDigit rest →
      jsonReadVarRecurse turns (place.toRead (place.readLead ++ (value.text ++ rest)))
        = .ok (value.norm, place.haveRead value.isScalar rest)

theorem readsText_number {value : Variant} {n : ℤ} (htype : value.jsonType = .number)
    (htext : value.text = cvtToZ n) (hnorm : value.norm = normNumber n)
    (hscalar : value.isScalar = true) (hlow : -2 ^ 63 ≤ n) (hhigh : n < 2 ^ 64) :
    ReadsText value := by
  intro place rest turns hturns hrest
  obtain ⟨turns, rfl⟩ := Nat.exists_eq_add_of_lt (Nat.lt_of_lt_of_le (Nat.succ_pos _) hturns)
  rw [Nat.zero_add]
  unfold jsonReadVarRecurse
  rw [jsonReadTypeNextIgnoreComma_text, ok_bind, htype, hnorm, htext, hscalar]
  exact jsonReadNumber_text hlow hhigh hrest

theorem readsText_scalar {value : Variant} (hscalar : value.isScalar = true)
    (hvalid : value.Valid) : ReadsText value := by
  have hturns : ∀ turns, 2 * value.text.length + 1 ≤ turns → ∃ n, turns = n + 1 :=
    fun turns h => ⟨turns - 1, by omega⟩
  cases value with
  | null =>
    intro place rest turns h _
    obtain ⟨turns, rfl⟩ := hturns turns h
    unfold jsonReadVarRecurse
    rw [jsonReadTypeNextIgnoreComma_text, ok_bind]
    show (jsonReadNull (place.toRead (place.readLead ++ ("null".toList ++ rest))) >>= _) = _
    rw [jsonReadNull_text]
    rfl
  | bool value =>
    intro place rest turns h _
    obtain ⟨turns, rfl⟩ := hturns turns h
    unfold jsonReadVarRecurse
    rw [jsonReadTypeNextIgnoreComma_text, ok_bind]
    show (jsonReadBool _ >>= _) = _
    rw [jsonReadBool_text]
    rfl
  | int value | int64 value =>
    have hlow := value.le_toInt
    have hhigh := value.toInt_lt
    exact readsText_number rfl rfl rfl rfl (by omega) (by omega)
  | uint value | uint64 value =>
    have hhigh := value.toNat_lt
    exact readsText_number rfl rfl rfl rfl (by omega) (by omega)
  | str value =>
    intro place rest turns h _
    obtain ⟨turns, rfl⟩ := hturns turns h
    unfold jsonReadVarRecurse
    rw [jsonReadTypeNextIgnoreComma_text, ok_bind]
    show (jsonReadStr _ >>= _) = _
    rw [jsonReadStr_text hvalid.2]
    rfl
  | varLst | kv => cases hscalar

/-! ### Containers -/

theorem readBegin {place : Place JsonReadStack} {type : JsonType} (json : Str)
    (htype : jsonTypeScalar type = false) (h : jsonTypeOf c = some type) :
    (jsonReadPush (place.toRead (place.readLead ++ c :: json)) type false >>=
        fun this => .ok this.next)
      = .ok ⟨json, some (⟨type, false⟩ :: place.readOuter), false, false⟩ := by
  rw [jsonReadPush_container htype h]
  rfl

theorem readEnd {place : Place JsonReadStack} {item : JsonReadStack} {type : JsonType}
    (json : Str) (h : jsonTypeOf c = some type) :
    (jsonReadPop ⟨c :: json, some (item :: place.readOuter), false, false⟩ type >>=
        fun this => .ok this.next)
      = .ok (place.haveRead false json) := by
  unfold jsonReadPop
  rw [if_neg Bool.false_ne_true, jsonReadTypeNext_cons rfl h, ok_bind]
  dsimp only
  rw [if_neg (fun hne => hne rfl)]
  cases place with
  | top => rfl
  | inside item below => rfl

theorem jsonReadTypeNextIgnoreComma_end {type : JsonType} (json : Str)
    (stack : Option (List JsonReadStack)) (h : jsonTypeOf c = some type) :
    jsonReadTypeNextIgnoreComma ⟨c :: json, stack, false, false⟩
      = .ok (type, ⟨c :: json, stack, false, false⟩) :=
  jsonReadTypeNextIgnoreComma_cons (.inl rfl) rfl h

theorem noDigit_elements (texts : List Str) (h : c.isDigit = false) (rest : Str) :
    NoDigit (elements true texts ++ c :: rest) := by
  cases texts with
  | nil =>
    intro d hd
    cases hd
    exact h
  | cons text texts =>
    intro d hd
    cases hd
    decide

theorem Variant.text_ne_nil (value : Variant) : 0 < value.text.length := by
  obtain ⟨c, text, htext, -⟩ := value.text_cons
  rw [htext]
  exact Nat.succ_pos _

theorem length_elements_cons (first : Bool) (text : Str) (texts : List Str) :
    text.length + (elements true texts).length ≤ (elements first (text :: texts)).length := by
  show _ ≤ ((if first then [','] else []) ++ (text ++ elements true texts)).length
  rw [length_append, length_append]
  omega

theorem elements_cons_append (first : Bool) (text : Str) (texts : List Str) (rest : Str) :
    elements first (text :: texts) ++ rest
      = (if first then [','] else []) ++ (text ++ (elements true texts ++ rest)) := by
  show ((if first then [','] else []) ++ (text ++ elements true texts)) ++ rest = _
  rw [append_assoc, append_assoc]

theorem jsonReadVarLstLoop_elements (list : List Variant)
    (hreads : ∀ value ∈ list, ReadsText value) (rest : Str) :
    ∀ (first : Bool) (turns : ℕ), 2 * (elements first (textList list)).length + 2 ≤ turns →
      ∃ first', jsonReadVarLstLoop turns ⟨elements first (textList list) ++ ']' :: rest,
          some (⟨.arrayBegin, first⟩ :: below), false, false⟩
        = .ok (normList list, ⟨']' :: rest, some (⟨.arrayBegin, first'⟩ :: below), false, false⟩) := by
  induction list with
  | nil =>
    intro first turns hturns
    obtain ⟨turns, rfl⟩ : ∃ n, turns = n + 1 := ⟨turns - 1, by omega⟩
    refine ⟨first, ?_⟩
    unfold jsonReadVarLstLoop textList elements
    rw [nil_append, jsonReadTypeNextIgnoreComma_end rest _ rfl]
    rfl
  | cons value list ih =>
    intro first turns hturns
    obtain ⟨turns, rfl⟩ : ∃ n, turns = n + 1 := ⟨turns - 1, by omega⟩
    rw [forall_mem_cons] at hreads
    have hplace : (⟨elements first (textList (value :: list)) ++ ']' :: rest,
        some (⟨.arrayBegin, first⟩ :: below), false, false⟩ : JsonRead)
        = (Place.inside ⟨.arrayBegin, first⟩ below).toRead
          ((Place.inside ⟨.arrayBegin, first⟩ below).readLead
            ++ (value.text ++ (elements true (textList list) ++ ']' :: rest))) := by
      have hlead : (Place.inside ⟨.arrayBegin, first⟩ below).readLead = if first then [','] else [] := by
        show (if (first && true) = true then _ else _) = _
        rw [Bool.and_true]
      show _ = (⟨_, some (⟨.arrayBegin, first⟩ :: below), false, false⟩ : JsonRead)
      rw [hlead, ← elements_cons_append]
      rfl
    have hsize := length_elements_cons first value.text (textList list)
    have hpos := value.text_ne_nil
    have hlength : (elements first (textList (value :: list))).length
        = (elements first (value.text :: textList list)).length := rfl
    obtain ⟨first', hlist⟩ := ih hreads.2 true turns (by omega)
    refine ⟨first', ?_⟩
    unfold jsonReadVarLstLoop
    rw [hplace, jsonReadTypeNextIgnoreComma_text, ok_bind]
    dsimp only
    have hnotEnd : value.jsonType ≠ .arrayEnd := by
      cases value <;> rintro ⟨⟩
    rw [if_neg hnotEnd, hreads.1 _ _ turns (by omega) (noDigit_elements _ rfl _), ok_bind]
    show (jsonReadVarLstLoop turns ⟨_, some (⟨.arrayBegin, true⟩ :: below), false, false⟩ >>= _) = _
    rw [hlist]
    rfl

theorem kvGet_normPairs (pairs : List (Str × Variant)) (key : Str) :
    (kvGet (normPairs pairs) key).getD .null = (keyValue pairs key).norm := by
  unfold keyValue
  induction pairs with
  | nil => rfl
  | cons pair pairs ih =>
    unfold normPairs kvGet
    split
    · rfl
    · exact ih

variable {pairs : List (Str × Variant)}

theorem jsonReadKvLoop_elements
    (keyList : List Str) (hnodup : keyList.Nodup) (hkey : ∀ key ∈ keyList, KeyValid key)
    (hreads : ∀ key ∈ keyList, ReadsText (keyValue pairs key)) (rest : Str) :
    ∀ (first : Bool) (kv : List (Str × Variant)) (turns : ℕ),
      (∀ key ∈ keyList, key ∉ kvKeyList kv) →
      2 * (elements first (keyList.map (fun key => keyText key ++ (keyValue pairs key).text))).length
        + 2 ≤ turns →
      ∃ first', jsonReadKvLoop turns kv
          ⟨elements first (keyList.map (fun key => keyText key ++ (keyValue pairs key).text))
            ++ '\x7d' :: rest, some (⟨.objectBegin, first⟩ :: below), false, false⟩
        = .ok (kv ++ keyList.map (fun key => (key, (keyValue pairs key).norm)),
          ⟨'\x7d' :: rest, some (⟨.objectBegin, first'⟩ :: below), false, false⟩) := by
  induction keyList with
  | nil =>
    intro first kv turns _ hturns
    obtain ⟨turns, rfl⟩ : ∃ n, turns = n + 1 := ⟨turns - 1, by omega⟩
    refine ⟨first, ?_⟩
    rw [map_nil, map_nil, append_nil]
    show (jsonReadTypeNextIgnoreComma ⟨'\x7d' :: rest, _, false, false⟩ >>= _) = _
    rw [jsonReadTypeNextIgnoreComma_end rest _ rfl]
    rfl
  | cons key keyList ih =>
    intro first kv turns hnew hturns
    obtain ⟨turns, rfl⟩ : ∃ n, turns = n + 1 := ⟨turns - 1, by omega⟩
    rw [forall_mem_cons] at hreads hnew hkey
    rw [nodup_cons] at hnodup
    rw [map_cons] at hturns
    have hsize := length_elements_cons first (keyText key ++ (keyValue pairs key).text)
      (keyList.map (fun key => keyText key ++ (keyValue pairs key).text))
    rw [length_append] at hsize
    have hpos : 0 < (keyText key).length := Nat.succ_pos _
    have hput := kvPut_of_not_mem hnew.1 (keyValue pairs key).norm
    have hnew' : ∀ key' ∈ keyList,
        key' ∉ kvKeyList (kvPut kv key (keyValue pairs key).norm) := by
      intro key' hmem hold
      refine (mem_kvKeyList_kvPut hold).elim (fun heq => ?_) (hnew.2 key' hmem)
      exact hnodup.1 (heq ▸ hmem)
    obtain ⟨first', hkv⟩ := ih hnodup.2 hkey.2 hreads.2 true
      (kvPut kv key (keyValue pairs key).norm) turns hnew' (by omega)
    refine ⟨first', ?_⟩
    have hvalue : jsonReadVarRecurse turns ⟨(keyValue pairs key).text ++ (elements true
        (keyList.map (fun key => keyText key ++ (keyValue pairs key).text)) ++ '\x7d' :: rest),
        some (⟨.objectBegin, true⟩ :: below), true, false⟩
          = .ok (_, (Place.inside ⟨.objectBegin, true⟩ below).haveRead _ _) :=
      hreads.1 (.inside ⟨.objectBegin, true⟩ below) _ turns (by omega) (noDigit_elements _ rfl _)
    rw [map_cons, elements_cons_append, append_assoc]
    have htype := @jsonReadTypeNextIgnoreComma_key
      (key ++ ['"', ':'] ++ ((keyValue pairs key).text ++ (elements true (keyList.map
        (fun key => keyText key ++ (keyValue pairs key).text)) ++ '\x7d' :: rest)))
      first (some (⟨.objectBegin, first⟩ :: below))
    show (jsonReadTypeNextIgnoreComma ⟨_ ++ '"' :: (key ++ ['"', ':'] ++ _), _, false, false⟩ >>= _)
      = _
    rw [htype, ok_bind]
    dsimp only
    rw [if_neg nofun]
    show (jsonReadKey ⟨_ ++ (keyText key ++ _), _, false, false⟩ >>= _) = _
    rw [jsonReadKey_keyText hkey.1, ok_bind]
    rw [hvalue, ok_bind]
    refine hkv.trans ?_
    rw [hput, append_assoc]
    rfl

theorem Variant.norm_kv (pairs : List (Str × Variant)) :
    (Variant.kv pairs).norm
      = .kv ((sortedKeys pairs).map (fun key => (key, (keyValue pairs key).norm))) := by
  have hvalues : (fun key => (key, (kvGet (normPairs pairs) key).getD .null))
      = fun key => (key, (keyValue pairs key).norm) := by
    funext key
    rw [kvGet_normPairs]
  rw [← hvalues, Variant.norm]

/-- **The text of a variant is read**, and what is read is the variant with numbers of
the widest type and keys in order. -/
theorem readsText (value : Variant) (hvalid : value.Valid) : ReadsText value := by
  induction value using Variant.induct with
  | hscalar value hscalar => exact readsText_scalar hscalar hvalid
  | hlist list ih =>
    unfold Variant.Valid at hvalid
    rw [validList_iff] at hvalid
    have htext : (Variant.varLst list).text = '[' :: (elements false (textList list) ++ [']']) := by
      rw [Variant.text]
    have hsize : (Variant.varLst list).text.length
        = (elements false (textList list)).length + 2 := by
      rw [htext, length_cons, length_append, length_singleton]
    have hreads := fun value hmem => ih value hmem (hvalid value hmem)
    intro place rest turns hturns _
    obtain ⟨turns, rfl⟩ : ∃ n, turns = n + 1 := ⟨turns - 1, by omega⟩
    obtain ⟨first, hloop⟩ := @jsonReadVarLstLoop_elements place.readOuter list hreads rest false
      turns (by omega)
    unfold jsonReadVarRecurse
    rw [jsonReadTypeNextIgnoreComma_text, ok_bind, htext, cons_append, append_assoc]
    show (jsonReadArrayBegin _ >>= _) = _
    unfold jsonReadArrayBegin
    rw [readBegin _ rfl rfl, ok_bind]
    show (jsonReadVarLstLoop turns ⟨_ ++ ']' :: rest, _, false, false⟩ >>= _) = _
    rw [hloop, ok_bind]
    dsimp only
    unfold jsonReadArrayEnd
    rw [readEnd rest rfl, ok_bind, Variant.norm]
    rfl
  | hkv pairs ih =>
    obtain ⟨hnodup, hpairs⟩ := hvalid
    rw [validPairs_iff] at hpairs
    have hsize : (Variant.kv pairs).text.length = (elements false ((sortedKeys pairs).map
        (fun key => keyText key ++ (keyValue pairs key).text))).length + 2 := by
      rw [Variant.text_kv, length_cons, length_append, length_singleton]
    have hreads := fun key (hkey : key ∈ sortedKeys pairs) =>
      ih _ (keyValue_mem hkey) (hpairs _ (keyValue_mem hkey)).2
    have hkeys : ∀ key ∈ sortedKeys pairs, KeyValid key :=
      fun key hkey => (hpairs _ (keyValue_mem hkey)).1
    have hsorted := pairwise_sortedKeys hnodup
    intro place rest turns hturns _
    obtain ⟨turns, rfl⟩ : ∃ n, turns = n + 1 := ⟨turns - 1, by omega⟩
    obtain ⟨first, hloop⟩ := @jsonReadKvLoop_elements place.readOuter pairs (sortedKeys pairs)
      (hsorted.imp ne_of_lt) hkeys hreads rest false [] turns
      (fun _ _ => not_mem_nil) (by omega)
    unfold jsonReadVarRecurse
    rw [jsonReadTypeNextIgnoreComma_text, ok_bind, Variant.text_kv, cons_append,
      append_assoc]
    show (jsonReadObjectBegin _ >>= _) = _
    unfold jsonReadObjectBegin
    rw [readBegin _ rfl rfl, ok_bind]
    show (jsonReadKvLoop turns [] ⟨_ ++ '\x7d' :: rest, _, false, false⟩ >>= _) = _
    rw [hloop, ok_bind]
    dsimp only
    unfold jsonReadObjectEnd
    rw [readEnd rest rfl, ok_bind, Variant.norm_kv]
    rfl

/-! ## Writing what was read -/

theorem kvKeyList_norm (pairs : List (Str × Variant)) :
    kvKeyList ((sortedKeys pairs).map (fun key => (key, (keyValue pairs key).norm)))
      = sortedKeys pairs := by
  unfold kvKeyList
  rw [map_map]
  exact map_id _

theorem keyValue_norm {keyList : List Str} (h : key ∈ keyList) :
    keyValue (keyList.map (fun key => (key, (keyValue pairs key).norm))) key
      = (keyValue pairs key).norm := by
  induction keyList with
  | nil => cases h
  | cons key' keyList ih =>
    unfold keyValue
    rw [map_cons, kvGet]
    by_cases hkey : key' = key
    · rw [if_pos hkey, hkey]
      rfl
    · rw [if_neg hkey]
      exact ih (mem_of_ne_of_mem (Ne.symm hkey) h)

theorem jsonWriteVarRecurse_normNumber {value : ℤ} (hlow : -2 ^ 63 ≤ value)
    (hhigh : value < 2 ^ 64) (this : JsonWrite) :
    jsonWriteVarRecurse (normNumber value) this = jsonWriteScalar this .number (cvtToZ value) := by
  unfold normNumber
  split
  · show jsonWriteScalar this .number (cvtToZ (Int64.ofInt value).toInt) = _
    rw [Int64.toInt_ofInt_of_le hlow (by omega)]
  · have hlt : value.toNat < UInt64.size := by
      show value.toNat < 2 ^ 64
      omega
    show jsonWriteScalar this .number (cvtToZ ((UInt64.ofNat value.toNat).toNat : ℕ)) = _
    rw [UInt64.toNat_ofNat_of_lt' hlt, Int.toNat_of_nonneg (by omega)]

/-- Objects are written alike if they have the same keys and values that are written alike. -/
theorem jsonWriteKeys_congr {pairs' : List (Str × Variant)} {keyList : List Str}
    (h : ∀ key ∈ keyList, ∀ this, jsonWriteVarRecurse (keyValue pairs' key) this
      = jsonWriteVarRecurse (keyValue pairs key) this) (this : JsonWrite) :
    jsonWriteKeys (jsonWriteValues pairs') keyList this
      = jsonWriteKeys (jsonWriteValues pairs) keyList this := by
  induction keyList generalizing this with
  | nil => rfl
  | cons key keyList ih =>
    rw [forall_mem_cons] at h
    refine congrArg (jsonWriteKey this key >>= ·) (funext fun this => ?_)
    rw [kvGet_jsonWriteValues, kvGet_jsonWriteValues, h.1]
    exact congrArg (jsonWriteVarRecurse (keyValue pairs key) this >>= ·) (funext (ih h.2))

/-- **What was read is written as the variant was.** -/
theorem jsonWriteVarRecurse_norm (value : Variant) (hvalid : value.Valid) (this : JsonWrite) :
    jsonWriteVarRecurse value.norm this = jsonWriteVarRecurse value this := by
  induction value using Variant.induct generalizing this with
  | hscalar value hscalar =>
    cases value with
    | null | bool | str => rfl
    | int value | int64 value =>
      have hlow := value.le_toInt
      have hhigh := value.toInt_lt
      exact jsonWriteVarRecurse_normNumber (by omega) (by omega) this
    | uint value | uint64 value =>
      have hhigh := value.toNat_lt
      exact jsonWriteVarRecurse_normNumber (by omega) (by omega) this
    | varLst | kv => cases hscalar
  | hlist list ih =>
    unfold Variant.Valid at hvalid
    rw [validList_iff] at hvalid
    have hlist : ∀ this, jsonWriteVarLst (normList list) this = jsonWriteVarLst list this := by
      induction list with
      | nil => exact fun _ => rfl
      | cons value list ihlist =>
        rw [forall_mem_cons] at ih hvalid
        intro this
        rw [normList, jsonWriteVarLst, jsonWriteVarLst, ih.1 hvalid.1]
        exact congrArg (jsonWriteVarRecurse value this >>= ·)
          (funext (ihlist ih.2 hvalid.2))
    rw [Variant.norm, jsonWriteVarRecurse, jsonWriteVarRecurse]
    simp only [hlist]
  | hkv pairs ih =>
    obtain ⟨hnodup, hpairs⟩ := hvalid
    rw [validPairs_iff] at hpairs
    have hkeys : strLstSort (sortedKeys pairs) .asc = sortedKeys pairs :=
      strLstSort_asc_of_pairwise (pairwise_sortedKeys hnodup)
    have hvalues : ∀ this, jsonWriteKeys (jsonWriteValues
        ((sortedKeys pairs).map (fun key => (key, (keyValue pairs key).norm)))) (sortedKeys pairs) this
          = jsonWriteKeys (jsonWriteValues pairs) (sortedKeys pairs) this := by
      refine jsonWriteKeys_congr (fun key hkey this => ?_)
      rw [keyValue_norm hkey]
      exact ih _ (keyValue_mem hkey) (hpairs _ (keyValue_mem hkey)).2 this
    rw [Variant.norm_kv, jsonWriteVarRecurse, jsonWriteVarRecurse, kvKeyList_norm, hkeys]
    simp only [hvalues]
    rfl

/-! ## The round trip -/

theorem escape_zeroFree (h : c ≠ '\x00') : '\x00' ∉ (jsonWriteEscape c).getD [c] := by
  unfold jsonWriteEscape
  split
  all_goals first
    | decide
    | exact fun hmem => h (mem_singleton.mp hmem).symm

theorem escapeText_zeroFree (h : '\x00' ∉ value) : '\x00' ∉ escapeText value := by
  unfold escapeText
  rw [mem_flatMap]
  rintro ⟨c, hc, hmem⟩
  exact escape_zeroFree (fun heq => h (heq ▸ hc)) hmem

theorem elements_zeroFree {texts : List Str} (h : ∀ text ∈ texts, '\x00' ∉ text) (first : Bool) :
    '\x00' ∉ elements first texts := by
  induction texts generalizing first with
  | nil => exact not_mem_nil
  | cons text texts ih =>
    rw [forall_mem_cons] at h
    have hlead : '\x00' ∉ (if first then [','] else [] : Str) := by
      cases first <;> decide
    unfold elements
    rw [mem_append, mem_append, not_or, not_or]
    exact ⟨hlead, h.1, ih h.2 true⟩

theorem cvtToZ_zeroFree (value : ℤ) : '\x00' ∉ cvtToZ value := by
  have hdigits : '\x00' ∉ Nat.toDigits 10 value.natAbs :=
    fun hmem => absurd (Nat.isDigit_of_mem_toDigits (by decide) le_rfl hmem) (by decide)
  unfold cvtToZ
  split
  · exact fun hmem => (mem_cons.mp hmem).elim (by decide) hdigits
  · exact hdigits

section

variable (value : Variant) (hvalid : value.Valid)
include hvalid

/-- The text has no zero, so the reader reads to its end. -/
theorem text_zeroFree : '\x00' ∉ value.text := by
  induction value using Variant.induct with
  | hscalar value hscalar =>
    cases value with
    | null => decide
    | bool value => cases value <;> decide
    | int | int64 | uint | uint64 => exact cvtToZ_zeroFree _
    | str value =>
      show '\x00' ∉ '"' :: (escapeText value ++ ['"'])
      rw [mem_cons, mem_append, not_or, not_or]
      exact ⟨by decide, escapeText_zeroFree hvalid.1, by decide⟩
    | varLst | kv => cases hscalar
  | hlist list ih =>
    unfold Variant.Valid at hvalid
    rw [validList_iff] at hvalid
    have htexts : ∀ text ∈ textList list, '\x00' ∉ text := by
      induction list with
      | nil => exact fun _ h => absurd h not_mem_nil
      | cons value list ihlist =>
        rw [forall_mem_cons] at ih hvalid
        exact forall_mem_cons.mpr ⟨ih.1 hvalid.1, ihlist ih.2 hvalid.2⟩
    rw [Variant.text, mem_cons, mem_append, not_or, not_or]
    exact ⟨by decide, elements_zeroFree htexts false, by decide⟩
  | hkv pairs ih =>
    obtain ⟨-, hpairs⟩ := hvalid
    rw [validPairs_iff] at hpairs
    have htexts : ∀ text ∈ (sortedKeys pairs).map
        (fun key => keyText key ++ (keyValue pairs key).text), '\x00' ∉ text := by
      rw [forall_mem_map]
      intro key hkey
      have hmem := keyValue_mem hkey
      have hkeyText : '\x00' ∉ keyText key := by
        show '\x00' ∉ '"' :: (key ++ ['"', ':'])
        rw [mem_cons, mem_append, not_or, not_or]
        exact ⟨by decide, (hpairs _ hmem).1.zeroFree, by decide⟩
      rw [mem_append, not_or]
      exact ⟨hkeyText, ih _ hmem (hpairs _ hmem).2⟩
    rw [Variant.text_kv, mem_cons, mem_append, not_or, not_or]
    exact ⟨by decide, elements_zeroFree htexts false, by decide⟩

theorem jsonFromVar_writes :
    match jsonFromVar value with
    | .error _ => STRING_SIZE_MAX < value.text.length
    | .ok json => json = value.text := by
  have hwrites := jsonWriteVarRecurse_writes value hvalid .top jsonWriteNew ⟨rfl, rfl, rfl⟩
  unfold jsonFromVar
  cases hresult : jsonWriteVarRecurse value jsonWriteNew with
  | error error =>
    rw [hresult] at hwrites
    have hlong : STRING_SIZE_MAX < 0 + ([] ++ value.text).length := hwrites
    rw [Nat.zero_add, nil_append] at hlong
    exact hlong
  | ok this =>
    rw [hresult] at hwrites
    exact hwrites.1

theorem jsonToVar_text : jsonToVar value.text = .ok value.norm := by
  have hnew : jsonReadNew value.text = Place.top.toRead (Place.top.readLead ++ (value.text ++ [])) := by
    have hzero : value.text.takeWhile (fun c => decide (c ≠ '\x00')) = value.text := by
      rw [takeWhile_eq_self_iff]
      intro c hc
      exact decide_eq_true (fun heq => text_zeroFree value hvalid (heq ▸ hc))
    unfold jsonReadNew
    rw [hzero, append_nil]
    rfl
  have hturns : 2 * value.text.length + 1 ≤ (jsonReadNew value.text).turns := by
    rw [hnew, append_nil]
    exact le_rfl
  unfold jsonToVar jsonReadVar
  rw [hnew] at hturns ⊢
  rw [readsText value hvalid .top [] _ hturns nofun]
  rfl

end

/-- **Writing a variant and reading it back** gives the variant with numbers of the
widest type and keys in order, and what is written of this is the same. The text is
written unless it is longer than a string may be. -/
theorem jsonToVar_jsonFromVar (value : Variant) (hvalid : value.Valid) :
    (value.text.length ≤ STRING_SIZE_MAX → jsonFromVar value = .ok value.text) ∧
      ∀ json, jsonFromVar value = .ok json →
        jsonToVar json = .ok value.norm ∧ jsonFromVar value.norm = .ok json := by
  have hwrites := jsonFromVar_writes value hvalid
  refine ⟨fun hlength => ?_, fun json hjson => ?_⟩
  · cases hresult : jsonFromVar value with
    | error error =>
      rw [hresult] at hwrites
      exact absurd hlength (Nat.not_le_of_lt hwrites)
    | ok json =>
      rw [hresult] at hwrites
      rw [show json = value.text from hwrites]
  · rw [hjson] at hwrites
    have hagain : jsonFromVar value.norm = jsonFromVar value := by
      unfold jsonFromVar
      rw [jsonWriteVarRecurse_norm value hvalid]
    obtain rfl : json = value.text := hwrites
    exact ⟨jsonToVar_text value hvalid, hagain.trans hjson⟩

/-- A key/value whose keys are not in order, with a list and an escape. -/
def sampleVariant : Variant :=
  .kv [("b".toList, .int (-1)), ("a".toList, .varLst [.str ['"', 'x'], .null, .uint 7])]

theorem sampleVariant_valid : sampleVariant.Valid :=
  ⟨by decide, ⟨by decide, by decide, by decide⟩, trivial, ⟨by decide, by decide, by decide⟩,
    ⟨⟨by decide, by decide⟩, trivial, trivial, trivial⟩, trivial⟩

theorem jsonToVar_jsonFromVar_sample :
    (sampleVariant.text.length ≤ STRING_SIZE_MAX →
        jsonFromVar sampleVariant = .ok sampleVariant.text) ∧
      (∀ json, jsonFromVar sampleVariant = .ok json →
        jsonToVar json = .ok sampleVariant.norm ∧ jsonFromVar sampleVariant.norm = .ok json) ∧
      sampleVariant.text = "\x7b\"a\":[\"\\\"x\",null,7],\"b\":-1\x7d".toList :=
  ⟨(jsonToVar_jsonFromVar sampleVariant sampleVariant_valid).1,
    (jsonToVar_jsonFromVar sampleVariant sampleVariant_valid).2, by decide +kernel⟩

/-- Without an escape all characters are copied at the end. -/
theorem jsonWriteStrLoop_noEscape (h : ∀ c ∈ value, jsonWriteEscape c = none)
    (this : JsonWrite) (noEscape : Str) :
    jsonWriteStrLoop this noEscape value = this.cat (noEscape ++ value) := by
  induction value generalizing noEscape with
  | nil => rw [jsonWriteStrLoop, append_nil]
  | cons c value ih =>
    rw [forall_mem_cons] at h
    rw [jsonWriteStrLoop, h.1]
    rw [ih h.2, append_assoc, singleton_append]

/-- **There is no room for the quotes** of a string that is as long as a string may be. -/
theorem jsonFromVar_full (hescape : ∀ c ∈ value, jsonWriteEscape c = none)
    (hlength : value.length = STRING_SIZE_MAX) (json : Str) :
    jsonFromVar (.str value) ≠ .ok json := by
  have hcat : StrBuf.cat ⟨['"'], 63⟩ ([] ++ value)
      = .error ⟨.assertError, "string size must be <= 1073741824 bytes".toList⟩ := by
    have hextra : value.length > 63 := hlength ▸ (by decide)
    have hsize : 1 + value.length > STRING_SIZE_MAX := by omega
    rw [nil_append]
    unfold StrBuf.cat
    rw [if_pos hextra]
    exact if_pos hsize
  intro hok
  obtain ⟨this, hwrite, -⟩ := ok_of_bind hok
  have hloop : jsonWriteVarRecurse (.str value) jsonWriteNew
      = (jsonWriteStrLoop ⟨⟨['"'], 63⟩, none, false, true⟩ [] value >>= fun this => this.cat ['"']) :=
    rfl
  rw [hloop, jsonWriteStrLoop_noEscape hescape] at hwrite
  unfold JsonWrite.cat at hwrite
  rw [hcat] at hwrite
  cases hwrite

/-- A string that fills its type. -/
theorem jsonToVar_jsonFromVar_full :
    ¬ ∀ value : Variant, value.Valid → ∃ json, jsonFromVar value = .ok json ∧
      jsonToVar json = .ok value.norm ∧ jsonFromVar value.norm = .ok json := by
  intro h
  obtain ⟨value, hlength, hall⟩ : ∃ value : Str, value.length = STRING_SIZE_MAX ∧
      ∀ c ∈ value, c = 'a' :=
    ⟨replicate STRING_SIZE_MAX 'a', length_replicate, fun _ => eq_of_mem_replicate⟩
  have hzero : '\x00' ∉ value := fun hmem => absurd (hall _ hmem) (by decide)
  obtain ⟨json, hjson, -⟩ := h (.str value) ⟨hzero, hlength.le⟩
  exact jsonFromVar_full (fun c hc => hall c hc ▸ rfl) hlength json hjson

end PgxBackup
