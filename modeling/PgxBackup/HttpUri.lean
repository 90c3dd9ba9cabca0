import Mathlib.Data.List.Flatten
import Mathlib.Data.List.Sort
import Mathlib.Data.Nat.Digits.Defs
import PgxBackup.KeyValue
import PgxBackup.Text

/-!
# URI encoding and queries

`httpUriEncode` writes every byte that has a meaning in a URI as `%` and two
digits, so what it writes can be split at `&` and `=`. `httpUriDecode` reads
the two characters after a `%` with the number parser of the program, which
also takes a plus sign and one digit.
-/

namespace PgxBackup

open List

/-! ## Numbers -/

def hexDigitValue (c : UInt8) : Option ℕ :=
  if 48 ≤ c ∧ c ≤ 57 then some (c.toNat - 48)
  else if 65 ≤ c ∧ c ≤ 70 then some (c.toNat - 55)
  else if 97 ≤ c ∧ c ≤ 102 then some (c.toNat - 87)
  else none

/-- What follows a plus sign. -/
def skipPlus : Bytes → Bytes
  | 43 :: rest => rest
  | rest => rest

/-- What follows `0x`, if a digit does. -/
def skipHexPrefix : Bytes → Bytes
  | 48 :: x :: digit :: rest =>
    if (x = 120 ∨ x = 88) ∧ (hexDigitValue digit).isSome then digit :: rest else 48 :: x :: digit :: rest
  | rest => rest

/-- `strtoull` with base 16 on a whole string that has no blank and no minus
sign in front. -/
def strtoullBase16 (value : Bytes) : Option ℕ :=
  let digits := skipHexPrefix (skipPlus value)
  if digits = [] then none
  else ((digits.mapM hexDigitValue).map (fun values => Nat.ofDigits 16 values.reverse)).filter (· < 2 ^ 64)

/-- The characters of a byte string in a message. -/
def messageText (s : Bytes) : Str := s.map (fun c => Char.ofNat c.toNat)

/-- `cvtZToUIntBase` with base 16. -/
def cvtZToUIntHex (value : Bytes) : Except Error ℕ :=
  match (strtoullBase16 value).filter (· < 2 ^ 32) with
  | some n => .ok n
  | none => .error ⟨.formatError,
      "unable to convert base 16 string '".toList ++ messageText value ++ "' to unsigned int".toList⟩

/-! ## The model -/

/-- The loop of `httpUriDecode` from a character of the string on. -/
def httpUriDecodeLoop (uri : Bytes) : Bytes → Except Error Bytes
  | [] => .ok []
  | 37 :: a :: b :: rest => do
    let uriChar ← cvtZToUIntHex [a, b]
    return UInt8.ofNat uriChar :: (← httpUriDecodeLoop uri rest)
  | uriChar :: rest =>
    -- the sequence must be exactly three characters
    if uriChar = 37 then
      .error ⟨.formatError, "invalid escape sequence length in '".toList ++ messageText uri ++ "'".toList⟩
    else do return uriChar :: (← httpUriDecodeLoop uri rest)

/-- `httpUriDecode` of a string that is not `NULL`. A build with assertions stops
at `%00`, since `strCatChr` asserts that a character is not zero; this is left out. -/
def httpUriDecode (uri : Bytes) : Except Error Bytes := httpUriDecodeLoop uri uri

/-- A digit of `%02X`. -/
def hexDigitUpper (n : UInt8) : UInt8 := if n < 10 then 48 + n else 55 + n

/-- What `httpUriEncode` writes for a character. -/
def httpUriEncodeChar (path : Bool) (uriChar : UInt8) : Bytes :=
  if (65 ≤ uriChar ∧ uriChar ≤ 90) ∨ (97 ≤ uriChar ∧ uriChar ≤ 122) ∨ (48 ≤ uriChar ∧ uriChar ≤ 57) ∨
      uriChar = 95 ∨ uriChar = 45 ∨ uriChar = 126 ∨ uriChar = 46 ∨ (path ∧ uriChar = 47) then
    [uriChar]
  else [37, hexDigitUpper (uriChar / 16), hexDigitUpper (uriChar % 16)]

/-- `httpUriEncode` of a string that is not `NULL`. -/
def httpUriEncode (uri : Bytes) (path : Bool) : Bytes := uri.flatMap (httpUriEncodeChar path)

/-- `HttpQuery`. -/
structure HttpQuery where
  kv : List (Bytes × Bytes)
  redactList : Option (List Bytes)

/-- `httpQueryAdd`, on the key values. -/
def httpQueryAdd (kv : List (Bytes × Bytes)) (key value : Bytes) : Except Error (List (Bytes × Bytes)) :=
  if (kvGet kv key).isSome then
    .error ⟨.assertError, "key '".toList ++ messageText key ++ "' already exists".toList⟩
  else .ok (kvPut kv key value)

/-- `httpQueryList`: the keys in the order of `strcmp`. -/
def httpQueryList (this : HttpQuery) : List Bytes := (kvKeyList this.kv).insertionSort (· ≤ ·)

/-- A turn of the loop of `httpQueryNewStr`. -/
def httpQueryNewStrPair (query : Bytes) (kv : List (Bytes × Bytes)) (keyValue : Bytes) :
    Except Error (List (Bytes × Bytes)) :=
  match keyValue.splitOn 61 with
  | [key, value] => do httpQueryAdd kv (← httpUriDecode key) (← httpUriDecode value)
  | _ => .error ⟨.formatError, "invalid key/value '".toList ++ messageText keyValue ++ "' in query '".toList
      ++ messageText query ++ "'".toList⟩

/-- `httpQueryNewStr`. -/
def httpQueryNewStr (query : Bytes) : Except Error HttpQuery := do
  let query := if [63].isPrefixOf query then query.drop 1 else query
  return ⟨← (query.splitOn 38).foldlM (httpQueryNewStrPair query) [], none⟩

/-- What `httpQueryRender` writes for a key. -/
def httpQueryRenderKey (this : HttpQuery) (redact : Bool) (key : Bytes) : Bytes :=
  httpUriEncode key false ++ [61] ++
    -- "<redacted>"
    if redact ∧ key ∈ this.redactList.getD [] then [60, 114, 101, 100, 97, 99, 116, 101, 100, 62]
    else httpUriEncode ((kvGet this.kv key).getD []) false

/-- `httpQueryRender`. A query without keys is rendered as `NULL`. -/
def httpQueryRender (this : HttpQuery) (redact : Bool) : Option Bytes :=
  if httpQueryList this = [] then none
  else some ((httpQueryList this).foldl
    (fun result key => (if result ≠ [] then result ++ [38] else result) ++ httpQueryRenderKey this redact key) [])

/-! ## Encoding and decoding -/

variable {uri text rest : Bytes} {path : Bool} {c : UInt8}

/-- A property of bytes that is checked for each of them. -/
theorem forall_byte {P : UInt8 → Prop} (h : ∀ n < 256, P (UInt8.ofNat n)) (c : UInt8) : P c :=
  UInt8.ofNat_toNat (x := c) ▸ h c.toNat c.toNat_lt

theorem hexDigitUpper_value (c : UInt8) :
    hexDigitValue (hexDigitUpper (c / 16)) = some (c.toNat / 16) ∧
      hexDigitValue (hexDigitUpper (c % 16)) = some (c.toNat % 16) := by
  revert c
  exact forall_byte (by decide +kernel)

/-- A digit is neither a plus sign nor an escape, and is below 16. -/
theorem hexDigitValue_some {n : ℕ} (h : hexDigitValue c = some n) : c ≠ 43 ∧ c ≠ 37 ∧ n < 16 := by
  have hall : ∀ c : UInt8, ∀ n ∈ hexDigitValue c, c ≠ 43 ∧ c ≠ 37 ∧ n < 16 :=
    forall_byte (by decide +kernel)
  exact hall c n h

/-- **What the number parser makes of two characters**: two digits, or a plus
sign and a digit. -/
theorem strtoullBase16_pair (a b : UInt8) :
    strtoullBase16 [a, b] = if a = 43 then hexDigitValue b
      else (hexDigitValue a).bind fun x => (hexDigitValue b).map fun y => 16 * x + y := by
  split
  · subst a
    cases hb : hexDigitValue b with
    | none => simp [strtoullBase16, skipPlus, skipHexPrefix, hb]
    | some y =>
      have hlt := (hexDigitValue_some hb).2.2
      simp [strtoullBase16, skipPlus, skipHexPrefix, hb, Option.filter]
      omega
  · rename_i ha
    have hplus : skipPlus [a, b] = [a, b] := by
      unfold skipPlus
      split
      · rename_i heq
        exact absurd (cons.inj heq).1 ha
      · rfl
    have hprefix : skipHexPrefix [a, b] = [a, b] := by
      unfold skipHexPrefix
      split
      · rename_i heq
        cases congrArg length heq
      · rfl
    cases hx : hexDigitValue a with
    | none => simp [strtoullBase16, hplus, hprefix, hx]
    | some x =>
      cases hy : hexDigitValue b with
      | none => simp [strtoullBase16, hplus, hprefix, hx, hy]
      | some y =>
        have hlt := And.intro (hexDigitValue_some hx).2.2 (hexDigitValue_some hy).2.2
        simp [strtoullBase16, hplus, hprefix, hx, hy, Nat.ofDigits, Option.filter]
        omega

theorem cvtZToUIntHex_pair (a b : UInt8) {n : ℕ} : cvtZToUIntHex [a, b] = .ok n ↔ strtoullBase16 [a, b] = some n := by
  have hlt (m : ℕ) (h : strtoullBase16 [a, b] = some m) : m < 2 ^ 32 := by
    rw [strtoullBase16_pair] at h
    split at h
    · have := hexDigitValue_some h
      omega
    · obtain ⟨x, hx, h⟩ := Option.bind_eq_some_iff.mp h
      obtain ⟨y, hy, rfl⟩ := Option.map_eq_some_iff.mp h
      have := And.intro (hexDigitValue_some hx).2.2 (hexDigitValue_some hy).2.2
      omega
  unfold cvtZToUIntHex
  cases h : strtoullBase16 [a, b] with
  | none => simp
  | some m =>
    have hfilter : (some m).filter (· < 2 ^ 32) = some m := Option.filter_some_pos (by simpa using hlt m h)
    rw [hfilter]
    simp

/-- **Decoding undoes encoding**, byte by byte. -/
theorem httpUriDecodeLoop_encodeChar (c : UInt8) :
    httpUriDecodeLoop uri (httpUriEncodeChar path c ++ rest) = (httpUriDecodeLoop uri rest).map (c :: ·) := by
  unfold httpUriEncodeChar
  split
  · rename_i hverbatim
    have hne : c ≠ 37 := by
      rintro rfl
      exact absurd hverbatim (by cases path <;> decide)
    rw [singleton_append, httpUriDecodeLoop, if_neg hne]
    · rfl
    · exact fun _ _ _ hescape => absurd hescape hne
  · have hvalue := hexDigitUpper_value c
    have hread : cvtZToUIntHex [hexDigitUpper (c / 16), hexDigitUpper (c % 16)] = .ok c.toNat := by
      rw [cvtZToUIntHex_pair, strtoullBase16_pair, if_neg (hexDigitValue_some hvalue.1).1, hvalue.1, hvalue.2]
      exact congrArg some (Nat.div_add_mod _ _)
    show httpUriDecodeLoop uri (37 :: _ :: _ :: rest) = _
    rw [httpUriDecodeLoop, hread]
    show (httpUriDecodeLoop uri rest >>= fun decoded => _) = _
    rw [UInt8.ofNat_toNat]
    rfl

/-- **Decoding undoes encoding.** -/
theorem httpUriDecode_encode (s : Bytes) (path : Bool) : httpUriDecode (httpUriEncode s path) = .ok s := by
  have hloop (uri : Bytes) : httpUriDecodeLoop uri (httpUriEncode s path) = .ok s := by
    induction s with
    | nil => rfl
    | cons c s ih =>
      show httpUriDecodeLoop uri (httpUriEncodeChar path c ++ httpUriEncode s path) = _
      rw [httpUriDecodeLoop_encodeChar, ih]
      rfl
  exact hloop _

/-! ## What decodes -/

/-- **Each escape of a text is followed by two characters that are allowed.** -/
def EachEscape (allowed : UInt8 → UInt8 → Prop) (uri : Bytes) : Prop :=
  ∀ before after, uri = before ++ 37 :: after → ∃ a b rest, after = a :: b :: rest ∧ allowed a b

def TwoHexDigits (a b : UInt8) : Prop := (hexDigitValue a).isSome ∧ (hexDigitValue b).isSome

/-- A plus sign and a hexadecimal digit. -/
def PlusHexDigit (a b : UInt8) : Prop := a = 43 ∧ (hexDigitValue b).isSome

theorem cvtZToUIntHex_ok (a b : UInt8) :
    (∃ n, cvtZToUIntHex [a, b] = .ok n) ↔ TwoHexDigits a b ∨ PlusHexDigit a b := by
  simp only [cvtZToUIntHex_pair, strtoullBase16_pair, TwoHexDigits, PlusHexDigit]
  split
  · subst a
    cases hexDigitValue b <;> simp
  · cases hexDigitValue a <;> cases hexDigitValue b <;> simp [*]

/-- Neither character of an escape is a `%`. -/
theorem escape_ne {a b : UInt8} (h : TwoHexDigits a b ∨ PlusHexDigit a b) : a ≠ 37 ∧ b ≠ 37 := by
  have hdigit {c : UInt8} (hc : (hexDigitValue c).isSome) : c ≠ 37 := by
    obtain ⟨n, hn⟩ := Option.isSome_iff_exists.mp hc
    exact (hexDigitValue_some hn).2.1
  rcases h with h | h
  · exact ⟨hdigit h.1, hdigit h.2⟩
  · exact ⟨by rw [h.1]; decide, hdigit h.2⟩

variable {allowed : UInt8 → UInt8 → Prop}

theorem eachEscape_cons (hc : c ≠ 37) : EachEscape allowed (c :: text) ↔ EachEscape allowed text := by
  constructor
  · intro h before after heq
    exact h (c :: before) after (by rw [heq]; rfl)
  · intro h before after heq
    cases before with
    | nil => exact absurd (cons.inj heq).1 hc
    | cons _ before => exact h before after (cons.inj heq).2

theorem eachEscape_escape : EachEscape allowed (37 :: text) ↔
    (∃ a b rest, text = a :: b :: rest ∧ allowed a b) ∧ EachEscape allowed text := by
  constructor
  · exact fun h => ⟨h [] text rfl, fun before after heq => h (37 :: before) after (by rw [heq]; rfl)⟩
  · rintro ⟨hfirst, h⟩ before after heq
    cases before with
    | nil => exact (cons.inj heq).2 ▸ hfirst
    | cons _ before => exact h before after (cons.inj heq).2

/-- **What decodes**: texts whose escapes are two digits, or a plus sign and a
digit. -/
theorem httpUriDecodeLoop_ok (uri text : Bytes) :
    (∃ s, httpUriDecodeLoop uri text = .ok s) ↔ EachEscape (fun a b => TwoHexDigits a b ∨ PlusHexDigit a b) text := by
  induction text using httpUriDecodeLoop.induct with
  | case1 => exact iff_of_true ⟨[], rfl⟩ (fun before _ heq => absurd heq (by cases before <;> nofun))
  | case2 a b rest ih =>
    have hescape : (∃ s, httpUriDecodeLoop uri (37 :: a :: b :: rest) = .ok s) ↔
        (∃ n, cvtZToUIntHex [a, b] = .ok n) ∧ ∃ s, httpUriDecodeLoop uri rest = .ok s := by
      rw [httpUriDecodeLoop]
      cases cvtZToUIntHex [a, b] with
      | error => exact iff_of_false (fun ⟨_, h⟩ => absurd h nofun) (fun ⟨⟨_, h⟩, _⟩ => absurd h nofun)
      | ok n => cases httpUriDecodeLoop uri rest <;> simp [bind, Except.bind, pure, Except.pure]
    rw [hescape, cvtZToUIntHex_ok, ih, eachEscape_escape]
    constructor
    · exact fun ⟨hallowed, hrest⟩ => ⟨⟨a, b, rest, rfl, hallowed⟩,
        (eachEscape_cons (escape_ne hallowed).1).mpr ((eachEscape_cons (escape_ne hallowed).2).mpr hrest)⟩
    · rintro ⟨⟨_, _, _, heq, hallowed⟩, hrest⟩
      obtain ⟨rfl, rfl, rfl⟩ : a = _ ∧ b = _ ∧ rest = _ :=
        ⟨(cons.inj heq).1, (cons.inj (cons.inj heq).2).1, (cons.inj (cons.inj heq).2).2⟩
      exact ⟨hallowed, (eachEscape_cons (escape_ne hallowed).2).mp ((eachEscape_cons (escape_ne hallowed).1).mp hrest)⟩
  | case3 rest hshort =>
    refine iff_of_false ?_ (fun h => ?_)
    · rw [httpUriDecodeLoop, if_pos rfl]
      · exact fun ⟨_, h⟩ => absurd h nofun
      · exact fun a b rest' _ heq => hshort a b rest' rfl heq
    · obtain ⟨a, b, rest', heq, -⟩ := (eachEscape_escape.mp h).1
      exact hshort a b rest' rfl heq
  | case4 c rest hshort hne ih =>
    rw [eachEscape_cons hne, ← ih, httpUriDecodeLoop, if_neg hne]
    · cases httpUriDecodeLoop uri rest <;> simp [bind, Except.bind, pure, Except.pure]
    · exact hshort

theorem not_twoHexDigits {a b : UInt8} (h : PlusHexDigit a b) : ¬ TwoHexDigits a b := by
  rintro ⟨ha, -⟩
  rw [h.1] at ha
  cases ha

/-- **An escape of the text is a plus sign and a digit.** -/
def SomePlusEscape (uri : Bytes) : Prop :=
  ∃ before a b rest, uri = before ++ 37 :: a :: b :: rest ∧ PlusHexDigit a b

/-- Where the escapes are as the decoder wants them, they are digits unless
one has a plus sign. -/
theorem eachEscape_two_iff (h : EachEscape (fun a b => TwoHexDigits a b ∨ PlusHexDigit a b) text) :
    EachEscape TwoHexDigits text ↔ ¬ SomePlusEscape text := by
  constructor
  · rintro htwo ⟨before, a, b, rest, heq, hplus⟩
    obtain ⟨a', b', rest', hafter, hallowed⟩ := htwo before _ heq
    simp only [cons.injEq] at hafter
    rw [← hafter.1, ← hafter.2.1] at hallowed
    exact not_twoHexDigits hplus hallowed
  · intro hnone before after heq
    obtain ⟨a, b, rest, rfl, htwo | hplus⟩ := h before after heq
    · exact ⟨a, b, rest, rfl, htwo⟩
    · exact absurd ⟨before, a, b, rest, heq, hplus⟩ hnone

/-! ## Queries -/

theorem httpUriEncode_separator {s : Bytes} (hc : c ∈ httpUriEncode s false) : c ≠ 38 ∧ c ≠ 61 ∧ c ≠ 63 := by
  have hall : ∀ c : UInt8, ∀ b ∈ httpUriEncodeChar false c, b ≠ 38 ∧ b ≠ 61 ∧ b ≠ 63 :=
    forall_byte (by decide +kernel)
  obtain ⟨b, -, hb⟩ := mem_flatMap.mp hc
  exact hall b c hb

def HttpQuery.value (this : HttpQuery) (key : Bytes) : Bytes := (kvGet this.kv key).getD []

variable {this : HttpQuery}

theorem httpQueryRenderKey_eq (key : Bytes) : httpQueryRenderKey this false key =
    [61].intercalate [httpUriEncode key false, httpUriEncode (this.value key) false] := by
  rw [intercalate_cons_cons, intercalate_singleton]
  rfl

/-- **A rendered key is read back.** -/
theorem httpQueryNewStrPair_renderKey (query : Bytes) (kv : List (Bytes × Bytes)) (key : Bytes) :
    httpQueryNewStrPair query kv (httpQueryRenderKey this false key) = httpQueryAdd kv key (this.value key) := by
  have hsplit : (httpQueryRenderKey this false key).splitOn 61
      = [httpUriEncode key false, httpUriEncode (this.value key) false] := by
    rw [httpQueryRenderKey_eq]
    refine splitOn_intercalate 61 ?_ (cons_ne_nil _ _)
    simpa using ⟨fun h => (httpUriEncode_separator h).2.1 rfl, fun h => (httpUriEncode_separator h).2.1 rfl⟩
  unfold httpQueryNewStrPair
  rw [hsplit]
  simp only [httpUriDecode_encode, ok_bind]

theorem httpQueryRenderKey_separator {key : Bytes} (hc : c ∈ httpQueryRenderKey this false key) :
    c ≠ 38 ∧ c ≠ 63 := by
  rcases mem_append.mp hc with hc | hc
  · rcases mem_append.mp hc with hc | hc
    · exact ⟨(httpUriEncode_separator hc).1, (httpUriEncode_separator hc).2.2⟩
    · rw [mem_singleton.mp hc]
      decide
  · have hc : c ∈ httpUriEncode (this.value key) false := hc
    exact ⟨(httpUriEncode_separator hc).1, (httpUriEncode_separator hc).2.2⟩

theorem httpQueryRenderKey_ne_nil (this : HttpQuery) (key : Bytes) : httpQueryRenderKey this false key ≠ [] := by
  simp [httpQueryRenderKey]

theorem kvGet_map_mk (keys : List Bytes) (value : Bytes → Bytes) (key : Bytes) :
    kvGet (keys.map fun key => (key, value key)) key = if key ∈ keys then some (value key) else none := by
  induction keys with
  | nil => rfl
  | cons other keys ih =>
    rw [map_cons, kvGet, ih]
    by_cases h : other = key
    · rw [if_pos h, if_pos (h ▸ mem_cons_self), h]
    · rw [if_neg h]
      simp only [mem_cons, Ne.symm h, false_or]

/-- The rendered keys with `&` between them. -/
theorem httpQueryRender_eq (hkeys : httpQueryList this ≠ []) :
    httpQueryRender this false
      = some ([38].intercalate ((httpQueryList this).map (httpQueryRenderKey this false))) := by
  have hloop (keys : List Bytes) (acc : Bytes) (hacc : acc ≠ []) :
      keys.foldl (fun result key => (if result ≠ [] then result ++ [38] else result) ++
        httpQueryRenderKey this false key) acc
        = [38].intercalate (acc :: keys.map (httpQueryRenderKey this false)) := by
    induction keys generalizing acc with
    | nil => rw [map_nil, intercalate_singleton]; rfl
    | cons key keys ih =>
      rw [foldl_cons, if_pos hacc, ih _ (by simp [hacc])]
      cases keys with
      | nil => simp [intercalate_cons_cons, intercalate_singleton]
      | cons other keys => simp [intercalate_cons_cons, append_assoc]
  unfold httpQueryRender
  rw [if_neg hkeys]
  obtain ⟨key, keys, hlist⟩ := exists_cons_of_ne_nil hkeys
  rw [hlist, foldl_cons, if_neg (not_not.mpr rfl), nil_append, hloop keys _ (httpQueryRenderKey_ne_nil this key)]
  rfl

/-- The loop adds the keys one after the other, since they are distinct. -/
theorem foldlM_renderKey (query : Bytes) (keys : List Bytes) (kv : List (Bytes × Bytes))
    (hnodup : (kvKeyList kv ++ keys).Nodup) :
    (keys.map (httpQueryRenderKey this false)).foldlM (httpQueryNewStrPair query) kv
      = .ok (kv ++ keys.map fun key => (key, this.value key)) := by
  induction keys generalizing kv with
  | nil => rw [map_nil, map_nil, append_nil]; rfl
  | cons key keys ih =>
    have hnot : key ∉ kvKeyList kv := fun h => (nodup_append.mp hnodup).2.2 key h key mem_cons_self rfl
    have hadd : httpQueryAdd kv key (this.value key) = .ok (kv ++ [(key, this.value key)]) := by
      rw [httpQueryAdd, kvGet_eq_none_iff.mpr hnot, if_neg (by decide), kvPut_of_not_mem hnot]
    rw [map_cons, foldlM_cons, httpQueryNewStrPair_renderKey, hadd, ok_bind, ih]
    · rw [append_assoc]
      rfl
    · simpa [kvKeyList] using hnodup

/-- **A query is read back from its text.** -/
theorem httpQueryNewStr_render (hempty : this.kv ≠ []) (hnodup : (kvKeyList this.kv).Nodup) :
    ∃ text query, httpQueryRender this false = some text ∧ httpQueryNewStr text = .ok query ∧
      httpQueryNewStr (63 :: text) = .ok query ∧ (kvKeyList query.kv).Perm (kvKeyList this.kv) ∧
      ∀ key, kvGet query.kv key = kvGet this.kv key := by
  have hperm : (httpQueryList this).Perm (kvKeyList this.kv) := perm_insertionSort _ _
  have hkeys : httpQueryList this ≠ [] := fun h => hempty (map_eq_nil_iff.mp (hperm.symm.trans (.of_eq h)).eq_nil)
  have hnodup : (httpQueryList this).Nodup := hperm.nodup_iff.mpr hnodup
  obtain ⟨text, htext⟩ : ∃ text, [38].intercalate ((httpQueryList this).map (httpQueryRenderKey this false)) = text :=
    ⟨_, rfl⟩
  have hread : (text.splitOn 38).foldlM (httpQueryNewStrPair text) []
      = .ok ((httpQueryList this).map fun key => (key, this.value key)) := by
    have hsplit : text.splitOn 38 = (httpQueryList this).map (httpQueryRenderKey this false) := by
      rw [← htext]
      refine splitOn_intercalate 38 (fun piece hpiece hc => ?_) (by simpa using hkeys)
      obtain ⟨key, -, rfl⟩ := mem_map.mp hpiece
      exact (httpQueryRenderKey_separator hc).1 rfl
    rw [hsplit, foldlM_renderKey text (httpQueryList this) [] hnodup, nil_append]
  have hmark : ¬ [63].isPrefixOf text := by
    obtain ⟨key, keys, hlist⟩ := exists_cons_of_ne_nil hkeys
    obtain ⟨c, piece, hpiece⟩ := exists_cons_of_ne_nil (httpQueryRenderKey_ne_nil this key)
    have hmem : c ∈ httpQueryRenderKey this false key := hpiece ▸ mem_cons_self
    have hne := (httpQueryRenderKey_separator hmem).2
    have hhead : ∃ rest, text = c :: rest := by
      rw [← htext, hlist, map_cons, hpiece]
      cases keys with
      | nil => exact ⟨_, intercalate_singleton⟩
      | cons other keys => exact ⟨_, by rw [map_cons, intercalate_cons_cons]; rfl⟩
    obtain ⟨rest, rfl⟩ := hhead
    simpa [isPrefixOf] using hne.symm
  refine ⟨text, ⟨(httpQueryList this).map fun key => (key, this.value key), none⟩,
    (httpQueryRender_eq hkeys).trans (congrArg some htext), ?_, ?_, ?_, fun key => ?_⟩
  · rw [httpQueryNewStr, if_neg hmark, hread]
    rfl
  · rw [httpQueryNewStr, if_pos (by simp [isPrefixOf])]
    show (do let kv ← (text.splitOn 38).foldlM (httpQueryNewStrPair text) []; return HttpQuery.mk kv none) = _
    rw [hread]
    rfl
  · rw [kvKeyList, map_map]
    exact (map_id _).symm ▸ hperm
  · simp only [kvGet_map_mk, hperm.mem_iff, HttpQuery.value]
    cases hget : kvGet this.kv key with
    | none => rw [if_neg (kvGet_eq_none_iff.mp hget)]
    | some value => rw [if_pos (not_not.mp (mt kvGet_eq_none_iff.mpr (by simp [hget])))]; rfl

/-- **Encoding and queries are reversible, and a text decodes when it should
unless the only fault of its escapes is a plus sign.** -/
theorem httpUri_reversible (text : List UInt8) :
    (∀ s path, httpUriDecode (httpUriEncode s path) = .ok s) ∧
    (((∃ s, httpUriDecode text = .ok s) ↔ EachEscape TwoHexDigits text) ↔
      ¬ (EachEscape (fun a b => TwoHexDigits a b ∨ PlusHexDigit a b) text ∧ SomePlusEscape text)) ∧
    ∀ this : HttpQuery, this.kv ≠ [] → (kvKeyList this.kv).Nodup →
      ∃ text query, httpQueryRender this false = some text ∧ httpQueryNewStr text = .ok query ∧
        httpQueryNewStr (63 :: text) = .ok query ∧ (kvKeyList query.kv).Perm (kvKeyList this.kv) ∧
        ∀ key, kvGet query.kv key = kvGet this.kv key := by
  refine ⟨httpUriDecode_encode, ?_, fun _ => httpQueryNewStr_render⟩
  rw [httpUriDecode, httpUriDecodeLoop_ok]
  by_cases h : EachEscape (fun a b => TwoHexDigits a b ∨ PlusHexDigit a b) text
  · rw [eachEscape_two_iff h]
    simp only [h, true_iff, true_and]
  · have htwo : ¬ EachEscape TwoHexDigits text := fun htwo => h fun before after heq => by
      obtain ⟨a, b, rest, hafter, hallowed⟩ := htwo before after heq
      exact ⟨a, b, rest, hafter, .inl hallowed⟩
    simp only [h, htwo, false_and, not_false_iff, iff_self]

theorem httpUri_reversible_sample :
    ∃ text query, httpQueryRender ⟨[([98], [38]), ([97], [])], none⟩ false = some text ∧
      httpQueryNewStr text = .ok query ∧ httpQueryNewStr (63 :: text) = .ok query ∧
      (kvKeyList query.kv).Perm [[98], [97]] ∧
      ∀ key, kvGet query.kv key = kvGet [([98], [38]), ([97], [])] key :=
  (httpUri_reversible []).2.2 ⟨[([98], [38]), ([97], [])], none⟩ (by decide) (by decide)

/-- `%+5` is taken for the byte 5. -/
theorem httpUriDecode_plus :
    ¬ ((∃ s, httpUriDecode [37, 43, 53] = .ok s) ↔ EachEscape TwoHexDigits [37, 43, 53]) := by
  intro h
  obtain ⟨a, b, rest, heq, hallowed⟩ := h.mp ⟨[5], by decide +kernel⟩ [] [43, 53] rfl
  simp only [cons.injEq] at heq
  rw [← heq.1] at hallowed
  cases hallowed.1

end PgxBackup
