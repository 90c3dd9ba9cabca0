import Mathlib.Data.List.DropRight
import PgxBackup.JsonRead

/-!
# Reading and skipping values

`jsonReadVar` and `jsonReadSkip` recurse over arrays and objects. A value takes
at least one character, so the length of the text bounds the turns of both
(`jsonReadVarRecurse_post`, `jsonReadSkipRecurse_post`).
-/

namespace PgxBackup

open List

def JsonReadNumberResult.toVariant : JsonReadNumberResult → Variant
  | .u64 value => .uint64 value
  | .i64 value => .int64 value

/-- The variant of a string that may be `NULL`. -/
def varNewStr : Option Str → Variant
  | none => .null
  | some value => .str value

mutual

/-- `jsonReadVarRecurse`. -/
def jsonReadVarRecurse : ℕ → JsonRead → Except JsonStop (Variant × JsonRead)
  | 0, _ => .error .turns
  | turns + 1, this => do
    let (type, this) ← jsonReadTypeNextIgnoreComma this
    match type with
    | .bool =>
      let (value, this) ← jsonReadBool this
      .ok (.bool value, this)
    | .null =>
      let this ← jsonReadNull this
      .ok (.null, this)
    | .number =>
      let this ← jsonReadPush this .number false
      let (number, this) ← jsonReadNumber this
      .ok (number.toVariant, this)
    | .string =>
      let (string, this) ← jsonReadStr this
      .ok (varNewStr string, this)
    | .arrayBegin =>
      let this ← jsonReadArrayBegin this
      let (list, this) ← jsonReadVarLstLoop turns this
      let this ← jsonReadArrayEnd this
      .ok (.varLst list, this)
    | .arrayEnd | .objectBegin | .objectEnd =>
      let this ← jsonReadObjectBegin this
      let (kv, this) ← jsonReadKvLoop turns [] this
      let this ← jsonReadObjectEnd this
      .ok (.kv kv, this)

/-- The values of an array. -/
def jsonReadVarLstLoop : ℕ → JsonRead → Except JsonStop (List Variant × JsonRead)
  | 0, _ => .error .turns
  | turns + 1, this => do
    let (type, this) ← jsonReadTypeNextIgnoreComma this
    if type = .arrayEnd then .ok ([], this)
    else
      let (value, this) ← jsonReadVarRecurse turns this
      let (list, this) ← jsonReadVarLstLoop turns this
      .ok (value :: list, this)

/-- The keys and values of an object. -/
def jsonReadKvLoop :
    ℕ → List (Str × Variant) → JsonRead → Except JsonStop (List (Str × Variant) × JsonRead)
  | 0, _, _ => .error .turns
  | turns + 1, kv, this => do
    let (type, this) ← jsonReadTypeNextIgnoreComma this
    if type = .objectEnd then .ok (kv, this)
    else
      let (key, this) ← jsonReadKey this
      let (value, this) ← jsonReadVarRecurse turns this
      jsonReadKvLoop turns (kvPut kv key value) this

end

mutual

/-- `jsonReadSkipRecurse`. -/
def jsonReadSkipRecurse : ℕ → JsonRead → Except JsonStop JsonRead
  | 0, _ => .error .turns
  | turns + 1, this => do
    let (type, this) ← jsonReadTypeNextIgnoreComma this
    match type with
    | .bool =>
      let (_, this) ← jsonReadBool this
      .ok this
    | .null => jsonReadNull this
    | .number =>
      let this ← jsonReadPush this .number false
      let (_, this) ← jsonReadNumber this
      .ok this
    | .string =>
      let this ← jsonReadPush this .string false
      jsonReadSkipStr this
    | .arrayBegin =>
      let this ← jsonReadArrayBegin this
      let this ← jsonReadSkipLstLoop turns this
      jsonReadArrayEnd this
    | .arrayEnd | .objectBegin | .objectEnd =>
      let this ← jsonReadObjectBegin this
      let this ← jsonReadSkipKvLoop turns this
      jsonReadObjectEnd this

/-- Skip the values of an array. -/
def jsonReadSkipLstLoop : ℕ → JsonRead → Except JsonStop JsonRead
  | 0, _ => .error .turns
  | turns + 1, this => do
    let (type, this) ← jsonReadTypeNextIgnoreComma this
    if type = .arrayEnd then .ok this
    else
      let this ← jsonReadSkipRecurse turns this
      jsonReadSkipLstLoop turns this

/-- Skip the keys and values of an object. -/
def jsonReadSkipKvLoop : ℕ → JsonRead → Except JsonStop JsonRead
  | 0, _ => .error .turns
  | turns + 1, this => do
    let (type, this) ← jsonReadTypeNextIgnoreComma this
    if type = .objectEnd then .ok this
    else
      let this ← jsonReadPush this .string true
      let this ← jsonReadSkipStr this
      let this ← jsonReadColon this "expected : after key".toList
      let this ← jsonReadSkipRecurse turns this
      jsonReadSkipKvLoop turns this

end

/-- Turns that are enough for a text. -/
def JsonRead.turns (this : JsonRead) : ℕ := 2 * this.json.length + 1

/-- `jsonReadVar`. -/
def jsonReadVar (this : JsonRead) : Except JsonStop (Variant × JsonRead) :=
  jsonReadVarRecurse this.turns this

/-- `jsonReadSkip`. -/
def jsonReadSkip (this : JsonRead) : Except JsonStop JsonRead :=
  jsonReadSkipRecurse this.turns this

/-- `jsonToVar`. -/
def jsonToVar (json : Str) : Except JsonStop Variant :=
  (jsonReadVar (jsonReadNew json)).map Prod.fst

/-- `jsonValidate`. -/
def jsonValidate (json : Str) : Except JsonStop Unit := do
  let this ← jsonReadSkip (jsonReadNew json)
  let this := jsonReadConsumeWhiteSpace this
  if this.json ≠ [] then jsonThrow ("characters after JSON at: ".toList ++ this.json)
  else .ok ()

/-! ## Enough turns -/

/-- The ways in which a read may stop: it throws, or it goes behind the terminating
zero if it may. -/
def JsonStop.Allowed (mayOverrun : Bool) : JsonStop → Prop
  | .throw _ => True
  | .overrun => mayOverrun = true
  | .turns => False

/-- What holds after a read that succeeds, and how a read stops that does not. -/
def Post {α : Type} (mayOverrun : Bool) (P : α → Prop) : Except JsonStop α → Prop
  | .error stop => stop.Allowed mayOverrun
  | .ok a => P a

section Post

variable {α β : Type} {b : Bool} {P : α → Prop} {Q : β → Prop} {x : Except JsonStop α}

variable {f : α → Except JsonStop β}

theorem Post.bind (h : Post b P x) (hnext : ∀ a, P a → Post b Q (f a)) :
    Post b Q (x >>= f) := by
  cases x with
  | error stop => exact h
  | ok a => exact hnext a h

theorem Post.map {f : α → β} (h : Post b P x) (hnext : ∀ a, P a → Q (f a)) : Post b Q (x.map f) := by
  cases x with
  | error stop => exact h
  | ok a => exact hnext a h

theorem Post.mono {Q : α → Prop} (h : Post b P x) (himp : ∀ a, P a → Q a) : Post b Q x := by
  cases x with
  | error stop => exact h
  | ok a => exact himp a h

theorem Post.throw (error : Error) : Post b P (.error (.throw error)) := trivial

theorem Post.cvt (result : Except Error α) : Post b (fun _ => True) (cvt result) := by
  cases result with
  | error error => exact .throw error
  | ok a => trivial

/-- The second of two steps may go behind the terminating zero. -/
theorem Post.overrun_bind (h : Post false P x) :
    (x >>= f) = .error .overrun ↔ ∃ a, x = .ok a ∧ f a = .error .overrun := by
  cases x with
  | error stop =>
    refine iff_of_false (fun heq => ?_) (fun ⟨_, heq, _⟩ => absurd heq nofun)
    obtain rfl : stop = .overrun := Except.error.inj heq
    cases h
  | ok a => exact ⟨fun heq => ⟨a, rfl, heq⟩, fun ⟨_, hok, heq⟩ => Except.ok.inj hok ▸ heq⟩

theorem overrun_bind :
    (x >>= f) = .error .overrun ↔
      x = .error .overrun ∨ ∃ a, x = .ok a ∧ f a = .error .overrun := by
  cases x with
  | error stop =>
    refine ⟨fun h => .inl (congrArg _ (Except.error.inj h)), fun h => h.elim (fun h => ?_) ?_⟩
    · exact congrArg _ (Except.error.inj h)
    · exact fun ⟨_, heq, _⟩ => absurd heq nofun
  | ok a =>
    refine ⟨fun heq => .inr ⟨a, rfl, heq⟩, fun h => h.elim nofun (fun ⟨_, hok, heq⟩ => ?_)⟩
    exact Except.ok.inj hok ▸ heq

theorem Post.ne_overrun (h : Post false P x) : x ≠ .error .overrun := by
  rintro rfl
  cases h

end Post

section Turns

variable {b : Bool} {this : JsonRead}

theorem length_consumeWhiteSpace (this : JsonRead) :
    (jsonReadConsumeWhiteSpace this).json.length ≤ this.json.length :=
  (dropWhile_suffix _).length_le

theorem jsonReadTypeNext_post (this : JsonRead) :
    Post b (fun result => result.2 = jsonReadConsumeWhiteSpace this ∧ result.2.json ≠ [])
      (jsonReadTypeNext this) := by
  unfold jsonReadTypeNext
  dsimp only
  cases hjson : (jsonReadConsumeWhiteSpace this).json with
  | nil => exact .throw _
  | cons c json =>
    dsimp only
    cases jsonTypeOf c with
    | none => exact .throw _
    | some type => exact ⟨rfl, fun hnil => absurd (hjson.symm.trans hnil) nofun⟩

theorem jsonReadTypeNextIgnoreComma_post (this : JsonRead) :
    Post b (fun result => result.2 = jsonReadConsumeWhiteSpace this ∧ result.2.json ≠ [])
      (jsonReadTypeNextIgnoreComma this) := by
  unfold jsonReadTypeNextIgnoreComma
  by_cases hcomma : (jsonReadConsumeWhiteSpace this).json.head? = some ','
  · rw [if_pos hcomma]
    refine (jsonReadTypeNext_post _).map (fun _ _ => ⟨rfl, fun hnil => ?_⟩)
    rw [hnil] at hcomma
    cases hcomma
  · rw [if_neg hcomma]
    refine (jsonReadTypeNext_post _).mono (fun result h => ⟨h.1.trans ?_, h.2⟩)
    unfold jsonReadConsumeWhiteSpace
    rw [dropWhile_idempotent]

theorem jsonReadTypeNextIgnoreComma_again {next : JsonRead} {type : JsonType}
    (h : jsonReadTypeNextIgnoreComma this = .ok (type, next)) :
    jsonReadTypeNextIgnoreComma next = .ok (type, next) := by
  have hpost := jsonReadTypeNextIgnoreComma_post (b := true) this
  rw [h] at hpost
  obtain rfl : next = jsonReadConsumeWhiteSpace this := hpost.1
  have hagain : jsonReadConsumeWhiteSpace (jsonReadConsumeWhiteSpace this)
      = jsonReadConsumeWhiteSpace this := by
    unfold jsonReadConsumeWhiteSpace
    rw [dropWhile_idempotent]
  unfold jsonReadTypeNextIgnoreComma at h ⊢
  rw [hagain]
  exact h

/-- A read goes on behind a character. -/
def LeavesChar (this next : JsonRead) : Prop := next.json.tail.length < this.json.length

theorem LeavesChar.of_ne_nil {next : JsonRead} (hne : next.json ≠ [])
    (hle : next.json.length ≤ this.json.length) : LeavesChar this next := by
  unfold LeavesChar
  rw [length_tail]
  have hpos := length_pos_of_ne_nil hne
  omega

section

variable (this : JsonRead)

theorem jsonReadPushKey_post (item : JsonReadStack) (key : Bool) :
    Post b (fun next => next.json = this.json) (jsonReadPushKey this item key) := by
  unfold jsonReadPushKey
  split
  · split
    · exact .throw _
    · exact rfl
  · split
    · split
      · exact rfl
      · exact .throw _
    · exact rfl

theorem jsonReadPushComma_post (item : JsonReadStack) (below : List JsonReadStack) (key : Bool)
    (hne : this.json ≠ []) :
    Post b (fun next => next.json.length ≤ this.json.length ∧ LeavesChar this next)
      (jsonReadPushComma this item below key) := by
  unfold jsonReadPushComma
  split
  · split
    · exact .throw _
    · have hle := length_consumeWhiteSpace this.next
      have hpos := length_pos_of_ne_nil hne
      have hnext : this.next.json.length = this.json.length - 1 := length_tail
      refine ⟨by omega, ?_⟩
      unfold LeavesChar
      rw [length_tail]
      omega
  · exact ⟨le_rfl, .of_ne_nil hne le_rfl⟩

theorem jsonReadPushItem_post (key : Bool) (hne : this.json ≠ []) :
    Post b (fun next => next.json.length ≤ this.json.length ∧ LeavesChar this next)
      (jsonReadPushItem this key) := by
  unfold jsonReadPushItem
  split
  · exact ⟨le_rfl, .of_ne_nil hne le_rfl⟩
  · refine (jsonReadPushKey_post _ _ _).bind (fun next hjson => ?_)
    refine (jsonReadPushComma_post next _ _ _ (hjson ▸ hne)).mono (fun _ h => ?_)
    unfold LeavesChar at h ⊢
    rwa [hjson] at h

theorem json_addContainer (type : JsonType) : (this.addContainer type).json = this.json := by
  unfold JsonRead.addContainer
  split <;> rfl

/-- **A push leaves a character** behind which a read goes on. -/
theorem jsonReadPush_post (type : JsonType) (key : Bool) :
    Post b (fun next => next.json.length ≤ this.json.length ∧ LeavesChar this next)
      (jsonReadPush this type key) := by
  unfold jsonReadPush
  split
  · exact .throw _
  · refine (jsonReadTypeNextIgnoreComma_post this).bind (fun result h => ?_)
    obtain ⟨typeActual, next⟩ := result
    obtain ⟨rfl, hne⟩ := h
    have hle := length_consumeWhiteSpace this
    dsimp only at hne ⊢
    split
    · exact .throw _
    · split
      · exact ⟨hle, .of_ne_nil hne hle⟩
      · refine (jsonReadPushItem_post _ _ hne).bind (fun next h => ?_)
        show _ ∧ (_ : List Char).tail.length < _
        rw [json_addContainer]
        exact ⟨h.1.trans hle, lt_of_lt_of_le h.2 hle⟩

theorem jsonReadPop_post (type : JsonType) :
    Post b (fun next => next.json.length ≤ this.json.length ∧ LeavesChar this next)
      (jsonReadPop this type) := by
  unfold jsonReadPop
  split
  · exact .throw _
  · refine (jsonReadTypeNext_post this).bind (fun result h => ?_)
    obtain ⟨typeActual, next⟩ := result
    obtain ⟨rfl, hne⟩ := h
    have hle := length_consumeWhiteSpace this
    dsimp only at hne ⊢
    split
    · exact .throw _
    · have hbehind : LeavesChar this (jsonReadConsumeWhiteSpace this) := .of_ne_nil hne hle
      exact ⟨hle, hbehind⟩

end

/-- A read that is left with less. -/
def Shorter (this next : JsonRead) : Prop := next.json.length < this.json.length

section

variable (this : JsonRead)

theorem jsonReadArrayBegin_post : Post b (Shorter this) (jsonReadArrayBegin this) :=
  (jsonReadPush_post this .arrayBegin false).bind (fun _ h => h.2)

theorem jsonReadArrayEnd_post : Post b (Shorter this) (jsonReadArrayEnd this) :=
  (jsonReadPop_post this .arrayEnd).bind (fun _ h => h.2)

theorem jsonReadObjectBegin_post : Post b (Shorter this) (jsonReadObjectBegin this) :=
  (jsonReadPush_post this .objectBegin false).bind (fun _ h => h.2)

theorem jsonReadObjectEnd_post : Post b (Shorter this) (jsonReadObjectEnd this) :=
  (jsonReadPop_post this .objectEnd).bind (fun _ h => h.2)

end

theorem length_drop_word {word json : Str} (h : word.isPrefixOf json = true) (hne : word ≠ []) :
    (json.drop word.length).length < json.length := by
  have hle := (List.isPrefixOf_iff_prefix.mp h).length_le
  have hpos := length_pos_of_ne_nil hne
  rw [length_drop]
  omega

theorem jsonReadBool_post (this : JsonRead) :
    Post b (fun result => Shorter this result.2) (jsonReadBool this) := by
  refine (jsonReadPush_post this .bool false).bind (fun next h => ?_)
  split
  · rename_i hword
    exact lt_of_lt_of_le (length_drop_word hword (by decide)) h.1
  · split
    · rename_i hword
      exact lt_of_lt_of_le (length_drop_word hword (by decide)) h.1
    · exact .throw _

theorem jsonReadNull_post (this : JsonRead) : Post b (Shorter this) (jsonReadNull this) := by
  refine (jsonReadPush_post this .null false).bind (fun next h => ?_)
  split
  · rename_i hword
    exact lt_of_lt_of_le (length_drop_word hword (by decide)) h.1
  · exact .throw _

theorem jsonReadNumber_post (this : JsonRead) :
    Post b (fun result => Shorter this result.2) (jsonReadNumber this) := by
  unfold jsonReadNumber
  dsimp only
  generalize (if this.json.head? = some '-' then ['-'] else []) = sign
  split
  · exact .throw _
  · rename_i hdigits
    split
    · exact .throw _
    · have hshorter : ∀ key, Shorter this ⟨this.json.drop (sign.length
          + ((this.json.drop sign.length).takeWhile Char.isDigit).length), this.stack, key,
          this.complete⟩ := by
        intro key
        have hpos := length_pos_of_ne_nil hdigits
        have hle := List.IsPrefix.length_le
          (List.takeWhile_prefix Char.isDigit (l := this.json.drop sign.length))
        rw [length_drop] at hle
        show (this.json.drop _).length < _
        rw [length_drop]
        omega
      split
      · exact (Post.cvt _).bind (fun _ _ => hshorter _)
      · exact (Post.cvt _).bind (fun _ _ => hshorter _)

theorem jsonReadKeyLoop_post (json : Str) :
    Post b (fun result => result.2.length ≤ json.length) (jsonReadKeyLoop json) := by
  induction json with
  | nil => exact .throw _
  | cons c json ih =>
    unfold jsonReadKeyLoop
    split
    · exact Nat.le_succ _
    · split
      · exact .throw _
      · exact ih.map (fun _ h => Nat.le_succ_of_le h)

theorem jsonReadColon_post (this : JsonRead) (message : Str) :
    Post b (fun next => next.json.length ≤ this.json.length) (jsonReadColon this message) := by
  unfold jsonReadColon
  dsimp only
  split
  · exact .throw _
  · have hle := length_consumeWhiteSpace this
    show (_ : List Char).tail.length ≤ _
    rw [length_tail]
    omega

theorem jsonReadKey_post (this : JsonRead) :
    Post b (fun result => Shorter this result.2) (jsonReadKey this) := by
  refine (jsonReadPush_post this .string true).bind (fun next h => ?_)
  refine (jsonReadKeyLoop_post next.next.json).bind (fun result hkey => ?_)
  obtain ⟨key, json⟩ := result
  refine (jsonReadColon_post _ _).bind (fun last hcolon => ?_)
  exact lt_of_le_of_lt (hcolon.trans hkey) h.2

theorem jsonReadStrLoop_post (result : StrBuf) (noEscape json : Str) :
    Post true (fun result => ∃ body, json = body ++ '"' :: result.2)
      (jsonReadStrLoop result noEscape json) := by
  induction hlength : json.length using Nat.strong_induction_on generalizing result noEscape json with
  | _ n ih =>
    subst hlength
    -- the text of an escape goes in front of what is read after it
    have hread : ∀ (escape json' : Str) (result : StrBuf) (noEscape : Str), escape ≠ [] →
        json = escape ++ json' →
          Post true (fun result => ∃ body, json = body ++ '"' :: result.2)
            (jsonReadStrLoop result noEscape json') := by
      intro escape json' result noEscape hne heq
      have hlt : json'.length < json.length := by
        rw [heq, length_append]
        exact Nat.lt_add_of_pos_left (length_pos_of_ne_nil hne)
      refine (ih _ hlt result noEscape json' rfl).mono (fun result hbody => ?_)
      obtain ⟨body, hbody⟩ := hbody
      exact ⟨escape ++ body, by rw [heq, hbody, append_assoc]⟩
    unfold jsonReadStrLoop
    split
    · exact .throw _
    · exact (Post.cvt _).bind (fun _ _ => ⟨[], rfl⟩)
    · rename_i json
      refine (Post.cvt _).bind (fun result _ => ?_)
      split
      · rename_i json
        refine (Post.cvt _).bind (fun value _ => ?_)
        split
        · rename_i a b json
          refine (Post.cvt _).bind (fun result _ => ?_)
          exact hread ['\\', 'u', '0', '0', a, b] json result [] nofun rfl
        · exact rfl
      · exact .throw _
      · exact .throw _
      · rename_i c json _ _
        split
        · refine (Post.cvt _).bind (fun result _ => ?_)
          exact hread ['\\', c] json result [] nofun rfl
        · exact .throw _
    · rename_i c json _ _
      exact hread [c] json result (noEscape ++ [c]) nofun rfl

theorem jsonReadStr_post (this : JsonRead) :
    Post true (fun result => Shorter this result.2) (jsonReadStr this) := by
  refine (jsonReadTypeNextIgnoreComma_post this).bind (fun result h => ?_)
  obtain ⟨type, next⟩ := result
  obtain ⟨rfl, -⟩ := h
  have hle := length_consumeWhiteSpace this
  dsimp only
  split
  · exact (jsonReadNull_post _).bind (fun _ h => lt_of_lt_of_le h hle)
  · refine (jsonReadPush_post _ .string false).bind (fun next h => ?_)
    refine (jsonReadStrLoop_post _ _ _).bind (fun result hstr => ?_)
    obtain ⟨body, hbody⟩ := hstr
    have hbehind := h.2
    have hlength : next.json.tail.length = _ := congrArg length hbody
    unfold LeavesChar at hbehind
    rw [hlength, length_append, length_cons] at hbehind
    show result.2.length < _
    omega

/-- **Reading a value** takes a character and does not run out of turns. -/
theorem jsonReadVarRecurse_post (turns : ℕ) :
    (∀ this : JsonRead, 2 * this.json.length + 1 ≤ turns →
      Post true (fun result => Shorter this result.2) (jsonReadVarRecurse turns this)) ∧
    (∀ this : JsonRead, 2 * this.json.length + 2 ≤ turns →
      Post true (fun result => result.2.json.length ≤ this.json.length)
        (jsonReadVarLstLoop turns this)) ∧
    ∀ (kv : List (Str × Variant)) (this : JsonRead), 2 * this.json.length + 2 ≤ turns →
      Post true (fun result => result.2.json.length ≤ this.json.length)
        (jsonReadKvLoop turns kv this) := by
  induction turns with
  | zero => exact ⟨fun _ h => absurd h (by omega), fun _ h => absurd h (by omega),
      fun _ _ h => absurd h (by omega)⟩
  | succ turns ih =>
    obtain ⟨ihvalue, ihlist, ihkv⟩ := ih
    refine ⟨fun this hturns => ?_, fun this hturns => ?_, fun kv this hturns => ?_⟩
    · unfold jsonReadVarRecurse
      refine (jsonReadTypeNextIgnoreComma_post this).bind (fun result h => ?_)
      obtain ⟨type, next⟩ := result
      obtain ⟨rfl, -⟩ := h
      have hle := length_consumeWhiteSpace this
      cases type with
      | bool => exact (jsonReadBool_post _).bind (fun _ h => lt_of_lt_of_le h hle)
      | null => exact (jsonReadNull_post _).bind (fun _ h => lt_of_lt_of_le h hle)
      | number =>
        refine (jsonReadPush_post _ .number false).bind (fun next h => ?_)
        exact (jsonReadNumber_post next).bind (fun _ hnumber => lt_of_lt_of_le hnumber (h.1.trans hle))
      | string => exact (jsonReadStr_post _).bind (fun _ h => lt_of_lt_of_le h hle)
      | arrayBegin =>
        refine (jsonReadArrayBegin_post _).bind (fun next hbegin => ?_)
        unfold Shorter at hbegin
        refine (ihlist next (by omega)).bind (fun result hlist => ?_)
        refine (jsonReadArrayEnd_post result.2).bind (fun last hend => ?_)
        unfold Shorter at hend
        show last.json.length < _
        omega
      | arrayEnd | objectBegin | objectEnd =>
        refine (jsonReadObjectBegin_post _).bind (fun next hbegin => ?_)
        unfold Shorter at hbegin
        refine (ihkv [] next (by omega)).bind (fun result hlist => ?_)
        refine (jsonReadObjectEnd_post result.2).bind (fun last hend => ?_)
        unfold Shorter at hend
        show last.json.length < _
        omega
    · unfold jsonReadVarLstLoop
      refine (jsonReadTypeNextIgnoreComma_post this).bind (fun result h => ?_)
      obtain ⟨type, next⟩ := result
      obtain ⟨rfl, -⟩ := h
      have hle := length_consumeWhiteSpace this
      dsimp only
      split
      · exact hle
      · refine (ihvalue _ (by omega)).bind (fun result hvalue => ?_)
        unfold Shorter at hvalue
        refine (ihlist result.2 (by omega)).bind (fun last hlist => ?_)
        show last.2.json.length ≤ _
        omega
    · unfold jsonReadKvLoop
      refine (jsonReadTypeNextIgnoreComma_post this).bind (fun result h => ?_)
      obtain ⟨type, next⟩ := result
      obtain ⟨rfl, -⟩ := h
      have hle := length_consumeWhiteSpace this
      dsimp only
      split
      · exact hle
      · refine (jsonReadKey_post _).bind (fun key hkey => ?_)
        unfold Shorter at hkey
        refine (ihvalue key.2 (by omega)).bind (fun result hvalue => ?_)
        unfold Shorter at hvalue
        refine (ihkv _ result.2 (by omega)).mono (fun last hlist => ?_)
        omega

theorem jsonReadVar_post (this : JsonRead) :
    Post true (fun result => Shorter this result.2) (jsonReadVar this) :=
  (jsonReadVarRecurse_post _).1 this le_rfl

/-! ### Skipping -/

theorem jsonReadSkipStrLoop_post (json : Str) :
    Post true (fun rest => rest.length < json.length) (jsonReadSkipStrLoop json) := by
  induction json using jsonReadSkipStrLoop.induct with
  | case1 => exact .throw _
  | case2 json => exact Nat.lt_succ_self _
  | case3 => exact rfl
  | case4 a b c d hdigits =>
    rw [skipStrLoop_unicode_end hdigits]
    exact rfl
  | case5 a b c d hdigits e json ih =>
    rw [skipStrLoop_unicode hdigits]
    refine ih.mono (fun rest h => lt_of_lt_of_le h ?_)
    simp only [length_cons]
    omega
  | case6 a b c d json hdigits =>
    rw [skipStrLoop_noDigits]
    · exact .throw _
    · rintro a' b' c' d' json' ⟨⟩
      exact hdigits
  | case7 json hshort =>
    rw [skipStrLoop_noDigits (fun a b c d json' heq => (hshort a b c d json' heq).elim)]
    exact .throw _
  | case8 c json hc ih =>
    rw [skipStrLoop_escape hc]
    exact ih.mono (fun rest h => Nat.lt_succ_of_lt (Nat.lt_succ_of_lt h))
  | case9 c json hquote hend _ hescape ih =>
    have hbackslash : c ≠ '\\' := by
      intro heq
      cases json with
      | nil => exact hend heq rfl
      | cons c' json => exact hescape c' json heq rfl
    rw [skipStrLoop_char hquote hbackslash]
    exact ih.mono (fun rest h => Nat.lt_succ_of_lt h)

end Turns

end PgxBackup
