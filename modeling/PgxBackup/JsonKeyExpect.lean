import PgxBackup.JsonSkip

/-!
# Looking keys up in order

`jsonReadKeyExpect` looks a key up among the members of an object that are not
read yet. Members before the key are skipped, and the position is put back when
a member after it was found.

The key that was found is compared up to its own length only, so it matches
every request that it is a prefix of.
-/

namespace PgxBackup

open List

/-- `strncmp` of strings without a zero. -/
def strncmp (a b : Str) (n : ℕ) : ℤ := strCmp (a.take n) (b.take n)

/-- Put the flag of the innermost container back. -/
def JsonRead.setFirst (this : JsonRead) (first : Bool) : JsonRead :=
  match this.stack.getD [] with
  | [] => this
  | item :: below => { this with stack := some ({ item with first := first } :: below) }

/-- Read until object end. -/
def jsonReadKeyExpectLoop (key : Str) : ℕ → JsonRead → Except JsonStop (Bool × JsonRead)
  | 0, _ => .error .turns
  | turns + 1, this => do
    let (type, this) ← jsonReadTypeNextIgnoreComma this
    if type = .objectEnd then .ok (false, this)
    else
      -- save state before reading the key
      let jsonBeforeKey := this.json
      let firstBeforeKey := ((this.stack.getD []).head?.map JsonReadStack.first).getD false
      let this ← jsonReadPush this .string true
      -- get and compare next key
      let (keyNext, this) ← jsonReadKeyZN this
      let compare := strncmp key keyNext keyNext.length
      if compare = 0 then .ok (true, this)
      else if compare < 0 then
        .ok (false, { this with json := jsonBeforeKey, key := false }.setFirst firstBeforeKey)
      else
        -- skip the value and continue
        let this ← jsonReadSkip this
        jsonReadKeyExpectLoop key turns this

/-- `jsonReadKeyExpect`. -/
def jsonReadKeyExpect (this : JsonRead) (key : Str) : Except JsonStop (Bool × JsonRead) :=
  let this := jsonReadConsumeWhiteSpace this
  match this.stack.getD [] with
  | [] => .error (.throw ⟨.assertError, "cannot get last from list with no values".toList⟩)
  | _ :: _ => jsonReadKeyExpectLoop key this.turns this

/-! ## The order of keys -/

section Compare

variable {key keyNext : Str}

/-- **The keys compare equal** if the one that was found is a prefix. -/
theorem strncmp_eq_zero : strncmp key keyNext keyNext.length = 0 ↔ keyNext <+: key := by
  unfold strncmp
  rw [strCmp_eq_zero, take_length, prefix_iff_eq_take, eq_comm]

theorem lt_take {a b : Str} (h : a < b) (hnames : ¬ a <+: b) : a < b.take a.length := by
  induction a generalizing b with
  | nil => exact absurd nil_prefix hnames
  | cons x a ih =>
    cases b with
    | nil => exact absurd h (not_lt_nil _)
    | cons y b =>
      rw [length_cons, take_succ_cons]
      rw [cons_lt_cons_iff] at h ⊢
      refine h.imp_right (fun heq => ⟨heq.1, ih heq.2 (fun hp => hnames ?_)⟩)
      rw [heq.1]
      exact (prefix_cons_inj y).mpr hp

theorem strncmp_neg (h : key < keyNext) : strncmp key keyNext keyNext.length < 0 := by
  have hle : key.take keyNext.length ≤ key :=
    not_lt.mp (List.IsPrefix.le (List.take_prefix keyNext.length key))
  unfold strncmp strCmp
  rw [take_length, if_pos (lt_of_le_of_lt hle h)]
  decide

theorem strncmp_pos (h : keyNext < key) (hnames : ¬ keyNext <+: key) :
    0 < strncmp key keyNext keyNext.length := by
  have hlt := lt_take h hnames
  unfold strncmp strCmp
  rw [take_length, if_neg (not_lt_of_gt hlt), if_pos hlt]
  decide

end Compare

/-! ## A value leaves the containers as they were -/

def InContainer (type : JsonType) (below : List JsonReadStack) (this : JsonRead) : Prop :=
  ∃ first, this.stack = some (⟨type, first⟩ :: below)

section Containers

variable {this next : JsonRead} {type : JsonType} {below : List JsonReadStack}

variable {item : JsonReadStack} {typeNew : JsonType} {first : Bool}

theorem jsonReadPush_ok {key : Bool}
    (hstack : this.stack = some (item :: below)) (h : jsonReadPush this typeNew key = .ok next) :
    this.complete = false ∧ ∃ this', jsonReadTypeNextIgnoreComma this = .ok (typeNew, this') ∧
      ∃ keyed pushed, jsonReadPushKey this' item key = .ok keyed ∧
        jsonReadPushComma keyed item below key = .ok pushed ∧ next = pushed.addContainer typeNew := by
  unfold jsonReadPush at h
  cases hcomplete : this.complete with
  | true =>
    rw [hcomplete] at h
    cases h
  | false =>
    rw [hcomplete, if_neg Bool.false_ne_true] at h
    obtain ⟨⟨typeActual, this'⟩, htype, h⟩ := ok_of_bind h
    have hpost := jsonReadTypeNextIgnoreComma_post (b := true) this
    rw [htype] at hpost
    obtain rfl : this' = jsonReadConsumeWhiteSpace this := hpost.1
    have hstack' : (jsonReadConsumeWhiteSpace this).stack = some (item :: below) := hstack
    dsimp only at h
    by_cases heq : typeActual ≠ typeNew
    · rw [if_pos heq] at h
      cases h
    · rw [if_neg heq, hstack', if_neg (fun hnone => Option.some_ne_none _ hnone.1)] at h
      obtain ⟨pushed, hitem, h⟩ := ok_of_bind h
      unfold jsonReadPushItem at hitem
      rw [hstack'] at hitem
      obtain ⟨keyed, hkey, hcomma⟩ := ok_of_bind hitem
      exact ⟨rfl, _, by rw [htype, not_ne_iff.mp heq], keyed, pushed, hkey, hcomma,
        (Except.ok.inj h).symm⟩

theorem jsonReadPushKey_stack {key : Bool}
    (h : jsonReadPushKey this item key = .ok next) : next.stack = this.stack := by
  unfold jsonReadPushKey at h
  split at h
  · split at h
    · cases h
    · rw [← Except.ok.inj h]
  · split at h
    · split at h
      · rw [← Except.ok.inj h]
      · cases h
    · rw [← Except.ok.inj h]

theorem jsonReadPushComma_ok {key : Bool}
    (hstack : this.stack = some (item :: below)) (h : jsonReadPushComma this item below key = .ok next) :
    next = { this with json := next.json, stack := some ({ item with first := true } :: below) } := by
  unfold jsonReadPushComma at h
  split at h
  · rename_i hfirst
    have hitem : { item with first := true } = item := by
      rw [← Bool.and_elim_left hfirst]
    split at h
    · cases h
    · rw [← Except.ok.inj h, hitem, ← hstack]
      rfl
  · rw [← Except.ok.inj h]

/-- A push marks the innermost container and may put another one on it. -/
theorem jsonReadPush_stack {key : Bool}
    (hstack : this.stack = some (item :: below)) (h : jsonReadPush this typeNew key = .ok next) :
    next.stack = some (if jsonTypeScalar typeNew then { item with first := true } :: below
      else ⟨typeNew, false⟩ :: { item with first := true } :: below) := by
  obtain ⟨-, this', htype, keyed, pushed, hkey, hcomma, rfl⟩ := jsonReadPush_ok hstack h
  have hpost := jsonReadTypeNextIgnoreComma_post (b := true) this
  rw [htype] at hpost
  obtain rfl : this' = jsonReadConsumeWhiteSpace this := hpost.1
  have hkeyed : keyed.stack = some (item :: below) := (jsonReadPushKey_stack hkey).trans hstack
  have hpushed := congrArg JsonRead.stack (jsonReadPushComma_ok hkeyed hcomma)
  unfold JsonRead.addContainer
  split
  · exact hpushed
  · rw [hpushed]
    rfl

section

variable (h : InContainer type below this)
include h

theorem InContainer.typeNext {typeNext : JsonType}
    (htype : jsonReadTypeNextIgnoreComma this = .ok (typeNext, next)) :
    InContainer type below next := by
  have hpost := jsonReadTypeNextIgnoreComma_post (b := true) this
  rw [htype] at hpost
  obtain rfl : next = jsonReadConsumeWhiteSpace this := hpost.1
  exact h

theorem InContainer.scalar {key : Bool} (hscalar : jsonTypeScalar typeNew = true)
    (hpush : jsonReadPush this typeNew key = .ok next) : InContainer type below next := by
  obtain ⟨first, hstack⟩ := h
  have hnext := jsonReadPush_stack hstack hpush
  rw [if_pos hscalar] at hnext
  exact ⟨true, hnext⟩

theorem InContainer.container (hscalar : jsonTypeScalar typeNew = false)
    (hpush : jsonReadPush this typeNew false = .ok next) :
    InContainer typeNew (⟨type, true⟩ :: below) next.next := by
  obtain ⟨first, hstack⟩ := h
  have hnext := jsonReadPush_stack hstack hpush
  rw [hscalar, if_neg Bool.false_ne_true] at hnext
  exact ⟨false, hnext⟩

end

theorem InContainer.pop {typeIn typeEnd : JsonType}
    (h : InContainer typeIn (⟨type, first⟩ :: below) this) (hpop : jsonReadPop this typeEnd = .ok next) :
    InContainer type below next.next := by
  obtain ⟨firstIn, hstack⟩ := h
  unfold jsonReadPop at hpop
  split at hpop
  · cases hpop
  · obtain ⟨⟨typeActual, this'⟩, htype, hpop⟩ := ok_of_bind hpop
    have hpost := jsonReadTypeNext_post (b := true) this
    rw [htype] at hpost
    obtain rfl : this' = jsonReadConsumeWhiteSpace this := hpost.1
    have hstack' : (jsonReadConsumeWhiteSpace this).stack = _ := hstack
    dsimp only at hpop
    split at hpop
    · cases hpop
    · cases hpop
      refine ⟨first, ?_⟩
      show some ((jsonReadConsumeWhiteSpace this).stack.getD []).tail = _
      rw [hstack']
      rfl

section

variable (h : InContainer type below this)
include h

theorem InContainer.bool {value : Bool} (hbool : jsonReadBool this = .ok (value, next)) :
    InContainer type below next := by
  obtain ⟨pushed, hpush, hbool⟩ := ok_of_bind hbool
  have hpushed := h.scalar rfl hpush
  split at hbool
  · cases hbool
    exact hpushed
  · split at hbool
    · cases hbool
      exact hpushed
    · cases hbool

theorem InContainer.null (hnull : jsonReadNull this = .ok next) : InContainer type below next := by
  obtain ⟨pushed, hpush, hnull⟩ := ok_of_bind hnull
  have hpushed := h.scalar rfl hpush
  split at hnull
  · cases hnull
    exact hpushed
  · cases hnull

theorem InContainer.number {number : JsonReadNumberResult}
    (hnumber : jsonReadNumber this = .ok (number, next)) : InContainer type below next := by
  unfold jsonReadNumber at hnumber
  dsimp only at hnumber
  generalize (if this.json.head? = some '-' then ['-'] else []) = sign at hnumber
  split at hnumber
  · cases hnumber
  · split at hnumber
    · cases hnumber
    · split at hnumber
      · obtain ⟨value, -, hnumber⟩ := ok_of_bind hnumber
        cases hnumber
        exact h
      · obtain ⟨value, -, hnumber⟩ := ok_of_bind hnumber
        cases hnumber
        exact h

theorem InContainer.str {string : Option Str} (hstr : jsonReadStr this = .ok (string, next)) :
    InContainer type below next := by
  obtain ⟨⟨typeNext, this'⟩, htype, hstr⟩ := ok_of_bind hstr
  have h' := h.typeNext htype
  dsimp only at hstr
  split at hstr
  · obtain ⟨last, hnull, hstr⟩ := ok_of_bind hstr
    cases hstr
    exact h'.null hnull
  · obtain ⟨pushed, hpush, hstr⟩ := ok_of_bind hstr
    obtain ⟨⟨string, json⟩, -, hstr⟩ := ok_of_bind hstr
    cases hstr
    have hpushed : InContainer type below pushed := h'.scalar rfl hpush
    exact hpushed

end

theorem jsonReadKey_ok {key : Str} (hkey : jsonReadKey this = .ok (key, next)) :
    ∃ pushed, jsonReadPush this .string true = .ok pushed ∧ jsonReadKeyZN pushed = .ok (key, next) ∧
      next = { pushed with json := next.json } := by
  obtain ⟨pushed, hpush, hkey⟩ := ok_of_bind hkey
  refine ⟨pushed, hpush, hkey, ?_⟩
  obtain ⟨⟨key, json⟩, -, hkey⟩ := ok_of_bind hkey
  obtain ⟨last, hcolon, hkey⟩ := ok_of_bind hkey
  cases hkey
  unfold jsonReadColon at hcolon
  dsimp only at hcolon
  split at hcolon
  · cases hcolon
  · cases hcolon
    rfl

theorem InContainer.key {key : Str} (h : InContainer type below this)
    (hkey : jsonReadKey this = .ok (key, next)) : InContainer type below next := by
  obtain ⟨pushed, hpush, -, hnext⟩ := jsonReadKey_ok hkey
  have hpushed : InContainer type below pushed := h.scalar rfl hpush
  rw [hnext]
  exact hpushed

theorem InContainer.arrayBegin (h : InContainer type below this) (hbegin : jsonReadArrayBegin this = .ok next) :
    InContainer .arrayBegin (⟨type, true⟩ :: below) next := by
  obtain ⟨pushed, hpush, hbegin⟩ := ok_of_bind hbegin
  cases hbegin
  exact h.container rfl hpush

theorem InContainer.arrayEnd (h : InContainer .arrayBegin (⟨type, first⟩ :: below) this)
    (hend : jsonReadArrayEnd this = .ok next) : InContainer type below next := by
  obtain ⟨popped, hpop, hend⟩ := ok_of_bind hend
  cases hend
  exact h.pop hpop

theorem InContainer.objectBegin (h : InContainer type below this)
    (hbegin : jsonReadObjectBegin this = .ok next) :
    InContainer .objectBegin (⟨type, true⟩ :: below) next := by
  obtain ⟨pushed, hpush, hbegin⟩ := ok_of_bind hbegin
  cases hbegin
  exact h.container rfl hpush

theorem InContainer.objectEnd (h : InContainer .objectBegin (⟨type, first⟩ :: below) this)
    (hend : jsonReadObjectEnd this = .ok next) : InContainer type below next := by
  obtain ⟨popped, hpop, hend⟩ := ok_of_bind hend
  cases hend
  exact h.pop hpop

/-- **Reading a value leaves the containers** but for the mark of the innermost one. -/
theorem jsonReadVarRecurse_stack (turns : ℕ) :
    (∀ this value next type below, InContainer type below this →
      jsonReadVarRecurse turns this = .ok (value, next) → InContainer type below next) ∧
    (∀ this list next type below, InContainer type below this →
      jsonReadVarLstLoop turns this = .ok (list, next) → InContainer type below next) ∧
    ∀ kv this kv' next type below, InContainer type below this →
      jsonReadKvLoop turns kv this = .ok (kv', next) → InContainer type below next := by
  induction turns with
  | zero =>
    exact ⟨fun _ _ _ _ _ _ h => (nomatch h), fun _ _ _ _ _ _ h => (nomatch h), fun _ _ _ _ _ _ _ h => (nomatch h)⟩
  | succ turns ih =>
    obtain ⟨ihvalue, ihlist, ihkv⟩ := ih
    refine ⟨fun this value next type below hin h => ?_, fun this list next type below hin h => ?_,
      fun kv this kv' next type below hin h => ?_⟩
    · unfold jsonReadVarRecurse at h
      obtain ⟨⟨typeNext, this'⟩, htype, h⟩ := ok_of_bind h
      have hin' := hin.typeNext htype
      cases typeNext with
      | bool =>
        obtain ⟨⟨value, this''⟩, hbool, h⟩ := ok_of_bind h
        cases h
        exact hin'.bool hbool
      | null =>
        obtain ⟨this'', hnull, h⟩ := ok_of_bind h
        cases h
        exact hin'.null hnull
      | number =>
        obtain ⟨pushed, hpush, h⟩ := ok_of_bind h
        obtain ⟨⟨number, this''⟩, hnumber, h⟩ := ok_of_bind h
        cases h
        exact (hin'.scalar rfl hpush).number hnumber
      | string =>
        obtain ⟨⟨string, this''⟩, hstr, h⟩ := ok_of_bind h
        cases h
        exact hin'.str hstr
      | arrayBegin =>
        obtain ⟨begun, hbegin, h⟩ := ok_of_bind h
        obtain ⟨⟨list, looped⟩, hloop, h⟩ := ok_of_bind h
        obtain ⟨last, hend, h⟩ := ok_of_bind h
        cases h
        exact (ihlist _ _ _ _ _ (hin'.arrayBegin hbegin) hloop).arrayEnd hend
      | arrayEnd | objectBegin | objectEnd =>
        obtain ⟨begun, hbegin, h⟩ := ok_of_bind h
        obtain ⟨⟨kv, looped⟩, hloop, h⟩ := ok_of_bind h
        obtain ⟨last, hend, h⟩ := ok_of_bind h
        cases h
        exact (ihkv _ _ _ _ _ _ (hin'.objectBegin hbegin) hloop).objectEnd hend
    · unfold jsonReadVarLstLoop at h
      obtain ⟨⟨typeNext, this'⟩, htype, h⟩ := ok_of_bind h
      have hin' := hin.typeNext htype
      dsimp only at h
      split at h
      · cases h
        exact hin'
      · obtain ⟨⟨value, after⟩, hvalue, h⟩ := ok_of_bind h
        obtain ⟨⟨list, last⟩, hloop, h⟩ := ok_of_bind h
        cases h
        exact ihlist _ _ _ _ _ (ihvalue _ _ _ _ _ hin' hvalue) hloop
    · unfold jsonReadKvLoop at h
      obtain ⟨⟨typeNext, this'⟩, htype, h⟩ := ok_of_bind h
      have hin' := hin.typeNext htype
      dsimp only at h
      split at h
      · cases h
        exact hin'
      · obtain ⟨⟨key, pos⟩, hkey, h⟩ := ok_of_bind h
        obtain ⟨⟨value, after⟩, hvalue, h⟩ := ok_of_bind h
        exact ihkv _ _ _ _ _ _ (ihvalue _ _ _ _ _ (hin'.key hkey) hvalue) h

end Containers

/-! ## Members of an object -/

structure JsonMember where
  key : Str
  /-- The position of its value. -/
  pos : JsonRead
  deriving DecidableEq

/-- **The members that are not read yet**: a key is next, and behind its value the
others, up to the end of the object. -/
inductive Unread : JsonRead → List JsonMember → Prop
  | nil {this next : JsonRead} (htype : jsonReadTypeNextIgnoreComma this = .ok (.objectEnd, next)) :
      Unread this []
  | cons {this next pos rest : JsonRead} {key : Str} {value : Variant} {members : List JsonMember}
      (htype : jsonReadTypeNextIgnoreComma this = .ok (.string, next))
      (hkey : jsonReadKey this = .ok (key, pos)) (hvalue : jsonReadVar pos = .ok (value, rest))
      (hrest : Unread rest members) : Unread this (⟨key, pos⟩ :: members)

def membersAfter (key : Str) (members : List JsonMember) : List JsonMember :=
  members.filter (fun member => decide (key < member.key))

section Expect

variable {this next : JsonRead} {members : List JsonMember} {key : Str}

theorem membersAfter_of_lt (h : ∀ member ∈ members, key < member.key) :
    membersAfter key members = members :=
  filter_eq_self.mpr (fun member hmem => decide_eq_true (h member hmem))

theorem membersAfter_cons {member : JsonMember} (h : ¬ key < member.key) :
    membersAfter key (member :: members) = membersAfter key members :=
  filter_cons_of_neg (fun hlt => h (of_decide_eq_true hlt))

theorem jsonReadKey_typeNext {type : JsonType}
    (htype : jsonReadTypeNextIgnoreComma this = .ok (type, next)) :
    jsonReadKey next = jsonReadKey this := by
  have hagain := jsonReadTypeNextIgnoreComma_again htype
  have hpost := jsonReadTypeNextIgnoreComma_post (b := true) this
  rw [htype] at hpost
  obtain rfl : next = jsonReadConsumeWhiteSpace this := hpost.1
  unfold jsonReadKey jsonReadPush
  rw [hagain, htype]
  rfl

theorem Unread.typeNext {type : JsonType} (h : Unread this members)
    (htype : jsonReadTypeNextIgnoreComma this = .ok (type, next)) : Unread next members := by
  have hagain := jsonReadTypeNextIgnoreComma_again htype
  cases h with
  | nil htype' =>
    cases htype.symm.trans htype'
    exact .nil hagain
  | cons htype' hkey hvalue hrest =>
    cases htype.symm.trans htype'
    exact .cons hagain ((jsonReadKey_typeNext htype).trans hkey) hvalue hrest

/-- **The state is put back** to what it was before the key. -/
theorem setFirst_before {type : JsonType} {below : List JsonReadStack} {pos : JsonRead}
    (hin : InContainer type below this) (htype : jsonReadTypeNextIgnoreComma this = .ok (.string, this))
    (hkey : jsonReadKey this = .ok (key, pos)) :
    { pos with json := this.json, key := false }.setFirst
        (((this.stack.getD []).head?.map JsonReadStack.first).getD false) = this := by
  obtain ⟨first, hstack⟩ := hin
  obtain ⟨pushed, hpush, -, hpos⟩ := jsonReadKey_ok hkey
  obtain ⟨hcomplete, this', htype', keyed, commaed, hkeyed, hcomma, rfl⟩ := jsonReadPush_ok hstack hpush
  obtain rfl : this' = this := (ok_inj (htype'.symm.trans htype)).2
  unfold jsonReadPushKey at hkeyed
  rw [if_pos rfl] at hkeyed
  split at hkeyed
  · cases hkeyed
  · rename_i hflag
    cases hkeyed
    have hstack' : (⟨this'.json, this'.stack, true, this'.complete⟩ : JsonRead).stack
        = some (⟨type, first⟩ :: below) := hstack
    have hcommaed := jsonReadPushComma_ok hstack' hcomma
    have hflag' : false = this'.key := (Bool.eq_false_iff.mpr hflag).symm
    rw [hpos, hcommaed, hstack]
    show (⟨this'.json, some (⟨type, first⟩ :: below), false, this'.complete⟩ : JsonRead) = this'
    rw [← hstack, hflag']

/-- **One turn of the loop** at a member. -/
theorem jsonReadKeyExpectLoop_member {type : JsonType} {below : List JsonReadStack} {pos : JsonRead}
    {keyNext : Str} (hin : InContainer type below this)
    (htype : jsonReadTypeNextIgnoreComma this = .ok (.string, next))
    (hkey : jsonReadKey this = .ok (keyNext, pos)) (turns : ℕ) :
    jsonReadKeyExpectLoop key (turns + 1) this =
      if strncmp key keyNext keyNext.length = 0 then .ok (true, pos)
      else if strncmp key keyNext keyNext.length < 0 then .ok (false, next)
      else jsonReadSkip pos >>= fun this => jsonReadKeyExpectLoop key turns this := by
  have hkey' := (jsonReadKey_typeNext htype).trans hkey
  have hbefore := setFirst_before (hin.typeNext htype) (jsonReadTypeNextIgnoreComma_again htype) hkey'
  obtain ⟨pushed, hpush, hkeyZN, -⟩ := jsonReadKey_ok hkey'
  rw [jsonReadKeyExpectLoop, htype, ok_bind]
  dsimp only
  rw [if_neg nofun, hpush, ok_bind, hkeyZN, ok_bind]
  rw [hbefore]

/-- **What a look-up tells and where it stops**: the key is found if it is one of the
members that are not read yet. Then its value is next, with the members after it
behind, and otherwise all members after the key are still not read. -/
structure LookedUp (members : List JsonMember) (key : Str) (found : Bool) (next : JsonRead) : Prop where
  found_iff : found = true ↔ ∃ member ∈ members, member.key = key
  value_next : found = true → ⟨key, next⟩ ∈ members ∧ ∃ value rest,
    jsonReadVar next = .ok (value, rest) ∧ Unread rest (membersAfter key members)
  unread : found = false → Unread next (membersAfter key members)

/-- A look-up that is exact. -/
def ExactRequest (this : JsonRead) (members : List JsonMember) (key : Str) : Prop :=
  ∃ found next, jsonReadKeyExpect this key = .ok (found, next) ∧ LookedUp members key found next

/-- No member that is left is named by a proper prefix of the key. -/
def NoPrefix (members : List JsonMember) (key : Str) : Prop :=
  ∀ member ∈ members, member.key <+: key → member.key = key

/-- The values of the members before a key can be skipped. -/
def PassesBefore (members : List JsonMember) (key : Str) : Prop :=
  ∀ member ∈ members, member.key < key → Passes member.pos.turns member.pos

section

variable {type : JsonType} {below : List JsonReadStack} (hunread : Unread this members)
  (hin : InContainer type below this) (hsorted : members.Pairwise (fun a b => a.key < b.key))
  (hnames : NoPrefix members key) (hpasses : PassesBefore members key)
include hunread hin hsorted hnames hpasses

/-- The loop finds the key or stops before the members after it. -/
theorem jsonReadKeyExpectLoop_exact :
    ∀ turns, this.json.length < turns → ∃ found next,
      jsonReadKeyExpectLoop key turns this = .ok (found, next) ∧ LookedUp members key found next ∧
        InContainer type below next := by
  induction hunread with
  | @nil this next htype =>
    intro turns hturns
    obtain ⟨turns, rfl⟩ : ∃ n, turns = n + 1 := ⟨turns - 1, by omega⟩
    refine ⟨false, next, ?_, ⟨?_, nofun, fun _ => .nil (jsonReadTypeNextIgnoreComma_again htype)⟩,
      hin.typeNext htype⟩
    · unfold jsonReadKeyExpectLoop
      rw [htype]
      rfl
    · exact iff_of_false nofun (fun ⟨_, hmem, _⟩ => absurd hmem not_mem_nil)
  | @cons this next pos rest keyNext value members htype hkey hvalue hrest ih =>
    intro turns hturns
    obtain ⟨turns, rfl⟩ : ∃ n, turns = n + 1 := ⟨turns - 1, by omega⟩
    rw [pairwise_cons] at hsorted
    have hshorter : rest.json.length < this.json.length := by
      have hkeyShorter := jsonReadKey_post (b := true) this
      have hvalueShorter := jsonReadVar_post pos
      rw [hkey] at hkeyShorter
      rw [hvalue] at hvalueShorter
      exact lt_trans hvalueShorter hkeyShorter
    rw [jsonReadKeyExpectLoop_member hin htype hkey]
    obtain hlt | rfl | hgt := lt_trichotomy key keyNext
    · -- the member is after the key, as all the others
      have hneg := strncmp_neg hlt
      have hall : ∀ member ∈ (⟨keyNext, pos⟩ : JsonMember) :: members, key < member.key := by
        rw [forall_mem_cons]
        exact ⟨hlt, fun member hmem => lt_trans hlt (hsorted.1 member hmem)⟩
      rw [if_neg hneg.ne, if_pos hneg]
      refine ⟨false, next, rfl, ⟨?_, nofun, fun _ => ?_⟩, hin.typeNext htype⟩
      · exact iff_of_false nofun (fun ⟨member, hmem, heq⟩ => (hall member hmem).ne heq.symm)
      · rw [membersAfter_of_lt hall]
        exact (Unread.cons htype hkey hvalue hrest).typeNext htype
    · -- the member is found
      have hzero : strncmp key key key.length = 0 := strncmp_eq_zero.mpr prefix_rfl
      have hafter : membersAfter key (⟨key, pos⟩ :: members) = members :=
        (membersAfter_cons (lt_irrefl key)).trans (membersAfter_of_lt hsorted.1)
      rw [if_pos hzero]
      refine ⟨true, pos, rfl, ⟨?_, fun _ => ?_, nofun⟩, hin.key hkey⟩
      · exact iff_of_true rfl ⟨_, mem_cons_self, rfl⟩
      · rw [hafter]
        exact ⟨mem_cons_self, value, rest, hvalue, hrest⟩
    · -- the member is before the key and skipped
      have hnot : ¬ keyNext <+: key :=
        fun hpre => hgt.ne (hnames _ mem_cons_self hpre)
      have hpos := strncmp_pos hgt hnot
      have hskip := (jsonReadSkip_agrees_of_passes pos).1
        (hpasses _ mem_cons_self hgt) value rest hvalue
      rw [if_neg hpos.ne', if_neg (not_lt_of_gt hpos), hskip, ok_bind]
      have hin' := (jsonReadVarRecurse_stack _).1 _ _ _ _ _ (hin.key hkey) hvalue
      obtain ⟨found, last, hloop, hlooked, hlast⟩ := ih hin' hsorted.2
        (fun member hmem => hnames member (mem_cons_of_mem _ hmem))
        (fun member hmem => hpasses member (mem_cons_of_mem _ hmem)) turns (by omega)
      refine ⟨found, last, hloop, ⟨hlooked.found_iff.trans ?_, fun h => ?_, ?_⟩, hlast⟩
      · rw [exists_mem_cons_iff]
        exact (or_iff_right hgt.ne).symm
      · rw [membersAfter_cons (lt_asymm hgt)]
        exact ⟨mem_cons_of_mem _ (hlooked.value_next h).1, (hlooked.value_next h).2⟩
      · rw [membersAfter_cons (lt_asymm hgt)]
        exact hlooked.unread

/-- **A look-up is exact** if no member that is left is named by a proper prefix of
the key and the values before it can be skipped. -/
theorem jsonReadKeyExpect_exact :
    ∃ found next, jsonReadKeyExpect this key = .ok (found, next) ∧ LookedUp members key found next ∧
      InContainer type below next := by
  have hconsume : Unread (jsonReadConsumeWhiteSpace this) members := by
    have hnext : ∀ typeNext next, jsonReadTypeNextIgnoreComma this = .ok (typeNext, next) →
        next = jsonReadConsumeWhiteSpace this := by
      intro typeNext next htype
      have hpost := jsonReadTypeNextIgnoreComma_post (b := true) this
      rw [htype] at hpost
      exact hpost.1
    cases hunread with
    | nil htype => exact hnext _ _ htype ▸ (Unread.nil htype).typeNext htype
    | cons htype hkey hvalue hrest =>
      exact hnext _ _ htype ▸ (Unread.cons htype hkey hvalue hrest).typeNext htype
  obtain ⟨first, hstack⟩ := hin
  have hstack' : (jsonReadConsumeWhiteSpace this).stack = some (⟨type, first⟩ :: below) := hstack
  unfold jsonReadKeyExpect
  dsimp only
  rw [hstack']
  refine jsonReadKeyExpectLoop_exact hconsume ⟨first, hstack'⟩ hsorted hnames hpasses _ ?_
  unfold JsonRead.turns
  omega

end

end Expect

/-! ## Requests in order -/

/-- Look keys up one after the other and read the values of those that are found. -/
def jsonReadKeys : List Str → JsonRead → Except JsonStop (List (Option Variant) × JsonRead)
  | [], this => .ok ([], this)
  | key :: keys, this => do
    let (found, this) ← jsonReadKeyExpect this key
    if found then
      let (value, this) ← jsonReadVar this
      let (values, this) ← jsonReadKeys keys this
      .ok (some value :: values, this)
    else
      let (values, this) ← jsonReadKeys keys this
      .ok (none :: values, this)

/-- The members after all keys that were requested. -/
def membersLeft (keys : List Str) (members : List JsonMember) : List JsonMember :=
  members.filter (fun member => keys.all (fun key => decide (key < member.key)))

def memberValue (members : List JsonMember) (key : Str) : Option Variant :=
  (members.find? (fun member => decide (member.key = key))).bind (fun member =>
    match jsonReadVar member.pos with
    | .ok (value, _) => some value
    | .error _ => none)

section Requests

variable {this : JsonRead} {members : List JsonMember}

theorem membersLeft_nil : membersLeft [] members = members :=
  filter_eq_self.mpr (fun _ _ => rfl)

theorem membersLeft_cons (key : Str) (keys : List Str) :
    membersLeft (key :: keys) members = membersLeft keys (membersAfter key members) := by
  unfold membersLeft membersAfter
  rw [filter_filter]
  refine filter_congr (fun member _ => ?_)
  rw [all_cons, Bool.and_comm]

theorem memberValue_membersAfter {key key' : Str} (h : key < key') :
    memberValue (membersAfter key members) key' = memberValue members key' := by
  unfold memberValue membersAfter
  rw [find?_filter]
  refine congrArg (fun p => (members.find? p).bind _) (funext fun member => ?_)
  refine decide_eq_decide.mpr ⟨fun hand => of_decide_eq_true hand.2, fun heq => ?_⟩
  exact ⟨decide_eq_true (heq ▸ h), decide_eq_true heq⟩

theorem memberValue_of_mem (hsorted : members.Pairwise (fun a b => a.key < b.key)) {key : Str}
    {pos rest : JsonRead} {value : Variant} (hmem : ⟨key, pos⟩ ∈ members)
    (hvalue : jsonReadVar pos = .ok (value, rest)) : memberValue members key = some value := by
  have hfind : members.find? (fun member => decide (member.key = key)) = some ⟨key, pos⟩ := by
    induction members with
    | nil => cases hmem
    | cons member members ih =>
      rw [pairwise_cons] at hsorted
      obtain rfl | hmem := mem_cons.mp hmem
      · exact find?_cons_of_pos (decide_eq_true rfl)
      · have hne : member.key ≠ key := (hsorted.1 _ hmem).ne
        rw [find?_cons, decide_eq_false hne]
        exact ih hsorted.2 hmem
  unfold memberValue
  rw [hfind]
  show (match jsonReadVar pos with
    | .ok (value, _) => some value
    | .error _ => none) = _
  rw [hvalue]

theorem memberValue_of_not_mem {key : Str} (h : ¬ ∃ member ∈ members, member.key = key) :
    memberValue members key = none := by
  have hfind : members.find? (fun member => decide (member.key = key)) = none := by
    rw [find?_eq_none]
    exact fun member hmem heq => h ⟨member, hmem, of_decide_eq_true heq⟩
  unfold memberValue
  rw [hfind]
  rfl

/-- The requests of a run meet a condition on the members that are left. -/
def MeetsRequests (P : List JsonMember → Str → Prop) (members : List JsonMember)
    (keys : List Str) : Prop :=
  ∀ before key after, keys = before ++ key :: after → P (membersLeft before members) key

variable {P : List JsonMember → Str → Prop}

theorem MeetsRequests.nil : MeetsRequests P members [] :=
  fun _ _ _ heq => absurd heq.symm (append_ne_nil_of_right_ne_nil _ (cons_ne_nil _ _))

theorem MeetsRequests.cons {key : Str} {keys : List Str}
    (h : P members key) (htail : MeetsRequests P (membersAfter key members) keys) :
    MeetsRequests P members (key :: keys) := by
  intro before key' after heq
  cases before with
  | nil =>
    obtain ⟨rfl, -⟩ := cons.inj heq
    rwa [membersLeft_nil]
  | cons first before =>
    obtain ⟨rfl, htail'⟩ := cons.inj heq
    rw [membersLeft_cons]
    exact htail before key' after htail'

theorem MeetsRequests.head {key : Str} {keys : List Str}
    (h : MeetsRequests P members (key :: keys)) : P members key :=
  @membersLeft_nil members ▸ h [] key keys rfl

theorem MeetsRequests.tail {key : Str} {keys : List Str}
    (h : MeetsRequests P members (key :: keys)) : MeetsRequests P (membersAfter key members) keys := by
  intro before key' after heq
  rw [← membersLeft_cons]
  exact h (key :: before) key' after (by rw [heq]; rfl)

theorem request_step {type : JsonType} {below : List JsonReadStack} {key : Str}
    (hin : InContainer type below this) (hunread : Unread this members)
    (hsorted : members.Pairwise (fun a b => a.key < b.key)) (hnames : NoPrefix members key)
    (hpasses : PassesBefore members key) :
    ExactRequest this members key ∧ ∃ rest, InContainer type below rest ∧
      Unread rest (membersAfter key members) ∧
      ∀ keys, jsonReadKeys (key :: keys) this
        = (jsonReadKeys keys rest).map
          (fun result => (memberValue members key :: result.1, result.2)) := by
  obtain ⟨found, next, hexpect, hlooked, hnext⟩ :=
    jsonReadKeyExpect_exact hunread hin hsorted hnames hpasses
  refine ⟨⟨found, next, hexpect, hlooked⟩, ?_⟩
  cases found with
  | true =>
    obtain ⟨hmem, value, rest, hvalue, hrest⟩ := hlooked.value_next rfl
    refine ⟨rest, (jsonReadVarRecurse_stack _).1 _ _ _ _ _ hnext hvalue, hrest, fun keys => ?_⟩
    rw [jsonReadKeys, hexpect, ok_bind, memberValue_of_mem hsorted hmem hvalue]
    dsimp only
    rw [if_pos rfl, hvalue, ok_bind]
    cases jsonReadKeys keys rest with
    | error stop => rfl
    | ok result => rfl
  | false =>
    have hnone : ¬ ∃ member ∈ members, member.key = key :=
      fun h => Bool.false_ne_true (hlooked.found_iff.mpr h)
    refine ⟨next, hnext, hlooked.unread rfl, fun keys => ?_⟩
    rw [jsonReadKeys, hexpect, ok_bind, memberValue_of_not_mem hnone]
    dsimp only
    rw [if_neg Bool.false_ne_true]
    cases jsonReadKeys keys next with
    | error stop => rfl
    | ok result => rfl

theorem pairwise_membersAfter (hsorted : members.Pairwise (fun a b => a.key < b.key)) (key : Str) :
    (membersAfter key members).Pairwise (fun a b => a.key < b.key) :=
  hsorted.sublist filter_sublist

/-- **Requests in ascending order are exact look-ups**, and none of the members that are
requested is lost or given the value of another one, if at no request one of the members
that are left is named by a proper prefix of the key, and the values that are skipped can
be skipped. -/
theorem jsonReadKeys_exact {below : List JsonReadStack} (hin : InContainer .objectBegin below this)
    (hunread : Unread this members) (hsorted : members.Pairwise (fun a b => a.key < b.key))
    (keys : List Str) (hascending : keys.Pairwise (· ≤ ·))
    (hnames : MeetsRequests NoPrefix members keys)
    (hpasses : MeetsRequests PassesBefore members keys) :
    (∀ before key after, keys = before ++ key :: after →
      ∃ values next, jsonReadKeys before this = .ok (values, next) ∧
        Unread next (membersLeft before members) ∧
        ExactRequest next (membersLeft before members) key) ∧
    (keys.Nodup → ∃ next, jsonReadKeys keys this = .ok (keys.map (memberValue members), next) ∧
      Unread next (membersLeft keys members)) := by
  induction keys generalizing this members with
  | nil =>
    refine ⟨fun _ _ _ heq => ?_, fun _ => ⟨this, rfl, ?_⟩⟩
    · exact absurd heq.symm (append_ne_nil_of_right_ne_nil _ (cons_ne_nil _ _))
    rw [membersLeft_nil]
    exact hunread
  | cons key keys ih =>
    rw [pairwise_cons] at hascending
    obtain ⟨hexact, rest, hrest, hunread', hstep⟩ :=
      request_step hin hunread hsorted hnames.head hpasses.head
    obtain ⟨ihruns, ihvalues⟩ := ih hrest hunread' (pairwise_membersAfter hsorted key) hascending.2
      hnames.tail hpasses.tail
    refine ⟨fun before key' after heq => ?_, fun hnodup => ?_⟩
    · cases before with
      | nil =>
        obtain ⟨rfl, -⟩ := cons.inj heq
        rw [membersLeft_nil]
        exact ⟨[], this, rfl, hunread, hexact⟩
      | cons first before =>
        obtain ⟨rfl, htail⟩ := cons.inj heq
        obtain ⟨values, next, hrun, hnext, hrequest⟩ := ihruns before key' after htail
        refine ⟨memberValue members key :: values, next, ?_, ?_, ?_⟩
        · rw [hstep, hrun]
          rfl
        · rw [membersLeft_cons]
          exact hnext
        · rw [membersLeft_cons]
          exact hrequest
    · rw [nodup_cons] at hnodup
      obtain ⟨next, hrun, hnext⟩ := ihvalues hnodup.2
      refine ⟨next, ?_, ?_⟩
      · have hvalues : keys.map (memberValue (membersAfter key members))
            = keys.map (memberValue members) := by
          refine map_congr_left (fun key' hmem => memberValue_membersAfter ?_)
          exact lt_of_le_of_ne (hascending.1 key' hmem) (fun heq => hnodup.1 (heq ▸ hmem))
        rw [hstep, hrun, map_cons, hvalues]
        rfl
      · rw [membersLeft_cons]
        exact hnext

end Requests

/-! ### Names of which one is a prefix of the other -/

/-- The members of an object behind its opening brace. -/
def prefixObject : JsonRead :=
  ⟨"\"abc\":1,\"abcd\":2\x7d".toList, some [⟨.objectBegin, false⟩], false, false⟩

/-- The value of the first member, and what is behind it. -/
def prefixValue : JsonRead :=
  ⟨"1,\"abcd\":2\x7d".toList, some [⟨.objectBegin, true⟩], true, false⟩

def prefixSecond : JsonRead :=
  ⟨",\"abcd\":2\x7d".toList, some [⟨.objectBegin, true⟩], false, false⟩

/-- The value of the second member, and the end. -/
def prefixSecondValue : JsonRead := ⟨"2\x7d".toList, some [⟨.objectBegin, true⟩], true, false⟩

def prefixEnd : JsonRead := ⟨['\x7d'], some [⟨.objectBegin, true⟩], false, false⟩

def prefixMembers : List JsonMember :=
  [⟨"abc".toList, prefixValue⟩, ⟨"abcd".toList, prefixSecondValue⟩]

theorem prefixObject_unread : Unread prefixObject prefixMembers := by
  have hfirst : (jsonReadVar prefixValue).map Prod.snd = .ok prefixSecond := by decide +kernel
  have hsecond : (jsonReadVar prefixSecondValue).map Prod.snd = .ok prefixEnd := by decide +kernel
  obtain ⟨one, hone⟩ := read_of_left hfirst
  obtain ⟨two, htwo⟩ := read_of_left hsecond
  have htype : jsonReadTypeNextIgnoreComma prefixObject = .ok (.string, prefixObject) := by
    decide +kernel
  have htype' : jsonReadTypeNextIgnoreComma prefixSecond = .ok (.string, prefixSecond) := by
    decide +kernel
  have hend : jsonReadTypeNextIgnoreComma prefixEnd = .ok (.objectEnd, prefixEnd) := by
    decide +kernel
  refine .cons htype (by decide +kernel) hone ?_
  exact .cons htype' (by decide +kernel) htwo (.nil hend)

/-- Both are requested: when the second one is, the first one was read. -/
theorem jsonReadKeys_exact_sample :
    ∃ next, jsonReadKeys ["abc".toList, "abcd".toList] prefixObject
      = .ok (["abc".toList, "abcd".toList].map (memberValue prefixMembers), next) := by
  have hnames : MeetsRequests NoPrefix prefixMembers ["abc".toList, "abcd".toList] :=
    .cons (by unfold NoPrefix; decide) (.cons (by unfold NoPrefix; decide) .nil)
  have hnone : ∀ member ∈ prefixMembers, ¬ member.key < "abc".toList := by decide
  have hnone' : ∀ member ∈ membersAfter "abc".toList prefixMembers, ¬ member.key < "abcd".toList := by
    decide
  have hpasses : MeetsRequests PassesBefore prefixMembers ["abc".toList, "abcd".toList] :=
    .cons (fun member hmem hlt => absurd hlt (hnone member hmem))
      (.cons (fun member hmem hlt => absurd hlt (hnone' member hmem)) .nil)
  obtain ⟨next, hrun, -⟩ := (jsonReadKeys_exact ⟨false, rfl⟩ prefixObject_unread (by decide)
    ["abc".toList, "abcd".toList] (by decide) hnames hpasses).2 (by decide)
  exact ⟨next, hrun⟩

/-- Only the second one is requested and the value of the first one is given. -/
theorem jsonReadKeyExpect_wrongMember :
    ¬ ∀ (this : JsonRead) (members : List JsonMember) (below : List JsonReadStack) (key : Str),
      InContainer .objectBegin below this → Unread this members →
        members.Pairwise (fun a b => a.key < b.key) → ExactRequest this members key := by
  intro h
  obtain ⟨found, next, hexpect, hlooked⟩ := h prefixObject prefixMembers [] "abcd".toList
    ⟨false, rfl⟩ prefixObject_unread (by decide)
  have hwrong : jsonReadKeyExpect prefixObject "abcd".toList = .ok (true, prefixValue) := by
    decide +kernel
  cases hwrong.symm.trans hexpect
  have hnot : (⟨"abcd".toList, prefixValue⟩ : JsonMember) ∉ prefixMembers := by decide +kernel
  exact hnot (hlooked.value_next rfl).1

end PgxBackup
