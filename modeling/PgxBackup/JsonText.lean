import PgxBackup.JsonWrite

/-!
# The text of a variant

What the writer makes of a variant, without its state: the elements of a
container with commas between them (`elements`), the keys of an object in
ascending order. `jsonWriteVarRecurse` writes this text or fails because it is
longer than a string may be (`jsonWriteVarRecurse_writes`).
-/

namespace PgxBackup

/-- Elements with commas between them, and one before if there was an element. -/
def elements : Bool → List Str → Str
  | _, [] => []
  | first, text :: texts => (if first then [','] else []) ++ (text ++ elements true texts)

/-- The characters of a string with their escapes. -/
def escapeText (value : Str) : Str := value.flatMap (fun c => (jsonWriteEscape c).getD [c])

def keyText (key : Str) : Str := '"' :: (key ++ ['"', ':'])

mutual

def Variant.text : Variant → Str
  | .null => "null".toList
  | .bool value => if value then "true".toList else "false".toList
  | .int value => cvtToZ value.toInt
  | .int64 value => cvtToZ value.toInt
  | .uint value => cvtToZ value.toNat
  | .uint64 value => cvtToZ value.toNat
  | .str value => '"' :: (escapeText value ++ ['"'])
  | .varLst list => '[' :: (elements false (textList list) ++ [']'])
  | .kv pairs =>
    let keyList := strLstSort (kvKeyList pairs) .asc
    '\x7b' :: (elements false (keyList.map (fun key =>
      keyText key ++ (kvGet (textPairs pairs) key).getD "null".toList)) ++ ['\x7d'])

def textList : List Variant → List Str
  | [] => []
  | value :: list => value.text :: textList list

/-- The texts of the values of a key/value. -/
def textPairs : List (Str × Variant) → List (Str × Str)
  | [] => []
  | (key, value) :: pairs => (key, value.text) :: textPairs pairs

end

/-- Characters that a key must not have. -/
def jsonKeyForbidden : List Char := ['\x0c', '\\', '\n', '\r', '\t', '\x08', '"']

/-- A key that can be written. -/
structure KeyValid (key : Str) : Prop where
  length_le : key.length ≤ 66
  zeroFree : '\x00' ∉ key
  allowed : ∀ c ∈ key, c ∉ jsonKeyForbidden

mutual

/-- **A variant that the program can build**, with keys that can be written. -/
def Variant.Valid : Variant → Prop
  | .null | .bool _ | .int _ | .int64 _ | .uint _ | .uint64 _ => True
  | .str value => '\x00' ∉ value ∧ value.length ≤ STRING_SIZE_MAX
  | .varLst list => validList list
  | .kv pairs => (kvKeyList pairs).Nodup ∧ validPairs pairs

def validList : List Variant → Prop
  | [] => True
  | value :: list => value.Valid ∧ validList list

/-- The keys and values of a key/value. -/
def validPairs : List (Str × Variant) → Prop
  | [] => True
  | (key, value) :: pairs => KeyValid key ∧ value.Valid ∧ validPairs pairs

end

def Variant.isScalar : Variant → Bool
  | .varLst _ | .kv _ => false
  | _ => true

/-- **Induction over variants.** -/
theorem Variant.induct {P : Variant → Prop} (hscalar : ∀ value, value.isScalar = true → P value)
    (hlist : ∀ list, (∀ value ∈ list, P value) → P (.varLst list))
    (hkv : ∀ pairs : List (Str × Variant), (∀ pair ∈ pairs, P pair.2) → P (.kv pairs)) :
    ∀ value, P value := by
  intro value
  refine @Variant.rec P (fun list => ∀ value ∈ list, P value)
    (fun pairs => ∀ pair ∈ pairs, P pair.2) (fun pair => P pair.2)
    (hscalar _ rfl) (fun _ => hscalar _ rfl) (fun _ => hscalar _ rfl) (fun _ => hscalar _ rfl)
    (fun _ => hscalar _ rfl) (fun _ => hscalar _ rfl) (fun _ => hscalar _ rfl) hlist hkv
    ?_ ?_ ?_ ?_ ?_ value
  · exact fun _ h => absurd h List.not_mem_nil
  · exact fun value list hvalue hlist => List.forall_mem_cons.mpr ⟨hvalue, hlist⟩
  · exact fun _ h => absurd h List.not_mem_nil
  · exact fun pair pairs hpair hpairs => List.forall_mem_cons.mpr ⟨hpair, hpairs⟩
  · exact fun _ _ hvalue => hvalue

/-! ## Writing -/

/-- What a write appends, unless the string would be too long. -/
def Writes (this : JsonWrite) (text : Str) (P : JsonWrite → Prop) : Except Error JsonWrite → Prop
  | .error _ => STRING_SIZE_MAX < this.json.str.length + text.length
  | .ok next => next.json.str = this.json.str ++ text ∧ P next

/-- The containers and flags of a writer. -/
structure JsonWrite.At (this : JsonWrite) (stack : Option (List JsonWriteStack))
    (key complete : Bool) : Prop where
  stack_eq : this.stack = stack
  key_eq : this.key = key
  complete_eq : this.complete = complete

section Writes

variable {this : JsonWrite} {text text' : Str} {P Q : JsonWrite → Prop} {x : Except Error JsonWrite}

theorem Writes.bind {f : JsonWrite → Except Error JsonWrite} (h : Writes this text P x)
    (hnext : ∀ next, P next → Writes next text' Q (f next)) :
    Writes this (text ++ text') Q (x >>= f) := by
  cases x with
  | error error =>
    have hlong : STRING_SIZE_MAX < this.json.str.length + text.length := h
    show _ < _ + (text ++ text').length
    rw [List.length_append]
    omega
  | ok next =>
    obtain ⟨hstr, hP⟩ := h
    have hwrites := hnext next hP
    show Writes this (text ++ text') Q (f next)
    cases hf : f next with
    | error error =>
      rw [hf] at hwrites
      have hlong : STRING_SIZE_MAX < next.json.str.length + text'.length := hwrites
      show _ < _ + (text ++ text').length
      rw [hstr, List.length_append] at hlong
      rw [List.length_append]
      omega
    | ok last =>
      rw [hf] at hwrites
      refine ⟨?_, hwrites.2⟩
      rw [hwrites.1, hstr, List.append_assoc]

theorem Writes.mono (h : Writes this text P x) (himp : ∀ next, P next → Q next) :
    Writes this text Q x := by
  cases x with
  | error error => exact h
  | ok next => exact ⟨h.1, himp next h.2⟩

theorem Writes.nil {next : JsonWrite} (hjson : next.json = this.json) (h : P next) :
    Writes this [] P (.ok next) :=
  ⟨by rw [hjson, List.append_nil], h⟩

theorem cat_writes {stack : Option (List JsonWriteStack)} {key complete : Bool}
    (h : this.At stack key complete) (text : Str) :
    Writes this text (fun next => next.At stack key complete) (this.cat text) := by
  unfold JsonWrite.cat
  cases hcat : this.json.cat text with
  | error error =>
    refine lt_of_not_ge (fun hle => ?_)
    obtain ⟨json, hjson, -⟩ := StrBuf.cat_ok this.json text hle
    cases hcat.symm.trans hjson
  | ok json => exact ⟨StrBuf.cat_str hcat, h.stack_eq, h.key_eq, h.complete_eq⟩

end Writes

/-- Where a value is: not in a container, or in one that is in others. -/
inductive Place (α : Type)
  | top
  | inside (item : α) (below : List α)

/-- The containers outside of a value, once it is one of theirs. -/
def Place.outer : Place JsonWriteStack → List JsonWriteStack
  | .top => []
  | .inside item below => { item with first := true } :: below

/-- The comma before a value. The one of an object is before the key. -/
def Place.lead : Place JsonWriteStack → Str
  | .top => []
  | .inside item _ => if item.first && decide (item.type ≠ .objectBegin) then [','] else []

/-- A value is written next. -/
def Place.Before : Place JsonWriteStack → JsonWrite → Prop
  | .top, this => this.At none false false
  | .inside item below, this =>
    this.At (some (item :: below)) (decide (item.type = .objectBegin)) false

/-- A value was written. -/
def Place.After (place : Place JsonWriteStack) (scalar : Bool) (this : JsonWrite) : Prop :=
  match place with
  | .top => this.At (if scalar then none else some []) false true
  | .inside _ _ => this.At (some place.outer) false false

section Push

variable {this : JsonWrite}

theorem jsonWritePushItem_writes {item : JsonWriteStack} {below : List JsonWriteStack}
    (h : (Place.inside item below).Before this) :
    Writes this (Place.inside item below).lead
      (fun next => next.At (some ({ item with first := true } :: below)) false false)
      (jsonWritePushItem this none) := by
  obtain ⟨hstack, hkey, hcomplete⟩ := h
  have hpush : jsonWritePushKey this item none = .ok ({ this with key := false }, item) := by
    unfold jsonWritePushKey
    by_cases htype : item.type = .objectBegin
    · rw [if_pos htype, hkey, decide_eq_true htype]
      rfl
    · rw [if_neg htype]
      rw [decide_eq_false htype] at hkey
      rw [← hkey]
  unfold jsonWritePushItem
  rw [hstack]
  dsimp only [Option.getD_some]
  rw [hpush]
  show Writes this _ _ (if (item.first && (decide (item.type ≠ .objectBegin) || false)) = true
    then JsonWrite.cat ⟨this.json, some (item :: below), false, this.complete⟩ [','] else _)
  rw [Bool.or_false]
  show Writes this (if (item.first && decide (item.type ≠ .objectBegin)) = true then [',']
    else []) _ _
  by_cases hcomma : (item.first && decide (item.type ≠ .objectBegin)) = true
  · rw [if_pos hcomma, if_pos hcomma]
    have hfirst : { item with first := true } = item := by
      rw [← Bool.and_elim_left hcomma]
    have hat : JsonWrite.At ⟨this.json, some (item :: below), false, this.complete⟩
        (some (item :: below)) false false := ⟨rfl, rfl, hcomplete⟩
    rw [hfirst]
    exact cat_writes hat _
  · rw [if_neg hcomma, if_neg hcomma]
    exact .nil rfl ⟨rfl, rfl, hcomplete⟩

theorem jsonWritePush_inside {stack : List JsonWriteStack} (hstack : this.stack = some stack)
    (hcomplete : this.complete = false) (type : JsonType) (key : Option Str) :
    jsonWritePush this type key = jsonWritePushItem this key >>= fun this =>
      if jsonTypeScalar type then .ok this
      else .ok { this with stack := some (⟨type, false, []⟩ :: this.stack.getD []) } := by
  unfold jsonWritePush
  rw [if_neg (fun hc => Bool.false_ne_true (hcomplete.symm.trans hc)),
    if_neg (fun hs => Option.some_ne_none _ (hstack.symm.trans hs.1))]

theorem jsonWritePush_scalar {place : Place JsonWriteStack} {type : JsonType}
    (htype : jsonTypeScalar type = true) (h : place.Before this) :
    Writes this place.lead (place.After true) (jsonWritePush this type none) := by
  cases place with
  | top =>
    unfold jsonWritePush
    rw [if_neg (fun hc => Bool.false_ne_true (h.complete_eq.symm.trans hc)),
      if_pos ⟨h.stack_eq, htype⟩]
    exact .nil rfl ⟨h.stack_eq, h.key_eq, rfl⟩
  | inside item below =>
    rw [jsonWritePush_inside h.stack_eq h.complete_eq, ← List.append_nil (Place.lead _)]
    refine (jsonWritePushItem_writes h).bind (fun next hnext => ?_)
    rw [if_pos htype]
    exact .nil rfl hnext

theorem jsonWritePush_container {place : Place JsonWriteStack} {type : JsonType}
    (htype : jsonTypeScalar type = false) (h : place.Before this) :
    Writes this place.lead
      (fun next => next.At (some (⟨type, false, []⟩ :: place.outer)) false false)
      (jsonWritePush this type none) := by
  have hnot : ¬ jsonTypeScalar type = true := fun hs => Bool.false_ne_true (htype.symm.trans hs)
  cases place with
  | top =>
    obtain ⟨hstack, hkey, hcomplete⟩ := h
    unfold jsonWritePush jsonWritePushItem
    rw [if_neg (fun hc => Bool.false_ne_true (hcomplete.symm.trans hc)),
      if_neg (fun hs => hnot hs.2), hstack]
    show Writes this [] _ (if jsonTypeScalar type = true then _ else _)
    rw [if_neg hnot]
    refine .nil rfl ⟨?_, hkey, hcomplete⟩
    show some (_ :: this.stack.getD []) = _
    rw [hstack]
    rfl
  | inside item below =>
    rw [jsonWritePush_inside h.stack_eq h.complete_eq, ← List.append_nil (Place.lead _)]
    refine (jsonWritePushItem_writes h).bind (fun next hnext => ?_)
    rw [if_neg hnot]
    refine .nil rfl ⟨?_, hnext.key_eq, hnext.complete_eq⟩
    show some (_ :: next.stack.getD []) = _
    rw [hnext.stack_eq]
    rfl

theorem jsonWritePush_key {first : Bool} {keyLast key : Str} {below : List JsonWriteStack}
    (h : this.At (some (⟨.objectBegin, first, keyLast⟩ :: below)) false false)
    (hlast : keyLast = [] ∨ keyLast < key) (hlength : key.length ≤ 66) :
    Writes this (if first then [','] else [])
      (fun next => next.At (some (⟨.objectBegin, true, key⟩ :: below)) true false)
      (jsonWritePush this .string (some key)) := by
  obtain ⟨hstack, hkey, hcomplete⟩ := h
  have hpush : jsonWritePushKey this ⟨.objectBegin, first, keyLast⟩ (some key)
      = .ok ({ this with key := true }, ⟨.objectBegin, first, key⟩) := by
    unfold jsonWritePushKey
    dsimp only
    rw [if_neg (fun hk => Bool.false_ne_true (hkey.symm.trans hk)), if_neg, if_neg]
    · unfold JSON_KEY_LAST_SIZE
      omega
    · rintro ⟨hne, hle⟩
      exact hlast.elim hne (fun hlt => absurd hlt (not_lt.mpr (strCmp_le_zero.mp hle)))
  rw [jsonWritePush_inside hstack hcomplete]
  unfold jsonWritePushItem
  rw [hstack]
  dsimp only [Option.getD_some]
  rw [hpush, ← List.append_nil (if first = true then _ else _)]
  refine Writes.bind (P := fun next =>
    next.At (some (⟨.objectBegin, true, key⟩ :: below)) true false) ?_ (fun next hnext => ?_)
  · show Writes this _ _ (if (first && (false || true)) = true
      then JsonWrite.cat ⟨this.json, _, true, this.complete⟩ [','] else _)
    rw [Bool.false_or, Bool.and_true]
    cases first with
    | true =>
      have hat : JsonWrite.At ⟨this.json, some (⟨.objectBegin, true, key⟩ :: below), true,
          this.complete⟩ (some (⟨.objectBegin, true, key⟩ :: below)) true false :=
        ⟨rfl, rfl, hcomplete⟩
      exact cat_writes hat _
    | false =>
      rw [if_neg nofun, if_neg nofun]
      exact .nil rfl ⟨rfl, rfl, hcomplete⟩
  · exact .nil rfl hnext

end Push

section Values

variable {this : JsonWrite} {place : Place JsonWriteStack}

theorem Place.After.at_scalar (h : place.After true this) :
    ∃ stack key complete, this.At stack key complete ∧
      ∀ next : JsonWrite, next.At stack key complete → place.After true next := by
  cases place with
  | top | inside => exact ⟨_, _, _, h, fun _ hnext => hnext⟩

theorem jsonWriteScalar_writes {type : JsonType} (htype : jsonTypeScalar type = true) (text : Str)
    (h : place.Before this) :
    Writes this (place.lead ++ text) (place.After true) (jsonWriteScalar this type text) := by
  refine (jsonWritePush_scalar htype h).bind (fun next hnext => ?_)
  obtain ⟨stack, key, complete, hat, hafter⟩ := hnext.at_scalar
  exact (cat_writes hat text).mono hafter

theorem jsonWriteStrLoop_writes {stack : Option (List JsonWriteStack)} {key complete : Bool}
    (value : Str) : ∀ (this : JsonWrite) (noEscape : Str), this.At stack key complete →
      Writes this (noEscape ++ escapeText value) (fun next => next.At stack key complete)
        (jsonWriteStrLoop this noEscape value) := by
  induction value with
  | nil =>
    intro this noEscape h
    show Writes this (noEscape ++ []) _ (this.cat noEscape)
    rw [List.append_nil]
    exact cat_writes h noEscape
  | cons c value ih =>
    intro this noEscape h
    have htext : escapeText (c :: value) = (jsonWriteEscape c).getD [c] ++ escapeText value := rfl
    unfold jsonWriteStrLoop
    rw [htext]
    cases hescape : jsonWriteEscape c with
    | some escape =>
      refine (cat_writes h noEscape).bind (fun next hnext => ?_)
      exact (cat_writes hnext escape).bind (fun last hlast => ih last [] hlast)
    | none =>
      have hcopy : noEscape ++ ((none : Option Str).getD [c] ++ escapeText value)
          = (noEscape ++ [c]) ++ escapeText value := (List.append_assoc _ _ _).symm
      rw [hcopy]
      exact ih this (noEscape ++ [c]) h

theorem jsonWriteStr_writes (value : Str) (h : place.Before this) :
    Writes this (place.lead ++ '"' :: (escapeText value ++ ['"'])) (place.After true)
      (jsonWriteStr this value) := by
  refine (jsonWritePush_scalar rfl h).bind (fun next hnext => ?_)
  obtain ⟨stack, key, complete, hat, hafter⟩ := hnext.at_scalar
  show Writes next (['"'] ++ (escapeText value ++ ['"'])) _ _
  refine (cat_writes hat _).bind (fun next hnext => ?_)
  refine (jsonWriteStrLoop_writes value next [] hnext).bind (fun next hnext => ?_)
  exact (cat_writes hnext _).mono hafter

theorem begin_writes {type : JsonType} (htype : jsonTypeScalar type = false) (text : Str)
    (h : place.Before this) :
    Writes this (place.lead ++ text)
      (fun next => next.At (some (⟨type, false, []⟩ :: place.outer)) false false)
      (jsonWritePush this type none >>= fun this => this.cat text) :=
  (jsonWritePush_container htype h).bind (fun _ hnext => cat_writes hnext text)

theorem end_writes {item : JsonWriteStack} (h : this.At (some (item :: place.outer)) false false)
    (text : Str) : Writes this text (place.After false) ((jsonWritePop this).cat text) := by
  have hat : (jsonWritePop this).At (some place.outer) false place.outer.isEmpty := by
    unfold jsonWritePop
    rw [h.stack_eq]
    exact ⟨rfl, h.key_eq, rfl⟩
  have hjson : (jsonWritePop this).json = this.json := rfl
  have hwrites := cat_writes hat text
  unfold Writes at hwrites ⊢
  rw [hjson] at hwrites
  cases place with
  | top => exact hwrites
  | inside item below => exact hwrites

variable {below : List JsonWriteStack}

theorem jsonWriteVarLst_writes (list : List Variant)
    (hwrites : ∀ value ∈ list, ∀ (place : Place JsonWriteStack) (this : JsonWrite),
      place.Before this → Writes this (place.lead ++ value.text) (place.After value.isScalar)
        (jsonWriteVarRecurse value this)) :
    ∀ (first : Bool) (this : JsonWrite),
      this.At (some (⟨.arrayBegin, first, []⟩ :: below)) false false →
      Writes this (elements first (textList list))
        (fun next => ∃ first, next.At (some (⟨.arrayBegin, first, []⟩ :: below)) false false)
        (jsonWriteVarLst list this) := by
  induction list with
  | nil =>
    intro first this h
    exact .nil rfl ⟨first, h⟩
  | cons value list ih =>
    intro first this h
    rw [List.forall_mem_cons] at hwrites
    unfold jsonWriteVarLst textList elements
    rw [← List.append_assoc]
    have hlead : (Place.inside ⟨.arrayBegin, first, []⟩ below).lead
        = if first then [','] else [] := by
      show (if (first && true) = true then _ else _) = _
      rw [Bool.and_true]
    rw [← hlead]
    exact (hwrites.1 (.inside ⟨.arrayBegin, first, []⟩ below) this h).bind
      (fun next hnext => ih hwrites.2 true next hnext)

/-- The value of a key, where a key without one has the value `NULL`. -/
def keyValue (pairs : List (Str × Variant)) (key : Str) : Variant := (kvGet pairs key).getD .null

theorem kvGet_jsonWriteValues (pairs : List (Str × Variant)) (key : Str) :
    (kvGet (jsonWriteValues pairs) key).getD jsonWriteNull
      = jsonWriteVarRecurse (keyValue pairs key) := by
  unfold keyValue
  induction pairs with
  | nil => rfl
  | cons pair pairs ih =>
    unfold jsonWriteValues kvGet
    split
    · rfl
    · exact ih

theorem kvGet_textPairs (pairs : List (Str × Variant)) (key : Str) :
    (kvGet (textPairs pairs) key).getD "null".toList = (keyValue pairs key).text := by
  unfold keyValue
  induction pairs with
  | nil => rfl
  | cons pair pairs ih =>
    unfold textPairs kvGet
    split
    · rfl
    · exact ih

theorem jsonWriteKey_writes {first : Bool} {keyLast key : Str}
    (h : this.At (some (⟨.objectBegin, first, keyLast⟩ :: below)) false false)
    (hlast : keyLast = [] ∨ keyLast < key) (hlength : key.length ≤ 66) :
    Writes this ((if first then [','] else []) ++ keyText key)
      (fun next => next.At (some (⟨.objectBegin, true, key⟩ :: below)) true false)
      (jsonWriteKey this key) := by
  refine (jsonWritePush_key h hlast hlength).bind (fun next hnext => ?_)
  show Writes next (['"'] ++ (key ++ ['"', ':'])) _ _
  refine (cat_writes hnext _).bind (fun next hnext => ?_)
  exact (cat_writes hnext _).bind (fun next hnext => cat_writes hnext _)

/-- The keys of an object in ascending order and their values. -/
theorem jsonWriteKeys_writes {pairs : List (Str × Variant)}
    (keyList : List Str) (hsorted : keyList.Pairwise (· < ·))
    (hlength : ∀ key ∈ keyList, key.length ≤ 66)
    (hwrites : ∀ key ∈ keyList, ∀ (place : Place JsonWriteStack) (this : JsonWrite),
      place.Before this → Writes this (place.lead ++ (keyValue pairs key).text)
        (place.After (keyValue pairs key).isScalar) (jsonWriteVarRecurse (keyValue pairs key) this)) :
    ∀ (first : Bool) (keyLast : Str) (this : JsonWrite),
      (keyLast = [] ∨ ∀ key ∈ keyList, keyLast < key) →
      this.At (some (⟨.objectBegin, first, keyLast⟩ :: below)) false false →
      Writes this (elements first (keyList.map (fun key => keyText key ++ (keyValue pairs key).text)))
        (fun next => ∃ first keyLast,
          next.At (some (⟨.objectBegin, first, keyLast⟩ :: below)) false false)
        (jsonWriteKeys (jsonWriteValues pairs) keyList this) := by
  induction keyList with
  | nil =>
    intro first keyLast this _ h
    exact .nil rfl ⟨first, keyLast, h⟩
  | cons key keyList ih =>
    intro first keyLast this hlast h
    rw [List.pairwise_cons] at hsorted
    rw [List.forall_mem_cons] at hlength hwrites
    have hafter : keyLast = [] ∨ keyLast < key :=
      hlast.imp_right (fun hall => hall key List.mem_cons_self)
    rw [List.map_cons]
    unfold elements
    rw [List.append_assoc, ← List.append_assoc]
    refine (jsonWriteKey_writes h hafter hlength.1).bind (fun next hnext => ?_)
    rw [kvGet_jsonWriteValues]
    exact (hwrites.1 (.inside ⟨.objectBegin, true, key⟩ below) next hnext).bind
      (fun last hat => ih hsorted.2 hlength.2 hwrites.2 true key last (.inr hsorted.1) hat)

end Values

/-! ## Variants -/

def sortedKeys (pairs : List (Str × Variant)) : List Str := strLstSort (kvKeyList pairs) .asc

variable {pairs : List (Str × Variant)}

theorem pairwise_sortedKeys (h : (kvKeyList pairs).Nodup) :
    (sortedKeys pairs).Pairwise (· < ·) := by
  have hsorted : (sortedKeys pairs).Pairwise (· ≤ ·) := List.pairwise_insertionSort _ _
  have hnodup : (sortedKeys pairs).Nodup := (List.perm_insertionSort _ _).nodup_iff.mpr h
  exact hsorted.imp₂ (fun _ _ hle hne => lt_of_le_of_ne hle hne) hnodup

theorem keyValue_mem {key : Str} (h : key ∈ sortedKeys pairs) :
    (key, keyValue pairs key) ∈ pairs := by
  unfold sortedKeys at h
  rw [mem_strLstSort] at h
  unfold keyValue
  induction pairs with
  | nil => exact absurd h List.not_mem_nil
  | cons pair pairs ih =>
    unfold kvGet
    by_cases hkey : pair.1 = key
    · rw [if_pos hkey, ← hkey]
      exact List.mem_cons_self
    · rw [if_neg hkey]
      exact List.mem_cons_of_mem _ (ih (List.mem_of_ne_of_mem (Ne.symm hkey) h))

theorem validList_iff {list : List Variant} : validList list ↔ ∀ value ∈ list, value.Valid := by
  induction list with
  | nil => exact iff_of_true trivial (fun _ h => absurd h List.not_mem_nil)
  | cons value list ih =>
    rw [List.forall_mem_cons, ← ih]
    rfl

theorem validPairs_iff :
    validPairs pairs ↔ ∀ pair ∈ pairs, KeyValid pair.1 ∧ pair.2.Valid := by
  induction pairs with
  | nil => exact iff_of_true trivial (fun _ h => absurd h List.not_mem_nil)
  | cons pair pairs ih =>
    rw [List.forall_mem_cons, ← ih, and_assoc]
    rfl

theorem Variant.text_kv (pairs : List (Str × Variant)) :
    (Variant.kv pairs).text = '\x7b' :: (elements false ((sortedKeys pairs).map
      (fun key => keyText key ++ (keyValue pairs key).text)) ++ ['\x7d']) := by
  have htexts : (fun key => keyText key ++ (kvGet (textPairs pairs) key).getD "null".toList)
      = fun key => keyText key ++ (keyValue pairs key).text := by
    funext key
    rw [kvGet_textPairs]
  rw [← htexts, Variant.text]
  rfl

/-- **The writer writes the text of a variant**, unless it is too long. -/
theorem jsonWriteVarRecurse_writes (value : Variant) (hvalid : value.Valid) :
    ∀ (place : Place JsonWriteStack) (this : JsonWrite), place.Before this →
      Writes this (place.lead ++ value.text) (place.After value.isScalar)
        (jsonWriteVarRecurse value this) := by
  induction value using Variant.induct with
  | hscalar value hscalar =>
    intro place this h
    cases value with
    | null | bool | int | int64 | uint | uint64 => exact jsonWriteScalar_writes rfl _ h
    | str value => exact jsonWriteStr_writes value h
    | varLst | kv => cases hscalar
  | hlist list ih =>
    intro place this h
    unfold Variant.Valid at hvalid
    rw [validList_iff] at hvalid
    have hvalue := fun value hmem => ih value hmem (hvalid value hmem)
    unfold jsonWriteVarRecurse Variant.text
    rw [← List.singleton_append, ← List.append_assoc]
    refine (begin_writes rfl ['['] h).bind (fun next hnext => ?_)
    refine (jsonWriteVarLst_writes list hvalue false next hnext).bind (fun next hnext => ?_)
    obtain ⟨first, hat⟩ := hnext
    exact end_writes hat [']']
  | hkv pairs ih =>
    intro place this h
    obtain ⟨hnodup, hpairs⟩ := hvalid
    rw [validPairs_iff] at hpairs
    have hlength : ∀ key ∈ sortedKeys pairs, key.length ≤ 66 :=
      fun key hkey => (hpairs _ (keyValue_mem hkey)).1.length_le
    have hvalue := fun key (hkey : key ∈ sortedKeys pairs) => ih _ (keyValue_mem hkey) (hpairs _ (keyValue_mem hkey)).2
    rw [Variant.text_kv]
    rw [← List.singleton_append, ← List.append_assoc]
    refine (begin_writes rfl ['\x7b'] h).bind (fun next hnext => ?_)
    refine (jsonWriteKeys_writes (sortedKeys pairs) (pairwise_sortedKeys hnodup) hlength hvalue
      false [] next (.inl rfl) hnext).bind (fun next hnext => ?_)
    obtain ⟨first, keyLast, hat⟩ := hnext
    exact end_writes hat ['\x7d']

end PgxBackup
