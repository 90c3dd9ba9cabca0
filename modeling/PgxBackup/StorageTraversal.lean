import PgxBackup.StorageIterator

/-!
# An iteration is a traversal

What an iterator returns for a list is given by recursion over the tree: for
each entry the entry itself, if it matches, and the traversal of its content.
The stack is run down list by list, so the turns of the iterator return the
traversal of the list on top and then go on with the lists below.
-/

namespace PgxBackup

open List

variable {ι : Type} {param : StorageIteratorParam ι}

/-! ## Traversals -/

/-- The entry with its name relative to the path that is iterated. -/
def StorageInfo.inPath (pathSub : Option Str) (info : StorageInfo ι) : StorageInfo ι :=
  { info with name := nameSub pathSub info.name }

/-- The content of an entry, if the iterator recurses into it. -/
def StorageIteratorParam.content (param : StorageIteratorParam ι) (pathSub : Option Str)
    (info : StorageInfo ι) : Option (StorageIteratorInfo ι) :=
  if info.type = .path ∧ param.recurse = true then
    (storageItrPathAdd param (some (nameSub pathSub info.name))).2
  else none

/-- The entry itself if it matches. -/
def StorageIteratorParam.matched (param : StorageIteratorParam ι) (info : StorageInfo ι) :
    List (StorageInfo ι) :=
  if param.isMatch info.name then [info] else []

/-- The order of a path and its content. -/
def StorageIteratorParam.order (param : StorageIteratorParam ι)
    (path content : List (StorageInfo ι)) : List (StorageInfo ι) :=
  if param.sortOrder = some .desc then content ++ path else path ++ content

/-- **The traversal of a list** of entries of a subpath. -/
inductive Traversal (param : StorageIteratorParam ι) :
    Option Str → List (StorageInfo ι) → List (StorageInfo ι) → Prop
  | nil (pathSub : Option Str) : Traversal param pathSub [] []
  | entry {pathSub : Option Str} {info : StorageInfo ι} {list out : List (StorageInfo ι)}
      (hcontent : param.content pathSub info = none) (hrest : Traversal param pathSub list out) :
      Traversal param pathSub (info :: list) (param.matched (info.inPath pathSub) ++ out)
  | path {pathSub : Option Str} {info : StorageInfo ι} {list inside out : List (StorageInfo ι)}
      {content : StorageIteratorInfo ι} (hcontent : param.content pathSub info = some content)
      (hinside : Traversal param content.pathSub content.list inside)
      (hrest : Traversal param pathSub list out) :
      Traversal param pathSub (info :: list)
        (param.order (param.matched (info.inPath pathSub)) inside ++ out)

variable {content : StorageIteratorInfo ι} {n limit : ℕ} {out : List (StorageInfo ι)}

variable {pathSub : Option Str}

theorem storageItrPathAdd_eq (h : (storageItrPathAdd param pathSub).2 = some content) :
    ∃ list, param.list (param.pathFull pathSub) = some list ∧ list ≠ [] ∧
      content = { pathSub := pathSub, list := param.sort list, listIdx := 0
                  pathContentSkip := false } := by
  unfold storageItrPathAdd at h
  cases hlist : param.list (param.pathFull pathSub) with
  | none => rw [hlist] at h; cases h
  | some list =>
    cases list with
    | nil => rw [hlist] at h; cases h
    | cons info list =>
      rw [hlist] at h
      exact ⟨info :: list, rfl, cons_ne_nil _ _, (Option.some.inj h).symm⟩

variable {info : StorageInfo ι}

theorem content_eq (h : param.content pathSub info = some content) :
    info.type = .path ∧ param.recurse = true ∧
      ∃ list, param.list (param.pathFull (some (nameSub pathSub info.name))) = some list ∧
        list ≠ [] ∧
        content = { pathSub := some (nameSub pathSub info.name), list := param.sort list
                    listIdx := 0, pathContentSkip := false } := by
  unfold StorageIteratorParam.content at h
  split at h
  · rename_i hpath
    exact ⟨hpath.1, hpath.2, storageItrPathAdd_eq h⟩
  · cases h

/-! ## Turns -/

/-- A number of turns that take one stack to another, and what they return. -/
inductive Turns (param : StorageIteratorParam ι) :
    ℕ → List (StorageIteratorInfo ι) → List (StorageInfo ι) → List (StorageIteratorInfo ι) → Prop
  | refl (stack : List (StorageIteratorInfo ι)) : Turns param 0 stack [] stack
  | step {n : ℕ} {stack next final : List (StorageIteratorInfo ι)}
      {info : Option (StorageInfo ι)} {out : List (StorageInfo ι)}
      (hturn : storageItrTurn param stack = some (next, info)) (hrest : Turns param n next out final) :
      Turns param (n + 1) stack (info.toList ++ out) final

variable {stack final : List (StorageIteratorInfo ι)}

theorem Turns.trans {m : ℕ} {next : List (StorageIteratorInfo ι)}
    {out' : List (StorageInfo ι)} (h : Turns param n stack out next)
    (h' : Turns param m next out' final) : Turns param (m + n) stack (out ++ out') final := by
  induction h with
  | refl stack => exact h'
  | step hturn _ ih =>
    rw [append_assoc]
    exact .step hturn (ih h')

section Visit

variable {pathSub : Option Str} {before list : List (StorageInfo ι)} {info : StorageInfo ι}
variable {stack : List (StorageIteratorInfo ι)}

/-- The list on top after the entries before were passed. -/
def listAt (pathSub : Option Str) (before list : List (StorageInfo ι)) (skip : Bool) :
    StorageIteratorInfo ι :=
  { pathSub := pathSub, list := before ++ list, listIdx := before.length, pathContentSkip := skip }

theorem turn_nil (pathSub : Option Str) (before : List (StorageInfo ι))
    (stack : List (StorageIteratorInfo ι)) (skip : Bool) :
    storageItrTurn param (listAt pathSub before [] skip :: stack) = some (stack, none) := by
  unfold storageItrTurn listAt
  dsimp only
  rw [append_nil, getElem?_eq_none le_rfl]

theorem listAt_next (pathSub : Option Str) (before list : List (StorageInfo ι))
    (info : StorageInfo ι) :
    ({ pathSub := pathSub, list := before ++ info :: list, listIdx := before.length + 1
       pathContentSkip := false } : StorageIteratorInfo ι)
      = listAt pathSub (before ++ [info]) list false := by
  unfold listAt
  rw [append_assoc, singleton_append, length_append, length_singleton]

theorem turn_cons (param : StorageIteratorParam ι) (pathSub : Option Str)
    (before list : List (StorageInfo ι)) (info : StorageInfo ι)
    (stack : List (StorageIteratorInfo ι)) (skip : Bool)
    {content : Option (StorageIteratorInfo ι)}
    (hcontent : content = if skip then none else param.content pathSub info) :
    storageItrTurn param (listAt pathSub before (info :: list) skip :: stack) =
      if param.isMatch (info.inPath pathSub).name = false then
        some (content.toList ++ listAt pathSub (before ++ [info]) list false :: stack, none)
      else if content.isSome ∧ param.sortOrder = some .desc then
        some (content.toList ++ listAt pathSub before (info :: list) true :: stack, none)
      else
        some (content.toList ++ listAt pathSub (before ++ [info]) list false :: stack,
          some (info.inPath pathSub)) := by
  have hget : (before ++ info :: list)[before.length]? = some info := by
    rw [getElem?_append_right le_rfl, Nat.sub_self]
    rfl
  have hcontent' : (if info.type = .path ∧ param.recurse = true ∧ skip = false then
      (storageItrPathAdd param (some (nameSub pathSub info.name))).2 else none) = content := by
    rw [hcontent]
    unfold StorageIteratorParam.content
    cases skip with
    | false => simp
    | true => simp
  rw [← listAt_next]
  unfold storageItrTurn
  conv_lhs => unfold listAt
  dsimp only
  rw [hget]
  dsimp only
  rw [hcontent']
  rfl

section

variable (before list : List (StorageInfo ι)) (stack : List (StorageIteratorInfo ι))

theorem turn_skip (hmatch : param.isMatch (info.inPath pathSub).name = false) :
    storageItrTurn param (listAt pathSub before (info :: list) false :: stack) =
      some ((param.content pathSub info).toList
        ++ listAt pathSub (before ++ [info]) list false :: stack, none) := by
  rw [turn_cons param pathSub before list info stack false rfl, if_pos hmatch]
  rfl

/-- A turn at an entry that matches and is returned before its content, if it
has any. -/
theorem turn_return (hmatch : param.isMatch (info.inPath pathSub).name = true)
    (horder : param.content pathSub info ≠ none → param.sortOrder ≠ some .desc) :
    storageItrTurn param (listAt pathSub before (info :: list) false :: stack) =
      some ((param.content pathSub info).toList
        ++ listAt pathSub (before ++ [info]) list false :: stack, some (info.inPath pathSub)) := by
  rw [turn_cons param pathSub before list info stack false rfl,
    if_neg (by rw [hmatch]; exact nofun), if_neg]
  · rfl
  · rintro ⟨hsome, hdesc⟩
    exact horder (Option.isSome_iff_ne_none.mp hsome) hdesc

/-- A turn at an entry that is returned after its content. -/
theorem turn_desc {content : StorageIteratorInfo ι}
    (hcontent : param.content pathSub info = some content)
    (hmatch : param.isMatch (info.inPath pathSub).name = true)
    (horder : param.sortOrder = some .desc) :
    storageItrTurn param (listAt pathSub before (info :: list) false :: stack) =
      some (content :: listAt pathSub before (info :: list) true :: stack, none) := by
  rw [turn_cons param pathSub before list info stack false hcontent.symm,
    if_neg (by rw [hmatch]; exact nofun), if_pos ⟨rfl, horder⟩]
  rfl

/-- The second turn at an entry: its content is skipped. -/
theorem turn_again (hmatch : param.isMatch (info.inPath pathSub).name = true) :
    storageItrTurn param (listAt pathSub before (info :: list) true :: stack) =
      some (listAt pathSub (before ++ [info]) list false :: stack,
        some (info.inPath pathSub)) := by
  rw [turn_cons param pathSub before list info stack true rfl,
    if_neg (by rw [hmatch]; exact nofun), if_neg (by rintro ⟨hsome, -⟩; exact absurd hsome nofun)]
  rfl

end

end Visit

/-- A list that was added to the stack is at its first entry. -/
theorem content_listAt (h : param.content pathSub info = some content) :
    content = listAt content.pathSub [] content.list false := by
  obtain ⟨-, -, list, -, -, rfl⟩ := content_eq h
  rfl

/-- **The turns for a list** return its traversal. The induction is on the
traversal: for an entry with content there are two lists on the stack. -/
theorem Traversal.turns {list : List (StorageInfo ι)}
    (h : Traversal param pathSub list out) (before : List (StorageInfo ι))
    (stack : List (StorageIteratorInfo ι)) :
    ∃ n, Turns param n (listAt pathSub before list false :: stack) out stack := by
  induction h generalizing before stack with
  | nil pathSub => exact ⟨1, .step (turn_nil pathSub before stack false) (.refl stack)⟩
  | @entry pathSub info list out hcontent _ ih =>
    obtain ⟨n, hn⟩ := ih (before ++ [info]) stack
    refine ⟨n + 1, ?_⟩
    unfold StorageIteratorParam.matched
    cases hmatch : param.isMatch (info.inPath pathSub).name with
    | false =>
      have hturn := turn_skip before list stack hmatch
      rw [hcontent] at hturn
      exact .step hturn hn
    | true =>
      have hturn := turn_return before list stack hmatch (fun hne => absurd hcontent hne)
      rw [hcontent] at hturn
      exact .step hturn hn
  | @path pathSub info list inside out content hcontent _ _ ihinside ih =>
    obtain ⟨n, hn⟩ := ih (before ++ [info]) stack
    obtain ⟨m, hm⟩ := ihinside [] (listAt pathSub (before ++ [info]) list false :: stack)
    rw [← content_listAt hcontent] at hm
    unfold StorageIteratorParam.order StorageIteratorParam.matched
    cases hmatch : param.isMatch (info.inPath pathSub).name with
    | false =>
      -- only the content may match
      have hturn := turn_skip before list stack hmatch
      rw [hcontent] at hturn
      have hrun := Turns.step hturn (hm.trans hn)
      rw [if_neg Bool.false_ne_true, append_nil, nil_append, ite_self]
      exact ⟨_, hrun⟩
    | true =>
      rw [if_pos rfl]
      by_cases horder : param.sortOrder = some .desc
      · -- the content, then the path
        have hturn := turn_desc before list stack hcontent hmatch horder
        obtain ⟨m', hm'⟩ := ihinside [] (listAt pathSub before (info :: list) true :: stack)
        rw [← content_listAt hcontent] at hm'
        have hagain := Turns.step (turn_again before list stack hmatch) hn
        have hrun := Turns.step hturn (hm'.trans hagain)
        rw [if_pos horder, append_assoc]
        exact ⟨_, hrun⟩
      · have hturn := turn_return before list stack hmatch (fun _ => horder)
        rw [hcontent] at hturn
        have hrun := Turns.step hturn (hm.trans hn)
        rw [if_neg horder, append_assoc]
        exact ⟨_, hrun⟩

/-! ## Calls -/

/-- What `storageItrMore` finds when some infos are still to be returned: it
is false, or the first of them is the next info. -/
def MoreFinds (param : StorageIteratorParam ι) (n : ℕ) (final : List (StorageIteratorInfo ι))
    (result : Option (Bool × StorageIterator ι)) : List (StorageInfo ι) → Prop
  | [] => ∃ this, result = some (false, this)
  | info :: out => ∃ m stack, m < n ∧ Turns param m stack out final ∧
      result = some (true, { stack := stack, returnedNext := false, infoNext := some info })

theorem storageItrMore_turn {next : List (StorageIteratorInfo ι)}
    {info : Option (StorageInfo ι)} (hturn : storageItrTurn param stack = some (next, info))
    (fuel : ℕ) (infoNext : Option (StorageInfo ι)) :
    storageItrMore param (fuel + 1)
        { stack := stack, returnedNext := true, infoNext := infoNext } =
      match info with
      | none => storageItrMore param fuel
          { stack := next, returnedNext := true, infoNext := infoNext }
      | some info =>
        some (true, { stack := next, returnedNext := false, infoNext := some info }) := by
  conv_lhs => unfold storageItrMore
  rw [if_neg nofun]
  simp only [hturn]
  cases info <;> rfl

/-- **What `storageItrMore` finds** on a stack that is run down by turns. -/
theorem Turns.more
    (h : Turns param n stack out final) (hfinal : final = [])
    {fuel : ℕ} (hfuel : n < fuel) (infoNext : Option (StorageInfo ι)) :
    MoreFinds param n final (storageItrMore param fuel
      { stack := stack, returnedNext := true, infoNext := infoNext }) out := by
  induction h generalizing fuel with
  | refl stack =>
    subst hfinal
    obtain ⟨k, rfl⟩ := Nat.exists_eq_add_of_lt hfuel
    exact ⟨_, rfl⟩
  | @step n stack next final info out hturn hrest ih =>
    obtain ⟨k, rfl⟩ : ∃ k, fuel = k + 1 := ⟨fuel - 1, by omega⟩
    rw [storageItrMore_turn hturn]
    cases info with
    | none =>
      have hless := ih hfinal (Nat.succ_lt_succ_iff.mp hfuel)
      rw [show (none : Option (StorageInfo ι)).toList ++ out = out from rfl]
      cases out with
      | nil => exact hless
      | cons info out =>
        obtain ⟨m, stack', hm, hturns, hresult⟩ := hless
        exact ⟨m, stack', Nat.lt_succ_of_lt hm, hturns, hresult⟩
    | some info => exact ⟨n, next, Nat.lt_succ_self n, hrest, rfl⟩

/-- More calls before the info is taken change nothing. -/
theorem storageItrMoreExtra_again (hlimit : 0 < limit) {this this' : StorageIterator ι}
    (hmore : storageItrMore param limit this = some (true, this'))
    (hnext : this'.returnedNext = false) (extra : ℕ) :
    storageItrMoreExtra param limit extra this = some (true, this') := by
  induction extra generalizing this with
  | zero => exact hmore
  | succ extra ih =>
    unfold storageItrMoreExtra
    rw [hmore]
    refine ih ?_
    obtain ⟨k, rfl⟩ : ∃ k, limit = k + 1 := ⟨limit - 1, by omega⟩
    exact if_pos hnext

theorem storageItrMoreExtra_end {this this' : StorageIterator ι}
    (hmore : storageItrMore param limit this = some (false, this')) (extra : ℕ) :
    storageItrMoreExtra param limit extra this = some (false, this') := by
  cases extra with
  | zero => exact hmore
  | succ extra =>
    unfold storageItrMoreExtra
    rw [hmore]

/-- **The calls until there is no more** return what the turns return. -/
theorem Turns.all
    (h : Turns param n stack out []) (hlimit : n < limit) (extra : ℕ → ℕ) (call : ℕ)
    (infoNext : Option (StorageInfo ι)) {fuel : ℕ} (hfuel : out.length < fuel) :
    storageItrAll param limit extra fuel call
      { stack := stack, returnedNext := true, infoNext := infoNext } = some out := by
  have hpos : 0 < limit := Nat.zero_lt_of_lt hlimit
  induction out generalizing n stack fuel call infoNext with
  | nil =>
    obtain ⟨k, rfl⟩ : ∃ k, fuel = k + 1 := ⟨fuel - 1, by omega⟩
    obtain ⟨this, hmore⟩ := h.more rfl hlimit infoNext
    unfold storageItrAll
    rw [storageItrMoreExtra_end hmore]
  | cons info out ih =>
    obtain ⟨k, rfl⟩ : ∃ k, fuel = k + 1 := ⟨fuel - 1, by omega⟩
    obtain ⟨m, stack', hm, hturns, hmore⟩ := h.more rfl hlimit infoNext
    have hrest := ih hturns (hm.trans hlimit) (call + 1) (some info) (Nat.succ_lt_succ_iff.mp hfuel)
    unfold storageItrAll
    rw [storageItrMoreExtra_again hpos hmore rfl]
    show (storageItrAll param limit extra k (call + 1) _).map (info :: ·) = _
    rw [hrest]
    rfl

/-! ## Finite trees -/

/-- A path with finitely many entries on all levels. -/
inductive StorageFinite (list : Str → Option (List (StorageInfo ι))) : Str → Prop
  | intro (path : Str)
      (hpath : ∀ entries, list path = some entries → ∀ info ∈ entries, info.type = .path →
        StorageFinite list (path ++ '/' :: info.name)) :
      StorageFinite list path

theorem pathFull_nameSub (param : StorageIteratorParam ι) (pathSub : Option Str) (name : Str) :
    param.pathFull (some (nameSub pathSub name)) = param.pathFull pathSub ++ '/' :: name := by
  cases pathSub with
  | none => rfl
  | some pathSub =>
    unfold StorageIteratorParam.pathFull nameSub
    rw [append_assoc]
    rfl

theorem sort_perm (list : List (StorageInfo ι)) : (param.sort list).Perm list := by
  unfold StorageIteratorParam.sort storageLstSort
  split
  · exact List.Perm.refl list
  · split
    · exact perm_insertionSort _ list
    · exact perm_insertionSort _ list

theorem mem_sort {list : List (StorageInfo ι)} :
    info ∈ param.sort list ↔ info ∈ list :=
  (sort_perm list).mem_iff

/-- **A finite path has a traversal.** The induction is on the levels, and on
the entries of a level. -/
theorem exists_traversal {path : Str} (h : StorageFinite param.list path) (pathSub : Option Str)
    (hpath : param.pathFull pathSub = path) {entries : List (StorageInfo ι)}
    (hentries : param.list path = some entries) (list : List (StorageInfo ι))
    (hlist : ∀ info ∈ list, info ∈ entries) : ∃ out, Traversal param pathSub list out := by
  induction h generalizing pathSub list entries with
  | intro path hbelow ih =>
    induction list with
    | nil => exact ⟨[], .nil pathSub⟩
    | cons info list ihlist =>
      rw [forall_mem_cons] at hlist
      obtain ⟨out, hout⟩ := ihlist hlist.2
      cases hcontent : param.content pathSub info with
      | none => exact ⟨_, .entry hcontent hout⟩
      | some content =>
        obtain ⟨htype, -, list', hlist', -, heq⟩ := content_eq hcontent
        have hsub := pathFull_nameSub param pathSub info.name
        rw [hpath] at hsub
        rw [hsub] at hlist'
        obtain ⟨inside, hinside⟩ := ih entries hentries info hlist.1 htype
          (some (nameSub pathSub info.name)) hsub hlist' (param.sort list') (fun info => mem_sort.mp)
        have hcontent' : Traversal param content.pathSub content.list inside := by
          rw [heq]
          exact hinside
        exact ⟨_, .path hcontent hcontent' hout⟩

end PgxBackup
