import Mathlib.Data.List.Pairwise
import PgxBackup.StorageObjectOrder

/-!
# Giving the expression to the driver

The iterator matches the expression with the name relative to its root, but
gives the same expression to the driver for every path. The driver lists the
names that begin with the prefix of the expression, so an entry is lost unless
its name is a chain of parts that all begin with the prefix, and without
recursion an entry of a path inside is found if the prefix has a slash.

With the prefix in the request there is less on the pages. So the order of a
file and a path may change, if none is requested or they have the same name.
-/

namespace PgxBackup

open List PathOrder

variable {ι : Type} {store : ObjectStore ι} {answers : ObjectPages store}

/-! ## The same iterations -/

section Pushdown

variable (regExpNew : Str → Str → Bool) {store : ObjectStore ι} (answers : ObjectPages store) (dir : Str)
  (recurse : Bool) (sortOrder : Option SortOrder) (expression driverExpression : Option Str)

section Returns

variable {regExpNew answers dir recurse sortOrder expression driverExpression} {param : StorageIteratorParam (Option ι)}
  (hparam : objectIterator regExpNew answers.pages ('/' :: dir) recurse sortOrder expression driverExpression = param)
include hparam

/-- The list of a path is a level: in order, and of names that begin with the prefix. -/
theorem objectLevel_list (pathSub : Option Str)
    (hne : storageObjectListInternal answers.pages (param.pathFull pathSub) driverExpression ≠ []) :
    ObjectLevel answers (basePrefix ('/' :: dir)) param.sortOrder (expressionPrefix driverExpression) pathSub
      (param.sort (storageObjectListInternal answers.pages (param.pathFull pathSub) driverExpression)) := by
  have hpath : param.path = '/' :: dir := by
    rw [← hparam]
    rfl
  have hbase : basePrefix (param.pathFull pathSub) = basePrefix ('/' :: dir) ++ nameSub pathSub [] := by
    unfold StorageIteratorParam.pathFull at hne ⊢
    rw [hpath] at hne ⊢
    cases pathSub with
    | none => exact (append_nil _).symm
    | some name =>
      by_cases hdir : dir = []
      · -- nothing is listed below `/`
        subst hdir
        obtain ⟨info, hinfo⟩ := exists_mem_of_ne_nil _ hne
        exact absurd hinfo (not_mem_below_root name info)
      · dsimp only
        rw [basePrefix_sub, basePrefix_root, if_neg hdir]
        unfold nameSub
        simp only [append_assoc, cons_append, nil_append]
  refine ⟨?_, fun info hinfo => (mem_storageObjectListInternal.mp (mem_sort.mp hinfo)).2⟩
  have hpairwise := @storageObjectListInternal_pairwise ι store answers (param.pathFull pathSub) driverExpression
  rw [queryPrefix_eq, hbase, append_assoc, ← nameSub_append, nil_append] at hpairwise
  exact sort_pairwise param hpairwise

theorem objectIterator_list (path : Str) :
    param.list path = some (storageObjectListInternal answers.pages path driverExpression) := by
  rw [← hparam]
  rfl

theorem objectIterator_root : param.list param.path = some (objectRoot answers dir driverExpression) := by
  rw [← hparam]
  rfl

theorem objectIterator_new (errorOnMissing nullOnMissing : Bool) :
    ∃ this, storageItrNew param errorOnMissing nullOnMissing = .ok (some this) := by
  have hexist : (storageItrPathAdd param none).1 = true := by
    unfold storageItrPathAdd
    rw [show param.pathFull none = param.path from rfl, objectIterator_root hparam]
    cases objectRoot answers dir driverExpression <;> rfl
  refine ⟨{ stack := (storageItrPathAdd param none).2.toList, returnedNext := true
            infoNext := none }, ?_⟩
  exact if_pos hexist

theorem objectIterator_returns (errorOnMissing nullOnMissing : Bool) :
    ∃ this out, storageItrNew param errorOnMissing nullOnMissing = .ok (some this) ∧
      StorageIteration param this out ∧
      out.Pairwise (EntryBefore answers (basePrefix ('/' :: dir)) (strBaseZ (expressionPrefix driverExpression))
        sortOrder) ∧
      ∀ entry, entry ∈ out ↔ StorageEntry param (objectRoot answers dir driverExpression) entry ∧
        param.isMatch entry.name = true := by
  have hlist := objectIterator_list hparam
  have hroot := objectIterator_root hparam
  have hlevel := objectLevel_list hparam
  have hcontent (pathSub : Option Str) (info : StorageInfo (Option ι))
      (content : StorageIteratorInfo (Option ι)) (h : param.content pathSub info = some content) :
      ObjectLevel answers (basePrefix ('/' :: dir)) param.sortOrder (expressionPrefix driverExpression)
        content.pathSub content.list := by
    obtain ⟨-, -, list, hsub, hne, rfl⟩ := content_eq h
    rw [hlist] at hsub
    rw [← Option.some.inj hsub] at hne ⊢
    exact hlevel _ hne
  have hrootLevel : ObjectLevel answers (basePrefix ('/' :: dir)) param.sortOrder (expressionPrefix driverExpression)
      none (param.sort (objectRoot answers dir driverExpression)) := by
    have heq := Option.some.inj (hroot.symm.trans (hlist param.path))
    by_cases hne : objectRoot answers dir driverExpression = []
    · rw [hne, perm_nil.mp (sort_perm [])]
      exact ⟨.nil, fun info hinfo => absurd hinfo not_mem_nil⟩
    · rw [heq] at hne ⊢
      exact hlevel none hne
  have hfinite : StorageFinite param.list param.path := by
    rw [funext hlist]
    exact objectStore_finite answers driverExpression param.path
  obtain ⟨out, hout⟩ := exists_traversal hfinite none rfl hroot
    (param.sort (objectRoot answers dir driverExpression)) (fun info hinfo => mem_sort.mp hinfo)
  obtain ⟨this, hnew⟩ := objectIterator_new hparam errorOnMissing nullOnMissing
  have hpairwise := hout.pairwise (objectOrder hcontent) hrootLevel
  rw [show param.sortOrder = sortOrder by rw [← hparam]; rfl] at hpairwise
  refine ⟨this, out, hnew, Traversal.iteration hnew ?_, hpairwise, fun entry => hout.mem_iff⟩
  rw [hroot]
  exact hout

end Returns

/-- **The same sequence is returned** with the expression in the driver and
without it. -/
def SameIteration (errorOnMissing nullOnMissing : Bool) : Prop :=
  ∃ this this' out,
    storageItrNew (objectIterator regExpNew answers.pages ('/' :: dir) recurse sortOrder expression none)
      errorOnMissing nullOnMissing = .ok (some this) ∧
    storageItrNew (objectIterator regExpNew answers.pages ('/' :: dir) recurse sortOrder expression
      expression) errorOnMissing nullOnMissing = .ok (some this') ∧
    StorageIteration (objectIterator regExpNew answers.pages ('/' :: dir) recurse sortOrder expression
      none) this out ∧
    StorageIteration (objectIterator regExpNew answers.pages ('/' :: dir) recurse sortOrder expression
      expression) this' out

/-- Does the name match the expression, if there is one? -/
def isMatchExpression (name : Str) : Bool :=
  match expression with
  | none => true
  | some expression => regExpNew expression name

/-- **When no match is lost and none is found below**: the paths inside are
only iterated with recursion and not from `/`. -/
def PushdownSafe (store : ObjectStore ι) : Prop :=
  if recurse = true ∧ dir ≠ [] then
    ∀ entry, ObjectEntry store (dir ++ ['/']) entry →
      isMatchExpression regExpNew expression entry.name = true →
        PrefixChain (expressionPrefix expression) entry.name
  else
    '/' ∉ expressionPrefix expression ∨
      ∀ entry, ObjectEntry store (basePrefix ('/' :: dir)) entry →
        (∃ part, '/' ∉ part ∧ entry.name = expressionPrefix expression ++ part) →
          isMatchExpression regExpNew expression entry.name = false

/-- An entry that matches, of the root if no path inside is iterated. -/
def FoundEntry (store : ObjectStore ι) (entry : StorageInfo (Option ι)) : Prop :=
  ObjectEntry store (basePrefix ('/' :: dir)) entry ∧ (recurse = true ∧ dir ≠ [] ∨ '/' ∉ entry.name) ∧
    isMatchExpression regExpNew expression entry.name = true

/-- **When the pages make no difference**: a file that matches is on a page before
that of a path with a match in both lists or in none, if no order is requested or
the two have the same name. -/
def PagesSafe : Prop :=
  ∀ file entry, FoundEntry regExpNew dir recurse expression store file →
    FoundEntry regExpNew dir recurse expression store entry → ∀ above name path more below,
      nameSteps file.isFile file.name = above ++ (name, true) :: more →
      nameSteps entry.isFile entry.name = above ++ (path, false) :: below →
      sortOrder = none ∨ name = path →
        let level := basePrefix ('/' :: dir) ++ levelName above
        FileFirst (answers.pages level) (level ++ name) (level ++ path ++ ['/']) ↔
          FileFirst (answers.pages (level ++ strBaseZ (expressionPrefix expression))) (level ++ name)
            (level ++ path ++ ['/'])

variable {regExpNew answers dir recurse sortOrder expression driverExpression}

theorem root_of_not (hlevels : ¬(recurse = true ∧ dir ≠ [])) : recurse = false ∨ dir = [] := by
  cases recurse with
  | false => exact .inl rfl
  | true => exact .inr (not_not.mp fun hdir => hlevels ⟨rfl, hdir⟩)

theorem storageEntry_full {entry : StorageInfo (Option ι)} :
    StorageEntry (objectIterator regExpNew answers.pages ('/' :: dir) recurse sortOrder expression none)
        (objectRoot answers dir none) entry ↔
      ObjectEntry store (basePrefix ('/' :: dir)) entry ∧ (recurse = true ∧ dir ≠ [] ∨ '/' ∉ entry.name) := by
  by_cases hlevels : recurse = true ∧ dir ≠ []
  · obtain ⟨rfl, hdir⟩ := hlevels
    rw [storageEntry_recurse hdir, basePrefix_root, if_neg hdir]
    exact and_congr_right fun _ => iff_of_true (prefixChain_nil entry.name) (.inl ⟨rfl, hdir⟩)
  · rw [storageEntry_root (root_of_not hlevels), or_iff_right hlevels]
    unfold objectRoot
    rw [mem_storageObjectListInternal]
    refine and_congr_right fun _ => ⟨?_, fun h => ⟨entry.name, h, rfl⟩⟩
    rintro ⟨part, hpart, hname⟩
    rw [hname]
    exact hpart

/-- The order of a file and a path of the same level is that of the pages. -/
theorem entryBefore_apart {root last name path : Str} {above more below : List (Str × Bool)}
    {file entry : StorageInfo (Option ι)} (hfile : nameSteps file.isFile file.name = above ++ (name, true) :: more)
    (hentry : nameSteps entry.isFile entry.name = above ++ (path, false) :: below)
    (hsame : sortOrder = none ∨ name = path) :
    (EntryBefore answers root last sortOrder file entry ↔ FileFirst (answers.pages (root ++ levelName above ++ last))
        (root ++ levelName above ++ name) (root ++ levelName above ++ path ++ ['/'])) ∧
      (EntryBefore answers root last sortOrder entry file ↔ ¬FileFirst (answers.pages (root ++ levelName above ++ last))
        (root ++ levelName above ++ name) (root ++ levelName above ++ path ++ ['/'])) := by
  have hirrefl (above : List (Str × Bool)) (a : Str × Bool) : ¬LevelBefore answers root last sortOrder above a a :=
    fun h => LevelBefore.asymm _ _ _ _ above a a h h
  unfold EntryBefore
  rw [hfile, hentry, before_append_iff hirrefl, before_append_iff hirrefl]
  have hkey := hsame.imp_right (congrArg (root ++ levelName above ++ ·))
  have hstep := @stepBefore_apart _ _ (answers.pages (root ++ levelName above ++ last))
    (root ++ levelName above ++ name, true) (root ++ levelName above ++ path, false) hkey Bool.noConfusion
  have hstep' := @stepBefore_apart _ _ (answers.pages (root ++ levelName above ++ last))
    (root ++ levelName above ++ path, false) (root ++ levelName above ++ name, true)
    (hkey.imp_right Eq.symm) Bool.noConfusion
  constructor
  · refine (or_iff_left ?_).trans (hstep.trans ?_)
    · rintro ⟨heq, -⟩
      cases congrArg Prod.snd heq
    · exact (or_iff_left (fun h => absurd h.1 Bool.noConfusion)).trans ((and_iff_right rfl).trans (and_iff_right rfl))
  · refine (or_iff_left ?_).trans (hstep'.trans ?_)
    · rintro ⟨heq, -⟩
      cases congrArg Prod.snd heq
    · exact (or_iff_right (fun h => absurd h.1 Bool.noConfusion)).trans ((and_iff_right rfl).trans (and_iff_right rfl))

theorem pairwise_or {α : Type} {r : α → α → Prop} {l : List α} (h : l.Pairwise r) {a b : α} (ha : a ∈ l)
    (hb : b ∈ l) (hne : a ≠ b) : r a b ∨ r b a := by
  have hsymm : Std.Symm (fun a b => r a b ∨ r b a) := ⟨fun _ _ => Or.symm⟩
  have hor : l.Pairwise (fun a b => r a b ∨ r b a) := h.imp Or.inl
  exact hor.forall ha hb hne

/-- The sequences are the same if the same entries that match are reached, and
the pages make no difference. -/
theorem sameIteration_iff (errorOnMissing nullOnMissing : Bool) :
    SameIteration regExpNew answers dir recurse sortOrder expression errorOnMissing nullOnMissing ↔
      (∀ entry, isMatchExpression regExpNew expression entry.name = true →
        (StorageEntry (objectIterator regExpNew answers.pages ('/' :: dir) recurse sortOrder expression
            none) (objectRoot answers dir none) entry ↔
          StorageEntry (objectIterator regExpNew answers.pages ('/' :: dir) recurse sortOrder expression
            expression) (objectRoot answers dir expression) entry)) ∧
        PagesSafe regExpNew answers dir recurse sortOrder expression := by
  have hparam (driverExpression : Option Str) : objectIterator regExpNew answers.pages ('/' :: dir) recurse sortOrder
      expression driverExpression = _ := rfl
  obtain ⟨this, out, hnew, hreturns, hpairwise, hmem⟩ :=
    objectIterator_returns (hparam none) errorOnMissing nullOnMissing
  obtain ⟨this', out', hnew', hreturns', hpairwise', hmem'⟩ :=
    objectIterator_returns (hparam expression) errorOnMissing nullOnMissing
  have hmatch (driverExpression : Option Str) (name : Str) :
      (objectIterator regExpNew answers.pages ('/' :: dir) recurse sortOrder expression
        driverExpression).isMatch name = isMatchExpression regExpNew expression name := by
    cases expression <;> rfl
  have hfound (entry : StorageInfo (Option ι)) :
      entry ∈ out ↔ FoundEntry regExpNew dir recurse expression store entry := by
    rw [hmem, storageEntry_full, hmatch, and_assoc]
    rfl
  have hfull (level : Str) : level ++ strBaseZ (expressionPrefix none) = level := append_nil level
  constructor
  · rintro ⟨first, first', same, hfirst, hfirst', hsame, hsame'⟩
    rw [hnew] at hfirst
    rw [hnew'] at hfirst'
    cases Except.ok.inj hfirst
    cases Except.ok.inj hfirst'
    have hout := hreturns.unique hsame
    have hout' := hreturns'.unique hsame'
    subst hout hout'
    constructor
    · intro entry hentry
      have hiff := (hmem entry).symm.trans (hmem' entry)
      rw [hmatch, hmatch] at hiff
      exact ⟨fun h => (hiff.mp ⟨h, hentry⟩).1, fun h => (hiff.mpr ⟨h, hentry⟩).1⟩
    · intro file entry hfile hentry above name path more below hsteps hsteps' hsort
      have hne : file ≠ entry := by
        rintro rfl
        have heq := cons.inj (append_cancel_left (hsteps.symm.trans hsteps'))
        cases congrArg Prod.snd heq.1
      -- the file comes first in both orders, or the entry
      have hboth := pairwise_or (hpairwise.and hpairwise') ((hfound file).mpr hfile) ((hfound entry).mpr hentry) hne
      have hleft := @entryBefore_apart _ _ answers _ (basePrefix ('/' :: dir)) (strBaseZ (expressionPrefix none)) _ _ _ _ _
        _ _ hsteps hsteps' hsort
      have hright := @entryBefore_apart _ _ answers _ (basePrefix ('/' :: dir)) (strBaseZ (expressionPrefix expression))
        _ _ _ _ _ _ _ hsteps hsteps' hsort
      rw [hleft.1, hleft.2, hright.1, hright.2, hfull] at hboth
      dsimp only
      tauto
  · rintro ⟨hiff, hpages⟩
    have hout : out = out' := by
      have hmemIff (entry : StorageInfo (Option ι)) : entry ∈ out ↔ entry ∈ out' := by
        rw [hmem, hmem', hmatch, hmatch, and_congr_left_iff]
        exact hiff entry
      refine eq_of_same_elements (fun _ _ => EntryBefore.asymm _ _ _ _) hpairwise
        (hpairwise'.imp_of_mem fun {first second} hfirst hsecond hbefore => ?_) hmemIff
      have hfirst := (hfound first).mp ((hmemIff first).mpr hfirst)
      have hsecond := (hfound second).mp ((hmemIff second).mpr hsecond)
      refine hbefore.imp fun above a more b below ha hb hlt => ?_
      rw [nil_append] at hlt ⊢
      obtain ⟨name, fileA⟩ := a
      obtain ⟨path, fileB⟩ := b
      refine StepBefore.imp hlt fun hsort happart => ?_
      have hsort := hsort.imp_right append_cancel_left
      rcases happart with ⟨rfl, rfl, happart⟩ | ⟨rfl, rfl, happart⟩
      · refine .inl ⟨rfl, rfl, ?_⟩
        have h := hpages first second hfirst hsecond above name path more below ha hb hsort
        rw [hfull]
        exact h.mpr happart
      · refine .inr ⟨rfl, rfl, ?_⟩
        have h := hpages second first hsecond hfirst above path name below more hb ha (hsort.imp_right Eq.symm)
        rw [hfull]
        exact mt h.mp happart
    subst hout
    exact ⟨this, this', out, hnew, hnew', hreturns, hreturns'⟩

/-- **Giving the expression to the driver changes nothing exactly when** the pages
make no difference, and every match below the root is a chain of parts that
begin with the prefix, or, if only the root is listed, when the prefix has no
slash or no entry that is listed with it matches. -/
theorem storageItr_pushdown (errorOnMissing nullOnMissing : Bool)
    (hexpression : ∀ result, regExpPrefix expression = some result → ∀ name,
      isMatchExpression regExpNew expression name = true → result <+: name) :
    SameIteration regExpNew answers dir recurse sortOrder expression errorOnMissing nullOnMissing ↔
      PushdownSafe regExpNew dir recurse expression store ∧
        PagesSafe regExpNew answers dir recurse sortOrder expression := by
  have hbegin {name : Str} (h : isMatchExpression regExpNew expression name = true) :
      expressionPrefix expression <+: name := by
    unfold expressionPrefix
    cases hprefix : regExpPrefix expression with
    | none => exact nil_prefix
    | some result => exact hexpression result hprefix name h
  rw [sameIteration_iff]
  refine and_congr_left fun _ => ?_
  simp only [storageEntry_full]
  unfold PushdownSafe
  split
  · rename_i hlevels
    obtain ⟨rfl, hdir⟩ := hlevels
    refine forall_congr' fun entry => ?_
    rw [storageEntry_recurse hdir, basePrefix_root, if_neg hdir]
    refine ⟨fun h hentry hmatch => ((h hmatch).mp ⟨hentry, .inl ⟨rfl, hdir⟩⟩).2, fun h hmatch => ?_⟩
    exact ⟨fun hentry => ⟨hentry.1, h hentry.1 hmatch⟩, fun hentry => ⟨hentry.1, .inl ⟨rfl, hdir⟩⟩⟩
  · rename_i hlevels
    simp only [storageEntry_root (root_of_not hlevels), hlevels, false_or]
    constructor
    · intro h
      by_cases hslash : '/' ∈ expressionPrefix expression
      · refine .inr fun entry hentry hpart => ?_
        rw [← Bool.not_eq_true]
        intro hmatch
        have hroot := (h entry hmatch).mpr (mem_storageObjectListInternal.mpr ⟨hentry, hpart⟩)
        exact hroot.2 ((hbegin hmatch).subset hslash)
      · exact .inl hslash
    · intro h entry hmatch
      constructor
      · rintro ⟨hentry, hname⟩
        obtain ⟨part, hpart⟩ := hbegin hmatch
        refine mem_storageObjectListInternal.mpr ⟨hentry, part, ?_, hpart.symm⟩
        exact fun hmem => hname (hpart ▸ mem_append_right _ hmem)
      · intro hmem
        obtain ⟨hentry, hpart⟩ := mem_storageObjectListInternal.mp hmem
        rcases h with hslash | hnone
        · obtain ⟨part, hpart, hname⟩ := hpart
          refine ⟨hentry, ?_⟩
          rw [hname, mem_append, not_or]
          exact ⟨hslash, hpart⟩
        · cases hmatch.symm.trans (hnone entry hentry hpart)

/-- **If each request is answered with one page** then this makes no
difference. -/
theorem pagesSafe_of_onePage (h : ∀ queryPrefix, (answers.pages queryPrefix).length ≤ 1) :
    PagesSafe regExpNew answers dir recurse sortOrder expression := by
  have hone (queryPrefix key path : Str) : ¬FileFirst (answers.pages queryPrefix) key path := by
    rintro ⟨⟨page, hpage, hpath⟩, hkey⟩
    have hlength := h queryPrefix
    match hpages : answers.pages queryPrefix with
    | [] =>
      rw [hpages] at hpage
      exact not_mem_nil hpage
    | [only] =>
      rw [hpages, mem_singleton] at hpage
      rw [hpages, takeWhile_cons_of_neg (by simpa [← hpage] using hpath)] at hkey
      exact not_mem_nil hkey
    | _ :: _ :: _ =>
      rw [hpages] at hlength
      exact absurd hlength (by simp)
  intro file entry _ _ above name path more below _ _ _
  exact iff_of_false (hone _ _ _) (hone _ _ _)

end Pushdown

/-! ## A lost entry -/

/-- A bucket with the file `/r/a/b`. -/
def sampleObjectStore : ObjectStore Unit where
  objects := [(['r', '/', 'a', '/', 'b'], ())]
  sorted := pairwise_singleton _ _
  relative := by decide

/-- All on one page. -/
def sampleObjectPages : ObjectPages sampleObjectStore where
  pages queryPrefix := [sampleObjectStore.list queryPrefix]
  commonPrefixes _ := flatMap_singleton _ _
  contents _ := flatMap_singleton _ _

/-- The expression `^a`. -/
def sampleMatch (_ name : Str) : Bool := ['a'].isPrefixOf name

theorem sampleMatch_begins (result : Str) (hresult : regExpPrefix (some ['^', 'a']) = some result)
    (name : Str) (hmatch : isMatchExpression sampleMatch (some ['^', 'a']) name = true) :
    result <+: name := by
  rw [show regExpPrefix (some ['^', 'a']) = some ['a'] by decide] at hresult
  rw [← Option.some.inj hresult]
  exact isPrefixOf_iff_prefix.mp hmatch

theorem storageItr_pushdown_sample :
    SameIteration sampleMatch sampleObjectPages ['r'] false none (some ['^', 'a']) false false ↔
      PushdownSafe sampleMatch ['r'] false (some ['^', 'a']) sampleObjectStore ∧
        PagesSafe sampleMatch sampleObjectPages ['r'] false none (some ['^', 'a']) :=
  storageItr_pushdown false false sampleMatch_begins

/-- `a/b` is below `a` and matches `^a`, but `b` is not listed in `a`. -/
theorem storageItr_pushdown_lost :
    (∀ result, regExpPrefix (some ['^', 'a']) = some result → ∀ name,
      isMatchExpression sampleMatch (some ['^', 'a']) name = true → result <+: name) ∧
    ¬SameIteration sampleMatch sampleObjectPages ['r'] true none (some ['^', 'a']) false false := by
  refine ⟨sampleMatch_begins, fun hsame => ?_⟩
  have hiff := ((sameIteration_iff _ _).mp hsame).1
    { name := ['a', '/', 'b'], type := .file, info := some () } (by decide)
  rw [storageEntry_full, storageEntry_recurse (by decide)] at hiff
  have hentry : ObjectEntry sampleObjectStore (basePrefix ['/', 'r'])
      { name := ['a', '/', 'b'], type := .file, info := some () } :=
    .inr ⟨(), rfl, rfl, mem_singleton_self _⟩
  have hchain := (hiff.mp ⟨hentry, .inl (by decide)⟩).2
  rw [show expressionPrefix (some ['^', 'a']) = ['a'] by decide] at hchain
  generalize hname : ['a', '/', 'b'] = name at hchain
  cases hchain with
  | first part hpart =>
    have htail : ['/', 'b'] = part := (cons.inj hname).2
    rw [← htail] at hpart
    exact hpart mem_cons_self
  | @inside path _ part _ =>
    match path with
    | [] => simp at hname
    | [_] => simp at hname
    | _ :: _ :: _ =>
      have hlength := congrArg length hname
      simp at hlength
      omega

end PgxBackup
