import Mathlib.Algebra.Order.BigOperators.Group.List
import PgxBackup.StoragePages
import PgxBackup.StorageTree

/-!
# The tree below a path of an object store

What a list request returns are entries of the path: a file for a key and a
path for the beginning of a key. With a prefix only those entries are listed
whose last part goes on from the prefix without another slash, so an entry is
reached if its name is a chain of such parts.
-/

namespace PgxBackup

open List Relation

variable {ι : Type} {store : ObjectStore ι} {answers : ObjectPages store}

/-! ## Requests -/

theorem keySuffix_eq_some {queryPrefix key suffix : Str} :
    keySuffix queryPrefix key = some suffix ↔ key = queryPrefix ++ suffix := by
  unfold keySuffix
  split
  · rename_i hprefix
    obtain ⟨rest, rfl⟩ := isPrefixOf_iff_prefix.mp hprefix
    rw [drop_left, Option.some.injEq, append_right_inj]
  · rename_i hprefix
    refine ⟨fun h => absurd h nofun, fun h => ?_⟩
    subst h
    exact absurd (List.isPrefixOf_iff_prefix.mpr (prefix_append _ _)) hprefix

theorem exists_slash {s : Str} (h : '/' ∈ s) :
    ∃ first rest, '/' ∉ first ∧ s = first ++ '/' :: rest := by
  induction s with
  | nil => cases h
  | cons c s ih =>
    by_cases hc : c = '/'
    · subst hc
      exact ⟨[], s, not_mem_nil, rfl⟩
    · rcases mem_cons.mp h with heq | hmem
      · exact absurd heq.symm hc
      · obtain ⟨first, rest, hfirst, rfl⟩ := ih hmem
        refine ⟨c :: first, rest, ?_, rfl⟩
        rw [mem_cons, not_or]
        exact ⟨fun heq => hc heq.symm, hfirst⟩

theorem commonPrefix_eq_some {queryPrefix key name : Str} :
    commonPrefix queryPrefix key = some name ↔
      ∃ first rest, '/' ∉ first ∧ key = queryPrefix ++ (first ++ '/' :: rest) ∧
        name = queryPrefix ++ first ++ ['/'] := by
  unfold commonPrefix
  cases hkey : keySuffix queryPrefix key with
  | none =>
    refine ⟨fun h => absurd h nofun, ?_⟩
    rintro ⟨first, rest, -, heq, -⟩
    rw [keySuffix_eq_some.mpr heq] at hkey
    cases hkey
  | some suffix =>
    rw [keySuffix_eq_some] at hkey
    subst hkey
    dsimp only
    split
    · rename_i hslash
      obtain ⟨first, rest, hfirst, rfl⟩ := exists_slash hslash
      rw [takeWhile_slash hfirst, Option.some.injEq]
      refine ⟨fun h => ⟨first, rest, hfirst, rfl, h.symm⟩, ?_⟩
      rintro ⟨first', rest', hfirst', heq, rfl⟩
      have htake := congrArg (takeWhile (· ≠ '/')) (append_cancel_left heq)
      rw [takeWhile_slash hfirst, takeWhile_slash hfirst'] at htake
      rw [htake]
    · rename_i hslash
      refine ⟨fun h => absurd h nofun, ?_⟩
      rintro ⟨first, rest, -, heq, -⟩
      rw [append_cancel_left heq] at hslash
      exact absurd (mem_append_right _ mem_cons_self) hslash

theorem isContent_iff {queryPrefix key : Str} :
    isContent queryPrefix key = true ↔ ∃ name, '/' ∉ name ∧ key = queryPrefix ++ name := by
  unfold isContent
  cases hkey : keySuffix queryPrefix key with
  | none =>
    refine ⟨fun h => absurd h nofun, ?_⟩
    rintro ⟨name, -, heq⟩
    rw [keySuffix_eq_some.mpr heq] at hkey
    cases hkey
  | some suffix =>
    rw [keySuffix_eq_some] at hkey
    subst hkey
    rw [decide_eq_true_iff]
    refine ⟨fun h => ⟨suffix, h, rfl⟩, ?_⟩
    rintro ⟨name, hname, heq⟩
    rwa [append_cancel_left heq]

/-! ## Entries -/

/-- **An entry of the store** below a base prefix: a path for the beginning of
a key, or a file for a key. -/
def ObjectEntry (store : ObjectStore ι) (base : Str) (entry : StorageInfo (Option ι)) : Prop :=
  (entry.type = .path ∧ entry.info = none ∧
      ∃ object ∈ store.objects, base ++ entry.name ++ ['/'] <+: object.1) ∨
    ∃ info, entry.type = .file ∧ entry.info = some info ∧
      (base ++ entry.name, info) ∈ store.objects

/-- What the driver asks for besides the base prefix. -/
def expressionPrefix (expression : Option Str) : Str := (regExpPrefix expression).getD []

theorem queryPrefix_eq (base : Str) (expression : Option Str) :
    queryPrefix base expression = base ++ expressionPrefix expression := by
  unfold queryPrefix expressionPrefix
  cases regExpPrefix expression with
  | none => rw [Option.getD_none, append_nil]
  | some result =>
    rw [Option.getD_some]
    dsimp only
    split
    · rename_i hbase
      rw [hbase, nil_append]
    · rfl

theorem fileInfo_eq (base : Str) (object : Str × ι) :
    fileInfo base object = { name := object.1.drop base.length, type := .file, info := some object.2 } := by
  unfold fileInfo
  split
  · rename_i hbase
    rw [hbase]
    rfl
  · rfl

theorem commonPrefix_assoc (base expressionPrefix part : Str) :
    base ++ expressionPrefix ++ part ++ ['/'] = base ++ (expressionPrefix ++ part ++ ['/']) := by
  simp only [append_assoc]

theorem pathInfo_name (base name : Str) :
    (pathInfo base (base ++ (name ++ ['/'])) : StorageInfo (Option ι)) =
      { name := name, type := .path, info := none } := by
  unfold pathInfo strSubN
  rw [drop_left]
  congr 1
  rw [length_append, length_append, length_singleton, Nat.add_sub_cancel_left,
    Nat.add_sub_cancel, take_left]

theorem mem_commonPrefixes {queryPrefix name : Str} :
    name ∈ (store.list queryPrefix).commonPrefixes ↔
      ∃ object ∈ store.objects, commonPrefix queryPrefix object.1 = some name := by
  unfold ObjectStore.list
  rw [mem_strLstSort, mem_dedup, mem_filterMap]

theorem contents_pairwise (queryPrefix : Str) :
    (store.list queryPrefix).contents.Pairwise (fun a b => a.1 < b.1) :=
  (pairwise_map.mp store.sorted).sublist filter_sublist

theorem fileInfo_key {base expressionPrefix : Str} {object : Str × ι}
    (h : object ∈ (store.list (base ++ expressionPrefix)).contents) :
    base ++ (fileInfo base object).name = object.1 := by
  obtain ⟨name, -, hkey⟩ := isContent_iff.mp (mem_filter.mp h).2
  rw [fileInfo_eq, hkey, append_assoc, drop_left]

theorem pageFiles_nodup (base : Str) (expression : Option Str) :
    ((pageFiles base (answers.pages (queryPrefix base expression))).map StorageInfo.name).Nodup := by
  unfold pageFiles
  rw [answers.contents, queryPrefix_eq, Nodup, pairwise_map, pairwise_map]
  refine (contents_pairwise _).imp_of_mem fun {a b} ha hb hlt heq => ?_
  rw [← fileInfo_key ha, ← fileInfo_key hb, heq] at hlt
  exact lt_irrefl _ hlt

/-- **What is listed** are the entries that go on from the prefix without a
slash. -/
theorem mem_storageObjectListInternal {path : Str} {expression : Option Str}
    {info : StorageInfo (Option ι)} :
    info ∈ storageObjectListInternal answers.pages path expression ↔
      ObjectEntry store (basePrefix path) info ∧
        ∃ part, '/' ∉ part ∧ info.name = expressionPrefix expression ++ part := by
  unfold storageObjectListInternal
  rw [mem_storageObjectListPages (pageFiles_nodup _ _), Option.toList_none, nil_append]
  unfold pagePaths pageFiles
  rw [answers.commonPrefixes, answers.contents, queryPrefix_eq, mem_map, mem_map]
  constructor
  · rintro (⟨name, hname, rfl⟩ | ⟨object, hobject, rfl⟩)
    · obtain ⟨object, hobject, hcommon⟩ := mem_commonPrefixes.mp hname
      obtain ⟨first, rest, hfirst, hkey, rfl⟩ := commonPrefix_eq_some.mp hcommon
      rw [commonPrefix_assoc, pathInfo_name]
      refine ⟨.inl ⟨rfl, rfl, object, hobject, rest, ?_⟩, first, hfirst, rfl⟩
      rw [hkey]
      simp only [append_assoc, singleton_append]
    · have hkey' := fileInfo_key hobject
      obtain ⟨hmem, hcontent⟩ := mem_filter.mp hobject
      obtain ⟨name, hname, hkey⟩ := isContent_iff.mp hcontent
      refine ⟨.inr ⟨object.2, rfl, rfl, by rwa [hkey']⟩, name, hname, ?_⟩
      rwa [hkey, append_assoc, append_right_inj] at hkey'
  · rintro ⟨hentry, part, hpart, hname⟩
    obtain ⟨entryName, type, entryInfo⟩ := info
    subst hname
    rcases hentry with ⟨htype, hinfo, object, hobject, rest, hkey⟩ | ⟨data, htype, hinfo, hobject⟩
    · dsimp only at htype hinfo hkey
      subst htype hinfo
      refine .inl ⟨basePrefix path ++ (expressionPrefix expression ++ part ++ ['/']), ?_,
        pathInfo_name _ _⟩
      refine mem_commonPrefixes.mpr ⟨object, hobject, commonPrefix_eq_some.mpr
        ⟨part, rest, hpart, ?_, ?_⟩⟩
      · rw [← hkey]
        simp only [append_assoc, singleton_append]
      · simp only [append_assoc]
    · dsimp only at htype hinfo hobject
      subst htype hinfo
      refine .inr ⟨_, mem_filter.mpr ⟨hobject, isContent_iff.mpr ⟨part, hpart, ?_⟩⟩, ?_⟩
      · dsimp only
        rw [append_assoc]
      · rw [fileInfo_eq, drop_left]

/-! ## Chains -/

/-- **A chain of parts** that each begin with the prefix of the expression and
have no slash after it. -/
inductive PrefixChain (expressionPrefix : Str) : Str → Prop
  | first (part : Str) (hpart : '/' ∉ part) :
      PrefixChain expressionPrefix (expressionPrefix ++ part)
  | inside {name : Str} (hname : PrefixChain expressionPrefix name) (part : Str)
      (hpart : '/' ∉ part) :
      PrefixChain expressionPrefix (name ++ '/' :: (expressionPrefix ++ part))

theorem prefixChain_nil (name : Str) : PrefixChain [] name := by
  induction hlength : name.length using Nat.strong_induction_on generalizing name with
  | h n ih =>
    by_cases hslash : '/' ∈ name.reverse
    · -- the last slash
      obtain ⟨last, before, hlast, heq⟩ := exists_slash hslash
      have hname : name = before.reverse ++ '/' :: ([] ++ last.reverse) := by
        rw [← reverse_reverse name, heq, reverse_append, reverse_cons,
          append_assoc]
        rfl
      have hlt : before.reverse.length < n := by
        rw [← hlength, hname, length_append, length_cons]
        omega
      rw [hname]
      refine .inside (ih _ hlt _ rfl) _ ?_
      rwa [mem_reverse]
    · rw [mem_reverse] at hslash
      exact .first name hslash

/-! ## Levels -/

section Levels

variable {regExpNew : Str → Str → Bool} {dir : Str} {recurse : Bool}
variable {sortOrder : Option SortOrder} {expression driverExpression : Option Str}

def objectRoot (answers : ObjectPages store) (dir : Str) (driverExpression : Option Str) :
    List (StorageInfo (Option ι)) :=
  storageObjectListInternal answers.pages ('/' :: dir) driverExpression

theorem basePrefix_root (dir : Str) :
    basePrefix ('/' :: dir) = if dir = [] then [] else dir ++ ['/'] := by
  unfold basePrefix strSubN
  rw [length_cons, Nat.add_sub_cancel, drop_one, tail_cons, take_length]
  by_cases hdir : dir = []
  · rw [if_pos hdir, if_pos (by rw [hdir]; rfl)]
  · have hlength : ¬dir.length + 1 = 1 := by
      rw [Nat.add_eq_right, length_eq_zero_iff]
      exact hdir
    rw [if_neg hdir, if_neg hlength]

theorem basePrefix_sub (dir name : Str) :
    basePrefix ('/' :: dir ++ '/' :: name) = dir ++ '/' :: name ++ ['/'] := by
  rw [cons_append, basePrefix_root, if_neg]
  intro h
  exact absurd (append_eq_nil_iff.mp h).2 (cons_ne_nil _ _)

theorem objectEntry_inPath {base pathSub : Str} {info : StorageInfo (Option ι)} :
    ObjectEntry store (base ++ pathSub ++ ['/']) info ↔
      ObjectEntry store base (info.inPath (some pathSub)) := by
  have hname : base ++ pathSub ++ ['/'] ++ info.name = base ++ (pathSub ++ '/' :: info.name) := by
    simp only [append_assoc, singleton_append]
  unfold ObjectEntry StorageInfo.inPath nameSub
  rw [hname]

theorem ObjectEntry.above {base name : Str} {entry : StorageInfo (Option ι)}
    (h : ObjectEntry store base entry) {rest : Str} (hname : entry.name = name ++ '/' :: rest) :
    ObjectEntry store base { name := name, type := .path, info := none } := by
  have habove (tail : Str) :
      base ++ name ++ ['/'] <+: base ++ (name ++ '/' :: rest) ++ tail := by
    refine ⟨rest ++ tail, ?_⟩
    simp only [append_assoc, cons_append, nil_append]
  rcases h with ⟨-, -, object, hobject, hkey⟩ | ⟨info, -, -, hobject⟩
  · rw [hname] at hkey
    exact .inl ⟨rfl, rfl, object, hobject, (habove _).trans hkey⟩
  · rw [hname] at hobject
    refine .inl ⟨rfl, rfl, _, hobject, ?_⟩
    have habove' := habove []
    rwa [append_nil] at habove'

/-- The entries that are reached when the levels below the root are listed. -/
theorem storageEntry_recurse (hdir : dir ≠ []) {entry : StorageInfo (Option ι)} :
    StorageEntry (objectIterator regExpNew answers.pages ('/' :: dir) true sortOrder expression
        driverExpression) (objectRoot answers dir driverExpression) entry ↔
      ObjectEntry store (dir ++ ['/']) entry ∧
        PrefixChain (expressionPrefix driverExpression) entry.name := by
  have hbase : basePrefix ('/' :: dir) = dir ++ ['/'] := by rw [basePrefix_root, if_neg hdir]
  have hsub (name : Str) : basePrefix ('/' :: dir ++ '/' :: name) = dir ++ ['/'] ++ name ++ ['/'] := by
    rw [basePrefix_sub]
    simp only [append_assoc, singleton_append]
  constructor
  · rintro ⟨pathSub, list, info, hlevel, hinfo, rfl⟩
    have hlist : ∀ info ∈ list, ObjectEntry store (dir ++ ['/']) (info.inPath pathSub) ∧
        PrefixChain (expressionPrefix driverExpression) (info.inPath pathSub).name := by
      unfold StorageLevel at hlevel
      generalize hfinal : (pathSub, list) = final at hlevel
      induction hlevel generalizing pathSub list info with
      | refl =>
        obtain ⟨rfl, rfl⟩ := Prod.mk.inj hfinal
        intro info hinfo
        obtain ⟨hentry, part, hpart, hname⟩ := mem_storageObjectListInternal.mp hinfo
        rw [hbase] at hentry
        refine ⟨hentry, ?_⟩
        show PrefixChain _ info.name
        rw [hname]
        exact .first part hpart
      | @tail level _ _ hstep ih =>
        subst hfinal
        obtain ⟨path, hpath, -, -, heq, hlist⟩ := hstep
        dsimp only at heq hlist
        subst heq
        have habove := (ih level.1 level.2 path hpath rfl path hpath).2
        intro info hinfo
        rw [← Option.some.inj hlist] at hinfo
        obtain ⟨hentry, part, hpart, hname⟩ := mem_storageObjectListInternal.mp hinfo
        have hbelow : basePrefix ((objectIterator regExpNew answers.pages ('/' :: dir) true sortOrder
            expression driverExpression).pathFull (some (nameSub level.1 path.name))) =
            dir ++ ['/'] ++ nameSub level.1 path.name ++ ['/'] := hsub _
        rw [hbelow, objectEntry_inPath] at hentry
        refine ⟨hentry, ?_⟩
        show PrefixChain _ (nameSub level.1 path.name ++ '/' :: info.name)
        rw [hname]
        exact .inside habove part hpart
    exact hlist info hinfo
  · rintro ⟨hentry, hchain⟩
    obtain ⟨name, type, data⟩ := entry
    dsimp only at hchain
    induction hchain generalizing type data with
    | first part hpart =>
      refine ⟨none, _, { name := expressionPrefix driverExpression ++ part, type := type
                         info := data }, .refl, ?_, rfl⟩
      refine mem_storageObjectListInternal.mpr ⟨?_, part, hpart, rfl⟩
      rw [hbase]
      exact hentry
    | @inside name _ part hpart ih =>
      obtain ⟨pathSub, list, info, hlevel, hinfo, heq⟩ := ih _ _ (hentry.above rfl)
      have hname : name = nameSub pathSub info.name := congrArg StorageInfo.name heq
      have htype : info.type = .path := (congrArg StorageInfo.type heq).symm
      refine ⟨some name, storageObjectListInternal answers.pages ('/' :: dir ++ '/' :: name)
        driverExpression, { name := expressionPrefix driverExpression ++ part, type := type
                            info := data }, ?_, ?_, rfl⟩
      · exact hlevel.tail ⟨info, hinfo, htype, rfl, congrArg some hname, rfl⟩
      · refine mem_storageObjectListInternal.mpr ⟨?_, part, hpart, rfl⟩
        rw [hsub, objectEntry_inPath]
        exact hentry

/-- Nothing is listed in the paths of `/`: they begin with two slashes, and no
key begins with a slash. -/
theorem not_mem_below_root (name : Str) (info : StorageInfo (Option ι)) :
    info ∉ storageObjectListInternal answers.pages (['/'] ++ '/' :: name) driverExpression := by
  intro hinfo
  obtain ⟨hentry, -⟩ := mem_storageObjectListInternal.mp hinfo
  rw [show basePrefix (['/'] ++ '/' :: name) = '/' :: (name ++ ['/']) from basePrefix_sub [] name] at hentry
  rcases hentry with ⟨-, -, object, hobject, rest, hkey⟩ | ⟨_, -, -, hobject⟩
  · refine store.relative object hobject ?_
    rw [← hkey]
    rfl
  · exact store.relative _ hobject rfl

/-- Only the root is listed if the iterator does not recurse, or if it starts
at `/`. -/
theorem storageEntry_root (h : recurse = false ∨ dir = []) {entry : StorageInfo (Option ι)} :
    StorageEntry (objectIterator regExpNew answers.pages ('/' :: dir) recurse sortOrder expression
        driverExpression) (objectRoot answers dir driverExpression) entry ↔
      entry ∈ objectRoot answers dir driverExpression := by
  constructor
  · rintro ⟨pathSub, list, info, hlevel, hinfo, rfl⟩
    have hlist : (pathSub = none ∧ list = objectRoot answers dir driverExpression) ∨ list = [] := by
      unfold StorageLevel at hlevel
      generalize hfinal : (pathSub, list) = final at hlevel
      cases hlevel with
      | refl => exact .inl (Prod.mk.inj hfinal)
      | @tail level _ _ hstep =>
        subst hfinal
        obtain ⟨path, hpath, -, hrecurse, heq, hlist⟩ := hstep
        rcases h with hfalse | hdir
        · cases hfalse.symm.trans hrecurse
        · subst hdir
          dsimp only at heq hlist
          subst heq
          refine .inr (eq_nil_iff_forall_not_mem.mpr fun info hinfo => ?_)
          rw [← Option.some.inj hlist] at hinfo
          exact not_mem_below_root _ info hinfo
    rcases hlist with ⟨rfl, rfl⟩ | rfl
    · exact hinfo
    · cases hinfo
  · intro hentry
    exact ⟨none, _, entry, .refl, hentry, rfl⟩

end Levels

/-! ## Finite trees -/

/-- **The tree of an object store is finite**: the base prefix of a path is
not longer than the keys below it. -/
theorem objectStore_finite (answers : ObjectPages store) (expression : Option Str) (path : Str) :
    StorageFinite (fun path => some (storageObjectListInternal answers.pages path expression)) path := by
  obtain ⟨limit, hlimit⟩ : ∃ limit, ∀ object ∈ store.objects, object.1.length ≤ limit := by
    refine ⟨(store.objects.map (fun object => object.1.length)).sum, fun object hobject => ?_⟩
    exact single_le_sum (fun _ _ => Nat.zero_le _) _ (mem_map_of_mem hobject)
  have hbase (path : Str) : path.length ≤ (basePrefix path).length + 1 := by
    unfold basePrefix strSubN
    split
    · rename_i hlength
      rw [hlength]
      exact Nat.le_add_left _ _
    · rw [length_append, length_take, length_drop, length_singleton]
      omega
  have hbound (k : ℕ) (path : Str) (hk : limit + 1 < path.length + k) :
      StorageFinite (fun path => some (storageObjectListInternal answers.pages path expression)) path := by
    induction k generalizing path with
    | zero =>
      refine .intro path fun entries hentries info hinfo htype => ?_
      rw [← Option.some.inj hentries] at hinfo
      obtain ⟨hentry, -⟩ := mem_storageObjectListInternal.mp hinfo
      rcases hentry with ⟨-, -, object, hobject, hkey⟩ | ⟨_, hfile, -⟩
      · have hle := hkey.length_le
        have hpath := hbase path
        have hobject' := hlimit object hobject
        simp only [length_append] at hle
        omega
      · cases htype.symm.trans hfile
    | succ k ih =>
      refine .intro path fun entries _ info _ _ => ih _ ?_
      rw [length_append, length_cons]
      omega
  exact hbound (limit + 2) path (by omega)

end PgxBackup
