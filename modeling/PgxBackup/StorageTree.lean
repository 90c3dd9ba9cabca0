import Mathlib.Logic.Relation
import PgxBackup.StorageTraversal

/-!
# An iteration over a tree is complete

The tree is what the driver lists, from the root on. A traversal returns an
entry of any level that matches exactly once, the entries of a level in sort
order, and a path before or after everything inside it. Two entries of a
level have different names without a slash, so nothing is inside both of
them.
-/

namespace PgxBackup

open List Relation

variable {ι : Type} {param : StorageIteratorParam ι}

/-! ## Levels -/

def SubLevel (param : StorageIteratorParam ι) (a b : Option Str × List (StorageInfo ι)) : Prop :=
  ∃ info ∈ a.2, info.type = .path ∧ param.recurse = true ∧
    b.1 = some (nameSub a.1 info.name) ∧ param.list (param.pathFull b.1) = some b.2

/-- **The levels of a tree**, with what the driver lists: the root, and the
paths inside it if the iterator recurses. -/
def StorageLevel (param : StorageIteratorParam ι) (root : List (StorageInfo ι))
    (pathSub : Option Str) (list : List (StorageInfo ι)) : Prop :=
  ReflTransGen (SubLevel param) (none, root) (pathSub, list)

/-- An entry of a level of the tree. -/
def StorageEntry (param : StorageIteratorParam ι) (root : List (StorageInfo ι))
    (entry : StorageInfo ι) : Prop :=
  ∃ pathSub list info, StorageLevel param root pathSub list ∧ info ∈ list ∧
    entry = info.inPath pathSub

variable {entry : StorageInfo ι} {pathSub : Option Str} {list out : List (StorageInfo ι)} {name path : Str}
  {this : StorageIterator ι}

variable {info : StorageInfo ι}

theorem mem_matched (h : entry ∈ param.matched info) :
    entry = info ∧ param.isMatch info.name = true := by
  unfold StorageIteratorParam.matched at h
  split at h
  · rename_i hmatch
    exact ⟨mem_singleton.mp h, hmatch⟩
  · cases h

theorem mem_order {path content : List (StorageInfo ι)} :
    entry ∈ param.order path content ↔ entry ∈ path ∨ entry ∈ content := by
  unfold StorageIteratorParam.order
  split
  · rw [mem_append, or_comm]
  · rw [mem_append]

theorem Traversal.mem
    (h : Traversal param pathSub list out) {entries : List (StorageInfo ι)}
    (hlist : ∀ info ∈ list, info ∈ entries) (hentry : entry ∈ out) :
    param.isMatch entry.name = true ∧ ∃ pathSub' list' info,
      ReflTransGen (SubLevel param) (pathSub, entries) (pathSub', list') ∧ info ∈ list' ∧
        entry = info.inPath pathSub' := by
  have hself {pathSub : Option Str} {info : StorageInfo ι} {entries : List (StorageInfo ι)}
      (hinfo : info ∈ entries) {entry : StorageInfo ι}
      (hentry : entry ∈ param.matched (info.inPath pathSub)) :
      param.isMatch entry.name = true ∧ ∃ pathSub' list' info,
        ReflTransGen (SubLevel param) (pathSub, entries) (pathSub', list') ∧ info ∈ list' ∧
          entry = info.inPath pathSub' := by
    obtain ⟨rfl, hmatch⟩ := mem_matched hentry
    exact ⟨hmatch, pathSub, entries, info, .refl, hinfo, rfl⟩
  induction h generalizing entries with
  | nil pathSub => cases hentry
  | @entry pathSub info list out hcontent hrest ih =>
    rw [forall_mem_cons] at hlist
    rcases mem_append.mp hentry with hinfo | hout
    · exact hself hlist.1 hinfo
    · exact ih hlist.2 hout
  | @path pathSub info list inside out content hcontent hinside hrest ihinside ih =>
    rw [forall_mem_cons] at hlist
    rcases mem_append.mp hentry with hpath | hout
    · rcases mem_order.mp hpath with hinfo | hin
      · exact hself hlist.1 hinfo
      · obtain ⟨htype, hrecurse, list', hlist', -, rfl⟩ := content_eq hcontent
        obtain ⟨hmatch, pathSub', list'', info', hlevel, hmem, heq⟩ :=
          ihinside (fun info hinfo => mem_sort.mp hinfo) hin
        exact ⟨hmatch, pathSub', list'', info',
          hlevel.head ⟨info, hlist.1, htype, hrecurse, rfl, hlist'⟩, hmem, heq⟩
    · exact ih hlist.2 hout

theorem Traversal.inside {pathSub : Option Str} {list out : List (StorageInfo ι)}
    (h : Traversal param pathSub list out) (hinfo : info ∈ list)
    {content : StorageIteratorInfo ι} (hcontent : param.content pathSub info = some content) :
    ∃ inside, Traversal param content.pathSub content.list inside ∧ inside.Sublist out := by
  induction h with
  | nil pathSub => cases hinfo
  | @entry pathSub first list out hnone _ ih =>
    rcases mem_cons.mp hinfo with rfl | hmem
    · rw [hnone] at hcontent
      cases hcontent
    · obtain ⟨inside, hinside, hsub⟩ := ih hmem hcontent
      exact ⟨inside, hinside, hsub.trans (sublist_append_right _ _)⟩
  | @path pathSub first list inside out content' hcontent' hinside _ _ ih =>
    rcases mem_cons.mp hinfo with rfl | hmem
    · rw [hcontent'] at hcontent
      rw [← Option.some.inj hcontent]
      refine ⟨inside, hinside, ?_⟩
      have horder : inside.Sublist (param.order (param.matched (info.inPath pathSub)) inside) := by
        unfold StorageIteratorParam.order
        split
        · exact sublist_append_left _ _
        · exact sublist_append_right _ _
      exact horder.trans (sublist_append_left _ _)
    · obtain ⟨inside', hinside', hsub⟩ := ih hmem hcontent
      exact ⟨inside', hinside', hsub.trans (sublist_append_right _ _)⟩

theorem Traversal.sublist_self (h : Traversal param pathSub list out) :
    ((list.map (StorageInfo.inPath pathSub)).filter
      (fun entry => param.isMatch entry.name)).Sublist out := by
  have hself (pathSub : Option Str) (info : StorageInfo ι) (rest : List (StorageInfo ι)) :
      (((info :: rest).map (StorageInfo.inPath pathSub)).filter
        (fun entry => param.isMatch entry.name)) =
        param.matched (info.inPath pathSub) ++ (rest.map (StorageInfo.inPath pathSub)).filter
          (fun entry => param.isMatch entry.name) := by
    rw [map_cons, filter_cons]
    unfold StorageIteratorParam.matched
    split <;> rfl
  induction h with
  | nil pathSub => exact List.Sublist.refl _
  | @entry pathSub info list out _ _ ih =>
    rw [hself]
    exact (List.Sublist.refl _).append ih
  | @path pathSub info list inside out content _ _ _ _ ih =>
    rw [hself]
    refine List.Sublist.append ?_ ih
    unfold StorageIteratorParam.order
    split
    · exact sublist_append_right _ _
    · exact sublist_append_left _ _

/-- **The entries of a level that match are returned in sort order.** -/
theorem Traversal.sublist_level {pathSub' : Option Str}
    {entries list' : List (StorageInfo ι)} (h : Traversal param pathSub (param.sort entries) out)
    (hlevel : ReflTransGen (SubLevel param) (pathSub, entries) (pathSub', list')) :
    (((param.sort list').map (StorageInfo.inPath pathSub')).filter
      (fun entry => param.isMatch entry.name)).Sublist out := by
  generalize hstart : (pathSub, entries) = start at hlevel
  induction hlevel using ReflTransGen.head_induction_on generalizing pathSub entries out with
  | refl =>
    obtain ⟨rfl, rfl⟩ := Prod.mk.inj hstart
    exact h.sublist_self
  | @head _ next hstep _ ih =>
    subst hstart
    obtain ⟨info, hinfo, htype, hrecurse, hsub, hlist⟩ := hstep
    obtain ⟨nextSub, nextList⟩ := next
    subst hsub
    cases nextList with
    | nil =>
      -- nothing is inside an empty path
      have hempty : Traversal param (some (nameSub pathSub info.name)) (param.sort []) [] := by
        have hsort : param.sort [] = [] := by
          rw [eq_nil_iff_forall_not_mem]
          exact fun info hmem => absurd (mem_sort.mp hmem) not_mem_nil
        rw [hsort]
        exact .nil _
      exact (ih hempty rfl).trans (nil_sublist _)
    | cons first rest =>
      have hcontent : param.content pathSub info = some
          { pathSub := some (nameSub pathSub info.name), list := param.sort (first :: rest)
            listIdx := 0, pathContentSkip := false } := by
        unfold StorageIteratorParam.content storageItrPathAdd
        rw [if_pos ⟨htype, hrecurse⟩, hlist]
      obtain ⟨inside, hinside, hsubl⟩ := h.inside (mem_sort.mpr hinfo) hcontent
      exact (ih hinside rfl).trans hsubl

/-! ## The order of a traversal -/

/-- The beginning of the names of everything inside a path. -/
def insidePrefix (name : Str) : Str := name ++ ['/']

def Inside (name path : Str) : Prop := insidePrefix path <+: name

/-- An entry of a list, or anything inside it. -/
def Under (pathSub : Option Str) (info entry : StorageInfo ι) : Prop :=
  entry = info.inPath pathSub ∨
    info.type = .path ∧ Inside entry.name (nameSub pathSub info.name)

theorem Under.inside {path : Str} {entry : StorageInfo ι} (h : Under (some path) info entry) :
    Inside entry.name path := by
  rcases h with rfl | ⟨-, rest, hname⟩
  · refine ⟨info.name, ?_⟩
    unfold insidePrefix
    rw [append_assoc]
    rfl
  · refine ⟨info.name ++ '/' :: rest, ?_⟩
    rw [← hname]
    unfold insidePrefix nameSub
    simp only [append_assoc, cons_append, nil_append]

theorem Traversal.under (h : Traversal param pathSub list out) (hentry : entry ∈ out) :
    ∃ info ∈ list, Under pathSub info entry := by
  induction h with
  | nil pathSub => cases hentry
  | @entry pathSub info list out hcontent _ ih =>
    rcases mem_append.mp hentry with hinfo | hout
    · exact ⟨info, mem_cons_self, .inl (mem_matched hinfo).1⟩
    · obtain ⟨info', hmem, hunder⟩ := ih hout
      exact ⟨info', mem_cons_of_mem _ hmem, hunder⟩
  | @path pathSub info list inside out content hcontent _ _ ihinside ih =>
    rcases mem_append.mp hentry with hpath | hout
    · refine ⟨info, mem_cons_self, ?_⟩
      rcases mem_order.mp hpath with hinfo | hin
      · exact .inl (mem_matched hinfo).1
      · obtain ⟨htype, -, _, -, -, rfl⟩ := content_eq hcontent
        obtain ⟨info', -, hunder⟩ := ihinside hin
        exact .inr ⟨htype, hunder.inside⟩
    · obtain ⟨info', hmem, hunder⟩ := ih hout
      exact ⟨info', mem_cons_of_mem _ hmem, hunder⟩

/-- **A relation that a traversal keeps.** It holds between what is under the
entries of a level in the order of the level, and between a path and what is
inside it in the order they are returned. -/
structure TraversalOrder (param : StorageIteratorParam ι)
    (level : Option Str → List (StorageInfo ι) → Prop)
    (r : StorageInfo ι → StorageInfo ι → Prop) : Prop where
  tail : ∀ pathSub info list, level pathSub (info :: list) → level pathSub list
  content : ∀ pathSub info list content, level pathSub (info :: list) →
    param.content pathSub info = some content → level content.pathSub content.list
  siblings : ∀ pathSub info list, level pathSub (info :: list) → ∀ info' ∈ list,
    ∀ first second, Under pathSub info first → Under pathSub info' second → r first second
  inside : ∀ path entry : StorageInfo ι, path.type = .path → Inside entry.name path.name →
    if param.sortOrder = some .desc then r entry path else r path entry

/-- **A traversal keeps such a relation.** -/
theorem Traversal.pairwise {level : Option Str → List (StorageInfo ι) → Prop}
    {r : StorageInfo ι → StorageInfo ι → Prop} (horder : TraversalOrder param level r)
    (h : Traversal param pathSub list out) (hlevel : level pathSub list) : out.Pairwise r := by
  have hself (info : StorageInfo ι) : (param.matched info).Pairwise r := by
    unfold StorageIteratorParam.matched
    split
    · exact pairwise_singleton _ info
    · exact .nil
  have hrest {pathSub : Option Str} {info : StorageInfo ι} {list here out : List (StorageInfo ι)}
      (hlevel : level pathSub (info :: list)) (hrest : Traversal param pathSub list out)
      (hout : out.Pairwise r) (hhere : here.Pairwise r)
      (hunder : ∀ entry ∈ here, Under pathSub info entry) : (here ++ out).Pairwise r := by
    refine pairwise_append.mpr ⟨hhere, hout, fun first hfirst second hsecond => ?_⟩
    obtain ⟨info', hmem, hunder'⟩ := hrest.under hsecond
    exact horder.siblings _ _ _ hlevel info' hmem _ _ (hunder first hfirst) hunder'
  induction h with
  | nil pathSub => exact .nil
  | @entry pathSub info list out hcontent htail ih =>
    refine hrest hlevel htail (ih (horder.tail _ _ _ hlevel)) (hself _) fun entry hentry => ?_
    exact .inl (mem_matched hentry).1
  | @path pathSub info list inside out content hcontent hinside htail ihinside ih =>
    have hbelow := ihinside (horder.content _ _ _ _ hlevel hcontent)
    obtain ⟨htype, -, list', -, -, rfl⟩ := content_eq hcontent
    have hin (entry : StorageInfo ι) (hentry : entry ∈ inside) :
        Inside entry.name (info.inPath pathSub).name := by
      obtain ⟨info', -, hunder⟩ := hinside.under hentry
      exact hunder.inside
    have hpath : (param.order (param.matched (info.inPath pathSub)) inside).Pairwise r := by
      unfold StorageIteratorParam.order
      split
      · rename_i hdesc
        refine pairwise_append.mpr ⟨hbelow, hself _, fun first hfirst second hsecond => ?_⟩
        rw [(mem_matched hsecond).1]
        have hr := horder.inside (info.inPath pathSub) first htype (hin first hfirst)
        rwa [if_pos hdesc] at hr
      · rename_i hdesc
        refine pairwise_append.mpr ⟨hself _, hbelow, fun first hfirst second hsecond => ?_⟩
        rw [(mem_matched hfirst).1]
        have hr := horder.inside (info.inPath pathSub) second htype (hin second hsecond)
        rwa [if_neg hdesc] at hr
    refine hrest hlevel htail (ih (horder.tail _ _ _ hlevel)) hpath fun entry hentry => ?_
    rcases mem_order.mp hentry with hinfo | hmem
    · exact .inl (mem_matched hinfo).1
    · exact .inr ⟨htype, hin entry hmem⟩

/-! ## Names -/

theorem not_inside_self (name : Str) : ¬Inside name name := by
  intro h
  have hle := h.length_le
  unfold insidePrefix at hle
  rw [length_append, length_singleton] at hle
  exact absurd hle (Nat.not_succ_le_self _)

theorem Inside.insidePrefix (h : Inside name path) :
    insidePrefix path <+: insidePrefix name :=
  h.trans (prefix_append _ _)

theorem Inside.not_inside (h : Inside name path) : ¬Inside path name := by
  intro h'
  exact not_inside_self path (h.insidePrefix.trans h')

theorem Under.insidePrefix (h : Under pathSub info entry) :
    insidePrefix (nameSub pathSub info.name) <+: insidePrefix entry.name := by
  rcases h with rfl | ⟨-, hinside⟩
  · exact prefix_rfl
  · exact hinside.insidePrefix

theorem takeWhile_slash (hname : '/' ∉ name) (rest : Str) :
    (name ++ '/' :: rest).takeWhile (· ≠ '/') = name := by
  rw [takeWhile_append_of_pos, takeWhile_cons_of_neg, append_nil]
  · simp
  · intro c hc
    simpa using ne_of_mem_of_not_mem hc hname

/-- **Nothing is inside two entries of a level** when there are no slashes in
the names of entries. -/
theorem name_eq_of_inside {a b : Str}
    (ha : insidePrefix (nameSub pathSub a) <+: name) (hb : insidePrefix (nameSub pathSub b) <+: name)
    (hslash : '/' ∉ a) (hslash' : '/' ∉ b) : a = b := by
  have hcut {a b : Str} (ha : '/' ∉ a) (hb : '/' ∉ b)
      (h : insidePrefix (nameSub pathSub a) <+: insidePrefix (nameSub pathSub b)) : a = b := by
    have hlocal : a ++ ['/'] <+: b ++ ['/'] := by
      unfold PgxBackup.insidePrefix nameSub at h
      cases pathSub with
      | none => exact h
      | some pathSub =>
        rw [append_assoc, append_assoc, prefix_append_right_inj,
          cons_append, cons_append, cons_prefix_cons] at h
        exact h.2
    obtain ⟨rest, hrest⟩ := hlocal
    rw [append_assoc, singleton_append] at hrest
    have htake := congrArg (takeWhile (· ≠ '/')) hrest
    rwa [takeWhile_slash ha, takeWhile_slash hb] at htake
  rcases prefix_or_prefix_of_prefix ha hb with h | h
  · exact hcut hslash hslash' h
  · exact (hcut hslash' hslash h).symm

/-! ## Trees -/

/-- **A directory tree**: what the driver lists below a path if nothing
changes. The entries of a path have different names, and no name has a
slash. -/
structure StorageTree (list : Str → Option (List (StorageInfo ι))) (path : Str) : Prop where
  finite : StorageFinite list path
  nodup : ∀ path entries, list path = some entries → (entries.map StorageInfo.name).Nodup
  slash : ∀ path entries, list path = some entries → ∀ info ∈ entries, '/' ∉ info.name

/-- **The order of a traversal**: no entry is returned twice, and a path is
returned before everything inside it, or after it in descending order. -/
def StorageIteratorParam.InOrder (param : StorageIteratorParam ι)
    (first second : StorageInfo ι) : Prop :=
  first.name ≠ second.name ∧
    if param.sortOrder = some .desc then ¬Inside second.name first.name
    else ¬Inside first.name second.name

/-- A level of a tree: different names without slashes. -/
def NamesDiffer (_ : Option Str) (list : List (StorageInfo ι)) : Prop :=
  (list.map StorageInfo.name).Nodup ∧ ∀ info ∈ list, '/' ∉ info.name

theorem sort_namesDiffer (pathSub : Option Str)
    (hnodup : (list.map StorageInfo.name).Nodup) (hslash : ∀ info ∈ list, '/' ∉ info.name) :
    NamesDiffer pathSub (param.sort list) :=
  ⟨((sort_perm list).map StorageInfo.name).nodup_iff.mpr hnodup,
    fun info hinfo => hslash info (mem_sort.mp hinfo)⟩

theorem StorageTree.inOrder (htree : StorageTree param.list path) :
    TraversalOrder param NamesDiffer param.InOrder where
  tail _ _ _ hlevel := ⟨(nodup_cons.mp hlevel.1).2, (forall_mem_cons.mp hlevel.2).2⟩
  content pathSub info list content _ hcontent := by
    obtain ⟨-, -, list', hlist', -, rfl⟩ := content_eq hcontent
    exact sort_namesDiffer _ (htree.nodup _ _ hlist') (htree.slash _ _ hlist')
  siblings pathSub info list hlevel info' hinfo' first second hfirst hsecond := by
    have hne : info.name ≠ info'.name := by
      intro heq
      have hnodup := (nodup_cons.mp hlevel.1).1
      rw [heq] at hnodup
      exact hnodup (mem_map_of_mem hinfo')
    have hslash := hlevel.2 info mem_cons_self
    have hslash' := hlevel.2 info' (mem_cons_of_mem _ hinfo')
    refine ⟨fun heq => ?_, ?_⟩
    · have hprefix := hfirst.insidePrefix
      rw [heq] at hprefix
      exact hne (name_eq_of_inside hprefix hsecond.insidePrefix hslash hslash')
    · split
      · intro hinside
        exact hne (name_eq_of_inside (hfirst.insidePrefix.trans hinside.insidePrefix)
          hsecond.insidePrefix hslash hslash')
      · intro hinside
        exact hne (name_eq_of_inside hfirst.insidePrefix
          (hsecond.insidePrefix.trans hinside.insidePrefix) hslash hslash')
  inside path entry _ hinside := by
    have hne : entry.name ≠ path.name := by
      intro heq
      rw [heq] at hinside
      exact not_inside_self path.name hinside
    unfold StorageIteratorParam.InOrder
    split
    · exact ⟨hne, hinside.not_inside⟩
    · exact ⟨hne.symm, hinside.not_inside⟩

/-! ## Complete iterations -/

/-- A list in the order that was requested: as the driver lists it if none
was. -/
def StorageIteratorParam.Sorted (param : StorageIteratorParam ι)
    (list sorted : List (StorageInfo ι)) : Prop :=
  sorted.Perm list ∧
    match param.sortOrder with
    | none => sorted = list
    | some .asc => sorted.Pairwise (fun a b => a.name ≤ b.name)
    | some .desc => sorted.Pairwise (fun a b => a.name ≥ b.name)

theorem sort_sorted (list : List (StorageInfo ι)) : param.Sorted list (param.sort list) := by
  have hasc : (storageLstSort list .asc).Pairwise (fun a b => a.name ≤ b.name) := by
    exact pairwise_insertionSort _ list
  have hdesc : (storageLstSort list .desc).Pairwise (fun a b => a.name ≥ b.name) := by
    exact pairwise_insertionSort _ list
  refine ⟨sort_perm list, ?_⟩
  unfold StorageIteratorParam.sort
  match param.sortOrder with
  | none => rfl
  | some .asc => exact hasc
  | some .desc => exact hdesc

/-- **A complete iteration** over a tree with this list at the root: the
entries that match are returned, each once and with the path relative to the
root, a path before or after its content and siblings in sort order. -/
structure CompleteIteration (param : StorageIteratorParam ι) (root out : List (StorageInfo ι)) :
    Prop where
  mem : ∀ entry, entry ∈ out ↔
    StorageEntry param root entry ∧ param.isMatch entry.name = true
  order : out.Pairwise param.InOrder
  siblings : ∀ pathSub list, StorageLevel param root pathSub list →
    ∃ sorted, param.Sorted list sorted ∧
      ((sorted.map (StorageInfo.inPath pathSub)).filter
        (fun entry => param.isMatch entry.name)).Sublist out

theorem Traversal.mem_iff {root : List (StorageInfo ι)}
    (h : Traversal param none (param.sort root) out) :
    entry ∈ out ↔ StorageEntry param root entry ∧ param.isMatch entry.name = true := by
  refine ⟨fun hentry => ?_, ?_⟩
  · obtain ⟨hmatch, pathSub, list, info, hlevel, hinfo, rfl⟩ :=
      h.mem (fun info hinfo => mem_sort.mp hinfo) hentry
    exact ⟨⟨pathSub, list, info, hlevel, hinfo, rfl⟩, hmatch⟩
  · rintro ⟨⟨pathSub, list, info, hlevel, hinfo, rfl⟩, hmatch⟩
    refine (h.sublist_level hlevel).mem ?_
    exact mem_filter.mpr ⟨mem_map_of_mem (mem_sort.mpr hinfo), hmatch⟩

theorem Traversal.complete {root : List (StorageInfo ι)}
    (h : Traversal param none (param.sort root) out) (htree : StorageTree param.list param.path)
    (hnodup : (root.map StorageInfo.name).Nodup) (hslash : ∀ info ∈ root, '/' ∉ info.name) :
    CompleteIteration param root out where
  mem := fun _ => h.mem_iff
  order := h.pairwise htree.inOrder (sort_namesDiffer none hnodup hslash)
  siblings := fun _ list hlevel => ⟨param.sort list, sort_sorted list, h.sublist_level hlevel⟩

theorem storageItrNew_turns {errorOnMissing nullOnMissing : Bool}
    (hnew : storageItrNew param errorOnMissing nullOnMissing = .ok (some this))
    (h : Traversal param none (param.sort ((param.list param.path).getD [])) out) :
    this.returnedNext = true ∧ ∃ n, Turns param n this.stack out [] := by
  have hthis : this =
      { stack := (storageItrPathAdd param none).2.toList, returnedNext := true
        infoNext := none } := by
    unfold storageItrNew at hnew
    dsimp only at hnew
    split at hnew
    · exact (Option.some.inj (Except.ok.inj hnew)).symm
    · split at hnew
      · cases hnew
      · split at hnew
        · cases Except.ok.inj hnew
        · exact (Option.some.inj (Except.ok.inj hnew)).symm
  subst hthis
  refine ⟨rfl, ?_⟩
  have hempty {out : List (StorageInfo ι)} (h : Traversal param none (param.sort []) out) :
      out = [] := by
    rw [perm_nil.mp (sort_perm [])] at h
    cases h
    rfl
  unfold storageItrPathAdd
  rw [show param.pathFull none = param.path from rfl]
  match hlist : param.list param.path with
  | none =>
    rw [hlist] at h
    rw [hempty h]
    exact ⟨0, .refl []⟩
  | some [] =>
    rw [hlist] at h
    rw [hempty h]
    exact ⟨0, .refl []⟩
  | some (info :: list) =>
    rw [hlist] at h
    exact h.turns [] []

/-- **What an iterator returns**: its infos until there is no more, however
often it is asked whether there is more. -/
def StorageIteration (param : StorageIteratorParam ι) (this : StorageIterator ι)
    (out : List (StorageInfo ι)) : Prop :=
  ∃ limit, ∀ (extra : ℕ → ℕ) (fuelMore fuel : ℕ), limit < fuelMore → limit < fuel →
    storageItrAll param fuelMore extra fuel 0 this = some out

theorem StorageIteration.unique {out' : List (StorageInfo ι)}
    (h : StorageIteration param this out) (h' : StorageIteration param this out') : out = out' := by
  obtain ⟨limit, hlimit⟩ := h
  obtain ⟨limit', hlimit'⟩ := h'
  have hout := hlimit id (limit + limit' + 1) (limit + limit' + 1) (by omega) (by omega)
  rw [hlimit' id _ _ (by omega) (by omega)] at hout
  exact (Option.some.inj hout).symm

/-- A new iterator returns the traversal of the root. -/
theorem Traversal.iteration {errorOnMissing nullOnMissing : Bool}
    (hnew : storageItrNew param errorOnMissing nullOnMissing = .ok (some this))
    (h : Traversal param none (param.sort ((param.list param.path).getD [])) out) :
    StorageIteration param this out := by
  obtain ⟨hreturned, n, hturns⟩ := storageItrNew_turns hnew h
  refine ⟨max n out.length, fun extra fuelMore fuel hmore hfuel => ?_⟩
  have hall := hturns.all (lt_of_le_of_lt (le_max_left _ _) hmore) extra 0 this.infoNext
    (lt_of_le_of_lt (le_max_right _ _) hfuel)
  obtain ⟨stack, returnedNext, infoNext⟩ := this
  rw [show returnedNext = true from hreturned]
  exact hall

/-- **Storage iteration is complete.** For every tree the calls terminate,
with any number of extra calls of `storageItrMore`, and what they return is a
complete iteration. -/
theorem storageItrAll_complete (param : StorageIteratorParam ι)
    (htree : StorageTree param.list param.path) (errorOnMissing nullOnMissing : Bool)
    (this : StorageIterator ι)
    (hnew : storageItrNew param errorOnMissing nullOnMissing = .ok (some this)) :
    ∃ out, StorageIteration param this out ∧
      CompleteIteration param ((param.list param.path).getD []) out := by
  have hroot : (((param.list param.path).getD []).map StorageInfo.name).Nodup ∧
      (∀ info ∈ (param.list param.path).getD [], '/' ∉ info.name) ∧
      ∃ out, Traversal param none (param.sort ((param.list param.path).getD [])) out := by
    cases hlist : param.list param.path with
    | none =>
      refine ⟨nodup_nil, fun info hinfo => absurd hinfo not_mem_nil, [], ?_⟩
      rw [show (none : Option (List (StorageInfo ι))).getD [] = [] from rfl,
        perm_nil.mp (sort_perm [])]
      exact .nil none
    | some entries =>
      exact ⟨htree.nodup _ _ hlist, htree.slash _ _ hlist,
        exists_traversal htree.finite none rfl hlist _ (fun info hinfo => mem_sort.mp hinfo)⟩
  obtain ⟨hnodup, hslash, out, hout⟩ := hroot
  exact ⟨out, hout.iteration hnew, hout.complete htree hnodup hslash⟩

/-- Descending order with an expression: `a/c` and `a` are returned. -/
def sampleStorageParam : StorageIteratorParam Unit where
  list path :=
    if path = ['r'] then some [⟨['a'], .path, ()⟩, ⟨['b'], .file, ()⟩]
    else if path = ['r', '/', 'a'] then some [⟨['c'], .file, ()⟩]
    else none
  path := ['r']
  recurse := true
  sortOrder := some .desc
  regExp := some (fun name => name.head? = some 'a')

theorem sampleStorageParam_tree :
    StorageTree sampleStorageParam.list sampleStorageParam.path := by
  have hlist (path : Str) (entries : List (StorageInfo Unit))
      (h : sampleStorageParam.list path = some entries) :
      (path = ['r'] ∧ entries = [⟨['a'], .path, ()⟩, ⟨['b'], .file, ()⟩]) ∨
        (path = ['r', '/', 'a'] ∧ entries = [⟨['c'], .file, ()⟩]) := by
    unfold sampleStorageParam at h
    dsimp only at h
    split at h
    · exact .inl ⟨by assumption, (Option.some.inj h).symm⟩
    · split at h
      · exact .inr ⟨by assumption, (Option.some.inj h).symm⟩
      · cases h
  have hleaf : StorageFinite sampleStorageParam.list ['r', '/', 'a'] := by
    refine .intro _ fun entries hentries info hinfo htype => ?_
    obtain ⟨hpath, -⟩ | ⟨-, rfl⟩ := hlist _ _ hentries
    · cases hpath
    · rw [mem_singleton.mp hinfo] at htype
      cases htype
  refine ⟨.intro _ fun entries hentries info hinfo htype => ?_, ?_, ?_⟩
  · obtain ⟨-, rfl⟩ | ⟨hpath, -⟩ := hlist _ _ hentries
    · rcases mem_cons.mp hinfo with rfl | hb
      · exact hleaf
      · rw [mem_singleton.mp hb] at htype
        cases htype
    · cases hpath
  · intro path entries hentries
    obtain ⟨-, rfl⟩ | ⟨-, rfl⟩ := hlist _ _ hentries
    · decide
    · decide
  · intro path entries hentries
    obtain ⟨-, rfl⟩ | ⟨-, rfl⟩ := hlist _ _ hentries
    · decide
    · decide

theorem storageItrAll_complete_sample :
    ∃ out, StorageIteration sampleStorageParam
        { stack := [⟨none, [⟨['b'], .file, ()⟩, ⟨['a'], .path, ()⟩], 0, false⟩]
          returnedNext := true, infoNext := none } out ∧
      CompleteIteration sampleStorageParam [⟨['a'], .path, ()⟩, ⟨['b'], .file, ()⟩] out :=
  storageItrAll_complete sampleStorageParam sampleStorageParam_tree true false _ rfl

/-! ## Ascending and descending -/

/-- The iteration in ascending order. -/
abbrev StorageIteratorParam.asc (param : StorageIteratorParam ι) : StorageIteratorParam ι :=
  { param with sortOrder := some .asc }

/-- The iteration in descending order. -/
abbrev StorageIteratorParam.desc (param : StorageIteratorParam ι) : StorageIteratorParam ι :=
  { param with sortOrder := some .desc }

/-- The descending order of different names is the ascending one reversed. -/
theorem sort_desc (hnodup : (list.map StorageInfo.name).Nodup) :
    param.desc.sort list = (param.asc.sort list).reverse := by
  have hasc : param.asc.Sorted list (param.asc.sort list) := sort_sorted list
  have hdesc : param.desc.Sorted list (param.desc.sort list) := sort_sorted list
  refine Perm.eq_of_pairwise (fun a b ha hb hge hle => ?_) hdesc.2 (pairwise_reverse.mpr hasc.2) ?_
  · exact inj_on_of_nodup_map hnodup (mem_sort.mp ha) (mem_sort.mp (mem_reverse.mp hb))
      (le_antisymm hle hge)
  · exact hdesc.1.trans ((reverse_perm _).trans hasc.1).symm

theorem content_desc (htree : StorageTree param.list path) (pathSub : Option Str)
    (info : StorageInfo ι) :
    param.desc.content pathSub info = (param.asc.content pathSub info).map
      (fun content => { content with list := content.list.reverse }) := by
  have hadd (pathSub : Option Str) : (storageItrPathAdd param.desc pathSub).2 =
      (storageItrPathAdd param.asc pathSub).2.map
        (fun content => { content with list := content.list.reverse }) := by
    unfold storageItrPathAdd
    rw [show param.desc.list (param.desc.pathFull pathSub) = param.list (param.pathFull pathSub) from rfl,
      show param.asc.list (param.asc.pathFull pathSub) = param.list (param.pathFull pathSub) from rfl]
    cases h : param.list (param.pathFull pathSub) with
    | none => rfl
    | some entries =>
      cases entries with
      | nil => rfl
      | cons first rest =>
        dsimp only
        rw [sort_desc (htree.nodup _ _ h)]
        rfl
  unfold StorageIteratorParam.content
  rw [hadd, apply_ite (Option.map _)]
  rfl

theorem Traversal.append {list' out' : List (StorageInfo ι)} (h : Traversal param pathSub list out)
    (h' : Traversal param pathSub list' out') :
    Traversal param pathSub (list ++ list') (out ++ out') := by
  induction h with
  | nil pathSub => exact h'
  | entry hcontent _ ih =>
    rw [append_assoc]
    exact .entry hcontent (ih h')
  | path hcontent hinside _ _ ih =>
    rw [append_assoc]
    exact .path hcontent hinside (ih h')

/-- **A traversal backward**: an entry follows those behind it, and a path its
content. -/
theorem Traversal.reverse (htree : StorageTree param.list path)
    (h : Traversal param.asc pathSub list out) :
    Traversal param.desc pathSub list.reverse out.reverse := by
  have hself (info : StorageInfo ι) : (param.asc.matched info).reverse = param.desc.matched info :=
    apply_ite List.reverse _ _ _
  induction h with
  | nil pathSub => exact .nil pathSub
  | @entry pathSub info list out hnone _ ih =>
    rw [reverse_cons, reverse_append, hself, ← append_nil (param.desc.matched _)]
    exact ih.append (.entry (by rw [content_desc htree, hnone]; rfl) (.nil pathSub))
  | @path pathSub info list inside out content hsome _ _ ihinside ih =>
    have horder : (param.asc.order (param.asc.matched (info.inPath pathSub)) inside).reverse =
        param.desc.order (param.desc.matched (info.inPath pathSub)) inside.reverse :=
      reverse_append.trans (congrArg _ (hself _))
    rw [reverse_cons, reverse_append, horder, ← append_nil (param.desc.order _ _)]
    exact ih.append (.path (by rw [content_desc htree, hsome]; rfl) ihinside (.nil pathSub))

/-- **A descending iteration is the ascending one backward**, also when not
all names match. -/
theorem storageItrAll_desc (param : StorageIteratorParam ι) (htree : StorageTree param.list param.path)
    (errorOnMissing nullOnMissing : Bool) (this this' : StorageIterator ι)
    (hasc : storageItrNew param.asc errorOnMissing nullOnMissing = .ok (some this))
    (hdesc : storageItrNew param.desc errorOnMissing nullOnMissing = .ok (some this')) :
    ∃ out, StorageIteration param.asc this out ∧ StorageIteration param.desc this' out.reverse := by
  have hroot : ∃ out, Traversal param.asc none (param.asc.sort ((param.list param.path).getD [])) out ∧
      ((param.list param.path).getD [] |>.map StorageInfo.name).Nodup := by
    cases hlist : param.list param.path with
    | none =>
      refine ⟨[], ?_, nodup_nil⟩
      rw [show (none : Option (List (StorageInfo ι))).getD [] = [] from rfl, perm_nil.mp (sort_perm [])]
      exact .nil none
    | some entries =>
      obtain ⟨out, hout⟩ := @exists_traversal _ param.asc _ htree.finite none rfl _ hlist
        (param.asc.sort entries) (fun info => mem_sort.mp)
      exact ⟨out, hout, htree.nodup _ _ hlist⟩
  obtain ⟨out, hout, hnodup⟩ := hroot
  have hback := hout.reverse htree
  rw [← sort_desc hnodup] at hback
  exact ⟨out, hout.iteration hasc, hback.iteration hdesc⟩

theorem storageItrAll_desc_sample :
    ∃ out, StorageIteration sampleStorageParam.asc
        { stack := [⟨none, [⟨['a'], .path, ()⟩, ⟨['b'], .file, ()⟩], 0, false⟩]
          returnedNext := true, infoNext := none } out ∧
      StorageIteration sampleStorageParam.desc
        { stack := [⟨none, [⟨['b'], .file, ()⟩, ⟨['a'], .path, ()⟩], 0, false⟩]
          returnedNext := true, infoNext := none } out.reverse :=
  storageItrAll_desc sampleStorageParam sampleStorageParam_tree true false _ _ rfl rfl

end PgxBackup
