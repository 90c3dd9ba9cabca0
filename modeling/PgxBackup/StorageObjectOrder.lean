import Mathlib.Data.List.TakeWhile
import PgxBackup.PathOrder
import PgxBackup.StorageObjectTree
import PgxBackup.StrPath

/-!
# The order of an iteration over an object store

The entries of a path come in the order of their names, except that it is up to
the pages whether a file comes before a path. With a sort this is left of it for a
file and a path of the same name. An entry is found by the parts of its name, so
the order of two entries is that of the parts where they differ.
-/

namespace PgxBackup

open List PathOrder

variable {ι : Type} {store : ObjectStore ι} {answers : ObjectPages store}

/-! ## The order of entries -/

/-- The steps that lead to a name: its parts, and whether each is a file. -/
def nameSteps (file : Bool) : Str → List (Str × Bool)
  | [] => [([], file)]
  | chr :: name =>
    if chr = '/' then ([], false) :: nameSteps file name
    else
      match nameSteps file name with
      | [] => []
      | (part, partFile) :: steps => (chr :: part, partFile) :: steps

theorem nameSteps_cons (file : Bool) (chr : Char) (name : Str) :
    nameSteps file (chr :: name) =
      if chr = '/' then ([], false) :: nameSteps file name
      else
        match nameSteps file name with
        | [] => []
        | (part, partFile) :: steps => (chr :: part, partFile) :: steps :=
  rfl

theorem nameSteps_ne_nil (file : Bool) (name : Str) : nameSteps file name ≠ [] := by
  induction name with
  | nil => exact cons_ne_nil _ _
  | cons chr name ih =>
    unfold nameSteps
    split
    · exact cons_ne_nil _ _
    · cases hsteps : nameSteps file name with
      | nil => exact absurd hsteps ih
      | cons step steps => exact cons_ne_nil _ _

theorem nameSteps_part (file : Bool) {part : Str} (hpart : '/' ∉ part) :
    nameSteps file part = [(part, file)] := by
  induction part with
  | nil => rfl
  | cons chr part ih =>
    rw [mem_cons, not_or] at hpart
    unfold nameSteps
    rw [if_neg (fun heq => hpart.1 heq.symm), ih hpart.2]

theorem nameSteps_slash (file : Bool) (path name : Str) :
    nameSteps file (path ++ '/' :: name) = nameSteps false path ++ nameSteps file name := by
  induction path with
  | nil => rfl
  | cons chr path ih =>
    rw [cons_append, nameSteps_cons, nameSteps_cons, ih]
    split
    · rfl
    · cases hsteps : nameSteps false path with
      | nil => exact absurd hsteps (nameSteps_ne_nil false path)
      | cons step steps => rfl

/-- The name of a path, with a slash at its end. -/
def levelName (steps : List (Str × Bool)) : Str := steps.flatMap (fun step => step.1 ++ ['/'])

theorem levelName_nameSteps (file : Bool) (name : Str) : levelName (nameSteps file name) = name ++ ['/'] := by
  induction name with
  | nil => rfl
  | cons chr name ih =>
    rw [nameSteps_cons]
    split
    · rename_i hchr
      rw [hchr, cons_append, ← ih]
      rfl
    · cases hsteps : nameSteps file name with
      | nil => exact absurd hsteps (nameSteps_ne_nil file name)
      | cons step steps =>
        rw [hsteps] at ih
        rw [cons_append, ← ih]
        rfl

/-- The last step of names with a common beginning. -/
theorem exists_lastStep (path : Str) : ∃ above, path = levelName above ++ strBaseZ path ∧
    ∀ (file : Bool) (part : Str), '/' ∉ part →
      nameSteps file (path ++ part) = above ++ [(strBaseZ path ++ part, file)] := by
  by_cases hslash : '/' ∈ path.reverse
  · obtain ⟨last, before, hlast, heq⟩ := exists_slash hslash
    have hpath : path = before.reverse ++ '/' :: last.reverse := by
      rw [← reverse_reverse path, heq, reverse_append, reverse_cons,
        append_assoc]
      rfl
    have hbase : strBaseZ path = last.reverse := by
      rw [hpath, strBaseZ_append _ (by rwa [mem_reverse])]
    refine ⟨nameSteps false before.reverse, ?_, fun file part hpart => ?_⟩
    · rw [levelName_nameSteps, hbase, hpath, append_assoc]
      rfl
    · have hslash' : '/' ∉ last.reverse ++ part := by
        rw [mem_append, mem_reverse, not_or]
        exact ⟨hlast, hpart⟩
      rw [hbase, hpath, append_assoc, cons_append, nameSteps_slash, nameSteps_part file hslash']
  · have hbase : strBaseZ path = path := by
      unfold strBaseZ
      rw [takeWhile_eq_self_iff.mpr, reverse_reverse]
      intro c hc
      simpa using ne_of_mem_of_not_mem hc hslash
    rw [mem_reverse] at hslash
    refine ⟨[], hbase.symm, fun file part hpart => ?_⟩
    rw [hbase, nameSteps_part, nil_append]
    rw [mem_append, not_or]
    exact ⟨hslash, hpart⟩

theorem strBaseZ_nameSub (pathSub : Option Str) (name : Str) : strBaseZ (nameSub pathSub name) = strBaseZ name := by
  cases pathSub with
  | none => rfl
  | some pathSub =>
    unfold nameSub strBaseZ
    rw [reverse_append, reverse_cons, append_assoc, takeWhile_append]
    split
    · rename_i hall
      rw [((List.takeWhile_prefix _).eq_of_length hall)]
      simp
    · rfl

def StorageInfo.isFile (info : StorageInfo ι) : Bool := info.type ≠ .path

/-- A name as it is in a key, where that of a path ends in a slash. -/
def stepKey (a : Str × Bool) : Str := if a.2 then a.1 else a.1 ++ ['/']

/-- A file and a path in the order that the pages report them. -/
def PageBefore (pages : List (ObjectList ι)) (a b : Str × Bool) : Prop :=
  a.2 = true ∧ b.2 = false ∧ FileFirst pages (stepKey a) (stepKey b) ∨
    a.2 = false ∧ b.2 = true ∧ ¬FileFirst pages (stepKey b) (stepKey a)

/-- The order of names that a sort makes. -/
def SortOrder.Lt : SortOrder → Str → Str → Prop
  | .asc, a, b => a < b
  | .desc, a, b => b < a

theorem SortOrder.Lt.asymm {order : SortOrder} {a b : Str} (h : order.Lt a b) : ¬order.Lt b a := by
  cases order with
  | asc => exact lt_asymm h
  | desc => exact lt_asymm h

/-- The order of two names of a path. Files are reported in order, and so are
paths. A sort leaves a file and a path of the same name as they are reported. -/
def StepBefore (sortOrder : Option SortOrder) (pages : List (ObjectList ι)) (a b : Str × Bool) : Prop :=
  match sortOrder with
  | none => PageBefore pages a b ∨ a.2 = b.2 ∧ stepKey a < stepKey b
  | some order => order.Lt a.1 b.1 ∨ a.1 = b.1 ∧ PageBefore pages a b

section

variable {sortOrder : Option SortOrder} {pages pages' : List (ObjectList ι)} {a b : Str × Bool}

theorem PageBefore.ne (h : PageBefore pages a b) : a.2 ≠ b.2 := by
  rcases h with ⟨ha, hb, -⟩ | ⟨ha, hb, -⟩
  · simp [ha, hb]
  · simp [ha, hb]

theorem PageBefore.asymm (h : PageBefore pages a b) : ¬PageBefore pages b a := by
  rintro (⟨hb, ha, hfirst⟩ | ⟨hb, ha, hfirst⟩)
  · simp [PageBefore, ha, hb, hfirst] at h
  · simp [PageBefore, ha, hb, hfirst] at h

theorem StepBefore.asymm (h : StepBefore sortOrder pages a b) : ¬StepBefore sortOrder pages b a := by
  intro h'
  cases sortOrder with
  | none =>
    rcases h with h | ⟨heq, hlt⟩
    · exact h'.elim h.asymm (fun h' => h.ne h'.1.symm)
    · exact h'.elim (fun h' => h'.ne heq.symm) (fun h' => lt_asymm hlt h'.2)
  | some order =>
    have hirrefl {a b : Str} (h : order.Lt a b) : a ≠ b := by
      rintro rfl
      exact h.asymm h
    rcases h with hlt | ⟨heq, h⟩
    · exact h'.elim hlt.asymm (fun h' => hirrefl hlt h'.1.symm)
    · exact h'.elim (fun h' => hirrefl h' heq.symm) (fun h' => h.asymm h'.2)

/-- Other pages make a difference for a file and a path only. -/
theorem StepBefore.imp (h : StepBefore sortOrder pages a b)
    (himp : (sortOrder = none ∨ a.1 = b.1) → PageBefore pages a b → PageBefore pages' a b) :
    StepBefore sortOrder pages' a b := by
  cases sortOrder with
  | none => exact h.imp_left (himp (.inl rfl))
  | some order => exact h.imp_right (fun h => ⟨h.1, himp (.inr h.1) h.2⟩)

theorem stepBefore_apart (hsame : sortOrder = none ∨ a.1 = b.1) (hne : a.2 ≠ b.2) :
    StepBefore sortOrder pages a b ↔ PageBefore pages a b := by
  cases sortOrder with
  | none => exact or_iff_left (fun h => hne h.1)
  | some order =>
    have heq := hsame.resolve_left (by simp)
    refine (or_iff_right (fun h => ?_)).trans (and_iff_right heq)
    rw [heq] at h
    exact h.asymm h

end

/-! ## The order of an iteration -/

section Order

variable (answers : ObjectPages store) (root : Str) (last : Str) (sortOrder : Option SortOrder)

/-- The order of two steps below a path, which is listed with this prefix. -/
def LevelBefore (above : List (Str × Bool)) (a b : Str × Bool) : Prop :=
  StepBefore sortOrder (answers.pages (root ++ levelName above ++ last))
    (root ++ levelName above ++ a.1, a.2) (root ++ levelName above ++ b.1, b.2)

/-- **Is the first entry returned before the second one?** -/
def EntryBefore (first second : StorageInfo (Option ι)) : Prop :=
  Before (LevelBefore answers root last sortOrder) (sortOrder = some .desc) []
    (nameSteps first.isFile first.name) (nameSteps second.isFile second.name)

theorem LevelBefore.asymm (above : List (Str × Bool)) (a b : Str × Bool)
    (h : LevelBefore answers root last sortOrder above a b) : ¬LevelBefore answers root last sortOrder above b a :=
  StepBefore.asymm h

theorem EntryBefore.asymm {first second : StorageInfo (Option ι)}
    (h : EntryBefore answers root last sortOrder first second) :
    ¬EntryBefore answers root last sortOrder second first :=
  Before.asymm (LevelBefore.asymm answers root last sortOrder) h

end Order

/-! ## Lists in order -/

theorem commonPrefixes_pairwise (queryPrefix : Str) :
    (store.list queryPrefix).commonPrefixes.Pairwise (· < ·) := by
  unfold ObjectStore.list strLstSort
  have hnodup := ((perm_insertionSort (· ≤ ·)
    (store.objects.filterMap (fun object => commonPrefix queryPrefix object.1)).dedup).nodup_iff).mpr
    (nodup_dedup _)
  exact (List.pairwise_insertionSort (· ≤ ·) _).imp₂ (fun a b hle hne => lt_of_le_of_ne hle hne)
    hnodup

theorem pathInfo_key {base expressionPrefix name : Str}
    (h : name ∈ (store.list (base ++ expressionPrefix)).commonPrefixes) :
    base ++ (pathInfo base name : StorageInfo (Option ι)).name ++ ['/'] = name := by
  obtain ⟨_, -, hcommon⟩ := mem_commonPrefixes.mp h
  obtain ⟨part, -, -, -, rfl⟩ := commonPrefix_eq_some.mp hcommon
  rw [commonPrefix_assoc, pathInfo_name, append_assoc]

/-- Two entries of a list in the order of the list. -/
def InfoBefore (sortOrder : Option SortOrder) (pages : List (ObjectList ι)) (base : Str)
    (first second : StorageInfo (Option ι)) : Prop :=
  StepBefore sortOrder pages (base ++ first.name, first.isFile) (base ++ second.name, second.isFile)

/-- **The driver reports in order**: paths, files, and each path with the files
that were not before its page. -/
theorem storageObjectListInternal_pairwise (path : Str) (expression : Option Str) :
    (storageObjectListInternal answers.pages path expression).Pairwise
      (InfoBefore none (answers.pages (queryPrefix (basePrefix path) expression)) (basePrefix path)) := by
  have hprefixes := answers.commonPrefixes (queryPrefix (basePrefix path) expression)
  have hcontents := answers.contents (queryPrefix (basePrefix path) expression)
  have hnodup := @pageFiles_nodup ι store answers (basePrefix path) expression
  unfold storageObjectListInternal
  dsimp only
  generalize answers.pages (queryPrefix (basePrefix path) expression) = pages at *
  rw [queryPrefix_eq] at hprefixes hcontents
  generalize basePrefix path = base at *
  have hpathKey {name : Str} (h : name ∈ pages.flatMap ObjectList.commonPrefixes) :
      stepKey (base ++ (pathInfo base name : StorageInfo (Option ι)).name, false) = name :=
    pathInfo_key (hprefixes ▸ h)
  have hfileKey {object : Str × ι} (h : object ∈ pages.flatMap ObjectList.contents) :
      base ++ (fileInfo base object).name = object.1 := fileInfo_key (hcontents ▸ h)
  refine storageObjectListPages_pairwise hnodup ?_ ?_ ?_
  · unfold pagePaths
    rw [pairwise_map]
    have hpairwise := @commonPrefixes_pairwise ι store (base ++ expressionPrefix expression)
    rw [← hprefixes] at hpairwise
    refine hpairwise.imp_of_mem fun {a b} ha hb hlt => .inr ⟨rfl, ?_⟩
    show stepKey (_, false) < stepKey (_, false)
    rwa [hpathKey ha, hpathKey hb]
  · rw [Option.toList_none, nil_append]
    unfold pageFiles
    rw [pairwise_map]
    have hpairwise := @contents_pairwise ι store (base ++ expressionPrefix expression)
    rw [← hcontents] at hpairwise
    refine hpairwise.imp_of_mem fun {a b} ha hb hlt => .inr ⟨rfl, ?_⟩
    show base ++ _ < base ++ _
    rwa [hfileKey ha, hfileKey hb]
  · intro before page after hsplit _ hpath _ hfile
    obtain ⟨name, hname, rfl⟩ := mem_map.mp hpath
    rw [Option.toList_none, nil_append] at hfile ⊢
    obtain ⟨object, hobject, rfl⟩ := mem_map.mp hfile
    have hmem {object : Str × ι} (h : object ∈ before.flatMap ObjectList.contents) :
        object ∈ pages.flatMap ObjectList.contents := by
      rw [hsplit, flatMap_append]
      exact mem_append_left _ h
    have hnameMem : name ∈ pages.flatMap ObjectList.commonPrefixes :=
      mem_flatMap.mpr ⟨page, by rw [hsplit]; simp, hname⟩
    have hprefixNodup : (pages.flatMap ObjectList.commonPrefixes).Nodup := by
      rw [hprefixes]
      exact (commonPrefixes_pairwise _).imp ne_of_lt
    have hfirst : FileFirst pages object.1 name ↔ fileInfo base object ∈ (pageFiles base before).dropLast := by
      rw [hsplit] at hprefixNodup ⊢
      unfold pageFiles
      rw [fileFirst_iff hprefixNodup hname, ← map_dropLast, ← map_dropLast, mem_map, mem_map]
      constructor
      · rintro ⟨other, hother, heq⟩
        have hkeys : (pages.flatMap ObjectList.contents).Pairwise (fun a b => a.1 < b.1) := by
          rw [hcontents]
          exact contents_pairwise _
        have hnodup : ((pages.flatMap ObjectList.contents).map Prod.fst).Nodup := by
          rw [Nodup, pairwise_map]
          exact hkeys.imp ne_of_lt
        exact ⟨other, hother, congrArg _ (inj_on_of_nodup_map hnodup (hmem (dropLast_subset _ hother)) hobject heq)⟩
      · rintro ⟨other, hother, heq⟩
        refine ⟨other, hother, ?_⟩
        rw [← hfileKey hobject, ← hfileKey (hmem (dropLast_subset _ hother)), heq]
    have hsteps : FileFirst pages (stepKey (base ++ (fileInfo base object).name, true))
        (stepKey (base ++ (pathInfo base name : StorageInfo (Option ι)).name, false)) ↔
          fileInfo base object ∈ (pageFiles base before).dropLast := by
      rw [hpathKey hnameMem, ← hfirst, ← hfileKey hobject]
      rfl
    rw [← hsteps]
    exact ⟨fun h => .inl (.inl ⟨rfl, rfl, h⟩), fun h => .inl (.inr ⟨rfl, rfl, h⟩)⟩

/-- The sort keeps a path and a file of the same name as they are. -/
theorem sort_pairwise (param : StorageIteratorParam (Option ι)) {pages : List (ObjectList ι)} {base : Str}
    {list : List (StorageInfo (Option ι))} (h : list.Pairwise (InfoBefore none pages base)) :
    (param.sort list).Pairwise (InfoBefore param.sortOrder pages base) := by
  have htie {a b : StorageInfo (Option ι)} (hname : a.name = b.name) (hbefore : InfoBefore none pages base a b) :
      PageBefore pages (base ++ a.name, a.isFile) (base ++ b.name, b.isFile) := by
    refine hbefore.resolve_right ?_
    rintro ⟨hfile, hlt⟩
    dsimp only at hfile
    rw [hname, hfile] at hlt
    exact lt_irrefl _ hlt
  unfold StorageIteratorParam.sort storageLstSort
  match param.sortOrder with
  | none => exact h
  | some .asc =>
    refine (pairwise_insertionSort (fun a b : StorageInfo (Option ι) => a.name ≤ b.name)
      (fun a b => le_total a.name b.name) (fun _ _ _ => le_trans) h).imp fun {a b} hab => ?_
    rcases hab.1.lt_or_eq with hlt | heq
    · exact .inl (append_left_lt hlt)
    · exact .inr ⟨congrArg (base ++ ·) heq, htie heq (hab.2 heq.ge)⟩
  | some .desc =>
    refine (pairwise_insertionSort (fun a b : StorageInfo (Option ι) => a.name ≥ b.name)
      (fun a b => le_total b.name a.name)
      (fun _ _ _ hab hbc => le_trans hbc hab) h).imp fun {a b} hab => ?_
    rcases hab.1.lt_or_eq with hlt | heq
    · exact .inl (append_left_lt hlt)
    · exact .inr ⟨congrArg (base ++ ·) heq.symm, htie heq.symm (hab.2 heq.symm.le)⟩

/-- **A level of an object store**: names that go on from the prefix without a
slash, in order. -/
def ObjectLevel (answers : ObjectPages store) (root : Str) (sortOrder : Option SortOrder) (expressionPrefix : Str)
    (pathSub : Option Str) (list : List (StorageInfo (Option ι))) : Prop :=
  list.Pairwise (InfoBefore sortOrder (answers.pages (root ++ nameSub pathSub expressionPrefix))
      (root ++ nameSub pathSub [])) ∧
    ∀ info ∈ list, ∃ part, '/' ∉ part ∧ info.name = expressionPrefix ++ part

theorem inside_steps {path entry : StorageInfo ι} (htype : path.type = .path)
    (hinside : Inside entry.name path.name) :
    ∃ steps, steps ≠ [] ∧
      nameSteps entry.isFile entry.name = nameSteps path.isFile path.name ++ steps := by
  obtain ⟨rest, hname⟩ := hinside
  refine ⟨nameSteps entry.isFile rest, nameSteps_ne_nil _ _, ?_⟩
  have hfile : path.isFile = false := by
    unfold StorageInfo.isFile
    rw [htype]
    rfl
  unfold insidePrefix at hname
  rw [← hname, append_assoc, singleton_append, nameSteps_slash, hfile]

theorem Under.steps {pathSub : Option Str} {info entry : StorageInfo ι}
    (h : Under pathSub info entry) :
    ∃ steps, nameSteps entry.isFile entry.name =
      nameSteps info.isFile (nameSub pathSub info.name) ++ steps := by
  rcases h with rfl | ⟨htype, hinside⟩
  · exact ⟨[], (append_nil _).symm⟩
  · have hpath : (info.inPath pathSub).type = .path := htype
    obtain ⟨steps, -, hsteps⟩ := inside_steps hpath hinside
    exact ⟨steps, hsteps⟩

theorem nameSub_append (pathSub : Option Str) (name part : Str) :
    nameSub pathSub (name ++ part) = nameSub pathSub name ++ part := by
  unfold nameSub
  cases pathSub with
  | none => rfl
  | some pathSub => rw [append_assoc, cons_append]

/-- **A traversal of an object store is in order.** -/
theorem objectOrder {param : StorageIteratorParam (Option ι)} {root expressionPrefix : Str}
    (hcontent : ∀ pathSub info content, param.content pathSub info = some content →
      ObjectLevel answers root param.sortOrder expressionPrefix content.pathSub content.list) :
    TraversalOrder param (ObjectLevel answers root param.sortOrder expressionPrefix)
      (EntryBefore answers root (strBaseZ expressionPrefix) param.sortOrder) where
  tail _ _ _ hlevel := ⟨(pairwise_cons.mp hlevel.1).2, (forall_mem_cons.mp hlevel.2).2⟩
  content pathSub info _ content _ h := hcontent pathSub info content h
  siblings pathSub info list hlevel info' hinfo' first second hfirst hsecond := by
    have hbefore := (pairwise_cons.mp hlevel.1).1 info' hinfo'
    obtain ⟨part, hpart, hname⟩ := hlevel.2 info mem_cons_self
    obtain ⟨part', hpart', hname'⟩ := hlevel.2 info' (mem_cons_of_mem _ hinfo')
    obtain ⟨above, habove, hsteps⟩ := exists_lastStep (nameSub pathSub expressionPrefix)
    rw [strBaseZ_nameSub] at habove hsteps
    have hkey (part : Str) : root ++ nameSub pathSub [] ++ (expressionPrefix ++ part)
        = root ++ levelName above ++ (strBaseZ expressionPrefix ++ part) := by
      rw [append_assoc, ← nameSub_append, nil_append, nameSub_append, habove]
      simp only [append_assoc]
    obtain ⟨more, hmore⟩ := hfirst.steps
    obtain ⟨more', hmore'⟩ := hsecond.steps
    unfold EntryBefore
    rw [hmore, hmore', hname, hname', nameSub_append, nameSub_append, hsteps _ _ hpart, hsteps _ _ hpart',
      append_assoc, append_assoc, before_append_iff (fun above a h => LevelBefore.asymm _ _ _ _ above a a h h)]
    refine .inl ?_
    unfold InfoBefore at hbefore
    rw [hname, hname', hkey, hkey, habove, ← append_assoc] at hbefore
    exact hbefore
  inside path entry htype hinside := by
    obtain ⟨steps, hne, hsteps⟩ := inside_steps htype hinside
    unfold EntryBefore
    rw [hsteps]
    have h := @before_inside _ _ (param.sortOrder = some .desc) (fun above a h => LevelBefore.asymm answers root
      (strBaseZ expressionPrefix) param.sortOrder above a a h h) (nameSteps path.isFile path.name) _ hne
    split
    · rename_i hdesc
      exact h.2 hdesc
    · rename_i hdesc
      exact h.1 hdesc

end PgxBackup
