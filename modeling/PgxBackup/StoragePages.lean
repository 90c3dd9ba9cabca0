import PgxBackup.StorageObject

/-!
# The pages of a list

The paths of a page are reported before its files, and the last file of a page
only when there is another one. So what is reported are all paths and all files,
each in the order of the pages, but a file comes before the paths of the pages
that follow on one on which there is another file behind it.
-/

namespace PgxBackup

open List

variable {ι : Type} {infoLast : Option (StorageInfo (Option ι))} {base : Str}

/-- **Is a file reported before a path?** It is if it is on a page before the one of
the path, and not the last file before this page. -/
def FileFirst (pages : List (ObjectList ι)) (key commonPrefix : Str) : Prop :=
  (∃ page ∈ pages, commonPrefix ∈ page.commonPrefixes) ∧
    key ∈ (((pages.takeWhile (fun page => commonPrefix ∉ page.commonPrefixes)).flatMap
      ObjectList.contents).map Prod.fst).dropLast

def pagePaths (base : Str) (pages : List (ObjectList ι)) : List (StorageInfo (Option ι)) :=
  (pages.flatMap ObjectList.commonPrefixes).map (pathInfo base)

def pageFiles (base : Str) (pages : List (ObjectList ι)) : List (StorageInfo (Option ι)) :=
  (pages.flatMap ObjectList.contents).map (fileInfo base)

/-- A path is on one page, so the pages in front of it are those without the path. -/
theorem fileFirst_iff {before after : List (ObjectList ι)} {page : ObjectList ι} {key name : Str}
    (hnodup : ((before ++ page :: after).flatMap ObjectList.commonPrefixes).Nodup)
    (hname : name ∈ page.commonPrefixes) : FileFirst (before ++ page :: after) key name ↔
      key ∈ ((before.flatMap ObjectList.contents).map Prod.fst).dropLast := by
  rw [flatMap_append, flatMap_cons] at hnodup
  have hapart := (nodup_append.mp hnodup).2.2
  have htake : (before ++ page :: after).takeWhile (fun page => name ∉ page.commonPrefixes) = before := by
    rw [takeWhile_append_of_pos, takeWhile_cons_of_neg, append_nil]
    · simpa using hname
    · intro other hother
      simpa using fun hmem => hapart name (mem_flatMap.mpr ⟨other, hother, hmem⟩) name
        (mem_append_left _ hname) rfl
  unfold FileFirst
  rw [htake]
  exact and_iff_right ⟨page, mem_append_right _ mem_cons_self, hname⟩

/-- The file that is held back is the last one. -/
theorem storageObjectListFiles_eq {fileList : List (StorageInfo (Option ι))}
    (h : ((infoLast.toList ++ fileList).map StorageInfo.name).Nodup) :
    storageObjectListFiles infoLast fileList =
      ((infoLast.toList ++ fileList).dropLast, (infoLast.toList ++ fileList).getLast?) := by
  induction fileList generalizing infoLast with
  | nil => cases infoLast <;> rfl
  | cons info fileList ih =>
    have hrest := @ih (some info) (h.sublist ((sublist_append_right _ _).map _))
    unfold storageObjectListFiles
    rw [hrest]
    cases infoLast with
    | none => rfl
    | some last =>
      have hne : last.name ≠ info.name := fun heq => (nodup_cons.mp h).1 (heq ▸ mem_cons_self)
      dsimp only
      rw [if_pos hne]
      rfl

theorem dropLast_append_last {α : Type} (l : List α) : l.dropLast ++ l.getLast?.toList = l := by
  rcases eq_nil_or_concat l with rfl | ⟨l, a, rfl⟩
  · rfl
  · simp

theorem dropLast_append_held {α : Type} (l rest : List α) :
    (l ++ rest).dropLast = l.dropLast ++ (l.getLast?.toList ++ rest).dropLast := by
  rcases eq_nil_or_concat l with rfl | ⟨l, a, rfl⟩
  · rfl
  · simp [dropLast_append_of_ne_nil]

/-- One page, and the file that is held back for the next one. -/
theorem storageObjectListPages_cons {page : ObjectList ι} {pages : List (ObjectList ι)}
    (h : ((infoLast.toList ++ pageFiles base (page :: pages)).map StorageInfo.name).Nodup) :
    ∃ files, files = infoLast.toList ++ page.contents.map (fileInfo base) ∧
      infoLast.toList ++ pageFiles base (page :: pages)
        = files.dropLast ++ (files.getLast?.toList ++ pageFiles base pages) ∧
      storageObjectListPages base infoLast (page :: pages) = page.commonPrefixes.map (pathInfo base) ++
        (files.dropLast ++ storageObjectListPages base files.getLast? pages) := by
  have hsplit : infoLast.toList ++ pageFiles base (page :: pages)
      = (infoLast.toList ++ page.contents.map (fileInfo base)) ++ pageFiles base pages := by
    unfold pageFiles
    rw [flatMap_cons, map_append, append_assoc]
  rw [hsplit] at h ⊢
  refine ⟨_, rfl, ?_, ?_⟩
  · rw [← append_assoc, dropLast_append_last]
  · rw [storageObjectListPages, storageObjectListFiles_eq (h.sublist ((sublist_append_left _ _).map _))]
    exact append_assoc _ _ _

/-- **What the pages report** are their paths and their files. -/
theorem mem_storageObjectListPages {pages : List (ObjectList ι)} {info : StorageInfo (Option ι)}
    (h : ((infoLast.toList ++ pageFiles base pages).map StorageInfo.name).Nodup) :
    info ∈ storageObjectListPages base infoLast pages ↔
      info ∈ pagePaths base pages ∨ info ∈ infoLast.toList ++ pageFiles base pages := by
  induction pages generalizing infoLast with
  | nil => simp [storageObjectListPages, pagePaths, pageFiles]
  | cons page pages ih =>
    obtain ⟨files, -, hsplit, hlist⟩ := storageObjectListPages_cons h
    rw [hsplit] at h ⊢
    have hrest := ih (h.sublist ((sublist_append_right _ _).map _))
    unfold pagePaths at hrest ⊢
    rw [hlist, flatMap_cons, map_append]
    simp only [mem_append] at hrest ⊢
    rw [hrest]
    tauto

/-- **The pages report in order** if the paths and the files are in order, and
each path behind the files before it. -/
theorem storageObjectListPages_pairwise {r : StorageInfo (Option ι) → StorageInfo (Option ι) → Prop}
    {pages : List (ObjectList ι)} (hnodup : ((infoLast.toList ++ pageFiles base pages).map StorageInfo.name).Nodup)
    (hpaths : (pagePaths base pages).Pairwise r) (hfiles : (infoLast.toList ++ pageFiles base pages).Pairwise r)
    (hcross : ∀ before page after, pages = before ++ page :: after →
      ∀ path ∈ page.commonPrefixes.map (pathInfo base), ∀ file ∈ infoLast.toList ++ pageFiles base pages,
        (file ∈ (infoLast.toList ++ pageFiles base before).dropLast → r file path) ∧
          (file ∉ (infoLast.toList ++ pageFiles base before).dropLast → r path file)) :
    (storageObjectListPages base infoLast pages).Pairwise r := by
  induction pages generalizing infoLast with
  | nil =>
    cases infoLast with
    | none => exact .nil
    | some last => exact pairwise_singleton r last
  | cons page pages ih =>
    obtain ⟨files, hheld, hsplit, hlist⟩ := storageObjectListPages_cons hnodup
    have hpagePaths : pagePaths base (page :: pages) = page.commonPrefixes.map (pathInfo base) ++ pagePaths base pages := by
      unfold pagePaths
      rw [flatMap_cons, map_append]
    have hbefore (before : List (ObjectList ι)) : (infoLast.toList ++ pageFiles base (page :: before)).dropLast
        = files.dropLast ++ (files.getLast?.toList ++ pageFiles base before).dropLast := by
      rw [← dropLast_append_held, hheld]
      unfold pageFiles
      rw [flatMap_cons, map_append, append_assoc]
    rw [hsplit] at hnodup hfiles hcross
    rw [hpagePaths] at hpaths
    obtain ⟨hpaths, hpathsRest, hpathsApart⟩ := pairwise_append.mp hpaths
    obtain ⟨hfiles, hfilesRest, hfilesApart⟩ := pairwise_append.mp hfiles
    have hnodupRest := hnodup.sublist ((sublist_append_right _ _).map _)
    have hrest := ih hnodupRest hpathsRest hfilesRest (by
      intro before page' after heq path hpath file hfile
      have h := hcross (page :: before) page' after (by rw [heq, cons_append]) path hpath file (mem_append_right _ hfile)
      -- what is reported of this page is not held back
      have hnot : file ∉ files.dropLast := by
        have hapart := (nodup_append.mp hnodup.of_map).2.2
        exact fun hmem => hapart file hmem file hfile rfl
      simpa only [hbefore, mem_append, hnot, false_or] using h)
    rw [hlist]
    refine pairwise_append.mpr ⟨hpaths, pairwise_append.mpr ⟨hfiles, hrest, ?_⟩, ?_⟩
    · intro file hfile info hinfo
      rcases (mem_storageObjectListPages hnodupRest).mp hinfo with hpath | hinfo
      · unfold pagePaths at hpath
        obtain ⟨name, hname, rfl⟩ := mem_map.mp hpath
        obtain ⟨page', hpage, hnamePage⟩ := mem_flatMap.mp hname
        obtain ⟨before, after, rfl⟩ := append_of_mem hpage
        refine (hcross (page :: before) page' after rfl _ (mem_map_of_mem hnamePage) file
          (mem_append_left _ hfile)).1 ?_
        rw [hbefore]
        exact mem_append_left _ hfile
      · exact hfilesApart file hfile info hinfo
    · intro path hpath info hinfo
      have hfile (hmem : info ∈ files.dropLast ++ (files.getLast?.toList ++ pageFiles base pages)) : r path info := by
        refine (hcross [] page pages rfl path hpath info hmem).2 ?_
        cases infoLast <;> exact not_mem_nil
      rcases mem_append.mp hinfo with hinfo | hinfo
      · exact hfile (mem_append_left _ hinfo)
      · rcases (mem_storageObjectListPages hnodupRest).mp hinfo with hlater | hinfo
        · exact hpathsApart path hpath info hlater
        · exact hfile (mem_append_right _ hinfo)

end PgxBackup
