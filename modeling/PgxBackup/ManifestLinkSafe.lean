import PgxBackup.ManifestLink
import PgxBackup.PathOrder

/-!
# When the link check is right

The list that the check keeps is sorted, has the first link of every directory
and no path link inside of another one. So a new path link can only be inside of
the path link next to it in the list, and the check finds a conflict with any
link that is in the list.

A link is not in the list if there was a file link to its directory before. A
conflict with such a link is not seen. Directories are compared by their text,
so a conflict is not seen either between directories that are the same but are
not written in the same way, and one is seen that is none where `..` leads out
of a directory.
-/

namespace PgxBackup

open List

/-! ## Paths with a slash at the end -/

section TextWithin

variable {dir path : Str}

theorem textWithin_iff : TextWithin dir path ↔ dir ++ ['/'] <+: path ++ ['/'] :=
  isPrefixOf_iff_prefix

theorem textWithin_refl (dir : Str) : TextWithin dir dir := textWithin_iff.mpr (prefix_refl _)

/-- Directories that are within each other are written in the same way. -/
theorem TextWithin.antisymm (h : TextWithin dir path) (h' : TextWithin path dir) : dir = path := by
  have hprefixes := And.intro (textWithin_iff.mp h) (textWithin_iff.mp h')
  exact append_cancel_right (hprefixes.1.eq_of_length_le hprefixes.2.length_le)

/-- Between a path and what starts with it in the order of texts, everything
starts with it. -/
theorem prefix_convex : Nearest.Convex (fun a b : Str => a <+: b) := by
  intro a b c hac hab hbc
  have htake : c.take a.length = a := prefix_iff_eq_take.mp hac |>.symm
  have hle : a ≤ b.take a.length := by
    have h := take_le_take a.length hab
    rwa [take_length] at h
  have hge : b.take a.length ≤ a := by
    have h := take_le_take a.length hbc
    rwa [htake] at h
  exact prefix_iff_eq_take.mpr (le_antisymm hle hge)

theorem prefix_le {a b : Str} (h : a <+: b) : a ≤ b := not_lt.mp (List.not_lt.mpr h.le)

end TextWithin

/-! ## The link list -/

/-- What holds of the link list after the links of `before`. -/
structure LinkListInv (before : List LinkDestination) (linkList : List ManifestLinkCheckItem) : Prop where
  sorted : linkList.Pairwise (fun a b => a.path < b.path)
  dir : ∀ item ∈ linkList, ∃ a, FirstIn before a ∧ item.path = a.dir ++ ['/'] ∧ item.file = a.file
  first : ∀ a, FirstIn before a → ∃ item ∈ linkList, item.path = a.dir ++ ['/'] ∧ item.file = a.file
  apart : ∀ a ∈ linkList, ∀ b ∈ linkList, a.file.isNone = true → b.file.isNone = true →
    a.path <+: b.path → a = b

section FirstIn

variable {before : List LinkDestination} {a b : LinkDestination}

theorem FirstIn.mem (h : FirstIn before a) : a ∈ before := mem_of_find?_eq_some h

theorem FirstIn.eq (ha : FirstIn before a) (hb : FirstIn before b) (hdir : a.dir = b.dir) : a = b := by
  unfold FirstIn at ha hb
  rw [hdir, hb] at ha
  exact (Option.some.inj ha).symm

theorem firstIn_append :
    FirstIn (before ++ [b]) a ↔ FirstIn before a ∨ a = b ∧ ∀ first, FirstIn before first → first.dir ≠ b.dir := by
  unfold FirstIn
  rw [find?_append]
  cases hfind : before.find? (·.dir = a.dir) with
  | some first =>
    rw [Option.some_or]
    refine ⟨.inl, fun h => h.elim id ?_⟩
    rintro ⟨rfl, hnone⟩
    have hdir : first.dir = a.dir := by simpa using find?_some hfind
    exact absurd hdir (hnone first (hdir ▸ hfind))
  | none =>
    rw [Option.none_or, find?_singleton]
    constructor
    · intro h
      split at h
      · cases h
        refine .inr ⟨rfl, fun first hfirst hdir => ?_⟩
        rw [hdir, hfind] at hfirst
        cases hfirst
      · cases h
    · rintro (h | ⟨rfl, -⟩)
      · cases h
      · rw [if_pos (decide_eq_true rfl)]

end FirstIn

section LinkList

variable {linkList : List ManifestLinkCheckItem} {item : ManifestLinkCheckItem} {path : Str}

abbrev SortedByPath (linkList : List ManifestLinkCheckItem) : Prop :=
  linkList.Pairwise (fun a b => a.path < b.path)

theorem SortedByPath.search (h : SortedByPath linkList) (path : Str) :
    BinarySearch.Sorted (fun item : ManifestLinkCheckItem => strCmp path item.path) linkList := by
  refine h.imp fun {a b} hlt => ⟨fun hbelow => ?_, fun habove => ?_⟩
  · exact strCmp_neg.mpr ((strCmp_neg.mp hbelow).trans hlt)
  · exact strCmp_pos.mpr (hlt.trans (strCmp_pos.mp habove))

theorem manifestLinkFind_some {idx : ℕ} (h : manifestLinkFind linkList path = some idx) :
    ∃ item, linkList[idx]? = some item ∧ item.path = path := by
  obtain ⟨item, hitem, hequal⟩ := BinarySearch.bsearch_some h
  exact ⟨item, hitem, (strCmp_eq_zero.mp hequal).symm⟩

theorem manifestLinkFind_none (hsorted : SortedByPath linkList) (h : manifestLinkFind linkList path = none) :
    ∀ item ∈ linkList, item.path ≠ path := by
  intro item hmem hpath
  have hsome := (BinarySearch.bsearch_isSome_iff (hsorted.search path)).mpr
    ⟨item, hmem, strCmp_eq_zero.mpr hpath.symm⟩
  have hnone : BinarySearch.bsearch (fun item : ManifestLinkCheckItem => strCmp path item.path) linkList = none := h
  rw [hnone] at hsome
  cases hsome

theorem mem_manifestLinkAddSort {a : ManifestLinkCheckItem} :
    a ∈ manifestLinkAddSort linkList item ↔ a ∈ linkList ∨ a = item := by
  unfold manifestLinkAddSort
  rw [mem_insertionSort, mem_append, mem_singleton]

section

variable (hsorted : SortedByPath linkList) (hnew : ∀ a ∈ linkList, a.path ≠ item.path)
include hsorted hnew

theorem manifestLinkAddSort_sorted : SortedByPath (manifestLinkAddSort linkList item) := by
  have hne : (linkList ++ [item]).Pairwise (fun a b => a.path ≠ b.path) := by
    refine pairwise_append.mpr ⟨hsorted.imp fun hlt => hlt.ne, pairwise_singleton _ _, ?_⟩
    intro a ha b hb
    rw [mem_singleton.mp hb]
    exact hnew a ha
  have hpairs := PathOrder.pairwise_insertionSort
    (fun a b : ManifestLinkCheckItem => a.path ≤ b.path) (fun a b => le_total a.path b.path)
    (fun a b c => le_trans) hne
  exact hpairs.imp fun {a b} h => lt_of_le_of_ne h.1 fun heq => h.2 heq.ge heq

/-- **A new item is found in the sorted list**, with what is below it before it
and what is above it behind it. -/
theorem manifestLinkFind_addSort :
    ∃ idx, manifestLinkFind (manifestLinkAddSort linkList item) item.path = some idx ∧
      (manifestLinkAddSort linkList item).take idx = linkList.filter (·.path < item.path) ∧
      (manifestLinkAddSort linkList item).drop (idx + 1) = linkList.filter (item.path < ·.path) := by
  have hnew' := manifestLinkAddSort_sorted hsorted hnew
  have hmem : item ∈ manifestLinkAddSort linkList item := mem_manifestLinkAddSort.mpr (.inr rfl)
  cases hfind : manifestLinkFind (manifestLinkAddSort linkList item) item.path with
  | none => exact absurd rfl (manifestLinkFind_none hnew' hfind item hmem)
  | some idx =>
    refine ⟨idx, rfl, ?_⟩
    obtain ⟨found, hfound, hpath⟩ := manifestLinkFind_some hfind
    have heq : found = item :=
      (mem_manifestLinkAddSort.mp (mem_of_getElem? hfound)).resolve_left fun h => hnew _ h hpath
    rw [heq] at hfound
    obtain ⟨hidx, hget⟩ := List.getElem?_eq_some_iff.mp hfound
    have hsplit : manifestLinkAddSort linkList item
        = (manifestLinkAddSort linkList item).take idx ++ item :: (manifestLinkAddSort linkList item).drop (idx + 1) := by
      have hcons := getElem_cons_drop hidx
      rw [hget] at hcons
      rw [hcons, take_append_drop]
    generalize htake : (manifestLinkAddSort linkList item).take idx = below at hsplit ⊢
    generalize hdrop : (manifestLinkAddSort linkList item).drop (idx + 1) = above at hsplit ⊢
    rw [hsplit] at hnew'
    obtain ⟨hbelow, habove, hcross⟩ := pairwise_append.mp hnew'
    obtain ⟨hgt, habove⟩ := pairwise_cons.mp habove
    have hlt (a : ManifestLinkCheckItem) (ha : a ∈ below) : a.path < item.path := hcross a ha item mem_cons_self
    -- What is in the new list and has another path was in the old one.
    have hmem' (a : ManifestLinkCheckItem) : a ∈ linkList ∨ a = item ↔ a ∈ below ∨ a = item ∨ a ∈ above := by
      rw [← mem_manifestLinkAddSort, hsplit, mem_append, mem_cons]
    have hasymm (a b : ManifestLinkCheckItem) (h : a.path < b.path) : ¬b.path < a.path := lt_asymm h
    constructor
    · refine PathOrder.eq_of_same_elements hasymm hbelow (hsorted.filter _) fun a => ?_
      rw [mem_filter, decide_eq_true_eq]
      constructor
      · intro ha
        refine ⟨((hmem' a).mpr (.inl ha)).resolve_right fun heq => ?_, hlt a ha⟩
        exact lt_irrefl _ (heq ▸ hlt a ha)
      · rintro ⟨ha, hpath⟩
        rcases (hmem' a).mp (.inl ha) with h | rfl | h
        · exact h
        · exact absurd hpath (lt_irrefl _)
        · exact absurd hpath (lt_asymm (hgt a h))
    · refine PathOrder.eq_of_same_elements hasymm habove (hsorted.filter _) fun a => ?_
      rw [mem_filter, decide_eq_true_eq]
      constructor
      · intro ha
        refine ⟨((hmem' a).mpr (.inr (.inr ha))).resolve_right fun heq => ?_, hgt a ha⟩
        exact lt_irrefl _ (heq ▸ hgt a ha)
      · rintro ⟨ha, hpath⟩
        rcases (hmem' a).mp (.inl ha) with h | rfl | h
        · exact absurd hpath (lt_asymm (hlt a h))
        · exact absurd hpath (lt_irrefl _)
        · exact h

end

end LinkList

/-! ## One link -/

section Check

variable {targetList : List ManifestTarget} {target1 : ManifestTarget} {linkList : List ManifestLinkCheckItem}
  {before : List LinkDestination} {dir : Str}

theorem bind_ne_ok {α β : Type} {x : Except Error α} {f : α → Except Error β} {b : β}
    (h : ∀ a, f a ≠ .ok b) : (x >>= f) ≠ .ok b := by
  intro hok
  obtain ⟨a, -, ha⟩ := ok_of_bind hok
  exact h a ha

theorem manifestLinkError_ne_ok {file1 file2 : Option Str} {reason : Str} {target2 : ManifestTarget} :
    manifestLinkError targetList target1 file1 reason target2 file2 ≠ .ok () :=
  bind_ne_ok fun _ => bind_ne_ok fun _ => nofun

theorem manifestLinkCheckExists_iff {link : ManifestLinkCheckItem} :
    manifestLinkCheckExists targetList target1 link = .ok () ↔
      target1.file ≠ none ∧ link.file ≠ none ∧ target1.file ≠ link.file := by
  unfold manifestLinkCheckExists
  cases hfile1 : target1.file with
  | none => exact ⟨fun h => absurd h (bind_ne_ok fun _ => manifestLinkError_ne_ok), fun h => absurd rfl h.1⟩
  | some file1 =>
    cases hfile2 : link.file with
    | none => exact ⟨fun h => absurd h (bind_ne_ok fun _ => manifestLinkError_ne_ok), fun h => absurd rfl h.2.1⟩
    | some file2 =>
      show (if file1 = file2 then _ else _) = _ ↔ _
      split
      · rename_i heq
        exact ⟨fun h => absurd h (bind_ne_ok fun _ => manifestLinkError_ne_ok),
          fun h => absurd (congrArg some heq) h.2.2⟩
      · rename_i hne
        exact ⟨fun _ => ⟨Option.some_ne_none _, Option.some_ne_none _, fun h => hne (Option.some.inj h)⟩,
          fun _ => rfl⟩

theorem prefix_ok_iff {a b : Str} {refused : Except Error Unit} (hrefused : refused ≠ .ok ()) :
    (if strBeginsWith b a then refused else .ok ()) = .ok () ↔ ¬a <+: b := by
  split
  · rename_i hbegins
    exact iff_of_false hrefused (not_not_intro (List.isPrefixOf_iff_prefix.mp hbegins))
  · rename_i hbegins
    exact iff_of_true rfl (mt isPrefixOf_iff_prefix.mpr hbegins)

variable {linkIdx : ℕ} {path : Str}

theorem manifestLinkCheckPrior_iff :
    manifestLinkCheckPrior targetList target1 linkList linkIdx path = .ok () ↔
      ∀ a ∈ (linkList.take linkIdx).reverse.find? (·.file.isNone), ¬a.path <+: path := by
  unfold manifestLinkCheckPrior
  split
  · rename_i hnone
    rw [hnone]
    exact ⟨fun _ a ha => absurd ha nofun, fun _ => rfl⟩
  · rename_i priorLink hprior
    rw [hprior]
    simp only [Option.mem_some_iff, forall_eq']
    exact prefix_ok_iff (bind_ne_ok fun _ => manifestLinkError_ne_ok)

theorem manifestLinkCheckNext_iff :
    manifestLinkCheckNext targetList target1 linkList linkIdx path = .ok () ↔
      ∀ a ∈ (linkList.drop (linkIdx + 1)).find? (·.file.isNone), ¬path <+: a.path := by
  unfold manifestLinkCheckNext
  split
  · rename_i hnone
    rw [hnone]
    exact ⟨fun _ a ha => absurd ha nofun, fun _ => rfl⟩
  · rename_i nextLink hnext
    rw [hnext]
    simp only [Option.mem_some_iff, forall_eq']
    exact prefix_ok_iff (bind_ne_ok fun _ => manifestLinkError_ne_ok)

section

variable (h : LinkListInv before linkList)
include h

/-- **The neighbours in the list are enough**: the two checks of a new path link
find whether it is inside of any path link of the list or has one inside. -/
theorem manifestLinkCheckPath_iff {path : Str} {newList : List ManifestLinkCheckItem}
    (hbelow : newList.take linkIdx = linkList.filter (·.path < path))
    (habove : newList.drop (linkIdx + 1) = linkList.filter (path < ·.path))
    (hnew : ∀ a ∈ linkList, a.path ≠ path) :
    (manifestLinkCheckPrior targetList target1 newList linkIdx path = .ok () ∧
      manifestLinkCheckNext targetList target1 newList linkIdx path = .ok ()) ↔
      ∀ a ∈ linkList, a.file.isNone = true → ¬a.path <+: path ∧ ¬path <+: a.path := by
  rw [manifestLinkCheckPrior_iff, manifestLinkCheckNext_iff, hbelow, habove,
    Nearest.below_iff prefix_convex (h.sorted.filter _)
      (fun a ha b hb hfa hfb hab =>
        h.apart a (mem_of_mem_filter ha) b (mem_of_mem_filter hb) hfa hfb hab)
      (fun a ha => of_decide_eq_true (mem_filter.mp ha).2),
    Nearest.above_iff prefix_convex (h.sorted.filter _)
      (fun a ha => of_decide_eq_true (mem_filter.mp ha).2)]
  constructor
  · rintro ⟨hprior, hnext⟩ a ha hfile
    constructor
    · intro hprefix
      have hlt : a.path < path := lt_of_le_of_ne (prefix_le hprefix) (hnew a ha)
      exact hprior a (mem_filter.mpr ⟨ha, decide_eq_true hlt⟩) hfile hprefix
    · intro hprefix
      have hlt : path < a.path := lt_of_le_of_ne (prefix_le hprefix) (hnew a ha).symm
      exact hnext a (mem_filter.mpr ⟨ha, decide_eq_true hlt⟩) hfile hprefix
  · intro hall
    exact ⟨fun a ha hfile => (hall a (mem_of_mem_filter ha) hfile).1,
      fun a ha hfile => (hall a (mem_of_mem_filter ha) hfile).2⟩

theorem LinkListInv.found (hfind : manifestLinkFind linkList (dir ++ ['/']) = some linkIdx) :
    ∃ item first, lstGet linkList linkIdx = .ok item ∧ FirstIn before first ∧ first.dir = dir ∧
      item.file = first.file := by
  obtain ⟨item, hitem, hpath⟩ := manifestLinkFind_some hfind
  obtain ⟨first, hfirst, hdir, hfile⟩ := h.dir item (mem_of_getElem? hitem)
  refine ⟨item, first, ?_, hfirst, append_cancel_right (hdir.symm.trans hpath), hfile⟩
  unfold lstGet
  rw [hitem]

theorem LinkListInv.not_found (hfind : manifestLinkFind linkList (dir ++ ['/']) = none) :
    (∀ item ∈ linkList, item.path ≠ dir ++ ['/']) ∧ ∀ first, FirstIn before first → first.dir ≠ dir := by
  have hnew := manifestLinkFind_none h.sorted hfind
  refine ⟨hnew, fun first hfirst hdir => ?_⟩
  obtain ⟨item, hmem, hpath, -⟩ := h.first first hfirst
  exact hnew item hmem (hdir ▸ hpath)

end

theorem manifestLinkCheckList_found {targetIdx : ℕ} {item : ManifestLinkCheckItem}
    (hfind : manifestLinkFind linkList path = some linkIdx) (hitem : lstGet linkList linkIdx = .ok item) :
    manifestLinkCheckList targetList linkList target1 targetIdx path
      = manifestLinkCheckExists targetList target1 item >>= fun _ => .ok linkList := by
  unfold manifestLinkCheckList
  rw [hfind]
  show lstGet linkList linkIdx >>= _ = _
  rw [hitem]
  rfl

/-- The checks of a link whose directory is new. -/
theorem manifestLinkCheckList_not_found (targetList : List ManifestTarget) (target1 : ManifestTarget)
    (targetIdx : ℕ) (hsorted : SortedByPath linkList)
    (hfind : manifestLinkFind linkList path = none) :
    ∃ linkIdx,
      (manifestLinkAddSort linkList ⟨path, target1.file, targetIdx⟩).take linkIdx
        = linkList.filter (·.path < path) ∧
      (manifestLinkAddSort linkList ⟨path, target1.file, targetIdx⟩).drop (linkIdx + 1)
        = linkList.filter (path < ·.path) ∧
      manifestLinkCheckList targetList linkList target1 targetIdx path
        = if target1.file.isSome then
            .ok (manifestLinkAddSort linkList ⟨path, target1.file, targetIdx⟩)
          else
            manifestLinkCheckPrior targetList target1
              (manifestLinkAddSort linkList ⟨path, target1.file, targetIdx⟩) linkIdx path >>= fun _ =>
            manifestLinkCheckNext targetList target1
              (manifestLinkAddSort linkList ⟨path, target1.file, targetIdx⟩) linkIdx path >>= fun _ =>
            .ok (manifestLinkAddSort linkList ⟨path, target1.file, targetIdx⟩) := by
  obtain ⟨linkIdx, hidx, hbelow, habove⟩ :=
    @manifestLinkFind_addSort linkList ⟨path, target1.file, targetIdx⟩ hsorted (manifestLinkFind_none hsorted hfind)
  refine ⟨linkIdx, hbelow, habove, ?_⟩
  unfold manifestLinkCheckList
  rw [hfind]
  dsimp only
  rw [hidx]
  cases target1.file with
  | some file => rfl
  | none => rfl

/-- **A link passes the checks exactly when it is in conflict with no first link**
of a directory, by the text of the paths. -/
theorem manifestLinkCheckList_iff (h : LinkListInv before linkList) (targetIdx : ℕ) :
    (∃ newList, manifestLinkCheckList targetList linkList target1 targetIdx (dir ++ ['/']) = .ok newList) ↔
      ∀ first, FirstIn before first → ¬LinkConflict TextWithin first ⟨dir, target1.file⟩ := by
  cases hfind : manifestLinkFind linkList (dir ++ ['/']) with
  | some linkIdx =>
    obtain ⟨item, found, hitem, hfound, hdir, hfile⟩ := h.found hfind
    rw [manifestLinkCheckList_found hfind hitem]
    have hok : (∃ newList, (manifestLinkCheckExists targetList target1 item >>= fun _ => .ok linkList)
          = Except.ok newList) ↔ manifestLinkCheckExists targetList target1 item = .ok () := by
      constructor
      · rintro ⟨newList, hnew⟩
        obtain ⟨_, hexists, -⟩ := ok_of_bind hnew
        exact hexists
      · intro hexists
        exact ⟨linkList, by rw [hexists]; rfl⟩
    rw [hok, manifestLinkCheckExists_iff, hfile]
    constructor
    · rintro ⟨hne1, hne2, hne⟩ first hfirst (⟨hsame, hfiles⟩ | ⟨hnone, -⟩)
      · have heq : first = found := hfirst.eq hfound ((hsame.1.antisymm hsame.2).trans hdir.symm)
        subst heq
        rcases hfiles with hnone | hnone | hequal
        · exact hne2 hnone
        · exact hne1 hnone
        · exact hne hequal.symm
      · exact hne1 hnone.2
    · intro hall
      have hfree := hall found hfound
      have hsame : TextWithin found.dir dir ∧ TextWithin dir found.dir := by
        rw [hdir]
        exact ⟨textWithin_refl dir, textWithin_refl dir⟩
      exact ⟨fun hnone => hfree (.inl ⟨hsame, .inr (.inl hnone)⟩), fun hnone => hfree (.inl ⟨hsame, .inl hnone⟩),
        fun hequal => hfree (.inl ⟨hsame, .inr (.inr hequal.symm)⟩)⟩
  | none =>
    obtain ⟨hnew, hnot⟩ := h.not_found hfind
    obtain ⟨linkIdx, hbelow, habove, hlist⟩ :=
      manifestLinkCheckList_not_found targetList target1 targetIdx h.sorted hfind
    have hdirs (first : LinkDestination) (hfirst : FirstIn before first)
        (hsame : TextWithin first.dir dir ∧ TextWithin dir first.dir) : False :=
      hnot first hfirst (hsame.1.antisymm hsame.2)
    rw [hlist]
    cases hfile : target1.file with
    | some file =>
      refine ⟨fun _ first hfirst hconflict => ?_, fun _ => ⟨_, rfl⟩⟩
      rcases hconflict with ⟨hsame, -⟩ | ⟨hnone, -⟩
      · exact hdirs first hfirst hsame
      · cases hnone.2
    | none =>
      rw [hfile] at hbelow habove
      have hok (newList : List ManifestLinkCheckItem) :
          (∃ result, (manifestLinkCheckPrior targetList target1 newList linkIdx (dir ++ ['/']) >>= fun _ =>
            manifestLinkCheckNext targetList target1 newList linkIdx (dir ++ ['/']) >>= fun _ => .ok newList)
              = Except.ok result) ↔
          manifestLinkCheckPrior targetList target1 newList linkIdx (dir ++ ['/']) = .ok () ∧
            manifestLinkCheckNext targetList target1 newList linkIdx (dir ++ ['/']) = .ok () := by
        constructor
        · rintro ⟨result, hresult⟩
          obtain ⟨_, hprior, hrest⟩ := ok_of_bind hresult
          obtain ⟨_, hnext, -⟩ := ok_of_bind hrest
          exact ⟨hprior, hnext⟩
        · rintro ⟨hprior, hnext⟩
          exact ⟨newList, by rw [hprior, ok_bind, hnext, ok_bind]⟩
      show (∃ result, (manifestLinkCheckPrior targetList target1 _ linkIdx (dir ++ ['/']) >>= fun _ =>
        manifestLinkCheckNext targetList target1 _ linkIdx (dir ++ ['/']) >>= fun _ => .ok _)
          = Except.ok result) ↔ _
      rw [hok, manifestLinkCheckPath_iff h hbelow habove hnew]
      constructor
      · rintro hall first hfirst (⟨hsame, -⟩ | ⟨hnone, hwithin⟩)
        · exact hdirs first hfirst hsame
        · obtain ⟨item, hmem, hpath, hitem⟩ := h.first first hfirst
          have happart := hall item hmem (by rw [hitem, hnone.1]; rfl)
          rw [hpath] at happart
          exact hwithin.elim (fun hw => happart.1 (textWithin_iff.mp hw)) fun hw => happart.2 (textWithin_iff.mp hw)
      · intro hall item hmem hitem
        obtain ⟨first, hfirst, hpath, hfirstfile⟩ := h.dir item hmem
        have hnone : first.file = none := by rw [← hfirstfile]; exact Option.isNone_iff_eq_none.mp hitem
        rw [hpath]
        exact ⟨fun hw => hall first hfirst (.inr ⟨⟨hnone, rfl⟩, .inl (textWithin_iff.mpr hw)⟩),
          fun hw => hall first hfirst (.inr ⟨⟨hnone, rfl⟩, .inr (textWithin_iff.mpr hw)⟩)⟩

/-- **The list stays as it should be.** -/
theorem manifestLinkCheckList_inv (h : LinkListInv before linkList) {targetIdx : ℕ}
    {newList : List ManifestLinkCheckItem}
    (hok : manifestLinkCheckList targetList linkList target1 targetIdx (dir ++ ['/']) = .ok newList) :
    LinkListInv (before ++ [⟨dir, target1.file⟩]) newList := by
  have hfree := (manifestLinkCheckList_iff h targetIdx).mp ⟨newList, hok⟩
  cases hfind : manifestLinkFind linkList (dir ++ ['/']) with
  | some linkIdx =>
    obtain ⟨item, found, hitem, hfound, hdir, -⟩ := h.found hfind
    rw [manifestLinkCheckList_found hfind hitem] at hok
    obtain ⟨_, -, hnew⟩ := ok_of_bind hok
    cases hnew
    -- The directory has a first link already.
    have hfirst (a : LinkDestination) : FirstIn (before ++ [⟨dir, target1.file⟩]) a ↔ FirstIn before a := by
      rw [firstIn_append]
      refine ⟨fun hor => hor.elim id ?_, .inl⟩
      rintro ⟨-, hnone⟩
      exact absurd hdir (hnone found hfound)
    exact ⟨h.sorted, fun item hmem => by simpa only [hfirst] using h.dir item hmem,
      fun a ha => h.first a ((hfirst a).mp ha), h.apart⟩
  | none =>
    obtain ⟨hnew, hnot⟩ := h.not_found hfind
    obtain ⟨linkIdx, -, -, hlist⟩ :=
      manifestLinkCheckList_not_found targetList target1 targetIdx h.sorted hfind
    have hnewList : newList = manifestLinkAddSort linkList ⟨dir ++ ['/'], target1.file, targetIdx⟩ := by
      rw [hlist] at hok
      split at hok
      · exact (Except.ok.inj hok).symm
      · obtain ⟨_, -, hrest⟩ := ok_of_bind hok
        obtain ⟨_, -, hlast⟩ := ok_of_bind hrest
        exact (Except.ok.inj hlast).symm
    rw [hnewList]
    refine ⟨manifestLinkAddSort_sorted h.sorted hnew, ?_, ?_, ?_⟩
    · intro item hmem
      rcases mem_manifestLinkAddSort.mp hmem with hmem | rfl
      · obtain ⟨first, hfirst, hpath⟩ := h.dir item hmem
        exact ⟨first, firstIn_append.mpr (.inl hfirst), hpath⟩
      · exact ⟨⟨dir, target1.file⟩, firstIn_append.mpr (.inr ⟨rfl, hnot⟩), rfl, rfl⟩
    · intro a ha
      rcases firstIn_append.mp ha with ha | ⟨rfl, -⟩
      · obtain ⟨item, hmem, hitem⟩ := h.first a ha
        exact ⟨item, mem_manifestLinkAddSort.mpr (.inl hmem), hitem⟩
      · exact ⟨_, mem_manifestLinkAddSort.mpr (.inr rfl), rfl, rfl⟩
    · intro a ha b hb hfa hfb hab
      rcases mem_manifestLinkAddSort.mp ha with ha | rfl <;> rcases mem_manifestLinkAddSort.mp hb with hb | rfl
      · exact h.apart a ha b hb hfa hfb hab
      · obtain ⟨first, hfirst, hpath, hfile⟩ := h.dir a ha
        rw [hpath] at hab
        rw [hfile] at hfa
        exact absurd (.inr ⟨⟨Option.isNone_iff_eq_none.mp hfa, Option.isNone_iff_eq_none.mp hfb⟩,
          .inl (textWithin_iff.mpr hab)⟩) (hfree first hfirst)
      · obtain ⟨first, hfirst, hpath, hfile⟩ := h.dir b hb
        rw [hpath] at hab
        rw [hfile] at hfb
        exact absurd (.inr ⟨⟨Option.isNone_iff_eq_none.mp hfb, Option.isNone_iff_eq_none.mp hfa⟩,
          .inr (textWithin_iff.mpr hab)⟩) (hfree first hfirst)
      · rfl

end Check

/-! ## All links -/

section Run

variable {targetList : List ManifestTarget} {base : Str} {before links : List LinkDestination}

/-- Each destination shows no conflict with those that come before it. -/
def LinksAccepted (base : Str) : List LinkDestination → List LinkDestination → Prop
  | _, [] => True
  | before, a :: links => LinkAccepted base before a ∧ LinksAccepted base (before ++ [a]) links

theorem linksAccepted_iff :
    LinksAccepted base before links ↔
      ∀ mid a after, links = mid ++ a :: after → LinkAccepted base (before ++ mid) a := by
  induction links generalizing before with
  | nil => exact ⟨fun _ mid a after h => absurd h.symm (append_ne_nil_of_right_ne_nil _ (cons_ne_nil _ _)),
      fun _ => trivial⟩
  | cons a links ih =>
    unfold LinksAccepted
    rw [ih]
    constructor
    · rintro ⟨ha, hlinks⟩ mid b after h
      cases mid with
      | nil =>
        obtain ⟨rfl, rfl⟩ := cons.inj h
        rwa [append_nil]
      | cons c mid =>
        obtain ⟨rfl, rfl⟩ := cons.inj h
        have hb := hlinks mid b after rfl
        rwa [append_assoc] at hb
    · intro h
      have ha := h [] a links rfl
      rw [append_nil] at ha
      refine ⟨ha, fun mid b after hsplit => ?_⟩
      rw [append_assoc]
      exact h (a :: mid) b after (by rw [hsplit]; rfl)

/-- What holds between two targets. -/
structure LinkCheckInv (targetList : List ManifestTarget) (before : List LinkDestination)
    (linkCheck : ManifestLinkCheck) : Prop where
  basePath : ∀ path ∈ linkCheck.basePath, ∃ base ∈ manifestBaseDir targetList, path = base ++ ['/']
  list : LinkListInv before linkCheck.linkList

theorem LinkCheckInv.init : LinkCheckInv targetList [] manifestLinkCheckInit where
  basePath := fun _ h => absurd h nofun
  list :=
    { sorted := .nil
      dir := fun _ h => absurd h not_mem_nil
      first := fun _ h => absurd h nofun
      apart := fun _ h => absurd h not_mem_nil }

theorem toOption_eq_some {α : Type} {x : Except Error α} {a : α} : x.toOption = some a ↔ x = .ok a := by
  cases x with
  | error error => exact ⟨fun h => absurd h nofun, fun h => absurd h nofun⟩
  | ok b => exact ⟨fun h => congrArg _ (Option.some.inj h), fun h => congrArg _ (Except.ok.inj h)⟩

variable {linkCheck : ManifestLinkCheck}

theorem LinkCheckInv.basePath_iff (h : LinkCheckInv targetList before linkCheck) {path : Str} :
    manifestLinkBasePath targetList linkCheck = .ok path ↔ ∃ base ∈ manifestBaseDir targetList, path = base ++ ['/'] := by
  unfold manifestLinkBasePath
  cases hpath : linkCheck.basePath with
  | some basePath =>
    obtain ⟨base, hbase, rfl⟩ := h.basePath basePath hpath
    constructor
    · intro heq
      exact ⟨base, hbase, (Except.ok.inj heq).symm⟩
    · rintro ⟨base', hbase', rfl⟩
      rw [Option.mem_def.mp hbase] at hbase'
      rw [Option.some.inj hbase']
  | none =>
    unfold manifestBaseDir
    cases hfind : manifestTargetFind targetList "pg_data".toList with
    | error error => exact ⟨fun h => absurd h nofun, fun ⟨_, h, _⟩ => absurd h nofun⟩
    | ok base =>
      rw [ok_bind, ok_bind]
      simp only [Option.mem_def, toOption_eq_some]
      constructor
      · intro heq
        obtain ⟨dir, hdir, heq⟩ := ok_of_bind heq
        exact ⟨dir, hdir, (Except.ok.inj heq).symm⟩
      · rintro ⟨dir, hdir, rfl⟩
        rw [hdir]
        rfl

/-- Where a link target leads to. -/
def linkDestination (targetList : List ManifestTarget) (target : ManifestTarget) : Option LinkDestination :=
  (manifestTargetPath targetList target).toOption.map fun dir => ⟨dir, target.file⟩

/-- The destinations of the link targets among some targets of the list. -/
def destinationsOf (targetList rest : List ManifestTarget) : List LinkDestination :=
  (rest.filter (·.type = .link)).filterMap (linkDestination targetList)

/-- The link targets among them have a destination, and the data directory has
a path. -/
def Resolved (targetList rest : List ManifestTarget) : Prop :=
  ∀ target ∈ rest, target.type = .link →
    (manifestTargetPath targetList target).toOption.isSome = true ∧ (manifestBaseDir targetList).isSome = true

/-- **One target**: a link target passes if it has a destination, the data
directory has a path, and the destination is accepted. -/
theorem manifestLinkCheckOne_iff (h : LinkCheckInv targetList before linkCheck)
    {targetIdx : ℕ} {target : ManifestTarget} (hget : targetList[targetIdx]? = some target)
    (hlink : target.type = .link) {next : ManifestLinkCheck} :
    manifestLinkCheckOne targetList linkCheck targetIdx = .ok next ↔
      ∃ dir base newList, manifestTargetPath targetList target = .ok dir ∧ manifestBaseDir targetList = some base ∧
        ¬TextWithin base dir ∧
        manifestLinkCheckList targetList linkCheck.linkList target targetIdx (dir ++ ['/']) = .ok newList ∧
        next = ⟨some (base ++ ['/']), newList⟩ := by
  have hone : manifestLinkCheckOne targetList linkCheck targetIdx
      = manifestTargetPath targetList target >>= fun dir =>
        manifestLinkBasePath targetList linkCheck >>= fun basePath =>
        if strBeginsWith (dir ++ ['/']) basePath then
          .error ⟨.linkDestinationError, "link '".toList ++ (manifestPathPg target.name).getD []
            ++ "' destination '".toList ++ dir ++ "' is in PGDATA".toList⟩
        else
          manifestLinkCheckList targetList linkCheck.linkList target targetIdx (dir ++ ['/']) >>= fun newList =>
          .ok ⟨some basePath, newList⟩ := by
    unfold manifestLinkCheckOne lstGet
    rw [hget]
    show (if target.type = .link then _ else _) = _
    rw [if_pos hlink]
    rfl
  rw [hone]
  constructor
  · intro hok
    obtain ⟨dir, hdir, hok⟩ := ok_of_bind hok
    obtain ⟨basePath, hbasePath, hok⟩ := ok_of_bind hok
    obtain ⟨base, hbase, rfl⟩ := h.basePath_iff.mp hbasePath
    split at hok
    · cases hok
    · rename_i hbegins
      obtain ⟨newList, hlist, hok⟩ := ok_of_bind hok
      exact ⟨dir, base, newList, hdir, hbase, hbegins, hlist, (Except.ok.inj hok).symm⟩
  · rintro ⟨dir, base, newList, hdir, hbase, hbegins, hlist, rfl⟩
    have hnot : ¬strBeginsWith (dir ++ ['/']) (base ++ ['/']) = true := hbegins
    rw [hdir, ok_bind, h.basePath_iff.mpr ⟨base, hbase, rfl⟩, ok_bind, if_neg hnot, hlist]
    rfl

/-- **All targets from one on**: they pass if the links resolve and their
destinations are accepted one after the other. -/
theorem manifestLinkCheck_run (h : LinkCheckInv targetList before linkCheck)
    {done rest : List ManifestTarget} (hsplit : targetList = done ++ rest) :
    (∃ next, (range' done.length rest.length).foldlM (manifestLinkCheckOne targetList) linkCheck = .ok next) ↔
      Resolved targetList rest ∧
      ∀ base ∈ manifestBaseDir targetList, LinksAccepted base before (destinationsOf targetList rest) := by
  induction rest generalizing done before linkCheck with
  | nil =>
    exact ⟨fun _ => ⟨fun target htarget => absurd htarget not_mem_nil, fun _ _ => trivial⟩,
      fun _ => ⟨linkCheck, rfl⟩⟩
  | cons target rest ih =>
    have hget : targetList[done.length]? = some target := by
      rw [hsplit, getElem?_append_right le_rfl, Nat.sub_self]
      rfl
    have hsplit' : targetList = (done ++ [target]) ++ rest := by rw [hsplit, append_assoc]; rfl
    have hlength : done.length + 1 = (done ++ [target]).length := by rw [length_append]; rfl
    rw [length_cons, range'_succ, foldlM_cons]
    by_cases hlink : target.type = .link
    · have hdestinations {dir : Str} (hdir : manifestTargetPath targetList target = .ok dir) :
          destinationsOf targetList (target :: rest) = ⟨dir, target.file⟩ :: destinationsOf targetList rest := by
        have hdest : linkDestination targetList target = some ⟨dir, target.file⟩ := by
          unfold linkDestination
          rw [hdir]
          rfl
        unfold destinationsOf
        rw [filter_cons_of_pos (by simpa using hlink), filterMap_cons_some hdest]
      -- After a link that passes, the invariant holds with its destination.
      have hinv {dir base : Str} {newList : List ManifestLinkCheckItem}
          (hbase : manifestBaseDir targetList = some base)
          (hlist : manifestLinkCheckList targetList linkCheck.linkList target done.length (dir ++ ['/'])
            = .ok newList) :
          LinkCheckInv targetList (before ++ [⟨dir, target.file⟩]) ⟨some (base ++ ['/']), newList⟩ := by
        refine ⟨fun path hpath => ⟨base, hbase, (Option.some.inj hpath).symm⟩, ?_⟩
        exact manifestLinkCheckList_inv h.list hlist
      constructor
      · rintro ⟨next, hnext⟩
        obtain ⟨mid, hmid, hrest⟩ := ok_of_bind hnext
        obtain ⟨dir, base, newList, hdir, hbase, hbegins, hlist, rfl⟩ :=
          (manifestLinkCheckOne_iff h hget hlink).mp hmid
        rw [hlength] at hrest
        obtain ⟨hresolved, haccepted⟩ := (ih (hinv hbase hlist) hsplit').mp ⟨next, hrest⟩
        refine ⟨forall_mem_cons.mpr ⟨fun _ => ⟨by rw [hdir]; rfl, by rw [hbase]; rfl⟩, hresolved⟩, ?_⟩
        intro base' hbase'
        rw [Option.mem_def, hbase, Option.some.injEq] at hbase'
        subst hbase'
        rw [hdestinations hdir]
        exact ⟨⟨hbegins, (manifestLinkCheckList_iff h.list done.length).mp ⟨newList, hlist⟩⟩,
          haccepted base hbase⟩
      · rintro ⟨hresolved, haccepted⟩
        obtain ⟨hthis, hresolved⟩ := forall_mem_cons.mp hresolved
        obtain ⟨dir, hdir⟩ := Option.isSome_iff_exists.mp (hthis hlink).1
        rw [toOption_eq_some] at hdir
        obtain ⟨base, hbase⟩ := Option.isSome_iff_exists.mp (hthis hlink).2
        have hall := haccepted base hbase
        rw [hdestinations hdir] at hall
        obtain ⟨newList, hlist⟩ := (manifestLinkCheckList_iff h.list done.length).mpr hall.1.links
        have hone := (manifestLinkCheckOne_iff h hget hlink).mpr
          ⟨dir, base, newList, hdir, hbase, hall.1.base, hlist, rfl⟩
        rw [hone, ok_bind, hlength]
        refine (ih (hinv hbase hlist) hsplit').mpr ⟨hresolved, fun base' hbase' => ?_⟩
        rw [Option.mem_def, hbase, Option.some.injEq] at hbase'
        subst hbase'
        exact hall.2
    · have hone : manifestLinkCheckOne targetList linkCheck done.length = .ok linkCheck := by
        unfold manifestLinkCheckOne lstGet
        rw [hget]
        show (if target.type = .link then _ else _) = _
        rw [if_neg hlink]
      have hdestinations : destinationsOf targetList (target :: rest) = destinationsOf targetList rest := by
        unfold destinationsOf
        rw [filter_cons_of_neg (by simpa using hlink)]
      have hresolved : Resolved targetList (target :: rest) ↔ Resolved targetList rest :=
        forall_mem_cons.trans (and_iff_right fun h => absurd h hlink)
      rw [hone, ok_bind, hdestinations, hresolved, hlength]
      exact ih h hsplit'

theorem resolved_iff : Resolved targetList targetList ↔ LinkResolved targetList := by
  constructor
  · intro h
    exact ⟨fun ⟨target, hmem, hlink⟩ => (h target hmem hlink).2, fun target hmem hlink => (h target hmem hlink).1⟩
  · intro h target hmem hlink
    exact ⟨h.links target hmem hlink, h.base ⟨target, hmem, hlink⟩⟩

/-- **What the check accepts**: the links resolve and no conflict shows. -/
theorem manifestLinkCheck_ok_iff :
    manifestLinkCheck targetList = .ok () ↔ LinkResolved targetList ∧ ¬VisibleConflict targetList := by
  have hinit : LinkCheckInv targetList [] manifestLinkCheckInit := LinkCheckInv.init
  have hrun := @manifestLinkCheck_run targetList [] manifestLinkCheckInit hinit [] targetList rfl
  have hmap : manifestLinkCheck targetList = .ok () ↔
      ∃ next, (range' 0 targetList.length).foldlM (manifestLinkCheckOne targetList) manifestLinkCheckInit
        = .ok next := by
    unfold manifestLinkCheck
    rw [range_eq_range']
    cases (range' 0 targetList.length).foldlM (manifestLinkCheckOne targetList) manifestLinkCheckInit with
    | error error => exact ⟨fun h => absurd h nofun, fun ⟨_, h⟩ => absurd h nofun⟩
    | ok next => exact ⟨fun _ => ⟨next, rfl⟩, fun _ => rfl⟩
  have hvisible : (∀ base ∈ manifestBaseDir targetList, LinksAccepted base [] (destinationsOf targetList targetList)) ↔
      ¬VisibleConflict targetList := by
    constructor
    · rintro hall ⟨base, hbase, before, a, after, hsplit, hrefused⟩
      exact hrefused (linksAccepted_iff.mp (hall base hbase) before a after hsplit)
    · intro hhidden base hbase
      refine linksAccepted_iff.mpr fun mid a after hsplit => ?_
      exact Classical.byContradiction fun hrefused => hhidden ⟨base, hbase, mid, a, after, hsplit, hrefused⟩
  rw [hmap, ← resolved_iff, ← hvisible]
  exact hrun

theorem pairwise_iff_split {α : Type} {R : α → α → Prop} {l : List α} :
    l.Pairwise R ↔ ∀ before b after, l = before ++ b :: after → ∀ a ∈ before, R a b := by
  constructor
  · rintro h before b after rfl a ha
    exact (pairwise_append.mp h).2.2 a ha b mem_cons_self
  · intro h
    refine pairwise_iff_forall_sublist.mpr fun {a b} hsub => ?_
    obtain ⟨before, rest, rfl, ha, hb⟩ := cons_sublist_iff.mp hsub
    obtain ⟨mid, after, rfl⟩ := append_of_mem (singleton_sublist.mp hb)
    exact h (before ++ mid) b after (append_assoc ..).symm a (mem_append_left _ ha)

/-- Where there is a link the data directory has a path. -/
theorem exists_base (hresolved : LinkResolved targetList) {a : LinkDestination} (ha : a ∈ linkDestinations targetList) :
    ∃ base, base ∈ manifestBaseDir targetList := by
  obtain ⟨target, htarget, -⟩ := mem_filterMap.mp ha
  rw [mem_filter, decide_eq_true_eq] at htarget
  exact Option.isSome_iff_exists.mp (hresolved.base ⟨target, htarget⟩)

theorem linksMeet_iff : LinksMeet targetList ↔ ¬LinkConflictFree targetList := by
  have hlinks : (linkDestinations targetList).Pairwise (fun a b => ¬LinkConflict PathWithin a b) ↔
      ¬∃ a b, [a, b] <+ linkDestinations targetList ∧ LinkConflict PathWithin a b := by
    rw [pairwise_iff_forall_sublist]
    push Not
    rfl
  constructor
  · rintro (⟨base, hbase, a, ha, hwithin⟩ | hmeet) hfree
    · exact hfree.base base hbase a ha hwithin
    · exact hlinks.mp hfree.links hmeet
  · intro h
    by_contra hnone
    rw [LinksMeet, not_or] at hnone
    exact h ⟨fun base hbase a ha hwithin => hnone.1 ⟨base, hbase, a, ha, hwithin⟩, hlinks.mpr hnone.2⟩

/-- A link has a first one in its directory, which is the link itself or comes
before it. -/
theorem exists_firstIn (before : List LinkDestination) (a : LinkDestination) (after : List LinkDestination) :
    ∃ first, FirstIn (before ++ a :: after) first ∧ first.dir = a.dir ∧ (first = a ∨ FirstIn before first) := by
  unfold FirstIn
  cases hfind : before.find? (·.dir = a.dir) with
  | some first =>
    have hdir : first.dir = a.dir := by simpa using find?_some hfind
    rw [← hdir] at hfind
    exact ⟨first, by rw [find?_append, hfind, Option.some_or], hdir, .inr hfind⟩
  | none =>
    refine ⟨a, ?_, rfl, .inl rfl⟩
    rw [find?_append, hfind, Option.none_or, find?_cons]
    simp

theorem FirstIn.append {first : LinkDestination} (h : FirstIn before first) (rest : List LinkDestination) :
    FirstIn (before ++ rest) first := by
  unfold FirstIn at h ⊢
  rw [find?_append, h, Option.some_or]

/-- **The first link of a directory is enough**: a link that is in conflict with
one of the directory, by the text of the paths, is in conflict with the first
one as well, or has the destination of the other one, or the other one is in
conflict with the first one itself. -/
theorem LinkConflict.first {first a b : LinkDestination} (hdir : first.dir = a.dir)
    (hconflict : LinkConflict TextWithin a b) :
    LinkConflict TextWithin first b ∨ a = b ∨ LinkConflict TextWithin first a := by
  have hself : TextWithin first.dir a.dir ∧ TextWithin a.dir first.dir := by
    rw [hdir]
    exact ⟨textWithin_refl _, textWithin_refl _⟩
  rcases hconflict with ⟨hsame, hnone | hnone | hfile⟩ | ⟨hnone, -⟩
  · exact .inr (.inr (.inl ⟨hself, .inr (.inl hnone)⟩))
  · exact .inl (.inl ⟨hdir ▸ hsame, .inr (.inl hnone)⟩)
  · refine .inr (.inl ?_)
    cases a
    cases b
    exact congrArg₂ LinkDestination.mk (hsame.1.antisymm hsame.2) hfile
  · exact .inr (.inr (.inl ⟨hself, .inr (.inl hnone.1)⟩))

theorem accepted_of_hidden (hhidden : ¬VisibleConflict targetList) (hbase : base ∈ manifestBaseDir targetList)
    (before : List LinkDestination) (a : LinkDestination) (after : List LinkDestination)
    (hsplit : linkDestinations targetList = before ++ a :: after) : LinkAccepted base before a :=
  Classical.byContradiction fun hrefused => hhidden ⟨base, hbase, before, a, after, hsplit, hrefused⟩

/-- What no conflict shows of: no link is in conflict with an earlier one, by the
text of the paths, unless both have one destination that is not the first in
its directory. -/
theorem not_textConflict_of_accepted {links : List LinkDestination}
    (haccepted : ∀ before a after, links = before ++ a :: after → LinkAccepted base before a)
    (htwice : links.Pairwise fun a b => a = b → FirstIn links a) :
    links.Pairwise fun a b => ¬LinkConflict TextWithin a b := by
  refine pairwise_iff_split.mpr fun before b after hsplit a ha hconflict => ?_
  obtain ⟨mid, rest, rfl⟩ := append_of_mem ha
  obtain ⟨first, hfirst, hdir, hor⟩ := exists_firstIn mid a rest
  have hb := (haccepted _ b after hsplit).links first hfirst
  rcases hconflict.first hdir with hconflict | heq | hconflict
  · exact hb hconflict
  · have hfirst' : FirstIn links first := by
      rw [hsplit]
      exact hfirst.append _
    have hall := pairwise_iff_split.mp htwice _ b after hsplit a ha heq
    exact hb (hfirst'.eq hall hdir ▸ heq ▸ .inl ⟨⟨textWithin_refl _, textWithin_refl _⟩, .inr (.inr rfl)⟩)
  · rcases hor with rfl | hmid
    · exact hb ‹_›
    · have hsplit' : links = mid ++ a :: (rest ++ b :: after) := by rw [hsplit, append_assoc, cons_append]
      exact (haccepted mid a _ hsplit').links first hmid hconflict

/-- **If the texts show what there is** then the check accepts the targets that
have no conflict. -/
theorem LinksPlain.ok_iff (h : LinksPlain targetList) :
    manifestLinkCheck targetList = .ok () ↔ LinkConflictFree targetList := by
  rw [manifestLinkCheck_ok_iff]
  have hlinks := pairwise_iff_split.mp h.links
  constructor
  · rintro ⟨-, hhidden⟩
    constructor
    · intro base hbase a ha hwithin
      obtain ⟨before, after, hsplit⟩ := append_of_mem ha
      exact (accepted_of_hidden hhidden hbase before a after hsplit).base ((h.base base hbase a ha).mpr hwithin)
    · refine pairwise_iff_split.mpr fun before b after hsplit a ha hconflict => ?_
      obtain ⟨base, hbase⟩ := exists_base h.resolved (hsplit ▸ mem_append_left _ ha)
      have htext := pairwise_iff_split.mp (not_textConflict_of_accepted (accepted_of_hidden hhidden hbase) h.twice)
      exact htext before b after hsplit a ha ((hlinks before b after hsplit a ha).mpr hconflict)
  · intro hfree
    refine ⟨h.resolved, ?_⟩
    rintro ⟨base, hbase, before, a, after, hsplit, hrefused⟩
    refine hrefused ⟨fun hwithin => ?_, fun first hfirst hconflict => ?_⟩
    · have ha : a ∈ linkDestinations targetList := hsplit ▸ mem_append_right _ mem_cons_self
      exact hfree.base base hbase a ha ((h.base base hbase a ha).mp hwithin)
    · exact pairwise_iff_split.mp hfree.links before a after hsplit first hfirst.mem
        ((hlinks before a after hsplit first hfirst.mem).mp hconflict)

/-- Targets that are accepted and have no conflict show that they have none. -/
theorem linksPlain_of_free (hresolved : LinkResolved targetList) (hhidden : ¬VisibleConflict targetList)
    (hfree : LinkConflictFree targetList) : LinksPlain targetList := by
  have htwice : (linkDestinations targetList).Pairwise fun a b => a = b → FirstIn (linkDestinations targetList) a := by
    refine hfree.links.imp fun {a b} hnone heq => absurd ?_ hnone
    exact heq ▸ .inl ⟨⟨prefix_refl _, prefix_refl _⟩, .inr (.inr rfl)⟩
  refine ⟨hresolved, fun base hbase a ha => ?_, ?_, htwice⟩
  · obtain ⟨before, after, hsplit⟩ := append_of_mem ha
    exact iff_of_false (accepted_of_hidden hhidden hbase before a after hsplit).base (hfree.base base hbase a ha)
  · refine pairwise_iff_split.mpr fun before b after hsplit a ha => ?_
    obtain ⟨base, hbase⟩ := exists_base hresolved (hsplit ▸ mem_append_left _ ha)
    have htext := pairwise_iff_split.mp (not_textConflict_of_accepted (accepted_of_hidden hhidden hbase) htwice)
    exact iff_of_false (htext before b after hsplit a ha) (pairwise_iff_split.mp hfree.links before b after hsplit a ha)

/-- **The check is right exactly when the texts of the paths show what there
is**, or it refuses a link where two links meet. -/
theorem manifestLinkCheck_exact (targetList : List ManifestTarget) :
    (manifestLinkCheck targetList = .ok () ↔ LinkConflictFree targetList) ↔
      LinksPlain targetList ∨
        (¬LinkResolved targetList ∨ VisibleConflict targetList) ∧ LinksMeet targetList := by
  constructor
  · intro h
    by_cases hfree : LinkConflictFree targetList
    · obtain ⟨hresolved, hhidden⟩ := manifestLinkCheck_ok_iff.mp (h.mpr hfree)
      exact .inl (linksPlain_of_free hresolved hhidden hfree)
    · have hrefused := mt h.mp hfree
      rw [manifestLinkCheck_ok_iff, not_and_or, not_not] at hrefused
      exact .inr ⟨hrefused, linksMeet_iff.mpr hfree⟩
  · rintro (hplain | ⟨hrefused, hmeet⟩)
    · exact hplain.ok_iff
    · refine iff_of_false ?_ (linksMeet_iff.mp hmeet)
      rw [manifestLinkCheck_ok_iff, not_and_or, not_not]
      exact hrefused

/-- A directory that is written plainly: the names that lead to it, and at least
one. -/
def PlainText (path : Str) : Prop := ∃ names ≠ [], (∀ name ∈ names, IsName name) ∧ path = pathText names

theorem PlainText.textWithin_iff {dir path : Str} (hdir : PlainText dir) (hpath : PlainText path) :
    TextWithin dir path ↔ PathWithin dir path := by
  obtain ⟨names, hroot, hnames, rfl⟩ := hdir
  obtain ⟨names', hroot', hnames', rfl⟩ := hpath
  unfold PathWithin
  rw [PgxBackup.textWithin_iff, pathNames_text hnames, pathNames_text hnames']
  exact pathText_prefix_iff (fun name h => (hnames name h).component.2)
    (fun name h => (hnames' name h).component.2) hroot hroot'

/-- **Directories that are written plainly** show what there is, unless a file
that is not the first one of its directory is linked twice. -/
theorem linksPlain_of_plainText (hresolved : LinkResolved targetList)
    (hbase : ∀ base ∈ manifestBaseDir targetList, PlainText base)
    (hlinks : ∀ a ∈ linkDestinations targetList, PlainText a.dir)
    (htwice : (linkDestinations targetList).Pairwise fun a b => a = b → FirstIn (linkDestinations targetList) a) :
    LinksPlain targetList := by
  refine ⟨hresolved, fun base hmem a ha => (hbase base hmem).textWithin_iff (hlinks a ha), ?_, htwice⟩
  refine pairwise_iff_split.mpr fun before b after hsplit a ha => ?_
  have hab := hlinks a (hsplit ▸ mem_append_left _ ha)
  have hb := hlinks b (hsplit ▸ mem_append_right _ mem_cons_self)
  unfold LinkConflict
  rw [hab.textWithin_iff hb, hb.textWithin_iff hab]

/-- The links of three configuration files, the last two of which lead to one
file. -/
def threeFileLinks : List ManifestTarget :=
  let link name file : ManifestTarget := ⟨name, .link, "/etc/pg".toList, some file, 0, none⟩
  [⟨"pg_data".toList, .path, "/pg".toList, none, 0, none⟩,
    link "pg_data/pg_hba.conf".toList "hba.conf".toList,
    link "pg_data/pg_ident.conf".toList "shared.conf".toList,
    link "pg_data/postgresql.conf".toList "shared.conf".toList]

/-- **Two links to one file are accepted** if another file of the directory has
a link before them, and refused in another order. -/
theorem manifestLinkCheck_threeFileLinks :
    manifestLinkCheck threeFileLinks = .ok () ∧ ¬LinkConflictFree threeFileLinks ∧
      manifestLinkCheck threeFileLinks.reverse ≠ .ok () := by
  refine ⟨by decide +kernel, fun h => ?_, by decide +kernel⟩
  have hpairs := h.links
  revert hpairs
  decide +kernel

end Run

end PgxBackup
