import PgxBackup.RestoreMapSafe

/-!
# What a mapping does

The mapping goes over the base, the tablespaces, the links of the link map, and
the links that are not in it. Each of the four changes what it is about and
leaves the rest, and after each of them the targets and the links correspond.
-/

namespace PgxBackup

open List

variable {config : RestoreMapConfig} {manifest manifest₁ manifest' : Manifest}

/-! ## What is left alone -/

/-- **Only these targets and links are changed.** -/
structure Remapped (touched touchedLink : Str → Prop) (manifest manifest' : Manifest) : Prop where
  inv : RemapInv manifest'
  same : SameNames manifest manifest'
  find : ∀ other, ¬touched other →
    manifestTargetFindDefault manifest' other = manifestTargetFindDefault manifest other
  findLink : ∀ other, ¬touchedLink other →
    manifestLinkFindDefault manifest' other = manifestLinkFindDefault manifest other

section Frame

variable {touched touchedLink more moreLink : Str → Prop}

theorem Remapped.refl (h : RemapInv manifest) : Remapped touched touchedLink manifest manifest :=
  ⟨h, ⟨rfl, rfl⟩, fun _ _ => rfl, fun _ _ => rfl⟩

theorem Remapped.trans (h : Remapped touched touchedLink manifest manifest₁)
    (h' : Remapped more moreLink manifest₁ manifest') :
    Remapped (fun other => touched other ∨ more other) (fun other => touchedLink other ∨ moreLink other)
      manifest manifest' := by
  refine ⟨h'.inv, h.same.trans h'.same, fun other hnot => ?_, fun other hnot => ?_⟩
  · rw [h'.find other (fun hmore => hnot (.inr hmore)), h.find other (fun htouched => hnot (.inl htouched))]
  · rw [h'.findLink other (fun hmore => hnot (.inr hmore)), h.findLink other (fun htouched => hnot (.inl htouched))]

theorem Remapped.mono (h : Remapped touched touchedLink manifest manifest') (hmore : ∀ other, touched other → more other)
    (hlink : ∀ other, touchedLink other → moreLink other) : Remapped more moreLink manifest manifest' :=
  ⟨h.inv, h.same, fun other hnot => h.find other (fun ht => hnot (hmore other ht)),
    fun other hnot => h.findLink other (fun ht => hnot (hlink other ht))⟩

theorem Remapped.cons {α : Type} {p q : α → Str → Prop} {a : α} {as : List α}
    (h : Remapped (p a) (q a) manifest manifest₁)
    (h' : Remapped (fun other => ∃ b ∈ as, p b other) (fun other => ∃ b ∈ as, q b other) manifest₁ manifest') :
    Remapped (fun other => ∃ b ∈ a :: as, p b other) (fun other => ∃ b ∈ a :: as, q b other) manifest manifest' := by
  have hcons {p : α → Str → Prop} (other : Str) (hor : p a other ∨ ∃ b ∈ as, p b other) : ∃ b ∈ a :: as, p b other :=
    hor.elim (fun hp => ⟨a, mem_cons_self, hp⟩) (fun ⟨b, hb, hp⟩ => ⟨b, mem_cons_of_mem a hb, hp⟩)
  exact (h.trans h').mono hcons hcons

theorem MapChange.remapped {name linkName : Str} {target : Option ManifestTarget} {link : Option ManifestLink}
    (hinv : RemapInv manifest') (h : MapChange name linkName target link manifest manifest') :
    Remapped (· = name) (· = linkName) manifest manifest' :=
  ⟨hinv, h.same, fun other hne => (h.findTarget other).trans (if_neg hne),
    fun other hne => (h.findLink other).trans (if_neg hne)⟩

end Frame

/-! ## The base -/

theorem restoreMapBase_ok (h : RemapInv manifest) (hok : restoreMapBase config manifest = .ok manifest') :
    Remapped (· = "pg_data".toList) (· = "pg_data".toList) manifest manifest' ∧
      ∃ target, manifestTargetFindDefault manifest' "pg_data".toList = some target ∧ target.path = config.pgPath := by
  obtain ⟨base, hbase, hok⟩ := ok_of_bind hok
  have hfind : manifestTargetFindDefault manifest "pg_data".toList = some base := by
    unfold manifestTargetBase at hbase
    show manifest.targetList.find? _ = some base
    split at hbase
    · rename_i heq
      cases hbase
      exact heq
    · cases hbase
  split at hok
  · rw [name_of_find hfind] at hok
    obtain ⟨-, rfl⟩ := manifestTargetUpdate_ok hok
    obtain ⟨hinv, hchange⟩ := h.rebase hfind
    exact ⟨hchange.remapped hinv, _, (hchange.findTarget _).trans (if_pos rfl), rfl⟩
  · rename_i hsame
    cases hok
    exact ⟨.refl h, base, hfind, not_not.mp hsame⟩

/-! ## Tablespaces -/

variable {target : ManifestTarget} {linkMap : List (Str × Str)} {key : Str}

/-- **The individual mapping of a tablespace.** -/
theorem restoreMapTablespaceOne_ok {tablespaceMap : List (Str × Str)}
    {path : Option Str} {keys : List Str}
    (hok : restoreMapTablespaceOne tablespaceMap target = .ok (path, keys)) :
    (∀ name found, target.tablespaceName = some name → kvGet tablespaceMap name = some found → path = some found) ∧
      (∀ found, kvGet tablespaceMap (tablespaceIdStr target) = some found → path = some found) ∧
      ((∀ name, target.tablespaceName = some name → kvGet tablespaceMap name = none) →
        kvGet tablespaceMap (tablespaceIdStr target) = none → path = none) ∧
      ∀ key ∈ keys, target.tablespaceName = some key ∨ tablespaceIdStr target = key := by
  have hkeys {byName byId : Option Str} : ∀ key ∈ (if byName.isSome then target.tablespaceName.toList else []) ++
      (if byId.isSome then [tablespaceIdStr target] else []),
      target.tablespaceName = some key ∨ tablespaceIdStr target = key := by
    intro key hkey
    rw [mem_append] at hkey
    rcases hkey with hkey | hkey
    · split at hkey
      · exact .inl (Option.mem_toList.mp hkey)
      · cases hkey
    · split at hkey
      · exact .inr (mem_singleton.mp hkey).symm
      · cases hkey
  have hbind {name found : Str} (hname : target.tablespaceName = some name)
      (hfound : kvGet tablespaceMap name = some found) :
      target.tablespaceName.bind (kvGet tablespaceMap) = some found := by
    rw [hname]
    exact hfound
  unfold restoreMapTablespaceOne at hok
  dsimp only at hok
  split at hok
  · rename_i byName byId hbyName hbyId
    split at hok
    · cases hok
    · rename_i heq
      cases hok
      refine ⟨fun name found hname hfound => ?_, fun found hfound => ?_, fun hnone _ => ?_, hkeys⟩
      · exact hbyName.symm.trans (hbind hname hfound)
      · rw [not_not.mp heq]
        exact hbyId.symm.trans hfound
      · obtain ⟨name, hname, hfound⟩ := Option.bind_eq_some_iff.mp hbyName
        rw [hnone name hname] at hfound
        cases hfound
  · rename_i byName hbyName hbyId
    cases hok
    refine ⟨fun name found hname hfound => ?_, fun found hfound => ?_, fun hnone _ => ?_, hkeys⟩
    · exact hbyName.symm.trans (hbind hname hfound)
    · rw [hbyId] at hfound
      cases hfound
    · obtain ⟨name, hname, hfound⟩ := Option.bind_eq_some_iff.mp hbyName
      rw [hnone name hname] at hfound
      cases hfound
  · rename_i hbyName
    cases hok
    refine ⟨fun name found hname hfound => ?_, fun found hfound => hfound, fun _ hnone => hnone, hkeys⟩
    rw [hbind hname hfound] at hbyName
    cases hbyName

def TablespaceMapped (config : RestoreMapConfig) (target : ManifestTarget) (manifest' : Manifest) : Prop :=
  ∃ target', manifestTargetFindDefault manifest' target.name = some target' ∧
    target'.tablespaceId = target.tablespaceId ∧ MapsTablespace config target target'

def IsTablespace (target : ManifestTarget) (name : Str) : Prop := target.tablespaceId ≠ 0 ∧ name = target.name

def IsTablespaceLink (target : ManifestTarget) (name : Str) : Prop :=
  target.tablespaceId ≠ 0 ∧ name = "pg_data/".toList ++ target.name

theorem restoreMapTablespace_ok {remapped remapped' : List Str} (h : RemapInv manifest)
    (htarget : manifestTargetFindDefault manifest target.name = some target)
    (hok : restoreMapTablespace config (manifest, remapped) target = .ok (manifest', remapped')) :
    Remapped (IsTablespace target) (IsTablespaceLink target) manifest manifest' ∧
      (target.tablespaceId ≠ 0 → TablespaceMapped config target manifest') ∧
      ∀ key ∈ remapped', key ∈ remapped ∨ target.tablespaceId ≠ 0 ∧
        (target.tablespaceName = some key ∨ tablespaceIdStr target = key) := by
  unfold restoreMapTablespace at hok
  split at hok
  · rename_i hid
    obtain ⟨⟨own, keys⟩, hone, hok⟩ := ok_of_bind hok
    have howned : (∀ tablespaceMap name path, config.tablespaceMap = some tablespaceMap →
          target.tablespaceName = some name → kvGet tablespaceMap name = some path → own = some path) ∧
        (∀ tablespaceMap path, config.tablespaceMap = some tablespaceMap →
          kvGet tablespaceMap (tablespaceIdStr target) = some path → own = some path) ∧
        ((∀ tablespaceMap, config.tablespaceMap = some tablespaceMap →
          (∀ name, target.tablespaceName = some name → kvGet tablespaceMap name = none) ∧
            kvGet tablespaceMap (tablespaceIdStr target) = none) → own = none) ∧
        ∀ key ∈ keys, target.tablespaceName = some key ∨ tablespaceIdStr target = key := by
      split at hone
      · rename_i hnone
        cases hone
        rw [hnone]
        refine ⟨?_, ?_, fun _ => rfl, ?_⟩ <;> simp
      · rename_i tablespaceMap hsome
        obtain ⟨hname, hbyId, hnone, hkeys⟩ := restoreMapTablespaceOne_ok hone
        rw [hsome]
        refine ⟨?_, ?_, fun hall => hnone (hall _ rfl).1 (hall _ rfl).2, hkeys⟩
        · intro _ name path heq
          exact Option.some.inj heq ▸ hname name path
        · intro _ path heq
          exact Option.some.inj heq ▸ hbyId path
    obtain ⟨hname, hbyId, hother, hkeys⟩ := howned
    have hremapped {keys' : List Str} (heq : remapped ++ keys = keys') : ∀ key ∈ keys', key ∈ remapped ∨
        target.tablespaceId ≠ 0 ∧ (target.tablespaceName = some key ∨ tablespaceIdStr target = key) := by
      subst heq
      intro key hkey
      exact (mem_append.mp hkey).imp id (fun hmem => ⟨hid, hkeys key hmem⟩)
    -- the path that is found is that of its own mapping or of all
    have hmaps {target' : ManifestTarget} (hpath : target'.path = (own.or (config.tablespaceMapAllPath.map
        (fun path => path ++ "/".toList ++ target.tablespaceName.getD []))).getD target.path) :
        MapsTablespace config target target' := by
      refine ⟨fun tablespaceMap name path hmap hsome hfound => ?_, fun tablespaceMap path hmap hfound => ?_,
        fun hall => ?_⟩
      · rw [hpath, hname tablespaceMap name path hmap hsome hfound]
        rfl
      · rw [hpath, hbyId tablespaceMap path hmap hfound]
        rfl
      · rw [hpath, hother hall, Option.none_or]
    dsimp only at hok
    split at hok
    · rename_i hpath
      obtain ⟨rfl, hkeys'⟩ := ok_inj hok
      refine ⟨.refl h, fun _ => ⟨target, htarget, rfl, hmaps ?_⟩, hremapped hkeys'⟩
      rw [hpath]
      rfl
    · rename_i path hpath
      obtain ⟨manifest₁, hupdate, hok⟩ := ok_of_bind hok
      obtain ⟨manifest₂, hlink, hok⟩ := ok_of_bind hok
      obtain ⟨rfl, hkeys'⟩ := ok_inj hok
      obtain ⟨-, rfl⟩ := manifestTargetUpdate_ok hupdate
      obtain ⟨⟨link, hfound⟩, rfl⟩ := manifestLinkUpdate_ok hlink
      have hname := ManifestTarget.linkName_of_tablespace hid
      rw [← hname] at hfound ⊢
      have htype : target.type = .link := by
        -- its link is there, so it is the target of this link
        obtain ⟨name, other, hfind, htype, heq⟩ := h.target _ link hfound
        rw [h.linkName_inj hfind htarget heq, htarget] at hfind
        exact Option.some.inj hfind ▸ htype
      obtain ⟨hinv, hchange⟩ := h.retarget htarget hfound htype
        (show LeadsTo { link with destination := path } { target with path := path, file := none } from rfl)
      refine ⟨(hchange.remapped hinv).mono (fun other heq => ⟨hid, heq⟩) (fun other heq => ⟨hid, heq.trans hname⟩),
        fun _ => ⟨{ target with path := path, file := none }, (hchange.findTarget _).trans (if_pos rfl), rfl, hmaps ?_⟩,
        hremapped hkeys'⟩
      rw [hpath]
      rfl
  · rename_i hid
    cases hok
    exact ⟨.refl h, fun hne => absurd hne hid, fun key hkey => .inl hkey⟩

theorem foldlM_restoreMapTablespace {todo : List ManifestTarget} {remapped remapped' : List Str}
    (h : RemapInv manifest) (hnodup : (todo.map ManifestTarget.name).Nodup)
    (hfind : ∀ target ∈ todo, manifestTargetFindDefault manifest target.name = some target)
    (hok : todo.foldlM (restoreMapTablespace config) (manifest, remapped) = .ok (manifest', remapped')) :
    Remapped (fun other => ∃ target ∈ todo, IsTablespace target other)
        (fun other => ∃ target ∈ todo, IsTablespaceLink target other) manifest manifest' ∧
      (∀ target ∈ todo, target.tablespaceId ≠ 0 → TablespaceMapped config target manifest') ∧
      ∀ key ∈ remapped', key ∈ remapped ∨ ∃ target ∈ todo, target.tablespaceId ≠ 0 ∧
        (target.tablespaceName = some key ∨ tablespaceIdStr target = key) := by
  induction todo generalizing manifest remapped with
  | nil =>
    cases hok
    exact ⟨.refl h, nofun, fun key hkey => .inl hkey⟩
  | cons target todo ih =>
    rw [foldlM_cons] at hok
    obtain ⟨⟨manifest₁, remapped₁⟩, hone, hok⟩ := ok_of_bind hok
    rw [map_cons, nodup_cons] at hnodup
    rw [forall_mem_cons] at hfind
    obtain ⟨hstep, hmapped, hkeys⟩ := restoreMapTablespace_ok h hfind.1 hone
    have hne {other : ManifestTarget} (hother : other ∈ todo) : other.name ≠ target.name :=
      fun heq => hnodup.1 (heq ▸ mem_map_of_mem hother)
    have hrest : ∀ other ∈ todo, manifestTargetFindDefault manifest₁ other.name = some other := by
      intro other hother
      rw [hstep.find other.name (fun htouched => hne hother htouched.2)]
      exact hfind.2 other hother
    obtain ⟨hsteps, hmapped', hkeys'⟩ := ih hstep.inv hnodup.2 hrest hok
    refine ⟨hstep.cons (p := IsTablespace) (q := IsTablespaceLink) hsteps,
      forall_mem_cons.mpr ⟨fun hid => ?_, hmapped'⟩, fun key hkey => ?_⟩
    · obtain ⟨target', hfound, hmaps⟩ := hmapped hid
      refine ⟨target', ?_, hmaps⟩
      rw [hsteps.find target.name (fun ⟨other, hother, _, heq⟩ => hne hother heq.symm)]
      exact hfound
    · simp only [mem_cons, exists_eq_or_imp]
      rcases hkeys' key hkey with hkey | hother
      · exact (hkeys key hkey).imp id .inl
      · exact .inr (.inr hother)

/-- The keys of the map for tablespaces that name one. -/
def TablespaceKeys (config : RestoreMapConfig) (targetList : List ManifestTarget) : Prop :=
  ∀ tablespaceMap, config.tablespaceMap = some tablespaceMap → ∀ key ∈ kvKeyList tablespaceMap,
    ∃ target ∈ targetList, target.tablespaceId ≠ 0 ∧
      (target.tablespaceName = some key ∨ tablespaceIdStr target = key)

theorem restoreMapTablespaces_ok (h : RemapInv manifest) (hok : restoreMapTablespaces config manifest = .ok manifest') :
    Remapped (fun other => ∃ target ∈ manifest.targetList, IsTablespace target other)
        (fun other => ∃ target ∈ manifest.targetList, IsTablespaceLink target other) manifest manifest' ∧
      (∀ target ∈ manifest.targetList, target.tablespaceId ≠ 0 → TablespaceMapped config target manifest') ∧
      TablespaceKeys config manifest.targetList := by
  have hfind : ∀ target ∈ manifest.targetList, manifestTargetFindDefault manifest target.name = some target :=
    fun target hmem => Keyed.get_of_mem h.targetName hmem
  unfold restoreMapTablespaces at hok
  split at hok
  · obtain ⟨⟨manifest₁, remapped⟩, hfold, hok⟩ := ok_of_bind hok
    obtain ⟨hsteps, hmapped, hkeys⟩ := foldlM_restoreMapTablespace h h.targetName hfind hfold
    split at hok
    · cases hok
    · rename_i hnone
      cases hok
      refine ⟨hsteps, hmapped, fun tablespaceMap hmap key hkey => ?_⟩
      rw [hmap] at hnone
      obtain ⟨pair, hpair, rfl⟩ := mem_map.mp hkey
      have hmem : pair.1 ∈ remapped := by simpa using find?_eq_none.mp hnone pair hpair
      exact (hkeys pair.1 hmem).resolve_left not_mem_nil
  · rename_i hnone
    rw [not_or, not_not, not_not] at hnone
    obtain ⟨hmap, hall⟩ := hnone
    cases hok
    have hnot {tablespaceMap : List (Str × Str)} (hsome : config.tablespaceMap = some tablespaceMap) {P : Prop} : P := by
      rw [hmap] at hsome
      cases hsome
    refine ⟨.refl h, fun target hmem hid => ⟨target, hfind target hmem, rfl, fun _ _ _ hsome => hnot hsome,
      fun _ _ hsome => hnot hsome, fun _ => ?_⟩, fun _ hsome => hnot hsome⟩
    rw [hall]
    rfl

/-! ## Links -/

theorem restoreMapLinkFile_ok {link : Str} {target' : ManifestTarget}
    (hok : restoreMapLinkFile link target = .ok target') :
    (∃ path file, target' = { target with path := path, file := file }) ∧
      ∀ link : ManifestLink, link.destination = target.path → LeadsTo link target' := by
  unfold restoreMapLinkFile at hok
  split at hok
  · rename_i hfile
    cases hok
    refine ⟨⟨target.path, target.file, rfl⟩, fun link heq => ?_⟩
    unfold LeadsTo
    rw [hfile]
    exact heq
  · split at hok
    · cases hok
    · cases hok
      refine ⟨⟨strPath target.path, some (strBaseZ target.path), rfl⟩, fun link heq => ?_⟩
      show strPath link.destination = strPath target.path ∧ strBaseZ link.destination = strBaseZ target.path
      rw [heq]
      exact ⟨rfl, rfl⟩

theorem mem_of_manifestFileExists {fileList : List ManifestFile} {name : Str}
    (h : manifestFileExists fileList name = true) : name ∈ fileList.map ManifestFile.name := by
  obtain ⟨idx, hidx⟩ := Option.isSome_iff_exists.mp h
  obtain ⟨file, hfile, heq⟩ := BinarySearch.bsearch_some hidx
  rw [strCmp_eq_zero.mp heq]
  exact mem_map_of_mem (mem_of_getElem? hfile)

def IsEntry (key name : Str) : Prop := name = "pg_data/".toList ++ key

/-- The link of an entry leads to its path. -/
def LinkMapped (linkMap : List (Str × Str)) (key : Str) (manifest' : Manifest) : Prop :=
  ∃ target link, manifestTargetFindDefault manifest' ("pg_data/".toList ++ key) = some target ∧ target.type = .link ∧
    target.tablespaceId = 0 ∧ manifestLinkFindDefault manifest' ("pg_data/".toList ++ key) = some link ∧
    link.destination = (kvGet linkMap key).getD []

/-- The name of an entry is that of a link, of a path or of a file. -/
def LinkNamed (manifest : Manifest) (key : Str) : Prop :=
  (∃ target, manifestTargetFindDefault manifest ("pg_data/".toList ++ key) = some target ∧ target.tablespaceId = 0) ∨
  manifestTargetFindDefault manifest ("pg_data/".toList ++ key) = none ∧
    ("pg_data/".toList ++ key ∈ manifest.pathList.map ManifestPath.name ∨
      "pg_data/".toList ++ key ∈ manifest.fileList.map ManifestFile.name)

structure EntryMapped (linkMap : List (Str × Str)) (key : Str) (manifest manifest' : Manifest) : Prop where
  step : Remapped (IsEntry key) (IsEntry key) manifest manifest'
  mapped : LinkMapped linkMap key manifest'
  named : LinkNamed manifest key

section

variable (h : RemapInv manifest)
include h

theorem restoreMapLinkUpdate_ok
    (hfind : manifestTargetFindDefault manifest ("pg_data/".toList ++ key) = some target)
    (hok : restoreMapLinkUpdate manifest key ((kvGet linkMap key).getD []) target = .ok manifest') :
    EntryMapped linkMap key manifest manifest' := by
  unfold restoreMapLinkUpdate at hok
  split at hok
  · cases hok
  · rename_i htype
    have htype : target.type = .link := not_not.mp htype
    split at hok
    · cases hok
    · rename_i hid
      have hid : target.tablespaceId = 0 := not_not.mp hid
      obtain ⟨manifest₁, hlink, hok⟩ := ok_of_bind hok
      obtain ⟨target', hfile, hok⟩ := ok_of_bind hok
      obtain ⟨⟨path, file, rfl⟩, hleads⟩ := restoreMapLinkFile_ok hfile
      obtain ⟨⟨link, hfound⟩, rfl⟩ := manifestLinkUpdate_ok hlink
      obtain ⟨-, rfl⟩ := manifestTargetUpdate_ok hok
      have hname := name_of_find hfind
      have hself := ManifestTarget.linkName_of_link hid
      rw [← hself] at hfound
      obtain ⟨hinv, hchange⟩ := h.retarget hfind hfound htype
        (hleads { link with destination := (kvGet linkMap key).getD [] } rfl)
      rw [hself, hname] at hinv hchange
      rw [hname]
      exact ⟨hchange.remapped hinv, ⟨_, _, (hchange.findTarget _).trans (if_pos rfl), htype, hid,
        (hchange.findLink _).trans (if_pos rfl), rfl⟩, .inl ⟨target, hfind, hid⟩⟩

theorem restoreMapLinkCreate_ok
    (hfind : manifestTargetFindDefault manifest ("pg_data/".toList ++ key) = none)
    (hok : restoreMapLinkCreate manifest key ((kvGet linkMap key).getD []) ("pg_data/".toList ++ key)
      = .ok manifest') : EntryMapped linkMap key manifest manifest' := by
  unfold restoreMapLinkCreate at hok
  dsimp only at hok
  split at hok
  · cases hok
  · split at hok
    · cases hok
    · rename_i hthere
      have hthere : "pg_data/".toList ++ key ∈ manifest.pathList.map ManifestPath.name ∨
          "pg_data/".toList ++ key ∈ manifest.fileList.map ManifestFile.name := by
        by_cases hfile : manifestFileExists manifest.fileList ("pg_data/".toList ++ key) = true
        · exact .inr (mem_of_manifestFileExists hfile)
        · refine .inl (not_not.mp (fun hnot => ?_))
          have hnone : manifestPathFindDefault manifest ("pg_data/".toList ++ key) = none :=
            Keyed.get_eq_none.mpr hnot
          rw [hnone] at hthere
          simp only [Bool.not_eq_true] at hfile
          rw [hfile] at hthere
          exact hthere rfl
      obtain ⟨pathBase, -, hok⟩ := ok_of_bind hok
      obtain ⟨target', hfile, hok⟩ := ok_of_bind hok
      obtain ⟨⟨path, file, rfl⟩, hleads⟩ := restoreMapLinkFile_ok hfile
      cases hok
      obtain ⟨hinv, hchange⟩ := h.create hfind rfl rfl ⟨key, rfl⟩ rfl
        (hleads ⟨"pg_data/".toList ++ key, (kvGet linkMap key).getD [], pathBase.user, pathBase.group⟩ rfl) hthere
      exact ⟨hchange.remapped hinv, ⟨_, _, (hchange.findTarget _).trans (if_pos rfl), rfl, rfl,
        (hchange.findLink _).trans (if_pos rfl), rfl⟩, .inr ⟨hfind, hthere⟩⟩

theorem restoreMapLink_ok (hok : restoreMapLink linkMap manifest key = .ok manifest') :
    EntryMapped linkMap key manifest manifest' := by
  unfold restoreMapLink at hok
  dsimp only at hok
  split at hok
  · rename_i target hfind
    exact restoreMapLinkUpdate_ok h hfind hok
  · rename_i hfind
    exact restoreMapLinkCreate_ok h hfind hok

theorem foldlM_restoreMapLink {keys : List Str}
    (hok : keys.foldlM (restoreMapLink linkMap) manifest = .ok manifest') :
    Remapped (fun other => ∃ key ∈ keys, IsEntry key other) (fun other => ∃ key ∈ keys, IsEntry key other)
        manifest manifest' ∧
      ∀ key ∈ keys, LinkMapped linkMap key manifest' ∧ LinkNamed manifest key := by
  induction keys generalizing manifest with
  | nil =>
    cases hok
    exact ⟨.refl h, nofun⟩
  | cons key keys ih =>
    rw [foldlM_cons] at hok
    obtain ⟨manifest₁, hone, hok⟩ := ok_of_bind hok
    obtain ⟨hstep, hmapped, hnamed⟩ := restoreMapLink_ok h hone
    obtain ⟨hsteps, hkeys⟩ := ih hstep.inv hok
    refine ⟨hstep.cons (p := IsEntry) (q := IsEntry) hsteps, forall_mem_cons.mpr ⟨⟨?_, hnamed⟩, ?_⟩⟩
    · by_cases hmem : key ∈ keys
      · exact (hkeys key hmem).1
      · -- no later key is about this link
        have hlater : ¬∃ key' ∈ keys, IsEntry key' ("pg_data/".toList ++ key) :=
          fun ⟨key', hkey', heq⟩ => hmem (append_cancel_left heq ▸ hkey')
        obtain ⟨target, link, htarget, htype, hid, hlink, hdest⟩ := hmapped
        exact ⟨target, link, (hsteps.find _ hlater).trans htarget, htype, hid,
          (hsteps.findLink _ hlater).trans hlink, hdest⟩
    · intro other hother
      refine ⟨(hkeys other hother).1, ?_⟩
      by_cases heq : other = key
      · exact heq ▸ hnamed
      · have hnamed := (hkeys other hother).2
        unfold LinkNamed at hnamed ⊢
        rwa [hstep.find _ (fun hsame => heq (append_cancel_left hsame)), hstep.same.pathList,
          hstep.same.fileList] at hnamed

end

/-! ## Removing links -/

/-- The name of a link that was not remapped. -/
def IsNotRemapped (config : RestoreMapConfig) (target : ManifestTarget) (name : Str) : Prop :=
  notRemapped config target ∧ name = target.name

theorem restoreMapRemove_ok (h : RemapInv manifest)
    (hfind : manifestTargetFindDefault manifest target.name = some target)
    (hok : restoreMapRemove config manifest target = .ok manifest') :
    Remapped (IsNotRemapped config target) (IsNotRemapped config target) manifest manifest' ∧
      (notRemapped config target → manifestTargetFindDefault manifest' target.name = none) := by
  unfold restoreMapRemove at hok
  split at hok
  · rename_i hnot
    obtain ⟨manifest₁, hlink, hok⟩ := ok_of_bind hok
    unfold manifestLinkRemove at hlink
    split at hlink
    · cases hlink
    cases hlink
    unfold manifestTargetRemove at hok
    split at hok
    · cases hok
    cases hok
    obtain ⟨hinv, hchange⟩ := h.unlink hfind hnot.2.1
    exact ⟨(hchange.remapped hinv).mono (fun other heq => ⟨hnot, heq⟩) (fun other heq => ⟨hnot, heq⟩),
      fun _ => (hchange.findTarget _).trans (if_pos rfl)⟩
  · rename_i hnot
    cases hok
    exact ⟨.refl h, fun hremapped => absurd hremapped hnot⟩

theorem foldlM_restoreMapRemove {todo : List ManifestTarget} (h : RemapInv manifest)
    (hnodup : (todo.map ManifestTarget.name).Nodup)
    (hfind : ∀ target ∈ todo, manifestTargetFindDefault manifest target.name = some target)
    (hok : todo.foldlM (restoreMapRemove config) manifest = .ok manifest') :
    Remapped (fun other => ∃ target ∈ todo, IsNotRemapped config target other)
        (fun other => ∃ target ∈ todo, IsNotRemapped config target other) manifest manifest' ∧
      ∀ target ∈ todo, notRemapped config target → manifestTargetFindDefault manifest' target.name = none := by
  induction todo generalizing manifest with
  | nil =>
    cases hok
    exact ⟨.refl h, nofun⟩
  | cons target todo ih =>
    rw [foldlM_cons] at hok
    obtain ⟨manifest₁, hone, hok⟩ := ok_of_bind hok
    rw [map_cons, nodup_cons] at hnodup
    rw [forall_mem_cons] at hfind
    obtain ⟨hstep, hgone⟩ := restoreMapRemove_ok h hfind.1 hone
    have hne {other : ManifestTarget} (hother : other ∈ todo) : other.name ≠ target.name :=
      fun heq => hnodup.1 (heq ▸ mem_map_of_mem hother)
    have hrest : ∀ other ∈ todo, manifestTargetFindDefault manifest₁ other.name = some other := by
      intro other hother
      rw [hstep.find other.name (fun htouched => hne hother htouched.2)]
      exact hfind.2 other hother
    obtain ⟨hsteps, hgone'⟩ := ih hstep.inv hnodup.2 hrest hok
    refine ⟨hstep.cons (p := IsNotRemapped config) (q := IsNotRemapped config) hsteps,
      forall_mem_cons.mpr ⟨fun hnot => ?_, hgone'⟩⟩
    rw [hsteps.find target.name (fun ⟨other, hother, _, heq⟩ => hne hother heq.symm)]
    exact hgone hnot

/-! ## The whole mapping -/

section Result

variable {manifest₂ manifest₃ : Manifest}

variable {name : Str} {target : ManifestTarget}

/-- What was found by name before the base was mapped. -/
theorem Remapped.find_base_iff (h : RemapInv manifest)
    (hbase : Remapped (· = "pg_data".toList) (· = "pg_data".toList) manifest manifest₁)
    (hnot : target.type = .link ∨ target.tablespaceId ≠ 0) :
    manifestTargetFindDefault manifest₁ name = some target ↔
      manifestTargetFindDefault manifest name = some target := by
  have hne {target' : ManifestTarget} (hpath : target'.type = .path ∧ target'.tablespaceId = 0) : target' ≠ target := by
    rintro rfl
    rw [hpath.1] at hnot
    exact hnot.elim nofun (fun hid => hid hpath.2)
  by_cases heq : name = "pg_data".toList
  · subst heq
    exact iff_of_false (fun hfind => hne (hbase.inv.base target hfind) rfl) (fun hfind => hne (h.base target hfind) rfl)
  · rw [hbase.find name heq]

/-- A link that is no tablespace is as before the tablespaces were mapped. -/
theorem Remapped.find_link_iff (h : RemapInv manifest₁)
    (hspaces : Remapped (fun other => ∃ target ∈ manifest₁.targetList, IsTablespace target other)
      (fun other => ∃ target ∈ manifest₁.targetList, IsTablespaceLink target other) manifest₁ manifest₂)
    (hmapped : ∀ target ∈ manifest₁.targetList, target.tablespaceId ≠ 0 → TablespaceMapped config target manifest₂)
    (hid : target.tablespaceId = 0) :
    manifestTargetFindDefault manifest₂ name = some target ↔
      manifestTargetFindDefault manifest₁ name = some target := by
  by_cases hspace : ∃ other ∈ manifest₁.targetList, IsTablespace other name
  · obtain ⟨other, hmem, hother, rfl⟩ := hspace
    refine iff_of_false (fun hfind => ?_) (fun hfind => ?_)
    · obtain ⟨target', hfound, hsame, -⟩ := hmapped other hmem hother
      rw [hfind] at hfound
      cases hfound
      exact hother (hsame.symm.trans hid)
    · have hfound : manifestTargetFindDefault manifest₁ other.name = some other := Keyed.get_of_mem h.targetName hmem
      rw [hfind] at hfound
      cases hfound
      exact hother hid
  · rw [hspaces.find name hspace]

theorem mapLinkName_iff {linkMap : List (Str × Str)} (hmap : config.linkMap = some linkMap) {name : Str} :
    MapLinkName config name ↔ ∃ key ∈ strLstSort (kvKeyList linkMap) .asc, IsEntry key name := by
  unfold MapLinkName IsEntry
  simp only [hmap, Option.some.injEq, exists_eq_left', mem_strLstSort]

theorem mem_kvKeyList_of_kvGet {kv : List (Str × Str)} {key value : Str} (h : kvGet kv key = some value) :
    key ∈ kvKeyList kv := by
  by_contra hnot
  rw [kvGet_eq_none_iff.mpr hnot] at h
  cases h

theorem restoreMapLinks_ok (h : RemapInv manifest) (hok : restoreMapLinks config manifest = .ok manifest') :
    Remapped (MapLinkName config) (MapLinkName config) manifest manifest' ∧
      ∀ linkMap, config.linkMap = some linkMap → ∀ key ∈ kvKeyList linkMap,
        LinkMapped linkMap key manifest' ∧ LinkNamed manifest key := by
  unfold restoreMapLinks at hok
  split at hok
  · rename_i hnone
    cases hok
    refine ⟨.refl h, fun linkMap hmap => ?_⟩
    rw [hnone] at hmap
    cases hmap
  · rename_i linkMap hmap
    obtain ⟨hsteps, hkeys⟩ := foldlM_restoreMapLink h hok
    have hname {other : Str} := (@mapLinkName_iff config linkMap hmap other).mpr
    refine ⟨hsteps.mono (@hname) (@hname), fun linkMap' hmap' key hkey => ?_⟩
    cases hmap.symm.trans hmap'
    exact hkeys key (mem_strLstSort.mpr hkey)

theorem not_notRemapped {linkMap : List (Str × Str)} (hmap : config.linkMap = some linkMap) {path : Str}
    (hpath : kvGet linkMap name = some path)
    (hname : target.name = "pg_data/".toList ++ name) : ¬notRemapped config target := by
  rintro ⟨-, -, hnone⟩
  have hdrop : ("pg_data/".toList ++ name).drop 8 = name := rfl
  rw [hmap, hname, hdrop] at hnone
  cases hpath.symm.trans hnone

def IsRemoved (config : RestoreMapConfig) (manifest : Manifest) (name : Str) : Prop :=
  config.linkAll = false ∧ ∃ target ∈ manifest.targetList, IsNotRemapped config target name

theorem restoreMapRest_ok (h : RemapInv manifest)
    (hok : (if config.linkAll then .ok manifest else manifest.targetList.foldlM (restoreMapRemove config) manifest)
      = .ok manifest') :
    Remapped (IsRemoved config manifest) (IsRemoved config manifest) manifest manifest' ∧
      ∀ name, IsRemoved config manifest name → manifestTargetFindDefault manifest' name = none := by
  split at hok
  · rename_i hall
    cases hok
    exact ⟨.refl h, fun name hremoved => absurd hall (by rw [hremoved.1]; exact Bool.false_ne_true)⟩
  · rename_i hall
    obtain ⟨hsteps, hgone⟩ := foldlM_restoreMapRemove h h.targetName
      (fun target hmem => Keyed.get_of_mem h.targetName hmem) hok
    have hall : config.linkAll = false := Bool.eq_false_iff.mpr hall
    refine ⟨hsteps.mono (fun _ hremoved => ⟨hall, hremoved⟩) (fun _ hremoved => ⟨hall, hremoved⟩), ?_⟩
    rintro _ ⟨-, target, hmem, hnot, rfl⟩
    exact hgone target hmem hnot

theorem not_isRemoved (hinv : RemapInv manifest)
    (hfind : manifestTargetFindDefault manifest name = some target) (hnot : ¬notRemapped config target) :
    ¬IsRemoved config manifest name := by
  rintro ⟨-, other, hmem, hother, rfl⟩
  have hfound : manifestTargetFindDefault manifest other.name = some other := Keyed.get_of_mem hinv.targetName hmem
  rw [hfind] at hfound
  exact hnot (Option.some.inj hfound ▸ hother)

/-- What is in the target list is what is found. -/
theorem RemapInv.mem_iff (h : RemapInv manifest) :
    target ∈ manifest.targetList ↔ manifestTargetFindDefault manifest target.name = some target :=
  ⟨fun hmem => Keyed.get_of_mem h.targetName hmem, fun hfind => Keyed.mem_of_get hfind⟩

theorem RemapInv.mem_link_iff (h : RemapInv manifest) {link : ManifestLink} :
    link ∈ manifest.linkList ↔ manifestLinkFindDefault manifest link.name = some link :=
  ⟨fun hmem => Keyed.get_of_mem h.linkName hmem, fun hfind => Keyed.mem_of_get hfind⟩

/-- **A mapping that ends** keeps targets and links together, and they are as was
asked for. -/
theorem restoreManifestMap_exact (h : LinksCorrespond manifest) (hnames : MapNames config manifest)
    (hok : restoreManifestMap config manifest = .ok manifest') : MapResult config manifest manifest' := by
  have hinv := h.remapInv hnames
  obtain ⟨manifest₁, hone, hok⟩ := ok_of_bind hok
  obtain ⟨manifest₂, htwo, hok⟩ := ok_of_bind hok
  obtain ⟨manifest₃, hthree, hok⟩ := ok_of_bind hok
  obtain ⟨hbase, base, hbaseFind, hbasePath⟩ := restoreMapBase_ok hinv hone
  obtain ⟨hspaces, hspaceMapped, hspaceKeys⟩ := restoreMapTablespaces_ok hbase.inv htwo
  obtain ⟨hlinks, hentries⟩ := restoreMapLinks_ok hspaces.inv hthree
  obtain ⟨hrest, hgone⟩ := restoreMapRest_ok hlinks.inv hok
  -- tablespaces are not changed by links
  have hspaceName {name : Str} {target : ManifestTarget}
      (hfind : manifestTargetFindDefault manifest₂ name = some target) (hid : target.tablespaceId ≠ 0) :
      ¬MapLinkName config name := by
    rintro ⟨linkMap, hmap, key, hkey, rfl⟩
    rcases (hentries linkMap hmap key hkey).2 with ⟨other, hother, hotherId⟩ | ⟨hnone, -⟩
    · rw [hfind] at hother
      exact hid (Option.some.inj hother ▸ hotherId)
    · rw [hfind] at hnone
      cases hnone
  have hmem₁ {target : ManifestTarget} (hid : target.tablespaceId ≠ 0) :
      target ∈ manifest₁.targetList ↔ target ∈ manifest.targetList := by
    rw [hbase.inv.mem_iff, hinv.mem_iff]
    exact hbase.find_base_iff hinv (.inr hid)
  -- what is remapped is found at the end
  have hend {name : Str} {target : ManifestTarget} (hfind : manifestTargetFindDefault manifest₃ name = some target)
      (hnot : ¬notRemapped config target) :
      manifestTargetFindDefault manifest' name = some target ∧
        manifestLinkFindDefault manifest' name = manifestLinkFindDefault manifest₃ name := by
    have hkept := not_isRemoved hlinks.inv hfind hnot
    exact ⟨(hrest.find name hkept).trans hfind, hrest.findLink name hkept⟩
  refine ⟨hrest.inv.corresponds, ?_, ?_, ?_, ?_, ?_, ?_, ?_⟩
  · obtain ⟨htype, hid⟩ := hbase.inv.base base hbaseFind
    have hfind₂ := (hspaces.find_link_iff hbase.inv hspaceMapped hid).mpr hbaseFind
    have hfind₃ : manifestTargetFindDefault manifest₃ "pg_data".toList = some base := by
      rw [hlinks.find]
      · exact hfind₂
      · rintro ⟨linkMap, -, key, -, heq⟩
        exact prepend_ne_base key heq.symm
    have hnot : ¬notRemapped config base := by
      rintro ⟨hlink, -⟩
      rw [htype] at hlink
      cases hlink
    obtain ⟨hfind', -⟩ := hend hfind₃ hnot
    exact ⟨base, Keyed.mem_of_get hfind', name_of_find hfind', hbasePath⟩
  · intro target hmem hid
    obtain ⟨target', hfind₂, hsame, hmaps⟩ := hspaceMapped target ((hmem₁ hid).mpr hmem) hid
    have hid' : target'.tablespaceId ≠ 0 := fun heq => hid (hsame.symm.trans heq)
    obtain ⟨hfind', -⟩ := hend ((hlinks.find target.name (hspaceName hfind₂ hid')).trans hfind₂)
      (fun hnot => hid' hnot.2.1)
    exact ⟨target', Keyed.mem_of_get hfind', name_of_find hfind', hsame, hmaps⟩
  · intro linkMap hmap name path hpath
    obtain ⟨target, link, hfind₃, htype, hid, hlink, hdest⟩ :=
      (hentries linkMap hmap name (mem_kvKeyList_of_kvGet hpath)).1
    have hname := name_of_find hfind₃
    obtain ⟨hfind', hlink'⟩ := hend hfind₃ (not_notRemapped hmap hpath hname)
    rw [hlink] at hlink'
    rw [hpath] at hdest
    exact ⟨target, Keyed.mem_of_get hfind', hname, htype, hid, link, Keyed.mem_of_get hlink',
      (Keyed.key_of_get hlink').trans hname.symm, hdest⟩
  · intro hall target hmem htype hid
    have hfind' := hrest.inv.mem_iff.mp hmem
    have hnot : ¬IsRemoved config manifest₃ target.name := by
      intro hremoved
      rw [hgone _ hremoved] at hfind'
      cases hfind'
    have hfind₃ := (hrest.find target.name hnot).symm.trans hfind'
    have hkept : ¬notRemapped config target := fun hremapped =>
      hnot ⟨hall, target, Keyed.mem_of_get hfind₃, hremapped, rfl⟩
    by_contra hentry
    -- no entry has changed it, so its name is one of the manifest
    have hfind₂ := (hlinks.find target.name hentry).symm.trans hfind₃
    have hfind := (hbase.find_base_iff hinv (.inl htype)).mp
      ((hspaces.find_link_iff hbase.inv hspaceMapped hid).mp hfind₂)
    refine hkept ⟨htype, hid, ?_⟩
    cases hmap : config.linkMap with
    | none => rfl
    | some linkMap =>
      refine kvGet_eq_none_iff.mpr fun hkey => ?_
      rcases hnames.inData target (Keyed.mem_of_get hfind) htype hid with ⟨key, hname⟩ | hnone
      · have hdrop : ("pg_data/".toList ++ key).drop 8 = key := rfl
        rw [hname, hdrop] at hkey
        exact hentry ⟨linkMap, hmap, key, hkey, hname⟩
      · exact hnone linkMap hmap hkey
  · intro hall target htype hid hnot
    have hleft (name : Str) : ¬IsRemoved config manifest₃ name := by
      rintro ⟨hfalse, -⟩
      rw [hall] at hfalse
      cases hfalse
    have hfind : target ∈ manifest'.targetList ↔ target ∈ manifest.targetList := by
      rw [hrest.inv.mem_iff, hinv.mem_iff, hrest.find _ (hleft _), hlinks.find target.name hnot,
        hspaces.find_link_iff hbase.inv hspaceMapped hid, hbase.find_base_iff hinv (.inl htype)]
    refine ⟨hfind, fun link hname hmem => ?_⟩
    have hfound := hinv.mem_iff.mp hmem
    have hfind₁ := (hbase.find_base_iff hinv (.inl htype)).mpr hfound
    have hspace : ¬∃ other ∈ manifest₁.targetList, IsTablespaceLink other target.name := by
      rintro ⟨other, hother, hotherId, heq⟩
      have hnone := (hbase.inv.tablespace other.name other (hbase.inv.mem_iff.mp hother) hotherId).1
      rw [← heq] at hnone
      cases hnone.symm.trans hfind₁
    have hne : target.name ≠ "pg_data".toList := by
      intro heq
      have hpath := (hinv.base target (heq ▸ hfound)).1
      rw [htype] at hpath
      cases hpath
    rw [hrest.inv.mem_link_iff, hinv.mem_link_iff, hname, hrest.findLink _ (hleft _), hlinks.findLink target.name hnot,
      hspaces.findLink target.name hspace, hbase.findLink target.name hne]
  · intro tablespaceMap hmap key hkey
    obtain ⟨target, hmem, hid, hor⟩ := hspaceKeys tablespaceMap hmap key hkey
    exact ⟨target, (hmem₁ hid).mp hmem, hid, hor⟩
  · intro linkMap hmap key hkey
    have hsame := hbase.same.trans hspaces.same
    rcases (hentries linkMap hmap key hkey).2 with ⟨target, hfind, hid⟩ | ⟨-, hthere⟩
    · have hfind₁ := (hspaces.find_link_iff hbase.inv hspaceMapped hid).mp hfind
      rw [hbase.find _ (prepend_ne_base key)] at hfind₁
      exact .inl (name_of_find hfind₁ ▸ mem_map_of_mem (Keyed.mem_of_get hfind₁))
    · rw [hsame.pathList, hsame.fileList] at hthere
      exact .inr hthere

end Result

/-! ## Sample mappings -/

def mapManifest (targetList : List ManifestTarget) (linkList : List ManifestLink) (pathList : List String) :
    Manifest :=
  { Manifest.plain "20200101-000000F".toList .full none ["20200101-000000F".toList] with
    targetList := targetList
    linkList := linkList
    pathList := pathList.map (fun name => ⟨name.toList, 448, none, none⟩) }

/-- A target without a file. -/
def mapTarget (name path : String) (type : ManifestTargetType) (tablespaceId : ℕ) : ManifestTarget :=
  ⟨name.toList, type, path.toList, none, tablespaceId, if tablespaceId = 0 then none else some "ts".toList⟩

def mapLink (name destination : String) : ManifestLink := ⟨name.toList, destination.toList, none, none⟩

theorem linksCorrespond_one {targetList : List ManifestTarget} {pathList : List String} {target : ManifestTarget}
    {link : ManifestLink} (hmem : target ∈ targetList) (htype : target.type = .link)
    (honly : ∀ found ∈ targetList, found.type = .link → found = target) (hname : link.name = target.linkName)
    (hleads : LeadsTo link target) : LinksCorrespond (mapManifest targetList [link] pathList) where
  link := by
    intro found hfound hlink
    rw [honly found hfound hlink]
    refine ⟨link, ?_, hleads⟩
    show filter _ [link] = [link]
    rw [filter_cons_of_pos (by simpa using hname), filter_nil]
  target := by
    intro found hfound
    obtain rfl := mem_singleton.mp hfound
    exact ⟨target, hmem, htype, hname.symm⟩

/-- A tablespace and a path that is made a link. -/
theorem restoreManifestMap_exact_sample :
    MapResult ⟨"/new".toList, some [("ts".toList, "/ts2".toList)], none,
        some [("pg_wal".toList, "/wal".toList)], false⟩
      (mapManifest [mapTarget "pg_data" "/pg" .path 0, mapTarget "pg_tblspc/1" "/ts" .link 1]
        [mapLink "pg_data/pg_tblspc/1" "/ts"] ["pg_data", "pg_data/pg_wal"])
      (mapManifest [mapTarget "pg_data" "/new" .path 0, mapTarget "pg_tblspc/1" "/ts2" .link 1,
          mapTarget "pg_data/pg_wal" "/wal" .link 0]
        [mapLink "pg_data/pg_tblspc/1" "/ts2", mapLink "pg_data/pg_wal" "/wal"] ["pg_data", "pg_data/pg_wal"]) := by
  refine restoreManifestMap_exact
    (@linksCorrespond_one _ _ (mapTarget "pg_tblspc/1" "/ts" .link 1) _ (by decide) rfl (by decide) (by decide) rfl)
    ⟨by decide, by decide, ?_, by decide⟩ (by decide +kernel)
  intro target hmem htype hid
  have hnone : ∀ target ∈ [mapTarget "pg_data" "/pg" .path 0, mapTarget "pg_tblspc/1" "/ts" .link 1],
      target.type = .link → target.tablespaceId ≠ 0 := by decide
  exact absurd hid (hnone target hmem htype)

/-! ## Names that get in the way -/

/-- A mapping of targets and links that correspond, without the result. -/
def MapBreaks (config : RestoreMapConfig) (manifest : Manifest) : Prop :=
  ∃ manifest', LinksCorrespond manifest ∧ restoreManifestMap config manifest = .ok manifest' ∧
    ¬MapResult config manifest manifest'

/-- **What the names are for**: a path named like the link of a tablespace becomes
another link of this name, a base that is a link keeps its old destination, of
two targets of one name only the first is changed, and a link outside of the data
directory is taken for one of the link map. -/
theorem restoreManifestMap_names :
    MapBreaks ⟨"/pg".toList, none, none, some [("pg_tblspc/1".toList, "/x".toList)], true⟩
      (mapManifest [mapTarget "pg_data" "/pg" .path 0, mapTarget "pg_tblspc/1" "/ts" .link 1]
        [mapLink "pg_data/pg_tblspc/1" "/ts"] ["pg_data", "pg_data/pg_tblspc/1"]) ∧
    MapBreaks ⟨"/new".toList, none, none, none, true⟩
      (mapManifest [mapTarget "pg_data" "/old" .link 0] [mapLink "pg_data" "/old"] ["pg_data"]) ∧
    MapBreaks ⟨"/pg".toList, none, none, some [("a".toList, "/y".toList)], true⟩
      (mapManifest [mapTarget "pg_data" "/pg" .path 0, mapTarget "pg_data/a" "/x" .link 0,
        mapTarget "pg_data/a" "/x" .link 0] [mapLink "pg_data/a" "/x"] ["pg_data"]) ∧
    MapBreaks ⟨"/pg".toList, none, none, some [("a".toList, "/y".toList)], false⟩
      (mapManifest [mapTarget "pg_data" "/pg" .path 0, mapTarget "xx_data/a" "/b" .link 0]
        [mapLink "xx_data/a" "/b"] ["pg_data", "pg_data/a"]) := by
  refine ⟨?_, ?_, ?_, ?_⟩
  · refine ⟨mapManifest [mapTarget "pg_data" "/pg" .path 0, mapTarget "pg_tblspc/1" "/ts" .link 1,
        mapTarget "pg_data/pg_tblspc/1" "/x" .link 0]
      [mapLink "pg_data/pg_tblspc/1" "/ts", mapLink "pg_data/pg_tblspc/1" "/x"] ["pg_data", "pg_data/pg_tblspc/1"],
      @linksCorrespond_one _ _ (mapTarget "pg_tblspc/1" "/ts" .link 1) _ (by decide) rfl (by decide) (by decide) rfl,
      by decide +kernel, fun h => ?_⟩
    obtain ⟨link, honly, -⟩ := h.corresponds.link (mapTarget "pg_tblspc/1" "/ts" .link 1) (by decide) rfl
    have hlength := congrArg length honly
    rw [length_singleton] at hlength
    cases hlength
  · refine ⟨mapManifest [mapTarget "pg_data" "/new" .link 0] [mapLink "pg_data" "/old"] ["pg_data"],
      @linksCorrespond_one _ _ (mapTarget "pg_data" "/old" .link 0) _ (by decide) rfl (by decide) (by decide) rfl,
      by decide +kernel, fun h => ?_⟩
    obtain ⟨link, honly, hleads⟩ := h.corresponds.link (mapTarget "pg_data" "/new" .link 0) (by decide) rfl
    have hlink : mapLink "pg_data" "/old" = link := (cons.inj honly).1
    rw [← hlink] at hleads
    exact absurd hleads (by decide : ¬"/old".toList = "/new".toList)
  · refine ⟨mapManifest [mapTarget "pg_data" "/pg" .path 0, mapTarget "pg_data/a" "/y" .link 0,
        mapTarget "pg_data/a" "/x" .link 0] [mapLink "pg_data/a" "/y"] ["pg_data"],
      @linksCorrespond_one _ _ (mapTarget "pg_data/a" "/x" .link 0) _ (by decide) rfl (by decide) (by decide) rfl,
      by decide +kernel, fun h => ?_⟩
    obtain ⟨link, honly, hleads⟩ := h.corresponds.link (mapTarget "pg_data/a" "/x" .link 0) (by decide) rfl
    have hlink : mapLink "pg_data/a" "/y" = link := (cons.inj honly).1
    rw [← hlink] at hleads
    exact absurd hleads (by decide : ¬"/y".toList = "/x".toList)
  · refine ⟨mapManifest [mapTarget "pg_data" "/pg" .path 0, mapTarget "xx_data/a" "/b" .link 0,
        mapTarget "pg_data/a" "/y" .link 0] [mapLink "xx_data/a" "/b", mapLink "pg_data/a" "/y"]
        ["pg_data", "pg_data/a"],
      @linksCorrespond_one _ _ (mapTarget "xx_data/a" "/b" .link 0) _ (by decide) rfl (by decide) (by decide) rfl,
      by decide +kernel, fun h => ?_⟩
    obtain ⟨linkMap, -, key, -, heq⟩ := h.removed rfl (mapTarget "xx_data/a" "/b" .link 0) (by decide) rfl rfl
    exact absurd (cons.inj heq).1 (by decide)

end PgxBackup
