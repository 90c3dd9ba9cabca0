import PgxBackup.RestoreMap

/-!
# Targets and links after a mapping

A target that is a link has one link of its name, which leads to it, and a link
has a target. The link of a tablespace is named `pg_data/` and the name of the
target. A mapping changes a target and its link together, adds them together and
removes them together, so it keeps this if the names of the two lists do not get
in the way of each other: the name of the link of a tablespace must not be that
of another target, of a path or of a file.
-/

namespace PgxBackup

open List

variable {manifest : Manifest}

/-! ## Targets and their links -/

def ManifestTarget.linkName (target : ManifestTarget) : Str :=
  if target.tablespaceId ≠ 0 then "pg_data/".toList ++ target.name else target.name

/-- A link leads to a target. The destination of a file link is split over the
path and the file. -/
def LeadsTo (link : ManifestLink) (target : ManifestTarget) : Prop :=
  match target.file with
  | none => link.destination = target.path
  | some file => strPath link.destination = target.path ∧ strBaseZ link.destination = file

/-- **Targets and links correspond.** -/
structure LinksCorrespond (manifest : Manifest) : Prop where
  /-- A target that is a link has exactly one link of its name, which leads to
  it. -/
  link : ∀ target ∈ manifest.targetList, target.type = .link →
    ∃ link, manifest.linkList.filter (fun link => link.name = target.linkName) = [link] ∧ LeadsTo link target
  /-- Every link has a target. -/
  target : ∀ link ∈ manifest.linkList, ∃ target ∈ manifest.targetList,
    target.type = .link ∧ target.linkName = link.name

/-- **The names of a manifest**: those of the targets are distinct, the base is
neither a link nor a tablespace, another link is in the data directory or, without
the first eight characters of its name, no key of the link map (as one in the
directory of a tablespace should be), and nothing else is named like the link of
a tablespace. -/
structure MapNames (config : RestoreMapConfig) (manifest : Manifest) : Prop where
  nodup : (manifest.targetList.map ManifestTarget.name).Nodup
  base : ∀ target ∈ manifest.targetList, target.name = "pg_data".toList →
    target.type = .path ∧ target.tablespaceId = 0
  inData : ∀ target ∈ manifest.targetList, target.type = .link → target.tablespaceId = 0 →
    (∃ link, target.name = "pg_data/".toList ++ link) ∨
      ∀ linkMap, config.linkMap = some linkMap → target.name.drop 8 ∉ kvKeyList linkMap
  tablespace : ∀ target ∈ manifest.targetList, target.tablespaceId ≠ 0 →
    "pg_data/".toList ++ target.name ∉ manifest.targetList.map ManifestTarget.name ∧
      "pg_data/".toList ++ target.name ∉ manifest.pathList.map ManifestPath.name ∧
      "pg_data/".toList ++ target.name ∉ manifest.fileList.map ManifestFile.name

/-! ## What was asked for -/

/-- The path that a tablespace has afterwards: that of its own mapping by name
or by id, or that of all tablespaces with its name, or its old one. -/
structure MapsTablespace (config : RestoreMapConfig) (target target' : ManifestTarget) : Prop where
  byName : ∀ tablespaceMap name path, config.tablespaceMap = some tablespaceMap →
    target.tablespaceName = some name → kvGet tablespaceMap name = some path → target'.path = path
  byId : ∀ tablespaceMap path, config.tablespaceMap = some tablespaceMap →
    kvGet tablespaceMap (tablespaceIdStr target) = some path → target'.path = path
  other : (∀ tablespaceMap, config.tablespaceMap = some tablespaceMap →
      (∀ name, target.tablespaceName = some name → kvGet tablespaceMap name = none) ∧
        kvGet tablespaceMap (tablespaceIdStr target) = none) →
    target'.path = (config.tablespaceMapAllPath.map (fun path =>
      path ++ "/".toList ++ target.tablespaceName.getD [])).getD target.path

/-- A target is that of an entry of the link map. -/
def MapLinkName (config : RestoreMapConfig) (name : Str) : Prop :=
  ∃ linkMap, config.linkMap = some linkMap ∧ ∃ link ∈ kvKeyList linkMap, name = "pg_data/".toList ++ link

/-- **The result of a mapping.** -/
structure MapResult (config : RestoreMapConfig) (manifest manifest' : Manifest) : Prop where
  corresponds : LinksCorrespond manifest'
  /-- The base has the path that was asked for. -/
  base : ∃ target ∈ manifest'.targetList, target.name = "pg_data".toList ∧ target.path = config.pgPath
  /-- Each tablespace has the path of its mapping. -/
  tablespace : ∀ target ∈ manifest.targetList, target.tablespaceId ≠ 0 → ∃ target' ∈ manifest'.targetList,
    target'.name = target.name ∧ target'.tablespaceId = target.tablespaceId ∧ MapsTablespace config target target'
  /-- Each entry of the link map is a link to its path. -/
  link : ∀ linkMap, config.linkMap = some linkMap → ∀ name path, kvGet linkMap name = some path →
    ∃ target ∈ manifest'.targetList, target.name = "pg_data/".toList ++ name ∧ target.type = .link ∧
      target.tablespaceId = 0 ∧ ∃ link ∈ manifest'.linkList, link.name = target.name ∧ link.destination = path
  /-- Without all links no other one is left. -/
  removed : config.linkAll = false → ∀ target ∈ manifest'.targetList, target.type = .link →
    target.tablespaceId = 0 → MapLinkName config target.name
  /-- With all links the others are as before. -/
  kept : config.linkAll = true → ∀ target, target.type = .link → target.tablespaceId = 0 →
    ¬MapLinkName config target.name →
      (target ∈ manifest'.targetList ↔ target ∈ manifest.targetList) ∧
        ∀ link, link.name = target.name → target ∈ manifest.targetList →
          (link ∈ manifest'.linkList ↔ link ∈ manifest.linkList)
  /-- The keys of the maps name something. -/
  tablespaceKey : ∀ tablespaceMap, config.tablespaceMap = some tablespaceMap → ∀ key ∈ kvKeyList tablespaceMap,
    ∃ target ∈ manifest.targetList, target.tablespaceId ≠ 0 ∧
      (target.tablespaceName = some key ∨ tablespaceIdStr target = key)
  linkKey : ∀ linkMap, config.linkMap = some linkMap → ∀ key ∈ kvKeyList linkMap,
    "pg_data/".toList ++ key ∈ manifest.targetList.map ManifestTarget.name ∨
      "pg_data/".toList ++ key ∈ manifest.pathList.map ManifestPath.name ∨
      "pg_data/".toList ++ key ∈ manifest.fileList.map ManifestFile.name

/-! ## The invariant -/

/-- **Targets and links correspond**, in terms of what is found by name. -/
structure RemapInv (manifest : Manifest) : Prop where
  targetName : (manifest.targetList.map ManifestTarget.name).Nodup
  linkName : (manifest.linkList.map ManifestLink.name).Nodup
  base : ∀ target, manifestTargetFindDefault manifest "pg_data".toList = some target →
    target.type = .path ∧ target.tablespaceId = 0
  tablespace : ∀ name target, manifestTargetFindDefault manifest name = some target → target.tablespaceId ≠ 0 →
    manifestTargetFindDefault manifest ("pg_data/".toList ++ name) = none ∧
      "pg_data/".toList ++ name ∉ manifest.pathList.map ManifestPath.name ∧
      "pg_data/".toList ++ name ∉ manifest.fileList.map ManifestFile.name
  link : ∀ name target, manifestTargetFindDefault manifest name = some target → target.type = .link →
    ∃ link, manifestLinkFindDefault manifest target.linkName = some link ∧ LeadsTo link target
  target : ∀ name link, manifestLinkFindDefault manifest name = some link →
    ∃ name' target, manifestTargetFindDefault manifest name' = some target ∧ target.type = .link ∧
      target.linkName = name

variable {name linkName path : Str} {target : ManifestTarget} {manifest' : Manifest} {file : Option Str}

theorem name_of_find
    (h : manifestTargetFindDefault manifest name = some target) : target.name = name := Keyed.key_of_get h

theorem ManifestTarget.linkName_of_tablespace (h : target.tablespaceId ≠ 0) :
    target.linkName = "pg_data/".toList ++ target.name := if_pos h

theorem ManifestTarget.linkName_of_link (h : target.tablespaceId = 0) :
    target.linkName = target.name := if_neg (fun hne => hne h)

theorem filter_eq_singleton {β : Type} {key : β → Str} {list : List β} (hnodup : (list.map key).Nodup) {item : β}
    (hmem : item ∈ list) : list.filter (fun other => key other = key item) = [item] := by
  have hfilter : (list.filter (fun other => key other = key item)).Nodup := (hnodup.of_map key).filter _
  refine perm_singleton.mp ((perm_ext_iff_of_nodup hfilter (nodup_singleton item)).mpr (fun other => ?_))
  rw [mem_filter, mem_singleton, decide_eq_true_eq]
  constructor
  · rintro ⟨hother, hkey⟩
    exact inj_on_of_nodup_map hnodup hother hmem hkey
  · rintro rfl
    exact ⟨hmem, rfl⟩

theorem LinksCorrespond.linkName_nodup (h : LinksCorrespond manifest) :
    (manifest.linkList.map ManifestLink.name).Nodup := by
  rw [nodup_iff_count_le_one]
  intro name
  by_cases hmem : name ∈ manifest.linkList.map ManifestLink.name
  · obtain ⟨link, hlink, rfl⟩ := mem_map.mp hmem
    obtain ⟨target, htarget, htype, hname⟩ := h.target link hlink
    obtain ⟨only, honly, -⟩ := h.link target htarget htype
    rw [hname] at honly
    rw [count_eq_countP, countP_map, countP_eq_length_filter]
    have hfilter : manifest.linkList.filter ((· == link.name) ∘ ManifestLink.name)
        = manifest.linkList.filter (fun other => other.name = link.name) := by
      exact filter_congr (fun other _ => beq_eq_decide other.name link.name)
    rw [hfilter, honly]
    exact le_rfl
  · rw [count_eq_zero_of_not_mem hmem]
    exact Nat.zero_le _

theorem LinksCorrespond.remapInv {config : RestoreMapConfig} (h : LinksCorrespond manifest)
    (hnames : MapNames config manifest) : RemapInv manifest where
  targetName := hnames.nodup
  linkName := h.linkName_nodup
  base := fun target hfind => hnames.base target (Keyed.mem_of_get hfind) (Keyed.key_of_get hfind)
  tablespace := by
    intro name target hfind hid
    obtain rfl := name_of_find hfind
    obtain ⟨htarget, hpath, hfile⟩ := hnames.tablespace target (Keyed.mem_of_get hfind) hid
    exact ⟨Keyed.get_eq_none.mpr htarget, hpath, hfile⟩
  link := by
    intro name target hfind htype
    obtain ⟨link, honly, hleads⟩ := h.link target (Keyed.mem_of_get hfind) htype
    have hmem : link ∈ manifest.linkList.filter (fun link => link.name = target.linkName) := by
      rw [honly]
      exact mem_singleton_self link
    obtain ⟨hlink, hname⟩ := mem_filter.mp hmem
    have hname : link.name = target.linkName := of_decide_eq_true hname
    exact ⟨link, hname ▸ Keyed.get_of_mem h.linkName_nodup hlink, hleads⟩
  target := by
    intro name link hfind
    obtain ⟨target, hmem, htype, hname⟩ := h.target link (Keyed.mem_of_get hfind)
    exact ⟨target.name, target, Keyed.get_of_mem hnames.nodup hmem, htype, hname.trans (Keyed.key_of_get hfind)⟩

theorem RemapInv.corresponds (h : RemapInv manifest) : LinksCorrespond manifest where
  link := by
    intro target hmem htype
    obtain ⟨link, hfind, hleads⟩ := h.link target.name target (Keyed.get_of_mem h.targetName hmem) htype
    refine ⟨link, ?_, hleads⟩
    rw [← Keyed.key_of_get hfind]
    exact filter_eq_singleton h.linkName (Keyed.mem_of_get hfind)
  target := by
    intro link hmem
    obtain ⟨name, target, hfind, htype, hname⟩ := h.target link.name link (Keyed.get_of_mem h.linkName hmem)
    exact ⟨target, Keyed.mem_of_get hfind, htype, hname⟩

theorem RemapInv.linkName_inj (h : RemapInv manifest) {name' : Str} {target' : ManifestTarget}
    (hfind : manifestTargetFindDefault manifest name = some target)
    (hfind' : manifestTargetFindDefault manifest name' = some target') (heq : target.linkName = target'.linkName) :
    name = name' := by
  obtain rfl := name_of_find hfind
  obtain rfl := name_of_find hfind'
  by_cases hid : target.tablespaceId = 0
  · by_cases hid' : target'.tablespaceId = 0
    · rwa [ManifestTarget.linkName_of_link hid, ManifestTarget.linkName_of_link hid'] at heq
    · rw [ManifestTarget.linkName_of_link hid, ManifestTarget.linkName_of_tablespace hid'] at heq
      have hnone := (h.tablespace _ _ hfind' hid').1
      rw [← heq, hfind] at hnone
      cases hnone
  · by_cases hid' : target'.tablespaceId = 0
    · rw [ManifestTarget.linkName_of_tablespace hid, ManifestTarget.linkName_of_link hid'] at heq
      have hnone := (h.tablespace _ _ hfind hid).1
      rw [heq, hfind'] at hnone
      cases hnone
    · rw [ManifestTarget.linkName_of_tablespace hid, ManifestTarget.linkName_of_tablespace hid'] at heq
      exact append_cancel_left heq

/-! ## What a change does -/

/-- Nothing but the two lists is changed. -/
structure SameNames (manifest manifest' : Manifest) : Prop where
  pathList : manifest'.pathList = manifest.pathList
  fileList : manifest'.fileList = manifest.fileList

theorem SameNames.trans {manifest'' : Manifest} (h : SameNames manifest manifest')
    (h' : SameNames manifest' manifest'') : SameNames manifest manifest'' :=
  ⟨h'.pathList.trans h.pathList, h'.fileList.trans h.fileList⟩

/-- **A target and its link are changed together.** -/
structure MapChange (name linkName : Str) (target : Option ManifestTarget) (link : Option ManifestLink)
    (manifest manifest' : Manifest) : Prop where
  same : SameNames manifest manifest'
  targetNodup : (manifest'.targetList.map ManifestTarget.name).Nodup
  linkNodup : (manifest'.linkList.map ManifestLink.name).Nodup
  findTarget : ∀ other, manifestTargetFindDefault manifest' other =
    if other = name then target else manifestTargetFindDefault manifest other
  findLink : ∀ other, manifestLinkFindDefault manifest' other =
    if other = linkName then link else manifestLinkFindDefault manifest other

/-- What a target must be to stand at a name. -/
structure MapAllowed (manifest : Manifest) (name linkName : Str) (link : Option ManifestLink) (target : ManifestTarget) :
    Prop where
  base : name = "pg_data".toList → target.type = .path ∧ target.tablespaceId = 0
  tablespace : target.tablespaceId ≠ 0 → manifestTargetFindDefault manifest ("pg_data/".toList ++ name) = none ∧
    "pg_data/".toList ++ name ∉ manifest.pathList.map ManifestPath.name ∧
    "pg_data/".toList ++ name ∉ manifest.fileList.map ManifestFile.name
  /-- It is not named like the link of a tablespace. -/
  known : (∃ before, manifestTargetFindDefault manifest name = some before) ∨
    name ∈ manifest.pathList.map ManifestPath.name ∨ name ∈ manifest.fileList.map ManifestFile.name
  link : target.type = .link → target.linkName = linkName ∧ ∃ found, link = some found ∧ LeadsTo found target

/-- **A change keeps the correspondence** if the link is that of the target before
and after it, and of no other. -/
theorem RemapInv.change {target : Option ManifestTarget}
    {link : Option ManifestLink} (h : RemapInv manifest)
    (hchange : MapChange name linkName target link manifest manifest')
    (hallowed : ∀ after, target = some after → MapAllowed manifest name linkName link after)
    (hbefore : ∀ before, manifestTargetFindDefault manifest name = some before → before.type = .link →
      before.linkName = linkName)
    (honly : ∀ other found, manifestTargetFindDefault manifest other = some found → found.type = .link →
      found.linkName = linkName → other = name)
    (hlink : ∀ found, link = some found → ∃ after, target = some after ∧ after.type = .link) : RemapInv manifest' := by
  -- a target is the changed one or was there
  have hcases {other : Str} {found : ManifestTarget} (hfind : manifestTargetFindDefault manifest' other = some found) :
      other = name ∧ MapAllowed manifest name linkName link found ∨
        other ≠ name ∧ manifestTargetFindDefault manifest other = some found := by
    rw [hchange.findTarget] at hfind
    split at hfind
    · rename_i heq
      exact .inl ⟨heq, hallowed found hfind⟩
    · rename_i hne
      exact .inr ⟨hne, hfind⟩
  -- the name of the link of a tablespace stays free
  have hfree {other : Str} (hnone : manifestTargetFindDefault manifest other = none)
      (hpath : other ∉ manifest.pathList.map ManifestPath.name)
      (hfile : other ∉ manifest.fileList.map ManifestFile.name) :
      manifestTargetFindDefault manifest' other = none := by
    cases hfind : manifestTargetFindDefault manifest' other with
    | none => rfl
    | some found =>
      rcases hcases hfind with ⟨rfl, hallowed⟩ | ⟨-, hfind⟩
      · rcases hallowed.known with ⟨before, hsome⟩ | hthere
        · rw [hnone] at hsome
          cases hsome
        · exact absurd hthere (not_or.mpr ⟨hpath, hfile⟩)
      · rw [hnone] at hfind
        cases hfind
  refine ⟨hchange.targetNodup, hchange.linkNodup, ?_, ?_, ?_, ?_⟩
  · intro found hfind
    rcases hcases hfind with ⟨heq, hallowed⟩ | ⟨-, hfind⟩
    · exact hallowed.base heq.symm
    · exact h.base found hfind
  · intro other found hfind hid
    rw [hchange.same.pathList, hchange.same.fileList]
    have hspace : manifestTargetFindDefault manifest ("pg_data/".toList ++ other) = none ∧
        "pg_data/".toList ++ other ∉ manifest.pathList.map ManifestPath.name ∧
        "pg_data/".toList ++ other ∉ manifest.fileList.map ManifestFile.name := by
      rcases hcases hfind with ⟨rfl, hallowed⟩ | ⟨-, hfind⟩
      · exact hallowed.tablespace hid
      · exact h.tablespace other found hfind hid
    exact ⟨hfree hspace.1 hspace.2.1 hspace.2.2, hspace.2⟩
  · intro other found hfind htype
    rcases hcases hfind with ⟨-, hallowed⟩ | ⟨hne, hfind⟩
    · obtain ⟨hname, link, hsome, hleads⟩ := hallowed.link htype
      refine ⟨link, ?_, hleads⟩
      rw [hchange.findLink, if_pos hname, hsome]
    · obtain ⟨link, hsome, hleads⟩ := h.link other found hfind htype
      refine ⟨link, ?_, hleads⟩
      rw [hchange.findLink, if_neg (fun heq => hne (honly other found hfind htype heq)), hsome]
  · intro other found hfind
    rw [hchange.findLink] at hfind
    split at hfind
    · rename_i heq
      obtain ⟨after, hafter, htype⟩ := hlink found hfind
      refine ⟨name, after, ?_, htype, ((hallowed after hafter).link htype).1.trans heq.symm⟩
      rw [hchange.findTarget, if_pos rfl, hafter]
    · rename_i hne
      obtain ⟨other', before, hsome, htype, hname⟩ := h.target other found hfind
      refine ⟨other', before, ?_, htype, hname⟩
      rw [hchange.findTarget, if_neg, hsome]
      rintro rfl
      exact hne (hname.symm.trans (hbefore before hsome htype))

/-- A target at a name that had one may keep it if nothing but its path and file
are others. -/
theorem RemapInv.allowed (h : RemapInv manifest)
    {link : Option ManifestLink}
    (hfind : manifestTargetFindDefault manifest name = some target)
    (hlink : target.type = .link → target.linkName = linkName ∧
      ∃ found, link = some found ∧ LeadsTo found { target with path := path, file := file }) :
    MapAllowed manifest name linkName link { target with path := path, file := file } where
  base := by
    rintro rfl
    exact h.base target hfind
  tablespace := h.tablespace name target hfind
  known := .inl ⟨target, hfind⟩
  link := hlink

/-! ## The calls -/

theorem manifestTargetUpdate_ok
    (h : manifestTargetUpdate manifest name path file = .ok manifest') :
    (∃ target, manifestTargetFindDefault manifest name = some target) ∧
      manifest' = { manifest with
        targetList := Keyed.update ManifestTarget.name name
          (fun target => { target with path := path, file := file }) manifest.targetList } := by
  unfold manifestTargetUpdate at h
  split at h
  · cases h
  · rename_i target hfind
    exact ⟨⟨target, hfind⟩, (Except.ok.inj h).symm⟩

theorem manifestLinkUpdate_ok {destination : Str}
    (h : manifestLinkUpdate manifest name destination = .ok manifest') :
    (∃ link, manifestLinkFindDefault manifest name = some link) ∧
      manifest' = { manifest with
        linkList := Keyed.update ManifestLink.name name
          (fun link => { link with destination := destination }) manifest.linkList } := by
  unfold manifestLinkUpdate at h
  split at h
  · cases h
  · rename_i link hfind
    exact ⟨⟨link, hfind⟩, (Except.ok.inj h).symm⟩

/-- **A target that is a link is mapped** together with its link. -/
theorem RemapInv.retarget (h : RemapInv manifest) {destination : Str}
    {link : ManifestLink} (hfind : manifestTargetFindDefault manifest name = some target)
    (hlink : manifestLinkFindDefault manifest target.linkName = some link) (htype : target.type = .link)
    (hleads : LeadsTo { link with destination := destination } { target with path := path, file := file }) :
    let manifest' := { manifest with
      targetList := Keyed.update ManifestTarget.name name
        (fun target => { target with path := path, file := file }) manifest.targetList
      linkList := Keyed.update ManifestLink.name target.linkName
        (fun link => { link with destination := destination }) manifest.linkList }
    RemapInv manifest' ∧ MapChange name target.linkName (some { target with path := path, file := file })
      (some { link with destination := destination }) manifest manifest' := by
  intro manifest'
  have hchange : MapChange name target.linkName (some { target with path := path, file := file })
      (some { link with destination := destination }) manifest manifest' :=
    ⟨⟨rfl, rfl⟩, Keyed.nodup_update h.targetName _ (fun _ => rfl), Keyed.nodup_update h.linkName _ (fun _ => rfl),
      fun other => Keyed.get_update hfind other (fun _ => rfl), fun other => Keyed.get_update hlink other (fun _ => rfl)⟩
  refine ⟨h.change hchange ?_ ?_ ?_ ?_, hchange⟩
  · intro after hafter
    exact Option.some.inj hafter ▸ h.allowed hfind (fun _ => ⟨rfl, _, rfl, hleads⟩)
  · intro before hbefore _
    rw [hfind] at hbefore
    rw [Option.some.inj hbefore]
  · exact fun other found hfound _ heq => h.linkName_inj hfound hfind heq
  · exact fun _ _ => ⟨_, rfl, htype⟩

/-- No link is named like the base, nor like anything that is not named like the
link of a tablespace. -/
theorem RemapInv.link_eq_none (h : RemapInv manifest)
    (hnone : ∀ target, manifestTargetFindDefault manifest name = some target → target.type = .path)
    (hspace : ∀ other target, manifestTargetFindDefault manifest other = some target → target.tablespaceId ≠ 0 →
      name ≠ "pg_data/".toList ++ other) : manifestLinkFindDefault manifest name = none := by
  cases hfind : manifestLinkFindDefault manifest name with
  | none => rfl
  | some link =>
    obtain ⟨other, target, htarget, htype, heq⟩ := h.target name link hfind
    obtain rfl := name_of_find htarget
    by_cases hid : target.tablespaceId = 0
    · rw [ManifestTarget.linkName_of_link hid] at heq
      rw [hnone target (heq ▸ htarget)] at htype
      cases htype
    · rw [ManifestTarget.linkName_of_tablespace hid] at heq
      exact absurd heq.symm (hspace _ target htarget hid)

theorem RemapInv.only (h : RemapInv manifest)
    (hnone : manifestLinkFindDefault manifest linkName = none) (other : Str) (found : ManifestTarget)
    (hfound : manifestTargetFindDefault manifest other = some found) (htype : found.type = .link)
    (heq : found.linkName = linkName) : other = name := by
  obtain ⟨link, hlink, -⟩ := h.link other found hfound htype
  rw [heq, hnone] at hlink
  cases hlink

theorem prepend_ne_base (name : Str) : "pg_data/".toList ++ name ≠ "pg_data".toList :=
  fun heq => absurd (congrArg length heq) (by simp)

/-- **The base is mapped.** -/
theorem RemapInv.rebase (h : RemapInv manifest) {base : ManifestTarget}
    (hfind : manifestTargetFindDefault manifest "pg_data".toList = some base) :
    let manifest' := { manifest with
      targetList := Keyed.update ManifestTarget.name "pg_data".toList
        (fun target => { target with path := path, file := none }) manifest.targetList }
    RemapInv manifest' ∧ MapChange "pg_data".toList "pg_data".toList (some { base with path := path, file := none })
      none manifest manifest' := by
  intro manifest'
  obtain ⟨htype, hid⟩ := h.base base hfind
  have hnone : manifestLinkFindDefault manifest "pg_data".toList = none :=
    h.link_eq_none (fun target htarget => (h.base target htarget).1) (fun other _ _ _ => (prepend_ne_base other).symm)
  have hnot {P : Prop} (hlink : base.type = .link) : P := by
    rw [htype] at hlink
    cases hlink
  have hchange : MapChange "pg_data".toList "pg_data".toList (some { base with path := path, file := none })
      none manifest manifest' := by
    refine ⟨⟨rfl, rfl⟩, Keyed.nodup_update h.targetName _ (fun _ => rfl), h.linkName,
      fun other => Keyed.get_update hfind other (fun _ => rfl), fun other => ?_⟩
    split
    · rename_i heq
      exact heq ▸ hnone
    · rfl
  refine ⟨h.change hchange ?_ ?_ (h.only hnone) nofun, hchange⟩
  · intro after hafter
    exact Option.some.inj hafter ▸ h.allowed hfind hnot
  · intro before hbefore hlink
    rw [hfind] at hbefore
    exact hnot (Option.some.inj hbefore ▸ hlink)

/-- **A link is created** with its target. -/
theorem RemapInv.create (h : RemapInv manifest) {link : ManifestLink}
    (hnone : manifestTargetFindDefault manifest target.name = none) (htype : target.type = .link)
    (hid : target.tablespaceId = 0) (hname : ∃ name, target.name = "pg_data/".toList ++ name)
    (hlink : link.name = target.name) (hleads : LeadsTo link target)
    (hthere : target.name ∈ manifest.pathList.map ManifestPath.name ∨
      target.name ∈ manifest.fileList.map ManifestFile.name) :
    RemapInv (manifestTargetAdd (manifestLinkAdd manifest link) target) ∧
      MapChange target.name target.name (some target) (some link) manifest
        (manifestTargetAdd (manifestLinkAdd manifest link) target) := by
  have hbefore {before : ManifestTarget} (hfind : manifestTargetFindDefault manifest target.name = some before)
      {P : Prop} : P := by
    rw [hnone] at hfind
    cases hfind
  have hlinkNone : manifestLinkFindDefault manifest target.name = none := by
    refine h.link_eq_none (fun before hfind => hbefore hfind) (fun other space hfind hspace heq => ?_)
    obtain ⟨-, hpath, hfile⟩ := h.tablespace other space hfind hspace
    rw [heq] at hthere
    exact hthere.elim hpath hfile
  have hchange : MapChange target.name target.name (some target) (some link) manifest
      (manifestTargetAdd (manifestLinkAdd manifest link) target) := by
    refine ⟨⟨rfl, rfl⟩, Keyed.nodup_append h.targetName (Keyed.get_eq_none.mp hnone),
      Keyed.nodup_append h.linkName (hlink ▸ Keyed.get_eq_none.mp hlinkNone), fun other => ?_, fun other => ?_⟩
    · exact Keyed.get_concat hnone other
    · exact hlink ▸ Keyed.get_concat (hlink ▸ hlinkNone) other
  refine ⟨h.change hchange ?_ (fun before hfind => hbefore hfind) (h.only hlinkNone) ?_, hchange⟩
  · intro after hafter
    cases hafter
    refine ⟨fun heq => ?_, fun hne => absurd hid hne, .inr hthere,
      fun _ => ⟨ManifestTarget.linkName_of_link hid, link, rfl, hleads⟩⟩
    obtain ⟨name, hname⟩ := hname
    exact absurd (hname.symm.trans heq) (prepend_ne_base name)
  · exact fun _ _ => ⟨target, rfl, htype⟩

/-- **A link is removed** with its target. -/
theorem RemapInv.unlink (h : RemapInv manifest)
    (hfind : manifestTargetFindDefault manifest name = some target) (hid : target.tablespaceId = 0) :
    let manifest' := { manifest with
      targetList := Keyed.remove ManifestTarget.name name manifest.targetList
      linkList := Keyed.remove ManifestLink.name name manifest.linkList }
    RemapInv manifest' ∧ MapChange name name none none manifest manifest' := by
  intro manifest'
  have hself : target.linkName = name := (ManifestTarget.linkName_of_link hid).trans (name_of_find hfind)
  have hchange : MapChange name name none none manifest manifest' :=
    ⟨⟨rfl, rfl⟩, Keyed.nodup_remove h.targetName _, Keyed.nodup_remove h.linkName _,
      fun other => Keyed.get_remove h.targetName _ other, fun other => Keyed.get_remove h.linkName _ other⟩
  refine ⟨h.change hchange nofun ?_ ?_ nofun, hchange⟩
  · intro before hbefore _
    rw [hfind] at hbefore
    exact Option.some.inj hbefore ▸ hself
  · exact fun other found hfound _ heq => h.linkName_inj hfound hfind (heq.trans hself.symm)

end PgxBackup
