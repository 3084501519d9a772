import OneDriveDavfs.Api.Answers

/-! Answers from the snapshot and answers from Graph: `tree` in `src/api.rs` and `head` in `src/dav.rs`.

Where the snapshot holds the drive and Graph answers as the drive is, it makes
no difference to a client which of the two is asked, but for what the snapshot
does not keep: the order of the children and the MIME type of a file.
-/

set_option autoImplicit false

namespace OneDriveDavfs

open Library Library.Forest Library.Wire Library.Effect Library.Json Snapshot Dav

namespace Api

/-- The stored snapshot is of the drive, and Graph answers for the path as the drive is. -/
structure Shown (ext : Externals) (host : Surroundings) (config : GuestConfig) (T : DriveTree) (idx : Index)
    (describe : Id → Graph.DriveItem) (path : String) (bytes : Bytes) (world : World) : Prop where
  roundTrips : ext.index.RoundTrips
  depthLe : T.DepthLe 63
  folders : T.FoldersOnly
  represents : Represents idx T
  held : world.files indexFile = some bytes
  saves : Saves ext.index idx bytes
  described : Described T describe
  reflects : Reflects ext.token ext.graph host.toEnvironment config.toConfig T describe path world

section Shown
variable {ext : Externals} {host : Surroundings} {config : GuestConfig} {T : DriveTree} {idx : Index}
  {describe : Id → Graph.DriveItem} {path : String} {bytes : Bytes} {world : World} {id : Id}

structure Told (ext : Externals) (host : Surroundings) (config : GuestConfig) (idx : Index)
    (describe : Id → Graph.DriveItem) (path : String) (world : World) (id : Id) (node : Node) : Prop where
  indexed : (attempt (Guest.lookupFile ext path)).outcome world =
    .ok (.ok (some (if node.itemMeta.isDir then .dir (infoOf id node) (childInfos idx id) else .file (infoOf id node))))
  live : (Graph.stat ext.token ext.graph host.toEnvironment config.toConfig path).outcome world =
    .ok (Graph.toItem (describe id))
  isDir : (Graph.toItem (describe id)).isDir = node.itemMeta.isDir
  size : (Graph.toItem (describe id)).size = node.itemMeta.size
  mtime : (Graph.toItem (describe id)).lastModified = node.itemMeta.mtime
  etag : (Graph.toItem (describe id)).etag = node.itemMeta.etag
  name : ¬ onlySlashes path = true → (Graph.toItem (describe id)).name = (infoOf id node).name

theorem Shown.told (shown : Shown ext host config T idx describe path bytes world)
    (canonical : path = joinPath (segments path)) (trail : Trail T.links id (segments path)) :
    ∃ node, idx.nodes[id]? = some node ∧ Told ext host config idx describe path world id node := by
  obtain ⟨node, found, _, answered⟩ := answer_of_trail shown.represents shown.depthLe trail
  obtain ⟨body, replies, read⟩ := shown.reflects.stat id trail
  have stored := (shown.represents.stored found).2
  obtain ⟨isDir, size, mtime, etag, name⟩ := shown.described.reads stored
  rw [eraseTop_itemMeta] at isDir size mtime etag
  have storable := storable_of_holds shown.represents shown.folders
  have looked := shown.saves.lookup shown.roundTrips storable shown.held path
  refine ⟨node, found, ⟨?_, outcome_stat replies read, isDir, size, mtime, etag, fun below => name ?_⟩⟩
  · refine outcome_attempt_ok ?_
    rw [Guest.lookupFile, outcome_bind_ok _ (outcome_get world), after_get, looked, answered]
    rfl
  -- only the root is without a parent, and its path has no name in it
  · obtain none | ⟨front, last, split⟩ := List.eq_nil_or_concat' (segments path)
    · rw [canonical, none] at below
      exact absurd (by decide) below
    · rw [split] at trail
      obtain ⟨p, link, _⟩ := Trail.concat_iff.mp trail
      obtain ⟨other, present, parent, _⟩ := NodeTree.links_eq_some_iff.mp link
      rw [stored] at present
      cases present
      rw [parent]
      exact fun impossible => by cases impossible

theorem Shown.childIds_perm (shown : Shown ext host config T idx describe path bytes world) {ids : List Id}
    (nodup : ids.Nodup) (all : ∀ c, c ∈ ids ↔ Child T.links id c) : ((childInfos idx id).map ChildInfo.id).Perm ids := by
  have represents := shown.represents
  refine (List.perm_ext_iff_of_nodup (ids_childInfos_nodup represents.rep.sound id) nodup).mpr fun c => ?_
  rw [all, List.mem_map]
  constructor
  · rintro ⟨info, member, rfl⟩
    exact ⟨_, (represents.link_inner.mp (link_of_mem_childInfos represents.rep member)).2⟩
  · rintro ⟨name, link⟩
    have own := represents.link_inner.mpr ⟨True.intro, link⟩
    obtain ⟨child, present, _⟩ := Index.links_eq_some_iff.mp own
    exact ⟨_, (infoOf_mem_childInfos represents.rep own present).1, rfl⟩

theorem Shown.child_reads (shown : Shown ext host config T idx describe path bytes world) {c : ChildInfo}
    (member : c ∈ childInfos idx id) :
    (Graph.toItem (describe c.id)).isDir = c.isDir ∧ (Graph.toItem (describe c.id)).size = c.size ∧
      (Graph.toItem (describe c.id)).lastModified = c.mtime ∧ (Graph.toItem (describe c.id)).etag = c.etag ∧
      (Graph.toItem (describe c.id)).name = c.name := by
  have represents := shown.represents
  obtain ⟨_, found⟩ := (mem_childInfos represents.rep.sound).mp member
  obtain ⟨_, link⟩ := represents.link_inner.mp (link_of_mem_childInfos represents.rep member)
  obtain ⟨node, inTree, parent, sameName⟩ := NodeTree.links_eq_some_iff.mp link
  obtain ⟨isDir, size, mtime, etag, name⟩ := shown.described.reads inTree
  have same := (represents.stored found).2
  rw [inTree] at same
  have itemMeta : node.itemMeta = ⟨c.isDir, c.size, c.mtime, c.etag⟩ := by
    rw [Option.some.inj same, eraseTop_itemMeta]
    rfl
  rw [itemMeta] at isDir size mtime etag
  exact ⟨isDir, size, mtime, etag, (name (by rw [parent]; simp)).trans sameName⟩

theorem Shown.childrenJson_perm (shown : Shown ext host config T idx describe path bytes world) {ids : List Id}
    (nodup : ids.Nodup) (all : ∀ c, c ∈ ids ↔ Child T.links id c) :
    (((childInfos idx id).filter ChildInfo.isDir).map fun c => childJson path c.name true c.size c.mtime c.etag).Perm
      ((((ids.map describe).map Graph.toItem).filter Graph.GraphItem.isDir).map fun c =>
        childJson path c.name true c.size c.lastModified c.etag) := by
  have live := ((((shown.childIds_perm nodup all).map describe).map Graph.toItem).filter Graph.GraphItem.isDir).map
    fun c => childJson path c.name true c.size c.lastModified c.etag
  refine List.Perm.trans (.of_eq ?_) live
  rw [List.map_map, List.map_map, List.filter_map, List.map_map]
  have kinds : (childInfos idx id).filter (Graph.GraphItem.isDir ∘ (Graph.toItem ∘ describe) ∘ ChildInfo.id) =
      (childInfos idx id).filter ChildInfo.isDir :=
    List.filter_congr fun c member => (shown.child_reads member).1
  rw [← Function.comp_assoc, kinds]
  refine List.map_congr_left fun c member => ?_
  obtain ⟨_, size, mtime, etag, name⟩ := shown.child_reads (List.mem_of_mem_filter member)
  simp only [Function.comp_apply, size, mtime, etag, name]

/-! ## The two endpoints -/

theorem Shown.root_isDir (shown : Shown ext host config T idx describe path bytes world)
    (trail : Trail T.links id (segments path)) (top : onlySlashes path = true) :
    (Graph.toItem (describe id)).isDir = true := by
  rw [segments_of_onlySlashes top] at trail
  obtain ⟨_, link⟩ := Trail.nil_iff.mp trail
  rw [NodeTree.root_of_top link]
  exact shown.described.rootFolder

theorem Shown.graphTree (shown : Shown ext host config T idx describe path bytes world)
    (trail : Trail T.links id (segments path)) {node : Node} (found : idx.nodes[id]? = some node)
    (told : Told ext host config idx describe path world id node) :
    ∃ children, (Api.graphTree ext host config path).outcome world =
        .ok (graphTreeJson path (Graph.toItem (describe id)) children) ∧
      ((if node.itemMeta.isDir then ((childInfos idx id).filter ChildInfo.isDir).map fun c =>
          childJson path c.name true c.size c.mtime c.etag else []).Perm
        ((children.filter Graph.GraphItem.isDir).map fun c =>
          childJson path c.name true c.size c.lastModified c.etag)) := by
  unfold Api.graphTree
  rw [outcome_bind_ok _ told.live, told.isDir]
  cases kind : node.itemMeta.isDir with
  | false => exact ⟨[], rfl, .refl _⟩
  | true =>
    have stored := (shown.represents.stored found).2
    have treeKind : node.eraseTop.itemMeta.isDir = true := by rw [eraseTop_itemMeta, kind]
    obtain ⟨ids, nodup, all, lists⟩ := outcome_children shown.reflects trail stored treeKind
    rw [if_pos rfl, outcome_bind_ok _ lists]
    exact ⟨_, rfl, shown.childrenJson_perm nodup all⟩

/-- Turning the snapshot off changes nothing in the answer about a path of the drive but the name of
the source and the order of the children. -/
theorem tree_agrees (shown : Shown ext host config T idx describe path bytes world) {query : Option String}
    (asked : treePath query = .ok path) (trail : Trail T.links id (segments path)) :
    ∃ name isDir size mtime etag indexed live,
      (tree ext host { config with indexEnabled := true } query).outcome world =
        .ok (jsonOk (nodeJson path name isDir size mtime etag "index" indexed)) ∧
      (tree ext host { config with indexEnabled := false } query).outcome world =
        .ok (jsonOk (nodeJson path name isDir size mtime etag "graph" live)) ∧
      indexed.Perm live := by
  have canonical := (canonical_of_sanitizePath asked).1
  obtain ⟨node, found, told⟩ := shown.told canonical trail
  obtain ⟨children, live, same⟩ := shown.graphTree trail found told
  refine ⟨if onlySlashes path then "" else (infoOf id node).name, node.itemMeta.isDir, node.itemMeta.size,
    node.itemMeta.mtime, node.itemMeta.etag, _, _, ?_, ?_, same⟩
  · unfold tree
    rw [asked]
    dsimp only
    rw [if_pos rfl, outcome_bind_ok _ told.indexed]
    cases kind : node.itemMeta.isDir with
    | true => rfl
    | false =>
      have below : ¬ onlySlashes path = true := fun top => by
        have folder := shown.root_isDir trail top
        rw [told.isDir, kind] at folder
        cases folder
      rw [if_neg below]
      rfl
  · have same : graphTreeJson path (Graph.toItem (describe id)) children =
        nodeJson path (if onlySlashes path then "" else (infoOf id node).name) node.itemMeta.isDir node.itemMeta.size
          node.itemMeta.mtime node.itemMeta.etag "graph" ((children.filter Graph.GraphItem.isDir).map fun c =>
            childJson path c.name true c.size c.lastModified c.etag) := by
      rw [graphTreeJson, told.isDir, told.size, told.mtime, told.etag]
      by_cases top : onlySlashes path = true
      · rw [if_pos top, if_pos top]
      · rw [if_neg top, if_neg top, told.name top]
    unfold tree
    rw [asked]
    dsimp only
    -- the settings towards Graph are the same
    have asked : (graphTree ext host { config with indexEnabled := false } path).outcome world = _ := live
    rw [if_neg Bool.false_ne_true, treeFromGraph, outcome_bind_ok _ (outcome_attempt_ok asked), same]
    rfl

/-- So it is for `HEAD`, but for the MIME type of a file. -/
theorem head_agrees (shown : Shown ext host config T idx describe path bytes world)
    (canonical : path = joinPath (segments path)) (trail : Trail T.links id (segments path)) :
    ∃ kind mime length,
      (Verbs.head ext host { config with indexEnabled := true } path).outcome world =
        .ok (Verbs.headResponse kind length) ∧
      (Verbs.head ext host { config with indexEnabled := false } path).outcome world =
        .ok (Verbs.headResponse mime length) ∧
      (kind = mime ∨ kind = Verbs.octetStream ∧ mime = (Graph.toItem (describe id)).mimeType) := by
  obtain ⟨node, found, told⟩ := shown.told canonical trail
  have live : (Verbs.head ext host { config with indexEnabled := false } path).outcome world =
      .ok (Verbs.headOfItem (Graph.toItem (describe id))) := by
    unfold Verbs.head Verbs.headFromIndex
    rw [if_neg Bool.false_ne_true, outcome_bind_ok _ (outcome_pure world none)]
    exact outcome_bind_ok _ (outcome_attempt_ok told.live)
  have indexed (hit : Lookup) (looked : (attempt (Guest.lookupFile ext path)).outcome world = .ok (.ok (some hit))) :
      (Verbs.head ext host { config with indexEnabled := true } path).outcome world = .ok (Verbs.headOfLookup hit) := by
    have answered : (Verbs.headFromIndex ext { config with indexEnabled := true } path).outcome world =
        .ok (some (Verbs.headOfLookup hit)) := by
      unfold Verbs.headFromIndex
      rw [if_pos rfl, outcome_bind_ok _ looked]
      rfl
    unfold Verbs.head
    rw [outcome_bind_ok _ answered]
    rfl
  have hit := indexed _ told.indexed
  rw [live, hit]
  unfold Verbs.headOfItem
  rw [told.isDir, told.size]
  cases kind : node.itemMeta.isDir with
  | true => exact ⟨_, _, _, rfl, rfl, .inl rfl⟩
  | false =>
    refine ⟨_, _, _, rfl, rfl, ?_⟩
    by_cases unknown : (Graph.toItem (describe id)).mimeType = ""
    · rw [if_pos unknown]
      exact .inl rfl
    · rw [if_neg unknown]
      exact .inr ⟨rfl, rfl⟩

end Shown

/-! ## A folder with one file -/

def folderExternals : Externals := { plainExternals with graph := folderJson }

def folderSurroundings : Surroundings := { offline with toEnvironment := folderEnvironment }

def folderConfig : GuestConfig := ⟨Auth.someConfig, none, true, 8, Nat.succ_pos 7, 20000⟩

theorem shown_folder : Shown folderExternals folderSurroundings folderConfig foldersAB (Index.ofTree foldersAB)
    foldersABItem "/B" folderSnapshot folderWorld where
  roundTrips := metaText_roundTrips
  depthLe := NodeTree.depthLe_of_climb (by decide)
  folders := NodeTree.foldersOnly_of_list (by decide)
  represents := represents_ofTree foldersAB
  held := rfl
  saves := Dav.saves_folderSnapshot
  described := foldersABItem_described
  reflects := Dav.reflects_folder

theorem trail_b : Trail foldersAB.links "b" (segments "/B") :=
  ((represents_ofTree foldersAB).resolve_iff "/B" "b").mp (by decide)

theorem tree_agrees_folder :
    ∃ name isDir size mtime etag indexed live,
      (tree folderExternals folderSurroundings { folderConfig with indexEnabled := true } (some "path=/B")).outcome
          folderWorld = .ok (jsonOk (nodeJson "/B" name isDir size mtime etag "index" indexed)) ∧
      (tree folderExternals folderSurroundings { folderConfig with indexEnabled := false } (some "path=/B")).outcome
          folderWorld = .ok (jsonOk (nodeJson "/B" name isDir size mtime etag "graph" live)) ∧
      indexed.Perm live :=
  @tree_agrees folderExternals folderSurroundings folderConfig foldersAB (Index.ofTree foldersAB) foldersABItem "/B"
    folderSnapshot folderWorld "b" shown_folder (some "path=/B") (by decide +kernel) trail_b

theorem head_agrees_folder :
    ∃ kind mime length,
      (Verbs.head folderExternals folderSurroundings { folderConfig with indexEnabled := true } "/B").outcome folderWorld =
        .ok (Verbs.headResponse kind length) ∧
      (Verbs.head folderExternals folderSurroundings { folderConfig with indexEnabled := false } "/B").outcome folderWorld =
        .ok (Verbs.headResponse mime length) ∧
      (kind = mime ∨ kind = Verbs.octetStream ∧ mime = (Graph.toItem (foldersABItem "b")).mimeType) :=
  @head_agrees folderExternals folderSurroundings folderConfig foldersAB (Index.ofTree foldersAB) foldersABItem "/B"
    folderSnapshot folderWorld "b" shown_folder (by decide) trail_b

end Api

end OneDriveDavfs
