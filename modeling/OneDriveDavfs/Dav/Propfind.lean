import OneDriveDavfs.Auth.TokenText
import OneDriveDavfs.Dav.Href
import OneDriveDavfs.Graph.Children
import OneDriveDavfs.Sync.Listing

/-! PROPFIND from the snapshot and from Graph: `propfind` of `src/dav.rs`.

Graph describes every node of a drive tree by one item, in its delta records
as in its answers to requests for an item and for the children of a folder.
Then both ways list the same entries.
-/

set_option autoImplicit false

namespace OneDriveDavfs

open Std Library Library.Forest Library.Wire Snapshot OneDriveDavfs.Graph

namespace Dav

inductive PropfindAnswer where
  /-- 403, propfind-finite-depth -/
  | infinite
  | multistatus (entries : List DavEntry)
  | notFound
  | failed (message : String)
  deriving DecidableEq, Repr

section Requests
variable (token : Auth.TokenJson) (json : GraphJson) (env : Environment) (config : Config)

/-- The rest of `propfind` when the snapshot does not answer. -/
def propfindLive (path : String) (depth : Option String) : Daemon PropfindAnswer := do
  match ← attempt (stat token json env config path) with
  | .error message => return if message = "not found" then .notFound else .failed message
  | .ok selfItem =>
    let self := selfEntry path selfItem
    if selfItem.isDir ∧ depth ≠ some "0" then
      match ← attempt (children token json env config path) with
      | .ok items => return .multistatus (self :: items.map (toEntry path))
      | .error message => return .failed message
    else return .multistatus [self]

def propfind (P : Platform) (indexEnabled : Bool) (path : String) (depth : Option String) :
    Daemon PropfindAnswer := do
  if depth = some "infinity" then return .infinite
  else
    let world ← get
    match propfindFromIndex P indexEnabled world.files.host path depth with
    | .ok (some entries) => return .multistatus entries
    | .ok none => propfindLive token json env config path depth
    | .error _ => throw .cut

/-! ## What Graph replies -/

def get (url : String) : Daemon HttpResponse := graphRequest token env config .get url none []

/-- A GET of the URL is answered with status 200 and this body in this world. -/
def Replies (world : World) (url : String) (body : Bytes) : Prop :=
  ∃ response, (get token env config url).outcome world = .ok response ∧ response.status = 200 ∧ response.body = body

variable {token} {json} {env} {config} {world : World} {path : String}

theorem outcome_stat {body : Bytes} {item : DriveItem}
    (replies : Replies token env config world (v1 (itemPathSegment config.driveBase path)) body)
    (read : json.driveItem body = .ok item) :
    (stat token json env config path).outcome world = .ok (toItem item) := by
  obtain ⟨response, answered, status, rfl⟩ := replies
  have found : ¬ response.status = 404 := by rw [status]; decide
  rw [get] at answered
  rw [stat, Effect.outcome_bind_ok _ answered, if_neg found, if_neg (not_not_intro status), read]
  rfl

theorem after_stat {body : Bytes} {item : DriveItem}
    (replies : Replies token env config world (v1 (itemPathSegment config.driveBase path)) body)
    (read : json.driveItem body = .ok item) :
    (stat token json env config path).after world =
      (get token env config (v1 (itemPathSegment config.driveBase path))).after world := by
  obtain ⟨response, answered, status, rfl⟩ := replies
  have found : ¬ response.status = 404 := by rw [status]; decide
  rw [get] at answered
  rw [stat, Effect.after_bind_ok _ answered, if_neg found, if_neg (not_not_intro status), read]
  rfl

theorem outcome_propfindLive_dir {depth : Option String} {self : GraphItem} {items : List GraphItem}
    (stats : (stat token json env config path).outcome world = .ok self)
    (lists : (children token json env config path).outcome ((stat token json env config path).after world) =
      .ok items)
    (isDir : self.isDir = true) (deep : depth ≠ some "0") :
    (propfindLive token json env config path depth).outcome world =
      .ok (.multistatus (selfEntry path self :: items.map (toEntry path))) := by
  rw [propfindLive, Effect.outcome_bind_ok _ (outcome_attempt_ok stats), after_attempt]
  dsimp only
  rw [if_pos ⟨isDir, deep⟩, Effect.outcome_bind_ok _ (outcome_attempt_ok lists)]
  rfl

theorem outcome_propfindLive_self {depth : Option String} {self : GraphItem}
    (stats : (stat token json env config path).outcome world = .ok self)
    (shallow : ¬ (self.isDir = true ∧ depth ≠ some "0")) :
    (propfindLive token json env config path depth).outcome world = .ok (.multistatus [selfEntry path self]) := by
  rw [propfindLive, Effect.outcome_bind_ok _ (outcome_attempt_ok stats)]
  dsimp only
  rw [if_neg shallow]
  rfl

end Requests

/-! ## The address of the path itself -/

theorem parentOf_joinPath {front : List String} {name : String} (clean : ∀ n ∈ front ++ [name], CleanName n) :
    parentOf (joinPath (front ++ [name])) =
      String.ofList (Library.Separated.joined '/' (front.map String.toList)) := by
  have last : CleanName name := clean name (by simp)
  have chars : (joinPath (front ++ [name])).toList =
      Library.Separated.joined '/' (front.map String.toList) ++ '/' :: name.toList := by
    rw [toList_joinPath (by simp)]
    simp
  have trimmed : trimEndSlashes (joinPath (front ++ [name])) =
      Library.Separated.joined '/' (front.map String.toList) ++ '/' :: name.toList := by
    rw [trimEndSlashes_joinPath clean (by simp)]
    simp
  rw [parentOf, trimmed, Library.Separated.rfind_append_clean _ last.2]
  dsimp only
  rw [chars, List.take_left]

theorem onlySlashes_joinPath {segs : List String} (clean : ∀ n ∈ segs, CleanName n) :
    onlySlashes (joinPath segs) = true ↔ segs = [] := by
  constructor
  · intro only
    have nothing := segments_of_onlySlashes only
    rwa [segments_joinPath clean] at nothing
  · rintro rfl
    decide

theorem href_selfEntry {segs : List String} (clean : ∀ n ∈ segs, CleanName n) {item : GraphItem}
    (named : ∀ last, segs.getLast? = some last → item.name = last) :
    (selfEntry (joinPath segs) item).href = joinPath segs := by
  obtain rfl | ⟨front, name, rfl⟩ := List.eq_nil_or_concat' segs
  · rfl
  · have sameName : item.name = name := named name (by simp)
    have below : ¬ onlySlashes (joinPath (front ++ [name])) = true := fun only =>
      List.append_ne_nil_of_right_ne_nil _ (by simp) ((onlySlashes_joinPath clean).mp only)
    have frontClean : ∀ n ∈ front, CleanName n := fun n member => clean n (List.mem_append_left _ member)
    unfold selfEntry
    dsimp only
    rw [if_neg below, parentOf_joinPath clean]
    by_cases empty : front = []
    · subst empty
      rw [toEntry]
      dsimp only
      rw [if_pos (by decide), sameName]
      rfl
    · have parent : String.ofList (Library.Separated.joined '/' (front.map String.toList)) = joinPath front := by
        rw [← String.toList_inj, String.toList_ofList, toList_joinPath empty]
      have filled : ¬ onlySlashes (joinPath front) = true := fun only => empty ((onlySlashes_joinPath frontClean).mp only)
      have child := childPath_joinPath name frontClean
      rw [childPath, if_neg (joinPath_ne_root frontClean empty)] at child
      rw [parent, toEntry]
      dsimp only
      rw [if_neg filled, trimEndSlashes_joinPath frontClean empty, parent, sameName, child]

/-! ## One description of the drive -/

/-- The item that describes a node is read by the delta as the record of the node; the root has a
folder facet. -/
structure Described (T : DriveTree) (describe : Id → DriveItem) : Prop where
  tells : ∀ {id : Id} {node : Node}, T.nodes[id]? = some node →
    ∃ it, toDeltaItem (describe id) = some it ∧ it.id = id ∧ T.Tells it
  rootFolder : (describe T.root).folder = true

section Described
variable {T : DriveTree} {describe : Id → DriveItem}

theorem Described.reads (described : Described T describe) {id : Id} {node : Node}
    (found : T.nodes[id]? = some node) :
    (toItem (describe id)).isDir = node.itemMeta.isDir ∧ (toItem (describe id)).size = node.itemMeta.size ∧
      (toItem (describe id)).lastModified = node.itemMeta.mtime ∧ (toItem (describe id)).etag = node.itemMeta.etag ∧
      (node.parent ≠ none → (toItem (describe id)).name = node.name) := by
  obtain ⟨it, read, own, tells⟩ := described.tells found
  subst own
  unfold toDeltaItem at read
  split at read
  · cases read
  · have reading := Option.some.inj read
    simp only [DriveTree.Tells, found] at tells
    obtain ⟨_, root, placed, itemMeta⟩ := tells
    rw [← itemMeta]
    have kind : (describe it.id).folder = ((describe it.id).folder || (describe it.id).root) := by
      cases isRoot : (describe it.id).root with
      | false => rw [Bool.or_false]
      | true =>
        have top : node.parent = none := root.mp ((congrArg DeltaItem.isRoot reading).symm.trans isRoot)
        have folder := described.rootFolder
        rw [← T.onlyRoot found top] at folder
        rw [folder, Bool.true_or]
    have metaOf : it.itemMeta = ⟨(describe it.id).folder || (describe it.id).root, (describe it.id).size,
        (describe it.id).lastModifiedUnix, (describe it.id).etag.getD ""⟩ := (congrArg DeltaItem.itemMeta reading).symm
    have nameOf : it.name = (describe it.id).name := (congrArg DeltaItem.name reading).symm
    rw [metaOf]
    exact ⟨kind, rfl, rfl, rfl, fun below => nameOf.symm.trans (placed below).2⟩

variable {idx : Index} {path : String}

theorem selfEntry_eq (represents : Represents idx T) (described : Described T describe)
    (canonical : normalizePath path = path) {id : Id} {node : Node} (trail : Trail T.links id (segments path))
    (found : idx.nodes[id]? = some node) :
    selfEntry path (toItem (describe id)) = entryFromInfo path (infoOf id node) true := by
  have inTree := (represents.stored found).2
  obtain ⟨isDir, size, mtime, etag, name⟩ := described.reads inTree
  rw [eraseTop_itemMeta] at isDir size mtime etag
  have clean := DriveTree.clean_of_trail trail
  have href : (selfEntry path (toItem (describe id))).href = path := by
    have spelled : path = joinPath (segments path) := canonical.symm
    -- the last name of the path is the name on the drive, so the title is the path itself
    have named : ∀ last, (segments path).getLast? = some last → (toItem (describe id)).name = last := by
      intro last isLast
      obtain ⟨front, split⟩ := List.getLast?_eq_some_iff.mp isLast
      rw [split] at trail
      obtain ⟨p, link, _⟩ := Trail.concat_iff.mp trail
      obtain ⟨other, present, parent, sameName⟩ := NodeTree.links_eq_some_iff.mp link
      rw [inTree] at present
      cases present
      rw [name (by rw [parent]; simp), sameName]
    rw [spelled]
    exact href_selfEntry clean named
  have hrefInfo : (entryFromInfo path (infoOf id node) true).href = path := by rw [href_self, canonical]
  have fields : ∀ a b : DavEntry, a.href = b.href → a.isDir = b.isDir → a.size = b.size →
      a.lastModified = b.lastModified → a.etag = b.etag → a = b := by
    rintro ⟨⟩ ⟨⟩ rfl rfl rfl rfl rfl
    rfl
  refine fields _ _ (href.trans hrefInfo.symm) ?_ ?_ ?_ ?_
  all_goals
    unfold selfEntry
    dsimp only
    split
  · exact isDir
  · exact isDir
  · exact size
  · exact size
  · exact mtime
  · exact mtime
  · exact etag
  · exact etag

theorem toEntry_eq (represents : Represents idx T) (described : Described T describe) {id : Id} {c : ChildInfo}
    (member : c ∈ childInfos idx id) : toEntry path (toItem (describe c.id)) = entryFromInfo path c false := by
  obtain ⟨_, found⟩ := (mem_childInfos represents.rep.sound).mp member
  obtain ⟨_, link⟩ := represents.link_inner.mp (link_of_mem_childInfos represents.rep member)
  obtain ⟨node, inTree, parent, sameName⟩ := NodeTree.links_eq_some_iff.mp link
  obtain ⟨isDir, size, mtime, etag, name⟩ := described.reads inTree
  have same := (represents.stored found).2
  rw [inTree] at same
  have itemMeta : node.itemMeta = ⟨c.isDir, c.size, c.mtime, c.etag⟩ := by
    rw [Option.some.inj same, eraseTop_itemMeta]
    rfl
  rw [itemMeta] at isDir size mtime etag
  have sameName : (toItem (describe c.id)).name = c.name := (name (by rw [parent]; simp)).trans sameName
  have href := href_toEntry path (toItem (describe c.id)) c sameName.symm
  unfold toEntry entryFromInfo at href ⊢
  simp only at href isDir size mtime etag ⊢
  rw [href, isDir, size, mtime, etag]

theorem answer_of_trail (represents : Represents idx T) (depthLe : T.DepthLe 63) {id : Id}
    (trail : Trail T.links id (segments path)) :
    ∃ node, idx.nodes[id]? = some node ∧ idx.resolve path = some id ∧
      answer idx path = some (if node.itemMeta.isDir then .dir (infoOf id node) (childInfos idx id)
        else .file (infoOf id node)) := by
  have own : Trail idx.links id (segments path) := represents.trail_down trail fun _ _ => True.intro
  have resolves := (Index.resolve_eq_some_iff represents.rep).mpr own
  obtain ⟨_, link⟩ := own.exists_link
  obtain ⟨node, found, _⟩ := Option.map_eq_some_iff.mp link
  have short := depthLe trail
  refine ⟨node, found, resolves, ?_⟩
  have below : (segments path).length < 64 := by omega
  have within : (segments path).length ≤ 64 := by omega
  cases kind : node.itemMeta.isDir <;> simp [answer, resolves, found, kind, below, within]

theorem answer_none_iff (represents : Represents idx T) (depthLe : T.DepthLe 63) :
    answer idx path = none ↔ ¬ ∃ id, Trail T.links id (segments path) := by
  constructor
  · rintro nothing ⟨id, trail⟩
    obtain ⟨_, _, _, answered⟩ := answer_of_trail represents depthLe trail
    rw [nothing] at answered
    cases answered
  · intro absent
    cases resolves : idx.resolve path with
    | none => simp [answer, resolves]
    | some id =>
      have trail := represents.trail_up ((Index.resolve_eq_some_iff represents.rep).mp resolves)
      exact absurd ⟨id, trail⟩ absent

theorem children_perm (represents : Represents idx T) (described : Described T describe) {id : Id} {ids : List Id}
    (nodup : ids.Nodup) (all : ∀ c, c ∈ ids ↔ Child T.links id c) :
    ((childInfos idx id).map (entryFromInfo path · false)).Perm
      ((ids.map describe).map fun item => toEntry path (toItem item)) := by
  have same : ((childInfos idx id).map ChildInfo.id).Perm ids := by
    refine (List.perm_ext_iff_of_nodup (ids_childInfos_nodup represents.rep.sound id) nodup).mpr fun c => ?_
    rw [all, List.mem_map]
    constructor
    · rintro ⟨info, member, rfl⟩
      exact ⟨_, (represents.link_inner.mp (link_of_mem_childInfos represents.rep member)).2⟩
    · rintro ⟨name, link⟩
      have own := represents.link_inner.mpr ⟨True.intro, link⟩
      obtain ⟨child, present, _⟩ := Index.links_eq_some_iff.mp own
      exact ⟨_, (infoOf_mem_childInfos represents.rep own present).1, rfl⟩
  have entries : (childInfos idx id).map (entryFromInfo path · false) =
      ((childInfos idx id).map ChildInfo.id).map fun c => toEntry path (toItem (describe c)) := by
    rw [List.map_map]
    exact List.map_congr_left fun c member => (toEntry_eq represents described member).symm
  have live : (ids.map describe).map (fun item => toEntry path (toItem item)) =
      ids.map fun c => toEntry path (toItem (describe c)) := List.map_map
  rw [entries, live]
  exact same.map _

end Described

/-! ## Both ways of answering -/

section Agreement
variable (token : Auth.TokenJson) (json : GraphJson) (env : Environment) (config : Config)

/-- Graph answers for the path as the drive is: the item of the node, and then the children of a
folder, each once, on at most as many pages as the listing may have. -/
structure Reflects (T : DriveTree) (describe : Id → DriveItem) (path : String) (world : World) : Prop where
  stat : ∀ id, Trail T.links id (segments path) →
    ∃ body, Replies token env config world (v1 (itemPathSegment config.driveBase path)) body ∧
      json.driveItem body = .ok (describe id)
  children : ∀ id node, Trail T.links id (segments path) → T.nodes[id]? = some node → node.itemMeta.isDir = true →
    ∃ (pages : List DriveItemPage) (ids : List Id), pages.length ≤ maxChildrenPages ∧ ids.Nodup ∧
      (∀ c, c ∈ ids ↔ Child T.links id c) ∧ pages.flatMap DriveItemPage.value = ids.map describe ∧
      Pages token json env config (v1 (itemPathSegment config.driveBase path ++ "/children?$top=200"))
        ((get token env config (v1 (itemPathSegment config.driveBase path))).after world) pages

variable {token} {json} {env} {config}

theorem outcome_children {T : DriveTree} {describe : Id → DriveItem} {path : String} {world : World} {id : Id} {node : Node}
    (reflects : Reflects token json env config T describe path world) (trail : Trail T.links id (segments path))
    (found : T.nodes[id]? = some node) (isDir : node.itemMeta.isDir = true) :
    ∃ ids : List Id, ids.Nodup ∧ (∀ c, c ∈ ids ↔ Child T.links id c) ∧
      (children token json env config path).outcome ((stat token json env config path).after world) =
        .ok ((ids.map describe).map toItem) := by
  obtain ⟨body, replies, read⟩ := reflects.stat id trail
  obtain ⟨pages, ids, few, nodup, all, items, chain⟩ := reflects.children id node trail found isDir
  refine ⟨ids, nodup, all, ?_⟩
  rw [after_stat replies read]
  refine children_returns_iff.mpr ⟨pages, chain, few, ?_⟩
  rw [← items, List.map_flatMap]

/-- Where the path exists, the snapshot answers with the entries that Graph would be asked for, up
to the order of the children; it does not answer exactly where the path does not exist. -/
theorem propfind_agrees {metaJson : MetaJson} (roundTrips : metaJson.RoundTrips) (T : DriveTree) (idx : Index)
    (world : World) (bytes : Bytes) (path : String) (depth : Option String) (describe : Id → DriveItem)
    (depthLe : T.DepthLe 63) (folders : T.FoldersOnly) (represents : Represents idx T)
    (held : world.files indexFile = some bytes) (saves : Saves metaJson idx bytes)
    (described : Described T describe) (canonical : normalizePath path = path)
    (reflects : Reflects token json env config T describe path world) :
    (∀ id, Trail T.links id (segments path) → ∃ self indexed live,
      propfindFromIndex (wasm32 metaJson) true world.files.host path depth = .ok (some (self :: indexed)) ∧
      (propfindLive token json env config path depth).outcome world = .ok (.multistatus (self :: live)) ∧
      indexed.Perm live) ∧
    (propfindFromIndex (wasm32 metaJson) true world.files.host path depth = .ok none ↔
      ¬ ∃ id, Trail T.links id (segments path)) := by
  have storable := storable_of_holds represents folders
  have served := propfind_eq roundTrips held saves storable path depth
  rw [served]
  constructor
  · intro id trail
    obtain ⟨node, found, _, answered⟩ := answer_of_trail represents depthLe trail
    obtain ⟨body, replies, read⟩ := reflects.stat id trail
    have stats := outcome_stat replies read
    have self := selfEntry_eq represents described canonical trail found
    have inTree := (represents.stored found).2
    obtain ⟨isDir, _⟩ := described.reads inTree
    rw [eraseTop_itemMeta] at isDir
    rw [answered]
    -- Graph is asked for children only where the item is a folder and the depth is not 0
    cases kind : node.itemMeta.isDir with
    | false =>
      have shallow : ¬ ((toItem (describe id)).isDir = true ∧ depth ≠ some "0") := by
        rw [isDir, kind]
        simp
      refine ⟨entryFromInfo path (infoOf id node) true, [], [], rfl, ?_, List.Perm.refl _⟩
      rw [outcome_propfindLive_self stats shallow, self]
    | true =>
      by_cases deep : depth ≠ some "0"
      · have treeKind : node.eraseTop.itemMeta.isDir = true := by rw [eraseTop_itemMeta, kind]
        obtain ⟨ids, nodup, all, lists⟩ := outcome_children reflects trail inTree treeKind
        refine ⟨entryFromInfo path (infoOf id node) true, (childInfos idx id).map (entryFromInfo path · false), _, ?_,
          ?_, children_perm represents described nodup all⟩
        · simp only [if_true, Option.map_some, entriesOf, if_pos deep]
        · rw [outcome_propfindLive_dir stats lists (isDir.trans kind) deep, self, List.map_map]
          rfl
      · have shallow : ¬ ((toItem (describe id)).isDir = true ∧ depth ≠ some "0") := fun both => deep both.2
        refine ⟨entryFromInfo path (infoOf id node) true, [], [], ?_, ?_, List.Perm.refl _⟩
        · simp only [if_true, Option.map_some, entriesOf, if_neg deep]
        · rw [outcome_propfindLive_self stats shallow, self]
  · rw [← answer_none_iff represents depthLe]
    simp

end Agreement

/-! ## A folder with one file -/

def foldersABItem : Id → DriveItem
  | "a" => ⟨"a", "A", 0, true, none, none, none, some "r", false, false, false⟩
  | "b" => ⟨"b", "B", 0, true, none, none, none, some "r", false, false, false⟩
  | "f" => ⟨"f", "f.txt", 1, false, none, none, some "text/plain", some "b", false, false, false⟩
  | _ => ⟨"r", "root", 0, true, none, none, none, none, false, true, false⟩

def itemText : Bytes :=
  utf8 "\x7b\"id\":\"b\",\"name\":\"B\",\"folder\":\x7b\x7d,\"parentReference\":\x7b\"id\":\"r\"\x7d\x7d"

def pageText : Bytes :=
  utf8 ("\x7b\"value\":[\x7b\"id\":\"f\",\"name\":\"f.txt\",\"size\":1," ++
    "\"file\":\x7b\"mimeType\":\"text/plain\"\x7d,\"parentReference\":\x7b\"id\":\"b\"\x7d\x7d]\x7d")

def folderJson : GraphJson where
  driveItem body := if body = itemText then .ok (foldersABItem "b") else .error "expected value"
  driveItemPage body := if body = pageText then .ok ⟨[foldersABItem "f"], none⟩ else .error "expected value"
  deltaPage _ := .error "expected value"
  errorCode _ := none
  uploadUrl _ := .error "expected value"

def folderEnvironment : Environment where
  answer requests :=
    match requests.getLast?.map OutgoingRequest.pathWithQuery with
    | some "/v1.0/me/drive/root:/B:" => .ok ⟨200, [], itemText⟩
    | some "/v1.0/me/drive/root:/B:/children?$top=200" => .ok ⟨200, [], pageText⟩
    | _ => .ok ⟨404, [], []⟩
  clock _ := 1000
  disk _ := Auth.soundDisk

def folderSnapshot : Bytes :=
  match encode (wasm32 metaText) (Index.ofTree foldersAB).nodes.keys 7 (Index.ofTree foldersAB) with
  | .ok bytes => bytes
  | .error _ => []

def freshTokenText : Bytes :=
  utf8 (Library.Json.pretty (.object (Auth.tokenMembers ⟨"r", some "a", 2000⟩)))

def folderWorld : World where
  files name :=
    if name = Auth.tokenFile then some freshTokenText
    else if name = indexFile then some folderSnapshot
    else none
  sent := []
  readings := 0
  writes := 0

theorem foldersABItem_described : Described foldersAB foldersABItem := by
  have checked : ∀ entry ∈ foldersAB.nodes.toList, ∃ it ∈ toDeltaItem (foldersABItem entry.1),
      it.id = entry.1 ∧ foldersAB.Tells it := by decide
  refine ⟨fun {id} {node} found => ?_, by decide⟩
  obtain ⟨it, read, own, tells⟩ := checked (id, node) (ExtTreeMap.mem_toList_iff_getElem?_eq_some.mpr found)
  exact ⟨it, read, own, tells⟩

theorem child_b_iff (c : Id) : c ∈ ["f"] ↔ Child foldersAB.links "b" c := by
  have checked : ∀ entry ∈ foldersAB.nodes.toList, entry.2.parent = some "b" → entry.1 ∈ ["f"] := by decide
  constructor
  · intro member
    cases List.mem_singleton.mp member
    exact ⟨"f.txt", by decide⟩
  · rintro ⟨name, link⟩
    obtain ⟨node, found, parent, _⟩ := NodeTree.links_eq_some_iff.mp link
    exact checked (c, node) (ExtTreeMap.mem_toList_iff_getElem?_eq_some.mpr found) parent

theorem only_b (id : Id) (trail : Trail foldersAB.links id (segments "/B")) : id = "b" := by
  have resolves := ((represents_ofTree foldersAB).resolve_iff "/B" id).mpr trail
  have found : (Index.ofTree foldersAB).resolve "/B" = some "b" := by decide
  exact Option.some.inj (resolves.symm.trans found)

theorem saves_folderSnapshot : Saves metaText (Index.ofTree foldersAB) folderSnapshot := by
  have encoded : encode (wasm32 metaText) (Index.ofTree foldersAB).nodes.keys 7 (Index.ofTree foldersAB) =
      .ok folderSnapshot := by decide +kernel
  exact ⟨_, 7, enumerates_keys _, encoded⟩

theorem reflects_folder :
    Reflects Auth.tokenText folderJson folderEnvironment Auth.someConfig foldersAB foldersABItem "/B" folderWorld where
  stat := by
    intro id trail
    cases only_b id trail
    have given : (get Auth.tokenText folderEnvironment Auth.someConfig
        (v1 (itemPathSegment Auth.someConfig.driveBase "/B"))).outcome folderWorld = .ok ⟨200, [], itemText⟩ := by
      rw [Auth.tokenText_eq_asciiTokens]
      decide +kernel
    exact ⟨itemText, ⟨_, given, rfl, rfl⟩, by decide⟩
  children := by
    intro id node trail _ _
    cases only_b id trail
    have replies : Replies Auth.tokenText folderEnvironment Auth.someConfig
        ((get Auth.tokenText folderEnvironment Auth.someConfig
          (v1 (itemPathSegment Auth.someConfig.driveBase "/B"))).after folderWorld)
        (v1 (itemPathSegment Auth.someConfig.driveBase "/B" ++ "/children?$top=200")) pageText := by
      rw [Auth.tokenText_eq_asciiTokens]
      exact ⟨⟨200, [], pageText⟩, by decide +kernel, rfl, rfl⟩
    obtain ⟨response, answered, status, body⟩ := replies
    exact ⟨[⟨[foldersABItem "f"], none⟩], ["f"], by decide, by decide, child_b_iff, rfl,
      .last ⟨response, answered, status, body ▸ by decide⟩ rfl⟩

theorem propfind_agrees_folder :
    (∀ id, Trail foldersAB.links id (segments "/B") → ∃ self indexed live,
      propfindFromIndex (wasm32 metaText) true folderWorld.files.host "/B" (some "1") =
        .ok (some (self :: indexed)) ∧
      (propfindLive Auth.tokenText folderJson folderEnvironment Auth.someConfig "/B" (some "1")).outcome folderWorld =
        .ok (.multistatus (self :: live)) ∧ indexed.Perm live) ∧
    (propfindFromIndex (wasm32 metaText) true folderWorld.files.host "/B" (some "1") = .ok none ↔
      ¬ ∃ id, Trail foldersAB.links id (segments "/B")) :=
  propfind_agrees metaText_roundTrips foldersAB (Index.ofTree foldersAB) folderWorld folderSnapshot "/B" (some "1")
    foldersABItem (NodeTree.depthLe_of_climb (by decide)) (NodeTree.foldersOnly_of_list (by decide))
    (represents_ofTree foldersAB) rfl saves_folderSnapshot foldersABItem_described (by decide) reflects_folder

end Dav

end OneDriveDavfs
