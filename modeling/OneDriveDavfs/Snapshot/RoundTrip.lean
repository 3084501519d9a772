import Mathlib.Data.Set.Card
import OneDriveDavfs.Index.Delta
import OneDriveDavfs.Snapshot.MetaText

/-! Decoding an encoded index.

Parents are not stored. `decode` first puts every directory and every child
where its block is, then looks up each directory's parent by its path. The
paths are distinct and each parent's path is a row, so both steps agree with
the links of the index that was encoded, as far as these are in the file: down
to the children of the directories whose paths have fewer than 64 names.
-/

set_option autoImplicit false

namespace OneDriveDavfs

open Std Library.Collections Library.Forest Library.Wire

namespace Snapshot

/-! ## The parsers find what was encoded -/

section Parsing
variable {P : Platform} {idx : Index} {dirs : List DirEntry} {now : UInt64} {bytes : Bytes} {header : Header}
  {rows : List DirRow}

theorem Encoded.offsets (encoded : Encoded P idx dirs now bytes header rows) :
    P.usize header.dirTableOff.toNat = header.dirTableOff.toNat ∧
      P.usize header.metaOff.toNat = header.dirTableOff.toNat + (rows.flatMap rowBytes).length ∧
      header.dirTableOff.toNat + (rows.flatMap rowBytes).length ≤ bytes.length := by
  obtain ⟨tail, table⟩ := encoded.table
  have bound := table.le_length
  have small := encoded.small
  rw [encoded.tableEnd]
  exact ⟨Platform.usize_of_lt (by omega), Platform.usize_of_lt (by omega), bound⟩

theorem Encoded.parsedHeader (encoded : Encoded P idx dirs now bytes header rows) :
    parseHeader P bytes = .ok header := by
  obtain ⟨tableOff, metaOff, bound⟩ := encoded.offsets
  obtain ⟨rest, whole⟩ := encoded.head
  have length : bytes.length = headerLen + rest.length := by simp [whole]
  rw [whole]
  refine parseHeader_complete fun _ => ?_
  rw [tableOff, metaOff]
  omega

theorem Encoded.parsedTable (encoded : Encoded P idx dirs now bytes header rows) :
    parseDirTable P (rows.flatMap rowBytes) header.dirCount = .ok rows := by
  obtain ⟨_, _, bound⟩ := encoded.offsets
  have small := encoded.small
  rw [parseDirTable, encoded.count]
  exact readDirRows_complete (by omega) encoded.shortRows (Stands.start _)

theorem Encoded.parsedBlock (encoded : Encoded P idx dirs now bytes header rows) {dir : DirEntry} {row : DirRow}
    (member : dir ∈ dirs) (rowOf : RowOf bytes idx dir row) :
    parseChildBlock P bytes row.blockOff row.blockLen = .ok (childInfos idx dir.id) := by
  obtain ⟨tail, stands⟩ := rowOf.block
  exact parseChildBlock_complete encoded.small (encoded.shortChildren dir member) stands rowOf.length

end Parsing

/-! ## Decoding in terms of the directories -/

def DirEntry.row (dir : DirEntry) : DirRow :=
  ⟨dir.path, 0, 0, dir.id, dir.node.itemMeta.size, dir.node.itemMeta.mtime, dir.node.itemMeta.etag⟩

theorem RowOf.addRow_eq {bytes : Bytes} {idx : Index} {dir : DirEntry} {row : DirRow} (rowOf : RowOf bytes idx dir row)
    (acc : Index) (children : List ChildInfo) : addRow acc row children = addRow acc dir.row children := by
  simp only [addRow, DirRow.node, DirEntry.row, rowOf.path, rowOf.id, rowOf.size, rowOf.mtime, rowOf.etag]

theorem RowOf.linkRow_eq {bytes : Bytes} {idx : Index} {dir : DirEntry} {row : DirRow} (rowOf : RowOf bytes idx dir row)
    (pathToId : ExtTreeMap String Id) (acc : Index) : linkRow pathToId acc row = linkRow pathToId acc dir.row := by
  simp only [linkRow, DirEntry.row, rowOf.path, rowOf.id]
  rfl

/-- The index after the first loop of `decode`. -/
def placed (idx : Index) (dirs : List DirEntry) : Index :=
  dirs.foldl (fun acc dir => addRow acc dir.row (childInfos idx dir.id))
    ⟨∅, ∅, idx.root, idx.deltaToken, idx.pendingNextLink, idx.crawlComplete, idx.generation⟩

def pathIds (dirs : List DirEntry) : ExtTreeMap String Id :=
  insertAll ∅ (dirs.map fun dir => (dir.path, dir.id))

def restored (idx : Index) (dirs : List DirEntry) : Index :=
  dirs.foldl (fun acc dir => linkRow (pathIds dirs) acc dir.row) (placed idx dirs)

section Loops
variable {P : Platform} {idx : Index} {bytes : Bytes} {dirs : List DirEntry} {rows : List DirRow}

theorem foldl_pathIds (listed : List.Forall₂ (RowOf bytes idx) dirs rows) (map : ExtTreeMap String Id) :
    rows.foldl (fun map row => map.insert row.path row.id) map =
      insertAll map (dirs.map fun dir => (dir.path, dir.id)) := by
  induction listed generalizing map with
  | nil => rfl
  | cons rowOf _ ih =>
    rw [List.foldl_cons, rowOf.path, rowOf.id]
    exact ih _

theorem foldl_linkRow (listed : List.Forall₂ (RowOf bytes idx) dirs rows) (pathToId : ExtTreeMap String Id)
    (acc : Index) : rows.foldl (linkRow pathToId) acc =
      dirs.foldl (fun acc dir => linkRow pathToId acc dir.row) acc := by
  induction listed generalizing acc with
  | nil => rfl
  | cons rowOf _ ih =>
    rw [List.foldl_cons, rowOf.linkRow_eq]
    exact ih _

theorem foldlM_addRow (listed : List.Forall₂ (RowOf bytes idx) dirs rows)
    (blocks : ∀ dir ∈ dirs, ∀ row, RowOf bytes idx dir row →
      parseChildBlock P bytes row.blockOff row.blockLen = .ok (childInfos idx dir.id)) (acc : Index) :
    (rows.foldlM (fun acc row => do
      let children ← parseChildBlock P bytes row.blockOff row.blockLen
      return addRow acc row children) acc : Result Index) =
      .ok (dirs.foldl (fun acc dir => addRow acc dir.row (childInfos idx dir.id)) acc) := by
  induction listed generalizing acc with
  | nil => rfl
  | cons rowOf _ ih =>
    rw [List.foldlM_cons, blocks _ List.mem_cons_self _ rowOf]
    simp only [Result.ok_bind, List.foldl_cons, rowOf.addRow_eq]
    exact ih (fun dir member => blocks dir (List.mem_cons_of_mem _ member)) _

end Loops

theorem decode_eq_restored {P : Platform} {idx : Index} {dirs : List DirEntry} {now : UInt64} {bytes : Bytes}
    {header : Header} {rows : List DirRow} (encoded : Encoded P idx dirs now bytes header rows) :
    decode P bytes = .ok (restored idx dirs) := by
  obtain ⟨tableOff, metaOff, _⟩ := encoded.offsets
  obtain ⟨tail, table⟩ := encoded.table
  have blocks : ∀ dir ∈ dirs, ∀ row, RowOf bytes idx dir row →
      parseChildBlock P bytes row.blockOff row.blockLen = .ok (childInfos idx dir.id) :=
    fun dir member row rowOf => encoded.parsedBlock member rowOf
  rw [decode, encoded.parsedHeader, Result.ok_bind, encoded.readMeta, Result.ok_bind, tableOff, metaOff,
    sliceOf_stands table, Result.ok_bind, encoded.parsedTable, Result.ok_bind]
  dsimp only
  rw [foldlM_addRow encoded.listed blocks, Result.ok_bind, foldl_linkRow encoded.listed,
    foldl_pathIds encoded.listed]
  rfl

/-! ## Which directories have a row -/

/-- `order` lists the ids of the node map, each once. -/
structure Enumerates (order : List Id) (idx : Index) : Prop where
  once : order.Nodup
  all : ∀ {id}, id ∈ order ↔ (idx.nodes[id]?).isSome = true

/-- Trees of directories and files with names that can stand in a path. -/
structure Storable (idx : Index) : Prop where
  rep : idx.RepInv
  clean : ∀ {id p name}, idx.links id = some (some p, name) → CleanName name
  rootDir : ∀ {r : Id} {node : Node}, idx.root = some r → idx.nodes[r]? = some node → node.itemMeta.isDir = true
  folders : ∀ {p c : Id} {node : Node}, idx.KidOf p c → idx.nodes[p]? = some node → node.itemMeta.isDir = true

theorem enumerates_keys (idx : Index) : Enumerates idx.nodes.keys idx where
  once := by
    refine (ExtTreeMap.distinct_keys (t := idx.nodes)).imp fun differ same => ?_
    exact differ (by rw [same]; exact ReflCmp.compare_self)
  all := by
    intro id
    rw [ExtTreeMap.mem_keys, ExtTreeMap.mem_iff_isSome_getElem?]

theorem storable_of_holds {idx : Index} {T : DriveTree} {part : Id → Prop} (holds : Holds idx T part)
    (foldersOnly : T.FoldersOnly) : Storable idx where
  rep := holds.rep
  clean := by
    intro id p name link
    obtain ⟨node, found, parent, rfl⟩ := NodeTree.links_eq_some_iff.mp (holds.link_inner.mp link).2
    exact T.clean found (by simp [parent])
  rootDir := by
    intro r node recorded found
    obtain ⟨_, rfl⟩ := holds.root_iff.mp recorded
    rw [← eraseTop_itemMeta]
    exact foldersOnly.1 (holds.stored found).2
  folders := by
    intro p c node kid found
    obtain ⟨name, member⟩ := kid
    obtain ⟨child, inTree, parent, _⟩ := NodeTree.links_eq_some_iff.mp
      (holds.link_inner.mp (holds.rep.sound member)).2
    rw [← eraseTop_itemMeta]
    exact foldersOnly.2 inTree parent (holds.stored found).2

/-- Nodes whose paths tell them apart. -/
structure Addressable (idx : Index) : Prop where
  rep : idx.RepInv
  clean : ∀ {id p name}, idx.links id = some (some p, name) → CleanName name

theorem Storable.addressable {idx : Index} (storable : Storable idx) : Addressable idx :=
  ⟨storable.rep, storable.clean⟩

theorem Addressable.cleanTrail {idx : Index} (addressable : Addressable idx) {id : Id} {segs : List String}
    (trail : Trail idx.links id segs) : ∀ name ∈ segs, CleanName name := by
  induction trail with
  | top _ => simp
  | step link _ ih =>
    intro name member
    rcases List.mem_append.mp member with above | last
    · exact ih name above
    · rw [List.mem_singleton.mp last]
      exact addressable.clean link

theorem Storable.cleanTrail {idx : Index} (storable : Storable idx) {id : Id} {segs : List String}
    (trail : Trail idx.links id segs) : ∀ name ∈ segs, CleanName name :=
  storable.addressable.cleanTrail trail

/-- `dirs` are the directories with a path, each once. -/
structure DirList (idx : Index) (dirs : List DirEntry) : Prop where
  once : (dirs.map DirEntry.id).Nodup
  all : ∀ {dir : DirEntry}, dir ∈ dirs ↔ idx.pathOf dir.id = some dir.path ∧
    idx.nodes[dir.id]? = some dir.node ∧ (dir.node.itemMeta.isDir = true ∨ idx.root = some dir.id)

theorem mem_dirEntries {idx : Index} {order : List Id} {dir : DirEntry} :
    dir ∈ dirEntries idx order ↔ dir.id ∈ order ∧ idx.pathOf dir.id = some dir.path ∧
      idx.nodes[dir.id]? = some dir.node ∧ (dir.node.itemMeta.isDir = true ∨ idx.root = some dir.id) := by
  obtain ⟨id, path, node⟩ := dir
  simp only [dirEntries, List.mem_filterMap, Option.bind_eq_bind, Option.bind_eq_some_iff,
    Option.ite_none_right_eq_some, Option.some.injEq, Bool.or_eq_true, beq_iff_eq]
  constructor
  · rintro ⟨x, member, p, path, n, found, kind, same⟩
    cases same
    exact ⟨member, path, found, kind⟩
  · rintro ⟨member, path, found, kind⟩
    exact ⟨id, member, _, path, _, found, kind, rfl⟩

theorem ids_dirEntries (idx : Index) (order : List Id) :
    ((dirEntries idx order).map DirEntry.id).Sublist order := by
  induction order with
  | nil => exact .slnil
  | cons id rest ih =>
    rw [dirEntries, List.filterMap_cons]
    split
    · exact ih.cons id
    · rename_i dir found
      have same : dir.id = id := by
        simp only [Option.bind_eq_bind, Option.bind_eq_some_iff, Option.ite_none_right_eq_some,
          Option.some.injEq] at found
        obtain ⟨_, _, _, _, _, rfl⟩ := found
        rfl
      rw [List.map_cons, same]
      exact ih.cons_cons id

theorem dirList_sortedDirs {idx : Index} {order : List Id} (enumerates : Enumerates order idx) :
    DirList idx (sortedDirs idx order) := by
  have perm := List.perm_insertionSort (fun a b : DirEntry => a.path ≤ b.path) (dirEntries idx order)
  refine ⟨(perm.map DirEntry.id).nodup_iff.mpr (enumerates.once.sublist (ids_dirEntries idx order)), ?_⟩
  intro dir
  rw [sortedDirs, perm.mem_iff, mem_dirEntries, and_iff_right_iff_imp]
  rintro ⟨_, found, _⟩
  exact enumerates.all.mpr (by simp [found])

section Rows
variable {idx : Index} {dirs : List DirEntry}

theorem DirList.exists_dir (list : DirList idx dirs) {id : Id} {segs : List String} {node : Node}
    (trail : Trail idx.links id segs) (shallow : segs.length < 64) (found : idx.nodes[id]? = some node)
    (kind : node.itemMeta.isDir = true ∨ idx.root = some id) : ⟨id, joinPath segs, node⟩ ∈ dirs :=
  list.all.mpr ⟨Index.pathOf_eq_some_iff.mpr ⟨segs, trail, shallow, rfl⟩, found, kind⟩

theorem DirList.trail (list : DirList idx dirs) {dir : DirEntry} (member : dir ∈ dirs) :
    ∃ segs, Trail idx.links dir.id segs ∧ segs.length < 64 ∧ dir.path = joinPath segs :=
  Index.pathOf_eq_some_iff.mp (list.all.mp member).1

theorem DirList.isDir (list : DirList idx dirs) (storable : Storable idx) {dir : DirEntry}
    (member : dir ∈ dirs) : dir.node.itemMeta.isDir = true := by
  obtain ⟨_, found, isDir | top⟩ := list.all.mp member
  · exact isDir
  · exact storable.rootDir top found

theorem DirList.eq_of_id (list : DirList idx dirs) {a b : DirEntry} (left : a ∈ dirs) (right : b ∈ dirs)
    (same : a.id = b.id) : a = b := List.inj_on_of_nodup_map list.once left right same

theorem DirList.id_of_path (list : DirList idx dirs) (addressable : Addressable idx) {dir : DirEntry}
    (member : dir ∈ dirs) {x : Id} {segs : List String} (trail : Trail idx.links x segs)
    (path : dir.path = joinPath segs) : dir.id = x := by
  obtain ⟨own, ownTrail, _, ownPath⟩ := list.trail member
  have equal := joinPath_injective (addressable.cleanTrail ownTrail) (addressable.cleanTrail trail)
    (ownPath.symm.trans path)
  exact (equal ▸ ownTrail).injective addressable.rep.siblingsDiffer addressable.rep.singleTop trail

theorem DirList.paths_nodup (list : DirList idx dirs) (addressable : Addressable idx) :
    (dirs.map DirEntry.path).Nodup := by
  refine List.Nodup.map_on ?_ (List.Nodup.of_map _ list.once)
  intro a left b right same
  obtain ⟨segs, trail, _, path⟩ := list.trail right
  exact list.eq_of_id left right (list.id_of_path addressable left trail (same.trans path))

theorem mem_childInfos (sound : idx.KidsSound) {p : Id} {c : ChildInfo} :
    c ∈ childInfos idx p ↔ (c.name, c.id) ∈ idx.kidsOf p ∧
      idx.nodes[c.id]? = some (ChildInfo.node p c) := by
  obtain ⟨name, isDir, size, mtime, etag, id⟩ := c
  simp only [childInfos, List.mem_filterMap, Option.map_eq_some_iff, ChildInfo.mk.injEq, Prod.exists,
    ExtTreeSet.mem_toList, ChildInfo.node]
  constructor
  · rintro ⟨n, i, member, node, found, rfl, rfl, rfl, rfl, rfl, rfl⟩
    obtain ⟨other, present, parent, label⟩ := Index.KidsSound.present sound member
    cases found.symm.trans present
    refine ⟨member, ?_⟩
    rw [found]
    cases node
    simp_all
  · rintro ⟨member, found⟩
    exact ⟨name, id, member, _, found, rfl, rfl, rfl, rfl, rfl, rfl⟩

end Rows

/-! ## The first loop -/

/-- Everything the first loop inserts into the node map. -/
def entries (idx : Index) (dirs : List DirEntry) : List (Id × Node) :=
  dirs.flatMap fun dir => (dir.id, DirRow.node dir.row) ::
    (childInfos idx dir.id).map fun c => (c.id, ChildInfo.node dir.id c)

def childSet (idx : Index) (id : Id) : KidSet :=
  (childInfos idx id).foldl (fun set c => set.insert (c.name, c.id)) ∅

section Loop
variable {idx : Index} {dirs : List DirEntry}

theorem foldl_addRow_nodes (acc : Index) :
    (dirs.foldl (fun acc dir => addRow acc dir.row (childInfos idx dir.id)) acc).nodes =
      insertAll acc.nodes (entries idx dirs) := by
  induction dirs generalizing acc with
  | nil => rfl
  | cons dir rest ih =>
    rw [List.foldl_cons, ih, entries, entries, List.flatMap_cons, insertAll, insertAll, List.foldl_append,
      List.foldl_cons, List.foldl_map]
    rfl

theorem foldl_addRow_kids (acc : Index) :
    (dirs.foldl (fun acc dir => addRow acc dir.row (childInfos idx dir.id)) acc).kids =
      insertAll acc.kids (dirs.map fun dir => (dir.id, childSet idx dir.id)) := by
  induction dirs generalizing acc with
  | nil => rfl
  | cons dir rest ih =>
    rw [List.foldl_cons, ih]
    rfl

theorem foldl_addRow_same (acc : Index) :
    (dirs.foldl (fun acc dir => addRow acc dir.row (childInfos idx dir.id)) acc).root = acc.root ∧
    (dirs.foldl (fun acc dir => addRow acc dir.row (childInfos idx dir.id)) acc).progress = acc.progress := by
  induction dirs generalizing acc with
  | nil => exact ⟨rfl, rfl⟩
  | cons dir rest ih => exact ih _

theorem mem_insertKids (children : List ChildInfo) (set : KidSet) {kid : String × Id} :
    kid ∈ children.foldl (fun set c => set.insert (c.name, c.id)) set ↔
      kid ∈ set ∨ ∃ c ∈ children, kid = (c.name, c.id) := by
  induction children generalizing set with
  | nil => simp
  | cons c rest ih =>
    rw [List.foldl_cons, ih, mem_insert_iff]
    simp only [List.mem_cons, exists_eq_or_imp]
    tauto

theorem childSet_eq (sound : idx.KidsSound) (id : Id) : childSet idx id = idx.kidsOf id := by
  apply ExtTreeSet.ext_mem
  intro kid
  rw [childSet, mem_insertKids]
  simp only [ExtTreeSet.not_mem_empty, false_or, mem_childInfos sound]
  constructor
  · rintro ⟨c, ⟨member, _⟩, rfl⟩
    exact member
  · intro member
    obtain ⟨node, found, parent, label⟩ := Index.KidsSound.present sound member
    refine ⟨⟨kid.1, node.itemMeta.isDir, node.itemMeta.size, node.itemMeta.mtime, node.itemMeta.etag, kid.2⟩,
      ⟨member, ?_⟩, rfl⟩
    rw [found]
    cases node
    simp_all [ChildInfo.node]

theorem mem_entries {x : Id} {node : Node} : (x, node) ∈ entries idx dirs ↔
    (∃ dir ∈ dirs, x = dir.id ∧ node = DirRow.node dir.row) ∨
      ∃ dir ∈ dirs, ∃ c ∈ childInfos idx dir.id, x = c.id ∧ node = ChildInfo.node dir.id c := by
  simp only [entries, List.mem_flatMap, List.mem_cons, Prod.mk.injEq, List.mem_map]
  constructor
  · rintro ⟨dir, member, ⟨rfl, rfl⟩ | ⟨c, child, rfl, rfl⟩⟩
    · exact .inl ⟨dir, member, rfl, rfl⟩
    · exact .inr ⟨dir, member, c, child, rfl, rfl⟩
  · rintro (⟨dir, member, rfl, rfl⟩ | ⟨dir, member, c, child, rfl, rfl⟩)
    · exact ⟨dir, member, .inl ⟨rfl, rfl⟩⟩
    · exact ⟨dir, member, .inr ⟨c, child, rfl, rfl⟩⟩

/-! ## The second loop -/

def relink (pathToId : ExtTreeMap String Id) (path : String) (node : Node) : Node :=
  if path = "/" then { node with parent := none, name := "" }
  else match pathToId[parentPath path]? with
    | none => node
    | some pid => { node with parent := some pid }

theorem linkRow_nodes (pathToId : ExtTreeMap String Id) (acc : Index) (dir : DirEntry) (x : Id) :
    (linkRow pathToId acc dir.row).nodes[x]? =
      if x = dir.id then (acc.nodes[x]?).map (relink pathToId dir.path) else acc.nodes[x]? := by
  unfold linkRow relink
  split
  · rename_i top
    have top : dir.path = "/" := top
    simp only [lookup_modify, top, if_true, DirEntry.row]
  · rename_i below
    have below : ¬ dir.path = "/" := below
    have same : dir.row.path = dir.path := rfl
    split
    · rename_i missing
      rw [same] at missing
      simp only [missing, if_neg below]
      split
      · exact Option.map_id'.symm
      · rfl
    · rename_i pid found
      rw [same] at found
      simp only [found, if_neg below, lookup_modify, DirEntry.row]

theorem linkRow_same (pathToId : ExtTreeMap String Id) (acc : Index) (dir : DirEntry) :
    (linkRow pathToId acc dir.row).kids = acc.kids ∧ (linkRow pathToId acc dir.row).progress = acc.progress ∧
      (acc.root ≠ none → (linkRow pathToId acc dir.row).root = acc.root) := by
  unfold linkRow
  split
  · refine ⟨rfl, rfl, fun recorded => ?_⟩
    exact if_neg (by simpa using recorded)
  · split <;> exact ⟨rfl, rfl, fun _ => rfl⟩

theorem foldl_linkRow_same (pathToId : ExtTreeMap String Id) (acc : Index) :
    (dirs.foldl (fun acc dir => linkRow pathToId acc dir.row) acc).kids = acc.kids ∧
    (dirs.foldl (fun acc dir => linkRow pathToId acc dir.row) acc).progress = acc.progress ∧
    ((dirs ≠ [] → acc.root ≠ none) →
      (dirs.foldl (fun acc dir => linkRow pathToId acc dir.row) acc).root = acc.root) := by
  induction dirs generalizing acc with
  | nil => exact ⟨rfl, rfl, fun _ => rfl⟩
  | cons dir rest ih =>
    obtain ⟨kids, progress, root⟩ := linkRow_same pathToId acc dir
    obtain ⟨kidsRest, progressRest, rootRest⟩ := ih (linkRow pathToId acc dir.row)
    refine ⟨kidsRest.trans kids, progressRest.trans progress, fun recorded => ?_⟩
    have recorded := recorded (by simp)
    exact (rootRest fun _ => (root recorded).symm ▸ recorded).trans (root recorded)

theorem foldl_linkRow_other (pathToId : ExtTreeMap String Id) (acc : Index) {x : Id}
    (absent : ∀ dir ∈ dirs, x ≠ dir.id) :
    (dirs.foldl (fun acc dir => linkRow pathToId acc dir.row) acc).nodes[x]? = acc.nodes[x]? := by
  induction dirs generalizing acc with
  | nil => rfl
  | cons dir rest ih =>
    rw [List.foldl_cons, ih _ fun d member => absent d (List.mem_cons_of_mem _ member), linkRow_nodes,
      if_neg (absent dir List.mem_cons_self)]

theorem foldl_linkRow_own (pathToId : ExtTreeMap String Id) (acc : Index) (once : (dirs.map DirEntry.id).Nodup)
    {dir : DirEntry} (member : dir ∈ dirs) :
    (dirs.foldl (fun acc dir => linkRow pathToId acc dir.row) acc).nodes[dir.id]? =
      (acc.nodes[dir.id]?).map (relink pathToId dir.path) := by
  induction dirs generalizing acc with
  | nil => cases member
  | cons first rest ih =>
    obtain ⟨fresh, once⟩ := List.nodup_cons.mp once
    rw [List.foldl_cons]
    rcases List.mem_cons.mp member with rfl | later
    · rw [foldl_linkRow_other, linkRow_nodes, if_pos rfl]
      intro other inRest same
      exact fresh (List.mem_map.mpr ⟨other, inRest, same.symm⟩)
    · have differs : dir.id ≠ first.id := fun same => fresh (List.mem_map.mpr ⟨dir, later, same⟩)
      rw [ih _ once later, linkRow_nodes, if_neg differs]

end Loop

/-! ## What comes back -/

/-- Near enough to the root to be in the file. -/
def Kept (idx : Index) (x : Id) : Prop := ∃ segs, Trail idx.links x segs ∧ segs.length ≤ 64

/-- `out` is what of `idx` is in the file; the name of the root is not. -/
structure Restored (idx out : Index) : Prop where
  nodes : ∀ {x}, Kept idx x → out.nodes[x]? = (idx.nodes[x]?).map Node.eraseTop
  dropped : ∀ {x}, ¬ Kept idx x → out.nodes[x]? = none
  kids : ∀ {p name c}, (name, c) ∈ out.kidsOf p ↔
    (name, c) ∈ idx.kidsOf p ∧ ∃ segs, Trail idx.links p segs ∧ segs.length < 64
  root : out.root = idx.root
  progress : out.progress = idx.progress

section Restore
variable {idx : Index} {dirs : List DirEntry}

theorem DirList.child (list : DirList idx dirs) (storable : Storable idx) {x : Id} {front : List String} {name : String}
    (trail : Trail idx.links x (front ++ [name])) (bound : (front ++ [name]).length ≤ 64) :
    ∃ dir ∈ dirs, dir.path = joinPath front ∧ Trail idx.links dir.id front ∧
      idx.links x = some (some dir.id, name) := by
  obtain ⟨p, link, upper⟩ := Trail.concat_iff.mp trail
  obtain ⟨_, present⟩ := upper.exists_link
  obtain ⟨node, found, _⟩ := Option.map_eq_some_iff.mp present
  have isDir := storable.folders ⟨name, storable.rep.filed link⟩ found
  have member := list.exists_dir upper (by simpa [Nat.lt_succ_iff] using bound) found (.inl isDir)
  exact ⟨_, member, rfl, upper, link⟩

theorem child_entry (rep : idx.RepInv) {dir : DirEntry} (member : dir ∈ dirs) {x : Id} {name : String}
    (link : idx.links x = some (some dir.id, name)) :
    ∃ node, idx.nodes[x]? = some node ∧ node.parent = some dir.id ∧ (x, node) ∈ entries idx dirs := by
  obtain ⟨node, found, parent, rfl⟩ := Index.links_eq_some_iff.mp link
  refine ⟨node, found, parent, mem_entries.mpr (.inr ⟨dir, member,
    ⟨node.name, node.itemMeta.isDir, node.itemMeta.size, node.itemMeta.mtime, node.itemMeta.etag, x⟩, ?_, rfl, ?_⟩)⟩
  · refine (mem_childInfos rep.sound).mpr ⟨rep.filed link, ?_⟩
    rw [found]
    cases node
    simp_all [ChildInfo.node]
  · cases node
    simp_all [ChildInfo.node]

/-- Whatever is inserted for an id has the name of its node, and its metadata if that is a directory. -/
theorem DirList.entry_name (list : DirList idx dirs) (addressable : Addressable idx) {x : Id} {n : Node}
    (entry : (x, n) ∈ entries idx dirs) :
    Kept idx x ∧ ∃ node, idx.nodes[x]? = some node ∧ n.name = node.eraseTop.name ∧
      (n.itemMeta = node.itemMeta ∨ ∃ dir ∈ dirs, x = dir.id ∧ n.itemMeta = { dir.node.itemMeta with isDir := true }) := by
  rcases mem_entries.mp entry with ⟨dir, member, rfl, rfl⟩ | ⟨dir, member, c, child, rfl, rfl⟩
  · obtain ⟨segs, trail, bound, path⟩ := list.trail member
    obtain ⟨_, found, _⟩ := list.all.mp member
    refine ⟨⟨segs, trail, by omega⟩, dir.node, found, ?_, .inr ⟨dir, member, rfl, rfl⟩⟩
    simp only [DirRow.node, DirEntry.row, path]
    cases trail with
    | top link =>
      obtain ⟨node, same, parent, _⟩ := Index.links_eq_some_iff.mp link
      cases found.symm.trans same
      simp only [Node.eraseTop, parent]
      decide
    | step link rest =>
      obtain ⟨node, same, parent, rfl⟩ := Index.links_eq_some_iff.mp link
      cases found.symm.trans same
      rw [lastSegment_joinPath (addressable.cleanTrail (.step link rest)), (eraseTop_eq_iff parent).mpr rfl]
  · obtain ⟨segs, trail, bound, _⟩ := list.trail member
    obtain ⟨entry, found⟩ := (mem_childInfos addressable.rep.sound).mp child
    have longer := Trail.step (addressable.rep.sound entry) trail
    refine ⟨⟨_, longer, by simpa [Nat.lt_succ_iff] using bound⟩, _, found, ?_, .inl rfl⟩
    rw [(eraseTop_eq_iff rfl).mpr rfl]

theorem DirList.entry_agrees (list : DirList idx dirs) (storable : Storable idx) {x : Id} {n : Node}
    (entry : (x, n) ∈ entries idx dirs) :
    Kept idx x ∧ ∃ node, idx.nodes[x]? = some node ∧ n.name = node.eraseTop.name ∧ n.itemMeta = node.itemMeta := by
  obtain ⟨kept, node, found, name, same | ⟨dir, member, rfl, same⟩⟩ := list.entry_name storable.addressable entry
  · exact ⟨kept, node, found, name, same⟩
  · refine ⟨kept, node, found, name, ?_⟩
    obtain ⟨_, present, _⟩ := list.all.mp member
    cases found.symm.trans present
    have isDir := list.isDir storable member
    rw [same, ← isDir]

theorem DirList.kept_entry (list : DirList idx dirs) (storable : Storable idx) {x : Id} (kept : Kept idx x) :
    ∃ n, (x, n) ∈ entries idx dirs := by
  obtain ⟨segs, trail, bound⟩ := kept
  cases trail with
  | top link =>
    obtain ⟨node, found, _⟩ := Index.links_eq_some_iff.mp link
    have member := list.exists_dir (.top link) (by simp) found (.inr (storable.rep.top link))
    exact ⟨_, mem_entries.mpr (.inl ⟨_, member, rfl, rfl⟩)⟩
  | step link rest =>
    obtain ⟨dir, member, _, _, own⟩ := list.child storable (.step link rest) bound
    obtain ⟨node, _, _, entry⟩ := child_entry storable.rep member own
    exact ⟨node, entry⟩

theorem DirList.pathIds_path (list : DirList idx dirs) (addressable : Addressable idx) {dir : DirEntry}
    (member : dir ∈ dirs) : (pathIds dirs)[dir.path]? = some dir.id := by
  refine lookup_insertAll_of_unique (List.mem_map.mpr ⟨dir, member, rfl⟩) ?_ (by simp)
  intro other listed
  obtain ⟨d, inDirs, same⟩ := List.mem_map.mp listed
  obtain ⟨samePath, rfl⟩ := Prod.mk.inj same
  obtain ⟨segs, trail, _, path⟩ := list.trail member
  exact list.id_of_path addressable inDirs trail (samePath.trans path)

theorem placed_nodes (x : Id) : (placed idx dirs).nodes[x]? =
    (insertAll (∅ : ExtTreeMap Id Node) (entries idx dirs))[x]? := by
  rw [placed, foldl_addRow_nodes]

theorem DirList.restored_row (list : DirList idx dirs) {dir : DirEntry} (member : dir ∈ dirs) :
    ∃ n, (dir.id, n) ∈ entries idx dirs ∧
      (restored idx dirs).nodes[dir.id]? = some (relink (pathIds dirs) dir.path n) := by
  have own : (dir.id, DirRow.node dir.row) ∈ entries idx dirs := mem_entries.mpr (.inl ⟨dir, member, rfl, rfl⟩)
  rw [restored, foldl_linkRow_own _ _ list.once member, placed_nodes]
  cases found : (insertAll (∅ : ExtTreeMap Id Node) (entries idx dirs))[dir.id]? with
  | none => exact absurd rfl ((lookup_insertAll_eq_none.mp found).1 _ own)
  | some n => exact ⟨n, (lookup_insertAll found).resolve_right (by simp), rfl⟩

theorem DirList.restored_dir (list : DirList idx dirs) (storable : Storable idx) {dir : DirEntry} (member : dir ∈ dirs) :
    (restored idx dirs).nodes[dir.id]? = some dir.node.eraseTop := by
  obtain ⟨segs, trail, bound, path⟩ := list.trail member
  obtain ⟨_, stored, _⟩ := list.all.mp member
  obtain ⟨n, listed, own⟩ := list.restored_row member
  obtain ⟨_, node, same, name, itemMeta⟩ := list.entry_agrees storable listed
  cases stored.symm.trans same
  rw [own, Option.some.injEq, relink, path]
  cases trail with
  | top link =>
    obtain ⟨other, same, parent, _⟩ := Index.links_eq_some_iff.mp link
    cases stored.symm.trans same
    rw [if_pos joinPath_nil]
    simp only [Node.eraseTop, parent, itemMeta]
  | step link rest =>
    obtain ⟨other, same, parent, rfl⟩ := Index.links_eq_some_iff.mp link
    cases stored.symm.trans same
    have clean := storable.cleanTrail (.step link rest)
    obtain ⟨up, inDirs, upPath, upTrail, upLink⟩ := list.child storable (.step link rest) (by omega)
    cases link.symm.trans upLink
    rw [if_neg (joinPath_ne_root clean (by simp)), parentPath_joinPath clean, ← upPath,
      list.pathIds_path storable.addressable inDirs]
    have erased := (eraseTop_eq_iff parent).mpr rfl
    rw [erased] at name ⊢
    cases node : dir.node
    simp_all

theorem kidsOf_restored (sound : idx.KidsSound) {p c : Id} {name : String} :
    (name, c) ∈ (restored idx dirs).kidsOf p ↔ (∃ dir ∈ dirs, dir.id = p) ∧ (name, c) ∈ idx.kidsOf p := by
  have kids : (restored idx dirs).kids = (placed idx dirs).kids := (foldl_linkRow_same _ _).1
  have sets : (restored idx dirs).kids[p]? =
      (insertAll (∅ : ExtTreeMap Id KidSet) (dirs.map fun dir => (dir.id, childSet idx dir.id)))[p]? := by
    rw [kids, placed, foldl_addRow_kids]
  by_cases row : ∃ dir ∈ dirs, dir.id = p
  · obtain ⟨dir, member, rfl⟩ := row
    have unique : ∀ {w}, (dir.id, w) ∈ dirs.map (fun dir => (dir.id, childSet idx dir.id)) →
        w = childSet idx dir.id := by
      intro w listed
      obtain ⟨other, _, same⟩ := List.mem_map.mp listed
      obtain ⟨sameId, rfl⟩ := Prod.mk.inj same
      rw [sameId]
    have listed : (dir.id, childSet idx dir.id) ∈ dirs.map fun dir => (dir.id, childSet idx dir.id) :=
      List.mem_map.mpr ⟨dir, member, rfl⟩
    have fresh : (∅ : ExtTreeMap Id KidSet)[dir.id]? = none := by simp
    have own := lookup_insertAll_of_unique listed unique fresh
    rw [Index.kidsOf, sets, own, Option.getD_some, childSet_eq sound]
    exact ⟨fun inSet => ⟨⟨dir, member, rfl⟩, inSet⟩, And.right⟩
  · -- without a row the id gets no set at all
    have none : (restored idx dirs).kids[p]? = none := by
      rw [sets, lookup_insertAll_eq_none]
      refine ⟨?_, by simp⟩
      intro e listed same
      obtain ⟨dir, member, rfl⟩ := List.mem_map.mp listed
      exact row ⟨dir, member, same⟩
    rw [Index.kidsOf, none]
    simp [row]

theorem DirList.root_restored (list : DirList idx dirs) (rep : idx.RepInv) : (restored idx dirs).root = idx.root := by
  have root : (placed idx dirs).root = idx.root := (foldl_addRow_same _).1
  refine ((foldl_linkRow_same _ _).2.2 fun nonempty => ?_).trans root
  rw [root]
  obtain ⟨dir, member⟩ := List.exists_mem_of_ne_nil dirs nonempty
  obtain ⟨segs, trail, _⟩ := list.trail member
  obtain ⟨top, up, _⟩ := trail.split [] segs rfl
  obtain ⟨_, link⟩ := Trail.nil_iff.mp up
  simp [rep.top link]

theorem DirList.restored_restored (list : DirList idx dirs) (storable : Storable idx) :
    Restored idx (restored idx dirs) where
  nodes := by
    intro x kept
    by_cases row : ∃ dir ∈ dirs, dir.id = x
    · obtain ⟨dir, member, rfl⟩ := row
      rw [list.restored_dir storable member, (list.all.mp member).2.1]
      rfl
    · have absent : ∀ dir ∈ dirs, x ≠ dir.id := fun dir member same => row ⟨dir, member, same.symm⟩
      -- without a row the node comes from the one block that lists it
      have childOnly : ∀ {n}, (x, n) ∈ entries idx dirs → idx.nodes[x]? = some n ∧ n.parent ≠ none := by
        intro n entry
        rcases mem_entries.mp entry with ⟨dir, member, same, _⟩ | ⟨dir, _, c, child, rfl, rfl⟩
        · exact absurd same (absent dir member)
        · exact ⟨((mem_childInfos storable.rep.sound).mp child).2, by simp [ChildInfo.node]⟩
      obtain ⟨n, entry⟩ := list.kept_entry storable kept
      obtain ⟨found, below⟩ := childOnly entry
      obtain ⟨p, parent⟩ := Option.ne_none_iff_exists'.mp below
      have unique : ∀ {w}, (x, w) ∈ entries idx dirs → w = n := fun other =>
        Option.some.inj ((childOnly other).1.symm.trans found)
      rw [restored, foldl_linkRow_other _ _ absent, placed_nodes, lookup_insertAll_of_unique entry unique (by simp),
        found, Option.map_some, (eraseTop_eq_iff parent).mpr rfl]
  dropped := by
    intro x gone
    have absent : ∀ dir ∈ dirs, x ≠ dir.id := by
      rintro dir member rfl
      obtain ⟨segs, trail, bound, _⟩ := list.trail member
      exact gone ⟨segs, trail, by omega⟩
    rw [restored, foldl_linkRow_other _ _ absent, placed_nodes, lookup_insertAll_eq_none]
    refine ⟨?_, by simp⟩
    rintro ⟨y, n⟩ entry rfl
    exact gone (list.entry_agrees storable entry).1
  kids := by
    intro p name c
    rw [kidsOf_restored storable.rep.sound, and_comm]
    refine and_congr_right fun member => ⟨?_, ?_⟩
    · rintro ⟨dir, inDirs, rfl⟩
      obtain ⟨segs, trail, bound, _⟩ := list.trail inDirs
      exact ⟨segs, trail, bound⟩
    · rintro ⟨segs, trail, bound⟩
      obtain ⟨_, present⟩ := trail.exists_link
      obtain ⟨node, found, _⟩ := Option.map_eq_some_iff.mp present
      have isDir := storable.folders ⟨name, member⟩ found
      exact ⟨_, list.exists_dir trail bound found (.inl isDir), rfl⟩
  root := list.root_restored storable.rep
  progress := (foldl_linkRow_same _ _).2.1.trans (foldl_addRow_same _).2

end Restore

/-! ## The totals -/

section Totals
variable {idx : Index} {dirs : List DirEntry}

theorem ids_childInfos_nodup (sound : idx.KidsSound) (p : Id) : ((childInfos idx p).map ChildInfo.id).Nodup := by
  have ids : ((idx.kidsOf p).toList.map Prod.snd).Nodup := by
    refine List.Nodup.map_on ?_ ?_
    · rintro ⟨name, id⟩ left ⟨other, _⟩ right rfl
      have first := sound (ExtTreeSet.mem_toList.mp left)
      have second := sound (ExtTreeSet.mem_toList.mp right)
      cases first.symm.trans second
      rfl
    · refine (ExtTreeSet.distinct_toList (t := idx.kidsOf p)).imp fun differ same => ?_
      exact differ (by rw [same]; exact ReflCmp.compare_self)
  refine ids.sublist ?_
  rw [childInfos]
  induction (idx.kidsOf p).toList with
  | nil => exact .slnil
  | cons kid rest ih =>
    rw [List.filterMap_cons]
    split
    · exact ih.cons _
    · rename_i c found
      obtain ⟨_, _, rfl⟩ := Option.map_eq_some_iff.mp found
      exact ih.cons_cons _

def fileIds (idx : Index) (dirs : List DirEntry) : List Id :=
  dirs.flatMap fun dir => ((childInfos idx dir.id).filter (!·.isDir)).map ChildInfo.id

theorem length_fileIds : (fileIds idx dirs).length = totalFiles idx dirs := by
  simp only [fileIds, totalFiles, List.length_flatMap, List.length_map, List.countP_eq_length_filter]

theorem DirList.fileIds_nodup (list : DirList idx dirs) (sound : idx.KidsSound) : (fileIds idx dirs).Nodup := by
  rw [fileIds, List.nodup_flatMap]
  constructor
  · intro dir _
    exact (ids_childInfos_nodup sound dir.id).sublist (List.filter_sublist.map _)
  · refine (List.pairwise_map.mp list.once).imp ?_
    intro a b differ x left right
    obtain ⟨c, first, rfl⟩ := List.mem_map.mp left
    obtain ⟨d, second, same⟩ := List.mem_map.mp right
    have inA := sound ((mem_childInfos sound).mp (List.mem_filter.mp first).1).1
    have inB := sound ((mem_childInfos sound).mp (List.mem_filter.mp second).1).1
    rw [same] at inB
    have sameParent := (Prod.mk.inj (Option.some.inj (inA.symm.trans inB))).1
    exact differ (Option.some.inj sameParent)

theorem totalFiles_le (idx : Index) (dirs : List DirEntry) :
    totalFiles idx dirs ≤ (dirs.flatMap (blockBytes idx)).length := by
  induction dirs with
  | nil => simp [totalFiles]
  | cons dir rest ih =>
    have block : (childInfos idx dir.id).countP (!·.isDir) ≤ (blockBytes idx dir).length :=
      Nat.le_trans List.countP_le_length (length_le_flatMap _)
    simp only [totalFiles, List.map_cons, List.sum_cons, List.flatMap_cons, List.length_append] at ih ⊢
    omega

theorem ncard_of_nodup {α : Type} {set : Set α} {list : List α} (once : list.Nodup)
    (same : ∀ x, x ∈ set ↔ x ∈ list) : set.ncard = list.length := by
  classical
  have equal : set = ↑list.toFinset := by
    ext x
    simp [same]
  rw [equal, Set.ncard_coe_finset, List.toFinset_card_of_nodup once]

end Totals

/-! ## Round trip -/

/-- The chain of parents ends at a node without one. -/
def Rooted (idx : Index) (id : Id) : Prop := ∃ segs, Trail idx.links id segs

theorem decode_encoded {P : Platform} {order : List Id} {now : UInt64} {idx : Index} {bytes : Bytes} {header : Header}
    {rows : List DirRow} (enumerates : Enumerates order idx) (storable : Storable idx)
    (encoded : Encoded P idx (sortedDirs idx order) now bytes header rows) :
    ∃ out, decode P bytes = .ok out ∧ Restored idx out :=
  ⟨_, decode_eq_restored encoded, (dirList_sortedDirs enumerates).restored_restored storable⟩

section Count
variable {idx : Index} {dirs : List DirEntry} (list : DirList idx dirs) (storable : Storable idx)
  (depth : ∀ {id segs}, Trail idx.links id segs → segs.length ≤ 63)

include list storable depth

theorem ncard_dirs :
    {id | Rooted idx id ∧ ∃ node, idx.nodes[id]? = some node ∧ node.itemMeta.isDir = true}.ncard = dirs.length := by
  rw [← List.length_map (f := DirEntry.id)]
  refine ncard_of_nodup list.once fun id => ?_
  simp only [Set.mem_ofPred_eq, List.mem_map]
  constructor
  · rintro ⟨⟨segs, trail⟩, node, found, isDir⟩
    have shallow := depth trail
    exact ⟨_, list.exists_dir trail (by omega) found (.inl isDir), rfl⟩
  · rintro ⟨dir, member, rfl⟩
    obtain ⟨segs, trail, _⟩ := list.trail member
    exact ⟨⟨segs, trail⟩, dir.node, (list.all.mp member).2.1, list.isDir storable member⟩

theorem ncard_files :
    {id | Rooted idx id ∧ ∃ node, idx.nodes[id]? = some node ∧ node.itemMeta.isDir = false}.ncard =
      totalFiles idx dirs := by
  rw [← length_fileIds]
  refine ncard_of_nodup (list.fileIds_nodup storable.rep.sound) fun id => ?_
  simp only [Set.mem_ofPred_eq, fileIds, List.mem_flatMap, List.mem_map, List.mem_filter]
  constructor
  · rintro ⟨⟨segs, trail⟩, node, found, isFile⟩
    have shallow := depth trail
    cases trail with
    | top link =>
      -- the root is a directory
      have isDir := storable.rootDir (storable.rep.top link) found
      rw [isFile] at isDir
      cases isDir
    | step link rest =>
      obtain ⟨dir, member, _, _, own⟩ := list.child storable (.step link rest) (by omega)
      obtain ⟨other, same, parent, label⟩ := Index.links_eq_some_iff.mp own
      cases found.symm.trans same
      refine ⟨dir, member, ⟨node.name, false, node.itemMeta.size, node.itemMeta.mtime, node.itemMeta.etag, id⟩,
        ⟨(mem_childInfos storable.rep.sound).mpr ⟨?_, ?_⟩, rfl⟩, rfl⟩
      · rw [label]
        exact storable.rep.filed own
      · rw [found]
        obtain ⟨_, _, ⟨_, _, _, _⟩⟩ := node
        simp_all [ChildInfo.node]
  · rintro ⟨dir, member, c, ⟨child, isFile⟩, rfl⟩
    obtain ⟨segs, trail, _⟩ := list.trail member
    obtain ⟨entry, found⟩ := (mem_childInfos storable.rep.sound).mp child
    exact ⟨⟨_, .step (storable.rep.sound entry) trail⟩, _, found, by simpa [ChildInfo.node] using isFile⟩

end Count

/-- A snapshot gives back the part of the index that hangs on its root, and
stores how many directories and files that part has. -/
theorem decode_encode (P : Platform) (json : P.json.RoundTrips) (order : List Id) (now : UInt64) (idx : Index)
    (enumerates : Enumerates order idx) (storable : Storable idx)
    (depth : ∀ id segs, Trail idx.links id segs → segs.length ≤ 63) (fits : Fits P order now idx) :
    ∃ bytes out, encode P order now idx = .ok bytes ∧ decode P bytes = .ok out ∧
      (∀ id, Rooted idx id → out.nodes[id]? = (idx.nodes[id]?).map Node.eraseTop) ∧
      (∀ id, ¬ Rooted idx id → out.nodes[id]? = none) ∧
      (∀ p name c, (name, c) ∈ out.kidsOf p ↔ (name, c) ∈ idx.kidsOf p ∧ Rooted idx p) ∧
      out.root = idx.root ∧ out.deltaToken = idx.deltaToken ∧ out.pendingNextLink = idx.pendingNextLink ∧
      out.crawlComplete = idx.crawlComplete ∧ out.generation = idx.generation ∧
      ∃ header m, parseHeader P bytes = .ok header ∧ parseMeta P bytes header.metaOff header.metaLen = .ok m ∧
        m.totalDirs.toNat = {id | Rooted idx id ∧
          ∃ node, idx.nodes[id]? = some node ∧ node.itemMeta.isDir = true}.ncard ∧
        m.totalFiles.toNat = {id | Rooted idx id ∧
          ∃ node, idx.nodes[id]? = some node ∧ node.itemMeta.isDir = false}.ncard := by
  obtain ⟨bytes, header, rows, written, encoded⟩ := encode_encoded json fits
  obtain ⟨out, read, restored⟩ := decode_encoded enumerates storable encoded
  have list := dirList_sortedDirs enumerates
  -- the depth bound makes every rooted node one that is kept
  have kept : ∀ id, Kept idx id ↔ Rooted idx id := by
    intro id
    constructor
    · rintro ⟨segs, trail, _⟩
      exact ⟨segs, trail⟩
    · rintro ⟨segs, trail⟩
      have bound := depth id segs trail
      exact ⟨segs, trail, by omega⟩
  have progress := restored.progress
  simp only [Index.progress, Prod.mk.injEq] at progress
  obtain ⟨token, pending, complete, generation⟩ := progress
  refine ⟨bytes, out, written, read, ?_, ?_, ?_, restored.root, token, pending, complete, generation,
    header, _, encoded.parsedHeader, encoded.readMeta, ?_, ?_⟩
  · exact fun id rooted => restored.nodes ((kept id).mpr rooted)
  · exact fun id away => restored.dropped fun near => away ((kept id).mp near)
  · intro p name c
    rw [restored.kids, and_congr_right_iff]
    intro _
    constructor
    · rintro ⟨segs, trail, _⟩
      exact ⟨segs, trail⟩
    · rintro ⟨segs, trail⟩
      have bound := depth p segs trail
      exact ⟨segs, trail, by omega⟩
  · rw [ncard_dirs list storable (depth _ _)]
    exact UInt64.toNat_ofNat_of_lt' (Nat.lt_trans fits.count (by decide))
  · rw [ncard_files list storable (depth _ _)]
    obtain ⟨text, readText, _⟩ := json (snapshotMeta idx (sortedDirs idx order) now)
    have total := (fits.text text readText).2
    have files := totalFiles_le idx (sortedDirs idx order)
    have word := P.le_word
    simp only [encodedSize] at total
    exact UInt64.toNat_ofNat_of_lt' (Nat.lt_of_lt_of_le (by omega) word)

/-- A root, two folders and a file in one of them. -/
theorem decode_encode_foldersAB :
    ∃ bytes out, encode (wasm32 metaText) (Index.ofTree foldersAB).nodes.keys 7 (Index.ofTree foldersAB) = .ok bytes ∧
      decode (wasm32 metaText) bytes = .ok out ∧
      out.nodes["f"]? = some ⟨some "b", "f.txt", ⟨false, 1, 0, ""⟩⟩ := by
  have represents := represents_ofTree foldersAB
  have folders : foldersAB.FoldersOnly := NodeTree.foldersOnly_of_list (by decide)
  have depth : foldersAB.DepthLe 63 := NodeTree.depthLe_of_climb (by decide)
  have succeeds : (encode (wasm32 metaText) (Index.ofTree foldersAB).nodes.keys 7
      (Index.ofTree foldersAB)).isOk = true := by decide +kernel
  obtain ⟨bytes, written⟩ := Result.exists_of_isOk succeeds
  obtain ⟨bytes, out, encoded, decoded, nodes, _⟩ := decode_encode (wasm32 metaText) metaText_roundTrips _ 7 _
    (enumerates_keys _) (storable_of_holds represents folders) (fun _ _ trail => depth (represents.trail_up trail))
    (fits_of_encode rfl written)
  have found : (Index.ofTree foldersAB).nodes["f"]? = some ⟨some "b", "f.txt", ⟨false, 1, 0, ""⟩⟩ := by
    decide
  have inTree : foldersAB.nodes["f"]? = some ⟨some "b", "f.txt", ⟨false, 1, 0, ""⟩⟩ := by decide
  obtain ⟨segs, trail⟩ := foldersAB.rooted inTree
  refine ⟨bytes, out, encoded, decoded, ?_⟩
  rw [nodes "f" ⟨segs, represents.trail_iff.mpr trail⟩, found]
  rfl

end Snapshot

end OneDriveDavfs
