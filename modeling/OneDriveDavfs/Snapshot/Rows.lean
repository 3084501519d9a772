import OneDriveDavfs.Index.Runs
import OneDriveDavfs.Snapshot.Store

/-! The paths of the directory table over whole runs.

A save writes the path of every directory, and a load takes the parent of a
directory from its path. So a directory that lies in something without a row
has no parent after the load, and the next save gives it the path of the root.
-/

set_option autoImplicit false

namespace OneDriveDavfs

open Std Library.Collections Library.Forest Library.Wire

namespace Snapshot

/-- The directory table has every path at most once, and "/" for the recorded root only. -/
def Unambiguous (P : Platform) (bytes : Bytes) : Prop :=
  ∃ header m table rows, parseHeader P bytes = .ok header ∧
    parseMeta P bytes header.metaOff header.metaLen = .ok m ∧
    sliceOf bytes (P.usize header.dirTableOff.toNat) (P.usize header.metaOff.toNat) = .ok table ∧
    parseDirTable P table header.dirCount = .ok rows ∧
    (rows.map DirRow.path).Nodup ∧ ∀ row ∈ rows, row.path = "/" → m.rootId = some row.id

/-- Every directory with a row lies in a directory, or in the root. -/
def Tidy (idx : Index) : Prop :=
  ∀ (id p : Id) (path : String) (node parent : Node), idx.pathOf id = some path → idx.nodes[id]? = some node →
    node.itemMeta.isDir = true → node.parent = some p → idx.nodes[p]? = some parent →
    parent.itemMeta.isDir = true ∨ idx.root = some p

section Table
variable {P : Platform} {idx : Index} {dirs : List DirEntry} {now : UInt64} {bytes : Bytes} {header : Header}
  {rows : List DirRow}

theorem paths_of_listed (listed : List.Forall₂ (RowOf bytes idx) dirs rows) :
    rows.map DirRow.path = dirs.map DirEntry.path ∧ rows.map DirRow.id = dirs.map DirEntry.id := by
  induction listed with
  | nil => exact ⟨rfl, rfl⟩
  | cons rowOf _ ih => simp only [List.map_cons, rowOf.path, rowOf.id, ih, and_self]

theorem Encoded.unambiguous_iff (encoded : Encoded P idx dirs now bytes header rows) :
    Unambiguous P bytes ↔
      (dirs.map DirEntry.path).Nodup ∧ ∀ dir ∈ dirs, dir.path = "/" → idx.root = some dir.id := by
  obtain ⟨tableOff, metaOff, _⟩ := encoded.offsets
  obtain ⟨tail, stands⟩ := encoded.table
  have table := sliceOf_stands stands
  obtain ⟨paths, ids⟩ := paths_of_listed encoded.listed
  -- path and id of a row are those of its directory, place by place
  have tops : (∀ row ∈ rows, row.path = "/" → idx.root = some row.id) ↔
      ∀ dir ∈ dirs, dir.path = "/" → idx.root = some dir.id := by
    have pairs : rows.map (fun row => (row.path, row.id)) = dirs.map fun dir => (dir.path, dir.id) := by
      have zipped := congrArg₂ List.zip paths ids
      rwa [List.zip_map', List.zip_map'] at zipped
    constructor
    · intro top dir member atTop
      have pair : (dir.path, dir.id) ∈ rows.map fun row => (row.path, row.id) :=
        pairs ▸ List.mem_map.mpr ⟨dir, member, rfl⟩
      obtain ⟨row, inRows, same⟩ := List.mem_map.mp pair
      obtain ⟨samePath, sameId⟩ := Prod.mk.inj same
      rw [← sameId]
      exact top row inRows (samePath.trans atTop)
    · intro top row member atTop
      have pair : (row.path, row.id) ∈ dirs.map fun dir => (dir.path, dir.id) :=
        pairs ▸ List.mem_map.mpr ⟨row, member, rfl⟩
      obtain ⟨dir, inDirs, same⟩ := List.mem_map.mp pair
      obtain ⟨samePath, sameId⟩ := Prod.mk.inj same
      rw [← sameId]
      exact top dir inDirs (samePath.trans atTop)
  rw [← paths, ← tops]
  constructor
  · rintro ⟨other, m, slice, found, header', readMeta, sliced, parsed, nodup, top⟩
    cases encoded.parsedHeader.symm.trans header'
    cases encoded.readMeta.symm.trans readMeta
    rw [tableOff, metaOff] at sliced
    cases table.symm.trans sliced
    cases encoded.parsedTable.symm.trans parsed
    exact ⟨nodup, top⟩
  · rintro ⟨nodup, top⟩
    refine ⟨header, _, _, rows, encoded.parsedHeader, encoded.readMeta, ?_, encoded.parsedTable, nodup, top⟩
    rw [tableOff, metaOff]
    exact table

theorem DirList.top_path (list : DirList idx dirs) (addressable : Addressable idx) {dir : DirEntry}
    (member : dir ∈ dirs) (top : dir.path = "/") : idx.root = some dir.id := by
  obtain ⟨segs, trail, _, path⟩ := list.trail member
  have nothing : segs = [] := by
    by_contra below
    exact joinPath_ne_root (addressable.cleanTrail trail) below (path.symm.trans top)
  subst nothing
  obtain ⟨name, link⟩ := Trail.nil_iff.mp trail
  exact addressable.rep.top link

theorem unambiguous_of_saves {json : MetaJson} (roundTrips : json.RoundTrips) (addressable : Addressable idx)
    (saves : Saves json idx bytes) : Unambiguous (wasm32 json) bytes := by
  obtain ⟨order, now, header, rows, enumerates, encoded⟩ := saves.encoded roundTrips
  have list := dirList_sortedDirs enumerates
  exact encoded.unambiguous_iff.mpr ⟨list.paths_nodup addressable, fun dir member => list.top_path addressable member⟩

end Table

/-! ## The links after a load -/

theorem relink_itemMeta (pathToId : ExtTreeMap String Id) (path : String) (node : Node) :
    (relink pathToId path node).itemMeta = node.itemMeta := by
  unfold relink
  split
  · rfl
  · split <;> rfl

section Load
variable {idx : Index} {dirs : List DirEntry}

theorem DirList.links_row (list : DirList idx dirs) (addressable : Addressable idx) {dir : DirEntry}
    (member : dir ∈ dirs) {p : Id} {name : String} (link : idx.links dir.id = some (some p, name)) :
    (∀ up ∈ dirs, up.id = p → (restored idx dirs).links dir.id = some (some p, name)) ∧
      ((∀ up ∈ dirs, up.id ≠ p) → (restored idx dirs).links dir.id = some (none, name)) := by
  obtain ⟨segs, trail, bound, path⟩ := list.trail member
  obtain ⟨front, rfl, upper⟩ := Trail.of_child link trail
  have clean := addressable.cleanTrail trail
  have below : ¬ dir.path = "/" := path ▸ joinPath_ne_root clean (by simp)
  have parentOf : parentPath dir.path = joinPath front := by rw [path, parentPath_joinPath clean]
  obtain ⟨n, listed, own⟩ := list.restored_row member
  obtain ⟨node, found, parent, rfl⟩ := Index.links_eq_some_iff.mp link
  obtain ⟨_, other, same, named, _⟩ := list.entry_name addressable listed
  cases found.symm.trans same
  rw [(eraseTop_eq_iff parent).mpr rfl] at named
  rw [relink, if_neg below, parentOf] at own
  constructor
  · rintro up inDirs rfl
    -- the parent has a row, and its path is found
    have upPath : up.path = joinPath front := by
      obtain ⟨upSegs, upTrail, _, upPath⟩ := list.trail inDirs
      rw [upPath, upTrail.unique upper]
    rw [← upPath, list.pathIds_path addressable inDirs] at own
    exact Index.links_eq_some_iff.mpr ⟨_, own, rfl, named⟩
  · intro away
    -- no row has the parent path, so the node keeps the parent it had as a child, which is none
    have missing : (pathIds dirs)[joinPath front]? = none := by
      rw [pathIds, lookup_insertAll_eq_none]
      refine ⟨?_, by simp⟩
      intro entry inPairs samePath
      obtain ⟨up, inDirs, rfl⟩ := List.mem_map.mp inPairs
      exact away up inDirs (list.id_of_path addressable inDirs upper samePath)
    rw [missing] at own
    have alone : n.parent = none := by
      rcases mem_entries.mp listed with ⟨_, _, _, rfl⟩ | ⟨up, inDirs, c, child, same, rfl⟩
      · rfl
      · obtain ⟨_, present⟩ := (mem_childInfos addressable.rep.sound).mp child
        rw [← same, found] at present
        exact absurd (Option.some.inj (parent.symm.trans (congrArg Node.parent (Option.some.inj present)))).symm
          (away up inDirs)
    exact Index.links_eq_some_iff.mpr ⟨n, own, alone, named⟩

theorem DirList.links_top (list : DirList idx dirs) {dir : DirEntry} (member : dir ∈ dirs) {name : String}
    (link : idx.links dir.id = some (none, name)) : (restored idx dirs).links dir.id = some (none, "") := by
  obtain ⟨segs, trail, _, path⟩ := list.trail member
  have nothing : segs = [] := trail.unique (.top link)
  obtain ⟨n, _, own⟩ := list.restored_row member
  rw [relink, if_pos (by rw [path, nothing, joinPath_nil])] at own
  exact Index.links_eq_some_iff.mpr ⟨_, own, rfl, rfl⟩

theorem node_child (rep : idx.RepInv) {x : Id} (absent : ∀ dir ∈ dirs, x ≠ dir.id) {node : Node}
    (found : (restored idx dirs).nodes[x]? = some node) :
    idx.nodes[x]? = some node ∧ ∃ up ∈ dirs, node.parent = some up.id := by
  rw [restored, foldl_linkRow_other _ _ absent, placed_nodes] at found
  rcases mem_entries.mp ((lookup_insertAll found).resolve_right (by simp)) with
    ⟨dir, member, same, _⟩ | ⟨dir, member, c, child, rfl, rfl⟩
  · exact absurd same (absent dir member)
  · exact ⟨((mem_childInfos rep.sound).mp child).2, dir, member, rfl⟩

theorem links_child (rep : idx.RepInv) {x : Id} (absent : ∀ dir ∈ dirs, x ≠ dir.id) :
    (∀ up ∈ dirs, ∀ name, idx.links x = some (some up.id, name) → (restored idx dirs).links x = some (some up.id, name)) ∧
      ∀ link, (restored idx dirs).links x = some link → idx.links x = some link ∧ ∃ up ∈ dirs, link.1 = some up.id := by
  constructor
  · intro up inDirs name link
    obtain ⟨node, found, parent, entry⟩ := child_entry rep inDirs link
    cases stored : (restored idx dirs).nodes[x]? with
    | none =>
      rw [restored, foldl_linkRow_other _ _ absent, placed_nodes, lookup_insertAll_eq_none] at stored
      exact absurd rfl (stored.1 _ entry)
    | some other =>
      obtain ⟨same, _⟩ := node_child rep absent stored
      rw [← link, Index.links, stored, Index.links, same]
  · intro link present
    obtain ⟨node, stored, rfl⟩ := Option.map_eq_some_iff.mp present
    obtain ⟨found, up, inDirs, parent⟩ := node_child rep absent stored
    exact ⟨by rw [Index.links, found, Option.map_some], up, inDirs, parent⟩

theorem DirList.parent_row (list : DirList idx dirs) (rep : idx.RepInv) (tidy : Tidy idx) {dir : DirEntry}
    (member : dir ∈ dirs) {p : Id} {name : String} (link : idx.links dir.id = some (some p, name)) :
    ∃ up ∈ dirs, up.id = p := by
  obtain ⟨pathOf, found, kind⟩ := list.all.mp member
  obtain ⟨segs, trail, bound, _⟩ := list.trail member
  obtain ⟨front, rfl, upper⟩ := Trail.of_child link trail
  obtain ⟨node, same, parent, _⟩ := Index.links_eq_some_iff.mp link
  cases found.symm.trans same
  obtain ⟨_, present⟩ := upper.exists_link
  obtain ⟨parentNode, stored, _⟩ := Option.map_eq_some_iff.mp present
  have shallow : front.length < 64 := by
    rw [List.length_append, List.length_singleton] at bound
    omega
  rcases kind with isDir | top
  · exact ⟨_, list.exists_dir upper shallow stored (tidy dir.id p dir.path _ _ pathOf found isDir parent stored), rfl⟩
  · obtain ⟨_, own⟩ := rep.rooted top
    cases link.symm.trans own

theorem DirList.links_restored (list : DirList idx dirs) (addressable : Addressable idx) (tidy : Tidy idx) {x p : Id}
    {name : String} : (restored idx dirs).links x = some (some p, name) ↔
      idx.links x = some (some p, name) ∧ ∃ up ∈ dirs, up.id = p := by
  by_cases row : ∃ dir ∈ dirs, dir.id = x
  · obtain ⟨dir, member, rfl⟩ := row
    constructor
    · intro link
      obtain ⟨segs, trail, _⟩ := list.trail member
      obtain ⟨own, there⟩ := trail.exists_link
      obtain ⟨_ | q, label⟩ := own
      · cases link.symm.trans (list.links_top member there)
      · obtain ⟨up, inDirs, same⟩ := list.parent_row addressable.rep tidy member there
        have kept := (list.links_row addressable member there).1 up inDirs same
        cases link.symm.trans kept
        exact ⟨there, up, inDirs, same⟩
    · rintro ⟨link, up, inDirs, same⟩
      exact (list.links_row addressable member link).1 up inDirs same
  · have absent : ∀ dir ∈ dirs, x ≠ dir.id := fun dir member same => row ⟨dir, member, same.symm⟩
    obtain ⟨down, back⟩ := @links_child _ dirs addressable.rep _ absent
    constructor
    · intro link
      obtain ⟨own, up, inDirs, same⟩ := back _ link
      exact ⟨own, up, inDirs, (Option.some.inj same).symm⟩
    · rintro ⟨link, up, inDirs, rfl⟩
      exact down up inDirs name link

theorem DirList.root_row (list : DirList idx dirs) (rep : idx.RepInv) {r : Id} (recorded : idx.root = some r) :
    ∃ name, ∃ dir ∈ dirs, dir.id = r ∧ idx.links r = some (none, name) := by
  obtain ⟨name, link⟩ := rep.rooted recorded
  obtain ⟨node, found, _⟩ := Index.links_eq_some_iff.mp link
  exact ⟨name, _, list.exists_dir (.top link) (by simp) found (.inr recorded), rfl, link⟩

/-- A tidy index is loaded as one whose nodes can be told apart by their paths again. -/
theorem DirList.restored_run {r : Id} (list : DirList idx dirs) (run : Index.RunInv r idx)
    (clean : ∀ {id p name}, idx.links id = some (some p, name) → CleanName name) (tidy : Tidy idx) :
    Index.RunInv r (restored idx dirs) ∧
      ∀ {id p name}, (restored idx dirs).links id = some (some p, name) → CleanName name := by
  have addressable : Addressable idx := ⟨run.rep, clean⟩
  have links : ∀ {x p name}, (restored idx dirs).links x = some (some p, name) ↔
      idx.links x = some (some p, name) ∧ ∃ up ∈ dirs, up.id = p := list.links_restored addressable tidy
  have kids : ∀ {p c name}, (name, c) ∈ (restored idx dirs).kidsOf p ↔
      (∃ dir ∈ dirs, dir.id = p) ∧ (name, c) ∈ idx.kidsOf p := kidsOf_restored run.rep.sound
  have root := list.root_restored run.rep
  -- filed, sound, siblings, top, rooted; then the root is the only top and nobody's child
  refine ⟨⟨⟨?_, ?_, ?_, ?_, ?_⟩, ?_, ?_⟩, fun link => clean (links.mp link).1⟩
  · intro id p name link
    obtain ⟨own, row⟩ := links.mp link
    exact kids.mpr ⟨row, run.rep.filed own⟩
  · intro p name id member
    obtain ⟨row, own⟩ := kids.mp member
    exact links.mpr ⟨run.rep.sound own, row⟩
  · intro p name a b left right
    exact run.rep.siblings (kids.mp left).2 (kids.mp right).2
  · intro id name link
    rw [root]
    by_cases row : ∃ dir ∈ dirs, dir.id = id
    · obtain ⟨dir, member, rfl⟩ := row
      obtain ⟨segs, trail, _⟩ := list.trail member
      obtain ⟨⟨_ | q, label⟩, there⟩ := trail.exists_link
      · exact run.rep.top there
      · cases link.symm.trans (links.mpr ⟨there, list.parent_row run.rep tidy member there⟩)
    · have absent : ∀ dir ∈ dirs, id ≠ dir.id := fun dir member same => row ⟨dir, member, same.symm⟩
      exact run.rep.top ((links_child run.rep absent).2 _ link).1
  · intro x recorded
    rw [root] at recorded
    obtain ⟨_, dir, member, rfl, link⟩ := list.root_row run.rep recorded
    exact ⟨"", list.links_top member link⟩
  · intro x recorded
    exact run.only x (root ▸ recorded)
  · intro p name link
    exact run.notKid p name (links.mp link).1

/-- A directory whose parent has no row is loaded with the path of the root. -/
theorem DirList.ambiguous_of_untidy (list : DirList idx dirs) (addressable : Addressable idx) (untidy : ¬ Tidy idx)
    {again : List DirEntry} (listAgain : DirList (restored idx dirs) again) : ¬ (again.map DirEntry.path).Nodup := by
  simp only [Tidy, not_forall] at untidy
  obtain ⟨id, p, path, node, parentNode, pathOf, found, isDir, parent, stored, outside⟩ := untidy
  have member : (⟨id, path, node⟩ : DirEntry) ∈ dirs := list.all.mpr ⟨pathOf, found, .inl isDir⟩
  have link : idx.links id = some (some p, node.name) := Index.links_eq_some_iff.mpr ⟨node, found, parent, rfl⟩
  have away : ∀ up ∈ dirs, up.id ≠ p := by
    rintro up inDirs rfl
    obtain ⟨_, present, kind⟩ := list.all.mp inDirs
    cases stored.symm.trans present
    exact outside kind
  -- the directory and the root are both loaded without a parent
  have lost : (restored idx dirs).links id = some (none, node.name) :=
    (list.links_row addressable member link).2 away
  obtain ⟨segs, trail, _⟩ := list.trail member
  obtain ⟨t, up, _⟩ := trail.split [] segs rfl
  obtain ⟨label, top⟩ := Trail.nil_iff.mp up
  have recorded := addressable.rep.top top
  obtain ⟨_, dir, inDirs, rfl, _⟩ := list.root_row addressable.rep recorded
  have rootLink := list.links_top inDirs top
  obtain ⟨rootNode, rootFound, _⟩ := Index.links_eq_some_iff.mp rootLink
  have sameRoot := list.root_restored addressable.rep
  have isRow := listAgain.exists_dir (.top rootLink) (by simp) rootFound (.inr (sameRoot.trans recorded))
  obtain ⟨n, entry, own⟩ := list.restored_row member
  have stays : (relink (pathIds dirs) path n).itemMeta.isDir = true := by
    obtain ⟨_, other, same, _, kept | ⟨_, _, _, marked⟩⟩ := list.entry_name addressable entry
    · cases found.symm.trans same
      rw [relink_itemMeta, kept, isDir]
    · rw [relink_itemMeta, marked]
  have isLost := listAgain.exists_dir (.top lost) (by simp) own (.inl stays)
  intro nodup
  have equal := List.inj_on_of_nodup_map nodup isRow isLost rfl
  have same : dir.id = id := congrArg DirEntry.id equal
  rw [same, link] at top
  cases top

end Load

end Snapshot

/-! ## Runs with saves -/

def Index.Op.Named : Op → Prop
  | .apply it => it.deleted = false → it.isRoot = false → CleanName it.name
  | _ => True

def Index.CleanLinks (idx : Index) : Prop := ∀ {id p name}, idx.links id = some (some p, name) → CleanName name

namespace Index

variable {idx out : Index}

theorem CleanLinks.pruned {gone : Id → Prop} (clean : idx.CleanLinks) (pruned : Pruned idx gone out) : out.CleanLinks := by
  intro id p name link
  by_cases removed : gone id
  · simp [links, pruned.dropped removed] at link
  · exact clean (links_of_nodes (pruned.kept removed) ▸ link)

theorem CleanLinks.apply (clean : idx.CleanLinks) (rep : RepInv idx) {it : DeltaItem}
    (named : it.deleted = false → it.isRoot = false → CleanName it.name) : (idx.apply it).CleanLinks := by
  rcases apply_cases idx it with same | ⟨_, removal⟩ | ⟨_, _, top⟩ | ⟨p, live⟩
  · rwa [same]
  · rw [removal]
    exact clean.pruned (remove_pruned rep.sound it.id)
  · intro id q name link
    rw [top, links_insert_root] at link
    split at link
    · cases link
    · exact clean link
  · have placed := apply_placed rep live
    intro id q name link
    by_cases own : id = it.id
    · subst own
      rw [links, placed.node] at link
      cases link
      exact named live.live live.notRoot
    · by_cases removed : idx.Evicted it.id p it.name id
      · simp [links, placed.dropped own removed] at link
      · exact clean (links_of_nodes (placed.kept own removed) ▸ link)

theorem cleanName_lastSegment {path : String} (named : lastSegment path ≠ "") : CleanName (lastSegment path) := by
  rw [lastSegment_eq] at named ⊢
  cases last : (segments path).getLast? with
  | none => simp [List.getLastD_eq_getLast?, last] at named
  | some name =>
    rw [List.getLastD_eq_getLast?, last]
    exact cleanName_of_mem_segments (List.mem_of_getLast? last)

theorem CleanLinks.step (clean : idx.CleanLinks) (rep : RepInv idx) {op : Op} (named : op.Named) :
    (op.run idx).CleanLinks := by
  cases op with
  | apply it => exact clean.apply rep named
  | remove id => exact clean.pruned (remove_pruned rep.sound id)
  | sweepOrphans => exact clean.pruned (sweepOrphans_pruned idx)
  | upsertAtPath path itemMeta =>
    simp only [Op.run, upsertAtPath]
    split
    · intro id p name link
      exact clean (links_modify_meta idx _ _ ▸ link)
    · split
      · exact clean
      · rename_i named
        -- a new link has the last segment of a path for its name
        split
        · exact clean
        · refine clean.apply rep ?_
          exact fun _ _ => cleanName_lastSegment named
  | removeAtPath path =>
    simp only [Op.run, removeAtPath]
    split
    · exact clean.pruned (remove_pruned rep.sound _)
    · exact clean
  | moveAtPath source dest =>
    simp only [Op.run, moveAtPath]
    split
    · exact clean
    · split
      · exact clean
      · split
        · exact clean
        · rename_i named
          split
          · exact clean
          · refine clean.apply rep ?_
            exact fun _ _ => cleanName_lastSegment named

end Index

namespace Snapshot

/-- Runs of records, writes by path, and saves that are loaded again, with every snapshot that was
written and the index it was made of. -/
inductive Saving (json : MetaJson) (r : Id) : Index → List (Index × Bytes) → Prop where
  | empty : Saving json r Index.empty []
  | op {idx : Index} {written : List (Index × Bytes)} {op : Index.Op} : Saving json r idx written →
      op.Allowed r idx → op.Named → Saving json r (op.run idx) written
  | save {idx out : Index} {written : List (Index × Bytes)} {bytes : Bytes} : Saving json r idx written →
      Saves json idx bytes → decode (wasm32 json) bytes = .ok out → Saving json r out (written ++ [(idx, bytes)])

section Runs
variable {json : MetaJson} {r : Id} {idx : Index} {written : List (Index × Bytes)}

theorem restored_of_saves (roundTrips : json.RoundTrips) {bytes : Bytes} {out : Index} (saves : Saves json idx bytes)
    (loaded : decode (wasm32 json) bytes = .ok out) : ∃ dirs, DirList idx dirs ∧ out = restored idx dirs := by
  obtain ⟨order, _, _, _, enumerates, encoded⟩ := saves.encoded roundTrips
  cases (decode_eq_restored encoded).symm.trans loaded
  exact ⟨_, dirList_sortedDirs enumerates, rfl⟩

theorem Saving.inv (roundTrips : json.RoundTrips) (real : ∀ path, r ≠ Index.placeholderId path)
    (run : Saving json r idx written) (tidy : ∀ s ∈ written, Tidy s.1) : Index.RunInv r idx ∧ idx.CleanLinks := by
  induction run with
  | empty => exact ⟨.empty r, by simp [Index.CleanLinks, Index.links, Index.empty]⟩
  | op _ allowed named ih =>
    obtain ⟨inv, clean⟩ := ih tidy
    exact ⟨inv.step real allowed, clean.step inv.rep named⟩
  | @save idx out written bytes _ saves loaded ih =>
    obtain ⟨inv, clean⟩ := ih fun s member => tidy s (List.mem_append_left _ member)
    obtain ⟨dirs, list, rfl⟩ := restored_of_saves roundTrips saves loaded
    exact list.restored_run inv clean (tidy (idx, bytes) (by simp))

/-- As long as every saved index is tidy, every snapshot is unambiguous, and so is the next one. The
one after that is exactly if the index is tidy then. -/
theorem rows_unambiguous_iff (roundTrips : json.RoundTrips) (real : ∀ path, r ≠ Index.placeholderId path)
    (run : Saving json r idx written) (tidy : ∀ s ∈ written, Tidy s.1) :
    (∀ s ∈ written, Unambiguous (wasm32 json) s.2) ∧
    ∀ bytes out again, Saves json idx bytes → decode (wasm32 json) bytes = .ok out → Saves json out again →
      Unambiguous (wasm32 json) bytes ∧ (Unambiguous (wasm32 json) again ↔ Tidy idx) := by
  constructor
  · induction run with
    | empty => simp
    | op _ _ _ ih => exact ih tidy
    | @save idx out written bytes earlier saves loaded ih =>
      have before : ∀ s ∈ written, Tidy s.1 := fun s member => tidy s (List.mem_append_left _ member)
      obtain ⟨inv, clean⟩ := earlier.inv roundTrips real before
      intro s member
      rcases List.mem_append.mp member with earlierOne | last
      · exact ih before s earlierOne
      · rw [List.mem_singleton.mp last]
        exact unambiguous_of_saves roundTrips ⟨inv.rep, clean⟩ saves
  · intro bytes out again saves loaded savesAgain
    obtain ⟨inv, clean⟩ := run.inv roundTrips real tidy
    have addressable : Addressable idx := ⟨inv.rep, clean⟩
    refine ⟨unambiguous_of_saves roundTrips addressable saves, ?_⟩
    obtain ⟨dirs, list, rfl⟩ := restored_of_saves roundTrips saves loaded
    constructor
    · -- if it is not tidy, two of the rows would have the path of the root
      intro unambiguous
      obtain ⟨order, _, _, _, enumerates, encoded⟩ := savesAgain.encoded roundTrips
      by_contra untidy
      exact list.ambiguous_of_untidy addressable untidy (dirList_sortedDirs enumerates)
        (encoded.unambiguous_iff.mp unambiguous).1
    · intro isTidy
      obtain ⟨restoredInv, restoredClean⟩ := list.restored_run inv clean isTidy
      exact unambiguous_of_saves roundTrips ⟨restoredInv.rep, restoredClean⟩ savesAgain

end Runs

/-! ## A folder in something that is not a folder -/

theorem placeholder_ne_r (path : String) : "r" ≠ Index.placeholderId path := by
  intro same
  have chars := congrArg String.toList same
  simp [Index.placeholderId] at chars

/-- The root, an item in it that is a directory or not, and a folder in that item. -/
def notesAndSection (isDir : Bool) : List DeltaItem := [
  ⟨"r", none, "root", false, true, ⟨true, 0, 0, ""⟩⟩,
  ⟨"n", some "r", "Notes", false, false, ⟨isDir, 0, 0, ""⟩⟩,
  ⟨"s", some "n", "Section", false, false, ⟨true, 0, 0, ""⟩⟩]

def folderInPackage : Index := (notesAndSection false).foldl Index.apply Index.empty

def folderInFolder : Index := (notesAndSection true).foldl Index.apply Index.empty

theorem saving_notesAndSection (isDir : Bool) :
    Saving metaText "r" ((notesAndSection isDir).foldl Index.apply Index.empty) [] := by
  have more : ∀ {idx : Index} {it : DeltaItem}, Saving metaText "r" idx [] → (Index.Op.apply it).Allowed "r" idx →
      (it.deleted = false → it.isRoot = false → CleanName it.name) → Saving metaText "r" (idx.apply it) [] :=
    fun before allowed named => before.op allowed named
  simp only [notesAndSection, List.foldl_cons, List.foldl_nil]
  refine more (more (more .empty ?_ ?_) ?_ ?_) ?_ ?_ <;> revert isDir <;> decide

def snapshotOf (idx : Index) : Bytes :=
  match encode (wasm32 metaText) idx.nodes.keys 7 idx with
  | .ok bytes => bytes
  | .error _ => []

def loadedFrom (bytes : Bytes) : Index :=
  match decode (wasm32 metaText) bytes with
  | .ok idx => idx
  | .error _ => Index.empty

theorem encode_snapshotOf {idx : Index} (ok : (encode (wasm32 metaText) idx.nodes.keys 7 idx).isOk = true) :
    encode (wasm32 metaText) idx.nodes.keys 7 idx = .ok (snapshotOf idx) := by
  obtain ⟨bytes, written⟩ := Result.exists_of_isOk ok
  rw [snapshotOf, written]

theorem saves_snapshotOf {idx : Index} (ok : (encode (wasm32 metaText) idx.nodes.keys 7 idx).isOk = true) :
    Saves metaText idx (snapshotOf idx) := ⟨_, 7, enumerates_keys _, encode_snapshotOf ok⟩

theorem decode_loadedFrom {idx : Index} {bytes : Bytes} (saves : Saves metaText idx bytes) :
    decode (wasm32 metaText) bytes = .ok (loadedFrom bytes) := by
  obtain ⟨out, loaded, _⟩ := saves.decode metaText_roundTrips
  rw [loadedFrom, loaded]

theorem loadedFrom_snapshotOf {idx : Index} (ok : (encode (wasm32 metaText) idx.nodes.keys 7 idx).isOk = true) :
    loadedFrom (snapshotOf idx) = restored idx (sortedDirs idx idx.nodes.keys) := by
  obtain ⟨bytes, header, rows, written, encoded⟩ :=
    encode_encoded metaText_roundTrips (fits_of_encode rfl (encode_snapshotOf ok))
  cases (encode_snapshotOf ok).symm.trans written
  rw [loadedFrom, decode_eq_restored encoded]

theorem ambiguous_snapshotOf {idx : Index} (ok : (encode (wasm32 metaText) idx.nodes.keys 7 idx).isOk = true)
    (twice : ¬ ((sortedDirs idx idx.nodes.keys).map DirEntry.path).Nodup) :
    ¬ Unambiguous (wasm32 metaText) (snapshotOf idx) := by
  have written := encode_snapshotOf ok
  obtain ⟨bytes, header, rows, same, encoded⟩ := encode_encoded metaText_roundTrips (fits_of_encode rfl written)
  cases written.symm.trans same
  exact fun unambiguous => twice (encoded.unambiguous_iff.mp unambiguous).1

theorem encodes_notesAndSection (isDir : Bool) :
    (encode (wasm32 metaText) ((notesAndSection isDir).foldl Index.apply Index.empty).nodes.keys 7
      ((notesAndSection isDir).foldl Index.apply Index.empty)).isOk = true := by
  cases isDir <;> decide +kernel

theorem saves_notesAndSection (isDir : Bool) :
    Saves metaText ((notesAndSection isDir).foldl Index.apply Index.empty)
      (snapshotOf ((notesAndSection isDir).foldl Index.apply Index.empty)) :=
  saves_snapshotOf (encodes_notesAndSection isDir)

theorem rows_unambiguous_iff_folderInFolder :
    (∀ s ∈ [(folderInFolder, snapshotOf folderInFolder)], Unambiguous (wasm32 metaText) s.2) ∧
    ∀ bytes out again, Saves metaText (loadedFrom (snapshotOf folderInFolder)) bytes →
      decode (wasm32 metaText) bytes = .ok out → Saves metaText out again →
      Unambiguous (wasm32 metaText) bytes ∧
        (Unambiguous (wasm32 metaText) again ↔ Tidy (loadedFrom (snapshotOf folderInFolder))) := by
  have saves : Saves metaText folderInFolder (snapshotOf folderInFolder) := saves_notesAndSection true
  refine rows_unambiguous_iff metaText_roundTrips placeholder_ne_r
    ((saving_notesAndSection true).save saves (decode_loadedFrom saves)) ?_
  intro s member
  cases List.mem_singleton.mp member
  -- every node is a directory
  have checked : ∀ entry ∈ folderInFolder.nodes.toList, entry.2.itemMeta.isDir = true := by decide
  intro _ p _ _ parent _ _ _ _ found
  exact .inl (checked (p, parent) (ExtTreeMap.mem_toList_iff_getElem?_eq_some.mpr found))

/-- The table of the second snapshot has the path of the root twice. -/
theorem reloaded_folder_takes_root_path :
    Saving metaText "r" (loadedFrom (snapshotOf folderInPackage)) [(folderInPackage, snapshotOf folderInPackage)] ∧
      Saves metaText (loadedFrom (snapshotOf folderInPackage)) (snapshotOf (loadedFrom (snapshotOf folderInPackage))) ∧
      ¬ Unambiguous (wasm32 metaText) (snapshotOf (loadedFrom (snapshotOf folderInPackage))) := by
  have saves : Saves metaText folderInPackage (snapshotOf folderInPackage) := saves_notesAndSection false
  have loads := loadedFrom_snapshotOf (encodes_notesAndSection false)
  have again : (encode (wasm32 metaText) (loadedFrom (snapshotOf folderInPackage)).nodes.keys 7
      (loadedFrom (snapshotOf folderInPackage))).isOk = true := by
    rw [folderInPackage, loads]
    decide +kernel
  refine ⟨(saving_notesAndSection false).save saves (decode_loadedFrom saves), saves_snapshotOf again,
    ambiguous_snapshotOf again ?_⟩
  rw [folderInPackage, loads]
  decide

end Snapshot

end OneDriveDavfs
