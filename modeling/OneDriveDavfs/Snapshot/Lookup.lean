import Mathlib.Data.String.Basic
import OneDriveDavfs.Library.BinarySearch
import OneDriveDavfs.Snapshot.RoundTrip
import OneDriveDavfs.StateFile

/-! Looking a path up in a stored snapshot without decoding it.

The directory rows are in the order of their paths, so a binary search finds
the row of a directory, and its block lists its children. A path without a row
is looked for by name in the block of the parent path. Both find what the
index resolves, for every spelling of the path.
-/

set_option autoImplicit false

namespace OneDriveDavfs

open Std (ExtTreeSet)
open Library.Collections Library.Forest Library.Wire Library.BinarySearch

namespace Snapshot

def findDir (rows : List DirRow) (path : String) : Option DirRow :=
  (binarySearchBy rows fun row => compare row.path path).bind (rows[·]?)

def DirRow.info (row : DirRow) : ChildInfo :=
  ⟨lastSegment row.path, true, row.size, row.mtime, row.etag, row.id⟩

def lookupWith (P : Platform) (rows : List DirRow) (path : String) (readBlock : DirRow → Result Bytes) :
    Result (Option Lookup) :=
  let path := normalizePath path
  match findDir rows path with
  | some row => do
    let block ← readBlock row
    let children ← parseChildBlock P block 0 (UInt32.ofNat block.length)
    return some (.dir (DirRow.info row) children)
  | none =>
    let parent := parentPath path
    let name := lastSegment path
    match findDir rows parent with
    | none => return none
    | some row => do
      let block ← readBlock row
      let children ← parseChildBlock P block 0 (UInt32.ofNat block.length)
      return (children.find? (·.name == name)).map Lookup.file

/-- The block of a row, cut out of the whole file. -/
def inlineBlock (P : Platform) (bytes : Bytes) (row : DirRow) : Result Bytes :=
  let start := P.usize row.blockOff.toNat
  let stop := min (start + P.usize row.blockLen.toNat) (2 ^ P.usizeBits - 1)
  match sliceGet bytes start stop with
  | none => throw (.error "child block out of range")
  | some block => return block

def lookupBytes (P : Platform) (bytes : Bytes) (path : String) : Result (Option Lookup) := do
  let header ← parseHeader P bytes
  match sliceGet bytes (P.usize header.dirTableOff.toNat) (P.usize header.metaOff.toNat) with
  | none => throw (.error "index dir table truncated")
  | some table =>
    let rows ← parseDirTable P table header.dirCount
    lookupWith P rows path (inlineBlock P bytes)

/-- The block of a row, read from its place in the file. -/
def fileBlock (dir : Descriptor) (row : DirRow) : Result Bytes :=
  if row.blockLen = 0 then return []
  else do
    match ← StateFile.readAt dir indexFile row.blockOff row.blockLen.toUInt64 with
    | none => throw (.error "index child block missing")
    | some block => return block

def lookupFile (P : Platform) (dir : Descriptor) (path : String) : Result (Option Lookup) := do
  match ← StateFile.readAt dir indexFile 0 (UInt64.ofNat headerLen) with
  | none => return none
  | some head =>
    if head.length < headerLen then throw (.error "index header truncated")
    let header ← parseHeader P head
    let tableLen := UInt64.ofNat (header.metaOff.toNat - header.dirTableOff.toNat)
    match ← StateFile.readAt dir indexFile header.dirTableOff tableLen with
    | none => throw (.error "index dir table missing")
    | some table =>
      let rows ← parseDirTable P table header.dirCount
      lookupWith P rows path (fileBlock dir)

/-! ## Finding a row -/

theorem findDir_sound {rows : List DirRow} {path : String} {row : DirRow} (found : findDir rows path = some row) :
    row ∈ rows ∧ row.path = path := by
  obtain ⟨i, searched, hit⟩ := Option.bind_eq_some_iff.mp found
  obtain ⟨other, probe, same⟩ := binarySearchBy_sound searched
  cases hit.symm.trans probe
  exact ⟨List.mem_of_getElem? hit, compare_eq_iff_eq.mp same⟩

theorem partitioned_of_ascending {rows : List DirRow} (ascending : rows.Pairwise fun a b => a.path ≤ b.path)
    (path : String) : Partitioned (fun row : DirRow => compare row.path path) rows := by
  refine ascending.imp fun {a b} below => ?_
  simp only [compare_lt_iff_lt, compare_gt_iff_gt]
  exact ⟨fun less => lt_of_le_of_lt below less, fun more => lt_of_lt_of_le more below⟩

theorem findDir_complete {rows : List DirRow} (ascending : rows.Pairwise fun a b => a.path ≤ b.path)
    {row : DirRow} (member : row ∈ rows) : ∃ other, findDir rows row.path = some other := by
  obtain ⟨i, searched⟩ := binarySearchBy_complete (partitioned_of_ascending ascending row.path) member
    (compare_eq_iff_eq.mpr rfl)
  obtain ⟨other, probe, _⟩ := binarySearchBy_sound searched
  exact ⟨other, by rw [findDir, searched, Option.bind_some, probe]⟩

/-! ## The rows of the directories -/

section Rows
variable {idx : Index} {bytes : Bytes} {dirs : List DirEntry} {rows : List DirRow}

theorem ascending_sortedDirs (idx : Index) (order : List Id) :
    (sortedDirs idx order).Pairwise fun a b => a.path ≤ b.path := by
  have total : Std.Total fun a b : DirEntry => a.path ≤ b.path := ⟨fun a b => le_total a.path b.path⟩
  have trans : IsTrans DirEntry fun a b => a.path ≤ b.path := ⟨fun _ _ _ => le_trans⟩
  exact List.pairwise_insertionSort _ _

theorem ascending_rows (listed : List.Forall₂ (RowOf bytes idx) dirs rows)
    (ascending : dirs.Pairwise fun a b => a.path ≤ b.path) : rows.Pairwise fun a b => a.path ≤ b.path := by
  induction listed with
  | nil => exact .nil
  | cons rowOf tail ih =>
    obtain ⟨below, ascending⟩ := List.pairwise_cons.mp ascending
    refine .cons (fun other member => ?_) (ih ascending)
    obtain ⟨dir, inTail, otherOf⟩ := exists_of_mem_right tail member
    rw [rowOf.path, otherOf.path]
    exact below dir inTail

theorem findDir_dir (listed : List.Forall₂ (RowOf bytes idx) dirs rows)
    (ascending : dirs.Pairwise fun a b => a.path ≤ b.path) {dir : DirEntry} (member : dir ∈ dirs)
    (only : ∀ other ∈ dirs, other.path = dir.path → other = dir) :
    ∃ row, findDir rows dir.path = some row ∧ RowOf bytes idx dir row := by
  obtain ⟨row, inRows, rowOf⟩ := exists_of_mem_left listed member
  obtain ⟨found, searched⟩ := findDir_complete (ascending_rows listed ascending) inRows
  rw [rowOf.path] at searched
  obtain ⟨foundIn, samePath⟩ := findDir_sound searched
  obtain ⟨other, otherIn, otherOf⟩ := exists_of_mem_right listed foundIn
  cases only other otherIn (otherOf.path.symm.trans samePath)
  exact ⟨found, searched, otherOf⟩

theorem findDir_none (listed : List.Forall₂ (RowOf bytes idx) dirs rows) {path : String}
    (absent : ∀ dir ∈ dirs, dir.path ≠ path) : findDir rows path = none := by
  rw [Option.eq_none_iff_forall_ne_some]
  intro row searched
  obtain ⟨inRows, samePath⟩ := findDir_sound searched
  obtain ⟨dir, member, rowOf⟩ := exists_of_mem_right listed inRows
  exact absent dir member (rowOf.path.symm.trans samePath)

end Rows

/-! ## The answer in terms of the directories -/

def DirEntry.info (dir : DirEntry) : ChildInfo :=
  ⟨lastSegment dir.path, true, dir.node.itemMeta.size, dir.node.itemMeta.mtime, dir.node.itemMeta.etag, dir.id⟩

def ReadsBlocks (idx : Index) (bytes : Bytes) (dirs : List DirEntry)
    (readBlock : DirRow → Result Bytes) : Prop :=
  ∀ dir ∈ dirs, ∀ row, RowOf bytes idx dir row → readBlock row = .ok (blockBytes idx dir)

section Answers
variable {P : Platform} {idx : Index} {now : UInt64} {bytes : Bytes} {header : Header} {dirs : List DirEntry}
  {rows : List DirRow} {readBlock : DirRow → Result Bytes}

theorem Encoded.readBack (encoded : Encoded P idx dirs now bytes header rows)
    (reads : ReadsBlocks idx bytes dirs readBlock) {dir : DirEntry} (member : dir ∈ dirs) {row : DirRow}
    (rowOf : RowOf bytes idx dir row) : readBlock row = .ok (blockBytes idx dir) ∧
      parseChildBlock P (blockBytes idx dir) 0 (UInt32.ofNat (blockBytes idx dir).length) =
        .ok (childInfos idx dir.id) := by
  obtain ⟨tail, stands⟩ := rowOf.block
  have inFile := stands.le_length
  have small := encoded.small
  have short := row.blockLen.toNat_lt
  rw [rowOf.length] at short
  refine ⟨reads dir member row rowOf, ?_⟩
  refine @parseChildBlock_complete _ _ [] _ _ _ (by omega) (encoded.shortChildren dir member) ?_ ?_
  · rw [List.append_nil]
    exact Stands.start _
  · exact UInt32.toNat_ofNat_of_lt' short

theorem lookupWith_dir (encoded : Encoded P idx dirs now bytes header rows)
    (ascending : dirs.Pairwise fun a b => a.path ≤ b.path) (reads : ReadsBlocks idx bytes dirs readBlock)
    {path : String} {dir : DirEntry} (member : dir ∈ dirs) (place : dir.path = normalizePath path)
    (only : ∀ other ∈ dirs, other.path = dir.path → other = dir) :
    lookupWith P rows path readBlock = .ok (some (.dir (DirEntry.info dir) (childInfos idx dir.id))) := by
  obtain ⟨row, searched, rowOf⟩ := findDir_dir encoded.listed ascending member only
  obtain ⟨read, parsed⟩ := encoded.readBack reads member rowOf
  have info : DirRow.info row = DirEntry.info dir := by
    simp only [DirRow.info, DirEntry.info, rowOf.path, rowOf.id, rowOf.size, rowOf.mtime, rowOf.etag]
  rw [lookupWith, ← place, searched]
  simp only [read, Result.ok_bind, parsed, Result.pure_eq, info]

theorem lookupWith_child (encoded : Encoded P idx dirs now bytes header rows)
    (ascending : dirs.Pairwise fun a b => a.path ≤ b.path) (reads : ReadsBlocks idx bytes dirs readBlock)
    {path : String} (absent : ∀ dir ∈ dirs, dir.path ≠ normalizePath path) {dir : DirEntry} (member : dir ∈ dirs)
    (place : dir.path = parentPath (normalizePath path))
    (only : ∀ other ∈ dirs, other.path = dir.path → other = dir) :
    lookupWith P rows path readBlock = .ok
      (((childInfos idx dir.id).find? (·.name == lastSegment (normalizePath path))).map Lookup.file) := by
  obtain ⟨row, searched, rowOf⟩ := findDir_dir encoded.listed ascending member only
  obtain ⟨read, parsed⟩ := encoded.readBack reads member rowOf
  simp only [lookupWith, findDir_none encoded.listed absent, ← place, searched, read, Result.ok_bind, parsed,
    Result.pure_eq]

theorem lookupWith_none (encoded : Encoded P idx dirs now bytes header rows) {path : String}
    (absent : ∀ dir ∈ dirs, dir.path ≠ normalizePath path)
    (noParent : ∀ dir ∈ dirs, dir.path ≠ parentPath (normalizePath path)) :
    lookupWith P rows path readBlock = .ok none := by
  simp only [lookupWith, findDir_none encoded.listed absent, findDir_none encoded.listed noParent, Result.pure_eq]

end Answers

/-! ## Both readers return the blocks -/

section Readers
variable {P : Platform} {idx : Index} {now : UInt64} {bytes : Bytes} {header : Header} {dirs : List DirEntry}
  {rows : List DirRow}

theorem inlineBlock_reads (encoded : Encoded P idx dirs now bytes header rows) :
    ReadsBlocks idx bytes dirs (inlineBlock P bytes) := by
  intro dir _ row rowOf
  obtain ⟨tail, stands⟩ := rowOf.block
  have inFile := stands.le_length
  have small := encoded.small
  have start : P.usize row.blockOff.toNat = row.blockOff.toNat := Platform.usize_of_lt (by omega)
  have len : P.usize row.blockLen.toNat = (blockBytes idx dir).length := by
    rw [rowOf.length]
    exact Platform.usize_of_lt (by omega)
  have stop : min (row.blockOff.toNat + (blockBytes idx dir).length) (2 ^ P.usizeBits - 1) =
      row.blockOff.toNat + (blockBytes idx dir).length := by omega
  simp only [inlineBlock, start, len, stop, sliceGet, stands.slice, Result.pure_eq]
  rw [if_pos ⟨Nat.le_add_right _ _, inFile⟩]

theorem fileBlock_reads {dir : Descriptor} {file : HostFile} (opened : dir indexFile = some file)
    (serves : Serves bytes file) (encoded : Encoded P idx dirs now bytes header rows) :
    ReadsBlocks idx bytes dirs (fileBlock dir) := by
  intro entry _ row rowOf
  obtain ⟨tail, stands⟩ := rowOf.block
  have inFile := stands.le_length
  have small := encoded.small
  have word := P.le_word
  rw [fileBlock]
  split
  · rename_i nothing
    have length := rowOf.length
    rw [nothing] at length
    exact congrArg Except.ok (List.length_eq_zero_iff.mp length.symm).symm
  · have len : row.blockLen.toUInt64.toNat = (blockBytes idx entry).length := by
      rw [UInt32.toNat_toUInt64, rowOf.length]
    have read := @StateFile.readAt_eq _ _ _ _ row.blockOff _ opened serves
      (by rw [len]; omega : _ + row.blockLen.toUInt64.toNat < 2 ^ 64)
    obtain ⟨front, whole, place⟩ := stands
    rw [read, len, whole, ← place, List.drop_left, List.take_left]
    rfl

theorem lookupBytes_eq (encoded : Encoded P idx dirs now bytes header rows) (path : String) :
    lookupBytes P bytes path = lookupWith P rows path (inlineBlock P bytes) := by
  obtain ⟨tableOff, metaOff, bound⟩ := encoded.offsets
  obtain ⟨tail, table⟩ := encoded.table
  rw [lookupBytes, encoded.parsedHeader, Result.ok_bind, tableOff, metaOff, sliceGet,
    if_pos ⟨Nat.le_add_right _ _, bound⟩, table.slice]
  simp only [encoded.parsedTable, Result.ok_bind]

theorem lookupFile_eq {dir : Descriptor} {file : HostFile} (opened : dir indexFile = some file)
    (serves : Serves bytes file) (encoded : Encoded P idx dirs now bytes header rows) (path : String) :
    lookupFile P dir path = lookupWith P rows path (fileBlock dir) := by
  obtain ⟨rest, head⟩ := encoded.head
  obtain ⟨_, _, bound⟩ := encoded.offsets
  obtain ⟨tail, front, whole, place⟩ := encoded.table
  have small := encoded.small
  have word := P.le_word
  have readHead := @StateFile.readAt_eq _ _ _ _ 0 (UInt64.ofNat headerLen) opened serves (by decide)
  -- the two ranges that are read hold just the header and just the table
  have header_only : ((bytes.drop (0 : UInt64).toNat).take (UInt64.ofNat headerLen).toNat) = headerBytes header := by
    rw [head]
    exact List.take_left' (length_headerBytes header)
  have parsedHead : parseHeader P (headerBytes header) = .ok header := by
    have alone := @parseHeader_complete P header [] (by simp)
    rwa [List.append_nil] at alone
  have tableLen : (UInt64.ofNat (header.metaOff.toNat - header.dirTableOff.toNat)).toNat =
      (rows.flatMap rowBytes).length := by
    rw [encoded.tableEnd, Nat.add_sub_cancel_left]
    exact UInt64.toNat_ofNat_of_lt' (by show _ < 2 ^ 64; omega)
  have readTable := @StateFile.readAt_eq _ _ _ _ header.dirTableOff _ opened serves
    (by rw [tableLen]; omega :
      _ + (UInt64.ofNat (header.metaOff.toNat - header.dirTableOff.toNat)).toNat < 2 ^ 64)
  have table_only : (bytes.drop header.dirTableOff.toNat).take (rows.flatMap rowBytes).length =
      rows.flatMap rowBytes := by
    rw [whole, ← place, List.drop_left, List.take_left]
  rw [lookupFile, readHead, Result.ok_bind, header_only]
  simp only [length_headerBytes, Nat.lt_irrefl, if_false, Result.ok_bind, parsedHead, readTable,
    tableLen, table_only, encoded.parsedTable]

end Readers

/-! ## The answer in terms of the index -/

def infoOf (id : Id) (node : Node) : ChildInfo :=
  ⟨node.eraseTop.name, node.itemMeta.isDir, node.itemMeta.size, node.itemMeta.mtime, node.itemMeta.etag, id⟩

/-- What a lookup answers: a directory that has a row with its children, and
whatever else is in the block of its parent as a file. -/
def answer (idx : Index) (path : String) : Option Lookup := do
  let id ← idx.resolve path
  let node ← idx.nodes[id]?
  if node.itemMeta.isDir ∧ (segments path).length < 64 then some (.dir (infoOf id node) (childInfos idx id))
  else if (segments path).length ≤ 64 then some (.file (infoOf id node)) else none

section Children
variable {idx : Index}

theorem find_childInfos_iff (inv : idx.RepInv) {p : Id} {name : String} {c : ChildInfo} :
    (childInfos idx p).find? (·.name == name) = some c ↔ c ∈ childInfos idx p ∧ c.name = name := by
  constructor
  · intro found
    exact ⟨List.mem_of_find?_eq_some found, by simpa using List.find?_some found⟩
  · rintro ⟨member, rfl⟩
    cases found : (childInfos idx p).find? (·.name == c.name) with
    | none => exact absurd (List.find?_eq_none.mp found _ member) (by simp)
    | some other =>
      have sameName : other.name = c.name := by simpa using List.find?_some found
      obtain ⟨entry, node⟩ := (mem_childInfos inv.sound).mp (List.mem_of_find?_eq_some found)
      obtain ⟨entryC, nodeC⟩ := (mem_childInfos inv.sound).mp member
      have sameId : other.id = c.id := inv.siblings (sameName ▸ entry) entryC
      rw [sameId, nodeC] at node
      cases other
      cases c
      simp_all [ChildInfo.node]

theorem infoOf_mem_childInfos (inv : idx.RepInv) {id p : Id} {name : String} {node : Node}
    (link : idx.links id = some (some p, name)) (found : idx.nodes[id]? = some node) :
    infoOf id node ∈ childInfos idx p ∧ (infoOf id node).name = name := by
  obtain ⟨other, same, parent, label⟩ := Index.links_eq_some_iff.mp link
  cases found.symm.trans same
  have kept : node.eraseTop = node := (eraseTop_eq_iff parent).mpr rfl
  have shown : (infoOf id node).name = name := by rw [← label, infoOf, kept]
  refine ⟨(mem_childInfos inv.sound).mpr ⟨shown ▸ inv.filed link, ?_⟩, shown⟩
  show idx.nodes[id]? = _
  rw [found, ChildInfo.node, shown]
  obtain ⟨_, _, ⟨_, _, _, _⟩⟩ := node
  simp_all [infoOf]

theorem link_of_mem_childInfos (inv : idx.RepInv) {p : Id} {c : ChildInfo} (member : c ∈ childInfos idx p) :
    idx.links c.id = some (some p, c.name) :=
  inv.sound ((mem_childInfos inv.sound).mp member).1

theorem childInfos_ascending (inv : idx.RepInv) (p : Id) :
    (childInfos idx p).Pairwise fun a b => a.name < b.name := by
  have ordered : (idx.kidsOf p).toList.Pairwise fun a b => a.1 < b.1 := by
    refine (ExtTreeSet.ordered_toList (t := idx.kidsOf p)).imp_of_mem ?_
    intro a b left right less
    have leftIn := ExtTreeSet.mem_toList.mp left
    have rightIn := ExtTreeSet.mem_toList.mp right
    rcases lt_trichotomy a.1 b.1 with before | same | after
    · exact before
    · -- entries with one name have one id, so they are the same entry
      have sameId : a.2 = b.2 := inv.siblings leftIn (same ▸ rightIn)
      have equal : a = b := Prod.ext same sameId
      have itself : pairCmp b b = .eq := Std.ReflCmp.compare_self
      rw [equal, itself] at less
      cases less
    · have more : compare a.1 b.1 = .gt := compare_gt_iff_gt.mpr after
      simp [pairCmp, compareLex, compareOn, more] at less
  rw [childInfos]
  refine List.Pairwise.filterMap _ ?_ ordered
  intro a b less c left d right
  obtain ⟨_, _, rfl⟩ := Option.map_eq_some_iff.mp left
  obtain ⟨_, _, rfl⟩ := Option.map_eq_some_iff.mp right
  exact less

end Children

section Paths
variable {idx : Index} {dirs : List DirEntry}

theorem DirList.trail_of_path (list : DirList idx dirs) (storable : Storable idx) {dir : DirEntry}
    (member : dir ∈ dirs) {segs : List String} (clean : ∀ name ∈ segs, CleanName name)
    (place : dir.path = joinPath segs) : Trail idx.links dir.id segs ∧ segs.length < 64 := by
  obtain ⟨own, trail, bound, path⟩ := list.trail member
  cases joinPath_injective (storable.cleanTrail trail) clean (path.symm.trans place)
  exact ⟨trail, bound⟩

theorem DirList.only (list : DirList idx dirs) (storable : Storable idx) {dir : DirEntry} (member : dir ∈ dirs) :
    ∀ other ∈ dirs, other.path = dir.path → other = dir := by
  intro other otherIn same
  obtain ⟨segs, trail, _, path⟩ := list.trail member
  obtain ⟨otherTrail, _⟩ := list.trail_of_path storable otherIn (storable.cleanTrail trail) (same.trans path)
  exact list.eq_of_id otherIn member
    (otherTrail.injective storable.rep.siblingsDiffer storable.rep.singleTop trail)

theorem Storable.lastSegment_trail (storable : Storable idx) {id : Id} {segs : List String} {node : Node}
    (trail : Trail idx.links id segs) (found : idx.nodes[id]? = some node) :
    lastSegment (joinPath segs) = node.eraseTop.name := by
  have clean := storable.cleanTrail trail
  cases trail with
  | top link =>
    obtain ⟨other, same, parent, _⟩ := Index.links_eq_some_iff.mp link
    cases found.symm.trans same
    simp only [Node.eraseTop, parent]
    decide
  | step link _ =>
    obtain ⟨other, same, parent, label⟩ := Index.links_eq_some_iff.mp link
    cases found.symm.trans same
    rw [lastSegment_joinPath clean, (eraseTop_eq_iff parent).mpr rfl, label]

end Paths

section Stored
variable {P : Platform} {idx : Index} {now : UInt64} {bytes : Bytes} {header : Header} {dirs : List DirEntry}
  {rows : List DirRow} {readBlock : DirRow → Result Bytes}

theorem lookupWith_eq_answer (encoded : Encoded P idx dirs now bytes header rows) (list : DirList idx dirs)
    (ascending : dirs.Pairwise fun a b => a.path ≤ b.path) (storable : Storable idx)
    (reads : ReadsBlocks idx bytes dirs readBlock) (path : String) :
    lookupWith P rows path readBlock = .ok (answer idx path) := by
  have clean : ∀ name ∈ segments path, CleanName name := fun _ member => cleanName_of_mem_segments member
  -- the parent's block is where the last name is looked for
  have parentPlace : ∀ {front name}, segments path = front ++ [name] →
      parentPath (normalizePath path) = joinPath front ∧ lastSegment (normalizePath path) = name := by
    intro front name split
    rw [normalizePath, split]
    rw [split] at clean
    exact ⟨parentPath_joinPath clean, lastSegment_joinPath clean⟩
  cases resolved : idx.resolve path with
  | some id =>
    have trail := (Index.resolve_eq_some_iff storable.rep).mp resolved
    obtain ⟨label, link⟩ := trail.exists_link
    obtain ⟨node, found, _⟩ := Option.map_eq_some_iff.mp link
    by_cases row : node.itemMeta.isDir = true ∧ (segments path).length < 64
    · have member := list.exists_dir trail row.2 found (.inl row.1)
      have info : DirEntry.info ⟨id, joinPath (segments path), node⟩ = infoOf id node := by
        have name := storable.lastSegment_trail trail found
        simp only [DirEntry.info, infoOf, name, row.1]
      rw [lookupWith_dir encoded ascending reads member rfl (list.only storable member), info]
      simp [answer, resolved, found, row]
    · have absent : ∀ dir ∈ dirs, dir.path ≠ normalizePath path := by
        intro dir member place
        obtain ⟨other, short⟩ := list.trail_of_path storable member clean place
        have sameId := other.injective storable.rep.siblingsDiffer storable.rep.singleTop trail
        have stored := (list.all.mp member).2.1
        rw [sameId, found] at stored
        have isDir := list.isDir storable member
        rw [← Option.some.inj stored] at isDir
        exact row ⟨isDir, short⟩
      have below : segments path ≠ [] := by
        intro top
        rw [top] at trail
        obtain ⟨_, topLink⟩ := Trail.nil_iff.mp trail
        exact row ⟨storable.rootDir (storable.rep.top topLink) found, by rw [top]; decide⟩
      obtain ⟨front, name, split⟩ := List.eq_nil_or_concat' (segments path) |>.resolve_left below
      obtain ⟨parent, last⟩ := parentPlace split
      by_cases short : (segments path).length ≤ 64
      · rw [split] at trail
        obtain ⟨dir, member, place, up, childLink⟩ := list.child storable trail (by rwa [split] at short)
        have listedChild := infoOf_mem_childInfos storable.rep childLink found
        have hit := (find_childInfos_iff storable.rep).mpr listedChild
        rw [lookupWith_child encoded ascending reads absent member (place.trans parent.symm)
          (list.only storable member), last, hit]
        simp [answer, resolved, found, row, short]
      · have noParent : ∀ dir ∈ dirs, dir.path ≠ parentPath (normalizePath path) := by
          intro dir member place
          have frontClean : ∀ n ∈ front, CleanName n := fun n inFront =>
            clean n (by rw [split]; exact List.mem_append_left _ inFront)
          obtain ⟨_, bound⟩ := list.trail_of_path storable member frontClean (place.trans parent)
          rw [split, List.length_append, List.length_singleton] at short
          omega
        rw [lookupWith_none encoded absent noParent]
        simp [answer, resolved, found, row, short]
  | none =>
    have noTrail : ∀ id, ¬ Trail idx.links id (segments path) := by
      intro id trail
      rw [(Index.resolve_eq_some_iff storable.rep).mpr trail] at resolved
      cases resolved
    have absent : ∀ dir ∈ dirs, dir.path ≠ normalizePath path := fun dir member place =>
      noTrail dir.id (list.trail_of_path storable member clean place).1
    have nothing : answer idx path = none := by simp [answer, resolved]
    rw [nothing]
    by_cases parentRow : ∃ dir ∈ dirs, dir.path = parentPath (normalizePath path)
    · obtain ⟨dir, member, place⟩ := parentRow
      rcases List.eq_nil_or_concat' (segments path) with top | ⟨front, name, split⟩
      · have root : parentPath (normalizePath path) = normalizePath path := by
          rw [normalizePath, top]
          decide
        exact absurd (place.trans root) (absent dir member)
      · obtain ⟨parent, last⟩ := parentPlace split
        have frontClean : ∀ n ∈ front, CleanName n := fun n inFront =>
          clean n (by rw [split]; exact List.mem_append_left _ inFront)
        obtain ⟨up, _⟩ := list.trail_of_path storable member frontClean (place.trans parent)
        have missing : (childInfos idx dir.id).find? (·.name == name) = none := by
          rw [Option.eq_none_iff_forall_ne_some]
          intro c found
          obtain ⟨child, rfl⟩ := (find_childInfos_iff storable.rep).mp found
          have whole := Trail.step (link_of_mem_childInfos storable.rep child) up
          rw [← split] at whole
          exact noTrail c.id whole
        rw [lookupWith_child encoded ascending reads absent member place (list.only storable member), last, missing]
        rfl
    · exact lookupWith_none encoded absent fun dir member place => parentRow ⟨dir, member, place⟩

/-- Both lookups answer from the index whatever the depth of its trees. -/
theorem lookups_answer (encoded : Encoded P idx dirs now bytes header rows) (list : DirList idx dirs)
    (ascending : dirs.Pairwise fun a b => a.path ≤ b.path) (storable : Storable idx) (path : String) :
    lookupBytes P bytes path = .ok (answer idx path) ∧
      ∀ dir file, dir indexFile = some file → Serves bytes file → lookupFile P dir path = .ok (answer idx path) := by
  refine ⟨?_, fun dir file opened serves => ?_⟩
  · rw [lookupBytes_eq encoded]
    exact lookupWith_eq_answer encoded list ascending storable (inlineBlock_reads encoded) path
  · rw [lookupFile_eq opened serves encoded]
    exact lookupWith_eq_answer encoded list ascending storable (fileBlock_reads opened serves encoded) path

end Stored

/-! ## Refinement of the resolution in memory -/

/-- What the path resolves to, with its record and, for a directory, its children. -/
def resolved (idx : Index) (path : String) : Option Lookup := do
  let id ← idx.resolve path
  let node ← idx.nodes[id]?
  return if node.itemMeta.isDir then .dir (infoOf id node) (childInfos idx id) else .file (infoOf id node)

theorem answer_eq_resolved {idx : Index} (inv : idx.RepInv)
    (depth : ∀ id segs, Trail idx.links id segs → segs.length ≤ 63) (path : String) :
    answer idx path = resolved idx path := by
  unfold answer resolved
  cases found : idx.resolve path with
  | none => rfl
  | some id =>
    have bound := depth id _ ((Index.resolve_eq_some_iff inv).mp found)
    have short : (segments path).length < 64 := by omega
    have fits : (segments path).length ≤ 64 := by omega
    simp only [Option.bind_eq_bind, Option.bind_some, short, and_true, fits, if_true]
    cases idx.nodes[id]? with
    | none => rfl
    | some node =>
      simp only [Option.bind_some]
      split <;> rfl

theorem resolved_eq_none_iff {idx : Index} (inv : idx.RepInv) {path : String} :
    resolved idx path = none ↔ idx.resolve path = none := by
  unfold resolved
  cases found : idx.resolve path with
  | none => simp
  | some id =>
    obtain ⟨_, link⟩ := ((Index.resolve_eq_some_iff inv).mp found).exists_link
    obtain ⟨node, present, _⟩ := Option.map_eq_some_iff.mp link
    simp [present]

theorem mem_childInfos_iff_parent {idx : Index} (inv : idx.RepInv) {p : Id} {c : ChildInfo} :
    c ∈ childInfos idx p ↔ ∃ node, idx.nodes[c.id]? = some node ∧ node.parent = some p ∧ c = infoOf c.id node := by
  constructor
  · intro member
    have found := ((mem_childInfos inv.sound).mp member).2
    refine ⟨_, found, rfl, ?_⟩
    rfl
  · rintro ⟨node, found, parent, same⟩
    have link : idx.links c.id = some (some p, node.name) := Index.links_eq_some_iff.mpr ⟨node, found, parent, rfl⟩
    rw [same]
    exact (infoOf_mem_childInfos inv link found).1

/-- A lookup in the stored snapshot answers as the index resolves: a directory
with its record and its children by name, a file with its record, or nothing. -/
theorem lookup_refines_resolve (P : Platform) (json : P.json.RoundTrips) (order : List Id) (now : UInt64)
    (idx : Index) (enumerates : Enumerates order idx) (storable : Storable idx)
    (depth : ∀ id segs, Trail idx.links id segs → segs.length ≤ 63) (fits : Fits P order now idx) :
    ∃ bytes, encode P order now idx = .ok bytes ∧
      (∀ path, lookupBytes P bytes path = .ok (resolved idx path)) ∧
      (∀ dir file path, dir indexFile = some file → Serves bytes file →
        lookupFile P dir path = .ok (resolved idx path)) ∧
      (∀ path, resolved idx path = none ↔ idx.resolve path = none) ∧
      ∀ p, (childInfos idx p).Pairwise (fun a b => a.name < b.name) ∧
        ∀ c, c ∈ childInfos idx p ↔
          ∃ node, idx.nodes[c.id]? = some node ∧ node.parent = some p ∧ c = infoOf c.id node := by
  obtain ⟨bytes, header, rows, written, encoded⟩ := encode_encoded json fits
  have answers := lookups_answer encoded (dirList_sortedDirs enumerates) (ascending_sortedDirs idx order) storable
  have same := answer_eq_resolved storable.rep depth
  refine ⟨bytes, written, fun path => ?_, fun dir file path opened serves => ?_, fun path => ?_, fun p => ?_⟩
  · rw [← same]
    exact (answers path).1
  · rw [← same]
    exact (answers path).2 dir file opened serves
  · exact resolved_eq_none_iff storable.rep
  · exact ⟨childInfos_ascending storable.rep p, fun c => mem_childInfos_iff_parent storable.rep⟩

/-- The file below a folder, spelled with slashes to spare. -/
theorem lookup_refines_resolve_foldersAB :
    ∃ bytes, encode (wasm32 metaText) (Index.ofTree foldersAB).nodes.keys 7 (Index.ofTree foldersAB) = .ok bytes ∧
      lookupFile (wasm32 metaText) (fun _ => some (StateFile.serve bytes)) "//B/f.txt/" =
        .ok (some (.file ⟨"f.txt", false, 1, 0, "", "f"⟩)) := by
  have represents := represents_ofTree foldersAB
  have folders : foldersAB.FoldersOnly := NodeTree.foldersOnly_of_list (by decide)
  have depth : foldersAB.DepthLe 63 := NodeTree.depthLe_of_climb (by decide)
  have succeeds : (encode (wasm32 metaText) (Index.ofTree foldersAB).nodes.keys 7
      (Index.ofTree foldersAB)).isOk = true := by decide +kernel
  obtain ⟨bytes, written⟩ := Result.exists_of_isOk succeeds
  obtain ⟨bytes, encoded, _, file, _⟩ := lookup_refines_resolve (wasm32 metaText) metaText_roundTrips _ 7 _
    (enumerates_keys _) (storable_of_holds represents folders) (fun _ _ trail => depth (represents.trail_up trail))
    (fits_of_encode rfl written)
  have answered : resolved (Index.ofTree foldersAB) "//B/f.txt/" =
      some (.file ⟨"f.txt", false, 1, 0, "", "f"⟩) := by decide
  refine ⟨bytes, encoded, ?_⟩
  rw [file _ _ "//B/f.txt/" rfl (StateFile.serves_serve bytes), answered]

end Snapshot

end OneDriveDavfs
