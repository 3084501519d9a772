import Mathlib.Algebra.Order.BigOperators.Group.List
import OneDriveDavfs.Snapshot.Format

/-! What the writers put down and what the readers find.

Each writer appends the bytes of its record, and the reader of that record
takes exactly these bytes off. `Encoded` collects what can be read in an
encoded snapshot: its header, its metadata, and one row with one child block
for each directory.
-/

set_option autoImplicit false

namespace OneDriveDavfs

open Std Library.Collections Library.Wire

namespace Platform

variable {P : Platform}

theorem word_le (P : Platform) : 2 ^ 32 ≤ 2 ^ P.usizeBits := Nat.pow_le_pow_right (by decide) P.atLeast32

theorem le_word (P : Platform) : 2 ^ P.usizeBits ≤ 2 ^ 64 := Nat.pow_le_pow_right (by decide) P.atMost64

theorem usize_of_lt {n : Nat} (bound : n < 2 ^ P.usizeBits) : P.usize n = n := Nat.mod_eq_of_lt bound

theorem add_of_lt {a b : Nat} (bound : a + b < 2 ^ P.usizeBits) : P.add a b = .ok (a + b) := if_pos bound

end Platform

theorem sliceOf_stands {data part tail : Bytes} {pos : Nat} (stands : Stands data pos (part ++ tail)) :
    sliceOf data pos (pos + part.length) = .ok part := by
  rw [sliceOf, if_pos ⟨Nat.le_add_right _ _, stands.le_length⟩, stands.slice]

namespace Snapshot

/-! ## Strings and numbers -/

def strBytes (s : String) : Bytes := le 4 (utf8 s).length ++ utf8 s

theorem writeStr_eq (buf : Bytes) (s : String) : writeStr buf s = buf ++ strBytes s := by
  simp [writeStr, strBytes]

def Short (s : String) : Prop := (utf8 s).length < 2 ^ 32

section Readers
variable {P : Platform} {data tail : Bytes} {pos : Nat}

theorem slice_num {width value : Nat} (stands : Stands data pos (le width value ++ tail))
    (bound : value < 256 ^ width) : ofLe (slice data pos (pos + width)) = value := by
  have part := stands.slice
  rw [length_le] at part
  rw [part, ofLe_le, Nat.mod_eq_of_lt bound]

theorem after_num {width value : Nat} (stands : Stands data pos (le width value ++ tail)) :
    Stands data (pos + width) tail := by
  have next := stands.next
  rwa [length_le] at next

theorem readStr_complete {s : String} (small : data.length < 2 ^ P.usizeBits) (short : Short s)
    (stands : Stands data pos (strBytes s ++ tail)) :
    readStr P data pos = .ok (s, pos + (strBytes s).length) := by
  rw [strBytes, List.append_assoc] at stands
  have wide := P.word_le
  have text := after_num stands
  have lenEnd := stands.le_length
  have stop := text.le_length
  rw [length_le] at lenEnd
  have len : P.usize (ofLe (slice data pos (pos + 4))) = (utf8 s).length := by
    rw [slice_num stands (by norm_num; exact short)]
    exact Platform.usize_of_lt (Nat.lt_of_lt_of_le short wide)
  simp only [readStr, Platform.add_of_lt (show pos + 4 < 2 ^ P.usizeBits by omega), Result.ok_bind,
    if_neg (show ¬ pos + 4 > data.length by omega), len, Platform.add_of_lt
    (show pos + 4 + (utf8 s).length < 2 ^ P.usizeBits by omega),
    if_neg (show ¬ pos + 4 + (utf8 s).length > data.length by omega), text.slice, fromUtf8_utf8]
  simp only [Result.pure_eq, strBytes, List.length_append, length_le, Nat.add_assoc]

/-! ## Records -/

def childBytes (c : ChildInfo) : Bytes :=
  strBytes c.name ++ ([if c.isDir then 1 else 0] ++ (le 8 c.size.toNat ++ (le 8 c.mtime.toNat ++
    (strBytes c.etag ++ strBytes c.id))))

theorem writeChild_eq (buf : Bytes) (c : ChildInfo) : writeChild buf c = buf ++ childBytes c := by
  simp only [writeChild, writeStr_eq, childBytes, List.append_assoc]

def rowBytes (row : DirRow) : Bytes :=
  strBytes row.path ++ (le 8 row.blockOff.toNat ++ (le 4 row.blockLen.toNat ++ (strBytes row.id ++
    (le 8 row.size.toNat ++ (le 8 row.mtime.toNat ++ strBytes row.etag)))))

theorem writeDirRow_eq (buf : Bytes) (row : DirRow) : writeDirRow buf row = buf ++ rowBytes row := by
  simp only [writeDirRow, writeStr_eq, rowBytes, List.append_assoc]

structure ShortChild (c : ChildInfo) : Prop where
  name : Short c.name
  etag : Short c.etag
  id : Short c.id

structure ShortRow (row : DirRow) : Prop where
  path : Short row.path
  id : Short row.id
  etag : Short row.etag

theorem u64_lt (n : UInt64) : n.toNat < 256 ^ 8 := n.toNat_lt

theorem u32_lt (n : UInt32) : n.toNat < 256 ^ 4 := n.toNat_lt

theorem readChild_complete {c : ChildInfo} (small : data.length < 2 ^ P.usizeBits) (short : ShortChild c)
    (stands : Stands data pos (childBytes c ++ tail)) :
    readChild P data pos = .ok (c, pos + (childBytes c).length) := by
  simp only [childBytes, List.append_assoc] at stands
  have flag := stands.next
  have size := flag.next
  have mtime := after_num size
  have etag := after_num mtime
  have id := etag.next
  have numbers := mtime.le_length
  have isDir : decide ((if c.isDir = true then (1 : UInt8) else 0) ≠ 0) = c.isDir := by
    cases c.isDir <;> rfl
  simp only [List.length_singleton, length_le] at size mtime etag id numbers
  simp only [readChild, readStr_complete small short.name stands, Result.ok_bind, flag.head,
    Platform.add_of_lt (show pos + (strBytes c.name).length + 1 + 16 < 2 ^ P.usizeBits by omega),
    if_neg (show ¬ pos + (strBytes c.name).length + 1 + 16 > data.length by omega),
    slice_num size (u64_lt _), slice_num mtime (u64_lt _),
    readStr_complete small short.etag etag, readStr_complete small short.id id, isDir]
  have length : (childBytes c).length =
      (strBytes c.name).length + 1 + 8 + 8 + (strBytes c.etag).length + (strBytes c.id).length := by
    simp only [childBytes, List.length_append, List.length_singleton, length_le]
    omega
  simp only [Result.pure_eq, UInt64.ofNat_toNat, length, Nat.add_assoc]

theorem childBytes_ne_nil (c : ChildInfo) : childBytes c ≠ [] := by
  simp [childBytes, strBytes, le]

theorem readChildren_complete {children : List ChildInfo} {fuel : Nat} (small : data.length < 2 ^ P.usizeBits)
    (short : ∀ c ∈ children, ShortChild c) (stands : Stands data pos (children.flatMap childBytes))
    (enough : children.length ≤ fuel) : readChildren P data fuel pos = .ok children := by
  induction children generalizing pos fuel with
  | nil =>
    have done : ¬ pos < data.length := by
      have length := stands.length
      simp only [List.flatMap_nil, List.length_nil] at length
      omega
    cases fuel <;> simp [readChildren, done]
  | cons c rest ih =>
    obtain ⟨fuel, rfl⟩ : ∃ n, fuel = n + 1 := ⟨fuel - 1, by simp only [List.length_cons] at enough; omega⟩
    rw [List.flatMap_cons] at stands
    have more : pos < data.length := by
      have length := stands.le_length
      have positive := List.length_pos_of_ne_nil (childBytes_ne_nil c)
      omega
    have first := readChild_complete small (short c List.mem_cons_self) stands
    have others := ih (fun d member => short d (List.mem_cons_of_mem _ member)) stands.next
      (Nat.le_of_succ_le_succ enough)
    simp only [readChildren, if_pos more, first, others, Result.ok_bind, Result.pure_eq]

theorem length_le_flatMap (children : List ChildInfo) :
    children.length ≤ (children.flatMap childBytes).length := by
  induction children with
  | nil => simp
  | cons c rest ih =>
    have positive := List.length_pos_of_ne_nil (childBytes_ne_nil c)
    simp only [List.flatMap_cons, List.length_cons, List.length_append]
    omega

theorem parseChildBlock_complete {children : List ChildInfo} {off : UInt64} {len : UInt32}
    (small : data.length < 2 ^ P.usizeBits) (short : ∀ c ∈ children, ShortChild c)
    (stands : Stands data off.toNat (children.flatMap childBytes ++ tail))
    (length : len.toNat = (children.flatMap childBytes).length) :
    parseChildBlock P data off len = .ok children := by
  have bound := stands.le_length
  have start : P.usize off.toNat = off.toNat := Platform.usize_of_lt (by omega)
  have count : P.usize len.toNat = (children.flatMap childBytes).length := by
    rw [length]
    exact Platform.usize_of_lt (by omega)
  have whole : Stands (children.flatMap childBytes) 0 (children.flatMap childBytes) := Stands.start _
  simp only [parseChildBlock, start, count, Platform.add_of_lt (Nat.lt_of_le_of_lt bound small), Result.ok_bind,
    if_neg (Nat.not_lt.mpr bound), sliceOf_stands stands]
  exact readChildren_complete (by omega) short whole (length_le_flatMap children)

theorem readDirRow_complete {row : DirRow} (small : data.length < 2 ^ P.usizeBits) (short : ShortRow row)
    (stands : Stands data pos (rowBytes row ++ tail)) :
    readDirRow P data pos = .ok (row, pos + (rowBytes row).length) := by
  simp only [rowBytes, List.append_assoc] at stands
  have off := stands.next
  have len := after_num off
  have id := after_num len
  have size := id.next
  have mtime := after_num size
  have etag := after_num mtime
  have block := len.le_length
  have numbers := mtime.le_length
  simp only [length_le] at block numbers
  simp only [readDirRow, readStr_complete small short.path stands, Result.ok_bind,
    Platform.add_of_lt (show pos + (strBytes row.path).length + 12 < 2 ^ P.usizeBits by omega),
    if_neg (show ¬ pos + (strBytes row.path).length + 12 > data.length by omega),
    slice_num off (u64_lt _), slice_num len (u32_lt _), readStr_complete small short.id id,
    Platform.add_of_lt (show pos + (strBytes row.path).length + 12 + (strBytes row.id).length + 16 <
      2 ^ P.usizeBits by omega),
    if_neg (show ¬ pos + (strBytes row.path).length + 12 + (strBytes row.id).length + 16 > data.length by omega),
    slice_num size (u64_lt _), slice_num mtime (u64_lt _), readStr_complete small short.etag etag]
  have length : (rowBytes row).length = (strBytes row.path).length + 8 + 4 + (strBytes row.id).length + 8 + 8 +
      (strBytes row.etag).length := by
    simp only [rowBytes, List.length_append, length_le]
    omega
  simp only [Result.pure_eq, UInt64.ofNat_toNat, UInt32.ofNat_toNat, length, Nat.add_assoc]

theorem readDirRows_complete {rows : List DirRow} (small : data.length < 2 ^ P.usizeBits)
    (short : ∀ row ∈ rows, ShortRow row) (stands : Stands data pos (rows.flatMap rowBytes)) :
    readDirRows P data rows.length pos = .ok rows := by
  induction rows generalizing pos with
  | nil => rfl
  | cons row rest ih =>
    rw [List.flatMap_cons] at stands
    have first := readDirRow_complete small (short row List.mem_cons_self) stands
    have others := ih (fun d member => short d (List.mem_cons_of_mem _ member)) stands.next
    simp only [List.length_cons, readDirRows, first, others, Result.ok_bind, Result.pure_eq]

end Readers

/-! ## The header -/

def headerBytes (header : Header) : Bytes :=
  magic ++ (le 4 version ++ (le 8 header.dirTableOff.toNat ++ (le 4 header.dirCount.toNat ++
    (le 8 header.metaOff.toNat ++ le 4 header.metaLen.toNat))))

@[simp] theorem length_headerBytes (header : Header) : (headerBytes header).length = headerLen := by
  simp only [headerBytes, List.length_append, length_le]
  rfl

theorem writeHeader_eq (header : Header) (rest : Bytes) :
    writeHeader (List.replicate headerLen 0 ++ rest) header.dirTableOff header.dirCount header.metaOff
      header.metaLen = headerBytes header ++ rest := by
  have zeros : List.replicate headerLen (0 : UInt8) = List.replicate 4 0 ++ (List.replicate 4 0 ++
      (List.replicate 8 0 ++ (List.replicate 4 0 ++ (List.replicate 8 0 ++ List.replicate 4 0)))) := rfl
  rw [zeros, headerBytes, writeHeader]
  simp only [List.append_assoc]
  rw [← List.nil_append (List.replicate 4 0 ++ _), overwrite_append (show 0 = ([] : Bytes).length from rfl)
    (show (List.replicate 4 (0 : UInt8)).length = magic.length from rfl)]
  rw [overwrite_append (by simp [magic]) (by simp), overwrite_append (by simp [magic]) (by simp),
    overwrite_append (by simp [magic]) (by simp), overwrite_append (by simp [magic]) (by simp),
    overwrite_append (by simp [magic]) (by simp)]
  simp only [List.nil_append, List.append_assoc]

/-- A header is read back from a file whose length covers its offsets, and from its own 32 bytes. -/
theorem parseHeader_complete {P : Platform} {header : Header} {rest : Bytes}
    (covers : rest ≠ [] → P.usize header.dirTableOff.toNat ≤ headerLen + rest.length ∧
      P.usize header.metaOff.toNat ≤ headerLen + rest.length) :
    parseHeader P (headerBytes header ++ rest) = .ok header := by
  have stands := Stands.start (headerBytes header ++ rest)
  have length : (headerBytes header ++ rest).length = headerLen + rest.length := by simp
  have parts : headerBytes header ++ rest = magic ++ (le 4 version ++ (le 8 header.dirTableOff.toNat ++
      (le 4 header.dirCount.toNat ++ (le 8 header.metaOff.toNat ++ (le 4 header.metaLen.toNat ++ rest))))) := by
    simp only [headerBytes, List.append_assoc]
  generalize headerBytes header ++ rest = bytes at length parts stands ⊢
  rw [parts] at stands
  -- the fields one behind the other
  have ver : Stands bytes 4 _ := parts ▸ stands.next
  have tableOff : Stands bytes 8 _ := after_num ver
  have count : Stands bytes 16 _ := after_num tableOff
  have metaOff : Stands bytes 20 _ := after_num count
  have metaLen : Stands bytes 28 _ := after_num metaOff
  have magicRead : slice bytes 0 4 = magic := parts ▸ stands.slice
  have verRead : ofLe (slice bytes 4 8) = version := slice_num ver (by decide)
  have tableOffRead : ofLe (slice bytes 8 16) = header.dirTableOff.toNat := slice_num tableOff (u64_lt _)
  have countRead : ofLe (slice bytes 16 20) = header.dirCount.toNat := slice_num count (u32_lt _)
  have metaOffRead : ofLe (slice bytes 20 28) = header.metaOff.toNat := slice_num metaOff (u64_lt _)
  have metaLenRead : ofLe (slice bytes 28 32) = header.metaLen.toNat := slice_num metaLen (u32_lt _)
  have inRange : ¬ ((P.usize header.dirTableOff.toNat > bytes.length ∨ P.usize header.metaOff.toNat > bytes.length) ∧
      bytes.length ≠ headerLen ∧
      (P.usize header.metaOff.toNat > bytes.length ∨ P.usize header.dirTableOff.toNat > bytes.length)) := by
    rintro ⟨out, long, _⟩
    have nonempty : rest ≠ [] := by
      rintro rfl
      exact long (by simpa using length)
    have bounds := covers nonempty
    omega
  simp only [parseHeader, if_neg (show ¬ bytes.length < headerLen by omega), magicRead, verRead, ne_eq,
    not_true_eq_false, if_false, tableOffRead, countRead, metaOffRead, metaLenRead, UInt64.ofNat_toNat,
    UInt32.ofNat_toNat, if_neg inRange, Result.pure_eq]

/-! ## The whole file -/

def blockBytes (idx : Index) (dir : DirEntry) : Bytes := (childInfos idx dir.id).flatMap childBytes

def rowSize (dir : DirEntry) : Nat :=
  (strBytes dir.path).length + 12 + (strBytes dir.id).length + 16 +
    (strBytes dir.node.itemMeta.etag).length

def encodedSize (idx : Index) (dirs : List DirEntry) (text : Bytes) : Nat :=
  headerLen + (dirs.flatMap (blockBytes idx)).length + (dirs.map rowSize).sum + text.length

/-- Every length and offset fits its field, and the file fits the memory. -/
structure Fits (P : Platform) (order : List Id) (now : UInt64) (idx : Index) : Prop where
  rows : ∀ dir ∈ sortedDirs idx order, Short dir.path ∧ Short dir.id ∧ Short dir.node.itemMeta.etag
  children : ∀ dir ∈ sortedDirs idx order, ∀ c ∈ childInfos idx dir.id, ShortChild c
  blocks : ∀ dir ∈ sortedDirs idx order, (blockBytes idx dir).length < 2 ^ 32
  count : (sortedDirs idx order).length < 2 ^ 32
  text : ∀ text, P.json.toVec (snapshotMeta idx (sortedDirs idx order) now) = .ok text →
    text.length < 2 ^ 32 ∧ encodedSize idx (sortedDirs idx order) text < 2 ^ P.usizeBits

structure RowOf (bytes : Bytes) (idx : Index) (dir : DirEntry) (row : DirRow) : Prop where
  path : row.path = dir.path
  id : row.id = dir.id
  size : row.size = dir.node.itemMeta.size
  mtime : row.mtime = dir.node.itemMeta.mtime
  etag : row.etag = dir.node.itemMeta.etag
  block : ∃ tail, Stands bytes row.blockOff.toNat (blockBytes idx dir ++ tail)
  length : row.blockLen.toNat = (blockBytes idx dir).length

/-- What is in the file of an encoded index. -/
structure Encoded (P : Platform) (idx : Index) (dirs : List DirEntry) (now : UInt64) (bytes : Bytes)
    (header : Header) (rows : List DirRow) : Prop where
  small : bytes.length < 2 ^ P.usizeBits
  head : ∃ rest, bytes = headerBytes header ++ rest
  readMeta : parseMeta P bytes header.metaOff header.metaLen = .ok (snapshotMeta idx dirs now)
  table : ∃ tail, Stands bytes header.dirTableOff.toNat (rows.flatMap rowBytes ++ tail)
  tableEnd : header.metaOff.toNat = header.dirTableOff.toNat + (rows.flatMap rowBytes).length
  count : header.dirCount.toNat = rows.length
  listed : List.Forall₂ (RowOf bytes idx) dirs rows
  shortRows : ∀ row ∈ rows, ShortRow row
  shortChildren : ∀ dir ∈ dirs, ∀ c ∈ childInfos idx dir.id, ShortChild c

theorem foldl_writeChild (buf : Bytes) (children : List ChildInfo) :
    children.foldl writeChild buf = buf ++ children.flatMap childBytes := by
  induction children generalizing buf with
  | nil => simp
  | cons c rest ih => rw [List.foldl_cons, ih, writeChild_eq, List.flatMap_cons, List.append_assoc]

theorem foldl_writeDirRow (buf : Bytes) (rows : List DirRow) :
    rows.foldl writeDirRow buf = buf ++ rows.flatMap rowBytes := by
  induction rows generalizing buf with
  | nil => simp
  | cons row rest ih => rw [List.foldl_cons, ih, writeDirRow_eq, List.flatMap_cons, List.append_assoc]

def rowAt (idx : Index) (off : Nat) (dir : DirEntry) : DirRow :=
  ⟨dir.path, UInt64.ofNat off, UInt32.ofNat (blockBytes idx dir).length, dir.id,
    dir.node.itemMeta.size, dir.node.itemMeta.mtime, dir.node.itemMeta.etag⟩

def rowsFrom (idx : Index) : Nat → List DirEntry → List DirRow
  | _, [] => []
  | off, dir :: rest => rowAt idx off dir :: rowsFrom idx (off + (blockBytes idx dir).length) rest

theorem foldl_writeBlock (idx : Index) (dirs : List DirEntry) (buf : Bytes) (rows : List DirRow) :
    dirs.foldl (writeBlock idx) (buf, rows) =
      (buf ++ dirs.flatMap (blockBytes idx), rows ++ rowsFrom idx buf.length dirs) := by
  induction dirs generalizing buf rows with
  | nil => simp [rowsFrom]
  | cons dir rest ih =>
    have one : writeBlock idx (buf, rows) dir = (buf ++ blockBytes idx dir, rows ++ [rowAt idx buf.length dir]) := by
      simp [writeBlock, foldl_writeChild, blockBytes, rowAt]
    rw [List.foldl_cons, one, ih]
    simp [rowsFrom]

theorem rowsFrom_rowOf {bytes tail : Bytes} {idx : Index} {dirs : List DirEntry} {off : Nat}
    (stands : Stands bytes off (dirs.flatMap (blockBytes idx) ++ tail)) (small : bytes.length < 2 ^ 64)
    (blocks : ∀ dir ∈ dirs, (blockBytes idx dir).length < 2 ^ 32) :
    List.Forall₂ (RowOf bytes idx) dirs (rowsFrom idx off dirs) := by
  induction dirs generalizing off with
  | nil => exact .nil
  | cons dir rest ih =>
    rw [List.flatMap_cons, List.append_assoc] at stands
    have bound := stands.le_length
    have place : (UInt64.ofNat off).toNat = off := UInt64.toNat_ofNat_of_lt' (Nat.lt_of_le_of_lt (by omega) small)
    have others := ih stands.next fun d member => blocks d (List.mem_cons_of_mem _ member)
    refine .cons ⟨rfl, rfl, rfl, rfl, rfl, ?_, ?_⟩ others
    · rw [rowAt, place]
      exact ⟨_, stands⟩
    · exact UInt32.toNat_ofNat_of_lt' (blocks dir List.mem_cons_self)

theorem length_rowsFrom (idx : Index) (off : Nat) (dirs : List DirEntry) :
    (rowsFrom idx off dirs).length = dirs.length := by
  induction dirs generalizing off with
  | nil => rfl
  | cons dir rest ih => simp [rowsFrom, ih]

theorem length_rowBytes (idx : Index) (off : Nat) (dirs : List DirEntry) :
    ((rowsFrom idx off dirs).flatMap rowBytes).length = (dirs.map rowSize).sum := by
  induction dirs generalizing off with
  | nil => rfl
  | cons dir rest ih =>
    simp only [rowsFrom, List.flatMap_cons, List.length_append, ih, List.map_cons, List.sum_cons, rowBytes, rowAt,
      rowSize, length_le]
    omega

/-- An index that fits is encoded, and the file holds what the readers look for. -/
theorem encode_encoded {P : Platform} (json : P.json.RoundTrips) {order : List Id} {now : UInt64} {idx : Index}
    (fits : Fits P order now idx) :
    ∃ bytes header rows, encode P order now idx = .ok bytes ∧
      Encoded P idx (sortedDirs idx order) now bytes header rows := by
  obtain ⟨text, written, readBack⟩ := json (snapshotMeta idx (sortedDirs idx order) now)
  obtain ⟨textShort, total⟩ := fits.text text written
  have rowsShort := fits.rows
  have blocksShort := fits.blocks
  have childrenShort := fits.children
  have countShort := fits.count
  have word := P.le_word
  -- the parts of the file, one after the other
  generalize dirsEq : sortedDirs idx order = dirs at *
  let rows := rowsFrom idx headerLen dirs
  let blocks := dirs.flatMap (blockBytes idx)
  have tableLength : (rows.flatMap rowBytes).length = (dirs.map rowSize).sum := length_rowBytes idx _ dirs
  have sizes : headerLen + blocks.length + (rows.flatMap rowBytes).length + text.length < 2 ^ P.usizeBits := by
    rw [tableLength]
    exact total
  let header : Header := ⟨UInt64.ofNat (headerLen + blocks.length), UInt32.ofNat rows.length,
    UInt64.ofNat (headerLen + blocks.length + (rows.flatMap rowBytes).length), UInt32.ofNat text.length⟩
  let rest := blocks ++ (rows.flatMap rowBytes ++ text)
  have whole : encode P order now idx = .ok (headerBytes header ++ rest) := by
    simp only [encode, dirsEq, foldl_writeBlock, List.nil_append, List.length_replicate, written, Result.pure_eq,
      Result.ok_bind, foldl_writeDirRow]
    rw [if_pos (by simpa only [List.length_append, List.length_replicate] using sizes), ← writeHeader_eq]
    simp only [List.append_assoc, List.length_append, List.length_replicate, Nat.add_assoc, rest, header, blocks,
      rows]
  have length : (headerBytes header ++ rest).length =
      headerLen + blocks.length + (rows.flatMap rowBytes).length + text.length := by
    simp only [List.length_append, length_headerBytes, rest]
    omega
  have afterHeader : Stands (headerBytes header ++ rest) headerLen rest := ⟨headerBytes header, rfl, by simp⟩
  have afterBlocks := afterHeader.next
  have afterTable := afterBlocks.next
  have tableOff : header.dirTableOff.toNat = headerLen + blocks.length :=
    UInt64.toNat_ofNat_of_lt' (Nat.lt_of_lt_of_le (by omega) word)
  have metaOff : header.metaOff.toNat = headerLen + blocks.length + (rows.flatMap rowBytes).length :=
    UInt64.toNat_ofNat_of_lt' (Nat.lt_of_lt_of_le (by omega) word)
  have metaLen : header.metaLen.toNat = text.length := UInt32.toNat_ofNat_of_lt' textShort
  have listed : List.Forall₂ (RowOf (headerBytes header ++ rest) idx) dirs rows :=
    rowsFrom_rowOf afterHeader (by omega) blocksShort
  refine ⟨_, header, rows, whole, ?_⟩
  refine ⟨by omega, ⟨rest, rfl⟩, ?_, ⟨text, ?_⟩, by rw [tableOff, metaOff], ?_, listed, ?_, childrenShort⟩
  · have metaStart : P.usize header.metaOff.toNat = headerLen + blocks.length + (rows.flatMap rowBytes).length := by
      rw [metaOff]
      exact Platform.usize_of_lt (by omega)
    have metaCount : P.usize header.metaLen.toNat = text.length := by
      rw [metaLen]
      exact Platform.usize_of_lt (by omega)
    rw [← List.append_nil text] at afterTable
    simp only [parseMeta, metaStart, metaCount, sliceGet]
    rw [if_pos sizes, if_pos ⟨Nat.le_add_right _ _, by omega⟩, afterTable.slice]
    simp only [readMetaText, readBack, Result.pure_eq]
  · rw [tableOff]
    exact afterBlocks
  · exact UInt32.toNat_ofNat_of_lt' (by rw [length_rowsFrom]; exact countShort)
  · intro row member
    obtain ⟨dir, inDirs, rowOf⟩ := exists_of_mem_right listed member
    obtain ⟨path, id, etag⟩ := rowsShort dir inDirs
    exact ⟨rowOf.path ▸ path, rowOf.id ▸ id, rowOf.etag ▸ etag⟩

/-! ## Memory bounds every field -/

theorem length_le_flatMap_of_mem {α : Type} {f : α → Bytes} {xs : List α} {x : α} (member : x ∈ xs) :
    (f x).length ≤ (xs.flatMap f).length := by
  rw [List.length_flatMap]
  exact List.le_sum_of_mem (List.mem_map_of_mem member)

theorem encode_ok_size {P : Platform} {order : List Id} {now : UInt64} {idx : Index} {bytes : Bytes}
    (written : encode P order now idx = .ok bytes) :
    ∃ text, P.json.toVec (snapshotMeta idx (sortedDirs idx order) now) = .ok text ∧
      encodedSize idx (sortedDirs idx order) text < 2 ^ P.usizeBits := by
  cases read : P.json.toVec (snapshotMeta idx (sortedDirs idx order) now) with
  | error e =>
    simp only [encode, foldl_writeBlock, read] at written
    cases written
  | ok text =>
    refine ⟨text, rfl, ?_⟩
    simp only [encode, foldl_writeBlock, read, Result.pure_eq, Result.ok_bind, foldl_writeDirRow] at written
    split at written
    · rename_i small
      simp only [List.length_append, List.length_replicate, List.nil_append, length_rowBytes] at small
      exact small
    · cases written

theorem fits_of_encode {P : Platform} (narrow : P.usizeBits = 32) {order : List Id} {now : UInt64} {idx : Index}
    {bytes : Bytes} (written : encode P order now idx = .ok bytes) : Fits P order now idx := by
  obtain ⟨text, read, size⟩ := encode_ok_size written
  have total := size
  rw [narrow, encodedSize] at size
  -- every row and every block is part of the size that was checked
  have row {dir : DirEntry} (member : dir ∈ sortedDirs idx order) :
      rowSize dir ≤ ((sortedDirs idx order).map rowSize).sum := List.le_sum_of_mem (List.mem_map_of_mem member)
  have block {dir : DirEntry} (member : dir ∈ sortedDirs idx order) :
      (blockBytes idx dir).length ≤ ((sortedDirs idx order).flatMap (blockBytes idx)).length :=
    length_le_flatMap_of_mem member
  refine ⟨?_, ?_, ?_, ?_, ?_⟩
  · intro dir member
    have bound := row member
    simp only [rowSize, strBytes, List.length_append, length_le] at bound
    simp only [Short]
    omega
  · intro dir member c child
    have bound := block member
    have inBlock : (childBytes c).length ≤ (blockBytes idx dir).length := length_le_flatMap_of_mem child
    simp only [childBytes, strBytes, List.length_append, length_le, List.length_singleton] at inBlock
    refine ⟨?_, ?_, ?_⟩ <;> simp only [Short] <;> omega
  · intro dir member
    have bound := block member
    omega
  · have count := List.length_le_sum_of_one_le ((sortedDirs idx order).map rowSize) fun n member => by
      obtain ⟨dir, _, rfl⟩ := List.mem_map.mp member
      simp only [rowSize]
      omega
    rw [List.length_map] at count
    omega
  · intro other same
    cases read.symm.trans same
    exact ⟨by omega, total⟩

end Snapshot

end OneDriveDavfs
