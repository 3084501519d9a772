import Mathlib.Data.List.Sort
import OneDriveDavfs.Library.Wire
import OneDriveDavfs.Index.Model

/-! The snapshot of an index as bytes: `src/snapshot.rs`.

The header, the child blocks in the order of the paths, the directory table,
the metadata as JSON. What is not in the repository is a platform: the width
of `usize` and the JSON codec of the metadata record. A panic and an addition
that leaves `usize` are one outcome, a trap.
-/

set_option autoImplicit false

namespace OneDriveDavfs

open Std Library.Collections Library.Wire

inductive Fault where
  | error (message : String)
  | trap
  deriving DecidableEq, Repr

abbrev Result := Except Fault

namespace Result

variable {α β : Type}

@[simp] theorem ok_bind (a : α) (f : α → Result β) : ((Except.ok a : Result α) >>= f) = f a := rfl

@[simp] theorem pure_eq (a : α) : (pure a : Result α) = .ok a := rfl

theorem throw_eq (e : Fault) : (throw e : Result α) = .error e := rfl

theorem error_bind (e : Fault) (f : α → Result β) : ((.error e : Result α) >>= f) = .error e := rfl

theorem bind_eq_trap_iff {r : Result α} {k : α → Result β} :
    (r >>= k) = .error .trap ↔ r = .error .trap ∨ ∃ a, r = .ok a ∧ k a = .error .trap := by
  cases r with
  | ok a => simp
  | error e => simp [bind, Except.bind]

theorem bind_eq_ok_iff {r : Result α} {k : α → Result β} {b : β} :
    (r >>= k) = .ok b ↔ ∃ a, r = .ok a ∧ k a = .ok b := by
  cases r with
  | ok a => simp
  | error e => simp [bind, Except.bind]

theorem exists_of_isOk {result : Result α} (succeeds : result.isOk = true) : ∃ a, result = .ok a := by
  cases result with
  | error _ => cases succeeds
  | ok a => exact ⟨a, rfl⟩

def isOkAnd (result : Result α) (p : α → Bool) : Bool :=
  match result with
  | .ok a => p a
  | .error _ => false

theorem exists_of_isOkAnd {result : Result α} {p : α → Bool} (holds : result.isOkAnd p = true) :
    ∃ a, result = .ok a ∧ p a = true := by
  cases result with
  | error _ => cases holds
  | ok a => exact ⟨a, rfl, holds⟩

end Result

structure SnapshotMeta where
  deltaToken : Option String
  pendingNextLink : Option String
  crawlComplete : Bool
  generation : UInt64
  builtAt : UInt64
  rootId : Option String
  totalDirs : UInt64
  totalFiles : UInt64
  deriving DecidableEq, Repr

structure ChildInfo where
  name : String
  isDir : Bool
  size : UInt64
  mtime : UInt64
  etag : String
  id : String
  deriving DecidableEq, Repr

structure DirRow where
  path : String
  blockOff : UInt64
  blockLen : UInt32
  id : String
  size : UInt64
  mtime : UInt64
  etag : String
  deriving DecidableEq, Repr

inductive Lookup where
  | file (info : ChildInfo)
  | dir (info : ChildInfo) (children : List ChildInfo)
  deriving DecidableEq, Repr

/-- `serde_json::to_vec` and `serde_json::from_slice` at the metadata record. -/
structure MetaJson where
  toVec : SnapshotMeta → Except String Bytes
  fromSlice : Bytes → Except String SnapshotMeta

def MetaJson.RoundTrips (json : MetaJson) : Prop :=
  ∀ m, ∃ text, json.toVec m = .ok text ∧ json.fromSlice text = .ok m

structure Platform where
  usizeBits : Nat
  atLeast32 : 32 ≤ usizeBits
  atMost64 : usizeBits ≤ 64
  json : MetaJson

def wasm32 (json : MetaJson) : Platform := ⟨32, by decide, by decide, json⟩

namespace Platform

/-- `n as usize`. -/
def usize (P : Platform) (n : Nat) : Nat := n % 2 ^ P.usizeBits

def add (P : Platform) (a b : Nat) : Result Nat :=
  if a + b < 2 ^ P.usizeBits then .ok (a + b) else .error .trap

end Platform

/-- `&data[start..stop]`. -/
def sliceOf (data : Bytes) (start stop : Nat) : Result Bytes :=
  if start ≤ stop ∧ stop ≤ data.length then .ok (slice data start stop) else .error .trap

/-- `data.get(start..stop)`. -/
def sliceGet (data : Bytes) (start stop : Nat) : Option Bytes :=
  if start ≤ stop ∧ stop ≤ data.length then some (slice data start stop) else none

namespace Snapshot

def indexFile : String := "index.bin"

def rebuildFile : String := "index.rebuild.bin"

/-- `b"ODIX"`. -/
def magic : Bytes := [0x4F, 0x44, 0x49, 0x58]

def version : Nat := 1

def headerLen : Nat := 32

/-! ## Writing -/

def writeStr (buf : Bytes) (s : String) : Bytes := buf ++ le 4 (utf8 s).length ++ utf8 s

def writeChild (buf : Bytes) (c : ChildInfo) : Bytes :=
  let buf := writeStr buf c.name
  let buf := buf ++ [if c.isDir then 1 else 0]
  let buf := buf ++ le 8 c.size.toNat
  let buf := buf ++ le 8 c.mtime.toNat
  let buf := writeStr buf c.etag
  writeStr buf c.id

def writeDirRow (buf : Bytes) (row : DirRow) : Bytes :=
  let buf := writeStr buf row.path
  let buf := buf ++ le 8 row.blockOff.toNat
  let buf := buf ++ le 4 row.blockLen.toNat
  let buf := writeStr buf row.id
  let buf := buf ++ le 8 row.size.toNat
  let buf := buf ++ le 8 row.mtime.toNat
  writeStr buf row.etag

def writeHeader (buf : Bytes) (dirTableOff : UInt64) (dirCount : UInt32) (metaOff : UInt64)
    (metaLen : UInt32) : Bytes :=
  let buf := overwrite buf 0 magic
  let buf := overwrite buf 4 (le 4 version)
  let buf := overwrite buf 8 (le 8 dirTableOff.toNat)
  let buf := overwrite buf 16 (le 4 dirCount.toNat)
  let buf := overwrite buf 20 (le 8 metaOff.toNat)
  overwrite buf 28 (le 4 metaLen.toNat)

structure DirEntry where
  id : Id
  path : String
  node : Node

/-- The directories that have a path, in the order of the map, the root among
them whatever it is. -/
def dirEntries (idx : Index) (order : List Id) : List DirEntry :=
  order.filterMap fun id => do
    let path ← idx.pathOf id
    let node ← idx.nodes[id]?
    if node.itemMeta.isDir || idx.root == some id then some ⟨id, path, node⟩ else none

/-- `dirs.sort_by(|a, b| a.1.cmp(&b.1))`, a stable sort. -/
def sortedDirs (idx : Index) (order : List Id) : List DirEntry :=
  (dirEntries idx order).insertionSort fun a b => a.path ≤ b.path

/-- The children of a directory that are stored, in the order of its set. -/
def childInfos (idx : Index) (id : Id) : List ChildInfo :=
  (idx.kidsOf id).toList.filterMap fun kid => (idx.nodes[kid.2]?).map fun child =>
    ⟨kid.1, child.itemMeta.isDir, child.itemMeta.size, child.itemMeta.mtime, child.itemMeta.etag, kid.2⟩

/-- One round of the first loop of `encode`: a child block and its row. -/
def writeBlock (idx : Index) (state : Bytes × List DirRow) (dir : DirEntry) : Bytes × List DirRow :=
  let blockOff := state.1.length
  let body := (childInfos idx dir.id).foldl writeChild state.1
  let blockLen := body.length - blockOff
  (body, state.2 ++ [⟨dir.path, UInt64.ofNat blockOff, UInt32.ofNat blockLen, dir.id,
    dir.node.itemMeta.size, dir.node.itemMeta.mtime, dir.node.itemMeta.etag⟩])

def totalFiles (idx : Index) (dirs : List DirEntry) : Nat :=
  (dirs.map fun dir => (childInfos idx dir.id).countP (!·.isDir)).sum

def snapshotMeta (idx : Index) (dirs : List DirEntry) (now : UInt64) : SnapshotMeta where
  deltaToken := idx.deltaToken
  pendingNextLink := idx.pendingNextLink
  crawlComplete := idx.crawlComplete
  generation := idx.generation
  builtAt := now
  rootId := idx.root
  totalDirs := UInt64.ofNat dirs.length
  totalFiles := UInt64.ofNat (totalFiles idx dirs)

/-- `order` is the order in which the node map is walked, `now` the clock. A
byte vector that `usize` cannot count does not exist: growing it traps. -/
def encode (P : Platform) (order : List Id) (now : UInt64) (idx : Index) : Result Bytes := do
  let dirs := sortedDirs idx order
  let (blocks, rows) := dirs.foldl (writeBlock idx) (List.replicate headerLen 0, [])
  let dirTableOff := blocks.length
  let body := rows.foldl writeDirRow blocks
  let metaBytes ← match P.json.toVec (snapshotMeta idx dirs now) with
    | .ok text => pure text
    | .error e => throw (.error e)
  let metaOff := body.length
  let body := body ++ metaBytes
  if body.length < 2 ^ P.usizeBits then
    return writeHeader body (UInt64.ofNat dirTableOff) (UInt32.ofNat rows.length) (UInt64.ofNat metaOff)
      (UInt32.ofNat metaBytes.length)
  else throw .trap

/-! ## Reading -/

structure Header where
  dirTableOff : UInt64
  dirCount : UInt32
  metaOff : UInt64
  metaLen : UInt32
  deriving DecidableEq, Repr

def parseHeader (P : Platform) (bytes : Bytes) : Result Header :=
  if bytes.length < headerLen then throw (.error "index header too short")
  else if slice bytes 0 4 ≠ magic then throw (.error "index magic mismatch")
  else
    let ver := ofLe (slice bytes 4 8)
    if ver ≠ version then throw (.error ("unsupported index version " ++ toString ver))
    else
      let dirTableOff := UInt64.ofNat (ofLe (slice bytes 8 16))
      let dirCount := UInt32.ofNat (ofLe (slice bytes 16 20))
      let metaOff := UInt64.ofNat (ofLe (slice bytes 20 28))
      let metaLen := UInt32.ofNat (ofLe (slice bytes 28 32))
      -- 32 bytes alone are a header read by itself, whose offsets lie beyond it
      if (P.usize dirTableOff.toNat > bytes.length ∨ P.usize metaOff.toNat > bytes.length) ∧
          bytes.length ≠ headerLen ∧
          (P.usize metaOff.toNat > bytes.length ∨ P.usize dirTableOff.toNat > bytes.length) then
        throw (.error "index offsets out of range")
      else pure ⟨dirTableOff, dirCount, metaOff, metaLen⟩

def readMetaText (P : Platform) (text : Bytes) : Result SnapshotMeta :=
  match P.json.fromSlice text with
  | .ok m => pure m
  | .error e => throw (.error ("index meta: " ++ e))

def parseMeta (P : Platform) (bytes : Bytes) (metaOff : UInt64) (metaLen : UInt32) : Result SnapshotMeta :=
  let start := P.usize metaOff.toNat
  let stop := start + P.usize metaLen.toNat
  if stop < 2 ^ P.usizeBits then
    match sliceGet bytes start stop with
    | none => throw (.error "index meta truncated")
    | some text => readMetaText P text
  else throw (.error "index meta overflow")

def readStr (P : Platform) (data : Bytes) (pos : Nat) : Result (String × Nat) := do
  let start ← P.add pos 4
  if start > data.length then throw (.error "truncated string length")
  let len := P.usize (ofLe (slice data pos start))
  let stop ← P.add start len
  if stop > data.length then throw (.error "truncated string")
  match fromUtf8 (slice data start stop) with
  | none => throw (.error "non-utf8 string")
  | some s => return (s, stop)

/-- One round of the loop of `parse_child_block`. -/
def readChild (P : Platform) (data : Bytes) (pos : Nat) : Result (ChildInfo × Nat) := do
  let (name, pos) ← readStr P data pos
  match data[pos]? with
  | none => throw (.error "truncated child flags")
  | some flag =>
    let isDir := flag ≠ 0
    let pos := pos + 1
    let stop ← P.add pos 16
    if stop > data.length then throw (.error "truncated child numbers")
    let size := UInt64.ofNat (ofLe (slice data pos (pos + 8)))
    let mtime := UInt64.ofNat (ofLe (slice data (pos + 8) (pos + 16)))
    let (etag, pos) ← readStr P data (pos + 16)
    let (id, pos) ← readStr P data pos
    return (⟨name, isDir, size, mtime, etag, id⟩, pos)

/-- The loop runs while bytes are left; every round takes some, so the length
of the data bounds the rounds. -/
def readChildren (P : Platform) (data : Bytes) : Nat → Nat → Result (List ChildInfo)
  | 0, pos => if pos < data.length then throw .trap else pure []
  | fuel + 1, pos =>
    if pos < data.length then do
      let (child, pos) ← readChild P data pos
      let rest ← readChildren P data fuel pos
      return child :: rest
    else pure []

def parseChildBlock (P : Platform) (bytes : Bytes) (off : UInt64) (len : UInt32) :
    Result (List ChildInfo) := do
  let start := P.usize off.toNat
  let stop ← P.add start (P.usize len.toNat)
  if stop > bytes.length then throw (.error "child block out of range")
  let data ← sliceOf bytes start stop
  readChildren P data data.length 0

def readDirRow (P : Platform) (data : Bytes) (pos : Nat) : Result (DirRow × Nat) := do
  let (path, pos) ← readStr P data pos
  let stop ← P.add pos 12
  if stop > data.length then throw (.error "truncated dir row")
  let blockOff := UInt64.ofNat (ofLe (slice data pos (pos + 8)))
  let blockLen := UInt32.ofNat (ofLe (slice data (pos + 8) (pos + 12)))
  let (id, pos) ← readStr P data (pos + 12)
  let stop ← P.add pos 16
  if stop > data.length then throw (.error "truncated dir row meta")
  let size := UInt64.ofNat (ofLe (slice data pos (pos + 8)))
  let mtime := UInt64.ofNat (ofLe (slice data (pos + 8) (pos + 16)))
  let (etag, pos) ← readStr P data (pos + 16)
  return (⟨path, blockOff, blockLen, id, size, mtime, etag⟩, pos)

def readDirRows (P : Platform) (data : Bytes) : Nat → Nat → Result (List DirRow)
  | 0, _ => pure []
  | count + 1, pos => do
    let (row, pos) ← readDirRow P data pos
    let rest ← readDirRows P data count pos
    return row :: rest

def parseDirTable (P : Platform) (data : Bytes) (count : UInt32) : Result (List DirRow) :=
  readDirRows P data count.toNat 0

/-! ## Decoding -/

def ChildInfo.node (parent : Id) (c : ChildInfo) : Node :=
  ⟨some parent, c.name, ⟨c.isDir, c.size, c.mtime, c.etag⟩⟩

def DirRow.node (row : DirRow) : Node :=
  ⟨none, lastSegment row.path, ⟨true, row.size, row.mtime, row.etag⟩⟩

/-- The first loop of `decode` at one row: the directory, its children, its set. -/
def addRow (idx : Index) (row : DirRow) (children : List ChildInfo) : Index :=
  let nodes := idx.nodes.insert row.id (DirRow.node row)
  let nodes := children.foldl (fun nodes c => nodes.insert c.id (ChildInfo.node row.id c)) nodes
  let set : KidSet := children.foldl (fun set c => set.insert (c.name, c.id)) ∅
  { idx with nodes, kids := idx.kids.insert row.id set }

/-- The second loop of `decode` at one row: the parent comes from the path. -/
def linkRow (pathToId : ExtTreeMap String Id) (idx : Index) (row : DirRow) : Index :=
  if row.path = "/" then
    { idx with
      nodes := idx.nodes.modify row.id fun n => { n with parent := none, name := "" }
      root := if idx.root.isNone then some row.id else idx.root }
  else match pathToId[parentPath row.path]? with
    | none => idx
    | some pid => { idx with nodes := idx.nodes.modify row.id fun n => { n with parent := some pid } }

def decode (P : Platform) (bytes : Bytes) : Result Index := do
  let header ← parseHeader P bytes
  let m ← parseMeta P bytes header.metaOff header.metaLen
  let table ← sliceOf bytes (P.usize header.dirTableOff.toNat) (P.usize header.metaOff.toNat)
  let rows ← parseDirTable P table header.dirCount
  let start : Index :=
    ⟨∅, ∅, m.rootId, m.deltaToken, m.pendingNextLink, m.crawlComplete, m.generation⟩
  let idx ← rows.foldlM (fun idx row => do
    let children ← parseChildBlock P bytes row.blockOff row.blockLen
    return addRow idx row children) start
  let pathToId : ExtTreeMap String Id := rows.foldl (fun map row => map.insert row.path row.id) ∅
  return rows.foldl (linkRow pathToId) idx

end Snapshot

end OneDriveDavfs
