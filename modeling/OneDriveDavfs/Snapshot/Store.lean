import OneDriveDavfs.Snapshot.Lookup
import OneDriveDavfs.StateDir

/-! The stored snapshots: `load`, `save`, `read_meta` and `mutate`.

A file that was saved holds the encoding of some index. Such a file always
loads, and what it loads as has the cursor of that index, whatever its nodes.
-/

set_option autoImplicit false

namespace OneDriveDavfs

open Library.Wire

namespace Snapshot

def load (P : Platform) (files : Files) (name : String) : Result (Option Index) := do
  match ← StateFile.readFile (StateFile.rounds files name) files.host name with
  | none => return none
  | some bytes =>
    let idx ← decode P bytes
    return some idx

def save (P : Platform) (order : List Id) (now : UInt64) (name : String) (idx : Index) : Result (List FileOp) := do
  let bytes ← encode P order now idx
  return StateFile.writeAtomic name bytes

def readMeta (P : Platform) (dir : Descriptor) : Result (Option SnapshotMeta) := do
  match ← StateFile.readAt dir indexFile 0 (UInt64.ofNat headerLen) with
  | none => return none
  | some head =>
    if head.length < headerLen then throw (.error "index header truncated")
    let header ← parseHeader P head
    match ← StateFile.readAt dir indexFile header.metaOff header.metaLen.toUInt64 with
    | none => throw (.error "index meta missing")
    | some text =>
      let m ← readMetaText P text
      return some m

/-- `mutate`: nothing happens to a snapshot that is missing or unreadable, and
an error of the save is dropped. -/
def mutate (P : Platform) (order : Index → List Id) (now : UInt64) (files : Files)
    (f : Index → Index × Bool) : List FileOp :=
  match load P files indexFile with
  | .ok (some idx) =>
    if (f idx).2 then
      match save P (order (f idx).1) now indexFile (f idx).1 with
      | .ok ops => ops
      | .error _ => []
    else []
  | _ => []

theorem load_eq (P : Platform) (files : Files) (name : String) :
    load P files name = match files name with
      | none => .ok none
      | some bytes => (decode P bytes).map some := by
  rw [load, StateFile.readFile_host, Result.ok_bind]
  cases files name with
  | none => rfl
  | some bytes =>
    simp only
    cases decode P bytes <;> rfl

/-! ## What a saved file holds -/

section Saved
variable {json : MetaJson} {idx : Index} {bytes : Bytes}

/-- The bytes are an encoding of the index, for some order and clock. -/
def Saves (json : MetaJson) (idx : Index) (bytes : Bytes) : Prop :=
  ∃ order now, Enumerates order idx ∧ encode (wasm32 json) order now idx = .ok bytes

theorem Saves.encoded (roundTrips : json.RoundTrips) (saves : Saves json idx bytes) :
    ∃ order now header rows, Enumerates order idx ∧
      Encoded (wasm32 json) idx (sortedDirs idx order) now bytes header rows := by
  obtain ⟨order, now, enumerates, written⟩ := saves
  obtain ⟨other, header, rows, same, encoded⟩ :=
    encode_encoded (P := wasm32 json) roundTrips (fits_of_encode rfl written)
  cases written.symm.trans same
  exact ⟨order, now, header, rows, enumerates, encoded⟩

theorem progress_restored (idx : Index) (dirs : List DirEntry) : (restored idx dirs).progress = idx.progress :=
  (foldl_linkRow_same _ _).2.1.trans (foldl_addRow_same _).2

theorem Saves.decode (roundTrips : json.RoundTrips) (saves : Saves json idx bytes) :
    ∃ out, Snapshot.decode (wasm32 json) bytes = .ok out ∧ out.progress = idx.progress := by
  obtain ⟨_, _, _, _, _, encoded⟩ := saves.encoded roundTrips
  exact ⟨_, decode_eq_restored encoded, progress_restored _ _⟩

/-- A tree loads as what it was down to the last block. -/
theorem Saves.decode_storable (roundTrips : json.RoundTrips) (saves : Saves json idx bytes)
    (storable : Storable idx) : ∃ out, Snapshot.decode (wasm32 json) bytes = .ok out ∧ Restored idx out := by
  obtain ⟨_, _, _, _, enumerates, encoded⟩ := saves.encoded roundTrips
  exact decode_encoded enumerates storable encoded

theorem Saves.lookup (roundTrips : json.RoundTrips) (saves : Saves json idx bytes) (storable : Storable idx)
    {files : Files} (held : files indexFile = some bytes) (path : String) :
    lookupFile (wasm32 json) files.host path = .ok (answer idx path) := by
  obtain ⟨order, _, _, _, enumerates, encoded⟩ := saves.encoded roundTrips
  have answers := lookups_answer encoded (dirList_sortedDirs enumerates) (ascending_sortedDirs idx order) storable path
  exact answers.2 _ _ (by simp [Files.host, held]) (StateFile.serves_serve bytes)

theorem readMeta_eq {P : Platform} {dirs : List DirEntry} {now : UInt64} {header : Header} {rows : List DirRow}
    {dir : Descriptor} {file : HostFile} (opened : dir indexFile = some file) (serves : Serves bytes file)
    (encoded : Encoded P idx dirs now bytes header rows) :
    readMeta P dir = .ok (some (snapshotMeta idx dirs now)) := by
  obtain ⟨rest, head⟩ := encoded.head
  obtain ⟨_, metaOff, _⟩ := encoded.offsets
  have small := encoded.small
  have word := P.le_word
  have wide := P.word_le
  have short : header.metaLen.toNat < 2 ^ 32 := header.metaLen.toNat_lt
  have place : P.usize header.metaOff.toNat = header.metaOff.toNat := metaOff.trans encoded.tableEnd.symm
  have long : P.usize header.metaLen.toNat = header.metaLen.toNat := Platform.usize_of_lt (by omega)
  -- the header alone
  have readHead := @StateFile.readAt_eq _ _ _ _ 0 (UInt64.ofNat headerLen) opened serves (by decide)
  have header_only : ((bytes.drop (0 : UInt64).toNat).take (UInt64.ofNat headerLen).toNat) = headerBytes header := by
    rw [head]
    exact List.take_left' (length_headerBytes header)
  have parsedHead : parseHeader P (headerBytes header) = .ok header := by
    have alone := @parseHeader_complete P header [] (by simp)
    rwa [List.append_nil] at alone
  -- the metadata are where the header says, and what is parsed there
  have parsed := encoded.readMeta
  unfold parseMeta at parsed
  dsimp only at parsed
  rw [place, long] at parsed
  by_cases inside : header.metaOff.toNat + header.metaLen.toNat < 2 ^ P.usizeBits
  case neg =>
    rw [if_neg inside] at parsed
    cases parsed
  rw [if_pos inside] at parsed
  cases sliced : sliceGet bytes header.metaOff.toNat (header.metaOff.toNat + header.metaLen.toNat) with
  | none =>
    rw [sliced] at parsed
    cases parsed
  | some text =>
    rw [sliced] at parsed
    have length : header.metaLen.toUInt64.toNat = header.metaLen.toNat := UInt32.toNat_toUInt64 _
    have readText := @StateFile.readAt_eq _ _ _ _ header.metaOff header.metaLen.toUInt64 opened serves
      (by rw [length]; omega)
    have text_only : (bytes.drop header.metaOff.toNat).take header.metaLen.toUInt64.toNat = text := by
      rw [sliceGet] at sliced
      split at sliced
      · rw [length, ← Option.some.inj sliced, slice, List.drop_take, Nat.add_sub_cancel_left]
      · cases sliced
    rw [readMeta, readHead, Result.ok_bind, header_only]
    simp only [length_headerBytes, Nat.lt_irrefl, if_false, Result.ok_bind, parsedHead, readText, text_only]
    dsimp only at parsed
    rw [parsed]
    rfl

theorem Saves.readMeta (roundTrips : json.RoundTrips) (saves : Saves json idx bytes) {files : Files}
    (held : files indexFile = some bytes) :
    ∃ order now, Enumerates order idx ∧ (encode (wasm32 json) order now idx = .ok bytes) ∧
      Snapshot.readMeta (wasm32 json) files.host = .ok (some (snapshotMeta idx (sortedDirs idx order) now)) := by
  obtain ⟨order, now, enumerates, written⟩ := saves
  obtain ⟨other, header, rows, same, encoded⟩ :=
    encode_encoded (P := wasm32 json) roundTrips (fits_of_encode rfl written)
  cases written.symm.trans same
  have opened : files.host indexFile = some (StateFile.serve bytes) := by simp [Files.host, held]
  exact ⟨order, now, enumerates, written, readMeta_eq opened (StateFile.serves_serve bytes) encoded⟩

theorem saves_of_save {order : Index → List Id} (enumerates : ∀ idx, Enumerates (order idx) idx)
    {now : UInt64} {name : String} {ops : List FileOp} (saved : save (wasm32 json) (order idx) now name idx = .ok ops) :
    ∃ bytes, Saves json idx bytes ∧ ops = StateFile.writeAtomic name bytes := by
  unfold save at saved
  cases written : encode (wasm32 json) (order idx) now idx with
  | error e =>
    rw [written] at saved
    cases saved
  | ok bytes =>
    rw [written] at saved
    cases saved
    exact ⟨bytes, ⟨_, _, enumerates idx, written⟩, rfl⟩

theorem load_saves (roundTrips : json.RoundTrips) {files : Files} {name : String} (held : files name = some bytes)
    (saves : Saves json idx bytes) :
    ∃ out, load (wasm32 json) files name = .ok (some out) ∧ Snapshot.decode (wasm32 json) bytes = .ok out ∧
      out.progress = idx.progress := by
  obtain ⟨out, decoded, progress⟩ := saves.decode roundTrips
  refine ⟨out, ?_, decoded, progress⟩
  rw [load_eq, held]
  simp only [decoded]
  rfl

end Saved

end Snapshot

end OneDriveDavfs
