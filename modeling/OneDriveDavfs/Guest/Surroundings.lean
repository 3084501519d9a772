import OneDriveDavfs.Auth.TokenText
import OneDriveDavfs.Graph.Requests
import OneDriveDavfs.Library.Json
import OneDriveDavfs.Library.Passage
import OneDriveDavfs.Snapshot.MetaText
import OneDriveDavfs.Snapshot.Store
import OneDriveDavfs.StateTransfer

/-! What a request runs in: the disk, the clocks and Graph, for the length of one request.

The stored snapshots and the figures of the last tick are read and written
here as steps of the daemon, one call of the file layer at a time. Any of them
may fail or be the last one.
-/

set_option autoImplicit false

namespace OneDriveDavfs

open Library Library.Wire Library.Effect Snapshot

/-- The figures of a tick, as `src/sync_stats.rs` keeps them. A quotient is the text it is written as. -/
structure SyncStats where
  applied : UInt64
  pages : UInt64
  complete : Bool
  durationMs : UInt64
  resync : Bool
  itemsPerSec : Json.Literal
  atSecs : UInt64
  hasToken : Bool
  target : String

structure StatsJson where
  toVec : SyncStats → Except String Bytes
  fromSlice : Bytes → Except String SyncStats

/-- What the program uses and the repository does not hold. -/
structure Externals where
  token : Auth.TokenJson
  graph : Graph.GraphJson
  index : MetaJson
  stats : StatsJson
  /-- `str::to_lowercase` -/
  lower : String → String
  /-- `applied * 1000.0 / duration_ms` as it is written, or zero -/
  itemsPerSec : Nat → UInt64 → Json.Literal

structure Surroundings extends Environment where
  /-- the disk at each `write_atomic` -/
  atomic : Nat → AtomicDisk
  /-- the answer to a `rename` -/
  rename : Option (Except String Unit)
  /-- the nanoseconds at each reading of the monotonic clock -/
  monotonic : Nat → UInt64
  /-- the order in which a node map is walked -/
  order : Index → List Id
  enumerates : ∀ idx, Enumerates (order idx) idx

/-- `?` on a result of the snapshot code. -/
def ofResult {α : Type} : Result α → Daemon α
  | .ok a => pure a
  | .error (.error message) => throw (.failed message)
  | .error .trap => throw .cut

namespace Guest

section Steps
variable (ext : Externals) (host : Surroundings)

def writeAtomic (name : String) (contents : Bytes) : Daemon Unit := do
  let world ← get
  let written := FileLayer.writeAtomic (host.atomic world.writes) world.files name contents
  modify fun world => { world with files := written.2, writes := world.writes + 1 }
  match written.1 with
  | .ok () => return ()
  | .error stop => throw stop

def rename (source dest : String) : Daemon Unit :=
  match host.rename with
  | none => throw .cut
  | some (.error e) => throw (.failed ("failed renaming " ++ source ++ " -> " ++ dest ++ ": " ++ e))
  | some (.ok ()) => modify fun world => { world with files := FileLayer.renameAt world.files source dest }

/-! ## `src/snapshot.rs` -/

def load (name : String) : Daemon (Option Index) := do
  let world ← get
  ofResult (Snapshot.load (wasm32 ext.index) world.files name)

def save (name : String) (idx : Index) : Daemon Unit := do
  let now ← nowSecs host.toEnvironment
  let bytes ← ofResult (encode (wasm32 ext.index) (host.order idx) now idx)
  writeAtomic host name bytes

def readMeta : Daemon (Option SnapshotMeta) := do
  let world ← get
  ofResult (Snapshot.readMeta (wasm32 ext.index) world.files.host)

def lookupFile (path : String) : Daemon (Option Lookup) := do
  let world ← get
  ofResult (Snapshot.lookupFile (wasm32 ext.index) world.files.host path)

/-- A snapshot that is missing or unreadable is left alone, and an error of the save is dropped. -/
def mutate (f : Index → Index × Bool) : Daemon Unit := do
  match ← attempt (load ext indexFile) with
  | .ok (some idx) =>
    if (f idx).2 then
      let _ ← attempt (save ext host indexFile (f idx).1)
      return ()
    else return ()
  | _ => return ()

/-! ## `src/sync_stats.rs` -/

def statsFile : String := "sync_stats.json"

def saveStats (stats : SyncStats) : Daemon Unit :=
  match ext.stats.toVec stats with
  | .error e => throw (.failed e)
  | .ok bytes => writeAtomic host statsFile bytes

def loadStats : Daemon (Option SyncStats) := do
  match ← readFile statsFile with
  | some bytes =>
    match ext.stats.fromSlice bytes with
    | .ok stats => return some stats
    | .error e => throw (.failed ("sync_stats.json: " ++ e))
  | none => return none

end Steps

end Guest

/-! ## What the steps do -/

section Spec
variable {α : Type} {ext : Externals} {host : Surroundings} {world : World}

/-- What is attempted can only be cut short. -/
theorem eq_cut_of_attempt {m : Daemon α} {stop : Stop} (stopped : (attempt m).outcome world = .error stop) :
    stop = .cut := by
  cases ended : m.outcome world with
  | ok a =>
    rw [outcome_attempt_ok ended] at stopped
    cases stopped
  | error why =>
    cases why with
    | failed message =>
      rw [outcome_attempt_failed ended] at stopped
      cases stopped
    | cut =>
      rw [outcome_attempt_cut ended] at stopped
      cases stopped
      rfl

theorem after_attempt_bind {β : Type} {m : Daemon α} {tail : Except String α → Daemon β}
    (idle : ∀ ended left, (tail ended).after left = left) : (attempt m >>= tail).after world = m.after world := by
  cases ended : (attempt m).outcome world with
  | error stop => rw [after_bind_error _ ended, after_attempt]
  | ok result => rw [after_bind_ok _ ended, after_attempt, idle]

@[simp] theorem outcome_ofResult_ok (a : α) : (ofResult (.ok a)).outcome world = .ok a := rfl

@[simp] theorem after_ofResult (result : Result α) : (ofResult result).after world = world := by
  rcases result with (_ | _) | _ <;> rfl

theorem outcome_ofResult {result : Result α} {a : α} (returned : (ofResult result).outcome world = .ok a) :
    result = .ok a := by
  rcases result with (_ | _) | b
  · cases returned
  · cases returned
  · exact congrArg Except.ok (Except.ok.inj returned)

namespace Guest

@[simp] theorem outcome_load (name : String) :
    (load ext name).outcome world = (ofResult (Snapshot.load (wasm32 ext.index) world.files name)).outcome world := by
  rw [load, outcome_bind_ok _ (outcome_get world), after_get]

@[simp] theorem after_load (name : String) : (load ext name).after world = world := by
  rw [load, after_bind_ok _ (outcome_get world), after_get, after_ofResult]

@[simp] theorem after_readMeta : (readMeta ext).after world = world := by
  rw [readMeta, after_bind_ok _ (outcome_get world), after_get, after_ofResult]

@[simp] theorem after_lookupFile (path : String) : (lookupFile ext path).after world = world := by
  rw [lookupFile, after_bind_ok _ (outcome_get world), after_get, after_ofResult]

@[simp] theorem outcome_writeAtomic (name : String) (contents : Bytes) :
    (writeAtomic host name contents).outcome world =
      (FileLayer.writeAtomic (host.atomic world.writes) world.files name contents).1 := by
  rw [writeAtomic, outcome_bind_ok _ (outcome_get world), after_get, outcome_bind_ok _ (outcome_modify world _)]
  cases (FileLayer.writeAtomic (host.atomic world.writes) world.files name contents).1 <;> rfl

@[simp] theorem after_writeAtomic (name : String) (contents : Bytes) :
    (writeAtomic host name contents).after world =
      { world with
        files := (FileLayer.writeAtomic (host.atomic world.writes) world.files name contents).2
        writes := world.writes + 1 } := by
  rw [writeAtomic, after_bind_ok _ (outcome_get world), after_get, after_bind_ok _ (outcome_modify world _), after_modify]
  cases (FileLayer.writeAtomic (host.atomic world.writes) world.files name contents).1 <;> rfl

theorem after_loadStats : (loadStats ext).after world = world := by
  rw [loadStats, after_bind_ok _ (outcome_readFile world statsFile), after_readFile]
  cases world.files statsFile with
  | none => rfl
  | some bytes =>
    dsimp only
    cases ext.stats.fromSlice bytes <;> rfl

end Guest

end Spec

/-! ## A host without a network -/

def plainExternals : Externals where
  token := Auth.tokenText
  graph := {
    driveItem := fun _ => .error "EOF while parsing a value"
    driveItemPage := fun _ => .error "EOF while parsing a value"
    deltaPage := fun _ => .error "EOF while parsing a value"
    errorCode := fun _ => none
    uploadUrl := fun _ => .error "EOF while parsing a value" }
  index := metaText
  stats := ⟨fun _ => .error "key must be a string", fun _ => .error "EOF while parsing a value"⟩
  lower := id
  itemsPerSec _ _ := ⟨['0', '.', '0'], by simp, by simp [Json.numberChar]⟩

def offline : Surroundings where
  answer _ := .error (.failed "connection refused")
  clock _ := 1000
  disk _ := Auth.soundDisk
  atomic _ := ⟨Auth.soundDisk, some (.ok ()), some (.ok ())⟩
  rename := some (.ok ())
  monotonic _ := 0
  order idx := idx.nodes.keys
  enumerates idx := enumerates_keys idx

end OneDriveDavfs
