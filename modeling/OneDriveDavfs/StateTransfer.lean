import OneDriveDavfs.StateWrite

/-! The file layer call by call: `write_file`, `write_atomic` and the two ways
to read of `src/state_file.rs`.

Every write goes to a position of the file, and the host may take any part of
what it is offered. What the callers assume of the file layer is a directory
whose files are replaced whole; it is proved here from the single calls.
-/

set_option autoImplicit false

namespace OneDriveDavfs

open Library.Wire

/-- What is written to a file; its size is a `u64`. -/
structure Contents where
  bytes : Bytes
  isSize : bytes.length < 2 ^ 64

/-- `Descriptor::write(chunk, offset)` on the bytes of a file. A gap before the offset is
filled with zeros. -/
def writeChunk (file : Bytes) (offset : Nat) (chunk : Bytes) : Bytes :=
  file.take offset ++ List.replicate (offset - file.length) 0 ++ chunk ++ file.drop (offset + chunk.length)

namespace Files

def put (files : Files) (name : String) (bytes : Bytes) : Files := fun n => if n = name then some bytes else files n

def remove (files : Files) (name : String) : Files := fun n => if n = name then none else files n

def write (files : Files) (name : String) (offset : Nat) (chunk : Bytes) : Files :=
  files.put name (writeChunk ((files name).getD []) offset chunk)

theorem put_put (files : Files) (name : String) (first second : Bytes) :
    (files.put name first).put name second = files.put name second := by
  funext n
  unfold put
  split <;> rfl

theorem write_put (files : Files) (name : String) {contents : Bytes} {offset : Nat} (within : offset ≤ contents.length)
    (count : Nat) :
    (files.put name (contents.take offset)).write name offset ((contents.drop offset).take count) =
      files.put name (contents.take (offset + count)) := by
  have length : (contents.take offset).length = offset := List.length_take_of_le within
  have behind : (contents.take offset).drop (offset + ((contents.drop offset).take count).length) = [] :=
    List.drop_eq_nil_of_le (by omega)
  have next : writeChunk (contents.take offset) offset ((contents.drop offset).take count) =
      contents.take (offset + count) := by
    rw [writeChunk, behind, length, Nat.sub_self, List.take_of_length_le (Nat.le_of_eq length), List.take_add]
    simp only [List.replicate_zero, List.append_nil]
  have own : files.put name (contents.take offset) name = some (contents.take offset) := if_pos rfl
  rw [write, put_put, own, Option.getD_some, next]

end Files

/-- What the host does with one `write_atomic`; nothing where the guest is cut short. A rename
that is answered with an error, or that the guest does not get to, has not happened. -/
structure AtomicDisk where
  disk : Disk
  rename : Option (Except String Unit)
  unlink : Option (Except String Unit)

namespace FileLayer

/-- The loop of `write_file`, writing at its offset. -/
def writeLoop (name : String) (disk : Disk) (contents : Bytes) : Nat → Nat → Nat → Files → Except Stop Unit × Files
  | 0, _, _, files => (.ok (), files)
  | fuel + 1, round, offset, files =>
    if offset < contents.length then
      match disk.write round (contents.length - offset) with
      | none => (.error .cut, files)
      | some (.error e) => (.error (.failed ("failed writing " ++ name ++ ": " ++ e)), files)
      | some (.ok written) =>
        if written.val = 0 then (.error (.failed ("short write to " ++ name)), files)
        else
          writeLoop name disk contents fuel (round + 1) (offset + written)
            (files.write name offset ((contents.drop offset).take written))
    else (.ok (), files)

def writeFile (disk : Disk) (files : Files) (name : String) (contents : Bytes) : Except Stop Unit × Files :=
  match disk.opened with
  | none => (.error .cut, files)
  | some (.error e) => (.error (.failed ("failed opening " ++ name ++ " for write: " ++ e)), files)
  -- `CREATE | TRUNCATE`
  | some (.ok ()) => writeLoop name disk contents contents.length 0 0 (files.put name [])

/-- `rename_at`: the file gets its other name in one step. -/
def renameAt (files : Files) (source dest : String) : Files := (FileOp.rename source dest).run files

def writeAtomic (host : AtomicDisk) (files : Files) (name : String) (contents : Bytes) : Except Stop Unit × Files :=
  let tmp := StateFile.tmpName name
  match writeFile host.disk files tmp contents with
  | (.error stop, files) => (.error stop, files)
  | (.ok (), files) =>
    match host.rename with
    | none => (.error .cut, files)
    | some (.ok ()) => (.ok (), renameAt files tmp name)
    | some (.error e) =>
      let failure := Stop.failed ("failed renaming " ++ tmp ++ " -> " ++ name ++ ": " ++ e)
      match host.unlink with
      | none => (.error .cut, files)
      | some (.error _) => (.error failure, files)
      | some (.ok ()) => (.error failure, files.remove tmp)

/-! ## What a write leaves -/

section Write
variable {disk : Disk} {name : String} {contents : Bytes}

/-- The loop goes through the offsets of `writeOn`, and what it has written is the beginning of
the contents. -/
theorem writeLoop_eq {fuel round offset : Nat} (within : offset ≤ contents.length) (files : Files) :
    writeLoop name disk contents fuel round offset (files.put name (contents.take offset)) =
      ((StateFile.writeOn name disk contents fuel round offset).1,
        files.put name (contents.take (StateFile.writeOn name disk contents fuel round offset).2)) := by
  induction fuel generalizing round offset with
  | zero => rfl
  | succ fuel ih =>
    rw [writeLoop, StateFile.writeOn]
    split
    · cases disk.write round (contents.length - offset) with
      | none => rfl
      | some answer =>
        cases answer with
        | error e => rfl
        | ok written =>
          dsimp only
          split
          · rfl
          -- the part lands behind what is there, so that the beginning grows by it
          · have fits := written.isLt
            rw [Files.write_put files name within written, ih (by omega)]
    · rfl

theorem writeFile_eq (files : Files) :
    writeFile disk files name contents = StateFile.writeFile disk files name contents := by
  unfold writeFile StateFile.writeFile
  cases disk.opened with
  | none => rfl
  | some answer =>
    cases answer with
    | error e => rfl
    | ok opened =>
      have loop := @writeLoop_eq disk name contents contents.length 0 0 (Nat.zero_le _) files
      rw [List.take_zero] at loop
      exact loop

theorem writeFile_other (files : Files) {n : String} (other : n ≠ name) :
    (writeFile disk files name contents).2 n = files n := by
  rw [writeFile_eq, StateFile.writeFile]
  split
  · rfl
  · rfl
  · exact if_neg other

theorem writeFile_ok {files after : Files} (wrote : writeFile disk files name contents = (.ok (), after)) :
    after = (FileOp.write name contents).run files := by
  rw [writeFile_eq] at wrote
  unfold StateFile.writeFile at wrote
  split at wrote
  · cases wrote
  · cases wrote
  · obtain ⟨done, rfl⟩ := Prod.mk.inj wrote
    have spec := @StateFile.writeOn_spec name disk contents contents.length 0 0 (by omega) (Nat.zero_le _)
    have whole : StateFile.taken disk name contents = contents.length := spec.2.mp done
    rw [whole, List.take_length]

/-- What `write_atomic` can do to the directory: the two steps of the plan, or less than the
rename. -/
theorem writeAtomic_cases (host : AtomicDisk) (files : Files) :
    ((writeAtomic host files name contents).1 = .ok () ∧
        (writeAtomic host files name contents).2 = files.after (StateFile.writeAtomic name contents)) ∨
      ((writeAtomic host files name contents).1 ≠ .ok () ∧
        ∀ n, n ≠ StateFile.tmpName name → (writeAtomic host files name contents).2 n = files n) := by
  unfold writeAtomic
  dsimp only
  have kept : ∀ n, n ≠ StateFile.tmpName name →
      (writeFile host.disk files (StateFile.tmpName name) contents).2 n = files n :=
    fun n other => writeFile_other files other
  obtain ⟨outcome, written⟩ : ∃ answer, answer = writeFile host.disk files (StateFile.tmpName name) contents := ⟨_, rfl⟩
  rw [← written] at kept ⊢
  obtain ⟨outcome, between⟩ := outcome
  cases outcome with
  | error stop => exact .inr ⟨by simp, kept⟩
  | ok finished =>
    have whole := writeFile_ok written.symm
    cases host.rename with
    | none => exact .inr ⟨by simp, kept⟩
    | some answer =>
      cases answer with
      -- the one case in which the target is another file
      | ok renamed => exact .inl ⟨rfl, by rw [whole]; rfl⟩
      | error e =>
        -- whether the temporary file goes or stays
        cases host.unlink with
        | none => exact .inr ⟨by simp, kept⟩
        | some removed =>
          cases removed with
          | error _ => exact .inr ⟨by simp, kept⟩
          | ok removed => exact .inr ⟨by simp, fun n other => (if_neg other).trans (kept n other)⟩

end Write

/-! ## What is read back -/

/-- The directory is opened for reading: each file is served, and nothing else is there. -/
def Opens (files : Files) (dir : Descriptor) : Prop :=
  ∀ name, (files name = none ∧ dir name = none) ∨
    ∃ contents file, files name = some contents ∧ dir name = some file ∧ Serves contents file

theorem opens_host (files : Files) : Opens files files.host := by
  intro name
  cases found : files name with
  | none => exact .inl ⟨rfl, by simp [Files.host, found]⟩
  | some contents =>
    exact .inr ⟨contents, StateFile.serve contents, rfl, by simp [Files.host, found], StateFile.serves_serve contents⟩

/-- The file holds the contents, and however the host hands them out both readers return
what is asked for. -/
structure Holds (files : Files) (name : String) (contents : Bytes) : Prop where
  bytes : files name = some contents
  whole : ∀ dir, Opens files dir → ∀ fuel, contents.length < fuel →
    StateFile.readFile fuel dir name = .ok (some contents)
  part : ∀ dir, Opens files dir → ∀ offset len : UInt64,
    StateFile.readAt dir name offset len =
      .ok (some ((contents.take (min (offset.toNat + len.toNat) contents.length)).drop offset.toNat))

/-- Where the end saturates the file has ended before. -/
theorem readAt_slice {dir : Descriptor} {name : String} {file : HostFile} {contents : Contents}
    (opened : dir name = some file) (serves : Serves contents.bytes file) (offset len : UInt64) :
    StateFile.readAt dir name offset len =
      .ok (some ((contents.bytes.take (min (offset.toNat + len.toNat) contents.bytes.length)).drop offset.toNat)) := by
  have size := contents.isSize
  have read := @StateFile.readUpTo_eq name contents.bytes file serves (min (offset.toNat + len.toNat) (2 ^ 64 - 1))
    (min (offset.toNat + len.toNat) (2 ^ 64 - 1) - offset.toNat) offset.toNat (by omega)
  have slice : (contents.bytes.drop offset.toNat).take (min (offset.toNat + len.toNat) (2 ^ 64 - 1) - offset.toNat) =
      (contents.bytes.take (min (offset.toNat + len.toNat) contents.bytes.length)).drop offset.toNat := by
    rw [List.drop_take, List.take_eq_take_iff, List.length_drop]
    omega
  simp only [StateFile.readAt, opened, read, slice]
  rfl

theorem holds_of_stored {files : Files} {name : String} {contents : Contents}
    (stored : files name = some contents.bytes) : Holds files name contents.bytes := by
  have served : ∀ dir, Opens files dir → ∃ file, dir name = some file ∧ Serves contents.bytes file := by
    intro dir opens
    rcases opens name with ⟨absent, _⟩ | ⟨bytes, file, there, opened, serves⟩
    · rw [stored] at absent
      cases absent
    · rw [stored] at there
      cases there
      exact ⟨file, opened, serves⟩
  constructor
  case bytes => exact stored
  case whole =>
    intro dir opens fuel enough
    obtain ⟨file, opened, serves⟩ := served dir opens
    exact StateFile.readFile_eq opened serves enough
  case part =>
    intro dir opens offset len
    obtain ⟨file, opened, serves⟩ := served dir opens
    exact readAt_slice opened serves offset len

/-! ## The file layer -/

/-- A write that returns has stored the contents; an atomic write that does not return, whether
it fails or is cut short, has left its target alone. -/
theorem transfers_exact (disk : Disk) (host : AtomicDisk) (files : Files) (name : String) (contents : Contents) :
    ((writeFile disk files name contents.bytes).1 = .ok () →
        Holds (writeFile disk files name contents.bytes).2 name contents.bytes) ∧
      ((writeAtomic host files name contents.bytes).1 = .ok () →
        Holds (writeAtomic host files name contents.bytes).2 name contents.bytes) ∧
      ((writeAtomic host files name contents.bytes).1 ≠ .ok () →
        (writeAtomic host files name contents.bytes).2 name = files name) := by
  refine ⟨fun returned => ?_, fun returned => ?_, fun stopped => ?_⟩
  · have written : writeFile disk files name contents.bytes = (.ok (), (writeFile disk files name contents.bytes).2) :=
      Prod.ext returned rfl
    refine holds_of_stored ?_
    rw [writeFile_ok written]
    exact if_pos rfl
  · rcases @writeAtomic_cases name contents.bytes host files with ⟨_, replaced⟩ | ⟨stopped, _⟩
    · refine holds_of_stored ?_
      rw [replaced, StateFile.after_writeAtomic, if_pos rfl]
    · exact absurd returned stopped
  · rcases @writeAtomic_cases name contents.bytes host files with ⟨returned, _⟩ | ⟨_, kept⟩
    · exact absurd returned stopped
    · exact kept name (StateFile.tmpName_ne name).symm

def bytewise : AtomicDisk where
  disk := { opened := some (.ok ()), write := fun _ remaining => some (.ok (Fin.ofNat (remaining + 1) 1)) }
  rename := some (.ok ())
  unlink := some (.ok ())

/-- Three bytes take three rounds and are there. -/
theorem transfers_exact_bytewise :
    Holds (writeAtomic bytewise noFiles "index.bin" [79, 68, 65]).2 "index.bin" [79, 68, 65] :=
  (transfers_exact bytewise.disk bytewise noFiles "index.bin" ⟨[79, 68, 65], by decide⟩).2.1 rfl

end FileLayer

end OneDriveDavfs
