import OneDriveDavfs.StateDir

/-! Writing a file in place: `write_file` of `src/state_file.rs`.

The host may take fewer bytes than it is offered, may fail, and the guest may
be cut short at any call. The file is truncated when it is opened.
-/

set_option autoImplicit false

namespace OneDriveDavfs

open Library.Wire

/-- Why a computation of the guest did not return. -/
inductive Stop where
  | failed (message : String)
  /-- the guest is cut short -/
  | cut
  deriving DecidableEq, Repr

/-- What the host does with one `write_file`; nothing where the guest is cut short.
A write takes at most what it is offered. -/
structure Disk where
  opened : Option (Except String Unit)
  write : (round remaining : Nat) → Option (Except String (Fin (remaining + 1)))

namespace StateFile

/-- The loop of `write_file`: how it ends and the offset it reaches. Every round that goes on
moves the offset, so the length of the contents bounds the rounds. -/
def writeOn (name : String) (disk : Disk) (contents : Bytes) : Nat → Nat → Nat → Except Stop Unit × Nat
  | 0, _, offset => (.ok (), offset)
  | fuel + 1, round, offset =>
    if offset < contents.length then
      match disk.write round (contents.length - offset) with
      | none => (.error .cut, offset)
      | some (.error e) => (.error (.failed ("failed writing " ++ name ++ ": " ++ e)), offset)
      | some (.ok written) =>
        if written.val = 0 then (.error (.failed ("short write to " ++ name)), offset)
        else writeOn name disk contents fuel (round + 1) (offset + written)
    else (.ok (), offset)

def taken (disk : Disk) (name : String) (contents : Bytes) : Nat :=
  (writeOn name disk contents contents.length 0 0).2

def writeFile (disk : Disk) (files : Files) (name : String) (contents : Bytes) : Except Stop Unit × Files :=
  match disk.opened with
  | none => (.error .cut, files)
  | some (.error e) => (.error (.failed ("failed opening " ++ name ++ " for write: " ++ e)), files)
  | some (.ok ()) =>
    ((writeOn name disk contents contents.length 0 0).1,
      (FileOp.write name (contents.take (taken disk name contents))).run files)

/-- The disk opens the file, which empties it, and then stops before the last byte. -/
def Tears (disk : Disk) (name : String) (contents : Bytes) : Prop :=
  disk.opened = some (.ok ()) ∧ taken disk name contents < contents.length

instance (disk : Disk) (name : String) (contents : Bytes) : Decidable (Tears disk name contents) :=
  inferInstanceAs (Decidable (_ ∧ _))

section Loop
variable {name : String} {disk : Disk} {contents : Bytes}

/-- The loop returns exactly when it has written everything. -/
theorem writeOn_spec {fuel round offset : Nat} (enough : contents.length ≤ offset + fuel)
    (within : offset ≤ contents.length) :
    (writeOn name disk contents fuel round offset).2 ≤ contents.length ∧
      ((writeOn name disk contents fuel round offset).1 = .ok () ↔
        (writeOn name disk contents fuel round offset).2 = contents.length) := by
  induction fuel generalizing round offset with
  | zero =>
    have whole : offset = contents.length := by omega
    simp [writeOn, whole]
  | succ fuel ih =>
    rw [writeOn]
    split
    · rename_i before
      cases disk.write round (contents.length - offset) with
      | none => exact ⟨within, by simp; omega⟩
      | some answer =>
        cases answer with
        | error e => exact ⟨within, by simp; omega⟩
        | ok written =>
          dsimp only
          split
          · exact ⟨within, by simp; omega⟩
          · have fits := written.isLt
            exact ih (by omega) (by omega)
    · have whole : offset = contents.length := by omega
      exact ⟨within, by simp [whole]⟩

theorem taken_le : taken disk name contents ≤ contents.length :=
  (writeOn_spec (by omega) (Nat.zero_le _)).1

theorem writeFile_file (files : Files) :
    (¬ disk.opened = some (.ok ()) ∧ (writeFile disk files name contents).2 = files) ∨
      (disk.opened = some (.ok ()) ∧
        (writeFile disk files name contents).2 name = some (contents.take (taken disk name contents))) := by
  unfold writeFile
  split
  · rename_i never
    exact .inl ⟨by rw [never]; simp, rfl⟩
  · rename_i refused
    exact .inl ⟨by rw [refused]; simp, rfl⟩
  · rename_i opened
    exact .inr ⟨opened, if_pos rfl⟩

end Loop

end StateFile

end OneDriveDavfs
