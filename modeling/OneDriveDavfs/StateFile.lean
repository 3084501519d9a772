import OneDriveDavfs.Snapshot.Format

/-! Reading the files of the state directory: `src/state_file.rs`.

The host answers a read with some of the bytes at a position, perhaps fewer
than asked for, and says whether the end of the file was reached; the loops
put the answers together.
-/

set_option autoImplicit false

namespace OneDriveDavfs

open Library.Wire

/-- `Descriptor::read(length, offset)`: a chunk and the end-of-file flag. -/
abbrev HostFile := Nat → Nat → Except String (Bytes × Bool)

abbrev Descriptor := String → Option HostFile

/-- What the interface promises for a file with these contents: a chunk of what
is at the offset, not empty before the end, and the flag only at the end. -/
def Serves (contents : Bytes) (file : HostFile) : Prop :=
  ∀ length offset, ∃ chunk eof, file length offset = .ok (chunk, eof) ∧
    chunk <+: (contents.drop offset).take length ∧
    (0 < length → offset < contents.length → chunk ≠ []) ∧
    (eof = true → contents.length ≤ offset + chunk.length)

namespace StateFile

def chunkLen : Nat := 64 * 1024

/-- The loop of `read_file` from an offset; `fuel` bounds the rounds. -/
def readOn (name : String) (file : HostFile) : Nat → Nat → Result Bytes
  | 0, _ => .error .trap
  | fuel + 1, offset =>
    match file chunkLen offset with
    | .error e => .error (.error ("failed reading " ++ name ++ ": " ++ e))
    | .ok (chunk, eof) =>
      if eof ∨ chunk = [] then .ok chunk
      else do
        let rest ← readOn name file fuel (offset + chunk.length)
        return chunk ++ rest

def readFile (fuel : Nat) (dir : Descriptor) (name : String) : Result (Option Bytes) :=
  match dir name with
  | none => .ok none
  | some file => do
    let contents ← readOn name file fuel 0
    return some contents

/-- The loop of `read_at`. Every round that goes on moves the position, so what
is left to read bounds the rounds. -/
def readUpTo (name : String) (file : HostFile) (stop : Nat) : Nat → Nat → Result Bytes
  | 0, _ => .ok []
  | fuel + 1, pos =>
    if pos < stop then
      match file (min (stop - pos) chunkLen) pos with
      | .error e => .error (.error ("failed reading " ++ name ++ " at " ++ toString pos ++ ": " ++ e))
      | .ok (chunk, eof) =>
        if eof ∨ chunk = [] then .ok chunk
        else do
          let rest ← readUpTo name file stop fuel (pos + chunk.length)
          return chunk ++ rest
    else .ok []

def readAt (dir : Descriptor) (name : String) (offset len : UInt64) : Result (Option Bytes) :=
  match dir name with
  | none => .ok none
  | some file => do
    let stop := min (offset.toNat + len.toNat) (2 ^ 64 - 1)
    let contents ← readUpTo name file stop (stop - offset.toNat) offset.toNat
    return some contents

/-! ## What the loops return -/

section Served
variable {name : String} {contents : Bytes} {file : HostFile}

theorem last_chunk {chunk : Bytes} {pos count : Nat} {eof : Bool} (wanted : 0 < count)
    (part : chunk <+: (contents.drop pos).take count) (moves : 0 < count → pos < contents.length → chunk ≠ [])
    (atEnd : eof = true → contents.length ≤ pos + chunk.length) (last : eof = true ∨ chunk = []) :
    chunk = contents.drop pos := by
  have whole : chunk <+: contents.drop pos := part.trans (List.take_prefix _ _)
  refine whole.eq_of_length_le ?_
  rw [List.length_drop]
  rcases last with flagged | nothing
  · have reached := atEnd flagged
    omega
  · have beyond : ¬ pos < contents.length := fun before => moves wanted before nothing
    omega

theorem chunk_append {chunk : Bytes} {pos count : Nat} (part : chunk <+: (contents.drop pos).take count) :
    chunk ++ contents.drop (pos + chunk.length) = contents.drop pos := by
  obtain ⟨rest, whole⟩ := part.trans (List.take_prefix _ _)
  rw [← List.drop_drop, ← whole, List.drop_left]

theorem readOn_eq (serves : Serves contents file) {fuel pos : Nat} (enough : contents.length < pos + fuel)
    (within : pos ≤ contents.length) : readOn name file fuel pos = .ok (contents.drop pos) := by
  induction fuel generalizing pos with
  | zero => omega
  | succ fuel ih =>
    obtain ⟨chunk, eof, answer, part, moves, atEnd⟩ := serves chunkLen pos
    simp only [readOn, answer]
    split
    · rename_i last
      rw [last_chunk (by decide) part moves atEnd last]
    · rename_i more
      have filled : 0 < chunk.length := by
        by_contra nothing
        exact more (.inr (List.length_eq_zero_iff.mp (by omega)))
      have short := part.length_le
      rw [List.length_take, List.length_drop] at short
      rw [ih (by omega) (by omega), ← chunk_append part]
      rfl

theorem readFile_eq {dir : Descriptor} {fuel : Nat} (opened : dir name = some file) (serves : Serves contents file)
    (enough : contents.length < fuel) : readFile fuel dir name = .ok (some contents) := by
  have whole : readOn name file fuel 0 = .ok (contents.drop 0) :=
    readOn_eq serves (by omega) (Nat.zero_le _)
  simp only [readFile, opened, whole]
  rfl

theorem readUpTo_eq (serves : Serves contents file) {stop fuel pos : Nat} (enough : stop ≤ pos + fuel) :
    readUpTo name file stop fuel pos = .ok ((contents.drop pos).take (stop - pos)) := by
  induction fuel generalizing pos with
  | zero =>
    have done : stop - pos = 0 := by omega
    rw [readUpTo, done, List.take_zero]
  | succ fuel ih =>
    rw [readUpTo]
    split
    · rename_i before
      obtain ⟨chunk, eof, answer, part, moves, atEnd⟩ := serves (min (stop - pos) chunkLen) pos
      have wanted : 0 < min (stop - pos) chunkLen := Nat.lt_min.mpr ⟨by omega, by decide⟩
      have short := part.length_le
      rw [List.length_take, List.length_drop] at short
      have fits : chunk.length ≤ stop - pos := by omega
      simp only [answer]
      split
      · -- the read came up short, so the file ends here
        rename_i last
        have whole := last_chunk wanted part moves atEnd last
        rw [← whole, List.take_of_length_le fits]
      · rename_i more
        have filled : 0 < chunk.length := by
          by_contra nothing
          exact more (.inr (List.length_eq_zero_iff.mp (by omega)))
        have left : stop - (pos + chunk.length) = stop - pos - chunk.length := by omega
        rw [ih (by omega), ← chunk_append part, List.take_append, List.take_of_length_le fits, left]
        rfl
    · rename_i reached
      have done : stop - pos = 0 := by omega
      rw [done, List.take_zero]

theorem readAt_eq {dir : Descriptor} {offset len : UInt64} (opened : dir name = some file)
    (serves : Serves contents file) (fits : offset.toNat + len.toNat < 2 ^ 64) :
    readAt dir name offset len = .ok (some ((contents.drop offset.toNat).take len.toNat)) := by
  have stop : min (offset.toNat + len.toNat) (2 ^ 64 - 1) = offset.toNat + len.toNat := by omega
  simp only [readAt, opened, stop]
  rw [readUpTo_eq serves (by omega), Nat.add_sub_cancel_left]
  rfl

end Served

def serve (contents : Bytes) : HostFile := fun length offset =>
  .ok ((contents.drop offset).take length, decide (contents.length ≤ offset + length))

theorem serves_serve (contents : Bytes) : Serves contents (serve contents) := by
  intro length offset
  refine ⟨_, _, rfl, List.prefix_rfl, ?_, ?_⟩
  · intro wanted before nothing
    rw [List.take_eq_nil_iff, List.drop_eq_nil_iff] at nothing
    omega
  · intro flagged
    have reached := of_decide_eq_true flagged
    rw [List.length_take, List.length_drop]
    omega

end StateFile

end OneDriveDavfs
