import OneDriveDavfs.StateFile

/-! The files of the state directory over time.

Writing is a list of operations on the directory. A request that is cut short
has done the first ones of its list and none of the others. The operations
themselves succeed, and a rename takes effect at once.
-/

set_option autoImplicit false

namespace OneDriveDavfs

open Library.Wire

abbrev Files := String → Option Bytes

def noFiles : Files := fun _ => none

inductive FileOp where
  | write (name : String) (contents : Bytes)
  | rename (source dest : String)
  deriving DecidableEq, Repr

/-- A rename of a file that is not there does nothing. -/
def FileOp.run (files : Files) : FileOp → Files
  | .write name contents => fun n => if n = name then some contents else files n
  | .rename source dest =>
    match files source with
    | none => files
    | some contents => fun n => if n = dest then some contents else if n = source then none else files n

namespace Files

def after (files : Files) (ops : List FileOp) : Files := ops.foldl FileOp.run files

def host (files : Files) : Descriptor := fun name => (files name).map StateFile.serve

@[simp] theorem after_nil (files : Files) : files.after [] = files := rfl

theorem after_append (files : Files) (front rest : List FileOp) :
    files.after (front ++ rest) = (files.after front).after rest := List.foldl_append

end Files

namespace StateFile

def tmpName (name : String) : String := name ++ ".tmp"

/-- `write_atomic`: the new contents get the name in one step. -/
def writeAtomic (name : String) (contents : Bytes) : List FileOp :=
  [.write (tmpName name) contents, .rename (tmpName name) name]

theorem tmpName_ne (name : String) : tmpName name ≠ name := by
  intro same
  have length := congrArg String.length same
  simp [tmpName] at length

theorem after_writeAtomic (files : Files) (name : String) (contents : Bytes) (n : String) :
    files.after (writeAtomic name contents) n =
      if n = name then some contents else if n = tmpName name then none else files n := by
  simp only [Files.after, writeAtomic, List.foldl_cons, List.foldl_nil, FileOp.run, if_true]
  split
  · rfl
  · split <;> rfl

/-- Until the rename every other name keeps its file. -/
theorem after_take_writeAtomic (files : Files) {name : String} (contents : Bytes) (cut : Nat) {n : String}
    (other : n ≠ tmpName name) :
    files.after ((writeAtomic name contents).take cut) n = files n ∨
      (n = name ∧ files.after ((writeAtomic name contents).take cut) n = some contents) := by
  match cut with
  | 0 => exact .inl rfl
  | 1 => exact .inl (if_neg other)
  | cut + 2 =>
    have whole : (writeAtomic name contents).take (cut + 2) = writeAtomic name contents := by simp [writeAtomic]
    rw [whole, after_writeAtomic]
    by_cases own : n = name
    · exact .inr ⟨own, if_pos own⟩
    · exact .inl (by rw [if_neg own, if_neg other])

/-- Enough rounds of `read_file` for a file. -/
def rounds (files : Files) (name : String) : Nat := ((files name).map List.length).getD 0 + 1

theorem readFile_host (files : Files) (name : String) :
    readFile (rounds files name) files.host name = .ok (files name) := by
  cases found : files name with
  | none => simp [readFile, Files.host, found]
  | some contents =>
    refine @readFile_eq _ _ (serve contents) _ _ (by simp [Files.host, found]) (serves_serve contents) ?_
    simp [rounds, found]

end StateFile

end OneDriveDavfs
