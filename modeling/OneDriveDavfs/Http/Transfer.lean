import OneDriveDavfs.Library.Effect
import OneDriveDavfs.StateWrite

/-! Bodies in pieces: `read_request_body` and `respond` in `src/lib.rs`, `read_body` in `src/http_client.rs`.

The host hands out a body in chunks of its own choosing, some of them empty,
and takes a body as far as it permits at each step. A body is read whole or
not at all, and what is written of one is a beginning of it.
-/

set_option autoImplicit false

namespace OneDriveDavfs

open Library.Wire

/-- What follows the last chunk of a stream. -/
inductive Ending where
  | closed
  | failed (message : String)
  /-- the guest is cut short while it waits -/
  | cut
  deriving DecidableEq, Repr

structure IncomingBody where
  /-- `consume` and `stream` succeed -/
  consumes : Bool
  streams : Bool
  chunks : List Bytes
  ending : Ending
  deriving DecidableEq, Repr

inductive BodyError where
  | tooLarge
  | read (message : String)
  deriving DecidableEq, Repr

namespace IncomingBody

/-- The loop over `blocking_read`, from what was read so far; nothing where the guest is cut short.
`kind` is the word for the body in the messages. -/
def readLoop (kind : String) (maxBytes : Option Nat) (ending : Ending) :
    Bytes → List Bytes → Option (Except BodyError Bytes)
  | buf, [] =>
    match ending with
    | .closed => some (.ok buf)
    | .failed message => some (.error (.read ("error reading " ++ kind ++ " body: " ++ message)))
    | .cut => none
  | buf, chunk :: rest =>
    -- an empty chunk means that the host needs more time
    if chunk = [] then readLoop kind maxBytes ending buf rest
    else if ∃ max ∈ maxBytes, max < buf.length + chunk.length then some (.error .tooLarge)
    else readLoop kind maxBytes ending (buf ++ chunk) rest

def read (body : IncomingBody) (kind : String) (maxBytes : Option Nat) : Option (Except BodyError Bytes) :=
  if body.consumes = false then some (.error (.read ("failed to consume " ++ kind ++ " body")))
  else if body.streams = false then some (.error (.read ("failed to open " ++ kind ++ " body stream")))
  else readLoop kind maxBytes body.ending [] body.chunks

def readRequestBody (body : IncomingBody) (maxBytes : Nat) : Option (Except BodyError Bytes) :=
  body.read "request" (some maxBytes)

def readBody (body : IncomingBody) : Option (Except BodyError Bytes) := body.read "response" none

def bytes (body : IncomingBody) : Bytes := body.chunks.flatten

def ended (kind : String) (ending : Ending) (buf : Bytes) : Option (Except BodyError Bytes) :=
  match ending with
  | .closed => some (.ok buf)
  | .failed message => some (.error (.read ("error reading " ++ kind ++ " body: " ++ message)))
  | .cut => none

/-- The chunks do not matter, only what they come to. -/
theorem readLoop_eq (kind : String) (maxBytes : Option Nat) (ending : Ending) {buf : Bytes}
    (within : ∀ max ∈ maxBytes, buf.length ≤ max) (chunks : List Bytes) :
    readLoop kind maxBytes ending buf chunks =
      if ∃ max ∈ maxBytes, max < buf.length + chunks.flatten.length then some (.error .tooLarge)
      else ended kind ending (buf ++ chunks.flatten) := by
  induction chunks generalizing buf with
  | nil =>
    have fits : ¬ ∃ max ∈ maxBytes, max < buf.length + ([] : List Bytes).flatten.length := by
      rintro ⟨max, given, more⟩
      exact Nat.not_lt.mpr (within max given) more
    rw [if_neg fits, List.flatten_nil, List.append_nil]
    rfl
  | cons chunk rest ih =>
    rw [readLoop, List.flatten_cons]
    by_cases empty : chunk = []
    · rw [if_pos empty, ih within, empty, List.nil_append]
    · rw [if_neg empty]
      by_cases large : ∃ max ∈ maxBytes, max < buf.length + chunk.length
      · have larger : ∃ max ∈ maxBytes, max < buf.length + (chunk ++ rest.flatten).length := by
          obtain ⟨max, given, more⟩ := large
          exact ⟨max, given, by rw [List.length_append]; omega⟩
        rw [if_pos large, if_pos larger]
      · have still : ∀ max ∈ maxBytes, (buf ++ chunk).length ≤ max := by
          intro max given
          by_contra more
          exact large ⟨max, given, by rw [List.length_append] at more; omega⟩
        rw [if_neg large, ih still]
        simp only [List.length_append, List.append_assoc, Nat.add_assoc]

theorem readRequestBody_eq {body : IncomingBody} (consumes : body.consumes = true) (streams : body.streams = true)
    (maxBytes : Nat) :
    body.readRequestBody maxBytes =
      if maxBytes < body.bytes.length then some (.error .tooLarge) else ended "request" body.ending body.bytes := by
  have loop := @readLoop_eq "request" (some maxBytes) body.ending [] (by simp) body.chunks
  rw [readRequestBody, read, if_neg (by simp [consumes]), if_neg (by simp [streams]), loop]
  simp [bytes]

end IncomingBody

structure IncomingBody.Arrives (body : IncomingBody) (maxBytes : Nat) : Prop where
  consumes : body.consumes = true
  streams : body.streams = true
  closed : body.ending = .closed
  fits : body.bytes.length ≤ maxBytes

namespace IncomingBody

theorem readRequestBody_ok_iff {body : IncomingBody} {maxBytes : Nat} {bytes : Bytes} :
    body.readRequestBody maxBytes = some (.ok bytes) ↔ body.Arrives maxBytes ∧ bytes = body.bytes := by
  by_cases consumes : body.consumes = true
  case neg =>
    rw [readRequestBody, read, if_pos (by simpa using consumes)]
    exact ⟨fun impossible => (by cases impossible), fun arrives => absurd arrives.1.consumes consumes⟩
  by_cases streams : body.streams = true
  case neg =>
    rw [readRequestBody, read, if_neg (by simp [consumes]), if_pos (by simpa using streams)]
    exact ⟨fun impossible => (by cases impossible), fun arrives => absurd arrives.1.streams streams⟩
  rw [readRequestBody_eq consumes streams]
  by_cases large : maxBytes < body.bytes.length
  · rw [if_pos large]
    exact ⟨fun impossible => (by cases impossible), fun arrives => absurd large (Nat.not_lt.mpr arrives.1.fits)⟩
  · rw [if_neg large]
    have fits := Nat.le_of_not_lt large
    unfold ended
    cases closed : body.ending with
    | closed =>
      constructor
      · intro read
        cases read
        exact ⟨⟨consumes, streams, closed, fits⟩, rfl⟩
      · rintro ⟨_, rfl⟩
        rfl
    | failed message =>
      exact ⟨fun impossible => (by cases impossible), fun arrives => by cases closed.symm.trans arrives.1.closed⟩
    | cut => exact ⟨fun impossible => (by cases impossible), fun arrives => by cases closed.symm.trans arrives.1.closed⟩

end IncomingBody

/-! ## Writing a response -/

/-- What the host does in one round of the loop of `respond`: it permits so many bytes, and takes the
write or fails; or it has closed the stream. -/
inductive WriteRound where
  | permit (count : Nat) (taken : Bool)
  | closed
  deriving DecidableEq, Repr

/-- The writes of the loop from an offset on, each with its permit, and whether the loop is left. -/
def writeBody (body : Bytes) : Nat → List WriteRound → List (Nat × Bytes) × Bool
  | offset, rounds =>
    if offset < body.length then
      match rounds with
      | [] => ([], false)
      | .closed :: _ => ([], true)
      | .permit count taken :: rest =>
        if count = 0 then writeBody body offset rest
        else
          let stop := min (offset + count) body.length
          if taken then
            let further := writeBody body stop rest
            ((count, slice body offset stop) :: further.1, further.2)
          else ([], true)
    else ([], true)

/-- What the host has permitted up to the first failure. -/
def permitted : List WriteRound → Nat
  | [] => 0
  | .closed :: _ => 0
  | .permit count taken :: rest => if count = 0 ∨ taken = true then count + permitted rest else 0

theorem slice_append_take (body : Bytes) (offset count more : Nat) :
    slice body offset (min (offset + count) body.length) ++ (body.drop (min (offset + count) body.length)).take more =
      (body.drop offset).take (count + more) := by
  have part : slice body offset (min (offset + count) body.length) = (body.drop offset).take count := by
    rw [slice, List.drop_take, List.take_eq_take_iff, List.length_drop]
    omega
  rw [part, List.take_add, List.drop_drop]
  congr 1
  by_cases inside : offset + count ≤ body.length
  · rw [Nat.min_eq_left inside]
  · have past : body.length ≤ offset + count := Nat.le_of_not_le inside
    rw [Nat.min_eq_right past, List.drop_length, List.drop_eq_nil_of_le past]

theorem writeBody_flatten (body : Bytes) (offset : Nat) (rounds : List WriteRound) :
    ((writeBody body offset rounds).1.map Prod.snd).flatten = (body.drop offset).take (permitted rounds) := by
  induction rounds generalizing offset with
  | nil =>
    unfold writeBody
    split <;> simp [permitted]
  | cons round rest ih =>
    unfold writeBody
    split
    · cases round with
      | closed => simp [permitted]
      | permit count taken =>
        dsimp only
        split
        · rename_i none
          rw [ih, permitted, if_pos (.inl none), none, Nat.zero_add]
        · rename_i some
          cases taken with
          | false => simp [permitted, some]
          | true =>
            rw [if_pos rfl, List.map_cons, List.flatten_cons, ih, slice_append_take, permitted, if_pos (.inr rfl)]
    · rename_i past
      rw [List.drop_eq_nil_of_le (Nat.le_of_not_lt past)]
      simp

theorem writeBody_permits (body : Bytes) (offset : Nat) (rounds : List WriteRound) :
    ∀ write ∈ (writeBody body offset rounds).1, 0 < write.2.length ∧ write.2.length ≤ write.1 := by
  induction rounds generalizing offset with
  | nil =>
    unfold writeBody
    split <;> simp
  | cons round rest ih =>
    unfold writeBody
    split
    · rename_i inside
      cases round with
      | closed => simp
      | permit count taken =>
        dsimp only
        split
        · exact ih offset
        · rename_i some
          cases taken with
          | false => simp
          | true =>
            rw [if_pos rfl]
            intro write member
            rcases List.mem_cons.mp member with rfl | later
            · simp only [slice, List.length_take, List.length_drop]
              omega
            · exact ih _ write later
    · simp

end OneDriveDavfs
