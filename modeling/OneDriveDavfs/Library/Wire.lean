import Mathlib.Data.List.Basic
import Mathlib.Tactic.Ring

/-! Byte strings: little-endian numbers, slices, and UTF-8 text.

A reader works on a whole byte string and a position in it. `Stands data pos
tail` says what is still to be read there; reading a part moves the position
to the end of the part.
-/

set_option autoImplicit false

namespace Library.Wire

abbrev Bytes := List UInt8

/-! ## Little-endian numbers -/

def le : Nat → Nat → Bytes
  | 0, _ => []
  | width + 1, value => UInt8.ofNat value :: le width (value / 256)

def ofLe : Bytes → Nat
  | [] => 0
  | byte :: rest => byte.toNat + 256 * ofLe rest

@[simp] theorem length_le (width value : Nat) : (le width value).length = width := by
  induction width generalizing value with
  | zero => rfl
  | succ width ih => simp [le, ih]

theorem ofLe_le (width value : Nat) : ofLe (le width value) = value % 256 ^ width := by
  induction width generalizing value with
  | zero => simp [le, ofLe, Nat.mod_one]
  | succ width ih =>
    rw [le, ofLe, ih, Nat.pow_succ, Nat.mul_comm _ 256, Nat.mod_mul, UInt8.toNat_ofNat']

theorem ofLe_lt (bytes : Bytes) : ofLe bytes < 256 ^ bytes.length := by
  induction bytes with
  | nil => simp [ofLe]
  | cons byte rest ih =>
    have small := byte.toNat_lt
    rw [ofLe, List.length_cons, Nat.pow_succ]
    omega

/-! ## Slices -/

def slice (data : Bytes) (start stop : Nat) : Bytes := (data.take stop).drop start

/-- What follows the position is `tail`. -/
def Stands (data : Bytes) (pos : Nat) (tail : Bytes) : Prop :=
  ∃ front, data = front ++ tail ∧ front.length = pos

theorem Stands.start (data : Bytes) : Stands data 0 data := ⟨[], rfl, rfl⟩

theorem Stands.length {data tail : Bytes} {pos : Nat} (stands : Stands data pos tail) :
    data.length = pos + tail.length := by
  obtain ⟨front, rfl, rfl⟩ := stands
  exact List.length_append

theorem Stands.slice {data part tail : Bytes} {pos : Nat} (stands : Stands data pos (part ++ tail)) :
    slice data pos (pos + part.length) = part := by
  obtain ⟨front, rfl, rfl⟩ := stands
  rw [Wire.slice, ← List.append_assoc, List.take_left' (by simp), List.drop_left]

theorem Stands.next {data part tail : Bytes} {pos : Nat} (stands : Stands data pos (part ++ tail)) :
    Stands data (pos + part.length) tail := by
  obtain ⟨front, rfl, rfl⟩ := stands
  exact ⟨front ++ part, by simp, by simp⟩

theorem Stands.le_length {data part tail : Bytes} {pos : Nat} (stands : Stands data pos (part ++ tail)) :
    pos + part.length ≤ data.length := by
  rw [stands.length, List.length_append]
  omega

theorem Stands.head {data tail : Bytes} {pos : Nat} {byte : UInt8} (stands : Stands data pos (byte :: tail)) :
    data[pos]? = some byte := by
  obtain ⟨front, rfl, rfl⟩ := stands
  simp

theorem length_slice {data : Bytes} {start stop : Nat} (bound : stop ≤ data.length) :
    (slice data start stop).length = stop - start := by
  rw [slice, List.length_drop, List.length_take, Nat.min_eq_left bound]

/-! ## Overwriting -/

/-- `buf[at..at + part.len()].copy_from_slice(part)`. -/
def overwrite (buf : Bytes) (start : Nat) (part : Bytes) : Bytes :=
  buf.take start ++ part ++ buf.drop (start + part.length)

theorem overwrite_append {front old rest part : Bytes} {start : Nat} (place : start = front.length)
    (fits : old.length = part.length) :
    overwrite (front ++ (old ++ rest)) start part = front ++ part ++ rest := by
  rw [overwrite, place, List.take_left, ← fits, ← List.length_append, ← List.append_assoc, List.drop_left]

/-! ## Text -/

def utf8 (text : String) : Bytes := text.toByteArray.data.toList

def fromUtf8 (bytes : Bytes) : Option String := String.fromUTF8? ⟨bytes.toArray⟩

theorem fromUtf8_utf8 (text : String) : fromUtf8 (utf8 text) = some text := by
  have same : (⟨(utf8 text).toArray⟩ : ByteArray) = text.toByteArray := by simp [utf8]
  rw [fromUtf8, same, String.fromUTF8?, dif_pos text.isValidUTF8]
  rfl

theorem utf8_injective {a b : String} (same : utf8 a = utf8 b) : a = b := by
  have read := fromUtf8_utf8 a
  rw [same, fromUtf8_utf8] at read
  exact (Option.some.inj read).symm

end Library.Wire
