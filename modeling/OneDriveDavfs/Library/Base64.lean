import OneDriveDavfs.Library.Text

/-! The standard base64 encoding, with padding.

Three bytes are four numbers below 64, each written as a letter. A last group
of one or two bytes is two or three numbers, and is filled up with `=`.
-/

set_option autoImplicit false
set_option maxRecDepth 2000

namespace Library.Base64

open Library.Wire

def letter (n : UInt8) : UInt8 :=
  if n < 26 then 0x41 + n
  else if n < 52 then 0x61 + (n - 26)
  else if n < 62 then 0x30 + (n - 52)
  else if n = 62 then 0x2B
  else 0x2F

def pad : UInt8 := 0x3D

def sextets : Bytes → Bytes
  | a :: b :: c :: rest =>
    a >>> 2 :: ((a &&& 0x03) <<< 4 ||| b >>> 4) :: ((b &&& 0x0F) <<< 2 ||| c >>> 6) :: (c &&& 0x3F) :: sextets rest
  | [a, b] => [a >>> 2, (a &&& 0x03) <<< 4 ||| b >>> 4, (b &&& 0x0F) <<< 2]
  | [a] => [a >>> 2, (a &&& 0x03) <<< 4]
  | [] => []

def encode (bytes : Bytes) : Bytes :=
  (sextets bytes).map letter ++ List.replicate ((3 - bytes.length % 3) % 3) pad

/-! ## Four numbers and three bytes -/

theorem first_byte (a b : UInt8) : (a >>> 2) <<< 2 ||| ((a &&& 0x03) <<< 4 ||| b >>> 4) >>> 4 = a := by
  have kept : ∀ a : UInt8, (a >>> 2) <<< 2 ||| (a &&& 0x03) <<< 4 >>> 4 = a := forall_byte (by decide)
  have gone : ∀ b : UInt8, b >>> 4 >>> 4 = 0 := forall_byte (by decide)
  rw [UInt8.shiftRight_or, gone, UInt8.or_zero, kept]

theorem second_byte (a b c : UInt8) :
    ((a &&& 0x03) <<< 4 ||| b >>> 4) <<< 4 ||| ((b &&& 0x0F) <<< 2 ||| c >>> 6) >>> 2 = b := by
  have before : ∀ a : UInt8, (a &&& 0x03) <<< 4 <<< 4 = 0 := forall_byte (by decide)
  have kept : ∀ b : UInt8, b >>> 4 <<< 4 ||| (b &&& 0x0F) <<< 2 >>> 2 = b := forall_byte (by decide)
  have behind : ∀ c : UInt8, c >>> 6 >>> 2 = 0 := forall_byte (by decide)
  rw [UInt8.shiftLeft_or, UInt8.shiftRight_or, before, behind, UInt8.zero_or, UInt8.or_zero, kept]

theorem third_byte (b c : UInt8) : ((b &&& 0x0F) <<< 2 ||| c >>> 6) <<< 6 ||| (c &&& 0x3F) = c := by
  have before : ∀ b : UInt8, (b &&& 0x0F) <<< 2 <<< 6 = 0 := forall_byte (by decide)
  have kept : ∀ c : UInt8, c >>> 6 <<< 6 ||| (c &&& 0x3F) = c := forall_byte (by decide)
  rw [UInt8.shiftLeft_or, before, UInt8.zero_or, kept]

/-! ## Letters -/

theorem or_lt_64 {x y : UInt8} (left : x < 64) (right : y < 64) : x ||| y < 64 := by
  rw [UInt8.lt_iff_toNat_lt] at *
  rw [UInt8.toNat_or]
  exact Nat.or_lt_two_pow (n := 6) left right

theorem sextets_lt (bytes : Bytes) : ∀ n ∈ sextets bytes, n < 64 := by
  have top : ∀ a : UInt8, a >>> 2 < 64 := forall_byte (by decide)
  have low : ∀ a : UInt8, (a &&& 0x03) <<< 4 < 64 := forall_byte (by decide)
  have high : ∀ b : UInt8, b >>> 4 < 64 := forall_byte (by decide)
  have middle : ∀ b : UInt8, (b &&& 0x0F) <<< 2 < 64 := forall_byte (by decide)
  have tip : ∀ c : UInt8, c >>> 6 < 64 := forall_byte (by decide)
  have bottom : ∀ c : UInt8, c &&& 0x3F < 64 := forall_byte (by decide)
  fun_induction sextets bytes with
  | case1 a b c rest ih =>
    simp only [List.forall_mem_cons]
    exact ⟨top a, or_lt_64 (low a) (high b), or_lt_64 (middle b) (tip c), bottom c, ih⟩
  | case2 a b =>
    simp only [List.forall_mem_cons]
    exact ⟨top a, or_lt_64 (low a) (high b), middle b, fun _ member => absurd member List.not_mem_nil⟩
  | case3 a =>
    simp only [List.forall_mem_cons]
    exact ⟨top a, low a, fun _ member => absurd member List.not_mem_nil⟩
  | case4 => exact fun _ member => absurd member List.not_mem_nil

theorem mem_encode {bytes : Bytes} {byte : UInt8} (member : byte ∈ encode bytes) :
    byte = pad ∨ ∃ n, n < 64 ∧ byte = letter n := by
  rcases List.mem_append.mp member with inLetters | inPadding
  · obtain ⟨n, given, rfl⟩ := List.mem_map.mp inLetters
    exact .inr ⟨n, sextets_lt bytes n given, rfl⟩
  · exact .inl (List.eq_of_mem_replicate inPadding)

theorem ascii_encode (bytes : Bytes) : Ascii (encode bytes) := by
  have letters : ∀ n : UInt8, n < 64 → letter n < 0x80 := forall_byte (by decide)
  intro byte member
  rcases mem_encode member with rfl | ⟨n, small, rfl⟩
  · decide
  · exact letters n small

end Library.Base64
