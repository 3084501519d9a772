import Mathlib.Data.List.DropRight
import OneDriveDavfs.Library.Wire

/-! UTF-8 character by character.

The encoding of a text is the concatenation of the encodings of its
characters, and no encoding of a character begins another one; so a byte
string that is a text and a prefix of a text is a prefix of its characters.
-/

set_option autoImplicit false
set_option maxRecDepth 2000

namespace Library.Wire

theorem utf8_eq_flatMap (text : String) : utf8 text = text.toList.flatMap String.utf8EncodeChar := by
  rw [utf8, ← String.utf8Encode_toList, List.utf8Encode]
  simp

theorem utf8_ofList (chars : List Char) : utf8 (String.ofList chars) = chars.flatMap String.utf8EncodeChar := by
  rw [utf8_eq_flatMap, String.toList_ofList]

theorem utf8_append (front rest : String) : utf8 (front ++ rest) = utf8 front ++ utf8 rest := by
  simp only [utf8_eq_flatMap, String.toList_append, List.flatMap_append]

theorem utf8_of_fromUtf8 {bytes : Bytes} {text : String} (read : fromUtf8 bytes = some text) : utf8 text = bytes := by
  rw [fromUtf8, String.fromUTF8?] at read
  split at read
  · cases read
    simp [utf8, String.fromUTF8]
  · cases read

theorem utf8EncodeChar_inj {c d : Char} {rest tail : Bytes}
    (same : String.utf8EncodeChar c ++ rest = String.utf8EncodeChar d ++ tail) : c = d := by
  have arrays := congrArg List.toByteArray same
  rw [List.toByteArray_append, List.toByteArray_append] at arrays
  have decoded := ByteArray.utf8DecodeChar?_utf8EncodeChar_append (b := rest.toByteArray) (c := c)
  rw [arrays, ByteArray.utf8DecodeChar?_utf8EncodeChar_append] at decoded
  exact (Option.some.inj decoded).symm

theorem prefix_of_flatMap_utf8 {front chars : List Char}
    (part : front.flatMap String.utf8EncodeChar <+: chars.flatMap String.utf8EncodeChar) : front <+: chars := by
  induction front generalizing chars with
  | nil => exact List.nil_prefix
  | cons c front ih =>
    obtain ⟨tail, same⟩ := part
    rw [List.flatMap_cons, List.append_assoc] at same
    cases chars with
    | nil =>
      have empty := congrArg List.length same
      have positive := c.utf8Size_pos
      rw [List.length_append, String.length_utf8EncodeChar, List.flatMap_nil, List.length_nil] at empty
      omega
    | cons d chars =>
      rw [List.flatMap_cons] at same
      cases utf8EncodeChar_inj same
      exact List.cons_prefix_cons.mpr ⟨rfl, ih ⟨tail, List.append_cancel_left same⟩⟩

theorem toList_prefix_of_utf8 {front text : String} (part : utf8 front <+: utf8 text) : front.toList <+: text.toList := by
  rw [utf8_eq_flatMap, utf8_eq_flatMap] at part
  exact prefix_of_flatMap_utf8 part

/-! ## Bytes that are characters -/

def latin (bytes : Bytes) : String := String.ofList (bytes.map fun byte => Char.ofNat byte.toNat)

def Ascii (bytes : Bytes) : Prop := ∀ byte ∈ bytes, byte < 0x80

theorem forall_byte {P : UInt8 → Prop} (all : ∀ n : Fin 256, P (UInt8.ofNat n)) (byte : UInt8) : P byte := by
  have found := all ⟨byte.toNat, byte.toNat_lt⟩
  rwa [UInt8.ofNat_toNat] at found

theorem utf8EncodeChar_ascii : ∀ byte : UInt8, byte < 0x80 → String.utf8EncodeChar (Char.ofNat byte.toNat) = [byte] :=
  forall_byte (by decide)

/-- A byte below 128 is in the encoding of no character but its own. -/
theorem of_mem_utf8EncodeChar {c : Char} {byte : UInt8} (small : byte < 0x80)
    (member : byte ∈ String.utf8EncodeChar c) : c = Char.ofNat byte.toNat := by
  have bound : byte.toNat < 0x80 := small
  unfold String.utf8EncodeChar at member
  dsimp only at member
  split at member
  · rename_i single
    rw [List.mem_singleton] at member
    have number : byte.toNat = c.toNat := by
      rw [member, UInt8.toNat_ofNat']
      exact Nat.mod_eq_of_lt (by omega)
    rw [number, Char.ofNat_toNat]
  · -- the bytes of a longer encoding are 128 or more
    have high : ∀ n, 0x80 ≤ n → n < 0x100 → byte ≠ UInt8.ofNat n := by
      intro n least most same
      rw [same, UInt8.toNat_ofNat', Nat.mod_eq_of_lt most] at bound
      omega
    split at member
    · simp only [List.mem_cons, List.not_mem_nil, or_false] at member
      rcases member with same | same <;> exact absurd same (high _ (by omega) (by omega))
    · split at member
      · simp only [List.mem_cons, List.not_mem_nil, or_false] at member
        rcases member with same | same | same <;> exact absurd same (high _ (by omega) (by omega))
      · simp only [List.mem_cons, List.not_mem_nil, or_false] at member
        rcases member with same | same | same | same <;> exact absurd same (high _ (by omega) (by omega))

theorem mem_utf8_iff {byte : UInt8} (small : byte < 0x80) (s : String) :
    byte ∈ utf8 s ↔ Char.ofNat byte.toNat ∈ s.toList := by
  rw [utf8_eq_flatMap, List.mem_flatMap]
  constructor
  · rintro ⟨c, inText, written⟩
    exact of_mem_utf8EncodeChar small written ▸ inText
  · intro inText
    refine ⟨_, inText, ?_⟩
    rw [utf8EncodeChar_ascii byte small]
    exact List.mem_singleton_self byte

theorem utf8_latin {bytes : Bytes} (ascii : Ascii bytes) : utf8 (latin bytes) = bytes := by
  rw [latin, utf8_ofList, List.flatMap_map]
  induction bytes with
  | nil => rfl
  | cons byte rest ih =>
    have first := utf8EncodeChar_ascii byte (ascii byte List.mem_cons_self)
    rw [List.flatMap_cons, first, ih fun b member => ascii b (List.mem_cons_of_mem _ member)]
    rfl

theorem latin_append (front rest : Bytes) : latin (front ++ rest) = latin front ++ latin rest := by
  simp only [latin, List.map_append, String.ofList_append]

/-! ## Reading what may not be a text -/

/-- The bytes that may follow a first byte, for the ranges that UTF-8 allows. -/
def second (first : UInt8) : UInt8 × UInt8 :=
  if first = 0xE0 then (0xA0, 0xBF)
  else if first = 0xED then (0x80, 0x9F)
  else if first = 0xF0 then (0x90, 0xBF)
  else if first = 0xF4 then (0x80, 0x8F)
  else (0x80, 0xBF)

def width (first : UInt8) : Nat :=
  if first < 0x80 then 1
  else if 0xC2 ≤ first ∧ first ≤ 0xDF then 2
  else if 0xE0 ≤ first ∧ first ≤ 0xEF then 3
  else if 0xF0 ≤ first ∧ first ≤ 0xF4 then 4
  else 0

/-- How many of the bytes are the longest beginning of an encoding, one at least. -/
def maximalPart (first : UInt8) (rest : Bytes) : Nat :=
  match rest with
  | [] => 1
  | b :: more =>
    if width first < 2 ∨ b < (second first).1 ∨ (second first).2 < b then 1
    else 2 + ((more.take (width first - 2)).takeWhile fun byte => 0x80 ≤ byte ∧ byte ≤ 0xBF).length

/-- `String::from_utf8_lossy`: every longest beginning that is no encoding becomes U+FFFD. -/
def fromUtf8Lossy : Nat → Bytes → List Char
  | 0, _ | _, [] => []
  | fuel + 1, first :: rest =>
    let taken := maximalPart first rest
    let char := if taken = width first then (fromUtf8 ((first :: rest).take taken)).bind (·.toList.head?) else none
    char.getD '\uFFFD' :: fromUtf8Lossy fuel ((first :: rest).drop taken)

def lossy (bytes : Bytes) : String := String.ofList (fromUtf8Lossy bytes.length bytes)

theorem maximalPart_ascii {first : UInt8} (small : first < 0x80) (rest : Bytes) :
    maximalPart first rest = 1 ∧ width first = 1 := by
  have narrow : width first = 1 := if_pos small
  unfold maximalPart
  split
  · exact ⟨rfl, narrow⟩
  · rw [if_pos (.inl (by omega))]
    exact ⟨rfl, narrow⟩

theorem fromUtf8Lossy_ascii {bytes : Bytes} (ascii : Ascii bytes) {fuel : Nat} (enough : bytes.length ≤ fuel) :
    fromUtf8Lossy fuel bytes = bytes.map fun byte => Char.ofNat byte.toNat := by
  induction bytes generalizing fuel with
  | nil => cases fuel <;> rfl
  | cons first rest ih =>
    have small : first < 0x80 := ascii first List.mem_cons_self
    have tail : Ascii rest := fun byte member => ascii byte (List.mem_cons_of_mem _ member)
    have single : Ascii [first] := fun byte member => List.mem_singleton.mp member ▸ small
    have read : fromUtf8 [first] = some (latin [first]) := by
      rw [← fromUtf8_utf8 (latin [first]), utf8_latin single]
    obtain ⟨one, narrow⟩ := maximalPart_ascii small rest
    cases fuel with
    | zero => cases enough
    | succ fuel =>
      rw [fromUtf8Lossy]
      rw [one, narrow, if_pos rfl, List.take_succ_cons, List.take_zero, read, List.drop_succ_cons, List.drop_zero,
        ih tail (Nat.le_of_succ_le_succ enough)]
      rw [latin, Option.bind_some, String.toList_ofList]
      rfl

theorem lossy_ascii {s : String} (ascii : Ascii (utf8 s)) : lossy (utf8 s) = s := by
  have same : latin (utf8 s) = s := utf8_injective (utf8_latin ascii)
  rw [lossy, fromUtf8Lossy_ascii ascii (Nat.le_refl _)]
  exact same

def isWhitespace (c : Char) : Bool :=
  let n := c.toNat
  (9 ≤ n && n ≤ 13) || n = 0x20 || n = 0x85 || n = 0xA0 || n = 0x1680 || (0x2000 ≤ n && n ≤ 0x200A) ||
    n = 0x2028 || n = 0x2029 || n = 0x202F || n = 0x205F || n = 0x3000

def trim (s : String) : String := String.ofList ((s.toList.dropWhile isWhitespace).rdropWhile isWhitespace)

/-! ## Trimming around a character that stays -/

section Marked
variable {α : Type} {p : α → Bool} {c : α} (stays : p c = false) (front tail : List α)
include stays

theorem dropWhile_marked : (front ++ c :: tail).dropWhile p = front.dropWhile p ++ c :: tail := by
  induction front with
  | nil => rw [List.nil_append, List.dropWhile_cons_of_neg (by rw [stays]; exact Bool.false_ne_true)]; rfl
  | cons x front ih =>
    by_cases drops : p x = true
    · rw [List.cons_append, List.dropWhile_cons_of_pos drops, List.dropWhile_cons_of_pos drops, ih]
    · rw [List.cons_append, List.dropWhile_cons_of_neg drops, List.dropWhile_cons_of_neg drops, List.cons_append]

theorem rdropWhile_marked : (front ++ c :: tail).rdropWhile p = front ++ c :: tail.rdropWhile p := by
  have reversed : (front ++ c :: tail).reverse = tail.reverse ++ c :: front.reverse := by simp
  rw [List.rdropWhile, reversed, dropWhile_marked stays, List.reverse_append, List.reverse_cons, List.reverse_reverse,
    List.append_assoc]
  rfl

end Marked

theorem toList_trim_marked {c : Char} (stays : isWhitespace c = false) (front tail : List Char) :
    (trim (String.ofList (front ++ c :: tail))).toList =
      front.dropWhile isWhitespace ++ c :: tail.rdropWhile isWhitespace := by
  rw [trim, String.toList_ofList, String.toList_ofList, dropWhile_marked stays, rdropWhile_marked stays]

end Library.Wire
