import OneDriveDavfs.Library.Text

/-! Percent-encoding of byte strings.

Which bytes stand for themselves is a parameter; all others are written as an
escape of two upper-case digits. Decoding undoes it as long as the percent
sign itself is escaped.
-/

set_option autoImplicit false
set_option maxRecDepth 2000

namespace Library.Percent

open Library.Wire

def percent : UInt8 := 0x25

def unreserved (byte : UInt8) : Bool :=
  (0x41 ≤ byte && byte ≤ 0x5A) || (0x61 ≤ byte && byte ≤ 0x7A) || (0x30 ≤ byte && byte ≤ 0x39) ||
    byte = 0x2D || byte = 0x5F || byte = 0x2E || byte = 0x7E

/-- The digit that `{:X}` prints. -/
def hexDigit (n : UInt8) : UInt8 := if n < 10 then 0x30 + n else 0x37 + n

def escape (byte : UInt8) : Bytes := [percent, hexDigit (byte / 16), hexDigit (byte % 16)]

def encodeByte (keep : UInt8 → Bool) (byte : UInt8) : Bytes := if keep byte then [byte] else escape byte

def encode (keep : UInt8 → Bool) (bytes : Bytes) : Bytes := bytes.flatMap (encodeByte keep)

/-- `char::to_digit(16)`. -/
def toDigit (byte : UInt8) : Option UInt8 :=
  if 0x30 ≤ byte ∧ byte ≤ 0x39 then some (byte - 0x30)
  else if 0x41 ≤ byte ∧ byte ≤ 0x46 then some (byte - 0x37)
  else if 0x61 ≤ byte ∧ byte ≤ 0x66 then some (byte - 0x57)
  else none

def decode : Bytes → Option Bytes
  | [] => some []
  | first :: rest =>
    if first = percent then
      match rest with
      | high :: low :: rest => do
        let high ← toDigit high
        let low ← toDigit low
        let tail ← decode rest
        return (high * 16 + low) :: tail
      | _ => none
    else (decode rest).map (first :: ·)

/-! ## Decoding what was encoded -/

theorem toDigit_hexDigit : ∀ n : UInt8, n < 16 → toDigit (hexDigit n) = some n :=
  forall_byte (by decide)

theorem digits_div_mod : ∀ byte : UInt8, byte / 16 < 16 ∧ byte % 16 < 16 ∧ byte / 16 * 16 + byte % 16 = byte :=
  forall_byte (by decide)

theorem decode_escape (byte : UInt8) (rest : Bytes) : decode (escape byte ++ rest) = (decode rest).map (byte :: ·) := by
  obtain ⟨high, low, whole⟩ := digits_div_mod byte
  simp only [escape, List.cons_append, List.nil_append, decode, if_true, toDigit_hexDigit _ high,
    toDigit_hexDigit _ low, Option.bind_eq_bind, Option.bind_some, whole]
  cases decode rest <;> rfl

section Keep
variable {keep : UInt8 → Bool}

@[simp] theorem encode_nil : encode keep [] = [] := rfl

theorem encode_cons (byte : UInt8) (rest : Bytes) :
    encode keep (byte :: rest) = encodeByte keep byte ++ encode keep rest := List.flatMap_cons

theorem encode_append (front rest : Bytes) : encode keep (front ++ rest) = encode keep front ++ encode keep rest :=
  List.flatMap_append

theorem decode_encode_append (escaped : keep percent = false) (bytes rest : Bytes) :
    decode (encode keep bytes ++ rest) = (decode rest).map (bytes ++ ·) := by
  induction bytes with
  | nil => cases found : decode rest <;> simp [found]
  | cons byte bytes ih =>
    have next : decode (encodeByte keep byte ++ (encode keep bytes ++ rest)) =
        (decode (encode keep bytes ++ rest)).map (byte :: ·) := by
      unfold encodeByte
      split
      · rename_i kept
        have other : byte ≠ percent := by
          rintro rfl
          rw [escaped] at kept
          cases kept
        rw [List.cons_append, List.nil_append, decode.eq_def]
        simp only [other, if_false]
      · exact decode_escape byte _
    rw [encode_cons, List.append_assoc, next, ih, Option.map_map]
    rfl

theorem decode_encode_eq_some (escaped : keep percent = false) (bytes : Bytes) : decode (encode keep bytes) = some bytes := by
  have whole := decode_encode_append escaped bytes []
  rwa [List.append_nil, decode, Option.map_some, List.append_nil] at whole

theorem mem_encode {bytes : Bytes} {byte : UInt8} (member : byte ∈ encode keep bytes) :
    (keep byte = true ∧ byte ∈ bytes) ∨ byte = percent ∨ ∃ n : UInt8, n < 16 ∧ byte = hexDigit n := by
  obtain ⟨source, given, written⟩ := List.mem_flatMap.mp member
  unfold encodeByte at written
  split at written
  · rename_i kept
    rw [List.mem_singleton] at written
    exact .inl (written ▸ ⟨kept, given⟩)
  · obtain ⟨high, low, _⟩ := digits_div_mod source
    simp only [escape, List.mem_cons, List.not_mem_nil, or_false] at written
    rcases written with rfl | rfl | rfl
    · exact .inr (.inl rfl)
    · exact .inr (.inr ⟨_, high, rfl⟩)
    · exact .inr (.inr ⟨_, low, rfl⟩)

end Keep

/-! ## What decoding changes -/

theorem decode_eq_self {bytes : Bytes} (absent : percent ∉ bytes) : decode bytes = some bytes := by
  induction bytes with
  | nil => rfl
  | cons byte rest ih =>
    have other : byte ≠ percent := fun same => absent (same ▸ List.mem_cons_self)
    rw [decode.eq_def]
    simp only [other, if_false, ih fun member => absent (List.mem_cons_of_mem _ member), Option.map_some]

theorem length_of_decode {bytes out : Bytes} (decoded : decode bytes = some out) :
    out.length ≤ bytes.length ∧ (percent ∈ bytes → out.length + 2 ≤ bytes.length) := by
  fun_induction decode bytes generalizing out with
  | case1 =>
    cases decoded
    exact ⟨Nat.le_refl _, fun member => absurd member List.not_mem_nil⟩
  | case2 high low rest ih =>
    simp only [Option.bind_eq_bind, Option.bind_eq_some_iff] at decoded
    obtain ⟨_, _, _, _, tail, read, whole⟩ := decoded
    have shorter := (ih read).1
    cases whole
    simp only [List.length_cons]
    omega
  | case3 => cases decoded
  | case4 first rest other ih =>
    obtain ⟨tail, read, rfl⟩ := Option.map_eq_some_iff.mp decoded
    obtain ⟨most, shorter⟩ := ih read
    refine ⟨Nat.succ_le_succ most, fun member => ?_⟩
    have inRest := (List.mem_cons.mp member).resolve_left fun same => other same.symm
    exact Nat.succ_le_succ (shorter inRest)

end Library.Percent
