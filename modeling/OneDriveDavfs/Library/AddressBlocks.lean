import Mathlib.Data.Nat.Bitwise

/-! Blocks of addresses: the addresses of a width that begin with the same bits.

A program tests for a block with a mask, or with the leading parts of an
address where the block ends in or between them.
-/

set_option autoImplicit false

namespace Library.AddressBlocks

/-- The first `len` of `width` bits are those of `net`. -/
def InBlock (width len net address : Nat) : Prop :=
  address / 2 ^ (width - len) = net / 2 ^ (width - len)

instance (width len net address : Nat) : Decidable (InBlock width len net address) :=
  inferInstanceAs (Decidable (_ = _))

theorem inBlock_lead {width len rest lead tail net netTail : Nat} (inLead : len ≤ width) (short : tail < 2 ^ rest)
    (netShort : netTail < 2 ^ rest) :
    InBlock (width + rest) len (net * 2 ^ rest + netTail) (lead * 2 ^ rest + tail) ↔ InBlock width len net lead := by
  have split : 2 ^ (width + rest - len) = 2 ^ rest * 2 ^ (width - len) := by
    rw [← Nat.pow_add]
    congr 1
    omega
  have cut : ∀ front {back : Nat}, back < 2 ^ rest → (front * 2 ^ rest + back) / 2 ^ rest = front := by
    intro front back less
    rw [Nat.mul_comm, Nat.mul_add_div (Nat.two_pow_pos rest), Nat.div_eq_of_lt less, Nat.add_zero]
  unfold InBlock
  rw [split, ← Nat.div_div_eq_div_mul, ← Nat.div_div_eq_div_mul, cut lead short, cut net netShort]

theorem inBlock_single {width net address : Nat} : InBlock width width net address ↔ address = net := by
  simp [InBlock]

theorem and_mask {len rest address : Nat} (fits : address < 2 ^ (len + rest)) :
    address &&& ((2 ^ len - 1) * 2 ^ rest) = address / 2 ^ rest * 2 ^ rest := by
  refine Nat.eq_of_testBit_eq fun i => ?_
  rw [Nat.testBit_and, ← Nat.shiftLeft_eq, ← Nat.shiftLeft_eq, Nat.testBit_shiftLeft, Nat.testBit_shiftLeft,
    Nat.testBit_two_pow_sub_one, Nat.testBit_div_two_pow]
  by_cases leading : rest ≤ i
  · have whole : i - rest + rest = i := by omega
    rw [whole]
    by_cases within : i - rest < len
    · simp [leading, within]
    · have beyond : address.testBit i = false :=
        Nat.testBit_lt_two_pow (fits.trans_le (Nat.pow_le_pow_right (by omega) (by omega)))
      simp [beyond]
  · simp [leading]

/-- The test of a block by its mask. -/
theorem and_mask_eq_iff {len rest net address : Nat} (fits : address < 2 ^ (len + rest)) :
    address &&& ((2 ^ len - 1) * 2 ^ rest) = net * 2 ^ rest ↔ InBlock (len + rest) len (net * 2 ^ rest) address := by
  rw [and_mask fits, InBlock, Nat.add_sub_cancel_left, Nat.mul_div_cancel _ (Nat.two_pow_pos rest)]
  exact Nat.mul_right_cancel_iff (Nat.two_pow_pos rest)

end Library.AddressBlocks
