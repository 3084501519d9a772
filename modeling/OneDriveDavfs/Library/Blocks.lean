import Mathlib.Data.List.Basic

/-! A list cut into blocks of one size, from a position on.

The blocks are named by where they start. Only the last can be shorter than
the size, none is empty, and one behind the other they are the list.
-/

set_option autoImplicit false

namespace Library.Blocks

variable {α : Type}

def starts (size total start : Nat) : List Nat := List.range' start ((total - start + (size - 1)) / size) size

def block (size : Nat) (xs : List α) (start : Nat) : List α := (xs.drop start).take size

section Size
variable {size : Nat} (positive : 0 < size)
include positive

theorem starts_of_le {total start : Nat} (past : total ≤ start) : starts size total start = [] := by
  have none : (total - start + (size - 1)) / size = 0 := Nat.div_eq_of_lt (by omega)
  rw [starts, none, List.range'_zero]

theorem starts_of_lt {total start : Nat} (inside : start < total) :
    starts size total start = start :: starts size total (start + size) := by
  have count : (total - start + (size - 1)) / size = (total - (start + size) + (size - 1)) / size + 1 := by
    by_cases last : total ≤ start + size
    · have one : (total - start + (size - 1)) / size = 1 :=
        Nat.div_eq_of_lt_le (by omega) (by omega)
      have none : (total - (start + size) + (size - 1)) / size = 0 := Nat.div_eq_of_lt (by omega)
      rw [one, none]
    · rw [← Nat.add_div_right _ positive]
      congr 1
      omega
  rw [starts, count, List.range'_succ]
  rfl

theorem flatMap_block (xs : List α) (start : Nat) :
    (starts size xs.length start).flatMap (block size xs) = xs.drop start := by
  by_cases inside : start < xs.length
  · rw [starts_of_lt positive inside, List.flatMap_cons, flatMap_block xs (start + size), block, ← List.drop_drop,
      List.take_append_drop]
  · rw [starts_of_le positive (Nat.le_of_not_lt inside), List.drop_eq_nil_of_le (Nat.le_of_not_lt inside)]
    rfl
  termination_by xs.length - start

theorem lt_of_mem_starts {total start s : Nat} (member : s ∈ starts size total start) : s < total := by
  by_cases inside : start < total
  · rw [starts_of_lt positive inside] at member
    rcases List.mem_cons.mp member with rfl | later
    · exact inside
    · exact lt_of_mem_starts later
  · rw [starts_of_le positive (Nat.le_of_not_lt inside)] at member
    exact absurd member List.not_mem_nil
  termination_by total - start

theorem length_block {xs : List α} {start s : Nat} (member : s ∈ starts size xs.length start) :
    0 < (block size xs s).length ∧ (block size xs s).length ≤ size := by
  have inside := lt_of_mem_starts positive member
  rw [block, List.length_take, List.length_drop]
  omega

theorem length_block_dropLast {xs : List α} {start s : Nat} (member : s ∈ (starts size xs.length start).dropLast) :
    (block size xs s).length = size := by
  by_cases inside : start < xs.length
  · rw [starts_of_lt positive inside] at member
    by_cases more : start + size < xs.length
    · rw [List.dropLast_cons_of_ne_nil (by rw [starts_of_lt positive more]; exact List.cons_ne_nil _ _)] at member
      rcases List.mem_cons.mp member with rfl | later
      · rw [block, List.length_take, List.length_drop]
        omega
      · exact length_block_dropLast later
    · rw [starts_of_le positive (Nat.le_of_not_lt more)] at member
      exact absurd member List.not_mem_nil
  · rw [starts_of_le positive (Nat.le_of_not_lt inside)] at member
    exact absurd member List.not_mem_nil
  termination_by xs.length - start

end Size

end Library.Blocks
