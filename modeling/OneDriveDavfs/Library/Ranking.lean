import Mathlib.Data.List.Nodup

/-! Lists in the order of a comparison that tells all their elements apart.

What a stable sort makes of such a list does not depend on the order in which
its elements came.
-/

set_option autoImplicit false

namespace Library.Ranking

open Std

variable {α : Type} (cmp : α → α → Ordering)

/-- `sort_by(cmp)`. -/
def ranked (xs : List α) : List α := xs.mergeSort fun a b => (cmp a b).isLE

def TellsApart (xs : List α) : Prop := ∀ a ∈ xs, ∀ b ∈ xs, cmp a b = .eq → a = b

theorem ranked_perm (xs : List α) : (ranked cmp xs).Perm xs := List.mergeSort_perm xs _

theorem map_ranked {β : Type} (f : β → α) (xs : List β) :
    (ranked (fun a b => cmp (f a) (f b)) xs).map f = ranked cmp (xs.map f) :=
  List.map_mergeSort fun _ _ _ _ => rfl

section Total
variable {cmp} [TransCmp cmp] {xs ys : List α}

theorem pairwise_ranked (xs : List α) : (ranked cmp xs).Pairwise fun a b => (cmp a b).isLE = true := by
  refine List.pairwise_mergeSort (fun a b c => TransCmp.isLE_trans) (fun a b => ?_) xs
  have swap : cmp b a = (cmp a b).swap := OrientedCmp.eq_swap
  rw [swap]
  cases cmp a b <;> rfl

theorem ranked_eq_of_perm (apart : TellsApart cmp xs) (perm : xs.Perm ys) : ranked cmp xs = ranked cmp ys := by
  refine List.Perm.eq_of_pairwise (fun a b left right first second => ?_) (pairwise_ranked xs) (pairwise_ranked ys)
    ((ranked_perm cmp xs).trans (perm.trans (ranked_perm cmp ys).symm))
  have inXs := (ranked_perm cmp xs).mem_iff.mp left
  have other := perm.mem_iff.mpr ((ranked_perm cmp ys).mem_iff.mp right)
  exact apart a inXs b other (OrientedCmp.isLE_antisymm first second)

theorem ranked_strict (apart : TellsApart cmp xs) (once : xs.Nodup) :
    (ranked cmp xs).Pairwise fun a b => cmp a b = .lt := by
  have perm := ranked_perm cmp xs
  have differ : (ranked cmp xs).Pairwise (· ≠ ·) := perm.nodup_iff.mpr once
  refine ((pairwise_ranked xs).and differ).imp_of_mem ?_
  rintro a b left right ⟨le, ne⟩
  have unequal : cmp a b ≠ .eq := fun same => ne (apart a (perm.mem_iff.mp left) b (perm.mem_iff.mp right) same)
  cases compared : cmp a b with
  | lt => rfl
  | eq => exact absurd compared unequal
  | gt =>
    rw [compared] at le
    cases le

end Total

end Library.Ranking
