import Mathlib.Data.List.Basic

/-! Binary search as the Rust standard library does it.

The loop halves the range and never leaves early. On a list that the
comparison cuts into a lesser, an equal and a greater part, the search finds
an equal element when there is one.
-/

set_option autoImplicit false

namespace Library.BinarySearch

variable {α : Type}

/-- The position at which one element is left of the range. -/
def narrow (f : α → Ordering) (xs : List α) : Nat → Nat → Nat → Nat
  | 0, base, _ => base
  | fuel + 1, base, size =>
    if size > 1 then
      let half := size / 2
      let base := match xs[base + half]? with
        | none => base
        | some x => if f x = .gt then base else base + half
      narrow f xs fuel base (size - half)
    else base

/-- `xs.binary_search_by(f).ok()`; the size of the range bounds the rounds. -/
def binarySearchBy (xs : List α) (f : α → Ordering) : Option Nat :=
  match xs[narrow f xs xs.length 0 xs.length]? with
  | none => none
  | some x => if f x = .eq then some (narrow f xs xs.length 0 xs.length) else none

def Partitioned (f : α → Ordering) (xs : List α) : Prop :=
  xs.Pairwise fun a b => (f b = .lt → f a = .lt) ∧ (f a = .gt → f b = .gt)

section Search
variable {f : α → Ordering} {xs : List α}

theorem Partitioned.lt_before (ordered : Partitioned f xs) {i j : Nat} {x y : α} (before : i ≤ j)
    (left : xs[i]? = some x) (right : xs[j]? = some y) (lesser : f y = .lt) : f x = .lt := by
  obtain ⟨inLeft, rfl⟩ := List.getElem?_eq_some_iff.mp left
  obtain ⟨inRight, rfl⟩ := List.getElem?_eq_some_iff.mp right
  rcases Nat.lt_or_eq_of_le before with less | same
  · exact (List.pairwise_iff_getElem.mp ordered i j inLeft inRight less).1 lesser
  · subst same
    exact lesser

theorem Partitioned.gt_after (ordered : Partitioned f xs) {i j : Nat} {x y : α} (before : i ≤ j)
    (left : xs[i]? = some x) (right : xs[j]? = some y) (greater : f x = .gt) : f y = .gt := by
  obtain ⟨inLeft, rfl⟩ := List.getElem?_eq_some_iff.mp left
  obtain ⟨inRight, rfl⟩ := List.getElem?_eq_some_iff.mp right
  rcases Nat.lt_or_eq_of_le before with less | same
  · exact (List.pairwise_iff_getElem.mp ordered i j inLeft inRight less).2 greater
  · subst same
    exact greater

/-- An equal element in the range stays in the range until it is the only one. -/
theorem narrow_eq (ordered : Partitioned f xs) {fuel base size : Nat} (enough : size ≤ fuel)
    (inList : base + size ≤ xs.length)
    (equal : ∃ k x, base ≤ k ∧ k < base + size ∧ xs[k]? = some x ∧ f x = .eq) :
    ∃ x, xs[narrow f xs fuel base size]? = some x ∧ f x = .eq := by
  induction fuel generalizing base size with
  | zero =>
    obtain ⟨k, _, low, high, _⟩ := equal
    omega
  | succ fuel ih =>
    obtain ⟨k, x, low, high, found, same⟩ := equal
    rw [narrow]
    split
    · rename_i more
      have half : base + size / 2 < xs.length := by omega
      have probe := List.getElem?_eq_getElem half
      dsimp only
      rw [probe]
      dsimp only
      split
      · rename_i greater
        -- from the probe on everything is greater, so the equal element lies before it
        have before : ¬ base + size / 2 ≤ k := by
          intro after
          have other := ordered.gt_after after probe found greater
          rw [same] at other
          cases other
        have inside : k < base + (size - size / 2) := by omega
        have fits : base + (size - size / 2) ≤ xs.length := by omega
        exact ih (by omega) fits ⟨k, x, low, inside, found, same⟩
      · rename_i notGreater
        have fits : base + size / 2 + (size - size / 2) ≤ xs.length := by omega
        refine ih (by omega) fits ?_
        by_cases after : base + size / 2 ≤ k
        · have inside : k < base + size / 2 + (size - size / 2) := by omega
          exact ⟨k, x, after, inside, found, same⟩
        · have inside : base + size / 2 < base + size / 2 + (size - size / 2) := by omega
          refine ⟨base + size / 2, _, Nat.le_refl _, inside, probe, ?_⟩
          cases order : f xs[base + size / 2] with
          | eq => rfl
          | gt => exact absurd order notGreater
          | lt =>
            have lesser := ordered.lt_before (by omega) found probe order
            rw [same] at lesser
            cases lesser
    · have only : k = base := by omega
      exact ⟨x, only ▸ found, same⟩

theorem binarySearchBy_sound {i : Nat} (found : binarySearchBy xs f = some i) :
    ∃ x, xs[i]? = some x ∧ f x = .eq := by
  unfold binarySearchBy at found
  split at found
  · cases found
  · rename_i x probe
    split at found
    · rename_i same
      cases found
      exact ⟨x, probe, same⟩
    · cases found

theorem binarySearchBy_complete (ordered : Partitioned f xs) {x : α} (member : x ∈ xs) (same : f x = .eq) :
    ∃ i, binarySearchBy xs f = some i := by
  obtain ⟨k, inList, rfl⟩ := List.mem_iff_getElem.mp member
  obtain ⟨y, probe, equal⟩ := narrow_eq ordered (Nat.le_refl xs.length) (by omega : 0 + xs.length ≤ xs.length)
    ⟨k, xs[k], Nat.zero_le _, by omega, List.getElem?_eq_getElem inList, same⟩
  refine ⟨narrow f xs xs.length 0 xs.length, ?_⟩
  rw [binarySearchBy, probe]
  exact if_pos equal

end Search

end Library.BinarySearch
