import Mathlib.Data.List.Forall2
import Std.Data.ExtTreeMap
import Std.Data.ExtTreeSet

/-! Ordered sets of pairs and maps of such sets.

Membership facts about the extensional tree collections in the shape their
users meet them: a lawful comparison turns `cmp a b = .eq` into `a = b`.
-/

set_option autoImplicit false

namespace Library.Collections

open Std

section Pairs
variable {α β : Type} [Ord α] [Ord β]

/-- First components first, as the derived order on a tuple compares. -/
abbrev pairCmp : α × β → α × β → Ordering := compareLex (compareOn Prod.fst) (compareOn Prod.snd)

instance [LawfulEqOrd α] [LawfulEqOrd β] : LawfulEqCmp (pairCmp (α := α) (β := β)) where
  eq_of_compare {a b} same := by
    simp only [compareLex_eq_eq, compareOn] at same
    exact Prod.ext (LawfulEqCmp.eq_of_compare same.1) (LawfulEqCmp.eq_of_compare same.2)

end Pairs

section Sets
variable {α : Type} {cmp : α → α → Ordering} [TransCmp cmp] [LawfulEqCmp cmp]

@[simp] theorem mem_filter_iff (set : ExtTreeSet α cmp) (keep : α → Bool) (x : α) :
    x ∈ set.filter keep ↔ x ∈ set ∧ keep x = true := by
  rw [ExtTreeSet.mem_filter]
  constructor
  · rintro ⟨member, kept⟩
    exact ⟨member, by simpa [ExtTreeSet.get_eq] using kept⟩
  · rintro ⟨member, kept⟩
    exact ⟨member, by simpa [ExtTreeSet.get_eq] using kept⟩

@[simp] theorem mem_insert_iff (set : ExtTreeSet α cmp) (x y : α) :
    x ∈ set.insert y ↔ x = y ∨ x ∈ set := by
  rw [ExtTreeSet.mem_insert, LawfulEqCmp.compare_eq_iff_eq]
  exact or_congr_left eq_comm

@[simp] theorem mem_erase_iff (set : ExtTreeSet α cmp) (x y : α) :
    x ∈ set.erase y ↔ x ≠ y ∧ x ∈ set := by
  rw [ExtTreeSet.mem_erase, ne_eq, LawfulEqCmp.compare_eq_iff_eq]
  exact and_congr_left fun _ => not_congr eq_comm

end Sets

section Maps
variable {α β : Type} {cmp : α → α → Ordering} [TransCmp cmp] [LawfulEqCmp cmp]

theorem lookup_insert [DecidableEq α] (map : ExtTreeMap α β cmp) (k x : α) (v : β) :
    (map.insert k v)[x]? = if x = k then some v else map[x]? := by
  by_cases same : x = k
  · simp [same]
  · simp [ExtTreeMap.getElem?_insert, same, Ne.symm same]

theorem lookup_erase [DecidableEq α] (map : ExtTreeMap α β cmp) (k x : α) :
    (map.erase k)[x]? = if x = k then none else map[x]? := by
  by_cases same : x = k
  · simp [same]
  · simp [ExtTreeMap.getElem?_erase, same, Ne.symm same]

theorem lookup_modify [DecidableEq α] (map : ExtTreeMap α β cmp) (k x : α) (f : β → β) :
    (map.modify k f)[x]? = if x = k then map[x]?.map f else map[x]? := by
  by_cases same : x = k
  · simp [same]
  · simp [ExtTreeMap.getElem?_modify, same, Ne.symm same]

def insertAll (map : ExtTreeMap α β cmp) (entries : List (α × β)) : ExtTreeMap α β cmp :=
  entries.foldl (fun map e => map.insert e.1 e.2) map

theorem lookup_insertAll [DecidableEq α] {entries : List (α × β)} {map : ExtTreeMap α β cmp} {k : α} {v : β}
    (found : (insertAll map entries)[k]? = some v) :
    (k, v) ∈ entries ∨ map[k]? = some v := by
  induction entries generalizing map with
  | nil => exact .inr found
  | cons e rest ih =>
    rcases ih found with later | before
    · exact .inl (List.mem_cons_of_mem _ later)
    · rw [lookup_insert] at before
      split at before
      · rename_i same
        cases before
        exact .inl (same ▸ List.mem_cons_self)
      · exact .inr before

theorem lookup_insertAll_eq_none [DecidableEq α] {entries : List (α × β)} {map : ExtTreeMap α β cmp} {k : α} :
    (insertAll map entries)[k]? = none ↔
      (∀ e ∈ entries, e.1 ≠ k) ∧ map[k]? = none := by
  induction entries generalizing map with
  | nil => simp [insertAll]
  | cons e rest ih =>
    rw [insertAll, List.foldl_cons, ← insertAll, ih, lookup_insert]
    by_cases same : k = e.1
    · simp [same]
    · simp [same, Ne.symm same]

theorem lookup_insertAll_last [DecidableEq α] {front back : List (α × β)} {map : ExtTreeMap α β cmp} {k : α} {v : β}
    (last : ∀ e ∈ back, e.1 ≠ k) : (insertAll map (front ++ (k, v) :: back))[k]? = some v := by
  have after (map : ExtTreeMap α β cmp) : (insertAll map back)[k]? = map[k]? := by
    induction back generalizing map with
    | nil => rfl
    | cons e rest ih =>
      rw [insertAll, List.foldl_cons, ← insertAll, ih fun e later => last e (List.mem_cons_of_mem _ later),
        lookup_insert, if_neg (last e List.mem_cons_self).symm]
  rw [insertAll, List.foldl_append, List.foldl_cons, ← insertAll, ← insertAll, after, lookup_insert, if_pos rfl]

theorem lookup_insertAll_of_unique [DecidableEq α] {entries : List (α × β)} {map : ExtTreeMap α β cmp} {k : α}
    {v : β} (member : (k, v) ∈ entries) (unique : ∀ {w}, (k, w) ∈ entries → w = v) (fresh : map[k]? = none) :
    (insertAll map entries)[k]? = some v := by
  cases found : (insertAll map entries)[k]? with
  | none => exact absurd rfl ((lookup_insertAll_eq_none.mp found).1 _ member)
  | some w =>
    rcases lookup_insertAll found with listed | before
    · rw [unique listed]
    · rw [fresh] at before
      cases before

end Maps

section Lists
variable {α β : Type} {R : α → β → Prop} {xs : List α} {ys : List β}

theorem exists_of_mem_left (related : List.Forall₂ R xs ys) {x : α} (member : x ∈ xs) : ∃ y ∈ ys, R x y := by
  induction related with
  | nil => cases member
  | cons first _ ih =>
    cases member with
    | head => exact ⟨_, List.mem_cons_self, first⟩
    | tail _ member =>
      obtain ⟨y, found, other⟩ := ih member
      exact ⟨y, List.mem_cons_of_mem _ found, other⟩

theorem exists_of_mem_right (related : List.Forall₂ R xs ys) {y : β} (member : y ∈ ys) : ∃ x ∈ xs, R x y :=
  exists_of_mem_left related.flip member

end Lists

end Library.Collections
