import OneDriveDavfs.Index.Runs

/-! `remove` as a removal of a subtree.

The calls of the recursion form a finite tree. What they take away together is
the part under the id, so on paths a removal cuts off everything that begins
with the removed path and nothing else.
-/

set_option autoImplicit false

namespace OneDriveDavfs.Index

open Std Library.Collections Library.Forest

variable {idx out : Index}

/-! ## The recursion ends -/

def calls (idx : Index) (id : Id) : List Id := ((idx.removeNode id).kidsOf id).toList.map Prod.snd

/-- The recursion of the source for a list of ids, without any bound on its
depth: every derivation is a finite tree of calls. -/
inductive Removes : Index → List Id → Index → Prop
  | done {idx : Index} : Removes idx [] idx
  | call {idx mid out : Index} {id : Id} {rest : List Id} : Removes (idx.removeOne id) (idx.calls id) mid →
      Removes mid rest out → Removes idx (id :: rest) out

theorem Removes.eq {ids : List Id} (removes : Removes idx ids out) : out = ids.foldl remove idx := by
  induction removes with
  | done => rfl
  | call _ _ first second => rw [second, first, List.foldl_cons, remove_eq, calls]

theorem removes_foldl (n : Nat) (idx : Index) (ids : List Id) (bound : idx.kids.size < n ∨ ids = []) :
    Removes idx ids (ids.foldl remove idx) := by
  induction n generalizing idx ids with
  | zero =>
    rcases bound with none | rfl
    · exact absurd none (Nat.not_lt_zero _)
    · exact .done
  | succ n ih =>
    induction ids generalizing idx with
    | nil => exact .done
    | cons id rest ihRest =>
      have small : idx.kids.size < n + 1 := bound.resolve_right (by simp)
      have inner : Removes (idx.removeOne id) (idx.calls id) (idx.remove id) := by
        rw [remove_eq]
        refine ih _ _ ?_
        rcases children_nil_or_smaller idx id with none | smaller
        · exact .inr none
        · exact .inl (by omega)
      have shrinks : (idx.remove id).kids.size ≤ idx.kids.size := size_removeWithin _ idx id
      exact .call inner (ihRest _ (.inl (by omega)))

/-- The recursion for one id ends, with the result of `remove` and no other. -/
theorem removes_remove (idx : Index) (id : Id) : Removes idx [id] (idx.remove id) :=
  removes_foldl (idx.kids.size + 1) idx [id] (.inl (Nat.lt_succ_self _))

/-! ## Paths around a removed part -/

theorem Pruned.trail_iff {gone : Id → Prop} (inv : RepInv idx) (pruned : Pruned idx gone out)
    (closed : ∀ {p c}, gone p → idx.KidOf p c → gone c) {x : Id} {segs : List String} :
    Trail out.links x segs ↔ Trail idx.links x segs ∧ ¬ gone x := by
  have same : ∀ {y}, ¬ gone y → out.links y = idx.links y := fun stays => links_of_nodes (pruned.kept stays)
  constructor
  · intro trail
    induction trail with
    | @top x label link =>
      have stays : ¬ gone x := by
        intro removed
        rw [links, pruned.dropped removed] at link
        cases link
      exact ⟨.top ((same stays).symm.trans link), stays⟩
    | @step x p label segs link _ ih =>
      have stays : ¬ gone x := by
        intro removed
        rw [links, pruned.dropped removed] at link
        cases link
      exact ⟨.step ((same stays).symm.trans link) ih.1, stays⟩
  · rintro ⟨trail, stays⟩
    induction trail with
    | top link => exact .top ((same stays).trans link)
    | step link _ ih =>
      exact .step ((same stays).trans link) (ih fun removed => stays (closed removed ⟨_, inv.filed link⟩))

/-- What is under a node is what the paths below its path lead to. -/
theorem under_iff_extends (inv : RepInv idx) {x y : Id} {front segs : List String} (upper : Trail idx.links x front)
    (trail : Trail idx.links y segs) : idx.Under x y ↔ front <+: segs := by
  have below_iff : idx.Under x y ↔ Below idx.links x y := by
    have same : idx.KidOf = Child idx.links := by
      funext p c
      exact propext inv.kidOf_iff
    rw [Under, same]
  rw [below_iff]
  constructor
  · intro below
    obtain ⟨first, rest, rfl, own⟩ := Trail.of_below below trail
    rw [upper.unique own]
    exact List.prefix_append _ _
  · rintro ⟨rest, rfl⟩
    obtain ⟨z, own, below⟩ := trail.split front rest rfl
    rw [upper.injective inv.siblingsDiffer inv.singleTop own]
    exact below

theorem resolve_remove (inv : RepInv idx) {x : Id} {front : List String} (upper : Trail idx.links x front)
    (path : String) : (idx.remove x).resolve path = if front <+: segments path then none else idx.resolve path := by
  have removed := remove_pruned inv.sound x
  have closed : ∀ {p c}, idx.Under x p → idx.KidOf p c → idx.Under x c := fun below kid => below.tail kid
  have resolves : ∀ y, (idx.remove x).resolve path = some y ↔
      Trail idx.links y (segments path) ∧ ¬ idx.Under x y := by
    intro y
    rw [resolve_eq_some_iff (remove_repInv inv x), removed.trail_iff inv closed]
  apply Option.ext
  intro y
  rw [resolves]
  by_cases below : front <+: segments path
  · rw [if_pos below]
    simp only [reduceCtorEq, iff_false, not_and, not_not]
    exact fun trail => (under_iff_extends inv upper trail).mpr below
  · rw [if_neg below, resolve_eq_some_iff inv, and_iff_left_iff_imp]
    exact fun trail under => below ((under_iff_extends inv upper trail).mp under)

/-- `remove` ends and takes away exactly the id and what is filed below it,
with every entry that names a part of it, and the root with it or not. By path
it takes away the path and everything below it. -/
theorem remove_exact (idx : Index) (inv : RepInv idx) (id : Id) :
    (∃ out, Removes idx [id] out) ∧ (∀ out, Removes idx [id] out → out = idx.remove id) ∧
    (∀ x, idx.Under id x → (idx.remove id).nodes[x]? = none) ∧
    (∀ x, ¬ idx.Under id x → (idx.remove id).nodes[x]? = idx.nodes[x]?) ∧
    (∀ p, (idx.remove id).kids[p]?.isSome = true ↔ idx.kids[p]?.isSome = true ∧ ¬ idx.Under id p) ∧
    (∀ p name c, (name, c) ∈ (idx.remove id).kidsOf p ↔
      (name, c) ∈ idx.kidsOf p ∧ ¬ idx.Under id p ∧ ¬ idx.Under id c) ∧
    (∀ r, (idx.remove id).root = some r ↔ idx.root = some r ∧ ¬ idx.Under id r) ∧
    ∀ path x, idx.resolve path = some x → (idx.removeAtPath path).2 = true ∧
      ∀ other, (idx.removeAtPath path).1.resolve other =
        if segments path <+: segments other then none else idx.resolve other := by
  have removed := remove_pruned inv.sound id
  refine ⟨⟨_, removes_remove idx id⟩, fun out removes => removes.eq, fun x => removed.dropped,
    fun x => removed.kept, fun p => removed.keys, fun p name c => removed.kids, fun r => ?_, fun path x found => ?_⟩
  · rw [removed.root]
    refine and_congr_right fun recorded => not_congr (and_iff_left ?_)
    obtain ⟨_, link⟩ := inv.rooted recorded
    obtain ⟨node, present, _⟩ := links_eq_some_iff.mp link
    simp [present]
  · rw [removeAtPath, found]
    exact ⟨rfl, resolve_remove inv ((resolve_eq_some_iff inv).mp found)⟩

/-- A cycle that hangs below no root goes as a whole, and nothing else does. -/
def cyclic : Index :=
  [⟨"r", none, "", false, true, ⟨true, 0, 0, ""⟩⟩, ⟨"x", some "y", "X", false, false, ⟨true, 0, 0, ""⟩⟩,
    ⟨"y", some "x", "Y", false, false, ⟨true, 0, 0, ""⟩⟩, ⟨"f", some "y", "F", false, false, ⟨false, 1, 0, ""⟩⟩,
    ⟨"a", some "r", "A", false, false, ⟨true, 0, 0, ""⟩⟩].foldl apply empty

theorem repInv_cyclic : RepInv cyclic := by
  have real : ∀ path, "r" ≠ placeholderId path := by
    intro path same
    have chars := congrArg String.toList same
    simp [placeholderId] at chars
  have run : Reachable "r" cyclic := by
    simp only [cyclic, List.foldl_cons, List.foldl_nil]
    have more : ∀ {idx : Index} {it : DeltaItem}, Reachable "r" idx → (Op.apply it).Allowed "r" idx →
        Reachable "r" (idx.apply it) := fun before allowed => before.step allowed
    refine more (more (more (more (more .empty ?_) ?_) ?_) ?_) ?_ <;> decide
  exact (RunInv.of_reachable real run).rep

theorem remove_exact_cyclic :
    (cyclic.remove "x").nodes["f"]? = none ∧ (cyclic.remove "x").nodes["a"]? = cyclic.nodes["a"]? := by
  obtain ⟨_, _, dropped, _⟩ := remove_exact cyclic repInv_cyclic "x"
  have toY : cyclic.KidOf "x" "y" := ⟨"Y", by decide⟩
  have toF : cyclic.KidOf "y" "f" := ⟨"F", by decide⟩
  exact ⟨dropped "f" (.head toY (.single toF)), by decide⟩

end OneDriveDavfs.Index
