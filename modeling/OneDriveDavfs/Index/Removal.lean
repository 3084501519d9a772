import Mathlib.Logic.Relation
import OneDriveDavfs.Library.Forest
import OneDriveDavfs.Index.Model

/-! What the recursion of `remove` takes away.

The recursion follows the entries in `kids`, so the removed part is everything
under the given id along those entries. Cycles and parents that do not exist
are allowed; all that is needed is that an entry names a node which agrees
with it, since the entry of a removed node is looked up by the node's record.
-/

set_option autoImplicit false

namespace OneDriveDavfs.Index

open Std Library.Collections

def links (idx : Index) : Library.Forest.Links Id String :=
  fun id => idx.nodes[id]?.map fun node => (node.parent, node.name)

theorem links_eq_some_iff {idx : Index} {id : Id} {parent : Option Id} {name : String} :
    idx.links id = some (parent, name) ↔
      ∃ node, idx.nodes[id]? = some node ∧ node.parent = parent ∧ node.name = name := by
  simp [links]

def KidOf (idx : Index) (p c : Id) : Prop := ∃ name, (name, c) ∈ idx.kidsOf p

abbrev Under (idx : Index) : Id → Id → Prop := Relation.ReflTransGen idx.KidOf

/-- Every entry names an existing node with that parent and that name. -/
def KidsSound (idx : Index) : Prop :=
  ∀ {p : Id} {name : String} {id : Id}, (name, id) ∈ idx.kidsOf p → idx.links id = some (some p, name)

/-- How far the crawl behind this index has come; no operation on the tree changes it. -/
def progress (idx : Index) : Option String × Option String × Bool × UInt64 :=
  (idx.deltaToken, idx.pendingNextLink, idx.crawlComplete, idx.generation)

/-- `out` is `idx` without the nodes in `gone` and without every entry that
belongs to one of them or names one of them. -/
structure Pruned (idx : Index) (gone : Id → Prop) (out : Index) : Prop where
  dropped : ∀ {id}, gone id → out.nodes[id]? = none
  kept : ∀ {id}, ¬ gone id → out.nodes[id]? = idx.nodes[id]?
  kids : ∀ {p name c}, (name, c) ∈ out.kidsOf p ↔ (name, c) ∈ idx.kidsOf p ∧ ¬ gone p ∧ ¬ gone c
  keys : ∀ {p}, out.kids[p]?.isSome = true ↔ idx.kids[p]?.isSome = true ∧ ¬ gone p
  root : ∀ {r}, out.root = some r ↔ idx.root = some r ∧ ¬ (gone r ∧ idx.nodes[r]?.isSome = true)
  progress : out.progress = idx.progress

theorem mem_kidsOf_dropKid {idx : Index} {pid p c id : Id} {name n : String} :
    (n, c) ∈ (idx.dropKid pid name id).kidsOf p ↔
      (n, c) ∈ idx.kidsOf p ∧ ¬ (p = pid ∧ n = name ∧ c = id) := by
  simp only [kidsOf, dropKid, lookup_modify]
  by_cases same : p = pid
  · subst same
    cases idx.kids[p]? with
    | none => simp
    | some set =>
      simp only [if_true, Option.map_some, Option.getD_some, mem_erase_iff, ne_eq, Prod.mk.injEq,
        true_and]
      exact and_comm
  · simp [same]

theorem KidsSound.present {idx : Index} (sound : idx.KidsSound) {p id : Id} {name : String}
    (member : (name, id) ∈ idx.kidsOf p) :
    ∃ node, idx.nodes[id]? = some node ∧ node.parent = some p ∧ node.name = name :=
  links_eq_some_iff.mp (sound member)

namespace Pruned

variable {idx mid out : Index} {gone more : Id → Prop}

theorem trans (first : Pruned idx gone mid) (second : Pruned mid more out) :
    Pruned idx (fun x => gone x ∨ more x) out where
  dropped := by
    intro x member
    by_cases again : more x
    · exact second.dropped again
    · rw [second.kept again, first.dropped (member.resolve_right again)]
  kept := by
    intro x absent
    rw [second.kept fun h => absent (.inr h), first.kept fun h => absent (.inl h)]
  kids := by
    intro p name c
    rw [second.kids, first.kids]
    tauto
  keys := by
    intro p
    rw [second.keys, first.keys]
    tauto
  root := by
    intro r
    rw [second.root, first.root]
    by_cases removed : gone r
    · simp [removed, first.dropped removed]
    · simp [removed, first.kept removed]
  progress := second.progress.trans first.progress

theorem congr (pruned : Pruned idx gone out) (same : ∀ x, gone x ↔ more x) : Pruned idx more out := by
  have equal : gone = more := funext fun x => propext (same x)
  exact equal ▸ pruned

theorem kidOf (pruned : Pruned idx gone out) {p c : Id} :
    out.KidOf p c ↔ idx.KidOf p c ∧ ¬ gone p ∧ ¬ gone c := by
  simp only [KidOf, pruned.kids]
  constructor
  · rintro ⟨name, member, rest⟩
    exact ⟨⟨name, member⟩, rest⟩
  · rintro ⟨⟨name, member⟩, rest⟩
    exact ⟨name, member, rest⟩

theorem under_mono (pruned : Pruned idx gone out) {p c : Id} (below : out.Under p c) :
    idx.Under p c :=
  below.lift id fun _ _ kid => (pruned.kidOf.mp kid).1

theorem sound (pruned : Pruned idx gone out) (sound : idx.KidsSound) : out.KidsSound := by
  intro p name c member
  obtain ⟨member, _, present⟩ := pruned.kids.mp member
  rw [links, pruned.kept present]
  exact sound member

/-- When a closed part is gone, what is still under `c` and what was under `c` differ by that part. -/
theorem under_iff (pruned : Pruned idx gone out)
    (closed : ∀ {p c}, gone p → idx.KidOf p c → gone c) (c x : Id) :
    gone x ∨ out.Under c x ↔ gone x ∨ idx.Under c x := by
  refine ⟨Or.imp_right pruned.under_mono, ?_⟩
  rintro (removed | below)
  · exact .inl removed
  · induction below with
    | refl => exact .inr .refl
    | @tail y z _ kid ih =>
      by_cases removedBelow : gone z
      · exact .inl removedBelow
      by_cases removed : gone y
      · exact .inl (closed removed kid)
      · exact .inr ((ih.resolve_left removed).tail (pruned.kidOf.mpr ⟨kid, removed, removedBelow⟩))

end Pruned

/-! ## One step of the recursion -/

theorem mem_kidsOf_removeNode {idx : Index} (sound : idx.KidsSound) {id p c : Id} {name : String} :
    (name, c) ∈ (idx.removeNode id).kidsOf p ↔ (name, c) ∈ idx.kidsOf p ∧ c ≠ id := by
  -- a link to the node that goes is in its own parent's set, under its own name
  have outside : (name, c) ∈ idx.kidsOf p → ∀ node, idx.nodes[id]? = some node → c = id →
      node.parent = some p ∧ node.name = name := by
    rintro member node found rfl
    obtain ⟨other, present, parent, label⟩ := sound.present member
    cases found.symm.trans present
    exact ⟨parent, label⟩
  rcases found : idx.nodes[id]? with _ | node
  · have same : idx.removeNode id = idx := by simp [removeNode, found]
    rw [same, iff_self_and]
    rintro member rfl
    obtain ⟨_, present, _⟩ := sound.present member
    simp [found] at present
  · rcases parent : node.parent with _ | pid
    · have same : (idx.removeNode id).kidsOf p = idx.kidsOf p := by simp [removeNode, found, parent, kidsOf]
      rw [same, iff_self_and]
      intro member clash
      have := outside member node found clash
      simp [parent] at this
    · have same : (idx.removeNode id).kidsOf p = (idx.dropKid pid node.name id).kidsOf p := by
        simp [removeNode, found, parent, kidsOf, dropKid]
      rw [same, mem_kidsOf_dropKid]
      refine and_congr_right fun member => ⟨?_, ?_⟩
      · rintro differs rfl
        obtain ⟨sameParent, sameName⟩ := outside member node found rfl
        exact differs ⟨Option.some.inj (sameParent.symm.trans parent), sameName.symm, rfl⟩
      · rintro differs ⟨_, _, clash⟩
        exact differs clash

theorem nodes_removeNode {idx : Index} {id x : Id} :
    (idx.removeNode id).nodes[x]? = if x = id then none else idx.nodes[x]? := by
  rcases found : idx.nodes[id]? with _ | node
  · have same : idx.removeNode id = idx := by simp [removeNode, found]
    rw [same]
    split
    · rename_i same
      rw [same, found]
    · rfl
  · rw [← lookup_erase]
    rcases parent : node.parent with _ | pid <;> simp [removeNode, found, parent, dropKid]

theorem root_removeNode {idx : Index} {id r : Id} :
    (idx.removeNode id).root = some r ↔
      idx.root = some r ∧ ¬ (r = id ∧ idx.nodes[r]?.isSome = true) := by
  rcases found : idx.nodes[id]? with _ | node
  · have same : idx.removeNode id = idx := by simp [removeNode, found]
    rw [same, iff_self_and]
    rintro _ ⟨rfl, present⟩
    simp [found] at present
  · have root : (idx.removeNode id).root = if idx.root = some id then none else idx.root := by
      rcases parent : node.parent with _ | pid <;> simp [removeNode, found, parent, dropKid]
    rw [root]
    by_cases same : r = id
    · subst same
      simp [found]
    · by_cases top : idx.root = some id
      · simp [top, Ne.symm same]
      · simp [top, same]

theorem keys_removeNode {idx : Index} {id p : Id} :
    (idx.removeNode id).kids[p]?.isSome = idx.kids[p]?.isSome := by
  rcases found : idx.nodes[id]? with _ | node
  · simp [removeNode, found]
  · rcases parent : node.parent with _ | pid
    · simp [removeNode, found, parent]
    · simp only [removeNode, found, parent, dropKid, lookup_modify]
      split <;> simp

theorem size_removeNode {idx : Index} {id : Id} : (idx.removeNode id).kids.size = idx.kids.size := by
  rcases found : idx.nodes[id]? with _ | node
  · simp [removeNode, found]
  · rcases parent : node.parent with _ | pid <;>
      simp [removeNode, found, parent, dropKid, ExtTreeMap.size_modify]

theorem progress_removeNode {idx : Index} {id : Id} : (idx.removeNode id).progress = idx.progress := by
  rcases found : idx.nodes[id]? with _ | node
  · simp [removeNode, found]
  · rcases parent : node.parent with _ | pid <;> simp [removeNode, found, parent, dropKid, progress]

/-- The node and its own set, before the recursion goes into the children. -/
def removeOne (idx : Index) (id : Id) : Index :=
  { idx.removeNode id with kids := (idx.removeNode id).kids.erase id }

theorem removeOne_pruned {idx : Index} (sound : idx.KidsSound) (id : Id) :
    Pruned idx (· = id) (idx.removeOne id) where
  dropped := by
    rintro _ rfl
    simp [removeOne, nodes_removeNode]
  kept := by
    intro x differs
    simp [removeOne, nodes_removeNode, differs]
  kids := by
    intro p name c
    have erased : (name, c) ∈ (idx.removeOne id).kidsOf p ↔
        (name, c) ∈ (idx.removeNode id).kidsOf p ∧ p ≠ id := by
      simp only [removeOne, kidsOf, lookup_erase]
      by_cases same : p = id <;> simp [same]
    rw [erased, mem_kidsOf_removeNode sound, and_assoc, and_congr_right_iff]
    exact fun _ => and_comm
  keys := by
    intro p
    simp only [removeOne, lookup_erase]
    by_cases same : p = id
    · simp [same]
    · simp only [same, if_false, keys_removeNode, not_false_eq_true, and_true]
  root := root_removeNode
  progress := progress_removeNode

theorem removeWithin_succ (fuel : Nat) (idx : Index) (id : Id) :
    removeWithin (fuel + 1) idx id =
      (((idx.removeNode id).kidsOf id).toList.map Prod.snd).foldl (removeWithin fuel)
        (idx.removeOne id) := by
  rcases found : (idx.removeNode id).kids[id]? with _ | set
  · have unchanged : (idx.removeNode id).kids.erase id = (idx.removeNode id).kids := by
      apply ExtTreeMap.ext_getElem?
      intro p
      rw [lookup_erase]
      split
      · rename_i same
        rw [same, found]
      · rfl
    have noKids : (∅ : KidSet).toList = [] := ExtTreeSet.toList_eq_nil_iff.mpr rfl
    simp [removeWithin, found, kidsOf, removeOne, unchanged, noKids]
  · simp [removeWithin, found, kidsOf, removeOne]

/-! ## The whole recursion -/

theorem size_removeWithin (fuel : Nat) (idx : Index) (id : Id) :
    (removeWithin fuel idx id).kids.size ≤ idx.kids.size := by
  induction fuel generalizing idx id with
  | zero => exact Nat.le_refl _
  | succ fuel ih =>
    rw [removeWithin_succ]
    have children (cs : List Id) (start : Index) :
        (cs.foldl (removeWithin fuel) start).kids.size ≤ start.kids.size := by
      induction cs generalizing start with
      | nil => exact Nat.le_refl _
      | cons c cs rest => exact Nat.le_trans (rest _) (ih start c)
    refine Nat.le_trans (children _ _) ?_
    rw [← @size_removeNode idx id, removeOne]
    exact ExtTreeMap.size_erase_le

theorem size_removeOne {idx : Index} {id c : Id} {name : String}
    (member : (name, c) ∈ (idx.removeNode id).kidsOf id) :
    (idx.removeOne id).kids.size < idx.kids.size := by
  have present : id ∈ (idx.removeNode id).kids := by
    rw [ExtTreeMap.mem_iff_isSome_getElem?]
    rcases found : (idx.removeNode id).kids[id]? with _ | set
    · simp [kidsOf, found] at member
    · rfl
  have positive : 0 < (idx.removeNode id).kids.size := by
    rw [Nat.pos_iff_ne_zero, ne_eq, ← ExtTreeMap.eq_empty_iff_size_eq_zero]
    rintro empty
    simp [empty] at present
  rw [removeOne, ExtTreeMap.size_erase, if_pos (ExtTreeMap.contains_iff_mem.mpr present),
    ← @size_removeNode idx id]
  omega

theorem children_nil_or_smaller (idx : Index) (id : Id) :
    ((idx.removeNode id).kidsOf id).toList.map Prod.snd = [] ∨
      (idx.removeOne id).kids.size < idx.kids.size := by
  rcases listed : ((idx.removeNode id).kidsOf id).toList with _ | ⟨⟨name, c⟩, rest⟩
  · exact .inl rfl
  · have member : (name, c) ∈ (idx.removeNode id).kidsOf id := by
      rw [← ExtTreeSet.mem_toList, listed]
      exact List.mem_cons_self
    exact .inr (size_removeOne member)

theorem removeWithin_pruned (fuel : Nat) (idx : Index) (id : Id) (sound : idx.KidsSound)
    (enough : idx.kids.size < fuel) : Pruned idx (idx.Under id) (removeWithin fuel idx id) := by
  induction fuel generalizing idx id with
  | zero => omega
  | succ fuel ih =>
    -- what the fold over children prunes, for any list of them; the fuel carries over by the number of keys
    have children (cs : List Id) (start : Index) (soundStart : start.KidsSound)
        (bound : cs = [] ∨ start.kids.size < fuel) :
        Pruned start (fun x => ∃ c ∈ cs, start.Under c x) (cs.foldl (removeWithin fuel) start) := by
      induction cs generalizing start with
      | nil =>
        exact ⟨by simp, by simp, by simp, by simp, by simp, rfl⟩
      | cons c cs rest =>
        have small : start.kids.size < fuel := bound.resolve_left (by simp)
        have first := ih start c soundStart small
        have smaller := Nat.lt_of_le_of_lt (size_removeWithin fuel start c) small
        refine (first.trans (rest _ (first.sound soundStart) (.inr smaller))).congr fun x => ?_
        have closed : ∀ {p q}, start.Under c p → start.KidOf p q → start.Under c q :=
          fun below kid => below.tail kid
        have agree := fun c' => first.under_iff closed c' x
        simp only [List.mem_cons, exists_eq_or_imp]
        constructor
        · rintro (below | ⟨c', member, below⟩)
          · exact .inl below
          · exact ((agree c').mp (.inr below)).imp_right fun h => ⟨c', member, h⟩
        · rintro (below | ⟨c', member, below⟩)
          · exact .inl below
          · exact ((agree c').mpr (.inr below)).imp_right fun h => ⟨c', member, h⟩
    have one := removeOne_pruned sound id
    have kid (c : Id) : c ∈ ((idx.removeNode id).kidsOf id).toList.map Prod.snd ↔
        idx.KidOf id c ∧ c ≠ id := by
      simp [KidOf, ExtTreeSet.mem_toList, mem_kidsOf_removeNode sound]
    have bound := (children_nil_or_smaller idx id).imp_right fun smaller =>
      (show (idx.removeOne id).kids.size < fuel by omega)
    rw [removeWithin_succ]
    refine (one.trans (children _ _ (one.sound sound) bound)).congr fun x => ⟨?_, fun below => ?_⟩
    · rintro (rfl | ⟨c, member, below⟩)
      · exact .refl
      · exact .head ((kid c).mp member).1 (one.under_mono below)
    · -- a step out of `id` enters a child; every other step avoids `id` and stays in the child's part
      induction below with
      | refl => exact .inl rfl
      | @tail y z _ step ih =>
        by_cases back : z = id
        · exact .inl back
        rcases ih with rfl | ⟨c, member, below⟩
        · exact .inr ⟨z, (kid z).mpr ⟨step, back⟩, .refl⟩
        · by_cases again : y = id
          · subst again
            exact .inr ⟨z, (kid z).mpr ⟨step, back⟩, .refl⟩
          · exact .inr ⟨c, member, below.tail (one.kidOf.mpr ⟨step, again, back⟩)⟩

/-- `remove` takes away exactly what is under the id. -/
theorem remove_pruned {idx : Index} (sound : idx.KidsSound) (id : Id) :
    Pruned idx (idx.Under id) (idx.remove id) :=
  removeWithin_pruned _ idx id sound (Nat.lt_succ_self _)

/-- The recursion ends: more fuel than sets changes nothing. -/
theorem removeWithin_stable (fuel more : Nat) (idx : Index) (id : Id)
    (enough : idx.kids.size < fuel) (enoughMore : idx.kids.size < more) :
    removeWithin fuel idx id = removeWithin more idx id := by
  induction fuel generalizing more idx id with
  | zero => omega
  | succ fuel ih =>
    obtain ⟨more, rfl⟩ : ∃ n, more = n + 1 := ⟨more - 1, by omega⟩
    have children (cs : List Id) (start : Index)
        (bound : cs = [] ∨ start.kids.size < fuel ∧ start.kids.size < more) :
        cs.foldl (removeWithin fuel) start = cs.foldl (removeWithin more) start := by
      induction cs generalizing start with
      | nil => rfl
      | cons c cs rest =>
        obtain ⟨small, smallMore⟩ := bound.resolve_left (by simp)
        have smaller := size_removeWithin more start c
        rw [List.foldl_cons, List.foldl_cons, ih more start c small smallMore]
        exact rest _ (.inr ⟨by omega, by omega⟩)
    rw [removeWithin_succ, removeWithin_succ]
    exact children _ _ ((children_nil_or_smaller idx id).imp_right fun smaller =>
      ⟨by omega, by omega⟩)

/-- The recursion equation of the source: the node, its entry, its set, then its children. -/
theorem remove_eq (idx : Index) (id : Id) :
    idx.remove id =
      (((idx.removeNode id).kidsOf id).toList.map Prod.snd).foldl remove (idx.removeOne id) := by
  rw [remove, removeWithin_succ]
  have children (cs : List Id) (start : Index) (bound : cs = [] ∨ start.kids.size < idx.kids.size) :
      cs.foldl (removeWithin idx.kids.size) start = cs.foldl remove start := by
    induction cs generalizing start with
    | nil => rfl
    | cons c cs rest =>
      have small := bound.resolve_left (by simp)
      have smaller := size_removeWithin idx.kids.size start c
      have step : removeWithin idx.kids.size start c = start.remove c :=
        removeWithin_stable _ _ _ _ small (Nat.lt_succ_self _)
      rw [List.foldl_cons, List.foldl_cons, rest _ (.inr (by omega)), step]
  exact children _ _ (children_nil_or_smaller idx id)

end OneDriveDavfs.Index
