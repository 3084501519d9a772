import OneDriveDavfs.Index.Removal

/-! The representation invariant of the index.

The two maps say the same thing twice: a node names its parent, and the
parent's set files the node under its name. `Placed` describes `apply` on a
live record in the same way `Pruned` describes the removals; together they
carry the invariant through every operation.
-/

set_option autoImplicit false

namespace OneDriveDavfs

open Std Library.Collections Library.Forest

/-- A record that `apply` hangs under `p`: not ignored, not a tombstone, not the root. -/
structure DeltaItem.PlacedUnder (it : DeltaItem) (p : Id) : Prop where
  id : it.id ≠ ""
  live : it.deleted = false
  notRoot : it.isRoot = false
  parent : it.parentId = some p

namespace Index

/-- Both maps mirror each other, siblings have different names, and the
recorded root is the only node without a parent. -/
structure RepInv (idx : Index) : Prop where
  filed : ∀ {id p name}, idx.links id = some (some p, name) → (name, id) ∈ idx.kidsOf p
  sound : idx.KidsSound
  siblings : ∀ {p name a b}, (name, a) ∈ idx.kidsOf p → (name, b) ∈ idx.kidsOf p → a = b
  top : ∀ {id name}, idx.links id = some (none, name) → idx.root = some id
  rooted : ∀ {r}, idx.root = some r → ∃ name, idx.links r = some (none, name)

theorem links_of_nodes {idx other : Index} {id : Id} (same : other.nodes[id]? = idx.nodes[id]?) :
    other.links id = idx.links id := by
  simp only [links, same]

namespace RepInv

variable {idx out : Index}

theorem mem_kidsOf_iff (inv : RepInv idx) {p id : Id} {name : String} :
    (name, id) ∈ idx.kidsOf p ↔ idx.links id = some (some p, name) :=
  ⟨inv.sound, inv.filed⟩

theorem kidOf_iff (inv : RepInv idx) {p c : Id} : idx.KidOf p c ↔ Child idx.links p c :=
  exists_congr fun _ => inv.mem_kidsOf_iff

theorem siblingsDiffer (inv : RepInv idx) : SiblingsDiffer idx.links :=
  fun left right => inv.siblings (inv.filed left) (inv.filed right)

theorem singleTop (inv : RepInv idx) : SingleTop idx.links :=
  fun left right => Option.some.inj ((inv.top left).symm.trans (inv.top right))

theorem congr (inv : RepInv idx) (links : out.links = idx.links)
    (kids : ∀ p, out.kidsOf p = idx.kidsOf p) (root : out.root = idx.root) : RepInv out where
  filed := by
    intro id p name link
    rw [kids]
    exact inv.filed (links ▸ link)
  sound := by
    intro p name id member
    rw [links]
    exact inv.sound (kids p ▸ member)
  siblings := by
    intro p name a b left right
    rw [kids] at left right
    exact inv.siblings left right
  top := by
    intro id name link
    rw [root]
    exact inv.top (links ▸ link)
  rooted := by
    intro r recorded
    rw [links]
    exact inv.rooted (root ▸ recorded)

/-- Taking away a part that is closed under children keeps the invariant. -/
theorem pruned (inv : RepInv idx) {gone : Id → Prop} (pruned : Pruned idx gone out)
    (closed : ∀ {p c}, gone p → idx.KidOf p c → gone c) : RepInv out := by
  have kept : ∀ {id link}, out.links id = some link → ¬ gone id ∧ idx.links id = some link := by
    intro id link found
    by_cases removed : gone id
    · simp [links, pruned.dropped removed] at found
    · exact ⟨removed, links_of_nodes (pruned.kept removed) ▸ found⟩
  refine ⟨?_, pruned.sound inv.sound, ?_, ?_, ?_⟩
  · intro id p name link
    obtain ⟨present, link⟩ := kept link
    have member := inv.filed link
    exact pruned.kids.mpr ⟨member, fun removed => present (closed removed ⟨name, member⟩), present⟩
  · intro p name a b left right
    exact inv.siblings (pruned.kids.mp left).1 (pruned.kids.mp right).1
  · intro id name link
    obtain ⟨present, link⟩ := kept link
    exact pruned.root.mpr ⟨inv.top link, fun removed => present removed.1⟩
  · intro r recorded
    obtain ⟨recorded, notRemoved⟩ := pruned.root.mp recorded
    obtain ⟨name, link⟩ := inv.rooted recorded
    obtain ⟨node, found, _⟩ := links_eq_some_iff.mp link
    have present : ¬ gone r := fun removed => notRemoved ⟨removed, by simp [found]⟩
    exact ⟨name, (links_of_nodes (pruned.kept present)).trans link⟩

end RepInv

theorem Pruned.refl (idx : Index) : Pruned idx (fun _ => False) idx :=
  ⟨by simp, by simp, by simp, by simp, by simp, rfl⟩

theorem repInv_empty : RepInv empty :=
  ⟨by simp [links, empty], by intro p name id; simp [kidsOf, empty],
    by simp [kidsOf, empty], by simp [links, empty], by simp [empty]⟩

theorem remove_repInv {idx : Index} (inv : RepInv idx) (id : Id) : RepInv (idx.remove id) :=
  inv.pruned (remove_pruned inv.sound id) fun below kid => below.tail kid

/-! ## Applying a live record -/

theorem mem_kidsOf_detachMoved {idx : Index} (sound : idx.KidsSound) {id p q c : Id} {name n : String} :
    (n, c) ∈ (idx.detachMoved id p name).kidsOf q ↔
      (n, c) ∈ idx.kidsOf q ∧ (c = id → q = p ∧ n = name) := by
  have entry : (n, id) ∈ idx.kidsOf q → ∀ old, idx.nodes[id]? = some old →
      old.parent = some q ∧ old.name = n := by
    intro member old found
    obtain ⟨other, present, parent, label⟩ := sound.present member
    cases found.symm.trans present
    exact ⟨parent, label⟩
  -- only a node that moves is taken out of its old set
  rcases found : idx.nodes[id]? with _ | old
  · have same : idx.detachMoved id p name = idx := by simp [detachMoved, found]
    rw [same, iff_self_and]
    rintro member rfl
    obtain ⟨_, present, _⟩ := sound.present member
    simp [found] at present
  by_cases moved : old.parent ≠ some p ∨ old.name ≠ name
  · rcases parent : old.parent with _ | pid
    · have same : idx.detachMoved id p name = idx := by simp [detachMoved, found, parent]
      rw [same, iff_self_and]
      rintro member rfl
      have := (entry member old found).1
      simp [parent] at this
    · have same : idx.detachMoved id p name = idx.dropKid pid old.name id := by
        rw [parent] at moved
        simp only [detachMoved, found, parent, if_pos moved]
      rw [same, mem_kidsOf_dropKid]
      refine and_congr_right fun member => ⟨?_, ?_⟩
      · rintro differs rfl
        obtain ⟨sameParent, sameName⟩ := entry member old found
        exact absurd ⟨Option.some.inj (sameParent.symm.trans parent), sameName.symm, rfl⟩ differs
      · rintro target ⟨rfl, rfl, rfl⟩
        obtain ⟨rfl, rfl⟩ := target rfl
        simp [parent] at moved
  · have same : idx.detachMoved id p name = idx := by simp only [detachMoved, found, if_neg moved]
    rw [same, iff_self_and]
    rintro member rfl
    obtain ⟨sameParent, sameName⟩ := entry member old found
    simp only [ne_eq, not_or, not_not] at moved
    exact ⟨Option.some.inj (sameParent.symm.trans moved.1), sameName.symm.trans moved.2⟩

theorem detachMoved_same (idx : Index) (id p : Id) (name : String) :
    (idx.detachMoved id p name).nodes = idx.nodes ∧ (idx.detachMoved id p name).root = idx.root ∧
      (idx.detachMoved id p name).progress = idx.progress := by
  unfold detachMoved
  split
  · exact ⟨rfl, rfl, rfl⟩
  · split
    · split <;> exact ⟨rfl, rfl, rfl⟩
    · exact ⟨rfl, rfl, rfl⟩

theorem keys_detachMoved (idx : Index) (id p q : Id) (name : String) :
    (idx.detachMoved id p name).kids[q]?.isSome = idx.kids[q]?.isSome := by
  unfold detachMoved
  split
  · rfl
  · split
    · split
      · rfl
      · simp only [dropKid, lookup_modify]
        split <;> simp
    · rfl

theorem detachMoved_sound {idx : Index} (sound : idx.KidsSound) (id p : Id) (name : String) :
    (idx.detachMoved id p name).KidsSound := by
  intro q n c member
  rw [@links_of_nodes idx _ _ (by rw [(detachMoved_same idx id p name).1])]
  exact sound ((mem_kidsOf_detachMoved sound).mp member).1

theorem clash_eq_some {idx : Index} {id p cid : Id} {name : String}
    (found : idx.clash id p name = some cid) : (name, cid) ∈ idx.kidsOf p ∧ cid ≠ id := by
  simp only [clash, Option.map_eq_some_iff, Prod.exists, exists_eq_right] at found
  obtain ⟨label, found⟩ := found
  have member := ExtTreeSet.mem_toList.mp (List.mem_of_find?_eq_some found)
  have matched := List.find?_some found
  simp only [Bool.and_eq_true, beq_iff_eq, bne_iff_ne, ne_eq] at matched
  exact ⟨matched.1 ▸ member, matched.2⟩

theorem clash_eq_none {idx : Index} {id p c : Id} {name : String} (free : idx.clash id p name = none)
    (member : (name, c) ∈ idx.kidsOf p) : c = id := by
  simp only [clash, Option.map_eq_none_iff, List.find?_eq_none] at free
  simpa using free (name, c) (ExtTreeSet.mem_toList.mpr member)

/-- What a live record evicts: everything under the other child of that name,
looked up after the record's own node has left its old place. -/
def Evicted (idx : Index) (id p : Id) (name : String) (x : Id) : Prop :=
  ∃ cid, (idx.detachMoved id p name).clash id p name = some cid ∧
    (idx.detachMoved id p name).Under cid x

theorem evictClash_pruned {idx : Index} (sound : idx.KidsSound) (id p : Id) (name : String) :
    Pruned (idx.detachMoved id p name) (idx.Evicted id p name)
      ((idx.detachMoved id p name).evictClash id p name) := by
  rcases found : (idx.detachMoved id p name).clash id p name with _ | cid
  · simp only [evictClash, found]
    exact (Pruned.refl _).congr fun x => by simp [Evicted, found]
  · simp only [evictClash, found]
    exact (remove_pruned (detachMoved_sound sound id p name) cid).congr fun x => by
      simp [Evicted, found]

/-- `out` is `idx` without the evicted part, with one node put in its place. -/
structure Placed (idx : Index) (gone : Id → Prop) (id p : Id) (name : String) (itemMeta : ItemMeta)
    (out : Index) : Prop where
  node : out.nodes[id]? = some ⟨some p, name, itemMeta⟩
  dropped : ∀ {x}, x ≠ id → gone x → out.nodes[x]? = none
  kept : ∀ {x}, x ≠ id → ¬ gone x → out.nodes[x]? = idx.nodes[x]?
  kids : ∀ {q n c}, (n, c) ∈ out.kidsOf q ↔
    (q = p ∧ n = name ∧ c = id) ∨ (c ≠ id ∧ (n, c) ∈ idx.kidsOf q ∧ ¬ gone q ∧ ¬ gone c)
  root : ∀ {r}, out.root = some r ↔ idx.root = some r ∧ ¬ (gone r ∧ idx.nodes[r]?.isSome = true)
  progress : out.progress = idx.progress

theorem mem_kidsOf_attach {idx : Index} {id p q c : Id} {name n : String} {itemMeta : ItemMeta} :
    (n, c) ∈ (idx.attach id p name itemMeta).kidsOf q ↔
      (q = p ∧ n = name ∧ c = id) ∨ (n, c) ∈ idx.kidsOf q := by
  simp only [attach, kidsOf, lookup_insert]
  by_cases same : q = p
  · simp only [same, if_true, Option.getD_some, mem_insert_iff, Prod.mk.injEq, true_and]
  · simp [same]

theorem apply_placedUnder {idx : Index} {it : DeltaItem} {p : Id} (placed : it.PlacedUnder p) :
    idx.apply it = ((idx.detachMoved it.id p it.name).evictClash it.id p it.name).attach
      it.id p it.name it.itemMeta := by
  simp [apply, placed.id, placed.live, placed.notRoot, placed.parent]

theorem not_evicted_self {idx : Index} (inv : RepInv idx) {id p : Id} {name : String} :
    ¬ idx.Evicted id p name id := by
  rintro ⟨cid, found, below⟩
  obtain ⟨member, differs⟩ := clash_eq_some found
  obtain rfl | ⟨q, _, ⟨n, entry⟩⟩ := Relation.ReflTransGen.cases_tail below
  · exact differs rfl
  -- the node is still filed, so it did not move and its own entry is the one of that name
  · have first := ((mem_kidsOf_detachMoved inv.sound).mp member).1
    obtain ⟨filed, target⟩ := (mem_kidsOf_detachMoved inv.sound).mp entry
    obtain ⟨rfl, rfl⟩ := target rfl
    exact differs (inv.siblings first filed)

theorem evicted_closed {idx : Index} (inv : RepInv idx) {id p : Id} {name : String} {q c : Id}
    (removed : idx.Evicted id p name q) (kid : idx.KidOf q c) (differs : c ≠ id) :
    idx.Evicted id p name c := by
  obtain ⟨cid, found, below⟩ := removed
  obtain ⟨n, member⟩ := kid
  exact ⟨cid, found, below.tail ⟨n, (mem_kidsOf_detachMoved inv.sound).mpr
    ⟨member, fun same => absurd same differs⟩⟩⟩

theorem evicted_of_sibling {idx : Index} (inv : RepInv idx) {id p c : Id} {name : String} (differs : c ≠ id)
    (member : (name, c) ∈ idx.kidsOf p) : idx.Evicted id p name c := by
  have entry : (name, c) ∈ (idx.detachMoved id p name).kidsOf p :=
    (mem_kidsOf_detachMoved inv.sound).mpr ⟨member, fun same => absurd same differs⟩
  rcases found : (idx.detachMoved id p name).clash id p name with _ | cid
  · exact absurd (clash_eq_none found entry) differs
  · have first := ((mem_kidsOf_detachMoved inv.sound).mp (clash_eq_some found).1).1
    exact ⟨cid, found, inv.siblings first member ▸ .refl⟩

theorem apply_placed {idx : Index} (inv : RepInv idx) {it : DeltaItem} {p : Id}
    (live : it.PlacedUnder p) :
    Placed idx (idx.Evicted it.id p it.name) it.id p it.name it.itemMeta (idx.apply it) := by
  obtain ⟨sameNodes, sameRoot, sameProgress⟩ := detachMoved_same idx it.id p it.name
  have evicted := evictClash_pruned inv.sound it.id p it.name
  rw [apply_placedUnder live]
  refine ⟨?_, ?_, ?_, ?_, ?_, ?_⟩
  · simp [attach]
  · intro x differs removed
    simp [attach, lookup_insert, differs, evicted.dropped removed]
  · intro x differs present
    simp [attach, lookup_insert, differs, evicted.kept present, sameNodes]
  · intro q n c
    rw [mem_kidsOf_attach, evicted.kids, mem_kidsOf_detachMoved inv.sound]
    by_cases same : c = it.id
    · subst same
      simp only [true_implies, ne_eq, not_true_eq_false, false_and, or_false, and_true]
      tauto
    · simp only [same, false_implies, ne_eq, not_false_eq_true, true_and, and_true]
  · intro r
    have root := evicted.root (r := r)
    rwa [sameRoot, sameNodes] at root
  · exact evicted.progress.trans sameProgress

theorem apply_repInv {idx : Index} (inv : RepInv idx) {it : DeltaItem} {p : Id}
    (live : it.PlacedUnder p) (notRoot : idx.root ≠ some it.id) : RepInv (idx.apply it) := by
  have placed := apply_placed inv live
  have old : ∀ {x link}, x ≠ it.id → (idx.apply it).links x = some link →
      ¬ idx.Evicted it.id p it.name x ∧ idx.links x = some link := by
    intro x link differs found
    by_cases removed : idx.Evicted it.id p it.name x
    · simp [links, placed.dropped differs removed] at found
    · exact ⟨removed, links_of_nodes (placed.kept differs removed) ▸ found⟩
  have own : (idx.apply it).links it.id = some (some p, it.name) := by simp [links, placed.node]
  -- the five fields of the invariant: filed, sound, siblings, top, rooted
  refine ⟨?_, ?_, ?_, ?_, ?_⟩
  · intro x q n link
    by_cases same : x = it.id
    · subst same
      obtain ⟨rfl, rfl⟩ : p = q ∧ it.name = n := by simpa [own] using link
      exact placed.kids.mpr (.inl ⟨rfl, rfl, rfl⟩)
    · obtain ⟨present, link⟩ := old same link
      have member := inv.filed link
      exact placed.kids.mpr (.inr ⟨same, member,
        fun removed => present (evicted_closed inv removed ⟨n, member⟩ same), present⟩)
  · intro q n c member
    rcases placed.kids.mp member with ⟨rfl, rfl, rfl⟩ | ⟨differs, member, _, present⟩
    · exact own
    · exact (links_of_nodes (placed.kept differs present)).trans (inv.sound member)
  · -- a sibling of the same name under another id was evicted
    have alone : ∀ {c}, c ≠ it.id → (it.name, c) ∈ idx.kidsOf p → idx.Evicted it.id p it.name c :=
      fun differs member => evicted_of_sibling inv differs member
    intro q n a b left right
    rcases placed.kids.mp left with ⟨rfl, rfl, rfl⟩ | ⟨leftDiffers, left, _, leftStays⟩ <;>
      rcases placed.kids.mp right with ⟨sameParent, sameName, rfl⟩ | ⟨rightDiffers, right, _, rightStays⟩
    · rfl
    · exact absurd (alone rightDiffers right) rightStays
    · subst sameParent sameName
      exact absurd (alone leftDiffers left) leftStays
    · exact inv.siblings left right
  · intro x n link
    by_cases same : x = it.id
    · subst same
      simp [own] at link
    · obtain ⟨present, link⟩ := old same link
      exact placed.root.mpr ⟨inv.top link, fun removed => present removed.1⟩
  · intro r recorded
    obtain ⟨recorded, notRemoved⟩ := placed.root.mp recorded
    have differs : r ≠ it.id := fun same => notRoot (same ▸ recorded)
    obtain ⟨name, link⟩ := inv.rooted recorded
    obtain ⟨node, found, _⟩ := links_eq_some_iff.mp link
    have present : ¬ idx.Evicted it.id p it.name r := fun removed =>
      notRemoved ⟨removed, by simp [found]⟩
    exact ⟨name, (links_of_nodes (placed.kept differs present)).trans link⟩

end Index

end OneDriveDavfs
