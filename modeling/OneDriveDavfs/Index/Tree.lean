import OneDriveDavfs.Index.Runs

/-! The drive an index stands for.

A tree of records is finite and has one root; any string can be a name in it.
In a drive tree, which is what Graph describes, names can stand in a path, and
the name of the root is left out, since no path contains it. An index holds the
part of a tree that a set of ids selects when it stores exactly these records of
the tree; it represents the tree when it holds all.
-/

set_option autoImplicit false

namespace OneDriveDavfs

open Std Library.Collections Library.Forest

/-- A record without the name of a node that has no parent. -/
def Node.eraseTop (node : Node) : Node :=
  match node.parent with
  | none => { node with name := "" }
  | some _ => node

def treeLinks (nodes : ExtTreeMap Id Node) : Links Id String :=
  fun id => nodes[id]?.map fun node => (node.parent, node.name)

/-- Non-empty ids, one root, parents that exist and no cycles, and names that
differ among siblings. -/
structure NodeTree where
  nodes : ExtTreeMap Id Node
  root : Id
  named : nodes[""]? = none
  rootTop : ∃ node, nodes[root]? = some node ∧ node.parent = none
  onlyRoot : ∀ {id : Id} {node : Node}, nodes[id]? = some node → node.parent = none → id = root
  rooted : ∀ {id : Id} {node : Node}, nodes[id]? = some node → ∃ segs, Trail (treeLinks nodes) id segs
  siblings : SiblingsDiffer (treeLinks nodes)

namespace NodeTree

abbrev links (S : NodeTree) : Links Id String := treeLinks S.nodes

variable {S : NodeTree} {x y p : Id} {name : String}

theorem links_eq_some_iff {parent : Option Id} :
    S.links x = some (parent, name) ↔ ∃ node, S.nodes[x]? = some node ∧ node.parent = parent ∧ node.name = name := by
  simp [links, treeLinks]

theorem link_of_node {node : Node} (found : S.nodes[x]? = some node) : S.links x = some (node.parent, node.name) :=
  links_eq_some_iff.mpr ⟨node, found, rfl, rfl⟩

theorem exists_root_link (S : NodeTree) : ∃ name, S.links S.root = some (none, name) := by
  obtain ⟨node, found, top⟩ := S.rootTop
  exact ⟨node.name, links_eq_some_iff.mpr ⟨node, found, top, rfl⟩⟩

theorem not_child_root (q : Id) : ¬ Child S.links q S.root := by
  rintro ⟨label, link⟩
  obtain ⟨other, rootLink⟩ := S.exists_root_link
  rw [rootLink] at link
  cases link

theorem root_of_top (link : S.links x = some (none, name)) : x = S.root := by
  obtain ⟨node, found, top, _⟩ := links_eq_some_iff.mp link
  exact S.onlyRoot found top

theorem singleTop (S : NodeTree) : SingleTop S.links :=
  fun left right => (root_of_top left).trans (root_of_top right).symm

theorem trail_injective {segs : List String} (left : Trail S.links x segs) (right : Trail S.links y segs) : x = y :=
  left.injective S.siblings S.singleTop right

theorem present_of_trail {segs : List String} (trail : Trail S.links x segs) : ∃ node, S.nodes[x]? = some node := by
  obtain ⟨_, link⟩ := trail.exists_link
  obtain ⟨node, found, _⟩ := Option.map_eq_some_iff.mp link
  exact ⟨node, found⟩

theorem parent_present (link : S.links x = some (some p, name)) : ∃ node, S.nodes[p]? = some node := by
  obtain ⟨node, found, _⟩ := links_eq_some_iff.mp link
  obtain ⟨segs, trail⟩ := S.rooted found
  obtain ⟨_, _, upper⟩ := Trail.of_child link trail
  exact present_of_trail upper

theorem parent_exists {node : Node} (found : S.nodes[x]? = some node) (parent : node.parent = some p) :
    ∃ up, S.nodes[p]? = some up :=
  parent_present (links_eq_some_iff.mpr ⟨node, found, parent, rfl⟩)

def DepthLe (S : NodeTree) (n : Nat) : Prop := ∀ {id segs}, Trail S.links id segs → segs.length ≤ n

theorem depthLe_of_climb {n : Nat} (climbs : ∀ entry ∈ S.nodes.toList, (climb S.links (n + 1) entry.1).isSome = true) :
    S.DepthLe n := by
  intro id segs trail
  obtain ⟨node, found⟩ := present_of_trail trail
  have climbed := climbs (id, node) (ExtTreeMap.mem_toList_iff_getElem?_eq_some.mpr found)
  obtain ⟨other, climbed⟩ := Option.isSome_iff_exists.mp climbed
  obtain ⟨same, bound⟩ := (climb_eq_some_iff _ _ _).mp climbed
  rw [trail.unique same]
  exact Nat.le_of_lt_succ bound

/-- The root and every parent is a directory. -/
def FoldersOnly (S : NodeTree) : Prop :=
  (∀ {node : Node}, S.nodes[S.root]? = some node → node.itemMeta.isDir = true) ∧
  ∀ {id : Id} {node : Node} {p : Id} {up : Node}, S.nodes[id]? = some node → node.parent = some p → S.nodes[p]? = some up →
    up.itemMeta.isDir = true

theorem foldersOnly_of_list
    (checked : ∀ entry ∈ S.nodes.toList, (entry.1 = S.root → entry.2.itemMeta.isDir = true) ∧
      ∀ p ∈ entry.2.parent, (S.nodes[p]?).all (·.itemMeta.isDir) = true) : S.FoldersOnly := by
  constructor
  · intro node found
    exact (checked _ (ExtTreeMap.mem_toList_iff_getElem?_eq_some.mpr found)).1 rfl
  · intro id node p up found parent present
    have isDir := (checked _ (ExtTreeMap.mem_toList_iff_getElem?_eq_some.mpr found)).2 p parent
    simpa [present] using isDir

end NodeTree

/-- A tree whose names can stand in a path. The name of the root is not part of it. -/
structure DriveTree extends NodeTree where
  rootRecord : ∃ itemMeta, nodes[root]? = some ⟨none, "", itemMeta⟩
  clean : ∀ {id : Id} {node : Node}, nodes[id]? = some node → node.parent ≠ none → CleanName node.name

namespace DriveTree

theorem root_link (T : DriveTree) : T.links T.root = some (none, "") := by
  obtain ⟨itemMeta, found⟩ := T.rootRecord
  exact NodeTree.link_of_node found

theorem clean_of_trail {T : DriveTree} {id : Id} {segs : List String} (trail : Trail T.links id segs) :
    ∀ name ∈ segs, CleanName name := by
  induction trail with
  | top _ => simp
  | step link _ ih =>
    obtain ⟨node, found, up, rfl⟩ := NodeTree.links_eq_some_iff.mp link
    intro name member
    rcases List.mem_append.mp member with above | last
    · exact ih name above
    · rw [List.mem_singleton.mp last]
      exact T.clean found (by simp [up])

/-- A record that says about its id what the tree says: the record of the node
as it is, or a tombstone for an id that the tree does not have. -/
def Tells (T : DriveTree) (it : DeltaItem) : Prop :=
  match T.nodes[it.id]? with
  | none => it.deleted = true
  | some node => it.deleted = false ∧ (it.isRoot = true ↔ node.parent = none) ∧
      (node.parent ≠ none → it.parentId = node.parent ∧ it.name = node.name) ∧ it.itemMeta = node.itemMeta

instance (T : DriveTree) (it : DeltaItem) : Decidable (T.Tells it) :=
  match found : T.nodes[it.id]? with
  | none => decidable_of_iff (it.deleted = true) (by simp only [Tells, found])
  | some node => decidable_of_iff (it.deleted = false ∧ (it.isRoot = true ↔ node.parent = none) ∧
      (node.parent ≠ none → it.parentId = node.parent ∧ it.name = node.name) ∧ it.itemMeta = node.itemMeta)
      (by simp only [Tells, found])

theorem Tells.deleted {T : DriveTree} {it : DeltaItem} (tells : T.Tells it)
    (absent : T.nodes[it.id]? = none) : it.deleted = true := by
  simpa only [Tells, absent] using tells

theorem Tells.placedUnder {T : DriveTree} {it : DeltaItem} {p : Id} {node : Node} (tells : T.Tells it)
    (found : T.nodes[it.id]? = some node) (parent : node.parent = some p) :
    it.PlacedUnder p ∧ node = ⟨some p, it.name, it.itemMeta⟩ := by
  simp only [Tells, found, parent] at tells
  obtain ⟨live, root, placed, sameMeta⟩ := tells
  obtain ⟨up, sameName⟩ := placed (by simp)
  refine ⟨⟨?_, live, by simpa using root, up⟩, ?_⟩
  · intro nameless
    rw [nameless, T.named] at found
    cases found
  · cases node
    simp_all

theorem Tells.takesRoot {T : DriveTree} {it : DeltaItem} {node : Node} (tells : T.Tells it)
    (found : T.nodes[it.id]? = some node) (parent : node.parent = none) :
    it.id ≠ "" ∧ it.deleted = false ∧ it.isRoot = true ∧ it.itemMeta = node.itemMeta := by
  simp only [Tells, found, parent] at tells
  obtain ⟨live, root, _, sameMeta⟩ := tells
  refine ⟨?_, live, by simpa using root, sameMeta⟩
  intro nameless
  rw [nameless, T.named] at found
  cases found

def records (T : DriveTree) : List DeltaItem :=
  T.nodes.toList.map fun entry =>
    ⟨entry.1, entry.2.parent, entry.2.name, false, entry.2.parent.isNone, entry.2.itemMeta⟩

theorem tells_of_mem_records {T : DriveTree} {it : DeltaItem} (member : it ∈ T.records) :
    T.Tells it ∧ ∃ node, T.nodes[it.id]? = some node := by
  obtain ⟨⟨id, node⟩, found, rfl⟩ := List.mem_map.mp member
  have found := ExtTreeMap.mem_toList_iff_getElem?_eq_some.mp found
  refine ⟨?_, node, found⟩
  simp [Tells, found]

theorem mem_records_ids {T : DriveTree} {id : Id} {node : Node} (found : T.nodes[id]? = some node) :
    id ∈ T.records.map DeltaItem.id :=
  List.mem_map.mpr ⟨_, List.mem_map_of_mem (ExtTreeMap.mem_toList_iff_getElem?_eq_some.mpr found), rfl⟩

def Checked (nodes : ExtTreeMap Id Node) (root : Id) : Prop :=
  nodes[""]? = none ∧ treeLinks nodes root = some (none, "") ∧
  ∀ entry ∈ nodes.toList, (climb (treeLinks nodes) (nodes.size + 1) entry.1).isSome = true ∧
    (entry.2.parent = none → entry.1 = root) ∧ (entry.2.parent ≠ none → CleanName entry.2.name) ∧
    ∀ other ∈ nodes.toList, entry.2.parent = other.2.parent → entry.2.name = other.2.name → entry.1 = other.1

instance (nodes : ExtTreeMap Id Node) (root : Id) : Decidable (Checked nodes root) :=
  inferInstanceAs (Decidable (_ ∧ _ ∧ _))

def ofChecked (nodes : ExtTreeMap Id Node) (root : Id) (checked : Checked nodes root) : DriveTree where
  nodes := nodes
  root := root
  named := checked.1
  rootTop := by
    obtain ⟨node, found, same⟩ := Option.map_eq_some_iff.mp checked.2.1
    exact ⟨node, found, (Prod.mk.inj same).1⟩
  rootRecord := by
    obtain ⟨⟨parent, name, itemMeta⟩, found, same⟩ := Option.map_eq_some_iff.mp checked.2.1
    cases same
    exact ⟨itemMeta, found⟩
  onlyRoot found := (checked.2.2 (_, _) (ExtTreeMap.mem_toList_iff_getElem?_eq_some.mpr found)).2.1
  rooted found := by
    have entry := checked.2.2 (_, _) (ExtTreeMap.mem_toList_iff_getElem?_eq_some.mpr found)
    obtain ⟨segs, climbed⟩ := Option.isSome_iff_exists.mp entry.1
    exact ⟨segs, ((climb_eq_some_iff _ _ _).mp climbed).1⟩
  siblings := by
    intro x y p name left right
    obtain ⟨first, found, same⟩ := Option.map_eq_some_iff.mp left
    obtain ⟨second, other, sameOther⟩ := Option.map_eq_some_iff.mp right
    obtain ⟨sameParent, sameName⟩ := Prod.mk.inj (same.trans sameOther.symm)
    exact (checked.2.2 (x, first) (ExtTreeMap.mem_toList_iff_getElem?_eq_some.mpr found)).2.2.2 (y, second)
      (ExtTreeMap.mem_toList_iff_getElem?_eq_some.mpr other) sameParent sameName
  clean found := (checked.2.2 (_, _) (ExtTreeMap.mem_toList_iff_getElem?_eq_some.mpr found)).2.2.1

end DriveTree

/-! ## Indexes that hold a part of a tree -/

theorem eraseTop_parent (node : Node) : node.eraseTop.parent = node.parent := by
  rw [Node.eraseTop]
  split <;> simp_all

theorem eraseTop_itemMeta (node : Node) : node.eraseTop.itemMeta = node.itemMeta := by
  rw [Node.eraseTop]
  split <;> rfl

/-- What of a record is compared with the tree: all of it, but for the name of a
node without a parent, which may count or not. -/
structure View where
  see : Node → Node
  sees_parent : ∀ node, (see node).parent = node.parent
  below : ∀ {node : Node} {p : Id}, node.parent = some p → see node = node

def View.whole : View := ⟨id, fun _ => rfl, fun _ => rfl⟩

abbrev View.nameless : View where
  see := Node.eraseTop
  sees_parent := eraseTop_parent
  below := by
    rintro ⟨parent, name, itemMeta⟩ p up
    cases up
    rfl

/-- Exactly the records of `S` whose ids `part` selects. -/
structure HoldsAs (view : View) (idx : Index) (S : NodeTree) (part : Id → Prop) : Prop where
  rep : idx.RepInv
  inside : ∀ {id}, part id → (idx.nodes[id]?).map view.see = S.nodes[id]?
  outside : ∀ {id}, ¬ part id → idx.nodes[id]? = none

abbrev Holds (idx : Index) (T : DriveTree) (part : Id → Prop) : Prop := HoldsAs .nameless idx T.toNodeTree part

abbrev Represents (idx : Index) (T : DriveTree) : Prop := Holds idx T fun _ => True

theorem View.see_eq_iff (view : View) {node other : Node} {p : Id} (parent : other.parent = some p) :
    view.see node = other ↔ node = other := by
  constructor
  · rintro rfl
    exact (view.below ((view.sees_parent node).symm.trans parent)).symm
  · rintro rfl
    exact view.below parent

theorem eraseTop_eq_iff {node other : Node} {p : Id} (parent : other.parent = some p) :
    node.eraseTop = other ↔ node = other :=
  View.nameless.see_eq_iff parent

namespace HoldsAs

variable {view : View} {idx : Index} {S : NodeTree} {part : Id → Prop}

theorem stored (holds : HoldsAs view idx S part) {id : Id} {node : Node} (found : idx.nodes[id]? = some node) :
    part id ∧ S.nodes[id]? = some (view.see node) := by
  by_cases selected : part id
  · exact ⟨selected, by rw [← holds.inside selected, found]; rfl⟩
  · simp [holds.outside selected] at found

theorem nodes_of_parent (holds : HoldsAs view idx S part) {id p : Id} {node : Node}
    (found : S.nodes[id]? = some node) (parent : node.parent = some p) (selected : part id) :
    idx.nodes[id]? = some node := by
  have same := holds.inside selected
  rw [found, Option.map_eq_some_iff] at same
  obtain ⟨other, present, seen⟩ := same
  rw [present, (view.see_eq_iff parent).mp seen]

theorem link_inner (holds : HoldsAs view idx S part) {id p : Id} {name : String} :
    idx.links id = some (some p, name) ↔ part id ∧ S.links id = some (some p, name) := by
  constructor
  · intro link
    obtain ⟨node, found, parent, rfl⟩ := Index.links_eq_some_iff.mp link
    obtain ⟨selected, inTree⟩ := holds.stored found
    rw [view.below parent] at inTree
    exact ⟨selected, NodeTree.links_eq_some_iff.mpr ⟨node, inTree, parent, rfl⟩⟩
  · rintro ⟨selected, link⟩
    obtain ⟨node, found, parent, rfl⟩ := NodeTree.links_eq_some_iff.mp link
    exact Index.links_eq_some_iff.mpr ⟨node, holds.nodes_of_parent found parent selected, parent, rfl⟩

theorem link_outer (holds : HoldsAs view idx S part) {id : Id} :
    (∃ name, idx.links id = some (none, name)) ↔ part id ∧ id = S.root := by
  constructor
  · rintro ⟨name, link⟩
    obtain ⟨node, found, parent, _⟩ := Index.links_eq_some_iff.mp link
    obtain ⟨selected, inTree⟩ := holds.stored found
    exact ⟨selected, S.onlyRoot inTree (by rw [view.sees_parent, parent])⟩
  · rintro ⟨selected, rfl⟩
    obtain ⟨record, found, top⟩ := S.rootTop
    have same := holds.inside selected
    rw [found, Option.map_eq_some_iff] at same
    obtain ⟨node, present, seen⟩ := same
    have parent : node.parent = none := by rw [← view.sees_parent, seen, top]
    exact ⟨node.name, Index.links_eq_some_iff.mpr ⟨node, present, parent, rfl⟩⟩

theorem trail_up (holds : HoldsAs view idx S part) {id : Id} {segs : List String} (trail : Trail idx.links id segs) :
    Trail S.links id segs := by
  refine trail.mono (fun link => (holds.link_inner.mp link).2) ?_
  intro x label link
  obtain ⟨_, rfl⟩ := holds.link_outer.mp ⟨label, link⟩
  exact S.exists_root_link

/-- A trail of the tree is there as far as all its nodes are. -/
theorem trail_down (holds : HoldsAs view idx S part) {id : Id} {segs : List String} (trail : Trail S.links id segs)
    (selected : ∀ x, Below S.links x id → part x) : Trail idx.links id segs := by
  induction trail with
  | top link =>
    have there := selected _ .refl
    obtain ⟨name, top⟩ := holds.link_outer.mpr ⟨there, NodeTree.root_of_top link⟩
    exact .top top
  | step link _ ih =>
    refine .step (holds.link_inner.mpr ⟨selected _ .refl, link⟩) (ih fun x below => ?_)
    exact selected x (below.tail ⟨_, link⟩)

theorem root_iff (holds : HoldsAs view idx S part) {r : Id} : idx.root = some r ↔ part r ∧ r = S.root := by
  rw [← holds.link_outer]
  exact ⟨holds.rep.rooted, fun ⟨_, link⟩ => holds.rep.top link⟩

theorem runInv (holds : HoldsAs view idx S part) : Index.RunInv S.root idx where
  rep := holds.rep
  only := fun _ recorded => (holds.root_iff.mp recorded).2
  notKid := fun p label link => NodeTree.not_child_root p ⟨label, (holds.link_inner.mp link).2⟩

theorem congr {other : Id → Prop} (holds : HoldsAs view idx S part) (same : ∀ id, part id ↔ other id) :
    HoldsAs view idx S other :=
  ⟨holds.rep, fun selected => holds.inside ((same _).mpr selected),
    fun absent => holds.outside fun selected => absent ((same _).mp selected)⟩

theorem pruned {gone : Id → Prop} {out : Index} (holds : HoldsAs view idx S part) (pruned : Index.Pruned idx gone out)
    (closed : ∀ {p c}, gone p → idx.KidOf p c → gone c) : HoldsAs view out S fun id => part id ∧ ¬ gone id where
  rep := holds.rep.pruned pruned closed
  inside := by
    rintro id ⟨selected, stays⟩
    rw [pruned.kept stays, holds.inside selected]
  outside := by
    intro id absent
    by_cases removed : gone id
    · exact pruned.dropped removed
    · rw [pruned.kept removed]
      exact holds.outside fun selected => absent ⟨selected, removed⟩

theorem all (holds : HoldsAs view idx S part) (all : ∀ {id node}, S.nodes[id]? = some node → part id) :
    HoldsAs view idx S fun _ => True := by
  refine ⟨holds.rep, fun {id} _ => ?_, fun absent => absurd trivial absent⟩
  by_cases selected : part id
  · exact holds.inside selected
  · have absent : S.nodes[id]? = none :=
      Option.eq_none_iff_forall_ne_some.mpr fun node found => selected (all found)
    rw [holds.outside selected, absent]
    rfl

section Whole
variable (holds : HoldsAs view idx S fun _ => True)
include holds

theorem trail_iff_trail {id : Id} {segs : List String} : Trail idx.links id segs ↔ Trail S.links id segs :=
  ⟨holds.trail_up, fun trail => holds.trail_down trail fun _ _ => trivial⟩

theorem root_eq : idx.root = some S.root := holds.root_iff.mpr ⟨trivial, rfl⟩

theorem resolve_iff_trail (path : String) (id : Id) : idx.resolve path = some id ↔ Trail S.links id (segments path) := by
  rw [Index.resolve_eq_some_iff holds.rep, holds.trail_iff_trail]

theorem reachable (depth : S.DepthLe 63) {id : Id} {node : Node} (found : S.nodes[id]? = some node) :
    idx.reachable S.root id = true := by
  obtain ⟨segs, trail⟩ := S.rooted found
  have bound := depth trail
  exact (Index.reachable_iff holds.rep holds.root_eq id).mpr ⟨segs, holds.trail_iff_trail.mpr trail, by omega⟩

end Whole

end HoldsAs

namespace Represents

variable {idx : Index} {T : DriveTree}

theorem trail_iff (represents : Represents idx T) {id : Id} {segs : List String} :
    Trail idx.links id segs ↔ Trail T.links id segs :=
  HoldsAs.trail_iff_trail represents

theorem root (represents : Represents idx T) : idx.root = some T.root := HoldsAs.root_eq represents

theorem resolve_iff (represents : Represents idx T) (path : String) (id : Id) :
    idx.resolve path = some id ↔ Trail T.links id (segments path) :=
  HoldsAs.resolve_iff_trail represents path id

theorem sweepOrphans (represents : Represents idx T) (depth : T.DepthLe 63) :
    Represents idx.sweepOrphans T := by
  have swept := HoldsAs.pruned represents (Index.sweepOrphans_pruned idx) (Index.orphan_closed represents.rep)
  refine swept.all fun found => ⟨trivial, ?_⟩
  rw [Index.orphan_iff represents.root, HoldsAs.reachable represents depth found]
  exact Bool.noConfusion

end Represents

end OneDriveDavfs
