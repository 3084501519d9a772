import OneDriveDavfs.Index.Subtree
import OneDriveDavfs.Index.Delta

/-! Trees of records, and what `apply` does to them.

Here a name can be any string; whether it can stand in a path does not matter
for the maps. A record of the tree itself, in whatever order and however often
it comes, only adds its node. A record of another place moves a subtree: the
other child with its name goes with everything under it, and the node takes
along what hangs on it.
-/

set_option autoImplicit false

namespace OneDriveDavfs

open Std Library.Collections Library.Forest

namespace NodeTree

/-- The record of a node of the tree; what it says of the parent of the root is not looked at. -/
def Records (S : NodeTree) (it : DeltaItem) : Prop :=
  ∃ node, S.nodes[it.id]? = some node ∧ it.deleted = false ∧ it.name = node.name ∧ it.itemMeta = node.itemMeta ∧
    (node.parent = none → it.isRoot = true) ∧
    ∀ p, node.parent = some p → it.isRoot = false ∧ it.parentId = some p

theorem Records.whole {S : NodeTree} {it : DeltaItem} (records : S.Records it) : S.RecordsAs .whole it := by
  obtain ⟨⟨parent, name, itemMeta⟩, found, live, sameName, sameMeta, top, below⟩ := records
  refine ⟨_, found, live, ?_, ?_⟩
  · rintro rfl
    rw [sameName, sameMeta]
    exact ⟨top rfl, rfl⟩
  · rintro p rfl
    rw [sameName, sameMeta]
    exact ⟨(below p rfl).1, (below p rfl).2, rfl⟩

end NodeTree

/-- The index is the tree: the same records, the same children, the same root. -/
structure Index.Is (idx : Index) (S : NodeTree) : Prop where
  nodes : ∀ id : Id, idx.nodes[id]? = S.nodes[id]?
  kids : ∀ p name c, (name, c) ∈ idx.kidsOf p ↔ S.links c = some (some p, name)
  root : idx.root = some S.root

namespace Index.Is

variable {idx : Index} {S : NodeTree}

theorem links (is : idx.Is S) : idx.links = S.links := by
  funext x
  rw [Index.links, is.nodes x]
  rfl

theorem rep (is : idx.Is S) : idx.RepInv where
  filed := fun link => (is.kids _ _ _).mpr (is.links ▸ link)
  sound := fun member => is.links ▸ (is.kids _ _ _).mp member
  siblings := fun left right => S.siblings ((is.kids _ _ _).mp left) ((is.kids _ _ _).mp right)
  top := by
    intro id name link
    rw [is.links] at link
    rw [is.root, NodeTree.root_of_top link]
  rooted := by
    intro r recorded
    rw [is.root] at recorded
    cases recorded
    rw [is.links]
    exact S.exists_root_link

/-- The index is the tree when it holds all of it, names and all. -/
theorem of_holds (holds : HoldsAs .whole idx S fun _ => True) : idx.Is S where
  nodes := fun id => by
    have same : (idx.nodes[id]?).map View.whole.see = S.nodes[id]? := holds.inside trivial
    simpa [View.whole] using same
  kids := by
    intro p name c
    rw [holds.rep.mem_kidsOf_iff, holds.link_inner, true_and]
  root := holds.root_eq

theorem holds (is : idx.Is S) : HoldsAs .whole idx S fun _ => True :=
  ⟨is.rep, fun {id} _ => by simpa [View.whole] using is.nodes id, fun absent => absurd trivial absent⟩

theorem of_rep (inv : idx.RepInv) (nodes : ∀ id : Id, idx.nodes[id]? = S.nodes[id]?) : idx.Is S :=
  of_holds ⟨inv, fun {id} _ => by simpa [View.whole] using nodes id, fun absent => absurd trivial absent⟩

end Index.Is

/-! ## A fresh crawl -/

theorem Index.keys_apply {idx : Index} {it : DeltaItem} {q : Id} (sound : idx.KidsSound)
    (key : (idx.apply it).kids[q]?.isSome = true) : idx.kids[q]?.isSome = true ∨ it.PlacedUnder q := by
  by_cases nonempty : it.id = ""
  · rw [Index.apply, if_pos nonempty] at key
    exact .inl key
  by_cases deleted : it.deleted = true
  · rw [Index.apply, if_neg nonempty, if_pos deleted] at key
    exact .inl ((Index.remove_pruned sound it.id).keys.mp key).1
  by_cases isRoot : it.isRoot = true
  · rw [Index.apply, if_neg nonempty, if_neg deleted, if_pos isRoot] at key
    exact .inl key
  cases parent : it.parentId with
  | none =>
    rw [Index.apply, if_neg nonempty, if_neg deleted, if_neg isRoot, parent] at key
    exact .inl key
  | some p =>
    have placed : it.PlacedUnder p := ⟨nonempty, by simpa using deleted, by simpa using isRoot, parent⟩
    rw [Index.apply_placedUnder placed, Index.attach, lookup_insert] at key
    split at key
    · rename_i own
      exact .inr (own ▸ placed)
    · have older := ((Index.evictClash_pruned sound it.id p it.name).keys.mp key).1
      rw [Index.keys_detachMoved] at older
      exact .inl older

theorem HoldsAs.keys_applyAll {view : View} {idx : Index} {S : NodeTree} {part : Id → Prop}
    (holds : HoldsAs view idx S part) (items : List DeltaItem)
    (known : ∀ it ∈ items, S.RecordsAs view it ∨ S.Buries it) {q : Id}
    (key : (items.foldl Index.apply idx).kids[q]?.isSome = true) :
    idx.kids[q]?.isSome = true ∨ ∃ node, S.nodes[q]? = some node := by
  induction items generalizing idx part with
  | nil => exact .inl key
  | cons it rest ih =>
    have others : ∀ later ∈ rest, S.RecordsAs view later ∨ S.Buries later :=
      fun later member => known later (List.mem_cons_of_mem _ member)
    rcases known it List.mem_cons_self with told | gone
    · refine (ih (holds.apply told) others key).elim (fun old => ?_) .inr
      refine (Index.keys_apply holds.rep.sound old).imp_right fun placed => ?_
      obtain ⟨node, found, _, top, below⟩ := told
      cases parent : node.parent with
      | none => cases placed.notRoot.symm.trans (top parent).1
      | some p =>
        cases placed.parent.symm.trans (below p parent).2.1
        exact NodeTree.parent_exists found parent
    · refine (ih (holds.buries gone) others key).elim (fun old => ?_) .inr
      refine (Index.keys_apply holds.rep.sound old).imp_right fun placed => ?_
      cases placed.live.symm.trans gone.1

/-- A sweep finds nothing in a tree that is not too deep and has no sets besides its own. -/
theorem Index.Is.sweepOrphans {idx : Index} {S : NodeTree} (is : idx.Is S) (depth : S.DepthLe 63)
    (keys : ∀ {p : Id}, idx.kids[p]?.isSome = true → ∃ node, S.nodes[p]? = some node) : idx.sweepOrphans = idx := by
  have seen : ∀ {id : Id} {node : Node}, S.nodes[id]? = some node → idx.reachable S.root id = true :=
    is.holds.reachable depth
  have nodes : (idx.nodes.filter fun id _ => idx.reachable S.root id) = idx.nodes := by
    apply ExtTreeMap.ext_getElem?
    intro id
    rw [ExtTreeMap.getElem?_filter']
    cases found : idx.nodes[id]? with
    | none => rfl
    | some node => simp [Option.filter, seen (is.nodes id ▸ found)]
  have kids : (idx.kids.filterMap fun pid set =>
      if idx.reachable S.root pid then some (set.filter fun kid => idx.reachable S.root kid.2) else none) = idx.kids := by
    apply ExtTreeMap.ext_getElem?
    intro p
    rw [ExtTreeMap.getElem?_filterMap']
    cases found : idx.kids[p]? with
    | none => rfl
    | some set =>
      obtain ⟨node, present⟩ := keys (p := p) (by simp [found])
      have whole : set.filter (fun kid => idx.reachable S.root kid.2) = set := by
        apply ExtTreeSet.ext_mem
        rintro ⟨name, c⟩
        have mem_filter : (name, c) ∈ set.filter (fun kid => idx.reachable S.root kid.2) ↔
            (name, c) ∈ set ∧ idx.reachable S.root c = true := by simp
        rw [mem_filter, and_iff_left_iff_imp]
        intro member
        have entry : (name, c) ∈ idx.kidsOf p := by simpa [Index.kidsOf, found] using member
        obtain ⟨child, stored, _⟩ := NodeTree.links_eq_some_iff.mp ((is.kids p name c).mp entry)
        exact seen stored
      simp [seen present, whole]
  rw [Index.sweepOrphans_of_root is.root, nodes, kids]

/-- However the records of a tree come, in any order and any number, with
tombstones of strangers in between, the index becomes the tree, and a sweep
finds nothing to do in it. -/
theorem fresh_crawl_exact (S : NodeTree) (items : List DeltaItem)
    (known : ∀ it ∈ items, S.Records it ∨ S.Buries it)
    (all : ∀ (id : Id) (node : Node), S.nodes[id]? = some node → ∃ it ∈ items, S.Records it ∧ it.id = id) :
    (items.foldl Index.apply Index.empty).Is S ∧
      (S.DepthLe 63 → (items.foldl Index.apply Index.empty).sweepOrphans = items.foldl Index.apply Index.empty) := by
  have told : ∀ it ∈ items, S.RecordsAs .whole it ∨ S.Buries it :=
    fun it member => (known it member).imp_left NodeTree.Records.whole
  have holds := (HoldsAs.empty .whole S).applyAll items told
  have is : (items.foldl Index.apply Index.empty).Is S := .of_holds <| holds.all fun {id} {node} found => by
    obtain ⟨it, member, records, same⟩ := all id node found
    exact .inr ⟨it, member, records.whole, same⟩
  refine ⟨is, fun depth => is.sweepOrphans depth fun key => ?_⟩
  exact ((HoldsAs.empty .whole S).keys_applyAll items told key).resolve_left (by simp [Index.empty])

theorem DriveTree.records_of_mem {T : DriveTree} {it : DeltaItem} (member : it ∈ T.records) : T.Records it := by
  obtain ⟨⟨id, node⟩, found, rfl⟩ := List.mem_map.mp member
  have found : T.nodes[id]? = some node := ExtTreeMap.mem_toList_iff_getElem?_eq_some.mp found
  refine ⟨node, found, rfl, rfl, rfl, fun top => ?_, fun p parent => ?_⟩
  · simp [top]
  · simp [parent]

theorem DriveTree.exists_record {T : DriveTree} {id : Id} {node : Node} (found : T.nodes[id]? = some node) :
    ∃ it ∈ T.records, T.Records it ∧ it.id = id := by
  obtain ⟨it, member, same⟩ := List.mem_map.mp (DriveTree.mem_records_ids found)
  exact ⟨it, member, records_of_mem member, same⟩

theorem Index.is_ofTree (T : DriveTree) : (Index.ofTree T).Is T.toNodeTree := by
  have holds := (HoldsAs.empty .whole T.toNodeTree).applyAll T.records fun it member =>
    .inl (DriveTree.records_of_mem member).whole
  exact .of_holds <| holds.all fun found => by
    obtain ⟨it, member, records, same⟩ := DriveTree.exists_record found
    exact .inr ⟨it, member, records.whole, same⟩

/-- The records of two folders and a file, forwards and backwards, then a tombstone. -/
theorem fresh_crawl_exact_twice :
    ((foldersAB.records ++ foldersAB.records.reverse ++
      [(⟨"z", none, "", true, false, ⟨false, 0, 0, ""⟩⟩ : DeltaItem)]).foldl Index.apply Index.empty).Is
        foldersAB.toNodeTree := by
  refine (fresh_crawl_exact foldersAB.toNodeTree _ (fun it member => ?_) fun id node found => ?_).1
  · rcases List.mem_append.mp member with twice | last
    · rcases List.mem_append.mp twice with first | second
      · exact .inl (DriveTree.records_of_mem first)
      · exact .inl (DriveTree.records_of_mem (List.mem_reverse.mp second))
    · rw [List.mem_singleton.mp last]
      exact .inr ⟨rfl, by decide, by decide⟩
  · obtain ⟨it, member, records⟩ := DriveTree.exists_record (T := foldersAB) found
    exact ⟨it, by simp [member], records⟩

/-! ## Moving a subtree -/

namespace NodeTree

variable {S : NodeTree} {x y p : Id} {name : String}

/-- What has to go for `x` to get this place: the other child there with
everything below it, but nothing that hangs on `x`. -/
def Taken (S : NodeTree) (x p : Id) (name : String) (y : Id) : Prop :=
  ∃ c, c ≠ x ∧ S.links c = some (some p, name) ∧ Below S.links c y ∧ ¬ Below S.links x y

structure Place (S : NodeTree) (x p : Id) : Prop where
  nonempty : x ≠ ""
  notRoot : x ≠ S.root
  parent : ∃ node, S.nodes[p]? = some node
  outside : ¬ Below S.links x p

theorem not_taken_root : ¬ S.Taken x p name S.root := by
  rintro ⟨c, _, link, below, _⟩
  rcases below.cases_tail with same | ⟨q, _, child⟩
  · exact not_child_root p ⟨name, same ▸ link⟩
  · exact not_child_root q child

theorem not_taken_above (place : S.Place x p) (above : Below S.links y p) : ¬ S.Taken x p name y := by
  rintro ⟨c, _, link, below, _⟩
  obtain ⟨node, found⟩ := place.parent
  obtain ⟨segs, trail⟩ := S.rooted found
  exact trail.not_child_below ⟨name, link⟩ (below.trans above)

open Classical in
noncomputable def moveLinks (S : NodeTree) (x p : Id) (name : String) : Links Id String :=
  fun y => if y = x then some (some p, name) else if S.Taken x p name y then none else S.links y

theorem moveLinks_own : S.moveLinks x p name x = some (some p, name) := if_pos rfl

theorem moveLinks_kept (differs : y ≠ x) (stays : ¬ S.Taken x p name y) : S.moveLinks x p name y = S.links y := by
  rw [moveLinks, if_neg differs, if_neg stays]

theorem moveLinks_cases {link : Option Id × String} (found : S.moveLinks x p name y = some link) :
    (y = x ∧ link = (some p, name)) ∨ (y ≠ x ∧ ¬ S.Taken x p name y ∧ S.links y = some link) := by
  unfold moveLinks at found
  split at found
  · rename_i same
    exact .inl ⟨same, (Option.some.inj found).symm⟩
  · rename_i differs
    split at found
    · cases found
    · rename_i stays
      exact .inr ⟨differs, stays, found⟩

theorem moved_trail_above (place : S.Place x p) {segs : List String} (above : Below S.links y p)
    (trail : Trail S.links y segs) : Trail (S.moveLinks x p name) y segs := by
  have same : S.moveLinks x p name y = S.links y := by
    refine moveLinks_kept ?_ (not_taken_above place above)
    rintro rfl
    exact place.outside above
  induction trail with
  | top link => exact .top (same.trans link)
  | @step z q label front link _ ih =>
    refine .step (same.trans link) (ih (.head ⟨label, link⟩ above) (moveLinks_kept ?_ ?_))
    · rintro rfl
      exact place.outside (.head ⟨label, link⟩ above)
    · exact not_taken_above place (.head ⟨label, link⟩ above)

theorem moved_trail_own (place : S.Place x p) {up : List String} (trail : Trail S.links p up) :
    Trail (S.moveLinks x p name) x (up ++ [name]) :=
  .step moveLinks_own (moved_trail_above place .refl trail)

theorem moved_trail_below (place : S.Place x p) {up old segs : List String} (upper : Trail S.links p up)
    (trail : Trail S.links x old) (below : Below S.links x y) (lower : Trail S.links y segs) :
    ∃ rel, segs = old ++ rel ∧ Trail (S.moveLinks x p name) y (up ++ [name] ++ rel) := by
  induction below generalizing segs with
  | refl => exact ⟨[], by rw [List.append_nil, trail.unique lower], by simpa using moved_trail_own place upper⟩
  | @tail q y hangs child ih =>
    obtain ⟨label, link⟩ := child
    obtain ⟨front, rfl, above⟩ := Trail.of_child link lower
    obtain ⟨rel, rfl, moved⟩ := ih above
    have differs : y ≠ x := by
      rintro rfl
      exact above.not_child_below ⟨label, link⟩ hangs
    have stays : ¬ S.Taken x p name y := fun ⟨_, _, _, _, notBelow⟩ => notBelow (hangs.tail ⟨label, link⟩)
    refine ⟨rel ++ [label], by simp, ?_⟩
    have longer := Trail.step ((moveLinks_kept differs stays).trans link) moved
    simpa using longer

theorem moved_trail_aside {segs : List String} (aside : ¬ Below S.links x y) (stays : ¬ S.Taken x p name y)
    (trail : Trail S.links y segs) : Trail (S.moveLinks x p name) y segs := by
  induction trail with
  | @top y label link =>
    have differs : y ≠ x := fun same => aside (same ▸ .refl)
    exact .top ((moveLinks_kept differs stays).trans link)
  | @step y q label front link _ ih =>
    have differs : y ≠ x := fun same => aside (same ▸ .refl)
    refine .step ((moveLinks_kept differs stays).trans link) (ih ?_ ?_)
    · exact fun below => aside (below.tail ⟨label, link⟩)
    · rintro ⟨c, other, place, below, _⟩
      exact stays ⟨c, other, place, below.tail ⟨label, link⟩, aside⟩

theorem moveLinks_siblings (place : S.Place x p) : SiblingsDiffer (S.moveLinks x p name) := by
  have alone : ∀ {a label q}, a ≠ x → ¬ S.Taken x p name a → S.links a = some (some q, label) →
      ¬ (q = p ∧ label = name) := by
    rintro a label q differs stays link ⟨rfl, rfl⟩
    refine stays ⟨a, differs, link, .refl, fun below => ?_⟩
    rcases below.cases_tail with same | ⟨z, upper, _, other⟩
    · exact differs same
    · cases link.symm.trans other
      exact place.outside upper
  intro a b q label left right
  rcases moveLinks_cases left with ⟨rfl, sameLeft⟩ | ⟨differsA, staysA, linkA⟩ <;>
    rcases moveLinks_cases right with ⟨rfl, sameRight⟩ | ⟨differsB, staysB, linkB⟩
  · rfl
  · cases sameLeft
    exact absurd ⟨rfl, rfl⟩ (alone differsB staysB linkB)
  · cases sameRight
    exact absurd ⟨rfl, rfl⟩ (alone differsA staysA linkA)
  · exact S.siblings linkA linkB

open Classical in
noncomputable def movedNodes (S : NodeTree) (x p : Id) (name : String) (itemMeta : ItemMeta) : ExtTreeMap Id Node :=
  (S.nodes.filter fun y _ => decide (¬ S.Taken x p name y)).insert x ⟨some p, name, itemMeta⟩

open Classical in
theorem lookup_movedNodes (S : NodeTree) (x p : Id) (name : String) (itemMeta : ItemMeta) (y : Id) :
    (S.movedNodes x p name itemMeta)[y]? =
      if y = x then some ⟨some p, name, itemMeta⟩ else if S.Taken x p name y then none else S.nodes[y]? := by
  rw [movedNodes, lookup_insert, ExtTreeMap.getElem?_filter']
  by_cases same : y = x
  · simp [same]
  · by_cases taken : S.Taken x p name y <;> cases S.nodes[y]? <;> simp [same, taken, Option.filter]

theorem links_movedNodes (S : NodeTree) (x p : Id) (name : String) (itemMeta : ItemMeta) :
    treeLinks (S.movedNodes x p name itemMeta) = S.moveLinks x p name := by
  funext y
  rw [treeLinks, lookup_movedNodes, moveLinks]
  split
  · rfl
  · split <;> rfl

theorem movedNodes_cases {itemMeta : ItemMeta} {node : Node}
    (found : (S.movedNodes x p name itemMeta)[y]? = some node) :
    (y = x ∧ node.parent = some p) ∨ (¬ S.Taken x p name y ∧ S.nodes[y]? = some node) := by
  rw [lookup_movedNodes] at found
  split at found
  · rename_i same
    cases found
    exact .inl ⟨same, rfl⟩
  · split at found
    · cases found
    · rename_i stays
      exact .inr ⟨stays, found⟩

/-- The tree with `x` moved to its new place, or put there. -/
noncomputable def graft (S : NodeTree) (x p : Id) (name : String) (itemMeta : ItemMeta) (place : S.Place x p) :
    NodeTree where
  nodes := S.movedNodes x p name itemMeta
  root := S.root
  named := by
    rw [lookup_movedNodes, if_neg (Ne.symm place.nonempty)]
    split
    · rfl
    · exact S.named
  rootTop := by
    rw [lookup_movedNodes, if_neg (Ne.symm place.notRoot), if_neg not_taken_root]
    exact S.rootTop
  onlyRoot := by
    intro y node found top
    rcases movedNodes_cases found with ⟨_, below⟩ | ⟨_, present⟩
    · rw [top] at below
      cases below
    · exact S.onlyRoot present top
  rooted := by
    intro y node found
    rw [links_movedNodes]
    obtain ⟨parent, there⟩ := place.parent
    obtain ⟨up, upper⟩ := S.rooted there
    rcases movedNodes_cases found with ⟨rfl, _⟩ | ⟨stays, present⟩
    · exact ⟨_, moved_trail_own place upper⟩
    · obtain ⟨segs, trail⟩ := S.rooted present
      by_cases below : Below S.links x y
      · obtain ⟨front, _, _, own⟩ := Trail.of_below below trail
        obtain ⟨rel, _, moved⟩ := @moved_trail_below _ _ _ _ name place _ _ _ upper own below trail
        exact ⟨_, moved⟩
      · exact ⟨_, moved_trail_aside below stays trail⟩
  siblings := by
    rw [links_movedNodes]
    exact moveLinks_siblings place

/-- Everything that has a trail after the move hangs on `x` or has its old trail. -/
theorem graft_trail {itemMeta : ItemMeta} {place : S.Place x p} {up segs : List String} (upper : Trail S.links p up)
    (trail : Trail (S.graft x p name itemMeta place).links y segs) :
    (∃ rel, segs = up ++ [name] ++ rel ∧ ∀ old, Trail S.links x old → Trail S.links y (old ++ rel)) ∧
        Below S.links x y ∨
      ¬ Below S.links x y ∧ ¬ S.Taken x p name y ∧ Trail S.links y segs := by
  have links : (S.graft x p name itemMeta place).links = _ := links_movedNodes S x p name itemMeta
  obtain ⟨node, found⟩ := present_of_trail trail
  rcases movedNodes_cases found with ⟨rfl, _⟩ | ⟨stays, present⟩
  · have own := @moved_trail_own _ _ _ name place _ upper
    rw [← links] at own
    exact .inl ⟨⟨[], by rw [List.append_nil, trail.unique own], fun old there => by simpa using there⟩, .refl⟩
  · obtain ⟨old, there⟩ := S.rooted present
    by_cases below : Below S.links x y
    · obtain ⟨front, _, _, own⟩ := Trail.of_below below there
      obtain ⟨rel, rfl, moved⟩ := @moved_trail_below _ _ _ _ name place _ _ _ upper own below there
      rw [← links] at moved
      refine .inl ⟨⟨rel, trail.unique moved, fun other place => ?_⟩, below⟩
      rw [place.unique own]
      exact there
    · have kept := @moved_trail_aside _ _ _ _ name _ below stays there
      rw [← links] at kept
      exact .inr ⟨below, stays, trail.unique kept ▸ there⟩

end NodeTree

namespace Index.Is

variable {idx : Index} {S : NodeTree} {it : DeltaItem} {p : Id}

theorem evicted_iff (is : idx.Is S) {x : Id} {name : String} (place : S.Place x p) (y : Id) :
    idx.Evicted x p name y ↔ S.Taken x p name y := by
  have kidOf : ∀ {q c}, (idx.detachMoved x p name).KidOf q c ↔
      ∃ label, S.links c = some (some q, label) ∧ (c = x → q = p ∧ label = name) := by
    intro q c
    refine exists_congr fun label => ?_
    rw [mem_kidsOf_detachMoved is.rep.sound, is.kids]
  constructor
  · rintro ⟨cid, clash, below⟩
    obtain ⟨member, differs⟩ := clash_eq_some clash
    have link := (is.kids _ _ _).mp ((mem_kidsOf_detachMoved is.rep.sound).mp member).1
    -- no step of the walk enters `x`, since its own entry is gone
    have walk : Below S.links cid y ∧ ¬ Below S.links x y := by
      induction below with
      | refl =>
        refine ⟨.refl, fun below => ?_⟩
        rcases below.cases_tail with same | ⟨q, upper, _, child⟩
        · exact differs same
        · cases link.symm.trans child
          exact place.outside upper
      | @tail q c _ kid ih =>
        obtain ⟨label, child, target⟩ := kidOf.mp kid
        refine ⟨ih.1.tail ⟨label, child⟩, fun below => ?_⟩
        rcases below.cases_tail with rfl | ⟨z, upper, _, other⟩
        · obtain ⟨rfl, rfl⟩ := target rfl
          exact differs (S.siblings link child)
        · cases child.symm.trans other
          exact ih.2 upper
    exact ⟨cid, differs, link, walk⟩
  · rintro ⟨c, differs, link, below, aside⟩
    have entry : (name, c) ∈ (idx.detachMoved x p name).kidsOf p :=
      (mem_kidsOf_detachMoved is.rep.sound).mpr ⟨(is.kids _ _ _).mpr link, fun same => absurd same differs⟩
    cases found : (idx.detachMoved x p name).clash x p name with
    | none => exact absurd (clash_eq_none found entry) differs
    | some cid =>
      have other := (is.kids _ _ _).mp ((mem_kidsOf_detachMoved is.rep.sound).mp (clash_eq_some found).1).1
      obtain rfl := S.siblings other link
      refine ⟨cid, found, ?_⟩
      induction below with
      | refl => exact .refl
      | @tail q y _ child ih =>
        obtain ⟨label, step⟩ := child
        have notX : y ≠ x := fun same => aside (same ▸ .refl)
        exact (ih fun below => aside (below.tail ⟨label, step⟩)).tail
          (kidOf.mpr ⟨label, step, fun same => absurd same notX⟩)

theorem apply (is : idx.Is S) (live : it.PlacedUnder p) (place : S.Place it.id p) :
    (idx.apply it).Is (S.graft it.id p it.name it.itemMeta place) := by
  have placed := apply_placed is.rep live
  have notRoot : idx.root ≠ some it.id := by
    rw [is.root]
    exact fun same => place.notRoot (Option.some.inj same).symm
  refine .of_rep (apply_repInv is.rep live notRoot) fun y => ?_
  show _ = (S.movedNodes it.id p it.name it.itemMeta)[y]?
  rw [NodeTree.lookup_movedNodes]
  by_cases own : y = it.id
  · rw [if_pos own, own, placed.node]
  · rw [if_neg own]
    by_cases taken : S.Taken it.id p it.name y
    · rw [if_pos taken, placed.dropped own ((is.evicted_iff place y).mpr taken)]
    · rw [if_neg taken, placed.kept own (mt (is.evicted_iff place y).mp taken), is.nodes]

theorem resolve_iff (is : idx.Is S) {path : String} {y : Id} :
    idx.resolve path = some y ↔ Trail S.links y (segments path) :=
  is.holds.resolve_iff_trail path y

end Index.Is

/-- `apply` on a live record below a node of the tree moves a subtree: the index
becomes the grafted tree, the new path leads where the old one led, with all
that follows it, and every path besides the old and the new one stays. -/
theorem apply_moves_subtree (S : NodeTree) (idx : Index) (is : idx.Is S) (it : DeltaItem) (p : Id)
    (live : it.PlacedUnder p) (place : S.Place it.id p) (up : List String) (upper : Trail S.links p up) :
    (idx.apply it).Is (S.graft it.id p it.name it.itemMeta place) ∧
    (∀ old, Trail S.links it.id old → ∀ rel before after, segments before = old ++ rel →
      segments after = up ++ [it.name] ++ rel → (idx.apply it).resolve after = idx.resolve before) ∧
    (S.nodes[it.id]? = none → ∀ rel after, segments after = up ++ [it.name] ++ rel →
      (idx.apply it).resolve after = if rel = [] then some it.id else none) ∧
    ∀ path, (∀ old, Trail S.links it.id old → ¬ old <+: segments path) → ¬ up ++ [it.name] <+: segments path →
      (idx.apply it).resolve path = idx.resolve path := by
  have moved := is.apply live place
  have links : (S.graft it.id p it.name it.itemMeta place).links = _ :=
    NodeTree.links_movedNodes S it.id p it.name it.itemMeta
  -- what had the new path before hangs on the item or is taken
  have displaced : ∀ {y rel}, Trail S.links y (up ++ [it.name] ++ rel) →
      Below S.links it.id y ∨ S.Taken it.id p it.name y := by
    intro y rel trail
    obtain ⟨c, child, below⟩ := trail.split (up ++ [it.name]) rel rfl
    obtain ⟨q, link, above⟩ := Trail.concat_iff.mp child
    cases NodeTree.trail_injective above upper
    by_cases hangs : Below S.links it.id y
    · exact .inl hangs
    · exact .inr ⟨c, fun same => hangs (same ▸ below), link, below, hangs⟩
  refine ⟨moved, fun old own rel before after oldPath newPath => ?_, fun new rel after newPath => ?_,
    fun path notOld notNew => ?_⟩
  · apply Option.ext
    intro y
    rw [moved.resolve_iff, is.resolve_iff, newPath, oldPath]
    constructor
    · intro trail
      rcases NodeTree.graft_trail upper trail with ⟨⟨other, same, back⟩, _⟩ | ⟨aside, stays, kept⟩
      · rw [List.append_cancel_left same]
        exact back old own
      · exact absurd (displaced kept) (not_or.mpr ⟨aside, stays⟩)
    · intro trail
      obtain ⟨z, there, below⟩ := trail.split old rel rfl
      rw [NodeTree.trail_injective there own] at below
      obtain ⟨other, same, trailMoved⟩ := @NodeTree.moved_trail_below _ _ _ _ it.name place _ _ _ upper own below trail
      rw [List.append_cancel_left same, links]
      exact trailMoved
  · apply Option.ext
    intro y
    rw [moved.resolve_iff, newPath]
    have alone : ∀ {z}, Below S.links it.id z → z = it.id := by
      intro z below
      rcases below.cases_head with same | ⟨c, ⟨label, link⟩, _⟩
      · exact same.symm
      · obtain ⟨node, found⟩ := NodeTree.parent_present link
        rw [new] at found
        cases found
    have own := @NodeTree.moved_trail_own _ _ _ it.name place _ upper
    rw [← links] at own
    constructor
    · intro trail
      rcases NodeTree.graft_trail upper trail with ⟨_, below⟩ | ⟨aside, stays, kept⟩
      · obtain rfl := alone below
        have nothing : rel = [] := by simpa using trail.unique own
        rw [if_pos nothing]
      · exact absurd (displaced kept) (not_or.mpr ⟨aside, stays⟩)
    · intro here
      split at here
      · rename_i nothing
        cases here
        rw [nothing, List.append_nil]
        exact own
      · cases here
  · apply Option.ext
    intro y
    rw [moved.resolve_iff, is.resolve_iff]
    constructor
    · intro trail
      rcases NodeTree.graft_trail upper trail with ⟨⟨rel, same, _⟩, _⟩ | ⟨_, _, kept⟩
      · exact absurd ⟨rel, same.symm⟩ notNew
      · exact kept
    · intro trail
      have aside : ¬ Below S.links it.id y := by
        intro below
        obtain ⟨front, rest, same, own⟩ := Trail.of_below below trail
        exact notOld front own ⟨rest, same.symm⟩
      have stays : ¬ S.Taken it.id p it.name y := by
        rintro ⟨c, _, link, below, _⟩
        obtain ⟨front, rest, same, own⟩ := Trail.of_below below trail
        rw [own.unique (.step link upper)] at same
        exact notNew ⟨rest, same.symm⟩
      rw [links]
      exact NodeTree.moved_trail_aside aside stays trail

/-- The folder with the file goes into the other one under a new name. -/
theorem apply_moves_subtree_intoA :
    ((Index.ofTree foldersAB).apply ⟨"b", some "a", "C", false, false, ⟨true, 0, 0, ""⟩⟩).resolve "/A/C/f.txt" =
      (Index.ofTree foldersAB).resolve "/B/f.txt" := by
  have top : Trail foldersAB.toNodeTree.links "r" [] := .top (by decide : _ = some (none, ""))
  have trailA : Trail foldersAB.toNodeTree.links "a" ["A"] := @Trail.step _ _ _ _ _ _ [] (by decide) top
  have trailB : Trail foldersAB.toNodeTree.links "b" ["B"] := @Trail.step _ _ _ _ _ _ [] (by decide) top
  have place : foldersAB.toNodeTree.Place "b" "a" := by
    refine ⟨by decide, by decide, ⟨_, (by decide : _ = some ⟨some "r", "A", ⟨true, 0, 0, ""⟩⟩)⟩, fun below => ?_⟩
    obtain ⟨front, rest, same, own⟩ := Trail.of_below below trailA
    rw [own.unique trailB] at same
    exact absurd (List.cons.inj same).1 (by decide)
  obtain ⟨_, moved, _⟩ := apply_moves_subtree foldersAB.toNodeTree _ (Index.is_ofTree foldersAB)
    ⟨"b", some "a", "C", false, false, ⟨true, 0, 0, ""⟩⟩ "a" ⟨by decide, rfl, rfl, rfl⟩ place ["A"] trailA
  exact moved ["B"] trailB ["f.txt"] "/B/f.txt" "/A/C/f.txt" (by decide) (by decide)

end OneDriveDavfs
