import OneDriveDavfs.Index.Tree

/-! Applying the records of a drive.

A record of the tree that the index is a part of only adds its node. A record
of a later tree can also take nodes away: a tombstone takes everything under
its id, and a record that arrives at a taken name evicts the other id with
everything under it. Unchanged items are not sent again, so what is taken away
has to arrive later in the same list.
-/

set_option autoImplicit false

namespace OneDriveDavfs

open Std Library.Collections Library.Forest

/-! ## The records of one tree -/

/-- The record of a node of the tree, as far as it is compared. What it says of the parent of the root is not
looked at. -/
def NodeTree.RecordsAs (view : View) (S : NodeTree) (it : DeltaItem) : Prop :=
  ∃ node, S.nodes[it.id]? = some node ∧ it.deleted = false ∧
    (node.parent = none → it.isRoot = true ∧ view.see ⟨none, it.name, it.itemMeta⟩ = node) ∧
    ∀ p, node.parent = some p → it.isRoot = false ∧ it.parentId = some p ∧ node = ⟨some p, it.name, it.itemMeta⟩

def NodeTree.Buries (S : NodeTree) (it : DeltaItem) : Prop :=
  it.deleted = true ∧ it.id ≠ "" ∧ S.nodes[it.id]? = none

section Records
variable {view : View} {S : NodeTree} {it : DeltaItem}

theorem NodeTree.nonempty_of_node {id : Id} {node : Node} (found : S.nodes[id]? = some node) : id ≠ "" := by
  rintro rfl
  rw [S.named] at found
  cases found

theorem NodeTree.RecordsAs.placedUnder {p : Id} {node : Node} (records : S.RecordsAs view it)
    (found : S.nodes[it.id]? = some node) (parent : node.parent = some p) :
    it.PlacedUnder p ∧ node = ⟨some p, it.name, it.itemMeta⟩ := by
  obtain ⟨_, same, live, _, below⟩ := records
  cases found.symm.trans same
  obtain ⟨notRoot, up, record⟩ := below p parent
  exact ⟨⟨NodeTree.nonempty_of_node found, live, notRoot, up⟩, record⟩

theorem NodeTree.Buries.not_records (buries : S.Buries it) : ¬ S.RecordsAs view it := by
  rintro ⟨node, found, _⟩
  rw [buries.2.2] at found
  cases found

theorem DriveTree.Tells.records {T : DriveTree} {node : Node} (tells : T.Tells it)
    (found : T.nodes[it.id]? = some node) : T.RecordsAs .nameless it := by
  refine ⟨node, found, ?_, fun top => ?_, fun p parent => ?_⟩
  · simp only [Tells, found] at tells
    exact tells.1
  · obtain ⟨_, _, isRoot, sameMeta⟩ := tells.takesRoot found top
    obtain ⟨itemMeta, record⟩ := T.rootRecord
    rw [← T.onlyRoot found top, found] at record
    cases record
    exact ⟨isRoot, by simp [Node.eraseTop, sameMeta]⟩
  · obtain ⟨live, record⟩ := tells.placedUnder found parent
    exact ⟨live.notRoot, live.parent, record⟩

end Records

namespace HoldsAs

variable {view : View} {idx : Index} {S : NodeTree} {part : Id → Prop} {it : DeltaItem}

theorem empty (view : View) (S : NodeTree) : HoldsAs view Index.empty S fun _ => False :=
  ⟨Index.repInv_empty, fun selected => absurd selected id, fun _ => by simp [Index.empty]⟩

/-- Within one tree no name is taken twice, so nothing is evicted. -/
theorem not_evicted (holds : HoldsAs view idx S part) {id p x : Id} {name : String}
    (link : S.links id = some (some p, name)) : ¬ idx.Evicted id p name x := by
  rintro ⟨cid, found, _⟩
  obtain ⟨member, differs⟩ := Index.clash_eq_some found
  have entry := ((Index.mem_kidsOf_detachMoved holds.rep.sound).mp member).1
  have other := (holds.link_inner.mp (holds.rep.sound entry)).2
  exact differs (S.siblings other link)

/-- A record of the tree adds its node, in whatever order the records come. -/
theorem apply (holds : HoldsAs view idx S part) (records : S.RecordsAs view it) :
    HoldsAs view (idx.apply it) S fun x => part x ∨ x = it.id := by
  have ⟨node, found, live, top, below⟩ := records
  have nonempty := NodeTree.nonempty_of_node found
  -- the root overwrites its node; any other record detaches and attaches
  cases parent : node.parent with
  | none =>
    obtain ⟨isRoot, seen⟩ := top parent
    have same : it.id = S.root := S.onlyRoot found parent
    have allowed : (Index.Op.apply it).Allowed S.root idx := fun _ => iff_of_true isRoot same
    have applied : idx.apply it = { idx with
        root := some it.id
        nodes := idx.nodes.insert it.id ⟨none, it.name, it.itemMeta⟩ } := by
      simp [Index.apply, nonempty, live, isRoot]
    refine ⟨(holds.runInv.apply allowed).rep, ?_, ?_⟩
    · intro x selected
      rw [applied, lookup_insert]
      split
      · rename_i own
        rw [own, found, Option.map_some, seen]
      · rename_i differs
        exact holds.inside (selected.resolve_right differs)
    · intro x absent
      rw [not_or] at absent
      rw [applied, lookup_insert, if_neg absent.2]
      exact holds.outside absent.1
  | some p =>
    obtain ⟨placedUnder, record⟩ := records.placedUnder found parent
    have link : S.links it.id = some (some p, it.name) :=
      NodeTree.links_eq_some_iff.mpr ⟨node, found, parent, by rw [record]⟩
    have differs : it.id ≠ S.root := fun same => NodeTree.not_child_root p ⟨it.name, same ▸ link⟩
    have placed := Index.apply_placed holds.rep placedUnder
    refine ⟨(holds.runInv.placed placedUnder differs).rep, ?_, ?_⟩
    · intro x selected
      by_cases own : x = it.id
      · rw [own, placed.node, found, record, Option.map_some, view.below rfl]
      · rw [placed.kept own (holds.not_evicted link)]
        exact holds.inside (selected.resolve_right own)
    · intro x absent
      rw [not_or] at absent
      rw [placed.kept absent.2 (holds.not_evicted link)]
      exact holds.outside absent.1

theorem buries (holds : HoldsAs view idx S part) (buries : S.Buries it) : HoldsAs view (idx.apply it) S part := by
  obtain ⟨deleted, nonempty, absent⟩ := buries
  have removal : idx.apply it = idx.remove it.id := by simp [Index.apply, nonempty, deleted]
  have removed := Index.remove_pruned holds.rep.sound it.id
  have alone : ∀ {x}, idx.Under it.id x → x = it.id := by
    intro x below
    rcases below.cases_head with same | ⟨c, ⟨name, member⟩, _⟩
    · exact same.symm
    · obtain ⟨node, found⟩ := NodeTree.parent_present (holds.link_inner.mp (holds.rep.sound member)).2
      rw [absent] at found
      cases found
  rw [removal]
  refine ⟨(holds.runInv.remove it.id).rep, ?_, ?_⟩
  · intro x selected
    by_cases below : idx.Under it.id x
    · rw [removed.dropped below, alone below, absent]
      rfl
    · rw [removed.kept below, holds.inside selected]
  · intro x away
    by_cases below : idx.Under it.id x
    · exact removed.dropped below
    · rw [removed.kept below, holds.outside away]

/-- A list of records of the tree and of such tombstones adds exactly the ids of the records. -/
theorem applyAll (holds : HoldsAs view idx S part) (items : List DeltaItem)
    (known : ∀ it ∈ items, S.RecordsAs view it ∨ S.Buries it) :
    HoldsAs view (items.foldl Index.apply idx) S fun x => part x ∨ ∃ it ∈ items, S.RecordsAs view it ∧ it.id = x := by
  induction items generalizing idx part with
  | nil => exact holds.congr fun x => by simp
  | cons it rest ih =>
    have others : ∀ later ∈ rest, S.RecordsAs view later ∨ S.Buries later :=
      fun later member => known later (List.mem_cons_of_mem _ member)
    rw [List.foldl_cons]
    rcases known it List.mem_cons_self with told | gone
    · refine (ih (holds.apply told) others).congr fun x => ?_
      simp only [List.mem_cons, exists_eq_or_imp, told, true_and, or_assoc, eq_comm (a := x)]
    · have silent : ¬ S.RecordsAs view it := gone.not_records
      refine (ih (holds.buries gone) others).congr fun x => ?_
      simp only [List.mem_cons, exists_eq_or_imp, silent, false_and, false_or]

end HoldsAs

theorem Holds.applyAll {idx : Index} {T : DriveTree} {part : Id → Prop} (holds : Holds idx T part)
    (items : List DeltaItem) (tells : ∀ it ∈ items, T.Tells it ∧ ∃ node, T.nodes[it.id]? = some node) :
    Holds (items.foldl Index.apply idx) T fun x => part x ∨ x ∈ items.map DeltaItem.id := by
  have records : ∀ it ∈ items, T.RecordsAs .nameless it := by
    intro it member
    obtain ⟨told, node, found⟩ := tells it member
    exact told.records found
  refine (HoldsAs.applyAll holds items fun it member => .inl (records it member)).congr fun x => or_congr_right ?_
  rw [List.mem_map]
  exact exists_congr fun it => and_congr_right fun member => and_iff_right (records it member)

def Index.ofTree (T : DriveTree) : Index := T.records.foldl Index.apply Index.empty

theorem represents_ofTree (T : DriveTree) : Represents (Index.ofTree T) T :=
  (Holds.applyAll (HoldsAs.empty .nameless T.toNodeTree) T.records fun _ => DriveTree.tells_of_mem_records).all
    fun found => .inr (DriveTree.mem_records_ids found)

/-! ## The records from one tree to another -/

/-- One record for every id below the root whose record differs, tombstones for
those that are gone. -/
structure IsDelta (S T : DriveTree) (items : List DeltaItem) : Prop where
  root : S.root = T.root
  once : (items.map DeltaItem.id).Nodup
  tells : ∀ it ∈ items, T.Tells it
  differ : ∀ id, id ∈ items.map DeltaItem.id ↔ id ≠ T.root ∧ S.nodes[id]? ≠ T.nodes[id]?

/-- What a record takes away from the index it meets. -/
def Removes (idx : Index) (it : DeltaItem) (x : Id) : Prop :=
  (it.deleted = true ∧ idx.Under it.id x) ∨ ∃ p, it.PlacedUnder p ∧ idx.Evicted it.id p it.name x

/-- Whatever of the new tree a record takes away, a later record brings back. -/
def SafeRun (T : DriveTree) : Index → List DeltaItem → Prop
  | _, [] => True
  | idx, it :: rest =>
    (∀ x, (T.nodes[x]?).isSome = true → Removes idx it x → x ∈ rest.map DeltaItem.id) ∧
      SafeRun T (idx.apply it) rest

structure Inner (T : DriveTree) (it : DeltaItem) : Prop where
  tells : T.Tells it
  named : it.id ≠ ""
  notRoot : it.id ≠ T.root

section Step
variable {T : DriveTree} {idx : Index} {it : DeltaItem}

theorem Inner.cases (inner : Inner T it) :
    (T.nodes[it.id]? = none ∧ it.deleted = true) ∨
      ∃ p, it.PlacedUnder p ∧ T.nodes[it.id]? = some ⟨some p, it.name, it.itemMeta⟩ := by
  cases found : T.nodes[it.id]? with
  | none => exact .inl ⟨rfl, inner.tells.deleted found⟩
  | some node =>
    cases parent : node.parent with
    | none => exact absurd (T.onlyRoot found parent) inner.notRoot
    | some p =>
      obtain ⟨live, record⟩ := inner.tells.placedUnder found parent
      exact .inr ⟨p, live, congrArg some record⟩

theorem Inner.runInv_apply (inner : Inner T it) (inv : Index.RunInv T.root idx) :
    Index.RunInv T.root (idx.apply it) := by
  refine inv.apply fun live => ?_
  rcases inner.cases with ⟨_, deleted⟩ | ⟨p, placed, _⟩
  · simp [live] at deleted
  · simp [placed.notRoot, inner.notRoot]

theorem Inner.nodes_own (inner : Inner T it) (inv : Index.RunInv T.root idx) :
    (idx.apply it).nodes[it.id]? = T.nodes[it.id]? := by
  rcases inner.cases with ⟨absent, deleted⟩ | ⟨p, live, record⟩
  · have removal : idx.apply it = idx.remove it.id := by simp [Index.apply, inner.named, deleted]
    rw [removal, absent]
    exact (Index.remove_pruned inv.rep.sound it.id).dropped .refl
  · rw [(Index.apply_placed inv.rep live).node, record]

theorem Inner.nodes_other (inner : Inner T it) (inv : Index.RunInv T.root idx) {x : Id} (other : x ≠ it.id) :
    (Removes idx it x → (idx.apply it).nodes[x]? = none) ∧
      (¬ Removes idx it x → (idx.apply it).nodes[x]? = idx.nodes[x]?) := by
  rcases inner.cases with ⟨_, deleted⟩ | ⟨p, live, _⟩
  · have removes : Removes idx it x ↔ idx.Under it.id x := by
      refine ⟨?_, fun below => .inl ⟨deleted, below⟩⟩
      rintro (⟨_, below⟩ | ⟨_, live, _⟩)
      · exact below
      · simp [live.live] at deleted
    have removal : idx.apply it = idx.remove it.id := by simp [Index.apply, inner.named, deleted]
    have pruned := Index.remove_pruned inv.rep.sound it.id
    rw [removes, removal]
    exact ⟨pruned.dropped, pruned.kept⟩
  · have removes : Removes idx it x ↔ idx.Evicted it.id p it.name x := by
      refine ⟨?_, fun evicted => .inr ⟨p, live, evicted⟩⟩
      rintro (⟨deleted, _⟩ | ⟨q, other, evicted⟩)
      · simp [live.live] at deleted
      · cases live.parent.symm.trans other.parent
        exact evicted
    have placed := Index.apply_placed inv.rep live
    rw [removes]
    exact ⟨placed.dropped other, placed.kept other⟩

theorem Inner.not_removes_own (inner : Inner T it) (inv : Index.RunInv T.root idx)
    (present : (T.nodes[it.id]?).isSome = true) : ¬ Removes idx it it.id := by
  rintro (⟨deleted, _⟩ | ⟨p, _, evicted⟩)
  · rcases inner.cases with ⟨absent, _⟩ | ⟨p, live, _⟩
    · simp [absent] at present
    · simp [live.live] at deleted
  · exact Index.not_evicted_self inv.rep evicted

end Step

section Run
variable {T : DriveTree} {idx : Index}

/-- Every id without a record to come is as it is in the tree. -/
structure Settled (T : DriveTree) (idx : Index) (rest : List DeltaItem) : Prop where
  run : Index.RunInv T.root idx
  done : ∀ {x}, x ∉ rest.map DeltaItem.id → (idx.nodes[x]?).map Node.eraseTop = T.nodes[x]?

theorem eraseTop_of_inner {T : DriveTree} {id : Id} (notRoot : id ≠ T.root) :
    (T.nodes[id]?).map Node.eraseTop = T.nodes[id]? := by
  cases found : T.nodes[id]? with
  | none => rfl
  | some node =>
    cases parent : node.parent with
    | none => exact absurd (T.onlyRoot found parent) notRoot
    | some p => rw [Option.map_some, (eraseTop_eq_iff parent).mpr rfl]

theorem settled_step {it : DeltaItem} {rest : List DeltaItem} (inner : Inner T it)
    (settled : Settled T idx (it :: rest))
    (safe : ∀ x, (T.nodes[x]?).isSome = true → Removes idx it x → x ∈ rest.map DeltaItem.id) :
    Settled T (idx.apply it) rest where
  run := inner.runInv_apply settled.run
  done := by
    intro x absent
    by_cases own : x = it.id
    · rw [own, inner.nodes_own settled.run, eraseTop_of_inner inner.notRoot]
    have before := settled.done (x := x) (by simpa [own] using absent)
    obtain ⟨dropped, kept⟩ := inner.nodes_other settled.run own
    by_cases removed : Removes idx it x
    · -- what is taken away for good is not in the tree
      have gone : T.nodes[x]? = none := by
        rw [Option.eq_none_iff_forall_ne_some]
        intro node found
        exact absent (safe x (by simp [found]) removed)
      rw [dropped removed, gone]
      rfl
    · rw [kept removed, before]

theorem settled_run {items : List DeltaItem} (inner : ∀ it ∈ items, Inner T it) (settled : Settled T idx items)
    (safe : SafeRun T idx items) : Settled T (items.foldl Index.apply idx) [] := by
  induction items generalizing idx with
  | nil => exact settled
  | cons it rest ih =>
    have first := settled_step (inner it List.mem_cons_self) settled safe.1
    exact ih (fun later member => inner later (List.mem_cons_of_mem _ member)) first safe.2

theorem represents_of_settled (settled : Settled T idx []) : Represents idx T :=
  ⟨settled.run.rep, fun _ => settled.done List.not_mem_nil, fun absent => absurd trivial absent⟩

/-- Nothing but its own record brings a node back. -/
theorem nodes_run_none {items : List DeltaItem} (inner : ∀ it ∈ items, Inner T it)
    (inv : Index.RunInv T.root idx) {x : Id} (gone : idx.nodes[x]? = none)
    (never : x ∉ items.map DeltaItem.id) : (items.foldl Index.apply idx).nodes[x]? = none := by
  induction items generalizing idx with
  | nil => exact gone
  | cons it rest ih =>
    have first := inner it List.mem_cons_self
    simp only [List.map_cons, List.mem_cons, not_or] at never
    obtain ⟨dropped, kept⟩ := first.nodes_other inv never.1
    have still : (idx.apply it).nodes[x]? = none := by
      by_cases removed : Removes idx it x
      · exact dropped removed
      · rw [kept removed, gone]
    exact ih (fun later member => inner later (List.mem_cons_of_mem _ member)) (first.runInv_apply inv)
      still never.2

theorem nodes_run_kept {items : List DeltaItem} (inner : ∀ it ∈ items, Inner T it)
    (inv : Index.RunInv T.root idx) {x : Id} (never : x ∉ items.map DeltaItem.id)
    (present : (items.foldl Index.apply idx).nodes[x]? ≠ none) :
    (items.foldl Index.apply idx).nodes[x]? = idx.nodes[x]? := by
  induction items generalizing idx with
  | nil => rfl
  | cons it rest ih =>
    have first := inner it List.mem_cons_self
    have others : ∀ later ∈ rest, Inner T later := fun later member => inner later (List.mem_cons_of_mem _ member)
    have after := first.runInv_apply inv
    simp only [List.map_cons, List.mem_cons, not_or] at never
    obtain ⟨dropped, kept⟩ := first.nodes_other inv never.1
    have untouched : ¬ Removes idx it x := fun removed =>
      present (nodes_run_none others after (dropped removed) never.2)
    exact (ih others after never.2 present).trans (kept untouched)

theorem safeRun_of_complete {items : List DeltaItem} (inner : ∀ it ∈ items, Inner T it)
    (inv : Index.RunInv T.root idx)
    (complete : ∀ x : Id, (T.nodes[x]?).isSome = true → (items.foldl Index.apply idx).nodes[x]? ≠ none) :
    SafeRun T idx items := by
  induction items generalizing idx with
  | nil => trivial
  | cons it rest ih =>
    have first := inner it List.mem_cons_self
    have others : ∀ later ∈ rest, Inner T later := fun later member => inner later (List.mem_cons_of_mem _ member)
    refine ⟨fun x present removed => ?_, ih others (first.runInv_apply inv) complete⟩
    by_contra never
    have differs : x ≠ it.id := by
      rintro rfl
      exact first.not_removes_own inv present removed
    have gone := (first.nodes_other inv differs).1 removed
    exact complete x present (nodes_run_none others (first.runInv_apply inv) gone never)

end Run

theorem IsDelta.inner {S T : DriveTree} {items : List DeltaItem} (delta : IsDelta S T items) :
    ∀ it ∈ items, Inner T it := by
  intro it member
  obtain ⟨notRoot, differ⟩ := (delta.differ it.id).mp (List.mem_map_of_mem member)
  refine ⟨delta.tells it member, fun nameless => ?_, notRoot⟩
  rw [nameless, S.named, T.named] at differ
  exact differ rfl

theorem IsDelta.settled {S T : DriveTree} {items : List DeltaItem} {idx : Index} (delta : IsDelta S T items)
    (sameRoot : S.nodes[T.root]? = T.nodes[T.root]?) (start : Represents idx S) : Settled T idx items := by
  refine ⟨delta.root ▸ HoldsAs.runInv start, fun {x} absent => ?_⟩
  rw [start.inside trivial]
  by_cases own : x = T.root
  · rw [own, sameRoot]
  · exact not_not.mp fun differ => absent ((delta.differ x).mpr ⟨own, differ⟩)

/-- The records turn the old tree into the new one exactly when the root's own
record, which is not among them, is the same in both, and every item of the new
tree that is taken away on the way is still to come. -/
theorem delta_converges_iff (S T : DriveTree) (items : List DeltaItem) (idx : Index) (depth : T.DepthLe 63)
    (start : Represents idx S) (delta : IsDelta S T items) :
    (Represents (items.foldl Index.apply idx).sweepOrphans T ∧
      ∀ path id, (items.foldl Index.apply idx).sweepOrphans.resolve path = some id ↔
        Trail T.links id (segments path)) ↔ S.nodes[T.root]? = T.nodes[T.root]? ∧ SafeRun T idx items := by
  have inv : Index.RunInv T.root idx := delta.root ▸ HoldsAs.runInv start
  constructor
  · rintro ⟨represents, _⟩
    have swept := Index.sweepOrphans_pruned (items.foldl Index.apply idx)
    have complete : ∀ x : Id, (T.nodes[x]?).isSome = true →
        (items.foldl Index.apply idx).nodes[x]? ≠ none ∧
          (items.foldl Index.apply idx).sweepOrphans.nodes[x]? = (items.foldl Index.apply idx).nodes[x]? := by
      intro x present
      rw [← represents.inside trivial, Option.isSome_map] at present
      by_cases away : (items.foldl Index.apply idx).Orphan x
      · rw [swept.dropped away] at present
        cases present
      · rw [swept.kept away] at present ⊢
        exact ⟨Option.isSome_iff_ne_none.mp present, rfl⟩
    refine ⟨?_, safeRun_of_complete delta.inner inv fun x present => (complete x present).1⟩
    obtain ⟨itemMeta, found⟩ := T.rootRecord
    obtain ⟨present, kept⟩ := complete T.root (by simp [found])
    -- the root has no record in the list, so it is at the end what it was at the start
    have unsent : T.root ∉ items.map DeltaItem.id := fun sent => ((delta.differ _).mp sent).1 rfl
    rw [← start.inside trivial, ← represents.inside trivial, kept, nodes_run_kept delta.inner inv unsent present]
  · rintro ⟨sameRoot, safe⟩
    have settled := settled_run delta.inner (delta.settled sameRoot start) safe
    have represents := (represents_of_settled settled).sweepOrphans depth
    exact ⟨represents, represents.resolve_iff⟩

theorem isDelta_of_lists {S T : DriveTree} {items : List DeltaItem} (root : S.root = T.root)
    (once : (items.map DeltaItem.id).Nodup)
    (tells : ∀ it ∈ items, T.Tells it ∧ it.id ≠ T.root ∧ S.nodes[it.id]? ≠ T.nodes[it.id]?)
    (all : ∀ entry ∈ S.nodes.toList ++ T.nodes.toList, entry.1 ≠ T.root →
      S.nodes[entry.1]? ≠ T.nodes[entry.1]? → entry.1 ∈ items.map DeltaItem.id) : IsDelta S T items := by
  refine ⟨root, once, fun it member => (tells it member).1, fun id => ⟨?_, ?_⟩⟩
  · intro member
    obtain ⟨it, found, rfl⟩ := List.mem_map.mp member
    exact (tells it found).2
  rintro ⟨inner, differ⟩
  by_cases before : S.nodes[id]? = none
  · cases after : T.nodes[id]? with
    | none => exact absurd (before.trans after.symm) differ
    | some node =>
      have entry := ExtTreeMap.mem_toList_iff_getElem?_eq_some.mpr after
      exact all (id, node) (List.mem_append_right _ entry) inner differ
  · obtain ⟨node, found⟩ := Option.ne_none_iff_exists'.mp before
    have entry := ExtTreeMap.mem_toList_iff_getElem?_eq_some.mpr found
    exact all (id, node) (List.mem_append_left _ entry) inner differ

/-! ## Two folders, one of them with a file -/

def twoFolders (first second : String) : ExtTreeMap Id Node :=
  (((ExtTreeMap.empty.insert "r" ⟨none, "", ⟨true, 0, 0, ""⟩⟩).insert "a" ⟨some "r", first, ⟨true, 0, 0, ""⟩⟩).insert
    "b" ⟨some "r", second, ⟨true, 0, 0, ""⟩⟩).insert "f" ⟨some "b", "f.txt", ⟨false, 1, 0, ""⟩⟩

def foldersAB : DriveTree := .ofChecked (twoFolders "A" "B") "r" (by decide)

def foldersBA : DriveTree := .ofChecked (twoFolders "B" "A") "r" (by decide)

def foldersAC : DriveTree := .ofChecked (twoFolders "A" "C") "r" (by decide)

def folderRecord (id name : String) : DeltaItem := ⟨id, some "r", name, false, false, ⟨true, 0, 0, ""⟩⟩

/-- A rename to a free name evicts nothing, and the file moves along. -/
theorem delta_converges_iff_rename :
    Represents ([folderRecord "b" "C"].foldl Index.apply (Index.ofTree foldersAB)).sweepOrphans foldersAC := by
  have delta : IsDelta foldersAB foldersAC [folderRecord "b" "C"] :=
    isDelta_of_lists rfl (by decide) (by decide) (by decide)
  refine ((delta_converges_iff foldersAB foldersAC _ _ (NodeTree.depthLe_of_climb (by decide))
    (represents_ofTree _) delta).mpr ⟨by decide, ?_, trivial⟩).1
  rintro x _ (⟨deleted, _⟩ | ⟨p, live, cid, found, _⟩)
  · cases deleted
  · cases live.parent
    have free : ((Index.ofTree foldersAB).detachMoved "b" "r" "C").clash "b" "r" "C" = none := by
      decide
    cases free.symm.trans found

/-- When the folders swap their names, the first record evicts the other folder
with its file, and the file is never sent again. -/
theorem swapped_folder_loses_file :
    foldersAB.DepthLe 63 ∧ foldersBA.DepthLe 63 ∧ Represents (Index.ofTree foldersAB) foldersAB ∧
      IsDelta foldersAB foldersBA [folderRecord "a" "B", folderRecord "b" "A"] ∧
      ¬ (Represents ([folderRecord "a" "B", folderRecord "b" "A"].foldl Index.apply
          (Index.ofTree foldersAB)).sweepOrphans foldersBA ∧
        ∀ path id, ([folderRecord "a" "B", folderRecord "b" "A"].foldl Index.apply
          (Index.ofTree foldersAB)).sweepOrphans.resolve path = some id ↔
            Trail foldersBA.links id (segments path)) := by
  refine ⟨NodeTree.depthLe_of_climb (by decide), NodeTree.depthLe_of_climb (by decide), represents_ofTree _,
    isDelta_of_lists rfl (by decide) (by decide) (by decide), ?_⟩
  rintro ⟨represents, _⟩
  have kept := @represents.inside "f" trivial
  revert kept
  decide +kernel

end OneDriveDavfs
