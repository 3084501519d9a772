import OneDriveDavfs.Index.Paths

/-! Every sequence of index operations keeps the representation invariant.

The root of a drive is one fixed item that always carries its root facet, so
the runs considered deliver the root facet with one id and never deliver that
id without it. Everything else is free: any order of records, any removal,
parents that do not exist, and cycles.
-/

set_option autoImplicit false

namespace OneDriveDavfs.Index

open Std Library.Collections Library.Forest

variable {idx : Index}

/-! ## The sweep -/

/-- Not seen from the recorded root; nothing is an orphan while none is recorded. -/
def Orphan (idx : Index) (id : Id) : Prop :=
  ∃ root, idx.root = some root ∧ idx.reachable root id = false

theorem sweepOrphans_of_root {root : Id} (recorded : idx.root = some root) :
    idx.sweepOrphans = { idx with
      nodes := idx.nodes.filter fun id _ => idx.reachable root id
      kids := idx.kids.filterMap fun pid set =>
        if idx.reachable root pid then some (set.filter fun kid => idx.reachable root kid.2)
        else none } := by
  simp only [sweepOrphans, recorded]

theorem orphan_iff {root : Id} (recorded : idx.root = some root) (id : Id) :
    idx.Orphan id ↔ idx.reachable root id = false := by
  constructor
  · rintro ⟨other, same, away⟩
    cases recorded.symm.trans same
    exact away
  · exact fun away => ⟨root, recorded, away⟩

theorem not_orphan_iff {root : Id} (recorded : idx.root = some root) (id : Id) :
    ¬ idx.Orphan id ↔ idx.reachable root id = true := by
  rw [orphan_iff recorded, Bool.not_eq_false]

theorem kidsOf_sweepOrphans {root : Id} (recorded : idx.root = some root) (p : Id) :
    idx.sweepOrphans.kidsOf p =
      if idx.reachable root p then (idx.kidsOf p).filter fun kid => idx.reachable root kid.2 else ∅ := by
  rw [sweepOrphans_of_root recorded]
  simp only [kidsOf, ExtTreeMap.getElem?_filterMap']
  cases idx.kids[p]? with
  | none =>
    have noKids : (∅ : KidSet).filter (fun kid => idx.reachable root kid.2) = ∅ := by
      apply ExtTreeSet.ext_mem
      simp
    simp [noKids]
  | some set => by_cases seen : idx.reachable root p = true <;> simp [seen]

theorem sweepOrphans_pruned (idx : Index) : Pruned idx idx.Orphan idx.sweepOrphans := by
  cases recorded : idx.root with
  | none =>
    have unchanged : idx.sweepOrphans = idx := by simp only [sweepOrphans, recorded]
    rw [unchanged]
    exact (Pruned.refl idx).congr fun x => by simp [Orphan, recorded]
  | some root =>
    have nodes (id : Id) : idx.sweepOrphans.nodes[id]? = if idx.reachable root id then idx.nodes[id]? else none := by
      rw [sweepOrphans_of_root recorded, ExtTreeMap.getElem?_filter']
      cases idx.nodes[id]? <;> simp [Option.filter]
    refine ⟨?_, ?_, ?_, ?_, ?_, ?_⟩
    · intro id away
      rw [nodes, (orphan_iff recorded id).mp away]
      rfl
    · intro id seen
      rw [nodes, (not_orphan_iff recorded id).mp seen]
      rfl
    · intro p name c
      rw [kidsOf_sweepOrphans recorded, not_orphan_iff recorded, not_orphan_iff recorded]
      by_cases seen : idx.reachable root p = true <;> simp [seen]
    · intro p
      rw [not_orphan_iff recorded, sweepOrphans_of_root recorded, ExtTreeMap.getElem?_filterMap']
      by_cases seen : idx.reachable root p = true
      · simp only [seen, if_true, and_true]
        cases idx.kids[p]? <;> rfl
      · simp [seen]
    · intro r
      have same : idx.sweepOrphans.root = idx.root := by rw [sweepOrphans_of_root recorded]
      rw [same, iff_self_and]
      -- the recorded root sees itself, so it can only be an orphan when it is not stored
      rintro top ⟨away, stored⟩
      cases recorded.symm.trans top
      rw [orphan_iff recorded, reachable, stored] at away
      simp [reachesRoot] at away
    · rw [sweepOrphans_of_root recorded]
      rfl

theorem orphan_closed (inv : RepInv idx) {p c : Id} (away : idx.Orphan p) (kid : idx.KidOf p c) :
    idx.Orphan c := by
  obtain ⟨root, recorded, away⟩ := away
  obtain ⟨name, member⟩ := kid
  refine ⟨root, recorded, Bool.eq_false_iff.mpr fun seen => ?_⟩
  obtain ⟨segs, trail, bound⟩ := (reachable_iff inv recorded c).mp seen
  obtain ⟨front, rfl, upper⟩ := Trail.of_child (inv.sound member) trail
  rw [List.length_append, List.length_singleton] at bound
  have above := (reachable_iff inv recorded p).mpr ⟨front, upper, by omega⟩
  simp [away] at above

theorem sweepOrphans_repInv (inv : RepInv idx) : RepInv idx.sweepOrphans :=
  inv.pruned (sweepOrphans_pruned idx) (orphan_closed inv)

/-! ## One record -/

/-- What `apply` does with a record: ignore it, remove, take the root, or place a node. -/
theorem apply_cases (idx : Index) (it : DeltaItem) :
    idx.apply it = idx ∨
      (it.deleted = true ∧ idx.apply it = idx.remove it.id) ∨
      (it.deleted = false ∧ it.isRoot = true ∧ idx.apply it = { idx with
        root := some it.id
        nodes := idx.nodes.insert it.id ⟨none, it.name, it.itemMeta⟩ }) ∨
      ∃ p, it.PlacedUnder p := by
  by_cases nameless : it.id = ""
  · exact .inl (by simp only [apply, if_pos nameless])
  cases deleted : it.deleted with
  | true => exact .inr (.inl ⟨rfl, by simp [apply, nameless, deleted]⟩)
  | false =>
    cases isRoot : it.isRoot with
    | true => exact .inr (.inr (.inl ⟨rfl, rfl, by simp [apply, nameless, deleted, isRoot]⟩))
    | false =>
      cases parent : it.parentId with
      | none => exact .inl (by simp [apply, nameless, deleted, isRoot, parent])
      | some p => exact .inr (.inr (.inr ⟨p, nameless, deleted, isRoot, parent⟩))

theorem links_insert_root (idx : Index) (r : Id) (name : String) (itemMeta : ItemMeta) (x : Id) :
    links { idx with root := some r, nodes := idx.nodes.insert r ⟨none, name, itemMeta⟩ } x =
      if x = r then some (none, name) else idx.links x := by
  simp only [links, lookup_insert]
  split <;> rfl

theorem links_modify_meta (idx : Index) (id : Id) (itemMeta : ItemMeta) :
    links { idx with nodes := idx.nodes.modify id fun node => { node with itemMeta } } = idx.links := by
  funext x
  simp only [links, lookup_modify]
  split
  · cases idx.nodes[x]? <;> rfl
  · rfl

theorem apply_root_repInv (inv : RepInv idx) {r : Id} {name : String} {itemMeta : ItemMeta}
    (only : ∀ x, idx.root = some x → x = r) (notKid : ∀ p label, idx.links r ≠ some (some p, label)) :
    RepInv { idx with root := some r, nodes := idx.nodes.insert r ⟨none, name, itemMeta⟩ } := by
  refine ⟨?_, ?_, inv.siblings, ?_, ?_⟩
  · intro x p label link
    rw [links_insert_root] at link
    split at link
    · simp at link
    · exact inv.filed link
  · intro p label x member
    have differs : x ≠ r := fun same => notKid p label (same ▸ inv.sound member)
    rw [links_insert_root, if_neg differs]
    exact inv.sound member
  · intro x label link
    rw [links_insert_root] at link
    split at link
    · rename_i same
      rw [same]
    · rename_i differs
      exact absurd (only x (inv.top link)) differs
  · intro x recorded
    cases recorded
    exact ⟨name, by rw [links_insert_root, if_pos rfl]⟩

theorem links_apply_other (inv : RepInv idx) {it : DeltaItem} {x : Id} (other : x ≠ it.id) {link : Option Id × String}
    (found : (idx.apply it).links x = some link) : idx.links x = some link := by
  rcases apply_cases idx it with same | ⟨_, removal⟩ | ⟨_, _, top⟩ | ⟨p, live⟩
  · rwa [same] at found
  · rw [removal] at found
    have pruned := remove_pruned inv.sound it.id
    by_cases removed : idx.Under it.id x
    · simp [links, pruned.dropped removed] at found
    · exact links_of_nodes (pruned.kept removed) ▸ found
  · rwa [top, links_insert_root, if_neg other] at found
  · have placed := apply_placed inv live
    by_cases removed : idx.Evicted it.id p it.name x
    · simp [links, placed.dropped other removed] at found
    · exact links_of_nodes (placed.kept other removed) ▸ found

theorem apply_takes_kids (inv : RepInv idx) {it : DeltaItem} {p c : Id} (kid : idx.KidOf p c) (other : p ≠ it.id)
    (otherKid : c ≠ it.id) (present : idx.nodes[p]? ≠ none) (gone : (idx.apply it).nodes[p]? = none) :
    (idx.apply it).nodes[c]? = none := by
  rcases apply_cases idx it with same | ⟨_, removal⟩ | ⟨_, _, top⟩ | ⟨q, live⟩
  · rw [same] at gone
    exact absurd gone present
  · have pruned := remove_pruned inv.sound it.id
    rw [removal] at gone ⊢
    by_cases removed : idx.Under it.id p
    · exact pruned.dropped (removed.tail kid)
    · exact absurd ((pruned.kept removed).symm.trans gone) present
  · rw [top, lookup_insert, if_neg other] at gone
    exact absurd gone present
  · have placed := apply_placed inv live
    by_cases removed : idx.Evicted it.id q it.name p
    · exact placed.dropped otherKid (evicted_closed inv removed kid otherKid)
    · exact absurd ((placed.kept other removed).symm.trans gone) present

/-! ## Runs -/

inductive Op where
  | apply (it : DeltaItem)
  | remove (id : Id)
  | sweepOrphans
  | upsertAtPath (path : String) (itemMeta : ItemMeta)
  | removeAtPath (path : String)
  | moveAtPath (source dest : String)

def Op.run (idx : Index) : Op → Index
  | .apply it => idx.apply it
  | .remove id => idx.remove id
  | .sweepOrphans => idx.sweepOrphans
  | .upsertAtPath path itemMeta => (idx.upsertAtPath path itemMeta).1
  | .removeAtPath path => (idx.removeAtPath path).1
  | .moveAtPath source dest => (idx.moveAtPath source dest).1

/-- The root facet comes with `r` and only with `r`, and nobody moves `r`. -/
def Op.Allowed (r : Id) (idx : Index) : Op → Prop
  | .apply it => it.deleted = false → (it.isRoot = true ↔ it.id = r)
  | .moveAtPath source _ => idx.resolve source ≠ some r
  | _ => True

instance (r : Id) (idx : Index) (op : Op) : Decidable (op.Allowed r idx) :=
  match op with
  | .apply _ => inferInstanceAs (Decidable (_ → _))
  | .moveAtPath _ _ => inferInstanceAs (Decidable (_ ≠ _))
  | .remove _ | .sweepOrphans | .upsertAtPath _ _ | .removeAtPath _ => inferInstanceAs (Decidable True)

inductive Reachable (r : Id) : Index → Prop where
  | empty : Reachable r Index.empty
  | step {idx : Index} {op : Op} : Reachable r idx → op.Allowed r idx → Reachable r (op.run idx)

/-- What a run with root item `r` keeps besides the invariant. -/
structure RunInv (r : Id) (idx : Index) : Prop where
  rep : RepInv idx
  only : ∀ x, idx.root = some x → x = r
  notKid : ∀ p label, idx.links r ≠ some (some p, label)

namespace RunInv

variable {r : Id}

theorem empty (r : Id) : RunInv r Index.empty :=
  ⟨repInv_empty, by simp [Index.empty], by simp [links, Index.empty]⟩

theorem pruned (inv : RunInv r idx) {gone : Id → Prop} {out : Index} (pruned : Pruned idx gone out)
    (closed : ∀ {p c}, gone p → idx.KidOf p c → gone c) : RunInv r out where
  rep := inv.rep.pruned pruned closed
  only := fun x recorded => inv.only x (pruned.root.mp recorded).1
  notKid := by
    intro p label link
    by_cases removed : gone r
    · simp [links, pruned.dropped removed] at link
    · exact inv.notKid p label (links_of_nodes (pruned.kept removed) ▸ link)

theorem remove (inv : RunInv r idx) (id : Id) : RunInv r (idx.remove id) :=
  inv.pruned (remove_pruned inv.rep.sound id) fun below kid => below.tail kid

theorem placed (inv : RunInv r idx) {it : DeltaItem} {p : Id} (live : it.PlacedUnder p)
    (differs : it.id ≠ r) : RunInv r (idx.apply it) := by
  have placed := apply_placed inv.rep live
  refine ⟨apply_repInv inv.rep live fun recorded => differs (inv.only _ recorded), ?_, ?_⟩
  · exact fun x recorded => inv.only x (placed.root.mp recorded).1
  · intro q label link
    by_cases removed : idx.Evicted it.id p it.name r
    · simp [links, placed.dropped (Ne.symm differs) removed] at link
    · exact inv.notKid q label (links_of_nodes (placed.kept (Ne.symm differs) removed) ▸ link)

theorem apply (inv : RunInv r idx) {it : DeltaItem} (allowed : (Op.apply it).Allowed r idx) :
    RunInv r (idx.apply it) := by
  rcases apply_cases idx it with same | ⟨_, removal⟩ | ⟨live, isRoot, top⟩ | ⟨p, live⟩
  · rwa [same]
  · rw [removal]
    exact inv.remove it.id
  · have same : it.id = r := (allowed live).mp isRoot
    rw [top, same]
    refine ⟨apply_root_repInv inv.rep inv.only inv.notKid, ?_, ?_⟩
    · exact fun x recorded => (Option.some.inj recorded).symm
    · intro p label
      rw [links_insert_root, if_pos rfl]
      simp
  · have differs : it.id ≠ r := by
      intro same
      have isRoot := (allowed live.live).mpr same
      simp [live.notRoot] at isRoot
    exact inv.placed live differs

theorem modify_meta (inv : RunInv r idx) (id : Id) (itemMeta : ItemMeta) :
    RunInv r { idx with nodes := idx.nodes.modify id fun node => { node with itemMeta } } := by
  have same := links_modify_meta idx id itemMeta
  exact ⟨inv.rep.congr same (fun _ => rfl) rfl, inv.only, same ▸ inv.notKid⟩

theorem placeholder_ne_empty (path : String) : placeholderId path ≠ "" := by
  intro same
  have chars := congrArg String.toList same
  simp [placeholderId] at chars

theorem upsertAtPath (inv : RunInv r idx) (real : ∀ path, r ≠ placeholderId path) (path : String)
    (itemMeta : ItemMeta) : RunInv r (idx.upsertAtPath path itemMeta).1 := by
  unfold Index.upsertAtPath
  split
  · exact inv.modify_meta _ _
  · dsimp only
    split
    · exact inv
    · split
      · exact inv
      · rename_i parentId _
        have live : DeltaItem.PlacedUnder
            ⟨placeholderId path, some parentId, lastSegment path, false, false, itemMeta⟩ parentId :=
          ⟨placeholder_ne_empty path, rfl, rfl, rfl⟩
        exact inv.placed live (Ne.symm (real path))

theorem moveAtPath (inv : RunInv r idx) {source dest : String} (differs : idx.resolve source ≠ some r) :
    RunInv r (idx.moveAtPath source dest).1 := by
  unfold Index.moveAtPath
  split
  · exact inv
  · rename_i id resolved
    have notRoot : id ≠ r := fun same => differs (same ▸ resolved)
    split
    · exact inv
    · dsimp only
      split
      · exact inv
      · split
        · exact inv
        · exact inv.apply fun _ => by simpa using notRoot

theorem step (inv : RunInv r idx) (real : ∀ path, r ≠ placeholderId path) {op : Op}
    (allowed : op.Allowed r idx) : RunInv r (op.run idx) := by
  cases op with
  | apply it => exact inv.apply allowed
  | remove id => exact inv.remove id
  | sweepOrphans => exact inv.pruned (sweepOrphans_pruned idx) (orphan_closed inv.rep)
  | upsertAtPath path itemMeta => exact inv.upsertAtPath real path itemMeta
  | removeAtPath path =>
    simp only [Op.run, Index.removeAtPath]
    split
    · exact inv.remove _
    · exact inv
  | moveAtPath source dest => exact inv.moveAtPath allowed

theorem of_reachable (real : ∀ path, r ≠ placeholderId path) (run : Reachable r idx) : RunInv r idx := by
  induction run with
  | empty => exact .empty r
  | step _ allowed ih => exact ih.step real allowed

end RunInv

/-- Whatever happened to an index, its two maps mirror each other, names are
unique in a directory, and only the recorded root has no parent. -/
theorem reachable_mirrors (r : Id) (real : ∀ path, r ≠ placeholderId path) (idx : Index)
    (run : Reachable r idx) :
    (∀ id node p, idx.nodes[id]? = some node → node.parent = some p → (node.name, id) ∈ idx.kidsOf p) ∧
    (∀ p name id, (name, id) ∈ idx.kidsOf p →
      ∃ node, idx.nodes[id]? = some node ∧ node.parent = some p ∧ node.name = name) ∧
    (∀ p name a b, (name, a) ∈ idx.kidsOf p → (name, b) ∈ idx.kidsOf p → a = b) ∧
    (∀ id node, idx.nodes[id]? = some node → (node.parent = none ↔ idx.root = some id)) := by
  have inv := (RunInv.of_reachable real run).rep
  refine ⟨?_, ?_, ?_, ?_⟩
  · intro id node p found parent
    exact inv.filed (links_eq_some_iff.mpr ⟨node, found, parent, rfl⟩)
  · exact fun p name id member => KidsSound.present inv.sound member
  · exact fun p name a b left right => inv.siblings left right
  · intro id node found
    constructor
    · exact fun top => inv.top (links_eq_some_iff.mpr ⟨node, found, top, rfl⟩)
    · intro recorded
      obtain ⟨name, link⟩ := inv.rooted recorded
      obtain ⟨other, present, top, _⟩ := links_eq_some_iff.mp link
      cases found.symm.trans present
      exact top

/-- A file arrives before its folder and before the root, then another file takes its name. -/
def lateFolder : List Op := [
  .apply ⟨"f", some "d", "a.txt", false, false, ⟨false, 1, 0, ""⟩⟩,
  .apply ⟨"r", none, "", false, true, ⟨true, 0, 0, ""⟩⟩,
  .apply ⟨"d", some "r", "Docs", false, false, ⟨true, 0, 0, ""⟩⟩,
  .apply ⟨"g", some "d", "a.txt", false, false, ⟨false, 2, 0, ""⟩⟩]

theorem reachable_mirrors_lateFolder :
    (lateFolder.foldl Op.run empty).nodes["f"]? = none ∧
      ("a.txt", "g") ∈ (lateFolder.foldl Op.run empty).kidsOf "d" := by
  have real : ∀ path, "r" ≠ placeholderId path := by
    intro path same
    have chars := congrArg String.toList same
    simp [placeholderId] at chars
  have run : Reachable "r" (lateFolder.foldl Op.run empty) := by
    simp only [lateFolder, List.foldl_cons, List.foldl_nil]
    refine .step (.step (.step (.step .empty ?_) ?_) ?_) ?_ <;> decide
  exact ⟨by decide, (reachable_mirrors "r" real _ run).1 "g" ⟨some "d", "a.txt", ⟨false, 2, 0, ""⟩⟩ "d"
    (by decide) rfl⟩

end OneDriveDavfs.Index
