import OneDriveDavfs.Snapshot.RoundTrip

/-! A part of a drive in a file.

An index that holds a part of a drive comes back from its file with those
nodes of the part that have everything above them in it too. A sweep keeps
those, except the deepest.
-/

set_option autoImplicit false

namespace OneDriveDavfs

open Library.Forest Snapshot

section Restore
variable {idx out : Index}

theorem eraseTop_eraseTop (node : Node) : node.eraseTop.eraseTop = node.eraseTop := by
  cases node with
  | mk parent name itemMeta => cases parent <;> rfl

theorem Snapshot.Restored.stored (restored : Restored idx out) {x : Id} {node : Node}
    (found : out.nodes[x]? = some node) : Kept idx x ∧ ∃ saved, idx.nodes[x]? = some saved ∧ node = saved.eraseTop := by
  have kept : Kept idx x := by
    by_contra away
    rw [restored.dropped away] at found
    cases found
  rw [restored.nodes kept] at found
  obtain ⟨saved, present, same⟩ := Option.map_eq_some_iff.mp found
  exact ⟨kept, saved, present, same.symm⟩

theorem Snapshot.Restored.link_inner (restored : Restored idx out) {x p : Id} {name : String} :
    out.links x = some (some p, name) ↔ Kept idx x ∧ idx.links x = some (some p, name) := by
  constructor
  · intro link
    obtain ⟨node, found, parent, rfl⟩ := Index.links_eq_some_iff.mp link
    obtain ⟨kept, saved, present, rfl⟩ := restored.stored found
    rw [eraseTop_parent] at parent
    have same : saved.eraseTop = saved := (eraseTop_eq_iff parent).mpr rfl
    exact ⟨kept, Index.links_eq_some_iff.mpr ⟨saved, present, parent, by rw [same]⟩⟩
  · rintro ⟨kept, link⟩
    obtain ⟨saved, present, parent, rfl⟩ := Index.links_eq_some_iff.mp link
    have same : saved.eraseTop = saved := (eraseTop_eq_iff parent).mpr rfl
    refine Index.links_eq_some_iff.mpr ⟨saved, ?_, parent, rfl⟩
    rw [restored.nodes kept, present, Option.map_some, same]

theorem Snapshot.Restored.link_outer (restored : Restored idx out) {x : Id} :
    (∃ name, out.links x = some (none, name)) ↔ ∃ name, idx.links x = some (none, name) := by
  constructor
  · rintro ⟨name, link⟩
    obtain ⟨node, found, parent, _⟩ := Index.links_eq_some_iff.mp link
    obtain ⟨_, saved, present, rfl⟩ := restored.stored found
    rw [eraseTop_parent] at parent
    exact ⟨saved.name, Index.links_eq_some_iff.mpr ⟨saved, present, parent, rfl⟩⟩
  · rintro ⟨name, link⟩
    have kept : Kept idx x := ⟨[], .top link, by simp⟩
    obtain ⟨saved, present, parent, _⟩ := Index.links_eq_some_iff.mp link
    refine ⟨saved.eraseTop.name, Index.links_eq_some_iff.mpr ⟨saved.eraseTop, ?_, ?_, rfl⟩⟩
    · rw [restored.nodes kept, present, Option.map_some]
    · rw [eraseTop_parent, parent]

theorem Snapshot.Restored.repInv (restored : Restored idx out) (inv : idx.RepInv) : out.RepInv where
  filed := by
    intro id p name link
    obtain ⟨⟨segs, trail, bound⟩, own⟩ := restored.link_inner.mp link
    obtain ⟨front, rfl, upper⟩ := Trail.of_child own trail
    rw [List.length_append, List.length_singleton] at bound
    exact restored.kids.mpr ⟨inv.filed own, front, upper, by omega⟩
  sound := by
    intro p name c member
    obtain ⟨entry, segs, trail, bound⟩ := restored.kids.mp member
    have link := inv.sound entry
    exact restored.link_inner.mpr ⟨⟨_, .step link trail, by simpa using bound⟩, link⟩
  siblings := fun left right => inv.siblings (restored.kids.mp left).1 (restored.kids.mp right).1
  top := by
    intro id name link
    obtain ⟨_, own⟩ := restored.link_outer.mp ⟨name, link⟩
    rw [restored.root]
    exact inv.top own
  rooted := by
    intro r recorded
    exact restored.link_outer.mpr (inv.rooted (restored.root ▸ recorded))

end Restore

namespace Holds

variable {idx out : Index} {T : DriveTree} {part : Id → Prop}

/-- What comes back of a part of a tree is the part of it that has a path. -/
theorem restored (holds : Holds idx T part) (restored : Restored idx out) : Holds out T (Kept idx) where
  rep := restored.repInv holds.rep
  inside := by
    intro id kept
    have ⟨segs, trail, _⟩ := kept
    obtain ⟨_, link⟩ := trail.exists_link
    obtain ⟨node, found, _⟩ := Option.map_eq_some_iff.mp link
    rw [restored.nodes kept, ← holds.inside (holds.stored found).1, found]
    simp only [Option.map_some, eraseTop_eraseTop]
  outside := restored.dropped

theorem moved (holds : Holds idx T part) (nodes : out.nodes = idx.nodes) (kids : out.kids = idx.kids)
    (root : out.root = idx.root) : Holds out T part where
  rep := by
    refine holds.rep.congr ?_ ?_ root
    · funext x
      exact Index.links_of_nodes (by rw [nodes])
    · intro p
      rw [Index.kidsOf, kids]
      rfl
  inside := by
    intro id selected
    rw [nodes]
    exact holds.inside selected
  outside := by
    intro id absent
    rw [nodes]
    exact holds.outside absent

theorem trail_iff (holds : Holds idx T part) {x : Id} {segs : List String} :
    Trail idx.links x segs ↔ Trail T.links x segs ∧ ∀ y, Below T.links y x → part y := by
  refine ⟨fun trail => ⟨holds.trail_up trail, ?_⟩, fun ⟨trail, above⟩ => holds.trail_down trail above⟩
  induction trail with
  | top link =>
    obtain ⟨selected, rfl⟩ := holds.link_outer.mp ⟨_, link⟩
    intro y below
    rcases below.cases_tail with rfl | ⟨p, _, _, child⟩
    · exact selected
    · rw [T.root_link] at child
      cases child
  | step link _ ih =>
    obtain ⟨selected, inTree⟩ := holds.link_inner.mp link
    intro y below
    rcases below.cases_tail with rfl | ⟨p, upper, _, child⟩
    · exact selected
    · cases inTree.symm.trans child
      exact ih y upper

theorem unique {other : Id → Prop} (left : Holds idx T part) (right : Holds idx T other) {x : Id} {node : Node}
    (found : T.nodes[x]? = some node) (selected : part x) : other x := by
  by_contra away
  have same := left.inside selected
  rw [right.outside away, found] at same
  cases same

theorem swept (holds : Holds idx T part) (root : part T.root) :
    Holds idx.sweepOrphans T fun x => ∃ segs, Trail idx.links x segs ∧ segs.length < 64 := by
  have recorded : idx.root = some T.root := holds.root_iff.mpr ⟨root, rfl⟩
  have pruned := HoldsAs.pruned holds (Index.sweepOrphans_pruned idx) (Index.orphan_closed holds.rep)
  refine pruned.congr fun x => ?_
  rw [Index.not_orphan_iff recorded, Index.reachable_iff holds.rep recorded, and_iff_right_iff_imp]
  rintro ⟨segs, trail, _⟩
  exact (holds.trail_iff.mp trail).2 x .refl

end Holds

end OneDriveDavfs
