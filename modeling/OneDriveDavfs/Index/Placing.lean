import OneDriveDavfs.Index.Runs

/-! A record placed in a directory that has a path.

What is above the directory stays, and what is not below the placed node keeps
its path. If the placed node was above the directory itself, the two are cut
off together.
-/

set_option autoImplicit false

namespace OneDriveDavfs.Index

open Std Library.Collections Library.Forest

section Placing
variable {idx : Index} {it : DeltaItem} {q : Id} {front : List String}

theorem not_evicted_above (inv : RepInv idx) (up : Trail idx.links q front) {z : Id} (above : Below idx.links z q)
    {id : Id} {name : String} : ¬ idx.Evicted id q name z := by
  rintro ⟨cid, found, under⟩
  have entry := ((mem_kidsOf_detachMoved inv.sound).mp (clash_eq_some found).1).1
  have toZ : Below idx.links cid z := by
    refine Relation.ReflTransGen.mono (fun p c kid => ?_) cid z under
    obtain ⟨label, member⟩ := kid
    exact ⟨label, inv.sound ((mem_kidsOf_detachMoved inv.sound).mp member).1⟩
  exact up.not_child_below ⟨_, inv.sound entry⟩ (toZ.trans above)

theorem trail_of_apply (inv : RepInv idx) {x : Id} {segs : List String} (trail : Trail (idx.apply it).links x segs)
    (aside : ¬ Below (idx.apply it).links it.id x) : Trail idx.links x segs := by
  induction trail with
  | top link => exact .top (links_apply_other inv (fun same => aside (same ▸ .refl)) link)
  | step link _ ih =>
    have old := links_apply_other inv (fun same => aside (same ▸ .refl)) link
    exact .step old (ih fun below => aside (below.tail ⟨_, link⟩))

theorem not_below_of_apply (inv : RepInv idx) {x : Id} {segs : List String} (trail : Trail (idx.apply it).links x segs)
    (aside : ¬ Below (idx.apply it).links it.id x) : ¬ Below idx.links it.id x := by
  induction trail with
  | top link =>
    have old := links_apply_other inv (fun same => aside (same ▸ .refl)) link
    intro below
    rcases below.cases_tail with same | ⟨_, _, label, child⟩
    · exact aside (same ▸ .refl)
    · cases old.symm.trans child
  | step link _ ih =>
    have old := links_apply_other inv (fun same => aside (same ▸ .refl)) link
    intro below
    rcases below.cases_tail with same | ⟨_, above, label, child⟩
    · exact aside (same ▸ .refl)
    · cases old.symm.trans child
      exact ih (fun lower => aside (lower.tail ⟨_, link⟩)) above

theorem nodes_of_apply (inv : RepInv idx) (live : it.PlacedUnder q) {x : Id} {node : Node} (other : x ≠ it.id)
    (found : (idx.apply it).nodes[x]? = some node) : idx.nodes[x]? = some node := by
  have placed := apply_placed inv live
  by_cases removed : idx.Evicted it.id q it.name x
  · rw [placed.dropped other removed] at found
    cases found
  · exact (placed.kept other removed).symm.trans found

theorem link_own (inv : RepInv idx) (live : it.PlacedUnder q) :
    (idx.apply it).links it.id = some (some q, it.name) := by
  rw [links, (apply_placed inv live).node, Option.map_some]

section Aside
variable (inv : RepInv idx) (live : it.PlacedUnder q) (up : Trail idx.links q front)
  (aside : ¬ Below idx.links it.id q)
include inv live up aside

theorem trail_above {z : Id} {segs : List String} (trail : Trail idx.links z segs) (above : Below idx.links z q) :
    Trail (idx.apply it).links z segs := by
  have placed := apply_placed inv live
  have kept : ∀ {z link}, Below idx.links z q → idx.links z = some link → (idx.apply it).links z = some link := by
    intro z link above found
    have other : z ≠ it.id := fun same => aside (same ▸ above)
    exact (links_of_nodes (placed.kept other (not_evicted_above inv up above))).trans found
  induction trail with
  | top link => exact .top (kept above link)
  | step link _ ih => exact .step (kept above link) (ih (.head ⟨_, link⟩ above))

theorem trail_own : Trail (idx.apply it).links it.id (front ++ [it.name]) :=
  .step (link_own inv live) (trail_above inv live up aside up .refl)

theorem apply_aside_repInv : RepInv (idx.apply it) := by
  refine apply_repInv inv live fun recorded => ?_
  obtain ⟨top, upper, above⟩ := up.split [] front rfl
  obtain ⟨_, link⟩ := Trail.nil_iff.mp upper
  exact aside (Option.some.inj ((inv.top link).symm.trans recorded) ▸ above)

theorem not_evicted_below {z : Id} (below : Below idx.links it.id z) : ¬ idx.Evicted it.id q it.name z := by
  rintro ⟨cid, found, under⟩
  obtain ⟨member, differs⟩ := clash_eq_some found
  have entry := ((mem_kidsOf_detachMoved inv.sound).mp member).1
  -- on the way up from `z` the evicted child of `q` comes before the placed node
  have hangs : Below idx.links it.id cid := by
    induction under with
    | refl => exact below
    | tail _ kid ih =>
      obtain ⟨label, filed⟩ := kid
      obtain ⟨old, target⟩ := (mem_kidsOf_detachMoved inv.sound).mp filed
      rcases below.cases_tail with same | ⟨p, above, other, link⟩
      · subst same
        obtain ⟨rfl, rfl⟩ := target rfl
        exact absurd (inv.siblings old entry) (Ne.symm differs)
      · cases link.symm.trans (inv.sound old)
        exact ih above
  rcases hangs.cases_tail with same | ⟨p, above, other, link⟩
  · exact differs same
  · cases link.symm.trans (inv.sound entry)
    exact aside above

omit live aside in
theorem evicted_iff {z : Id} {segs : List String} (trail : Trail idx.links z segs) (apart : ¬ Below idx.links it.id z) :
    idx.Evicted it.id q it.name z ↔ front ++ [it.name] <+: segs := by
  constructor
  · rintro ⟨cid, found, under⟩
    have entry := ((mem_kidsOf_detachMoved inv.sound).mp (clash_eq_some found).1).1
    have below : Below idx.links cid z := by
      refine Relation.ReflTransGen.mono (fun p c kid => ?_) cid z under
      obtain ⟨label, member⟩ := kid
      exact ⟨label, inv.sound ((mem_kidsOf_detachMoved inv.sound).mp member).1⟩
    obtain ⟨rest, rfl, _⟩ := (Trail.step (inv.sound entry) up).descent below trail
    exact List.prefix_append _ _
  · rintro ⟨rest, rfl⟩
    obtain ⟨c, upper, below⟩ := trail.split (front ++ [it.name]) rest rfl
    obtain ⟨parent, link, above⟩ := Trail.concat_iff.mp upper
    cases above.injective inv.siblingsDiffer inv.singleTop up
    have differs : c ≠ it.id := fun same => apart (same ▸ below)
    have first := evicted_of_sibling inv differs (inv.filed link)
    clear trail
    induction below with
    | refl => exact first
    | tail above child ih =>
      obtain ⟨label, link⟩ := child
      refine evicted_closed inv (ih fun below => apart (below.tail ⟨label, link⟩)) ⟨label, inv.filed link⟩ ?_
      rintro rfl
      exact apart .refl

/-- Where a path leads after a record is placed: down from its node, or to what neither hangs on it nor
lies where it was put. -/
theorem trail_apply_iff {z : Id} {segs : List String} : Trail (idx.apply it).links z segs ↔
    (∃ rest, segs = front ++ [it.name] ++ rest ∧ Descent idx.links it.id z rest) ∨
      (Trail idx.links z segs ∧ ¬ Below idx.links it.id z ∧ ¬ front ++ [it.name] <+: segs) := by
  have placed := apply_placed inv live
  constructor
  · intro trail
    -- a trail after the placement either goes through the placed node or avoids it from the root on
    by_cases below : Below (idx.apply it).links it.id z
    · obtain ⟨rest, rfl, descent⟩ := (trail_own inv live up aside).descent below trail
      refine .inl ⟨rest, rfl, ?_⟩
      clear below trail
      induction descent with
      | here => exact .here
      | step _ link other ih => exact .step ih (links_apply_other inv other link) other
    · have before := trail_of_apply inv trail below
      have apart := not_below_of_apply inv trail below
      refine .inr ⟨before, apart, fun lies => ?_⟩
      have gone := placed.dropped (fun same => below (same ▸ .refl))
        ((evicted_iff inv up before apart).mpr lies)
      obtain ⟨_, link⟩ := trail.exists_link
      rw [links, gone] at link
      cases link
  · rintro (⟨rest, rfl, descent⟩ | ⟨trail, apart, elsewhere⟩)
    · -- below the placed node nothing is evicted, so every step stays
      refine (trail_own inv live up aside).descend ?_
      induction descent with
      | here => exact .here
      | step down link other ih =>
        have stays := not_evicted_below inv live up aside (down.hangs.tail ⟨_, link⟩)
        exact .step ih ((links_of_nodes (placed.kept other stays)).trans link) other
    · have kept : ∀ {x link}, ¬ Below idx.links it.id x → ¬ idx.Evicted it.id q it.name x →
          idx.links x = some link → (idx.apply it).links x = some link := by
        intro x link apart stays found
        exact (links_of_nodes (placed.kept (fun same => apart (same ▸ .refl)) stays)).trans found
      have stays := mt (evicted_iff inv up trail apart).mp elsewhere
      clear elsewhere
      induction trail with
      | top link => exact .top (kept apart stays link)
      | step link _ ih =>
        refine .step (kept apart stays link) (ih (fun below => apart (below.tail ⟨_, link⟩)) fun removed => ?_)
        exact stays (evicted_closed inv removed ⟨_, inv.filed link⟩ fun same => apart (same ▸ .refl))

end Aside

theorem no_trail_own (inv : RepInv idx) (live : it.PlacedUnder q) (above : Below idx.links it.id q) {segs : List String} :
    ¬ Trail (idx.apply it).links it.id segs := by
  intro trail
  obtain ⟨upper, rfl, up⟩ := Trail.of_child (link_own inv live) trail
  have climbs : ∀ {z}, Below idx.links it.id z → ∀ {u}, Trail (idx.apply it).links z u →
      ∃ own, Trail (idx.apply it).links it.id own ∧ own.length ≤ u.length := by
    intro z below
    induction below with
    | refl => exact fun there => ⟨_, there, Nat.le_refl _⟩
    | tail _ child ih =>
      rename_i w z _
      intro u there
      by_cases same : z = it.id
      · exact ⟨u, same ▸ there, Nat.le_refl _⟩
      · obtain ⟨label, link⟩ := child
        obtain ⟨found, present⟩ := there.exists_link
        have old := links_apply_other inv same present
        cases link.symm.trans old
        obtain ⟨rest, rfl, parent⟩ := Trail.of_child present there
        obtain ⟨own, trailOwn, shorter⟩ := ih parent
        exact ⟨own, trailOwn, by simp; omega⟩
  obtain ⟨own, there, shorter⟩ := climbs above up
  have same := congrArg List.length (trail.unique there)
  simp only [List.length_append, List.length_singleton] at same
  omega

end Placing

end OneDriveDavfs.Index
