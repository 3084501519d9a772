import OneDriveDavfs.Index.Graft

/-! The two walks up the parent links: `path_of` and the filter of `sweep_orphans`.

Both look at no more than 64 nodes. Within that bound the first undoes
`resolve` and the second separates what hangs on the recorded root from what
does not.
-/

set_option autoImplicit false

namespace OneDriveDavfs.Index

open Std Library.Collections Library.Forest

variable {idx : Index}

/-! ## Paths and ids -/

def CleanNames (idx : Index) : Prop := ∀ {id p : Id} {name : String}, idx.links id = some (some p, name) → CleanName name

/-- The parents of the id lead back to it. -/
def OnCycle (idx : Index) (id : Id) : Prop := Relation.TransGen (Child idx.links) id id

def Dangling (idx : Index) (id : Id) : Prop := ∃ p name, idx.links id = some (some p, name) ∧ idx.links p = none

theorem cleanNames_ofTree (T : DriveTree) : CleanNames (ofTree T) := by
  intro id p name link
  rw [(is_ofTree T).links] at link
  obtain ⟨node, found, parent, rfl⟩ := NodeTree.links_eq_some_iff.mp link
  exact T.clean found (by simp [parent])

theorem cleanNames_trail (clean : CleanNames idx) {id : Id} {segs : List String} (trail : Trail idx.links id segs) :
    ∀ name ∈ segs, CleanName name := by
  induction trail with
  | top _ => simp
  | step link _ ih =>
    intro name member
    rcases List.mem_append.mp member with above | own
    · exact ih name above
    · exact List.mem_singleton.mp own ▸ clean link

theorem no_trail_onCycle {id : Id} (cycle : idx.OnCycle id) {segs : List String} : ¬ Trail idx.links id segs := by
  intro trail
  obtain ⟨p, below, child⟩ := Relation.TransGen.tail'_iff.mp cycle
  obtain ⟨label, link⟩ := child
  obtain ⟨front, _, up⟩ := Trail.of_child link trail
  exact up.not_child_below ⟨label, link⟩ below

theorem no_trail_dangling {id : Id} (dangling : idx.Dangling id) {segs : List String} : ¬ Trail idx.links id segs := by
  intro trail
  obtain ⟨p, name, link, missing⟩ := dangling
  obtain ⟨_, _, up⟩ := Trail.of_child link trail
  obtain ⟨_, present⟩ := up.exists_link
  rw [missing] at present
  cases present

theorem pathOf_eq_none {top id : Id} (cutOff : ∀ segs, ¬ Trail idx.links top segs) (below : Below idx.links top id) :
    idx.pathOf id = none := by
  rw [Option.eq_none_iff_forall_ne_some]
  intro path found
  obtain ⟨segs, trail, _⟩ := pathOf_eq_some_iff.mp found
  obtain ⟨front, _, _, up⟩ := Trail.of_below below trail
  exact cutOff front up

theorem resolve_pathOf (inv : RepInv idx) (clean : CleanNames idx) {id : Id} {path : String}
    (found : idx.pathOf id = some path) : idx.resolve path = some id := by
  obtain ⟨segs, trail, _, rfl⟩ := pathOf_eq_some_iff.mp found
  rw [resolve_eq_some_iff inv, segments_joinPath (cleanNames_trail clean trail)]
  exact trail

/-- `path_of` and `resolve` are inverse to each other up to the spelling of a path, and a node on
a cycle, below one, or below a parent that is missing has no path. -/
theorem pathOf_inverse (inv : RepInv idx) (clean : CleanNames idx) :
    (∀ id path, idx.pathOf id = some path →
      normalizePath path = path ∧ (segments path).length ≤ 63 ∧ idx.resolve path = some id) ∧
    (∀ path id, idx.resolve path = some id →
      idx.pathOf id = if (segments path).length ≤ 63 then some (normalizePath path) else none) ∧
    (∀ top id, idx.OnCycle top ∨ idx.Dangling top → Below idx.links top id → idx.pathOf id = none) ∧
    ∀ id, idx.nodes[id]? = none → idx.pathOf id = none := by
  refine ⟨fun id path found => ?_, fun path id resolves => ?_, fun top id away below => ?_, fun id missing => ?_⟩
  · obtain ⟨segs, trail, bound, rfl⟩ := pathOf_eq_some_iff.mp found
    have names := cleanNames_trail clean trail
    refine ⟨normalizePath_joinPath names, ?_, resolve_pathOf inv clean found⟩
    rw [segments_joinPath names]
    exact Nat.le_of_lt_succ bound
  · have trail := (resolve_eq_some_iff inv).mp resolves
    by_cases shallow : (segments path).length ≤ 63
    · rw [if_pos shallow]
      exact pathOf_eq_some_iff.mpr ⟨_, trail, Nat.lt_succ_of_le shallow, rfl⟩
    · rw [if_neg shallow, Option.eq_none_iff_forall_ne_some]
      intro other found
      -- a path that `path_of` found is the trail itself, so it is not too long
      obtain ⟨segs, own, bound, _⟩ := pathOf_eq_some_iff.mp found
      rw [own.unique trail] at bound
      exact shallow (Nat.le_of_lt_succ bound)
  · refine pathOf_eq_none (fun segs => ?_) below
    exact away.elim (fun cycle => no_trail_onCycle cycle) fun dangling => no_trail_dangling dangling
  · refine pathOf_eq_none (fun segs trail => ?_) .refl
    obtain ⟨_, present⟩ := trail.exists_link
    rw [links, missing] at present
    cases present

/-- The file in the folder, spelled with more slashes. -/
theorem pathOf_inverse_file : (ofTree foldersAB).pathOf "f" = some "/B/f.txt" := by
  have there : (ofTree foldersAB).resolve "B//f.txt/" = some "f" := by decide
  exact (pathOf_inverse (is_ofTree foldersAB).rep (cleanNames_ofTree foldersAB)).2.1 "B//f.txt/" "f" there

/-! ## What the sweep keeps -/

/-- The sweep keeps what hangs on the root, as it is and with its entries, drops everything else,
and has nothing more to do afterwards. -/
structure SweepsExactly (idx : Index) (root : Id) : Prop where
  kept : ∀ {id}, Below idx.links root id → idx.sweepOrphans.nodes[id]? = idx.nodes[id]?
  dropped : ∀ {id}, ¬ Below idx.links root id → idx.sweepOrphans.nodes[id]? = none
  kids : ∀ {p name c}, (name, c) ∈ idx.sweepOrphans.kidsOf p ↔
    (name, c) ∈ idx.kidsOf p ∧ Below idx.links root p ∧ Below idx.links root c
  keys : ∀ {p}, idx.sweepOrphans.kids[p]?.isSome = true ↔ idx.kids[p]?.isSome = true ∧ Below idx.links root p
  again : idx.sweepOrphans.sweepOrphans = idx.sweepOrphans

theorem below_root_iff (inv : RepInv idx) {root : Id} (recorded : idx.root = some root) (id : Id) :
    Below idx.links root id ↔ ∃ segs, Trail idx.links id segs := by
  obtain ⟨name, top⟩ := inv.rooted recorded
  constructor
  · intro below
    induction below with
    | refl => exact ⟨[], .top top⟩
    | tail _ child ih =>
      obtain ⟨segs, trail⟩ := ih
      obtain ⟨label, link⟩ := child
      exact ⟨segs ++ [label], .step link trail⟩
  · rintro ⟨segs, trail⟩
    obtain ⟨other, up, below⟩ := trail.split [] segs rfl
    rwa [Trail.injective inv.siblingsDiffer inv.singleTop up (.top top)] at below

theorem reachable_sweepOrphans (inv : RepInv idx) {root : Id} (recorded : idx.root = some root) (id : Id) :
    idx.sweepOrphans.reachable root id = idx.reachable root id := by
  have pruned := sweepOrphans_pruned idx
  have recordedOut : idx.sweepOrphans.root = some root := by rw [sweepOrphans_of_root recorded, recorded]
  rw [Bool.eq_iff_iff, reachable_iff (sweepOrphans_repInv inv) recordedOut]
  simp only [pruned.trail_iff inv (orphan_closed inv), not_orphan_iff recorded]
  constructor
  · rintro ⟨_, ⟨_, seen⟩, _⟩
    exact seen
  · intro seen
    obtain ⟨segs, trail, bound⟩ := (reachable_iff inv recorded id).mp seen
    exact ⟨segs, ⟨trail, seen⟩, bound⟩

theorem sweepOrphans_again (inv : RepInv idx) {root : Id} (recorded : idx.root = some root) :
    idx.sweepOrphans.sweepOrphans = idx.sweepOrphans := by
  have recordedOut : idx.sweepOrphans.root = some root := by rw [sweepOrphans_of_root recorded, recorded]
  have nodes : (idx.sweepOrphans.nodes.filter fun id _ => idx.reachable root id) = idx.sweepOrphans.nodes := by
    apply ExtTreeMap.ext_getElem?
    intro id
    rw [ExtTreeMap.getElem?_filter']
    by_cases seen : idx.reachable root id = true
    · cases idx.sweepOrphans.nodes[id]? <;> simp [Option.filter, seen]
    · rw [(sweepOrphans_pruned idx).dropped ((orphan_iff recorded id).mpr (Bool.eq_false_iff.mpr seen))]
      rfl
  -- a set keeps all its links, as what it links was reachable the first time
  have kids : (idx.sweepOrphans.kids.filterMap fun pid set =>
      if idx.reachable root pid then some (set.filter fun kid => idx.reachable root kid.2) else none) =
        idx.sweepOrphans.kids := by
    rw [sweepOrphans_of_root recorded]
    apply ExtTreeMap.ext_getElem?
    intro p
    simp only [ExtTreeMap.getElem?_filterMap']
    by_cases seen : idx.reachable root p = true
    · simp only [seen, if_true]
      cases idx.kids[p]? with
      | none => rfl
      | some set =>
        simp only [Option.bind_some, Option.some.injEq]
        apply ExtTreeSet.ext_mem
        simp
    · simp [seen]
  have unfolded := sweepOrphans_of_root recordedOut
  simp only [reachable_sweepOrphans inv recorded, nodes, kids] at unfolded
  exact unfolded

/-- A sweep drops exactly the orphans when no node hangs more than 63 levels below the root, and
otherwise it drops more. -/
theorem sweepOrphans_exact_iff (inv : RepInv idx) {root : Id} (recorded : idx.root = some root) :
    SweepsExactly idx root ↔ ∀ id segs, Trail idx.links id segs → segs.length ≤ 63 := by
  have pruned := sweepOrphans_pruned idx
  constructor
  · intro exact id segs trail
    by_contra deep
    -- a trail that is too long is not followed to its end
    have away : idx.Orphan id := by
      rw [orphan_iff recorded, Bool.eq_false_iff, ne_eq, reachable_iff inv recorded]
      rintro ⟨other, same, bound⟩
      rw [same.unique trail] at bound
      omega
    have stays := exact.kept ((below_root_iff inv recorded id).mpr ⟨segs, trail⟩)
    rw [pruned.dropped away] at stays
    obtain ⟨_, link⟩ := trail.exists_link
    rw [links, ← stays] at link
    cases link
  · intro shallow
    have seen : ∀ id, ¬ idx.Orphan id ↔ Below idx.links root id := by
      intro id
      rw [not_orphan_iff recorded, reachable_iff inv recorded, below_root_iff inv recorded]
      exact exists_congr fun segs => and_iff_left_of_imp fun trail => Nat.lt_succ_of_le (shallow id segs trail)
    refine ⟨fun below => pruned.kept ((seen _).mpr below), fun away => pruned.dropped ?_, ?_, ?_,
      sweepOrphans_again inv recorded⟩
    · exact not_not.mp fun stays => away ((seen _).mp stays)
    · intro p name c
      rw [pruned.kids, seen, seen]
    · intro p
      rw [pruned.keys, seen]

/-- Two folders that are each other's parents are swept with the file in one of them. -/
theorem sweepOrphans_exact_iff_cyclic :
    cyclic.sweepOrphans.nodes["f"]? = none ∧ cyclic.sweepOrphans.nodes["a"]? = cyclic.nodes["a"]? := by
  have recorded : cyclic.root = some "r" := by decide
  have toY : Child cyclic.links "x" "y" := ⟨"Y", by decide⟩
  have toX : Child cyclic.links "y" "x" := ⟨"X", by decide⟩
  have toF : Child cyclic.links "y" "f" := ⟨"F", by decide⟩
  have cycle : ∀ {segs}, ¬ Trail cyclic.links "x" segs := no_trail_onCycle ((Relation.TransGen.single toY).tail toX)
  have cutOff : ∀ {id segs}, Below cyclic.links "x" id → ¬ Trail cyclic.links id segs := by
    intro id segs below trail
    obtain ⟨_, _, _, up⟩ := Trail.of_below below trail
    exact cycle up
  have top : Trail cyclic.links "r" [] := Trail.nil_iff.mpr ⟨"", by decide⟩
  have own : Trail cyclic.links "a" ["A"] := @Trail.step _ _ _ _ _ _ [] (by decide) top
  have stored : ∀ id ∈ cyclic.nodes.keys, id = "r" ∨ id = "a" ∨ id = "x" ∨ id = "y" ∨ id = "f" := by decide
  have shallow : ∀ id segs, Trail cyclic.links id segs → segs.length ≤ 63 := by
    intro id segs trail
    obtain ⟨_, link⟩ := trail.exists_link
    obtain ⟨_, found, _⟩ := Option.map_eq_some_iff.mp link
    have key := ExtTreeMap.mem_keys.mpr (ExtTreeMap.mem_iff_isSome_getElem?.mpr (Option.isSome_of_eq_some found))
    rcases stored id key with rfl | rfl | rfl | rfl | rfl
    · simp [trail.unique top]
    · simp [trail.unique own]
    · exact absurd trail cycle
    · exact absurd trail (cutOff (.single toY))
    · exact absurd trail (cutOff (.tail (.single toY) toF))
  have exact := (sweepOrphans_exact_iff repInv_cyclic recorded).mpr shallow
  have below := below_root_iff repInv_cyclic recorded
  refine ⟨exact.dropped fun hangs => ?_, exact.kept ((below "a").mpr ⟨_, own⟩)⟩
  obtain ⟨segs, trail⟩ := (below "f").mp hangs
  exact cutOff (.tail (.single toY) toF) trail

def nested : Index :=
  (List.range 64).foldl
    (fun idx n => idx.apply ⟨level (n + 1), some (level n), "d", false, false, ⟨true, 0, 0, ""⟩⟩)
    (empty.apply ⟨level 0, none, "", false, true, ⟨true, 0, 0, ""⟩⟩)
where
  level (n : Nat) : Id := String.ofList [Char.ofNat (97 + n)]

theorem reachable_nested : Reachable (nested.level 0) nested := by
  have root : Reachable (nested.level 0)
      (empty.apply ⟨nested.level 0, none, "", false, true, ⟨true, 0, 0, ""⟩⟩) :=
    Reachable.empty.step (show (Op.apply _).Allowed _ _ by decide)
  have more : ∀ (ns : List Nat) (idx : Index), (∀ n ∈ ns, nested.level (n + 1) ≠ nested.level 0) →
      Reachable (nested.level 0) idx → Reachable (nested.level 0) (ns.foldl
        (fun idx n => idx.apply ⟨nested.level (n + 1), some (nested.level n), "d", false, false, ⟨true, 0, 0, ""⟩⟩)
        idx) := by
    intro ns
    induction ns with
    | nil => exact fun _ _ run => run
    | cons n rest ih =>
      intro idx differ run
      have allowed : (Op.apply ⟨nested.level (n + 1), some (nested.level n), "d", false, false, ⟨true, 0, 0, ""⟩⟩).Allowed
          (nested.level 0) idx := fun _ => by simpa using differ n List.mem_cons_self
      exact ih _ (fun m member => differ m (List.mem_cons_of_mem _ member)) (run.step allowed)
  exact more _ _ (by decide) root

theorem repInv_nested : RepInv nested := by
  refine (RunInv.of_reachable (fun path same => ?_) reachable_nested).rep
  have chars := congrArg (fun id => id.toList.length) same
  simp [placeholderId, nested.level] at chars

/-- The innermost folder hangs on the root and is lost in a sweep. -/
theorem sweep_drops_nested :
    RepInv nested ∧ nested.root = some (nested.level 0) ∧ ¬ SweepsExactly nested (nested.level 0) := by
  have recorded : nested.root = some (nested.level 0) := by decide +kernel
  have climbs : climb nested.links 65 (nested.level 64) = some (List.replicate 64 "d") := by decide +kernel
  obtain ⟨trail, _⟩ := (climb_eq_some_iff _ _ _).mp climbs
  refine ⟨repInv_nested, recorded, fun exact => ?_⟩
  have stays := exact.kept ((below_root_iff repInv_nested recorded _).mpr ⟨_, trail⟩)
  have swept : nested.sweepOrphans.nodes[nested.level 64]? = none :=
    (sweepOrphans_pruned nested).dropped ((orphan_iff recorded _).mpr (by decide +kernel))
  obtain ⟨_, link⟩ := trail.exists_link
  rw [links, ← stays, swept] at link
  cases link

end OneDriveDavfs.Index
