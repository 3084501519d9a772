import OneDriveDavfs.Dav.WriteThrough
import OneDriveDavfs.Index.Entries
import OneDriveDavfs.Index.Frame

/-! What a MOVE does to the index.

Graph has moved the item. The index takes over the record of the answer and
looks whether the destination resolves; only if it does not, it moves by path
what it has at the source itself.
-/

set_option autoImplicit false

namespace OneDriveDavfs

open Library.Collections Library.Forest

namespace Dav

/-- Delta items and local writes, from the empty index on. -/
inductive Reached : Index → Prop where
  | empty : Reached Index.empty
  | delta {idx : Index} (it : DeltaItem) : Reached idx → Reached (idx.apply it)
  | write {idx : Index} (write : LocalWrite) : Reached idx → Reached (write.run idx).1

theorem Reached.named {idx : Index} (reached : Reached idx) : idx.nodes[""]? = none := by
  -- what a write or an answer adds has a nonempty id or is refused
  have upserted : ∀ {idx : Index} (item path itemMeta), idx.nodes[""]? = none →
      (applyOrUpsert idx item path itemMeta).1.nodes[""]? = none := by
    intro idx item path itemMeta absent
    unfold applyOrUpsert
    split
    · exact Index.absent_upsertAtPath rfl absent path itemMeta
    · rename_i it
      have applied := @Index.absent_apply idx it "" (.inl rfl) absent
      dsimp only
      split
      · exact applied
      · exact Index.absent_upsertAtPath rfl applied path itemMeta
  induction reached with
  | empty => simp [Index.empty]
  | delta it _ ih => exact Index.absent_apply (.inl rfl) ih
  | write write _ ih =>
    cases write with
    | put path size item => exact upserted item path (putMeta size) ih
    | mkcol path item => exact upserted item path mkcolMeta ih
    | delete path =>
      simp only [LocalWrite.run, Index.removeAtPath]
      split
      · exact Index.absent_removeWithin _ ih
      · exact ih
    | move path destination item =>
      simp only [LocalWrite.run, moveThrough]
      split
      · exact Index.absent_moveAtPath rfl ih path destination
      · rename_i it
        have applied := @Index.absent_apply _ it "" (.inl rfl) ih
        split
        · exact applied
        · exact Index.absent_moveAtPath rfl applied path destination

/-- An item that Graph answers a move with: it has the new name, and if it says where it is, it is in
the new parent. -/
structure MoveAnswer (idx : Index) (destination : String) (q : Id) (it : DeltaItem) : Prop where
  id : it.id ≠ ""
  live : it.deleted = false
  notRoot : it.isRoot = false
  other : idx.root ≠ some it.id
  name : it.name = lastSegment destination
  parent : it.parentId = none ∨ it.parentId = some q

/-- `x` has left `source` and stands at `destination`, under its id or that of the answer, with
everything that was below it. Only what came along can have the path `source` now. -/
structure MovesTo (idx : Index) (source destination : String) (x : Id) (item : Option DeltaItem)
    (out : Index × Bool) : Prop where
  success : out.2 = true
  left : ∀ w, out.1.resolve source = some w → ∃ rest, segments source = segments destination ++ rest ∧
    idx.resolve (joinPath (segments source ++ rest)) = some w
  arrives : ∃ z node, out.1.resolve destination = some z ∧ (z = x ∨ ∃ it ∈ item, z = it.id) ∧
    out.1.nodes[z]? = some node ∧ ∀ old, idx.nodes[x]? = some old →
      node.itemMeta.isDir = item.elim old.itemMeta.isDir (·.itemMeta.isDir)
  subtree : ∀ path after rest, rest ≠ [] → segments path = segments source ++ rest →
    segments after = segments destination ++ rest → ∀ y, idx.resolve path = some y → out.1.resolve after = some y

/-- The node of the answer is another one than `x` and still nothing is left at `source`: `x` has
nothing below it, it is taken away with the old tree at `destination` or comes along below the other
node, and the other node brings nothing to the path `source`. -/
structure Supersedes (idx : Index) (source destination : String) (x q : Id) (it : DeltaItem) : Prop where
  aside : ¬ Below idx.links it.id q
  childless : ∀ path rest, segments path = segments source ++ rest → idx.resolve path ≠ none → rest = []
  gone : segments destination <+: segments source ∨ Below idx.links it.id x
  clear : ∀ rest w, segments source = segments destination ++ rest → ¬ Descent idx.links it.id w rest

/-- What the answer must be like for the move to be carried out in the index. -/
def Carried (idx : Index) (source destination : String) (x q : Id) (item : Option DeltaItem) : Prop :=
  ∀ it ∈ item, match it.parentId with
    | none => idx.resolve destination = none ∧ ∀ old, idx.nodes[x]? = some old → it.itemMeta.isDir = old.itemMeta.isDir
    | some _ => it.id = x ∨ Supersedes idx source destination x q it

section Moving
variable {idx : Index} {source destination : String} {x q : Id} {item : Option DeltaItem}

theorem cleanName_of_append {path : String} {front rest : List String} (whole : segments path = front ++ rest) :
    (∀ name ∈ front, CleanName name) ∧ ∀ name ∈ rest, CleanName name :=
  ⟨fun _ member => cleanName_of_mem_segments (whole ▸ List.mem_append_left _ member),
    fun _ member => cleanName_of_mem_segments (whole ▸ List.mem_append_right _ member)⟩

theorem segments_joined {path other : String} {front rest : List String} (first : segments path = front)
    (second : ∃ start, segments other = start ++ rest) : segments (joinPath (front ++ rest)) = front ++ rest := by
  obtain ⟨start, whole⟩ := second
  refine segments_joinPath fun name member => ?_
  rcases List.mem_append.mp member with inFront | inRest
  · exact cleanName_of_mem_segments (first ▸ inFront)
  · exact (cleanName_of_append whole).2 name inRest

/-! ## The node itself is placed -/

structure Places (idx : Index) (destination : String) (x q : Id) (it : DeltaItem) : Prop where
  live : it.PlacedUnder q
  id : it.id = x
  name : it.name = lastSegment destination

theorem movesTo_placed (rep : idx.RepInv) (there : idx.resolve source = some x) (notRoot : segments destination ≠ [])
    (parent : idx.resolve (parentPath destination) = some q) (apart : ¬ Below idx.links x q) {it : DeltaItem}
    (places : Places idx destination x q it)
    (kind : ∀ old, idx.nodes[x]? = some old → it.itemMeta.isDir = item.elim old.itemMeta.isDir (·.itemMeta.isDir)) :
    MovesTo idx source destination x item (idx.apply it, true) := by
  obtain ⟨live, rfl, name⟩ := places
  obtain ⟨split, _⟩ := Index.segments_eq_concat notRoot
  have own := (Index.resolve_eq_some_iff rep).mp there
  have up := (Index.resolve_eq_some_iff rep).mp parent
  have repOut := Index.apply_aside_repInv rep live up apart
  have leads := @Index.trail_apply_iff _ _ _ _ rep live up apart
  rw [name, ← split] at leads
  -- below the destination hangs what hung below the source, and the source itself is gone
  refine ⟨rfl, fun w resolves => ?_, ?_, fun path after rest _ below above y resolves => ?_⟩
  · rcases leads.mp ((Index.resolve_eq_some_iff repOut).mp resolves) with ⟨rest, same, descent⟩ | ⟨trail, away, _⟩
    · refine ⟨rest, same, (Index.resolve_eq_some_iff rep).mpr ?_⟩
      rw [segments_joined rfl ⟨_, same⟩]
      exact own.descend descent
    · cases trail.injective rep.siblingsDiffer rep.singleTop own
      exact absurd .refl away
  · exact ⟨it.id, _, (Index.resolve_eq_some_iff repOut).mpr (leads.mpr (.inl ⟨[], by simp, .here⟩)), .inl rfl,
      (Index.apply_placed rep live).node, kind⟩
  · have trail := (Index.resolve_eq_some_iff rep).mp resolves
    rw [below] at trail
    obtain ⟨z, upper, hangs⟩ := trail.split _ rest rfl
    cases upper.injective rep.siblingsDiffer rep.singleTop own
    obtain ⟨_, same, descent⟩ := own.descent hangs trail
    cases List.append_cancel_left same
    exact (Index.resolve_eq_some_iff repOut).mpr (leads.mpr (.inl ⟨rest, above, descent⟩))

theorem moveAtPath_eq (rep : idx.RepInv) (there : idx.resolve source = some x) (notRoot : segments destination ≠ [])
    (parent : idx.resolve (parentPath destination) = some q) : ∃ old, idx.nodes[x]? = some old ∧
      idx.moveAtPath source destination =
        (idx.apply ⟨x, some q, lastSegment destination, false, false, old.itemMeta⟩, true) := by
  obtain ⟨_, link⟩ := ((Index.resolve_eq_some_iff rep).mp there).exists_link
  obtain ⟨old, found, _⟩ := Option.map_eq_some_iff.mp link
  refine ⟨old, found, ?_⟩
  simp only [Index.moveAtPath, there, found, (Index.segments_eq_concat notRoot).2, if_false, parent]

theorem placedUnder_own (named : idx.nodes[""]? = none) {old : Node} (found : idx.nodes[x]? = some old) :
    DeltaItem.PlacedUnder ⟨x, some q, lastSegment destination, false, false, old.itemMeta⟩ q := by
  refine ⟨?_, rfl, rfl, rfl⟩
  rintro rfl
  cases named.symm.trans found

theorem moveAtPath_lands (rep : idx.RepInv) (named : idx.nodes[""]? = none) (there : idx.resolve source = some x)
    (notRoot : segments destination ≠ []) (parent : idx.resolve (parentPath destination) = some q)
    (apart : ¬ Below idx.links x q) : ∃ old, idx.nodes[x]? = some old ∧
      (idx.moveAtPath source destination).1.resolve destination = some x ∧
      (idx.moveAtPath source destination).1.nodes[x]? = some ⟨some q, lastSegment destination, old.itemMeta⟩ := by
  obtain ⟨old, found, moved⟩ := moveAtPath_eq rep there notRoot parent
  have live := @placedUnder_own _ destination _ q named _ found
  have up := (Index.resolve_eq_some_iff rep).mp parent
  have trail := Index.trail_own rep live up apart
  rw [← (Index.segments_eq_concat notRoot).1] at trail
  rw [moved]
  exact ⟨old, found, (Index.resolve_eq_some_iff (Index.apply_aside_repInv rep live up apart)).mpr trail,
    (Index.apply_placed rep live).node⟩

theorem movesTo_moveAtPath (rep : idx.RepInv) (named : idx.nodes[""]? = none) (there : idx.resolve source = some x)
    (notRoot : segments destination ≠ []) (parent : idx.resolve (parentPath destination) = some q)
    (apart : ¬ Below idx.links x q)
    (kind : ∀ it ∈ item, ∀ old, idx.nodes[x]? = some old → it.itemMeta.isDir = old.itemMeta.isDir) :
    MovesTo idx source destination x item (idx.moveAtPath source destination) := by
  obtain ⟨old, found, moved⟩ := moveAtPath_eq rep there notRoot parent
  rw [moved]
  refine movesTo_placed rep there notRoot parent apart ⟨placedUnder_own named found, rfl, rfl⟩ fun other same => ?_
  cases found.symm.trans same
  cases item with
  | none => rfl
  | some it => exact (kind it rfl old found).symm

/-! ## Another node is placed -/

theorem not_movesTo_of_stays (rep : idx.RepInv) (there : idx.resolve source = some x)
    (differ : segments source ≠ segments destination) {out : Index × Bool} (stays : out.1.resolve source = some x) :
    ¬ MovesTo idx source destination x item out := by
  intro moves
  obtain ⟨rest, same, back⟩ := moves.left x stays
  have own := (Index.resolve_eq_some_iff rep).mp there
  have again := (Index.resolve_eq_some_iff rep).mp back
  rw [segments_joined rfl ⟨_, same⟩] at again
  have nothing : rest = [] := by simpa using again.unique own
  rw [nothing, List.append_nil] at same
  exact differ same

/-- A node that is placed below itself takes the destination along into a cycle. -/
theorem not_movesTo_cut_off (rep : idx.RepInv) (destNotRoot : segments destination ≠ [])
    (parent : idx.resolve (parentPath destination) = some q) {it : DeltaItem} (live : it.PlacedUnder q)
    (notRoot : idx.root ≠ some it.id) (above : Below idx.links it.id q) :
    ¬ MovesTo idx source destination x (some it) (moveThrough idx (some it) source destination) := by
  have up := (Index.resolve_eq_some_iff rep).mp parent
  have repOut := Index.apply_repInv rep live notRoot
  -- a trail to the parent would avoid the placed node, but the parent hangs on it
  have noTrail : ∀ {z}, ¬ Trail (idx.apply it).links z (segments (parentPath destination)) := by
    intro z trail
    have aside : ¬ Below (idx.apply it).links it.id z := by
      intro below
      obtain ⟨_, _, _, own⟩ := Trail.of_below below trail
      exact Index.no_trail_own rep live above own
    cases (Index.trail_of_apply rep trail aside).injective rep.siblingsDiffer rep.singleTop up
    exact Index.not_below_of_apply rep trail aside above
  have parentless : (idx.apply it).resolve (parentPath destination) = none := by
    rw [Option.eq_none_iff_forall_ne_some]
    exact fun z resolves => noTrail ((Index.resolve_eq_some_iff repOut).mp resolves)
  have nowhere : (idx.apply it).resolve destination = none := by
    rw [Option.eq_none_iff_forall_ne_some]
    intro z resolves
    have trail := (Index.resolve_eq_some_iff repOut).mp resolves
    rw [(Index.segments_eq_concat destNotRoot).1] at trail
    obtain ⟨_, _, upper⟩ := Trail.concat_iff.mp trail
    exact noTrail upper
  intro moves
  have success := moves.success
  simp only [moveThrough, nowhere, Option.isSome_none, Bool.false_eq_true, if_false, Index.moveAtPath, parentless] at success
  split at success
  · cases success
  · split at success
    · cases success
    · split at success <;> cases success

theorem movesTo_other_iff (rep : idx.RepInv) (there : idx.resolve source = some x)
    (differ : segments source ≠ segments destination) (destNotRoot : segments destination ≠ [])
    (parent : idx.resolve (parentPath destination) = some q) {it : DeltaItem} (live : it.PlacedUnder q)
    (name : it.name = lastSegment destination) (other : it.id ≠ x) (aside : ¬ Below idx.links it.id q) :
    MovesTo idx source destination x (some it) (idx.apply it, true) ↔ Supersedes idx source destination x q it := by
  obtain ⟨split, _⟩ := Index.segments_eq_concat destNotRoot
  have own := (Index.resolve_eq_some_iff rep).mp there
  have up := (Index.resolve_eq_some_iff rep).mp parent
  have repOut := Index.apply_aside_repInv rep live up aside
  have leads := @Index.trail_apply_iff _ _ _ _ rep live up aside
  rw [name, ← split] at leads
  -- no way down from the new node is the way down from `x`
  have apart : ∀ {w rest}, Descent idx.links it.id w rest → ¬ Trail idx.links w (segments source ++ rest) := by
    intro w rest descent trail
    obtain ⟨front, back, whole, upper⟩ := Trail.of_below descent.hangs trail
    have same := (upper.descend descent).unique trail
    rw [List.append_cancel_right same] at upper
    exact other (upper.injective rep.siblingsDiffer rep.singleTop own)
  constructor
  · intro moves
    refine ⟨aside, fun path rest below resolves => ?_, ?_, fun rest w same descent => ?_⟩
    · by_contra more
      obtain ⟨y, resolves⟩ := Option.ne_none_iff_exists'.mp resolves
      have after := segments_joined (Eq.refl (segments destination)) ⟨_, below⟩
      have stands := moves.subtree path _ rest more below after y resolves
      have trail := (Index.resolve_eq_some_iff rep).mp resolves
      rw [below] at trail
      rcases leads.mp ((Index.resolve_eq_some_iff repOut).mp stands) with ⟨_, same, descent⟩ | ⟨_, _, away⟩
      · rw [after] at same
        cases List.append_cancel_left same
        exact apart descent trail
      · rw [after] at away
        exact away (List.prefix_append _ _)
    · by_contra stays
      obtain ⟨away, hangs⟩ := not_or.mp stays
      have still := (Index.resolve_eq_some_iff repOut).mpr (leads.mpr (.inr ⟨own, hangs, away⟩))
      exact not_movesTo_of_stays rep there differ still moves
    · have stands := (Index.resolve_eq_some_iff repOut).mpr (leads.mpr (.inl ⟨rest, same, descent⟩))
      obtain ⟨back, again, resolves⟩ := moves.left w stands
      cases List.append_cancel_left (again.symm.trans same)
      have trail := (Index.resolve_eq_some_iff rep).mp resolves
      rw [segments_joined rfl ⟨_, same⟩] at trail
      exact apart descent trail
  · intro supersedes
    refine ⟨rfl, fun w resolves => ?_, ?_, fun path after rest more below _ y resolves => ?_⟩
    · rcases leads.mp ((Index.resolve_eq_some_iff repOut).mp resolves) with ⟨rest, same, descent⟩ | ⟨trail, hangs, away⟩
      · exact absurd descent (supersedes.clear rest w same)
      · cases trail.injective rep.siblingsDiffer rep.singleTop own
        exact absurd supersedes.gone (not_or.mpr ⟨away, hangs⟩)
    · exact ⟨it.id, _, (Index.resolve_eq_some_iff repOut).mpr (leads.mpr (.inl ⟨[], by simp, .here⟩)),
        .inr ⟨it, rfl, rfl⟩, (Index.apply_placed rep live).node, fun _ _ => rfl⟩
    · exact absurd (supersedes.childless path rest below (by simp [resolves])) more

theorem not_movesTo_root (rep : idx.RepInv) (notRoot : idx.root ≠ some x)
    (top : segments destination = []) (parent : idx.resolve (parentPath destination) = some q)
    (answered : ∀ it ∈ item, MoveAnswer idx destination q it) :
    ¬ MovesTo idx source destination x item (moveThrough idx item source destination) := by
  have last : lastSegment destination = "" := by rw [lastSegment_eq, top]; rfl
  have up := (Index.resolve_eq_some_iff rep).mp parent
  rw [segments_parentPath, top, List.dropLast_nil] at up
  obtain ⟨_, rootLink⟩ := Trail.nil_iff.mp up
  have recorded := rep.top rootLink
  have refused : (idx.moveAtPath source destination).2 = false := by
    unfold Index.moveAtPath
    split
    · rfl
    · split
      · rfl
      · simp [last]
  cases item with
  | none =>
    intro moves
    have success := moves.success
    simp only [moveThrough, refused] at success
    cases success
  | some it =>
    have answer := answered it rfl
    -- the destination is the root before and after
    have atRoot : ∀ {out : Index}, out.RepInv → out.root = some q → out.resolve destination = some q := by
      intro out repOut recordedOut
      obtain ⟨name, link⟩ := repOut.rooted recordedOut
      rw [Index.resolve_eq_some_iff repOut, top]
      exact .top link
    have ends : ∀ {out : Index}, out.resolve destination = some q →
        ¬ MovesTo idx source destination x (some it) (out, true) := by
      intro out resolves moves
      obtain ⟨z, _, stands, own, _⟩ := moves.arrives
      cases resolves.symm.trans stands
      rcases own with same | ⟨_, ⟨⟩, same⟩
      · exact notRoot (same ▸ recorded)
      · exact answer.other (same ▸ recorded)
    rcases answer.parent with parentless | placed
    · have same : idx.apply it = idx := by simp [Index.apply, answer.id, answer.live, answer.notRoot, parentless]
      have resolves := atRoot rep recorded
      simp only [moveThrough, same, resolves, Option.isSome_some, if_true]
      exact ends resolves
    · have live : it.PlacedUnder q := ⟨answer.id, answer.live, answer.notRoot, placed⟩
      have aside : ¬ Below idx.links it.id q := by
        intro above
        rcases above.cases_tail with same | ⟨_, _, label, link⟩
        · exact answer.other (same ▸ recorded)
        · cases rootLink.symm.trans link
      have repOut := Index.apply_aside_repInv rep live up aside
      have resolves : (idx.apply it).resolve destination = some q := by
        rw [Index.resolve_eq_some_iff repOut, top]
        exact Index.trail_above rep live up aside up .refl
      simp only [moveThrough, resolves, Option.isSome_some, if_true]
      exact ends resolves

end Moving

/-- A MOVE is carried out in the index exactly when its destination is not the root and the answer is
applied to the node at the source: nothing parsed; or the answer names no parent, nothing stands at the
destination yet, and the kind is the one in the index; or the source is held under the id of the answer,
or what is held there under another one goes away without leaving or losing anything. -/
theorem move_carried_iff {idx : Index} (reached : Reached idx) (rep : idx.RepInv) {source destination : String}
    (canonicalSource : normalizePath source = source) (canonical : normalizePath destination = destination)
    (differ : source ≠ destination) {x q : Id} (there : idx.resolve source = some x) (notRoot : idx.root ≠ some x)
    (parent : idx.resolve (parentPath destination) = some q) (apart : ¬ Below idx.links x q) {item : Option DeltaItem}
    (answered : ∀ it ∈ item, MoveAnswer idx destination q it) :
    MovesTo idx source destination x item ((LocalWrite.move source destination item).run idx) ↔
      segments destination ≠ [] ∧ Carried idx source destination x q item := by
  have differ : segments source ≠ segments destination := by
    intro same
    rw [← canonicalSource, ← canonical, normalizePath, same] at differ
    exact differ rfl
  rw [LocalWrite.run]
  by_cases top : segments destination = []
  · exact iff_of_false (not_movesTo_root rep notRoot top parent answered) fun carried => carried.1 top
  rw [and_iff_right top]
  cases item with
  | none =>
    refine iff_of_true (movesTo_moveAtPath rep reached.named there top parent apart ?_) ?_ <;>
    · rintro _ ⟨⟩
  | some it =>
    have answer := answered it rfl
    simp only [Carried, Option.mem_some_iff, forall_eq']
    -- an answer without a parent leaves the index alone, and the move by path runs unless the destination is taken
    rcases answer.parent with parentless | placed
    · have same : idx.apply it = idx := by simp [Index.apply, answer.id, answer.live, answer.notRoot, parentless]
      simp only [parentless, moveThrough, same]
      cases stands : idx.resolve destination with
      | some y =>
        rw [Option.isSome_some, if_pos rfl]
        exact iff_of_false (not_movesTo_of_stays rep there differ there) fun free => absurd free.1 (by simp)
      | none =>
        rw [Option.isSome_none, if_neg Bool.false_ne_true]
        constructor
        · intro moves
          refine ⟨rfl, fun old found => ?_⟩
          obtain ⟨_, present, lands, record⟩ := moveAtPath_lands rep reached.named there top parent apart
          cases found.symm.trans present
          obtain ⟨z, node, resolves, _, stored, kind⟩ := moves.arrives
          cases lands.symm.trans resolves
          cases record.symm.trans stored
          exact (kind old found).symm
        · rintro ⟨_, kind⟩
          refine movesTo_moveAtPath rep reached.named there top parent apart ?_
          rintro _ ⟨⟩
          exact kind
    · have live : it.PlacedUnder q := ⟨answer.id, answer.live, answer.notRoot, placed⟩
      simp only [placed]
      by_cases above : Below idx.links it.id q
      · refine iff_of_false (not_movesTo_cut_off rep top parent live answer.other above) ?_
        rintro (same | supersedes)
        · exact apart (same ▸ above)
        · exact supersedes.aside above
      -- the answer places its node at the destination, so the move by path is not tried
      have up := (Index.resolve_eq_some_iff rep).mp parent
      have resolves : ((idx.apply it).resolve destination).isSome = true := by
        have trail := Index.trail_own rep live up above
        rw [answer.name, ← (Index.segments_eq_concat top).1] at trail
        rw [(Index.resolve_eq_some_iff (Index.apply_aside_repInv rep live up above)).mpr trail, Option.isSome_some]
      simp only [moveThrough, resolves, if_true]
      by_cases same : it.id = x
      · refine iff_of_true (movesTo_placed rep there top parent apart ⟨live, same, answer.name⟩ fun _ _ => rfl) (.inl same)
      · rw [movesTo_other_iff rep there differ top parent live answer.name same above, or_iff_right same]

/-- A drive with a folder, and a file that was put while its answer did not parse. -/
def unansweredFile : Index :=
  ((LocalWrite.put "/a.txt" 1 none).run
    ([⟨"r", none, "", false, true, ⟨true, 0, 0, ""⟩⟩, ⟨"b", some "r", "B", false, false, ⟨true, 0, 0, ""⟩⟩].foldl
      Index.apply Index.empty)).1

theorem reached_unansweredFile : Reached unansweredFile := by
  have deltas : ∀ (items : List DeltaItem) (idx : Index), Reached idx → Reached (items.foldl Index.apply idx) := by
    intro items
    induction items with
    | nil => exact fun _ reached => reached
    | cons it rest ih => exact fun idx reached => ih _ (reached.delta it)
  exact (deltas _ _ .empty).write _

theorem repInv_unansweredFile : unansweredFile.RepInv := by
  have run : Index.Reachable "r" unansweredFile := by
    have ops : unansweredFile = [.apply ⟨"r", none, "", false, true, ⟨true, 0, 0, ""⟩⟩,
        .apply ⟨"b", some "r", "B", false, false, ⟨true, 0, 0, ""⟩⟩, .upsertAtPath "/a.txt" (putMeta 1)].foldl
          Index.Op.run Index.empty := rfl
    rw [ops, List.foldl_cons, List.foldl_cons, List.foldl_cons, List.foldl_nil]
    refine .step (.step (.step .empty ?_) ?_) ?_ <;> decide
  exact (Index.RunInv.of_reachable Index.root_ne_placeholder run).rep

theorem not_below_root {x : Id} (other : x ≠ "r") : ¬ Below unansweredFile.links x "r" := by
  have top : unansweredFile.links "r" = some (none, "") := by decide
  intro below
  rcases below.cases_tail with same | ⟨_, _, label, link⟩
  · exact other same.symm
  · cases top.symm.trans link

/-- The folder is held under the id of the answer and takes its new name. -/
theorem move_carried_iff_folder :
    MovesTo unansweredFile "/B" "/C" "b" (some ⟨"b", some "r", "C", false, false, ⟨true, 0, 0, ""⟩⟩)
      ((LocalWrite.move "/B" "/C" (some ⟨"b", some "r", "C", false, false, ⟨true, 0, 0, ""⟩⟩)).run unansweredFile) := by
  refine (move_carried_iff reached_unansweredFile repInv_unansweredFile (by decide) (by decide) (by decide)
    (by decide) (by decide) (q := "r") (by decide) (not_below_root (by decide)) ?_).mpr ⟨by decide, ?_⟩
  · rintro _ ⟨⟩
    exact ⟨by decide, rfl, rfl, by decide, by decide, .inr rfl⟩
  · rintro _ ⟨⟩
    exact .inl rfl

def movedItem : DeltaItem := ⟨"g", some "r", "b.txt", false, false, ⟨false, 1, 0, ""⟩⟩

/-- The file is listed under both names: the answer makes a new node, and the one at the source stays. -/
theorem unanswered_file_stays_behind :
    Reached unansweredFile ∧ unansweredFile.RepInv ∧
      unansweredFile.resolve "/a.txt" = some (Index.placeholderId "/a.txt") ∧
      unansweredFile.root ≠ some (Index.placeholderId "/a.txt") ∧
      unansweredFile.resolve (parentPath "/b.txt") = some "r" ∧
      ¬ Below unansweredFile.links (Index.placeholderId "/a.txt") "r" ∧ MoveAnswer unansweredFile "/b.txt" "r" movedItem ∧
      ((LocalWrite.move "/a.txt" "/b.txt" (some movedItem)).run unansweredFile).2 = true ∧
      ((LocalWrite.move "/a.txt" "/b.txt" (some movedItem)).run unansweredFile).1.resolve "/a.txt" =
        some (Index.placeholderId "/a.txt") ∧
      ¬ MovesTo unansweredFile "/a.txt" "/b.txt" (Index.placeholderId "/a.txt") (some movedItem)
        ((LocalWrite.move "/a.txt" "/b.txt" (some movedItem)).run unansweredFile) := by
  have there : unansweredFile.resolve "/a.txt" = some (Index.placeholderId "/a.txt") := by decide
  have stays : ((LocalWrite.move "/a.txt" "/b.txt" (some movedItem)).run unansweredFile).1.resolve "/a.txt" =
      some (Index.placeholderId "/a.txt") := by decide
  refine ⟨reached_unansweredFile, repInv_unansweredFile, there, by decide, by decide,
    not_below_root (by decide), ?_, by decide, stays,
    not_movesTo_of_stays repInv_unansweredFile there (by decide) stays⟩
  exact ⟨by decide, rfl, rfl, by decide, by decide, .inr rfl⟩

end Dav

end OneDriveDavfs
