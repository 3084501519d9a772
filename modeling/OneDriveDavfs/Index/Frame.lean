import OneDriveDavfs.Index.Placing

/-! What `upsert_at_path` leaves alone.

A path that does not resolve gets a node under the id made of the path. The
node keeps that id when it is moved, so the same path can meet it again when
it has long had another place.
-/

set_option autoImplicit false

namespace OneDriveDavfs.Index

open Std Library.Collections Library.Forest

/-- A write by path changes nothing at the paths that are not at or below it, and is found there when
it reports success. -/
structure WritesOnly (idx : Index) (path : String) (itemMeta : ItemMeta) : Prop where
  elsewhere : ∀ other, ¬ segments path <+: segments other →
    (idx.upsertAtPath path itemMeta).1.resolve other = idx.resolve other ∧
      ∀ id, idx.resolve other = some id → (idx.upsertAtPath path itemMeta).1.nodes[id]? = idx.nodes[id]?
  carries : (idx.upsertAtPath path itemMeta).2 = true → ∃ id node,
    (idx.upsertAtPath path itemMeta).1.resolve path = some id ∧
      (idx.upsertAtPath path itemMeta).1.nodes[id]? = some node ∧ node.itemMeta = itemMeta

def placeholder (path : String) (q : Id) (itemMeta : ItemMeta) : DeltaItem :=
  ⟨placeholderId path, some q, lastSegment path, false, false, itemMeta⟩

theorem placedUnder_placeholder (path : String) (q : Id) (itemMeta : ItemMeta) :
    (placeholder path q itemMeta).PlacedUnder q :=
  ⟨RunInv.placeholder_ne_empty path, rfl, rfl, rfl⟩

section Upsert
variable {idx : Index} {path : String} {itemMeta : ItemMeta} {q : Id}

theorem segments_eq_concat (notRoot : segments path ≠ []) :
    segments path = segments (parentPath path) ++ [lastSegment path] ∧ lastSegment path ≠ "" := by
  obtain ⟨front, name, split⟩ := (List.eq_nil_or_concat' (segments path)).resolve_left notRoot
  have last : lastSegment path = name := by
    rw [lastSegment_eq, split]
    simp [List.getLastD_eq_getLast?]
  have member : name ∈ segments path := by rw [split]; simp
  have named := cleanName_of_mem_segments member
  rw [segments_parentPath, split, List.dropLast_concat, last]
  exact ⟨rfl, named.ne_empty⟩

theorem upsertAtPath_found (inv : RepInv idx) {id : Id} (there : idx.resolve path = some id) :
    idx.upsertAtPath path itemMeta =
      ({ idx with nodes := idx.nodes.modify id fun node => { node with itemMeta } }, true) := by
  obtain ⟨_, link⟩ := ((resolve_eq_some_iff inv).mp there).exists_link
  obtain ⟨node, found, _⟩ := Option.map_eq_some_iff.mp link
  have kept : (some id).filter (fun id => (idx.nodes[id]?).isSome) = some id :=
    Option.filter_some_pos (by rw [found, Option.isSome_some])
  simp only [upsertAtPath, there, kept]

theorem upsertAtPath_placed (notRoot : segments path ≠ []) (nowhere : idx.resolve path = none)
    (parent : idx.resolve (parentPath path) = some q) :
    idx.upsertAtPath path itemMeta = (idx.apply (placeholder path q itemMeta), true) := by
  simp [upsertAtPath, nowhere, (segments_eq_concat notRoot).2, parent, placeholder]

theorem upsertAtPath_refused (nowhere : idx.resolve path = none) (parentless : idx.resolve (parentPath path) = none) :
    idx.upsertAtPath path itemMeta = (idx, false) := by
  simp only [upsertAtPath, nowhere, Option.filter_none, parentless]
  split <;> rfl

theorem writesOnly_found (inv : RepInv idx) {id : Id} (there : idx.resolve path = some id) :
    WritesOnly idx path itemMeta := by
  have links := links_modify_meta idx id itemMeta
  have repOut := inv.congr links (fun _ => rfl) (Eq.refl idx.root)
  have same : ∀ other, resolve { idx with nodes := idx.nodes.modify id fun node => { node with itemMeta } } other =
      idx.resolve other := by
    intro other
    apply Option.ext
    intro x
    rw [resolve_eq_some_iff repOut, resolve_eq_some_iff inv, links]
  have trail := (resolve_eq_some_iff inv).mp there
  obtain ⟨_, link⟩ := trail.exists_link
  obtain ⟨node, found, _⟩ := Option.map_eq_some_iff.mp link
  refine ⟨fun other apart => ?_, fun _ => ?_⟩
  · rw [upsertAtPath_found inv there]
    refine ⟨same other, fun x resolves => ?_⟩
    have differs : x ≠ id := by
      rintro rfl
      rw [((resolve_eq_some_iff inv).mp resolves).unique trail] at apart
      exact apart (List.prefix_refl _)
    rw [lookup_modify, if_neg differs]
  · rw [upsertAtPath_found inv there]
    refine ⟨id, { node with itemMeta }, (same path).trans there, ?_, rfl⟩
    rw [lookup_modify, if_pos rfl, found, Option.map_some]

theorem writesOnly_placed (inv : RepInv idx) (notRoot : segments path ≠ []) (nowhere : idx.resolve path = none)
    (parent : idx.resolve (parentPath path) = some q) (fresh : ∀ other, idx.resolve other ≠ some (placeholderId path)) :
    WritesOnly idx path itemMeta := by
  obtain ⟨split, _⟩ := segments_eq_concat notRoot
  have up := (resolve_eq_some_iff inv).mp parent
  have live := placedUnder_placeholder path q itemMeta
  -- what hangs on the id would have a path through it, so no path leads below it
  have apart : ∀ {other x}, idx.resolve other = some x → ¬ Below idx.links (placeholderId path) x := by
    intro other x resolves below
    have trail := (resolve_eq_some_iff inv).mp resolves
    obtain ⟨front, rest, whole, own⟩ := Trail.of_below below trail
    have clean : ∀ name ∈ front, CleanName name := by
      intro name member
      have listed : name ∈ segments other := whole ▸ List.mem_append_left rest member
      exact cleanName_of_mem_segments listed
    refine fresh (joinPath front) ((resolve_eq_some_iff inv).mpr ?_)
    rw [segments_joinPath clean]
    exact own
  have aside : ¬ Below idx.links (placeholder path q itemMeta).id q := apart parent
  have repOut := apply_aside_repInv inv live up aside
  have placed := apply_placed inv live
  refine ⟨fun other away => ?_, fun _ => ?_⟩
  · rw [upsertAtPath_placed notRoot nowhere parent]
    refine ⟨Option.ext fun x => ?_, fun x resolves => ?_⟩
    · rw [resolve_eq_some_iff repOut, resolve_eq_some_iff inv, trail_apply_iff inv live up aside]
      constructor
      · rintro (⟨rest, same, _⟩ | ⟨trail, _⟩)
        · refine absurd ?_ away
          rw [split, same]
          exact List.prefix_append _ _
        · exact trail
      · intro trail
        refine .inr ⟨trail, apart ((resolve_eq_some_iff inv).mpr trail), ?_⟩
        rwa [split] at away
    · have away' := apart resolves
      refine placed.kept (fun same => away' (same ▸ .refl)) ?_
      rw [evicted_iff inv up ((resolve_eq_some_iff inv).mp resolves) away']
      rwa [split] at away
  · rw [upsertAtPath_placed notRoot nowhere parent]
    refine ⟨_, _, (resolve_eq_some_iff repOut).mpr ?_, placed.node, rfl⟩
    rw [split]
    exact trail_own inv live up aside

/-- A node under the id that a path leads to is taken away from there. -/
theorem not_writesOnly_placed {r : Id} (inv : RunInv r idx) (real : ∀ path, r ≠ placeholderId path)
    (notRoot : segments path ≠ []) (nowhere : idx.resolve path = none)
    (parent : idx.resolve (parentPath path) = some q) {other : String}
    (there : idx.resolve other = some (placeholderId path)) : ¬ WritesOnly idx path itemMeta := by
  intro writes
  have rep := inv.rep
  obtain ⟨split, _⟩ := segments_eq_concat notRoot
  have up := (resolve_eq_some_iff rep).mp parent
  have own := (resolve_eq_some_iff rep).mp there
  have live := placedUnder_placeholder path q itemMeta
  have repOut : RepInv (idx.apply (placeholder path q itemMeta)) :=
    apply_repInv rep live fun recorded => real path (inv.only _ recorded).symm
  -- nothing lies below the path yet
  have away : ¬ segments path <+: segments other := by
    rintro ⟨rest, whole⟩
    obtain ⟨x, trail, _⟩ := own.split (segments path) rest whole.symm
    rw [(resolve_eq_some_iff rep).mpr trail] at nowhere
    cases nowhere
  have kept := (writes.elsewhere other away).1
  rw [upsertAtPath_placed notRoot nowhere parent, there, resolve_eq_some_iff repOut] at kept
  by_cases above : Below idx.links (placeholderId path) q
  · exact no_trail_own rep live above kept
  · rcases (trail_apply_iff rep live up above).mp kept with ⟨rest, same, _⟩ | ⟨_, apart, _⟩
    · refine away ?_
      rw [split, same]
      exact List.prefix_append _ _
    · exact apart .refl

end Upsert

/-- Whatever was written, moved and removed before, a write by path touches no other path exactly when
its path resolves, or the path of its parent does not, or no path leads to the id made of it. -/
theorem upsert_writesOnly_iff (r : Id) (real : ∀ path, r ≠ placeholderId path) (idx : Index) (run : Reachable r idx)
    (path : String) (notRoot : segments path ≠ []) (itemMeta : ItemMeta) :
    WritesOnly idx path itemMeta ↔ (idx.resolve path = none → idx.resolve (parentPath path) ≠ none →
      ∀ other, idx.resolve other ≠ some (placeholderId path)) := by
  have inv := RunInv.of_reachable real run
  cases there : idx.resolve path with
  | some id => exact iff_of_true (writesOnly_found inv.rep there) fun nowhere => absurd nowhere (by simp)
  | none =>
    cases parent : idx.resolve (parentPath path) with
    | none =>
      refine iff_of_true ⟨?_, ?_⟩ fun _ placed => absurd rfl placed
      all_goals rw [upsertAtPath_refused there parent]
      · exact fun _ _ => ⟨rfl, fun _ _ => rfl⟩
      · intro success
        cases success
    | some q =>
      constructor
      · exact fun writes _ _ other led => not_writesOnly_placed inv real notRoot there parent led writes
      · exact fun fresh => writesOnly_placed inv.rep notRoot there parent (fresh rfl (by simp))

/-- A file is put at `/a`, moved to `/b`, and another one put at `/a`. -/
def movedPlaceholder : Index :=
  [.apply ⟨"r", none, "", false, true, ⟨true, 0, 0, ""⟩⟩, .upsertAtPath "/a" ⟨false, 1, 0, ""⟩,
    .moveAtPath "/a" "/b"].foldl Op.run empty

theorem reachable_movedPlaceholder : Reachable "r" movedPlaceholder := by
  simp only [movedPlaceholder, List.foldl_cons, List.foldl_nil]
  refine .step (.step (.step .empty ?_) ?_) ?_ <;> decide

theorem root_ne_placeholder (path : String) : "r" ≠ placeholderId path := by
  intro same
  have chars := congrArg String.toList same
  simp [placeholderId] at chars

/-- Any other path can be written. -/
theorem upsert_writesOnly_iff_movedPlaceholder : WritesOnly movedPlaceholder "/c" ⟨false, 2, 0, ""⟩ := by
  refine (upsert_writesOnly_iff "r" root_ne_placeholder movedPlaceholder reachable_movedPlaceholder "/c" (by decide)
    ⟨false, 2, 0, ""⟩).mpr fun _ _ other led => ?_
  have missing : movedPlaceholder.nodes[placeholderId "/c"]? = none := by decide
  have rep := (RunInv.of_reachable root_ne_placeholder reachable_movedPlaceholder).rep
  obtain ⟨_, link⟩ := ((resolve_eq_some_iff rep).mp led).exists_link
  rw [links, missing] at link
  cases link

/-- The file that was moved away is gone when its first path is written again. -/
theorem moved_file_is_taken_back :
    Reachable "r" movedPlaceholder ∧ movedPlaceholder.resolve "/b" = some (placeholderId "/a") ∧
      (movedPlaceholder.upsertAtPath "/a" ⟨false, 2, 0, ""⟩).1.resolve "/b" = none ∧
      ¬ WritesOnly movedPlaceholder "/a" ⟨false, 2, 0, ""⟩ := by
  have there : movedPlaceholder.resolve "/b" = some (placeholderId "/a") := by decide
  have gone : (movedPlaceholder.upsertAtPath "/a" ⟨false, 2, 0, ""⟩).1.resolve "/b" = none := by decide
  refine ⟨reachable_movedPlaceholder, there, gone, fun writes => ?_⟩
  have same := (writes.elsewhere "/b" (by decide)).1
  rw [gone, there] at same
  cases same

end OneDriveDavfs.Index
