import OneDriveDavfs.Dav.WriteThrough
import OneDriveDavfs.Index.Frame
import OneDriveDavfs.Snapshot.Part
import OneDriveDavfs.Snapshot.Rows

/-! Reading what was just written: a PUT or MKCOL and then a lookup.

The write goes through the index that is loaded, and the lookup reads the file
that is saved. In between the path is spelled out once for every directory.
-/

set_option autoImplicit false

namespace OneDriveDavfs

open Library.Forest Library.Wire Snapshot

/-! ## A lookup in what was saved -/

namespace Snapshot

/-- No directory but the one that the path leads to has the path. -/
def Alone (idx : Index) (path : String) : Prop :=
  ∀ (d : Id) (node : Node), idx.nodes[d]? = some node → node.itemMeta.isDir = true ∨ idx.root = some d →
    idx.pathOf d = some path → idx.resolve path = some d

/-! ## Paths of directories that were loaded -/

theorem length_joinPath_lt {front rest : List String} (nonempty : front ≠ []) (more : rest ≠ []) :
    (joinPath front).toList.length < (joinPath (front ++ rest)).toList.length := by
  rw [toList_joinPath nonempty, toList_joinPath (by simp [nonempty]), List.map_append,
    Library.Separated.joined_append, List.length_append]
  obtain ⟨first, tail, rfl⟩ := List.exists_cons_of_ne_nil more
  simp

theorem length_joinPath_le {front : List String} {name : String} :
    (joinPath front).toList.length ≤ (joinPath (front ++ [name])).toList.length := by
  by_cases nonempty : front = []
  · subst nonempty
    rw [joinPath_nil, toList_joinPath (by simp)]
    simp
  · exact Nat.le_of_lt (length_joinPath_lt nonempty (by simp))

theorem joinPath_le (front : List String) (name : String) : joinPath front ≤ joinPath (front ++ [name]) := by
  have part : (joinPath front).toList <+: (joinPath (front ++ [name])).toList := by
    by_cases nonempty : front = []
    · subst nonempty
      rw [joinPath_nil, toList_joinPath (by simp)]
      exact ⟨name.toList, by simp⟩
    · rw [toList_joinPath nonempty, toList_joinPath (by simp), List.map_append, Library.Separated.joined_append]
      exact List.prefix_append _ _
  refine String.not_lt.mp ?_
  rw [String.lt_iff_toList_lt]
  exact part.le

theorem joinPath_not_le {front : List String} {name : String} (below : joinPath (front ++ [name]) ≠ "/") :
    ¬ joinPath (front ++ [name]) ≤ joinPath front := by
  intro above
  have same := above.antisymm (joinPath_le front name)
  by_cases nonempty : front = []
  · subst nonempty
    exact below (same.trans joinPath_nil)
  · have longer := @length_joinPath_lt front [name] nonempty (by simp)
    rw [same] at longer
    exact Nat.lt_irrefl _ longer

section Loaded
variable {idx : Index} {dirs : List DirEntry}

/-- In the order of the paths the row of a directory comes behind the block that lists it. -/
theorem DirList.placed_row (list : DirList idx dirs) (ascending : dirs.Pairwise fun a b => a.path ≤ b.path)
    (rep : idx.RepInv) {dir : DirEntry} (member : dir ∈ dirs) (below : dir.path ≠ "/") :
    (placed idx dirs).nodes[dir.id]? = some (DirRow.node dir.row) := by
  obtain ⟨segs, trail, _, path⟩ := list.trail member
  have listed : ∀ up ∈ dirs, ∀ c ∈ childInfos idx up.id, c.id = dir.id → ¬ dir.path ≤ up.path := by
    intro up inDirs c child same
    have link := rep.sound ((mem_childInfos rep.sound).mp child).1
    rw [same] at link
    obtain ⟨front, rfl, upper⟩ := Trail.of_child link trail
    obtain ⟨upSegs, upTrail, _, upPath⟩ := list.trail inDirs
    rw [upPath, upTrail.unique upper, path]
    exact joinPath_not_le (path ▸ below)
  obtain ⟨front, back, rfl⟩ := List.append_of_mem member
  rw [placed_nodes, entries, List.flatMap_append, List.flatMap_cons, List.cons_append]
  refine Library.Collections.lookup_insertAll_last fun e later same => ?_
  rcases List.mem_append.mp later with own | behind
  · obtain ⟨c, child, rfl⟩ := List.mem_map.mp own
    exact listed dir member c child same le_rfl
  have inDirs {up : DirEntry} (inBack : up ∈ back) : up ∈ front ++ dir :: back :=
    List.mem_append_right _ (List.mem_cons_of_mem _ inBack)
  rcases mem_entries.mp (behind : (e.1, e.2) ∈ entries idx back) with
    ⟨other, inBack, own, _⟩ | ⟨up, inBack, c, child, own, _⟩
  · have once := (List.nodup_append.mp (List.map_append ▸ list.once)).2.1
    exact (List.nodup_cons.mp once).1 (List.mem_map.mpr ⟨other, inBack, own.symm.trans same⟩)
  · have order := (List.pairwise_append.mp ascending).2.1
    exact listed up (inDirs inBack) c child (own.symm.trans same) (List.rel_of_pairwise_cons order inBack)

theorem link_before (rep : idx.RepInv) (inv : (restored idx dirs).RepInv) {x p : Id} {name : String}
    (link : (restored idx dirs).links x = some (some p, name)) :
    idx.links x = some (some p, name) ∧ ∃ dir ∈ dirs, dir.id = p := by
  obtain ⟨row, entry⟩ := (kidsOf_restored rep.sound).mp (inv.filed link)
  exact ⟨rep.sound entry, row⟩

theorem DirList.trail_before (list : DirList idx dirs) (rep : idx.RepInv) (inv : (restored idx dirs).RepInv) {x : Id}
    {segs : List String} (trail : Trail (restored idx dirs).links x segs) : Trail idx.links x segs := by
  refine trail.mono (fun link => (link_before rep inv link).1) fun link => ?_
  have recorded := inv.top link
  rw [list.root_restored rep] at recorded
  exact rep.rooted recorded

theorem DirList.name_row (list : DirList idx dirs) (ascending : dirs.Pairwise fun a b => a.path ≤ b.path)
    (rep : idx.RepInv) {dir : DirEntry} (member : dir ∈ dirs) {p : Id} {name : String}
    (link : (restored idx dirs).links dir.id = some (some p, name)) :
    dir.path ≠ "/" ∧ name = lastSegment dir.path := by
  obtain ⟨node, found, parent, rfl⟩ := Index.links_eq_some_iff.mp link
  rw [restored, foldl_linkRow_own _ _ list.once member, Option.map_eq_some_iff] at found
  obtain ⟨before, stored, relinked⟩ := found
  have below : dir.path ≠ "/" := by
    intro top
    rw [relink, if_pos top] at relinked
    rw [← relinked] at parent
    cases parent
  rw [list.placed_row ascending rep member below] at stored
  cases stored
  refine ⟨below, ?_⟩
  rw [← relinked, relink, if_neg below]
  split <;> rfl

theorem DirList.clean_row (list : DirList idx dirs) (ascending : dirs.Pairwise fun a b => a.path ≤ b.path)
    (rep : idx.RepInv) (inv : (restored idx dirs).RepInv) {x : Id} {segs : List String}
    (trail : Trail (restored idx dirs).links x segs) : ∀ dir ∈ dirs, dir.id = x → ∀ n ∈ segs, CleanName n := by
  induction trail with
  | top _ => simp
  | @step x p name front link upper ih =>
    rintro dir member rfl n inNames
    obtain ⟨_, up, inDirs, row⟩ := link_before rep inv link
    have clean := ih up inDirs row
    rcases List.mem_append.mp inNames with above | last
    · exact clean n above
    rw [List.mem_singleton.mp last]
    obtain ⟨below, named⟩ := list.name_row ascending rep member link
    obtain ⟨own, ownTrail, _, path⟩ := list.trail member
    have same := ownTrail.unique (list.trail_before rep inv (.step link upper))
    by_cases nothing : segments dir.path = []
    · -- then the path is all slashes, so its last name is empty and it is the root's
      have empty : name = "" := by rw [named, lastSegment_eq, nothing, List.getLastD_nil]
      refine absurd ?_ below
      rw [path, same, empty]
      by_cases first : front = []
      · rw [first]
        rfl
      · rw [path, same, empty] at nothing
        have chars : (joinPath (front ++ [""])).toList = (joinPath front).toList ++ '/' :: [] := by
          rw [toList_joinPath (by simp), toList_joinPath first]
          simp
        rw [segments, chars, Library.Separated.pieces_append_sep, List.map_append, List.append_eq_nil_iff] at nothing
        have none : segments (joinPath front) = [] := nothing.1
        rw [segments_joinPath clean] at none
        exact absurd none first
    · rw [named, lastSegment_eq, List.getLastD_eq_getLast?, List.getLast?_eq_some_getLast nothing, Option.getD_some]
      exact cleanName_of_mem_segments (List.getLast_mem nothing)

end Loaded

section Saved
variable {json : MetaJson} {before out : Index} {bytes : Bytes} {files : Files} {path name : String} {front : List String}

theorem Saves.lookupWith (roundTrips : json.RoundTrips) (saves : Saves json out bytes)
    (held : files indexFile = some bytes) :
    ∃ dirs now header rows, DirList out dirs ∧ (dirs.Pairwise fun a b => a.path ≤ b.path) ∧
      Encoded (wasm32 json) out dirs now bytes header rows ∧
      ReadsBlocks out bytes dirs (fileBlock files.host) ∧
      ∀ path, lookupFile (wasm32 json) files.host path =
        Snapshot.lookupWith (wasm32 json) rows path (fileBlock files.host) := by
  obtain ⟨order, now, header, rows, enumerates, encoded⟩ := saves.encoded roundTrips
  have opened : files.host indexFile = some (StateFile.serve bytes) := by simp [Files.host, held]
  have serves := StateFile.serves_serve bytes
  exact ⟨_, now, header, rows, dirList_sortedDirs enumerates, ascending_sortedDirs out order, encoded,
    fileBlock_reads opened serves encoded, lookupFile_eq opened serves encoded⟩

/-- In what is loaded from a saved file every directory has a path of its own. -/
theorem Saves.alone (roundTrips : json.RoundTrips) (saves : Saves json before bytes) (rep : before.RepInv)
    (decoded : Snapshot.decode (wasm32 json) bytes = .ok out) (inv : out.RepInv) (path : String) : Alone out path := by
  obtain ⟨order, _, _, _, enumerates, encoded⟩ := saves.encoded roundTrips
  have list := dirList_sortedDirs enumerates
  have ascending := ascending_sortedDirs before order
  cases (decode_eq_restored encoded).symm.trans decoded
  intro d node stored kind pathOf
  obtain ⟨segs, trail, bound, rfl⟩ := Index.pathOf_eq_some_iff.mp pathOf
  have upper := list.trail_before rep inv trail
  have row : ∃ dir ∈ sortedDirs before order, dir.id = d := by
    by_contra none
    have absent : ∀ dir ∈ sortedDirs before order, d ≠ dir.id := fun dir member same => none ⟨dir, member, same.symm⟩
    have found := (node_child rep absent stored).1
    rw [list.root_restored rep] at kind
    exact absent _ (list.exists_dir upper bound found kind) rfl
  obtain ⟨dir, member, own⟩ := row
  rw [Index.resolve_eq_some_iff inv, segments_joinPath (list.clean_row ascending rep inv trail dir member own)]
  exact trail

/-- A node in a directory is found under its path, when no other directory has that path or the
path of its parent. -/
theorem Saves.lookup_node (roundTrips : json.RoundTrips) (saves : Saves json out bytes)
    (held : files indexFile = some bytes) (rep : out.RepInv) (canonical : normalizePath path = path)
    (split : segments path = front ++ [name]) (alone : Alone out path) (aloneParent : Alone out (parentPath path))
    {q x : Id} {parent node : Node} (up : Trail out.links q front) (foundParent : out.nodes[q]? = some parent)
    (isDir : parent.itemMeta.isDir = true ∨ out.root = some q) (link : out.links x = some (some q, name))
    (found : out.nodes[x]? = some node) :
    lookupFile (wasm32 json) files.host path = .ok
      (if node.itemMeta.isDir = true ∧ (segments path).length < 64 then some (.dir (infoOf x node) (childInfos out x))
        else if (segments path).length ≤ 64 then some (.file (infoOf x node)) else none) := by
  obtain ⟨dirs, now, header, rows, list, ascending, encoded, reads, lookup⟩ := saves.lookupWith roundTrips held
  have clean : ∀ n ∈ front ++ [name], CleanName n := fun n member =>
    cleanName_of_mem_segments (split ▸ member : n ∈ segments path)
  have spelled : path = joinPath (front ++ [name]) := by rw [← split]; exact canonical.symm
  have parentOf : parentPath path = joinPath front := by rw [spelled, parentPath_joinPath clean]
  have last : lastSegment path = name := by rw [spelled, lastSegment_joinPath clean]
  have trail : Trail out.links x (front ++ [name]) := .step link up
  have resolves : out.resolve path = some x := (Index.resolve_eq_some_iff rep).mpr (split ▸ trail)
  have resolvesParent : out.resolve (parentPath path) = some q := by
    rw [Index.resolve_eq_some_iff rep, segments_parentPath, split, List.dropLast_concat]
    exact up
  have length : (segments path).length = front.length + 1 := by rw [split]; simp
  have notRoot : out.root ≠ some x := by
    intro recorded
    obtain ⟨_, top⟩ := rep.rooted recorded
    cases link.symm.trans top
  -- no other row has the path of the node, and none but the row of the parent has the path above it
  have onlyX : ∀ dir ∈ dirs, dir.path = path → dir.id = x := by
    intro dir member same
    obtain ⟨pathOf, stored, kind⟩ := list.all.mp member
    exact Option.some.inj ((alone dir.id dir.node stored kind (same ▸ pathOf)).symm.trans resolves)
  have onlyQ : ∀ dir ∈ dirs, dir.path = parentPath path → dir.id = q := by
    intro dir member same
    obtain ⟨pathOf, stored, kind⟩ := list.all.mp member
    exact Option.some.inj ((aloneParent dir.id dir.node stored kind (same ▸ pathOf)).symm.trans resolvesParent)
  rw [lookup]
  -- a directory that is not too deep has a row of its own; everything else is a child in the row above
  by_cases row : node.itemMeta.isDir = true ∧ (segments path).length < 64
  · have member := list.exists_dir trail (by rw [← split]; exact row.2) found (.inl row.1)
    have place : joinPath (front ++ [name]) = normalizePath path := by rw [canonical, ← spelled]
    have only : ∀ other ∈ dirs, other.path = joinPath (front ++ [name]) → other = ⟨x, joinPath (front ++ [name]), node⟩ :=
      fun other inDirs same => list.eq_of_id inDirs member (onlyX other inDirs (same.trans spelled.symm))
    have info : DirEntry.info ⟨x, joinPath (front ++ [name]), node⟩ = infoOf x node := by
      obtain ⟨other, same, parent, label⟩ := Index.links_eq_some_iff.mp link
      cases found.symm.trans same
      simp only [DirEntry.info, infoOf, lastSegment_joinPath clean, (eraseTop_eq_iff parent).mpr rfl, label, row.1]
    rw [lookupWith_dir encoded ascending reads member place only, info, if_pos row]
  · have absent : ∀ dir ∈ dirs, dir.path ≠ normalizePath path := by
      intro dir member same
      have own := onlyX dir member (same.trans canonical)
      obtain ⟨_, stored, kind⟩ := list.all.mp member
      obtain ⟨segs, there, bound, _⟩ := list.trail member
      rw [own] at stored there kind
      cases found.symm.trans stored
      rw [there.unique trail, ← split] at bound
      exact kind.elim (fun isDir => row ⟨isDir, bound⟩) notRoot
    rw [if_neg row]
    by_cases short : (segments path).length ≤ 64
    · have member := list.exists_dir up (by omega) foundParent isDir
      have only : ∀ other ∈ dirs, other.path = joinPath front → other = ⟨q, joinPath front, parent⟩ :=
        fun other inDirs same => list.eq_of_id inDirs member (onlyQ other inDirs (same.trans parentOf.symm))
      have place : joinPath front = parentPath (normalizePath path) := by rw [canonical, parentOf]
      have hit := (find_childInfos_iff rep).mpr (infoOf_mem_childInfos rep link found)
      rw [lookupWith_child encoded ascending reads absent member place only, canonical, last, hit, if_pos short]
      rfl
    · -- below depth 64 the parent has no row either
      have noParent : ∀ dir ∈ dirs, dir.path ≠ parentPath (normalizePath path) := by
        intro dir member same
        have own := onlyQ dir member (same.trans (by rw [canonical]))
        obtain ⟨segs, there, bound, _⟩ := list.trail member
        rw [own] at there
        rw [there.unique up] at bound
        omega
      rw [lookupWith_none encoded absent noParent, if_neg short]

theorem Saves.lookup_none (roundTrips : json.RoundTrips) (saves : Saves json out bytes)
    (held : files indexFile = some bytes) (canonical : normalizePath path = path)
    (nowhere : ∀ d node, out.nodes[d]? = some node → node.itemMeta.isDir = true ∨ out.root = some d →
      out.pathOf d ≠ some path ∧ out.pathOf d ≠ some (parentPath path)) :
    lookupFile (wasm32 json) files.host path = .ok none := by
  obtain ⟨dirs, now, header, rows, list, ascending, encoded, reads, lookup⟩ := saves.lookupWith roundTrips held
  rw [lookup]
  refine lookupWith_none encoded ?_ ?_
  all_goals
    intro dir member same
    obtain ⟨pathOf, stored, kind⟩ := list.all.mp member
    rw [canonical] at same
    rw [same] at pathOf
  · exact (nowhere dir.id dir.node stored kind).1 pathOf
  · exact (nowhere dir.id dir.node stored kind).2 pathOf

end Saved

/-! ## Which directories have a path after a write -/

section Alone
variable {idx : Index} {path s : String}

theorem Alone.modify (rep : idx.RepInv) (alone : Alone idx s) {x : Id} (resolves : idx.resolve path = some x)
    (canonical : normalizePath path = path) (itemMeta : ItemMeta) :
    Alone { idx with nodes := idx.nodes.modify x fun node => { node with itemMeta } } s := by
  have links := Index.links_modify_meta idx x itemMeta
  have repOut := rep.congr links (fun _ => rfl) (Eq.refl idx.root)
  intro d node stored kind pathOf
  obtain ⟨segs, trail, bound, spelled⟩ := Index.pathOf_eq_some_iff.mp pathOf
  rw [Index.resolve_eq_some_iff repOut]
  rw [links] at trail ⊢
  by_cases own : d = x
  · subst own
    have there := (Index.resolve_eq_some_iff rep).mp resolves
    have same : s = path := by
      rw [spelled, trail.unique there]
      exact canonical
    rw [same]
    exact there
  · simp only [Library.Collections.lookup_modify, if_neg own] at stored
    exact (Index.resolve_eq_some_iff rep).mp
      (alone d node stored kind (Index.pathOf_eq_some_iff.mpr ⟨segs, trail, bound, spelled⟩))

theorem Alone.resolves_aside (rep : idx.RepInv) (alone : Alone idx s) {it : DeltaItem} {q : Id} (live : it.PlacedUnder q)
    {d : Id} {node : Node} (stored : (idx.apply it).nodes[d]? = some node)
    (kind : node.itemMeta.isDir = true ∨ (idx.apply it).root = some d) {segs : List String}
    (trail : Trail (idx.apply it).links d segs) (bound : segs.length < 64) (spelled : s = joinPath segs)
    (aside : ¬ Below (idx.apply it).links it.id d) : idx.resolve s = some d ∧ segments s = segs := by
  have before := Index.trail_of_apply rep trail aside
  have other : d ≠ it.id := fun same => aside (same ▸ .refl)
  have kindBefore : node.itemMeta.isDir = true ∨ idx.root = some d :=
    kind.imp_right fun recorded => ((Index.apply_placed rep live).root.mp recorded).1
  have resolves := alone d node (Index.nodes_of_apply rep live other stored) kindBefore
    (Index.pathOf_eq_some_iff.mpr ⟨segs, before, bound, spelled⟩)
  exact ⟨resolves, ((Index.resolve_eq_some_iff rep).mp resolves).unique before⟩

theorem Alone.apply (rep : idx.RepInv) (alone : Alone idx s) {it : DeltaItem} {q : Id} (live : it.PlacedUnder q)
    {front : List String} (up : Trail idx.links q front) (aside : ¬ Below idx.links it.id q)
    (canonical : normalizePath path = path) (split : segments path = front ++ [it.name])
    (short : s.toList.length ≤ path.toList.length) : Alone (idx.apply it) s := by
  have repOut := Index.apply_aside_repInv rep live up aside
  have own := Index.trail_own rep live up aside
  have path_eq : path = joinPath (front ++ [it.name]) := by rw [← split]; exact canonical.symm
  intro d node stored kind pathOf
  obtain ⟨segs, trail, bound, spelled⟩ := Index.pathOf_eq_some_iff.mp pathOf
  rw [Index.resolve_eq_some_iff repOut]
  by_cases below : Below (idx.apply it).links it.id d
  · obtain ⟨start, rest, rfl, upper⟩ := Trail.of_below below trail
    cases upper.unique own
    by_cases nothing : rest = []
    · subst nothing
      rw [List.append_nil] at trail spelled
      rwa [spelled, ← path_eq, split]
    · have longer := @length_joinPath_lt (front ++ [it.name]) rest (by simp) nothing
      rw [← spelled, ← path_eq] at longer
      omega
  · obtain ⟨_, same⟩ := alone.resolves_aside rep live stored kind trail bound spelled below
    rwa [same]

end Alone

section Placed
variable {json : MetaJson} {idx : Index} {bytes : Bytes} {files : Files} {path : String} {it : DeltaItem} {q : Id}
  {front : List String} {parent node : Node}

theorem Saves.lookup_placed (roundTrips : json.RoundTrips) (saves : Saves json (idx.apply it) bytes)
    (held : files indexFile = some bytes) (rep : idx.RepInv) (canonical : normalizePath path = path)
    (alone : Alone idx path) (aloneParent : Alone idx (parentPath path)) (live : it.PlacedUnder q)
    (up : Trail idx.links q front) (aside : ¬ Below idx.links it.id q) (split : segments path = front ++ [it.name])
    (foundParent : idx.nodes[q]? = some parent) (isDir : parent.itemMeta.isDir = true ∨ idx.root = some q)
    (found : (idx.apply it).nodes[it.id]? = some node) :
    lookupFile (wasm32 json) files.host path = .ok
      (if node.itemMeta.isDir = true ∧ (segments path).length < 64 then
          some (.dir (infoOf it.id node) (childInfos (idx.apply it) it.id))
        else if (segments path).length ≤ 64 then some (.file (infoOf it.id node)) else none) := by
  have placed := Index.apply_placed rep live
  have other : q ≠ it.id := fun same => aside (same ▸ .refl)
  have stays : ¬ idx.Evicted it.id q it.name q := Index.not_evicted_above rep up .refl
  have clean : ∀ n ∈ front ++ [it.name], CleanName n := fun n member =>
    cleanName_of_mem_segments (split ▸ member : n ∈ segments path)
  have spelled : path = joinPath (front ++ [it.name]) := by rw [← split]; exact canonical.symm
  have shorter : (parentPath path).toList.length ≤ path.toList.length := by
    rw [spelled, parentPath_joinPath clean]
    exact length_joinPath_le
  have isDirOut : parent.itemMeta.isDir = true ∨ (idx.apply it).root = some q :=
    isDir.imp_right fun recorded => placed.root.mpr ⟨recorded, fun gone => stays gone.1⟩
  exact saves.lookup_node roundTrips held (Index.apply_aside_repInv rep live up aside) canonical split
    (alone.apply rep live up aside canonical split (Nat.le_refl _))
    (aloneParent.apply rep live up aside canonical split shorter) (Index.trail_above rep live up aside up .refl)
    ((placed.kept other stays).trans foundParent) isDirOut (Index.link_own rep live) found

theorem Saves.lookup_cut_off (roundTrips : json.RoundTrips) (saves : Saves json (idx.apply it) bytes)
    (held : files indexFile = some bytes) (rep : idx.RepInv) (canonical : normalizePath path = path)
    (alone : Alone idx path) (aloneParent : Alone idx (parentPath path)) (live : it.PlacedUnder q)
    (above : Below idx.links it.id q) (nowhere : idx.resolve path = none)
    (resolves : idx.resolve (parentPath path) = some q) : lookupFile (wasm32 json) files.host path = .ok none := by
  have noTrail {d : Id} {segs : List String} (trail : Trail (idx.apply it).links d segs) :
      ¬ Below (idx.apply it).links it.id d := by
    intro below
    obtain ⟨start, _, _, upper⟩ := Trail.of_below below trail
    exact Index.no_trail_own rep live above upper
  refine saves.lookup_none roundTrips held canonical fun d node stored kind => ⟨fun pathOf => ?_, fun pathOf => ?_⟩
  · obtain ⟨segs, trail, bound, spelled⟩ := Index.pathOf_eq_some_iff.mp pathOf
    have found := (alone.resolves_aside rep live stored kind trail bound spelled (noTrail trail)).1
    rw [nowhere] at found
    cases found
  · obtain ⟨segs, trail, bound, spelled⟩ := Index.pathOf_eq_some_iff.mp pathOf
    have found := (aloneParent.resolves_aside rep live stored kind trail bound spelled (noTrail trail)).1
    -- the row would be the one of `q`, which hangs below the placed record
    cases resolves.symm.trans found
    exact Index.not_below_of_apply rep trail (noTrail trail) above

end Placed

end Snapshot

namespace Dav

/-! ## The write and the lookup -/

/-- A successful PUT or MKCOL at the path, with the metadata of its fallback. -/
inductive Creates (path : String) (item : Option DeltaItem) : LocalWrite → ItemMeta → Prop where
  | put (size : UInt64) : Creates path item (.put path size item) (putMeta size)
  | mkcol : Creates path item (.mkcol path item) mkcolMeta

/-- An item that Graph may return for the write below the directory `q`: with the last name of the
path, the kind and the size, an id that no other node has, and `q` as its parent or none. -/
structure Returned (idx : Index) (path : String) (q : Id) (itemMeta : ItemMeta) (it : DeltaItem) : Prop where
  id : it.id ≠ ""
  live : it.deleted = false
  notRoot : it.isRoot = false
  name : it.name = lastSegment path
  isDir : it.itemMeta.isDir = itemMeta.isDir
  size : it.itemMeta.size = itemMeta.size
  unused : ∀ node, idx.nodes[it.id]? = some node → idx.resolve path = some it.id
  parent : it.parentId = none ∨ it.parentId = some q

def lookupInfo : Lookup → ChildInfo
  | .file info | .dir info _ => info

def isDirAnswer : Lookup → Bool
  | .file _ => false
  | .dir _ _ => true

def metaOf (info : ChildInfo) : ItemMeta := ⟨info.isDir, info.size, info.mtime, info.etag⟩

/-- The lookup answers with the kind and the size just written, a directory as one, and with
metadata of the write: those of the item or those of the fallback. -/
def ShowsWritten (item : Option DeltaItem) (itemMeta : ItemMeta) (result : Result (Option Lookup)) : Prop :=
  ∃ answer, result = .ok (some answer) ∧ isDirAnswer answer = itemMeta.isDir ∧
    (lookupInfo answer).isDir = itemMeta.isDir ∧ (lookupInfo answer).size = itemMeta.size ∧
    (metaOf (lookupInfo answer) = itemMeta ∨ ∃ it ∈ item, metaOf (lookupInfo answer) = it.itemMeta)

structure Readable (idx : Index) (path : String) (q : Id) (item : Option DeltaItem) (itemMeta : ItemMeta) : Prop where
  /-- An item without a parent is not applied: what is at the path then has to have the metadata. -/
  fresh : ∀ it ∈ item, it.parentId = none → ∀ (x : Id) (node : Node), idx.resolve path = some x →
    idx.nodes[x]? = some node → node.itemMeta = itemMeta ∨ node.itemMeta = it.itemMeta
  /-- The parent has a row, and a directory has one itself. -/
  shallow : (segments path).length ≤ if itemMeta.isDir then 63 else 64
  /-- A placeholder is not placed below itself. -/
  acyclic : idx.resolve path = none → (∀ it ∈ item, it.parentId = none) →
    ¬ Below idx.links (Index.placeholderId path) q

section Outcome
variable {idx : Index} {path : String} {q x : Id} {node : Node} {item : Option DeltaItem} {itemMeta : ItemMeta}

theorem Creates.run {write : LocalWrite} (creates : Creates path item write itemMeta) :
    write.run idx = applyOrUpsert idx item path itemMeta := by
  cases creates <;> rfl

theorem showsWritten_iff (kinds : ∀ it ∈ item, it.itemMeta.isDir = itemMeta.isDir ∧ it.itemMeta.size = itemMeta.size)
    {depth : Nat} {children : List ChildInfo} :
    ShowsWritten item itemMeta (.ok
        (if node.itemMeta.isDir = true ∧ depth < 64 then some (.dir (infoOf x node) children)
          else if depth ≤ 64 then some (.file (infoOf x node)) else none)) ↔
      (node.itemMeta = itemMeta ∨ ∃ it ∈ item, node.itemMeta = it.itemMeta) ∧
        depth ≤ if itemMeta.isDir then 63 else 64 := by
  have shown : metaOf (infoOf x node) = node.itemMeta := rfl
  have written : (node.itemMeta = itemMeta ∨ ∃ it ∈ item, node.itemMeta = it.itemMeta) →
      node.itemMeta.isDir = itemMeta.isDir ∧ node.itemMeta.size = itemMeta.size := by
    rintro (same | ⟨it, given, same⟩)
    · rw [same]
      exact ⟨rfl, rfl⟩
    · rw [same]
      exact kinds it given
  constructor
  · rintro ⟨answer, result, kind, isDir, size, metas⟩
    split at result
    · rename_i row
      cases result
      refine ⟨metas, ?_⟩
      rw [← kind, isDirAnswer, if_pos rfl]
      omega
    · split at result
      · rename_i short
        cases result
        refine ⟨metas, ?_⟩
        rw [← kind, isDirAnswer, if_neg Bool.false_ne_true]
        exact short
      · cases result
  · rintro ⟨metas, shallow⟩
    obtain ⟨isDir, size⟩ := written metas
    -- a directory is shown by its own row, so it is found one level less deep
    cases kind : itemMeta.isDir with
    | true =>
      rw [kind, if_pos rfl] at shallow
      rw [kind] at isDir
      rw [if_pos ⟨isDir, by omega⟩]
      exact ⟨_, rfl, kind.symm, isDir.trans kind.symm, size, metas⟩
    | false =>
      rw [kind, if_neg Bool.false_ne_true] at shallow
      rw [kind] at isDir
      rw [if_neg (by simp [isDir]), if_pos shallow]
      exact ⟨_, rfl, kind.symm, isDir.trans kind.symm, size, metas⟩

theorem files_after_write {json : MetaJson} {order : Index → List Id} (enumerates : ∀ idx, Enumerates (order idx) idx)
    {now : UInt64} {files : Files} (loaded : load (wasm32 json) files indexFile = .ok (some idx)) {write : LocalWrite}
    {out : Index} (ran : write.run idx = (out, true)) {ops : List FileOp}
    (saved : save (wasm32 json) (order out) now indexFile out = .ok ops) :
    ∃ bytes, Saves json out bytes ∧
      files.after (writeThrough (wasm32 json) order now files write) indexFile = some bytes := by
  obtain ⟨bytes, saves, rfl⟩ := saves_of_save enumerates saved
  refine ⟨bytes, saves, ?_⟩
  have written : writeThrough (wasm32 json) order now files write = StateFile.writeAtomic indexFile bytes := by
    simp only [writeThrough, mutate, loaded, ran, if_true, saved]
  rw [written, StateFile.after_writeAtomic, if_pos rfl]

end Outcome

/-! ## The routes of a write -/

/-- A canonical path below the root of an index, with a directory `q` as its parent. -/
structure Target (idx : Index) (path : String) (q : Id) : Prop where
  rep : idx.RepInv
  canonical : normalizePath path = path
  notRoot : segments path ≠ []
  parent : idx.resolve (parentPath path) = some q
  isDir : ∃ node, idx.nodes[q]? = some node ∧ (node.itemMeta.isDir = true ∨ idx.root = some q)

namespace Target

variable {json : MetaJson} {idx out : Index} {path : String} {q x : Id} {node : Node} {item : Option DeltaItem}
  {itemMeta : ItemMeta} {bytes : Bytes} {files : Files}

theorem split (target : Target idx path q) :
    ∃ front, segments path = front ++ [lastSegment path] ∧ Trail idx.links q front :=
  ⟨_, (Index.segments_eq_concat target.notRoot).1, (Index.resolve_eq_some_iff target.rep).mp target.parent⟩

theorem link_of_resolve (target : Target idx path q) (resolves : idx.resolve path = some x) :
    idx.links x = some (some q, lastSegment path) := by
  obtain ⟨front, split, up⟩ := target.split
  have trail := (Index.resolve_eq_some_iff target.rep).mp resolves
  rw [split] at trail
  obtain ⟨parent, link, upper⟩ := Trail.concat_iff.mp trail
  cases upper.injective target.rep.siblingsDiffer target.rep.singleTop up
  exact link

theorem shows_placed (target : Target idx path q) (alone : Alone idx path) (aloneParent : Alone idx (parentPath path))
    (roundTrips : json.RoundTrips) {it : DeltaItem} (saves : Saves json (idx.apply it) bytes)
    (held : files indexFile = some bytes) (live : it.PlacedUnder q) (name : it.name = lastSegment path)
    (aside : ¬ Below idx.links it.id q)
    (kinds : ∀ it ∈ item, it.itemMeta.isDir = itemMeta.isDir ∧ it.itemMeta.size = itemMeta.size)
    (written : it.itemMeta = itemMeta ∨ ∃ given ∈ item, it.itemMeta = given.itemMeta) :
    ShowsWritten item itemMeta (lookupFile (wasm32 json) files.host path) ↔
      (segments path).length ≤ if itemMeta.isDir then 63 else 64 := by
  obtain ⟨front, split, up⟩ := target.split
  obtain ⟨parent, foundParent, isDir⟩ := target.isDir
  rw [saves.lookup_placed roundTrips held target.rep target.canonical alone aloneParent live up aside
    (name ▸ split) foundParent isDir (Index.apply_placed target.rep live).node, showsWritten_iff kinds]
  exact and_iff_right written

theorem shows_found (target : Target idx path q) (roundTrips : json.RoundTrips) (saves : Saves json out bytes)
    (held : files indexFile = some bytes) (rep : out.RepInv) (alone : Alone out path)
    (aloneParent : Alone out (parentPath path)) (links : out.links = idx.links) (root : out.root = idx.root)
    (sameParent : out.nodes[q]? = idx.nodes[q]?) (resolves : idx.resolve path = some x)
    (found : out.nodes[x]? = some node)
    (kinds : ∀ it ∈ item, it.itemMeta.isDir = itemMeta.isDir ∧ it.itemMeta.size = itemMeta.size) :
    ShowsWritten item itemMeta (lookupFile (wasm32 json) files.host path) ↔
      (node.itemMeta = itemMeta ∨ ∃ it ∈ item, node.itemMeta = it.itemMeta) ∧
        (segments path).length ≤ if itemMeta.isDir then 63 else 64 := by
  obtain ⟨front, split, up⟩ := target.split
  obtain ⟨parent, foundParent, isDir⟩ := target.isDir
  have link := target.link_of_resolve resolves
  rw [← links] at up link
  rw [saves.lookup_node roundTrips held rep target.canonical split alone aloneParent up (sameParent.trans foundParent)
    (root ▸ isDir) link found]
  exact showsWritten_iff kinds

theorem not_shows_cut_off (target : Target idx path q) (alone : Alone idx path)
    (aloneParent : Alone idx (parentPath path)) (roundTrips : json.RoundTrips) {it : DeltaItem}
    (saves : Saves json (idx.apply it) bytes) (held : files indexFile = some bytes) (live : it.PlacedUnder q)
    (above : Below idx.links it.id q) (nowhere : idx.resolve path = none) :
    ¬ ShowsWritten item itemMeta (lookupFile (wasm32 json) files.host path) := by
  rw [saves.lookup_cut_off roundTrips held target.rep target.canonical alone aloneParent live above nowhere
    target.parent]
  rintro ⟨_, answered, _⟩
  cases answered

end Target

/-! ## What the write does -/

open Index (placeholder placedUnder_placeholder)

section Routes
variable {idx : Index} {path : String} {q x : Id} {item : Option DeltaItem} {itemMeta : ItemMeta}

theorem Returned.kinds (returned : ∀ it ∈ item, Returned idx path q itemMeta it) :
    ∀ it ∈ item, it.itemMeta.isDir = itemMeta.isDir ∧ it.itemMeta.size = itemMeta.size :=
  fun it given => ⟨(returned it given).isDir, (returned it given).size⟩

theorem Returned.aside {it : DeltaItem} (returned : Returned idx path q itemMeta it) (target : Target idx path q) :
    ¬ Below idx.links it.id q := by
  intro above
  obtain ⟨front, split, up⟩ := target.split
  obtain ⟨start, rest, rfl, upper⟩ := Trail.of_below above up
  obtain ⟨_, present⟩ := upper.exists_link
  obtain ⟨node, found, _⟩ := Option.map_eq_some_iff.mp present
  have there := (Index.resolve_eq_some_iff target.rep).mp (returned.unused node found)
  have lengths := congrArg List.length (split.symm.trans (there.unique upper))
  simp only [List.length_append, List.length_singleton] at lengths
  omega

theorem Returned.apply_parentless {it : DeltaItem} (returned : Returned idx path q itemMeta it)
    (parentless : it.parentId = none) : idx.apply it = idx := by
  simp [Index.apply, returned.id, returned.live, returned.notRoot, parentless]

theorem Target.upsert_new (target : Target idx path q) (nowhere : idx.resolve path = none) :
    idx.upsertAtPath path itemMeta = (idx.apply (placeholder path q itemMeta), true) :=
  Index.upsertAtPath_placed target.notRoot nowhere target.parent

theorem Target.upsert_found (target : Target idx path q) (resolves : idx.resolve path = some x) :
    idx.upsertAtPath path itemMeta =
      ({ idx with nodes := idx.nodes.modify x fun node => { node with itemMeta } }, true) :=
  Index.upsertAtPath_found target.rep resolves

theorem Target.upsert_ran (target : Target idx path q) :
    idx.upsertAtPath path itemMeta = ((idx.upsertAtPath path itemMeta).1, true) := by
  cases resolves : idx.resolve path with
  | some x => rw [target.upsert_found resolves]
  | none => rw [target.upsert_new resolves]

/-- The three routes: the fallback, the fast path with an answer that is not applied, and the fast path
with one that is. -/
theorem Creates.routes {write : LocalWrite} (creates : Creates path item write itemMeta) (target : Target idx path q)
    (returned : ∀ it ∈ item, Returned idx path q itemMeta it) :
    ((∀ it ∈ item, it.parentId = none ∧ idx.resolve path = none) ∧
        write.run idx = idx.upsertAtPath path itemMeta) ∨
      (∃ it x, item = some it ∧ it.parentId = none ∧ idx.resolve path = some x ∧ write.run idx = (idx, true)) ∨
      ∃ it, item = some it ∧ it.PlacedUnder q ∧ write.run idx = (idx.apply it, true) := by
  rw [creates.run]
  cases item with
  | none => exact .inl ⟨by simp, rfl⟩
  | some it =>
    have answer := returned it rfl
    rcases answer.parent with parentless | placed
    · have same := answer.apply_parentless parentless
      cases resolves : idx.resolve path with
      | none =>
        refine .inl ⟨by simp [parentless], ?_⟩
        simp [applyOrUpsert, same, resolves]
      | some x => exact .inr (.inl ⟨it, x, rfl, parentless, rfl, by simp [applyOrUpsert, same, resolves]⟩)
    · have live : it.PlacedUnder q := ⟨answer.id, answer.live, answer.notRoot, placed⟩
      have aside := answer.aside target
      obtain ⟨front, split, up⟩ := target.split
      have trail := Index.trail_own target.rep live up aside
      rw [answer.name, ← split] at trail
      have lands := (Index.resolve_eq_some_iff (Index.apply_aside_repInv target.rep live up aside)).mpr trail
      exact .inr (.inr ⟨it, rfl, live, by simp [applyOrUpsert, lands]⟩)

end Routes

/-! ## Reading the write back -/

section Main
variable {json : MetaJson} {idx : Index} {path : String} {q : Id} {item : Option DeltaItem} {itemMeta : ItemMeta}
  {bytes : Bytes} {files : Files}

theorem Target.shows_upserted (target : Target idx path q) (alone : Alone idx path)
    (aloneParent : Alone idx (parentPath path)) (roundTrips : json.RoundTrips)
    (kinds : ∀ it ∈ item, it.itemMeta.isDir = itemMeta.isDir ∧ it.itemMeta.size = itemMeta.size)
    (saves : Saves json (idx.upsertAtPath path itemMeta).1 bytes) (held : files indexFile = some bytes) :
    ShowsWritten item itemMeta (lookupFile (wasm32 json) files.host path) ↔
      ((segments path).length ≤ if itemMeta.isDir then 63 else 64) ∧
        (idx.resolve path = none → ¬ Below idx.links (Index.placeholderId path) q) := by
  cases resolves : idx.resolve path with
  | some x =>
    rw [target.upsert_found resolves] at saves
    have link := target.link_of_resolve resolves
    obtain ⟨node, found, _⟩ := Index.links_eq_some_iff.mp link
    have links := Index.links_modify_meta idx x itemMeta
    -- the parent is not the node that is written, which would hang below itself
    have other : q ≠ x := by
      rintro rfl
      obtain ⟨_, _, up⟩ := target.split
      exact up.not_child_below ⟨_, link⟩ .refl
    have shown := target.shows_found roundTrips saves held
      (target.rep.congr links (fun _ => rfl) (Eq.refl idx.root))
      (alone.modify target.rep resolves target.canonical itemMeta)
      (aloneParent.modify target.rep resolves target.canonical itemMeta) links rfl
      (by rw [Library.Collections.lookup_modify, if_neg other]) resolves
      (by rw [Library.Collections.lookup_modify, if_pos rfl, found]; rfl) kinds
    rw [shown]
    simp
  | none =>
    rw [target.upsert_new resolves] at saves
    have live := placedUnder_placeholder path q itemMeta
    -- a placeholder that is put below itself cuts itself off, and its path leads nowhere
    by_cases above : Below idx.links (Index.placeholderId path) q
    · have hidden : ¬ ShowsWritten item itemMeta (lookupFile (wasm32 json) files.host path) :=
        target.not_shows_cut_off alone aloneParent roundTrips saves held live above resolves
      exact iff_of_false hidden fun readable => readable.2 rfl above
    · rw [target.shows_placed alone aloneParent roundTrips saves held live rfl above kinds (.inl rfl)]
      exact (and_iff_left fun _ => above).symm

theorem reads_back_iff (roundTrips : json.RoundTrips) (order : Index → List Id)
    (enumerates : ∀ idx, Enumerates (order idx) idx) (now : UInt64) (files : Files)
    (loaded : load (wasm32 json) files indexFile = .ok (some idx)) (target : Target idx path q)
    (alone : Alone idx path) (aloneParent : Alone idx (parentPath path)) {write : LocalWrite}
    (creates : Creates path item write itemMeta) (returned : ∀ it ∈ item, Returned idx path q itemMeta it)
    {ops : List FileOp} (saved : save (wasm32 json) (order (write.run idx).1) now indexFile (write.run idx).1 = .ok ops) :
    ShowsWritten item itemMeta
        (lookupFile (wasm32 json) (files.after (writeThrough (wasm32 json) order now files write)).host path) ↔
      Readable idx path q item itemMeta := by
  have kinds := Returned.kinds returned
  -- by path; found in its place with the answer ignored; or placed by the answer
  rcases creates.routes target returned with ⟨unplaced, ran⟩ | ⟨it, x, rfl, parentless, resolves, ran⟩ | ⟨it, rfl, live, ran⟩
  · obtain ⟨bytes, saves, held⟩ := files_after_write enumerates loaded (ran.trans target.upsert_ran) (ran ▸ saved)
    rw [target.shows_upserted alone aloneParent roundTrips kinds saves held]
    constructor
    · rintro ⟨shallow, acyclic⟩
      refine ⟨fun it given _ x _ resolves => ?_, shallow, fun nowhere _ => acyclic nowhere⟩
      cases (unplaced it given).2.symm.trans resolves
    · exact fun readable => ⟨readable.shallow, fun nowhere => readable.acyclic nowhere fun it given => (unplaced it given).1⟩
  · rw [ran] at saved
    obtain ⟨bytes, saves, held⟩ := files_after_write enumerates loaded ran saved
    obtain ⟨node, found, _⟩ := Index.links_eq_some_iff.mp (target.link_of_resolve resolves)
    rw [target.shows_found roundTrips saves held target.rep alone aloneParent rfl rfl rfl resolves found kinds]
    constructor
    · rintro ⟨metas, shallow⟩
      refine ⟨?_, shallow, fun nowhere => ?_⟩
      · rintro _ ⟨⟩ _ y other there present
        cases resolves.symm.trans there
        cases found.symm.trans present
        exact metas.imp_right fun ⟨_, given, same⟩ => Option.some.inj given ▸ same
      · cases nowhere.symm.trans resolves
    · exact fun readable => ⟨(readable.fresh it rfl parentless x node resolves found).imp_right fun same => ⟨it, rfl, same⟩,
        readable.shallow⟩
  · rw [ran] at saved
    obtain ⟨bytes, saves, held⟩ := files_after_write enumerates loaded ran saved
    have answer := returned it rfl
    rw [target.shows_placed alone aloneParent roundTrips saves held live answer.name (answer.aside target) kinds
      (.inr ⟨it, rfl, rfl⟩)]
    have placed : it.parentId ≠ none := by simp [live.parent]
    refine ⟨fun shallow => ⟨?_, shallow, fun _ parentless => absurd (parentless it rfl) placed⟩, Readable.shallow⟩
    rintro _ ⟨⟩ parentless
    exact absurd parentless placed

/-- Some intact index was saved in the live snapshot. -/
def Stored (json : MetaJson) (files : Files) : Prop :=
  ∃ before bytes, files indexFile = some bytes ∧ Saves json before bytes ∧ before.RepInv

theorem Stored.alone (roundTrips : json.RoundTrips) (stored : Stored json files)
    (loaded : load (wasm32 json) files indexFile = .ok (some idx)) (inv : idx.RepInv) (path : String) : Alone idx path := by
  obtain ⟨before, bytes, held, saves, rep⟩ := stored
  obtain ⟨out, same, decoded, _⟩ := load_saves roundTrips held saves
  cases same.symm.trans loaded
  exact saves.alone roundTrips rep decoded inv path

end Main

def holding (idx : Index) : Files := fun name => if name = indexFile then some (snapshotOf idx) else none

def loadedAB : Index := loadedFrom (snapshotOf (Index.ofTree foldersAB))

theorem encodes_foldersAB : (encode (wasm32 metaText) (Index.ofTree foldersAB).nodes.keys 7
    (Index.ofTree foldersAB)).isOk = true := by decide +kernel

theorem saves_foldersAB : Saves metaText (Index.ofTree foldersAB) (snapshotOf (Index.ofTree foldersAB)) :=
  saves_snapshotOf encodes_foldersAB

theorem loadedAB_eq :
    loadedAB = restored (Index.ofTree foldersAB) (sortedDirs (Index.ofTree foldersAB) (Index.ofTree foldersAB).nodes.keys) :=
  loadedFrom_snapshotOf encodes_foldersAB

theorem represents_loadedAB : Represents loadedAB foldersAB := by
  have represents := represents_ofTree foldersAB
  have folders : foldersAB.FoldersOnly := NodeTree.foldersOnly_of_list (by decide)
  have depth : foldersAB.DepthLe 63 := NodeTree.depthLe_of_climb (by decide)
  obtain ⟨out, decoded, restored⟩ :=
    saves_foldersAB.decode_storable metaText_roundTrips (storable_of_holds represents folders)
  have same : loadedAB = out := by rw [loadedAB, loadedFrom, decoded]
  rw [same]
  refine (represents.restored restored).all fun found => ?_
  obtain ⟨segs, trail⟩ := foldersAB.rooted found
  exact ⟨segs, represents.trail_iff.mpr trail, Nat.le_succ_of_le (depth trail)⟩

theorem load_holding : load (wasm32 metaText) (holding (Index.ofTree foldersAB)) indexFile = .ok (some loadedAB) := by
  have held : holding (Index.ofTree foldersAB) indexFile = some (snapshotOf (Index.ofTree foldersAB)) := if_pos rfl
  obtain ⟨out, loaded, decoded, _⟩ := load_saves metaText_roundTrips held saves_foldersAB
  rw [loaded, ← Except.ok.inj ((decode_loadedFrom saves_foldersAB).symm.trans decoded)]
  rfl

theorem target_loadedAB {path : String} {q : Id} (canonical : normalizePath path = path) (notRoot : segments path ≠ [])
    (isDir : (foldersAB.nodes[q]?).any (·.itemMeta.isDir) = true) (parent : loadedAB.resolve (parentPath path) = some q) :
    Target loadedAB path q := by
  have same : (loadedAB.nodes[q]?).map Node.eraseTop = foldersAB.nodes[q]? := represents_loadedAB.inside trivial
  rw [← same, Option.any_map, Option.any_eq_true] at isDir
  obtain ⟨node, found, isDir⟩ := isDir
  refine ⟨represents_loadedAB.rep, canonical, notRoot, parent, node, found, .inl ?_⟩
  rw [← eraseTop_itemMeta]
  exact isDir

theorem stored_holding : Stored metaText (holding (Index.ofTree foldersAB)) :=
  ⟨_, _, if_pos rfl, saves_foldersAB, (represents_ofTree foldersAB).rep⟩

theorem alone_loadedAB (path : String) : Alone loadedAB path :=
  stored_holding.alone metaText_roundTrips load_holding represents_loadedAB.rep path

def newFile : DeltaItem := ⟨"n", some "r", "n.txt", false, false, ⟨false, 5, 0, ""⟩⟩

def parentlessItem : DeltaItem := ⟨"f", none, "f.txt", false, false, ⟨false, 5, 0, ""⟩⟩

end Dav

end OneDriveDavfs
