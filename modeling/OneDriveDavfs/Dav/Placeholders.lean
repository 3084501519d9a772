import OneDriveDavfs.Dav.WriteThrough
import OneDriveDavfs.Index.Delta

/-! What becomes of the placeholders of local writes.

A placeholder has an id that Graph does not know. The crawl that follows can
only evict it, by the record of an item of the same name in the same folder, or
take it away together with its folder.
-/

set_option autoImplicit false

namespace OneDriveDavfs

open Std Library.Forest

namespace Dav

/-! ## The crawl that follows -/

def IsPlaceholder (id : Id) : Prop := ∃ path, id = Index.placeholderId path

/-- A crawl from the token of `S`: every record says what the drive has now, and everything that
changed has one. -/
structure IsCrawl (S T : DriveTree) (items : List DeltaItem) : Prop where
  root : S.root = T.root
  graphIds : ∀ it ∈ items, it.id ≠ "" ∧ ¬ IsPlaceholder it.id
  realRoot : ¬ IsPlaceholder T.root
  tells : ∀ it ∈ items, T.Tells it
  changed : ∀ {id}, S.nodes[id]? ≠ T.nodes[id]? → id ∈ items.map DeltaItem.id

def crawled (idx : Index) (items : List DeltaItem) : Index := (items.foldl Index.apply idx).sweepOrphans

/-! ## The writes before it -/

def LocalWrite.item : LocalWrite → Option DeltaItem
  | .put _ _ item | .mkcol _ item | .move _ _ item => item
  | .delete _ => none

/-- An item of an answer is one of the drive, and the crawl reports it. -/
structure Answered (root : Id) (items : List DeltaItem) (it : DeltaItem) : Prop where
  graphId : ¬ IsPlaceholder it.id
  rootFacet : it.deleted = false → (it.isRoot = true ↔ it.id = root)
  reported : it.id ∈ items.map DeltaItem.id

/-- Where a move is made by path, the item that the index has there is a placeholder or one that
the crawl reports, and not the root. -/
def LocalWrite.MovesReported (root : Id) (items : List DeltaItem) (idx : Index) : LocalWrite → Prop
  | .move path destination item =>
    let idx := (item.map idx.apply).getD idx
    (item = none ∨ idx.resolve destination = none) → ∀ id, idx.resolve path = some id →
      id ≠ root ∧ (IsPlaceholder id ∨ id ∈ items.map DeltaItem.id)
  | _ => True

/-- Local writes one after the other. -/
inductive Writing (root : Id) (items : List DeltaItem) (start : Index) : List LocalWrite → Index → Prop where
  | start : Writing root items start [] start
  | write {writes : List LocalWrite} {idx : Index} {write : LocalWrite} : Writing root items start writes idx →
      (∀ it ∈ write.item, Answered root items it) → write.MovesReported root items idx →
      Writing root items start (writes ++ [write]) (write.run idx).1

/-- The crawl has a live record at the place of the node, or a tombstone for the folder of the
node; or that holds of a placeholder that the node is in. -/
inductive Superseded (items : List DeltaItem) (idx : Index) : Id → Prop where
  | name {l q : Id} {it : DeltaItem} : idx.links l = some (some q, it.name) → it ∈ items → it.PlacedUnder q →
      Superseded items idx l
  | folder {l q : Id} {name : String} {it : DeltaItem} : idx.links l = some (some q, name) → it ∈ items →
      it.deleted = true → it.id = q → Superseded items idx l
  | above {l q : Id} {name : String} : idx.links l = some (some q, name) → IsPlaceholder q →
      Superseded items idx q → Superseded items idx l

/-! ## Links that are accounted for -/

/-- Every link below the root is the one of the drive, except those of the given ids. -/
def Accounted (T : DriveTree) (excused : Id → Prop) (idx : Index) : Prop :=
  ∀ (x p : Id) (name : String), idx.links x = some (some p, name) → excused x ∨ T.links x = some (some p, name)

section Accounted
variable {T : DriveTree} {excused : Id → Prop} {idx out : Index}

theorem Accounted.of_links (accounted : Accounted T excused idx)
    (same : ∀ {x link}, out.links x = some link → excused x ∨ idx.links x = some link) : Accounted T excused out :=
  fun x p name link => (same link).elim .inl (accounted x p name)

theorem links_of_pruned {gone : Id → Prop} (pruned : Index.Pruned idx gone out) {x : Id} {link : Option Id × String}
    (found : out.links x = some link) : idx.links x = some link := by
  by_cases removed : gone x
  · simp [Index.links, pruned.dropped removed] at found
  · exact Index.links_of_nodes (pruned.kept removed) ▸ found

theorem Accounted.apply (accounted : Accounted T excused idx) (rep : Index.RepInv idx) {it : DeltaItem}
    (own : excused it.id) : Accounted T excused (idx.apply it) := by
  refine accounted.of_links fun {x link} found => ?_
  by_cases same : x = it.id
  · exact .inl (same ▸ own)
  · exact .inr (Index.links_apply_other rep same found)

theorem Accounted.pruned (accounted : Accounted T excused idx) {gone : Id → Prop} (pruned : Index.Pruned idx gone out) :
    Accounted T excused out := accounted.of_links fun found => .inr (links_of_pruned pruned found)

theorem Accounted.upsertAtPath (accounted : Accounted T excused idx) (rep : Index.RepInv idx) (path : String)
    (itemMeta : ItemMeta) (own : excused (Index.placeholderId path)) :
    Accounted T excused (idx.upsertAtPath path itemMeta).1 := by
  unfold Index.upsertAtPath
  split
  · exact accounted.of_links fun found => .inr (Index.links_modify_meta idx _ _ ▸ found)
  · dsimp only
    split
    · exact accounted
    · split
      · exact accounted
      · exact accounted.apply rep own

theorem Accounted.moveAtPath (accounted : Accounted T excused idx) (rep : Index.RepInv idx) {source dest : String}
    (own : ∀ id, idx.resolve source = some id → excused id) : Accounted T excused (idx.moveAtPath source dest).1 := by
  unfold Index.moveAtPath
  split
  · exact accounted
  · rename_i id resolved
    split
    · exact accounted
    · dsimp only
      split
      · exact accounted
      · split
        · exact accounted
        · exact accounted.apply rep (own id resolved)

end Accounted

section Writes
variable {S T : DriveTree} {items : List DeltaItem} {start idx : Index}

/-- The ids whose links the crawl settles. -/
def Unsettled (items : List DeltaItem) (x : Id) : Prop := IsPlaceholder x ∨ x ∈ items.map DeltaItem.id

/-- What holds of the index before the crawl and during it. -/
structure Tracks (T : DriveTree) (items : List DeltaItem) (idx : Index) : Prop where
  run : Index.RunInv T.root idx
  links : Accounted T (Unsettled items) idx

theorem Tracks.applyOrUpsert (tracks : Tracks T items idx) (realRoot : ¬ IsPlaceholder T.root) {item : Option DeltaItem}
    (answered : ∀ it ∈ item, Answered T.root items it) (path : String) (itemMeta : ItemMeta) :
    Tracks T items (Dav.applyOrUpsert idx item path itemMeta).1 := by
  have real : ∀ path, T.root ≠ Index.placeholderId path := fun path same => realRoot ⟨path, same⟩
  have upsert : ∀ {idx : Index}, Tracks T items idx → Tracks T items (idx.upsertAtPath path itemMeta).1 := fun tracks =>
    ⟨tracks.run.upsertAtPath real path itemMeta, tracks.links.upsertAtPath tracks.run.rep path itemMeta (.inl ⟨path, rfl⟩)⟩
  unfold Dav.applyOrUpsert
  split
  · exact upsert tracks
  · rename_i it
    have ofGraph := answered it rfl
    have applied : Tracks T items (idx.apply it) :=
      ⟨tracks.run.apply ofGraph.rootFacet, tracks.links.apply tracks.run.rep (.inr ofGraph.reported)⟩
    dsimp only
    split
    · exact applied
    · exact upsert applied

theorem Tracks.moveThrough (tracks : Tracks T items idx) {item : Option DeltaItem} {path destination : String}
    (answered : ∀ it ∈ item, Answered T.root items it)
    (reported : (LocalWrite.move path destination item).MovesReported T.root items idx) :
    Tracks T items (Dav.moveThrough idx item path destination).1 := by
  have move : ∀ {idx : Index}, Tracks T items idx → (∀ id, idx.resolve path = some id →
      id ≠ T.root ∧ Unsettled items id) → Tracks T items (idx.moveAtPath path destination).1 := by
    intro idx tracks settled
    exact ⟨tracks.run.moveAtPath fun same => (settled _ same).1 rfl,
      tracks.links.moveAtPath tracks.run.rep fun id resolved => (settled id resolved).2⟩
  unfold Dav.moveThrough
  split
  · exact move tracks (reported (.inl rfl))
  · rename_i it
    have ofGraph := answered it rfl
    have applied : Tracks T items (idx.apply it) :=
      ⟨tracks.run.apply ofGraph.rootFacet, tracks.links.apply tracks.run.rep (.inr ofGraph.reported)⟩
    dsimp only
    split
    · exact applied
    · rename_i missing
      exact move applied (reported (.inr (Option.not_isSome_iff_eq_none.mp missing)))

theorem Tracks.write (tracks : Tracks T items idx) (realRoot : ¬ IsPlaceholder T.root) {write : LocalWrite}
    (answered : ∀ it ∈ write.item, Answered T.root items it) (reported : write.MovesReported T.root items idx) :
    Tracks T items (write.run idx).1 := by
  cases write with
  | put path size item => exact tracks.applyOrUpsert realRoot answered path _
  | mkcol path item => exact tracks.applyOrUpsert realRoot answered path _
  | delete path =>
    simp only [LocalWrite.run, Index.removeAtPath]
    split
    · exact ⟨tracks.run.remove _, tracks.links.pruned (Index.remove_pruned tracks.run.rep.sound _)⟩
    · exact tracks
  | move path destination item => exact tracks.moveThrough answered reported

theorem IsCrawl.tracks (crawl : IsCrawl S T items) (represents : Represents start S) : Tracks T items start where
  run := crawl.root ▸ HoldsAs.runInv represents
  links := by
    intro x p name link
    have inStart := (represents.link_inner.mp link).2
    by_cases same : S.nodes[x]? = T.nodes[x]?
    · right
      rw [NodeTree.links, treeLinks, ← same]
      exact inStart
    · exact .inl (.inr (crawl.changed same))

theorem Writing.tracks (crawl : IsCrawl S T items) (represents : Represents start S) {writes : List LocalWrite}
    (writing : Writing T.root items start writes idx) : Tracks T items idx := by
  induction writing with
  | start => exact crawl.tracks represents
  | write _ answered reported ih => exact ih.write crawl.realRoot answered reported

end Writes

/-! ## The crawl, record by record -/

section Crawl
variable {T : DriveTree} {idx : Index} {it : DeltaItem} {rest : List DeltaItem}

theorem tells_allowed (tells : T.Tells it) : (Index.Op.apply it).Allowed T.root idx := by
  intro live
  unfold DriveTree.Tells at tells
  split at tells
  · rw [live] at tells
    cases tells
  · rename_i node found
    rw [tells.2.1]
    constructor
    · exact T.onlyRoot found
    · intro same
      obtain ⟨itemMeta, record⟩ := T.rootRecord
      rw [same, record] at found
      cases found
      rfl

theorem links_apply_own (rep : Index.RepInv idx) (named : it.id ≠ "") (tells : T.Tells it) {p : Id} {name : String}
    (found : (idx.apply it).links it.id = some (some p, name)) : T.links it.id = some (some p, name) := by
  cases present : T.nodes[it.id]? with
  | none =>
    have removal : idx.apply it = idx.remove it.id := by simp [Index.apply, named, tells.deleted present]
    rw [removal, Index.links, (Index.remove_pruned rep.sound it.id).dropped .refl] at found
    cases found
  | some node =>
    cases parent : node.parent with
    | none =>
      obtain ⟨_, live, isRoot, _⟩ := tells.takesRoot present parent
      simp [Index.apply, named, live, isRoot, Index.links] at found
    | some q =>
      obtain ⟨live, record⟩ := tells.placedUnder present parent
      rw [Index.links, (Index.apply_placed rep live).node] at found
      cases found
      exact NodeTree.links_eq_some_iff.mpr ⟨node, present, parent, by rw [record]⟩

theorem Tracks.apply (tracks : Tracks T (it :: rest) idx) (named : it.id ≠ "") (tells : T.Tells it) :
    Tracks T rest (idx.apply it) where
  run := tracks.run.apply (tells_allowed tells)
  links := by
    intro x p name found
    by_cases own : x = it.id
    · subst own
      exact .inr (links_apply_own tracks.run.rep named tells found)
    · rcases tracks.links x p name (Index.links_apply_other tracks.run.rep own found) with (placeholder | reported) | same
      · exact .inl (.inl placeholder)
      · exact .inl (.inr ((List.mem_cons.mp reported).resolve_left own))
      · exact .inr same

theorem Superseded.exists_link {items : List DeltaItem} {l : Id} (superseded : Superseded items idx l) :
    ∃ link, idx.links l = some link := by
  cases superseded with
  | name link _ _ => exact ⟨_, link⟩
  | folder link _ _ _ => exact ⟨_, link⟩
  | above link _ _ => exact ⟨_, link⟩

/-- A record that supersedes a node takes it away; the others leave it superseded. -/
theorem Superseded.apply (rep : Index.RepInv idx) (graphId : it.id ≠ "" ∧ ¬ IsPlaceholder it.id) {l : Id}
    (superseded : Superseded (it :: rest) idx l) (placeholder : IsPlaceholder l)
    (stays : (idx.apply it).nodes[l]? ≠ none) : Superseded rest (idx.apply it) l := by
  have other : ∀ {l}, IsPlaceholder l → l ≠ it.id := fun placeholder same => graphId.2 (same ▸ placeholder)
  -- a placeholder that stays keeps its link, since records have ids of Graph
  have kept : ∀ {l link}, IsPlaceholder l → (idx.apply it).nodes[l]? ≠ none → idx.links l = some link →
      (idx.apply it).links l = some link := by
    intro l link placeholder stays found
    obtain ⟨node, present⟩ := Option.ne_none_iff_exists'.mp stays
    have there : (idx.apply it).links l = some (node.parent, node.name) :=
      Index.links_eq_some_iff.mpr ⟨node, present, rfl, rfl⟩
    cases found.symm.trans (Index.links_apply_other rep (other placeholder) there)
    exact there
  induction superseded with
  | @name l q j link member placed =>
    refine (List.mem_cons.mp member).elim (fun same => ?_) fun later =>
      .name (kept placeholder stays link) later placed
    subst same
    have evicted := Index.evicted_of_sibling rep (other placeholder) (rep.filed link)
    exact absurd ((Index.apply_placed rep placed).dropped (other placeholder) evicted) stays
  | @folder l q name j link member deleted own =>
    refine (List.mem_cons.mp member).elim (fun same => ?_) fun later =>
      .folder (kept placeholder stays link) later deleted own
    subst same
    have removal : idx.apply j = idx.remove j.id := by simp [Index.apply, graphId.1, deleted]
    rw [removal] at stays
    have under : idx.Under j.id l := .single ⟨name, own ▸ rep.filed link⟩
    exact absurd ((Index.remove_pruned rep.sound j.id).dropped under) stays
  | @above l q name link inPlaceholder inside ih =>
    have present : idx.nodes[q]? ≠ none := by
      obtain ⟨_, link⟩ := inside.exists_link
      obtain ⟨node, found, _⟩ := Index.links_eq_some_iff.mp link
      simp [found]
    -- were the folder gone, what is in it would be gone as well
    have folderStays : (idx.apply it).nodes[q]? ≠ none := fun gone =>
      stays (Index.apply_takes_kids rep ⟨name, rep.filed link⟩ (other inPlaceholder) (other placeholder) present gone)
    exact .above (kept placeholder stays link) inPlaceholder (ih inPlaceholder folderStays)

theorem Superseded.foldl (tracks : Tracks T rest idx) (graphIds : ∀ it ∈ rest, it.id ≠ "" ∧ ¬ IsPlaceholder it.id)
    (tells : ∀ it ∈ rest, T.Tells it)
    (superseded : ∀ l, IsPlaceholder l → idx.nodes[l]? ≠ none → Superseded rest idx l) :
    Tracks T [] (rest.foldl Index.apply idx) ∧
      ∀ l, IsPlaceholder l → (rest.foldl Index.apply idx).nodes[l]? = none := by
  induction rest generalizing idx with
  | nil =>
    refine ⟨tracks, fun l placeholder => ?_⟩
    by_contra present
    -- with nothing left to report, nothing supersedes
    have none_left : ∀ {x}, ¬ Superseded [] idx x := by
      intro x left
      induction left with
      | name _ member _ => cases member
      | folder _ member _ _ => cases member
      | above _ _ _ ih => exact ih
    exact none_left (superseded l placeholder present)
  | cons it rest ih =>
    have graphId := graphIds it List.mem_cons_self
    have first := tracks.apply graphId.1 (tells it List.mem_cons_self)
    refine ih first (fun later member => graphIds later (List.mem_cons_of_mem _ member))
      (fun later member => tells later (List.mem_cons_of_mem _ member)) fun l placeholder stays => ?_
    -- an item of the drive makes no placeholder, so this one was there before
    have before : idx.nodes[l]? ≠ none := by
      obtain ⟨node, present⟩ := Option.ne_none_iff_exists'.mp stays
      have link := Index.links_apply_other tracks.run.rep (fun same => graphId.2 (same ▸ placeholder))
        (Index.links_eq_some_iff.mpr ⟨node, present, rfl, rfl⟩)
      obtain ⟨other, found, _⟩ := Index.links_eq_some_iff.mp link
      simp [found]
    exact (superseded l placeholder before).apply tracks.run.rep graphId placeholder stays

end Crawl

theorem prefix_of_isPlaceholder {id : Id} (placeholder : IsPlaceholder id) :
    "local:".toList.isPrefixOf id.toList = true := by
  obtain ⟨path, rfl⟩ := placeholder
  rw [List.isPrefixOf_iff_prefix, Index.placeholderId, String.toList_append]
  exact List.prefix_append _ _

theorem isCrawl_of_delta {S T : DriveTree} {items : List DeltaItem} (delta : IsDelta S T items)
    (sameRoot : S.nodes[T.root]? = T.nodes[T.root]?)
    (graphIds : ∀ id ∈ T.root :: items.map DeltaItem.id, id ≠ "" ∧ "local:".toList.isPrefixOf id.toList = false) :
    IsCrawl S T items := by
  have real : ∀ {id}, "local:".toList.isPrefixOf id.toList = false → ¬ IsPlaceholder id := fun plain placeholder => by
    rw [prefix_of_isPlaceholder placeholder] at plain
    cases plain
  refine ⟨delta.root, fun it member => ?_, ?_, delta.tells, fun {id} differ => ?_⟩
  · obtain ⟨named, plain⟩ := graphIds it.id (List.mem_cons_of_mem _ (List.mem_map_of_mem member))
    exact ⟨named, real plain⟩
  · exact real (graphIds T.root List.mem_cons_self).2
  · refine (delta.differ id).mpr ⟨fun own => differ ?_, differ⟩
    rw [own, sameRoot]

def filePut : DriveTree :=
  .ofChecked ((twoFolders "A" "B").insert "n" ⟨some "r", "n.txt", ⟨false, 5, 0, ""⟩⟩) "r" (by decide)

def fileRenamed : DriveTree :=
  .ofChecked ((twoFolders "A" "B").insert "n" ⟨some "r", "m.txt", ⟨false, 5, 0, ""⟩⟩) "r" (by decide)

def fileItem (name : String) : DeltaItem := ⟨"n", some "r", name, false, false, ⟨false, 5, 0, ""⟩⟩

/-- The index after the file was put with an answer that does not parse. -/
def unanswered : Index := ((LocalWrite.put "/n.txt" 5 none).run (Index.ofTree foldersAB)).1

theorem writing_unanswered (items : List DeltaItem) :
    Writing "r" items (Index.ofTree foldersAB) [.put "/n.txt" 5 none] unanswered :=
  .write .start (fun _ given => nomatch given) trivial

end Dav

end OneDriveDavfs
