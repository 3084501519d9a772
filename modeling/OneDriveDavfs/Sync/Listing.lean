import OneDriveDavfs.Dav.Listing
import OneDriveDavfs.Sync.Crawl

/-! Listings that the snapshot of a crawl answers.

A directory that has a row is listed with the children that are in the file.
So every listing is whole only while the file holds no directory without all
its children: before anything came, or once everything has come.
-/

set_option autoImplicit false

namespace OneDriveDavfs

open Library.Collections Library.Forest Library.Wire Snapshot Dav

namespace DriveTree

def Shows (T : DriveTree) (entry : DavEntry) (id : Id) : Prop :=
  Trail T.links id (segments entry.href) ∧ ∃ node, T.nodes[id]? = some node ∧
    entry.isDir = node.itemMeta.isDir ∧ entry.size = node.itemMeta.size ∧
    entry.lastModified = node.itemMeta.mtime ∧ entry.etag = node.itemMeta.etag

def ListsWhole (T : DriveTree) (id : Id) (entries : List DavEntry) : Prop :=
  ∃ self children ids, entries = self :: children ∧ T.Shows self id ∧ List.Nodup ids ∧
    List.Forall₂ T.Shows children ids ∧ ∀ c, c ∈ ids ↔ Child T.links id c

end DriveTree

/-! ## Listings of a part of a drive -/

section Part
variable {T : DriveTree} {idx : Index} {part : Id → Prop} {path : String} {depth : Option String} {id : Id}

theorem shows_self (holds : Holds idx T part) {node : Node} (trail : Trail T.links id (segments path))
    (found : idx.nodes[id]? = some node) : T.Shows (entryFromInfo path (infoOf id node) true) id := by
  refine ⟨?_, _, (holds.stored found).2, ?_⟩
  · rw [href_self, segments_normalizePath]
    exact trail
  · rw [eraseTop_itemMeta]
    exact ⟨rfl, rfl, rfl, rfl⟩

theorem shows_child (holds : Holds idx T part) {c : ChildInfo} (trail : Trail T.links id (segments path))
    (member : c ∈ childInfos idx id) : T.Shows (entryFromInfo path c false) c.id := by
  obtain ⟨_, link⟩ := holds.link_inner.mp (link_of_mem_childInfos holds.rep member)
  obtain ⟨_, found⟩ := (mem_childInfos holds.rep.sound).mp member
  obtain ⟨other, inTree, _, sameName⟩ := NodeTree.links_eq_some_iff.mp link
  refine ⟨?_, _, (holds.stored found).2, ?_⟩
  · rw [segments_href_child (sameName ▸ T.clean inTree (by simp_all))]
    exact .step link trail
  · rw [eraseTop_itemMeta]
    exact ⟨rfl, rfl, rfl, rfl⟩

theorem listsWhole_dir_iff (holds : Holds idx T part) {node : Node} (trail : Trail T.links id (segments path))
    (found : idx.nodes[id]? = some node) (deep : depth ≠ some "0") :
    T.ListsWhole id (entriesOf path depth (.dir (infoOf id node) (childInfos idx id))) ↔
      ∀ c, Child T.links id c → part c := by
  rw [entriesOf, if_pos deep]
  constructor
  · rintro ⟨self, children, ids, split, _, _, shown, all⟩ c child
    cases split
    obtain ⟨entry, listed, shows⟩ := exists_of_mem_right shown ((all c).mpr child)
    obtain ⟨info, member, rfl⟩ := List.mem_map.mp listed
    have same := NodeTree.trail_injective shows.1 (shows_child holds trail member).1
    rw [same]
    exact (holds.link_inner.mp (link_of_mem_childInfos holds.rep member)).1
  · intro all
    refine ⟨_, _, (childInfos idx id).map ChildInfo.id, rfl, shows_self holds trail found,
      ids_childInfos_nodup holds.rep.sound id, ?_, fun c => ?_⟩
    · rw [List.forall₂_map_left_iff, List.forall₂_map_right_iff, List.forall₂_same]
      exact fun info member => shows_child holds trail member
    · rw [List.mem_map]
      constructor
      · rintro ⟨info, member, rfl⟩
        exact ⟨_, (holds.link_inner.mp (link_of_mem_childInfos holds.rep member)).2⟩
      · rintro ⟨name, link⟩
        have own := holds.link_inner.mpr ⟨all c ⟨name, link⟩, link⟩
        obtain ⟨child, present, _⟩ := Index.links_eq_some_iff.mp own
        exact ⟨_, (infoOf_mem_childInfos holds.rep own present).1, rfl⟩

theorem listsWhole_file_iff (holds : Holds idx T part) {node : Node} (trail : Trail T.links id (segments path))
    (found : idx.nodes[id]? = some node) :
    T.ListsWhole id (entriesOf path depth (.file (infoOf id node))) ↔ ∀ c, ¬ Child T.links id c := by
  constructor
  · rintro ⟨self, children, ids, split, _, _, shown, all⟩ c child
    cases split
    cases shown
    exact List.not_mem_nil ((all c).mpr child)
  · intro none
    exact ⟨_, [], [], rfl, shows_self holds trail found, .nil, .nil, fun c => by simp [none]⟩

/-- Whatever is answered for a directory is whole when its children are in the file with it. -/
theorem answers_whole_iff (holds : Holds idx T part) {node : Node} (trail : Trail T.links id (segments path))
    (inTree : T.nodes[id]? = some node) (isDir : node.itemMeta.isDir = true) (deep : depth ≠ some "0") :
    (∀ entries, (answer idx path).map (entriesOf path depth) = some entries → T.ListsWhole id entries) ↔
      (Kept idx id → ∀ c, Child T.links id c → Kept idx c) := by
  -- what is at the path in the index is this node
  have own : ∀ x, idx.resolve path = some x ↔ x = id ∧ Trail idx.links id (segments path) := by
    intro x
    rw [Index.resolve_eq_some_iff holds.rep]
    refine ⟨fun other => ?_, fun ⟨same, other⟩ => same ▸ other⟩
    have same := NodeTree.trail_injective (holds.trail_up other) trail
    exact ⟨same, same ▸ other⟩
  have kept_iff : ∀ {x segs}, Trail T.links x segs →
      (Kept idx x ↔ Trail idx.links x segs ∧ segs.length ≤ 64) := by
    intro x segs inTree
    constructor
    · rintro ⟨other, there, bound⟩
      cases (holds.trail_up there).unique inTree
      exact ⟨there, bound⟩
    · exact fun ⟨there, bound⟩ => ⟨segs, there, bound⟩
  by_cases kept : Kept idx id
  · obtain ⟨there, bound⟩ := (kept_iff trail).mp kept
    obtain ⟨_, link⟩ := there.exists_link
    obtain ⟨stored, found, _⟩ := Option.map_eq_some_iff.mp link
    have kind : stored.itemMeta.isDir = true := by
      have same : node = stored.eraseTop := Option.some.inj (inTree.symm.trans (holds.stored found).2)
      rw [← eraseTop_itemMeta, ← same]
      exact isDir
    have resolves := (own id).mpr ⟨rfl, there⟩
    have childTrail : ∀ {c}, Child T.links id c → ∃ name, T.links c = some (some id, name) ∧
        Trail T.links c (segments path ++ [name]) := fun ⟨name, link⟩ => ⟨name, link, .step link trail⟩
    rcases Nat.lt_or_eq_of_le bound with short | full
    · have answered : answer idx path = some (.dir (infoOf id stored) (childInfos idx id)) := by
        simp [answer, resolves, found, kind, short]
      rw [answered]
      simp only [Option.map_some, Option.some.injEq, forall_eq', kept, forall_const]
      rw [listsWhole_dir_iff holds trail found deep]
      refine forall_congr' fun c => forall_congr' fun child => ?_
      obtain ⟨name, link, below⟩ := childTrail child
      constructor
      · intro selected
        exact ⟨_, .step (holds.link_inner.mpr ⟨selected, link⟩) there, by simpa using short⟩
      · rintro ⟨segs, own, _⟩
        exact (holds.trail_iff.mp own).2 c .refl
    · have answered : answer idx path = some (.file (infoOf id stored)) := by
        simp [answer, resolves, found, full]
      rw [answered]
      simp only [Option.map_some, Option.some.injEq, forall_eq', kept, forall_const]
      rw [listsWhole_file_iff holds trail found]
      refine forall_congr' fun c => forall_congr' fun child => ?_
      obtain ⟨name, _, below⟩ := childTrail child
      simp only [kept_iff below, List.length_append, full, false_iff]
      simp
  · have nothing : answer idx path = none := by
      cases resolves : idx.resolve path with
      | none => simp [answer, resolves]
      | some x =>
        obtain ⟨rfl, there⟩ := (own x).mp resolves
        have far : ¬ (segments path).length ≤ 64 := fun bound => kept ((kept_iff trail).mpr ⟨there, bound⟩)
        have further : ¬ (segments path).length < 64 := fun short => far (Nat.le_of_lt short)
        simp [answer, resolves, far, further]
    simp [nothing, kept]

end Part

/-! ## All listings of a drive -/

/-- Every answer for a directory that asks for more than the directory itself is whole. -/
def ListingsWhole (P : Platform) (T : DriveTree) (files : Files) : Prop :=
  ∀ path depth id node entries, Trail T.links id (segments path) → T.nodes[id]? = some node →
    node.itemMeta.isDir = true → depth ≠ some "0" →
    propfindFromIndex P true files.host path depth = .ok (some entries) → T.ListsWhole id entries

/-- What has children in the tree is below the root or the root itself, so a
set of nodes that contains all children of its members contains the root and
everything, or not even the root. -/
theorem closed_iff {T : DriveTree} {kept : Id → Prop} (above : ∀ {x y}, kept x → Below T.links y x → kept y) :
    (∀ p c, Child T.links p c → kept p → kept c) ↔
      ¬ kept T.root ∨ ∀ x node, T.nodes[x]? = some node → kept x := by
  constructor
  · intro closed
    refine or_iff_not_imp_left.mpr fun root x node found => ?_
    obtain ⟨segs, trail⟩ := T.rooted found
    clear found
    induction trail with
    | top link => exact NodeTree.root_of_top link ▸ not_not.mp root
    | step link _ ih => exact closed _ _ ⟨_, link⟩ ih
  · rintro (noRoot | all) p c child keptParent
    · obtain ⟨name, link⟩ := child
      obtain ⟨node, found, parent, _⟩ := NodeTree.links_eq_some_iff.mp link
      obtain ⟨up, present⟩ := T.parent_exists found parent
      obtain ⟨segs, trail⟩ := T.rooted present
      obtain ⟨top, start, below⟩ := trail.split [] segs rfl
      obtain ⟨_, topLink⟩ := Trail.nil_iff.mp start
      rw [NodeTree.root_of_top topLink] at below
      exact absurd (above keptParent below) noRoot
    · obtain ⟨name, link⟩ := child
      obtain ⟨node, found, _⟩ := NodeTree.links_eq_some_iff.mp link
      exact all c node found

section Files
variable {json : MetaJson} {T : DriveTree} {files : Files} {idx : Index} {kept : Id → Prop}

theorem propfind_eq (roundTrips : json.RoundTrips) {bytes : Bytes} (held : files indexFile = some bytes)
    (saves : Saves json idx bytes) (storable : Storable idx) (path : String) (depth : Option String) :
    propfindFromIndex (wasm32 json) true files.host path depth =
      .ok ((answer idx path).map (entriesOf path depth)) := by
  simp only [propfindFromIndex, if_true, saves.lookup roundTrips storable held path]

theorem listingsWhole_of_none {P : Platform} (absent : files indexFile = none) : ListingsWhole P T files := by
  intro path depth id node entries _ _ _ _ answered
  have missing : lookupFile P files.host path = .ok none := by
    have closed : files.host indexFile = none := by rw [Files.host, absent]; rfl
    simp [lookupFile, StateFile.readAt, closed]
  simp [propfindFromIndex, missing] at answered

theorem Sync.FilePart.listingsWhole_iff (roundTrips : json.RoundTrips) (folders : T.FoldersOnly)
    (file : Sync.FilePart json T files idx kept) :
    ListingsWhole (wasm32 json) T files ↔ ¬ kept T.root ∨ ∀ x node, T.nodes[x]? = some node → kept x := by
  obtain ⟨bytes, held, saves⟩ := file.stored
  obtain ⟨part, holds⟩ := file.holds
  have storable := storable_of_holds holds folders
  -- with a node every folder above it is kept
  have above : ∀ {x y}, Kept idx x → Below T.links y x → Kept idx y := by
    rintro x y ⟨segs, trail, bound⟩ below
    obtain ⟨inTree, chain⟩ := holds.trail_iff.mp trail
    obtain ⟨front, rest, rfl, upper⟩ := Trail.of_below below inTree
    rw [List.length_append] at bound
    exact ⟨front, holds.trail_iff.mpr ⟨upper, fun z higher => chain z (higher.trans below)⟩, by omega⟩
  have same : kept = Kept idx := funext fun x => propext (file.kept x).symm
  rw [same, ← closed_iff above]
  constructor
  · rintro whole p c ⟨name, link⟩ keptParent
    obtain ⟨child, found, parent, _⟩ := NodeTree.links_eq_some_iff.mp link
    obtain ⟨node, present⟩ := T.parent_exists found parent
    obtain ⟨segs, trail⟩ := T.rooted present
    have path : segments (joinPath segs) = segs := segments_joinPath (DriveTree.clean_of_trail trail)
    rw [← path] at trail
    have isDir := folders.2 found parent present
    have deep : some "1" ≠ some "0" := by decide
    refine (answers_whole_iff holds trail present isDir deep).mp ?_ keptParent c ⟨name, link⟩
    intro entries answered
    refine whole (joinPath segs) (some "1") p node entries trail present isDir (by decide) ?_
    rw [propfind_eq roundTrips held saves storable, answered]
  · intro closed path depth id node entries trail present isDir deep answered
    rw [propfind_eq roundTrips held saves storable] at answered
    refine (answers_whole_iff holds trail present isDir deep).mpr (fun keptParent c child => ?_) entries
      (Except.ok.inj answered)
    exact closed id c child keptParent

end Files

namespace Sync

/-! ## Over a crawl -/

def Paging.ParentsFirst {T : DriveTree} (paging : Paging T) : Prop :=
  ∀ front it rest, paging.pages.flatten = front ++ it :: rest → ∀ p, Child T.links p it.id →
    p ∈ front.map DeltaItem.id

section Run
variable {json : MetaJson} {T : DriveTree} {paging : Paging T} {ticks : List Env}

theorem Paging.ParentsFirst.inStep (parentsFirst : paging.ParentsFirst) : paging.InStep ticks := by
  intro before _ p x child own
  obtain ⟨it, member, rfl⟩ := List.mem_map.mp own
  obtain ⟨front, rest, split⟩ := List.append_of_mem member
  have whole : paging.pages.flatten =
      front ++ it :: (rest ++ (paging.pages.drop (requests before)).flatten) := by
    rw [← List.cons_append, ← List.append_assoc, ← split, ← List.flatten_append, List.take_append_drop]
  have earlier := parentsFirst front it _ whole p child
  rw [Paging.delivered, split, List.map_append]
  exact List.mem_append_left _ earlier

theorem Paging.ParentsFirst.unbroken (parentsFirst : paging.ParentsFirst) {x : Id} : paging.Unbroken ticks x :=
  fun y _ before earlier own p child => parentsFirst.inStep before earlier p y child own

/-- Nothing has come, or everything has and fits, one level less once the crawl has been swept. -/
def Paging.Settled {T : DriveTree} (paging : Paging T) (ticks : List Env) : Bool → Prop
  | true => T.DepthLe 63
  | false => paging.delivered (requests ticks) = [] ∨
      (∀ {id node}, T.nodes[id]? = some node → id ∈ paging.delivered (requests ticks)) ∧ T.DepthLe 64

theorem exists_trail_le_iff {n : Nat} : (∀ x node, T.nodes[x]? = some node →
    ∃ segs, Trail T.links x segs ∧ segs.length ≤ n) ↔ T.DepthLe n := by
  constructor
  · intro near id segs trail
    obtain ⟨_, link⟩ := trail.exists_link
    obtain ⟨node, found, _⟩ := Option.map_eq_some_iff.mp link
    obtain ⟨other, own, bound⟩ := near id node found
    exact trail.unique own ▸ bound
  · intro depth x node found
    obtain ⟨segs, trail⟩ := T.rooted found
    exact ⟨segs, trail, depth trail⟩

theorem survives_iff_of_parentsFirst (parentsFirst : paging.ParentsFirst) {x : Id} : paging.Survives ticks x ↔
    x ∈ paging.delivered (requests ticks) ∧ ∃ segs, Trail T.links x segs ∧ segs.length ≤ 64 := by
  constructor
  · exact fun survives => ⟨survives.1 x .refl, survives.2.2⟩
  · rintro ⟨own, near⟩
    have unbroken : paging.Unbroken ticks x := parentsFirst.unbroken
    exact ⟨fun y below => unbroken.delivered_above (List.suffix_refl ticks) own below, unbroken, near⟩

theorem root_delivered_iff (parentsFirst : paging.ParentsFirst) :
    T.root ∈ paging.delivered (requests ticks) ↔ paging.delivered (requests ticks) ≠ [] := by
  constructor
  · exact fun own nothing => List.not_mem_nil (nothing ▸ own)
  · intro some
    obtain ⟨x, own⟩ := List.exists_mem_of_ne_nil _ some
    obtain ⟨node, found⟩ := Paging.exists_of_delivered own
    obtain ⟨segs, trail⟩ := T.rooted found
    obtain ⟨top, start, below⟩ := trail.split [] segs rfl
    obtain ⟨_, link⟩ := Trail.nil_iff.mp start
    rw [NodeTree.root_of_top link] at below
    exact parentsFirst.unbroken.delivered_above (List.suffix_refl ticks) own below

theorem Partial.listingsWhole_iff {files : Files} (roundTrips : json.RoundTrips) (folders : T.FoldersOnly)
    (parentsFirst : paging.ParentsFirst) (part : Partial json paging ticks files) :
    ListingsWhole (wasm32 json) T files ↔ paging.Settled ticks false := by
  rcases part.live with ⟨rfl, absent⟩ | ⟨idx, file, _⟩
  · exact iff_of_true (listingsWhole_of_none absent) (.inl Paging.delivered_zero)
  · rw [file.listingsWhole_iff roundTrips folders]
    simp only [survives_iff_of_parentsFirst parentsFirst]
    refine or_congr ?_ ?_
    · have near : ∃ segs, Trail T.links T.root segs ∧ segs.length ≤ 64 := ⟨[], .top T.root_link, by simp⟩
      rw [and_iff_left near, root_delivered_iff parentsFirst, not_not]
    · rw [← exists_trail_le_iff]
      constructor
      · exact fun all => ⟨fun {id node} found => (all id node found).1, fun x node found => (all x node found).2⟩
      · exact fun ⟨come, near⟩ x node found => ⟨come found, near x node found⟩

theorem Finished.listingsWhole_iff {files : Files} (roundTrips : json.RoundTrips) (folders : T.FoldersOnly)
    (parentsFirst : paging.ParentsFirst) {crawl : List Env} (finished : Finished json paging crawl files) :
    ListingsWhole (wasm32 json) T files ↔ paging.Settled ticks true := by
  obtain ⟨idx, file, _⟩ := finished.live
  rw [file.listingsWhole_iff roundTrips folders, or_iff_right (not_not_intro final_root), Paging.Settled,
    ← exists_trail_le_iff]
  refine forall_congr' fun x => forall_congr' fun node => forall_congr' fun _ => ?_
  rw [Paging.Final, and_iff_right parentsFirst.unbroken]
  exact exists_congr fun segs => and_congr_right fun _ => Nat.lt_succ_iff

theorem Crawling.listingsWhole_iff {files : Files} {done : Bool} (roundTrips : json.RoundTrips)
    (folders : T.FoldersOnly) (parentsFirst : paging.ParentsFirst) (run : Crawling json paging ticks done files) :
    ListingsWhole (wasm32 json) T files ↔ paging.Settled ticks done := by
  obtain ⟨unfinished, finished⟩ := run.file roundTrips folders
  cases done with
  | false => exact (unfinished rfl).listingsWhole_iff roundTrips folders parentsFirst
  | true =>
    obtain ⟨crawl, done⟩ := finished rfl
    exact done.listingsWhole_iff roundTrips folders parentsFirst

/-- Between the ticks of a crawl and after it, what the snapshot answers for
the directories of an unchanging drive is whole when only folders have children
and either nothing has come yet, or everything has and the drive is not too
deep. Where only folders have children it is whole in no other case. -/
theorem listings_whole_when (json : MetaJson) (roundTrips : json.RoundTrips) (T : DriveTree) (paging : Paging T)
    (parentsFirst : paging.ParentsFirst) (ticks : List Env) (done : Bool) (files : Files)
    (run : Crawling json paging ticks done files) :
    (T.FoldersOnly ∧ paging.Settled ticks done → ListingsWhole (wasm32 json) T files) ∧
      (T.FoldersOnly → ListingsWhole (wasm32 json) T files → paging.Settled ticks done) :=
  ⟨fun ⟨folders, settled⟩ => (run.listingsWhole_iff roundTrips folders parentsFirst).mpr settled,
    fun folders => (run.listingsWhole_iff roundTrips folders parentsFirst).mp⟩

end Run

/-! ## One page of two -/

def ordered (T : DriveTree) : List Id → List DeltaItem → Bool
  | _, [] => true
  | seen, it :: rest => ((T.nodes[it.id]?).bind Node.parent).all (seen.contains ·) && ordered T (it.id :: seen) rest

theorem parentsFirst_of_ordered {T : DriveTree} {paging : Paging T}
    (checked : ordered T [] paging.pages.flatten = true) : paging.ParentsFirst := by
  -- the ids seen so far are those in front
  have each : ∀ (front : List DeltaItem) (seen : List Id) (it : DeltaItem) (rest : List DeltaItem),
      ordered T seen (front ++ it :: rest) = true → ∀ p, Child T.links p it.id →
        p ∈ seen ∨ p ∈ front.map DeltaItem.id := by
    intro front
    induction front with
    | nil =>
      rintro seen it rest checked p ⟨name, link⟩
      obtain ⟨node, found, parent, _⟩ := NodeTree.links_eq_some_iff.mp link
      simp only [List.nil_append, ordered, found, Option.bind_some, parent, Option.all_some,
        Bool.and_eq_true, List.contains_iff_mem] at checked
      exact .inl checked.1
    | cons first front ih =>
      intro seen it rest checked p child
      rw [List.cons_append, ordered, Bool.and_eq_true] at checked
      rcases ih _ it rest checked.2 p child with before | later
      · rcases List.mem_cons.mp before with rfl | earlier
        · exact .inr (by simp)
        · exact .inl earlier
      · exact .inr (List.mem_cons_of_mem _ later)
  intro front it rest split p child
  rw [split] at checked
  exact (each front [] it rest checked p child).resolve_left List.not_mem_nil

theorem folderFirst_parentsFirst : folderFirst.ParentsFirst :=
  parentsFirst_of_ordered (by decide)

theorem listings_whole_when_folderFirst :
    ∃ files, Crawling metaText folderFirst [pageByPage folderFirst, pageByPage folderFirst] true files ∧
      ListingsWhole (wasm32 metaText) foldersAB files := by
  have evaluated : Result.isOkAnd (runInner (wasm32 metaText) (pageByPage folderFirst) noFiles) (fun out =>
      Result.isOkAnd (runInner (wasm32 metaText) (pageByPage folderFirst) (noFiles.after out.ops)) fun next =>
        next.report.complete) = true := by
    rw [metaText_eq_asciiText]
    decide +kernel
  obtain ⟨out, ran, evaluated⟩ := Result.exists_of_isOkAnd evaluated
  obtain ⟨next, ranOn, complete⟩ := Result.exists_of_isOkAnd evaluated
  have answers := answers_pageByPage [rootRecord, folderRecord "b" "B"] [fileRecord, folderRecord "a" "A"]
    (by decide) (by decide) (by decide)
  have run := Crawling.tick (.tick (@Crawling.start metaText _ folderFirst) answers ran) answers ranOn
  rw [complete, Bool.or_true] at run
  refine ⟨_, run, (listings_whole_when metaText metaText_roundTrips foldersAB folderFirst folderFirst_parentsFirst
    _ true _ run).1 ⟨NodeTree.foldersOnly_of_list (by decide), ?_⟩⟩
  exact NodeTree.depthLe_of_climb (by decide)

/-- After the first page the root is listed with one of its two folders. -/
theorem half_crawled_root_lists_one_folder :
    foldersAB.FoldersOnly ∧ folderFirst.ParentsFirst ∧
      ∃ files, Crawling metaText folderFirst [pageByPage folderFirst] false files ∧
        ¬ ListingsWhole (wasm32 metaText) foldersAB files := by
  have evaluated : Result.isOkAnd (runInner (wasm32 metaText) (pageByPage folderFirst) noFiles) (fun out =>
      !out.report.complete && Result.isOkAnd (propfindFromIndex (wasm32 metaText) true (noFiles.after out.ops).host "/"
        (some "1")) fun listing => listing.any fun entries => entries.length == 2) = true := by
    rw [metaText_eq_asciiText]
    decide +kernel
  refine ⟨NodeTree.foldersOnly_of_list (by decide), folderFirst_parentsFirst, ?_⟩
  obtain ⟨out, ran, evaluated⟩ := Result.exists_of_isOkAnd evaluated
  obtain ⟨goesOn, evaluated⟩ := Bool.and_eq_true_iff.mp evaluated
  rw [Bool.not_eq_true'] at goesOn
  have answers := answers_pageByPage [rootRecord, folderRecord "b" "B"] [fileRecord, folderRecord "a" "A"]
    (by decide) (by decide) (by decide)
  have run := Crawling.tick (@Crawling.start metaText _ folderFirst) answers ran
  rw [goesOn] at run
  refine ⟨_, run, fun whole => ?_⟩
  obtain ⟨listing, answered, evaluated⟩ := Result.exists_of_isOkAnd evaluated
  obtain ⟨entries, rfl, evaluated⟩ := (Option.any_eq_true _ _).mp evaluated
  obtain ⟨self, children, ids, split, _, _, shown, all⟩ :=
    whole "/" (some "1") "r" _ entries (.top foldersAB.root_link) (by decide : _ = some ⟨none, "", ⟨true, 0, 0, ""⟩⟩)
      rfl (by decide) answered
  -- one entry cannot show both folders
  have two : children.length = 1 := by simpa [split] using evaluated
  have inA : "a" ∈ ids := (all "a").mpr ⟨"A", by decide⟩
  have inB : "b" ∈ ids := (all "b").mpr ⟨"B", by decide⟩
  rw [shown.length_eq] at two
  obtain ⟨only, rfl⟩ := List.length_eq_one_iff.mp two
  have isA := List.mem_singleton.mp inA
  have isB := List.mem_singleton.mp inB
  exact absurd (isA.trans isB.symm) (by decide)

end Sync

end OneDriveDavfs
