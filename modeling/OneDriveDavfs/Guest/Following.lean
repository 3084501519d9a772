import OneDriveDavfs.Guest.Crawl

/-! A drive that changes, behind the whole daemon.

After the first crawl Graph shows at each delta link what has changed since.
However syncs fail, what is served is always the drive as it was at one moment,
and no earlier than at the last sync that was answered with a report.
-/

set_option autoImplicit false

namespace OneDriveDavfs

open Library Library.Collections Library.Forest Library.Wire Library.Effect Snapshot

/-- The drive as it was one version after the other, the delta link of each, and the changes from one to a later
one. The root's own record stays, and what a change takes away of the later drive comes again behind it. -/
structure History where
  drive : Nat → DriveTree
  folders : ∀ v, (drive v).FoldersOnly
  depthLe : ∀ v, (drive v).DepthLe 63
  link : Nat → String
  changes : Nat → Nat → List DeltaItem
  isDelta : ∀ n v, n ≤ v → IsDelta (drive n) (drive v) (changes n v)
  sameRoot : ∀ n v, n ≤ v → (drive n).nodes[(drive v).root]? = (drive v).nodes[(drive v).root]?
  safe : ∀ n v idx, n ≤ v → Represents idx (drive n) → SafeRun (drive v) idx (changes n v)

def History.page (history : History) (n v : Nat) : DeltaPage := ⟨history.changes n v, none, some (history.link v)⟩

/-! ## One tick -/

namespace Sync

section Single
variable {env : Env} {start : Index} {page : DeltaPage}

theorem Exchange.single (final : page.nextLink = none)
    (served : ∀ n, env.delta n (start.cursor env.driveBase) = .ok page ∨
      ∃ e, env.delta n (start.cursor env.driveBase) = .error (.other e))
    {asked : List (String × DeltaReply)} (exchange : Exchange env start asked) (some_ : asked ≠ []) :
    asked = [(start.cursor env.driveBase, .ok page)] := by
  induction exchange with
  | nil => exact absurd rfl some_
  | @snoc asked reply _ open_ answered usable ih =>
    by_cases first : asked = []
    · subst first
      have here : reply = .ok page := by
        rcases served 0 with given | ⟨e, failed⟩
        · exact answered.symm.trans given
        · exact absurd (answered.symm.trans failed) (usable e)
      rw [here]
      rfl
    -- a final reply is the last one
    · have before := ih first
      have unfinished := open_ (.ok page) (by rw [before]; exact List.mem_singleton_self _)
      simp [isFinal, final] at unfinished

end Single

end Sync

section Take
variable {S T : DriveTree} {idx : Index} {items : List DeltaItem} {token : String}

theorem represents_takePage (represents : Represents idx S) (delta : IsDelta S T items)
    (sameRoot : S.nodes[T.root]? = T.nodes[T.root]?) (safe : SafeRun T idx items)
    (depthLe : T.DepthLe 63) (token : String) :
    Represents (idx.takePage ⟨items, none, some token⟩) T ∧
      ∀ base, (idx.takePage ⟨items, none, some token⟩).cursor base = token := by
  have settled := delta.settled sameRoot represents
  have applied := represents_of_settled (settled_run delta.inner settled safe)
  rw [Index.takePage]
  dsimp only
  generalize last : ({ items.foldl Index.apply idx with
    pendingNextLink := none, deltaToken := some token <|> (items.foldl Index.apply idx).deltaToken
    crawlComplete := true } : Index) = whole
  have moved : Represents whole T := Holds.moved applied (by rw [← last]) (by rw [← last]) (by rw [← last])
  have progress := Index.progress_sweepOrphans whole
  simp only [Index.progress, Prod.mk.injEq] at progress
  refine ⟨moved.sweepOrphans depthLe, fun base => ?_⟩
  rw [Index.cursor, progress.1, progress.2.1, ← last]
  rfl

theorem isDelta_refl (T : DriveTree) : IsDelta T T [] where
  root := rfl
  once := List.nodup_nil
  tells := fun _ member => absurd member List.not_mem_nil
  differ := fun _ => ⟨fun member => absurd member List.not_mem_nil, fun differ => absurd rfl differ.2⟩

theorem safeRun_of_free (represents : Represents idx S) {it : DeltaItem} {p : Id} (live : it.PlacedUnder p)
    (free : ∀ cid, cid ≠ it.id → S.links cid ≠ some (some p, it.name)) : SafeRun T idx [it] := by
  refine ⟨fun x _ removes => ?_, trivial⟩
  exfalso
  rcases removes with ⟨deleted, _⟩ | ⟨q, placed, cid, found, _⟩
  · rw [live.live] at deleted
    cases deleted
  · cases live.parent.symm.trans placed.parent
    obtain ⟨member, other⟩ := Index.clash_eq_some found
    have entry := ((Index.mem_kidsOf_detachMoved represents.rep.sound).mp member).1
    exact free cid other (represents.link_inner.mp (represents.rep.sound entry)).2

/-- Where nothing has to be saved there was no change. -/
theorem represents_of_unmarked (represents : Represents idx S) (delta : IsDelta S T items)
    (sameRoot : S.nodes[T.root]? = T.nodes[T.root]?)
    (unmarked : Sync.marks idx (.ok ⟨items, none, some token⟩) = false) :
    Represents idx T ∧ ∀ base, idx.cursor base = token := by
  simp only [Sync.marks, Bool.or_eq_false_iff, Bool.not_eq_false', List.isEmpty_iff, bne_eq_false_iff_eq,
    Option.isSome_eq_false_iff, Option.isNone_iff_eq_none] at unmarked
  obtain ⟨rfl, carried, pending⟩ := unmarked
  refine ⟨represents_of_settled (delta.settled sameRoot represents), fun base => ?_⟩
  rw [Index.cursor, pending, carried]
  rfl

end Take

namespace Guest

/-- The live snapshot is of this drive, and the next sync asks at this link. -/
structure Stands (ext : Externals) (T : DriveTree) (link : String) (files : Files) : Prop where
  alone : files rebuildFile = none
  live : ∃ idx bytes, files indexFile = some bytes ∧ Saves ext.index idx bytes ∧ Represents idx T ∧
    ∀ base, idx.cursor base = link

/-- At the delta link of every version up to this one Graph shows the changes since, if anything. -/
def ShowsChanges (ext : Externals) (host : Surroundings) (config : GuestConfig) (history : History) (v : Nat) : Prop :=
  ∀ n, n ≤ v → Serves ext host config (history.link n) fun page => page = history.page n v

section Tick
variable {ext : Externals} {host : Surroundings} {config : GuestConfig} {world : World} {history : History} {n v : Nat}
  {T : DriveTree} {link : String} {files other : Files}

theorem Stands.congr (stands : Stands ext T link files) (same : SameSnapshots files other) :
    Stands ext T link other := by
  obtain ⟨idx, bytes, held, rest⟩ := stands.live
  exact ⟨(same rebuildFile (.inr rfl)).trans stands.alone, idx, bytes, (same indexFile (.inl rfl)).trans held, rest⟩

theorem Saves.begins {json : MetaJson} (roundTrips : json.RoundTrips) (folders : T.FoldersOnly) (depthLe : T.DepthLe 63)
    {idx : Index} {bytes : Bytes} (held : files indexFile = some bytes) (saves : Saves json idx bytes)
    (represents : Represents idx T) :
    ∃ start, Snapshot.load (wasm32 json) files indexFile = .ok (some start) ∧ Represents start T ∧
      start.deltaToken = idx.deltaToken ∧ start.pendingNextLink = idx.pendingNextLink := by
  obtain ⟨out, decoded, restored⟩ := saves.decode_storable roundTrips (storable_of_holds represents folders)
  have progress := restored.progress
  simp only [Index.progress, Prod.mk.injEq] at progress
  refine ⟨out, by rw [Snapshot.load_eq, held]; dsimp only; rw [decoded]; rfl, ?_, progress.1, progress.2.1⟩
  refine (represents.restored restored).all fun found => ?_
  obtain ⟨segs, trail⟩ := T.rooted found
  exact ⟨segs, represents.trail_iff.mpr trail, Nat.le_succ_of_le (depthLe trail)⟩

theorem Stands.planned (roundTrips : ext.index.RoundTrips)
    (stands : Stands ext (history.drive n) (history.link n) files) (le : n ≤ v) {env : Sync.Env} {out : Sync.Outcome}
    (served : ∀ i, env.delta i (history.link n) = .ok (history.page n v) ∨
      ∃ e, env.delta i (history.link n) = .error (.other e))
    (ran : Sync.runInner (wasm32 ext.index) env files = .ok out) :
    Stands ext (history.drive v) (history.link v) (files.after out.ops) ∧
      (out.ops = [] ∨ ∃ bytes, out.ops = StateFile.writeAtomic indexFile bytes) := by
  obtain ⟨start, target, place, saved, swap, ticked⟩ := Sync.runInner_ticked ran
  obtain ⟨idx, file, held, stored, represents, cursor⟩ := stands.live
  obtain ⟨begun, loaded, begins, token, pending⟩ :=
    Saves.begins roundTrips (history.folders n) (history.depthLe n) held stored represents
  have link : begun.cursor env.driveBase = history.link n := by
    rw [← cursor env.driveBase, Index.cursor, Index.cursor, token, pending]
  have same : start = begun := by
    rcases ticked.starts with ⟨found, _⟩ | ⟨_, _, live, found, isStart⟩
    · rw [Snapshot.load_eq, stands.alone] at found
      cases found
    · cases found.symm.trans loaded
      exact isStart
  subst same
  have final : (history.page n v).nextLink = none := rfl
  have asked := ticked.exchange.single final (by rw [link]; exact served) ticked.asked
  have quiet : ∀ r ∈ Sync.replies out.asked, Sync.isResync r = false := by
    rw [asked]
    simp [Sync.replies, Sync.isResync]
  obtain ⟨onIndex, ops, _⟩ := ticked.alone stands.alone quiet
  have delta := history.isDelta n v le
  have sameRoot := history.sameRoot n v le
  rw [ops]
  rcases ticked.saves with ⟨rfl, _, unchanged⟩ | ⟨bytes, saves, rfl⟩
  -- the file is up to date already
  · rw [asked] at unchanged
    have unmarked : Sync.marks idx (.ok (history.page n v)) = false := by
      have loadedToo := (Bool.or_eq_false_iff.mp unchanged).1
      simp only [Sync.marks, token, pending] at loadedToo ⊢
      exact loadedToo
    obtain ⟨next, further⟩ := represents_of_unmarked represents delta sameRoot unmarked
    exact ⟨⟨stands.alone, idx, file, held, stored, next, further⟩, .inl rfl⟩
  · rw [asked] at saves
    obtain ⟨next, further⟩ := represents_takePage begins delta sameRoot (history.safe n v start le begins)
      (history.depthLe v) (history.link v)
    obtain ⟨own, other⟩ := Sync.after_save files bytes
    rw [onIndex]
    exact ⟨⟨other.trans stands.alone, _, bytes, own, saves, next, further⟩, .inr ⟨bytes, rfl⟩⟩

/-- However a tick ends, the snapshot stays or is brought to the version that Graph shows; and where it returns it
was brought there. -/
theorem Stands.tick (roundTrips : ext.index.RoundTrips)
    (stands : Stands ext (history.drive n) (history.link n) world.files) (le : n ≤ v)
    (shown : ShowsChanges ext host config history v) :
    (Stands ext (history.drive n) (history.link n) ((runInner ext host config).after world).files ∧
        ∀ stats, (runInner ext host config).outcome world ≠ .ok stats) ∨
      Stands ext (history.drive v) (history.link v) ((runInner ext host config).after world).files := by
  rcases runInner_follows ext host config world with ⟨out, cut, follows⟩ | ⟨⟨stop, stopped⟩, kept⟩
  case inr =>
    refine .inl ⟨stands.congr kept, fun stats returned => ?_⟩
    rw [stopped] at returned
    cases returned
  obtain ⟨now, planned⟩ := follows.planned
  obtain ⟨_, exchanges⟩ := follows.asked
  have served (i : Nat) := (shown n le).only exchanges now i
  have ran := Sync.runInner_only planned
  obtain ⟨next, writes⟩ :=
    stands.planned roundTrips le (fun i => (served i).imp_left fun ⟨_, given, same⟩ => same ▸ given) ran
  by_cases whole : out.ops.length ≤ cut
  · have left := follows.files
    rw [List.take_of_length_le whole] at left
    exact .inr (next.congr left)
  -- nothing was put in place yet
  · refine .inl ⟨?_, fun stats returned => whole (follows.returned stats returned).1⟩
    refine Stands.congr ?_ follows.files
    rcases writes with nothing | ⟨bytes, ops⟩
    · rw [nothing] at whole
      exact absurd (Nat.zero_le cut) whole
    · rw [ops] at whole ⊢
      exact stands.congr (.unfinished_write (.inl rfl) (Nat.lt_of_not_le whole))

end Tick

/-! ## Sessions -/

/-- After a crawl of the first version: syncs and requests that only read, while the drive goes on changing. The
numbers are the version that the last sync with a report saw, and the version that the drive is at. -/
inductive Following (ext : Externals) (history : History) (paging : Sync.Paging (history.drive 0)) :
    Nat → Nat → World → Prop where
  | crawled {reports : Nat} {done : Bool} {world : World} : Crawl ext paging reports done world →
      Over paging reports done → Following ext history paging 0 0 world
  | change {seen v : Nat} {world : World} : Following ext history paging seen v world →
      Following ext history paging seen (v + 1) world
  | read {seen v : Nat} {world : World} (host : Surroundings) (process : Process) (request : IncomingRequest) :
      Following ext history paging seen v world → request.rights.names = [] →
      Following ext history paging seen v ((handleRequest ext host process request).after world)
  | sync {seen v : Nat} {world : World} (host : Surroundings) (process : Process) (request : IncomingRequest) :
      Following ext history paging seen v world → request.method = .post →
      (∀ config, GuestConfig.load process.environ process.preopens = .ok config →
        ShowsChanges ext host config history v) →
      Following ext history paging seen v ((handleRequest ext host process request).after world)
  | report {seen v : Nat} {world : World} {response : DavResponse} {complete : Bool} (host : Surroundings)
      (process : Process) (request : IncomingRequest) :
      Following ext history paging seen v world → request.method = .post →
      (∀ config, GuestConfig.load process.environ process.preopens = .ok config →
        ShowsChanges ext host config history v) →
      (handleRequest ext host process request).outcome world = .ok response → Reports response complete →
      Following ext history paging v v ((handleRequest ext host process request).after world)
  | other {seen v : Nat} {world later : World} : Following ext history paging seen v world →
      SameSnapshots world.files later.files → Following ext history paging seen v later

section Session
variable {ext : Externals} {history : History} {paging : Sync.Paging (history.drive 0)} {seen v : Nat} {world : World}

theorem Crawl.stands {T : DriveTree} {paging : Sync.Paging T} {reports : Nat} {done : Bool}
    (roundTrips : ext.index.RoundTrips) (folders : T.FoldersOnly) (depthLe : T.DepthLe 63)
    (parentsFirst : paging.ParentsFirst) (crawl : Crawl ext paging reports done world)
    (through : Over paging reports done)
    (only : ∀ url, paging.onward url → url = paging.deltaLink) : Stands ext T paging.deltaLink world.files := by
  obtain ⟨idx, bytes, held, saves, represents, waits, alone⟩ :=
    crawl.represents roundTrips folders depthLe parentsFirst through
  refine ⟨alone, idx, bytes, held, saves, represents, fun base => only _ ?_⟩
  rcases waits with ⟨next, pending, onward⟩ | ⟨pending, token, carried, onward⟩
  · rw [Index.cursor, pending]
    exact onward
  · rw [Index.cursor, pending, carried]
    exact onward

/-- The snapshot is always of one version, and of one that is no older than the last report. -/
theorem Following.stands (roundTrips : ext.index.RoundTrips) (parentsFirst : paging.ParentsFirst)
    (only : ∀ url, paging.onward url → url = paging.deltaLink) (first : history.link 0 = paging.deltaLink)
    (following : Following ext history paging seen v world) :
    ∃ n, seen ≤ n ∧ n ≤ v ∧ Stands ext (history.drive n) (history.link n) world.files := by
  induction following with
  | crawled crawl through =>
    refine ⟨0, Nat.le_refl 0, Nat.le_refl 0, ?_⟩
    rw [first]
    exact crawl.stands roundTrips (history.folders 0) (history.depthLe 0) parentsFirst through only
  | change _ ih =>
    obtain ⟨n, since, upTo, stands⟩ := ih
    exact ⟨n, since, Nat.le_succ_of_le upTo, stands⟩
  | read host process request _ reads ih =>
    obtain ⟨n, since, upTo, stands⟩ := ih
    exact ⟨n, since, upTo, stands.congr (reads_keep reads)⟩
  | @sync seen v world host process request _ post shown ih =>
    obtain ⟨n, since, upTo, stands⟩ := ih
    rcases @handleRequest_post ext host process request world post with ⟨left, _⟩ | ⟨config, loaded, left, _⟩
    · rw [left]
      exact ⟨n, since, upTo, stands⟩
    · rw [left]
      rcases stands.tick roundTrips upTo (shown config loaded) with ⟨kept, _⟩ | brought
      · exact ⟨n, since, upTo, kept⟩
      · exact ⟨v, since.trans upTo, Nat.le_refl v, brought⟩
  | @report seen v world response complete host process request _ post shown answered claimed ih =>
    obtain ⟨n, _, upTo, stands⟩ := ih
    rcases @handleRequest_post ext host process request world post with ⟨_, never⟩ | ⟨config, loaded, left, only⟩
    · exact absurd claimed (never response complete answered)
    · obtain ⟨stats, returned, _⟩ := only response complete answered claimed
      rw [left]
      rcases stands.tick roundTrips upTo (shown config loaded) with ⟨_, stopped⟩ | brought
      · exact absurd returned (stopped stats)
      · exact ⟨v, Nat.le_refl v, Nat.le_refl v, brought⟩
  | other _ kept ih =>
    obtain ⟨n, since, upTo, stands⟩ := ih
    exact ⟨n, since, upTo, stands.congr kept⟩

/-- What is listed is the drive as it was at one moment, and no earlier than the last sync with a report. -/
theorem listings_follow_drive (ext : Externals) (roundTrips : ext.index.RoundTrips) (history : History)
    (paging : Sync.Paging (history.drive 0)) (parentsFirst : paging.ParentsFirst)
    (only : ∀ url, paging.onward url → url = paging.deltaLink) (first : history.link 0 = paging.deltaLink)
    (following : Following ext history paging seen v world) :
    ∃ n, seen ≤ n ∧ n ≤ v ∧ ServesDrive ext (history.drive n) world := by
  obtain ⟨n, since, upTo, stands⟩ := following.stands roundTrips parentsFirst only first
  obtain ⟨_, _, held, saves, represents, _⟩ := stands.live
  have serves := servesDrive_of_represents roundTrips (history.folders n) (history.depthLe n) held saves represents
  exact ⟨n, since, upTo, serves⟩

end Session

/-! ## A folder is renamed after the crawl -/

def renamedDrive : Nat → DriveTree
  | 0 => foldersAB
  | _ + 1 => foldersAC

def renamedLink : Nat → String
  | 0 => "https://graph.microsoft.com/d"
  | _ + 1 => "https://graph.microsoft.com/e"

def renamedChanges : Nat → Nat → List DeltaItem
  | 0, _ + 1 => [folderRecord "b" "C"]
  | _, _ => []

theorem foldersOnly_renamedDrive : ∀ v, (renamedDrive v).FoldersOnly
  | 0 => @NodeTree.foldersOnly_of_list foldersAB.toNodeTree (by decide)
  | _ + 1 => @NodeTree.foldersOnly_of_list foldersAC.toNodeTree (by decide)

theorem depthLe_renamedDrive : ∀ v, (renamedDrive v).DepthLe 63
  | 0 => fun trail => @NodeTree.depthLe_of_climb foldersAB.toNodeTree 63 (by decide) _ _ trail
  | _ + 1 => fun trail => @NodeTree.depthLe_of_climb foldersAC.toNodeTree 63 (by decide) _ _ trail

theorem isDelta_renamedChanges : ∀ n v, n ≤ v → IsDelta (renamedDrive n) (renamedDrive v) (renamedChanges n v)
  | 0, 0, _ => isDelta_refl foldersAB
  | 0, _ + 1, _ => @isDelta_of_lists foldersAB foldersAC [folderRecord "b" "C"] rfl (by decide) (by decide) (by decide)
  | _ + 1, _ + 1, _ => isDelta_refl foldersAC
  | n + 1, 0, le => absurd le (Nat.not_succ_le_zero n)

theorem sameRoot_renamedDrive : ∀ n v, n ≤ v →
    (renamedDrive n).nodes[(renamedDrive v).root]? = (renamedDrive v).nodes[(renamedDrive v).root]?
  | 0, 0, _ => rfl
  | 0, _ + 1, _ => (by decide : foldersAB.nodes[foldersAC.root]? = foldersAC.nodes[foldersAC.root]?)
  | _ + 1, _ + 1, _ => rfl
  | n + 1, 0, le => absurd le (Nat.not_succ_le_zero n)

theorem safeRun_renamedChanges : ∀ n v idx, n ≤ v → Represents idx (renamedDrive n) →
    SafeRun (renamedDrive v) idx (renamedChanges n v)
  | 0, 0, _, _, _ => trivial
  | 0, _ + 1, _, _, represents => by
    refine safeRun_of_free represents ⟨by decide, rfl, by decide, rfl⟩ fun cid _ link => ?_
    obtain ⟨node, found, _, name⟩ := NodeTree.links_eq_some_iff.mp link
    have named : ∀ entry ∈ foldersAB.nodes.toList, entry.2.name ≠ "C" := by decide
    exact named (cid, node) (Std.ExtTreeMap.mem_toList_iff_getElem?_eq_some.mpr found) name
  | _ + 1, _ + 1, _, _, _ => trivial
  | n + 1, 0, _, le, _ => absurd le (Nat.not_succ_le_zero n)

def renamedHistory : History where
  drive := renamedDrive
  folders := foldersOnly_renamedDrive
  depthLe := depthLe_renamedDrive
  link := renamedLink
  changes := renamedChanges
  isDelta := isDelta_renamedChanges
  sameRoot := sameRoot_renamedDrive
  safe := safeRun_renamedChanges

def renamedSurroundings : Surroundings :=
  { offline with
    answer := fun requests =>
      match requests.getLast?.map OutgoingRequest.pathWithQuery with
      | some target =>
        if target = "/d" then .ok ⟨200, [], renamedText⟩
        else if target = "/e" then .ok ⟨200, [], nothingNewerText⟩
        else .ok ⟨404, [], []⟩
      | none => .ok ⟨404, [], []⟩ }

theorem showsChanges_renamed (config : GuestConfig) :
    ShowsChanges crawlExternals renamedSurroundings config renamedHistory 1
  | 0, _ => by
    refine serves_of_target "/d" renamedText (renamedHistory.page 0 1) (by decide) ?_ (by decide +kernel)
      (by decide +kernel) rfl
    intro sent o _ own
    simp [renamedSurroundings, own]
  | 1, _ => by
    refine serves_of_target "/e" nothingNewerText (renamedHistory.page 1 1) (by decide) ?_ (by decide +kernel)
      (by decide +kernel) rfl
    intro sent o _ own
    simp [renamedSurroundings, own]

theorem runInner_renamed : ∃ stats, (runInner crawlExternals renamedSurroundings openConfig).outcome
    ((runInner crawlExternals crawlSurroundings openConfig).after tokenWorld) = .ok stats := by
  have evaluated : (match (runInner crawlExternals renamedSurroundings openConfig).outcome
      ((resume crawlExternals crawlSurroundings openConfig 7 firstLoop).after firstPageWorld) with
      | .ok _ => true
      | .error _ => false) = true := by
    rw [crawlExternals_ascii]
    decide +kernel
  rw [← after_congr runInner_tokenWorld] at evaluated
  cases ended : (runInner crawlExternals renamedSurroundings openConfig).outcome
      ((runInner crawlExternals crawlSurroundings openConfig).after tokenWorld) with
  | ok stats => exact ⟨stats, rfl⟩
  | error stop =>
    rw [ended] at evaluated
    cases evaluated

/-- After the next sync the file is listed under the new name of its folder. -/
theorem listings_follow_drive_rename :
    ∃ world entries, Lists foldersAC "b" (some "1") entries ∧
      Verbs.propfind crawlExternals renamedSurroundings openConfig "/C" (some "1") world =
        (.ok (.xml 207 (Xml.multistatus entries)), world) := by
  obtain ⟨_, _, _, crawled, _⟩ := synced_tokenWorld
  obtain ⟨stats, ended⟩ := runInner_renamed
  rw [← (handleRequest_sync crawled).2] at ended
  have following : Following crawlExternals renamedHistory Sync.folderFirst 1 1 _ :=
    .report renamedSurroundings openProcess syncRequest (.change (.crawled crawled_tokenWorld (.inl rfl))) rfl
      (fun config _ => showsChanges_renamed config) (handleRequest_sync ended).1
      ((reports_reportJson_iff stats).mpr rfl)
  obtain ⟨n, since, upTo, serves⟩ := listings_follow_drive crawlExternals metaText_roundTrips renamedHistory
    Sync.folderFirst Sync.folderFirst_parentsFirst (fun _ => id) rfl following
  cases Nat.le_antisymm upTo since
  obtain ⟨entries, lists, answered⟩ := (serves renamedSurroundings openConfig rfl "/C" (some "1") (by decide)).1 "b"
    (((represents_ofTree foldersAC).resolve_iff "/C" "b").mp (by decide))
  exact ⟨_, entries, lists, answered⟩

end Guest

end OneDriveDavfs
