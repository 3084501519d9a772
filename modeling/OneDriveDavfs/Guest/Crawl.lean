import OneDriveDavfs.Guest.Access
import OneDriveDavfs.Sync.Listing
import OneDriveDavfs.Sync.Replies

/-! A crawl from beginning to end, behind the whole daemon.

While the drive does not change, clients ask for syncs and read, and anything
may fail on the way. Once a sync has been answered that the crawl is complete,
every listing is that of the drive, and Graph is not asked for it.
-/

set_option autoImplicit false

namespace OneDriveDavfs

open Library Library.Collections Library.Forest Library.Wire Library.Effect Snapshot Dav

namespace Guest

/-! ## What Graph shows -/

section Shows
variable (ext : Externals) (host : Surroundings) (config : GuestConfig)

/-- A response to a request for the link is no demand to start over, and if it is a page, one like this. -/
def Serves (url : String) (like : DeltaPage → Prop) : Prop :=
  ∀ world response, (Dav.get ext.token host.toEnvironment config.toConfig url).outcome world = .ok response →
    Graph.isResync ext.graph response.status response.body = false ∧
      ∀ page, response.status = 200 → Graph.parseDeltaPage ext.graph response.body = .ok page → like page

/-- The links of a crawl show its pages, and at the links after it there is nothing new. -/
structure Shows {T : DriveTree} (paging : Sync.Paging T) : Prop where
  first : paging.link 0 = Graph.initialDeltaUrl config.driveBase
  crawl : ∀ i, i < paging.count → Serves ext host config (paging.link i) fun page => page = paging.page i
  later : ∀ url, paging.onward url → Serves ext host config url paging.Idle

variable {ext host config} {world left : World} {T : DriveTree} {paging : Sync.Paging T}
  {asked : List (String × DeltaReply)}

theorem Serves.reply {url : String} {like : DeltaPage → Prop} {reply : DeltaReply}
    (serves : Serves ext host config url like) (replied : (delta ext host config url).outcome world = .ok reply) :
    (∃ page, reply = .ok page ∧ like page) ∨ ∃ e, reply = .error (.other e) := by
  unfold delta Graph.delta at replied
  split at replied
  case isFalse =>
    cases replied
    exact .inr ⟨_, rfl⟩
  cases got : (Graph.graphRequest ext.token host.toEnvironment config.toConfig .get url none []).outcome world with
  | error stop =>
    cases stop with
    | cut =>
      rw [outcome_bind_error _ (outcome_attempt_cut got)] at replied
      cases replied
    | failed message =>
      rw [outcome_bind_ok _ (outcome_attempt_failed got)] at replied
      cases replied
      exact .inr ⟨_, rfl⟩
  | ok response =>
    obtain ⟨noResync, page⟩ := serves world response got
    rw [outcome_bind_ok _ (outcome_attempt_ok got)] at replied
    dsimp only at replied
    rw [noResync, if_neg Bool.false_ne_true] at replied
    split at replied
    · cases replied
      exact .inr ⟨_, rfl⟩
    · rename_i good
      split at replied
      · rename_i parsed
        cases replied
        exact .inl ⟨_, rfl, page _ (not_not.mp good) parsed⟩
      · cases replied
        exact .inr ⟨_, rfl⟩

theorem Exchanges.replied (exchanges : Exchanges ext host config world asked left) {url : String} {reply : DeltaReply}
    (member : (url, reply) ∈ asked) : ∃ between, (delta ext host config url).outcome between = .ok reply := by
  induction exchanges with
  | nil => exact absurd member List.not_mem_nil
  | cons replied _ ih =>
    rcases List.mem_cons.mp member with first | later
    · cases first
      exact ⟨_, replied⟩
    · exact ih later

theorem Serves.only {url : String} {like : DeltaPage → Prop} (serves : Serves ext host config url like)
    (exchanges : Exchanges ext host config world asked left) (now : UInt64) (n : Nat) :
    (∃ page, ((planEnv host config asked now).only asked).delta n url = .ok page ∧ like page) ∨
      ∃ e, ((planEnv host config asked now).only asked).delta n url = .error (.other e) := by
  unfold Sync.Env.only
  dsimp only
  split
  · rename_i link reply found
    split
    · rename_i same
      subst same
      obtain ⟨between, replied⟩ := exchanges.replied (List.mem_of_getElem? found)
      exact serves.reply replied
    · exact .inr ⟨_, rfl⟩
  · exact .inr ⟨_, rfl⟩

theorem Shows.answers (shows : Shows ext host config paging) (exchanges : Exchanges ext host config world asked left)
    (now : UInt64) : paging.Answers ((planEnv host config asked now).only asked) := by
  refine ⟨shows.first, fun n i inside => ?_, fun n url onward => (shows.later url onward).only exchanges now n⟩
  rcases (shows.crawl i inside).only exchanges now n with ⟨page, given, rfl⟩ | failed
  · exact .inl given
  · exact .inr failed

end Shows

/-! ## Ticks of the crawl -/

section Ticks
variable {ext : Externals} {host : Surroundings} {config : GuestConfig} {world : World} {T : DriveTree}
  {paging : Sync.Paging T} {ticks : List Sync.Env} {done : Bool} {files : Files}

/-- During a crawl and after it there is no rebuild, and no tick is told to start one. -/
theorem crawling_quiet (roundTrips : ext.index.RoundTrips) (folders : T.FoldersOnly)
    (run : Sync.Crawling ext.index paging ticks done files) {env : Sync.Env} (answers : paging.Answers env)
    {start : Index} {target place : String} {saved swap : List FileOp} {out : Sync.Outcome}
    (ticked : Sync.Ticked ext.index env files start target place saved swap out) :
    files rebuildFile = none ∧ ∀ r ∈ Sync.replies out.asked, Sync.isResync r = false := by
  obtain ⟨unfinished, finished⟩ := run.file roundTrips folders
  have begins (alone : files rebuildFile = none) :
      ∃ live, Snapshot.load (wasm32 ext.index) files indexFile = .ok live ∧ start = live.getD Index.empty := by
    rcases ticked.starts with ⟨found, _⟩ | ⟨_, _, live⟩
    · rw [Snapshot.load_eq, alone] at found
      cases found
    · exact live
  cases done with
  | false =>
    have part := unfinished rfl
    obtain ⟨live, found, rfl⟩ := begins part.alone
    have pages := ticked.exchange.pages answers (part.begins roundTrips folders found)
    refine ⟨part.alone, fun r member => ?_⟩
    obtain ⟨k, rfl⟩ := pages r member
    rfl
  | true =>
    obtain ⟨crawl, whole⟩ := finished rfl
    obtain ⟨idx, file, waits⟩ := whole.live
    obtain ⟨loaded, present, progress, holds⟩ := file.load roundTrips folders
    simp only [Index.progress, Prod.mk.injEq] at progress
    have waiting : paging.Waits loaded := by
      rw [Sync.Paging.Waits, progress.1, progress.2.1]
      exact waits
    obtain ⟨live, found, rfl⟩ := begins whole.alone
    cases found.symm.trans present
    exact ⟨whole.alone, (ticked.exchange.waits answers holds waiting).2.2⟩

theorem length_le_requests (run : Sync.Crawling ext.index paging ticks done files) (unfinished : done = false) :
    ticks.length ≤ Sync.requests ticks := by
  induction run with
  | start => exact Nat.le_refl 0
  | @tick ticks done files env out _ _ ran ih =>
    obtain ⟨before, here⟩ := Bool.or_eq_false_iff.mp unfinished
    obtain ⟨_, _, _, _, _, ticked⟩ := Sync.runInner_ticked ran
    have asked := List.length_pos_of_ne_nil ticked.asked
    rw [ticked.quota here] at asked
    have earlier := ih before
    simp only [Sync.requests, List.map_cons, List.sum_cons, List.length_cons] at earlier ⊢
    omega

theorem done_of_count_le (roundTrips : ext.index.RoundTrips) (folders : T.FoldersOnly)
    (run : Sync.Crawling ext.index paging ticks done files) (enough : paging.count ≤ ticks.length) : done = true := by
  by_contra unfinished
  have open_ : done = false := Bool.eq_false_iff.mpr unfinished
  have part := (run.file roundTrips folders).1 open_
  have asked := length_le_requests run open_
  have more := part.more
  omega

theorem SameSnapshots.unfinished_write {name : String} (snapshot : Sync.SnapshotName name) {bytes : Bytes} {cut : Nat}
    (short : cut < (StateFile.writeAtomic name bytes).length) :
    SameSnapshots files (files.after ((StateFile.writeAtomic name bytes).take cut)) := by
  match cut, short with
  | 0, _ => exact .refl _
  | 1, _ => exact fun n named => if_neg (named.ne_tmp snapshot)
  | cut + 2, short =>
    simp only [StateFile.writeAtomic, List.length_cons, List.length_nil] at short
    omega

/-- A tick of the daemon is one of the crawl, or leaves the snapshots alone; and where it returns it is one. -/
theorem runInner_crawls (roundTrips : ext.index.RoundTrips) (folders : T.FoldersOnly)
    (run : Sync.Crawling ext.index paging ticks done files) (same : SameSnapshots files world.files)
    (shows : Shows ext host config paging) :
    ∃ ticks' done' files', Sync.Crawling ext.index paging ticks' done' files' ∧
      SameSnapshots files' ((runInner ext host config).after world).files ∧ (done = true → done' = true) ∧
      ticks.length ≤ ticks'.length ∧
      ∀ stats, (runInner ext host config).outcome world = .ok stats →
        ticks.length < ticks'.length ∧ (stats.complete = true → done' = true) := by
  rcases runInner_follows ext host config world with ⟨out, cut, follows⟩ | ⟨⟨stop, stopped⟩, kept⟩
  case inr =>
    refine ⟨ticks, done, files, run, same.trans kept, id, Nat.le_refl _, fun stats returned => ?_⟩
    rw [stopped] at returned
    cases returned
  obtain ⟨now, planned⟩ := follows.planned
  obtain ⟨_, exchanges⟩ := follows.asked
  have answers := shows.answers exchanges now
  have ran : Sync.runInner (wasm32 ext.index) ((planEnv host config out.asked now).only out.asked) files = .ok out := by
    rw [← same.runInner_eq]
    exact Sync.runInner_only planned
  have next := Sync.Crawling.tick run answers ran
  obtain ⟨start, target, place, saved, swap, ticked⟩ := Sync.runInner_ticked ran
  obtain ⟨alone, quiet⟩ := crawling_quiet roundTrips folders run answers ticked
  obtain ⟨onIndex, ops, _⟩ := ticked.alone alone quiet
  by_cases whole : out.ops.length ≤ cut
  · refine ⟨_, _, _, next, ?_, fun before => by rw [before, Bool.true_or], Nat.le_succ _, fun stats returned => ?_⟩
    · have left := follows.files
      rw [List.take_of_length_le whole] at left
      refine SameSnapshots.trans ?_ left
      rw [ops]
      rcases ticked.saves with ⟨rfl, _⟩ | ⟨bytes, _, rfl⟩
      · exact same
      · exact same.write _ _
    · obtain ⟨_, _, _, _, rfl⟩ := follows.returned stats returned
      refine ⟨Nat.lt_succ_self _, fun complete => ?_⟩
      have reported : out.report.complete = true := complete
      rw [reported, Bool.or_true]
  -- nothing was put in place yet
  · refine ⟨ticks, done, files, run, ?_, id, Nat.le_refl _,
      fun stats returned => absurd (follows.returned stats returned).1 whole⟩
    refine (same.trans ?_).trans follows.files
    rw [ops] at whole ⊢
    rcases ticked.saves with ⟨rfl, _⟩ | ⟨bytes, _, rfl⟩
    · exact absurd (Nat.zero_le cut) whole
    · exact .unfinished_write (onIndex ▸ .inl rfl) (Nat.lt_of_not_le whole)

end Ticks

/-! ## What the client is told -/

/-- The answer is the report of a tick, which says whether the crawl is complete. -/
def Reports (response : DavResponse) (complete : Bool) : Prop := response.Says "complete" (.bool complete)

theorem reports_reportJson_iff (stats : SyncStats) {complete : Bool} :
    Reports (jsonOk (Sync.reportJson stats)) complete ↔ stats.complete = complete := by
  rw [Reports, says_jsonOk_iff, Sync.reportJson, Json.field_ofEntries]
  simp [Json.lookup_cons_ite]

section Requests
variable {ext : Externals} {host : Surroundings} {process : Process} {request : IncomingRequest} {world : World}

theorem handleRequest_post (post : request.method = .post) :
    ((handleRequest ext host process request).after world = world ∧
        ∀ response complete, (handleRequest ext host process request).outcome world = .ok response →
          ¬ Reports response complete) ∨
      ∃ config, GuestConfig.load process.environ process.preopens = .ok config ∧
        (handleRequest ext host process request).after world = (runInner ext host config).after world ∧
        ∀ response complete, (handleRequest ext host process request).outcome world = .ok response →
          Reports response complete → ∃ stats, (runInner ext host config).outcome world = .ok stats ∧
            stats.complete = complete := by
  unfold handleRequest
  cases loaded : GuestConfig.load process.environ process.preopens with
  | error e =>
    refine .inl ⟨rfl, fun response complete returned told => ?_⟩
    cases returned
    exact absurd told.1 (by decide : ¬ (500 : UInt16) = 200)
  | ok config =>
    dsimp only
    by_cases admitted : BasicAuth.checkBasicAuth config.basicAuthSecret request.headers = true
    case neg =>
      rw [if_neg admitted]
      refine .inl ⟨rfl, fun response complete returned told => ?_⟩
      cases returned
      exact absurd told.1 (by decide : ¬ (401 : UInt16) = 200)
    rw [if_pos admitted]
    unfold serve
    dsimp only
    rw [if_pos post]
    by_cases sync : BasicAuth.headerValue request.headers "x-onedrive-sync" = some "1"
    case neg =>
      rw [if_neg sync]
      refine .inl ⟨rfl, fun response complete returned told => ?_⟩
      cases returned
      exact absurd told.1 (by decide : ¬ (405 : UInt16) = 200)
    rw [if_pos sync]
    unfold Sync.run
    by_cases indexed : config.indexEnabled = true
    case neg =>
      rw [if_neg indexed]
      refine .inl ⟨rfl, fun response complete returned told => ?_⟩
      cases returned
      rw [Reports, says_jsonOk_iff, Json.field_ofEntries] at told
      simp [Json.lookup_cons_ite] at told
    rw [if_pos indexed]
    refine .inr ⟨config, rfl, after_attempt_bind fun ended left => by cases ended <;> rfl,
      fun response complete returned told => ?_⟩
    cases ended : (runInner ext host config).outcome world with
    | ok stats =>
      rw [outcome_bind_ok _ (outcome_attempt_ok ended)] at returned
      cases returned
      exact ⟨stats, rfl, (reports_reportJson_iff stats).mp told⟩
    | error stop =>
      cases stop with
      | cut =>
        rw [outcome_bind_error _ (outcome_attempt_cut ended)] at returned
        cases returned
      | failed message =>
        rw [outcome_bind_ok _ (outcome_attempt_failed ended)] at returned
        cases returned
        exact absurd told.1 (by decide : ¬ (502 : UInt16) = 200)

theorem reads_keep (reads : request.rights.names = []) :
    SameSnapshots world.files ((handleRequest ext host process request).after world).files := by
  unfold handleRequest
  split
  · exact .refl _
  · rename_i config _
    have within : Along (Within ext host config request.rights)
        (if BasicAuth.checkBasicAuth config.basicAuthSecret request.headers then serve ext host config request
          else pure .unauthorized) := .ite within_serve (.pure _)
    exact fun n snapshot => (within world).files n (snapshotName_ne_tokenFile snapshot) (by simp [reads])

end Requests

/-- Syncs and requests that only read, from a state directory without a snapshot on, while Graph
shows the pages of a drive. Counted are syncs that have been answered with a report, and the flag
says that one of these reports was that the crawl is complete. -/
inductive Crawl (ext : Externals) {T : DriveTree} (paging : Sync.Paging T) : Nat → Bool → World → Prop where
  | start {world : World} : SameSnapshots noFiles world.files → Crawl ext paging 0 false world
  | read {reports : Nat} {done : Bool} {world : World} (host : Surroundings) (process : Process)
      (request : IncomingRequest) :
      Crawl ext paging reports done world → request.rights.names = [] →
      Crawl ext paging reports done ((handleRequest ext host process request).after world)
  | sync {reports : Nat} {done : Bool} {world : World} (host : Surroundings) (process : Process)
      (request : IncomingRequest) :
      Crawl ext paging reports done world → request.method = .post →
      (∀ config, GuestConfig.load process.environ process.preopens = .ok config → Shows ext host config paging) →
      Crawl ext paging reports done ((handleRequest ext host process request).after world)
  | report {reports : Nat} {done complete : Bool} {world : World} {response : DavResponse} (host : Surroundings)
      (process : Process) (request : IncomingRequest) :
      Crawl ext paging reports done world → request.method = .post →
      (∀ config, GuestConfig.load process.environ process.preopens = .ok config → Shows ext host config paging) →
      (handleRequest ext host process request).outcome world = .ok response → Reports response complete →
      Crawl ext paging (reports + 1) (done || complete) ((handleRequest ext host process request).after world)
  | other {reports : Nat} {done : Bool} {world later : World} :
      Crawl ext paging reports done world → SameSnapshots world.files later.files → Crawl ext paging reports done later

section Crawl
variable {ext : Externals} {world : World} {T : DriveTree} {paging : Sync.Paging T} {reports : Nat} {done : Bool}

/-- The snapshots are those of a crawl with as many ticks as reports at least, which is complete where that has
been said. -/
theorem Crawl.crawling (roundTrips : ext.index.RoundTrips) (folders : T.FoldersOnly)
    (crawl : Crawl ext paging reports done world) :
    ∃ ticks reached files, Sync.Crawling ext.index paging ticks reached files ∧ SameSnapshots files world.files ∧
      (done = true → reached = true) ∧ reports ≤ ticks.length := by
  induction crawl with
  | start fresh => exact ⟨[], false, noFiles, .start, fresh, id, Nat.le_refl 0⟩
  | read host process request _ reads ih =>
    obtain ⟨ticks, reached, files, run, same, told⟩ := ih
    exact ⟨ticks, reached, files, run, same.trans (reads_keep reads), told⟩
  | @sync reports done world host process request _ post shows ih =>
    obtain ⟨ticks, reached, files, run, same, told, counted⟩ := ih
    rcases @handleRequest_post ext host process request world post with ⟨left, _⟩ | ⟨config, loaded, left, _⟩
    · rw [left]
      exact ⟨ticks, reached, files, run, same, told, counted⟩
    · obtain ⟨more, further, after, runs, kept, grows, longer, _⟩ :=
        runInner_crawls roundTrips folders run same (shows config loaded)
      rw [left]
      exact ⟨more, further, after, runs, kept, fun flag => grows (told flag), counted.trans longer⟩
  | @report reports done complete world response host process request _ post shows answered claimed ih =>
    obtain ⟨ticks, reached, files, run, same, told, counted⟩ := ih
    rcases @handleRequest_post ext host process request world post with ⟨_, never⟩ | ⟨config, loaded, left, only⟩
    · exact absurd claimed (never response complete answered)
    · obtain ⟨more, further, after, runs, kept, grows, _, ends⟩ :=
        runInner_crawls roundTrips folders run same (shows config loaded)
      obtain ⟨stats, returned, rfl⟩ := only response complete answered claimed
      obtain ⟨longer, finishes⟩ := ends stats returned
      rw [left]
      refine ⟨more, further, after, runs, kept, fun flag => ?_, Nat.lt_of_le_of_lt counted longer⟩
      exact (Bool.or_eq_true_iff.mp flag).elim (fun before => grows (told before)) finishes
  | other _ kept ih =>
    obtain ⟨ticks, reached, files, run, same, told⟩ := ih
    exact ⟨ticks, reached, files, run, same.trans kept, told⟩

/-- It has been said that the crawl is complete, or there were as many reports as there are pages. -/
def Over (paging : Sync.Paging T) (reports : Nat) (done : Bool) : Prop := done = true ∨ paging.count ≤ reports

theorem Crawl.represents (roundTrips : ext.index.RoundTrips) (folders : T.FoldersOnly) (depthLe : T.DepthLe 63)
    (parentsFirst : paging.ParentsFirst) (crawl : Crawl ext paging reports done world)
    (through : Over paging reports done) :
    ∃ idx bytes, world.files indexFile = some bytes ∧ Saves ext.index idx bytes ∧ Represents idx T ∧ paging.Waits idx ∧
      world.files rebuildFile = none := by
  obtain ⟨ticks, reached, files, run, same, told, counted⟩ := crawl.crawling roundTrips folders
  have ends : reached = true :=
    through.elim told fun enough => done_of_count_le roundTrips folders run (enough.trans counted)
  obtain ⟨ended, finished⟩ := (run.file roundTrips folders).2 ends
  obtain ⟨idx, file, waits⟩ := finished.live
  obtain ⟨bytes, held, saves⟩ := file.stored
  obtain ⟨part, holds⟩ := file.holds
  refine ⟨idx, bytes, (same indexFile (.inl rfl)).trans held, saves, holds.all fun {id node} found => ?_, waits,
    (same rebuildFile (.inr rfl)).trans finished.alone⟩
  obtain ⟨segs, trail⟩ := T.rooted found
  have final : paging.Final ended id :=
    ⟨parentsFirst.unbroken, segs, trail, Nat.lt_succ_of_le (depthLe trail)⟩
  obtain ⟨_, kept, _⟩ := (file.kept id).mpr final
  exact (holds.trail_iff.mp kept).2 id .refl

end Crawl

/-! ## What is served -/

/-- The entry of a node, and with it, unless only the node is asked for, those of its children, each once. -/
def Lists (T : DriveTree) (id : Id) (depth : Option String) (entries : List DavEntry) : Prop :=
  if depth = some "0" then ∃ self, entries = [self] ∧ T.Shows self id else T.ListsWhole id entries

section Served
variable {T : DriveTree} {idx : Index} {path : String} {id : Id}

theorem lists_answer (represents : Represents idx T) (folders : T.FoldersOnly) (depthLe : T.DepthLe 63)
    (trail : Trail T.links id (segments path)) (depth : Option String) :
    ∃ hit, answer idx path = some hit ∧ Lists T id depth (entriesOf path depth hit) := by
  obtain ⟨node, found, _, answered⟩ := answer_of_trail represents depthLe trail
  refine ⟨_, answered, ?_⟩
  unfold Lists
  by_cases shallow : depth = some "0"
  · rw [if_pos shallow]
    subst shallow
    split
    · exact ⟨_, rfl, shows_self represents trail found⟩
    · exact ⟨_, rfl, shows_self represents trail found⟩
  · rw [if_neg shallow]
    split
    · exact (listsWhole_dir_iff represents trail found shallow).mpr fun _ _ => trivial
    · rename_i isFile
      refine (listsWhole_file_iff represents trail found).mpr fun c child => isFile ?_
      obtain ⟨name, link⟩ := child
      obtain ⟨below, present, parent, _⟩ := NodeTree.links_eq_some_iff.mp link
      have stored := (represents.stored found).2
      have isDir := folders.2 present parent stored
      rwa [eraseTop_itemMeta] at isDir

section Answers
variable {token : Auth.TokenJson} {json : Graph.GraphJson} {env : Environment} {base : Config} {P : Platform}
  {flag : Bool}
  {depth : Option String} {world : World}

theorem propfind_found (finite : depth ≠ some "infinity") {entries : List DavEntry}
    (looked : propfindFromIndex P flag world.files.host path depth = .ok (some entries)) :
    Dav.propfind token json env base P flag path depth world = (.ok (.multistatus entries), world) := by
  unfold Dav.propfind
  rw [if_neg finite, bind_apply, apply_eq (outcome_get world), after_get]
  dsimp only
  rw [looked]
  rfl

theorem propfind_missing (finite : depth ≠ some "infinity")
    (looked : propfindFromIndex P flag world.files.host path depth = .ok none) :
    Dav.propfind token json env base P flag path depth world = propfindLive token json env base path depth world := by
  unfold Dav.propfind
  rw [if_neg finite, bind_apply, apply_eq (outcome_get world), after_get]
  dsimp only
  rw [looked]

end Answers

end Served

/-- A listing of a path of the drive is that of the drive, without a request to Graph, and for any
other path Graph is asked. -/
def ServesDrive (ext : Externals) (T : DriveTree) (world : World) : Prop :=
  ∀ (host : Surroundings) (config : GuestConfig), config.indexEnabled = true →
    ∀ (path : String) (depth : Option String), depth ≠ some "infinity" →
      (∀ id, Trail T.links id (segments path) → ∃ entries, Lists T id depth entries ∧
        Verbs.propfind ext host config path depth world = (.ok (.xml 207 (Xml.multistatus entries)), world)) ∧
      ((¬ ∃ id, Trail T.links id (segments path)) →
        Verbs.propfind ext host config path depth world =
          Verbs.propfind ext host { config with indexEnabled := false } path depth world)

section Serves
variable {ext : Externals} {world : World} {T : DriveTree} {paging : Sync.Paging T} {reports : Nat} {done : Bool}

theorem servesDrive_of_represents (roundTrips : ext.index.RoundTrips) (folders : T.FoldersOnly) (depthLe : T.DepthLe 63)
    {idx : Index} {bytes : Bytes} (held : world.files indexFile = some bytes) (saves : Saves ext.index idx bytes)
    (represents : Represents idx T) : ServesDrive ext T world := by
  intro host config indexed path depth finite
  have looked := propfind_eq roundTrips held saves (storable_of_holds represents folders) path depth
  constructor
  · intro id trail
    obtain ⟨hit, answered, lists⟩ := lists_answer represents folders depthLe trail depth
    rw [answered, Option.map_some] at looked
    refine ⟨_, lists, ?_⟩
    have served : Dav.propfind ext.token ext.graph host.toEnvironment config.toConfig (wasm32 ext.index)
        config.indexEnabled path depth world = (.ok (.multistatus (entriesOf path depth hit)), world) := by
      rw [indexed]
      exact propfind_found finite looked
    rw [Verbs.propfind, bind_apply, served]
    rfl
  · intro absent
    rw [(answer_none_iff represents depthLe).mpr absent, Option.map_none] at looked
    have asks : Dav.propfind ext.token ext.graph host.toEnvironment config.toConfig (wasm32 ext.index)
        config.indexEnabled path depth world =
          Dav.propfindLive ext.token ext.graph host.toEnvironment config.toConfig path depth world := by
      rw [indexed]
      exact propfind_missing finite looked
    have again : Dav.propfind ext.token ext.graph host.toEnvironment config.toConfig (wasm32 ext.index) false path depth
        world = Dav.propfindLive ext.token ext.graph host.toEnvironment config.toConfig path depth world :=
      propfind_missing finite rfl
    rw [Verbs.propfind, Verbs.propfind, bind_apply, bind_apply, asks, again]

theorem Crawl.serves (crawl : Crawl ext paging reports done world) (through : Over paging reports done)
    (roundTrips : ext.index.RoundTrips) (folders : T.FoldersOnly) (depthLe : T.DepthLe 63)
    (parentsFirst : paging.ParentsFirst) : ServesDrive ext T world := by
  obtain ⟨_, _, held, saves, represents, _⟩ := crawl.represents roundTrips folders depthLe parentsFirst through
  exact servesDrive_of_represents roundTrips folders depthLe held saves represents

/-- Once a sync has been answered that the crawl is complete, the listings are those of the drive. -/
theorem crawl_serves_drive (roundTrips : ext.index.RoundTrips) (folders : T.FoldersOnly) (depthLe : T.DepthLe 63)
    (parentsFirst : paging.ParentsFirst) (crawl : Crawl ext paging reports true world) : ServesDrive ext T world :=
  crawl.serves (.inl rfl) roundTrips folders depthLe parentsFirst

/-- The crawl is over, whatever failed on the way, when as many syncs have been answered with a report as the drive
has pages. -/
theorem crawl_comes_to_an_end (roundTrips : ext.index.RoundTrips) (folders : T.FoldersOnly) (depthLe : T.DepthLe 63)
    (parentsFirst : paging.ParentsFirst) (crawl : Crawl ext paging reports done world) (enough : paging.count ≤ reports) :
    ServesDrive ext T world :=
  crawl.serves (.inr enough) roundTrips folders depthLe parentsFirst

end Serves

/-! ## A crawl of two pages -/

theorem response_of_get {token : Auth.TokenJson} {env : Environment} {base : Config}
    {url authority pathWithQuery : String}
    (split : splitUrl url = .ok (authority, pathWithQuery)) {world : World} {response : HttpResponse}
    (got : (Dav.get token env base url).outcome world = .ok response) :
    ∃ sent o, env.answer (sent ++ [o]) = .ok response ∧ OutgoingRequest.method o = .get ∧
      o.pathWithQuery = pathWithQuery := by
  unfold Dav.get Graph.graphRequest at got
  cases bearer : (Auth.bearerToken token env base).outcome world with
  | error stop =>
    rw [outcome_bind_error _ bearer] at got
    cases got
  | ok text =>
    rw [outcome_bind_ok _ bearer] at got
    have own : splitUrl (HttpRequest.url ⟨.get, url, [("authorization", text)], []⟩) = .ok (authority, pathWithQuery) :=
      split
    exact ⟨_, _, (outcome_send env _ own).symm.trans got, rfl, rfl⟩

theorem serves_of_target {host : Surroundings} {config : GuestConfig} {url : String} {like : DeltaPage → Prop}
    (target : String) (text : Bytes) (page : DeltaPage) (split : splitUrl url = .ok ("graph.microsoft.com", target))
    (answered : ∀ sent o, OutgoingRequest.method o = .get → o.pathWithQuery = target →
      host.answer (sent ++ [o]) = .ok ⟨200, [], text⟩)
    (noResync : Graph.isResync crawlExternals.graph 200 text = false)
    (parsed : Graph.parseDeltaPage crawlExternals.graph text = .ok page) (holds : like page) :
    Serves crawlExternals host config url like := by
  intro world response got
  obtain ⟨sent, o, reply, isGet, own⟩ := response_of_get split got
  have same := Except.ok.inj ((answered sent o isGet own).symm.trans reply)
  subst same
  exact ⟨noResync, fun other _ read => Except.ok.inj (parsed.symm.trans read) ▸ holds⟩

theorem shows_folderFirst {config : GuestConfig} (base : config.driveBase = "me/drive") :
    Shows crawlExternals crawlSurroundings config Sync.folderFirst where
  first := congrArg Graph.initialDeltaUrl base.symm
  crawl := by
    intro i inside
    match i, inside with
    | 0, _ =>
      have link : Sync.folderFirst.link 0 = Graph.initialDeltaUrl "me/drive" := by
        simp only [Sync.folderFirst, Sync.twoPages, if_true]
      rw [link]
      refine serves_of_target deltaTarget firstPageText (Sync.folderFirst.page 0) splitUrl_initialDeltaUrl ?_
        (by decide +kernel) (by decide +kernel) rfl
      intro sent o isGet own
      have second : deltaTarget ≠ "/2" := by decide
      have later : deltaTarget ≠ "/d" := by decide
      simp [crawlSurroundings, isGet, own, second, later]
    | 1, _ =>
      refine serves_of_target "/2" secondPageText (Sync.folderFirst.page 1) (by decide) ?_ (by decide +kernel)
        (by decide +kernel) rfl
      intro sent o isGet own
      simp [crawlSurroundings, isGet, own]
  later := by
    rintro url rfl
    refine serves_of_target "/d" nothingNewText ⟨[], none, some "https://graph.microsoft.com/d"⟩ (by decide) ?_
      (by decide +kernel) (by decide +kernel) ⟨rfl, by simp, fun _ => ⟨_, rfl, rfl⟩⟩
    intro sent o isGet own
    simp [crawlSurroundings, isGet, own]

theorem shows_openProcess (config : GuestConfig)
    (loaded : GuestConfig.load openProcess.environ openProcess.preopens = .ok config) :
    Shows crawlExternals crawlSurroundings config Sync.folderFirst :=
  shows_folderFirst (by cases load_openProcess.symm.trans loaded; rfl)

theorem listed_b {world : World} (serves : ServesDrive crawlExternals foldersAB world) :
    ∃ entries, Lists foldersAB "b" (some "1") entries ∧
      Verbs.propfind crawlExternals crawlSurroundings openConfig "/B" (some "1") world =
        (.ok (.xml 207 (Xml.multistatus entries)), world) :=
  (serves crawlSurroundings openConfig rfl "/B" (some "1") (by decide)).1 "b"
    (((represents_ofTree foldersAB).resolve_iff "/B" "b").mp (by decide))

theorem crawled_tokenWorld : Crawl crawlExternals Sync.folderFirst 1 true
    ((handleRequest crawlExternals crawlSurroundings openProcess syncRequest).after tokenWorld) := by
  obtain ⟨stats, _, _, ended, complete, _⟩ := synced_tokenWorld
  exact .report crawlSurroundings openProcess syncRequest (.start fresh_tokenWorld) rfl shows_openProcess
    (handleRequest_sync ended).1 ((reports_reportJson_iff stats).mpr complete)

/-- The client is told that the crawl is complete, and then the folder is listed with its file. -/
theorem crawl_serves_drive_folder :
    ∃ entries, Lists foldersAB "b" (some "1") entries ∧
      Verbs.propfind crawlExternals crawlSurroundings openConfig "/B" (some "1")
          ((handleRequest crawlExternals crawlSurroundings openProcess syncRequest).after tokenWorld) =
        (.ok (.xml 207 (Xml.multistatus entries)),
          (handleRequest crawlExternals crawlSurroundings openProcess syncRequest).after tokenWorld) :=
  listed_b (crawl_serves_drive metaText_roundTrips (NodeTree.foldersOnly_of_list (by decide))
    (NodeTree.depthLe_of_climb (by decide)) Sync.folderFirst_parentsFirst crawled_tokenWorld)

/-- Two pages, and two syncs that were answered with a report of whatever kind. -/
theorem crawl_comes_to_an_end_folder :
    ∃ world entries, Lists foldersAB "b" (some "1") entries ∧
      Verbs.propfind crawlExternals crawlSurroundings openConfig "/B" (some "1") world =
        (.ok (.xml 207 (Xml.multistatus entries)), world) := by
  obtain ⟨stats, later, _, ended, _, again, _⟩ := synced_tokenWorld
  have first := Crawl.report crawlSurroundings openProcess syncRequest (.start fresh_tokenWorld) rfl shows_openProcess
    (handleRequest_sync ended).1 ((reports_reportJson_iff stats).mpr rfl)
  rw [(handleRequest_sync ended).2] at first
  have second := Crawl.report crawlSurroundings openProcess syncRequest first rfl shows_openProcess
    (handleRequest_sync again).1 ((reports_reportJson_iff later).mpr rfl)
  exact ⟨_, listed_b (crawl_comes_to_an_end metaText_roundTrips (NodeTree.foldersOnly_of_list (by decide))
    (NodeTree.depthLe_of_climb (by decide)) Sync.folderFirst_parentsFirst second (by decide))⟩

end Guest

end OneDriveDavfs
