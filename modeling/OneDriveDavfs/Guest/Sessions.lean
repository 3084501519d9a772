import OneDriveDavfs.Guest.Requests
import OneDriveDavfs.Sync.Links

/-! Sessions of requests: the snapshots are those of a run of ticks and local writes.

Every request is a step of the run, or leaves the snapshots alone, whatever
Graph answers, whatever fails and wherever the request is cut short. So what
holds in every run of ticks and local writes holds in every session.
-/

set_option autoImplicit false

namespace OneDriveDavfs

open Library Library.Wire Library.Effect Snapshot

namespace Guest

/-! ## A run does not see the other files -/

section Congruence
variable {files other : Files}

theorem SameSnapshots.take_write (same : SameSnapshots files other) {name : String} (snapshot : Sync.SnapshotName name)
    (bytes : Bytes) (cut : Nat) :
    SameSnapshots (files.after ((StateFile.writeAtomic name bytes).take cut))
      (other.after ((StateFile.writeAtomic name bytes).take cut)) := by
  match cut with
  | 0 => exact same
  | 1 =>
    intro n named
    have away : n ≠ StateFile.tmpName name := named.ne_tmp snapshot
    exact (if_neg away).trans ((same n named).trans (if_neg away).symm)
  | cut + 2 =>
    have whole : (StateFile.writeAtomic name bytes).take (cut + 2) = StateFile.writeAtomic name bytes := by
      simp [StateFile.writeAtomic]
    rw [whole]
    exact same.write name bytes

theorem SameSnapshots.take_swap (same : SameSnapshots files other) (cut : Nat) :
    SameSnapshots (files.after ([FileOp.rename rebuildFile indexFile].take cut))
      (other.after ([FileOp.rename rebuildFile indexFile].take cut)) := by
  cases cut with
  | zero => exact same
  | succ cut =>
    simp only [List.take_succ_cons, List.take_nil]
    exact same.swap

theorem SameSnapshots.rewriteDue_eq (same : SameSnapshots files other) {P : Platform} :
    Sync.rewriteDue P other = Sync.rewriteDue P files := by
  have opened : other.host indexFile = files.host indexFile := congrArg _ (same indexFile (.inl rfl))
  have read : Snapshot.readMeta P other.host = Snapshot.readMeta P files.host := by
    unfold Snapshot.readMeta StateFile.readAt
    simp only [opened]
  unfold Sync.rewriteDue
  rw [read]

theorem SameSnapshots.runInner_eq (same : SameSnapshots files other) {P : Platform} {env : Sync.Env} :
    Sync.runInner P env other = Sync.runInner P env files := by
  unfold Sync.runInner
  rw [same.load_eq (.inl rfl), same.load_eq (.inr rfl), same.resyncTarget_eq, same.rewriteDue_eq]

theorem SameSnapshots.mutate_eq (same : SameSnapshots files other) {P : Platform} {order : Index → List Id}
    {now : UInt64} {f : Index → Index × Bool} :
    Snapshot.mutate P order now other f = Snapshot.mutate P order now files f := by
  unfold Snapshot.mutate
  rw [same.load_eq (.inl rfl)]

theorem SameSnapshots.after_mutate (same : SameSnapshots files other) {json : MetaJson} {order : Index → List Id}
    (enumerates : ∀ idx, Enumerates (order idx) idx) (now : UInt64) (f : Index → Index × Bool) (cut : Nat) :
    SameSnapshots (files.after ((Snapshot.mutate (wasm32 json) order now files f).take cut))
      (other.after ((Snapshot.mutate (wasm32 json) order now files f).take cut)) := by
  have nothing : SameSnapshots (files.after (([] : List FileOp).take cut)) (other.after (([] : List FileOp).take cut)) := by
    rw [List.take_nil]
    exact same
  unfold Snapshot.mutate
  split
  · split
    · split
      · rename_i ops saved
        obtain ⟨bytes, _, rfl⟩ := saves_of_save enumerates saved
        exact same.take_write (.inl rfl) bytes cut
      · exact nothing
    · exact nothing
  · exact nothing

theorem SameSnapshots.event {json : MetaJson} (roundTrips : json.RoundTrips) (sound : Sync.Sound json files)
    (same : SameSnapshots files other) (event : Sync.Event) :
    SameSnapshots (event.run json files) (event.run json other) := by
  cases event with
  | tick env cut =>
    unfold Sync.Event.run Sync.tick
    dsimp only
    rw [same.runInner_eq]
    cases ran : Sync.runInner (wasm32 json) env files with
    | error fault => exact same
    | ok out =>
      obtain ⟨start, target, place, saved, swap, ticked⟩ := Sync.runInner_ticked ran
      have snapshot := ticked.place_snapshot roundTrips sound
      dsimp only
      rw [ticked.ops, List.take_append, Files.after_append, Files.after_append]
      have first : SameSnapshots (files.after (saved.take cut)) (other.after (saved.take cut)) := by
        rcases ticked.saves with ⟨rfl, _⟩ | ⟨bytes, _, rfl⟩
        · rw [List.take_nil]
          exact same
        · exact same.take_write snapshot bytes cut
      rcases ticked.swaps with ⟨_, _, rfl, _⟩ | ⟨_, rfl, _⟩
      · exact first.take_swap _
      · rw [List.take_nil]
        exact first
  | write order enumerates now change cut =>
    unfold Sync.Event.run Dav.writeThrough
    dsimp only
    rw [same.mutate_eq]
    exact same.after_mutate enumerates now _ cut

end Congruence

/-! ## What a request does to the snapshots -/

/-- The snapshots are left alone, or one event of a run happens to them; and an answer that is an
error leaves the live one alone. -/
def Steps (json : MetaJson) (m : Daemon DavResponse) : Prop :=
  ∀ world,
    (SameSnapshots world.files (m.after world).files ∨
      ∃ event : Sync.Event, event.Genuine ∧ SameSnapshots (event.run json world.files) (m.after world).files) ∧
    ∀ response, m.outcome world = .ok response → 400 ≤ response.status →
      (m.after world).files indexFile = world.files indexFile

section Steps
variable {ext : Externals} {host : Surroundings} {config : GuestConfig} {json : MetaJson} {m : Daemon DavResponse}

theorem Steps.of_same (same : ∀ world, SameSnapshots world.files (m.after world).files) : Steps json m :=
  fun world => ⟨.inl (same world), fun _ _ _ => same world indexFile (.inl rfl)⟩

theorem Steps.of_along {allowed : Graph.Call → Prop} (along : Along (Asking ext host config allowed) m) :
    Steps json m :=
  .of_same fun world => .of_asks (along world)

theorem Steps.pure (response : DavResponse) : Steps json (Pure.pure response) := .of_same fun _ => .refl _

theorem Steps.ite {p : Prop} [Decidable p] {other : Daemon DavResponse} (yes : Steps json m) (no : Steps json other) :
    Steps json (if p then m else other) := by
  split
  · exact yes
  · exact no

theorem along_of_same {α : Type} {allowed : Graph.Call → Prop} {m : Daemon α}
    (same : ∀ world, m.after world = world) : Along (Asking ext host config allowed) m :=
  fun world => by rw [same world]; exact Std.Refl.refl _

/-! ### Reads -/

theorem along_propfind (path : String) (depth : Option String) :
    Along (Asking ext host config Graph.Call.reads) (Verbs.propfind ext host config path depth) := by
  refine .bind (.ite (.pure _) (.bind .get fun world => ?_)) fun answer => .pure _
  split
  · exact .pure _
  · refine .bind (Graph.along_attempt (Graph.along_stat trivial)) fun found => ?_
    split
    · exact .pure _
    · refine .ite (.bind (Graph.along_attempt (Graph.along_children trivial)) fun items => ?_) (.pure _)
      split <;> exact .pure _
  · exact .throw _

theorem along_get (path : String) : Along (Asking ext host config Graph.Call.reads) (Verbs.get ext host config path) := by
  refine .bind (Graph.along_attempt (Graph.along_getContent trivial)) fun read => ?_
  split <;> exact .pure _

theorem along_lookupFile {allowed : Graph.Call → Prop} (path : String) :
    Along (Asking ext host config allowed) (attempt (lookupFile ext path)) :=
  along_of_same fun world => by rw [after_attempt, after_lookupFile]

theorem along_head (path : String) : Along (Asking ext host config Graph.Call.reads) (Verbs.head ext host config path) := by
  refine .bind (.ite (.bind (along_lookupFile path) fun hit => ?_) (.pure _)) fun found => ?_
  · split <;> exact .pure _
  · split
    · exact .pure _
    · refine .bind (Graph.along_attempt (Graph.along_stat trivial)) fun item => ?_
      split <;> exact .pure _

theorem along_status : Along (Asking ext host config Graph.Call.reads) (Api.status ext config) := by
  refine .ite (.bind (along_of_same fun world => by rw [after_attempt, after_readMeta]) fun found => ?_) (.pure _)
  split
  · exact .pure _
  · refine .bind (along_of_same fun world => by rw [after_attempt, after_loadStats]) fun tick => ?_
    split <;> exact .pure _

theorem along_search (query : Option String) :
    Along (Asking ext host config Graph.Call.reads) (Api.search ext host config query) := by
  refine .ite (.bind (along_of_same fun world => by rw [after_attempt, after_load]) fun found => ?_) (.pure _)
  split <;> exact .pure _

theorem along_graphTree (path : String) :
    Along (Asking ext host config Graph.Call.reads) (Api.treeFromGraph ext host config path) := by
  have asks : Along (Asking ext host config Graph.Call.reads) (Api.graphTree ext host config path) :=
    .bind (Graph.along_stat trivial) fun item =>
      .ite (.bind (Graph.along_children trivial) fun items => .pure _) (.pure _)
  refine .bind (Graph.along_attempt asks) fun value => ?_
  split <;> exact .pure _

theorem along_tree (query : Option String) :
    Along (Asking ext host config Graph.Call.reads) (Api.tree ext host config query) := by
  unfold Api.tree
  split
  · exact .pure _
  · refine .ite (.bind (along_lookupFile _) fun hit => ?_) (along_graphTree _)
    split
    · exact .pure _
    · exact along_graphTree _

/-! ### Writes -/

/-- The patch of the live snapshot is a local write of a run, done or not. -/
theorem mutate_spec (world : World) (f : Index → Index × Bool) :
    ∃ now cut, SameSnapshots
      (world.files.after ((Snapshot.mutate (wasm32 ext.index) host.order now world.files f).take cut))
      ((mutate ext host f).after world).files := by
  have nothing {t : World} (same : SameSnapshots world.files t.files) : ∃ now cut, SameSnapshots
      (world.files.after ((Snapshot.mutate (wasm32 ext.index) host.order now world.files f).take cut)) t.files :=
    ⟨0, 0, by rw [List.take_zero]; exact same⟩
  unfold mutate
  rcases @load_cases ext world indexFile with ⟨found, loads, read⟩ | ⟨stop, stopped⟩
  case inr =>
    cases stop with
    | failed message =>
      rw [after_bind_ok _ (outcome_attempt_failed stopped), after_attempt, after_load]
      exact nothing (.refl _)
    | cut =>
      rw [after_bind_error _ (outcome_attempt_cut stopped), after_attempt, after_load]
      exact nothing (.refl _)
  rw [after_bind_ok _ (outcome_attempt_ok read), after_attempt, after_load]
  cases found with
  | none => exact nothing (.refl _)
  | some idx =>
    dsimp only
    by_cases changes : (f idx).2 = true
    case neg =>
      rw [if_neg changes]
      exact nothing (.refl _)
    rw [if_pos changes]
    have saves := @save_spec ext host world indexFile (.inl rfl) (f idx).1
    have leaves : ((do let _ ← attempt (save ext host indexFile (f idx).1); return () : Daemon Unit).after world) =
        (save ext host indexFile (f idx).1).after world := by
      cases ended : (attempt (save ext host indexFile (f idx).1)).outcome world with
      | error stop => rw [after_bind_error _ ended, after_attempt]
      | ok _ => rw [after_bind_ok _ ended, after_attempt, after_pure]
    rw [leaves]
    rcases saves with ⟨bytes, encoded, _, left⟩ | ⟨_, kept⟩
    · refine ⟨host.clock world.readings, (StateFile.writeAtomic indexFile bytes).length, ?_⟩
      have ops : Snapshot.mutate (wasm32 ext.index) host.order (host.clock world.readings) world.files f =
          StateFile.writeAtomic indexFile bytes := by
        unfold Snapshot.mutate
        rw [loads]
        dsimp only
        rw [if_pos changes, Snapshot.save, encoded]
        rfl
      rw [ops, List.take_length, left]
      exact .refl _
    · exact nothing kept

theorem writing_steps {α : Type} {ask : Daemon α}
    (along : Along (Asking ext host config fun _ => True) ask) (write : α → Dav.LocalWrite) {status : UInt16} (good : status < 400) :
    Steps ext.index (Verbs.writing ext host config ask write status) := by
  intro world
  have asked := SameSnapshots.of_asks (along world)
  unfold Verbs.writing
  cases ended : ask.outcome world with
  | error stop =>
    cases stop with
    | failed message =>
      rw [after_bind_ok _ (outcome_attempt_failed ended), after_attempt]
      exact ⟨.inl asked, fun _ _ _ => asked indexFile (.inl rfl)⟩
    | cut =>
      rw [after_bind_error _ (outcome_attempt_cut ended), after_attempt]
      exact ⟨.inl asked, fun _ _ _ => asked indexFile (.inl rfl)⟩
  | ok taken =>
    rw [after_bind_ok _ (outcome_attempt_ok ended), outcome_bind_ok _ (outcome_attempt_ok ended), after_attempt]
    dsimp only
    have patched : ∃ now cut, SameSnapshots
        (world.files.after ((Dav.writeThrough (wasm32 ext.index) host.order now world.files (write taken)).take cut))
        ((Verbs.writeThrough ext host config (write taken)).after (ask.after world)).files := by
      unfold Verbs.writeThrough
      split
      · obtain ⟨now, cut, left⟩ := @mutate_spec ext host (ask.after world) fun idx => (write taken).run idx
        refine ⟨now, cut, ?_⟩
        rw [asked.mutate_eq] at left
        exact (asked.after_mutate host.enumerates now _ cut).trans left
      · exact ⟨0, 0, asked⟩
    obtain ⟨now, cut, left⟩ := patched
    cases wrote : (Verbs.writeThrough ext host config (write taken)).outcome (ask.after world) with
    | error stop =>
      rw [after_bind_error _ wrote, outcome_bind_error _ wrote]
      exact ⟨.inr ⟨.write host.order host.enumerates now (write taken) cut, trivial, left⟩,
        fun _ returned => by cases returned⟩
    | ok _ =>
      rw [after_bind_ok _ wrote, outcome_bind_ok _ wrote, after_pure]
      refine ⟨.inr ⟨.write host.order host.enumerates now (write taken) cut, trivial, left⟩,
        fun response returned bad => ?_⟩
      cases returned
      exact absurd good (UInt16.not_lt.mpr bad)

theorem genuine_of_delta {config : GuestConfig} {world : World} {url : String} {page : DeltaPage}
    (replied : (delta ext host config url).outcome world = .ok (.ok page)) : page.Genuine := by
  unfold delta Graph.delta at replied
  split at replied
  case isFalse => cases replied
  cases asked : (attempt (Graph.graphRequest ext.token host.toEnvironment config.toConfig .get url none [])).outcome world with
  | error stop =>
    rw [outcome_bind_error _ asked] at replied
    cases replied
  | ok answer =>
    rw [outcome_bind_ok _ asked] at replied
    cases answer with
    | error message => cases replied
    | ok response =>
      dsimp only at replied
      split at replied
      · cases replied
      · split at replied
        · cases replied
        · split at replied
          · rename_i parsed
            cases replied
            exact Graph.genuine_of_parseDeltaPage parsed
          · cases replied

theorem Exchanges.genuine {config : GuestConfig} {world left : World} {asked : List (String × DeltaReply)}
    (exchanges : Exchanges ext host config world asked left) {url : String} {page : DeltaPage}
    (member : (url, .ok page) ∈ asked) : page.Genuine := by
  induction exchanges with
  | nil => exact absurd member List.not_mem_nil
  | cons replied _ ih =>
    rcases List.mem_cons.mp member with first | later
    · cases first
      exact genuine_of_delta replied
    · exact ih later

theorem Exchanges.planEnv_genuine {config : GuestConfig} {world left : World} {asked : List (String × DeltaReply)}
    (exchanges : Exchanges ext host config world asked left) (now : UInt64) (n : Nat) (url : String) (page : DeltaPage)
    (planned : (planEnv host config asked now).delta n url = .ok page) : page.Genuine := by
  change (asked[n]?.map Prod.snd).getD (.error .resync) = .ok page at planned
  cases found : asked[n]? with
  | none =>
    rw [found] at planned
    cases planned
  | some reply =>
    rw [found] at planned
    obtain ⟨link, _⟩ := reply
    cases planned
    exact exchanges.genuine (List.mem_of_getElem? found)

/-- A sync is a tick of a run, done as far as it got. -/
theorem run_steps : Steps ext.index (Sync.run ext host config) := by
  refine .ite (fun world => ?_) (.pure _)
  rw [after_attempt_bind fun ended left => by cases ended <;> rfl]
  constructor
  · rcases runInner_follows ext host config world with ⟨out, cut, follows⟩ | ⟨_, kept⟩
    · obtain ⟨now, planned⟩ := follows.planned
      obtain ⟨_, exchanges⟩ := follows.asked
      refine .inr ⟨.tick (planEnv host config out.asked now) cut, exchanges.planEnv_genuine now, ?_⟩
      unfold Sync.Event.run Sync.tick
      dsimp only
      rw [planned]
      exact follows.files
    · exact .inl kept
  · intro response returned bad
    cases ended : (runInner ext host config).outcome world with
    | ok report =>
      rw [outcome_bind_ok _ (outcome_attempt_ok ended)] at returned
      cases returned
      exact absurd bad (UInt16.not_le.mpr (by decide : (200 : UInt16) < 400))
    | error stop =>
      cases stop with
      | failed message => exact runInner_failed ended
      | cut =>
        rw [outcome_bind_error _ (outcome_attempt_cut ended)] at returned
        cases returned

/-! ### Requests -/

theorem receive_steps (path : String) (body : IncomingBody) : Steps ext.index (receive ext host config path body) := by
  unfold receive
  split
  · exact .of_same fun _ => .refl _
  · unfold Verbs.put
    exact .ite (.pure _) (writing_steps (Graph.along_putContent trivial) _ (by decide))
  · exact .pure _
  · exact .pure _

theorem dispatch_steps (request : IncomingRequest) (path : String) (destination : Option String) :
    Steps ext.index (dispatch ext host config request path destination) := by
  unfold dispatch
  split
  case h_2 => exact .of_along (along_head path)
  case h_3 => exact .of_along (along_get path)
  case h_4 => exact receive_steps path request.body
  case h_5 => exact writing_steps (Graph.along_delete trivial) _ (by decide)
  case h_6 =>
    refine .ite (.of_along (along_propfind path _)) (.ite ?_ (.ite ?_ (.ite (.pure _) (.ite (.pure _) (.pure _)))))
    · exact writing_steps (Graph.along_createFolder trivial) _ (by decide)
    · split
      · exact writing_steps (Graph.along_moveOrRename trivial) _ (by decide)
      · exact .pure _
  all_goals exact .pure _

theorem dav_steps (request : IncomingRequest) (path : String) : Steps ext.index (dav ext host config request path) := by
  unfold dav
  split
  · exact .pure _
  · split
    · exact .pure _
    · exact dispatch_steps request _ _

theorem plugin_along {path : String} {query : Option String} {answer : Daemon DavResponse}
    (plugged : plugin ext host config path query = some answer) : Along (Asking ext host config Graph.Call.reads) answer := by
  unfold plugin at plugged
  split at plugged
  · cases plugged
    exact along_status
  · split at plugged
    · cases plugged
      exact along_tree query
    · split at plugged
      · cases plugged
        exact along_search query
      · cases plugged

theorem serve_steps (request : IncomingRequest) : Steps ext.index (serve ext host config request) := by
  refine .ite (.ite run_steps (.pure _)) ?_
  split
  · rename_i plugged
    split at plugged
    · exact .of_along (plugin_along plugged)
    · cases plugged
  · exact dav_steps request _

theorem handleRequest_steps (process : Process) (request : IncomingRequest) :
    Steps ext.index (handleRequest ext host process request) := by
  unfold handleRequest
  split
  · exact .pure _
  · exact .ite (serve_steps request) (.pure _)

end Steps

/-! ## Sessions -/

/-- Requests one after the other, each in surroundings of its own, on a state directory that began
without a snapshot. Between them anything may happen to the other files. -/
inductive Session (ext : Externals) : World → Prop where
  | start {world : World} : SameSnapshots noFiles world.files → Session ext world
  | request {world : World} (host : Surroundings) (process : Process) (request : IncomingRequest) :
      Session ext world → Session ext ((handleRequest ext host process request).after world)
  | other {world later : World} : Session ext world → SameSnapshots world.files later.files → Session ext later

section Session
variable {ext : Externals} {world : World}

/-- In every session of requests the stored snapshots are those of a run of ticks and local writes. -/
theorem session_refines_run (ext : Externals) (roundTrips : ext.index.RoundTrips) {world : World}
    (session : Session ext world) : ∃ files, Sync.Reachable ext.index files ∧ SameSnapshots files world.files := by
  induction session with
  | start fresh => exact ⟨noFiles, .start, fresh⟩
  | @request world host process request _ ih =>
    obtain ⟨files, run, same⟩ := ih
    rcases (handleRequest_steps process request world).1 with kept | ⟨event, _, left⟩
    · exact ⟨files, run, same.trans kept⟩
    · exact ⟨_, .step event run, (same.event roundTrips (run.sound roundTrips) event).trans left⟩
  | other _ kept ih =>
    obtain ⟨files, run, same⟩ := ih
    exact ⟨files, run, same.trans kept⟩

theorem session_linksHome (roundTrips : ext.index.RoundTrips) (session : Session ext world) :
    ∃ files, Sync.Sound ext.index files ∧ Sync.LinksHome ext.index files ∧ SameSnapshots files world.files := by
  induction session with
  | start fresh => exact ⟨noFiles, Sync.sound_noFiles, fun _ _ _ found => (nomatch found), fresh⟩
  | @request world host process request _ ih =>
    obtain ⟨files, sound, links, same⟩ := ih
    rcases (handleRequest_steps process request world).1 with kept | ⟨event, genuine, left⟩
    · exact ⟨files, sound, links, same.trans kept⟩
    · exact ⟨_, sound.event roundTrips event, links.event roundTrips sound genuine,
        (same.event roundTrips sound event).trans left⟩
  | other _ kept ih =>
    obtain ⟨files, sound, links, same⟩ := ih
    exact ⟨files, sound, links, same.trans kept⟩

/-- In every session each stored snapshot loads, and the link it stands at passes the check of
`delta`, so that no sync ever stops before its first request. -/
theorem stored_cursor_leads_home (ext : Externals) (roundTrips : ext.index.RoundTrips) {world : World}
    (session : Session ext world) {name : String} (snapshot : Sync.SnapshotName name) :
    ∃ found, Snapshot.load (wasm32 ext.index) world.files name = .ok found ∧
      ∀ driveBase, Home ((found.getD Index.empty).cursor driveBase) := by
  obtain ⟨files, sound, links, same⟩ := session_linksHome roundTrips session
  rw [same.load_eq snapshot]
  rcases sound.load roundTrips snapshot with ⟨_, loads⟩ | ⟨_, idx, _, loads, _⟩
  · exact ⟨none, loads, Index.linksHome_empty.cursor⟩
  · exact ⟨some idx, loads, (links.load roundTrips snapshot loads).cursor⟩

/-- A request that is answered with an error leaves the live snapshot as it was, byte for byte. -/
theorem error_keeps_live (ext : Externals) (host : Surroundings) (process : Process) (request : IncomingRequest)
    {world : World} {response : DavResponse}
    (answered : (handleRequest ext host process request).outcome world = .ok response) (bad : 400 ≤ response.status) :
    ((handleRequest ext host process request).after world).files indexFile = world.files indexFile :=
  (handleRequest_steps process request world).2 response answered bad

end Session

/-! ## A drive that is synced, and then loses a folder -/

def firstPageText : Bytes :=
  utf8 ("\x7b\"value\":[\x7b\"id\":\"r\",\"name\":\"root\",\"folder\":\x7b\x7d,\"root\":\x7b\x7d\x7d," ++
    "\x7b\"id\":\"b\",\"name\":\"B\",\"folder\":\x7b\x7d,\"parentReference\":\x7b\"id\":\"r\"\x7d\x7d]," ++
    "\"@odata.nextLink\":\"https://graph.microsoft.com/2\"\x7d")

def secondPageText : Bytes :=
  utf8 ("\x7b\"value\":[\x7b\"id\":\"f\",\"name\":\"f.txt\",\"size\":1,\"parentReference\":\x7b\"id\":\"b\"\x7d\x7d," ++
    "\x7b\"id\":\"a\",\"name\":\"A\",\"folder\":\x7b\x7d,\"parentReference\":\x7b\"id\":\"r\"\x7d\x7d]," ++
    "\"@odata.deltaLink\":\"https://graph.microsoft.com/d\"\x7d")

def nothingNewText : Bytes :=
  utf8 "\x7b\"value\":[],\"@odata.deltaLink\":\"https://graph.microsoft.com/d\"\x7d"

def renamedText : Bytes :=
  utf8 ("\x7b\"value\":[\x7b\"id\":\"b\",\"name\":\"C\",\"folder\":\x7b\x7d,\"parentReference\":\x7b\"id\":\"r\"\x7d\x7d]," ++
    "\"@odata.deltaLink\":\"https://graph.microsoft.com/e\"\x7d")

def nothingNewerText : Bytes :=
  utf8 "\x7b\"value\":[],\"@odata.deltaLink\":\"https://graph.microsoft.com/e\"\x7d"

def crawlExternals : Externals :=
  { plainExternals with
    graph := {
      driveItem := fun _ => .error "expected value"
      driveItemPage := fun _ => .error "expected value"
      deltaPage := fun body =>
        if body = firstPageText then
          .ok ⟨[Dav.foldersABItem "r", Dav.foldersABItem "b"], some "https://graph.microsoft.com/2", none, none⟩
        else if body = secondPageText then
          .ok ⟨[Dav.foldersABItem "f", Dav.foldersABItem "a"], none, some "https://graph.microsoft.com/d", none⟩
        else if body = nothingNewText then .ok ⟨[], none, some "https://graph.microsoft.com/d", none⟩
        else if body = renamedText then
          .ok ⟨[{ Dav.foldersABItem "b" with name := "C" }], none, some "https://graph.microsoft.com/e", none⟩
        else if body = nothingNewerText then .ok ⟨[], none, some "https://graph.microsoft.com/e", none⟩
        else .error "expected value"
      errorCode := fun _ => none
      uploadUrl := fun _ => .error "expected value" } }

def crawlSurroundings : Surroundings :=
  { offline with
    answer := fun requests =>
      match requests.getLast? with
      | some o =>
        if o.method = .get then
          if o.pathWithQuery = "/2" then .ok ⟨200, [], secondPageText⟩
          else if o.pathWithQuery = "/d" then .ok ⟨200, [], nothingNewText⟩
          else .ok ⟨200, [], firstPageText⟩
        else .ok ⟨204, [], []⟩
      | none => .ok ⟨404, [], []⟩ }

def openProcess : Process := ⟨[("ONEDRIVE_ALLOW_UNAUTHENTICATED", "1")], ["/state"]⟩

def syncRequest : IncomingRequest :=
  ⟨.post, some "/_sync", fun name => if name = "x-onedrive-sync" then [utf8 "1"] else [], ⟨true, true, [], .closed⟩⟩

def openConfig : GuestConfig where
  clientId := none
  tenantId := "common"
  driveBase := "me/drive"
  basicAuthSecret := none
  indexEnabled := true
  syncMaxPages := max 8 1
  somePage := Nat.lt_of_lt_of_le Nat.zero_lt_one (Nat.le_max_right 8 1)
  syncBudgetMs := 20000

theorem load_openProcess : GuestConfig.load openProcess.environ openProcess.preopens = .ok openConfig := rfl

def deletion : IncomingRequest := ⟨.delete, some "/A", fun _ => [], ⟨true, true, [], .closed⟩⟩

def tokenWorld : World := ⟨fun name => if name = Auth.tokenFile then some Dav.freshTokenText else none, [], 0, 0⟩

def syncedWorld : World := (runInner crawlExternals crawlSurroundings openConfig).after tokenWorld

def deletedWorld : World := (handleRequest crawlExternals crawlSurroundings openProcess deletion).after syncedWorld

theorem crawlExternals_ascii :
    crawlExternals = { crawlExternals with index := asciiText, token := Auth.asciiTokens } := by
  rw [← metaText_eq_asciiText, ← Auth.tokenText_eq_asciiTokens]
  rfl

def deltaTarget : String := "/" ++ ("v1.0/me/drive/root/delta?" ++ Graph.deltaQuery)

theorem splitUrl_initialDeltaUrl :
    splitUrl (Graph.initialDeltaUrl "me/drive") = .ok ("graph.microsoft.com", deltaTarget) := by
  have url : Graph.initialDeltaUrl "me/drive" = "https://" ++ "graph.microsoft.com" ++ "/" ++
      ("v1.0/me/drive/root/delta?" ++ Graph.deltaQuery) := by decide +kernel
  exact (congrArg splitUrl url).trans (splitUrl_host (by decide))

theorem bearerToken_tokenWorld :
    Auth.bearerToken Auth.tokenText crawlSurroundings.toEnvironment openConfig.toConfig tokenWorld =
      (.ok "Bearer a", { tokenWorld with readings := 1 }) := by
  have read : Auth.tokenText.fromSlice Dav.freshTokenText = .ok ⟨"r", some "a", 2000⟩ := by
    dsimp only [Auth.tokenText, Dav.freshTokenText]
    rw [Json.pretty, readWith_write, Auth.tokenOfMembers_tokenMembers]
  have found : Auth.stored Auth.tokenText tokenWorld = some ⟨"r", some "a", 2000⟩ := by
    have held : tokenWorld.files Auth.tokenFile = some Dav.freshTokenText := rfl
    rw [Auth.stored, held, Option.bind_some, read]
    rfl
  exact Auth.bearerToken_fresh found rfl (by decide)

def firstPage : DeltaPage :=
  ⟨[Sync.rootRecord, folderRecord "b" "B"], some "https://graph.microsoft.com/2", none⟩

def firstPageWorld : World :=
  { tokenWorld with
    sent := [⟨.get, .https, "graph.microsoft.com", deltaTarget, [("authorization", "Bearer a")], []⟩]
    readings := 1 }

theorem delta_tokenWorld :
    delta crawlExternals crawlSurroundings openConfig (Graph.initialDeltaUrl "me/drive") tokenWorld =
      (.ok (.ok firstPage), firstPageWorld) := by
  have second : deltaTarget ≠ "/2" := by decide
  have later : deltaTarget ≠ "/d" := by decide
  exact @Graph.delta_page _ _ _ _ _ _ _ _ _ _ firstPageText _ (Graph.home_initialDeltaUrl _)
    bearerToken_tokenWorld splitUrl_initialDeltaUrl (by simp [crawlSurroundings, tokenWorld, second, later])
    (by decide +kernel) (by decide +kernel)

def firstLoop : Sync.Loop := (Sync.onPage (start openConfig false Index.empty indexFile) firstPage).1

/-- The tick with its first page behind it; the link of that page is long, and is not evaluated again. -/
theorem runInner_tokenWorld : runInner crawlExternals crawlSurroundings openConfig tokenWorld =
    resume crawlExternals crawlSurroundings openConfig 7 firstLoop firstPageWorld := by
  have prepared : prepare crawlExternals openConfig tokenWorld =
      (.ok (start openConfig false Index.empty indexFile), tokenWorld) := rfl
  exact runInner_of_first rfl prepared (by decide) delta_tokenWorld (by decide)

/-- The first tick takes both pages, and a second finds nothing new. The deletion fails where Graph
cannot be reached; else it is asked for, and the root and the other folder with its file are left. -/
theorem synced_tokenWorld :
    ∃ stats later refused, (runInner crawlExternals crawlSurroundings openConfig).outcome tokenWorld = .ok stats ∧
      stats.complete = true ∧ (runInner crawlExternals crawlSurroundings openConfig).outcome syncedWorld = .ok later ∧
      (handleRequest crawlExternals offline openProcess deletion).outcome syncedWorld = .ok refused ∧
      400 ≤ refused.status ∧ deletedWorld.sent.length = syncedWorld.sent.length + 1 ∧
      Result.isOkAnd (Snapshot.load (wasm32 metaText) deletedWorld.files indexFile)
        (fun found => found.any fun idx => idx.nodes.keys == ["b", "f", "r"]) = true := by
  have evaluated : (match resume crawlExternals crawlSurroundings openConfig 7 firstLoop firstPageWorld with
      | (.ok stats, left) =>
        stats.complete && (match (runInner crawlExternals crawlSurroundings openConfig).outcome left with
          | .ok _ => true
          | .error _ => false) &&
        (match (handleRequest crawlExternals offline openProcess deletion).outcome left with
          | .ok refused => decide (400 ≤ refused.status)
          | .error _ => false) &&
        (match (handleRequest crawlExternals crawlSurroundings openProcess deletion).after left with
          | deleted => decide (deleted.sent.length = left.sent.length + 1) &&
            Result.isOkAnd (Snapshot.load (wasm32 crawlExternals.index) deleted.files indexFile)
              fun found => found.any fun idx => idx.nodes.keys == ["b", "f", "r"])
      | (.error _, _) => false) = true := by
    rw [crawlExternals_ascii]
    decide +kernel
  rw [← runInner_tokenWorld] at evaluated
  cases ended : (runInner crawlExternals crawlSurroundings openConfig).outcome tokenWorld with
  | error stop =>
    rw [apply_eq ended] at evaluated
    cases evaluated
  | ok stats =>
    rw [apply_eq ended] at evaluated
    simp only [Bool.and_eq_true] at evaluated
    obtain ⟨⟨⟨complete, again⟩, refuses⟩, asked, kept⟩ := evaluated
    cases further : (runInner crawlExternals crawlSurroundings openConfig).outcome syncedWorld with
    | error stop =>
      rw [syncedWorld] at further
      rw [further] at again
      cases again
    | ok later =>
      cases refusal : (handleRequest crawlExternals offline openProcess deletion).outcome syncedWorld with
      | error stop =>
        rw [syncedWorld] at refusal
        rw [refusal] at refuses
        cases refuses
      | ok refused =>
        rw [syncedWorld] at refusal
        rw [refusal] at refuses
        exact ⟨stats, later, refused, rfl, complete, rfl, rfl, of_decide_eq_true refuses, of_decide_eq_true asked, kept⟩

theorem handleRequest_sync {host : Surroundings} {world : World} {stats : SyncStats}
    (ended : (runInner crawlExternals host openConfig).outcome world = .ok stats) :
    (handleRequest crawlExternals host openProcess syncRequest).outcome world = .ok (jsonOk (Sync.reportJson stats)) ∧
      (handleRequest crawlExternals host openProcess syncRequest).after world =
        (runInner crawlExternals host openConfig).after world := by
  unfold handleRequest
  rw [load_openProcess]
  change (Sync.run crawlExternals host openConfig).outcome world = _ ∧
    (Sync.run crawlExternals host openConfig).after world = _
  unfold Sync.run
  rw [if_pos (show openConfig.indexEnabled = true from rfl), outcome_bind_ok _ (outcome_attempt_ok ended),
    after_bind_ok _ (outcome_attempt_ok ended), after_attempt]
  exact ⟨rfl, rfl⟩

theorem fresh_tokenWorld : SameSnapshots noFiles tokenWorld.files := by
  rintro n (rfl | rfl) <;> rfl

theorem session_syncedWorld : Session crawlExternals syncedWorld := by
  obtain ⟨_, _, _, ended, _⟩ := synced_tokenWorld
  rw [syncedWorld, ← (handleRequest_sync ended).2]
  exact .request crawlSurroundings openProcess syncRequest (.start fresh_tokenWorld)

theorem session_deletedWorld : Session crawlExternals deletedWorld :=
  .request crawlSurroundings openProcess deletion session_syncedWorld

theorem session_refines_run_deleted : ∃ files, Sync.Reachable metaText files ∧
    SameSnapshots files deletedWorld.files ∧ (deletedWorld.files indexFile).isSome = true := by
  obtain ⟨files, run, same⟩ := session_refines_run crawlExternals metaText_roundTrips session_deletedWorld
  refine ⟨files, run, same, ?_⟩
  obtain ⟨_, _, _, _, _, _, _, _, _, stored⟩ := synced_tokenWorld
  rw [Snapshot.load_eq] at stored
  cases held : deletedWorld.files indexFile with
  | none =>
    rw [held] at stored
    cases stored
  | some bytes => rfl

theorem stored_cursor_leads_home_deleted :
    ∃ idx, Snapshot.load (wasm32 metaText) deletedWorld.files indexFile = .ok (some idx) ∧
      ∀ driveBase, Home (idx.cursor driveBase) := by
  obtain ⟨found, loads, home⟩ := stored_cursor_leads_home crawlExternals metaText_roundTrips session_deletedWorld
    (.inl rfl : Sync.SnapshotName indexFile)
  obtain ⟨_, _, _, _, _, _, _, _, _, stored⟩ := synced_tokenWorld
  have own : Snapshot.load (wasm32 metaText) deletedWorld.files indexFile = .ok found := loads
  rw [own] at stored
  obtain ⟨idx, rfl, _⟩ := (Option.any_eq_true _ _).mp stored
  exact ⟨idx, own, home⟩

/-- Graph cannot be reached any more, and the deletion fails. -/
theorem error_keeps_live_unreachable :
    ((handleRequest crawlExternals offline openProcess deletion).after syncedWorld).files indexFile =
      syncedWorld.files indexFile := by
  obtain ⟨_, _, refused, _, _, _, refusal, bad, _⟩ := synced_tokenWorld
  exact error_keeps_live crawlExternals offline openProcess deletion refusal bad

end Guest

end OneDriveDavfs
