import OneDriveDavfs.Guest.Sessions
import OneDriveDavfs.Xml.Multistatus

/-! What a request may do, by its verb and by its credentials.

Whatever the arguments are and however the request ends, a verb sends only its
own kinds of requests to Graph and writes only its own files. A request without
the secret does nothing at all, so that a run is the same without it.
-/

set_option autoImplicit false

namespace OneDriveDavfs

open Library Library.Wire Library.Effect Library.Separated Snapshot

/-- Calls of Graph, and files that may be written beside the token file. -/
structure Rights where
  calls : Graph.Call → Prop
  names : List String

/-- The rights of a request: what its verb stands for, at its own target, or no more than to look. -/
def IncomingRequest.rights (request : IncomingRequest) : Rights :=
  match request.method with
  | .put => ⟨fun c => ∃ path, request.path = .ok path ∧ c = .putContent path request.body.bytes, [indexFile]⟩
  | .delete => ⟨fun c => ∃ path, request.path = .ok path ∧ c = .delete path, [indexFile]⟩
  | .other "MKCOL" =>
    ⟨fun c => ∃ path, request.path = .ok path ∧ c = .createFolder (Dav.parentOf path) (Verbs.lastName path), [indexFile]⟩
  | .other "MOVE" =>
    ⟨fun c => ∃ path destination, request.path = .ok path ∧
      Guest.destinationOf request.headers = .ok (some destination) ∧ c = .moveOrRename path destination, [indexFile]⟩
  | .post => ⟨Graph.Call.syncs, [indexFile, rebuildFile, Guest.statsFile]⟩
  | _ => ⟨Graph.Call.reads, []⟩

/-- What happened between the two worlds keeps within the rights, the renewal of the token apart. -/
structure Within (ext : Externals) (host : Surroundings) (config : GuestConfig) (rights : Rights) (s t : World) : Prop where
  sent : ∃ more, t.sent = s.sent ++ more ∧
    ∀ o ∈ more, Graph.Sends ext.graph host.toEnvironment config.toConfig (fun _ => True) rights.calls o
  files : ∀ n, n ≠ Auth.tokenFile → (∀ name ∈ rights.names, n ≠ name ∧ n ≠ StateFile.tmpName name) →
    t.files n = s.files n

section Preorder
variable {ext : Externals} {host : Surroundings} {config : GuestConfig} {rights : Rights} {s t : World}

theorem Within.of_sent (sent : t.sent = s.sent)
    (files : ∀ n, (∀ name ∈ rights.names, n ≠ name ∧ n ≠ StateFile.tmpName name) → t.files n = s.files n) :
    Within ext host config rights s t :=
  ⟨⟨[], by rw [sent, List.append_nil], by simp⟩, fun n _ => files n⟩

theorem Within.of_asks (asks : Guest.Asking ext host config rights.calls s t) : Within ext host config rights s t :=
  ⟨asks.sent, fun n other _ => asks.files n other⟩

instance : Std.Refl (Within ext host config rights) := ⟨fun _ => .of_sent rfl fun _ _ => rfl⟩

instance : IsTrans World (Within ext host config rights) where
  trans := by
    rintro s t u ⟨⟨first, left, allowed⟩, same⟩ ⟨⟨second, right, further⟩, again⟩
    refine ⟨⟨first ++ second, by rw [right, left, List.append_assoc], ?_⟩,
      fun n other free => (again n other free).trans (same n other free)⟩
    exact fun o member => (List.mem_append.mp member).elim (allowed o) (further o)

end Preorder

namespace Guest

section Verbs
variable {ext : Externals} {host : Surroundings} {config : GuestConfig} {rights : Rights}

/-! ## Files -/

theorem within_same {α : Type} {m : Daemon α} (same : ∀ world, m.after world = world) :
    Along (Within ext host config rights) m :=
  fun world => by rw [same world]; exact Std.Refl.refl _

theorem within_asks {α : Type} {m : Daemon α} (along : Along (Asking ext host config rights.calls) m) :
    Along (Within ext host config rights) m :=
  fun world => .of_asks (along world)

theorem within_nowSecs : Along (Within ext host config rights) (nowSecs host.toEnvironment) :=
  fun world => .of_sent (by rw [after_nowSecs]) fun _ _ => by rw [after_nowSecs]

theorem within_writeAtomic {name : String} (own : name ∈ rights.names) (contents : Bytes) :
    Along (Within ext host config rights) (writeAtomic host name contents) := by
  intro world
  rw [after_writeAtomic]
  refine .of_sent rfl fun n free => ?_
  obtain ⟨other, away⟩ := free name own
  dsimp only
  rcases @FileLayer.writeAtomic_cases name contents (host.atomic world.writes) world.files with ⟨_, left⟩ | ⟨_, kept⟩
  · rw [left, StateFile.after_writeAtomic, if_neg other, if_neg away]
  · exact kept n away

theorem renameAt_other (files : Files) {source dest n : String} (fromOther : n ≠ source) (toOther : n ≠ dest) :
    FileLayer.renameAt files source dest n = files n := by
  cases found : files source with
  | none => simp only [FileLayer.renameAt, FileOp.run, found]
  | some contents => simp only [FileLayer.renameAt, FileOp.run, found, if_neg toOther, if_neg fromOther]

theorem within_rename {source dest : String} (fromOwn : source ∈ rights.names) (toOwn : dest ∈ rights.names) :
    Along (Within ext host config rights) (rename host source dest) := by
  unfold rename
  split
  · exact .throw _
  · exact .throw _
  · intro world
    rw [after_modify]
    exact .of_sent rfl fun n free => renameAt_other world.files (free source fromOwn).1 (free dest toOwn).1

theorem within_ofResult {α : Type} (result : Result α) : Along (Within ext host config rights) (ofResult result) :=
  within_same fun _ => after_ofResult result

theorem within_save {name : String} (own : name ∈ rights.names) (idx : Index) :
    Along (Within ext host config rights) (save ext host name idx) :=
  .bind within_nowSecs fun _ => .bind (within_ofResult _) fun bytes => within_writeAtomic own bytes

theorem within_attempt {α : Type} {m : Daemon α} (along : Along (Within ext host config rights) m) :
    Along (Within ext host config rights) (attempt m) :=
  Graph.along_attempt along

theorem within_load (name : String) : Along (Within ext host config rights) (load ext name) := within_same fun _ => after_load name

theorem within_mutate (own : indexFile ∈ rights.names) (f : Index → Index × Bool) :
    Along (Within ext host config rights) (mutate ext host f) := by
  refine .bind (within_attempt (within_load _)) fun found => ?_
  split
  · exact .ite (.bind (within_attempt (within_save own _)) fun _ => .pure _) (.pure _)
  · exact .pure _

/-! ## The verbs -/

theorem within_writing {α : Type} {ask : Daemon α} (along : Along (Within ext host config rights) ask)
    (own : indexFile ∈ rights.names) (write : α → Dav.LocalWrite) (status : UInt16) :
    Along (Within ext host config rights) (Verbs.writing ext host config ask write status) := by
  refine .bind (within_attempt along) fun taken => ?_
  split
  · refine .bind ?_ fun _ => .pure _
    exact .ite (within_mutate own _) (.pure _)
  · exact .pure _

theorem within_saveStats (figures : statsFile ∈ rights.names) (stats : SyncStats) :
    Along (Within ext host config rights) (saveStats ext host stats) := by
  unfold saveStats
  split
  · exact .throw _
  · exact within_writeAtomic figures _

theorem within_finish {s : Sync.Loop} (own : s.target ∈ rights.names) (live : indexFile ∈ rights.names)
    (rebuild : rebuildFile ∈ rights.names) (figures : statsFile ∈ rights.names) :
    Along (Within ext host config rights) (do settle ext host s; record ext host s) := by
  refine .bind (.bind (.ite (within_save own _) (.pure _)) fun _ => .ite (within_rename rebuild live) (.pure _)) fun _ => ?_
  exact .bind within_nowSecs fun now => .bind (within_attempt (within_saveStats figures _)) fun _ => .pure _

theorem within_runInner (syncs : rights.calls = Graph.Call.syncs) (live : indexFile ∈ rights.names)
    (rebuild : rebuildFile ∈ rights.names) (figures : statsFile ∈ rights.names) :
    Along (Within ext host config rights) (runInner ext host config) := by
  intro world
  obtain ⟨left, ⟨due, idx, target, begun, isTarget, _⟩ | ⟨stop, stopped⟩⟩ := @prepare_spec ext config world
  case inr =>
    rw [runInner, after_bind_error _ stopped, left]
    exact Std.Refl.refl _
  rw [runInner, after_bind_ok _ begun, left]
  have looping : Within ext host config rights world _ :=
    within_asks (by rw [syncs]; exact @along_loop ext host config (start config due idx target) config.syncMaxPages) world
  cases looped : (loop ext host config config.syncMaxPages (start config due idx target)).outcome world with
  | error stop =>
    rw [after_bind_error _ looped]
    exact looping
  | ok s =>
    obtain ⟨_, _, _, planned⟩ := loop_spec (.refl world.files) rfl looped
    have snapshot : Sync.SnapshotName s.target := snapshotName_loop isTarget rfl (planned 0)
    have own : s.target ∈ rights.names := by
      rcases snapshot with target | target
      · exact target ▸ live
      · exact target ▸ rebuild
    rw [after_bind_ok _ looped]
    refine IsTrans.trans _ _ _ looping (within_finish own live rebuild figures _)

end Verbs

/-! ## Requests -/

section Requests
variable {ext : Externals} {host : Surroundings} {config : GuestConfig} {request : IncomingRequest}

theorem within_receive (isPut : request.method = .put) {path : String} (named : request.path = .ok path) :
    Along (Within ext host config request.rights) (receive ext host config path request.body) := by
  unfold receive
  split
  · exact .throw _
  · rename_i bytes arrived
    obtain ⟨_, whole⟩ := IncomingBody.readRequestBody_ok_iff.mp arrived
    unfold Verbs.put
    refine .ite (.pure _) (within_writing (within_asks (Graph.along_putContent ?_)) ?_ _ _)
    · simp [IncomingRequest.rights, isPut, named, whole]
    · simp [IncomingRequest.rights, isPut]
  · exact .pure _
  · exact .pure _

theorem within_dispatch {path : String} {destination : Option String} (named : request.path = .ok path)
    (going : destinationOf request.headers = .ok destination) :
    Along (Within ext host config request.rights) (dispatch ext host config request path destination) := by
  have looks {m : Daemon DavResponse} (own : request.rights.calls = Graph.Call.reads)
      (along : Along (Asking ext host config Graph.Call.reads) m) :
      Along (Within ext host config request.rights) m := within_asks (own ▸ along)
  unfold dispatch
  split
  case h_2 head => exact looks (by simp [IncomingRequest.rights, head]) (along_head path)
  case h_3 get => exact looks (by simp [IncomingRequest.rights, get]) (along_get path)
  case h_4 put => exact within_receive put named
  case h_5 delete =>
    refine within_writing (within_asks (Graph.along_delete ?_)) ?_ _ _
    · simp [IncomingRequest.rights, delete, named]
    · simp [IncomingRequest.rights, delete]
  case h_6 name other =>
    refine .ite' (fun propfind => ?_) fun _ => .ite' (fun mkcol => ?_) fun _ => .ite' (fun move => ?_) fun _ => ?_
    · exact looks (by simp [IncomingRequest.rights, other, propfind]) (along_propfind path _)
    · refine within_writing (within_asks (Graph.along_createFolder ?_)) ?_ _ _
      · simp [IncomingRequest.rights, other, mkcol, named]
      · simp [IncomingRequest.rights, other, mkcol]
    · split
      · refine within_writing (within_asks (Graph.along_moveOrRename ?_)) ?_ _ _
        · simp [IncomingRequest.rights, other, move, named, going]
        · simp [IncomingRequest.rights, other, move]
      · exact .pure _
    · exact .ite (.pure _) (.ite (.pure _) (.pure _))
  all_goals exact .pure _

theorem within_dav : Along (Within ext host config request.rights)
    (dav ext host config request (rawPath (request.pathWithQuery.getD ""))) := by
  unfold dav
  cases named : sanitizePath (rawPath (request.pathWithQuery.getD "")) with
  | error e => exact .pure _
  | ok path =>
    dsimp only
    cases going : destinationOf request.headers with
    | error e => exact .pure _
    | ok destination => exact within_dispatch named going

theorem within_serve : Along (Within ext host config request.rights) (serve ext host config request) := by
  unfold serve
  dsimp only
  by_cases post : request.method = .post
  · rw [if_pos post]
    refine .ite ?_ (.pure _)
    have all : request.rights = ⟨Graph.Call.syncs, [indexFile, rebuildFile, statsFile]⟩ := by
      rw [IncomingRequest.rights, post]
    rw [all]
    refine .ite (.bind (within_attempt (within_runInner rfl (by simp) (by simp) (by simp))) fun ended => ?_)
      (.pure _)
    split <;> exact .pure _
  · rw [if_neg post]
    split
    · rename_i plugged
      split at plugged
      · rename_i asked
        have looks : request.rights = ⟨Graph.Call.reads, []⟩ := by rw [IncomingRequest.rights, asked.1]
        rw [looks]
        exact within_asks (plugin_along plugged)
      · cases plugged
    · exact within_dav

/-- Whatever a request says and however it ends, it keeps within its rights. -/
theorem verb_keeps_to_its_rights (ext : Externals) (host : Surroundings) (process : Process) (request : IncomingRequest)
    {config : GuestConfig} (loaded : GuestConfig.load process.environ process.preopens = .ok config) (world : World) :
    Within ext host config request.rights world ((handleRequest ext host process request).after world) := by
  unfold handleRequest
  rw [loaded]
  dsimp only
  exact Along.ite within_serve (.pure _) world

/-- The deletion of the folder sends one request, and the folder is no more in the live snapshot. -/
theorem verb_keeps_to_its_rights_deleted :
    Within crawlExternals crawlSurroundings openConfig deletion.rights syncedWorld deletedWorld ∧
      deletedWorld.sent.length = syncedWorld.sent.length + 1 ∧
      Result.isOkAnd (Snapshot.load (wasm32 metaText) deletedWorld.files indexFile)
        (fun found => found.any fun idx => idx.nodes.keys == ["b", "f", "r"]) = true := by
  obtain ⟨_, _, _, _, _, _, _, _, asked, left⟩ := synced_tokenWorld
  exact ⟨verb_keeps_to_its_rights crawlExternals crawlSurroundings openProcess deletion load_openProcess syncedWorld,
    asked, left⟩

end Requests

/-! ## Credentials -/

/-- The password of the credentials is the secret. -/
def Presents (secret : String) (headers : BasicAuth.Fields) : Prop :=
  ∃ encoded user, ':' ∉ user.toList ∧ BasicAuth.headerValue headers "authorization" = some ("Basic " ++ encoded) ∧
    BasicAuth.base64Decode encoded = some (utf8 (user ++ ":" ++ secret))

theorem check_iff_presents {secret : String} {headers : BasicAuth.Fields} :
    BasicAuth.checkBasicAuth (some secret) headers = true ↔ Presents secret headers := by
  unfold BasicAuth.checkBasicAuth
  dsimp only
  constructor
  · intro passed
    split at passed
    · cases passed
    · rename_i raw sent
      split at passed
      · cases passed
      · rename_i encoded basic
        rw [Xml.stripPrefix_eq_some_iff.mp basic] at sent
        split at passed
        · cases passed
        · rename_i decoded read
          split at passed
          · rename_i user pass cut
            obtain ⟨bytes, decodes, text⟩ := Option.bind_eq_some_iff.mp read
            have plain : ':' ∉ (String.ofList user).toList := by
              rw [String.toList_ofList]
              exact splitOnce_clean cut
            refine ⟨encoded, String.ofList user, plain, sent, decodes.trans (congrArg some ?_)⟩
            have same := utf8_injective ((BasicAuth.constantTimeEq_iff _ _).mp passed)
            rw [← utf8_of_fromUtf8 text, ← String.ofList_toList (s := decoded), splitOnce_eq_some cut, ← same]
            simp [String.append_assoc]
          · cases passed
  · rintro ⟨encoded, user, plain, sent, decodes⟩
    have cut : splitOnce [':'] (user ++ ":" ++ secret).toList = some (user.toList, secret.toList) := by
      rw [String.toList_append, String.toList_append, List.append_assoc]
      exact splitOnce_separator plain secret.toList
    rw [sent]
    dsimp only
    rw [stripPrefix_append]
    dsimp only
    rw [decodes, Option.bind_some, fromUtf8_utf8]
    dsimp only
    rw [cut]
    dsimp only
    rw [BasicAuth.constantTimeEq_iff, String.ofList_toList]

structure Arrival where
  host : Surroundings
  process : Process
  request : IncomingRequest

/-- The process has its settings, and the request passes the check of the credentials. -/
def Arrival.admitted (arrival : Arrival) : Bool :=
  match GuestConfig.load arrival.process.environ arrival.process.preopens with
  | .error _ => false
  | .ok config => BasicAuth.checkBasicAuth config.basicAuthSecret arrival.request.headers

/-- The process has its settings, and where they name a secret the request presents it. -/
def Arrival.Entitled (arrival : Arrival) : Prop :=
  ∃ config, GuestConfig.load arrival.process.environ arrival.process.preopens = .ok config ∧
    ∀ secret, config.basicAuthSecret = some secret → Presents secret arrival.request.headers

def serveAll (ext : Externals) : List Arrival → World → List (Arrival × Except Stop DavResponse) × World
  | [], world => ([], world)
  | first :: rest, world =>
    let handled := handleRequest ext first.host first.process first.request
    let later := serveAll ext rest (handled.after world)
    ((first, handled.outcome world) :: later.1, later.2)

def TurnedAway (answer : Except Stop DavResponse) : Prop :=
  ∃ response, answer = .ok response ∧ (response.status = 401 ∨ response.status = 500)

section Credentials
variable {ext : Externals} {world : World}

theorem turnedAway_of_not_admitted {arrival : Arrival} (refused : arrival.admitted = false) :
    (handleRequest ext arrival.host arrival.process arrival.request).after world = world ∧
      TurnedAway ((handleRequest ext arrival.host arrival.process arrival.request).outcome world) := by
  unfold Arrival.admitted at refused
  unfold handleRequest
  cases loaded : GuestConfig.load arrival.process.environ arrival.process.preopens with
  | error e => exact ⟨rfl, _, rfl, .inr rfl⟩
  | ok config =>
    rw [loaded] at refused
    dsimp only at refused ⊢
    rw [if_neg (Bool.eq_false_iff.mp refused)]
    exact ⟨rfl, _, rfl, .inl rfl⟩

theorem admitted_iff_entitled (arrival : Arrival) : arrival.admitted = true ↔ arrival.Entitled := by
  unfold Arrival.admitted Arrival.Entitled
  cases GuestConfig.load arrival.process.environ arrival.process.preopens with
  | error e => simp
  | ok config =>
    simp only [Except.ok.injEq, exists_eq_left']
    cases config.basicAuthSecret with
    | none => exact iff_of_true rfl fun _ impossible => by cases impossible
    | some secret => simp [check_iff_presents]

/-- A run is the same without the requests that are not admitted, which are those that do not present
the secret: for what it leaves and for the answers to all others. -/
theorem strangers_leave_no_trace (ext : Externals) (arrivals : List Arrival) (world : World) :
    serveAll ext (arrivals.filter Arrival.admitted) world =
        ((serveAll ext arrivals world).1.filter fun served => served.1.admitted, (serveAll ext arrivals world).2) ∧
      (∀ served ∈ (serveAll ext arrivals world).1, served.1.admitted = false → TurnedAway served.2) ∧
      ∀ arrival ∈ arrivals, arrival.admitted = true ↔ arrival.Entitled := by
  rw [← and_assoc]
  refine ⟨?_, fun arrival _ => admitted_iff_entitled arrival⟩
  induction arrivals generalizing world with
  | nil => exact ⟨rfl, fun _ member => absurd member List.not_mem_nil⟩
  | cons first rest ih =>
    obtain ⟨same, others⟩ := ih ((handleRequest ext first.host first.process first.request).after world)
    cases passes : first.admitted with
    | true =>
      refine ⟨?_, fun served member refused => ?_⟩
      · rw [List.filter_cons_of_pos passes]
        simp only [serveAll, List.filter_cons, passes, same, if_true]
      · rcases List.mem_cons.mp member with rfl | later
        · exact absurd passes (Bool.eq_false_iff.mp refused)
        · exact others served later refused
    | false =>
      obtain ⟨kept, away⟩ := @turnedAway_of_not_admitted ext world first passes
      rw [kept] at same others
      have plain : ¬ first.admitted = true := Bool.eq_false_iff.mp passes
      refine ⟨?_, fun served member refused => ?_⟩
      · rw [List.filter_cons_of_neg plain, same]
        simp only [serveAll, kept, List.filter_cons, passes, if_neg Bool.false_ne_true]
      · rw [serveAll, kept] at member
        rcases List.mem_cons.mp member with rfl | later
        · exact away
        · exact others served later refused

/-- Behind the host nothing happens but for a request with the secret of the host's own variables,
and that is a real one. -/
theorem only_the_secret_opens (ext : Externals) (host : Surroundings) (process : String → Option String)
    (preopens : List String) (request : IncomingRequest) (world : World) :
    ((handleRequest ext host ⟨GuestConfig.capture process, preopens⟩ request).after world = world ∧
        TurnedAway ((handleRequest ext host ⟨GuestConfig.capture process, preopens⟩ request).outcome world)) ∨
      ∃ secret, process "ONEDRIVE_BASIC_AUTH_SECRET" = some secret ∧ GuestConfig.RealSecret secret ∧
        Presents secret request.headers := by
  cases passes : (Arrival.mk host ⟨GuestConfig.capture process, preopens⟩ request).admitted with
  | false => exact .inl (turnedAway_of_not_admitted passes)
  | true =>
    unfold Arrival.admitted at passes
    split at passes
    · cases passes
    · rename_i config loaded
      obtain ⟨secret, kept, given, real⟩ := GuestConfig.secret_behind_host loaded
      rw [kept] at passes
      exact .inr ⟨secret, given, real, check_iff_presents.mp passes⟩

end Credentials

end Guest

end OneDriveDavfs
