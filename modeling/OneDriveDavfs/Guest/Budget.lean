import OneDriveDavfs.Graph.Orders
import OneDriveDavfs.Guest.Access

/-! How much a request can make the daemon ask of others.

Whatever Graph answers (links without an end, parts that fail, tokens that are
never valid), the number of requests that one request can cause is bounded, by
a number that depends on its verb and the settings only.
-/

set_option autoImplicit false

namespace OneDriveDavfs

open Library Library.Wire Library.Effect Snapshot

def World.sendings (world : World) : Nat := world.sent.length

/-! ## The calls -/

namespace Graph

section Calls
variable {token : Auth.TokenJson} {json : GraphJson} {env : Environment} {config : Config} {most : Nat}

theorem costs_attempt {α : Type} {m : Daemon α} (costs : Costs World.sendings most m) :
    Costs World.sendings most (attempt m) := along_attempt costs

theorem costs_send (request : HttpRequest) : Costs World.sendings 1 (send env request) := by
  intro world
  cases split : splitUrl request.url with
  | error message =>
    rw [send, split]
    exact Nat.le_succ _
  | ok parts =>
    obtain ⟨authority, pathWithQuery⟩ := parts
    rw [after_send env world split]
    simp [World.sendings]

theorem costs_nowSecs : Costs World.sendings 0 (nowSecs env) := .of_same fun world => by rw [after_nowSecs]; rfl

theorem costs_bearerToken : Costs World.sendings 1 (Auth.bearerToken token env config) := by
  refine renewed_bearerToken.weaken fun s t renewed => ?_
  obtain ⟨more, sent, few⟩ := renewed
  rcases few with rfl | ⟨o, rfl, _⟩ <;> simp [World.sendings, sent]

/-- The request itself, and the renewal of the token before it. -/
theorem costs_graphRequest (method : Method) (url : String) (contentType : Option String) (body : Bytes) :
    Costs World.sendings 2 (graphRequest token env config method url contentType body) :=
  .bind costs_bearerToken (fun _ => costs_send _) (by decide)

theorem costs_delta (url : String) : Costs World.sendings 2 (delta token json env config url) := by
  refine .ite (fun _ => .before_free (costs_attempt (costs_graphRequest .get url none [])) fun answer => ?_) fun _ => .pure _
  split
  · exact .pure _
  · refine .ite (fun _ => .pure _) fun _ => .ite (fun _ => .pure _) fun _ => ?_
    split <;> exact .pure _

theorem costs_stat (path : String) : Costs World.sendings 2 (stat token json env config path) := by
  refine .before_free (costs_graphRequest _ _ none []) fun response =>
    .ite (fun _ => .throw _) fun _ => .ite (fun _ => .throw _) fun _ => ?_
  split
  · exact .pure _
  · exact .throw _

/-- Every page counts, so that links without an end do not matter. -/
theorem costs_childrenFrom (left : Nat) (url : String) (items : List GraphItem) :
    Costs World.sendings (2 * left) (childrenFrom token json env config left url items) := by
  induction left generalizing url items with
  | zero => exact .throw _
  | succ left ih =>
    refine .bind (costs_graphRequest .get url none []) (fun response => .ite (fun _ => .throw _) fun _ => ?_)
      (by omega : 2 + 2 * left ≤ _)
    split
    · exact .throw _
    · dsimp only
      split
      · exact .pure _
      · split
        · exact .throw _
        · exact ih _ _

theorem costs_children (path : String) : Costs World.sendings 1000 (children token json env config path) :=
  costs_childrenFrom 500 _ _

theorem costs_getContent (path : String) : Costs World.sendings 3 (getContent token env config path) := by
  refine .bind (costs_graphRequest _ _ none []) (fun response => .ite (fun _ => .pure _) fun _ => .ite (fun _ => ?_)
    fun _ => .throw _) (by decide : 2 + 1 ≤ 3)
  split
  · exact .throw _
  · exact .ite (fun _ => .before_free (costs_send _) fun _ => .ite (fun _ => .pure _) fun _ => .throw _)
      fun _ => .throw _

def partsFrom (length offset : Nat) : Nat := (length - offset + (uploadChunkBytes - 1)) / uploadChunkBytes

theorem partsFrom_next {length offset : Nat} (more : offset < length) :
    partsFrom length (min (offset + uploadChunkBytes) length) + 1 ≤ partsFrom length offset := by
  unfold partsFrom uploadChunkBytes
  omega

theorem costs_putChunks (uploadUrl : String) (bytes : Bytes) (fuel offset : Nat) (lastItem : Option DeltaItem) :
    Costs World.sendings (partsFrom bytes.length offset) (putChunks json env uploadUrl bytes fuel offset lastItem) := by
  induction fuel generalizing offset lastItem with
  | zero => exact .pure _
  | succ fuel ih =>
    refine .ite (fun more => ?_) fun _ => .pure _
    refine .bind (costs_send _) (fun sent => .ite (fun _ => ih _ _) fun _ => .throw _) ?_
    have next := partsFrom_next more
    omega

/-- Opening the session, the seven parts of the longest file, and taking the session back. -/
theorem costs_putContent (path : String) (bytes : Bytes) :
    Costs World.sendings 10 (putContent token json env config path bytes) := by
  refine .ite (fun _ => .throw _) fun within => .ite (fun _ => ?_) fun _ => ?_
  · have parts : partsFrom bytes.length 0 ≤ 7 := by
      unfold partsFrom uploadChunkBytes
      unfold maxUploadBytes at within
      omega
    refine .bind (costs_graphRequest _ _ _ _) (fun response => .ite (fun _ => .throw _) fun _ => ?_)
      (by decide : 2 + 8 ≤ 10)
    split
    · exact .throw _
    · refine .ite (fun _ => ?_) fun _ => .throw _
      refine .bind ((costs_attempt (costs_putChunks _ _ _ _ _)).mono parts) (fun ended => ?_) (by decide : 7 + 1 ≤ 8)
      split
      · exact .pure _
      · exact .before_free (costs_attempt (costs_send _)) fun _ => .throw _
  · exact .mono (.before_free (costs_graphRequest _ _ _ _) fun response => .ite (fun _ => .throw _) fun _ => .pure _)
      (by decide : 2 ≤ 10)

theorem costs_createFolder (parentPath name : String) :
    Costs World.sendings 2 (createFolder token json env config parentPath name) :=
  .before_free (costs_graphRequest _ _ _ _) fun _ => .ite (fun _ => .throw _) fun _ => .pure _

theorem costs_delete (path : String) : Costs World.sendings 2 (delete token env config path) :=
  .before_free (costs_graphRequest _ _ none []) fun _ => .ite (fun _ => .throw _) fun _ => .pure _

theorem costs_moveOrRename (fromPath toPath : String) :
    Costs World.sendings 2 (moveOrRename token json env config fromPath toPath) :=
  .before_free (costs_graphRequest _ _ _ _) fun _ => .ite (fun _ => .throw _) fun _ => .pure _

end Calls

end Graph

/-! ## The verbs -/

/-- What a request may cost; anything but these verbs costs nothing. -/
def IncomingRequest.budget (request : IncomingRequest) (config : GuestConfig) : Nat :=
  match request.method with
  | .post => 2 * config.syncMaxPages
  | .put => 10
  | .get => if BasicAuth.headerValue request.headers "x-onedrive-plugin" = some "1" then 1002 else 3
  | .head | .delete | .other "MKCOL" | .other "MOVE" => 2
  | .other "PROPFIND" => 1002
  | _ => 0

namespace Guest

section Verbs
variable {ext : Externals} {host : Surroundings} {config : GuestConfig}

theorem costs_load (name : String) : Costs World.sendings 0 (load ext name) := .of_same fun world => by rw [after_load]

theorem costs_writeAtomic (name : String) (contents : Bytes) :
    Costs World.sendings 0 (writeAtomic host name contents) :=
  .of_same fun world => by rw [after_writeAtomic]; rfl

theorem costs_save (name : String) (idx : Index) : Costs World.sendings 0 (save ext host name idx) :=
  .after_free Graph.costs_nowSecs fun _ => .after_free (.of_same fun world => by rw [after_ofResult]) fun _ =>
    costs_writeAtomic _ _

theorem costs_rename (source dest : String) : Costs World.sendings 0 (rename host source dest) := by
  unfold rename
  split
  · exact .throw _
  · exact .throw _
  · exact .of_same fun world => by rw [after_modify]; rfl

theorem costs_lookupFile (path : String) : Costs World.sendings 0 (attempt (lookupFile ext path)) :=
  .of_same fun world => by rw [after_attempt, after_lookupFile]

theorem costs_writing {α : Type} {ask : Daemon α} {most : Nat} (costs : Costs World.sendings most ask)
    (write : α → Dav.LocalWrite) (status : UInt16) :
    Costs World.sendings most (Verbs.writing ext host config ask write status) := by
  refine .before_free (Graph.costs_attempt costs) fun taken => ?_
  split
  · refine .after_free (.ite (fun _ => ?_) fun _ => .pure _) fun _ => .pure _
    refine .after_free (Graph.costs_attempt (costs_load _)) fun found => ?_
    split
    · exact .ite (fun _ => .after_free (Graph.costs_attempt (costs_save _ _)) fun _ => .pure _) fun _ => .pure _
    · exact .pure _
  · exact .pure _

theorem costs_propfind (path : String) (depth : Option String) :
    Costs World.sendings 1002 (Verbs.propfind ext host config path depth) := by
  refine .before_free (.ite (fun _ => .pure _) fun _ => .after_free .get fun world => ?_) fun answer => .pure _
  split
  · exact .pure _
  · refine .bind (Graph.costs_attempt (Graph.costs_stat path)) (fun found => ?_) (by decide : 2 + 1000 ≤ 1002)
    split
    · exact .pure _
    · refine .ite (fun _ => .before_free (Graph.costs_attempt (Graph.costs_children path)) fun items => ?_)
        fun _ => .pure _
      split <;> exact .pure _
  · exact .throw _

theorem costs_get (path : String) : Costs World.sendings 3 (Verbs.get ext host config path) := by
  refine .before_free (Graph.costs_attempt (Graph.costs_getContent path)) fun read => ?_
  split <;> exact .pure _

theorem costs_head (path : String) : Costs World.sendings 2 (Verbs.head ext host config path) := by
  refine .after_free (.ite (fun _ => .after_free (costs_lookupFile path) fun hit => ?_) fun _ => .pure _)
    fun found => ?_
  · split <;> exact .pure _
  · split
    · exact .pure _
    · refine .before_free (Graph.costs_attempt (Graph.costs_stat path)) fun item => ?_
      split <;> exact .pure _

theorem costs_treeFromGraph (path : String) : Costs World.sendings 1002 (Api.treeFromGraph ext host config path) := by
  have asks : Costs World.sendings 1002 (Api.graphTree ext host config path) :=
    .bind (Graph.costs_stat path) (fun item =>
      .ite (fun _ => .before_free (Graph.costs_children path) fun items => .pure _) fun _ => .pure _)
      (by decide : 2 + 1000 ≤ 1002)
  refine .before_free (Graph.costs_attempt asks) fun value => ?_
  split <;> exact .pure _

theorem costs_plugin {path : String} {query : Option String} {answer : Daemon DavResponse}
    (plugged : plugin ext host config path query = some answer) : Costs World.sendings 1002 answer := by
  unfold plugin at plugged
  split at plugged
  · cases plugged
    refine .ite (fun _ => .after_free (.of_same fun world => by rw [after_attempt, after_readMeta]) fun found => ?_)
      fun _ => .pure _
    split
    · exact .pure _
    · refine .after_free (.of_same fun world => by rw [after_attempt, after_loadStats]) fun tick => ?_
      split <;> exact .pure _
  · split at plugged
    · cases plugged
      unfold Api.tree
      split
      · exact .pure _
      · refine .ite (fun _ => .after_free (costs_lookupFile _) fun hit => ?_) fun _ => costs_treeFromGraph _
        split
        · exact .pure _
        · exact costs_treeFromGraph _
    · split at plugged
      · cases plugged
        refine .ite (fun _ => .after_free (Graph.costs_attempt (costs_load _)) fun found => ?_) fun _ => .pure _
        split <;> exact .pure _
      · cases plugged

/-- A page costs two requests at most, and a tick has only so many pages. -/
theorem costs_loop (left : Nat) (s : Sync.Loop) : Costs World.sendings (2 * left) (loop ext host config left s) := by
  induction left generalizing s with
  | zero => exact .pure _
  | succ left ih =>
    have round : Costs World.sendings 2 (round ext host config s) := fun world => by
      rw [after_round]
      exact Graph.costs_delta s.url world
    refine .ite (fun _ => .pure _) fun _ =>
      .bind round (fun (s, stop) => .ite (fun _ => .pure _) fun _ => ih s) (by omega)

theorem costs_runInner : Costs World.sendings (2 * config.syncMaxPages) (runInner ext host config) := by
  have prepare : Costs World.sendings 0 (prepare ext config) := by
    refine .after_free (costs_load _) fun live => .after_free (costs_load _) fun rebuild =>
      .after_free ?_ fun due => .pure _
    refine .after_free (.of_same fun world => by rw [after_attempt, after_readMeta]) fun found => ?_
    split <;> exact .pure _
  refine .after_free prepare fun s => .before_free (costs_loop _ s) fun s => ?_
  refine .after_free (.after_free (.ite (fun _ => costs_save _ _) fun _ => .pure _) fun _ =>
    .ite (fun _ => costs_rename _ _) fun _ => .pure _) fun _ => ?_
  refine .after_free Graph.costs_nowSecs fun now => .after_free (Graph.costs_attempt ?_) fun _ => .pure _
  unfold saveStats
  split
  · exact .throw _
  · exact costs_writeAtomic _ _

end Verbs

/-! ## Requests -/

section Requests
variable {ext : Externals} {host : Surroundings} {config : GuestConfig} {request : IncomingRequest}

theorem costs_receive (path : String) (body : IncomingBody) :
    Costs World.sendings 10 (receive ext host config path body) := by
  unfold receive
  split
  · exact .throw _
  · exact .ite (fun _ => .pure _) fun _ => costs_writing (Graph.costs_putContent path _) _ _
  · exact .pure _
  · exact .pure _

theorem costs_dispatch (path : String) (destination : Option String) :
    Costs World.sendings (request.budget config) (dispatch ext host config request path destination) := by
  unfold dispatch
  split
  case h_2 head => exact (costs_head path).mono (by simp [IncomingRequest.budget, head])
  case h_3 get => exact (costs_get path).mono (by simp only [IncomingRequest.budget, get]; split <;> omega)
  case h_4 put => exact (costs_receive path _).mono (by simp [IncomingRequest.budget, put])
  case h_5 delete =>
    exact (costs_writing (Graph.costs_delete path) _ _).mono (by simp [IncomingRequest.budget, delete])
  case h_6 name other =>
    refine .ite (fun propfind => ?_) fun _ => .ite (fun mkcol => ?_) fun _ => .ite (fun move => ?_) fun _ => ?_
    · exact (costs_propfind path _).mono (by simp [IncomingRequest.budget, other, propfind])
    · exact (costs_writing (Graph.costs_createFolder _ _) _ _).mono (by simp [IncomingRequest.budget, other, mkcol])
    · split
      · exact (costs_writing (Graph.costs_moveOrRename _ _) _ _).mono (by simp [IncomingRequest.budget, other, move])
      · exact .pure _
    · exact .ite (fun _ => .pure _) fun _ => .ite (fun _ => .pure _) fun _ => .pure _
  all_goals exact .pure _

theorem costs_dav (path : String) :
    Costs World.sendings (request.budget config) (dav ext host config request path) := by
  unfold dav
  split
  · exact .pure _
  · split
    · exact .pure _
    · exact costs_dispatch _ _

theorem costs_serve : Costs World.sendings (request.budget config) (serve ext host config request) := by
  unfold serve
  dsimp only
  by_cases post : request.method = .post
  · rw [if_pos post]
    refine .ite (fun _ => ?_) fun _ => .pure _
    refine .ite (fun _ => .before_free ?_ fun ended => ?_) fun _ => .pure _
    · exact (Graph.costs_attempt costs_runInner).mono (by simp [IncomingRequest.budget, post])
    · split <;> exact .pure _
  · rw [if_neg post]
    split
    · rename_i plugged
      split at plugged
      · rename_i asked
        exact (costs_plugin plugged).mono (by simp [IncomingRequest.budget, asked.1, asked.2])
      · cases plugged
    · exact costs_dav _

/-- The budget of a request at the process that it reaches: without the secret there is none. -/
def Arrival.budget (arrival : Arrival) : Nat :=
  match GuestConfig.load arrival.process.environ arrival.process.preopens with
  | .error _ => 0
  | .ok config =>
    if BasicAuth.checkBasicAuth config.basicAuthSecret arrival.request.headers then arrival.request.budget config else 0

theorem costs_handleRequest (arrival : Arrival) :
    Costs World.sendings arrival.budget (handleRequest ext arrival.host arrival.process arrival.request) := by
  unfold handleRequest Arrival.budget
  cases GuestConfig.load arrival.process.environ arrival.process.preopens with
  | error e => exact .pure _
  | ok config =>
    dsimp only
    by_cases passes : BasicAuth.checkBasicAuth config.basicAuthSecret arrival.request.headers = true
    · rw [if_pos passes, if_pos passes]
      exact costs_serve
    · rw [if_neg passes, if_neg passes]
      exact .pure _

/-- Whatever they are answered, requests cause no more requests than their budgets come to. -/
theorem sendings_within_budget (ext : Externals) (arrivals : List Arrival) (world : World) :
    (serveAll ext arrivals world).2.sent.length ≤ world.sent.length + (arrivals.map Arrival.budget).sum := by
  induction arrivals generalizing world with
  | nil => exact Nat.le_refl _
  | cons first rest ih =>
    have here := @costs_handleRequest ext first world
    have later := ih ((handleRequest ext first.host first.process first.request).after world)
    rw [List.map_cons, List.sum_cons]
    simp only [World.sendings] at here
    simp only [serveAll]
    omega

end Requests

end Guest

end OneDriveDavfs
