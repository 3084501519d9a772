import OneDriveDavfs.Graph.Requests
import OneDriveDavfs.Library.Passage
import OneDriveDavfs.StateTransfer

/-! What a call of Graph sends, and what it can change.

Every request is of one of three kinds: one of the call's own, with an access
token; one to a link from an answer, without any token; or the renewal of the
token. No file but the token file can be another one afterwards. The rules are
proved once, for any invariant that survives such requests.
-/

set_option autoImplicit false

namespace OneDriveDavfs.Graph

open Library Library.Wire Library.Effect

/-- The calls that the handlers and the sync loop make. -/
inductive Call where
  | delta (url : String)
  | stat (path : String)
  | children (path : String)
  | getContent (path : String)
  | putContent (path : String) (bytes : Bytes)
  | createFolder (parentPath name : String)
  | delete (path : String)
  | moveOrRename (fromPath toPath : String)
  deriving DecidableEq, Repr

def Call.reads : Call → Prop
  | .stat _ | .children _ | .getContent _ => True
  | _ => False

def Call.syncs : Call → Prop
  | .delta _ => True
  | _ => False

/-! ## The kinds of requests -/

section Kinds
variable (json : GraphJson) (env : Environment) (config : Config)

def Answered (response : HttpResponse) : Prop := ∃ requests, env.answer requests = .ok response

/-- The requests of a call that carry the access token: method, link, content type and body. -/
inductive Call.Makes : Call → Method → String → Option String → Bytes → Prop where
  | delta {url : String} : startsWith url graphOrigin = true → Makes (.delta url) .get url none []
  | stat (path : String) : Makes (.stat path) .get (v1 (itemPathSegment config.driveBase path)) none []
  | children (path : String) :
      Makes (.children path) .get (v1 (itemPathSegment config.driveBase path ++ "/children?$top=200")) none []
  /-- the next page, at the link of the one before -/
  | furtherChildren (path : String) {response : HttpResponse} {page : DriveItemPage} {next : String} :
      Answered env response → json.driveItemPage response.body = .ok page → page.nextLink = some next →
      startsWith next graphOrigin = true → Makes (.children path) .get next none []
  | getContent (path : String) :
      Makes (.getContent path) .get (v1 (itemPathSegment config.driveBase path ++ "/content")) none []
  | putSimple (path : String) (bytes : Bytes) :
      Makes (.putContent path bytes) .put (v1 (itemPathSegment config.driveBase path ++ "/content"))
        (some "application/octet-stream") bytes
  | openSession (path : String) (bytes : Bytes) :
      Makes (.putContent path bytes) .post (v1 (itemPathSegment config.driveBase path ++ "/createUploadSession"))
        (some "application/json") (utf8 uploadSessionBody)
  | createFolder (parentPath name : String) :
      Makes (.createFolder parentPath name) .post (v1 (itemPathSegment config.driveBase parentPath ++ "/children"))
        (some "application/json") (utf8 (folderBody name))
  | delete (path : String) : Makes (.delete path) .delete (v1 (itemPathSegment config.driveBase path)) none []
  | moveOrRename (fromPath toPath : String) :
      Makes (.moveOrRename fromPath toPath) .patch (v1 (itemPathSegment config.driveBase fromPath))
        (some "application/json") (utf8 (moveBody config.driveBase toPath))

/-- The requests of a call without a token, to a link from an answer. -/
inductive Call.Follows : Call → HttpRequest → Prop where
  | redirect (path : String) {response : HttpResponse} {location : String} : Answered env response →
      response.headerValue "location" = some location → Follows (.getContent path) ⟨.get, trim location, [], []⟩
  | part (path : String) (bytes : Bytes) {response : HttpResponse} {link : String} (start stop : Nat) :
      Answered env response → json.uploadUrl response.body = .ok link →
      Follows (.putContent path bytes) (chunkRequest (trim link) bytes start stop)
  | cancel (path : String) (bytes : Bytes) {response : HttpResponse} {link : String} : Answered env response →
      json.uploadUrl response.body = .ok link → Follows (.putContent path bytes) ⟨.delete, trim link, [], []⟩

def Authorised (known : Auth.TokenFile → Prop) (allowed : Call → Prop) (o : OutgoingRequest) : Prop :=
  ∃ c method url contentType body token access pathWithQuery, allowed c ∧
    c.Makes json env config method url contentType body ∧ known token ∧ token.accessToken = some access ∧
    splitUrl url = .ok ("graph.microsoft.com", pathWithQuery) ∧
    o = HttpRequest.outgoing ⟨method, url, ("authorization", "Bearer " ++ access) ::
      (contentType.map fun ct => ("content-type", ct)).toList, body⟩ "graph.microsoft.com" pathWithQuery

def Bare (allowed : Call → Prop) (o : OutgoingRequest) : Prop :=
  ∃ c request authority pathWithQuery, allowed c ∧ c.Follows json env request ∧
    splitUrl request.url = .ok (authority, pathWithQuery) ∧ o = request.outgoing authority pathWithQuery

def Renews (known : Auth.TokenFile → Prop) (o : OutgoingRequest) : Prop :=
  ∃ clientId token, config.clientId = some clientId ∧ known token ∧
    o = (Auth.refreshRequest config clientId token.refreshToken).outgoing "login.microsoftonline.com"
      (Auth.tokenPath config)

def Sends (known : Auth.TokenFile → Prop) (allowed : Call → Prop) (o : OutgoingRequest) : Prop :=
  Authorised json env config known allowed o ∨ Bare json env allowed o ∨ Renews config known o

variable {json} {env} {config}

theorem Sends.mono {known more : Auth.TokenFile → Prop} {allowed further : Call → Prop} {o : OutgoingRequest}
    (knows : ∀ {token}, known token → more token) (allows : ∀ {c}, allowed c → further c)
    (sends : Sends json env config known allowed o) : Sends json env config more further o := by
  rcases sends with ⟨c, method, url, contentType, body, token, access, pathWithQuery, own, makes, isKnown, rest⟩ |
    ⟨c, request, authority, pathWithQuery, own, rest⟩ | ⟨clientId, token, client, isKnown, rest⟩
  · exact .inl ⟨c, method, url, contentType, body, token, access, pathWithQuery, allows own, makes, knows isKnown, rest⟩
  · exact .inr (.inl ⟨c, request, authority, pathWithQuery, allows own, rest⟩)
  · exact .inr (.inr ⟨clientId, token, client, knows isKnown, rest⟩)

theorem startsWith_v1 (address : String) : startsWith (v1 address) graphOrigin = true := by
  refine startsWith_iff.mpr ⟨("v1.0" ++ address).toList, ?_⟩
  rw [String.ofList_toList, ← String.append_assoc]
  rfl

theorem Call.Makes.begins {c : Call} {method : Method} {url : String} {contentType : Option String} {body : Bytes}
    (makes : c.Makes json env config method url contentType body) : startsWith url graphOrigin = true := by
  cases makes with
  | delta begins => exact begins
  | furtherChildren _ _ _ _ begins => exact begins
  | _ => exact startsWith_v1 _

theorem splitUrl_graph {url : String} (begins : startsWith url graphOrigin = true) {authority pathWithQuery : String}
    (split : splitUrl url = .ok (authority, pathWithQuery)) : authority = "graph.microsoft.com" := by
  obtain ⟨rest, rfl⟩ := startsWith_iff.mp begins
  have host : graphOrigin ++ String.ofList rest = "https://" ++ "graph.microsoft.com" ++ "/" ++ String.ofList rest := rfl
  rw [host, splitUrl_host (by decide)] at split
  exact (Prod.mk.inj (Except.ok.inj split)).1.symm

end Kinds

/-! ## Invariants of the calls -/

/-- What an invariant has to survive: readings of the clock, a new token in the
token file, and requests. Whatever token is read or issued under it is known. -/
structure Survives (token : Auth.TokenJson) (json : GraphJson) (env : Environment) (config : Config)
    (known : Auth.TokenFile → Prop) (allowed : Call → Prop) (I : World → Prop) : Prop where
  knows : ∀ {world t}, I world → Auth.stored token world = some t → known t
  issues : ∀ {t clientId requests response parsed} (now : UInt64), known t → config.clientId = some clientId →
    env.answer (requests ++ [(Auth.refreshRequest config clientId t.refreshToken).outgoing "login.microsoftonline.com"
      (Auth.tokenPath config)]) = .ok response → response.status = 200 →
    token.responseFromSlice response.body = .ok parsed → known (Auth.renewed t.refreshToken parsed now)
  reads : ∀ {world}, I world → I { world with readings := world.readings + 1 }
  saves : ∀ {world t bytes}, I world → known t → token.toVecPretty t = .ok bytes →
    I ((writeFile env Auth.tokenFile bytes).after world)
  sends : ∀ {world o}, I world → Sends json env config known allowed o →
    I { world with sent := world.sent ++ [o] }

section Calls
variable {token : Auth.TokenJson} {json : GraphJson} {env : Environment} {config : Config}
  {known : Auth.TokenFile → Prop} {allowed : Call → Prop} {I : World → Prop}

namespace Survives
variable (survives : Survives token json env config known allowed I)
include survives

theorem ensures_send {request : HttpRequest}
    (sends : ∀ {authority pathWithQuery}, splitUrl request.url = .ok (authority, pathWithQuery) →
      Sends json env config known allowed (request.outgoing authority pathWithQuery)) :
    Ensures I (send env request) fun response => ∃ requests authority pathWithQuery,
      splitUrl request.url = .ok (authority, pathWithQuery) ∧
        env.answer (requests ++ [request.outgoing authority pathWithQuery]) = .ok response := by
  intro world holds
  cases split : splitUrl request.url with
  | error message =>
    rw [send, split]
    exact ⟨holds, fun _ returned => by cases returned⟩
  | ok parts =>
    obtain ⟨authority, pathWithQuery⟩ := parts
    rw [after_send env world split, outcome_send env world split]
    exact ⟨survives.sends holds (sends split), fun response returned => ⟨_, authority, pathWithQuery, rfl, returned⟩⟩

theorem ensures_nowSecs : Ensures I (nowSecs env) fun _ => True :=
  fun _ holds => ⟨survives.reads holds, fun _ _ => trivial⟩

theorem ensures_load : Ensures I (Auth.load token) known := by
  intro world holds
  rw [Auth.after_load]
  exact ⟨holds, fun t returned => survives.knows holds (Auth.stored_of_load returned)⟩

theorem ensures_save {t : Auth.TokenFile} (isKnown : known t) :
    Ensures I (Auth.save token env t) fun _ => True := by
  unfold Auth.save
  split
  · exact .throw _
  · rename_i bytes written
    exact fun _ holds => ⟨survives.saves holds isKnown written, fun _ _ => trivial⟩

theorem ensures_refresh {t : Auth.TokenFile} (isKnown : known t) :
    Ensures I (Auth.refresh token env config t.refreshToken) known := by
  unfold Auth.refresh
  split
  · exact .throw _
  · rename_i clientId client
    refine (survives.ensures_send fun split => ?_).bind fun response answered => ?_
    · rw [Auth.splitUrl_refresh] at split
      cases split
      exact .inr (.inr ⟨clientId, t, client, isKnown, rfl⟩)
    obtain ⟨requests, authority, pathWithQuery, split, answer⟩ := answered
    rw [Auth.splitUrl_refresh] at split
    cases split
    split
    · exact .throw _
    · rename_i accepted
      split
      · exact .throw _
      · rename_i parsed read
        refine survives.ensures_nowSecs.bind fun now _ => .pure ?_
        exact survives.issues now isKnown client answer (not_not.mp accepted) read

theorem ensures_renew {t : Auth.TokenFile} (isKnown : known t) :
    Ensures I (Auth.renew token env config t) fun bearer =>
      ∃ t access, known t ∧ t.accessToken = some access ∧ bearer = "Bearer " ++ access := by
  refine (survives.ensures_refresh isKnown).bind fun fresh isFresh =>
    (survives.ensures_save isFresh).bind fun _ _ => ?_
  split
  · rename_i access given
    exact .pure ⟨fresh, access, isFresh, given, rfl⟩
  · exact .throw _

theorem ensures_bearerToken :
    Ensures I (Auth.bearerToken token env config) fun bearer =>
      ∃ t access, known t ∧ t.accessToken = some access ∧ bearer = "Bearer " ++ access := by
  refine survives.ensures_load.bind fun old isKnown => ?_
  split
  · rename_i access given
    refine survives.ensures_nowSecs.bind fun now _ => ?_
    split
    · exact .pure ⟨old, access, isKnown, given, rfl⟩
    · exact survives.ensures_renew isKnown
  · exact survives.ensures_renew isKnown

theorem ensures_graphRequest {c : Call} {method : Method} {url : String} {contentType : Option String} {body : Bytes}
    (own : allowed c) (makes : c.Makes json env config method url contentType body) :
    Ensures I (graphRequest token env config method url contentType body) (Answered env) := by
  refine survives.ensures_bearerToken.bind fun bearer isBearer => ?_
  obtain ⟨t, access, isKnown, given, rfl⟩ := isBearer
  refine (survives.ensures_send fun split => ?_).weaken fun response answered => ?_
  · cases splitUrl_graph makes.begins split
    exact .inl ⟨c, method, url, contentType, body, t, access, _, own, makes, isKnown, given, split, rfl⟩
  · obtain ⟨requests, _, _, _, answer⟩ := answered
    exact ⟨_, answer⟩

theorem ensures_follow {c : Call} {request : HttpRequest} (own : allowed c) (follows : c.Follows json env request) :
    Ensures I (send env request) fun _ => True :=
  (survives.ensures_send fun split => .inr (.inl ⟨c, request, _, _, own, follows, split, rfl⟩)).weaken
    fun _ _ => trivial

/-! ### The calls one by one -/

theorem ensures_delta {url : String} (own : allowed (.delta url)) :
    Ensures I (Graph.delta token json env config url) fun _ => True := by
  unfold Graph.delta
  split
  · rename_i begins
    refine (Ensures.attempt (survives.ensures_graphRequest own (.delta begins))).bind fun answer _ => ?_
    split
    · exact .pure trivial
    · split
      · exact .pure trivial
      · split
        · exact .pure trivial
        · split <;> exact .pure trivial
  · exact .pure trivial

theorem ensures_stat {path : String} (own : allowed (.stat path)) :
    Ensures I (Graph.stat token json env config path) fun _ => True := by
  refine (survives.ensures_graphRequest own (.stat path)).bind fun response _ => ?_
  split
  · exact .throw _
  · split
    · exact .throw _
    · split
      · exact .pure trivial
      · exact .throw _

theorem ensures_childrenFrom {path : String} (own : allowed (.children path)) (left : Nat) {url : String}
    (makes : (Call.children path).Makes json env config .get url none []) (items : List GraphItem) :
    Ensures I (childrenFrom token json env config left url items) fun _ => True := by
  induction left generalizing url items with
  | zero => exact .throw _
  | succ left ih =>
    refine (survives.ensures_graphRequest own makes).bind fun response answered => ?_
    split
    · exact .throw _
    · split
      · exact .throw _
      · rename_i page read
        dsimp only
        split
        · exact .pure trivial
        · rename_i next further
          split
          · exact .throw _
          · rename_i valid
            obtain ⟨rfl, begins, _⟩ := validateNextLink_ok_iff.mp valid
            exact ih (.furtherChildren path answered read further begins) _

theorem ensures_children {path : String} (own : allowed (.children path)) :
    Ensures I (Graph.children token json env config path) fun _ => True :=
  survives.ensures_childrenFrom own _ (.children path) []

theorem ensures_getContent {path : String} (own : allowed (.getContent path)) :
    Ensures I (Graph.getContent token env config path) fun _ => True := by
  refine (survives.ensures_graphRequest own (.getContent path)).bind fun response answered => ?_
  split
  · exact .pure trivial
  · split
    · split
      · exact .throw _
      · rename_i location found
        dsimp only
        split
        · refine (survives.ensures_follow own (.redirect path answered found)).bind fun redirected _ => ?_
          split
          · exact .pure trivial
          · exact .throw _
        · exact .throw _
    · exact .throw _

theorem ensures_putChunks {path : String} {bytes : Bytes} (own : allowed (.putContent path bytes))
    {response : HttpResponse} {link : String} (answered : Answered env response)
    (read : json.uploadUrl response.body = .ok link) (fuel offset : Nat) (lastItem : Option DeltaItem) :
    Ensures I (putChunks json env (trim link) bytes fuel offset lastItem) fun _ => True := by
  induction fuel generalizing offset lastItem with
  | zero => exact .pure trivial
  | succ fuel ih =>
    rw [putChunks]
    split
    · refine (survives.ensures_follow own (.part path bytes _ _ answered read)).bind fun sent _ => ?_
      exact .ite (ih _ _) (.throw _)
    · exact .pure trivial

theorem ensures_putChunked {path : String} {bytes : Bytes} (own : allowed (.putContent path bytes)) :
    Ensures I (putChunked token json env config path bytes) fun _ => True := by
  refine (survives.ensures_graphRequest own (.openSession path bytes)).bind fun response answered => ?_
  split
  · exact .throw _
  · split
    · exact .throw _
    · rename_i link read
      dsimp only
      split
      · refine (Ensures.attempt (survives.ensures_putChunks own answered read _ _ _)).bind fun ended _ => ?_
        split
        · exact .pure trivial
        · exact (Ensures.attempt (survives.ensures_follow own (.cancel path bytes answered read))).bind
            fun _ _ => .throw _
      · exact .throw _

theorem ensures_putContent {path : String} {bytes : Bytes} (own : allowed (.putContent path bytes)) :
    Ensures I (Graph.putContent token json env config path bytes) fun _ => True := by
  unfold Graph.putContent
  split
  · exact .throw _
  · split
    · exact survives.ensures_putChunked own
    · refine (survives.ensures_graphRequest own (.putSimple path bytes)).bind fun response _ => ?_
      split
      · exact .throw _
      · exact .pure trivial

theorem ensures_createFolder {parentPath name : String} (own : allowed (.createFolder parentPath name)) :
    Ensures I (Graph.createFolder token json env config parentPath name) fun _ => True := by
  refine (survives.ensures_graphRequest own (.createFolder parentPath name)).bind fun response _ => ?_
  split
  · exact .throw _
  · exact .pure trivial

theorem ensures_delete {path : String} (own : allowed (.delete path)) :
    Ensures I (Graph.delete token env config path) fun _ => True := by
  refine (survives.ensures_graphRequest own (.delete path)).bind fun response _ => ?_
  split
  · exact .throw _
  · exact .pure trivial

theorem ensures_moveOrRename {fromPath toPath : String} (own : allowed (.moveOrRename fromPath toPath)) :
    Ensures I (Graph.moveOrRename token json env config fromPath toPath) fun _ => True := by
  refine (survives.ensures_graphRequest own (.moveOrRename fromPath toPath)).bind fun response _ => ?_
  split
  · exact .throw _
  · exact .pure trivial

end Survives

end Calls

/-! ## From one world to another -/

/-- Between the two worlds only requests of these calls were sent, with whatever
token, and only the token file was written. -/
structure Asks (json : GraphJson) (env : Environment) (config : Config) (allowed : Call → Prop) (s t : World) : Prop where
  sent : ∃ more, t.sent = s.sent ++ more ∧ ∀ o ∈ more, Sends json env config (fun _ => True) allowed o
  files : ∀ n, n ≠ Auth.tokenFile → t.files n = s.files n

section Preorder
variable {json : GraphJson} {env : Environment} {config : Config} {allowed : Call → Prop}

theorem Asks.of_sent {s t : World} (sent : t.sent = s.sent) (files : ∀ n, n ≠ Auth.tokenFile → t.files n = s.files n) :
    Asks json env config allowed s t := ⟨⟨[], by rw [sent, List.append_nil], by simp⟩, files⟩

instance : Std.Refl (Asks json env config allowed) := ⟨fun _ => .of_sent rfl fun _ _ => rfl⟩

instance : IsTrans World (Asks json env config allowed) where
  trans := by
    rintro s t u ⟨⟨first, left, own⟩, same⟩ ⟨⟨second, right, further⟩, again⟩
    refine ⟨⟨first ++ second, by rw [right, left, List.append_assoc], ?_⟩,
      fun n other => (again n other).trans (same n other)⟩
    exact fun o member => (List.mem_append.mp member).elim (own o) (further o)

/-- To have come this far from a world survives every call that is allowed. -/
theorem survives_asks (token : Auth.TokenJson) (s : World) :
    Survives token json env config (fun _ => True) allowed (Asks json env config allowed s) where
  knows _ _ := trivial
  issues _ _ _ _ _ _ := trivial
  reads asks := IsTrans.trans _ _ _ asks (.of_sent rfl fun _ _ => rfl)
  saves := by
    intro world t bytes asks _ _
    rw [after_writeFile]
    refine IsTrans.trans _ _ _ asks (.of_sent rfl fun n other => ?_)
    rw [← FileLayer.writeFile_eq]
    exact FileLayer.writeFile_other _ other
  sends := by
    intro world o asks sends
    refine IsTrans.trans _ _ _ asks ⟨⟨[o], rfl, fun p member => ?_⟩, fun _ _ => rfl⟩
    rw [List.mem_singleton.mp member]
    exact sends

theorem along_of_survives {token : Auth.TokenJson} {α : Type} {m : Daemon α} {Q : α → Prop}
    (ensures : ∀ {I}, Survives token json env config (fun _ => True) allowed I → Ensures I m Q) :
    Along (Asks json env config allowed) m :=
  fun world => (ensures (survives_asks token world)).after (Std.Refl.refl world)

variable {token : Auth.TokenJson} {path fromPath toPath parentPath name : String} {bytes : Bytes}

theorem along_delta {url : String} (own : allowed (.delta url)) :
    Along (Asks json env config allowed) (delta token json env config url) :=
  along_of_survives fun survives => survives.ensures_delta own

theorem along_stat (own : allowed (.stat path)) :
    Along (Asks json env config allowed) (stat token json env config path) :=
  along_of_survives fun survives => survives.ensures_stat own

theorem along_children (own : allowed (.children path)) :
    Along (Asks json env config allowed) (children token json env config path) :=
  along_of_survives fun survives => survives.ensures_children own

theorem along_getContent (own : allowed (.getContent path)) :
    Along (Asks json env config allowed) (getContent token env config path) :=
  along_of_survives fun survives => survives.ensures_getContent own

theorem along_putContent (own : allowed (.putContent path bytes)) :
    Along (Asks json env config allowed) (putContent token json env config path bytes) :=
  along_of_survives fun survives => survives.ensures_putContent own

theorem along_createFolder (own : allowed (.createFolder parentPath name)) :
    Along (Asks json env config allowed) (createFolder token json env config parentPath name) :=
  along_of_survives fun survives => survives.ensures_createFolder own

theorem along_delete (own : allowed (.delete path)) :
    Along (Asks json env config allowed) (delete token env config path) :=
  along_of_survives fun survives => survives.ensures_delete own

theorem along_moveOrRename (own : allowed (.moveOrRename fromPath toPath)) :
    Along (Asks json env config allowed) (moveOrRename token json env config fromPath toPath) :=
  along_of_survives fun survives => survives.ensures_moveOrRename own

end Preorder

theorem along_attempt {α : Type} {R : World → World → Prop} {m : Daemon α} (along : Along R m) : Along R (attempt m) :=
  fun world => by rw [after_attempt]; exact along world

end OneDriveDavfs.Graph
