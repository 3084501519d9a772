import OneDriveDavfs.Graph.Frame
import OneDriveDavfs.Graph.UploadSession

/-! What a call that returns has been granted.

A call that changes the drive returns only when Graph has granted its order:
the order was the last thing that was sent, after the renewal of the token at
most, and the reply to it is one that grants it. An upload in parts has had its
session granted, and after that every block of the file was accepted.
-/

set_option autoImplicit false

namespace OneDriveDavfs

open Library Library.Wire Library.Effect

/-! ## Little is sent -/

def Silent (s t : World) : Prop := t.sent = s.sent

instance : Std.Refl Silent := ⟨fun _ => rfl⟩

instance : IsTrans World Silent := ⟨fun _ _ _ first second => Eq.trans second first⟩

/-- At most the renewal of the token was sent. -/
def Renewed (config : Config) (s t : World) : Prop :=
  ∃ more, t.sent = s.sent ++ more ∧ (more = [] ∨ ∃ o, more = [o] ∧ Graph.Renews config (fun _ => True) o)

section Renewal
variable {config : Config} {s t u : World}

theorem Renewed.of_silent (silent : Silent s t) : Renewed config s t := ⟨[], by rw [silent, List.append_nil], .inl rfl⟩

theorem Renewed.andSilent (renewed : Renewed config s t) (silent : Silent t u) : Renewed config s u := by
  obtain ⟨more, sent, few⟩ := renewed
  exact ⟨more, silent.trans sent, few⟩

theorem Renewed.afterSilent (silent : Silent s t) (renewed : Renewed config t u) : Renewed config s u := by
  obtain ⟨more, sent, few⟩ := renewed
  exact ⟨more, by rw [sent, silent], few⟩

variable {token : Auth.TokenJson} {env : Environment}

theorem silent_nowSecs : Along Silent (nowSecs env) := fun world => by rw [after_nowSecs]; rfl

theorem renewed_refresh (refreshToken : String) :
    Along (Renewed config) (Auth.refresh token env config refreshToken) := by
  unfold Auth.refresh
  split
  · exact fun _ => .of_silent rfl
  · rename_i clientId client
    have sends : Along (Renewed config) (send env (Auth.refreshRequest config clientId refreshToken)) := by
      intro world
      rw [after_send env world (Auth.splitUrl_refresh clientId)]
      exact ⟨[_], rfl, .inr ⟨_, rfl, clientId, ⟨refreshToken, none, 0⟩, client, trivial, rfl⟩⟩
    refine sends.andThen (S := Silent) (fun response => .ite (.throw _) ?_) .andSilent fun early => early
    split
    · exact .throw _
    · exact .bind silent_nowSecs fun _ => .pure _

theorem renewed_renew (old : Auth.TokenFile) : Along (Renewed config) (Auth.renew token env config old) := by
  have saves (fresh : Auth.TokenFile) : Along Silent (Auth.save token env fresh) := by
    unfold Auth.save
    split
    · exact .throw _
    · exact fun world => by rw [after_writeFile]; rfl
  refine (renewed_refresh _).andThen (S := Silent) (fun fresh => .bind (saves fresh) fun _ => ?_) .andSilent
    fun early => early
  split
  · exact .pure _
  · exact .throw _

theorem renewed_bearerToken : Along (Renewed config) (Auth.bearerToken token env config) := by
  have loads : Along Silent (Auth.load token) := fun world => by rw [Auth.after_load]; rfl
  refine loads.andThen (fun old => ?_) .afterSilent .of_silent
  split
  · refine silent_nowSecs.andThen (fun now => ?_) .afterSilent .of_silent
    exact .ite (fun _ => .of_silent rfl) (renewed_renew old)
  · exact renewed_renew old

end Renewal

/-! ## Orders -/

/-- What is asked of Graph, and the statuses that grant it. -/
structure Order where
  method : Method
  address : String
  body : Bytes
  granting : List UInt16

/-- Between the two worlds the order was the last thing that was sent, after the renewal of the token
at most, with this reply. -/
def Placed (config : Config) (env : Environment) (order : Order) (response : HttpResponse) (s t : World) : Prop :=
  ∃ between o, Renewed config s between ∧ t.sent = between.sent ++ [o] ∧ o.method = order.method ∧
    o.scheme = .https ∧ o.authority = "graph.microsoft.com" ∧ o.pathWithQuery = "/v1.0" ++ order.address ∧
    o.body = order.body ∧ env.answer t.sent = .ok response

def Granted (config : Config) (env : Environment) (order : Order) (s t : World) : Prop :=
  ∃ response, Placed config env order response s t ∧ response.status ∈ order.granting

theorem Granted.of_silent {config : Config} {env : Environment} {order : Order} {s t u : World}
    (granted : Granted config env order s t) (silent : Silent t u) : Granted config env order s u := by
  obtain ⟨response, placed, grants⟩ := granted
  refine ⟨response, ?_, grants⟩
  rwa [Placed, silent]

theorem returning_attempt {α : Type} {R : World → α → World → Prop} {m : Daemon α} (returning : Returning R m) :
    Returning (fun s result t => ∀ a, result = .ok a → R s a t) (attempt m) := by
  intro world result attempted a ok
  rw [after_attempt]
  cases ended : m.outcome world with
  | ok b =>
    rw [outcome_attempt_ok ended] at attempted
    cases attempted
    cases ok
    exact returning world _ ended
  | error stop =>
    cases stop with
    | failed message =>
      rw [outcome_attempt_failed ended] at attempted
      cases attempted
      cases ok
    | cut =>
      rw [outcome_attempt_cut ended] at attempted
      cases attempted

namespace Graph

theorem splitUrl_v1 (address : String) : splitUrl (v1 address) = .ok ("graph.microsoft.com", "/v1.0" ++ address) := by
  have origin : "https://graph.microsoft.com/v1.0" = "https://" ++ "graph.microsoft.com" ++ "/" ++ "v1.0" := by decide
  have front : "/v1.0" = "/" ++ "v1.0" := by decide
  have url : v1 address = "https://" ++ "graph.microsoft.com" ++ "/" ++ ("v1.0" ++ address) :=
    (congrArg (· ++ address) origin).trans String.append_assoc
  have path : "/v1.0" ++ address = "/" ++ ("v1.0" ++ address) :=
    (congrArg (· ++ address) front).trans String.append_assoc
  exact (congrArg splitUrl url).trans ((splitUrl_host (by decide)).trans (congrArg _ (congrArg _ path.symm)))

section Calls
variable {token : Auth.TokenJson} {json : GraphJson} {env : Environment} {config : Config}

theorem placed_graphRequest (method : Method) (address : String) (contentType : Option String) (body : Bytes)
    (granting : List UInt16) :
    Returning (fun s response t => Placed config env ⟨method, address, body, granting⟩ response s t)
      (graphRequest token env config method (v1 address) contentType body) := by
  refine .bind (.of_along renewed_bearerToken fun _ _ _ renewed => renewed) fun world bearer => ?_
  intro between response answered renewed
  generalize asked : (⟨method, v1 address,
    ("authorization", bearer) :: (contentType.map fun ct => ("content-type", ct)).toList, body⟩ : HttpRequest) = request
    at answered
  have own : splitUrl request.url = .ok ("graph.microsoft.com", "/v1.0" ++ address) := by
    rw [← asked]
    exact splitUrl_v1 address
  have left := after_send env between own
  have replied := (outcome_send env between own).symm.trans answered
  refine ⟨between, request.outgoing "graph.microsoft.com" ("/v1.0" ++ address), renewed, ?_, ?_, rfl, rfl, rfl, ?_, ?_⟩
  · rw [left]
  · rw [← asked]
    rfl
  · rw [← asked]
    rfl
  · rw [left]
    exact replied

theorem granted_createFolder (parentPath name : String) :
    Returning (fun s _ t => Granted config env
        ⟨.post, itemPathSegment config.driveBase parentPath ++ "/children", utf8 (folderBody name), [201]⟩ s t)
      (createFolder token json env config parentPath name) :=
  .bind (placed_graphRequest _ _ _ _ [201]) fun _ response => .ite (fun _ => .throw _) fun created =>
    .pure fun _ placed => ⟨response, placed, by simpa using created⟩

theorem granted_delete (path : String) :
    Returning (fun s _ t => Granted config env ⟨.delete, itemPathSegment config.driveBase path, [], [204, 404]⟩ s t)
      (delete token env config path) :=
  .bind (placed_graphRequest _ _ _ _ [204, 404]) fun _ response => .ite (fun _ => .throw _) fun gone =>
    .pure fun _ placed => ⟨response, placed, by simpa [imp_iff_or_not, or_comm] using gone⟩

theorem granted_moveOrRename (fromPath toPath : String) :
    Returning (fun s _ t => Granted config env
        ⟨.patch, itemPathSegment config.driveBase fromPath, utf8 (moveBody config.driveBase toPath), [200]⟩ s t)
      (moveOrRename token json env config fromPath toPath) :=
  .bind (placed_graphRequest _ _ _ _ [200]) fun _ response => .ite (fun _ => .throw _) fun moved =>
    .pure fun _ placed => ⟨response, placed, by simpa using moved⟩

/-! ## Uploads -/

/-- A session was granted at a link, and there every block of the file was accepted, one after the other. -/
def InParts (json : GraphJson) (config : Config) (env : Environment) (path : String) (bytes : Bytes) (s t : World) :
    Prop :=
  ∃ opened response link authority pathWithQuery blocks,
    Placed config env ⟨.post, itemPathSegment config.driveBase path ++ "/createUploadSession", utf8 uploadSessionBody,
      [200, 201]⟩ response s opened ∧ response.status ∈ ([200, 201] : List UInt16) ∧
    json.uploadUrl response.body = .ok link ∧ splitUrl (trim link) = .ok (authority, pathWithQuery) ∧
    blocks = (blockRequests (trim link) bytes 0).map (fun request => request.outgoing authority pathWithQuery) ∧
    blocks.flatMap (fun o => o.body) = bytes ∧ t.sent = opened.sent ++ blocks ∧
    ∀ i < blocks.length, Accepted (i + 1 = blocks.length) (env.answer (opened.sent ++ blocks.take (i + 1)))

/-- The file was put at its address in one request that Graph granted, or in the parts of a session. -/
def Uploaded (json : GraphJson) (config : Config) (env : Environment) (path : String) (bytes : Bytes) (s t : World) :
    Prop :=
  (bytes.length ≤ maxSimpleUploadBytes ∧
    Granted config env ⟨.put, itemPathSegment config.driveBase path ++ "/content", bytes, [200, 201]⟩ s t) ∨
  (maxSimpleUploadBytes < bytes.length ∧ InParts json config env path bytes s t)

theorem Uploaded.of_silent {path : String} {bytes : Bytes} {s t u : World}
    (uploaded : Uploaded json config env path bytes s t) (silent : Silent t u) :
    Uploaded json config env path bytes s u := by
  rcases uploaded with ⟨small, granted⟩ | ⟨large, opened, response, link, authority, pathWithQuery, blocks, placed, ok,
    read, split, own, whole, sent, all⟩
  · exact .inl ⟨small, granted.of_silent silent⟩
  · exact .inr ⟨large, opened, response, link, authority, pathWithQuery, blocks, placed, ok, read, split, own, whole,
      silent.trans sent, all⟩

theorem Uploads.all_accepted {answer : List OutgoingRequest → Except Stop HttpResponse}
    {before requests closing sent : List OutgoingRequest} {item : Option DeltaItem}
    (run : Uploads answer before requests closing sent (.ok item)) : sent = before ++ requests ∧
      ∀ i < requests.length, Accepted (i + 1 = requests.length) (answer (before ++ requests.take (i + 1))) := by
  cases run with
  | complete all => exact ⟨rfl, all⟩

theorem uploaded_putChunked (path : String) (bytes : Bytes) :
    Returning (fun s _ t => InParts json config env path bytes s t) (putChunked token json env config path bytes) := by
  refine .bind (placed_graphRequest _ _ _ _ [200, 201]) fun world response => .ite (fun _ => .throw _) fun created => ?_
  split
  · exact .throw _
  · rename_i link read
    refine .ite (fun https => ?_) fun _ => .throw _
    obtain ⟨authority, pathWithQuery, split⟩ := splitUrl_https https
    intro opened item returned placed
    cases ended : (putChunks json env (trim link) bytes bytes.length 0 none).outcome opened with
    | error stop =>
      -- a failed upload is never reported as done
      cases stop with
      | cut =>
        rw [outcome_bind_error _ (outcome_attempt_cut ended)] at returned
        cases returned
      | failed message =>
        rw [outcome_bind_ok _ (outcome_attempt_failed ended)] at returned
        dsimp only at returned
        cases reply : (attempt (send env ⟨.delete, trim link, [], []⟩)).outcome
            ((attempt (putChunks json env (trim link) bytes bytes.length 0 none)).after opened) with
        | error stop =>
          rw [outcome_bind_error _ reply] at returned
          cases returned
        | ok _ =>
          rw [outcome_bind_ok _ reply] at returned
          cases returned
    | ok last =>
      rw [after_bind_ok _ (outcome_attempt_ok ended), after_attempt]
      have uncut : (putChunks json env (trim link) bytes bytes.length 0 none).outcome opened ≠ .error .cut := by
        rw [ended]
        exact fun impossible => by cases impossible
      have run := putChunks_uploads split (Nat.zero_add _).ge none opened uncut
      rw [ended] at run
      obtain ⟨sent, all⟩ := run.all_accepted
      refine ⟨opened, response, link, authority, pathWithQuery, _, placed, by simpa [imp_iff_or_not, or_comm] using created, read,
        split, rfl, ?_, sent, all⟩
      rw [List.flatMap_map]
      exact flatMap_blockRequests _ bytes

theorem uploaded_putContent (path : String) (bytes : Bytes) :
    Returning (fun s _ t => Uploaded json config env path bytes s t) (putContent token json env config path bytes) := by
  refine .ite (fun _ => .throw _) fun _ => .ite (fun large => ?_) fun small => ?_
  · exact fun world item returned => .inr ⟨large, uploaded_putChunked path bytes world item returned⟩
  · refine .bind (placed_graphRequest _ _ _ _ [200, 201]) fun world response => .ite (fun _ => .throw _) fun taken => ?_
    exact .pure fun _ placed => .inl ⟨Nat.le_of_not_lt small, response, placed, by simpa [imp_iff_or_not, or_comm] using taken⟩

end Calls

end Graph

end OneDriveDavfs
