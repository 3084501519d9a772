import OneDriveDavfs.Auth.TokenText
import OneDriveDavfs.Graph.Frame

/-! Where the credentials go.

A session is any sequence of calls, with any arguments and any answers;
between the calls the files may change in any way. Whatever link an answer or
a file holds, the access token of a token file that was found or issued goes to
Graph, in a request of one of the calls; its refresh token goes to the token
endpoint; and all other requests consist of nothing but a link from an answer
and a part of a file that is being uploaded.
-/

set_option autoImplicit false

namespace OneDriveDavfs.Graph

open Library Library.Wire

section Session
variable (token : Auth.TokenJson) (json : GraphJson) (env : Environment) (config : Config)

def Call.after (world : World) : Call → World
  | .delta url => (Graph.delta token json env config url).after world
  | .stat path => (Graph.stat token json env config path).after world
  | .children path => (Graph.children token json env config path).after world
  | .getContent path => (Graph.getContent token env config path).after world
  | .putContent path bytes => (Graph.putContent token json env config path bytes).after world
  | .createFolder parentPath name => (Graph.createFolder token json env config parentPath name).after world
  | .delete path => (Graph.delete token env config path).after world
  | .moveOrRename fromPath toPath => (Graph.moveOrRename token json env config fromPath toPath).after world

/-- The contents of the token file that were found, the calls, and the world after them. -/
inductive Session : List Bytes → List Call → World → Prop where
  | start (files : Files) (readings writes : Nat) :
      Session (files Auth.tokenFile).toList [] ⟨files, [], readings, writes⟩
  | call {found : List Bytes} {calls : List Call} {world : World} (c : Call) : Session found calls world →
      Session found (calls ++ [c]) (c.after token json env config world)
  /-- the rest of the daemon, and whoever else has the files: anything but a request -/
  | other {found : List Bytes} {calls : List Call} {world world' : World} : Session found calls world →
      world'.sent = world.sent → Session (found ++ (world'.files Auth.tokenFile).toList) calls world'

/-- A token that was found, or was issued for one that is known. What can be
read of a written one, however far the disk came, counts as well. -/
inductive Known (found : List Bytes) : Auth.TokenFile → Prop where
  | found {bytes : Bytes} {t : Auth.TokenFile} : bytes ∈ found → token.fromSlice bytes = .ok t → Known found t
  | issued {t : Auth.TokenFile} {clientId : String} {requests : List OutgoingRequest} {response : HttpResponse}
      {parsed : Auth.TokenResponse} (now : UInt64) : Known found t → config.clientId = some clientId →
      env.answer (requests ++ [(Auth.refreshRequest config clientId t.refreshToken).outgoing
        "login.microsoftonline.com" (Auth.tokenPath config)]) = .ok response → response.status = 200 →
      token.responseFromSlice response.body = .ok parsed → Known found (Auth.renewed t.refreshToken parsed now)
  | readBack {t u : Auth.TokenFile} {bytes : Bytes} (count : Nat) : Known found t → token.toVecPretty t = .ok bytes →
      token.fromSlice (bytes.take count) = .ok u → Known found u

def CarriesBearer (o : OutgoingRequest) : Prop := ∃ value, ("authorization", value) ∈ o.headers

/-- The headers and the body are those that renew some known token. -/
def CarriesRefresh (found : List Bytes) (o : OutgoingRequest) : Prop :=
  ∃ clientId t, Known token env config found t ∧
    o.headers = (Auth.refreshRequest config clientId t.refreshToken).headers ∧
    o.body = (Auth.refreshRequest config clientId t.refreshToken).body

structure Safe (found : List Bytes) (calls : List Call) (o : OutgoingRequest) : Prop where
  https : o.scheme = .https
  bearer : CarriesBearer o → o.authority = "graph.microsoft.com" ∧
    Authorised json env config (Known token env config found) (· ∈ calls) o
  refresh : CarriesRefresh token env config found o → o.authority = "login.microsoftonline.com" ∧
    Renews config (Known token env config found) o
  other : ¬ CarriesBearer o → ¬ CarriesRefresh token env config found o → Bare json env (· ∈ calls) o

structure Guarded (found : List Bytes) (calls : List Call) (world : World) : Prop where
  sends : ∀ o ∈ world.sent, Sends json env config (Known token env config found) (· ∈ calls) o
  stored : ∀ t, Auth.stored token world = some t → Known token env config found t

variable {token} {json} {env} {config} {found : List Bytes} {calls : List Call}

theorem Known.mono {more : List Bytes} (grows : ∀ bytes ∈ found, bytes ∈ more) {t : Auth.TokenFile}
    (known : Known token env config found t) : Known token env config more t := by
  induction known with
  | found member read => exact .found (grows _ member) read
  | issued now _ client answer accepted read ih => exact .issued now ih client answer accepted read
  | readBack count _ written read ih => exact .readBack count ih written read

theorem Sends.safe {o : OutgoingRequest}
    (sends : Sends json env config (Known token env config found) (· ∈ calls) o) :
    Safe token json env config found calls o := by
  rcases sends with own | bare | renews
  · obtain ⟨c, method, url, contentType, body, t, access, pathWithQuery, _, _, _, _, _, rfl⟩ := id own
    refine ⟨rfl, fun _ => ⟨rfl, own⟩, ?_, fun noBearer => absurd ⟨_, List.mem_cons_self⟩ noBearer⟩
    rintro ⟨clientId, _, _, headers, _⟩
    simp [HttpRequest.outgoing, Auth.refreshRequest] at headers
  · obtain ⟨c, request, authority, pathWithQuery, _, follows, _, rfl⟩ := id bare
    refine ⟨rfl, ?_, ?_, fun _ _ => bare⟩
    · rintro ⟨value, member⟩
      cases follows <;> simp [HttpRequest.outgoing, chunkRequest] at member
    · rintro ⟨clientId, _, _, headers, _⟩
      cases follows <;> simp [HttpRequest.outgoing, chunkRequest, Auth.refreshRequest] at headers
  · obtain ⟨clientId, t, _, known, rfl⟩ := id renews
    refine ⟨rfl, ?_, fun _ => ⟨rfl, renews⟩, fun _ noRefresh => absurd ⟨clientId, t, known, rfl, rfl⟩ noRefresh⟩
    rintro ⟨value, member⟩
    simp [HttpRequest.outgoing, Auth.refreshRequest] at member

theorem Guarded.mono {more : List Bytes} {further : List Call} {world : World}
    (guarded : Guarded token json env config found calls world) (finds : ∀ bytes ∈ found, bytes ∈ more)
    (grows : ∀ c ∈ calls, c ∈ further) : Guarded token json env config more further world :=
  ⟨fun o member => (guarded.sends o member).mono (Known.mono finds) (grows _), fun t read =>
    (guarded.stored t read).mono finds⟩

theorem survives_guarded : Survives token json env config (Known token env config found) (· ∈ calls)
    (Guarded token json env config found calls) where
  knows guarded read := guarded.stored _ read
  issues now known client answer accepted read := .issued now known client answer accepted read
  reads guarded := ⟨guarded.sends, guarded.stored⟩
  saves := by
    intro world t bytes guarded known written
    rw [after_writeFile]
    refine ⟨guarded.sends, fun u read => ?_⟩
    -- the old file, or the beginning of the new one that the disk took
    obtain ⟨_, same⟩ | ⟨_, contents⟩ :=
      @StateFile.writeFile_file Auth.tokenFile (env.disk world.writes) bytes world.files
    · rw [same] at read
      exact guarded.stored u read
    · unfold Auth.stored at read
      dsimp only at read
      rw [contents, Option.bind_some] at read
      cases parsed : token.fromSlice (bytes.take (StateFile.taken (env.disk world.writes) Auth.tokenFile bytes)) with
      | error e =>
        rw [parsed] at read
        cases read
      | ok v =>
        rw [parsed] at read
        cases read
        exact .readBack _ known written parsed
  sends := by
    intro world o guarded sends
    refine ⟨fun p member => ?_, guarded.stored⟩
    rcases List.mem_append.mp member with before | new
    · exact guarded.sends p before
    · rw [List.mem_singleton.mp new]
      exact sends

theorem Call.guarded {c : Call} (own : c ∈ calls) {world : World}
    (guarded : Guarded token json env config found calls world) :
    Guarded token json env config found calls (c.after token json env config world) := by
  have survives : Survives token json env config _ _ (Guarded token json env config found calls) := survives_guarded
  cases c with
  | delta url => exact (survives.ensures_delta own).after guarded
  | stat path => exact (survives.ensures_stat own).after guarded
  | children path => exact (survives.ensures_children own).after guarded
  | getContent path => exact (survives.ensures_getContent own).after guarded
  | putContent path bytes => exact (survives.ensures_putContent own).after guarded
  | createFolder parentPath name => exact (survives.ensures_createFolder own).after guarded
  | delete path => exact (survives.ensures_delete own).after guarded
  | moveOrRename fromPath toPath => exact (survives.ensures_moveOrRename own).after guarded

theorem known_of_stored {world : World} {t : Auth.TokenFile} (finds : ∀ bytes, world.files Auth.tokenFile = some bytes →
    bytes ∈ found) (read : Auth.stored token world = some t) : Known token env config found t := by
  obtain ⟨bytes, held, parsed⟩ := Option.bind_eq_some_iff.mp read
  cases result : token.fromSlice bytes with
  | error e =>
    rw [result] at parsed
    cases parsed
  | ok u =>
    rw [result] at parsed
    cases parsed
    exact .found (finds bytes held) result

theorem Session.guarded {world : World} (session : Session token json env config found calls world) :
    Guarded token json env config found calls world := by
  induction session with
  | start files readings writes =>
    refine ⟨fun _ member => absurd member List.not_mem_nil, fun t read => known_of_stored (fun bytes held => ?_) read⟩
    exact Option.mem_toList.mpr held
  | call c _ ih =>
    exact Call.guarded (List.mem_append_right _ (List.mem_singleton_self c))
      (ih.mono (fun _ member => member) fun _ earlier => List.mem_append_left [c] earlier)
  | @other _ _ _ world' _ same ih =>
    have wider := ih.mono (fun _ (member : _ ∈ _) => List.mem_append_left (world'.files Auth.tokenFile).toList member)
      fun _ member => member
    refine ⟨fun o member => wider.sends o (same ▸ member), fun t read => known_of_stored (fun bytes held => ?_) read⟩
    exact List.mem_append_right _ (Option.mem_toList.mpr held)

/-- In every session the access token goes to Graph only, the refresh token to the token endpoint
only, each in a request whose every part is known, and every other request carries neither. -/
theorem credentials_stay_home {world : World} (session : Session token json env config found calls world) :
    ∀ o ∈ world.sent, Safe token json env config found calls o :=
  fun o member => (session.guarded.sends o member).safe

end Session

/-! ## A download that is redirected -/

def bodilessJson : GraphJson where
  driveItem _ := .error "EOF while parsing a value"
  driveItemPage _ := .error "EOF while parsing a value"
  deltaPage _ := .error "EOF while parsing a value"
  errorCode _ := none
  uploadUrl _ := .error "EOF while parsing a value"

/-- A refresh, a redirect to another host, and the file. -/
def redirecting : Environment where
  answer requests :=
    match requests.length with
    | 1 => .ok ⟨200, [], utf8 "\x7b\"access_token\":\"a\",\"refresh_token\":\"r2\",\"expires_in\":3600\x7d"⟩
    | 2 => .ok ⟨302, [("Location", utf8 " https://files.example/x?sig=1")], []⟩
    | _ => .ok ⟨200, [], utf8 "text"⟩
  clock _ := 1000
  disk _ := Auth.soundDisk

theorem credentials_stay_home_redirected :
    ((Call.getContent "/a").after Auth.tokenText bodilessJson redirecting Auth.someConfig Auth.staleWorld).sent.Forall
      (Safe Auth.tokenText bodilessJson redirecting Auth.someConfig (Auth.staleWorld.files Auth.tokenFile).toList
        [.getContent "/a"]) := by
  have start : Session Auth.tokenText bodilessJson redirecting Auth.someConfig
      (Auth.staleWorld.files Auth.tokenFile).toList [] Auth.staleWorld := .start Auth.staleWorld.files 0 0
  rw [List.forall_iff_forall_mem]
  exact credentials_stay_home (start.call (.getContent "/a"))

example : ((Call.getContent "/a").after Auth.tokenText bodilessJson redirecting Auth.someConfig Auth.staleWorld).sent.map
    (fun o => (o.authority, o.pathWithQuery, o.headers.map Prod.fst)) = [
      ("login.microsoftonline.com", "/common/oauth2/v2.0/token", ["content-type"]),
      ("graph.microsoft.com", "/v1.0/me/drive/root:/a:/content", ["authorization"]),
      ("files.example", "/x?sig=1", [])] := by
  rw [Auth.tokenText_eq_asciiTokens]
  decide +kernel

end OneDriveDavfs.Graph
