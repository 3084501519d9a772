import OneDriveDavfs.Auth.Token
import OneDriveDavfs.Graph.Item
import OneDriveDavfs.Library.Json
import OneDriveDavfs.Xml

/-! The requests to Microsoft Graph: `src/graph.rs`.

The JSON codecs of the answers are parameters. Every function is a computation
of the daemon, so that the requests it has sent are part of the state it
leaves, also where it fails.
-/

set_option autoImplicit false

namespace OneDriveDavfs

open Library Library.Wire

namespace Graph

structure DriveItemPage where
  value : List DriveItem
  nextLink : Option String
  deriving DecidableEq, Repr

structure DeltaPageJson where
  value : List DriveItem
  nextLink : Option String
  deltaLink : Option String
  /-- the code of the error body -/
  errorCode : Option String
  deriving DecidableEq, Repr

/-- `serde_json::from_slice` at the records of this file, and the string at `/error/code`. -/
structure GraphJson where
  driveItem : Bytes → Except String DriveItem
  driveItemPage : Bytes → Except String DriveItemPage
  deltaPage : Bytes → Except String DeltaPageJson
  errorCode : Bytes → Option String
  uploadUrl : Bytes → Except String String

def maxSimpleUploadBytes : Nat := 4 * 1024 * 1024

def maxUploadBytes : Nat := 64 * 1024 * 1024

def uploadChunkBytes : Nat := 10 * 1024 * 1024

def maxChildrenPages : Nat := 500

def graphOrigin : String := "https://graph.microsoft.com/"

/-! ## Addresses -/

/-- `trimmed.split('/').map(pct_encode).join("/")`. -/
def encodedSegments (trimmed : List Char) : String :=
  "/".intercalate ((trimmed.splitOn '/').map fun segment => Xml.pctEncode (String.ofList segment))

def itemPathSegment (driveBase path : String) : String :=
  let trimmed := path.toList.dropWhile (· == '/')
  if trimmed.isEmpty then driveRootSegment driveBase ++ "/root"
  else driveRootSegment driveBase ++ "/root:/" ++ encodedSegments trimmed ++ ":"

/-- The form of a parent reference has no colon at its end. -/
def parentReferencePath (driveBase parent : String) : String :=
  let trimmed := (parent.toList.dropWhile (· == '/')).rdropWhile (· == '/')
  if trimmed.isEmpty then driveRootSegment driveBase ++ "/root:"
  else driveRootSegment driveBase ++ "/root:/" ++ encodedSegments trimmed

def v1 (address : String) : String := "https://graph.microsoft.com/v1.0" ++ address

def validateNextLink (next : String) (pagesSoFar : Nat) : Except String String :=
  if maxChildrenPages ≤ pagesSoFar then
    .error ("graph children listing exceeded " ++ toString maxChildrenPages ++ " pages; aborting")
  else if startsWith next graphOrigin then .ok next
  else .error "graph @odata.nextLink points outside graph.microsoft.com; refusing"

theorem validateNextLink_ok_iff {next url : String} {pages : Nat} : validateNextLink next pages = .ok url ↔
    next = url ∧ startsWith url graphOrigin = true ∧ pages < maxChildrenPages := by
  unfold validateNextLink
  by_cases many : maxChildrenPages ≤ pages
  · rw [if_pos many]
    constructor
    · exact fun accepted => by cases accepted
    · rintro ⟨_, _, few⟩
      exact absurd many (Nat.not_le.mpr few)
  · rw [if_neg many]
    by_cases inside : startsWith next graphOrigin = true
    · rw [if_pos inside]
      constructor
      · intro accepted
        cases accepted
        exact ⟨rfl, inside, Nat.lt_of_not_le many⟩
      · rintro ⟨rfl, _⟩
        rfl
    · rw [if_neg inside]
      constructor
      · exact fun accepted => by cases accepted
      · rintro ⟨rfl, begins, _⟩
        exact absurd begins inside

def isHttpsUrl (url : String) : Bool := startsWith url "https://"

def parseDeltaPage (json : GraphJson) (body : Bytes) : Except String DeltaPage :=
  match json.deltaPage body with
  | .error e => .error ("failed to parse delta page: " ++ e)
  | .ok page => do
    if let some next := page.nextLink then let _ ← validateNextLink next 0
    if let some link := page.deltaLink then let _ ← validateNextLink link 0
    return ⟨page.value.filterMap toDeltaItem, page.nextLink, page.deltaLink⟩

def isResync (json : GraphJson) (status : UInt16) (body : Bytes) : Bool :=
  status = 410 ||
    (json.deltaPage body).toOption.any (fun page => page.errorCode.any (eqIgnoreAsciiCase · "resyncRequired")) ||
    (json.errorCode body).any (eqIgnoreAsciiCase · "resyncRequired")

section Calls
variable (token : Auth.TokenJson) (json : GraphJson) (env : Environment) (config : Config)

def graphRequest (method : Method) (url : String) (contentType : Option String) (body : Bytes) :
    Daemon HttpResponse := do
  let bearer ← Auth.bearerToken token env config
  send env {
    method
    url
    headers := ("authorization", bearer) :: (contentType.map fun ct => ("content-type", ct)).toList
    body }

def failedWith (what : String) (response : HttpResponse) : Stop :=
  .failed ("graph " ++ what ++ " failed with status " ++ toString response.status ++ ": " ++ lossy response.body)

/-- The closing step of the writes: the item of the answer, when it parses. -/
def answeredItem (body : Bytes) : Option DeltaItem := (json.driveItem body).toOption.bind toDeltaItem

/-! ## Reads -/

def delta (url : String) : Daemon DeltaReply := do
  if startsWith url graphOrigin then
    match ← attempt (graphRequest token env config .get url none []) with
    | .error message => return .error (.other message)
    | .ok response =>
      if isResync json response.status response.body then return .error .resync
      else if response.status ≠ 200 then
        return .error (.other ("graph delta failed with status " ++ toString response.status ++ ": " ++
          lossy response.body))
      else
        match parseDeltaPage json response.body with
        | .ok page => return .ok page
        | .error message => return .error (.other message)
  else return .error (.other "delta url is not a graph.microsoft.com link")

section Page
variable {token json env config} {world between : World} {url bearer authority pathWithQuery : String}

/-- The page of a link comes where the answer to its one request reads as one. -/
theorem delta_page {body : Bytes} {page : DeltaPage} (home : startsWith url graphOrigin = true)
    (authorized : Auth.bearerToken token env config world = (.ok bearer, between))
    (split : splitUrl url = .ok (authority, pathWithQuery))
    (answered : env.answer (between.sent ++
      [⟨.get, .https, authority, pathWithQuery, [("authorization", bearer)], []⟩]) = .ok ⟨200, [], body⟩)
    (noResync : isResync json 200 body = false) (parsed : parseDeltaPage json body = .ok page) :
    delta token json env config url world = (.ok (.ok page), { between with
      sent := between.sent ++ [⟨.get, .https, authority, pathWithQuery, [("authorization", bearer)], []⟩] }) := by
  have own : splitUrl (HttpRequest.url ⟨.get, url, [("authorization", bearer)], []⟩) = .ok (authority, pathWithQuery) :=
    split
  have reply : graphRequest token env config .get url none [] world = (.ok ⟨200, [], body⟩, { between with
      sent := between.sent ++ [⟨.get, .https, authority, pathWithQuery, [("authorization", bearer)], []⟩] }) := by
    rw [graphRequest, Effect.bind_apply, authorized]
    exact send_apply env between own answered
  have asks := Effect.apply_eq (outcome_attempt_ok (congrArg Prod.fst reply))
  rw [after_attempt, Effect.after, reply] at asks
  unfold delta
  rw [if_pos home, Effect.bind_apply, asks]
  dsimp only
  rw [noResync, if_neg (by decide), if_neg (by decide), parsed]
  rfl

end Page

def stat (path : String) : Daemon GraphItem := do
  let response ← graphRequest token env config .get (v1 (itemPathSegment config.driveBase path)) none []
  if response.status = 404 then throw (.failed "not found")
  else if response.status ≠ 200 then throw (failedWith "stat" response)
  else
    match json.driveItem response.body with
    | .ok item => return toItem item
    | .error e => throw (.failed ("failed to parse drive item: " ++ e))

/-- The loop of `children` from a page on; a listing of too many pages is refused, so the pages
that may still come bound the rounds. -/
def childrenFrom : Nat → String → List GraphItem → Daemon (List GraphItem)
  | 0, _, _ => throw .cut
  | left + 1, url, items => do
    let response ← graphRequest token env config .get url none []
    if response.status ≠ 200 then throw (failedWith "children" response)
    else
      match json.driveItemPage response.body with
      | .error e => throw (.failed ("failed to parse children page: " ++ e))
      | .ok page =>
        let items := items ++ page.value.map toItem
        match page.nextLink with
        | none => return items
        | some next =>
          match validateNextLink next (maxChildrenPages - left) with
          | .error e => throw (.failed e)
          | .ok url => childrenFrom left url items

def children (path : String) : Daemon (List GraphItem) :=
  childrenFrom token json env config maxChildrenPages
    (v1 (itemPathSegment config.driveBase path ++ "/children?$top=200")) []

def getContent (path : String) : Daemon Bytes := do
  let response ← graphRequest token env config .get (v1 (itemPathSegment config.driveBase path ++ "/content")) none []
  if response.status = 200 then return response.body
  else if response.status ∈ [301, 302, 303, 307, 308] then
    match response.headerValue "location" with
    | none => throw (.failed "graph get_content redirect missing Location header")
    | some location =>
      let location := trim location
      if isHttpsUrl location then do
        let redirected ← send env ⟨.get, location, [], []⟩
        if redirected.status = 200 then return redirected.body
        else throw (.failed ("graph redirected get_content failed with status " ++ toString redirected.status))
      else throw (.failed ("graph get_content redirect is not https: " ++ location))
  else throw (.failed ("graph get_content failed with status " ++ toString response.status))

/-! ## Writes -/

def putSimple (path : String) (bytes : Bytes) : Daemon (Option DeltaItem) := do
  let response ← graphRequest token env config .put (v1 (itemPathSegment config.driveBase path ++ "/content"))
    (some "application/octet-stream") bytes
  if response.status ≠ 200 ∧ response.status ≠ 201 then throw (failedWith "put_content" response)
  else return answeredItem json response.body

def chunkRequest (uploadUrl : String) (bytes : Bytes) (offset stop : Nat) : HttpRequest where
  method := .put
  url := uploadUrl
  headers := [
    ("content-range", "bytes " ++ toString offset ++ "-" ++ toString (stop - 1) ++ "/" ++ toString bytes.length),
    ("content-length", toString (stop - offset)),
    ("content-type", "application/octet-stream")]
  body := slice bytes offset stop

/-- The closure of `put_chunked` from an offset on. Every chunk moves the offset, so the length of
the bytes bounds the rounds. -/
def putChunks (uploadUrl : String) (bytes : Bytes) : Nat → Nat → Option DeltaItem → Daemon (Option DeltaItem)
  | 0, _, lastItem => return lastItem
  | fuel + 1, offset, lastItem =>
    if offset < bytes.length then do
      let stop := min (offset + uploadChunkBytes) bytes.length
      let sent ← send env (chunkRequest uploadUrl bytes offset stop)
      let last := stop = bytes.length
      let ok := if last then sent.status = 200 ∨ sent.status = 201 else sent.status = 202
      if ok then putChunks uploadUrl bytes fuel stop (if last then answeredItem json sent.body else lastItem)
      else
        throw (.failed ("graph upload session chunk " ++ toString offset ++ "-" ++ toString (stop - 1) ++
          " failed with status " ++ toString sent.status ++ ": " ++ lossy sent.body))
    else return lastItem

def uploadSessionBody : String := "\x7b\"item\":\x7b\"@microsoft.graph.conflictBehavior\":\"replace\"\x7d\x7d"

def putChunked (path : String) (bytes : Bytes) : Daemon (Option DeltaItem) := do
  let response ← graphRequest token env config .post
    (v1 (itemPathSegment config.driveBase path ++ "/createUploadSession")) (some "application/json")
    (utf8 uploadSessionBody)
  if response.status ≠ 200 ∧ response.status ≠ 201 then throw (failedWith "createUploadSession" response)
  else
    match json.uploadUrl response.body with
    | .error e => throw (.failed ("failed to parse upload session: " ++ e))
    | .ok uploadUrl =>
      let uploadUrl := trim uploadUrl
      if isHttpsUrl uploadUrl then do
        match ← attempt (putChunks json env uploadUrl bytes bytes.length 0 none) with
        | .ok item => return item
        | .error message => do
          let _ ← attempt (send env ⟨.delete, uploadUrl, [], []⟩)
          throw (.failed message)
      else throw (.failed "graph createUploadSession returned a non-https uploadUrl")

def putContent (path : String) (bytes : Bytes) : Daemon (Option DeltaItem) :=
  if maxUploadBytes < bytes.length then
    throw (.failed ("file is " ++ toString bytes.length ++ " bytes, larger than this build's " ++
      toString maxUploadBytes ++ "-byte upload limit"))
  else if maxSimpleUploadBytes < bytes.length then putChunked token json env config path bytes
  else putSimple token json env config path bytes

def folderBody (name : String) : String :=
  "\x7b\"@microsoft.graph.conflictBehavior\":\"fail\",\"folder\":\x7b\x7d,\"name\":" ++
    String.ofList (Json.writeString name) ++ "\x7d"

def createFolder (parentPath name : String) : Daemon (Option DeltaItem) := do
  let response ← graphRequest token env config .post
    (v1 (itemPathSegment config.driveBase parentPath ++ "/children")) (some "application/json")
    (utf8 (folderBody name))
  if response.status ≠ 201 then throw (failedWith "create_folder" response)
  else return answeredItem json response.body

def delete (path : String) : Daemon Unit := do
  let response ← graphRequest token env config .delete (v1 (itemPathSegment config.driveBase path)) none []
  if response.status ≠ 204 ∧ response.status ≠ 404 then
    throw (.failed ("graph delete failed with status " ++ toString response.status))
  else return ()

def moveBody (driveBase toPath : String) : String :=
  let chars := toPath.toList
  let (newParent, newName) :=
    match Library.Separated.rfind '/' chars with
    | some idx => (chars.take idx, chars.drop (idx + 1))
    | none => ([], chars)
  "\x7b\"name\":" ++ String.ofList (Json.writeString (String.ofList newName)) ++ ",\"parentReference\":\x7b\"path\":" ++
    String.ofList (Json.writeString (parentReferencePath driveBase (String.ofList newParent))) ++ "\x7d\x7d"

def moveOrRename (fromPath toPath : String) : Daemon (Option DeltaItem) := do
  let response ← graphRequest token env config .patch (v1 (itemPathSegment config.driveBase fromPath))
    (some "application/json") (utf8 (moveBody config.driveBase toPath))
  if response.status ≠ 200 then throw (failedWith "move_or_rename" response)
  else return answeredItem json response.body

end Calls

end Graph

end OneDriveDavfs
