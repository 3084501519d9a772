import OneDriveDavfs.Dav.Propfind
import OneDriveDavfs.Guest.Tick
import OneDriveDavfs.Xml.Multistatus

/-! The verb handlers of `src/dav.rs`: what they ask of Graph, what they write to the snapshot, and
what they answer.

A handler turns every failure into an answer. What was cut short has no answer.
-/

set_option autoImplicit false

namespace OneDriveDavfs

open Library Library.Wire Library.Effect Library.Separated Snapshot

structure DavResponse where
  status : UInt16
  contentType : String
  body : Bytes
  headers : List (String × String)
  /-- sent as the length instead of the body's, for a HEAD -/
  contentLength : Option UInt64
  deriving DecidableEq, Repr

namespace DavResponse

def xml (status : UInt16) (body : String) : DavResponse :=
  ⟨status, "application/xml; charset=utf-8", utf8 body, [], none⟩

def empty (status : UInt16) : DavResponse := ⟨status, "text/plain", [], [], none⟩

def error (status : UInt16) (message : String) : DavResponse := ⟨status, "text/plain", utf8 message, [], none⟩

def unauthorized : DavResponse :=
  ⟨401, "text/plain", utf8 "unauthorized", [("www-authenticate", "Basic realm=\"onedrive-davfs\"")], none⟩

def options : DavResponse where
  status := 200
  contentType := "text/plain"
  body := []
  headers := [
    ("allow", "OPTIONS, PROPFIND, GET, PUT, MKCOL, DELETE, MOVE, LOCK, UNLOCK"),
    ("dav", "1, 2"),
    ("ms-author-via", "DAV")]
  contentLength := none

end DavResponse

namespace Verbs

section Handlers
variable (ext : Externals) (host : Surroundings) (config : GuestConfig)

def propfindResponse : Dav.PropfindAnswer → DavResponse
  | .infinite => .xml 403 ("<?xml version=\"1.0\" encoding=\"utf-8\"?>\n" ++
      "<D:error xmlns:D=\"DAV:\"><D:propfind-finite-depth/></D:error>")
  | .multistatus entries => .xml 207 (Xml.multistatus entries)
  | .notFound => .empty 404
  | .failed message => .error 502 message

def propfind (path : String) (depth : Option String) : Daemon DavResponse := do
  let answer ← Dav.propfind ext.token ext.graph host.toEnvironment config.toConfig (wasm32 ext.index)
    config.indexEnabled path depth
  return propfindResponse answer

def get (path : String) : Daemon DavResponse := do
  match ← attempt (Graph.getContent ext.token host.toEnvironment config.toConfig path) with
  | .ok bytes => return ⟨200, "application/octet-stream", bytes, [], none⟩
  | .error e => return .error 502 e

/-! ## HEAD -/

def headResponse (contentType : String) (length : UInt64) : DavResponse := ⟨200, contentType, [], [], some length⟩

def directoryType : String := "httpd/unix-directory"

def octetStream : String := "application/octet-stream"

def headOfLookup : Lookup → DavResponse
  | .dir _ _ => headResponse directoryType 0
  | .file info => headResponse octetStream info.size

def headOfItem (item : Graph.GraphItem) : DavResponse :=
  if item.isDir then headResponse directoryType 0
  else headResponse (if item.mimeType = "" then octetStream else item.mimeType) item.size

/-- Nothing means that Graph is asked instead. -/
def headFromIndex (path : String) : Daemon (Option DavResponse) := do
  if config.indexEnabled then
    match ← attempt (Guest.lookupFile ext path) with
    | .ok (some hit) => return some (headOfLookup hit)
    | _ => return none
  else return none

def head (path : String) : Daemon DavResponse := do
  match ← headFromIndex ext config path with
  | some response => return response
  | none =>
    match ← attempt (Graph.stat ext.token ext.graph host.toEnvironment config.toConfig path) with
    | .ok item => return headOfItem item
    | .error e => return if e = "not found" then .empty 404 else .error 502 e

/-! ## Writes -/

def writeThrough (write : Dav.LocalWrite) : Daemon Unit :=
  if config.indexEnabled then Guest.mutate ext host fun idx => write.run idx else return ()

/-- A write that Graph took goes to the snapshot as well; the answer does not depend on that. -/
def writing {α : Type} (ask : Daemon α) (write : α → Dav.LocalWrite) (status : UInt16) : Daemon DavResponse := do
  match ← attempt ask with
  | .ok taken => do
    writeThrough ext host config (write taken)
    return .empty status
  | .error e => return .error 502 e

def put (path : String) (body : Bytes) : Daemon DavResponse :=
  if Graph.maxUploadBytes < body.length then
    return .error 413 ("file is " ++ toString body.length ++ " bytes; this build only supports uploads up to " ++
      toString Graph.maxUploadBytes ++ " bytes")
  else
    writing ext host config (Graph.putContent ext.token ext.graph host.toEnvironment config.toConfig path body)
      (.put path (UInt64.ofNat body.length)) 201

/-- `path.trim_end_matches('/').rsplit('/').next()`. -/
def lastName (path : String) : String :=
  match rfind '/' (trimEndSlashes path) with
  | some idx => String.ofList ((trimEndSlashes path).drop (idx + 1))
  | none => String.ofList (trimEndSlashes path)

def mkcol (path : String) : Daemon DavResponse :=
  writing ext host config
    (Graph.createFolder ext.token ext.graph host.toEnvironment config.toConfig (Dav.parentOf path) (lastName path))
    (.mkcol path) 201

def delete (path : String) : Daemon DavResponse :=
  writing ext host config (Graph.delete ext.token host.toEnvironment config.toConfig path) (fun _ => .delete path) 204

def move (path destination : String) : Daemon DavResponse :=
  writing ext host config
    (Graph.moveOrRename ext.token ext.graph host.toEnvironment config.toConfig path destination)
    (.move path destination) 201

end Handlers

/-! ## Locks -/

def lockBody (path : String) : String :=
  "<?xml version=\"1.0\" encoding=\"utf-8\"?>\n" ++
    "<D:prop xmlns:D=\"DAV:\">\n" ++
    "  <D:lockdiscovery>\n" ++
    "    <D:activelock>\n" ++
    "      <D:locktype><D:write/></D:locktype>\n" ++
    "      <D:lockscope><D:exclusive/></D:lockscope>\n" ++
    "      <D:depth>0</D:depth>\n" ++
    "      <D:owner>onedrive-davfs</D:owner>\n" ++
    "      <D:timeout>Second-3600</D:timeout>\n" ++
    "      <D:locktoken><D:href>opaquelocktoken:" ++ Xml.pctEncode path ++ "</D:href></D:locktoken>\n" ++
    "      <D:lockroot><D:href>" ++ Xml.pctEncode path ++ "</D:href></D:lockroot>\n" ++
    "    </D:activelock>\n" ++
    "  </D:lockdiscovery>\n" ++
    "</D:prop>"

/-- A success without a lock. -/
def lock (path : String) : DavResponse :=
  { DavResponse.xml 200 (lockBody path) with
    headers := [("lock-token", "<opaquelocktoken:" ++ Xml.pctEncode path ++ ">")] }

def unlock : DavResponse := .empty 204

end Verbs

end OneDriveDavfs
