import OneDriveDavfs.Api.Search
import OneDriveDavfs.Api.Tree
import OneDriveDavfs.Dav.Verbs

/-! The JSON endpoints of `src/api.rs` and the answer of a sync.

Objects are maps ordered by key, so their members are written in the order of
their names.
-/

set_option autoImplicit false

namespace OneDriveDavfs

open Library Library.Wire Library.Effect Library.Json Snapshot

def jsonOk (value : Value) : DavResponse := ⟨200, "application/json", utf8 (compact value), [], none⟩

/-- The answer is a JSON object with this member. -/
def DavResponse.Says (response : DavResponse) (name : String) (value : Value) : Prop :=
  response.status = 200 ∧ ∃ text whole, response.body = utf8 text ∧ parse text = some whole ∧
    whole.field name = some value

theorem says_jsonOk_iff (whole : Value) {name : String} {value : Value} :
    (jsonOk whole).Says name value ↔ whole.field name = some value := by
  constructor
  · rintro ⟨_, text, found, body, parsed, field⟩
    have same : compact whole = text := utf8_injective body
    rw [← same, parse_compact] at parsed
    exact Option.some.inj parsed ▸ field
  · exact fun field => ⟨rfl, compact whole, whole, rfl, parse_compact whole, field⟩

namespace Api

section Handlers
variable (ext : Externals) (host : Surroundings) (config : GuestConfig)

/-! ## `/_status` -/

def tickJson (tick : SyncStats) : Value := ofEntries [
  ("applied", nat tick.applied.toNat),
  ("pages", nat tick.pages.toNat),
  ("complete", .bool tick.complete),
  ("durationMs", nat tick.durationMs.toNat),
  ("resync", .bool tick.resync),
  ("itemsPerSec", .number tick.itemsPerSec),
  ("at", nat tick.atSecs.toNat)]

def metaEntries (m : SnapshotMeta) : List (String × Value) := [
  ("crawlComplete", .bool m.crawlComplete),
  ("hasToken", .bool m.deltaToken.isSome),
  ("generation", nat m.generation.toNat),
  ("builtAt", nat m.builtAt.toNat),
  ("totalDirs", nat m.totalDirs.toNat),
  ("totalFiles", nat m.totalFiles.toNat),
  ("pendingNextLink", .bool m.pendingNextLink.isSome)]

def statusJson (found : Option SnapshotMeta) (lastTick : Option SyncStats) : Value := ofEntries (
  [("ok", .bool true), ("indexEnabled", .bool true), ("present", .bool found.isSome)] ++
    (found.map metaEntries).getD [] ++
    (lastTick.map fun tick => ("lastTick", tickJson tick)).toList)

def status : Daemon DavResponse := do
  if config.indexEnabled then
    match ← attempt (Guest.readMeta ext) with
    | .error e => return jsonOk (ofEntries [("ok", .bool true), ("indexEnabled", .bool true), ("error", .text e)])
    | .ok found =>
      match ← attempt (Guest.loadStats ext) with
      | .ok lastTick => return jsonOk (statusJson found lastTick)
      | .error _ => return jsonOk (statusJson found none)
  else return jsonOk (ofEntries [("ok", .bool true), ("indexEnabled", .bool false)])

/-! ## `/_search` -/

def notReady : Value := ofEntries [("ok", .bool true), ("ready", .bool false)]

def resultJson (result : SearchResult) : Value := ofEntries [
  ("path", .text result.path),
  ("name", .text result.name),
  ("isDir", .bool result.isDir),
  ("size", nat result.size.toNat),
  ("mtime", nat result.mtime.toNat)]

def searchJson (answer : SearchAnswer) : Value := ofEntries [
  ("ok", .bool answer.ok),
  ("ready", .bool answer.ready),
  ("query", .text answer.query),
  ("truncated", .bool answer.truncated),
  ("results", .array (answer.results.map resultJson))]

def search (query : Option String) : Daemon DavResponse := do
  let q := (queryParam query "q").getD ""
  if config.indexEnabled then
    match ← attempt (Guest.load ext indexFile) with
    | .ok (some index) => return jsonOk (searchJson (searchIndex ext.lower index (host.order index) q))
    | _ => return jsonOk notReady
  else return jsonOk notReady

/-! ## `/_tree` -/

def joinChildPath (parent name : String) : String :=
  if Dav.onlySlashes parent then "/" ++ name else String.ofList (trimEndSlashes parent) ++ "/" ++ name

def childJson (parent name : String) (isDir : Bool) (size mtime : UInt64) (etag : String) : Value := ofEntries [
  ("name", .text name),
  ("path", .text (joinChildPath parent name)),
  ("isDir", .bool isDir),
  ("size", nat size.toNat),
  ("mtime", nat mtime.toNat),
  ("etag", .text etag)]

/-- The object of a directory or a file; `children` are those that are directories. -/
def nodeJson (path name : String) (isDir : Bool) (size mtime : UInt64) (etag source : String) (children : List Value) :
    Value := ofEntries [
  ("ok", .bool true),
  ("path", .text (normalizePath path)),
  ("name", .text name),
  ("isDir", .bool isDir),
  ("size", nat size.toNat),
  ("mtime", nat mtime.toNat),
  ("etag", .text etag),
  ("source", .text source),
  ("children", .array children)]

def dirJson (path : String) (info : ChildInfo) (children : List Value) (source : String) : Value :=
  nodeJson path (if Dav.onlySlashes path then "" else info.name) true info.size info.mtime info.etag source children

def lookupToTree (path : String) (hit : Lookup) (source : String) : Value :=
  match hit with
  | .dir info children =>
    dirJson path info
      ((children.filter ChildInfo.isDir).map fun c => childJson path c.name true c.size c.mtime c.etag) source
  | .file info => nodeJson path info.name false info.size info.mtime info.etag source []

/-- The object that is made from the answers of Graph. -/
def graphTreeJson (path : String) (item : Graph.GraphItem) (children : List Graph.GraphItem) : Value :=
  nodeJson path (if Dav.onlySlashes path then "" else item.name) item.isDir item.size item.lastModified item.etag "graph"
    ((children.filter Graph.GraphItem.isDir).map fun c => childJson path c.name true c.size c.lastModified c.etag)

def graphTree (path : String) : Daemon Value := do
  let item ← Graph.stat ext.token ext.graph host.toEnvironment config.toConfig path
  if item.isDir then
    let children ← Graph.children ext.token ext.graph host.toEnvironment config.toConfig path
    return graphTreeJson path item children
  else return graphTreeJson path item []

def treeFromGraph (path : String) : Daemon DavResponse := do
  match ← attempt (graphTree ext host config path) with
  | .ok value => return jsonOk value
  | .error e => return if e = "not found" then .error 404 "not found" else .error 502 e

def tree (query : Option String) : Daemon DavResponse :=
  match treePath query with
  | .error e => return .error 400 e
  | .ok path =>
    if config.indexEnabled then do
      match ← attempt (Guest.lookupFile ext path) with
      | .ok (some hit) => return jsonOk (lookupToTree path hit "index")
      | _ => treeFromGraph ext host config path
    else treeFromGraph ext host config path

end Handlers

end Api

namespace Sync

def reportJson (stats : SyncStats) : Value := ofEntries [
  ("applied", nat stats.applied.toNat),
  ("pages", nat stats.pages.toNat),
  ("complete", .bool stats.complete),
  ("has_token", .bool stats.hasToken),
  ("duration_ms", nat stats.durationMs.toNat),
  ("resync", .bool stats.resync),
  ("target", .text stats.target),
  ("items_per_sec", .number stats.itemsPerSec)]

/-- The answer to `POST /_sync`. -/
def run (ext : Externals) (host : Surroundings) (config : GuestConfig) : Daemon DavResponse := do
  if config.indexEnabled then
    match ← attempt (Guest.runInner ext host config) with
    | .ok report => return jsonOk (reportJson report)
    | .error e => return .error 502 e
  else return jsonOk (ofEntries [("skipped", .bool true), ("reason", .text "index disabled")])

end Sync

end OneDriveDavfs
