import OneDriveDavfs.Api.Answers
import OneDriveDavfs.Dav.Destination
import OneDriveDavfs.Http.Transfer

/-! One request from its arrival to its answer: `handle_request` and `respond` of `src/lib.rs`.

Settings come first, then the credentials, and only then anything of the
request is looked at. Every request has an answer unless it is cut short.
-/

set_option autoImplicit false

namespace OneDriveDavfs

open Library Library.Wire Library.Effect Library.Separated

inductive IncomingMethod where
  | get | head | post | put | delete | connect | options | trace | patch
  | other (name : String)
  deriving DecidableEq, Repr

structure IncomingRequest where
  method : IncomingMethod
  pathWithQuery : Option String
  headers : BasicAuth.Fields
  body : IncomingBody

def IncomingRequest.path (request : IncomingRequest) : Except String String :=
  sanitizePath (rawPath (request.pathWithQuery.getD ""))

namespace Guest

/-- The query behind the first question mark. -/
def queryOf (target : String) : Option String :=
  (splitOnce ['?'] target.toList).map fun parts => String.ofList parts.2

def destinationOf (headers : BasicAuth.Fields) : Except String (Option String) :=
  match BasicAuth.headerValue headers "destination" with
  | none => .ok none
  | some raw =>
    match Destination.destinationPath raw with
    | .error e => .error e
    | .ok path => (sanitizePath path).map some

def unsupported (name : String) : DavResponse := .error 405 ("unsupported method: " ++ name)

section Handle
variable (ext : Externals) (host : Surroundings) (config : GuestConfig)

/-- The endpoints of the plugin; any other path is a file's. -/
def plugin (path : String) (query : Option String) : Option (Daemon DavResponse) :=
  if path ∈ ["/_status", "_status"] then some (Api.status ext config)
  else if path ∈ ["/_tree", "_tree"] then some (Api.tree ext host config query)
  else if path ∈ ["/_search", "_search"] then some (Api.search ext host config query)
  else none

def receive (path : String) (body : IncomingBody) : Daemon DavResponse :=
  match body.readRequestBody Graph.maxUploadBytes with
  | none => throw .cut
  | some (.ok bytes) => Verbs.put ext host config path bytes
  | some (.error .tooLarge) => return .error 413 ("file exceeds the " ++ toString Graph.maxUploadBytes ++
      " byte upload limit of this build")
  | some (.error (.read e)) => return .error 400 e

def dispatch (request : IncomingRequest) (path : String) (destination : Option String) : Daemon DavResponse :=
  match request.method with
  | .options => return .options
  | .head => Verbs.head ext host config path
  | .get => Verbs.get ext host config path
  | .put => receive ext host config path request.body
  | .delete => Verbs.delete ext host config path
  | .other name =>
    if name = "PROPFIND" then Verbs.propfind ext host config path (BasicAuth.headerValue request.headers "depth")
    else if name = "MKCOL" then Verbs.mkcol ext host config path
    else if name = "MOVE" then
      match destination with
      | some destination => Verbs.move ext host config path destination
      | none => return .error 400 "missing Destination header"
    else if name = "LOCK" then return Verbs.lock path
    else if name = "UNLOCK" then return Verbs.unlock
    else return unsupported name
  | .connect => return unsupported "Method::Connect"
  | .trace => return unsupported "Method::Trace"
  | .patch => return unsupported "Method::Patch"
  | .post => return unsupported "Method::Post"

def dav (request : IncomingRequest) (path : String) : Daemon DavResponse :=
  match sanitizePath path with
  | .error e => return .error 400 e
  | .ok path =>
    match destinationOf request.headers with
    | .error e => return .error 400 ("bad Destination: " ++ e)
    | .ok destination => dispatch ext host config request path destination

/-- What is asked for, once the credentials have passed. -/
def serve (request : IncomingRequest) : Daemon DavResponse :=
  let full := request.pathWithQuery.getD ""
  if request.method = .post then
    if BasicAuth.headerValue request.headers "x-onedrive-sync" = some "1" then Sync.run ext host config
    else return unsupported "POST"
  else
    let plugged := if request.method = .get ∧ BasicAuth.headerValue request.headers "x-onedrive-plugin" = some "1"
      then plugin ext host config (rawPath full) (queryOf full) else none
    match plugged with
    | some answer => answer
    | none => dav ext host config request (rawPath full)

end Handle

/-- The process that a request reaches: its environment and its preopened directories. -/
structure Process where
  environ : List (String × String)
  preopens : List String

def handleRequest (ext : Externals) (host : Surroundings) (process : Process) (request : IncomingRequest) :
    Daemon DavResponse :=
  match GuestConfig.load process.environ process.preopens with
  | .error e => return .error 500 ("config error: " ++ e)
  | .ok config =>
    if BasicAuth.checkBasicAuth config.basicAuthSecret request.headers then serve ext host config request
    else return .unauthorized

def responseHeaders (response : DavResponse) : List (String × String) :=
  ("content-type", response.contentType) ::
    ("content-length", toString ((response.contentLength.getD (UInt64.ofNat response.body.length)).toNat)) ::
    response.headers

end Guest

end OneDriveDavfs
