import OneDriveDavfs.Library.Effect
import OneDriveDavfs.Library.Text
import OneDriveDavfs.StateWrite

/-! Requests to the outside: `src/http_client.rs`.

The daemon is a computation over the files of the state directory and the
requests sent so far. What the outside does is an environment: the answer to
each request, which may depend on all requests before it, the readings of the
clock, and the disk.
-/

set_option autoImplicit false

namespace OneDriveDavfs

open Library Library.Wire

inductive Method where
  | get | put | post | delete | patch
  deriving DecidableEq, Repr

structure HttpRequest where
  method : Method
  url : String
  headers : List (String × String)
  body : Bytes
  deriving DecidableEq, Repr

structure HttpResponse where
  status : UInt16
  headers : List (String × Bytes)
  body : Bytes
  deriving DecidableEq, Repr

inductive Scheme where
  | http | https
  deriving DecidableEq, Repr

structure OutgoingRequest where
  method : Method
  scheme : Scheme
  authority : String
  pathWithQuery : String
  headers : List (String × String)
  body : Bytes
  deriving DecidableEq, Repr

def HttpRequest.outgoing (request : HttpRequest) (authority pathWithQuery : String) : OutgoingRequest :=
  ⟨request.method, .https, authority, pathWithQuery, request.headers, request.body⟩

def eqIgnoreAsciiCase (a b : String) : Bool := a.toList.map Char.toLower == b.toList.map Char.toLower

def HttpResponse.headerValue (response : HttpResponse) (name : String) : Option String :=
  (response.headers.find? fun header => eqIgnoreAsciiCase header.1 name).map fun header => lossy header.2

/-- `s.strip_prefix(front)`. -/
def stripPrefix (front s : String) : Option String :=
  if front.toList.isPrefixOf s.toList then some (String.ofList (s.toList.drop front.toList.length)) else none

theorem stripPrefix_append (front rest : String) : stripPrefix front (front ++ rest) = some rest := by
  rw [stripPrefix, String.toList_append, if_pos (List.isPrefixOf_iff_prefix.mpr (List.prefix_append _ _)), List.drop_left,
    String.ofList_toList]

def startsWith (s front : String) : Bool := front.toList.isPrefixOf s.toList

def splitUrl (url : String) : Except String (String × String) :=
  match stripPrefix "https://" url with
  | none => .error ("only https:// URLs are supported, got: " ++ url)
  | some rest =>
    match rest.toList.findIdx? (· = '/') with
    | some idx => .ok (String.ofList (rest.toList.take idx), String.ofList (rest.toList.drop idx))
    | none => .ok (rest, "/")

/-! ## The daemon and its environment -/

structure Environment where
  /-- the answer to the last of the requests -/
  answer : List OutgoingRequest → Except Stop HttpResponse
  /-- the seconds at each reading of the clock -/
  clock : Nat → UInt64
  /-- the disk at each `write_file` -/
  disk : Nat → Disk

structure World where
  files : Files
  sent : List OutgoingRequest
  readings : Nat
  writes : Nat

abbrev Daemon := Effect World Stop

def nowSecs (env : Environment) : Daemon UInt64 := do
  let world ← get
  modify fun world => { world with readings := world.readings + 1 }
  return env.clock world.readings

def readFile (name : String) : Daemon (Option Bytes) := do
  let world ← get
  match StateFile.readFile (StateFile.rounds world.files name) world.files.host name with
  | .ok contents => return contents
  | .error (.error message) => throw (.failed message)
  | .error .trap => throw .cut

def writeFile (env : Environment) (name : String) (contents : Bytes) : Daemon Unit := do
  let world ← get
  let written := StateFile.writeFile (env.disk world.writes) world.files name contents
  modify fun world => { world with files := written.2, writes := world.writes + 1 }
  match written.1 with
  | .ok () => return ()
  | .error stop => throw stop

def send (env : Environment) (request : HttpRequest) : Daemon HttpResponse :=
  match splitUrl request.url with
  | .error message => throw (.failed message)
  | .ok (authority, pathWithQuery) => do
    modify fun world => { world with sent := world.sent ++ [request.outgoing authority pathWithQuery] }
    let world ← get
    match env.answer world.sent with
    | .ok response => return response
    | .error stop => throw stop

/-- `Result` as a value: a failure is returned, a cut is not. -/
def attempt {α : Type} (m : Daemon α) : Daemon (Except String α) := fun world =>
  match m world with
  | (.ok a, world) => (.ok (.ok a), world)
  | (.error (.failed message), world) => (.ok (.error message), world)
  | (.error .cut, world) => (.error .cut, world)

theorem Ensures.attempt {α : Type} {I : World → Prop} {m : Daemon α} {Q : α → Prop}
    (ensures : Effect.Ensures I m Q) : Effect.Ensures I (attempt m) fun _ => True := by
  intro world holds
  have kept := (ensures world holds).1
  refine ⟨?_, fun _ _ => trivial⟩
  unfold Effect.after OneDriveDavfs.attempt at *
  rcases run : m world with ⟨_ | _, left⟩
  · rename_i stop
    rw [run] at kept
    cases stop <;> exact kept
  · rw [run] at kept
    exact kept

/-! ## What the primitives do -/

theorem outcome_attempt_ok {α : Type} {m : Daemon α} {world : World} {a : α} (returned : m.outcome world = .ok a) :
    (attempt m).outcome world = .ok (.ok a) := by
  unfold Effect.outcome attempt
  rw [Effect.apply_eq returned]

theorem outcome_attempt_failed {α : Type} {m : Daemon α} {world : World} {message : String}
    (failed : m.outcome world = .error (.failed message)) : (attempt m).outcome world = .ok (.error message) := by
  unfold Effect.outcome attempt
  rw [Effect.apply_eq failed]

theorem outcome_attempt_cut {α : Type} {m : Daemon α} {world : World} (cut : m.outcome world = .error .cut) :
    (attempt m).outcome world = .error .cut := by
  unfold Effect.outcome attempt
  rw [Effect.apply_eq cut]

@[simp] theorem after_attempt {α : Type} (m : Daemon α) (world : World) : (attempt m).after world = m.after world := by
  unfold Effect.after attempt
  rcases m world with ⟨(stop | _), _⟩
  · cases stop <;> rfl
  · rfl

section Primitives
variable (env : Environment) (world : World)

@[simp] theorem outcome_nowSecs : (nowSecs env).outcome world = .ok (env.clock world.readings) := rfl

@[simp] theorem after_nowSecs : (nowSecs env).after world = { world with readings := world.readings + 1 } := rfl

@[simp] theorem outcome_readFile (name : String) : (readFile name).outcome world = .ok (world.files name) := by
  rw [readFile, Effect.outcome_bind_ok _ (Effect.outcome_get world), Effect.after_get, StateFile.readFile_host]
  rfl

@[simp] theorem after_readFile (name : String) : (readFile name).after world = world := by
  rw [readFile, Effect.after_bind_ok _ (Effect.outcome_get world), Effect.after_get, StateFile.readFile_host]
  rfl

@[simp] theorem outcome_writeFile (name : String) (contents : Bytes) :
    (writeFile env name contents).outcome world =
      (StateFile.writeFile (env.disk world.writes) world.files name contents).1 := by
  rw [writeFile, Effect.outcome_bind_ok _ (Effect.outcome_get world), Effect.after_get,
    Effect.outcome_bind_ok _ (Effect.outcome_modify world _)]
  cases (StateFile.writeFile (env.disk world.writes) world.files name contents).1 <;> rfl

@[simp] theorem after_writeFile (name : String) (contents : Bytes) :
    (writeFile env name contents).after world =
      { world with
        files := (StateFile.writeFile (env.disk world.writes) world.files name contents).2
        writes := world.writes + 1 } := by
  rw [writeFile, Effect.after_bind_ok _ (Effect.outcome_get world), Effect.after_get,
    Effect.after_bind_ok _ (Effect.outcome_modify world _), Effect.after_modify]
  cases (StateFile.writeFile (env.disk world.writes) world.files name contents).1 <;> rfl

variable {request : HttpRequest} {authority pathWithQuery : String}

theorem outcome_send (split : splitUrl request.url = .ok (authority, pathWithQuery)) :
    (send env request).outcome world =
      env.answer (world.sent ++ [request.outgoing authority pathWithQuery]) := by
  rw [send, split]
  dsimp only
  rw [Effect.outcome_bind_ok _ (Effect.outcome_modify world _), Effect.after_modify,
    Effect.outcome_bind_ok _ (Effect.outcome_get _), Effect.after_get]
  dsimp only
  cases env.answer (world.sent ++ [request.outgoing authority pathWithQuery]) <;> rfl

theorem after_send (split : splitUrl request.url = .ok (authority, pathWithQuery)) :
    (send env request).after world =
      { world with sent := world.sent ++ [request.outgoing authority pathWithQuery] } := by
  rw [send, split]
  dsimp only
  rw [Effect.after_bind_ok _ (Effect.outcome_modify world _), Effect.after_modify,
    Effect.after_bind_ok _ (Effect.outcome_get _), Effect.after_get]
  dsimp only
  cases env.answer (world.sent ++ [request.outgoing authority pathWithQuery]) <;> rfl

theorem send_apply {ended : Except Stop HttpResponse} (split : splitUrl request.url = .ok (authority, pathWithQuery))
    (answered : env.answer (world.sent ++ [request.outgoing authority pathWithQuery]) = ended) :
    send env request world =
      (ended, { world with sent := world.sent ++ [request.outgoing authority pathWithQuery] }) := by
  rw [Effect.apply_eq ((outcome_send env world split).trans answered), after_send env world split]

end Primitives

/-! ## Where a URL leads -/

theorem startsWith_iff {s front : String} : startsWith s front = true ↔ ∃ rest, s = front ++ String.ofList rest := by
  rw [startsWith, List.isPrefixOf_iff_prefix]
  constructor
  · rintro ⟨rest, whole⟩
    exact ⟨rest, by rw [← String.ofList_toList (s := s), ← whole, String.ofList_append, String.ofList_toList]⟩
  · rintro ⟨rest, rfl⟩
    exact ⟨rest, by simp⟩

theorem splitUrl_https {url : String} (https : startsWith url "https://" = true) :
    ∃ authority pathWithQuery, splitUrl url = .ok (authority, pathWithQuery) := by
  obtain ⟨rest, rfl⟩ := startsWith_iff.mp https
  rw [splitUrl, stripPrefix_append]
  dsimp only
  split <;> exact ⟨_, _, rfl⟩

theorem splitUrl_host {host rest : String} (plain : '/' ∉ host.toList) :
    splitUrl ("https://" ++ host ++ "/" ++ rest) = .ok (host, "/" ++ rest) := by
  have stripped : stripPrefix "https://" ("https://" ++ host ++ "/" ++ rest) = some (host ++ "/" ++ rest) := by
    have begins : ("https://" ++ host ++ "/" ++ rest).toList = "https://".toList ++ (host ++ "/" ++ rest).toList := by
      simp
    rw [stripPrefix, begins, if_pos (List.isPrefixOf_iff_prefix.mpr (List.prefix_append _ _)), List.drop_left,
      String.ofList_toList]
  have chars : (host ++ "/" ++ rest).toList = host.toList ++ '/' :: rest.toList := by simp
  have slash : (host.toList ++ '/' :: rest.toList).findIdx? (· = '/') = some host.toList.length := by
    have absent : host.toList.findIdx? (· = '/') = none :=
      List.findIdx?_eq_none_iff.mpr fun c member => by
        have other : c ≠ '/' := fun same => plain (same ▸ member)
        simpa using other
    rw [List.findIdx?_append, absent, List.findIdx?_cons]
    simp
  rw [splitUrl, stripped]
  simp only [chars, slash, List.take_left, List.drop_left, String.ofList_toList]
  have tail : String.ofList ('/' :: rest.toList) = "/" ++ rest := by
    rw [← String.toList_inj]
    simp
  rw [tail]

end OneDriveDavfs
