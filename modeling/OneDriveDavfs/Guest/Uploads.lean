import OneDriveDavfs.Graph.Orders
import OneDriveDavfs.Guest.Access

/-! What becomes of the body of a `PUT`.

A body that does not arrive whole reaches nobody. One that is acknowledged was
accepted byte for byte, in one request or in the parts of an upload session.
-/

set_option autoImplicit false

namespace OneDriveDavfs

open Library Library.Wire Library.Effect Snapshot

namespace Guest

section Put
variable {ext : Externals} {host : Surroundings} {config : GuestConfig}

theorem silent_writeThrough (write : Dav.LocalWrite) : Along Silent (Verbs.writeThrough ext host config write) := by
  have loads (name : String) : Along Silent (load ext name) := fun world => by rw [after_load]; exact Std.Refl.refl world
  have saves (idx : Index) : Along Silent (save ext host indexFile idx) := by
    refine .bind (fun world => ?_) fun now => .bind (fun world => ?_) fun bytes => fun world => ?_
    · rw [after_nowSecs]
      rfl
    · rw [after_ofResult]
      rfl
    · rw [after_writeAtomic]
      rfl
  refine .ite (.bind (Graph.along_attempt (loads _)) fun found => ?_) (.pure _)
  split
  · exact .ite (.bind (Graph.along_attempt (saves _)) fun _ => .pure _) (.pure _)
  · exact .pure _

/-- What a call has been granted when it returns, it has been granted when its verb is answered with a success. -/
theorem writing_returns {α : Type} {ask : Daemon α} {R : World → World → Prop} (asks : Returning (fun s _ t => R s t) ask)
    (silent : ∀ {s t u}, R s t → Silent t u → R s u) (write : α → Dav.LocalWrite) (status : UInt16) :
    Returning (fun s response t => response.status < 300 → R s t) (Verbs.writing ext host config ask write status) := by
  refine .bind (returning_attempt asks) fun world ended => ?_
  split
  · refine .bind (.of_along (silent_writeThrough _) fun _ _ _ unsent => unsent) fun between _ =>
      .pure fun left unsent granted _ => ?_
    exact silent (granted _ rfl) unsent
  · exact .pure fun _ _ good => absurd good (by decide : ¬ (502 : UInt16) < 300)

theorem put_created (path : String) (bytes : Bytes) :
    Returning (fun s response t => response.status < 300 →
        Graph.Uploaded ext.graph config.toConfig host.toEnvironment path bytes s t)
      (Verbs.put ext host config path bytes) :=
  .ite (fun _ => .pure fun _ good => absurd good (by decide : ¬ (413 : UInt16) < 300)) fun _ =>
    writing_returns (Graph.uploaded_putContent path bytes) .of_silent _ _

theorem handleRequest_dispatch (ext : Externals) (host : Surroundings) (process : Process) {request : IncomingRequest}
    (notPost : request.method ≠ .post) (notGet : request.method ≠ .get) :
    (∃ response, handleRequest ext host process request = pure response ∧ 400 ≤ response.status) ∨
      ∃ config path destination, GuestConfig.load process.environ process.preopens = .ok config ∧
        request.path = .ok path ∧ destinationOf request.headers = .ok destination ∧
        handleRequest ext host process request = dispatch ext host config request path destination := by
  unfold handleRequest
  cases loaded : GuestConfig.load process.environ process.preopens with
  | error e => exact .inl ⟨_, rfl, (by decide : (400 : UInt16) ≤ 500)⟩
  | ok config =>
    dsimp only
    by_cases passes : BasicAuth.checkBasicAuth config.basicAuthSecret request.headers = true
    case neg =>
      rw [if_neg passes]
      exact .inl ⟨_, rfl, by decide⟩
    rw [if_pos passes]
    unfold serve
    dsimp only
    rw [if_neg notPost, if_neg fun plugged => notGet plugged.1]
    dsimp only
    unfold dav
    cases named : sanitizePath (rawPath (request.pathWithQuery.getD "")) with
    | error e => exact .inl ⟨_, rfl, (by decide : (400 : UInt16) ≤ 400)⟩
    | ok path =>
      dsimp only
      cases going : destinationOf request.headers with
      | error e => exact .inl ⟨_, rfl, (by decide : (400 : UInt16) ≤ 400)⟩
      | ok destination => exact .inr ⟨config, path, destination, rfl, named, rfl, rfl⟩

theorem handleRequest_put (ext : Externals) (host : Surroundings) (process : Process) {request : IncomingRequest}
    (isPut : request.method = .put) :
    (∃ response, handleRequest ext host process request = pure response ∧ 400 ≤ response.status) ∨
      ∃ config path, GuestConfig.load process.environ process.preopens = .ok config ∧ request.path = .ok path ∧
        handleRequest ext host process request = receive ext host config path request.body := by
  have notPost : request.method ≠ .post := by simp [isPut]
  have notGet : request.method ≠ .get := by simp [isPut]
  rcases handleRequest_dispatch ext host process notPost notGet with
    refused | ⟨config, path, destination, loaded, named, _, same⟩
  · exact .inl refused
  · refine .inr ⟨config, path, loaded, named, ?_⟩
    rw [same]
    unfold dispatch
    rw [isPut]

/-- A body that does not arrive whole, or is too long, changes nothing and asks Graph nothing; and a
`PUT` is answered with a success only after Graph has accepted exactly its body at its address, whole
or part by part. -/
theorem put_all_or_nothing (ext : Externals) (host : Surroundings) (process : Process) (request : IncomingRequest)
    (isPut : request.method = .put) (world : World) :
    (¬ request.body.Arrives Graph.maxUploadBytes →
        (handleRequest ext host process request).after world = world ∧
          ∀ response, (handleRequest ext host process request).outcome world = .ok response → 400 ≤ response.status) ∧
      ∀ response, (handleRequest ext host process request).outcome world = .ok response → response.status < 300 →
        request.body.Arrives Graph.maxUploadBytes ∧
          ∃ config path, GuestConfig.load process.environ process.preopens = .ok config ∧ request.path = .ok path ∧
            Graph.Uploaded ext.graph config.toConfig host.toEnvironment path request.body.bytes world
              ((handleRequest ext host process request).after world) := by
  rcases handleRequest_put ext host process isPut with ⟨answer, same, bad⟩ | ⟨config, path, loaded, named, same⟩
  · rw [same]
    refine ⟨fun _ => ⟨rfl, fun response returned => ?_⟩, fun response returned good => ?_⟩
    · cases returned
      exact bad
    · cases returned
      exact absurd (UInt16.lt_of_lt_of_le good (by decide)) (UInt16.not_lt.mpr bad)
  rw [same]
  unfold receive
  cases arrived : request.body.readRequestBody Graph.maxUploadBytes with
  | none =>
    exact ⟨fun _ => ⟨rfl, fun response returned => by cases returned⟩, fun response returned => by cases returned⟩
  | some result =>
    cases result with
    | error e =>
      cases e with
      | tooLarge =>
        refine ⟨fun _ => ⟨rfl, fun response returned => ?_⟩, fun response returned good => ?_⟩
        · cases returned
          exact (by decide : (400 : UInt16) ≤ 413)
        · cases returned
          exact absurd good (by decide : ¬ (413 : UInt16) < 300)
      | read message =>
        refine ⟨fun _ => ⟨rfl, fun response returned => ?_⟩, fun response returned good => ?_⟩
        · cases returned
          exact (by decide : (400 : UInt16) ≤ 400)
        · cases returned
          exact absurd good (by decide : ¬ (400 : UInt16) < 300)
    | ok bytes =>
      obtain ⟨arrives, whole⟩ := IncomingBody.readRequestBody_ok_iff.mp arrived
      refine ⟨fun missing => absurd arrives missing, fun response returned good => ⟨arrives, config, path, loaded, named, ?_⟩⟩
      rw [← whole]
      exact put_created path bytes world response returned good

def upload : IncomingRequest := ⟨.put, some "/a", fun _ => [], ⟨true, true, [[79], [75]], .closed⟩⟩

def torn : IncomingRequest := { upload with body := ⟨true, true, [[79]], .failed "connection reset"⟩ }

def accepting : Surroundings := { offline with answer := fun _ => .ok ⟨201, [], []⟩ }

theorem put_all_or_nothing_upload :
    (handleRequest plainExternals accepting openProcess torn).after tokenWorld = tokenWorld ∧
      ∃ (config : GuestConfig) (path : String), upload.path = .ok path ∧
        Graph.Uploaded plainExternals.graph config.toConfig accepting.toEnvironment path [79, 75] tokenWorld
          ((handleRequest plainExternals accepting openProcess upload).after tokenWorld) := by
  have evaluated : (match (handleRequest plainExternals accepting openProcess upload).outcome tokenWorld with
      | .ok response => decide (response.status < 300)
      | .error _ => false) = true := by
    decide +kernel
  refine ⟨((put_all_or_nothing plainExternals accepting openProcess torn rfl tokenWorld).1 fun arrives => by
    cases arrives.closed).1, ?_⟩
  cases answered : (handleRequest plainExternals accepting openProcess upload).outcome tokenWorld with
  | error stop =>
    rw [answered] at evaluated
    cases evaluated
  | ok response =>
    rw [answered] at evaluated
    obtain ⟨_, config, path, _, named, uploaded⟩ := (put_all_or_nothing plainExternals accepting openProcess upload rfl
      tokenWorld).2 response answered (of_decide_eq_true evaluated)
    exact ⟨config, path, named, uploaded⟩

end Put

end Guest

end OneDriveDavfs
