import OneDriveDavfs.Guest.Uploads

/-! What a success stands for.

A `DELETE`, a `MKCOL` or a `MOVE` is answered with a success only when Graph
has granted it: its own request was the last thing that was sent, after the
renewal of the token at most, and the reply to it is one that grants it.
-/

set_option autoImplicit false

namespace OneDriveDavfs

open Library Library.Wire Library.Effect Snapshot

/-- What Graph has to grant for a request that changes the drive without a body. -/
def IncomingRequest.order (config : GuestConfig) (request : IncomingRequest) : Option Order :=
  match request.path, Guest.destinationOf request.headers with
  | .ok path, .ok destination =>
    match request.method, destination with
    | .delete, _ => some ⟨.delete, Graph.itemPathSegment config.driveBase path, [], [204, 404]⟩
    | .other "MKCOL", _ =>
      some ⟨.post, Graph.itemPathSegment config.driveBase (Dav.parentOf path) ++ "/children",
        utf8 (Graph.folderBody (Verbs.lastName path)), [201]⟩
    | .other "MOVE", some destination =>
      some ⟨.patch, Graph.itemPathSegment config.driveBase path, utf8 (Graph.moveBody config.driveBase destination), [200]⟩
    | _, _ => none
  | _, _ => none

namespace Guest

section Requests
variable {ext : Externals} {host : Surroundings}

/-- A `DELETE`, a `MKCOL` or a `MOVE` is answered with a success only when Graph has granted its
order, as the last thing that was asked, and nothing else was but the renewal of the token. -/
theorem success_was_granted (ext : Externals) (host : Surroundings) (process : Process) (request : IncomingRequest)
    (changes : request.method ∈ [.delete, .other "MKCOL", .other "MOVE"]) {world : World} {response : DavResponse}
    (answered : (handleRequest ext host process request).outcome world = .ok response) (good : response.status < 300) :
    ∃ config order, GuestConfig.load process.environ process.preopens = .ok config ∧
      request.order config = some order ∧
      Granted config.toConfig host.toEnvironment order world ((handleRequest ext host process request).after world) := by
  have notPost : request.method ≠ .post := by rintro post; simp [post] at changes
  have notGet : request.method ≠ .get := by rintro get; simp [get] at changes
  rcases handleRequest_dispatch ext host process notPost notGet with
    ⟨refusal, same, bad⟩ | ⟨config, path, destination, loaded, named, going, same⟩
  · rw [same] at answered
    cases answered
    exact absurd (UInt16.lt_of_lt_of_le good (by decide)) (UInt16.not_lt.mpr bad)
  rw [same] at answered ⊢
  refine ⟨config, ?_⟩
  unfold IncomingRequest.order
  rw [named, going]
  unfold dispatch at answered ⊢
  simp only [List.mem_cons, List.not_mem_nil, or_false] at changes
  rcases changes with method | method | method
  · rw [method] at answered ⊢
    exact ⟨_, loaded, rfl, writing_returns (Graph.granted_delete path) .of_silent _ _ world response answered good⟩
  · rw [method] at answered ⊢
    exact ⟨_, loaded, rfl, writing_returns (Graph.granted_createFolder _ _) .of_silent _ _ world response answered good⟩
  · rw [method] at answered ⊢
    cases destination with
    | none =>
      cases answered
      exact absurd good (by decide : ¬ (400 : UInt16) < 300)
    | some destination =>
      exact ⟨_, loaded, rfl, writing_returns (Graph.granted_moveOrRename path destination) .of_silent _ _ world response answered good⟩

def granting : Surroundings := { offline with answer := fun _ => .ok ⟨204, [], []⟩ }

theorem success_was_granted_deletion :
    ∃ config order, GuestConfig.load openProcess.environ openProcess.preopens = .ok config ∧
      deletion.order config = some order ∧
      Granted config.toConfig granting.toEnvironment order tokenWorld
        ((handleRequest plainExternals granting openProcess deletion).after tokenWorld) := by
  have evaluated : (match (handleRequest plainExternals granting openProcess deletion).outcome tokenWorld with
      | .ok response => decide (response = .empty 204)
      | .error _ => false) = true := by
    decide +kernel
  cases answered : (handleRequest plainExternals granting openProcess deletion).outcome tokenWorld with
  | error stop =>
    rw [answered] at evaluated
    exact absurd evaluated Bool.false_ne_true
  | ok response =>
    rw [answered] at evaluated
    have gone : response = .empty 204 := of_decide_eq_true evaluated
    exact success_was_granted plainExternals granting openProcess deletion (by decide) answered (by rw [gone]; decide)

end Requests

end Guest

end OneDriveDavfs
