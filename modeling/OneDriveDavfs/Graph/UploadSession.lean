import OneDriveDavfs.Auth.TokenText
import OneDriveDavfs.Graph.Requests
import OneDriveDavfs.Library.Blocks

/-! The upload session of a long file: `put_chunked` in `src/graph.rs`.

The requests of the session are compared with the blocks of the file, cut
without regard to the loop. An upload sends the blocks in order until one is
not accepted, and only an upload of all blocks returns.
-/

set_option autoImplicit false

namespace OneDriveDavfs

open Library Library.Blocks Library.Wire

namespace Graph

/-! ## What a session should send -/

def blockRequest (uploadUrl : String) (bytes : Bytes) (start : Nat) : HttpRequest where
  method := .put
  url := uploadUrl
  headers :=
    let part := block uploadChunkBytes bytes start
    [("content-range",
        "bytes " ++ toString start ++ "-" ++ toString (start + part.length - 1) ++ "/" ++ toString bytes.length),
      ("content-length", toString part.length),
      ("content-type", "application/octet-stream")]
  body := block uploadChunkBytes bytes start

def blockRequests (uploadUrl : String) (bytes : Bytes) (start : Nat) : List HttpRequest :=
  (starts uploadChunkBytes bytes.length start).map (blockRequest uploadUrl bytes)

def cancelRequest (uploadUrl : String) : HttpRequest := ⟨.delete, uploadUrl, [], []⟩

/-- The reply that a block needs: the last one creates the file. -/
def Accepted (last : Bool) (reply : Except Stop HttpResponse) : Prop :=
  ∃ response, reply = .ok response ∧
    if last then response.status = 200 ∨ response.status = 201 else response.status = 202

/-- What is sent and how it ends, given the replies: all requests and an item, or a beginning of them
that ends with the first one not accepted, what closes the session, and a failure. -/
inductive Uploads (answer : List OutgoingRequest → Except Stop HttpResponse)
    (before requests closing : List OutgoingRequest) :
    List OutgoingRequest → Except Stop (Option DeltaItem) → Prop where
  | complete {item : Option DeltaItem} :
      (∀ i < requests.length, Accepted (i + 1 = requests.length) (answer (before ++ requests.take (i + 1)))) →
      Uploads answer before requests closing (before ++ requests) (.ok item)
  | refused {count : Nat} {message : String} : count < requests.length →
      (∀ i < count, Accepted false (answer (before ++ requests.take (i + 1)))) →
      ¬ Accepted (count + 1 = requests.length) (answer (before ++ requests.take (count + 1))) →
      Uploads answer before requests closing (before ++ requests.take (count + 1) ++ closing) (.error (.failed message))

section Steps
variable {answer : List OutgoingRequest → Except Stop HttpResponse} {before requests closing sent : List OutgoingRequest}
  {request : OutgoingRequest} {outcome : Except Stop (Option DeltaItem)}

theorem Uploads.cons (accepted : Accepted (requests = []) (answer (before ++ [request])))
    (others : Uploads answer (before ++ [request]) requests closing sent outcome) :
    Uploads answer before (request :: requests) closing sent outcome := by
  -- what was sent up to a block counts one request more from here
  have shift : ∀ i, before ++ (request :: requests).take (i + 1) = (before ++ [request]) ++ requests.take i := by
    intro i
    rw [List.take_succ_cons, List.append_assoc, List.singleton_append]
  cases others with
  | complete all =>
    rw [List.append_assoc, List.singleton_append]
    refine .complete ?_
    rintro (_ | i) inside
    · rw [shift, List.take_zero, List.append_nil]
      simpa using accepted
    · rw [shift]
      simpa using all i (Nat.lt_of_succ_lt_succ inside)
  | refused inside earlier stopped =>
    rename_i count message
    have filled : requests ≠ [] := by
      rintro rfl
      cases inside
    rw [← shift]
    refine .refused (Nat.succ_lt_succ inside) ?_ ?_
    · rintro (_ | i) less
      · rw [shift, List.take_zero, List.append_nil]
        simpa [filled] using accepted
      · rw [shift]
        exact earlier i (Nat.lt_of_succ_lt_succ less)
    · rw [shift]
      simpa using stopped

theorem Uploads.stop {message : String} (refused : ¬ Accepted (requests = []) (answer (before ++ [request]))) :
    Uploads answer before (request :: requests) [] (before ++ [request]) (.error (.failed message)) := by
  have first : before ++ (request :: requests).take 1 ++ [] = before ++ [request] := by simp
  rw [← first]
  refine .refused (Nat.succ_pos _) (fun i less => absurd less (Nat.not_lt_zero i)) ?_
  simpa using refused

end Steps

/-! ## What the loop sends -/

theorem uploadChunkBytes_pos : 0 < uploadChunkBytes := by decide

theorem chunkRequest_eq (uploadUrl : String) {bytes : Bytes} {offset : Nat} (inside : offset < bytes.length) :
    chunkRequest uploadUrl bytes offset (min (offset + uploadChunkBytes) bytes.length) =
      blockRequest uploadUrl bytes offset := by
  have size : (block uploadChunkBytes bytes offset).length =
      min (offset + uploadChunkBytes) bytes.length - offset := by
    rw [block, List.length_take, List.length_drop]
    omega
  have part : slice bytes offset (min (offset + uploadChunkBytes) bytes.length) = block uploadChunkBytes bytes offset := by
    rw [slice, block, List.drop_take, List.take_eq_take_iff, List.length_drop]
    omega
  have positive := uploadChunkBytes_pos
  have last : offset + (block uploadChunkBytes bytes offset).length - 1 =
      min (offset + uploadChunkBytes) bytes.length - 1 := by
    rw [size]
    omega
  unfold chunkRequest blockRequest
  dsimp only
  rw [last, size, part]

theorem blockRequests_of_le (uploadUrl : String) {bytes : Bytes} {start : Nat} (past : bytes.length ≤ start) :
    blockRequests uploadUrl bytes start = [] := by
  rw [blockRequests, starts_of_le uploadChunkBytes_pos past, List.map_nil]

theorem blockRequests_of_lt (uploadUrl : String) {bytes : Bytes} {offset : Nat} (inside : offset < bytes.length) :
    blockRequests uploadUrl bytes offset =
      chunkRequest uploadUrl bytes offset (min (offset + uploadChunkBytes) bytes.length) ::
        blockRequests uploadUrl bytes (min (offset + uploadChunkBytes) bytes.length) := by
  have next : blockRequests uploadUrl bytes (offset + uploadChunkBytes) =
      blockRequests uploadUrl bytes (min (offset + uploadChunkBytes) bytes.length) := by
    by_cases last : bytes.length ≤ offset + uploadChunkBytes
    · rw [blockRequests_of_le _ last, blockRequests_of_le _ (Nat.min_eq_right last).ge]
    · rw [Nat.min_eq_left (Nat.le_of_not_le last)]
  rw [chunkRequest_eq uploadUrl inside, ← next, blockRequests, starts_of_lt uploadChunkBytes_pos inside, List.map_cons]
  rfl

theorem blockRequests_eq_nil_iff (uploadUrl : String) (bytes : Bytes) (start : Nat) :
    blockRequests uploadUrl bytes start = [] ↔ bytes.length ≤ start := by
  refine ⟨fun none => ?_, blockRequests_of_le uploadUrl⟩
  by_contra more
  rw [blockRequests_of_lt uploadUrl (Nat.lt_of_not_le more)] at none
  cases none

theorem flatMap_blockRequests (uploadUrl : String) (bytes : Bytes) :
    (blockRequests uploadUrl bytes 0).flatMap (fun request => request.body) = bytes := by
  rw [blockRequests, List.flatMap_map]
  exact flatMap_block uploadChunkBytes_pos bytes 0

section Session
variable {token : Auth.TokenJson} {json : GraphJson} {env : Environment} {config : Config} {path : String} {bytes : Bytes}
  {uploadUrl authority pathWithQuery : String}

def Replies (env : Environment) : Prop := ∀ requests, env.answer requests ≠ .error .cut

theorem uploads_nothing {answer : List OutgoingRequest → Except Stop HttpResponse} {before : List OutgoingRequest}
    {item : Option DeltaItem} : Uploads answer before [] [] before (.ok item) := by
  have all : Uploads answer before [] [] (before ++ []) (.ok item) :=
    .complete fun i inside => absurd inside (Nat.not_lt_zero i)
  rwa [List.append_nil] at all

theorem putChunks_uploads (split : splitUrl uploadUrl = .ok (authority, pathWithQuery))
    {fuel offset : Nat} (enough : bytes.length ≤ offset + fuel) (lastItem : Option DeltaItem) (world : World)
    (uncut : (putChunks json env uploadUrl bytes fuel offset lastItem).outcome world ≠ .error .cut) :
    Uploads env.answer world.sent
      ((blockRequests uploadUrl bytes offset).map fun request => request.outgoing authority pathWithQuery) []
      ((putChunks json env uploadUrl bytes fuel offset lastItem).after world).sent
      ((putChunks json env uploadUrl bytes fuel offset lastItem).outcome world) := by
  induction fuel generalizing offset lastItem world with
  | zero =>
    rw [blockRequests_of_le uploadUrl (Nat.add_zero offset ▸ enough)]
    exact uploads_nothing
  | succ fuel ih =>
    rw [putChunks] at uncut ⊢
    by_cases inside : offset < bytes.length
    · have positive := uploadChunkBytes_pos
      rw [if_pos inside] at uncut
      rw [if_pos inside, blockRequests_of_lt uploadUrl inside, List.map_cons]
      have further : bytes.length ≤ min (offset + uploadChunkBytes) bytes.length + fuel := by omega
      have bound : min (offset + uploadChunkBytes) bytes.length ≤ bytes.length := Nat.min_le_right _ _
      -- from here on only the bounds of the range matter
      generalize min (offset + uploadChunkBytes) bytes.length = stop at *
      have target : splitUrl (chunkRequest uploadUrl bytes offset stop).url = .ok (authority, pathWithQuery) := split
      have replied := outcome_send env world target
      have left := after_send env world target
      cases reply : env.answer (world.sent ++ [(chunkRequest uploadUrl bytes offset stop).outgoing authority pathWithQuery]) with
      | error e =>
        cases e with
        | cut => exact absurd (Effect.outcome_bind_error _ (replied.trans reply)) uncut
        | failed message =>
          rw [Effect.outcome_bind_error _ (replied.trans reply), Effect.after_bind_error _ (replied.trans reply), left]
          refine Uploads.stop ?_
          rintro ⟨response, same, _⟩
          rw [reply] at same
          cases same
      | ok response =>
        rw [Effect.outcome_bind_ok _ (replied.trans reply), left] at uncut
        rw [Effect.outcome_bind_ok _ (replied.trans reply), Effect.after_bind_ok _ (replied.trans reply), left]
        have last : stop = bytes.length ↔ bytes.length ≤ stop := ⟨Eq.ge, Nat.le_antisymm bound⟩
        -- the block is accepted exactly where the loop goes on
        have verdict : Accepted ((blockRequests uploadUrl bytes stop).map
            (fun request => request.outgoing authority pathWithQuery) = [])
            (env.answer (world.sent ++ [(chunkRequest uploadUrl bytes offset stop).outgoing authority pathWithQuery])) ↔
              if stop = bytes.length then response.status = 200 ∨ response.status = 201 else response.status = 202 := by
          simp [Accepted, reply, blockRequests_eq_nil_iff, last]
        dsimp only at uncut ⊢
        by_cases ok : if stop = bytes.length then response.status = 200 ∨ response.status = 201 else response.status = 202
        · rw [if_pos ok] at uncut ⊢
          have others := ih further (if stop = bytes.length then answeredItem json response.body else lastItem)
            { world with sent := world.sent ++ [(chunkRequest uploadUrl bytes offset stop).outgoing authority pathWithQuery] }
            uncut
          exact Uploads.cons (verdict.mpr ok) others
        · rw [if_neg ok]
          exact Uploads.stop fun accepted => ok (verdict.mp accepted)
    · rw [if_neg inside, blockRequests_of_le uploadUrl (Nat.le_of_not_lt inside)]
      exact uploads_nothing

theorem send_ne_cut (replies : Replies env) (request : HttpRequest) (world : World) :
    (send env request).outcome world ≠ .error .cut := by
  cases split : splitUrl request.url with
  | error message =>
    rw [send, split]
    exact fun impossible => by cases impossible
  | ok parts =>
    rw [outcome_send env world split]
    exact replies _

theorem putChunks_ne_cut (replies : Replies env) (fuel offset : Nat) (lastItem : Option DeltaItem) (world : World) :
    (putChunks json env uploadUrl bytes fuel offset lastItem).outcome world ≠ .error .cut := by
  induction fuel generalizing offset lastItem world with
  | zero => exact fun impossible => by cases impossible
  | succ fuel ih =>
    rw [putChunks]
    by_cases inside : offset < bytes.length
    · rw [if_pos inside]
      generalize min (offset + uploadChunkBytes) bytes.length = stop
      cases ended : (send env (chunkRequest uploadUrl bytes offset stop)).outcome world with
      | error reason =>
        rw [Effect.outcome_bind_error _ ended]
        rintro ⟨⟩
        exact send_ne_cut replies _ _ ended
      | ok response =>
        rw [Effect.outcome_bind_ok _ ended]
        dsimp only
        by_cases ok : if stop = bytes.length then response.status = 200 ∨ response.status = 201 else response.status = 202
        · rw [if_pos ok]
          exact ih _ _ _
        · rw [if_neg ok]
          exact fun impossible => by cases impossible
    · rw [if_neg inside]
      exact fun impossible => by cases impossible

theorem Uploads.close_ok {answer : List OutgoingRequest → Except Stop HttpResponse}
    {before requests sent : List OutgoingRequest} (closing : List OutgoingRequest) {item : Option DeltaItem}
    (run : Uploads answer before requests [] sent (.ok item)) : Uploads answer before requests closing sent (.ok item) := by
  cases run with
  | complete all => exact .complete all

theorem Uploads.close_failed {answer : List OutgoingRequest → Except Stop HttpResponse}
    {before requests sent : List OutgoingRequest} (closing : List OutgoingRequest) {stop : Stop}
    (run : Uploads answer before requests [] sent (.error stop)) :
    ∃ message, stop = .failed message ∧ Uploads answer before requests closing (sent ++ closing) (.error stop) := by
  cases run with
  | refused inside earlier refused =>
    rw [List.append_nil]
    exact ⟨_, rfl, .refused inside earlier refused⟩

def openSession (token : Auth.TokenJson) (env : Environment) (config : Config) (path : String) : Daemon HttpResponse :=
  graphRequest token env config .post (v1 (itemPathSegment config.driveBase path ++ "/createUploadSession"))
    (some "application/json") (utf8 uploadSessionBody)

structure Opened (token : Auth.TokenJson) (json : GraphJson) (env : Environment) (config : Config) (path : String)
    (world : World) (uploadUrl : String) : Prop where
  created : ∃ response url, (openSession token env config path).outcome world = .ok response ∧
    (response.status = 200 ∨ response.status = 201) ∧ json.uploadUrl response.body = .ok url ∧ uploadUrl = trim url
  https : isHttpsUrl uploadUrl = true

def upload (json : GraphJson) (env : Environment) (uploadUrl : String) (bytes : Bytes) : Daemon (Option DeltaItem) := do
  match ← attempt (putChunks json env uploadUrl bytes bytes.length 0 none) with
  | .ok item => return item
  | .error message => do
    let _ ← attempt (send env (cancelRequest uploadUrl))
    throw (.failed message)

theorem putChunked_eq {world : World} (opened : Opened token json env config path world uploadUrl) :
    (putChunked token json env config path bytes) world =
      (upload json env uploadUrl bytes) ((openSession token env config path).after world) := by
  obtain ⟨⟨response, url, answered, status, parsed, rfl⟩, https⟩ := opened
  have created : ¬ (response.status ≠ 200 ∧ response.status ≠ 201) := by
    rintro ⟨first, second⟩
    exact status.elim first second
  unfold putChunked
  change (openSession token env config path >>= _) world = _
  rw [Effect.bind_apply, Effect.apply_eq answered]
  dsimp only
  rw [if_neg created, parsed]
  dsimp only
  rw [if_pos https]
  rfl

theorem attempted_send (replies : Replies env) {request : HttpRequest}
    (split : splitUrl request.url = .ok (authority, pathWithQuery)) (world : World) :
    ∃ reply, (attempt (send env request)).outcome world = .ok reply := by
  have replied := outcome_send env world split
  cases reply : env.answer (world.sent ++ [request.outgoing authority pathWithQuery]) with
  | ok response => exact ⟨_, outcome_attempt_ok (replied.trans reply)⟩
  | error stop =>
    cases stop with
    | cut => exact absurd reply (replies _)
    | failed message => exact ⟨_, outcome_attempt_failed (replied.trans reply)⟩

theorem upload_uploads (replies : Replies env) (split : splitUrl uploadUrl = .ok (authority, pathWithQuery))
    (world : World) :
    Uploads env.answer world.sent
      ((blockRequests uploadUrl bytes 0).map fun request => request.outgoing authority pathWithQuery)
      [(cancelRequest uploadUrl).outgoing authority pathWithQuery]
      ((upload json env uploadUrl bytes).after world).sent ((upload json env uploadUrl bytes).outcome world) := by
  have run := @putChunks_uploads json env bytes uploadUrl authority pathWithQuery split bytes.length 0
    (Nat.zero_add _).ge none world (putChunks_ne_cut replies _ _ _ _)
  have target : splitUrl (cancelRequest uploadUrl).url = .ok (authority, pathWithQuery) := split
  unfold upload
  cases ended : (putChunks json env uploadUrl bytes bytes.length 0 none).outcome world with
  | ok item =>
    rw [ended] at run
    rw [Effect.outcome_bind_ok _ (outcome_attempt_ok ended), Effect.after_bind_ok _ (outcome_attempt_ok ended),
      after_attempt]
    exact run.close_ok _
  | error stop =>
    rw [ended] at run
    -- whatever the `DELETE` is answered with, the failure is returned
    obtain ⟨message, rfl, closed⟩ := run.close_failed [(cancelRequest uploadUrl).outgoing authority pathWithQuery]
    rw [Effect.outcome_bind_ok _ (outcome_attempt_failed ended), Effect.after_bind_ok _ (outcome_attempt_failed ended),
      after_attempt]
    dsimp only
    have left := after_send env ((putChunks json env uploadUrl bytes bytes.length 0 none).after world) target
    obtain ⟨reply, attempted⟩ := attempted_send replies target
      ((putChunks json env uploadUrl bytes bytes.length 0 none).after world)
    rw [Effect.outcome_bind_ok _ attempted, Effect.after_bind_ok _ attempted, after_attempt, left]
    exact closed

/-- An upload session tiles the file: the blocks are sent in order, and only an upload of all of them returns. -/
theorem putChunked_uploads (replies : Replies env) {world : World}
    (opened : Opened token json env config path world uploadUrl) :
    320 * 1024 ∣ uploadChunkBytes ∧
    (blockRequests uploadUrl bytes 0).flatMap (fun request => request.body) = bytes ∧
    (∀ request ∈ blockRequests uploadUrl bytes 0, 0 < request.body.length ∧ request.body.length ≤ uploadChunkBytes) ∧
    (∀ request ∈ (blockRequests uploadUrl bytes 0).dropLast, request.body.length = uploadChunkBytes) ∧
    ∃ authority pathWithQuery, splitUrl uploadUrl = .ok (authority, pathWithQuery) ∧
      Uploads env.answer ((openSession token env config path).after world).sent
        ((blockRequests uploadUrl bytes 0).map fun request => request.outgoing authority pathWithQuery)
        [(cancelRequest uploadUrl).outgoing authority pathWithQuery]
        ((putChunked token json env config path bytes).after world).sent
        ((putChunked token json env config path bytes).outcome world) := by
  refine ⟨by decide, flatMap_blockRequests uploadUrl bytes, ?_, ?_, ?_⟩
  · intro request member
    obtain ⟨start, given, rfl⟩ := List.mem_map.mp member
    exact length_block uploadChunkBytes_pos given
  · intro request member
    rw [blockRequests, ← List.map_dropLast] at member
    obtain ⟨start, given, rfl⟩ := List.mem_map.mp member
    exact length_block_dropLast uploadChunkBytes_pos given
  · obtain ⟨authority, pathWithQuery, split⟩ := splitUrl_https opened.https
    refine ⟨authority, pathWithQuery, split, ?_⟩
    unfold Effect.after Effect.outcome
    rw [putChunked_eq opened]
    exact upload_uploads replies split _

end Session

/-! ## A session that is cut off -/

def sessionJson : GraphJson where
  driveItem _ := .error "EOF while parsing a value"
  driveItemPage _ := .error "EOF while parsing a value"
  deltaPage _ := .error "EOF while parsing a value"
  errorCode _ := none
  uploadUrl _ := .ok "https://up.example/session"

/-- A refresh and a session; the second block is answered with 500. -/
def cutOff : Environment where
  answer requests :=
    match requests.length with
    | 1 => .ok ⟨200, [], utf8 "\x7b\"access_token\":\"a\",\"refresh_token\":\"r2\",\"expires_in\":3600\x7d"⟩
    | 2 => .ok ⟨200, [], utf8 "\x7b\"uploadUrl\":\"https://up.example/session\"\x7d"⟩
    | 3 => .ok ⟨202, [], []⟩
    | _ => .ok ⟨500, [], []⟩
  clock _ := 1000
  disk _ := Auth.soundDisk

theorem putChunked_uploads_cutOff :
    ∃ authority pathWithQuery, splitUrl "https://up.example/session" = .ok (authority, pathWithQuery) ∧
      Uploads cutOff.answer ((openSession Auth.tokenText cutOff Auth.someConfig "/a").after Auth.staleWorld).sent
        ((blockRequests "https://up.example/session" (List.replicate (11 * 1024 * 1024) 0) 0).map
          fun request => request.outgoing authority pathWithQuery)
        [(cancelRequest "https://up.example/session").outgoing authority pathWithQuery]
        ((putChunked Auth.tokenText sessionJson cutOff Auth.someConfig "/a"
          (List.replicate (11 * 1024 * 1024) 0)).after Auth.staleWorld).sent
        ((putChunked Auth.tokenText sessionJson cutOff Auth.someConfig "/a"
          (List.replicate (11 * 1024 * 1024) 0)).outcome Auth.staleWorld) := by
  have replies : Replies cutOff := by
    intro requests
    unfold cutOff
    dsimp only
    split <;> exact fun impossible => nomatch impossible
  have opened : Opened Auth.tokenText sessionJson cutOff Auth.someConfig "/a" Auth.staleWorld
      "https://up.example/session" := by
    rw [Auth.tokenText_eq_asciiTokens]
    exact ⟨⟨⟨200, [], utf8 "\x7b\"uploadUrl\":\"https://up.example/session\"\x7d"⟩, "https://up.example/session",
      by decide +kernel, .inl rfl, rfl, by decide +kernel⟩, by decide⟩
  obtain ⟨_, _, _, _, run⟩ := @putChunked_uploads Auth.tokenText sessionJson cutOff Auth.someConfig "/a"
    (List.replicate (11 * 1024 * 1024) 0) _ replies _ opened
  exact run

end Graph

end OneDriveDavfs
