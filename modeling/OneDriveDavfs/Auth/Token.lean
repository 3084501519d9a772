import OneDriveDavfs.Http.Client
import OneDriveDavfs.Library.Percent

/-! The token file and its renewal: `src/auth.rs`.

The JSON codecs of the two records are parameters. What the proofs use of them
is that a written token file is read back as it was, and that a proper
beginning of a written token file is not one.
-/

set_option autoImplicit false

namespace OneDriveDavfs

open Library Library.Wire

structure Config where
  clientId : Option String
  tenantId : String
  driveBase : String
  deriving DecidableEq, Repr

namespace Auth

structure TokenFile where
  refreshToken : String
  accessToken : Option String
  expiresAt : UInt64
  deriving DecidableEq, Repr

structure TokenResponse where
  accessToken : String
  refreshToken : Option String
  expiresIn : UInt64
  deriving DecidableEq, Repr

/-- `serde_json` at the two records. -/
structure TokenJson where
  toVecPretty : TokenFile → Except String Bytes
  fromSlice : Bytes → Except String TokenFile
  responseFromSlice : Bytes → Except String TokenResponse

def TokenJson.RoundTrips (json : TokenJson) : Prop :=
  ∀ token, ∃ bytes, json.toVecPretty token = .ok bytes ∧ json.fromSlice bytes = .ok token

/-- An object that was cut before its closing brace does not parse. -/
def TokenJson.CutFails (json : TokenJson) : Prop :=
  ∀ token bytes, json.toVecPretty token = .ok bytes →
    ∀ count < bytes.length, ∀ read, json.fromSlice (bytes.take count) ≠ .ok read

def tokenFile : String := "token.json"

def expirySafetyMarginSecs : UInt64 := 60

def saturatingSub (a b : UInt64) : UInt64 := if a < b then 0 else a - b

def urlencode (s : String) : String :=
  latin ((utf8 s).flatMap fun byte => if byte = 0x20 then [0x2B] else Percent.encodeByte Percent.unreserved byte)

variable (json : TokenJson) (env : Environment) (config : Config)

def load : Daemon TokenFile := do
  match ← readFile tokenFile with
  | none => throw (.failed ("no " ++ tokenFile ++ " found in state dir; run tools/device-code-login.sh first"))
  | some bytes =>
    match json.fromSlice bytes with
    | .ok token => return token
    | .error e => throw (.failed ("failed to parse " ++ tokenFile ++ ": " ++ e))

def save (token : TokenFile) : Daemon Unit :=
  match json.toVecPretty token with
  | .error e => throw (.failed ("failed to serialize " ++ tokenFile ++ ": " ++ e))
  | .ok bytes => writeFile env tokenFile bytes

def refreshRequest (clientId refreshToken : String) : HttpRequest where
  method := .post
  url := "https://login.microsoftonline.com/" ++ config.tenantId ++ "/oauth2/v2.0/token"
  headers := [("content-type", "application/x-www-form-urlencoded")]
  body := utf8 ("client_id=" ++ urlencode clientId ++ "&grant_type=refresh_token&refresh_token=" ++
    urlencode refreshToken ++ "&scope=" ++ urlencode "offline_access Files.ReadWrite.All User.Read")

/-- The token file for an accepted answer. The sum wraps, as in the release build. -/
def renewed (refreshToken : String) (parsed : TokenResponse) (now : UInt64) : TokenFile where
  refreshToken := parsed.refreshToken.getD refreshToken
  accessToken := some parsed.accessToken
  expiresAt := now + saturatingSub parsed.expiresIn expirySafetyMarginSecs

def refresh (refreshToken : String) : Daemon TokenFile :=
  match config.clientId with
  | none => throw (.failed "missing required env var ONEDRIVE_CLIENT_ID for token refresh")
  | some clientId => do
    let response ← send env (refreshRequest config clientId refreshToken)
    if response.status ≠ 200 then
      throw (.failed ("token refresh failed with status " ++ toString response.status ++ ": " ++ lossy response.body))
    else
      match json.responseFromSlice response.body with
      | .error e => throw (.failed ("failed to parse token response: " ++ e))
      | .ok parsed => do
        let now ← nowSecs env
        return renewed refreshToken parsed now

def renew (token : TokenFile) : Daemon String := do
  let token ← refresh json env config token.refreshToken
  save json env token
  match token.accessToken with
  | some accessToken => return "Bearer " ++ accessToken
  -- the `expect` of the source: `refresh` always sets it
  | none => throw .cut

def bearerToken : Daemon String := do
  let token ← load json
  match token.accessToken with
  | some accessToken => do
    let now ← nowSecs env
    if now < token.expiresAt then return "Bearer " ++ accessToken else renew json env config token
  | none => renew json env config token

/-! ## What a call does to the token file -/

def stored (world : World) : Option TokenFile :=
  (world.files tokenFile).bind fun bytes => (json.fromSlice bytes).toOption

/-- The stored access token cannot be used at the time of the call. -/
def Due (world : World) (old : TokenFile) : Prop :=
  old.accessToken.isSome = true → ¬ env.clock world.readings < old.expiresAt

def tokenPath : String := "/" ++ (config.tenantId ++ "/oauth2/v2.0/token")

def Accepts (world : World) (refreshToken : String) (parsed : TokenResponse) : Prop :=
  ∃ clientId response, config.clientId = some clientId ∧
    env.answer (world.sent ++
      [(refreshRequest config clientId refreshToken).outgoing "login.microsoftonline.com" (tokenPath config)]) =
        .ok response ∧
    response.status = 200 ∧ json.responseFromSlice response.body = .ok parsed

/-- The reading of the clock that the new expiry counts from. -/
def expiryReading (world : World) (old : TokenFile) : Nat :=
  if old.accessToken.isSome then world.readings + 1 else world.readings

def renewal (world : World) (old : TokenFile) (parsed : TokenResponse) : TokenFile :=
  renewed old.refreshToken parsed (env.clock (expiryReading world old))

/-- A refresh is due and accepted, and the disk stops in the middle of the new token file. -/
def Torn (world : World) : Prop :=
  ∃ old parsed bytes, stored json world = some old ∧ Due env world old ∧
    Accepts json env config world old.refreshToken parsed ∧
    json.toVecPretty (renewal env world old parsed) = .ok bytes ∧
    StateFile.Tears (env.disk world.writes) tokenFile bytes

/-- The call leaves a token file with the refresh token that was there or with the one just issued. -/
def KeepsToken (world : World) : Prop :=
  ∃ old token, stored json world = some old ∧
    stored json ((bearerToken json env config).after world) = some token ∧
    (token.refreshToken = old.refreshToken ∨
      ∃ parsed, Accepts json env config world old.refreshToken parsed ∧
        parsed.refreshToken = some token.refreshToken)

/-- Calls of `bearer_token`, each from the world it finds; whatever happens in between leaves the
token file alone. -/
inductive Calls (start : World) : List World → World → Prop where
  | start : Calls start [] start
  | call {worlds : List World} {last found : World} : Calls start worlds last →
      found.files tokenFile = last.files tokenFile →
      Calls start (worlds ++ [found]) ((bearerToken json env config).after found)

variable {json} {env} {config} {world : World} {old : TokenFile} {refreshToken : String}

theorem splitUrl_refresh (clientId : String) :
    splitUrl (refreshRequest config clientId refreshToken).url =
      .ok ("login.microsoftonline.com", tokenPath config) := by
  have url : (refreshRequest config clientId refreshToken).url =
      "https://" ++ "login.microsoftonline.com" ++ "/" ++ (config.tenantId ++ "/oauth2/v2.0/token") := by
    simp only [refreshRequest, ← String.append_assoc]
    rfl
  rw [url, splitUrl_host (by decide)]
  rfl

theorem refresh_cases (world : World) (refreshToken : String) :
    ((refresh json env config refreshToken).after world).files = world.files ∧
    ((refresh json env config refreshToken).after world).writes = world.writes ∧
    ((∃ parsed, Accepts json env config world refreshToken parsed ∧
        (refresh json env config refreshToken).outcome world =
          .ok (renewed refreshToken parsed (env.clock world.readings))) ∨
      (∀ parsed, ¬ Accepts json env config world refreshToken parsed) ∧
        ∃ stop, (refresh json env config refreshToken).outcome world = .error stop) := by
  unfold refresh
  cases client : config.clientId with
  -- no client id is configured, so no request is sent
  | none =>
    refine ⟨rfl, rfl, .inr ⟨?_, _, rfl⟩⟩
    rintro parsed ⟨clientId, _, same, _⟩
    rw [client] at same
    cases same
  | some clientId =>
    dsimp only
    have split := @splitUrl_refresh config refreshToken clientId
    have sent := outcome_send env world split
    have world' := after_send env world split
    -- an accepted answer is the one that comes back, so every other answer refutes `Accepts`
    have only : ∀ parsed, Accepts json env config world refreshToken parsed → ∃ response,
        (send env (refreshRequest config clientId refreshToken)).outcome world = .ok response ∧
          response.status = 200 ∧ json.responseFromSlice response.body = .ok parsed := by
      rintro parsed ⟨clientId', response, same, answer, accepted⟩
      rw [client] at same
      cases same
      exact ⟨response, sent.trans answer, accepted⟩
    cases answered : (send env (refreshRequest config clientId refreshToken)).outcome world with
    | error stop =>
      rw [Effect.outcome_bind_error _ answered, Effect.after_bind_error _ answered, world']
      refine ⟨rfl, rfl, .inr ⟨fun parsed accepts => ?_, stop, rfl⟩⟩
      obtain ⟨response, returned, _⟩ := only parsed accepts
      rw [answered] at returned
      cases returned
    | ok response =>
      rw [Effect.outcome_bind_ok _ answered, Effect.after_bind_ok _ answered, world']
      by_cases accepted : response.status = 200
      · rw [if_neg (not_not_intro accepted)]
        cases read : json.responseFromSlice response.body with
        | error e =>
          refine ⟨rfl, rfl, .inr ⟨fun parsed accepts => ?_, _, rfl⟩⟩
          obtain ⟨_, returned, _, parses⟩ := only parsed accepts
          rw [answered] at returned
          cases returned
          rw [read] at parses
          cases parses
        | ok parsed =>
          exact ⟨rfl, rfl, .inl ⟨parsed, ⟨clientId, response, client, sent.symm.trans answered, accepted, read⟩, rfl⟩⟩
      · -- a status other than 200 is an error whatever the body says
        rw [if_pos accepted]
        refine ⟨rfl, rfl, .inr ⟨fun parsed accepts => ?_, _, rfl⟩⟩
        obtain ⟨_, returned, was, _⟩ := only parsed accepts
        rw [answered] at returned
        cases returned
        exact accepted was

theorem outcome_load (found : stored json world = some old) : (load json).outcome world = .ok old := by
  rw [load, Effect.outcome_bind_ok _ (outcome_readFile world tokenFile), after_readFile]
  obtain ⟨bytes, inFile, read⟩ := Option.bind_eq_some_iff.mp found
  rw [inFile]
  cases parsed : json.fromSlice bytes with
  | error e => rw [parsed] at read; cases read
  | ok token =>
    rw [parsed] at read
    cases read
    simp only [parsed, Effect.outcome_pure]

theorem stored_of_load (returned : (load json).outcome world = .ok old) : stored json world = some old := by
  rw [load, Effect.outcome_bind_ok _ (outcome_readFile world tokenFile), after_readFile] at returned
  unfold stored
  cases held : world.files tokenFile with
  | none =>
    rw [held] at returned
    cases returned
  | some bytes =>
    rw [held] at returned
    dsimp only at returned
    rw [Option.bind_some]
    cases read : json.fromSlice bytes with
    | error e =>
      rw [read] at returned
      cases returned
    | ok token =>
      rw [read] at returned
      cases returned
      rfl

theorem after_load (world : World) : (load json).after world = world := by
  rw [load, Effect.after_bind_ok _ (outcome_readFile world tokenFile), after_readFile]
  cases world.files tokenFile with
  | none => rfl
  | some bytes =>
    dsimp only
    cases json.fromSlice bytes <;> rfl

/-- A stored access token that is still good is taken as it is. -/
theorem bearerToken_fresh {accessToken : String} (found : stored json world = some old)
    (given : old.accessToken = some accessToken) (fresh : env.clock world.readings < old.expiresAt) :
    bearerToken json env config world =
      (.ok ("Bearer " ++ accessToken), { world with readings := world.readings + 1 }) := by
  rw [bearerToken, Effect.bind_apply, Effect.apply_eq (outcome_load found), after_load]
  dsimp only
  rw [given]
  dsimp only
  rw [Effect.bind_apply, Effect.apply_eq (outcome_nowSecs env world), after_nowSecs]
  dsimp only
  rw [if_pos fresh]
  rfl

theorem renew_files (roundTrips : json.RoundTrips) (world : World) (token : TokenFile) :
    (∃ parsed bytes, Accepts json env config world token.refreshToken parsed ∧
        json.toVecPretty (renewed token.refreshToken parsed (env.clock world.readings)) = .ok bytes ∧
        ((renew json env config token).after world).files =
          (StateFile.writeFile (env.disk world.writes) world.files tokenFile bytes).2) ∨
      ((∀ parsed, ¬ Accepts json env config world token.refreshToken parsed) ∧
        ((renew json env config token).after world).files = world.files) := by
  obtain ⟨files, writes, ⟨parsed, accepts, returned⟩ | ⟨refused, stop, stopped⟩⟩ :=
    @refresh_cases json env config world token.refreshToken
  · obtain ⟨bytes, written, _⟩ := roundTrips (renewed token.refreshToken parsed (env.clock world.readings))
    refine .inl ⟨parsed, bytes, accepts, written, ?_⟩
    have saves : save json env (renewed token.refreshToken parsed (env.clock world.readings)) =
        writeFile env tokenFile bytes := by rw [save, written]
    rw [renew, Effect.after_bind_ok _ returned, saves]
    cases ended : (writeFile env tokenFile bytes).outcome ((refresh json env config token.refreshToken).after world) with
    | error stop => rw [Effect.after_bind_error _ ended, after_writeFile, files, writes]
    | ok _ =>
      rw [Effect.after_bind_ok _ ended, after_writeFile]
      simp only [renewed, Effect.after_pure, files, writes]
  · refine .inr ⟨refused, ?_⟩
    rw [renew, Effect.after_bind_error _ stopped, files]

theorem bearerToken_files (roundTrips : json.RoundTrips) (found : stored json world = some old) :
    (∃ parsed bytes, Due env world old ∧ Accepts json env config world old.refreshToken parsed ∧
        json.toVecPretty (renewal env world old parsed) = .ok bytes ∧
        ((bearerToken json env config).after world).files =
          (StateFile.writeFile (env.disk world.writes) world.files tokenFile bytes).2) ∨
      ((¬ Due env world old ∨ ∀ parsed, ¬ Accepts json env config world old.refreshToken parsed) ∧
        ((bearerToken json env config).after world).files = world.files) := by
  rw [bearerToken, Effect.after_bind_ok _ (outcome_load found), after_load]
  unfold Due renewal expiryReading
  cases access : old.accessToken with
  | none =>
    obtain ⟨parsed, bytes, accepts, written, files⟩ | ⟨refused, files⟩ :=
      @renew_files json env config roundTrips world old
    · exact .inl ⟨parsed, bytes, by simp, accepts, by simpa using written, files⟩
    · exact .inr ⟨.inr refused, files⟩
  | some accessToken =>
    dsimp only
    rw [Effect.after_bind_ok _ (outcome_nowSecs env world), after_nowSecs]
    by_cases usable : env.clock world.readings < old.expiresAt
    · rw [if_pos usable]
      exact .inr ⟨.inl fun due => due rfl usable, rfl⟩
    · rw [if_neg usable]
      obtain ⟨parsed, bytes, accepts, written, files⟩ | ⟨refused, files⟩ :=
        @renew_files json env config roundTrips { world with readings := world.readings + 1 } old
      · exact .inl ⟨parsed, bytes, fun _ => usable, accepts, by simpa using written, files⟩
      · exact .inr ⟨.inr refused, files⟩

section Laws
variable (roundTrips : json.RoundTrips) (cutFails : json.CutFails)
include roundTrips cutFails

/-- A call keeps the token exactly when the disk does not stop in the middle of it. -/
theorem keepsToken_iff (found : stored json world = some old) :
    KeepsToken json env config world ↔ ¬ Torn json env config world := by
  obtain ⟨parsed, bytes, due, accepts, written, files⟩ | ⟨idle, files⟩ :=
    @bearerToken_files json env config world old roundTrips found
  · have held : ∀ contents, ((bearerToken json env config).after world).files tokenFile = some contents →
        stored json ((bearerToken json env config).after world) = (json.fromSlice contents).toOption := by
      intro contents inFile
      rw [stored, inFile, Option.bind_some]
    rw [files] at held
    -- what was taken of the new contents is a proper part only when the call is torn
    constructor
    · rintro ⟨_, token, _, kept, _⟩ ⟨old', parsed', bytes', found', _, accepts', written', opened, short⟩
      rw [found] at found'
      cases found'
      have sameParsed : parsed' = parsed := by
        obtain ⟨clientId, response, client, answer, _, parses⟩ := accepts
        obtain ⟨clientId', response', client', answer', _, parses'⟩ := accepts'
        rw [client] at client'
        cases client'
        rw [answer] at answer'
        cases answer'
        rw [parses] at parses'
        exact (Except.ok.inj parses').symm
      rw [sameParsed, written] at written'
      cases written'
      obtain ⟨closed, _⟩ | ⟨_, contents⟩ :=
        @StateFile.writeFile_file tokenFile (env.disk world.writes) bytes world.files
      · exact closed opened
      · rw [held _ contents] at kept
        cases read : json.fromSlice (bytes.take (StateFile.taken (env.disk world.writes) tokenFile bytes)) with
        | error e => rw [read] at kept; cases kept
        | ok token => exact cutFails _ _ written _ short token read
    · intro untorn
      obtain ⟨bytes', written', read⟩ := roundTrips (renewal env world old parsed)
      rw [written] at written'
      cases written'
      obtain ⟨_, same⟩ | ⟨opened, contents⟩ :=
        @StateFile.writeFile_file tokenFile (env.disk world.writes) bytes world.files
      · refine ⟨old, old, found, ?_, .inl rfl⟩
        rw [stored, files, same]
        exact found
      · have whole : StateFile.taken (env.disk world.writes) tokenFile bytes = bytes.length := by
          have bound := @StateFile.taken_le tokenFile (env.disk world.writes) bytes
          have tears : ¬ StateFile.taken (env.disk world.writes) tokenFile bytes < bytes.length := fun short =>
            untorn ⟨old, parsed, bytes, found, due, accepts, written, opened, short⟩
          omega
        rw [whole, List.take_length] at contents
        refine ⟨old, renewal env world old parsed, found, ?_, ?_⟩
        · rw [held _ contents, read]
          rfl
        · cases issued : parsed.refreshToken with
          | none => exact .inl (by simp [renewal, renewed, issued])
          | some token => exact .inr ⟨parsed, accepts, by simp [renewal, renewed, issued]⟩
  · -- without a refresh the file is not written
    have kept : stored json ((bearerToken json env config).after world) = some old := by
      rw [stored, files]
      exact found
    refine iff_of_true ⟨old, old, found, kept, .inl rfl⟩ ?_
    rintro ⟨old', parsed, _, found', due, accepts, _⟩
    rw [found] at found'
    cases found'
    exact idle.elim (· due) (· parsed accepts)

theorem Calls.stored {start last : World} {worlds : List World} (calls : Calls json env config start worlds last)
    (found : Auth.stored json start = some old) (untorn : ∀ world ∈ worlds, ¬ Torn json env config world) :
    ∃ token, Auth.stored json last = some token := by
  induction calls with
  | start => exact ⟨old, found⟩
  | call earlier same ih =>
    rename_i worlds last found'
    obtain ⟨token, before⟩ := ih fun world member => untorn world (List.mem_append_left _ member)
    have here : Auth.stored json found' = some token := by
      rw [Auth.stored, same]
      exact before
    obtain ⟨_, token', _, kept, _⟩ :=
      (keepsToken_iff roundTrips cutFails here).mpr (untorn _ (List.mem_append_right _ (List.mem_singleton_self _)))
    exact ⟨token', kept⟩

/-- Over any sequence of calls the refresh token survives exactly when no call is torn. -/
theorem refresh_token_kept_iff {start last : World} {worlds : List World}
    (calls : Calls json env config start worlds last) (found : Auth.stored json start = some old) :
    ((∀ world ∈ worlds, KeepsToken json env config world) ∧ ∃ token, Auth.stored json last = some token) ↔
      ∀ world ∈ worlds, ¬ Torn json env config world := by
  constructor
  · rintro ⟨kept, _⟩ world member
    obtain ⟨old', token, found', after, same⟩ := kept world member
    exact (keepsToken_iff roundTrips cutFails found').mp ⟨old', token, found', after, same⟩
  · intro untorn
    refine ⟨?_, calls.stored roundTrips cutFails found untorn⟩
    induction calls with
    | start => exact fun _ member => absurd member List.not_mem_nil
    | call earlier same ih =>
      rename_i worlds last found'
      have before : ∀ world ∈ worlds, ¬ Torn json env config world := fun world member =>
        untorn world (List.mem_append_left _ member)
      intro world member
      rcases List.mem_append.mp member with inFront | isLast
      · exact ih before world inFront
      · rw [List.mem_singleton.mp isLast]
        obtain ⟨token, stays⟩ := earlier.stored roundTrips cutFails found before
        have here : Auth.stored json found' = some token := by
          rw [Auth.stored, same]
          exact stays
        exact (keepsToken_iff roundTrips cutFails here).mpr
          (untorn _ (List.mem_append_right _ (List.mem_singleton_self _)))

end Laws

end Auth

end OneDriveDavfs
