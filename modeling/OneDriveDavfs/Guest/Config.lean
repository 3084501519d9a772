import OneDriveDavfs.Auth.Token
import OneDriveDavfs.Dav.BasicAuth

/-! The settings of the guest and how they reach it: `src/config.rs`, and `GuestEnv` in `host/src/main.rs`.

The host hands over the variables of a list of names. The guest refuses to
serve without a secret unless a further variable allows it, and that one is not
on the list.
-/

set_option autoImplicit false

namespace OneDriveDavfs

open Library Library.Wire

/-- `Config` with all its settings; the state directory is the world's. -/
structure GuestConfig extends Config where
  basicAuthSecret : Option String
  indexEnabled : Bool
  syncMaxPages : Nat
  somePage : 0 < syncMaxPages
  syncBudgetMs : UInt64

namespace GuestConfig

def env (environ : List (String × String)) (name : String) : Option String :=
  (environ.find? fun entry => entry.1 = name).map Prod.snd

/-- `s.parse().ok()` at an unsigned type of so many bits. -/
def parseUnsigned (bits : Nat) (s : String) : Option Nat :=
  let digits := match s.toList with
    | '+' :: rest => rest
    | chars => chars
  if digits ≠ [] ∧ digits.all Char.isDigit ∧ Nat.ofDigitChars 10 digits 0 < 2 ^ bits then
    some (Nat.ofDigitChars 10 digits 0)
  else none

def minBasicAuthSecretLen : Nat := 16

def placeholderSecrets : List String := ["REPLACE_ME", "changeme", "secret", "password"]

def validateBasicAuthSecret (secret : Option String) (allowUnauthenticated : Bool) : Except String (Option String) :=
  match secret with
  | none =>
    if allowUnauthenticated then .ok none
    else .error ("ONEDRIVE_BASIC_AUTH_SECRET is not set; refusing to serve unauthenticated. " ++
      "Set a secret (>= 16 chars) or ONEDRIVE_ALLOW_UNAUTHENTICATED=1 for local dev")
  | some s =>
    if (utf8 s).length < minBasicAuthSecretLen then
      .error ("ONEDRIVE_BASIC_AUTH_SECRET is too short (need at least " ++ toString minBasicAuthSecretLen ++
        " characters)")
    else if placeholderSecrets.any (eqIgnoreAsciiCase · s) then
      .error ("ONEDRIVE_BASIC_AUTH_SECRET is a placeholder value; generate a real secret " ++
        "(e.g. `openssl rand -base64 32`)")
    else .ok (some s)

def load (environ : List (String × String)) (preopens : List String) : Except String GuestConfig :=
  match validateBasicAuthSecret (env environ "ONEDRIVE_BASIC_AUTH_SECRET")
      (env environ "ONEDRIVE_ALLOW_UNAUTHENTICATED" = some "1") with
  | .error e => .error e
  | .ok basicAuthSecret =>
    let pages := ((env environ "ONEDRIVE_SYNC_MAX_PAGES").bind (parseUnsigned 32)).getD 8
    let budget := ((env environ "ONEDRIVE_SYNC_BUDGET_MS").bind (parseUnsigned 64)).getD 20000
    if "/state" ∈ preopens then
      .ok {
        clientId := env environ "ONEDRIVE_CLIENT_ID"
        tenantId := (env environ "ONEDRIVE_TENANT_ID").getD "common"
        driveBase := (env environ "ONEDRIVE_DRIVE_BASE").getD "me/drive"
        basicAuthSecret
        indexEnabled := env environ "ONEDRIVE_INDEX_ENABLED" ∉ [some "0", some "false", some "FALSE"]
        syncMaxPages := max pages 1
        somePage := Nat.lt_of_lt_of_le Nat.zero_lt_one (Nat.le_max_right _ _)
        syncBudgetMs := UInt64.ofNat (max budget 1) }
    else .error "no /state preopen found; run wasmtime with --dir <state-dir>::/state"

/-! ## Behind the host -/

def guestEnvNames : List String := ["ONEDRIVE_CLIENT_ID", "ONEDRIVE_TENANT_ID", "ONEDRIVE_DRIVE_BASE",
  "ONEDRIVE_BASIC_AUTH_SECRET", "ONEDRIVE_INDEX_ENABLED", "ONEDRIVE_SYNC_MAX_PAGES", "ONEDRIVE_SYNC_BUDGET_MS"]

/-- `GuestEnv::capture`, from the variables of the host's process. -/
def capture (process : String → Option String) : List (String × String) :=
  guestEnvNames.filterMap fun name => (process name).map fun value => (name, value)

/-- A name on the list reads as it does in the process, every other one as unset. -/
theorem env_capture (process : String → Option String) (name : String) :
    env (capture process) name = if name ∈ guestEnvNames then process name else none := by
  unfold env capture
  generalize guestEnvNames = names
  induction names with
  | nil => rfl
  | cons first rest ih =>
    rw [List.filterMap_cons]
    cases found : process first with
    | none =>
      dsimp only [Option.map_none]
      rw [ih]
      by_cases same : name = first
      · simp [same, found]
      · simp [same]
    | some value =>
      dsimp only [Option.map_some]
      rw [List.find?_cons]
      by_cases same : first = name
      · subst same
        simp [found]
      · simpa [same, Ne.symm same] using ih

def RealSecret (s : String) : Prop :=
  minBasicAuthSecretLen ≤ (utf8 s).length ∧ ∀ p ∈ placeholderSecrets, eqIgnoreAsciiCase p s = false

theorem validateBasicAuthSecret_ok {secret kept : Option String} {allow : Bool}
    (passed : validateBasicAuthSecret secret allow = .ok kept) :
    kept = secret ∧ (secret = none → allow = true) ∧ ∀ s ∈ secret, RealSecret s := by
  unfold validateBasicAuthSecret at passed
  cases secret with
  | none =>
    dsimp only at passed
    split at passed
    · rename_i allowed
      cases passed
      exact ⟨rfl, fun _ => allowed, by simp⟩
    · cases passed
  | some s =>
    dsimp only at passed
    split at passed
    · cases passed
    · rename_i long
      split at passed
      · cases passed
      · rename_i real
        cases passed
        refine ⟨rfl, by simp, fun other same => ?_⟩
        cases same
        refine ⟨Nat.le_of_not_lt long, fun p member => ?_⟩
        by_contra equal
        exact real (List.any_eq_true.mpr ⟨p, member, by simpa using equal⟩)

theorem secret_of_load {environ : List (String × String)} {preopens : List String} {config : GuestConfig}
    (loaded : load environ preopens = .ok config) :
    validateBasicAuthSecret (env environ "ONEDRIVE_BASIC_AUTH_SECRET")
      (env environ "ONEDRIVE_ALLOW_UNAUTHENTICATED" = some "1") = .ok config.basicAuthSecret := by
  unfold load at loaded
  split at loaded
  · cases loaded
  · rename_i validated
    dsimp only at loaded
    split at loaded
    · cases loaded
      exact validated
    · cases loaded

/-- Behind the host there is always a real secret: no variable of the process turns the check off. -/
theorem secret_behind_host {process : String → Option String} {preopens : List String} {config : GuestConfig}
    (loaded : load (capture process) preopens = .ok config) :
    ∃ s, config.basicAuthSecret = some s ∧ process "ONEDRIVE_BASIC_AUTH_SECRET" = some s ∧ RealSecret s := by
  have validated := secret_of_load loaded
  rw [env_capture, env_capture, if_pos (by decide), if_neg (by decide)] at validated
  obtain ⟨kept, needed, real⟩ := validateBasicAuthSecret_ok validated
  cases found : process "ONEDRIVE_BASIC_AUTH_SECRET" with
  | none => exact absurd (needed found) (by decide)
  | some s => exact ⟨s, kept.trans found, rfl, real s found⟩

end GuestConfig

end OneDriveDavfs
