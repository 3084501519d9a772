import OneDriveDavfs.Auth.Token
import OneDriveDavfs.Library.JsonPrefix
import OneDriveDavfs.Snapshot.MetaText

/-! The token file as JSON, and a disk that runs full.

The text is the one that `to_vec_pretty` writes for the derived serialisation;
the answer of the endpoint is an object as well. Fields are looked up
by name, with the defaults of the source.
-/

set_option autoImplicit false

namespace OneDriveDavfs.Auth

open Library Library.Json Library.Wire Snapshot

def tokenMembers (token : TokenFile) : List (String × Value) := [
  ("refresh_token", .text token.refreshToken),
  ("access_token", optionalText token.accessToken),
  ("expires_at", nat token.expiresAt.toNat)]

def readText (members : List (String × Value)) (key : String) : Except String String :=
  match members.lookup key with
  | some (.text s) => .ok s
  | none => .error ("missing field " ++ key)
  | some _ => .error "invalid type: expected a string"

def tokenOfMembers (members : List (String × Value)) : Except String TokenFile := do
  return {
    refreshToken := ← readText members "refresh_token"
    accessToken := ← readOptionalText members "access_token"
    expiresAt := ← readU64 members "expires_at" (.ok 0) }

def responseOfMembers (members : List (String × Value)) : Except String TokenResponse := do
  return {
    accessToken := ← readText members "access_token"
    refreshToken := ← readOptionalText members "refresh_token"
    expiresIn := ← readU64 members "expires_in" (.error "missing field expires_in") }

/-- Codecs that behave as `serde_json` does on what it writes. -/
def tokenText : TokenJson where
  toVecPretty token := .ok (utf8 (pretty (.object (tokenMembers token))))
  fromSlice := readWith tokenOfMembers
  responseFromSlice := readWith responseOfMembers

def asciiTokens : TokenJson where
  toVecPretty := tokenText.toVecPretty
  fromSlice := readAscii tokenOfMembers
  responseFromSlice := readAscii responseOfMembers

theorem tokenText_eq_asciiTokens : tokenText = asciiTokens := by
  rw [tokenText, asciiTokens, readWith_eq_readAscii, readWith_eq_readAscii]
  rfl

theorem tokenOfMembers_tokenMembers (token : TokenFile) : tokenOfMembers (tokenMembers token) = .ok token := by
  have access : readOptionalText (tokenMembers token) "access_token" = .ok token.accessToken := by
    have found : (tokenMembers token).lookup "access_token" = some (optionalText token.accessToken) := rfl
    rw [readOptionalText, found]
    cases token.accessToken <;> rfl
  have expires : readU64 (tokenMembers token) "expires_at" (.ok 0) = .ok token.expiresAt := by
    have found : (tokenMembers token).lookup "expires_at" = some (nat token.expiresAt.toNat) := rfl
    simp only [readU64, found, readNat_nat, if_pos token.expiresAt.toNat_lt, UInt64.ofNat_toNat]
  have refresh : readText (tokenMembers token) "refresh_token" = .ok token.refreshToken := rfl
  rw [tokenOfMembers, access, expires, refresh]
  rfl

theorem tokenText_roundTrips : tokenText.RoundTrips := by
  intro token
  refine ⟨_, rfl, ?_⟩
  dsimp only [tokenText]
  rw [pretty, readWith_write, tokenOfMembers_tokenMembers]

theorem tokenText_cutFails : tokenText.CutFails := by
  intro token bytes written count short read parsed
  cases written
  simp only [tokenText, readWith] at parsed
  split at parsed
  · cases parsed
  · rename_i text decoded
    have bytesOf := utf8_of_fromUtf8 decoded
    have part : utf8 text <+: utf8 (pretty (.object (tokenMembers token))) := bytesOf ▸ List.take_prefix _ _
    obtain ⟨tail, whole⟩ := toList_prefix_of_utf8 part
    rw [pretty, String.toList_ofList] at whole
    have more : tail ≠ [] := by
      rintro rfl
      rw [List.append_nil] at whole
      rw [pretty, ← whole, String.ofList_toList, bytesOf, List.length_take] at short
      have bound := short
      omega
    rw [readObject, readText_cut .lines whole more] at parsed
    cases parsed

/-! ## A refresh with a full disk -/

def staleToken : TokenFile := ⟨"r1", none, 0⟩

def staleWorld : World where
  files := FileOp.run noFiles (.write tokenFile (utf8 (pretty (.object (tokenMembers staleToken)))))
  sent := []
  readings := 0
  writes := 0

def rotating (disk : Disk) : Environment where
  answer _ := .ok ⟨200, [], utf8 "\x7b\"access_token\":\"a\",\"refresh_token\":\"r2\",\"expires_in\":3600\x7d"⟩
  clock _ := 1000
  disk _ := disk

def soundDisk : Disk := ⟨some (.ok ()), fun _ remaining => some (.ok (Fin.last remaining))⟩

/-- The disk has no room left: the file is opened, and with that emptied, but takes no byte. -/
def fullDisk : Disk := ⟨some (.ok ()), fun _ _ => some (.error "insufficient-space")⟩

def someConfig : Config := ⟨some "client", "common", "me/drive"⟩

theorem staleWorld_stored : stored tokenText staleWorld = some staleToken := by
  rw [tokenText_eq_asciiTokens]
  decide +kernel

theorem refresh_token_kept_rotated :
    ((∀ world ∈ [staleWorld], KeepsToken tokenText (rotating soundDisk) someConfig world) ∧ ∃ token,
        stored tokenText ((bearerToken tokenText (rotating soundDisk) someConfig).after staleWorld) = some token) ↔
      ∀ world ∈ [staleWorld], ¬ Torn tokenText (rotating soundDisk) someConfig world :=
  refresh_token_kept_iff tokenText_roundTrips tokenText_cutFails (Calls.call Calls.start rfl) staleWorld_stored

/-- The stored token is lost together with the new one, and the next call cannot refresh. -/
theorem full_disk_loses_token :
    stored tokenText staleWorld = some staleToken ∧
    stored tokenText ((bearerToken tokenText (rotating fullDisk) someConfig).after staleWorld) = none ∧
    ∃ message, (bearerToken tokenText (rotating fullDisk) someConfig).outcome
        ((bearerToken tokenText (rotating fullDisk) someConfig).after staleWorld) = .error (.failed message) := by
  refine ⟨staleWorld_stored, ?_, "failed to parse token.json: expected value", ?_⟩
  · rw [tokenText_eq_asciiTokens]
    decide +kernel
  · rw [tokenText_eq_asciiTokens]
    decide +kernel

end OneDriveDavfs.Auth
