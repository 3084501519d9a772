import OneDriveDavfs.Http.Client
import OneDriveDavfs.Library.Base64
import OneDriveDavfs.Library.Separated

/-! The shared secret of the mount: `check_basic_auth` and its base64 decoder in `src/lib.rs`.

The decoder drops padding and white space first and reads groups of up to four
letters; it is checked against the standard encoding, group by group.
-/

set_option autoImplicit false
set_option maxRecDepth 2000

namespace OneDriveDavfs

open Library Library.Separated Library.Wire

namespace BasicAuth

/-! ## `base64_decode` -/

/-- The `val` of `base64_decode`. -/
def val (b : UInt8) : Option UInt8 :=
  if 0x41 ≤ b ∧ b ≤ 0x5A then some (b - 0x41)
  else if 0x61 ≤ b ∧ b ≤ 0x7A then some (b - 0x61 + 26)
  else if 0x30 ≤ b ∧ b ≤ 0x39 then some (b - 0x30 + 52)
  else if b = 0x2B then some 62
  else if b = 0x2F then some 63
  else none

def isAsciiWhitespace (b : UInt8) : Bool := b = 0x20 || b = 0x09 || b = 0x0A || b = 0x0C || b = 0x0D

/-- What a chunk of values pushes: a byte, and one more for a third and for a fourth value. -/
def pushed (vals : Bytes) : Bytes :=
  (vals.getD 0 0 <<< 2 ||| vals.getD 1 0 >>> 4) ::
    ((if 2 < vals.length then [vals.getD 1 0 <<< 4 ||| vals.getD 2 0 >>> 2] else []) ++
      if 3 < vals.length then [vals.getD 2 0 <<< 6 ||| vals.getD 3 0] else [])

def decodeChunk (chunk : Bytes) : Option Bytes := (chunk.mapM val).map pushed

/-- The loop over `clean.chunks(4)`; only the last chunk can be shorter. -/
def decodeChunks : Bytes → Option Bytes
  | [] => some []
  | a :: b :: c :: d :: rest => do
    let out ← decodeChunk [a, b, c, d]
    let tail ← decodeChunks rest
    return out ++ tail
  | chunk => decodeChunk chunk

def base64Decode (input : String) : Option Bytes :=
  decodeChunks ((utf8 input).filter fun b => b ≠ 0x3D && !isAsciiWhitespace b)

/-! ## The check -/

abbrev Fields := String → List Bytes

def headerValue (headers : Fields) (name : String) : Option String := (headers name).head?.map lossy

/-- The loop of `constant_time_eq`: the differences of the bytes so far. -/
def difference : UInt8 → Bytes → Bytes → UInt8
  | diff, x :: a, y :: b => difference (diff ||| (x ^^^ y)) a b
  | diff, _, _ => diff

def constantTimeEq (a b : Bytes) : Bool := if a.length ≠ b.length then false else difference 0 a b = 0

def checkBasicAuth (basicAuthSecret : Option String) (headers : Fields) : Bool :=
  match basicAuthSecret with
  | none => true
  | some expected =>
    match headerValue headers "authorization" with
    | none => false
    | some raw =>
      match stripPrefix "Basic " raw with
      | none => false
      | some encoded =>
        match (base64Decode encoded).bind fromUtf8 with
        | none => false
        | some decoded =>
          -- only what follows the first colon has to match
          match splitOnce [':'] decoded.toList with
          | some (_, pass) => constantTimeEq (utf8 (String.ofList pass)) (utf8 expected)
          | none => false

/-! ## The decoder on standard encodings -/

theorem val_letter : ∀ n : UInt8, n < 64 → val (Base64.letter n) = some n := forall_byte (by decide)

theorem mapM_val {vals : Bytes} (small : ∀ n ∈ vals, n < 64) : (vals.map Base64.letter).mapM val = some vals := by
  induction vals with
  | nil => rfl
  | cons n vals ih =>
    have tail := ih fun k member => small k (List.mem_cons_of_mem _ member)
    rw [List.map_cons, List.mapM_cons, val_letter n (small n List.mem_cons_self), tail]
    rfl

theorem decodeChunk_letters (vals : Bytes) (small : ∀ n ∈ vals, n < 64) :
    decodeChunk (vals.map Base64.letter) = some (pushed vals) := by
  rw [decodeChunk, mapM_val small, Option.map_some]

theorem pushed_three (a b c : UInt8) :
    pushed [a >>> 2, (a &&& 0x03) <<< 4 ||| b >>> 4, (b &&& 0x0F) <<< 2 ||| c >>> 6, c &&& 0x3F] = [a, b, c] := by
  simp only [pushed, List.getD_cons_zero, List.getD_cons_succ, Base64.first_byte, Base64.second_byte, Base64.third_byte]
  rfl

theorem pushed_two (a b : UInt8) : pushed [a >>> 2, (a &&& 0x03) <<< 4 ||| b >>> 4, (b &&& 0x0F) <<< 2] = [a, b] := by
  have second : ((a &&& 0x03) <<< 4 ||| b >>> 4) <<< 4 ||| (b &&& 0x0F) <<< 2 >>> 2 = b := by
    simpa using Base64.second_byte a b 0
  simp only [pushed, List.getD_cons_zero, List.getD_cons_succ, Base64.first_byte, second]
  rfl

theorem pushed_one (a : UInt8) : pushed [a >>> 2, (a &&& 0x03) <<< 4] = [a] := by
  have first : (a >>> 2) <<< 2 ||| (a &&& 0x03) <<< 4 >>> 4 = a := by simpa using Base64.first_byte a 0
  simp only [pushed, List.getD_cons_zero, List.getD_cons_succ, first]
  rfl

theorem decodeChunks_sextets (bytes : Bytes) :
    decodeChunks ((Base64.sextets bytes).map Base64.letter) = some bytes := by
  have small := Base64.sextets_lt bytes
  fun_induction Base64.sextets bytes with
  | case1 a b c rest ih =>
    have tail := ih fun n member => small n (by simp only [List.mem_cons, member, or_true])
    have chunk := decodeChunk_letters [a >>> 2, (a &&& 0x03) <<< 4 ||| b >>> 4, (b &&& 0x0F) <<< 2 ||| c >>> 6, c &&& 0x3F]
      fun n member => small n (List.mem_append_left (Base64.sextets rest) member)
    rw [pushed_three] at chunk
    simp only [List.map_cons, List.map_nil] at chunk
    simp only [List.map_cons, decodeChunks, chunk, tail]
    rfl
  | case2 a b =>
    have chunk := decodeChunk_letters _ small
    rwa [pushed_two] at chunk
  | case3 a =>
    have chunk := decodeChunk_letters _ small
    rwa [pushed_one] at chunk
  | case4 => rfl

theorem base64Decode_encode (bytes : Bytes) : base64Decode (latin (Base64.encode bytes)) = some bytes := by
  have kept : ∀ n : UInt8, n < 64 → (Base64.letter n ≠ 0x3D && !isAsciiWhitespace (Base64.letter n)) = true :=
    forall_byte (by decide)
  have letters : ((Base64.sextets bytes).map Base64.letter).filter (fun b => b ≠ 0x3D && !isAsciiWhitespace b) =
      (Base64.sextets bytes).map Base64.letter := by
    rw [List.filter_eq_self]
    intro byte member
    obtain ⟨n, given, rfl⟩ := List.mem_map.mp member
    exact kept n (Base64.sextets_lt bytes n given)
  have padding : (List.replicate ((3 - bytes.length % 3) % 3) Base64.pad).filter
      (fun b => b ≠ 0x3D && !isAsciiWhitespace b) = [] := by
    rw [List.filter_eq_nil_iff]
    intro byte member
    rw [List.eq_of_mem_replicate member]
    decide
  rw [base64Decode, utf8_latin (Base64.ascii_encode bytes), Base64.encode, List.filter_append, letters, padding,
    List.append_nil, decodeChunks_sextets]

/-! ## The comparison -/

theorem difference_eq_zero {diff : UInt8} {a b : Bytes} (same : a.length = b.length) :
    difference diff a b = 0 ↔ diff = 0 ∧ a = b := by
  induction a generalizing b diff with
  | nil =>
    have empty : b = [] := List.length_eq_zero_iff.mp same.symm
    simp [difference, empty]
  | cons x a ih =>
    cases b with
    | nil => cases same
    | cons y b =>
      rw [difference, ih (Nat.succ.inj same), UInt8.or_eq_zero_iff, UInt8.xor_eq_zero_iff, List.cons.injEq, and_assoc]

theorem constantTimeEq_iff (a b : Bytes) : constantTimeEq a b = true ↔ a = b := by
  unfold constantTimeEq
  split
  · rename_i different
    exact ⟨fun impossible => (Bool.false_ne_true impossible).elim, fun same => absurd (congrArg List.length same) different⟩
  · rename_i same
    rw [decide_eq_true_iff, difference_eq_zero (not_not.mp same)]
    exact and_iff_right rfl

/-! ## The check on a header -/

def basicHeader (user password : String) : String :=
  "Basic " ++ latin (Base64.encode (utf8 (user ++ ":" ++ password)))

theorem ascii_basicHeader (user password : String) : Ascii (utf8 (basicHeader user password)) := by
  rw [basicHeader, utf8_append, utf8_latin (Base64.ascii_encode _)]
  intro byte member
  rcases List.mem_append.mp member with inScheme | inCredentials
  · have scheme : ∀ byte ∈ utf8 "Basic ", byte < 0x80 := by decide
    exact scheme byte inScheme
  · exact Base64.ascii_encode _ byte inCredentials

theorem checkBasicAuth_iff (secret user password : String) (headers : Fields) (plain : ':' ∉ user.toList)
    (sent : (headers "authorization").head? = some (utf8 (basicHeader user password))) :
    checkBasicAuth (some secret) headers = true ↔ password = secret := by
  have raw : headerValue headers "authorization" = some (basicHeader user password) := by
    rw [headerValue, sent, Option.map_some, lossy_ascii (ascii_basicHeader user password)]
  have cut : splitOnce [':'] (user ++ ":" ++ password).toList = some (user.toList, password.toList) := by
    rw [String.toList_append, String.toList_append, List.append_assoc]
    exact splitOnce_separator plain password.toList
  unfold checkBasicAuth
  dsimp only
  rw [raw]
  dsimp only
  rw [basicHeader, stripPrefix_append]
  dsimp only
  rw [base64Decode_encode, Option.bind_some, fromUtf8_utf8]
  dsimp only
  rw [cut]
  dsimp only
  rw [constantTimeEq_iff, String.ofList_toList]
  exact ⟨utf8_injective, congrArg utf8⟩

/-- The check accepts the credentials whose password is the secret, and no others. -/
theorem basicAuth_accepts_secret :
    (∀ bytes, base64Decode (latin (Base64.encode bytes)) = some bytes) ∧
    (∀ a b, constantTimeEq a b = true ↔ a = b) ∧
    ∀ (secret user password : String) (headers : Fields), ':' ∉ user.toList →
      (headers "authorization").head? = some (utf8 (basicHeader user password)) →
      (checkBasicAuth (some secret) headers = true ↔ password = secret) :=
  ⟨base64Decode_encode, constantTimeEq_iff, checkBasicAuth_iff⟩

/-- A secret with a colon in it is accepted, and so is a user name of one letter. -/
theorem basicAuth_accepts_secret_colon :
    checkBasicAuth (some "s:1") (fun name => if name = "authorization" then [utf8 "Basic dTpzOjE="] else []) = true := by
  have header : "Basic dTpzOjE=" = basicHeader "u" "s:1" := by decide
  obtain ⟨_, _, check⟩ := basicAuth_accepts_secret
  exact (check "s:1" "u" "s:1" _ (by decide) (by rw [if_pos rfl, header]; rfl)).mpr rfl

end BasicAuth

end OneDriveDavfs
