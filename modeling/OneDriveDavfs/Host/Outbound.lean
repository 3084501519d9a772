import OneDriveDavfs.Host.PublicAddresses
import OneDriveDavfs.Library.Separated

/-! Which requests of the guest the host lets out: `OutboundPolicy` and the first half of
`send_restricted_request` in `src/host/src/main.rs`.

The parts of a URI are those that the HTTP library takes it apart into. Hosts
are compared as texts; what that means is stated in terms of their labels.
-/

set_option autoImplicit false

namespace OneDriveDavfs.Host

open Library.Separated

structure Authority where
  text : String
  /-- `host()` -/
  host : String
  /-- `port_u16()` -/
  port : Option UInt16
  deriving DecidableEq, Repr

structure Uri where
  scheme : Option String
  authority : Option Authority
  deriving DecidableEq, Repr

inductive OutboundError where
  | httpRequestDenied
  | httpRequestUriInvalid
  | destinationIpProhibited
  | connect (e : WasiHttpError)
  deriving DecidableEq, Repr

structure ValidatedAuthority where
  host : String
  port : UInt16
  deriving DecidableEq, Repr

/-- `host == suffix || host.ends_with(&format!(".{suffix}"))`. -/
def hasDnsSuffix (host suffix : String) : Bool := host = suffix || ('.' :: suffix.toList).isSuffixOf host.toList

def isAllowedHost (host : String) : Bool :=
  host = "graph.microsoft.com" || host = "login.microsoftonline.com" || hasDnsSuffix host "sharepoint.com" ||
    hasDnsSuffix host "sharepoint-df.com" || hasDnsSuffix host "microsoftpersonalcontent.com" ||
    hasDnsSuffix host "1drv.com"

def toAsciiLowercase (s : String) : String := String.ofList (s.toList.map Char.toLower)

section Policy
-- `host.parse::<IpAddr>().is_ok()`, and what name resolution answers
variable (isIpAddr : String → Bool) (lookupHost : String → UInt16 → Lookup)

def validateUri (uri : Uri) : Except OutboundError ValidatedAuthority :=
  if uri.scheme.getD "https" ≠ "https" then .error .httpRequestDenied
  else
    match uri.authority with
    | none => .error .httpRequestUriInvalid
    | some authority =>
      if '@' ∈ authority.text.toList then .error .httpRequestDenied
      else
        let host := toAsciiLowercase authority.host
        if isIpAddr host then .error .destinationIpProhibited
        else
          let port := authority.port.getD 443
          if port ≠ 443 then .error .destinationIpProhibited
          else if isAllowedHost host then .ok ⟨host, port⟩
          else .error .httpRequestDenied

/-- Where `send_restricted_request` connects to, and the name that TLS asks for. -/
def connectTarget (uri : Uri) : Except OutboundError (SocketAddr × String) :=
  match validateUri isIpAddr uri with
  | .error e => .error e
  | .ok validated =>
    match resolvePublicAddr (lookupHost validated.host validated.port) with
    | .error e => .error (.connect e)
    | .ok addr => .ok (addr, validated.host)

end Policy

/-! ## Labels -/

def labels (host : String) : List (List Char) := host.toList.splitOn '.'

/-- `ends_with` is a suffix of labels: a longer last label does not count. -/
theorem hasDnsSuffix_iff (host suffix : String) : hasDnsSuffix host suffix = true ↔ labels suffix <:+ labels host := by
  rw [labels, labels, splitOn_suffix_iff, String.toList_inj, hasDnsSuffix, Bool.or_eq_true, decide_eq_true_iff,
    List.isSuffixOf_iff_suffix, eq_comm]

/-- Microsoft's two endpoints, and the domains under which it stores files. -/
def Trusted (host : String) : Prop :=
  labels host = labels "graph.microsoft.com" ∨ labels host = labels "login.microsoftonline.com" ∨
    ∃ domain ∈ ["sharepoint.com", "sharepoint-df.com", "microsoftpersonalcontent.com", "1drv.com"],
      labels domain <:+ labels host

theorem labels_inj {host other : String} : labels host = labels other ↔ host = other := by
  refine ⟨fun same => ?_, congrArg labels⟩
  have joint := congrArg (['.'].intercalate ·) same
  simpa only [labels, List.intercalate_splitOn, String.toList_inj] using joint

theorem isAllowedHost_iff (host : String) : isAllowedHost host = true ↔ Trusted host := by
  simp only [isAllowedHost, Trusted, Bool.or_eq_true, decide_eq_true_iff, hasDnsSuffix_iff, labels_inj, List.mem_cons,
    List.not_mem_nil, or_false, exists_eq_or_imp, exists_eq_left, or_assoc]

example : isAllowedHost "tenant.sharepoint.com" = true ∧ isAllowedHost "evilsharepoint.com" = false := by decide

/-! ## The policy -/

/-- The request goes to this host: over TLS, at the port of TLS, to a trusted name, with no user in
front of it and not to an address. -/
structure Admits (isIpAddr : String → Bool) (uri : Uri) (host : String) : Prop where
  https : uri.scheme = none ∨ uri.scheme = some "https"
  authority : ∃ authority, uri.authority = some authority ∧ '@' ∉ authority.text.toList ∧
    host = toAsciiLowercase authority.host ∧ (authority.port = none ∨ authority.port = some 443)
  named : isIpAddr host = false
  trusted : Trusted host

section Policy
variable (isIpAddr : String → Bool) (lookupHost : String → UInt16 → Lookup) (uri : Uri)

theorem getD_eq_iff {α : Type} (found : Option α) (a : α) : found.getD a = a ↔ found = none ∨ found = some a := by
  cases found <;> simp

theorem validateUri_ok_iff (validated : ValidatedAuthority) :
    validateUri isIpAddr uri = .ok validated ↔ Admits isIpAddr uri validated.host ∧ validated.port = 443 := by
  obtain ⟨host, port⟩ := validated
  constructor
  · intro passed
    unfold validateUri at passed
    split at passed
    · cases passed
    · rename_i https
      split at passed
      · cases passed
      · rename_i authority given
        split at passed
        · cases passed
        · rename_i anonymous
          dsimp only at passed
          split at passed
          · cases passed
          · rename_i named
            split at passed
            · cases passed
            · rename_i port
              split at passed
              · rename_i allowed
                cases passed
                exact ⟨⟨(getD_eq_iff _ _).mp (not_not.mp https), ⟨authority, given, anonymous, rfl,
                  (getD_eq_iff _ _).mp (not_not.mp port)⟩, Bool.eq_false_iff.mpr named, (isAllowedHost_iff _).mp allowed⟩,
                  not_not.mp port⟩
              · cases passed
  · rintro ⟨⟨https, ⟨authority, given, anonymous, same, atPort⟩, named, trusted⟩, atTls⟩
    dsimp only at same named trusted atTls
    subst same atTls
    have port := (getD_eq_iff _ _).mpr atPort
    rw [validateUri, if_neg (not_not.mpr ((getD_eq_iff _ _).mpr https)), given]
    dsimp only
    rw [if_neg anonymous, if_neg (Bool.eq_false_iff.mp named), if_neg (not_not.mpr port),
      if_pos ((isAllowedHost_iff _).mpr trusted), port]

theorem resolvePublicAddr_ok_iff {found : Lookup} {addr : SocketAddr} :
    resolvePublicAddr found = .ok addr ↔ ∃ front back, found = .resolved (front ++ addr :: back) ∧
      isPublicIp addr.ip = true ∧ ∀ before ∈ front, isPublicIp before.ip = false := by
  cases found with
  | elapsed => simp [resolvePublicAddr]
  | failed => simp [resolvePublicAddr]
  | resolved addrs => simp [resolvePublicAddr, firstPublic_ok_iff]

/-- A connection is opened exactly for an admitted request, to the first public address of its host. -/
theorem connectTarget_ok_iff (addr : SocketAddr) (host : String) :
    connectTarget isIpAddr lookupHost uri = .ok (addr, host) ↔
      Admits isIpAddr uri host ∧ ∃ front back, lookupHost host 443 = .resolved (front ++ addr :: back) ∧
        isPublicIp addr.ip = true ∧ ∀ before ∈ front, isPublicIp before.ip = false := by
  rw [← resolvePublicAddr_ok_iff]
  have validated (host : String) : validateUri isIpAddr uri = .ok ⟨host, 443⟩ ↔ Admits isIpAddr uri host :=
    (validateUri_ok_iff isIpAddr uri ⟨host, 443⟩).trans (and_iff_left rfl)
  unfold connectTarget
  constructor
  · intro connects
    split at connects
    · cases connects
    · rename_i found passed
      obtain ⟨name, port⟩ := found
      obtain ⟨admits, rfl⟩ := (validateUri_ok_iff isIpAddr uri _).mp passed
      dsimp only at connects admits
      split at connects
      · cases connects
      · rename_i resolved
        cases connects
        exact ⟨admits, resolved⟩
  · rintro ⟨admits, resolved⟩
    rw [(validated host).mpr admits]
    dsimp only
    rw [resolved]

end Policy

end OneDriveDavfs.Host
