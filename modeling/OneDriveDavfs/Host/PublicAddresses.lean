import Mathlib.Tactic.NormNum
import Mathlib.Tactic.Tauto
import OneDriveDavfs.Library.AddressBlocks

/-! Where the host connects to: `is_public_ip` and `resolve_public_addr` of
`src/host/src/main.rs`.

Name resolution may return any list of addresses; the first that passes the
filter is taken. The ranges that are not global are stated as address blocks,
apart from the tests of the filter.
-/

set_option autoImplicit false

namespace OneDriveDavfs.Host

open Library.AddressBlocks

structure Ipv4Addr where
  (a b c d : UInt8)
  deriving DecidableEq, Repr

structure Ipv6Addr where
  (a b c d e f g h : UInt16)
  deriving DecidableEq, Repr

inductive IpAddr where
  | v4 (ip : Ipv4Addr)
  | v6 (ip : Ipv6Addr)
  deriving DecidableEq, Repr

structure SocketAddr where
  ip : IpAddr
  port : UInt16
  deriving DecidableEq, Repr

inductive WasiHttpError where
  | dnsTimeout
  | destinationNotFound
  | destinationIpProhibited
  deriving DecidableEq, Repr

/-! ## The filter

The predicates of the standard library, as they are documented. -/

namespace Ipv4Addr

def isPrivate (ip : Ipv4Addr) : Bool :=
  ip.a = 10 ∨ (ip.a = 172 ∧ 16 ≤ ip.b ∧ ip.b ≤ 31) ∨ (ip.a = 192 ∧ ip.b = 168)

def isLoopback (ip : Ipv4Addr) : Bool := ip.a = 127

def isLinkLocal (ip : Ipv4Addr) : Bool := ip.a = 169 ∧ ip.b = 254

def isBroadcast (ip : Ipv4Addr) : Bool := ip = ⟨255, 255, 255, 255⟩

def isDocumentation (ip : Ipv4Addr) : Bool :=
  (ip.a = 192 ∧ ip.b = 0 ∧ ip.c = 2) ∨ (ip.a = 198 ∧ ip.b = 51 ∧ ip.c = 100) ∨ (ip.a = 203 ∧ ip.b = 0 ∧ ip.c = 113)

def isMulticast (ip : Ipv4Addr) : Bool := 224 ≤ ip.a ∧ ip.a ≤ 239

def isUnspecified (ip : Ipv4Addr) : Bool := ip = ⟨0, 0, 0, 0⟩

end Ipv4Addr

namespace Ipv6Addr

def isLoopback (ip : Ipv6Addr) : Bool := ip = ⟨0, 0, 0, 0, 0, 0, 0, 1⟩

def isMulticast (ip : Ipv6Addr) : Bool := ip.a &&& 0xff00 = 0xff00

def isUnspecified (ip : Ipv6Addr) : Bool := ip = ⟨0, 0, 0, 0, 0, 0, 0, 0⟩

end Ipv6Addr

def isPublicIpv4 (ip : Ipv4Addr) : Bool :=
  !(ip.isPrivate
    || ip.isLoopback
    || ip.isLinkLocal
    || ip.isBroadcast
    || ip.isDocumentation
    || ip.isMulticast
    || ip.isUnspecified
    || ip.a == 0
    || (ip.a == 100 && decide (64 ≤ ip.b ∧ ip.b ≤ 127))
    || (ip.a == 198 && ip.b == 18)
    || (ip.a == 198 && ip.b == 19)
    || ip.a == 240)

def isPublicIpv6 (ip : Ipv6Addr) : Bool :=
  !(ip.isLoopback
    || ip.isMulticast
    || ip.isUnspecified
    || ip.a &&& 0xfe00 == 0xfc00
    || ip.a &&& 0xffc0 == 0xfe80
    || ip.a &&& 0xffc0 == 0xfec0)

def isPublicIp : IpAddr → Bool
  | .v4 v4 => isPublicIpv4 v4
  | .v6 v6 => isPublicIpv6 v6

def firstPublic : List SocketAddr → Except WasiHttpError SocketAddr
  | [] => .error .destinationIpProhibited
  | addr :: rest => if isPublicIp addr.ip then .ok addr else firstPublic rest

/-- How `lookup_host` can end within or without the timeout. -/
inductive Lookup where
  | elapsed
  | failed
  | resolved (addrs : List SocketAddr)
  deriving DecidableEq, Repr

def resolvePublicAddr : Lookup → Except WasiHttpError SocketAddr
  | .elapsed => .error .dnsTimeout
  | .failed => .error .destinationNotFound
  | .resolved addrs => firstPublic addrs

/-! ## The ranges that are not global -/

def Ipv4Addr.number (ip : Ipv4Addr) : Nat :=
  ip.a.toNat * 2 ^ 24 + (ip.b.toNat * 2 ^ 16 + (ip.c.toNat * 2 ^ 8 + ip.d.toNat))

def Ipv6Addr.number (ip : Ipv6Addr) : Nat :=
  ip.a.toNat * 2 ^ 112 + (ip.b.toNat * 2 ^ 96 + (ip.c.toNat * 2 ^ 80 + (ip.d.toNat * 2 ^ 64 + (ip.e.toNat * 2 ^ 48 +
    (ip.f.toNat * 2 ^ 32 + (ip.g.toNat * 2 ^ 16 + ip.h.toNat))))))

/-- Blocks with the number of their leading bits. -/
def nonGlobalV4 : List (Ipv4Addr × Nat) :=
  [(⟨0, 0, 0, 0⟩, 8), (⟨10, 0, 0, 0⟩, 8), (⟨100, 64, 0, 0⟩, 10), (⟨127, 0, 0, 0⟩, 8), (⟨169, 254, 0, 0⟩, 16),
    (⟨172, 16, 0, 0⟩, 12), (⟨192, 168, 0, 0⟩, 16), (⟨192, 0, 2, 0⟩, 24), (⟨198, 51, 100, 0⟩, 24), (⟨203, 0, 113, 0⟩, 24),
    (⟨198, 18, 0, 0⟩, 15), (⟨224, 0, 0, 0⟩, 4), (⟨240, 0, 0, 0⟩, 4)]

def nonGlobalV6 : List (Ipv6Addr × Nat) :=
  [(⟨0, 0, 0, 0, 0, 0, 0, 0⟩, 128), (⟨0, 0, 0, 0, 0, 0, 0, 1⟩, 128), (⟨0xfc00, 0, 0, 0, 0, 0, 0, 0⟩, 7),
    (⟨0xfe80, 0, 0, 0, 0, 0, 0, 0⟩, 10), (⟨0xfec0, 0, 0, 0, 0, 0, 0, 0⟩, 10), (⟨0xff00, 0, 0, 0, 0, 0, 0, 0⟩, 8)]

/-- The IPv4 address in `::ffff:a.b.c.d`. -/
def Ipv6Addr.mapped (ip : Ipv6Addr) : Option Ipv4Addr :=
  if ip.a = 0 ∧ ip.b = 0 ∧ ip.c = 0 ∧ ip.d = 0 ∧ ip.e = 0 ∧ ip.f = 0xffff then
    some ⟨(ip.g >>> 8).toUInt8, ip.g.toUInt8, (ip.h >>> 8).toUInt8, ip.h.toUInt8⟩
  else none

def Ipv4Addr.NonGlobal (ip : Ipv4Addr) : Prop :=
  ∃ block ∈ nonGlobalV4, InBlock 32 block.2 block.1.number ip.number

instance (ip : Ipv4Addr) : Decidable ip.NonGlobal := inferInstanceAs (Decidable (∃ block ∈ nonGlobalV4, _))

def Ipv6Addr.NonGlobal (ip : Ipv6Addr) : Prop :=
  (∃ block ∈ nonGlobalV6, InBlock 128 block.2 block.1.number ip.number) ∨ ∃ v4 ∈ ip.mapped, v4.NonGlobal

instance (ip : Ipv6Addr) : Decidable ip.NonGlobal :=
  inferInstanceAs (Decidable ((∃ block ∈ nonGlobalV6, _) ∨ ∃ v4 ∈ ip.mapped, _))

def IpAddr.NonGlobal : IpAddr → Prop
  | .v4 ip => ip.NonGlobal
  | .v6 ip => ip.NonGlobal

/-- What the filter lets through: `240/4` is tested by its first octet alone, and a mapped
address is not looked into. -/
def IpAddr.Leaks : IpAddr → Prop
  | .v4 ip => 240 < ip.a ∧ ip ≠ ⟨255, 255, 255, 255⟩
  | .v6 ip => ∃ inner ∈ ip.mapped, inner.NonGlobal

/-! ## What the filter accepts -/

def Ipv4Addr.Listed (ip : Ipv4Addr) : Prop :=
  ip.a = 0 ∨ ip.a = 10 ∨ (ip.a = 100 ∧ 64 ≤ ip.b ∧ ip.b ≤ 127) ∨ ip.a = 127 ∨ (ip.a = 169 ∧ ip.b = 254) ∨
    (ip.a = 172 ∧ 16 ≤ ip.b ∧ ip.b ≤ 31) ∨ (ip.a = 192 ∧ ip.b = 168) ∨ (ip.a = 192 ∧ ip.b = 0 ∧ ip.c = 2) ∨
      (ip.a = 198 ∧ ip.b = 51 ∧ ip.c = 100) ∨ (ip.a = 203 ∧ ip.b = 0 ∧ ip.c = 113) ∨
        (ip.a = 198 ∧ ip.b = 18 ∨ ip.a = 198 ∧ ip.b = 19) ∨ (224 ≤ ip.a ∧ ip.a ≤ 239)

theorem Ipv4Addr.nonGlobal_iff (ip : Ipv4Addr) : ip.NonGlobal ↔ ip.Listed ∨ 240 ≤ ip.a := by
  have a := ip.a.toNat_lt
  have b := ip.b.toNat_lt
  have c := ip.c.toNat_lt
  have d := ip.d.toNat_lt
  simp only [NonGlobal, nonGlobalV4, Listed, List.mem_cons, exists_eq_or_imp, exists_eq_left, List.not_mem_nil, or_false,
    or_assoc, InBlock, number, ← UInt8.toNat_inj, UInt8.le_iff_toNat_le, UInt8.toNat_ofNat, ← and_or_left]
  norm_num only
  repeat' apply or_congr
  all_goals omega

theorem isPublicIpv4_eq_false_iff (ip : Ipv4Addr) :
    isPublicIpv4 ip = false ↔ ip.Listed ∨ ip.a = 240 ∨ ip = ⟨255, 255, 255, 255⟩ := by
  have unspecified : ∀ front : Prop, (front ∨ ip = ⟨0, 0, 0, 0⟩) ∨ ip.a = 0 ↔ front ∨ ip.a = 0 := by
    intro front
    have zero : ip = ⟨0, 0, 0, 0⟩ → ip.a = 0 := fun same => by rw [same]
    rw [or_assoc, or_iff_right_of_imp zero]
  simp only [isPublicIpv4, Ipv4Addr.isPrivate, Ipv4Addr.isLoopback, Ipv4Addr.isLinkLocal, Ipv4Addr.isBroadcast,
    Ipv4Addr.isDocumentation, Ipv4Addr.isMulticast, Ipv4Addr.isUnspecified, Bool.not_eq_false', Bool.or_eq_true,
    Bool.and_eq_true, decide_eq_true_eq, beq_iff_eq, unspecified, Ipv4Addr.Listed]
  -- the filter has the same tests in another order
  refine iff_of_eq ?_
  ac_rfl

theorem Ipv4Addr.Listed.not_lt {ip : Ipv4Addr} (listed : ip.Listed) : ¬ 240 < ip.a := by
  simp only [Listed, ← UInt8.toNat_inj, UInt8.le_iff_toNat_le, UInt8.lt_iff_toNat_lt, UInt8.toNat_ofNat] at listed ⊢
  norm_num only at listed ⊢
  omega

theorem isPublicIpv4_iff (ip : Ipv4Addr) : isPublicIpv4 ip = true ↔ ¬ ip.NonGlobal ∨ (IpAddr.v4 ip).Leaks := by
  rw [← Bool.not_eq_false, isPublicIpv4_eq_false_iff, ip.nonGlobal_iff]
  by_cases listed : ip.Listed
  · simp [listed, listed.not_lt, IpAddr.Leaks]
  · have last : ¬ 240 ≤ ip.a ∨ 240 < ip.a ↔ ¬ ip.a = 240 := by
      simp only [UInt8.le_iff_toNat_le, UInt8.lt_iff_toNat_lt, ← UInt8.toNat_inj]
      omega
    have broadcast : ip = ⟨255, 255, 255, 255⟩ → 240 ≤ ip.a := fun same => by rw [same]; decide
    simp only [listed, false_or, IpAddr.Leaks, ne_eq, not_or, ← last]
    tauto

theorem mapped_public {ip : Ipv6Addr} {inner : Ipv4Addr} (mapped : ip.mapped = some inner) :
    isPublicIpv6 ip = true := by
  unfold Ipv6Addr.mapped at mapped
  split at mapped
  · rename_i form
    obtain ⟨a, -, -, -, -, f⟩ := form
    have loopback : ip ≠ ⟨0, 0, 0, 0, 0, 0, 0, 1⟩ := fun same => by simp [same] at f
    have unspecified : ip ≠ ⟨0, 0, 0, 0, 0, 0, 0, 0⟩ := fun same => by simp [same] at f
    simp [isPublicIpv6, Ipv6Addr.isLoopback, Ipv6Addr.isMulticast, Ipv6Addr.isUnspecified, loopback, unspecified, a]
  · cases mapped

theorem Ipv6Addr.number_injective {ip other : Ipv6Addr} (same : ip.number = other.number) : ip = other := by
  obtain ⟨a, b, c, d, e, f, g, h⟩ := ip
  obtain ⟨a', b', c', d', e', f', g', h'⟩ := other
  simp only [number] at same
  simp only [mk.injEq, ← UInt16.toNat_inj]
  norm_num only at same
  have bounds := (⟨⟨a.toNat_lt, b.toNat_lt, c.toNat_lt, d.toNat_lt⟩, e.toNat_lt, f.toNat_lt, g.toNat_lt, h.toNat_lt⟩ :
    (_ ∧ _ ∧ _ ∧ _) ∧ _ ∧ _ ∧ _ ∧ _)
  have otherBounds := (⟨⟨a'.toNat_lt, b'.toNat_lt, c'.toNat_lt, d'.toNat_lt⟩, e'.toNat_lt, f'.toNat_lt, g'.toNat_lt,
    h'.toNat_lt⟩ : (_ ∧ _ ∧ _ ∧ _) ∧ _ ∧ _ ∧ _ ∧ _)
  omega

theorem Ipv6Addr.inBlock_iff {ip net : Ipv6Addr} {len : Nat} (short : len ≤ 16) :
    InBlock 128 len net.number ip.number ↔ InBlock 16 len net.a.toNat ip.a.toNat := by
  have tail : ∀ ip : Ipv6Addr, ip.b.toNat * 2 ^ 96 + (ip.c.toNat * 2 ^ 80 + (ip.d.toNat * 2 ^ 64 + (ip.e.toNat * 2 ^ 48 +
      (ip.f.toNat * 2 ^ 32 + (ip.g.toNat * 2 ^ 16 + ip.h.toNat))))) < 2 ^ 112 := by
    intro ip
    have bounds := (⟨ip.b.toNat_lt, ip.c.toNat_lt, ip.d.toNat_lt, ip.e.toNat_lt, ip.f.toNat_lt, ip.g.toNat_lt,
      ip.h.toNat_lt⟩ : _ ∧ _ ∧ _ ∧ _ ∧ _ ∧ _ ∧ _)
    omega
  exact inBlock_lead short (tail ip) (tail net)

theorem segment_mask {segment mask net : UInt16} {len rest lead : Nat} (width : len + rest = 16)
    (isMask : mask.toNat = (2 ^ len - 1) * 2 ^ rest) (isNet : net.toNat = lead * 2 ^ rest) :
    segment &&& mask = net ↔ InBlock 16 len net.toNat segment.toNat := by
  have fits : segment.toNat < 2 ^ (len + rest) := by
    rw [width]
    exact segment.toNat_lt
  rw [← UInt16.toNat_inj, UInt16.toNat_and, isMask, isNet, and_mask_eq_iff fits, width]

theorem isPublicIpv6_eq_false_iff (ip : Ipv6Addr) :
    isPublicIpv6 ip = false ↔ ∃ block ∈ nonGlobalV6, InBlock 128 block.2 block.1.number ip.number := by
  have single : ∀ other : Ipv6Addr, InBlock 128 128 other.number ip.number ↔ ip = other := by
    intro other
    rw [inBlock_single]
    exact ⟨Ipv6Addr.number_injective, congrArg Ipv6Addr.number⟩
  have unique : ip.a &&& 0xfe00 = 0xfc00 ↔ InBlock 16 7 0xfc00 ip.a.toNat := @segment_mask _ _ _ 7 9 126 rfl rfl rfl
  have linkLocal : ip.a &&& 0xffc0 = 0xfe80 ↔ InBlock 16 10 0xfe80 ip.a.toNat :=
    @segment_mask _ _ _ 10 6 1018 rfl rfl rfl
  have siteLocal : ip.a &&& 0xffc0 = 0xfec0 ↔ InBlock 16 10 0xfec0 ip.a.toNat :=
    @segment_mask _ _ _ 10 6 1019 rfl rfl rfl
  have multicast : ip.a &&& 0xff00 = 0xff00 ↔ InBlock 16 8 0xff00 ip.a.toNat := @segment_mask _ _ _ 8 8 255 rfl rfl rfl
  simp only [isPublicIpv6, Ipv6Addr.isLoopback, Ipv6Addr.isMulticast, Ipv6Addr.isUnspecified, nonGlobalV6,
    Bool.not_eq_false', Bool.or_eq_true, decide_eq_true_eq, beq_iff_eq, List.mem_cons, exists_eq_or_imp, exists_eq_left,
    List.not_mem_nil, or_false, single, Ipv6Addr.inBlock_iff (show 7 ≤ 16 by decide),
    Ipv6Addr.inBlock_iff (show 10 ≤ 16 by decide), Ipv6Addr.inBlock_iff (show 8 ≤ 16 by decide), unique, linkLocal,
    siteLocal, multicast, UInt16.toNat_ofNat]
  norm_num only
  refine iff_of_eq ?_
  ac_rfl

theorem isPublicIp_iff (ip : IpAddr) : isPublicIp ip = true ↔ ¬ ip.NonGlobal ∨ ip.Leaks := by
  cases ip with
  | v4 ip => exact isPublicIpv4_iff ip
  | v6 ip =>
    have refused := isPublicIpv6_eq_false_iff ip
    rw [isPublicIp, ← Bool.not_eq_false, refused]
    have inside : (IpAddr.v6 ip).Leaks → ¬ ∃ block ∈ nonGlobalV6, InBlock 128 block.2 block.1.number ip.number := by
      rintro ⟨inner, mapped, _⟩
      rw [← refused, mapped_public mapped]
      decide
    constructor
    · intro outside
      by_cases leaks : (IpAddr.v6 ip).Leaks
      · exact .inr leaks
      · exact .inl fun nonGlobal => nonGlobal.elim outside leaks
    · rintro (isGlobal | leaks)
      · exact fun block => isGlobal (.inl block)
      · exact inside leaks

theorem IpAddr.Leaks.nonGlobal {ip : IpAddr} (leaks : ip.Leaks) : ip.NonGlobal := by
  cases ip with
  | v4 ip => exact ip.nonGlobal_iff.mpr (.inr (UInt8.le_of_lt leaks.1))
  | v6 ip => exact .inr leaks

/-! ## The address that is picked -/

theorem firstPublic_ok_iff {addrs : List SocketAddr} {addr : SocketAddr} :
    firstPublic addrs = .ok addr ↔
      ∃ front back, addrs = front ++ addr :: back ∧ isPublicIp addr.ip = true ∧
        ∀ before ∈ front, isPublicIp before.ip = false := by
  induction addrs with
  | nil => simp [firstPublic]
  | cons head rest ih =>
    rw [firstPublic]
    split
    · rename_i accepted
      constructor
      · rintro ⟨⟩
        exact ⟨[], rest, rfl, accepted, by simp⟩
      · rintro ⟨front, back, split, _, before⟩
        cases front with
        | nil =>
          cases split
          rfl
        | cons first front =>
          cases split
          simp [accepted] at before
    -- a split of the rest is one of the whole list, with one refused address more in front
    · rename_i refused
      rw [ih]
      constructor
      · rintro ⟨front, back, rfl, accepted, before⟩
        exact ⟨head :: front, back, rfl, accepted, List.forall_mem_cons.mpr ⟨by simpa using refused, before⟩⟩
      · rintro ⟨front, back, split, accepted, before⟩
        cases front with
        | nil =>
          cases split
          exact absurd accepted refused
        | cons first front =>
          cases split
          exact ⟨front, back, rfl, accepted, (List.forall_mem_cons.mp before).2⟩

theorem firstPublic_error {addrs : List SocketAddr} (refused : ∀ addr ∈ addrs, isPublicIp addr.ip = false) :
    firstPublic addrs = .error .destinationIpProhibited := by
  induction addrs with
  | nil => rfl
  | cons head rest ih =>
    obtain ⟨first, others⟩ := List.forall_mem_cons.mp refused
    rw [firstPublic, first, if_neg Bool.false_ne_true, ih others]

/-- An address that leaks is picked unless the filter stops at one before it. -/
theorem firstPublic_leaks {front back : List SocketAddr} {addr : SocketAddr} (leaks : addr.ip.Leaks)
    (closed : ∀ before ∈ front, before.ip.NonGlobal) :
    ∃ picked, firstPublic (front ++ addr :: back) = .ok picked ∧ picked.ip.NonGlobal := by
  induction front with
  | nil =>
    have accepted : isPublicIp addr.ip = true := (isPublicIp_iff addr.ip).mpr (.inr leaks)
    exact ⟨addr, if_pos accepted, leaks.nonGlobal⟩
  | cons head front ih =>
    obtain ⟨first, others⟩ := List.forall_mem_cons.mp closed
    rw [List.cons_append, firstPublic]
    split
    · exact ⟨head, rfl, first⟩
    · exact ih others

/-- The host connects to global addresses alone, and to none where there is none, exactly for
the lists in which every address that leaks stands behind a global one. -/
theorem resolvePublicAddr_safe_iff (addrs : List SocketAddr) :
    ((∀ addr, resolvePublicAddr (.resolved addrs) = .ok addr → ¬ addr.ip.NonGlobal) ∧
        ((∀ addr ∈ addrs, addr.ip.NonGlobal) →
          resolvePublicAddr (.resolved addrs) = .error .destinationIpProhibited)) ↔
      ∀ front addr back, addrs = front ++ addr :: back → addr.ip.Leaks → ∃ before ∈ front, ¬ before.ip.NonGlobal := by
  constructor
  · rintro ⟨isGlobal, _⟩ front addr back rfl leaks
    by_contra noneBefore
    have closed : ∀ before ∈ front, before.ip.NonGlobal := by
      intro before member
      by_contra other
      exact noneBefore ⟨before, member, other⟩
    obtain ⟨picked, answer, nonGlobal⟩ := @firstPublic_leaks front back addr leaks closed
    exact isGlobal picked answer nonGlobal
  · intro behind
    refine ⟨fun addr picked => ?_, fun closed => ?_⟩
    · obtain ⟨front, back, split, accepted, refused⟩ := firstPublic_ok_iff.mp picked
      rcases (isPublicIp_iff addr.ip).mp accepted with isGlobal | leaks
      · exact isGlobal
      · obtain ⟨before, member, earlier⟩ := behind front addr back split leaks
        have passes : isPublicIp before.ip = true := (isPublicIp_iff before.ip).mpr (.inl earlier)
        rw [refused before member] at passes
        cases passes
    -- an address that is accepted in a list without global ones would leak
    · refine firstPublic_error fun addr member => ?_
      rw [← Bool.not_eq_true, isPublicIp_iff, not_or]
      refine ⟨fun isGlobal => isGlobal (closed addr member), fun leaks => ?_⟩
      obtain ⟨front, back, rfl⟩ := List.append_of_mem member
      obtain ⟨before, earlier, isGlobal⟩ := behind front addr back rfl leaks
      exact isGlobal (closed before (List.mem_append_left _ earlier))

/-- An address of `240/4` and the loopback address as a mapped one, each alone. -/
theorem resolvePublicAddr_leaks :
    (resolvePublicAddr (.resolved [⟨.v4 ⟨241, 0, 0, 1⟩, 443⟩]) = .ok ⟨.v4 ⟨241, 0, 0, 1⟩, 443⟩ ∧
        (IpAddr.v4 ⟨241, 0, 0, 1⟩).NonGlobal) ∧
      (resolvePublicAddr (.resolved [⟨.v6 ⟨0, 0, 0, 0, 0, 0xffff, 0x7f00, 1⟩, 443⟩]) =
          .ok ⟨.v6 ⟨0, 0, 0, 0, 0, 0xffff, 0x7f00, 1⟩, 443⟩ ∧
        (IpAddr.v6 ⟨0, 0, 0, 0, 0, 0xffff, 0x7f00, 1⟩).NonGlobal) := by
  refine ⟨⟨rfl, ?_⟩, rfl, ?_⟩
  · exact ((Ipv4Addr.mk 241 0 0 1).nonGlobal_iff).mpr (.inr (by decide))
  · exact .inr ⟨⟨127, 0, 0, 1⟩, rfl, ((Ipv4Addr.mk 127 0 0 1).nonGlobal_iff).mpr (.inl (.inr (.inr (.inr (.inl rfl)))))⟩

end OneDriveDavfs.Host
