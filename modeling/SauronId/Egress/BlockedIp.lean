import Mathlib.Data.UInt

namespace SauronId.Egress

structure Ipv4Addr where
  (a b c d : UInt8)
  deriving DecidableEq

namespace Ipv4Addr

def isLoopback (ip : Ipv4Addr) : Bool := ip.a = 127

def isPrivate (ip : Ipv4Addr) : Bool :=
  ip.a = 10 ∨ (ip.a = 172 ∧ 16 ≤ ip.b ∧ ip.b ≤ 31) ∨ (ip.a = 192 ∧ ip.b = 168)

def isLinkLocal (ip : Ipv4Addr) : Bool := ip.a = 169 ∧ ip.b = 254

def isBroadcast (ip : Ipv4Addr) : Bool := ip = ⟨255, 255, 255, 255⟩

def isDocumentation (ip : Ipv4Addr) : Bool :=
  (ip.a, ip.b, ip.c) ∈ [(192, 0, 2), (198, 51, 100), (203, 0, 113)]

def isUnspecified (ip : Ipv4Addr) : Bool := ip = ⟨0, 0, 0, 0⟩

def isMulticast (ip : Ipv4Addr) : Bool := 224 ≤ ip.a ∧ ip.a ≤ 239

end Ipv4Addr

structure Ipv6Addr where
  (s0 s1 s2 s3 s4 s5 s6 s7 : UInt16)
  deriving DecidableEq

def toBeBytes (x : UInt16) : UInt8 × UInt8 := (UInt8.ofNat (x.toNat / 256), UInt8.ofNat x.toNat)

namespace Ipv6Addr

def isLoopback (ip : Ipv6Addr) : Bool := ip = ⟨0, 0, 0, 0, 0, 0, 0, 1⟩

def isUnspecified (ip : Ipv6Addr) : Bool := ip = ⟨0, 0, 0, 0, 0, 0, 0, 0⟩

def isMulticast (ip : Ipv6Addr) : Bool := ip.s0 &&& 0xff00 = 0xff00

/-- `Ipv6Addr::to_ipv4`, which reads the mapped and the compatible form. -/
def toIpv4 (ip : Ipv6Addr) : Option Ipv4Addr :=
  if ip.s0 = 0 ∧ ip.s1 = 0 ∧ ip.s2 = 0 ∧ ip.s3 = 0 ∧ ip.s4 = 0 ∧ (ip.s5 = 0 ∨ ip.s5 = 0xffff) then
    let (a, b) := toBeBytes ip.s6
    let (c, d) := toBeBytes ip.s7
    some ⟨a, b, c, d⟩
  else none

end Ipv6Addr

inductive IpAddr
  | v4 (ip : Ipv4Addr)
  | v6 (ip : Ipv6Addr)

def isBlockedIpv4 (ip : Ipv4Addr) : Bool :=
  ip.isLoopback || ip.isPrivate || ip.isLinkLocal || ip.isBroadcast || ip.isDocumentation ||
    ip.isUnspecified || ip.isMulticast || ip.a = 0 || (ip.a = 100 && ip.b &&& 0xC0 = 64)

def isBlockedIp : IpAddr → Bool
  | .v4 ip => isBlockedIpv4 ip
  | .v6 ip =>
    match ip.toIpv4 with
    | some embedded => isBlockedIpv4 embedded
    | none =>
      ip.isLoopback || ip.isUnspecified || ip.isMulticast || ip.s0 &&& 0xfe00 = 0xfc00 ||
        ip.s0 &&& 0xffc0 = 0xfe80 ||
        (ip.s0 = 0x0064 && ip.s1 = 0xff9b && ip.s2 = 0 && ip.s3 = 0) || ip.s0 = 0x2002 ||
        (ip.s0 = 0x2001 && ip.s1 = 0)

/-! ### Addresses that carry another one -/

def fromBeBytes (x y : UInt8) : UInt16 := UInt16.ofNat (256 * x.toNat + y.toNat)

def Ipv4Addr.high (ip : Ipv4Addr) : UInt16 := fromBeBytes ip.a ip.b

def Ipv4Addr.low (ip : Ipv4Addr) : UInt16 := fromBeBytes ip.c ip.d

/-- The five forms. A Teredo address carries two: the one of its server, and the one of its client
with all bits turned. -/
inductive Embeds (ip : Ipv4Addr) : Ipv6Addr → Prop
  | mapped : Embeds ip ⟨0, 0, 0, 0, 0, 0xffff, ip.high, ip.low⟩
  | compatible : Embeds ip ⟨0, 0, 0, 0, 0, 0, ip.high, ip.low⟩
  | nat64 : Embeds ip ⟨0x0064, 0xff9b, 0, 0, 0, 0, ip.high, ip.low⟩
  | sixToFour (site e f g h : UInt16) : Embeds ip ⟨0x2002, ip.high, ip.low, site, e, f, g, h⟩
  | teredoServer (flags port c d : UInt16) :
    Embeds ip ⟨0x2001, 0, ip.high, ip.low, flags, port, c, d⟩
  | teredoClient (a b flags port : UInt16) :
    Embeds ip ⟨0x2001, 0, a, b, flags, port, ~~~ip.high, ~~~ip.low⟩

theorem toBeBytes_fromBeBytes (x y : UInt8) : toBeBytes (fromBeBytes x y) = (x, y) := by
  have hx := x.toNat_lt
  have hy := y.toNat_lt
  have hval : (fromBeBytes x y).toNat = 256 * x.toNat + y.toNat := by
    rw [fromBeBytes, UInt16.toNat_ofNat']
    omega
  rw [toBeBytes, hval, Prod.mk.injEq, ← UInt8.toNat_inj, ← UInt8.toNat_inj, UInt8.toNat_ofNat',
    UInt8.toNat_ofNat']
  omega

theorem toIpv4_of_prefix {s5 : UInt16} (h : s5 = 0 ∨ s5 = 0xffff) (ip : Ipv4Addr) :
    Ipv6Addr.toIpv4 ⟨0, 0, 0, 0, 0, s5, ip.high, ip.low⟩ = some ip := by
  rw [Ipv6Addr.toIpv4, if_pos ⟨rfl, rfl, rfl, rfl, rfl, h⟩]
  simp only [Ipv4Addr.high, Ipv4Addr.low, toBeBytes_fromBeBytes]

theorem toIpv4_eq_none {ip : Ipv6Addr} (h : ip.s0 ≠ 0) : ip.toIpv4 = none :=
  if_neg fun hall ↦ h hall.1

theorem embedded_blocked {ip : Ipv4Addr} {carrier : Ipv6Addr} (h : isBlockedIp (.v4 ip) = true)
    (hcarrier : Embeds ip carrier) : isBlockedIp (.v6 carrier) = true := by
  cases hcarrier with
  | mapped =>
    rw [isBlockedIp, toIpv4_of_prefix (.inr rfl)]
    exact h
  | compatible =>
    rw [isBlockedIp, toIpv4_of_prefix (.inl rfl)]
    exact h
  | nat64 => simp [isBlockedIp, toIpv4_eq_none]
  | sixToFour site e f g h => simp [isBlockedIp, toIpv4_eq_none]
  | teredoServer flags port c d => simp [isBlockedIp, toIpv4_eq_none]
  | teredoClient a b flags port => simp [isBlockedIp, toIpv4_eq_none]

theorem metadata_endpoint_blocked :
    isBlockedIp (.v6 ⟨0x2002, 0xa9fe, 0xa9fe, 0, 0, 0, 0, 1⟩) = true :=
  @embedded_blocked ⟨169, 254, 169, 254⟩ _ (by decide) (.sixToFour 0 0 0 0 1)

end SauronId.Egress
