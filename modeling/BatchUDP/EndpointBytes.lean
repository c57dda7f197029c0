import BatchUDP.StdNet.Bind
import BatchUDP.Windows.Send

/-!
# The bytes of a destination

`DstToBytes` of an endpoint goes into the cookies that a peer is given, which tell one destination
from another. The two kinds of endpoints hold the destination in different forms: a `StdNetEndpoint`
has an address and a port, a `WinRingEndpoint` the bytes of a socket address, with the port in
network order. Their bytes agree nevertheless: the bytes are the same iff the IP address, with its
zone, and the port are. The scope of a `WinRingEndpoint` is not part of its IP address, so that it
does not make a difference.

## Main definitions

* `StdNetEndpoint.DstToBytes`, `WinRingEndpoint.DstToBytes`
* `Endpoint`: the two kinds of endpoints

## Main results

* `Endpoint.DstToBytes_eq`: the bytes of the address, and then the port, the low byte first
* `Endpoint.DstToBytes_eq_iff`: the bytes tell the destinations apart
-/

namespace BatchUDP

open Go Unix

/-- `netip.Addr.MarshalBinary`. -/
def Addr.marshalBinary : Addr → List UInt8
  | zero => []
  | v4 b => b.toList
  | v6 b zone => b.toList ++ zone.toByteArray.data.toList

/-- `netip.AddrPort.MarshalBinary`. -/
def marshalAddrPort (addr : Addr) (port : UInt16) : List UInt8 :=
  addr.marshalBinary ++ leBytes 2 port.toNat

/-- `StdNetEndpoint.DstToBytes`. -/
def StdNetEndpoint.DstToBytes (ep : StdNetEndpoint) : List UInt8 := marshalAddrPort ep.addr ep.port

namespace WinRingEndpoint

/-- `windows.AF_INET`. -/
def afInet : UInt16 := 2

/-- `windows.AF_INET6`. -/
def afInet6 : UInt16 := 23

/-- The slice expression `e.data[lo:hi]`. -/
def slice (ep : WinRingEndpoint) (lo hi : ℕ) : List UInt8 := (ep.data.toList.take hi).drop lo

/-- `DstIP`. -/
def DstIP (ep : WinRingEndpoint) : Addr :=
  if ep.family = afInet then Addr.ofSlice (ep.slice 2 6)
  else if ep.family = afInet6 then Addr.ofSlice (ep.slice 6 22)
  else .zero

/-- The port, which is in network order. -/
def port (ep : WinRingEndpoint) : UInt16 :=
  UInt16.ofNat (256 * ep.data[0].toNat + ep.data[1].toNat)

/-- `DstToBytes`. -/
def DstToBytes (ep : WinRingEndpoint) : List UInt8 :=
  if ep.family = afInet then ep.slice 2 6 ++ [ep.data[1], ep.data[0]]
  else if ep.family = afInet6 then ep.slice 6 22 ++ [ep.data[1], ep.data[0]]
  else []

end WinRingEndpoint

/-- `Endpoint`, of either kind. -/
inductive Endpoint where
  | stdNet (ep : StdNetEndpoint)
  | winRing (ep : WinRingEndpoint)

namespace Endpoint

/-- `DstIP`. -/
def DstIP : Endpoint → Addr
  | stdNet ep => ep.addr
  | winRing ep => ep.DstIP

/-- The port of the destination. -/
def port : Endpoint → UInt16
  | stdNet ep => ep.port
  | winRing ep => ep.port

/-- `DstToBytes`. -/
def DstToBytes : Endpoint → List UInt8
  | stdNet ep => ep.DstToBytes
  | winRing ep => ep.DstToBytes

/-- A socket address is one of the Internet protocols. -/
def Valid : Endpoint → Prop
  | stdNet _ => True
  | winRing ep => ep.family = WinRingEndpoint.afInet ∨ ep.family = WinRingEndpoint.afInet6

end Endpoint

/-! ## Marshalling -/

/-- The bytes of an address, with its zone, determine it. -/
theorem Addr.marshalBinary_inj {a a' : Addr} (h : a.marshalBinary = a'.marshalBinary) : a = a' := by
  have hlen := congrArg List.length h
  cases a with
  | zero =>
    cases a' with
    | zero => rfl
    | v4 b => simp [marshalBinary] at hlen
    | v6 b zone =>
      simp only [marshalBinary, List.length_append, Vector.length_toList, List.length_nil] at hlen
      omega
  | v4 b =>
    cases a' with
    | zero => simp [marshalBinary] at hlen
    | v4 b' => simpa [marshalBinary, Vector.toList_inj] using h
    | v6 b' zone =>
      simp only [marshalBinary, List.length_append, Vector.length_toList] at hlen
      omega
  | v6 b zone =>
    cases a' with
    | zero =>
      simp only [marshalBinary, List.length_append, Vector.length_toList, List.length_nil] at hlen
      omega
    | v4 b' =>
      simp only [marshalBinary, List.length_append, Vector.length_toList] at hlen
      omega
    | v6 b' zone' =>
      obtain ⟨hb, hz⟩ := List.append_inj h (by simp)
      obtain rfl := Vector.toList_inj.mp hb
      obtain rfl := String.toByteArray_inj.mp (ByteArray.ext (Array.toList_inj.mp hz))
      rfl

theorem Addr.marshalBinary_ofSlice {l : List UInt8} (h : l.length = 4 ∨ l.length = 16) :
    (Addr.ofSlice l).marshalBinary = l := by
  unfold ofSlice
  rcases h with h | h
  · rw [dif_pos h]
    simp [marshalBinary, Vector.toList]
  · rw [dif_neg (by omega), dif_pos h]
    simp [marshalBinary, Vector.toList]

/-- The bytes of an address and a port determine both. -/
theorem marshalAddrPort_inj {a a' : Addr} {port port' : UInt16}
    (h : marshalAddrPort a port = marshalAddrPort a' port') : a = a' ∧ port = port' := by
  obtain ⟨ha, hp⟩ := List.append_inj' h (by simp)
  refine ⟨Addr.marshalBinary_inj ha, UInt16.toNat_inj.mp ?_⟩
  have := congrArg leNat hp
  rwa [leNat_leBytes port.toNat_lt, leNat_leBytes port'.toNat_lt] at this

namespace WinRingEndpoint

/-- The port with its low byte first. -/
theorem leBytes_port (ep : WinRingEndpoint) :
    leBytes 2 ep.port.toNat = [ep.data[1], ep.data[0]] := by
  have h₀ := ep.data[0].toNat_lt
  have h₁ := ep.data[1].toNat_lt
  have hport : ep.port.toNat = 256 * ep.data[0].toNat + ep.data[1].toNat := by
    simp only [port, UInt16.toNat_ofNat']
    omega
  have hval : 256 * ep.data[0].toNat + ep.data[1].toNat = leNat [ep.data[1], ep.data[0]] := by
    simp only [leNat]
    omega
  refine (leNat_inj (by simp)).mp ?_
  rw [leNat_leBytes ep.port.toNat_lt, hport, hval]

/-- The bytes of a socket address are those of its address and port. -/
theorem DstToBytes_eq {ep : WinRingEndpoint} (h : ep.family = afInet ∨ ep.family = afInet6) :
    ep.DstToBytes = marshalAddrPort ep.DstIP ep.port := by
  have hlen (lo hi : ℕ) (hhi : hi ≤ 30) : (ep.slice lo hi).length = hi - lo := by
    simp [slice, hhi]
  unfold DstToBytes DstIP marshalAddrPort
  rw [leBytes_port]
  split_ifs with h₄ h₆
  · rw [Addr.marshalBinary_ofSlice (.inl (hlen 2 6 (by omega)))]
  · rw [Addr.marshalBinary_ofSlice (.inr (hlen 6 22 (by omega)))]
  · exact absurd h (by simp [h₄, h₆])

end WinRingEndpoint

namespace Endpoint

/-- The bytes of the address, and then the port, the low byte first. -/
theorem DstToBytes_eq {e : Endpoint} (h : e.Valid) :
    e.DstToBytes = marshalAddrPort e.DstIP e.port := by
  cases e with
  | stdNet ep => rfl
  | winRing ep => exact WinRingEndpoint.DstToBytes_eq h

/-- **The bytes tell the destinations apart**: those of two endpoints, of whichever kind, are the
same iff their IP addresses and ports are. -/
theorem DstToBytes_eq_iff {e e' : Endpoint} (h : e.Valid) (h' : e'.Valid) :
    e.DstToBytes = e'.DstToBytes ↔ e.DstIP = e'.DstIP ∧ e.port = e'.port := by
  rw [DstToBytes_eq h, DstToBytes_eq h']
  constructor
  · exact marshalAddrPort_inj
  · rintro ⟨hip, hport⟩
    rw [hip, hport]

/-- The loopback address, as an endpoint of `StdNetBind`. -/
def loopbackStdNet : Endpoint := stdNet StdNetBind.localhost

/-- The loopback address, as an endpoint of `WinRingBind` with a scope that does not matter. -/
def loopbackWinRing : Endpoint :=
  winRing ⟨2, #v[202, 108, 127, 0, 0, 1, 0, 0, 0, 0, 0, 0, 0, 0, 0, 0, 0, 0, 0, 0, 0, 0, 7, 0, 0, 0,
    0, 0, 0, 0]⟩

theorem DstToBytes_eq_iff_loopback :
    loopbackWinRing.Valid ∧ loopbackStdNet.DstToBytes = [127, 0, 0, 1, 108, 202] ∧
      loopbackWinRing.DstToBytes = loopbackStdNet.DstToBytes := by
  have hv : loopbackWinRing.Valid := .inl rfl
  have hv' : loopbackStdNet.Valid := trivial
  exact ⟨hv, by decide, (DstToBytes_eq_iff hv hv').mpr ⟨by decide, by decide⟩⟩

end Endpoint

end BatchUDP
