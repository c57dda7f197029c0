import BatchUDP.Go.Slice
import BatchUDP.Go.Runtime

/-!
# Addresses

Destinations are `netip` addresses; a socket is given a `net.UDPAddr`, whose IP is a byte slice of
length 4 or 16. Both senders take a pooled `net.UDPAddr` and fill it in place: they copy the
destination's bytes into the slice as it was left by its last use, and then reslice it to the
destination's length.

## Main definitions

* `Addr`: `netip.Addr`, with `Addr.is6`, `Addr.as4`, `Addr.as16`, `Addr.unmap`
* `UDPAddr`: `net.UDPAddr`
* `UDPAddr.new`, `UDPAddr.fill`: a new pooled address, and filling a pooled address
* `UDPAddr.Pooled`: what every address in a pool looks like
* `UDPAddr.Reusable`: the pooled addresses that filling sets to the destination

## Main results

* `UDPAddr.exists_fill`: filling a pooled address succeeds and leaves a pooled address
* `UDPAddr.fill_eq_iff`: the filled address is the destination iff the pooled one is reusable for it
-/

namespace BatchUDP

open Go

/-- `netip.Addr`: the zero value, an IPv4 address or an IPv6 address with a zone. -/
inductive Addr where
  | zero
  | v4 (bytes : Vector UInt8 4)
  | v6 (bytes : Vector UInt8 16) (zone : String)
  deriving DecidableEq, Repr

namespace Addr

/-- `Is6`, which includes IPv4-mapped IPv6 addresses. -/
def is6 : Addr → Bool
  | v6 _ _ => true
  | _ => false

/-- The bytes of an address. -/
def bytes : Addr → List UInt8
  | zero => []
  | v4 b => b.toList
  | v6 b _ => b.toList

/-- `Zone`. -/
def zone : Addr → String
  | v6 _ zone => zone
  | _ => ""

/-- The first twelve bytes of an IPv4-mapped IPv6 address. -/
def mappedHead : List UInt8 := List.replicate 10 0 ++ [255, 255]

/-- `Is4In6`. -/
def is4In6 : Addr → Bool
  | v6 b _ => b.toList.take 12 == mappedHead
  | _ => false

/-- `AddrFromSlice`, which keeps the zero value for any other length. -/
def ofSlice (l : List UInt8) : Addr :=
  if h : l.length = 4 then v4 ⟨l.toArray, by simpa using h⟩
  else if h : l.length = 16 then v6 ⟨l.toArray, by simpa using h⟩ ""
  else zero

/-- `Unmap`: an IPv4-mapped IPv6 address becomes the IPv4 address, without a zone. -/
def unmap (a : Addr) : Addr := if a.is4In6 then ofSlice (a.bytes.drop 12) else a

/-- `WithZone`, which leaves other addresses than IPv6 alone. -/
def withZone : Addr → String → Addr
  | v6 b _, zone => v6 b zone
  | a, _ => a

/-- `As4`, which panics on the zero value and on IPv6 addresses that are not IPv4-mapped. -/
def as4 : Addr → Option (List UInt8)
  | zero => none
  | v4 b => some b.toList
  | v6 b zone => if is4In6 (v6 b zone) then some (b.toList.drop 12) else none

/-- `As16`. -/
def as16 : Addr → List UInt8
  | zero => List.replicate 16 0
  | v4 b => mappedHead ++ b.toList
  | v6 b _ => b.toList

end Addr

/-- `net.UDPAddr`. -/
structure UDPAddr where
  ip : Slice UInt8
  port : ℕ
  zone : String
  deriving DecidableEq, Repr

namespace UDPAddr

/-- The address that a pool's `New` makes. -/
def new : UDPAddr := ⟨Slice.ofList (List.replicate 16 0), 0, ""⟩

/-- `AddrPort`. -/
def addrPort (ua : UDPAddr) : Addr × UInt16 :=
  ((Addr.ofSlice ua.ip.toList).withZone ua.zone, UInt16.ofNat ua.port)

/-- `To4` of an IP: its four bytes, if it is an IPv4 address or an IPv4-mapped IPv6 address. -/
def to4 (ip : List UInt8) : Option (List UInt8) :=
  if ip.length = 4 then some ip
  else if ip.length = 16 ∧ ip.take 12 = Addr.mappedHead then some (ip.drop 12)
  else none

/-- Filling a pooled address with a destination, as `Send` and `WriteBatchTo` do: copy the bytes
into the slice as it is, then set its length. -/
def fill (ua : UDPAddr) (dst : Addr) (port : UInt16) : Option UDPAddr :=
  if dst.is6 then do
    let ip ← (ua.ip.copy dst.as16).reslice 16
    some { ua with ip := ip, port := port.toNat }
  else do
    let as4 ← dst.as4
    let ip ← (ua.ip.copy as4).reslice 4
    some { ua with ip := ip, port := port.toNat }

/-- The addresses in a pool: sixteen bytes of which four or sixteen are visible. -/
def Pooled (ua : UDPAddr) : Prop := ua.ip.cap = 16 ∧ (ua.ip.len = 4 ∨ ua.ip.len = 16)

theorem pooled_new : new.Pooled := ⟨rfl, .inr rfl⟩

/-- The pooled addresses that filling sets to the destination: any for an IPv4 destination. For an
IPv6 destination all sixteen bytes have to be visible, or the hidden twelve be right already. -/
def Reusable (ua : UDPAddr) (dst : Addr) : Prop :=
  dst.is6 = false ∨ ua.ip.len = 16 ∨ ua.ip.arr.drop 4 = dst.bytes.drop 4

instance (ua : UDPAddr) (dst : Addr) : Decidable (ua.Reusable dst) :=
  inferInstanceAs (Decidable (_ ∨ _ ∨ _))

/-- Filling a pooled address with an IPv4 destination. -/
theorem fill_v4 {ua : UDPAddr} (h : ua.Pooled) (b : Vector UInt8 4) (port : UInt16) :
    ∃ ua', ua.fill (.v4 b) port = some ua' ∧ ua'.Pooled ∧ ua'.port = port.toNat ∧
      ua'.ip.toList = b.toList := by
  obtain ⟨hc, hl⟩ := h
  have h4 : 4 ≤ (ua.ip.copy b.toList).cap := by
    rw [Slice.cap_copy]
    omega
  refine ⟨{ ua with ip := ⟨(ua.ip.copy b.toList).arr, 4, h4⟩, port := port.toNat }, ?_, ?_, rfl, ?_⟩
  · simp [fill, Addr.is6, Addr.as4, Slice.reslice_of_le h4]
  · exact ⟨(Slice.cap_copy _ _).trans hc, .inl rfl⟩
  · have hb : b.toList.length = 4 := Vector.length_toList
    show (ua.ip.copy b.toList).arr.take 4 = b.toList
    have ht : b.toList.take ua.ip.len = b.toList := List.take_of_length_le (by omega)
    rw [Slice.arr_copy, ht, List.take_left' hb]

/-- Filling a pooled address with an IPv6 destination: the bytes behind the visible ones stay. -/
theorem fill_v6 {ua : UDPAddr} (h : ua.Pooled) (b : Vector UInt8 16) (zone : String)
    (port : UInt16) :
    ∃ ua', ua.fill (.v6 b zone) port = some ua' ∧ ua'.Pooled ∧ ua'.port = port.toNat ∧
      ua'.ip.toList = b.toList.take ua.ip.len ++ ua.ip.arr.drop ua.ip.len := by
  obtain ⟨hc, hl⟩ := h
  have hb : b.toList.length = 16 := Vector.length_toList
  have h16 : 16 ≤ (ua.ip.copy b.toList).cap := by
    rw [Slice.cap_copy]
    omega
  refine ⟨{ ua with ip := ⟨(ua.ip.copy b.toList).arr, 16, h16⟩, port := port.toNat },
    ?_, ?_, rfl, ?_⟩
  · simp [fill, Addr.is6, Addr.as16, Slice.reslice_of_le h16]
  · exact ⟨(Slice.cap_copy _ _).trans hc, .inr rfl⟩
  · have hcop : ua.ip.copied b.toList = ua.ip.len := min_eq_left (by omega)
    show (ua.ip.copy b.toList).arr.take 16 = _
    have hcap := Slice.cap_copy ua.ip b.toList
    unfold Slice.cap at hcap hc
    rw [List.take_of_length_le (by omega), Slice.arr_copy, hcop]

/-- **Filling a pooled address succeeds** for every IPv4 or IPv6 destination, and leaves a pooled
address with the destination's port. -/
theorem exists_fill {ua : UDPAddr} (h : ua.Pooled) {dst : Addr} (hd : dst ≠ .zero)
    (port : UInt16) :
    ∃ ua', ua.fill dst port = some ua' ∧ ua'.Pooled ∧ ua'.port = port.toNat := by
  cases dst with
  | zero => exact absurd rfl hd
  | v4 b =>
    obtain ⟨ua', he, hp, ht, -⟩ := fill_v4 h b port
    exact ⟨ua', he, hp, ht⟩
  | v6 b zone =>
    obtain ⟨ua', he, hp, ht, -⟩ := fill_v6 h b zone port
    exact ⟨ua', he, hp, ht⟩

/-- A filled address is pooled, if it was before: filling fails without a destination. -/
theorem Pooled.of_fill {ua ua' : UDPAddr} (h : ua.Pooled) {dst : Addr} {port : UInt16}
    (he : ua.fill dst port = some ua') : ua'.Pooled := by
  have hd : dst ≠ .zero := by
    rintro rfl
    simp [fill, Addr.is6, Addr.as4] at he
  obtain ⟨ua'', he', hp, -⟩ := exists_fill h hd port
  obtain rfl := Option.some.inj (he.symm.trans he')
  exact hp

/-- Filling an address leaves its zone alone. -/
theorem zone_fill {ua ua' : UDPAddr} {dst : Addr} {port : UInt16}
    (he : ua.fill dst port = some ua') : ua'.zone = ua.zone := by
  unfold fill at he
  split_ifs at he
  · obtain ⟨ip, -, he⟩ := Option.bind_eq_some_iff.mp he
    obtain rfl := Option.some.inj he
    rfl
  · obtain ⟨as4, -, he⟩ := Option.bind_eq_some_iff.mp he
    obtain ⟨ip, -, he⟩ := Option.bind_eq_some_iff.mp he
    obtain rfl := Option.some.inj he
    rfl

/-- **The filled address is the destination** iff the pooled address was reusable for it. -/
theorem fill_eq_iff {ua ua' : UDPAddr} (h : ua.Pooled) {dst : Addr} {port : UInt16}
    (he : ua.fill dst port = some ua') : ua'.ip.toList = dst.bytes ↔ ua.Reusable dst := by
  cases dst with
  | zero => simp [fill, Addr.is6, Addr.as4] at he
  | v4 b =>
    obtain ⟨ua₁, he₁, -, -, hb⟩ := fill_v4 h b port
    obtain rfl : ua₁ = ua' := Option.some.inj (he₁.symm.trans he)
    exact ⟨fun _ => .inl rfl, fun _ => hb⟩
  | v6 b zone =>
    obtain ⟨ua₁, he₁, -, -, hb⟩ := fill_v6 h b zone port
    obtain rfl : ua₁ = ua' := Option.some.inj (he₁.symm.trans he)
    have h16 : b.toList.length = 16 := Vector.length_toList
    have hcap : ua.ip.arr.length = 16 := h.1
    rw [hb]
    simp only [Reusable, Addr.is6, Addr.bytes, Bool.true_eq_false, false_or]
    rcases h.2 with hl | hl
    · rw [hl]
      constructor
      · intro he'
        refine .inr ?_
        rw [← he', List.drop_left' (by rw [List.length_take]; omega)]
      · intro he'
        rw [he'.resolve_left (by decide), List.take_append_drop]
    · rw [hl, List.take_of_length_le (by omega), List.drop_eq_nil_of_le (by omega)]
      simp

end UDPAddr

end BatchUDP
