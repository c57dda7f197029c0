import BatchUDP.Net
import BatchUDP.Unix.Cmsg

/-!
# Segmentation and source control data

The control data of a datagram carries two things: the segment size of a coalesced payload, which
the kernel reports as `UDP_GRO` and takes as `UDP_SEGMENT`, and the local address of a datagram, a
`PKTINFO` message that an endpoint caches as its sticky source. Segment sizes are handled on Linux
and Android, sticky sources on Linux only; elsewhere the same functions do nothing.

## Main definitions

* `Platform`: the build, with the control message parser it links
* `StdNetEndpoint`: a destination with its cached source
* `getGSOSize`, `setGSOSize`: reading and writing segment sizes
* `getSrcFromControl`, `setSrcControl`, `srcIP`, `srcIfidx`: reading and writing sticky sources
* `StdNetEndpoint.SrcFramed`: the cached source is empty or one `PKTINFO` message

## Main results

* `toList_setSrcControl_of_le`: a control buffer receives the sticky source
* `exists_toList_setGSOSize`: the segment size is appended as one control message
* `exists_toList_setGSOSize_setSrcControl_of_le`: the sticky source, then the segment size
-/

namespace BatchUDP

open Go Unix

/-- The operating systems that the build distinguishes. -/
inductive GOOS where
  | linux
  | android
  | other
  deriving DecidableEq, Repr

/-- A build: its operating system, and the control message parser it links. -/
structure Platform where
  goos : GOOS
  control : SocketControl

namespace Platform

/-- The test `runtime.GOOS == "linux" || runtime.GOOS == "android"`, which also selects the files
with support for segment sizes. -/
def hasOffload (p : Platform) : Bool := p.goos = .linux ∨ p.goos = .android

/-- A Linux build. -/
def linux : Platform := ⟨.linux, SocketControl.sys⟩

/-- An Android build. -/
def android : Platform := ⟨.android, SocketControl.sys⟩

end Platform

/-! ## Segment sizes -/

/-- `unix.SOL_UDP`. -/
def solUDP : ℕ := 17

/-- `unix.UDP_SEGMENT`. -/
def udpSegment : ℕ := 103

/-- `unix.UDP_GRO`. -/
def udpGRO : ℕ := 104

/-- The size of a segment size in control data. -/
def sizeOfGSOData : ℕ := 2

/-- The pooled capacity for segment size control data. -/
def gsoControlSize (p : Platform) : ℕ := if p.hasOffload then cmsgSpace sizeOfGSOData else 0

/-- The segment size in a `UDP_GRO` message. -/
def groData (hdr : Cmsghdr) (data : List UInt8) : Option ℕ :=
  if hdr.level = solUDP ∧ hdr.type = udpGRO ∧ sizeOfGSOData ≤ data.length then
    some (leNat (data.take sizeOfGSOData))
  else none

/-- `getGSOSize`: the segment size that the kernel reported, or 0. -/
def getGSOSize (p : Platform) (control : List UInt8) : Except Error ℕ :=
  if p.hasOffload then
    match p.control.scan groData control with
    | .error e => .error (.wrapped "error parsing socket control message" e)
    | .ok (some gso) => .ok gso
    | .ok none => .ok 0
  else .ok 0

/-- `setGSOSize`: append a `UDP_SEGMENT` message, unless the spare capacity is too small. -/
def setGSOSize (p : Platform) (control : Slice UInt8) (gsoSize : ℕ) : Slice UInt8 :=
  if p.hasOffload then
    let avail := control.cap - control.len
    let space := cmsgSpace sizeOfGSOData
    -- the segment size is silently left out
    if avail < space then control
    else control.extend space
      ((Cmsghdr.mk (cmsgLen sizeOfGSOData) solUDP udpSegment).bytes ++
        leBytes sizeOfGSOData gsoSize)
  else control

theorem framed_gso (type g : ℕ) {pad : List UInt8} (ht : type < 256 ^ 4) (hp : pad.length = 6) :
    Framed solUDP type (leBytes sizeOfGSOData g) pad where
  level_lt := by decide
  type_lt := ht
  data_lt := by rw [length_leBytes]; decide
  pad_eq := by rw [length_leBytes, hp]; rfl

/-- The segment size is appended as one control message, padded with old contents of the buffer. -/
theorem exists_toList_setGSOSize {p : Platform} (hp : p.hasOffload = true) {control : Slice UInt8}
    (h : control.len + cmsgSpace sizeOfGSOData ≤ control.cap) (g : ℕ) :
    ∃ pad : List UInt8, pad.length = 6 ∧ (setGSOSize p control g).toList =
      control.toList ++ cmsg solUDP udpSegment (leBytes sizeOfGSOData g) pad := by
  have hav : ¬ control.cap - control.len < cmsgSpace sizeOfGSOData := by omega
  have hl : ((Cmsghdr.mk (cmsgLen sizeOfGSOData) solUDP udpSegment).bytes ++
      leBytes sizeOfGSOData g).length = 18 := by
    rw [List.length_append, Cmsghdr.length_bytes, length_leBytes]
    rfl
  have hs : cmsgSpace sizeOfGSOData = 24 := rfl
  refine ⟨(control.arr.drop (control.len + 18)).take 6, ?_, ?_⟩
  · have : control.cap = control.arr.length := rfl
    rw [List.length_take, List.length_drop]
    omega
  · rw [setGSOSize, if_pos hp]
    simp only [if_neg hav]
    rw [Slice.toList_extend h (by omega), hl, hs]
    simp [cmsg, List.append_assoc]

@[simp] theorem cap_setGSOSize (p : Platform) (control : Slice UInt8) (g : ℕ) :
    (setGSOSize p control g).cap = control.cap := by
  simp only [setGSOSize]
  split_ifs <;> simp

/-- The kernel's segment size of a message with the given control data: 0 stands for none. -/
def segmentSize (control : List UInt8) : ℕ :=
  match findMessage solUDP udpSegment control with
  | some data => leNat (data.take sizeOfGSOData)
  | none => 0

/-! ## Sticky sources -/

/-- `unix.IPPROTO_IP`. -/
def ipprotoIP : ℕ := 0

/-- `unix.IP_PKTINFO`. -/
def ipPktinfo : ℕ := 8

/-- `unix.IPPROTO_IPV6`. -/
def ipprotoIPv6 : ℕ := 41

/-- `unix.IPV6_PKTINFO`. -/
def ipv6Pktinfo : ℕ := 50

/-- `unix.SizeofInet4Pktinfo`. -/
def sizeofInet4Pktinfo : ℕ := 12

/-- `unix.SizeofInet6Pktinfo`. -/
def sizeofInet6Pktinfo : ℕ := 20

/-- The pooled capacity for sticky source control data. -/
def stickyControlSize (p : Platform) : ℕ :=
  if p.goos = .linux then cmsgSpace sizeofInet6Pktinfo else 0

/-- `StdNetEndpoint`: the destination and the cached source control data. The nil source is the
empty slice without capacity. -/
structure StdNetEndpoint where
  addr : Addr
  port : UInt16
  src : Slice UInt8
  deriving DecidableEq, Repr

namespace StdNetEndpoint

/-- An endpoint without a source. -/
def ofAddrPort (addr : Addr) (port : UInt16) : StdNetEndpoint := ⟨addr, port, Slice.ofList []⟩

/-- `ClearSrc`. -/
def clearSrc (ep : StdNetEndpoint) : StdNetEndpoint := { ep with src := ep.src.clear }

/-- `SrcIP`. -/
def srcIP (p : Platform) (ep : StdNetEndpoint) : Addr :=
  if p.goos = .linux then
    if ep.src.len = cmsgSpace sizeofInet4Pktinfo then
      .ofSlice ((ep.src.toList.drop (cmsgLen 4)).take 4)
    else if ep.src.len = cmsgSpace sizeofInet6Pktinfo then
      .ofSlice ((ep.src.toList.drop (cmsgLen 0)).take 16)
    else .zero
  else .zero

/-- `SrcIfidx`, a signed 32-bit number. -/
def srcIfidx (p : Platform) (ep : StdNetEndpoint) : ℤ :=
  if p.goos = .linux then
    if ep.src.len = cmsgSpace sizeofInet4Pktinfo then
      (BitVec.ofNat 32 (leNat ((ep.src.toList.drop (cmsgLen 0)).take 4))).toInt
    else if ep.src.len = cmsgSpace sizeofInet6Pktinfo then
      (BitVec.ofNat 32 (leNat ((ep.src.toList.drop (cmsgLen 16)).take 4))).toInt
    else 0
  else 0

end StdNetEndpoint

/-- The header and data of a `PKTINFO` message, with the size of its data type. -/
def pktinfoData (hdr : Cmsghdr) (data : List UInt8) : Option (Cmsghdr × List UInt8 × ℕ) :=
  if hdr.level = ipprotoIP ∧ hdr.type = ipPktinfo then some (hdr, data, sizeofInet4Pktinfo)
  else if hdr.level = ipprotoIPv6 ∧ hdr.type = ipv6Pktinfo then
    some (hdr, data, sizeofInet6Pktinfo)
  else none

/-- Caching a `PKTINFO` message in a source buffer, which is reused when it is large enough. The
header is copied as it is, the data as far as it fits. -/
def cacheSrc (src : Slice UInt8) (hdr : Cmsghdr) (data : List UInt8) (size : ℕ) : Slice UInt8 :=
  let buf := if src.cap < cmsgSpace size then Slice.ofList (List.replicate (cmsgSpace size) 0)
    else src
  match buf.reslice (cmsgSpace size) with
  | some s => (s.copy hdr.bytes).copyAt (cmsgLen 0) data
  | none => buf

/-- `getSrcFromControl`: cache the first `PKTINFO` message of the control data. -/
def getSrcFromControl (p : Platform) (control : List UInt8) (ep : StdNetEndpoint) :
    StdNetEndpoint :=
  if p.goos = .linux then
    let ep := ep.clearSrc
    match p.control.scan pktinfoData control with
    | .ok (some (hdr, data, size)) => { ep with src := cacheSrc ep.src hdr data size }
    | .ok none => ep
    -- a parse error leaves the endpoint without a source
    | .error _ => ep
  else ep

/-- `setSrcControl`: replace the control data by the cached source, unless the capacity is too
small. -/
def setSrcControl (p : Platform) (control : Slice UInt8) (ep : StdNetEndpoint) : Slice UInt8 :=
  if p.goos = .linux then
    if control.cap < ep.src.len then control else control.clear.append ep.src.toList
  else control

namespace StdNetEndpoint

/-- The source control data that a message to this endpoint starts with. -/
def stickyControl (p : Platform) (ep : StdNetEndpoint) : List UInt8 :=
  if p.goos = .linux then ep.src.toList else []

/-- The cached source is empty or one `PKTINFO` message, as the kernel delivers it. -/
def SrcFramed (ep : StdNetEndpoint) : Prop :=
  ep.src.toList = [] ∨ ∃ data pad : List UInt8, pad.length = 4 ∧
    (data.length = sizeofInet4Pktinfo ∧ ep.src.toList = cmsg ipprotoIP ipPktinfo data pad ∨
      data.length = sizeofInet6Pktinfo ∧ ep.src.toList = cmsg ipprotoIPv6 ipv6Pktinfo data pad)

end StdNetEndpoint

section Sticky

variable {p : Platform} {ep : StdNetEndpoint}

theorem framed_pktinfo4 {data pad : List UInt8} (hd : data.length = sizeofInet4Pktinfo)
    (hp : pad.length = 4) : Framed ipprotoIP ipPktinfo data pad where
  level_lt := by decide
  type_lt := by decide
  data_lt := by rw [hd]; decide
  pad_eq := by rw [hd, hp]; rfl

theorem framed_pktinfo6 {data pad : List UInt8} (hd : data.length = sizeofInet6Pktinfo)
    (hp : pad.length = 4) : Framed ipprotoIPv6 ipv6Pktinfo data pad where
  level_lt := by decide
  type_lt := by decide
  data_lt := by rw [hd]; decide
  pad_eq := by rw [hd, hp]; rfl

theorem StdNetEndpoint.SrcFramed.length_stickyControl_le (h : ep.SrcFramed) :
    (ep.stickyControl p).length ≤ stickyControlSize p := by
  unfold StdNetEndpoint.stickyControl stickyControlSize
  split_ifs with hl
  · rcases h with h | ⟨data, pad, hp, ⟨hd, h⟩ | ⟨hd, h⟩⟩
    · rw [h]
      exact Nat.zero_le _
    · rw [h, length_cmsg (framed_pktinfo4 hd hp), hd]
      decide
    · rw [h, length_cmsg (framed_pktinfo6 hd hp), hd]
  · exact le_rfl

/-- The kernel finds in control data that starts with a sticky source what follows it. -/
theorem StdNetEndpoint.SrcFramed.findMessage_append (h : ep.SrcFramed) (rest : List UInt8) :
    findMessage solUDP udpSegment (ep.stickyControl p ++ rest) =
      findMessage solUDP udpSegment rest := by
  unfold StdNetEndpoint.stickyControl
  split_ifs with hl
  · rcases h with h | ⟨data, pad, hp, ⟨hd, h⟩ | ⟨hd, h⟩⟩
    · rw [h, List.nil_append]
    · rw [h, findMessage_cmsg _ _ (framed_pktinfo4 hd hp), if_neg (by decide)]
    · rw [h, findMessage_cmsg _ _ (framed_pktinfo6 hd hp), if_neg (by decide)]
  · rfl

theorem StdNetEndpoint.SrcFramed.segmentSize_append (h : ep.SrcFramed) (rest : List UInt8) :
    segmentSize (ep.stickyControl p ++ rest) = segmentSize rest := by
  rw [segmentSize, h.findMessage_append, segmentSize]

theorem StdNetEndpoint.SrcFramed.segmentSize_stickyControl (h : ep.SrcFramed) :
    segmentSize (ep.stickyControl p) = 0 := by
  have := h.segmentSize_append (p := p) []
  rwa [List.append_nil] at this

/-- The bytes of a segment size that fits are read back. -/
theorem leNat_gsoData {g : ℕ} (hg : g < 2 ^ 16) :
    leNat ((leBytes sizeOfGSOData g).take sizeOfGSOData) = g := by
  rw [List.take_of_length_le (by rw [length_leBytes]),
    leNat_leBytes (by simpa [sizeOfGSOData] using hg)]

theorem findMessage_gso (g : ℕ) {pad : List UInt8} (hp : pad.length = 6) :
    findMessage solUDP udpSegment (cmsg solUDP udpSegment (leBytes sizeOfGSOData g) pad) =
      some (leBytes sizeOfGSOData g) := by
  have hf := findMessage_cmsg solUDP udpSegment (framed_gso udpSegment g (by decide) hp) []
  rwa [List.append_nil, if_pos ⟨rfl, rfl⟩] at hf

/-- The kernel reads back a segment size that fits. -/
theorem segmentSize_gso {g : ℕ} (hg : g < 2 ^ 16) {pad : List UInt8} (hp : pad.length = 6) :
    segmentSize (cmsg solUDP udpSegment (leBytes sizeOfGSOData g) pad) = g := by
  rw [segmentSize, findMessage_gso g hp]
  exact leNat_gsoData hg

/-- A control buffer that is large enough receives the sticky source. Where sources are not handled,
it has to be empty. -/
theorem toList_setSrcControl_of_le {control : Slice UInt8}
    (h0 : p.goos ≠ .linux → control.toList = [])
    (hc : (ep.stickyControl p).length ≤ control.cap) :
    (setSrcControl p control ep).toList = ep.stickyControl p := by
  unfold setSrcControl
  unfold StdNetEndpoint.stickyControl at *
  split_ifs at * with hlin hcap
  · rw [Slice.length_toList] at hc
    omega
  · rw [Slice.toList_append, Slice.toList_clear, List.nil_append]
  · exact h0 hlin

theorem toList_setSrcControl (h : ep.SrcFramed) {control : Slice UInt8}
    (h0 : p.goos ≠ .linux → control.toList = []) (hc : stickyControlSize p ≤ control.cap) :
    (setSrcControl p control ep).toList = ep.stickyControl p :=
  toList_setSrcControl_of_le h0 (h.length_stickyControl_le.trans hc)

theorem cap_setSrcControl (control : Slice UInt8) :
    (setSrcControl p control ep).cap = control.cap := by
  unfold setSrcControl
  split_ifs with hlin hcap
  · rfl
  · have : control.clear.len + ep.src.toList.length ≤ control.clear.cap := by
      rw [Slice.len_clear, Slice.length_toList, Slice.cap_clear]
      omega
    rw [Slice.cap_append_of_fits this, Slice.cap_clear]
  · rfl

/-- A segment size behind the sticky source is one more control message. -/
theorem exists_toList_setGSOSize_setSrcControl_of_le (hp : p.hasOffload = true)
    {control : Slice UInt8} (h0 : p.goos ≠ .linux → control.toList = [])
    (hc : (ep.stickyControl p).length + gsoControlSize p ≤ control.cap) (g : ℕ) :
    ∃ pad : List UInt8, pad.length = 6 ∧
      (setGSOSize p (setSrcControl p control ep) g).toList =
        ep.stickyControl p ++ cmsg solUDP udpSegment (leBytes sizeOfGSOData g) pad := by
  have hs := toList_setSrcControl_of_le h0 ((Nat.le_add_right _ _).trans hc)
  have hcap : (setSrcControl p control ep).len + cmsgSpace sizeOfGSOData ≤
      (setSrcControl p control ep).cap := by
    rw [cap_setSrcControl, ← Slice.length_toList, hs]
    rwa [gsoControlSize, if_pos hp] at hc
  obtain ⟨pad, hpad, he⟩ := exists_toList_setGSOSize hp hcap g
  exact ⟨pad, hpad, by rw [he, hs]⟩

end Sticky

end BatchUDP
