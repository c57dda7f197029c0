import BatchUDP.Transmit

/-!
# The standard bind

`StdNetBind` holds a socket for each address family, what each socket supports, and two pools: one
of destination addresses and one of message lists. This module has its state, the pools, and the
coalescing loop of its `Send`.

## Main definitions

* `StdNetBind`: the state, with the fields of an address family selected by `StdNetBind.conn`,
  `StdNetBind.pc`, `StdNetBind.txOffload` and `StdNetBind.blackhole`
* `StdNetBind.newMessages`, `StdNetBind.getMessages`, `StdNetBind.putMessages`: the message pool
* `PooledMessage`: what every message in the pool looks like
* `StdNetBind.Valid`: the pools hold what `Send` and the receive functions put there
* `StdNetBind.coalescer`: what `coalesceMessages` does at each datagram

## Main results

* `StdNetBind.models_coalescer`: a message holds the concatenation of its group in one buffer
* `StdNetBind.segmenting_coalescer`: its control data is the sticky source and the segment size
-/

namespace BatchUDP

open Go Unix Framing

/-- An open socket, with the text of its local address. -/
structure Conn where
  id : ℕ
  laddr : String
  deriving DecidableEq, Repr

/-- `StdNetBind`. Of the batch reader and writer of a socket only their presence matters. -/
structure StdNetBind where
  ipv4 : Option Conn
  ipv6 : Option Conn
  ipv4PC : Bool
  ipv6PC : Bool
  ipv4TxOffload : Bool
  ipv4RxOffload : Bool
  ipv6TxOffload : Bool
  ipv6RxOffload : Bool
  udpAddrPool : List UDPAddr
  msgsPool : List (List Message)
  blackhole4 : Bool
  blackhole6 : Bool
  batchSize : ℕ
  deriving DecidableEq, Repr

namespace StdNetBind

section Family

variable (s : StdNetBind) (is6 : Bool)

/-- The socket of an address family. -/
def conn : Option Conn := if is6 then s.ipv6 else s.ipv4

/-- Whether the socket of an address family has batch I/O. -/
def pc : Bool := if is6 then s.ipv6PC else s.ipv4PC

/-- Whether the socket of an address family segments what it sends. -/
def txOffload : Bool := if is6 then s.ipv6TxOffload else s.ipv4TxOffload

/-- Whether an address family is dropped locally. -/
def blackhole : Bool := if is6 then s.blackhole6 else s.blackhole4

/-- The state with the segmentation flag of an address family set. -/
def setTxOffload (on : Bool) : StdNetBind :=
  if is6 then { s with ipv6TxOffload := on } else { s with ipv4TxOffload := on }

variable {s is6} {on : Bool}

@[simp] theorem txOffload_setTxOffload : (s.setTxOffload is6 on).txOffload is6 = on := by
  cases is6 <;> rfl

@[simp] theorem conn_setTxOffload {is6' : Bool} :
    (s.setTxOffload is6 on).conn is6' = s.conn is6' := by
  cases is6 <;> rfl

@[simp] theorem pc_setTxOffload {is6' : Bool} : (s.setTxOffload is6 on).pc is6' = s.pc is6' := by
  cases is6 <;> rfl

@[simp] theorem blackhole_setTxOffload {is6' : Bool} :
    (s.setTxOffload is6 on).blackhole is6' = s.blackhole is6' := by
  cases is6 <;> rfl

@[simp] theorem batchSize_setTxOffload : (s.setTxOffload is6 on).batchSize = s.batchSize := by
  cases is6 <;> rfl

@[simp] theorem udpAddrPool_setTxOffload :
    (s.setTxOffload is6 on).udpAddrPool = s.udpAddrPool := by
  cases is6 <;> rfl

@[simp] theorem msgsPool_setTxOffload : (s.setTxOffload is6 on).msgsPool = s.msgsPool := by
  cases is6 <;> rfl

end Family

/-! ## The pools -/

/-- A message made by the pool's `New`. -/
def newMessage (p : Platform) : Message where
  buffers := [Slice.ofList []]
  oob := Slice.withSpare [] (List.replicate (stickyControlSize p + gsoControlSize p) 0)
  addr := none
  n := 0
  nn := 0

/-- The messages made by the pool's `New`. -/
def newMessages (p : Platform) (batchSize : ℕ) : List Message :=
  List.replicate batchSize (newMessage p)

/-- `getMessages`: messages put back earlier, or new ones, and what is left in the pool. -/
def getMessages (p : Platform) (s : StdNetBind) (pick : ℕ) : List Message × List (List Message) :=
  Pool.get (newMessages p s.batchSize) pick s.msgsPool

/-- `putMessages`: what is kept of the messages when they are put back. -/
def putMessages (msgs : List Message) : List Message :=
  msgs.map fun m => { buffers := m.buffers, oob := m.oob.clear, addr := none, n := 0, nn := 0 }

end StdNetBind

/-- Pooled control data: empty, with the capacity for a sticky source and a segment size. -/
def PooledOOB (p : Platform) (oob : Slice UInt8) : Prop :=
  oob.toList = [] ∧ oob.cap = stickyControlSize p + gsoControlSize p

/-- A message in the pool. -/
structure PooledMessage (p : Platform) (m : Message) : Prop where
  buffers : m.buffers.length = 1
  oob : PooledOOB p m.oob
  addr : m.addr = none
  n : m.n = 0
  nn : m.nn = 0

namespace StdNetBind

theorem pooledMessage_new (p : Platform) : PooledMessage p (newMessage p) where
  buffers := rfl
  oob := ⟨by simp [newMessage], by simp [newMessage]⟩
  addr := rfl
  n := rfl
  nn := rfl

/-- What a pool holds: addresses of sixteen bytes, and as many messages as the batch size says. -/
structure Valid (p : Platform) (s : StdNetBind) : Prop where
  addrs : ∀ ua ∈ s.udpAddrPool, ua.Pooled
  length_msgs : ∀ msgs ∈ s.msgsPool, msgs.length = s.batchSize
  msgs : ∀ msgs ∈ s.msgsPool, ∀ m ∈ msgs, PooledMessage p m

/-- A bind with a socket for each family, batch I/O on both, and nothing in its pools yet. -/
def opened (offload : Bool) (batchSize : ℕ) : StdNetBind where
  ipv4 := some ⟨4, "0.0.0.0:51820"⟩
  ipv6 := some ⟨6, "[::]:51820"⟩
  ipv4PC := true
  ipv6PC := true
  ipv4TxOffload := offload
  ipv4RxOffload := offload
  ipv6TxOffload := offload
  ipv6RxOffload := offload
  udpAddrPool := []
  msgsPool := []
  blackhole4 := false
  blackhole6 := false
  batchSize := batchSize

theorem valid_opened (p : Platform) (offload : Bool) (batchSize : ℕ) :
    (opened offload batchSize).Valid p :=
  ⟨by simp [opened], by simp [opened], by simp [opened]⟩

/-- An endpoint without a cached source. -/
def localhost : StdNetEndpoint := .ofAddrPort (.v4 #v[127, 0, 0, 1]) 51820

theorem srcFramed_localhost : localhost.SrcFramed := .inl rfl

section Valid

variable {p : Platform} {s : StdNetBind}

/-- Only the pools matter. -/
theorem Valid.congr (h : s.Valid p) {s' : StdNetBind} (haddrs : s'.udpAddrPool = s.udpAddrPool)
    (hmsgs : s'.msgsPool = s.msgsPool) (hsize : s'.batchSize = s.batchSize) : s'.Valid p := by
  refine ⟨haddrs ▸ h.addrs, ?_, hmsgs ▸ h.msgs⟩
  rw [hmsgs, hsize]
  exact h.length_msgs

theorem Valid.setTxOffload (h : s.Valid p) (is6 on : Bool) : (s.setTxOffload is6 on).Valid p :=
  h.congr udpAddrPool_setTxOffload msgsPool_setTxOffload batchSize_setTxOffload

/-- An address from the pool. -/
theorem Valid.getAddr (h : s.Valid p) (pick : ℕ) :
    (Pool.get UDPAddr.new pick s.udpAddrPool).1.Pooled ∧
      ∀ ua ∈ (Pool.get UDPAddr.new pick s.udpAddrPool).2, ua.Pooled :=
  Pool.forall_get UDPAddr.pooled_new h.addrs pick

/-- Messages from the pool. -/
theorem Valid.getMessages (h : s.Valid p) (pick : ℕ) :
    ((s.getMessages p pick).1.length = s.batchSize ∧
        ∀ m ∈ (s.getMessages p pick).1, PooledMessage p m) ∧
      ∀ msgs ∈ (s.getMessages p pick).2, msgs.length = s.batchSize ∧
        ∀ m ∈ msgs, PooledMessage p m := by
  refine Pool.forall_get (P := fun msgs : List Message => msgs.length = s.batchSize ∧
    ∀ m ∈ msgs, PooledMessage p m) ⟨List.length_replicate, ?_⟩
    (fun msgs hm => ⟨h.length_msgs msgs hm, h.msgs msgs hm⟩) pick
  intro m hm
  rw [List.eq_of_mem_replicate hm]
  exact pooledMessage_new p

theorem buffers_and_oob_of_pooled {msgs : List Message} (h : ∀ m ∈ msgs, PooledMessage p m) :
    ∀ m ∈ msgs, m.buffers.length = 1 ∧ PooledOOB p m.oob :=
  fun m hm => ⟨(h m hm).buffers, (h m hm).oob⟩

/-- Messages with one buffer and the pooled capacity can be put back. -/
theorem pooledMessage_of_mem_putMessages {msgs : List Message}
    (h : ∀ m ∈ msgs, m.buffers.length = 1 ∧ m.oob.cap = stickyControlSize p + gsoControlSize p) :
    ∀ m ∈ putMessages msgs, PooledMessage p m := by
  intro m hm
  obtain ⟨m', hm', rfl⟩ := List.mem_map.mp hm
  exact ⟨(h m' hm').1, ⟨Slice.toList_clear _, (h m' hm').2⟩, rfl, rfl, rfl⟩

/-- Putting an address and messages back into the pools. -/
theorem valid_put {addrs : List UDPAddr} {pool : List (List Message)}
    (ha : ∀ ua ∈ addrs, ua.Pooled)
    (hp : ∀ msgs ∈ pool, msgs.length = s.batchSize ∧ ∀ m ∈ msgs, PooledMessage p m) :
    Valid p { s with udpAddrPool := addrs, msgsPool := pool } :=
  ⟨ha, fun msgs hm => (hp msgs hm).1, fun msgs hm => (hp msgs hm).2⟩

end Valid

/-! ## The coalescing loop -/

/-- The capacity of the first buffer of a group. -/
def headCap (grp : List (Slice UInt8)) : ℕ := (grp.head?.map Slice.cap).getD 0

/-- The room for a datagram in the first buffer of a group. -/
def room (cur : List (Slice UInt8)) (buf : Slice UInt8) : Bool :=
  buf.len ≤ headCap cur - Coalescer.totalLen cur

/-- The largest payload for a destination. -/
def maxPayloadLen (dst : Addr) : ℕ := if dst.is6 then maxIPv6PayloadLen else maxIPv4PayloadLen

/-- `coalesceMessages`: a datagram is appended to the buffer of the message being built, if the
spare capacity holds it, and the control data of a message starts with the sticky source. -/
def coalescer (p : Platform) (ua : UDPAddr) (ep : StdNetEndpoint) : Coalescer where
  maxPayloadLen := maxPayloadLen ep.addr
  addr := ua
  payloadLen bs := bs.head?.map Slice.len
  room bs buf := (bs.head?.map fun b => decide (buf.len ≤ b.cap - b.len)).getD false
  join bs buf := bs.modify 0 fun b => b.append buf.toList
  reset oob := setSrcControl p oob ep
  setGSO := setGSOSize p

/-- One buffer holds the concatenation of a group, in the array of its first datagram. -/
def Holds (grp bs : List (Slice UInt8)) : Prop :=
  ∃ b, bs = [b] ∧ b.toList = grp.flatMap Slice.toList ∧ b.cap = headCap grp

theorem length_flatMap_toList (grp : List (Slice UInt8)) :
    (grp.flatMap Slice.toList).length = Coalescer.totalLen grp := by
  simp [Coalescer.totalLen, List.length_flatMap]

/-- **A message holds the concatenation of its group in one buffer.** -/
theorem models_coalescer (p : Platform) (ua : UDPAddr) (ep : StdNetEndpoint) :
    (coalescer p ua ep).Models Holds room where
  holds_start buf := ⟨buf, rfl, by simp, rfl⟩
  holds_ne_nil := by
    rintro cur bs ⟨b, rfl, -, -⟩ -
    simp
  payloadLen_eq := by
    rintro cur bs ⟨b, rfl, hb, -⟩
    have := length_flatMap_toList cur
    rw [← hb, Slice.length_toList] at this
    simp [coalescer, this]
  room_eq := by
    rintro cur bs buf ⟨b, rfl, hb, hc⟩
    have := length_flatMap_toList cur
    rw [← hb, Slice.length_toList] at this
    simp [coalescer, room, this, hc]
  holds_join := by
    rintro cur bs buf hne ⟨b, rfl, hb, hc⟩ hr
    have hlen := length_flatMap_toList cur
    rw [← hb, Slice.length_toList] at hlen
    refine ⟨b.append buf.toList, rfl, by simp [hb], ?_⟩
    have hfit : b.len + buf.toList.length ≤ b.cap := by
      have := b.len_le_cap
      simp only [room, decide_eq_true_eq] at hr
      rw [Slice.length_toList]
      omega
    obtain ⟨x, xs, rfl⟩ := List.exists_cons_of_ne_nil hne
    rw [Slice.cap_append_of_fits hfit, hc]
    rfl

theorem maxPayloadLen_lt (dst : Addr) : maxPayloadLen dst < 2 ^ 16 := by
  unfold maxPayloadLen
  split_ifs <;> decide

section Control

variable {p : Platform} (hp : p.hasOffload = true) {ep : StdNetEndpoint} (hsrc : ep.SrcFramed)

include hp hsrc

theorem exists_toList_setGSOSize_setSrcControl {oob : Slice UInt8}
    (h0 : p.goos ≠ .linux → oob.toList = [])
    (hc : stickyControlSize p + gsoControlSize p ≤ oob.cap) (g : ℕ) :
    ∃ pad : List UInt8, pad.length = 6 ∧
      (setGSOSize p (setSrcControl p oob ep) g).toList =
        ep.stickyControl p ++ cmsg solUDP udpSegment (leBytes sizeOfGSOData g) pad :=
  exists_toList_setGSOSize_setSrcControl_of_le hp h0
    ((Nat.add_le_add_right hsrc.length_stickyControl_le _).trans hc) g

/-- **The kernel finds the segment size of a message** behind the sticky source. -/
theorem segmenting_coalescer (ua : UDPAddr) :
    (coalescer p ua ep).Segmenting Holds (PooledOOB p) where
  payload_eq := by
    rintro grp bs ⟨b, rfl, hb, -⟩
    simpa using hb
  segmentSize_reset o ho := by
    show segmentSize (setSrcControl p o ep).toList = 0
    rw [toList_setSrcControl hsrc (fun _ => ho.1) (by rw [ho.2]; omega)]
    exact hsrc.segmentSize_stickyControl
  segmentSize_setGSO o g ho hg := by
    obtain ⟨pad, hpad, he⟩ :=
      exists_toList_setGSOSize_setSrcControl hp hsrc (fun _ => ho.1) ho.2.ge g
    show segmentSize (setGSOSize p (setSrcControl p o ep) g).toList = g
    rw [he, hsrc.segmentSize_append, segmentSize_gso hg hpad]

end Control

end StdNetBind

end BatchUDP
