import BatchUDP.StdNet.Groups
import BatchUDP.Batching.Write

/-!
# The two coalescers

The loop of `StdNetBind` copies the datagrams of a group into the buffer of the first, and the loop
of `linuxBatchingConn` makes them chunks of one message. With enough spare capacity in the buffers,
they build the same messages.

## Main definitions

* `Addr.Plain`: an IPv4 address, or an IPv6 address that is not IPv4-mapped
* `Agree m m'`: two messages have the same payload and the same segment size

## Main results

* `joins_eq_of_spare`: with spare capacity for the largest payload, the tests of the loops agree
* `exists_coalesce_agree`: the loops build the same messages
-/

namespace BatchUDP

open Go Unix Framing

/-- An IPv4 address, or an IPv6 address that is not IPv4-mapped. -/
def Addr.Plain (dst : Addr) : Prop := dst ≠ .zero ∧ dst.is4In6 = false

/-- The limits of the two loops are the same. -/
theorem maxPayloadLen_eq {dst : Addr} (h : dst.Plain) :
    BatchingConn.maxPayloadLen dst.bytes = StdNetBind.maxPayloadLen dst := by
  obtain ⟨h0, hm⟩ := h
  cases dst with
  | zero => exact absurd rfl h0
  | v4 b =>
    have hb : b.toList.length = 4 := Vector.length_toList
    simp [BatchingConn.maxPayloadLen, StdNetBind.maxPayloadLen, Addr.bytes, Addr.is6, UDPAddr.to4,
      hb]
  | v6 b zone =>
    have hb : b.toList.length = 16 := Vector.length_toList
    have hm' : b.toList.take 12 ≠ Addr.mappedHead := by simpa [Addr.is4In6] using hm
    simp [BatchingConn.maxPayloadLen, StdNetBind.maxPayloadLen, Addr.bytes, Addr.is6, UDPAddr.to4,
      hb, hm']

/-- With spare capacity for the largest payload there is always room. -/
theorem joins_eq_of_spare (limit : ℕ) {cur : List (Slice UInt8)} (h0 : cur ≠ [])
    (h : ∀ b ∈ cur, limit ≤ b.cap - b.len) (buf : Slice UInt8) :
    Coalescer.joins limit StdNetBind.room cur buf =
      Coalescer.joins limit (fun _ _ => true) cur buf := by
  rw [Bool.eq_iff_iff, Coalescer.joins_iff, Coalescer.joins_iff]
  refine and_congr_right fun ⟨hle, _⟩ => iff_of_true ?_ rfl
  obtain ⟨b, bs, rfl⟩ := List.exists_cons_of_ne_nil h0
  have hb := h b List.mem_cons_self
  have hcap : StdNetBind.headCap (b :: bs) = b.cap := rfl
  rw [StdNetBind.room, hcap, decide_eq_true_eq]
  omega

/-- Two messages have the same payload, and the kernel finds the same segment size in their control
data, or none. -/
structure Agree (m m' : Message) : Prop where
  payload : m.payload = m'.payload
  segment : findMessage solUDP udpSegment m.oob.toList = findMessage solUDP udpSegment m'.oob.toList

namespace BatchingConn

variable {p : Platform} {ua : UDPAddr}

/-- The segment size that the kernel finds in a message of chunks. -/
theorem findMessage_of_closed (hp : p.hasOffload = true) {grp : List (Slice UInt8)} {m : Message}
    (h : (coalescer p ua).Closed (fun grp bs => bs = grp) (PooledOOB p) grp m) :
    findMessage solUDP udpSegment m.oob.toList =
      if 2 ≤ grp.length then some (leBytes sizeOfGSOData (Coalescer.headLen grp % 2 ^ 16))
      else none := by
  obtain ⟨-, -, o, ho, hoob⟩ := h
  rw [hoob]
  split_ifs with h2
  · have hcap : o.clear.len + cmsgSpace sizeOfGSOData ≤ o.clear.cap := by
      rw [Slice.len_clear, Slice.cap_clear, ho.2, gsoControlSize, if_pos hp, Nat.zero_add]
    obtain ⟨pad, hpad, he⟩ := exists_toList_setGSOSize hp hcap (Coalescer.headLen grp % 2 ^ 16)
    rw [Slice.toList_clear, List.nil_append] at he
    exact (congrArg _ he).trans (findMessage_gso _ hpad)
  · exact congrArg _ (Slice.toList_clear o)

end BatchingConn

namespace StdNetBind

variable {p : Platform} {ua : UDPAddr} {ep : StdNetEndpoint}

/-- The segment size that the kernel finds in a message with a copied group. -/
theorem Carries.findMessage_eq (hsrc : ep.SrcFramed) {grp : List (Slice UInt8)} {m : Message}
    (h : Carries p ua ep grp m) :
    findMessage solUDP udpSegment m.oob.toList =
      if 2 ≤ grp.length then some (leBytes sizeOfGSOData (Coalescer.headLen grp % 2 ^ 16))
      else none := by
  split_ifs with h2
  · obtain ⟨hlt, pad, hpad, he⟩ := h.several h2
    rw [he, hsrc.findMessage_append, findMessage_gso _ hpad, Nat.mod_eq_of_lt hlt]
  · have h1 : grp.length = 1 := by
      have := List.length_pos_iff.mpr h.ne_nil
      omega
    have hnone := hsrc.findMessage_append (p := p) []
    rw [List.append_nil] at hnone
    rw [h.single h1, hnone]
    rfl

end StdNetBind

/-- Messages of the same group agree. -/
theorem agree_of_carries {p : Platform} (hp : p.hasOffload = true) {ep : StdNetEndpoint}
    (hsrc : ep.SrcFramed) {ua ua' : UDPAddr} {grp : List (Slice UInt8)} {m m' : Message}
    (h : StdNetBind.Carries p ua ep grp m)
    (h' : (BatchingConn.coalescer p ua').Closed (fun grp bs => bs = grp)
      (BatchingConn.PooledOOB p) grp m') : Agree m m' where
  payload := by
    rw [h.payload, Message.payload, h'.1]
  segment := by
    rw [h.findMessage_eq hsrc, BatchingConn.findMessage_of_closed hp h']

/-- **The two coalescers agree** on datagrams with enough spare capacity, to a plain destination:
they build as many messages, of the same payloads and segment sizes, and no message gets more than
64 chunks. -/
theorem exists_coalesce_agree {p : Platform} (hp : p.hasOffload = true) {ep : StdNetEndpoint}
    (hdst : ep.addr.Plain) (hsrc : ep.SrcFramed) {bufs : List (Slice UInt8)}
    (hspare : ∀ b ∈ bufs, StdNetBind.maxPayloadLen ep.addr ≤ b.cap - b.len)
    (ua : UDPAddr) {msgs : List Message} (hmsgs : ∀ m ∈ msgs, PooledMessage p m)
    (hl : bufs.length ≤ msgs.length)
    {ua' : UDPAddr} (hua' : ua'.ip.toList = ep.addr.bytes) {batchSize : ℕ} {batch : SendBatch}
    (hbatch : BatchingConn.Pooled p batchSize batch) (hl' : bufs.length ≤ batchSize) :
    ∃ built built',
      (StdNetBind.coalescer p ua ep).coalesce bufs msgs =
        some (built ++ msgs.drop built.length, built.length) ∧
      (BatchingConn.coalescer p ua').coalesce bufs batch.msgs =
        some (built' ++ batch.msgs.drop built'.length, built'.length) ∧
      built.length = built'.length ∧ List.Forall₂ Agree built built' ∧
      ∀ m ∈ built', m.buffers.length ≤ 64 := by
  have hroomy : ∀ m ∈ msgs, m.buffers.length = 1 ∧ StdNetBind.RoomyOOB p m.oob := fun m hm =>
    ⟨(hmsgs m hm).buffers, fun _ => (hmsgs m hm).oob.1, (hmsgs m hm).oob.2.ge⟩
  obtain ⟨built, hrun, hbuilt⟩ :=
    @StdNetBind.exists_coalesce_groups p ua ep hp hsrc bufs msgs hl hroomy
  obtain ⟨built', hrun', hbuilt'⟩ := Coalescer.coalesce_spec
    (BatchingConn.models_coalescer p ua') hbatch.msgs (hl'.trans hbatch.length.ge)
  have hmax : (BatchingConn.coalescer p ua').maxPayloadLen = StdNetBind.maxPayloadLen ep.addr := by
    rw [← maxPayloadLen_eq hdst, ← hua']
    rfl
  have hgroups : groups (Coalescer.joins (StdNetBind.maxPayloadLen ep.addr) StdNetBind.room) bufs =
      groups (Coalescer.joins (StdNetBind.maxPayloadLen ep.addr) fun _ _ => true) bufs :=
    groups_congr (fun cur x h0 hcur => joins_eq_of_spare _ h0 hcur x) hspare
  rw [hmax, ← hgroups] at hbuilt'
  have hagree : List.Forall₂ Agree built built' := by
    refine forall₂_of_common ?_ hbuilt hbuilt'
    exact fun grp m m' hm hm' => agree_of_carries hp hsrc hm hm'
  refine ⟨built, built', hrun, hrun', hagree.length_eq, hagree, ?_⟩
  have hle := (List.forall₂_and_left _ _).mpr
    ⟨@Coalescer.group_of_mem_groups StdNetBind.room _ bufs, hbuilt'⟩
  refine forall_mem_right (hle.imp fun grp m h => ?_)
  rw [h.2.1]
  exact h.1.length_le

/-- Two datagrams with spare capacity for the largest payload. -/
def spareBufs : List (Slice UInt8) :=
  [.withSpare [1, 2] (List.replicate maxIPv4PayloadLen 0),
    .withSpare [3] (List.replicate maxIPv4PayloadLen 0)]

theorem exists_coalesce_agree_spareBufs :
    ∃ built built',
      (StdNetBind.coalescer .linux .new StdNetBind.localhost).coalesce spareBufs
          (StdNetBind.newMessages .linux 2) =
        some (built ++ (StdNetBind.newMessages .linux 2).drop built.length, built.length) ∧
      (BatchingConn.coalescer .linux ⟨.ofList [127, 0, 0, 1], 51820, ""⟩).coalesce spareBufs
          (BatchingConn.newBatch .linux 2).msgs =
        some (built' ++ (BatchingConn.newBatch .linux 2).msgs.drop built'.length, built'.length) ∧
      built.length = built'.length ∧ List.Forall₂ Agree built built' ∧
      ∀ m ∈ built', m.buffers.length ≤ 64 := by
  have hspare (l spare : List UInt8) :
      (Slice.withSpare l spare).cap - (Slice.withSpare l spare).len = spare.length := by
    rw [Slice.cap_withSpare]
    exact Nat.add_sub_cancel_left _ _
  refine exists_coalesce_agree rfl ⟨by decide, rfl⟩ StdNetBind.srcFramed_localhost ?_ .new ?_
    (by decide) rfl (BatchingConn.pooled_newBatch .linux 2) le_rfl
  · rw [spareBufs, List.forall_mem_cons, List.forall_mem_singleton, hspare, hspare,
      List.length_replicate]
    exact ⟨le_rfl, le_rfl⟩
  · intro m hm
    rw [List.eq_of_mem_replicate hm]
    exact StdNetBind.pooledMessage_new .linux

end BatchUDP
