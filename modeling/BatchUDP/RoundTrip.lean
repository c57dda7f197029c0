import BatchUDP.StdNet.Bind
import BatchUDP.Window

/-!
# Coalescing and splitting

The coalescing loop of the standard bind makes messages of several datagrams, and the splitting loop
cuts messages into datagrams. When every message arrives whole, in order, and with the segment size
that it was sent with, the two are inverse: the two halves of the argument meet at the datagrams
that leave the socket.

## Main definitions

* `Received.Carries`: a message as it arrives, with payload and segment size as it was sent
* `maxReceived`: the size of a receive buffer that holds every datagram

## Main results

* `originals_eq_wire`: the datagrams that arrive are those that left the socket
* `split_coalesced`: the slots hold the datagrams that were coalesced
-/

namespace BatchUDP

open Go Unix Framing

/-- A message as it arrives: the payload in full, and the segment size that it was sent with. -/
structure Received.Carries (p : Platform) (m : Message) (r : Received) : Prop where
  payload : r.payload = m.payload
  gso : r.gso p = segmentSize m.oob.toList

/-- A receive buffer of this size holds every datagram. -/
def maxReceived : ℕ := 65535

section Carries

variable {p : Platform} {built : List Message} {rs : List Received}

/-- A nonempty message arrives as the datagrams that left the socket. -/
theorem Received.Carries.datagrams_eq {m : Message} {r : Received} (h : r.Carries p m)
    (h0 : m.payload ≠ []) : r.datagrams p = m.datagrams := by
  rw [Received.datagrams_of_ne_nil (by rwa [h.payload]), Message.datagrams,
    Message.segments_eq_chunks h0, h.payload, h.gso]

/-- **The datagrams that arrive are those that left the socket.** -/
theorem originals_eq_wire (hc : List.Forall₂ (Received.Carries p) built rs)
    (h0 : ∀ m ∈ built, m.payload ≠ []) : originals p rs = wire built := by
  induction hc with
  | nil => rfl
  | @cons m r built rs hm hc ih =>
    obtain ⟨hm0, h0⟩ := List.forall_mem_cons.mp h0
    show r.datagrams p ++ originals p rs = m.datagrams ++ wire built
    rw [hm.datagrams_eq hm0, ih h0]

theorem payload_ne_nil_of_carries (hc : List.Forall₂ (Received.Carries p) built rs)
    (h0 : ∀ m ∈ built, m.payload ≠ []) : ∀ r ∈ rs, r.payload ≠ [] := by
  induction hc with
  | nil => simp
  | @cons m r built rs hm hc ih =>
    obtain ⟨hm0, h0⟩ := List.forall_mem_cons.mp h0
    refine List.forall_mem_cons.mpr ⟨?_, ih h0⟩
    rw [hm.payload]
    exact hm0

end Carries

namespace StdNetBind

section RoundTrip

variable {p : Platform} (hp : p.hasOffload = true) {ua : UDPAddr} {ep : StdNetEndpoint}
  (hsrc : ep.SrcFramed) {bufs : List (Slice UInt8)}

include hp hsrc

/-- A message of nonempty datagrams has a payload that a receive buffer holds, and a segment size
within it. -/
theorem closed_bounds {grp : List (Slice UInt8)} (hg : Coalescer.Group (maxPayloadLen ep.addr) grp)
    (hne : ∀ b ∈ grp, b.len ≠ 0) (hmax : ∀ b ∈ grp, b.len ≤ maxReceived) {m : Message}
    (hc : (coalescer p ua ep).Closed Holds (PooledOOB p) grp m) :
    m.payload ≠ [] ∧ m.payload.length ≤ maxReceived ∧
      segmentSize m.oob.toList ≤ m.payload.length := by
  have hlen : m.payload.length = Coalescer.totalLen grp := by
    rw [Message.payload, (segmenting_coalescer hp hsrc ua).payload_eq grp _ hc.1,
      length_flatMap_toList]
  have hgso := hc.segmentSize_eq (segmenting_coalescer hp hsrc ua) (maxPayloadLen_lt _) hg
  obtain ⟨b, bs, rfl⟩ := List.exists_cons_of_ne_nil hg.ne_nil
  have htotal : Coalescer.totalLen (b :: bs) = b.len + Coalescer.totalLen bs := by
    simp [Coalescer.totalLen]
  have hb := hne b (by simp)
  refine ⟨List.ne_nil_of_length_pos (by omega), ?_, ?_⟩
  · rcases eq_or_ne bs [] with rfl | hbs
    · have := hmax b (by simp)
      simp only [Coalescer.totalLen, List.map_nil, List.sum_nil] at htotal hlen
      omega
    · have h2 : 2 ≤ (b :: bs).length := by
        have := List.length_pos_iff.mpr hbs
        rw [List.length_cons]
        omega
      have hle := hg.totalLen_le h2
      have hlt := maxPayloadLen_lt ep.addr
      unfold maxReceived
      omega
  · rw [hgso, hlen, htotal, Coalescer.headLen_cons]
    split_ifs <;> omega

variable {first : ℕ} {slots : List Message} {rs : List Received}

/-- What the kernel reads when coalesced messages arrive. -/
theorem fits_of_carries {gs : List (List (Slice UInt8))}
    (hgs : ∀ grp ∈ gs, Coalescer.Group (maxPayloadLen ep.addr) grp ∧
      ∀ b ∈ grp, b.len ≠ 0 ∧ b.len ≤ maxReceived) {built : List Message}
    (hg : List.Forall₂ ((coalescer p ua ep).Closed Holds (PooledOOB p)) gs built)
    (hc : List.Forall₂ (Received.Carries p) built rs) {ws : List Message}
    (hbuf : ∀ m ∈ ws, m.buffers ≠ [] ∧ maxReceived ≤ m.room)
    (hoob : List.Forall₂ (fun m r => (ControlMessage.encode r.control).length ≤ m.oob.len) ws rs) :
    List.Forall₂ (fun m r => Received.Fits p r m) ws rs := by
  induction hc generalizing gs ws with
  | nil =>
    cases hoob
    exact .nil
  | @cons m r built rs hm hc ih =>
    obtain ⟨grp, gs, hclosed, hg', rfl⟩ := List.forall₂_cons_right_iff.mp hg
    obtain ⟨w, ws, hw, hoob', rfl⟩ := List.forall₂_cons_right_iff.mp hoob
    obtain ⟨⟨hgrp, hb⟩, hgs⟩ := List.forall_mem_cons.mp hgs
    obtain ⟨⟨hne, hroom⟩, hbuf⟩ := List.forall_mem_cons.mp hbuf
    obtain ⟨-, hmax, hseg⟩ := closed_bounds hp hsrc hgrp (fun b h => (hb b h).1)
      (fun b h => (hb b h).2) hclosed
    obtain ⟨b, bs, hbs⟩ := List.exists_cons_of_ne_nil hne
    refine .cons ⟨⟨b, bs, hbs, ?_⟩, hw, ?_⟩ (ih hgs hg' hbuf hoob')
    · rw [Message.room_eq hbs] at hroom
      rw [hm.payload]
      exact hmax.trans hroom
    · rw [hm.gso, hm.payload]
      exact hseg

/-- **Splitting is the inverse of coalescing**: when coalesced messages arrive at the start of a
window, and their datagrams do not run past them, the slots hold the datagrams in order. If they do,
the call reports the overflow. -/
theorem split_coalesced {msgs : List Message} (hmsgs : ∀ m ∈ msgs, PooledMessage p m)
    (hl : bufs.length ≤ msgs.length) (hne : ∀ b ∈ bufs, b.len ≠ 0)
    (hmax : ∀ b ∈ bufs, b.len ≤ maxReceived) :
    ∃ out n, (coalescer p ua ep).coalesce bufs msgs = some (out, n) ∧
      ∀ (first : ℕ) (slots : List Message) (rs : List Received),
        List.Forall₂ (Received.Carries p) (out.take n) rs →
        first + rs.length ≤ slots.length →
        (∀ m ∈ slots, m.buffers ≠ [] ∧ maxReceived ≤ m.room) →
        List.Forall₂ (fun m r => (ControlMessage.encode r.control).length ≤ m.oob.len)
          ((slots.drop first).take rs.length) rs →
        ¬ Stale first slots rs →
        ∃ r, splitCoalescedMessages (getGSOSize p) first (readWindow first slots rs) = some r ∧
          (r.err = some errSplitOverflow ↔ ¬ Fitting p first rs) ∧
          (Fitting p first rs → r.err = none ∧ r.n = bufs.length ∧
            (r.msgs.take r.n).map Message.received = bufs.map Slice.toList) := by
  obtain ⟨built, hc, hg⟩ := Coalescer.coalesce_spec (models_coalescer p ua ep)
    (buffers_and_oob_of_pooled hmsgs) hl
  refine ⟨_, _, hc, ?_⟩
  rw [List.take_left]
  intro first slots rs hcar hfirst hbuf hoob hstale
  have hgs : ∀ grp ∈ groups (Coalescer.joins (maxPayloadLen ep.addr) room) bufs,
      Coalescer.Group (maxPayloadLen ep.addr) grp ∧ ∀ b ∈ grp, b.len ≠ 0 ∧ b.len ≤ maxReceived :=
    fun grp h => ⟨Coalescer.group_of_mem_groups _ bufs grp h, fun b hb =>
      ⟨hne b (mem_of_mem_groups h hb), hmax b (mem_of_mem_groups h hb)⟩⟩
  have hpay : ∀ m ∈ built, m.payload ≠ [] := by
    have hboth := (List.forall₂_and_left _ _).mpr ⟨hgs, hg⟩
    exact forall_mem_right (hboth.imp fun grp m h => (closed_bounds hp hsrc h.1.1
      (fun b hb => (h.1.2 b hb).1) (fun b hb => (h.1.2 b hb).2) h.2).1)
  have hwire : wire built = bufs.map Slice.toList := by
    rw [Coalescer.wire_built_iff (segmenting_coalescer hp hsrc ua) (maxPayloadLen_lt _) hg]
    exact fun grp h b hb => (hgs grp h).2 b (List.mem_of_mem_tail hb) |>.1
  have horig : originals p rs = bufs.map Slice.toList :=
    (originals_eq_wire hcar hpay).trans hwire
  have hrs := payload_ne_nil_of_carries hcar hpay
  rcases eq_or_ne rs [] with rfl | hnil
  · obtain rfl : bufs = [] := List.map_eq_nil_iff.mp horig.symm
    have hno : Fitting p first [] := trivial
    exact ⟨_, split_readWindow_nil hstale, by simp [hno], fun _ => ⟨rfl, rfl, rfl⟩⟩
  · have hreads : Reads p first slots rs :=
      ⟨by omega, fun m hm => (hbuf m hm).1, hnil, fits_of_carries hp hsrc hgs hg hcar
        (fun m hm => hbuf m (List.mem_of_mem_drop (List.mem_of_mem_take hm))) hoob⟩
    by_cases hno : Fitting p first rs
    · have hsplit := hreads.split_readWindow hno (.inr hstale)
      refine ⟨_, hsplit, by simp [hno], fun _ => ⟨rfl, ?_, ?_⟩⟩
      · rw [leading_eq_self hrs, ← List.length_map (f := Slice.toList), ← horig, ← map_fst_pieces,
          List.length_map]
      · have hheld : Held (slots.map Message.room) (originals p rs) := by
          rw [horig]
          refine @held_of_forall_le _ _ _ maxReceived ?_ ?_
          · exact List.forall_mem_map.mpr fun m hm => (hbuf m hm).2
          · exact List.forall_mem_map.mpr fun b hb => (Slice.length_toList b).trans_le (hmax b hb)
        rw [← horig]
        exact (hreads.delivered_eq_iff hsplit rfl).mpr
          ⟨hheld, emptyLast_of_forall_ne_nil hrs, .inr hstale⟩
    · obtain ⟨r, hsplit, herr⟩ := hreads.split_readWindow_overflow hno
      exact ⟨r, hsplit, iff_of_true herr hno, fun h => absurd h hno⟩

end RoundTrip

/-- A slot with a buffer for every datagram. -/
def receiveSlot : Message :=
  { newMessage .linux with
    buffers := [.ofList (List.replicate maxReceived 0)]
    oob := (newMessage .linux).oob.full }

/-- Two datagrams share a message, which arrives in the second of three slots. -/
theorem split_coalesced_pair :
    ∃ out n, (coalescer .linux .new localhost).coalesce
        [.withSpare [1, 2] [0], .ofList [3]] (newMessages .linux 2) = some (out, n) ∧
      List.Forall₂ (Received.Carries .linux) (out.take n) [.coalesced 2 [1, 2, 3]] ∧
      ∃ r, splitCoalescedMessages (getGSOSize .linux) 1
          (readWindow 1 [receiveSlot, receiveSlot, receiveSlot] [.coalesced 2 [1, 2, 3]]) =
            some r ∧
        r.err = none ∧ r.n = 2 ∧ (r.msgs.take r.n).map Message.received = [[1, 2], [3]] := by
  obtain ⟨out, n, hc, h⟩ := @split_coalesced .linux rfl .new localhost srcFramed_localhost
    [.withSpare [1, 2] [0], .ofList [3]] (newMessages .linux 2)
    (fun m hm => List.eq_of_mem_replicate hm ▸ pooledMessage_new .linux) (by decide) (by decide)
    (by decide)
  have hcar : List.Forall₂ (Received.Carries .linux) (out.take n) [.coalesced 2 [1, 2, 3]] := by
    obtain ⟨rfl, rfl⟩ := Prod.mk.inj (Option.some.inj hc.symm)
    exact .cons ⟨rfl, by decide⟩ .nil
  have hroom : maxReceived ≤ receiveSlot.room := by
    rw [@Message.room_eq receiveSlot (.ofList (List.replicate maxReceived 0)) [] rfl]
    exact List.length_replicate.ge
  have hslots : ∀ m ∈ [receiveSlot, receiveSlot, receiveSlot],
      m.buffers ≠ [] ∧ maxReceived ≤ m.room := by
    intro m hm
    obtain rfl : m = receiveSlot := by simpa using hm
    exact ⟨by simp [receiveSlot], hroom⟩
  have hstale : ¬ Stale 1 [receiveSlot, receiveSlot, receiveSlot] [.coalesced 2 [1, 2, 3]] := by
    rintro ⟨m, hm, h0⟩
    obtain rfl : receiveSlot = m := by simpa using hm
    exact h0 rfl
  obtain ⟨r, hr, -, hsplit⟩ := h 1 _ _ hcar (by decide) hslots (.cons (by decide) .nil) hstale
  exact ⟨out, n, hc, hcar, r, hr, hsplit (by decide)⟩

end StdNetBind

end BatchUDP
