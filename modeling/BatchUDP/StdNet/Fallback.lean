import BatchUDP.StdNet.Send

/-!
# The messages of the fallback

When a coalesced send fails because the device cannot segment, `Send` sets up the messages again
from those that the first attempt left behind. Whether the control data of the first attempt goes
away depends on `setSrcControl`: on Linux it replaces the control data by the cached source, and on
Android it leaves the control data alone.

## Main definitions

* `StdNetBind.Coalescable`: two datagrams in a row that share a message
* `StdNetBind.plainMessage`: what the kernel is given of a message without offload

## Main results

* `StdNetBind.Send_again_iff`: the messages of the fallback are those of a call without offload iff
  the control data is replaced, or no two datagrams share a message
-/

namespace BatchUDP

open Go Unix Framing

namespace StdNetBind

/-- The next of two datagrams in a row joins the message that the other one starts: the payload
limit and the spare capacity allow it, and it is no longer. -/
def Coalescable (maxPayloadLen : ℕ) (x y : Slice UInt8) : Prop :=
  y.len + x.len ≤ maxPayloadLen ∧ y.len ≤ x.len ∧ y.len ≤ x.cap - x.len

instance (maxPayloadLen : ℕ) (x y : Slice UInt8) : Decidable (Coalescable maxPayloadLen x y) :=
  inferInstanceAs (Decidable (_ ∧ _))

/-- What the kernel is given of a message without offload: one chunk, the sticky source, and the
destination. -/
def plainMessage (p : Platform) (ep : StdNetEndpoint) (ua : UDPAddr) (buf : Slice UInt8) :
    List (List UInt8) × List UInt8 × Option (List UInt8 × ℕ) :=
  ([buf.toList], ep.stickyControl p, some (ua.ip.toList, ua.port))

section Fallback

variable {p : Platform} {s : StdNetBind} {bufs : List (Slice UInt8)} {ep : StdNetEndpoint}
  {ua : UDPAddr}

/-- A message set up for a datagram is that of the datagram alone iff its control data is the sticky
source. -/
theorem outgoing_started_iff {m : Message} (hm : m.buffers.length = 1) (buf : Slice UInt8) :
    ((coalescer p ua ep).started buf m).outgoing = plainMessage p ep ua buf ↔
      (setSrcControl p m.oob ep).toList = ep.stickyControl p := by
  obtain ⟨b, hb⟩ := List.length_eq_one_iff.mp hm
  simp [Message.outgoing, Message.dest, Coalescer.started, coalescer, plainMessage, hb]

/-- A pooled message set up for a datagram is that of the datagram alone. -/
theorem outgoing_started_of_pooled (hsrc : ep.SrcFramed) {m : Message} (hm : PooledMessage p m)
    (buf : Slice UInt8) :
    ((coalescer p ua ep).started buf m).outgoing = plainMessage p ep ua buf := by
  rw [outgoing_started_iff hm.buffers]
  refine toList_setSrcControl hsrc (fun _ => hm.oob.1) ?_
  rw [hm.oob.2]
  omega

/-- **A call without offload** hands over one message for each datagram. -/
theorem Ready.exists_plain (h : s.Ready p bufs ep) (hsrc : ep.SrcFramed)
    (htx : s.txOffload ep.addr.is6 = false) (run : SendRun) :
    ∃ r ua ms, s.Send p run bufs ep = some r ∧
      (Pool.get UDPAddr.new run.addrPick s.udpAddrPool).1.fill ep.addr ep.port = some ua ∧
      r.handed = [ms] ∧ ms.map Message.outgoing = bufs.map (plainMessage p ep ua) := by
  obtain ⟨laddr, ua, msgs, addrs, pool, hfill, -, -, ⟨hlen, hmsgs⟩, -, he⟩ := exists_Send h run
  have hl : bufs.length ≤ msgs.length := h.batch.trans hlen.ge
  rw [htx, Coalescer.transmit_off
    (Coalescer.buffers_ne_nil_of_pooled (buffers_and_oob_of_pooled hmsgs)) hl] at he
  refine ⟨_, ua, _, he, hfill, rfl, ?_⟩
  rw [← List.forall₂_eq_eq_eq, List.forall₂_map_left_iff, List.forall₂_map_right_iff]
  exact Coalescer.forall₂_spread (fun buf m hm => outgoing_started_of_pooled hsrc (hmsgs m hm) buf)
    hl

/-- The messages of a retry are made from those that the first attempt built. -/
theorem Ready.exists_again (h : s.Ready p bufs ep) {run : SendRun} {r : Sent}
    (he : s.Send p run bufs ep = some r) {first again : List Message}
    (hr : r.handed = [first, again]) :
    ∃ ua rest,
      (Pool.get UDPAddr.new run.addrPick s.udpAddrPool).1.fill ep.addr ep.port = some ua ∧
      (∀ m ∈ rest, PooledMessage p m) ∧
      List.Forall₂ ((coalescer p ua ep).Closed Holds (PooledOOB p))
        (groups (Coalescer.joins (maxPayloadLen ep.addr) room) bufs) first ∧
      bufs.length ≤ (first ++ rest).length ∧
      again = (coalescer p ua ep).spread bufs (first ++ rest) := by
  obtain ⟨laddr, ua, msgs, addrs, pool, hfill, -, -, ⟨hlen, hmsgs⟩, -, he'⟩ := exists_Send h run
  rw [he'] at he
  obtain ⟨t, ht, rfl⟩ := Option.map_eq_some_iff.mp he
  obtain ⟨hg, hl, hagain⟩ := Coalescer.transmit_again (models_coalescer p ua ep)
    (buffers_and_oob_of_pooled hmsgs) (h.batch.trans hlen.ge) ht hr
  exact ⟨ua, _, hfill, fun m hm => hmsgs m (List.mem_of_mem_drop hm), hg, hl, hagain⟩

/-- On Android the control data of a message stays as the first attempt left it: empty iff its group
is a single datagram. -/
theorem toList_oob_eq_nil_iff (hp : p.hasOffload = true) (hsrc : ep.SrcFramed)
    (hlin : p.goos ≠ .linux) {grp : List (Slice UInt8)} (hne : grp ≠ []) {m : Message}
    (hc : (coalescer p ua ep).Closed Holds (PooledOOB p) grp m) :
    m.oob.toList = [] ↔ grp.length = 1 := by
  obtain ⟨-, -, o, ho, hoob⟩ := hc
  have hpos := List.length_pos_iff.mpr hne
  rw [hoob]
  split_ifs with h2
  · refine iff_of_false (fun h => ?_) (by omega)
    obtain ⟨pad, hpad, he⟩ := exists_toList_setGSOSize_setSrcControl hp hsrc (fun _ => ho.1) ho.2.ge
      (Coalescer.headLen grp % 2 ^ 16)
    have hlen := congrArg List.length (he.symm.trans h)
    rw [List.length_append, length_cmsg (framed_gso udpSegment _ (by decide) hpad)] at hlen
    simp [cmsgSpace, sizeofCmsghdr] at hlen
  · refine iff_of_true ?_ (by omega)
    show (setSrcControl p o ep).toList = []
    rw [setSrcControl, if_neg hlin]
    exact ho.1

/-- **The messages of the fallback are those of a call without offload** iff the control data is
replaced by the sticky source, or no two datagrams in a row share a message. -/
theorem Send_again_iff (hp : p.hasOffload = true) (h : s.Ready p bufs ep) (hsrc : ep.SrcFramed)
    {run : SendRun} {r : Sent} (he : s.Send p run bufs ep = some r) {first again : List Message}
    (hr : r.handed = [first, again]) (off : SendRun) (hoff : off.addrPick = run.addrPick) :
    ∃ r' ua plain, (s.setTxOffload ep.addr.is6 false).Send p off bufs ep = some r' ∧
      r'.handed = [plain] ∧ plain.map Message.outgoing = bufs.map (plainMessage p ep ua) ∧
      (again.map Message.outgoing = plain.map Message.outgoing ↔
        p.goos = .linux ∨
          bufs.IsChain fun x y => ¬ Coalescable (maxPayloadLen ep.addr) x y) := by
  obtain ⟨r', ua, plain, he', hfill', hr', hplain⟩ :=
    (h.setTxOffload ep.addr.is6 false).exists_plain hsrc txOffload_setTxOffload off
  obtain ⟨ua₁, rest, hfill, hrest, hg, hl, rfl⟩ := h.exists_again he hr
  rw [udpAddrPool_setTxOffload, hoff, hfill] at hfill'
  obtain rfl := Option.some.inj hfill'
  refine ⟨r', ua₁, plain, he', hr', hplain, ?_⟩
  rw [hplain, ← List.forall₂_eq_eq_eq, List.forall₂_map_left_iff, List.forall₂_map_right_iff]
  by_cases hlin : p.goos = .linux
  · refine iff_of_true ?_ (.inl hlin)
    refine Coalescer.forall₂_spread (fun buf m hm => ?_) hl
    obtain ⟨hone, hcap⟩ := kept_left hg hrest m hm
    rw [outgoing_started_iff hone]
    refine toList_setSrcControl hsrc (fun hl => absurd hlin hl) ?_
    rw [hcap]
    omega
  · rw [or_iff_right hlin]
    have hone := @forall_length_one_iff _ (Coalescer.joins (maxPayloadLen ep.addr) room) bufs
    have hroom (x y : Slice UInt8) : room [x] y = true ↔ y.len ≤ x.cap - x.len := by
      simp [room, headCap, Coalescer.totalLen]
    simp only [Coalescer.joins_singleton_iff, hroom, and_assoc] at hone
    refine Iff.trans ?_ hone
    refine Coalescer.forall₂_spread_iff ?_ ?_ (length_groups_le bufs) hl
    · have hgs := (List.forall₂_and_left _ _).mpr ⟨groups_ne_nil bufs, hg⟩
      refine hgs.imp ?_
      rintro grp m ⟨hne, hc⟩ buf
      have hstay : (setSrcControl p m.oob ep).toList = m.oob.toList := by
        rw [setSrcControl, if_neg hlin]
      have hsticky : ep.stickyControl p = [] := if_neg hlin
      rw [outgoing_started_iff (kept_of_closed ua₁ grp m hc).1, hstay, hsticky]
      exact toList_oob_eq_nil_iff hp hsrc hlin hne hc
    · intro m hm buf
      exact outgoing_started_of_pooled hsrc (hrest m hm) buf

end Fallback

/-- On Linux the fallback replaces the control data of a coalesced message. -/
theorem Send_again_iff_linux :
    ∃ r first again, (opened true 2).Send .linux
        ⟨0, 0, [.fail (.syscallError "sendmmsg" (.errno .eio))]⟩
        [.withSpare [1, 2] [0], .ofList [3]] localhost = some r ∧ r.handed = [first, again] ∧
      ∃ r' ua plain, ((opened true 2).setTxOffload false false).Send .linux ⟨0, 0, []⟩
          [.withSpare [1, 2] [0], .ofList [3]] localhost = some r' ∧ r'.handed = [plain] ∧
        plain.map Message.outgoing = [.withSpare [1, 2] [0], .ofList [3]].map
          (plainMessage .linux localhost ua) ∧
        (again.map Message.outgoing = plain.map Message.outgoing ↔
          Platform.linux.goos = .linux ∨ [Slice.withSpare [1, 2] [0], .ofList [3]].IsChain
            fun x y => ¬ Coalescable (maxPayloadLen localhost.addr) x y) := by
  have hretry : ∃ r first again, (opened true 2).Send .linux
      ⟨0, 0, [.fail (.syscallError "sendmmsg" (.errno .eio))]⟩
      [.withSpare [1, 2] [0], .ofList [3]] localhost = some r ∧ r.handed = [first, again] :=
    ⟨_, _, _, rfl, rfl⟩
  obtain ⟨r, first, again, he, hr⟩ := hretry
  exact ⟨r, first, again, he, hr, Send_again_iff rfl (ready_opened .linux true le_rfl)
    srcFramed_localhost he hr ⟨0, 0, []⟩ rfl⟩

/-- On Android the first message of the fallback still carries the segment size of the coalesced
message. -/
theorem Send_again_keeps_segment_size :
    ∃ r first again r' plain, (opened true 2).Send .android
        ⟨0, 0, [.fail (.syscallError "sendmmsg" (.errno .eio))]⟩
        [.withSpare [1, 2] [0], .ofList [3]] localhost = some r ∧ r.handed = [first, again] ∧
      ((opened true 2).setTxOffload false false).Send .android ⟨0, 0, []⟩
        [.withSpare [1, 2] [0], .ofList [3]] localhost = some r' ∧ r'.handed = [plain] ∧
      again.map Message.payload = [[1, 2], [3]] ∧
      again.map (fun m => segmentSize m.oob.toList) = [2, 0] ∧
      plain.map (fun m => m.oob.toList) = [[], []] ∧
      again.map Message.outgoing ≠ plain.map Message.outgoing :=
  ⟨_, _, _, _, _, rfl, rfl, rfl, rfl, by decide, by decide, by decide, by decide⟩

end StdNetBind

end BatchUDP
