import BatchUDP.StdNet.Bind

/-!
# What the standard bind coalesces

The messages that `coalesceMessages` returns, for datagrams of any lengths and capacities: each
carries a group of consecutive datagrams, and its control data is the sticky source of the endpoint,
with the segment size behind it if the group has several members.

## Main definitions

* `StdNetBind.Carries p ua ep grp m`: the message `m` carries the group `grp`

## Main results

* `StdNetBind.exists_coalesce_carries`: the messages carry the datagrams in groups
-/

namespace BatchUDP

open Go Unix Framing

namespace StdNetBind

/-- A message that carries a group of datagrams to an endpoint. -/
structure Carries (p : Platform) (ua : UDPAddr) (ep : StdNetEndpoint) (grp : List (Slice UInt8))
    (m : Message) : Prop where
  ne_nil : grp ≠ []
  addr : m.addr = some ua
  payload : m.payload = grp.flatMap Slice.toList
  length_le : grp.length ≤ 64
  totalLen_le : 2 ≤ grp.length → Coalescer.totalLen grp ≤ maxPayloadLen ep.addr
  fits : 2 ≤ grp.length → Coalescer.totalLen grp ≤ headCap grp
  members : ∀ b ∈ grp.dropLast, b.len = Coalescer.headLen grp
  last : ∀ b ∈ grp.getLast?, b.len ≤ Coalescer.headLen grp
  single : grp.length = 1 → m.oob.toList = ep.stickyControl p
  several : 2 ≤ grp.length → Coalescer.headLen grp < 2 ^ 16 ∧ ∃ pad : List UInt8, pad.length = 6 ∧
    m.oob.toList = ep.stickyControl p ++
      cmsg solUDP udpSegment (leBytes sizeOfGSOData (Coalescer.headLen grp)) pad

/-- Control data that holds a sticky source and a segment size. Where sources are not handled it
has to be empty. -/
def RoomyOOB (p : Platform) (oob : Slice UInt8) : Prop :=
  (p.goos ≠ .linux → oob.toList = []) ∧ stickyControlSize p + gsoControlSize p ≤ oob.cap

variable {p : Platform} {ua : UDPAddr} {ep : StdNetEndpoint}

/-- A closed message of a group within the limits carries the group. -/
theorem carries_of_closed (hp : p.hasOffload = true) (hsrc : ep.SrcFramed)
    {grp : List (Slice UInt8)} (hg : Coalescer.Group (maxPayloadLen ep.addr) grp) {m : Message}
    (h : (coalescer p ua ep).Closed Holds (RoomyOOB p) grp m) : Carries p ua ep grp m := by
  obtain ⟨⟨b, hbuf, hb, hcap⟩, haddr, o, ⟨ho0, hocap⟩, hoob⟩ := h
  have htotal : Coalescer.totalLen grp = b.len := by
    rw [← length_flatMap_toList, ← hb, Slice.length_toList]
  obtain ⟨init, last, hgrp, hinit, hlast⟩ := hg.exists_append
  refine ⟨hg.ne_nil, haddr, ?_, hg.length_le, hg.totalLen_le, fun _ => ?_, ?_, ?_, fun h1 => ?_,
    fun h2 => ?_⟩
  · simp [Message.payload, hbuf, hb]
  · rw [htotal, ← hcap]
    exact b.len_le_cap
  · have hdrop : grp.dropLast = init := by rw [hgrp, List.dropLast_concat]
    rwa [hdrop]
  · have hget : grp.getLast? = some last := by rw [hgrp, List.getLast?_concat]
    rw [hget]
    rintro b' ⟨⟩
    exact hlast
  · rw [hoob, if_neg (by omega)]
    exact toList_setSrcControl hsrc ho0 (by omega)
  · have hlt : Coalescer.headLen grp < 2 ^ 16 :=
      (hg.headLen_le_totalLen.trans (hg.totalLen_le h2)).trans_lt (maxPayloadLen_lt ep.addr)
    refine ⟨hlt, ?_⟩
    rw [hoob, if_pos h2, Nat.mod_eq_of_lt hlt]
    exact exists_toList_setGSOSize_setSrcControl hp hsrc ho0 hocap _

section Coalesce

variable (hp : p.hasOffload = true) (hsrc : ep.SrcFramed) {bufs : List (Slice UInt8)}
  {msgs : List Message} (hl : bufs.length ≤ msgs.length)
  (hmsgs : ∀ m ∈ msgs, m.buffers.length = 1 ∧ RoomyOOB p m.oob)

include hp hsrc hl hmsgs

/-- There is one message for each greedy group. -/
theorem exists_coalesce_groups :
    ∃ built, (coalescer p ua ep).coalesce bufs msgs =
        some (built ++ msgs.drop built.length, built.length) ∧
      List.Forall₂ (Carries p ua ep)
        (groups (Coalescer.joins (maxPayloadLen ep.addr) room) bufs) built := by
  obtain ⟨built, hrun, hclosed⟩ :=
    Coalescer.coalesce_spec (models_coalescer p ua ep) hmsgs hl
  have hgroups := @Coalescer.group_of_mem_groups room (maxPayloadLen ep.addr) bufs
  refine ⟨built, hrun, ((List.forall₂_and_left _ _).mpr ⟨hgroups, hclosed⟩).imp fun grp m h => ?_⟩
  exact carries_of_closed hp hsrc h.1 h.2

/-- **The messages carry the datagrams in groups.** -/
theorem exists_coalesce_carries :
    ∃ gs built, (coalescer p ua ep).coalesce bufs msgs =
        some (built ++ msgs.drop built.length, built.length) ∧
      gs.flatten = bufs ∧ List.Forall₂ (Carries p ua ep) gs built := by
  obtain ⟨built, hrun, hbuilt⟩ := exists_coalesce_groups hp hsrc hl hmsgs
  exact ⟨_, built, hrun, flatten_groups bufs, hbuilt⟩

end Coalesce

/-- Three datagrams, of which the first has room for another. -/
def threeBufs : List (Slice UInt8) :=
  [.withSpare [1, 2] [0, 0, 0], .ofList [3, 4], .ofList [5, 6, 7]]

theorem exists_coalesce_carries_threeBufs :
    ∃ gs built, (coalescer .linux .new localhost).coalesce threeBufs (newMessages .linux 3) =
        some (built ++ (newMessages .linux 3).drop built.length, built.length) ∧
      gs.flatten = threeBufs ∧ List.Forall₂ (Carries .linux .new localhost) gs built := by
  refine exists_coalesce_carries rfl srcFramed_localhost (by decide) fun m hm => ?_
  rw [List.eq_of_mem_replicate hm]
  exact ⟨rfl, fun _ => (pooledMessage_new .linux).oob.1, (pooledMessage_new .linux).oob.2.ge⟩

end StdNetBind

end BatchUDP
