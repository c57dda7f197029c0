import BatchUDP.Coalesce

/-!
# Sending with a fallback

Both senders share what follows the choice of the messages. With offload on, the coalesced messages
are written; if that fails with an error that tells that the device cannot segment, offload is
switched off, and the datagrams are written again, one message each. The second attempt starts from
the messages as the first one left them, and from the first datagram.

## Main definitions

* `errShouldDisableUDPGSO`: the errors that switch offload off
* `Coalescer.plain`, `Coalescer.spread`: one message for each datagram
* `Coalescer.transmit`: the attempts, with `SendResult` and `Transmitted`
* `Coalescer.Group`: what every group of datagrams looks like
* `Coalescer.Segmenting`: the control data of a message tells the kernel its segment size
* `Coalescer.JoinsNonempty`: no empty datagram joins a group

## Main results

* `Coalescer.transmit_off`, `Coalescer.transmit_on`: the attempts of a transmission
* `Coalescer.exists_transmit`: every transmission ends, and sends to its destination only
* `Coalescer.Keeps.transmit`: a transmission keeps what every write of its attempts keeps
* `Coalescer.wire_spread`: without offload the datagrams leave the socket one by one
* `Coalescer.wire_built_iff`: the coalesced messages leave the socket as the datagrams iff no empty
  datagram joined a group
-/

namespace BatchUDP

open Go Unix Framing

/-- `errShouldDisableUDPGSO`: the device lacks the checksum offload that segmentation requires. -/
def errShouldDisableUDPGSO (p : Platform) (err : Error) : Bool :=
  if p.hasOffload then
    match err.asSyscallError with
    -- the test is on the wrapped error itself, not on its chain
    | some e => e = .errno .eio
    | none => false
  else false

/-- What a send returns: nil or an error, or `ErrUDPGSODisabled`. -/
inductive SendResult where
  | done (err : Option Error)
  | gsoDisabled (onLaddr : String) (retryErr : Option Error)
  deriving DecidableEq, Repr

/-- What a transmission did: its result, whether offload stays on, the messages as it left them, the
messages it handed to the socket at each attempt, and the messages the kernel accepted. -/
structure Transmitted where
  result : SendResult
  offload : Bool
  msgs : List Message
  handed : List (List Message)
  accepted : List Message
  deriving DecidableEq, Repr

namespace Coalescer

variable (c : Coalescer)

/-- The loop without offload: one message for each datagram. -/
def plain : List (Slice UInt8) → List Message → Option (List Message)
  | [], msgs => some msgs
  | _ :: _, [] => none
  | buf :: bufs, m :: msgs =>
    if m.buffers = [] then none
    else do
      let msgs ← plain bufs msgs
      some (c.started buf m :: msgs)

/-- The messages that the loop without offload builds. -/
def spread (bufs : List (Slice UInt8)) (msgs : List Message) : List Message :=
  List.zipWith c.started bufs msgs

/-- The attempts of a send, from the label `retry` on. -/
def transmit (p : Platform) (write : List WriteOutcome → List Message → Written) (laddr : String)
    (offload : Bool) (os : List WriteOutcome) (bufs : List (Slice UInt8)) (msgs : List Message) :
    Option Transmitted :=
  if offload then do
    let (msgs, n) ← c.coalesce bufs msgs
    let w := write os (msgs.take n)
    -- nobody else switches offload off during the call, so that the test for it is left out
    if w.err.any (errShouldDisableUDPGSO p) then do
      -- the retry starts from the messages that the first attempt changed
      let again ← c.plain bufs msgs
      let w' := write w.rest (again.take bufs.length)
      some {
        result := .gsoDisabled laddr w'.err
        offload := false
        msgs := again
        handed := [msgs.take n, again.take bufs.length]
        accepted := w.accepted ++ w'.accepted }
    else some ⟨.done w.err, true, msgs, [msgs.take n], w.accepted⟩
  else do
    let msgs ← c.plain bufs msgs
    let w := write os (msgs.take bufs.length)
    some ⟨.done w.err, false, msgs, [msgs.take bufs.length], w.accepted⟩

variable {c} {p : Platform} {write : List WriteOutcome → List Message → Written} {laddr : String}
  {os : List WriteOutcome} {bufs : List (Slice UInt8)} {msgs : List Message}

theorem length_spread (h : bufs.length ≤ msgs.length) :
    (c.spread bufs msgs).length = bufs.length := by
  rw [spread, List.length_zipWith, min_eq_left h]

/-- The loop without offload sets up the first messages and leaves the others alone. -/
theorem plain_eq (hb : ∀ m ∈ msgs, m.buffers ≠ []) (hl : bufs.length ≤ msgs.length) :
    c.plain bufs msgs = some (c.spread bufs msgs ++ msgs.drop bufs.length) := by
  induction bufs generalizing msgs with
  | nil => rfl
  | cons buf bufs ih =>
    obtain ⟨m, msgs, rfl⟩ := List.exists_cons_of_length_pos (Nat.zero_lt_of_lt hl)
    have ih := ih (fun x hx => hb x (List.mem_cons_of_mem _ hx)) (Nat.le_of_succ_le_succ hl)
    rw [plain, if_neg (hb m (by simp)), ih]
    rfl

theorem take_spread_append (hl : bufs.length ≤ msgs.length) (rest : List Message) :
    (c.spread bufs msgs ++ rest).take bufs.length = c.spread bufs msgs :=
  List.take_left' (length_spread hl)

/-- **A transmission without offload** is one attempt with one message for each datagram. -/
theorem transmit_off (hb : ∀ m ∈ msgs, m.buffers ≠ []) (hl : bufs.length ≤ msgs.length) :
    c.transmit p write laddr false os bufs msgs =
      some ⟨.done (write os (c.spread bufs msgs)).err, false,
        c.spread bufs msgs ++ msgs.drop bufs.length, [c.spread bufs msgs],
        (write os (c.spread bufs msgs)).accepted⟩ := by
  simp only [transmit, Bool.false_eq_true, if_false, plain_eq hb hl, take_spread_append hl,
    Option.bind_eq_bind, Option.bind_some]

variable {Holds : List (Slice UInt8) → List (Slice UInt8) → Prop}
  {room : List (Slice UInt8) → Slice UInt8 → Bool} {PooledOOB : Slice UInt8 → Prop}

/-- Messages from a pool have a buffer. -/
theorem buffers_ne_nil_of_pooled (hp : ∀ m ∈ msgs, m.buffers.length = 1 ∧ PooledOOB m.oob) :
    ∀ m ∈ msgs, m.buffers ≠ [] := by
  intro m hm
  have hone := (hp m hm).1
  exact List.ne_nil_of_length_pos (by omega)

/-- The messages behind a coalescing loop: those it built, and the rest of the pooled ones. -/
theorem forall_buffers_ne_nil (hM : c.Models Holds room)
    (hp : ∀ m ∈ msgs, m.buffers.length = 1 ∧ PooledOOB m.oob) {built : List Message}
    (hg : List.Forall₂ (c.Closed Holds PooledOOB) (groups (joins c.maxPayloadLen room) bufs)
      built) :
    ∀ m ∈ built ++ msgs.drop built.length, m.buffers ≠ [] := by
  intro m hm
  rcases List.mem_append.mp hm with hm | hm
  · have hne := (List.forall₂_and_left _ _).mpr ⟨groups_ne_nil bufs, hg⟩
    refine forall_mem_right (hne.imp (S := fun _ m => m.buffers ≠ []) ?_) m hm
    exact fun grp m h => hM.holds_ne_nil grp _ h.2.1 h.1
  · exact buffers_ne_nil_of_pooled hp m (List.mem_of_mem_drop hm)

variable (p write laddr os) in
/-- **A transmission with offload** writes one message for each greedy group. It ends there, unless
the error tells to switch offload off: then it writes one message for each datagram, made from the
messages as the first attempt left them. -/
theorem transmit_on (hM : c.Models Holds room)
    (hp : ∀ m ∈ msgs, m.buffers.length = 1 ∧ PooledOOB m.oob) (hl : bufs.length ≤ msgs.length) :
    ∃ built left, left = built ++ msgs.drop built.length ∧ left.length = msgs.length ∧
      List.Forall₂ (c.Closed Holds PooledOOB) (groups (joins c.maxPayloadLen room) bufs) built ∧
      c.transmit p write laddr true os bufs msgs =
        if (write os built).err.any (errShouldDisableUDPGSO p) then
          some ⟨.gsoDisabled laddr (write (write os built).rest (c.spread bufs left)).err, false,
            c.spread bufs left ++ left.drop bufs.length, [built, c.spread bufs left],
            (write os built).accepted ++
              (write (write os built).rest (c.spread bufs left)).accepted⟩
        else some ⟨.done (write os built).err, true, left, [built], (write os built).accepted⟩ := by
  obtain ⟨built, hc, hg⟩ := coalesce_spec hM hp hl
  have hlen : built.length ≤ msgs.length := by
    rw [← hg.length_eq]
    exact (length_groups_le bufs).trans hl
  have hleft : (built ++ msgs.drop built.length).length = msgs.length := by
    rw [List.length_append, List.length_drop]
    omega
  have hb := forall_buffers_ne_nil hM hp hg
  refine ⟨built, _, rfl, hleft, hg, ?_⟩
  simp only [transmit, if_true, hc, Option.bind_eq_bind, Option.bind_some, List.take_left,
    plain_eq hb (hl.trans hleft.ge), take_spread_append (hl.trans hleft.ge)]

/-- **The messages of a retry** are made from those that the first attempt built, and from those
it did not need. -/
theorem transmit_again (hM : c.Models Holds room)
    (hp : ∀ m ∈ msgs, m.buffers.length = 1 ∧ PooledOOB m.oob) (hl : bufs.length ≤ msgs.length)
    {offload : Bool} {t : Transmitted}
    (ht : c.transmit p write laddr offload os bufs msgs = some t) {first again : List Message}
    (hr : t.handed = [first, again]) :
    List.Forall₂ (c.Closed Holds PooledOOB) (groups (joins c.maxPayloadLen room) bufs) first ∧
      bufs.length ≤ (first ++ msgs.drop first.length).length ∧
      again = c.spread bufs (first ++ msgs.drop first.length) := by
  cases offload with
  | false =>
    rw [transmit_off (buffers_ne_nil_of_pooled hp) hl] at ht
    obtain rfl := Option.some.inj ht
    simp at hr
  | true =>
    obtain ⟨built, left, rfl, hleft, hg, he⟩ := transmit_on p write laddr os hM hp hl
    rw [he] at ht
    split_ifs at ht
    · obtain rfl := Option.some.inj ht
      obtain ⟨rfl, rfl⟩ : built = first ∧ _ = again := by simpa using hr
      exact ⟨hg, hl.trans hleft.ge, rfl⟩
    · obtain rfl := Option.some.inj ht
      simp at hr

/-- A property of the messages of a retry that depends on the group in the message only. -/
theorem forall₂_spread_iff {R : Message → Slice UInt8 → Prop} {C : List (Slice UInt8) → Prop}
    {gs : List (List (Slice UInt8))} {built rest : List Message}
    (hg : List.Forall₂ (fun grp m => ∀ buf, R (c.started buf m) buf ↔ C grp) gs built)
    (hrest : ∀ m ∈ rest, ∀ buf, R (c.started buf m) buf) (hgs : gs.length ≤ bufs.length)
    (hl : bufs.length ≤ (built ++ rest).length) :
    List.Forall₂ R (c.spread bufs (built ++ rest)) bufs ↔ ∀ grp ∈ gs, C grp := by
  rw [spread, forall₂_zipWith_iff hl, ← forall_mem_zip_fst_iff hgs]
  exact forall_mem_zipWith_append_iff (R := fun d : Message × Slice UInt8 => R d.1 d.2)
    (C := fun x : List (Slice UInt8) × Slice UInt8 => C x.1) hg hrest

theorem forall₂_spread {R : Message → Slice UInt8 → Prop}
    (h : ∀ buf, ∀ m ∈ msgs, R (c.started buf m) buf) (hl : bufs.length ≤ msgs.length) :
    List.Forall₂ R (c.spread bufs msgs) bufs := by
  induction bufs generalizing msgs with
  | nil => exact .nil
  | cons buf bufs ih =>
    obtain ⟨m, msgs, rfl⟩ := List.exists_cons_of_length_pos (Nat.zero_lt_of_lt hl)
    refine .cons (h buf m (by simp)) ?_
    exact ih (fun b x hx => h b x (List.mem_cons_of_mem _ hx)) (Nat.le_of_succ_le_succ hl)

theorem forall_mem_spread {R : Message → Prop} (h : ∀ buf, ∀ m ∈ msgs, R (c.started buf m)) :
    ∀ m ∈ c.spread bufs msgs, R m := by
  induction bufs generalizing msgs with
  | nil => simp [spread]
  | cons buf bufs ih =>
    cases msgs with
    | nil => simp [spread]
    | cons m msgs =>
      rw [spread, List.zipWith_cons_cons, List.forall_mem_cons]
      exact ⟨h buf m (by simp), ih fun b x hx => h b x (List.mem_cons_of_mem _ hx)⟩

theorem spread_ne_nil (h : bufs ≠ []) (hl : bufs.length ≤ msgs.length) :
    c.spread bufs msgs ≠ [] := by
  refine List.ne_nil_of_length_pos ?_
  rw [length_spread hl]
  exact List.length_pos_iff.mpr h

/-- What is left of the messages behind one message for each datagram. -/
theorem forall_mem_spread_append {Kept : Message → Prop} (hkept : ∀ m ∈ msgs, Kept m)
    (hstarted : ∀ buf m, Kept m → Kept (c.started buf m)) :
    ∀ m ∈ c.spread bufs msgs ++ msgs.drop bufs.length, Kept m := by
  intro m hm
  rcases List.mem_append.mp hm with hm | hm
  · exact forall_mem_spread (fun buf x hx => hstarted buf x (hkept x hx)) m hm
  · exact hkept m (List.mem_of_mem_drop hm)

theorem length_spread_append (hl : bufs.length ≤ msgs.length) :
    (c.spread bufs msgs ++ msgs.drop bufs.length).length = msgs.length := by
  rw [List.length_append, length_spread hl, List.length_drop]
  omega

variable (p write laddr os) in
/-- **Every transmission ends with a result**, and hands over messages to the destination only. -/
theorem exists_transmit (hM : c.Models Holds room)
    (hp : ∀ m ∈ msgs, m.buffers.length = 1 ∧ PooledOOB m.oob) (hl : bufs.length ≤ msgs.length)
    (offload : Bool) :
    ∃ t, c.transmit p write laddr offload os bufs msgs = some t ∧
      (∀ ms ∈ t.handed, ∀ m ∈ ms, m.addr = some c.addr) ∧
      (bufs ≠ [] → ∃ ms ∈ t.handed, ms ≠ []) := by
  have haddr (ms : List Message) : ∀ m ∈ c.spread bufs ms, m.addr = some c.addr :=
    forall_mem_spread fun _ _ _ => rfl
  cases offload with
  | false =>
    refine ⟨_, transmit_off (buffers_ne_nil_of_pooled hp) hl, by simpa using haddr msgs,
      fun hb => ?_⟩
    exact ⟨c.spread bufs msgs, by simp, spread_ne_nil hb hl⟩
  | true =>
    obtain ⟨built, left, hleft, hlen, hg, he⟩ :=
      transmit_on p write laddr os hM hp hl
    have hbuilt : ∀ m ∈ built, m.addr = some c.addr := forall_mem_right (hg.imp fun _ _ h => h.2.1)
    have hne : bufs ≠ [] → built ≠ [] := by
      rintro hb rfl
      obtain ⟨b, bs, rfl⟩ := List.exists_cons_of_ne_nil hb
      have := @flatten_groups _ (joins c.maxPayloadLen room) (b :: bs)
      rw [List.forall₂_nil_right_iff.mp hg] at this
      cases this
    rw [he]
    split_ifs
    · refine ⟨_, rfl, ?_, fun hb => ⟨built, by simp, hne hb⟩⟩
      simpa using ⟨hbuilt, haddr left⟩
    · refine ⟨_, rfl, ?_, fun hb => ⟨built, by simp, hne hb⟩⟩
      simpa using hbuilt

/-! ## What every attempt keeps -/

namespace Keeps

variable {Kept : Message → Prop} (hk : c.Keeps Kept)

include hk

theorem plain {msgs' : List Message} (h : c.plain bufs msgs = some msgs')
    (hms : ∀ m ∈ msgs, Kept m) :
    msgs'.length = msgs.length ∧ ∀ m ∈ msgs', Kept m := by
  induction bufs generalizing msgs msgs' with
  | nil =>
    obtain rfl := Option.some.inj h
    exact ⟨rfl, hms⟩
  | cons buf bufs ih =>
    cases msgs with
    | nil => simp [Coalescer.plain] at h
    | cons m msgs =>
      rw [Coalescer.plain] at h
      split_ifs at h
      obtain ⟨rest, hrest, h⟩ := Option.bind_eq_some_iff.mp h
      obtain rfl := Option.some.inj h
      obtain ⟨hm, hms⟩ := List.forall_mem_cons.mp hms
      obtain ⟨hlen, hall⟩ := ih hrest hms
      exact ⟨congrArg (· + 1) hlen, List.forall_mem_cons.mpr ⟨hk.started buf m hm, hall⟩⟩

/-- **Every transmission that ends keeps the property**, whichever of its attempts fails. -/
theorem transmit {offload : Bool} {t : Transmitted}
    (h : c.transmit p write laddr offload os bufs msgs = some t) (hms : ∀ m ∈ msgs, Kept m) :
    t.msgs.length = msgs.length ∧ ∀ m ∈ t.msgs, Kept m := by
  unfold Coalescer.transmit at h
  split_ifs at h
  · obtain ⟨⟨built, n⟩, hbuilt, h⟩ := Option.bind_eq_some_iff.mp h
    obtain ⟨hlen, hms⟩ := hk.coalesce hbuilt hms
    dsimp only at h
    split_ifs at h
    · obtain ⟨again, hagain, h⟩ := Option.bind_eq_some_iff.mp h
      obtain rfl := Option.some.inj h
      obtain ⟨hlen', hms'⟩ := hk.plain hagain hms
      exact ⟨hlen'.trans hlen, hms'⟩
    · obtain rfl := Option.some.inj h
      exact ⟨hlen, hms⟩
  · obtain ⟨left, hleft, h⟩ := Option.bind_eq_some_iff.mp h
    obtain rfl := Option.some.inj h
    exact hk.plain hleft hms

end Keeps

/-! ## The datagrams of coalesced messages -/

/-- What every group of datagrams looks like: all have the length of the first, except that the last
may be shorter, and several together stay within the limits. -/
structure Group (maxPayloadLen : ℕ) (grp : List (Slice UInt8)) : Prop where
  ne_nil : grp ≠ []
  uniform : Uniform (headLen grp) (grp.map Slice.toList)
  length_le : grp.length ≤ udpSegmentMaxDatagrams
  totalLen_le : 2 ≤ grp.length → totalLen grp ≤ maxPayloadLen

theorem Group.singleton (maxPayloadLen : ℕ) (b : Slice UInt8) : Group maxPayloadLen [b] where
  ne_nil := by simp
  uniform := by
    have := Uniform.singleton b.toList
    rwa [Slice.length_toList] at this
  length_le := Nat.succ_le_succ (Nat.zero_le _)
  totalLen_le h := absurd h (by simp)

theorem Group.snoc {maxPayloadLen : ℕ} {grp : List (Slice UInt8)} {b : Slice UInt8}
    (h : Group maxPayloadLen grp) (hj : joins maxPayloadLen room grp b = true) :
    Group maxPayloadLen (grp ++ [b]) := by
  obtain ⟨⟨hle, hhead, hlt, heq⟩, -⟩ := joins_iff.mp hj
  refine ⟨by simp, ?_, by simpa using hlt, fun _ => ?_⟩
  · rw [headLen_append h.ne_nil, List.map_append]
    refine Uniform.snoc ?_ (by simpa using hhead)
    intro x hx
    obtain ⟨b', hb', rfl⟩ := List.mem_map.mp hx
    rw [Slice.length_toList, heq b' hb']
  · simp only [totalLen, List.map_append, List.sum_append] at hle ⊢
    simp only [List.map_cons, List.map_nil, List.sum_singleton]
    omega

theorem Group.headLen_le_totalLen {maxPayloadLen : ℕ} {grp : List (Slice UInt8)}
    (h : Group maxPayloadLen grp) : headLen grp ≤ totalLen grp := by
  obtain ⟨b, bs, rfl⟩ := List.exists_cons_of_ne_nil h.ne_nil
  simp [totalLen]

/-- The members of a group, with the last one apart. -/
theorem Group.exists_append {maxPayloadLen : ℕ} {grp : List (Slice UInt8)}
    (h : Group maxPayloadLen grp) :
    ∃ init last, grp = init ++ [last] ∧ (∀ b ∈ init, b.len = headLen grp) ∧
      last.len ≤ headLen grp := by
  obtain ⟨xs, x, hgrp, hxs, hx⟩ := h.uniform
  obtain ⟨init, l, rfl, rfl, hl⟩ := List.map_eq_append_iff.mp hgrp
  obtain ⟨last, rfl, rfl⟩ := List.map_eq_singleton_iff.mp hl
  refine ⟨init, last, rfl, fun b hb => ?_, by rwa [Slice.length_toList] at hx⟩
  have := hxs b.toList (List.mem_map_of_mem hb)
  rwa [Slice.length_toList] at this

/-- **Every greedy group is a group within the limits.** -/
theorem group_of_mem_groups (maxPayloadLen : ℕ) (bufs : List (Slice UInt8)) :
    ∀ grp ∈ groups (joins maxPayloadLen room) bufs, Group maxPayloadLen grp :=
  forall_groups (Group.singleton maxPayloadLen) (fun _ _ h hj => h.snoc hj) bufs

/-- The buffers of a message make up the payload of its group, and its control data tells the kernel
the segment size: none when it was just reset, and otherwise the one that was set. -/
structure Segmenting (c : Coalescer) (Holds : List (Slice UInt8) → List (Slice UInt8) → Prop)
    (PooledOOB : Slice UInt8 → Prop) : Prop where
  payload_eq : ∀ grp bs, Holds grp bs → bs.flatMap Slice.toList = grp.flatMap Slice.toList
  segmentSize_reset : ∀ o, PooledOOB o → segmentSize (c.reset o).toList = 0
  segmentSize_setGSO : ∀ o g, PooledOOB o → g < 2 ^ 16 →
    segmentSize (c.setGSO (c.reset o) g).toList = g

/-- No empty datagram joins a group. -/
def JoinsNonempty (maxPayloadLen : ℕ) (room : List (Slice UInt8) → Slice UInt8 → Bool)
    (bufs : List (Slice UInt8)) : Prop :=
  ∀ grp ∈ groups (joins maxPayloadLen room) bufs, ∀ b ∈ grp.tail, b.len ≠ 0

instance (maxPayloadLen : ℕ) (room : List (Slice UInt8) → Slice UInt8 → Bool)
    (bufs : List (Slice UInt8)) : Decidable (JoinsNonempty maxPayloadLen room bufs) :=
  inferInstanceAs (Decidable (∀ grp ∈ groups (joins maxPayloadLen room) bufs, ∀ b ∈ grp.tail,
    b.len ≠ 0))

theorem payload_started {m : Message} (hm : m.buffers.length = 1) {buf : Slice UInt8} :
    (c.started buf m).payload = buf.toList := by
  obtain ⟨b, hb⟩ := List.length_eq_one_iff.mp hm
  simp [Message.payload, started, hb]

/-- A message with one buffer, started with a datagram, leaves the socket as that datagram, unless
its control data still carries a segment size. -/
theorem datagrams_started {m : Message} (hm : m.buffers.length = 1) (buf : Slice UInt8) :
    (c.started buf m).datagrams =
      Message.segments (segmentSize (c.reset m.oob).toList) buf.toList := by
  rw [Message.datagrams, payload_started hm]
  rfl

/-- **Without offload the datagrams leave the socket** one by one. -/
theorem wire_spread (hS : c.Segmenting Holds PooledOOB)
    (hp : ∀ m ∈ msgs, m.buffers.length = 1 ∧ PooledOOB m.oob) (hl : bufs.length ≤ msgs.length) :
    wire (c.spread bufs msgs) = bufs.map Slice.toList := by
  induction bufs generalizing msgs with
  | nil => rfl
  | cons buf bufs ih =>
    obtain ⟨m, msgs, rfl⟩ := List.exists_cons_of_length_pos (Nat.zero_lt_of_lt hl)
    obtain ⟨h1, ho⟩ := hp m (by simp)
    have ih := ih (fun x hx => hp x (List.mem_cons_of_mem _ hx)) (Nat.le_of_succ_le_succ hl)
    have hd : (c.started buf m).datagrams = [buf.toList] := by
      rw [datagrams_started h1, hS.segmentSize_reset _ ho, Message.segments_zero]
    show (c.started buf m).datagrams ++ wire (c.spread bufs msgs) = _
    rw [hd, ih]
    rfl

section Wire

variable (hS : c.Segmenting Holds PooledOOB) (hmax : c.maxPayloadLen < 2 ^ 16)

include hS hmax

/-- The segment size of a closed message: that of its first datagram, if there are several. -/
theorem Closed.segmentSize_eq {grp : List (Slice UInt8)} {m : Message}
    (hg : Group c.maxPayloadLen grp) (h : c.Closed Holds PooledOOB grp m) :
    segmentSize m.oob.toList = if 2 ≤ grp.length then headLen grp else 0 := by
  obtain ⟨-, -, o, ho, hoob⟩ := h
  rw [hoob]
  split_ifs with h2
  -- the segment size is within the payload limit, and therefore not cut off to sixteen bits
  · have hlt : headLen grp < 2 ^ 16 :=
      (hg.headLen_le_totalLen.trans (hg.totalLen_le h2)).trans_lt hmax
    rw [Nat.mod_eq_of_lt hlt, hS.segmentSize_setGSO o _ ho hlt]
  · exact hS.segmentSize_reset o ho

/-- A closed message leaves the socket as its group, or as fewer datagrams if an empty one joined
the group. -/
theorem Closed.datagrams_cases {grp : List (Slice UInt8)} {m : Message}
    (hg : Group c.maxPayloadLen grp) (h : c.Closed Holds PooledOOB grp m) :
    m.datagrams = grp.map Slice.toList ∧ (∀ b ∈ grp.tail, b.len ≠ 0) ∨
      m.datagrams.length < (grp.map Slice.toList).length ∧ ¬ ∀ b ∈ grp.tail, b.len ≠ 0 := by
  have hpay : m.payload = (grp.map Slice.toList).flatten := by
    rw [Message.payload, hS.payload_eq grp _ h.1, List.flatMap_def]
  rw [Message.datagrams, h.segmentSize_eq hS hmax hg, hpay]
  obtain ⟨b, bs, rfl⟩ := List.exists_cons_of_ne_nil hg.ne_nil
  rcases eq_or_ne bs [] with rfl | hbs
  · exact .inl ⟨by simp [Message.segments_zero], by simp⟩
  have h2 : 2 ≤ (b :: bs).length := by
    have := List.length_pos_iff.mpr hbs
    rw [List.length_cons]
    omega
  rw [if_pos h2, List.tail_cons]
  by_cases hne : ∀ x ∈ bs, x.len ≠ 0
  · refine .inl ⟨?_, hne⟩
    have hall : ∀ d ∈ (b :: bs).map Slice.toList, d ≠ [] := by
      have hbs' : ∀ x ∈ bs, x.toList ≠ [] := fun x hx => mt Slice.toList_eq_nil_iff.mp (hne x hx)
      obtain ⟨x, hx⟩ := List.exists_mem_of_ne_nil bs hbs
      have hxb : x.len ≤ b.len := by
        have := hg.uniform.length_le x.toList (List.mem_map_of_mem (List.mem_cons_of_mem b hx))
        rwa [Slice.length_toList] at this
      intro d hd
      rcases List.mem_cons.mp hd with rfl | hd
      · refine mt Slice.toList_eq_nil_iff.mp ?_
        have := hne x hx
        omega
      · obtain ⟨y, hy, rfl⟩ := List.mem_map.mp hd
        exact hbs' y hy
    have hflat : ((b :: bs).map Slice.toList).flatten ≠ [] := by
      intro h0
      exact hall b.toList (by simp) (List.flatten_eq_nil_iff.mp h0 _ (by simp))
    rw [Message.segments_eq_chunks hflat, hg.uniform.chunks_flatten hall]
  · refine .inr ⟨?_, hne⟩
    rcases eq_or_ne ((b :: bs).map Slice.toList).flatten [] with h0 | h0
    · rw [h0, Message.segments, List.length_nil, if_pos (Nat.zero_le _), List.length_map]
      exact h2
    · rw [Message.segments_eq_chunks h0]
      refine hg.uniform.length_chunks_flatten_lt (by rwa [List.length_map]) ?_
      obtain ⟨x, hx, h0⟩ := by simpa using hne
      exact ⟨x.toList, List.mem_map_of_mem hx, Slice.toList_eq_nil_iff.mpr h0⟩

/-- **The coalesced messages leave the socket as the datagrams** iff no empty datagram joined a
group. -/
theorem wire_built_iff {built : List Message}
    (hg : List.Forall₂ (c.Closed Holds PooledOOB) (groups (joins c.maxPayloadLen room) bufs)
      built) :
    wire built = bufs.map Slice.toList ↔ JoinsNonempty c.maxPayloadLen room bufs := by
  have hgs := (List.forall₂_and_left _ _).mpr ⟨group_of_mem_groups c.maxPayloadLen bufs, hg⟩
  have hcases := hgs.imp fun grp m h =>
    Closed.datagrams_cases hS hmax h.1 h.2
  have hbufs : bufs.map Slice.toList =
      (groups (joins c.maxPayloadLen room) bufs).flatMap (List.map Slice.toList) := by
    rw [List.flatMap_def, ← List.map_flatten, flatten_groups]
  rw [wire, hbufs, flatMap_eq_flatMap_iff hcases, JoinsNonempty]

end Wire

end Coalescer

end BatchUDP
