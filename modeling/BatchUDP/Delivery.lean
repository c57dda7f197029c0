import BatchUDP.StdNet.Receive
import BatchUDP.Batching.Read

/-!
# What the receivers deliver

A socket with receive offload hands out messages that were coalesced from several datagrams. Both
receivers split them, but each only on the path it was written for: the standard bind with a batch
reader and at least two slots, a batching connection with at least two of the caller's messages.
Both end the split at the first empty message.

## Main definitions

* `Uncoalesced p rs`: every message is one datagram

## Main results

* `delivered_eq_originals_iff`: the slots hold one datagram each iff the messages were split, or
  none was coalesced
* `originals_sublist_delivered_iff`: no datagram is dropped iff no empty message is in front of a
  nonempty one
-/

namespace BatchUDP

open Go Unix Framing

/-- Every message is one datagram. -/
def Uncoalesced (p : Platform) (rs : List Received) : Prop :=
  ∀ r ∈ rs, r.datagrams p = [r.payload]

instance (p : Platform) (rs : List Received) : Decidable (Uncoalesced p rs) :=
  inferInstanceAs (Decidable (∀ r ∈ rs, r.datagrams p = [r.payload]))

/-- A message reported as it was read is one datagram iff it was not coalesced. -/
theorem payload_eq_originals_iff {p : Platform} {r : Received} {n : ℕ} (rooms : List ℕ)
    (h : r.payload.length ≤ n) :
    [r.payload] = originals p [r] ↔ Held (n :: rooms) (originals p [r]) ∧ Uncoalesced p [r] := by
  have ho : originals p [r] = r.datagrams p := by simp [originals]
  rw [ho, Uncoalesced, List.forall_mem_singleton]
  constructor
  · intro he
    rw [← he]
    exact ⟨by simpa [Held] using h, rfl⟩
  · rintro ⟨-, he⟩
    exact he.symm

namespace StdNetBind

section Receive

variable {p : Platform} {s : StdNetBind} {br : Bool} {run : ReceiveRun} {bufs : List (Slice UInt8)}
  {sizes : List ℕ} {eps : List (Option StdNetEndpoint)} {rs : List Received} {rec : Receipt}

/-- A call that succeeds was given enough slots. -/
theorem validateReceiveBuffers_of_success {rxOffload : Bool}
    (he : s.receiveIP p br rxOffload run bufs sizes eps = some rec) (herr : rec.err = none) :
    validateReceiveBuffers bufs sizes eps s.batchSize = none := by
  cases hv : validateReceiveBuffers bufs sizes eps s.batchSize with
  | none => rfl
  | some e =>
    rw [receiveIP, hv] at he
    obtain rfl := Option.some.inj he
    simp at herr

theorem length_take_of_validate (hv : validateReceiveBuffers bufs sizes eps s.batchSize = none) :
    (bufs.take s.batchSize).length = s.batchSize := by
  have : ¬ bufs.length < s.batchSize := fun h => by simp [validateReceiveBuffers, h] at hv
  rw [List.length_take]
  omega

/-- A call that does not split reads into the first slot only, unless receive offload is off. -/
theorem window_eq_take_one {α : Type} {l : List α} (hsp : ¬ Splits p br true l.length) :
    window p br true l = l.take 1 := by
  unfold window
  split_ifs with h1 h2
  · exact absurd ⟨h1, h2⟩ hsp
  · have : l.length ≤ 1 := by simpa using h2
    exact (List.take_of_length_le this).symm
  · rfl

/-- One slot holds one message. -/
theorem ReadableInto.exists_singleton {l : List (Slice UInt8)} (h : ReadableInto p (l.take 1) rs) :
    ∃ b l' r, l = b :: l' ∧ rs = [r] ∧ Readable p b r := by
  obtain ⟨r, rs, rfl⟩ := List.exists_cons_of_ne_nil h.ne_nil
  cases l with
  | nil => simpa using h.fits
  | cons b l =>
    have hfits := h.fits
    simp only [List.length_cons, List.take_succ_cons, List.take_zero, List.take_nil,
      List.forall₂_cons, List.forall₂_nil_left_iff] at hfits
    obtain ⟨hbr, rfl⟩ := hfits
    exact ⟨b, l, r, rfl, rfl, hbr⟩

/-- A call that splits succeeds iff the datagrams do not run past their messages, and then reports
what the split delivers. -/
theorem exists_receiveIP_window (hs : s.Valid p)
    (hv : validateReceiveBuffers bufs sizes eps s.batchSize = none) (hread : run.read = .ok rs)
    (hsp : Splits p br true s.batchSize)
    (hr : ReadableInto p (window p br true (bufs.take s.batchSize)) rs) :
    ∃ rec, s.receiveIP p br true run bufs sizes eps = some rec ∧
      (rec.err = none ↔ Fitting p (readAt s.batchSize) rs) ∧
      (rec.err = none → ∃ msgs r, Reads p (readAt s.batchSize) msgs rs ∧
        ¬ Stale (readAt s.batchSize) msgs rs ∧
        msgs.map Message.room = (bufs.take s.batchSize).map Slice.len ∧
        splitCoalescedMessages (getGSOSize p) (readAt s.batchSize)
          (readWindow (readAt s.batchSize) msgs rs) = some r ∧ r.err = none ∧
        rec.delivered = r.delivered) := by
  rw [window, if_pos hsp.1, length_take_of_validate hv, if_pos hsp.2] at hr
  obtain ⟨msgs, rec, hlent, -, hreads, he, hover, hok⟩ := exists_receiveIP_split hs hv hread hsp hr
  have hiff : rec.err = none ↔ Fitting p (readAt s.batchSize) rs := by
    refine ⟨fun herr => ?_, fun hno => (hok hno).1⟩
    by_contra hno
    simp [(hover hno).2] at herr
  refine ⟨rec, he, hiff, fun herr => ?_⟩
  obtain ⟨-, r, hsplit, herr', -, hdel, -⟩ := hok (hiff.mp herr)
  exact ⟨msgs, r, hreads, not_stale_of_lent hlent _, map_room_of_lent hlent, hsplit, herr', hdel⟩

/-- The slots of a successful call hold one datagram each iff the messages were split, or none was
coalesced. -/
theorem receiveIP_delivered_iff (hs : s.Valid p) (hread : run.read = .ok rs)
    (h0 : ∀ r ∈ rs, r.payload ≠ [])
    (hr : ReadableInto p (window p br true (bufs.take s.batchSize)) rs)
    (he : s.receiveIP p br true run bufs sizes eps = some rec) (herr : rec.err = none) :
    rec.delivered = originals p rs ↔
      Held ((bufs.take s.batchSize).map Slice.len) (originals p rs) ∧
        (Splits p br true s.batchSize ∨ Uncoalesced p rs) := by
  have hv := validateReceiveBuffers_of_success he herr
  by_cases hsp : Splits p br true s.batchSize
  · obtain ⟨rec', he', -, hok⟩ := exists_receiveIP_window hs hv hread hsp hr
    obtain rfl := Option.some.inj (he.symm.trans he')
    obtain ⟨msgs, r, hreads, hstale, hroom, hsplit, herr', hdel⟩ := hok herr
    rw [hdel, hreads.delivered_eq_iff hsplit herr', hroom]
    simp [emptyLast_of_forall_ne_nil h0, hstale, hsp]
  · obtain ⟨-, rec', -, -, he', -, hdel, -⟩ := exists_receiveIP_plain hs hv hread hsp hr
    obtain rfl := Option.some.inj (he.symm.trans he')
    rw [window_eq_take_one (by rwa [length_take_of_validate hv])] at hr
    obtain ⟨b, bs, r, hbs, rfl, hbr⟩ := hr.exists_singleton
    rw [hdel, hbs, List.map_cons, List.map_cons, List.map_nil,
      payload_eq_originals_iff (bs.map Slice.len) hbr.payload]
    simp [hsp]

/-- A call that splits without overflow drops no datagram iff no empty message is in front of a
nonempty one. -/
theorem exists_receiveIP_sublist_iff (hs : s.Valid p)
    (hv : validateReceiveBuffers bufs sizes eps s.batchSize = none) (hread : run.read = .ok rs)
    (hsp : Splits p br true s.batchSize)
    (hr : ReadableInto p (window p br true (bufs.take s.batchSize)) rs)
    (hno : Fitting p (readAt s.batchSize) rs)
    (hfit : Held ((bufs.take s.batchSize).map Slice.len) (originals p rs)) :
    ∃ rec, s.receiveIP p br true run bufs sizes eps = some rec ∧ rec.err = none ∧
      ((originals p rs).Sublist rec.delivered ↔ EmptyLast rs) := by
  obtain ⟨rec, he, hiff, hok⟩ := exists_receiveIP_window hs hv hread hsp hr
  obtain ⟨msgs, r, hreads, -, hroom, hsplit, herr, hdel⟩ := hok (hiff.mpr hno)
  refine ⟨rec, he, hiff.mpr hno, ?_⟩
  rw [hdel]
  exact hreads.sublist_delivered_iff hsplit herr (hroom ▸ hfit)

end Receive

end StdNetBind

namespace BatchingConn

/-- One message of the caller's is filled with one message. -/
theorem exists_singleton_of_reads {p : Platform} {c : BatchingConn} {msgs : List Message}
    {rs : List Received} (hlt : msgs.length < 2) (hr : ReadsInto p (c.slots msgs) rs) :
    ∃ m r, msgs = [m] ∧ rs = [r] ∧ r.Fits p (fullOOB m) := by
  have hslots : c.slots msgs = msgs.map fullOOB := by
    rw [slots, readAt, if_pos (.inr hlt), List.drop_zero]
  rw [hslots] at hr
  obtain ⟨r, rs, rfl⟩ := List.exists_cons_of_ne_nil hr.ne_nil
  have hle := hr.length_le
  rw [List.length_map, List.length_cons] at hle
  obtain ⟨m, rfl⟩ := List.length_eq_one_iff.mp (show msgs.length = 1 by omega)
  obtain rfl : rs = [] := List.length_eq_zero_iff.mp (by simpa using hle)
  exact ⟨m, r, rfl, rfl, (List.forall₂_cons.mp hr.fits).1⟩

/-- The slots of a successful call hold one datagram each iff the messages were split and no length
was left over, or there is one slot and the message was not coalesced. -/
theorem ReadBatch_eq_originals_iff {p : Platform} {c : BatchingConn} {msgs : List Message}
    {rs : List Received} {r : Split} (hrx : c.rxOffload = true) (hb : ∀ m ∈ msgs, m.buffers ≠ [])
    (h0 : ∀ r ∈ rs, r.payload ≠ []) (hr : ReadsInto p (c.slots msgs) rs)
    (he : c.ReadBatch p (.ok rs) msgs = some r) (herr : r.err = none) :
    r.delivered = originals p rs ↔ Held (msgs.map Message.room) (originals p rs) ∧
      (2 ≤ msgs.length ∧ ¬ Stale (msgs.length - 2) msgs rs ∨
        msgs.length = 1 ∧ Uncoalesced p rs) := by
  rcases Nat.lt_or_ge msgs.length 2 with hlt | hlen
  · obtain ⟨r', he', -, hdel⟩ := ReadBatch_delivered_plain (.inr hlt) hr
    obtain rfl := Option.some.inj (he.symm.trans he')
    obtain ⟨m, r', rfl, rfl, hmr⟩ := exists_singleton_of_reads hlt hr
    obtain ⟨b, bs, hbs, hle⟩ := hmr.payload
    have hroom : m.room = b.len := Message.room_eq hbs
    rw [hdel, List.map_cons, List.map_nil, List.map_cons, List.map_nil,
      payload_eq_originals_iff [] (hroom ▸ hle)]
    simp
  · rw [ReadBatch_delivered_iff hrx hlen hb hr he herr]
    have h1 : msgs.length ≠ 1 := by omega
    simp [emptyLast_of_forall_ne_nil h0, leading_eq_self h0, hlen, h1]

end BatchingConn

/-- **The slots of a successful receive hold one datagram each** iff each datagram fits its slot and
the messages were split or none was coalesced. The standard bind splits with a batch reader and at
least two slots; a batching connection splits with at least two messages of the caller's, and then
the slot behind the messages filled must have no length left over. -/
theorem delivered_eq_originals_iff (p : Platform) :
    (∀ (s : StdNetBind) (br : Bool) (run : ReceiveRun) (bufs : List (Slice UInt8)) (sizes : List ℕ)
      (eps : List (Option StdNetEndpoint)) (rs : List Received) (rec : Receipt), s.Valid p →
      run.read = .ok rs → (∀ r ∈ rs, r.payload ≠ []) →
      StdNetBind.ReadableInto p (StdNetBind.window p br true (bufs.take s.batchSize)) rs →
      s.receiveIP p br true run bufs sizes eps = some rec → rec.err = none →
      (rec.delivered = originals p rs ↔
        Held ((bufs.take s.batchSize).map Slice.len) (originals p rs) ∧
          (StdNetBind.Splits p br true s.batchSize ∨ Uncoalesced p rs))) ∧
    ∀ (c : BatchingConn) (msgs : List Message) (rs : List Received) (r : Split),
      c.rxOffload = true → (∀ m ∈ msgs, m.buffers ≠ []) → (∀ r ∈ rs, r.payload ≠ []) →
      ReadsInto p (c.slots msgs) rs → c.ReadBatch p (.ok rs) msgs = some r → r.err = none →
      (r.delivered = originals p rs ↔ Held (msgs.map Message.room) (originals p rs) ∧
        (2 ≤ msgs.length ∧ ¬ Stale (msgs.length - 2) msgs rs ∨
          msgs.length = 1 ∧ Uncoalesced p rs)) :=
  ⟨fun _ _ _ _ _ _ _ _ hs hread h0 hr he herr =>
      StdNetBind.receiveIP_delivered_iff hs hread h0 hr he herr,
    fun _ _ _ _ hrx hb h0 hr he herr =>
      BatchingConn.ReadBatch_eq_originals_iff hrx hb h0 hr he herr⟩

/-- Two datagrams of one byte, coalesced into one message. -/
def pair : Received := .coalesced 1 [1, 2]

/-- Two slots. -/
def twoBuffers : List (Slice UInt8) := [.ofList [0, 0], .ofList [0, 0]]

/-- The hypotheses hold of a read into two slots, and of a read into two messages of a caller's. -/
theorem delivered_eq_originals_iff_pair :
    (∃ rec, (StdNetBind.opened true 2).receiveIP .linux true true ⟨0, .ok [pair]⟩ twoBuffers [0, 0]
        [none, none] = some rec ∧
      (rec.delivered = originals .linux [pair] ↔
        Held ((twoBuffers.take 2).map Slice.len) (originals .linux [pair]) ∧
          (StdNetBind.Splits .linux true true 2 ∨ Uncoalesced .linux [pair]))) ∧
    ∃ r, (BatchingConn.upgraded 1).ReadBatch .linux (.ok [BatchingConn.datagram [1]])
        (BatchingConn.callerMessages 2) = some r ∧
      (r.delivered = originals .linux [BatchingConn.datagram [1]] ↔
        Held ((BatchingConn.callerMessages 2).map Message.room)
            (originals .linux [BatchingConn.datagram [1]]) ∧
          (2 ≤ 2 ∧ ¬ Stale 0 (BatchingConn.callerMessages 2) [BatchingConn.datagram [1]] ∨
            2 = 1 ∧ Uncoalesced .linux [BatchingConn.datagram [1]])) := by
  have hrec : ∃ rec, (StdNetBind.opened true 2).receiveIP .linux true true ⟨0, .ok [pair]⟩
      twoBuffers [0, 0] [none, none] = some rec ∧ rec.err = none := ⟨_, rfl, rfl⟩
  have hr : ∃ r, (BatchingConn.upgraded 1).ReadBatch .linux (.ok [BatchingConn.datagram [1]])
      (BatchingConn.callerMessages 2) = some r ∧ r.err = none := ⟨_, rfl, rfl⟩
  obtain ⟨rec, he, herr⟩ := hrec
  obtain ⟨r, he', herr'⟩ := hr
  exact ⟨⟨rec, he, (delivered_eq_originals_iff .linux).1 _ _ _ _ _ _ _ _
      (StdNetBind.valid_opened .linux true 2) rfl (by decide)
      ⟨by decide, .cons ⟨by decide, by decide, by decide⟩ .nil⟩ he herr⟩,
    r, he', (delivered_eq_originals_iff .linux).2 _ _ _ _ rfl (by decide) (by decide)
      ⟨by decide, .cons ⟨⟨_, _, rfl, by decide⟩, by decide, by decide⟩ .nil⟩ he' herr'⟩

/-- With one slot, with no batch reader, and with one message of the caller's, two datagrams are
delivered as one. -/
theorem delivered_concatenated :
    originals .linux [pair] = [[1], [2]] ∧
    (∃ rec, (StdNetBind.opened true 1).receiveIP .linux true true ⟨0, .ok [pair]⟩
        [.ofList [0, 0]] [0] [none] = some rec ∧ rec.err = none ∧ rec.delivered = [[1, 2]]) ∧
    (∃ rec, (StdNetBind.opened true 2).receiveIP .linux false true ⟨0, .ok [pair]⟩ twoBuffers
        [0, 0] [none, none] = some rec ∧ rec.err = none ∧ rec.delivered = [[1, 2]]) ∧
    ∃ r, (BatchingConn.upgraded 1).ReadBatch .linux (.ok [pair]) (BatchingConn.callerMessages 1) =
        some r ∧ r.err = none ∧ r.delivered = [[1, 2]] :=
  ⟨by decide, ⟨_, rfl, rfl, by decide⟩, ⟨_, rfl, rfl, by decide⟩, _, rfl, rfl, by decide⟩

/-- **A receive that splits without overflow drops no datagram** iff no empty message is in front of
a nonempty one. A batching connection succeeds if there is no length left over behind the messages
it filled. -/
theorem originals_sublist_delivered_iff (p : Platform) :
    (∀ (s : StdNetBind) (br : Bool) (run : ReceiveRun) (bufs : List (Slice UInt8)) (sizes : List ℕ)
      (eps : List (Option StdNetEndpoint)) (rs : List Received), s.Valid p →
      validateReceiveBuffers bufs sizes eps s.batchSize = none →
      StdNetBind.Splits p br true s.batchSize → run.read = .ok rs →
      StdNetBind.ReadableInto p (StdNetBind.window p br true (bufs.take s.batchSize)) rs →
      Fitting p (StdNetBind.readAt s.batchSize) rs →
      Held ((bufs.take s.batchSize).map Slice.len) (originals p rs) →
      ∃ rec, s.receiveIP p br true run bufs sizes eps = some rec ∧ rec.err = none ∧
        ((originals p rs).Sublist rec.delivered ↔ EmptyLast rs)) ∧
    ∀ (c : BatchingConn) (msgs : List Message) (rs : List Received),
      c.rxOffload = true → 2 ≤ msgs.length → (∀ m ∈ msgs, m.buffers ≠ []) →
      ReadsInto p (c.slots msgs) rs → Fitting p (msgs.length - 2) rs →
      Held (msgs.map Message.room) (originals p rs) →
      (¬ Stale (msgs.length - 2) msgs rs →
        ∃ r, c.ReadBatch p (.ok rs) msgs = some r ∧ r.err = none) ∧
      ∀ r, c.ReadBatch p (.ok rs) msgs = some r → r.err = none →
        ((originals p rs).Sublist r.delivered ↔ EmptyLast rs) :=
  ⟨fun _ _ _ _ _ _ _ hs hv hsp hread hr hno hfit =>
      StdNetBind.exists_receiveIP_sublist_iff hs hv hread hsp hr hno hfit,
    fun _ _ _ hrx hlen hb hr hno hfit =>
      ⟨BatchingConn.exists_ReadBatch_of_not_stale hrx hlen hb hr hno,
        fun _ he herr => BatchingConn.ReadBatch_sublist_iff hrx hlen hb hr he herr hfit⟩⟩

/-- The hypotheses hold of a read of two messages by each receiver. -/
theorem originals_sublist_delivered_iff_pair :
    (∃ rec, (StdNetBind.opened true 2).receiveIP .linux true true ⟨0, .ok [pair]⟩ twoBuffers [0, 0]
        [none, none] = some rec ∧ rec.err = none ∧
      ((originals .linux [pair]).Sublist rec.delivered ↔ EmptyLast [pair])) ∧
    ∃ r, (BatchingConn.upgraded 1).ReadBatch .linux
        (.ok [BatchingConn.datagram [1], BatchingConn.datagram [2]])
        (BatchingConn.callerMessages 2) = some r ∧ r.err = none ∧
      ((originals .linux [BatchingConn.datagram [1], BatchingConn.datagram [2]]).Sublist
          r.delivered ↔ EmptyLast [BatchingConn.datagram [1], BatchingConn.datagram [2]]) := by
  refine ⟨(originals_sublist_delivered_iff .linux).1 (.opened true 2) true ⟨0, .ok [pair]⟩ _ _ _ _
    (StdNetBind.valid_opened .linux true 2) (by decide) (by decide) rfl
    ⟨by decide, .cons ⟨by decide, by decide, by decide⟩ .nil⟩ (by decide) (by decide), ?_⟩
  obtain ⟨hex, hiff⟩ := (originals_sublist_delivered_iff .linux).2 (.upgraded 1)
    (BatchingConn.callerMessages 2) [BatchingConn.datagram [1], BatchingConn.datagram [2]] rfl
    (by decide) (by decide) ⟨by decide, .cons ⟨⟨_, _, rfl, by decide⟩, by decide, by decide⟩
      (.cons ⟨⟨_, _, rfl, by decide⟩, by decide, by decide⟩ .nil)⟩ (by decide) (by decide)
  obtain ⟨r, he, herr⟩ := hex (by rintro ⟨m, hm, -⟩; simp [BatchingConn.callerMessages] at hm)
  exact ⟨r, he, herr, hiff r he herr⟩

/-- An empty datagram in front of another one hides it from both receivers. -/
theorem delivered_nothing_behind_empty :
    (∃ rec, (StdNetBind.opened true 65).receiveIP .linux true true
        ⟨0, .ok [BatchingConn.datagram [], BatchingConn.datagram [1]]⟩
        (List.replicate 65 (.ofList [0])) (List.replicate 65 0) (List.replicate 65 none) =
          some rec ∧ rec.err = none ∧ rec.delivered = []) ∧
    ∃ r, (BatchingConn.upgraded 1).ReadBatch .linux
        (.ok [BatchingConn.datagram [], BatchingConn.datagram [1]])
        (BatchingConn.callerMessages 2) = some r ∧ r.err = none ∧ r.delivered = [] :=
  ⟨⟨_, rfl, rfl, by decide⟩, _, rfl, rfl, by decide⟩

end BatchUDP
