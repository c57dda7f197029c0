import BatchUDP.Batching.Write
import BatchUDP.Machine.Trace
import BatchUDP.Window

/-!
# Reading batches

`linuxBatchingConn.ReadBatch` reads into messages of the caller's. With receive offload and at least
two messages it reads into the last two and splits what it read over all of them. It relies on the
lengths that the caller's messages have: those of the messages that the kernel did not fill are left
from earlier calls.

## Main definitions

* `BatchingConn.ReadBatch`: a call, with the result of the underlying read chosen by the run
* `BatchingConn.slots`: the messages that a call reads into
* `BatchingConn.readStep`: calls that reuse the caller's messages, as a machine

## Main results

* `BatchingConn.ReadBatch_delivered_iff`, `BatchingConn.ReadBatch_sublist_iff`: what a call that
  splits delivers
* `BatchingConn.ReadBatch_delivered_plain`: what any other call delivers
* `BatchingConn.delivered_of_run_iff`: in every run, a successful call reports exactly the datagrams
  read iff they fit, no empty message is in front of a nonempty one, and no length is left over
-/

namespace BatchUDP

open Go Unix Framing Machine

namespace BatchingConn

/-- A message with its control buffer in full. -/
def fullOOB (m : Message) : Message := { m with oob := m.oob.full }

/-- The messages with the control buffers from `first` on in full. -/
def fullFrom (first : ℕ) (msgs : List Message) : List Message :=
  msgs.take first ++ (msgs.drop first).map fullOOB

/-- The first message that a call reads into. -/
def readAt (c : BatchingConn) (msgs : List Message) : ℕ :=
  if c.rxOffload = false ∨ msgs.length < 2 then 0 else msgs.length - 2

/-- `ReadBatch`, with the result of the underlying read chosen by the run. -/
def ReadBatch (p : Platform) (c : BatchingConn) (read : Except Error (List Received))
    (msgs : List Message) : Option Split :=
  if msgs = [] then some ⟨msgs, 0, none⟩
  else if c.rxOffload = false ∨ msgs.length < 2 then
    match read with
    | .error e => some ⟨fullFrom 0 msgs, 0, some e⟩
    | .ok rs => some ⟨readBatch (fullFrom 0 msgs) rs, rs.length, none⟩
  else
    let readAt := msgs.length - 2
    match read with
    | .error e => some ⟨fullFrom readAt msgs, 0, some e⟩
    | .ok rs =>
      if rs.length = 0 then some ⟨fullFrom readAt msgs, 0, none⟩
      -- only whether anything was read is used, not how many messages
      else splitCoalescedMessages (getGSOSize p) readAt
        (readWindow readAt (fullFrom readAt msgs) rs)

/-- The messages that a call reads into. -/
def slots (c : BatchingConn) (msgs : List Message) : List Message :=
  (msgs.drop (c.readAt msgs)).map fullOOB

section Full

variable {first : ℕ} {msgs : List Message}

theorem map_shape_fullFrom (first : ℕ) (msgs : List Message) :
    (fullFrom first msgs).map Message.shape = msgs.map Message.shape := by
  rw [fullFrom, List.map_append, List.map_map]
  conv_rhs => rw [← List.take_append_drop first msgs, List.map_append]
  rfl

theorem drop_fullFrom (h : first ≤ msgs.length) :
    (fullFrom first msgs).drop first = (msgs.drop first).map fullOOB :=
  List.drop_left' (by rw [List.length_take, min_eq_left h])

/-- Only control buffers are changed. -/
theorem stale_fullFrom_iff (h : first ≤ msgs.length) {rs : List Received} :
    Stale first (fullFrom first msgs) rs ↔ Stale first msgs rs := by
  unfold Stale
  rw [← List.getElem?_drop, drop_fullFrom h, List.getElem?_map, List.getElem?_drop]
  cases msgs[first + rs.length]? with
  | none => simp
  | some m => simp [fullOOB]

end Full

section Call

variable {p : Platform} {c : BatchingConn} {msgs : List Message} {rs : List Received} {r : Split}

/-- A call keeps the sizes of all buffers, whatever its result. -/
theorem map_shape_ReadBatch {read : Except Error (List Received)}
    (h : c.ReadBatch p read msgs = some r) : r.msgs.map Message.shape = msgs.map Message.shape := by
  unfold ReadBatch at h
  split_ifs at h with h0 h1
  · obtain rfl := Option.some.inj h
    rfl
  · cases read with
    | error e =>
      obtain rfl := Option.some.inj h
      exact map_shape_fullFrom 0 msgs
    | ok rs =>
      obtain rfl := Option.some.inj h
      exact (map_shape_readBatch _ rs).trans (map_shape_fullFrom 0 msgs)
  · cases read with
    | error e =>
      obtain rfl := Option.some.inj h
      exact map_shape_fullFrom _ msgs
    | ok rs =>
      dsimp only at h
      split_ifs at h with hn
      · obtain rfl := Option.some.inj h
        exact map_shape_fullFrom _ msgs
      · exact (splitFrom_shape h).trans
          ((map_shape_readWindow _ _ rs).trans (map_shape_fullFrom _ msgs))

section Split

variable (hrx : c.rxOffload = true) (hlen : 2 ≤ msgs.length) (hb : ∀ m ∈ msgs, m.buffers ≠ [])
  (hr : ReadsInto p (c.slots msgs) rs)

include hrx hlen

theorem not_plain : ¬ (c.rxOffload = false ∨ msgs.length < 2) := by
  rintro (h | h)
  · simp [hrx] at h
  · omega

theorem readAt_eq : c.readAt msgs = msgs.length - 2 := if_neg (not_plain hrx hlen)

include hb hr

theorem reads_fullFrom : Reads p (msgs.length - 2) (fullFrom (msgs.length - 2) msgs) rs where
  first_le := by
    rw [length_of_map_shape (map_shape_fullFrom _ msgs)]
    exact Nat.sub_le _ _
  buffers := buffers_ne_nil_of_map_shape (map_shape_fullFrom _ msgs) hb
  reads := by
    rw [drop_fullFrom (Nat.sub_le _ _), ← readAt_eq hrx hlen]
    exact hr

omit hb in
theorem ReadBatch_eq_split : c.ReadBatch p (.ok rs) msgs =
    splitCoalescedMessages (getGSOSize p) (msgs.length - 2)
      (readWindow (msgs.length - 2) (fullFrom (msgs.length - 2) msgs) rs) := by
  have h0 : msgs ≠ [] := List.length_pos_iff.mp (by omega)
  have h2 : rs.length ≠ 0 := (List.length_pos_iff.mpr hr.ne_nil).ne'
  rw [ReadBatch, if_neg h0, if_neg (not_plain hrx hlen)]
  exact if_neg h2

/-- **A successful call that splits reports exactly the datagrams read** iff each of them fits its
slot, no empty message is in front of a nonempty one, and no length is left over. -/
theorem ReadBatch_delivered_iff (h : c.ReadBatch p (.ok rs) msgs = some r) (herr : r.err = none) :
    r.delivered = originals p rs ↔ Held (msgs.map Message.room) (originals p rs) ∧ EmptyLast rs ∧
      (leading rs ≠ rs ∨ ¬ Stale (msgs.length - 2) msgs rs) := by
  rw [ReadBatch_eq_split hrx hlen hr] at h
  rw [(reads_fullFrom hrx hlen hb hr).delivered_eq_iff h herr,
    map_room_of_map_shape (map_shape_fullFrom _ msgs), stale_fullFrom_iff (Nat.sub_le _ _)]

/-- A call that splits succeeds if the datagrams do not run past their messages and no length is
left over. -/
theorem exists_ReadBatch_of_not_stale (hno : Fitting p (msgs.length - 2) rs)
    (hs : ¬ Stale (msgs.length - 2) msgs rs) :
    ∃ r, c.ReadBatch p (.ok rs) msgs = some r ∧ r.err = none := by
  rw [ReadBatch_eq_split hrx hlen hr]
  have hstale := mt (stale_fullFrom_iff (Nat.sub_le _ _)).mp hs
  exact ⟨_, (reads_fullFrom hrx hlen hb hr).split_readWindow hno (.inr hstale), rfl⟩

/-- **A successful call that splits drops no datagram** iff no empty message is in front of a
nonempty one. -/
theorem ReadBatch_sublist_iff (h : c.ReadBatch p (.ok rs) msgs = some r) (herr : r.err = none)
    (hfit : Held (msgs.map Message.room) (originals p rs)) :
    (originals p rs).Sublist r.delivered ↔ EmptyLast rs := by
  rw [ReadBatch_eq_split hrx hlen hr] at h
  refine (reads_fullFrom hrx hlen hb hr).sublist_delivered_iff h herr ?_
  rwa [map_room_of_map_shape (map_shape_fullFrom _ msgs)]

end Split

/-- **Any other call reports the messages as they were read.** -/
theorem ReadBatch_delivered_plain (h1 : c.rxOffload = false ∨ msgs.length < 2)
    (hr : ReadsInto p (c.slots msgs) rs) :
    ∃ r, c.ReadBatch p (.ok rs) msgs = some r ∧ r.err = none ∧
      r.delivered = rs.map Received.payload := by
  have hslots : c.slots msgs = fullFrom 0 msgs := by
    rw [slots, readAt, if_pos h1]
    rfl
  rw [hslots] at hr
  have h0 : msgs ≠ [] := by
    rintro rfl
    exact hr.ne_nil (List.length_eq_zero_iff.mp (Nat.le_zero.mp hr.length_le))
  refine ⟨⟨readBatch (fullFrom 0 msgs) rs, rs.length, none⟩, ?_, rfl, hr.map_received_take⟩
  rw [ReadBatch, if_neg h0, if_pos h1]

end Call

/-! ## Runs of calls -/

/-- Calls that reuse the caller's messages, as a machine: an input is the result of a read. -/
def readStep (p : Platform) (c : BatchingConn) (msgs : List Message)
    (read : Except Error (List Received)) : Option (List Message × Split) :=
  (c.ReadBatch p read msgs).map fun r => (r.msgs, r)

/-- **In every run of calls that reuse the caller's messages, a successful call reports exactly the
datagrams of the messages filled in that call** iff each of them fits its slot, no empty message is
in front of a nonempty one, and the slot behind the messages filled has no length left over from an
earlier call. -/
theorem delivered_of_run_iff {p : Platform} {c : BatchingConn} (hrx : c.rxOffload = true)
    {msgs : List Message} (hlen : 2 ≤ msgs.length) (hb : ∀ m ∈ msgs, m.buffers ≠ [])
    {reads : List (Except Error (List Received))}
    {t : List (Visit (List Message) (Except Error (List Received)) Split)}
    (ht : trace (c.readStep p) msgs reads = some t)
    {v : Visit (List Message) (Except Error (List Received)) Split} (hv : v ∈ t)
    {rs : List Received} (hin : v.input = .ok rs) (hr : ReadsInto p (c.slots v.before) rs)
    (herr : v.output.err = none) :
    v.output.delivered = originals p rs ↔
      Held (v.before.map Message.room) (originals p rs) ∧ EmptyLast rs ∧
        (leading rs ≠ rs ∨ ¬ Stale (v.before.length - 2) v.before rs) := by
  have hstep (ms : List Message) (read : Except Error (List Received)) (ms' : List Message)
      (o : Split) (hms : 2 ≤ ms.length ∧ ∀ m ∈ ms, m.buffers ≠ []) (_ : True)
      (he : readStep p c ms read = some (ms', o)) :
      2 ≤ ms'.length ∧ ∀ m ∈ ms', m.buffers ≠ [] := by
    obtain ⟨r, hr, he⟩ := Option.map_eq_some_iff.mp he
    obtain ⟨rfl, -⟩ := Prod.mk.inj he
    have hshape := map_shape_ReadBatch hr
    exact ⟨(length_of_map_shape hshape).symm ▸ hms.1, buffers_ne_nil_of_map_shape hshape hms.2⟩
  obtain ⟨⟨hlen, hb⟩, ms', he⟩ := forall_mem_trace _ hstep ⟨hlen, hb⟩ ht (fun _ _ => trivial) v hv
  obtain ⟨r, hread, he⟩ := Option.map_eq_some_iff.mp he
  obtain ⟨-, rfl⟩ := Prod.mk.inj he
  rw [hin] at hread
  exact ReadBatch_delivered_iff hrx hlen hb hr hread herr

/-- The messages of a caller that reads for the first time. -/
def callerMessages (n : ℕ) : List Message :=
  List.replicate n ⟨[.ofList [0, 0]], .withSpare [] (List.replicate 24 0), none, 0, 0⟩

/-- A datagram that was not coalesced. -/
def datagram (payload : List UInt8) : Received := ⟨payload, [], .new⟩

/-- The hypotheses hold of a first call that reads one message. -/
theorem delivered_of_run_iff_first :
    ∃ t v, trace ((upgraded 1).readStep .linux) (callerMessages 2) [.ok [datagram [1]]] = some t ∧
      v ∈ t ∧ (v.output.delivered = originals .linux [datagram [1]] ↔
        Held (v.before.map Message.room) (originals .linux [datagram [1]]) ∧
          EmptyLast [datagram [1]] ∧ (leading [datagram [1]] ≠ [datagram [1]] ∨
            ¬ Stale (v.before.length - 2) v.before [datagram [1]])) := by
  have hex : ∃ t v, trace ((upgraded 1).readStep .linux) (callerMessages 2)
      [.ok [datagram [1]]] = some t ∧ v ∈ t ∧ v.before = callerMessages 2 ∧
      v.input = .ok [datagram [1]] ∧ v.output.err = none :=
    ⟨_, _, rfl, List.mem_cons_self, rfl, rfl, rfl⟩
  obtain ⟨t, v, ht, hv, hbefore, hin, herr⟩ := hex
  exact ⟨t, v, ht, hv, delivered_of_run_iff rfl (by decide) (by decide) ht hv hin
    (by rw [hbefore]; exact ⟨by decide, .cons ⟨⟨_, _, rfl, by decide⟩, by decide, by decide⟩ .nil⟩)
    herr⟩

/-- A call that reads one message after a call that read two reports a datagram of the earlier call
again. -/
theorem delivered_again :
    ∃ t, trace ((upgraded 1).readStep .linux) (callerMessages 2)
        [.ok [datagram [1], datagram [2]], .ok [datagram [3]]] = some t ∧
      t.map (fun v => v.output.err) = [none, none] ∧
      t.map (fun v => v.output.delivered) = [[[1], [2]], [[3], [2]]] ∧
      originals .linux [datagram [3]] = [[3]] :=
  ⟨_, rfl, rfl, by decide, by decide⟩

end BatchingConn

end BatchUDP
