import BatchUDP.Transmit

/-!
# Writing batches

`linuxBatchingConn.WriteBatchTo` takes a batch of messages with its own address from a pool. A
coalesced message holds its datagrams as separate chunks, so that nothing is copied. After a failure
because of offload the messages are set up again: the first chunk, the address and the control data,
but not the number of chunks.

## Main definitions

* `BatchingConn`: `linuxBatchingConn`, with `SendBatch` and `BatchingConn.newBatch`
* `BatchingConn.coalescer`: what its `coalesceMessages` does at each datagram
* `BatchingConn.WriteBatchTo`: a call, with `WriteRun` and `BatchWritten`
* `BatchingConn.Coalescable`: two datagrams in a row that share a message

## Main results

* `BatchingConn.Valid.WriteBatchTo`: a call that returns keeps the pool valid
* `BatchingConn.Ready.exists_WriteBatchTo`: a call with datagrams and a destination returns
* `BatchingConn.WriteBatchTo_again_iff`: the retry hands over the datagrams one by one iff no two of
  them shared a message, and the address was reusable
-/

namespace BatchUDP

open Go Unix Framing

/-- `batchingSendBatch`: pooled messages with their address. -/
structure SendBatch where
  msgs : List Message
  ua : UDPAddr
  deriving DecidableEq, Repr

/-- `linuxBatchingConn`, with the text of its local address. -/
structure BatchingConn where
  laddr : String
  rxOffload : Bool
  txOffload : Bool
  batchSize : ℕ
  sendBatchPool : List SendBatch
  deriving DecidableEq, Repr

/-- What a run chooses for one call of `WriteBatchTo`: the batch that the pool hands back, and the
outcomes of the writes. -/
structure WriteRun where
  pick : ℕ
  outcomes : List WriteOutcome
  deriving DecidableEq, Repr

/-- What a call of `WriteBatchTo` did: its result, the messages handed to the socket at each
attempt, the messages the kernel accepted, and the connection afterwards. -/
structure BatchWritten where
  result : SendResult
  handed : List (List Message)
  accepted : List Message
  conn : BatchingConn
  deriving DecidableEq, Repr

namespace BatchingConn

/-- `ErrBatchTooLarge`. -/
def errBatchTooLarge : Error := .text "batch size exceeds batching connection capacity"

/-- A message made by the pool's `New`. -/
def newMessage (p : Platform) : Message where
  buffers := [Slice.ofList []]
  oob := Slice.withSpare [] (List.replicate (gsoControlSize p) 0)
  addr := some UDPAddr.new
  n := 0
  nn := 0

/-- The batch made by the pool's `New`. -/
def newBatch (p : Platform) (batchSize : ℕ) : SendBatch :=
  ⟨List.replicate batchSize (newMessage p), UDPAddr.new⟩

/-- `getSendBatch`: a batch put back earlier, or a new one, and what is left in the pool. -/
def getSendBatch (p : Platform) (c : BatchingConn) (pick : ℕ) : SendBatch × List SendBatch :=
  Pool.get (newBatch p c.batchSize) pick c.sendBatchPool

/-- `putSendBatch`: what is kept of the messages when they are put back. -/
def putSendBatch (msgs : List Message) : List Message :=
  msgs.map fun m =>
    { buffers := m.buffers.take 1, oob := m.oob.clear, addr := none, n := 0, nn := 0 }

/-- The largest payload for a destination IP. -/
def maxPayloadLen (ip : List UInt8) : ℕ :=
  if UDPAddr.to4 ip = none then maxIPv6PayloadLen else maxIPv4PayloadLen

/-- `coalesceMessages`: a datagram becomes one more chunk of the message being built, and the
control data of a message starts empty. -/
def coalescer (p : Platform) (ua : UDPAddr) : Coalescer where
  maxPayloadLen := maxPayloadLen ua.ip.toList
  addr := ua
  payloadLen bs := some (bs.map Slice.len).sum
  room _ _ := true
  join bs buf := bs ++ [buf]
  reset oob := oob.clear
  setGSO := setGSOSize p

/-- `WriteBatchTo`. -/
def WriteBatchTo (p : Platform) (c : BatchingConn) (run : WriteRun) (bufs : List (Slice UInt8))
    (dst : Addr) (port : UInt16) : Option BatchWritten :=
  if c.batchSize < bufs.length then some ⟨.done (some errBatchTooLarge), [], [], c⟩
  else if bufs = [] then some ⟨.done none, [], [], c⟩
  else do
    -- the batch comes with its own address, as its last use left it
    let (batch, sendBatchPool) := c.getSendBatch p run.pick
    let ua ← batch.ua.fill dst port
    let t ← (coalescer p ua).transmit p writeBatch c.laddr c.txOffload run.outcomes bufs batch.msgs
    some {
      result := t.result
      handed := t.handed
      accepted := t.accepted
      conn := { c with
        txOffload := t.offload
        sendBatchPool := ⟨putSendBatch t.msgs, ua⟩ :: sendBatchPool } }

/-! ## The pool -/

/-- Pooled control data: empty, with the capacity for a segment size. -/
def PooledOOB (p : Platform) (oob : Slice UInt8) : Prop :=
  oob.toList = [] ∧ oob.cap = gsoControlSize p

/-- A batch in the pool. -/
structure Pooled (p : Platform) (batchSize : ℕ) (batch : SendBatch) : Prop where
  length : batch.msgs.length = batchSize
  msgs : ∀ m ∈ batch.msgs, m.buffers.length = 1 ∧ PooledOOB p m.oob
  ua : batch.ua.Pooled

theorem pooled_newBatch (p : Platform) (batchSize : ℕ) :
    Pooled p batchSize (newBatch p batchSize) where
  length := List.length_replicate
  msgs := by
    intro m hm
    rw [List.eq_of_mem_replicate hm]
    exact ⟨rfl, by simp [newMessage], by simp [newMessage]⟩
  ua := UDPAddr.pooled_new

/-- The pool holds batches of the configured size. -/
def Valid (p : Platform) (c : BatchingConn) : Prop :=
  ∀ batch ∈ c.sendBatchPool, Pooled p c.batchSize batch

/-- A batch from the pool. -/
theorem Valid.getSendBatch {p : Platform} {c : BatchingConn} (h : c.Valid p) (pick : ℕ) :
    Pooled p c.batchSize (c.getSendBatch p pick).1 ∧
      ∀ x ∈ (c.getSendBatch p pick).2, Pooled p c.batchSize x :=
  Pool.forall_get (pooled_newBatch p c.batchSize) h pick

/-- The messages of a transmission can be put back. -/
def Kept (p : Platform) (m : Message) : Prop := m.buffers ≠ [] ∧ m.oob.cap = gsoControlSize p

section Write

variable {p : Platform} {c : BatchingConn} {bufs : List (Slice UInt8)} {dst : Addr}
  {port : UInt16}

theorem forall_mem_putSendBatch {msgs : List Message} (h : ∀ m ∈ msgs, Kept p m) :
    ∀ m ∈ putSendBatch msgs, m.buffers.length = 1 ∧ PooledOOB p m.oob := by
  intro m hm
  obtain ⟨m', hm', rfl⟩ := List.mem_map.mp hm
  obtain ⟨b, bs, hb⟩ := List.exists_cons_of_ne_nil (h m' hm').1
  exact ⟨by simp [hb], Slice.toList_clear _, (h m' hm').2⟩

/-- The chunks of a message are the datagrams of its group. -/
theorem models_coalescer (p : Platform) (ua : UDPAddr) :
    (coalescer p ua).Models (fun grp bs => bs = grp) (fun _ _ => true) where
  holds_start _ := rfl
  holds_ne_nil := by
    rintro cur bs rfl h
    exact h
  payloadLen_eq := by
    rintro cur bs rfl
    rfl
  room_eq _ _ _ _ := rfl
  holds_join := by
    rintro cur bs buf - rfl -
    rfl

/-- What the messages of a transmission keep: a chunk at least, and the capacity of their control
data. -/
theorem keeps_coalescer (p : Platform) (ua : UDPAddr) : (coalescer p ua).Keeps (Kept p) where
  join _ _ h := ⟨by simp [coalescer], h.2⟩
  setGSO _ _ h := ⟨h.1, (cap_setGSOSize p _ _).trans h.2⟩
  started _ _ h := ⟨by simpa [Coalescer.started] using h.1, h.2⟩

theorem Pooled.kept {batchSize : ℕ} {batch : SendBatch} (h : Pooled p batchSize batch) :
    ∀ m ∈ batch.msgs, Kept p m := fun m hm =>
  ⟨Coalescer.buffers_ne_nil_of_pooled h.msgs m hm, (h.msgs m hm).2.2⟩

/-- **A call that returns keeps the pool valid**, whatever it was given. -/
theorem Valid.WriteBatchTo (h : c.Valid p) {run : WriteRun} {r : BatchWritten}
    (hr : c.WriteBatchTo p run bufs dst port = some r) :
    r.conn.Valid p ∧ r.conn.batchSize = c.batchSize := by
  unfold BatchingConn.WriteBatchTo at hr
  split_ifs at hr
  · obtain rfl := Option.some.inj hr
    exact ⟨h, rfl⟩
  · obtain rfl := Option.some.inj hr
    exact ⟨h, rfl⟩
  · obtain ⟨hbatch, hpool⟩ := h.getSendBatch run.pick
    obtain ⟨ua, hfill, hr⟩ := Option.bind_eq_some_iff.mp hr
    obtain ⟨t, ht, hr⟩ := Option.bind_eq_some_iff.mp hr
    obtain rfl := Option.some.inj hr
    obtain ⟨hlen, hkept⟩ := (keeps_coalescer p ua).transmit ht hbatch.kept
    refine ⟨List.forall_mem_cons.mpr ⟨⟨?_, ?_, hbatch.ua.of_fill hfill⟩, hpool⟩, rfl⟩
    · exact (List.length_map _).trans (hlen.trans hbatch.length)
    · exact forall_mem_putSendBatch hkept

/-- The datagrams are at least one and no more than the connection takes, and the destination is
valid. -/
structure Ready (p : Platform) (c : BatchingConn) (bufs : List (Slice UInt8)) (dst : Addr) :
    Prop where
  valid : c.Valid p
  addr : dst ≠ .zero
  ne_nil : bufs ≠ []
  batch : bufs.length ≤ c.batchSize

/-- A connection with offload, and nothing in its pool yet. -/
def upgraded (batchSize : ℕ) : BatchingConn := ⟨"0.0.0.0:51820", true, true, batchSize, []⟩

theorem ready_upgraded (p : Platform) {batchSize : ℕ} (hd : dst ≠ .zero) (h0 : bufs ≠ [])
    (hl : bufs.length ≤ batchSize) : (upgraded batchSize).Ready p bufs dst :=
  ⟨by simp [Valid, upgraded], hd, h0, hl⟩

/-- **A call is a transmission** of the messages of a pooled batch to its address. -/
theorem Ready.WriteBatchTo_eq (h : c.Ready p bufs dst) (run : WriteRun) (port : UInt16) :
    ∃ batch pool ua, c.getSendBatch p run.pick = (batch, pool) ∧ Pooled p c.batchSize batch ∧
      (∀ x ∈ pool, Pooled p c.batchSize x) ∧ batch.ua.fill dst port = some ua ∧ ua.Pooled ∧
      ua.port = port.toNat ∧
      c.WriteBatchTo p run bufs dst port =
        ((coalescer p ua).transmit p writeBatch c.laddr c.txOffload run.outcomes bufs
          batch.msgs).map fun t =>
          { result := t.result
            handed := t.handed
            accepted := t.accepted
            conn := { c with
              txOffload := t.offload
              sendBatchPool := ⟨putSendBatch t.msgs, ua⟩ :: pool } } := by
  obtain ⟨hbatch, hpool⟩ := h.valid.getSendBatch run.pick
  obtain ⟨ua, hfill, hua, hport⟩ := UDPAddr.exists_fill hbatch.ua h.addr port
  refine ⟨_, _, ua, rfl, hbatch, hpool, hfill, hua, hport, ?_⟩
  have hle : ¬ c.batchSize < bufs.length := not_lt.mpr h.batch
  simp only [WriteBatchTo, if_neg hle, if_neg h.ne_nil, hfill, Option.bind_eq_bind,
    Option.bind_some]
  rw [Option.map_eq_bind]
  rfl

/-- **A call ends with a result**, hands over messages to one pooled address, and keeps the pool
valid. -/
theorem Ready.exists_WriteBatchTo (h : c.Ready p bufs dst) (run : WriteRun) (port : UInt16) :
    ∃ r ua, c.WriteBatchTo p run bufs dst port = some r ∧ r.conn.Valid p ∧
      r.conn.batchSize = c.batchSize ∧
      (c.getSendBatch p run.pick).1.ua.fill dst port = some ua ∧
      (∀ ms ∈ r.handed, ∀ m ∈ ms, m.addr = some ua) ∧ ∃ ms ∈ r.handed, ms ≠ [] := by
  obtain ⟨batch, pool, ua, hget, hbatch, hpool, hfill, hua, -, he⟩ := h.WriteBatchTo_eq run port
  obtain ⟨t, ht, haddr, hne⟩ := Coalescer.exists_transmit p writeBatch c.laddr run.outcomes
    (models_coalescer p ua) hbatch.msgs (h.batch.trans hbatch.length.ge) c.txOffload
  rw [ht, Option.map_some] at he
  obtain ⟨hvalid, hsize⟩ := h.valid.WriteBatchTo he
  exact ⟨_, ua, he, hvalid, hsize, by rw [hget]; exact hfill, haddr, hne h.ne_nil⟩

/-! ## The retry -/

/-- The next of two datagrams in a row joins the message that the other one starts. -/
def Coalescable (maxPayloadLen : ℕ) (x y : Slice UInt8) : Prop :=
  y.len + x.len ≤ maxPayloadLen ∧ y.len ≤ x.len

instance (maxPayloadLen : ℕ) (x y : Slice UInt8) : Decidable (Coalescable maxPayloadLen x y) :=
  inferInstanceAs (Decidable (_ ∧ _))

/-- What the kernel is given of a message without offload: one chunk, the destination, and no
control data. -/
def single (dst : Addr) (port : UInt16) (buf : Slice UInt8) :
    List (List UInt8) × List UInt8 × Option (List UInt8 × ℕ) :=
  ([buf.toList], [], some (dst.bytes, port.toNat))

/-- A message set up again is that of its datagram alone iff it has one chunk. -/
theorem outgoing_started_iff {ua : UDPAddr} (hip : ua.ip.toList = dst.bytes)
    (hport : ua.port = port.toNat) {m : Message} (hm : m.buffers ≠ []) (buf : Slice UInt8) :
    ((coalescer p ua).started buf m).outgoing = single dst port buf ↔ m.buffers.length = 1 := by
  obtain ⟨b, bs, hb⟩ := List.exists_cons_of_ne_nil hm
  simp [Message.outgoing, Message.dest, Coalescer.started, coalescer, single, hb, hip, hport]

theorem outgoing_started_ip {ua : UDPAddr} {m : Message} {buf : Slice UInt8}
    (h : ((coalescer p ua).started buf m).outgoing = single dst port buf) :
    ua.ip.toList = dst.bytes := by
  simp only [Message.outgoing, Message.dest, Coalescer.started, coalescer, single,
    Prod.mk.injEq] at h
  simpa using congrArg (Option.map Prod.fst) h.2.2

/-- The messages of a retry are made from those that the first attempt built. -/
theorem Ready.exists_again (h : c.Ready p bufs dst) {run : WriteRun} {r : BatchWritten}
    (he : c.WriteBatchTo p run bufs dst port = some r) {first again : List Message}
    (hr : r.handed = [first, again]) :
    ∃ ua rest, (c.getSendBatch p run.pick).1.ua.fill dst port = some ua ∧
      ua.port = port.toNat ∧ (∀ m ∈ rest, m.buffers.length = 1) ∧
      List.Forall₂ ((coalescer p ua).Closed (fun grp bs => bs = grp) (PooledOOB p))
        (groups (Coalescer.joins (maxPayloadLen ua.ip.toList) fun _ _ => true) bufs) first ∧
      bufs.length ≤ (first ++ rest).length ∧
      again = (coalescer p ua).spread bufs (first ++ rest) := by
  obtain ⟨batch, pool, ua, hget, hbatch, hpool, hfill, hua, hport, he'⟩ :=
    h.WriteBatchTo_eq run port
  rw [he'] at he
  obtain ⟨t, ht, rfl⟩ := Option.map_eq_some_iff.mp he
  obtain ⟨hg, hl, hagain⟩ := Coalescer.transmit_again (models_coalescer p ua) hbatch.msgs
    (h.batch.trans hbatch.length.ge) ht hr
  refine ⟨ua, _, by rw [hget]; exact hfill, hport, ?_, hg, hl, hagain⟩
  exact fun m hm => (hbatch.msgs m (List.mem_of_mem_drop hm)).1

/-- **The messages of the retry are those of a fresh batch without offload** iff no two datagrams in
a row share a message, and the address of the pooled batch was reusable for the destination. -/
theorem WriteBatchTo_again_iff (h : c.Ready p bufs dst) {run : WriteRun} {r : BatchWritten}
    (he : c.WriteBatchTo p run bufs dst port = some r) {first again : List Message}
    (hr : r.handed = [first, again]) :
    again.map Message.outgoing = bufs.map (single dst port) ↔
      bufs.IsChain (fun x y => ¬ Coalescable (maxPayloadLen dst.bytes) x y) ∧
        (c.getSendBatch p run.pick).1.ua.Reusable dst := by
  obtain ⟨ua, rest, hfill, hport, hrest, hg, hl, rfl⟩ := h.exists_again he hr
  rw [← UDPAddr.fill_eq_iff (h.valid.getSendBatch run.pick).1.ua hfill, ← List.forall₂_eq_eq_eq,
    List.forall₂_map_left_iff, List.forall₂_map_right_iff]
  by_cases hip : ua.ip.toList = dst.bytes
  · rw [hip] at hg
    have hgs := (List.forall₂_and_left _ _).mpr ⟨groups_ne_nil bufs, hg⟩
    have hone := @forall_length_one_iff _
      (Coalescer.joins (maxPayloadLen dst.bytes) fun _ _ => true) bufs
    simp only [Coalescer.joins_singleton_iff, and_true] at hone
    rw [and_iff_left hip]
    refine Iff.trans ?_ hone
    refine Coalescer.forall₂_spread_iff (hgs.imp ?_) ?_ (length_groups_le bufs) hl
    · rintro grp m ⟨hne, hc⟩ buf
      have hbs : m.buffers = grp := hc.1
      rw [outgoing_started_iff hip hport (hbs ▸ hne), hbs]
    · intro m hm buf
      have hone := hrest m hm
      exact (outgoing_started_iff hip hport (List.ne_nil_of_length_pos (by omega)) buf).mpr hone
  · refine ⟨fun hall => absurd ?_ hip, fun hc => absurd hc.2 hip⟩
    obtain ⟨buf, bufs, rfl⟩ := List.exists_cons_of_ne_nil h.ne_nil
    obtain ⟨m, ms, hms⟩ := List.exists_cons_of_length_pos (Nat.zero_lt_of_lt hl)
    rw [hms] at hall
    cases hall with
    | cons hfirst _ => exact outgoing_started_ip hfirst

/-- Two datagrams of increasing length, rejected once, are handed over again. -/
theorem WriteBatchTo_again_iff_increasing :
    ∃ r first again, (upgraded 2).WriteBatchTo .linux
        ⟨0, [.fail (.syscallError "sendmmsg" (.errno .eio))]⟩ [.ofList [1], .ofList [2, 3]]
        (.v4 #v[127, 0, 0, 1]) 53 = some r ∧
      r.handed = [first, again] ∧
      (again.map Message.outgoing =
          [.ofList [1], .ofList [2, 3]].map (single (.v4 #v[127, 0, 0, 1]) 53) ↔
        [Slice.ofList [1], .ofList [2, 3]].IsChain
            (fun x y => ¬ Coalescable (maxPayloadLen (Addr.v4 #v[127, 0, 0, 1]).bytes) x y) ∧
          ((upgraded 2).getSendBatch .linux 0).1.ua.Reusable (.v4 #v[127, 0, 0, 1])) := by
  have hretry : ∃ r first again, (upgraded 2).WriteBatchTo .linux
      ⟨0, [.fail (.syscallError "sendmmsg" (.errno .eio))]⟩ [.ofList [1], .ofList [2, 3]]
      (.v4 #v[127, 0, 0, 1]) 53 = some r ∧ r.handed = [first, again] := ⟨_, _, _, rfl, rfl⟩
  obtain ⟨r, first, again, he, hr⟩ := hretry
  exact ⟨r, first, again, he, hr, WriteBatchTo_again_iff
    (ready_upgraded .linux (by decide) (by decide) (by decide)) he hr⟩

/-- Two datagrams that shared a message are handed over wrongly: the first message keeps the chunk
of the second datagram, which is then sent twice. -/
theorem WriteBatchTo_again_keeps_chunks :
    ∃ r first again, (upgraded 2).WriteBatchTo .linux
        ⟨0, [.fail (.syscallError "sendmmsg" (.errno .eio))]⟩ [.ofList [1, 2], .ofList [3]]
        (.v4 #v[127, 0, 0, 1]) 53 = some r ∧
      r.handed = [first, again] ∧
      again.map Message.payload = [[1, 2, 3], [3]] ∧
      again.map Message.outgoing ≠
        [.ofList [1, 2], .ofList [3]].map (single (.v4 #v[127, 0, 0, 1]) 53) :=
  ⟨_, _, _, rfl, rfl, by decide, by decide⟩

end Write

end BatchingConn

end BatchUDP
