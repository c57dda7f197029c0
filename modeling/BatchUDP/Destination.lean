import BatchUDP.Batching.Write
import BatchUDP.StdNet.Send
import BatchUDP.Machine.Trace

/-!
# The destination of a run of sends

Both senders fill a pooled address in place, so that the destination of a call may depend on what
the address was used for before. Over whole runs of calls, with any choice of pooled objects and any
outcomes of the writes, a call sends to its own destination exactly when the address that the pool
hands back is reusable for it.

## Main definitions

* `SendCall`, `StdNetBind.sendStep`: the calls of `Send`, as a machine
* `WriteCall`, `BatchingConn.writeStep`: the calls of `WriteBatchTo`, as a machine
* `SendsTo`: all messages handed over go to one destination

## Main results

* `sendsTo_of_runs`: in every run of either machine, a call sends to its own destination iff the
  pooled address is reusable for it
-/

namespace BatchUDP

open Go Machine

/-- All messages handed to the socket go to the given destination. -/
def SendsTo (handed : List (List Message)) (dst : Addr) (port : UInt16) : Prop :=
  ∀ ms ∈ handed, ∀ m ∈ ms, m.dest = some (dst.bytes, port.toNat)

instance (handed : List (List Message)) (dst : Addr) (port : UInt16) :
    Decidable (SendsTo handed dst port) :=
  inferInstanceAs (Decidable (∀ ms ∈ handed, ∀ m ∈ ms, m.dest = some (dst.bytes, port.toNat)))

/-- Messages to a filled address go to the destination iff the address was reusable for it. -/
theorem sendsTo_iff {ua ua' : UDPAddr} (hua : ua.Pooled) {dst : Addr} {port : UInt16}
    (hd : dst ≠ .zero) (hf : ua.fill dst port = some ua') {handed : List (List Message)}
    (ha : ∀ ms ∈ handed, ∀ m ∈ ms, m.addr = some ua') (hne : ∃ ms ∈ handed, ms ≠ []) :
    SendsTo handed dst port ↔ ua.Reusable dst := by
  have hport : ua'.port = port.toNat := by
    obtain ⟨ua₁, hf₁, -, hp⟩ := UDPAddr.exists_fill hua hd port
    rwa [← Option.some.inj (hf₁.symm.trans hf)]
  rw [← UDPAddr.fill_eq_iff hua hf]
  constructor
  · intro h
    obtain ⟨ms, hms, hne⟩ := hne
    obtain ⟨m, hm⟩ := List.exists_mem_of_ne_nil ms hne
    have := h ms hms m hm
    rw [Message.dest, ha ms hms m hm] at this
    simpa [hport] using this
  · intro h ms hms m hm
    rw [Message.dest, ha ms hms m hm, Option.map_some, h, hport]

/-! ## Calls of the standard bind -/

/-- A call of `StdNetBind.Send`, with what the run chooses for it. -/
structure SendCall where
  run : SendRun
  bufs : List (Slice UInt8)
  ep : StdNetEndpoint

/-- A call with at least one datagram, no more than the batch size, and a valid destination. -/
structure SendCall.Ok (batchSize : ℕ) (call : SendCall) : Prop where
  ne_nil : call.bufs ≠ []
  batch : call.bufs.length ≤ batchSize
  addr : call.ep.addr ≠ .zero

namespace StdNetBind

/-- The bind as a machine: an input is a call of `Send`. -/
def sendStep (p : Platform) (s : StdNetBind) (call : SendCall) : Option (StdNetBind × Sent) :=
  (s.Send p call.run call.bufs call.ep).map fun r => (r.bind, r)

/-- A call hands nothing to a socket, or the address it gets from the pool is reusable for its
destination. -/
def AddrReusable (s : StdNetBind) (call : SendCall) : Prop :=
  s.blackhole call.ep.addr.is6 = true ∨ s.conn call.ep.addr.is6 = none ∨
    (Pool.get UDPAddr.new call.run.addrPick s.udpAddrPool).1.Reusable call.ep.addr

/-- One call sends to its own destination iff the pooled address is reusable for it. -/
theorem sendStep_spec {p : Platform} {batchSize : ℕ} (s : StdNetBind) (call : SendCall)
    (hs : s.Valid p ∧ s.batchSize = batchSize) (hc : call.Ok batchSize) :
    ∃ s' r, s.sendStep p call = some (s', r) ∧ (s'.Valid p ∧ s'.batchSize = batchSize) ∧
      (SendsTo r.handed call.ep.addr call.ep.port ↔ s.AddrReusable call) := by
  by_cases hb : s.blackhole call.ep.addr.is6 = true
  · refine ⟨s, ⟨.done none, [], [], s⟩, by simp [sendStep, Send, hb], hs, ?_⟩
    simp [SendsTo, AddrReusable, hb]
  cases hconn : s.conn call.ep.addr.is6 with
  | none =>
    refine ⟨s, ⟨.done (some (.errno .eafnosupport)), [], [], s⟩,
      by simp [sendStep, Send, hb, hconn], hs, ?_⟩
    simp [SendsTo, AddrReusable, hconn]
  | some conn =>
    have hready : s.Ready p call.bufs call.ep :=
      ⟨hs.1, hc.addr, by rw [hconn]; rfl, by simpa using hb, hs.2 ▸ hc.batch⟩
    obtain ⟨r, ua, he, hv, hsize, -, hfill, haddr, hne⟩ := hready.exists_Send_valid call.run
    refine ⟨r.bind, r, by simp [sendStep, he], ⟨hv, hsize.trans hs.2⟩, ?_⟩
    rw [sendsTo_iff (hs.1.getAddr call.run.addrPick).1 hc.addr hfill haddr (hne hc.ne_nil)]
    simp [AddrReusable, hb, hconn]

end StdNetBind

/-! ## Calls of a batching connection -/

/-- A call of `linuxBatchingConn.WriteBatchTo`, with what the run chooses for it. -/
structure WriteCall where
  run : WriteRun
  bufs : List (Slice UInt8)
  dst : Addr
  port : UInt16

/-- A call with at least one datagram, no more than the batch size, and a valid destination. -/
structure WriteCall.Ok (batchSize : ℕ) (call : WriteCall) : Prop where
  ne_nil : call.bufs ≠ []
  batch : call.bufs.length ≤ batchSize
  addr : call.dst ≠ .zero

namespace BatchingConn

/-- The connection as a machine: an input is a call of `WriteBatchTo`. -/
def writeStep (p : Platform) (c : BatchingConn) (call : WriteCall) :
    Option (BatchingConn × BatchWritten) :=
  (c.WriteBatchTo p call.run call.bufs call.dst call.port).map fun r => (r.conn, r)

/-- The address of the batch that a call gets from the pool is reusable for its destination. -/
def AddrReusable (p : Platform) (c : BatchingConn) (call : WriteCall) : Prop :=
  (c.getSendBatch p call.run.pick).1.ua.Reusable call.dst

/-- One call sends to its own destination iff the pooled address is reusable for it. -/
theorem writeStep_spec {p : Platform} {batchSize : ℕ} (c : BatchingConn) (call : WriteCall)
    (hc : c.Valid p ∧ c.batchSize = batchSize) (hcall : call.Ok batchSize) :
    ∃ c' r, c.writeStep p call = some (c', r) ∧ (c'.Valid p ∧ c'.batchSize = batchSize) ∧
      (SendsTo r.handed call.dst call.port ↔ c.AddrReusable p call) := by
  have hready : c.Ready p call.bufs call.dst :=
    ⟨hc.1, hcall.addr, hcall.ne_nil, hc.2 ▸ hcall.batch⟩
  obtain ⟨r, ua, he, hv, hsize, hfill, haddr, hne⟩ := hready.exists_WriteBatchTo call.run call.port
  refine ⟨r.conn, r, by simp [writeStep, he], ⟨hv, hsize.trans hc.2⟩, ?_⟩
  exact sendsTo_iff (hc.1.getSendBatch call.run.pick).1.ua hcall.addr hfill haddr hne

end BatchingConn

/-- **In every run of calls, with any choice of pooled objects and any outcomes of the writes, a
call sends to its own destination iff the pooled address is reusable for it.** -/
theorem sendsTo_of_runs (p : Platform) :
    (∀ (s : StdNetBind) (calls : List SendCall), s.Valid p → (∀ call ∈ calls, call.Ok s.batchSize) →
      ∃ t, trace (StdNetBind.sendStep p) s calls = some t ∧ ∀ v ∈ t,
        (SendsTo v.output.handed v.input.ep.addr v.input.ep.port ↔
          v.before.AddrReusable v.input)) ∧
    ∀ (c : BatchingConn) (calls : List WriteCall), c.Valid p →
      (∀ call ∈ calls, call.Ok c.batchSize) →
      ∃ t, trace (BatchingConn.writeStep p) c calls = some t ∧ ∀ v ∈ t,
        (SendsTo v.output.handed v.input.dst v.input.port ↔ v.before.AddrReusable p v.input) := by
  constructor
  · intro s calls hs hcalls
    exact exists_trace (fun s' => s'.Valid p ∧ s'.batchSize = s.batchSize)
      StdNetBind.sendStep_spec ⟨hs, rfl⟩ hcalls
  · intro c calls hc hcalls
    exact exists_trace (fun c' => c'.Valid p ∧ c'.batchSize = c.batchSize)
      BatchingConn.writeStep_spec ⟨hc, rfl⟩ hcalls

/-- A call to an IPv4 destination. -/
def call4 : SendCall := ⟨⟨0, 0, []⟩, [.ofList [1]], StdNetBind.localhost⟩

/-- A call to an IPv6 destination. -/
def call6 : SendCall :=
  ⟨⟨0, 0, []⟩, [.ofList [2]],
    .ofAddrPort (.v6 #v[32, 1, 13, 184, 0, 0, 0, 0, 0, 0, 0, 0, 0, 0, 0, 1] "") 51820⟩

/-- Both machines run: an IPv6 call before an IPv4 call, and one batch. -/
theorem sendsTo_of_runs_ipv6_first :
    (∃ t, trace (StdNetBind.sendStep .linux) (StdNetBind.opened true 1) [call6, call4] = some t ∧
      ∀ v ∈ t, (SendsTo v.output.handed v.input.ep.addr v.input.ep.port ↔
        v.before.AddrReusable v.input)) ∧
    ∃ t, trace (BatchingConn.writeStep .linux) (BatchingConn.upgraded 1)
        [⟨⟨0, []⟩, [.ofList [1]], .v4 #v[127, 0, 0, 1], 53⟩] = some t ∧
      ∀ v ∈ t, (SendsTo v.output.handed v.input.dst v.input.port ↔
        v.before.AddrReusable .linux v.input) :=
  ⟨(sendsTo_of_runs .linux).1 _ _ (StdNetBind.valid_opened .linux true 1) (by
      simp only [List.forall_mem_cons, List.not_mem_nil, false_implies, implies_true, and_true]
      exact ⟨⟨by decide, by decide, by decide⟩, by decide, by decide, by decide⟩),
    (sendsTo_of_runs .linux).2 _ _ (by simp [BatchingConn.Valid, BatchingConn.upgraded]) (by
      simp only [List.forall_mem_cons, List.not_mem_nil, false_implies, implies_true, and_true]
      exact ⟨by decide, by decide, by decide⟩)⟩

/-- An IPv6 call that gets the address of an IPv4 call sends to another host: only the first four
bytes of its destination are copied. -/
theorem not_sendsTo_ipv6_after_ipv4 :
    ∃ t, trace (StdNetBind.sendStep .linux) (StdNetBind.opened true 1) [call4, call6] = some t ∧
      (t.map fun v => v.output.handed.map (List.map Message.dest)) =
        [[[some ([127, 0, 0, 1], 51820)]],
          [[some ([32, 1, 13, 184, 0, 0, 0, 0, 0, 0, 0, 0, 0, 0, 0, 0], 51820)]]] ∧
      ∃ v ∈ t, ¬ SendsTo v.output.handed v.input.ep.addr v.input.ep.port :=
  ⟨_, rfl, by decide, _, List.mem_cons_of_mem _ List.mem_cons_self, by decide⟩

end BatchUDP
