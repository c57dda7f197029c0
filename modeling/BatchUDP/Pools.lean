import BatchUDP.Reply

/-!
# Pooled messages

The calls of a bind share their messages through a pool, and the calls of a batching connection
share their batches. Every call writes to other fields of the messages that it takes, and there are
many ways out of it; on each of them the messages are reset and put back, so that a call finds
nothing of the calls before it. Receiving with offload rests on this: the kernel fills the first
messages of the window, and the split ends at the first message of length zero.

## Main definitions

* `StdNetBind.Reset`: a message as the pool of a bind holds it
* `BatchingConn.Reset`: a message as the pool of a batching connection holds it

## Main results

* `StdNetBind.Valid.traffic`, `BatchingConn.Valid.writeStep`: a call keeps the pools valid
* `reset_of_reaches`: in every state that calls lead to the pools hold messages that were reset, and
  a receive call splits no message that the kernel did not fill
-/

namespace BatchUDP

open Go Unix Framing Machine

namespace StdNetBind

/-- A message as the pool holds it: no lengths, no address, one buffer, and empty control data with
room for the sticky source and a segment size. -/
def Reset (p : Platform) (m : Message) : Prop :=
  m.n = 0 ∧ m.nn = 0 ∧ m.addr = none ∧ m.buffers.length = 1 ∧ m.oob.toList = [] ∧
    stickyControlSize p + gsoControlSize p ≤ m.oob.cap

theorem reset_of_pooled {p : Platform} {m : Message} (h : PooledMessage p m) : Reset p m :=
  ⟨h.n, h.nn, h.addr, h.buffers, h.oob.1, h.oob.2.ge⟩

/-- Empty pools are valid. -/
theorem valid_of_eq_nil (p : Platform) {s : StdNetBind} (haddrs : s.udpAddrPool = [])
    (hmsgs : s.msgsPool = []) : s.Valid p :=
  ⟨by simp [haddrs], by simp [hmsgs], by simp [hmsgs]⟩

/-- **A call keeps the pools valid**, whether it succeeds or fails. -/
theorem Valid.traffic {p : Platform} {opts : StdNetBindOptions} {net : Option Network}
    {s s' : StdNetBind × Sockets} {i : Traffic} {out : Traffic.Out} (hs : s.1.Valid p)
    (h : StdNetBind.traffic p opts net s i = some (s', out)) : s'.1.Valid p := by
  obtain ⟨b, o⟩ := s
  cases i with
  | call c =>
    obtain ⟨⟨s₁, reply⟩, hc, he⟩ := Option.map_eq_some_iff.mp h
    obtain ⟨rfl, -⟩ := Prod.mk.inj he
    cases c with
    | Open uport =>
      obtain ⟨r, hr, he⟩ := Option.map_eq_some_iff.mp hc
      obtain ⟨rfl, -⟩ := Prod.mk.inj he
      exact hs.Open hr
    | Close err4 err6 =>
      obtain ⟨rfl, -⟩ := Prod.mk.inj (Option.some.inj hc)
      obtain ⟨haddrs, hmsgs, hsize, -⟩ := @Close_frame b o err4 err6
      exact hs.congr haddrs hmsgs hsize
  | receive f networkDown run bufs sizes eps =>
    obtain ⟨r, hr, he⟩ := Option.map_eq_some_iff.mp h
    obtain ⟨rfl, -⟩ := Prod.mk.inj he
    unfold receive at hr
    split_ifs at hr
    · obtain rfl := Option.some.inj hr
      exact hs
    · exact (exists_pool_of_receiveIP hs hr).2
  | Send call =>
    obtain ⟨r, hr, he⟩ := Option.map_eq_some_iff.mp h
    obtain ⟨rfl, -⟩ := Prod.mk.inj he
    exact (hs.Send hr).1

end StdNetBind

namespace BatchingConn

/-- A message as the pool holds it: one chunk, and empty control data with the capacity for a
segment size. -/
def Reset (p : Platform) (m : Message) : Prop :=
  m.buffers.length = 1 ∧ m.oob.toList = [] ∧ m.oob.cap = gsoControlSize p

/-- **A call keeps the pool valid**, whether it succeeds or fails. -/
theorem Valid.writeStep {p : Platform} {c c' : BatchingConn} {call : WriteCall} {r : BatchWritten}
    (hc : c.Valid p) (h : c.writeStep p call = some (c', r)) : c'.Valid p := by
  obtain ⟨r', hr, he⟩ := Option.map_eq_some_iff.mp h
  obtain ⟨rfl, -⟩ := Prod.mk.inj he
  exact (hc.WriteBatchTo hr).1

end BatchingConn

/-- **Pooled messages carry nothing from one call to the next.** From empty pools on, in every state
that any calls lead to: a bind holds lists of as many messages as its batch size says, each of them
reset, and a receive call that splits tells nothing of the messages that the kernel did not fill;
and a batching connection holds batches of as many messages as its batch size says, each of them
reset. -/
theorem reset_of_reaches (p : Platform) (opts : StdNetBindOptions) (net : Option Network) :
    (∀ s₀ s : StdNetBind × Sockets, s₀.1.udpAddrPool = [] → s₀.1.msgsPool = [] →
      Reaches (StdNetBind.traffic p opts net) s₀ s →
      (∀ msgs ∈ s.1.msgsPool, msgs.length = s.1.batchSize ∧ ∀ m ∈ msgs, StdNetBind.Reset p m) ∧
      ∀ (br rxOffload : Bool) (run : ReceiveRun) (bufs : List (Slice UInt8)) (sizes : List ℕ)
        (eps : List (Option StdNetEndpoint)) (rs : List Received) (rec : Receipt),
        StdNetBind.Splits p br rxOffload s.1.batchSize → run.read = .ok rs →
        validateReceiveBuffers bufs sizes eps s.1.batchSize = none →
        s.1.receiveIP p br rxOffload run bufs sizes eps = some rec →
        StdNetBind.SplitsFilled p s.1.batchSize bufs rs rec) ∧
    ∀ c₀ c : BatchingConn, c₀.sendBatchPool = [] → Reaches (BatchingConn.writeStep p) c₀ c →
      ∀ batch ∈ c.sendBatchPool, batch.msgs.length = c.batchSize ∧
        ∀ m ∈ batch.msgs, BatchingConn.Reset p m := by
  constructor
  · intro s₀ s haddrs hmsgs hr
    have hs : s.1.Valid p := Reaches.invariant (fun s => s.1.Valid p)
      (fun _ _ _ _ hs h => hs.traffic h) hr (StdNetBind.valid_of_eq_nil p haddrs hmsgs)
    refine ⟨fun msgs hm => ⟨hs.length_msgs msgs hm, ?_⟩, ?_⟩
    · exact fun m h => StdNetBind.reset_of_pooled (hs.msgs msgs hm m h)
    intro br rxOffload run bufs sizes eps rs rec hsp hread hv he
    exact StdNetBind.splitsFilled_of_receiveIP hs hv hread hsp he
  · intro c₀ c hpool hr batch hb
    have hc : c.Valid p := Reaches.invariant (BatchingConn.Valid p)
      (fun _ _ _ _ hc h => hc.writeStep h) hr (by simp [BatchingConn.Valid, hpool])
    exact ⟨(hc batch hb).length, (hc batch hb).msgs⟩

/-- A bind whose device failed at the first attempt of a `Send`, and a connection that a batch was
written on. A receive call of the bind then reads one message into a window of two. -/
theorem reset_of_reaches_after_retry :
    ∃ s c rec, Reaches (StdNetBind.traffic .linux ⟨.ipv4First, true, true, 65⟩ none)
        (StdNetBind.opened true 65, .empty) s ∧
      s.1.msgsPool.length = 1 ∧
      (∀ msgs ∈ s.1.msgsPool, msgs.length = s.1.batchSize ∧ ∀ m ∈ msgs, StdNetBind.Reset .linux m) ∧
      s.1.receiveIP .linux true true ⟨0, .ok [⟨[7], [], .new⟩]⟩ (List.replicate 65 (.ofList [0]))
        (List.replicate 65 0) (List.replicate 65 none) = some rec ∧
      StdNetBind.SplitsFilled .linux 65 (List.replicate 65 (.ofList [0])) [⟨[7], [], .new⟩] rec ∧
      Reaches (BatchingConn.writeStep .linux) (BatchingConn.upgraded 2) c ∧
      c.sendBatchPool.length = 1 ∧
      ∀ batch ∈ c.sendBatchPool, batch.msgs.length = c.batchSize ∧
        ∀ m ∈ batch.msgs, BatchingConn.Reset .linux m := by
  obtain ⟨hbind, hconn⟩ := reset_of_reaches .linux ⟨.ipv4First, true, true, 65⟩ none
  have hsend : ((StdNetBind.traffic .linux ⟨.ipv4First, true, true, 65⟩ none
      (StdNetBind.opened true 65, .empty)
      (.Send ⟨⟨0, 0, [.fail (.syscallError "sendmmsg" (.errno .eio))]⟩, [.ofList [1], .ofList [2]],
        StdNetBind.localhost⟩)).map fun r => (r.1.1.msgsPool.length, r.1.1.batchSize)) =
      some (1, 65) := by
    decide +kernel
  have hwrite : (((BatchingConn.upgraded 2).writeStep .linux
      ⟨⟨0, []⟩, [.ofList [1], .ofList [2]], .v4 #v[127, 0, 0, 1], 53⟩).map
        fun r => r.1.sendBatchPool.length) = some 1 := by
    decide +kernel
  obtain ⟨⟨s, out⟩, hs, hsize⟩ := Option.map_eq_some_iff.mp hsend
  obtain ⟨hlen, hsize⟩ := Prod.mk.inj hsize
  obtain ⟨⟨c, r⟩, hc, hclen⟩ := Option.map_eq_some_iff.mp hwrite
  obtain ⟨hreset, hsplit⟩ := hbind _ s rfl rfl (.single ⟨_, out, hs⟩)
  have hvalid := (StdNetBind.valid_opened .linux true 65).traffic hs
  obtain ⟨rec, hrec⟩ := @StdNetBind.exists_receiveIP .linux s.1 ⟨0, .ok [⟨[7], [], .new⟩]⟩
    (List.replicate 65 (.ofList [0])) true true (List.replicate 65 0) (List.replicate 65 none)
    hvalid (by
      rintro rs ⟨⟩
      rw [hsize]
      exact ⟨by simp, .cons ⟨le_rfl, Nat.zero_le _, Nat.zero_le _⟩ .nil⟩)
  refine ⟨s, c, rec, .single ⟨_, out, hs⟩, hlen, hreset, hrec, ?_, .single ⟨_, r, hc⟩, hclen,
    hconn _ c rfl (.single ⟨_, r, hc⟩)⟩
  have := hsplit true true _ _ _ _ _ rec (by rw [hsize]; decide) rfl (by rw [hsize]; rfl) hrec
  rwa [hsize] at this

end BatchUDP
