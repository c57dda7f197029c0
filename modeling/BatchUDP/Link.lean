import BatchUDP.Delivery
import BatchUDP.Machine.Refine
import BatchUDP.Machine.Service
import BatchUDP.StdNet.Open
import BatchUDP.StdNet.Send

/-!
# Two binds and the network between them

A program sends on one standard bind, and another program receives on a second one. In between are
two kernels and a network. The kernel of the sender cuts coalesced messages into datagrams; that of
the receiver coalesces datagrams again as it likes, if receive offload is on. Offload on either side
is not visible to the programs: the pair of binds is a datagram service, and all that can happen to
a datagram is what the network does to it.

## Main definitions

* `Link`, `Link.Ends`: the two binds with the datagrams between them, and what stays the same
* `Link.step`: the machine that sends, receives, and lets the network do what it does
* `Link.Ok`: the events that can happen
* `Link.sent`, `Link.received`: the datagrams that leave the sender and that the receiver is given

## Main results

* `Link.refines_service`: the link is a datagram service
* `Link.received_isPrefix_sent`: the receiver is given the datagrams that were sent
-/

namespace BatchUDP

open Go Machine Framing

/-! ## What a call of `Send` puts on the way -/

/-- Each attempt of a transmission writes messages that it hands over. -/
theorem Coalescer.exists_handed_of_mem_accepted {c : Coalescer} {p : Platform}
    {write : List WriteOutcome → List Message → Written} {R : Message → Message → Prop}
    (hw : ∀ os ms, ∀ m ∈ (write os ms).accepted, ∃ m' ∈ ms, R m m')
    {laddr : String} {offload : Bool} {os : List WriteOutcome}
    {bufs : List (Slice UInt8)} {msgs : List Message} {t : Transmitted}
    (ht : c.transmit p write laddr offload os bufs msgs = some t) :
    ∀ m ∈ t.accepted, ∃ ms ∈ t.handed, ∃ m' ∈ ms, R m m' := by
  unfold transmit at ht
  split_ifs at ht
  · obtain ⟨⟨msgs', n⟩, -, ht⟩ := Option.bind_eq_some_iff.mp ht
    dsimp only at ht
    split_ifs at ht
    · obtain ⟨again, -, ht⟩ := Option.bind_eq_some_iff.mp ht
      obtain rfl := Option.some.inj ht
      intro m hm
      rcases List.mem_append.mp hm with hm | hm
      · exact ⟨_, by simp, hw _ _ m hm⟩
      · exact ⟨_, List.mem_cons_of_mem _ (List.mem_singleton_self _), hw _ _ m hm⟩
    · obtain rfl := Option.some.inj ht
      exact fun m hm => ⟨_, List.mem_singleton_self _, hw _ _ m hm⟩
  · obtain ⟨msgs', -, ht⟩ := Option.bind_eq_some_iff.mp ht
    obtain rfl := Option.some.inj ht
    exact fun m hm => ⟨_, List.mem_singleton_self _, hw _ _ m hm⟩

namespace StdNetBind

section Send

variable {p : Platform} {s : StdNetBind} {run : SendRun} {bufs : List (Slice UInt8)}
  {ep : StdNetEndpoint}

/-- A message that was accepted goes where the one that was handed over goes. -/
theorem exists_mem_of_mem_accepted {pc : Bool} {os : List WriteOutcome} {ms : List Message}
    {m : Message} (hm : m ∈ (send p pc os ms).accepted) : ∃ m' ∈ ms, m.addr = m'.addr := by
  unfold send at hm
  split_ifs at hm
  · rw [(writeBatch_eq_progress os ms).1] at hm
    exact ⟨m, List.mem_of_mem_take hm, rfl⟩
  · induction ms generalizing os with
    | nil => cases os <;> simp [writeEach] at hm
    | cons m' ms ih =>
      rcases os with - | ⟨more | e, os⟩
      · rcases List.mem_cons.mp hm with rfl | hm
        · exact ⟨m', by simp, rfl⟩
        · obtain ⟨x, hx, he⟩ := ih hm
          exact ⟨x, by simp [hx], he⟩
      · rcases List.mem_cons.mp hm with rfl | hm
        · exact ⟨m', by simp, rfl⟩
        · obtain ⟨x, hx, he⟩ := ih hm
          exact ⟨x, by simp [hx], he⟩
      · simp [writeEach] at hm

/-- What a call that got as far as its first write did with the address it took from the pool: all
messages were sent to it, and it is back in the pool. -/
theorem exists_fill_of_Send (h : s.Ready p bufs ep) {r : Sent}
    (he : s.Send p run bufs ep = some r) :
    ∃ ua, (Pool.get UDPAddr.new run.addrPick s.udpAddrPool).1.fill ep.addr ep.port = some ua ∧
      r.bind.udpAddrPool = ua :: (Pool.get UDPAddr.new run.addrPick s.udpAddrPool).2 ∧
      r.bind.pc = s.pc ∧ ∀ m ∈ r.accepted, m.addr = some ua := by
  obtain ⟨r', ua, he', -, -, -, hfill, haddr, -⟩ := h.exists_Send_valid run
  obtain rfl := Option.some.inj (he.symm.trans he')
  obtain ⟨c, hc⟩ := Option.isSome_iff_exists.mp h.conn
  simp only [StdNetBind.Send, h.blackhole, hc, hfill, Bool.false_eq_true, if_false,
    Option.bind_eq_bind, Option.bind_some, Option.bind_eq_some_iff] at he
  obtain ⟨t, ht, he⟩ := he
  obtain rfl := Option.some.inj he
  refine ⟨ua, hfill, rfl, ?_, ?_⟩
  · unfold sent
    split_ifs
    · rfl
    · funext is6
      exact pc_setTxOffload
  · intro m hm
    obtain ⟨ms, hms, m', hm', hadd⟩ := Coalescer.exists_handed_of_mem_accepted
      (fun os ms m hm => exists_mem_of_mem_accepted hm) ht m hm
    rw [hadd]
    exact haddr ms hms m' hm'

/-- A call of `Send` that succeeded. -/
def Succeeded : SendResult → Prop
  | .done err => err = none
  | .gsoDisabled _ retryErr => retryErr = none

/-- A call that succeeded sent its datagrams, if a retry resends all. -/
theorem wire_accepted_of_Succeeded (hp : p.hasOffload = true) (h : s.Ready p bufs ep)
    (hsrc : ep.SrcFramed) (hpc : s.pc ep.addr.is6 = true) (hne : ∀ b ∈ bufs, b.len ≠ 0)
    (hall : ResendsAll p ep.addr run.outcomes bufs) {r : Sent}
    (he : s.Send p run bufs ep = some r) (hr : Succeeded r.result) :
    wire r.accepted = bufs.map Slice.toList := by
  cases htx : s.txOffload ep.addr.is6 with
  | false =>
    obtain ⟨r', ms, he', hres, hacc, hb, hw⟩ := exists_Send_of_not_txOffload h hp hsrc htx run
    obtain rfl := Option.some.inj (he.symm.trans he')
    rw [hres] at hr
    rw [hacc, send_accepted_of_err_eq_none hb hr, hw]
  | true =>
    obtain ⟨r', ua, built, rest, laddr, he', hg, hrest, hl, hcase⟩ :=
      exists_Send_of_txOffload h htx run
    obtain rfl := Option.some.inj (he.symm.trans he')
    obtain ⟨hacc, herr⟩ := writeBatch_eq_progress run.outcomes built
    rw [← hg.length_eq] at hacc herr
    have hsend (os : List WriteOutcome) (ms : List Message) :
        send p (s.pc ep.addr.is6) os ms = writeBatch os ms := by
      simp [send, hp, hpc]
    simp only [hsend] at hcase
    split_ifs at hcase with hret
    -- rejected: nothing was accepted before, and the retry sends each datagram as it is
    · obtain ⟨hres, -, haccepted⟩ := hcase
      rw [hres] at hr
      rw [herr] at hret
      rw [haccepted, writeBatch_accepted_of_err_eq_none hr, hacc]
      exact (wire_retry_iff hg hrest hl hp hsrc hne ((progress_le _ _).trans hg.length_eq.le)).mpr
        (hall hret)
    · obtain ⟨hres, -, haccepted⟩ := hcase
      rw [hres] at hr
      rw [haccepted, writeBatch_accepted_of_err_eq_none hr,
        Coalescer.wire_built_iff (segmenting_coalescer hp hsrc ua) (maxPayloadLen_lt _) hg]
      exact fun grp hgrp b hb => hne b (mem_of_mem_groups hgrp (List.mem_of_mem_tail hb))

end Send

end StdNetBind

/-- An address that was filled with the destination from one that is reusable for it is reusable for
it again. -/
theorem UDPAddr.Reusable.of_fill {ua ua' : UDPAddr} (hp : ua.Pooled) {dst : Addr} {port : UInt16}
    (hr : ua.Reusable dst) (hf : ua.fill dst port = some ua') : ua'.Reusable dst := by
  have hip := (UDPAddr.fill_eq_iff hp hf).mpr hr
  cases dst with
  | zero => exact .inl rfl
  | v4 b => exact .inl rfl
  | v6 b zone =>
    refine .inr (.inl ?_)
    rw [← Slice.length_toList, hip]
    exact Vector.length_toList

/-- The two ends of a link: the builds, the destination of the sender, the receive function of the
receiver, and the batch sizes. -/
structure Link.Ends where
  tx : Platform
  rx : Platform
  ep : StdNetEndpoint
  fn : ReceiveFunc
  txBatch : ℕ
  rxBatch : ℕ

/-- Two binds, and the datagrams on the way from one to the other. -/
structure Link where
  sender : StdNetBind
  receiver : StdNetBind
  flight : List (List UInt8)

namespace Link

/-- What can happen next: a call of `Send`; a call of the receive function, for which the kernel has
read the given messages; or the network changes what is on the way. -/
inductive Event where
  | send (run : SendRun) (bufs : List (Slice UInt8))
  | receive (pick : ℕ) (rs : List Received) (bufs : List (Slice UInt8)) (sizes : List ℕ)
      (eps : List (Option StdNetEndpoint))
  | disturb (flight : List (List UInt8))

/-- What happened. -/
inductive Out where
  | nothing
  | sent (r : Sent)
  | received (rec : Receipt)
  | disturbed

/-- The messages that the kernel accepted for the destination. -/
def bound (c : Ends) (r : Sent) : List Message :=
  r.accepted.filter fun m => m.dest = some (c.ep.addr.bytes, c.ep.port.toNat)

/-- The machine. The messages that the kernel of the receiver has read are made of the first
datagrams on the way; nothing happens where they are not. -/
def step (c : Ends) (s : Link) : Event → Option (Link × Out)
  | .send run bufs => (s.sender.Send c.tx run bufs c.ep).map fun r =>
    ({ s with sender := r.bind, flight := s.flight ++ wire (bound c r) }, .sent r)
  | .receive pick rs bufs sizes eps =>
    if originals c.rx rs <+: s.flight then
      (s.receiver.receiveIP c.rx c.fn.pc c.fn.rxOffload ⟨pick, .ok rs⟩ bufs sizes eps).map
        fun rec => ({ s with
          receiver := rec.bind
          flight := s.flight.drop (originals c.rx rs).length }, .received rec)
    else some (s, .nothing)
  | .disturb flight =>
    if ∀ d ∈ flight, d ∈ s.flight then some ({ s with flight := flight }, .disturbed)
    else some (s, .nothing)

/-- The events that can happen. A call of `Send` has no more datagrams than it may, none of them
empty, and a retry resends all. The kernel of the receiver reads nonempty messages for which there
is room and whose datagrams fit the slots; it coalesces only if the receive function splits what it
reads, and then no more than that has slots for. -/
def Ok (c : Ends) : Event → Prop
  | .send run bufs => bufs.length ≤ c.txBatch ∧ (∀ b ∈ bufs, b.len ≠ 0) ∧
    StdNetBind.ResendsAll c.tx c.ep.addr run.outcomes bufs
  | .receive _ rs bufs sizes eps => validateReceiveBuffers bufs sizes eps c.rxBatch = none ∧
    (∀ r ∈ rs, r.payload ≠ []) ∧
    StdNetBind.ReadableInto c.rx
      (StdNetBind.window c.rx c.fn.pc c.fn.rxOffload (bufs.take c.rxBatch)) rs ∧
    Held ((bufs.take c.rxBatch).map Slice.len) (originals c.rx rs) ∧
    (StdNetBind.Splits c.rx c.fn.pc c.fn.rxOffload c.rxBatch ∧
        Fitting c.rx (StdNetBind.readAt c.rxBatch) rs ∨
      ¬ StdNetBind.Splits c.rx c.fn.pc c.fn.rxOffload c.rxBatch ∧ Uncoalesced c.rx rs)
  | .disturb _ => True

/-- An event is one of the network. -/
def Event.isDisturb : Event → Bool
  | .disturb _ => true
  | _ => false

/-- What holds along a run: the sender is open for its destination, with batch I/O, its pool has no
address left from another family, and both binds have valid pools. -/
structure Inv (c : Ends) (s : Link) : Prop where
  sender : s.sender.Valid c.tx
  txBatch : s.sender.batchSize = c.txBatch
  conn : (s.sender.conn c.ep.addr.is6).isSome
  blackhole : s.sender.blackhole c.ep.addr.is6 = false
  pc : s.sender.pc c.ep.addr.is6 = true
  addrs : ∀ ua ∈ s.sender.udpAddrPool, ua.Reusable c.ep.addr
  receiver : s.receiver.Valid c.rx
  rxBatch : s.receiver.batchSize = c.rxBatch

/-- The datagrams that leave the sender in a step. -/
def sent (c : Ends) (v : Visit Link Event Out) : List (List UInt8) :=
  match v.output with
  | .sent r => wire (bound c r)
  | _ => []

/-- The datagrams that the receiver is given in a step. -/
def received (v : Visit Link Event Out) : List (List UInt8) :=
  match v.output with
  | .received rec => rec.delivered
  | _ => []

/-- A step sends and delivers what the calls are given: a call of `Send` that succeeded sent its
datagrams, and a receive call succeeds and delivers those of the messages that were read. -/
structure Exact (c : Ends) (v : Visit Link Event Out) : Prop where
  send : ∀ run bufs r, v.input = .send run bufs → v.output = .sent r →
    StdNetBind.Succeeded r.result → sent c v = bufs.map Slice.toList
  receive : ∀ pick rs bufs sizes eps rec, v.input = .receive pick rs bufs sizes eps →
    v.output = .received rec → rec.err = none ∧ received v = originals c.rx rs

/-! ## The calls -/

section Calls

variable {c : Ends} {s : Link}

/-- A sound sender: it is of a build with offload, and its destination is an address. -/
structure Ends.Sound (c : Ends) : Prop where
  hasOffload : c.tx.hasOffload = true
  addr : c.ep.addr ≠ .zero
  src : c.ep.SrcFramed

/-- A call of `Send` returns, keeps the invariant, and sent its datagrams if it succeeded. -/
theorem Inv.exists_send (h : s.Inv c) (hc : c.Sound) {run : SendRun} {bufs : List (Slice UInt8)}
    (hok : Ok c (.send run bufs)) :
    ∃ r, s.sender.Send c.tx run bufs c.ep = some r ∧
      Inv c { s with sender := r.bind, flight := s.flight ++ wire (bound c r) } ∧
      (StdNetBind.Succeeded r.result → wire (bound c r) = bufs.map Slice.toList) := by
  obtain ⟨hlen, hne, hall⟩ := hok
  have hready : s.sender.Ready c.tx bufs c.ep :=
    ⟨h.sender, hc.addr, h.conn, h.blackhole, h.txBatch ▸ hlen⟩
  obtain ⟨r, -, he, hvalid, hsize, hsame, -⟩ := hready.exists_Send_valid run
  obtain ⟨ua, hfill, hpool, hpc, hacc⟩ := StdNetBind.exists_fill_of_Send hready he
  obtain ⟨hpooled, hrest⟩ := h.sender.getAddr run.addrPick
  have hnew : UDPAddr.new.Reusable c.ep.addr := .inr (.inl rfl)
  obtain ⟨hre, hreRest⟩ := Pool.forall_get (P := fun ua : UDPAddr => ua.Reusable c.ep.addr) hnew
    h.addrs run.addrPick
  have hbound : bound c r = r.accepted := by
    obtain ⟨ua', hfill', -, hport⟩ := UDPAddr.exists_fill hpooled hc.addr c.ep.port
    obtain rfl := Option.some.inj (hfill.symm.trans hfill')
    refine List.filter_eq_self.mpr fun m hm => ?_
    simp [Message.dest, hacc m hm, (UDPAddr.fill_eq_iff hpooled hfill).mpr hre, hport]
  refine ⟨r, he, ?_, ?_⟩
  · refine ⟨hvalid, hsize.trans h.txBatch, ?_, ?_, ?_, ?_, h.receiver, h.rxBatch⟩
    · rw [(hsame _).1]
      exact h.conn
    · rw [(hsame _).2]
      exact h.blackhole
    · rw [hpc]
      exact h.pc
    · rw [hpool]
      exact List.forall_mem_cons.mpr ⟨hre.of_fill hpooled hfill, hreRest⟩
  · intro hs
    rw [hbound]
    exact StdNetBind.wire_accepted_of_Succeeded hc.hasOffload hready hc.src h.pc hne hall he hs

/-- A receive call returns without an error, keeps the invariant, and delivers the datagrams of the
messages that were read. -/
theorem Inv.exists_receive (h : s.Inv c) {pick : ℕ} {rs : List Received}
    {bufs : List (Slice UInt8)} {sizes : List ℕ} {eps : List (Option StdNetEndpoint)}
    (hok : Ok c (.receive pick rs bufs sizes eps)) :
    ∃ rec, s.receiver.receiveIP c.rx c.fn.pc c.fn.rxOffload ⟨pick, .ok rs⟩ bufs sizes eps =
        some rec ∧ rec.err = none ∧ rec.delivered = originals c.rx rs ∧
      ∀ flight, Inv c { s with receiver := rec.bind, flight := flight } := by
  obtain ⟨hv, hne, hread, hheld, hcase⟩ := hok
  rw [← h.rxBatch] at hv hread hheld hcase
  have hrec : ∃ rec, s.receiver.receiveIP c.rx c.fn.pc c.fn.rxOffload ⟨pick, .ok rs⟩ bufs sizes
      eps = some rec ∧ rec.err = none ∧ rec.delivered = originals c.rx rs := by
    rcases hcase with ⟨hsp, hfit⟩ | ⟨hsp, hun⟩
    · have hrx : c.fn.rxOffload = true := hsp.2.1
      rw [hrx] at hread hsp ⊢
      have hread' : (⟨pick, .ok rs⟩ : ReceiveRun).read = .ok rs := rfl
      obtain ⟨rec, he, hiff, -⟩ := StdNetBind.exists_receiveIP_window h.receiver hv hread' hsp hread
      have herr := hiff.mpr hfit
      exact ⟨rec, he, herr, (StdNetBind.receiveIP_delivered_iff h.receiver rfl hne hread he
        herr).mpr ⟨hheld, .inl hsp⟩⟩
    · have hread' : (⟨pick, .ok rs⟩ : ReceiveRun).read = .ok rs := rfl
      obtain ⟨-, rec, -, -, he, herr, hdel, -⟩ :=
        StdNetBind.exists_receiveIP_plain h.receiver hv hread' hsp hread
      refine ⟨rec, he, herr, ?_⟩
      rw [hdel, originals, List.flatMap_congr hun]
      exact List.map_eq_flatMap
  obtain ⟨rec, he, herr, hdel⟩ := hrec
  obtain ⟨⟨pool, hbind⟩, hvalid⟩ := StdNetBind.exists_pool_of_receiveIP h.receiver he
  refine ⟨rec, he, herr, hdel, fun flight => ?_⟩
  exact ⟨h.sender, h.txBatch, h.conn, h.blackhole, h.pc, h.addrs, hvalid,
    by rw [hbind]; exact h.rxBatch⟩

/-- **A step is one of a datagram service**: it returns, keeps the invariant, sends and delivers
what the calls are given, and does to the datagrams on the way what the service does. -/
theorem Inv.exists_step (h : s.Inv c) (hc : c.Sound) {e : Event} (hok : Ok c e) :
    ∃ s' o k out, step c s e = some (s', o) ∧ s'.Inv c ∧ Exact c ⟨s, e, o⟩ ∧
      Service.step s.flight k = some (s'.flight, out) ∧ k.ds = sent c ⟨s, e, o⟩ ∧
      out = received ⟨s, e, o⟩ ∧ (e.isDisturb = false → k.isDisturb = false) := by
  have hidle : Service.step s.flight (.put []) = some (s.flight, []) := by simp [Service.step]
  cases e with
  | send run bufs =>
    obtain ⟨r, he, hinv, hs⟩ := h.exists_send hc hok
    refine ⟨_, .sent r, .put (wire (bound c r)), [], by simp [step, he], hinv, ⟨?_, ?_⟩, rfl, rfl,
      rfl, fun _ => rfl⟩
    · rintro run' bufs' r' ⟨⟩ ⟨⟩ hsucc
      exact hs hsucc
    · rintro pick rs bufs' sizes eps rec ⟨⟩
  | receive pick rs bufs sizes eps =>
    by_cases hpre : originals c.rx rs <+: s.flight
    · obtain ⟨rec, he, herr, hdel, hinv⟩ := h.exists_receive hok
      refine ⟨{ s with receiver := rec.bind, flight := s.flight.drop (originals c.rx rs).length },
        .received rec, .take (originals c.rx rs).length, originals c.rx rs, ?_, hinv _, ⟨?_, ?_⟩,
        ?_, rfl, hdel.symm, fun _ => rfl⟩
      · rw [step, if_pos hpre, he]
        rfl
      · rintro run' bufs' r' ⟨⟩
      · rintro pick' rs' bufs' sizes' eps' rec' ⟨⟩ ⟨⟩
        exact ⟨herr, hdel⟩
      · simp only [Service.step, if_pos hpre.length_le]
        rw [← List.prefix_iff_eq_take.mp hpre]
    · refine ⟨s, .nothing, .put [], [], by simp [step, hpre], h, ⟨?_, ?_⟩, hidle, rfl, rfl,
        fun _ => rfl⟩
      · rintro run' bufs' r' ⟨⟩
      · rintro pick' rs' bufs' sizes' eps' rec' - ⟨⟩
  | disturb flight =>
    by_cases hsub : ∀ d ∈ flight, d ∈ s.flight
    · refine ⟨{ s with flight := flight }, .disturbed, .disturb flight, [], ?_, ?_, ⟨?_, ?_⟩, ?_,
        rfl, rfl, fun h => by cases h⟩
      · rw [step, if_pos hsub]
      · exact ⟨h.sender, h.txBatch, h.conn, h.blackhole, h.pc, h.addrs, h.receiver, h.rxBatch⟩
      · rintro run' bufs' r' ⟨⟩
      · rintro pick' rs' bufs' sizes' eps' rec' ⟨⟩
      · rw [Service.step, if_pos hsub]
    · refine ⟨s, .nothing, .put [], [], ?_, h, ⟨?_, ?_⟩, hidle, rfl, rfl, fun _ => rfl⟩
      · rw [step, if_neg hsub]
      · rintro run' bufs' r' ⟨⟩
      · rintro pick' rs' bufs' sizes' eps' rec' ⟨⟩

end Calls

/-! ## Runs -/

section Runs

variable {c : Ends}

/-- What a step of the link and a step of the service have in common. -/
def Match (c : Ends) (v : Visit Link Event Out) (k : Service.Event (List UInt8))
    (out : List (List UInt8)) : Prop :=
  k.ds = sent c v ∧ out = received v ∧ (v.input.isDisturb = false → k.isDisturb = false)

/-- **The link is a datagram service.** -/
theorem refines_service (hc : c.Sound) :
    Refines (fun s flight => s.Inv c ∧ s.flight = flight) (Ok c) (Match c) (step c)
      Service.step := by
  rintro s flight e s' o ⟨h, rfl⟩ hok he
  obtain ⟨s₁, o₁, k, out, he₁, hinv, -, hk, hds, hout, hdis⟩ := h.exists_step hc hok
  obtain ⟨rfl, rfl⟩ := Prod.mk.inj (Option.some.inj (he₁.symm.trans he))
  exact ⟨k, s₁.flight, out, hk, ⟨hds, hout, hdis⟩, hinv, rfl⟩

/-- The datagrams sent and received in a run are those that the service is offered and hands out. -/
theorem sent_received_of_match {vs : List (Visit Link Event Out)}
    {us : List (Visit (List (List UInt8)) (Service.Event (List UInt8)) (List (List UInt8)))}
    (h : List.Forall₂ (fun v u => Match c v u.input u.output) vs us) :
    vs.flatMap (sent c) = Service.offered us ∧ vs.flatMap received = Service.handed us := by
  induction h with
  | nil => exact ⟨rfl, rfl⟩
  | cons hm _ ih =>
    obtain ⟨hds, hout, -⟩ := hm
    constructor
    · rw [List.flatMap_cons, ih.1, ← hds]
      rfl
    · rw [List.flatMap_cons, ih.2, ← hout]
      rfl

/-- **The receiver is given what was sent.** Offload on either side, fallbacks of the sender, and
the way in which the kernel of the receiver coalesces are not visible: calls of `Send` that succeed
send their datagrams, receive calls succeed and deliver the datagrams that the kernel read, no
datagram is delivered that was not sent, and unless the network disturbs them, the datagrams
delivered are the first ones that were sent, each once and in order. -/
theorem received_isPrefix_sent (hc : c.Sound) {s : Link} (hs : s.Inv c) (hf : s.flight = [])
    {events : List Event} (hok : ∀ e ∈ events, Ok c e) :
    ∃ t, trace (step c) s events = some t ∧ (∀ v ∈ t, Exact c v) ∧
      (∀ d ∈ t.flatMap received, d ∈ t.flatMap (sent c)) ∧
      ((∀ e ∈ events, e.isDisturb = false) → t.flatMap received <+: t.flatMap (sent c)) := by
  obtain ⟨t, ht, hexact⟩ := exists_trace (Inv c) (fun s e h hok => by
    obtain ⟨s', o, k, out, he, hinv, hex, -⟩ := h.exists_step hc hok
    exact ⟨s', o, he, hinv, hex⟩) hs hok
  obtain ⟨ks, us, hus, hall⟩ := (refines_service hc).exists_trace ⟨hs, hf⟩ hok ht
  obtain ⟨hsent, hrec⟩ := sent_received_of_match hall
  refine ⟨t, ht, hexact, ?_, ?_⟩
  · intro d hd
    rw [hrec] at hd
    rw [hsent]
    exact (Service.mem_offered_of_mem_handed hus hd).resolve_left (by simp)
  · intro hdis
    rw [hrec, hsent]
    refine Service.handed_isPrefix ?_ hus
    have hdis' : ∀ v ∈ t, v.input.isDisturb = false := fun v hv =>
      hdis v.input (map_input_of_trace ht ▸ List.mem_map_of_mem hv)
    have hboth := (List.forall₂_and_left _ _).mpr ⟨hdis', hall⟩
    rw [← map_input_of_trace hus]
    intro k hk
    obtain ⟨u, hu, rfl⟩ := List.mem_map.mp hk
    exact forall_mem_right (hboth.imp fun v u h => h.2.2.2 h.1) u hu

end Runs

/-- Two binds with offload and two slots, on one host. -/
def loopback : Ends :=
  ⟨.linux, .linux, StdNetBind.localhost, ⟨false, ⟨0, "0.0.0.0:51820"⟩, true, true⟩, 2, 2⟩

theorem inv_loopback :
    Inv loopback ⟨StdNetBind.opened true 2, StdNetBind.opened true 2, []⟩ where
  sender := StdNetBind.valid_opened .linux true 2
  txBatch := rfl
  conn := rfl
  blackhole := rfl
  pc := rfl
  addrs := by decide
  receiver := StdNetBind.valid_opened .linux true 2
  rxBatch := rfl

/-- The device rejects the coalesced message of two datagrams. The retry sends them one by one, and
the kernel of the receiver coalesces them again. -/
def rejectedAndCoalesced : List Event :=
  [.send ⟨0, 0, [.fail (.syscallError "sendmmsg" (.errno .eio))]⟩
      [.withSpare [1, 2] [0], .ofList [3]],
    .receive 0 [.coalesced 2 [1, 2, 3]] [.ofList [0, 0, 0], .ofList [0, 0, 0]] [0, 0] [none, none]]

theorem ok_rejectedAndCoalesced : ∀ e ∈ rejectedAndCoalesced, Ok loopback e := by
  refine List.forall_mem_cons.mpr ⟨⟨by decide, by decide, by decide⟩, ?_⟩
  refine List.forall_mem_cons.mpr ⟨⟨by decide, by decide, ?_, by decide, .inl (by decide)⟩, by simp⟩
  exact ⟨by decide, .cons ⟨by decide, by decide, by decide⟩ .nil⟩

/-- The two datagrams arrive as two. -/
theorem received_isPrefix_sent_loopback :
    loopback.Sound ∧ ∃ t, trace (step loopback)
        ⟨StdNetBind.opened true 2, StdNetBind.opened true 2, []⟩ rejectedAndCoalesced = some t ∧
      t.flatMap received = [[1, 2], [3]] ∧
      (∀ d ∈ t.flatMap received, d ∈ t.flatMap (sent loopback)) ∧
      t.flatMap received <+: t.flatMap (sent loopback) := by
  have hc : loopback.Sound := ⟨rfl, by decide, StdNetBind.srcFramed_localhost⟩
  obtain ⟨t, ht, -, hmem, hpre⟩ :=
    received_isPrefix_sent hc inv_loopback rfl ok_rejectedAndCoalesced
  have he : ((trace (step loopback) ⟨StdNetBind.opened true 2, StdNetBind.opened true 2, []⟩
      rejectedAndCoalesced).map fun t => t.flatMap received) = some [[1, 2], [3]] := by
    decide +kernel
  rw [ht] at he
  exact ⟨hc, t, ht, Option.some.inj he, hmem, hpre (by decide)⟩

end Link

end BatchUDP
