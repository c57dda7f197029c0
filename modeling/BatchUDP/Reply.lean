import BatchUDP.Delivery
import BatchUDP.Destination
import BatchUDP.StdNet.Generations

/-!
# Replies to received endpoints

A receive function reports the unmapped address of the message that a datagram was cut from. A
`Send` to that endpoint picks the socket by the family of the unmapped address, and rebuilds a
`net.UDPAddr` from the bytes of the address and its port in an address of the pool. The zone is not
written there, and no address of the pool ever has one.

## Main definitions

* `RepliesTo`: messages were handed over, all of them to one IP, port and zone
* `StdNetBind.origins`: the address of the message that each datagram was cut from
* `StdNetBind.traffic`: the machine that opens, closes, receives and sends
* `StdNetBind.Answerable`: the replies that `Send` can address

## Main results

* `StdNetBind.exists_endpoint_of_delivered`: the endpoint of a datagram is the unmapped address of
  its message
* `StdNetBind.repliesTo_iff`: a reply goes back to where the datagram came from iff the bind has a
  socket of the unmapped family, the address has no zone, and the address from the pool is reusable
-/

namespace BatchUDP

open Go Unix Framing Machine

/-- Messages were handed to the socket, all of them to the given destination and zone. -/
def RepliesTo (handed : List (List Message)) (dst : Addr) (port : UInt16) : Prop :=
  (∃ ms ∈ handed, ms ≠ []) ∧ SendsTo handed dst port ∧
    ∀ ms ∈ handed, ∀ m ∈ ms, m.addr.map UDPAddr.zone = some dst.zone

instance (handed : List (List Message)) (dst : Addr) (port : UInt16) :
    Decidable (RepliesTo handed dst port) :=
  inferInstanceAs (Decidable ((∃ ms ∈ handed, ms ≠ []) ∧ SendsTo handed dst port ∧
    ∀ ms ∈ handed, ∀ m ∈ ms, m.addr.map UDPAddr.zone = some dst.zone))

namespace StdNetBind

/-! ## The endpoint of a datagram -/

/-- The address of the message that each datagram was cut from, where a call cuts messages. -/
def origins (p : Platform) (br rxOffload : Bool) (batchSize : ℕ) (rs : List Received) :
    List UDPAddr :=
  if Splits p br rxOffload batchSize then
    (leading rs).flatMap fun r => (r.datagrams p).map fun _ => r.addr
  else rs.map Received.addr

section Receive

variable {p : Platform}

theorem addr_getSrcFromControl (control : List UInt8) (ep : StdNetEndpoint) :
    (getSrcFromControl p control ep).addr = ep.addr ∧
      (getSrcFromControl p control ep).port = ep.port := by
  unfold getSrcFromControl
  split_ifs
  · dsimp only
    split <;> exact ⟨rfl, rfl⟩
  · exact ⟨rfl, rfl⟩

/-- The endpoint of a message has its unmapped address and its port. -/
theorem addr_of_endpoint {m : Message} {ua : UDPAddr} (hm : m.addr = some ua)
    {ep : StdNetEndpoint} (h : endpoint p m = some ep) :
    ep.addr = ua.addrPort.1.unmap ∧ ep.port = ua.addrPort.2 := by
  simp only [endpoint, hm, Option.bind_eq_bind, Option.bind_some, Option.bind_eq_some_iff] at h
  obtain ⟨control, -, h⟩ := h
  obtain rfl := Option.some.inj h
  exact addr_getSrcFromControl control _

theorem map_snd_pieces (rs : List Received) :
    (pieces p rs).map Prod.snd =
      (rs.flatMap fun r => (r.datagrams p).map fun _ => r.addr).map some := by
  simp [pieces, Received.pieces, List.map_flatMap, Function.comp_def]

/-- A slot that a datagram was delivered to has the address of the message it was cut from. -/
theorem addr_of_mem_placed {first i : ℕ} {rs : List Received} {msgs : List Message}
    (hlen : (pieces p rs).length ≤ msgs.length) {k : ℕ} {m : Message}
    (hm : ((placed first i (pieces p rs) msgs).take (pieces p rs).length)[k]? = some m) :
    ∃ ua, (rs.flatMap fun r => (r.datagrams p).map fun _ => r.addr)[k]? = some ua ∧
      m.addr = some ua := by
  rw [placed, take_render hlen] at hm
  obtain ⟨w, x, -, hx, rfl⟩ := List.getElem?_zipWith_eq_some.mp hm
  have hsnd := congrArg (fun l => l[k]?) (map_snd_pieces (p := p) rs)
  simp only [List.getElem?_map, hx, Option.map_some] at hsnd
  obtain ⟨ua, hua, hsome⟩ := Option.map_eq_some_iff.mp hsnd.symm
  exact ⟨ua, hua, hsome.symm⟩

/-- A slot with a datagram in it has a length. -/
theorem n_ne_zero_of_received {m : Message} (h : m.received ≠ []) : m.n ≠ 0 := by
  rintro h0
  refine h ?_
  rcases hb : m.buffers with - | ⟨b, bs⟩ <;> simp [Message.received, hb, h0]

/-- A slot that delivers a datagram. -/
theorem exists_slot {msgs : List Message} {k : ℕ} {d : List UInt8}
    (hd : (msgs.map Message.received)[k]? = some d) (h0 : d ≠ []) :
    ∃ m, msgs[k]? = some m ∧ m.n ≠ 0 := by
  rw [List.getElem?_map] at hd
  obtain ⟨m, hm, rfl⟩ := Option.map_eq_some_iff.mp hd
  exact ⟨m, hm, n_ne_zero_of_received h0⟩

variable {s : StdNetBind} {br rxOffload : Bool} {run : ReceiveRun} {bufs : List (Slice UInt8)}
  {sizes : List ℕ} {eps : List (Option StdNetEndpoint)} {rs : List Received} {rec : Receipt}

/-- A call returns, whatever the socket answers. -/
theorem exists_receiveIP (br rxOffload : Bool) (sizes : List ℕ)
    (eps : List (Option StdNetEndpoint)) (hs : s.Valid p)
    (hr : ∀ rs, run.read = .ok rs →
      ReadableInto p (window p br rxOffload (bufs.take s.batchSize)) rs) :
    ∃ rec, s.receiveIP p br rxOffload run bufs sizes eps = some rec := by
  rcases hv : validateReceiveBuffers bufs sizes eps s.batchSize with - | e
  · rcases hread : run.read with e | rs
    · obtain ⟨rec, he, -⟩ := exists_receiveIP_error br rxOffload hs hv hread
      exact ⟨rec, he⟩
    have hr := hr rs hread
    by_cases hsp : Splits p br rxOffload s.batchSize
    · rw [window, if_pos hsp.1, length_take_of_validate hv, if_pos hsp.2] at hr
      obtain ⟨-, rec, -, -, -, he, -⟩ := exists_receiveIP_split hs hv hread hsp hr
      exact ⟨rec, he⟩
    · obtain ⟨-, rec, -, -, he, -⟩ := exists_receiveIP_plain hs hv hread hsp hr
      exact ⟨rec, he⟩
  · exact ⟨⟨0, some e, bufs, sizes, eps, s⟩, by rw [receiveIP, hv]⟩

/-- **The endpoint of a datagram is the unmapped address of the message it was cut from**, on every
path through a receive call. -/
theorem exists_endpoint_of_delivered (hs : s.Valid p)
    (hread : run.read = .ok rs)
    (hr : ReadableInto p (window p br rxOffload (bufs.take s.batchSize)) rs)
    (he : s.receiveIP p br rxOffload run bufs sizes eps = some rec) (herr : rec.err = none) {k : ℕ}
    {d : List UInt8} (hd : rec.delivered[k]? = some d) (h0 : d ≠ []) :
    ∃ ua ep, (origins p br rxOffload s.batchSize rs)[k]? = some ua ∧
      rec.eps[k]? = some (some ep) ∧ ep.addr = ua.addrPort.1.unmap ∧ ep.port = ua.addrPort.2 := by
  have hv := validateReceiveBuffers_of_success he herr
  by_cases hsp : Splits p br rxOffload s.batchSize
  · rw [window, if_pos hsp.1, length_take_of_validate hv, if_pos hsp.2] at hr
    obtain ⟨msgs, rec', hlent, hlen, hreads, he', hover, hok⟩ :=
      exists_receiveIP_split hs hv hread hsp hr
    obtain rfl := Option.some.inj (he.symm.trans he')
    have hno : Fitting p (readAt s.batchSize) rs := by
      by_contra hno
      simp [(hover hno).2] at herr
    obtain ⟨-, split, hsplit, -, -, hdel, heps⟩ := hok hno
    obtain rfl := Option.some.inj
      (hsplit.symm.trans (hreads.split_readWindow hno (.inr (not_stale_of_lent hlent _))))
    rw [hdel, Split.delivered] at hd
    obtain ⟨m, hm, hn⟩ := exists_slot hd h0
    have hpieces : (pieces p (leading rs)).length ≤
        (readWindow (readAt s.batchSize) msgs rs).length := by
      rw [length_of_map_shape (map_shape_readWindow _ msgs _)]
      exact hno.length_pieces_le.trans hreads.length_leading_le
    obtain ⟨ua, hua, haddr⟩ := addr_of_mem_placed hpieces hm
    obtain ⟨ep, hep, heps⟩ := heps k m hm hn
    exact ⟨ua, ep, by rw [origins, if_pos hsp]; exact hua, heps, addr_of_endpoint haddr hep⟩
  · obtain ⟨msgs, rec', hle, hmap, he', -, hdel, heps⟩ :=
      exists_receiveIP_plain hs hv hread hsp hr
    obtain rfl := Option.some.inj (he.symm.trans he')
    rw [hdel, ← hmap] at hd
    obtain ⟨m, hm, hn⟩ := exists_slot hd h0
    obtain ⟨ep, hep, heps⟩ := heps k m hm hn
    rw [take_readBatch hle] at hm
    obtain ⟨w, r, -, hr', rfl⟩ := List.getElem?_zipWith_eq_some.mp hm
    refine ⟨r.addr, ep, ?_, heps, addr_of_endpoint rfl hep⟩
    rw [origins, if_neg hsp, List.getElem?_map, hr']
    rfl

end Receive

/-! ## The destination of a reply -/

/-- The replies that `Send` can address: the bind has a socket of the family, the address has no
zone, and the address from the pool is reusable for it. -/
def Answerable (s : StdNetBind) (run : SendRun) (dst : Addr) : Prop :=
  (s.conn dst.is6).isSome ∧ dst.zone = "" ∧
    (Pool.get UDPAddr.new run.addrPick s.udpAddrPool).1.Reusable dst

/-- No address of the pool has a zone. -/
def Unzoned (s : StdNetBind) : Prop := ∀ ua ∈ s.udpAddrPool, ua.zone = ""

section Send

variable {p : Platform} {s : StdNetBind} {bufs : List (Slice UInt8)} {ep : StdNetEndpoint}

theorem Unzoned.get (h : s.Unzoned) (pick : ℕ) :
    (Pool.get UDPAddr.new pick s.udpAddrPool).1.zone = "" ∧
      ∀ ua ∈ (Pool.get UDPAddr.new pick s.udpAddrPool).2, ua.zone = "" :=
  Pool.forall_get (P := fun ua : UDPAddr => ua.zone = "") rfl h pick

/-- A call puts back an address that it took from the pool, without a zone. -/
theorem Unzoned.Send (h : s.Unzoned) {run : SendRun} {r : Sent}
    (he : s.Send p run bufs ep = some r) : r.bind.Unzoned := by
  unfold StdNetBind.Send at he
  dsimp only at he
  split_ifs at he
  · obtain rfl := Option.some.inj he
    exact h
  rcases hc : s.conn ep.addr.is6 with - | c <;> rw [hc] at he
  · obtain rfl := Option.some.inj he
    exact h
  · simp only [Option.bind_eq_bind, Option.bind_eq_some_iff] at he
    obtain ⟨ua, hfill, t, -, he⟩ := he
    obtain rfl := Option.some.inj he
    obtain ⟨hzone, hrest⟩ := h.get run.addrPick
    exact List.forall_mem_cons.mpr ⟨(UDPAddr.zone_fill hfill).trans hzone, hrest⟩

/-- Messages to a filled address without a zone. -/
theorem repliesTo_of_fill_iff {ua ua' : UDPAddr} (hua : ua.Pooled) (hz : ua.zone = "")
    {dst : Addr} (hd : dst ≠ .zero) {port : UInt16} (hf : ua.fill dst port = some ua')
    {handed : List (List Message)} (ha : ∀ ms ∈ handed, ∀ m ∈ ms, m.addr = some ua')
    (hne : ∃ ms ∈ handed, ms ≠ []) :
    RepliesTo handed dst port ↔ dst.zone = "" ∧ ua.Reusable dst := by
  have hzone : ua'.zone = "" := (UDPAddr.zone_fill hf).trans hz
  rw [RepliesTo, sendsTo_iff hua hd hf ha hne]
  constructor
  · rintro ⟨⟨ms, hms, hms0⟩, hre, h⟩
    obtain ⟨m, hm⟩ := List.exists_mem_of_ne_nil ms hms0
    have := h ms hms m hm
    rw [ha ms hms m hm, Option.map_some, hzone] at this
    exact ⟨(Option.some.inj this).symm, hre⟩
  · rintro ⟨hdst, hre⟩
    refine ⟨hne, hre, ?_⟩
    intro ms hms m hm
    rw [ha ms hms m hm, Option.map_some, hzone, hdst]

end Send

/-! ## Runs -/

/-- A call that a program makes on a bind: of `Open` or `Close`, of a receive function with what
`networkDown` returns and what the run chooses, or of `Send`. -/
inductive Traffic where
  | call (c : Call)
  | receive (f : ReceiveFunc) (networkDown : Bool) (run : ReceiveRun) (bufs : List (Slice UInt8))
      (sizes : List ℕ) (eps : List (Option StdNetEndpoint))
  | Send (call : SendCall)

namespace Traffic

/-- What a call did. -/
inductive Out where
  | replied (r : Reply)
  | received (receipt : Receipt)
  | sent (r : Sent)

/-- The calls that can be made: the kernel reads messages that fit the caller's buffers, and no more
datagrams are sent than the bind takes. -/
def Ok (p : Platform) (batchSize : ℕ) : Traffic → Prop
  | .call _ => True
  | .receive f _ run bufs _ _ => ∀ rs, run.read = .ok rs →
    ReadableInto p (window p f.pc f.rxOffload (bufs.take batchSize)) rs
  | .Send c => c.Ok batchSize

/-- The source of the datagram that a receive call delivers in a slot. -/
def origin (p : Platform) (batchSize : ℕ) (i : Traffic) (k : ℕ) : Option UDPAddr :=
  match i with
  | .receive f _ run _ _ _ =>
    match run.read with
    | .ok rs => (origins p f.pc f.rxOffload batchSize rs)[k]?
    | .error _ => none
  | _ => none

end Traffic

/-- The machine that opens and closes a bind, receives and sends. -/
def traffic (p : Platform) (opts : StdNetBindOptions) (net : Option Network) :
    StdNetBind × Sockets → Traffic → Option ((StdNetBind × Sockets) × Traffic.Out)
  | s, .call c => (lifecycle p opts net s c).map fun r => (r.1, .replied r.2)
  | s, .receive f networkDown run bufs sizes eps =>
    (s.1.receive p f networkDown run bufs sizes eps).map fun r => ((r.bind, s.2), .received r)
  | s, .Send call => (s.1.Send p call.run call.bufs call.ep).map fun r => ((r.bind, s.2), .sent r)

/-- What holds along a run: the bind owns its sockets, its pools are as they should be, no pooled
address has a zone, and no blackhole is set. -/
structure Sound (p : Platform) (batchSize : ℕ) (s : StdNetBind × Sockets) : Prop where
  holds : s.2.Holds s.1.conns
  valid : s.1.Valid p
  batchSize : s.1.batchSize = batchSize
  unzoned : s.1.Unzoned
  blackhole : ∀ is6, s.1.blackhole is6 = false

/-- What a call does: a receive call reports unmapped addresses, and `Send` sends to the address of
the endpoint iff it can. -/
structure Addressed (p : Platform) (batchSize : ℕ)
    (v : Visit (StdNetBind × Sockets) Traffic Traffic.Out) : Prop where
  received : ∀ receipt (k : ℕ) d, v.output = .received receipt → receipt.err = none →
    receipt.delivered[k]? = some d → d ≠ [] →
    ∃ ua ep, v.input.origin p batchSize k = some ua ∧ receipt.eps[k]? = some (some ep) ∧
      ep.addr = ua.addrPort.1.unmap ∧ ep.port = ua.addrPort.2
  sent : ∀ call r, v.input = .Send call → v.output = .sent r →
    ((∃ c, v.before.1.conn call.ep.addr.is6 = some c ∧ v.before.2.IsOpen c) ∧
      RepliesTo r.handed call.ep.addr call.ep.port ↔
        v.before.1.Answerable call.run call.ep.addr)

section Runs

variable {p : Platform} {opts : StdNetBindOptions} {net : Option Network} {batchSize : ℕ}
  {s : StdNetBind × Sockets}

theorem Sound.isOpen (h : Sound p batchSize s) {is6 : Bool} {c : Conn}
    (hc : s.1.conn is6 = some c) : s.2.IsOpen c := by
  refine (h.holds.mem_iff c).mp (mem_conns.mpr ?_)
  cases is6
  · exact .inl hc
  · exact .inr hc

/-- Calls of `Open` and `Close` do not touch the pools. -/
theorem Sound.exists_call (h : Sound p batchSize s) (c : Call) :
    ∃ s' o, traffic p opts net s (.call c) = some (s', o) ∧ Sound p batchSize s' ∧
      Addressed p batchSize ⟨s, .call c, o⟩ := by
  obtain ⟨b, o⟩ := s
  cases c with
  | Open uport =>
    obtain ⟨r, he, -, hheld, -⟩ := exists_Open p opts net h.holds uport
    obtain ⟨haddrs, -, hsize, hhole⟩ := Open_frame he
    refine ⟨(r.bind, r.sockets), .replied (.opened r), by simp [traffic, lifecycle, he],
      ⟨hheld, h.valid.Open he, hsize.trans h.batchSize, ?_, ?_⟩, by simp, by simp⟩
    · rw [Unzoned, haddrs]
      exact h.unzoned
    · exact hhole ▸ h.blackhole
  | Close err4 err6 =>
    obtain ⟨haddrs, hmsgs, hsize, hhole⟩ := @Close_frame b o err4 err6
    refine ⟨_, .replied (.closed (b.Close o err4 err6)), rfl, ⟨(holds_Close h.holds err4 err6).2,
      h.valid.congr haddrs hmsgs hsize, hsize.trans h.batchSize, ?_, hhole⟩, by simp, by simp⟩
    rw [Unzoned, haddrs]
    exact h.unzoned

/-- A receive call puts its messages back. -/
theorem Sound.exists_receive (h : Sound p batchSize s) (f : ReceiveFunc) (networkDown : Bool)
    {run : ReceiveRun} {bufs : List (Slice UInt8)} (sizes : List ℕ)
    (eps : List (Option StdNetEndpoint))
    (hok : (Traffic.receive f networkDown run bufs sizes eps).Ok p batchSize) :
    ∃ s' o, traffic p opts net s (.receive f networkDown run bufs sizes eps) = some (s', o) ∧
      Sound p batchSize s' ∧
      Addressed p batchSize ⟨s, .receive f networkDown run bufs sizes eps, o⟩ := by
  obtain ⟨hheld, hvalid, rfl, hzone, hhole⟩ := h
  obtain ⟨b, o⟩ := s
  by_cases hrefuse : (networkDown || (b.conn f.is6).isNone) = true
  · refine ⟨(b, o), .received ⟨0, some errClosed, bufs, sizes, eps, b⟩,
      by simp [traffic, receive, hrefuse], ⟨hheld, hvalid, rfl, hzone, hhole⟩, ?_, by simp⟩
    rintro receipt k d ⟨⟩ herr
    simp at herr
  · obtain ⟨receipt, he⟩ := exists_receiveIP f.pc f.rxOffload sizes eps hvalid hok
    obtain ⟨⟨pool, hbind⟩, hvalid'⟩ := exists_pool_of_receiveIP hvalid he
    refine ⟨(receipt.bind, o), .received receipt, by simp [traffic, receive, hrefuse, he], ?_, ?_,
      by simp⟩
    · rw [hbind] at hvalid' ⊢
      exact ⟨hheld, hvalid', rfl, hzone, hhole⟩
    rintro receipt' k d ⟨⟩ herr hd h0
    rcases hread : run.read with e | rs
    · obtain ⟨receipt', he', -, herr', -⟩ := exists_receiveIP_error f.pc f.rxOffload hvalid
        (validateReceiveBuffers_of_success he herr) hread
      obtain rfl := Option.some.inj (he.symm.trans he')
      simp [herr] at herr'
    · obtain ⟨ua, ep, hua, hep, haddr, hport⟩ :=
        exists_endpoint_of_delivered hvalid hread (hok rs hread) he herr hd h0
      exact ⟨ua, ep, by simp only [Traffic.origin, hread]; exact hua, hep, haddr, hport⟩

/-- `Send` puts its address and its messages back. -/
theorem Sound.exists_Send (h : Sound p batchSize s) {call : SendCall} (hok : call.Ok batchSize) :
    ∃ s' o, traffic p opts net s (.Send call) = some (s', o) ∧ Sound p batchSize s' ∧
      Addressed p batchSize ⟨s, .Send call, o⟩ := by
  obtain ⟨b, o⟩ := s
  rcases hconn : b.conn call.ep.addr.is6 with - | c
  · refine ⟨(b, o), .sent ⟨.done (some (.errno .eafnosupport)), [], [], b⟩, ?_, h, by simp, ?_⟩
    · simp [traffic, StdNetBind.Send, hconn, h.blackhole call.ep.addr.is6]
    · rintro call' r ⟨⟩ ⟨⟩
      simp [Answerable, hconn]
  · have hready : b.Ready p call.bufs call.ep :=
      ⟨h.valid, hok.addr, by rw [hconn]; rfl, h.blackhole _, h.batchSize ▸ hok.batch⟩
    obtain ⟨r, ua, he, hv, hsize, hsame, hfill, haddr, hne⟩ := hready.exists_Send_valid call.run
    have hconns : r.bind.conns = b.conns := by
      rw [conns, conns, show r.bind.ipv4 = b.ipv4 from (hsame false).1,
        show r.bind.ipv6 = b.ipv6 from (hsame true).1]
    refine ⟨(r.bind, o), .sent r, by simp [traffic, he], ⟨hconns ▸ h.holds, hv,
      hsize.trans h.batchSize, h.unzoned.Send he, fun is6 => (hsame is6).2.trans (h.blackhole is6)⟩,
      by simp, ?_⟩
    rintro call' r' ⟨⟩ ⟨⟩
    rw [repliesTo_of_fill_iff (h.valid.getAddr call.run.addrPick).1
      (h.unzoned.get call.run.addrPick).1 hok.addr hfill haddr (hne hok.ne_nil), Answerable, hconn]
    simp [h.isOpen hconn]

/-- **A call keeps the pools in order**, and reports and uses addresses as they are. -/
theorem Sound.exists_traffic (h : Sound p batchSize s) (i : Traffic) (hi : i.Ok p batchSize) :
    ∃ s' o, traffic p opts net s i = some (s', o) ∧ Sound p batchSize s' ∧
      Addressed p batchSize ⟨s, i, o⟩ := by
  cases i with
  | call c => exact h.exists_call c
  | receive f networkDown run bufs sizes eps => exact h.exists_receive f networkDown sizes eps hi
  | Send call => exact h.exists_Send hi

variable (p opts net) in
theorem sound_new : Sound p (stdNetBindBatchSize p net opts)
    (NewStdNetBindWithOptions p net opts, .empty) where
  holds := Sockets.holds_empty
  valid := valid_new p net opts
  batchSize := rfl
  unzoned := by simp [Unzoned, NewStdNetBindWithOptions]
  blackhole is6 := by cases is6 <;> rfl

variable (p opts net) in
/-- **In every run, a reply to a received endpoint goes back to where the datagram came from** iff
the bind has a socket of the family of the unmapped address, the address has no zone, and the
address from the pool is reusable for it. -/
theorem repliesTo_iff (calls : List Traffic)
    (hok : ∀ i ∈ calls, i.Ok p (stdNetBindBatchSize p net opts)) :
    ∃ t, trace (traffic p opts net) (NewStdNetBindWithOptions p net opts, .empty) calls = some t ∧
      ∀ w ∈ t, ∀ receipt (k : ℕ) d, w.output = .received receipt → receipt.err = none →
        receipt.delivered[k]? = some d → d ≠ [] →
        ∃ ua ep, w.input.origin p (stdNetBindBatchSize p net opts) k = some ua ∧
          receipt.eps[k]? = some (some ep) ∧
          ∀ v ∈ t, ∀ call r, v.input = .Send call → v.output = .sent r → call.ep = ep →
            ((∃ c, v.before.1.conn ua.addrPort.1.unmap.is6 = some c ∧ v.before.2.IsOpen c) ∧
                RepliesTo r.handed ua.addrPort.1.unmap ua.addrPort.2 ↔
              v.before.1.Answerable call.run ua.addrPort.1.unmap) := by
  obtain ⟨t, ht, hall⟩ := exists_trace (Sound p (stdNetBindBatchSize p net opts))
    (fun s i h hi => h.exists_traffic i hi) (sound_new p opts net) hok
  refine ⟨t, ht, ?_⟩
  intro w hw receipt k d hout herr hd h0
  obtain ⟨ua, ep, hua, hep, haddr, hport⟩ := (hall w hw).received receipt k d hout herr hd h0
  refine ⟨ua, ep, hua, hep, ?_⟩
  rintro v hv call r hin hsent rfl
  rw [← haddr, ← hport]
  exact (hall v hv).sent call r hin hsent

end Runs

/-- A network without native sockets, and with IPv4 only if it says so. -/
def loopback (ipv4 : Bool) : Network where
  isNative := false
  listen _ family _ :=
    if ipv4 = false ∧ family = "udp4" then .error (.errno .eafnosupport)
    else .ok ⟨"localhost:51820", none, .ok 51820, false, (false, false)⟩

/-- Open a bind, receive a datagram from an address, and send to the endpoint of that address. -/
def exchange (is6 : Bool) (src : UDPAddr) : List Traffic :=
  [.call (.Open 51820),
    .receive ⟨is6, ⟨0, "localhost:51820"⟩, false, false⟩ false ⟨0, .ok [⟨[1], [], src⟩]⟩
      [.ofList [0]] [0] [none],
    .Send ⟨⟨0, 0, []⟩, [.ofList [2]], .ofAddrPort src.addrPort.1.unmap src.addrPort.2⟩]

/-- The run of an exchange. -/
def exchanged (ipv4 is6 : Bool) (src : UDPAddr) :
    Option (List (Visit (StdNetBind × Sockets) Traffic Traffic.Out)) :=
  trace (traffic .linux ⟨.ipv4First, false, false, 1⟩ (some (loopback ipv4)))
    (NewStdNetBindWithOptions .linux (some (loopback ipv4)) ⟨.ipv4First, false, false, 1⟩, .empty)
    (exchange is6 src)

theorem ok_exchange (is6 : Bool) {src : UDPAddr} (hd : src.addrPort.1.unmap ≠ .zero) :
    ∀ i ∈ exchange is6 src, i.Ok .linux 1 := by
  simp only [exchange, List.forall_mem_cons, List.not_mem_nil, false_implies, implies_true,
    and_true]
  refine ⟨trivial, ?_, by simp, by simp, hd⟩
  rintro rs ⟨⟩
  exact ⟨by simp, .cons ⟨le_rfl, Nat.zero_le _, Nat.zero_le _⟩ .nil⟩

/-- The addresses of the messages handed over, without what their arrays hide. -/
def addresses (handed : List (List Message)) : List (List (Option UDPAddr)) :=
  handed.map (List.map fun m => m.addr.map fun ua => { ua with ip := .ofList ua.ip.toList })

/-- In a run a datagram from the source was received, and the messages of a reply to its endpoint
were handed over with the given addresses: back to the source, or not. -/
def Shows (t : List (Visit (StdNetBind × Sockets) Traffic Traffic.Out)) (src : UDPAddr)
    (addrs : List (List (Option UDPAddr))) (back : Bool) : Prop :=
  ∃ w ∈ t, ∃ v ∈ t, ∃ receipt call r, w.output = .received receipt ∧ receipt.err = none ∧
    receipt.delivered = [[1]] ∧ w.input.origin .linux 1 0 = some src ∧
    receipt.eps = [some call.ep] ∧ v.input = .Send call ∧ v.output = .sent r ∧
    addresses r.handed = addrs ∧
    (RepliesTo r.handed src.addrPort.1.unmap src.addrPort.2 ↔ back = true)

/-- What the run of an exchange shows. -/
def shown : List (Visit (StdNetBind × Sockets) Traffic Traffic.Out) →
    Option (UDPAddr × List (List (Option UDPAddr)) × Bool)
  | [_, ⟨_, i, .received receipt⟩, ⟨_, .Send call, .sent r⟩] => do
    let src ← i.origin .linux 1 0
    if receipt.err = none ∧ receipt.delivered = [[1]] ∧ receipt.eps = [some call.ep] then
      some (src, addresses r.handed,
        RepliesTo r.handed src.addrPort.1.unmap src.addrPort.2)
    else none
  | _ => none

theorem shows_of_shown {t : List (Visit (StdNetBind × Sockets) Traffic Traffic.Out)}
    {src : UDPAddr} {addrs : List (List (Option UDPAddr))} {back : Bool}
    (h : shown t = some (src, addrs, back)) : Shows t src addrs back := by
  unfold shown at h
  split at h
  · obtain ⟨src', hsrc, h⟩ := Option.bind_eq_some_iff.mp h
    split_ifs at h with hok
    obtain ⟨rfl, rfl, rfl⟩ := by simpa using h
    obtain ⟨herr, hdel, heps⟩ := hok
    exact ⟨_, List.mem_cons_of_mem _ List.mem_cons_self, _,
      List.mem_cons_of_mem _ (List.mem_cons_of_mem _ List.mem_cons_self), _, _, _, rfl, herr, hdel,
      hsrc, heps, rfl, rfl, rfl, by simp⟩
  · cases h

/-- A datagram from an IPv4 address on a bind with both families, and the reply to it. -/
theorem repliesTo_iff_exchange :
    ∃ t, exchanged true false ⟨.ofList [192, 0, 2, 1], 53, ""⟩ = some t ∧
      Shows t ⟨.ofList [192, 0, 2, 1], 53, ""⟩ [[some ⟨.ofList [192, 0, 2, 1], 53, ""⟩]] true ∧
      ∀ w ∈ t, ∀ receipt (k : ℕ) d, w.output = .received receipt → receipt.err = none →
        receipt.delivered[k]? = some d → d ≠ [] →
        ∃ ua ep, w.input.origin .linux 1 k = some ua ∧ receipt.eps[k]? = some (some ep) ∧
          ∀ v ∈ t, ∀ call r, v.input = .Send call → v.output = .sent r → call.ep = ep →
            ((∃ c, v.before.1.conn ua.addrPort.1.unmap.is6 = some c ∧ v.before.2.IsOpen c) ∧
                RepliesTo r.handed ua.addrPort.1.unmap ua.addrPort.2 ↔
              v.before.1.Answerable call.run ua.addrPort.1.unmap) := by
  have he : (exchanged true false ⟨.ofList [192, 0, 2, 1], 53, ""⟩).bind shown =
      some (⟨.ofList [192, 0, 2, 1], 53, ""⟩, [[some ⟨.ofList [192, 0, 2, 1], 53, ""⟩]], true) := by
    decide +kernel
  obtain ⟨t, ht, hall⟩ := repliesTo_iff .linux ⟨.ipv4First, false, false, 1⟩ (some (loopback true))
    (exchange false ⟨.ofList [192, 0, 2, 1], 53, ""⟩) (ok_exchange false (by decide))
  rw [exchanged, ht, Option.bind_some] at he
  exact ⟨t, ht, shows_of_shown he, hall⟩

/-- A link-local address. -/
def linkLocal : UDPAddr :=
  ⟨.ofList [254, 128, 0, 0, 0, 0, 0, 0, 0, 0, 0, 0, 0, 0, 0, 1], 53, "eth0"⟩

/-- An IPv4-mapped address. -/
def mapped : UDPAddr := ⟨.ofList [0, 0, 0, 0, 0, 0, 0, 0, 0, 0, 255, 255, 192, 0, 2, 1], 53, ""⟩

/-- A reply to a link-local address loses its zone. A reply to an IPv4-mapped address on a bind with
an IPv6 socket only is not sent. -/
theorem not_repliesTo_linkLocal_and_mapped :
    (∃ t, exchanged true true linkLocal = some t ∧ Shows t linkLocal
      [[some { linkLocal with zone := "" }]] false) ∧
    ∃ t, exchanged false true mapped = some t ∧ Shows t mapped [] false := by
  have hlocal : (exchanged true true linkLocal).bind shown = some (linkLocal,
      [[some { linkLocal with zone := "" }]], false) := by
    decide +kernel
  have hmapped : (exchanged false true mapped).bind shown = some (mapped, [], false) := by
    decide +kernel
  obtain ⟨t, ht, hlocal⟩ := Option.bind_eq_some_iff.mp hlocal
  obtain ⟨t', ht', hmapped⟩ := Option.bind_eq_some_iff.mp hmapped
  exact ⟨⟨t, ht, shows_of_shown hlocal⟩, t', ht', shows_of_shown hmapped⟩

end StdNetBind

end BatchUDP
