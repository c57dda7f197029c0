import BatchUDP.StdNet.Bind

/-!
# Sending on the standard bind

`Send` takes messages and an address from the pools, fills the address with the destination, makes
its attempts, and puts both back. The objects that the pools hand back and the outcomes of the
writes are chosen by the run.

## Main definitions

* `StdNetBind.Send`: a call, with `SendRun` and `Sent`
* `StdNetBind.ResendsAll`: the retry is the first to write anything, and no segment size left over
  from the first attempt matters

## Main results

* `StdNetBind.exists_Send`: a call on an open bind is a transmission
* `StdNetBind.Valid.Send`: a call that returns keeps the pools valid
* `StdNetBind.Ready.exists_Send_valid`: a call on an open bind returns
* `StdNetBind.wire_Send_txOffload_iff`: with offload, the datagrams that leave the socket are those
  that leave it without, iff no empty datagram joins a group
* `StdNetBind.wire_Send_eq_iff`: a call that succeeds sent each datagram once iff the retry, if
  there is one, resends all
-/

namespace BatchUDP

open Go Unix Framing

/-- What a run chooses for one call of `Send`: the objects that the pools hand back, and the
outcomes of the writes. -/
structure SendRun where
  msgsPick : ℕ
  addrPick : ℕ
  outcomes : List WriteOutcome
  deriving DecidableEq, Repr

/-- What a call of `Send` did: its result, the messages handed to the socket at each attempt, the
messages the kernel accepted, and the bind afterwards. -/
structure Sent where
  result : SendResult
  handed : List (List Message)
  accepted : List Message
  bind : StdNetBind
  deriving DecidableEq, Repr

namespace StdNetBind

/-- `send`: write the messages in batches where batch I/O is available, and otherwise one at a
time. -/
def send (p : Platform) (pc : Bool) (os : List WriteOutcome) (msgs : List Message) : Written :=
  if pc && p.hasOffload then writeBatch os msgs else writeEach os msgs

/-- What `Send` leaves behind: offload switched off if an attempt failed because of it, and the
address and the messages back in the pools. -/
def sent (s : StdNetBind) (is6 : Bool) (ua : UDPAddr) (udpAddrPool : List UDPAddr)
    (msgsPool : List (List Message)) (t : Transmitted) : Sent where
  result := t.result
  handed := t.handed
  accepted := t.accepted
  -- the flag is written only when an attempt failed because of it
  bind := { (if t.offload then s else s.setTxOffload is6 false) with
    udpAddrPool := ua :: udpAddrPool
    msgsPool := putMessages t.msgs :: msgsPool }

/-- `Send`. -/
def Send (p : Platform) (s : StdNetBind) (run : SendRun) (bufs : List (Slice UInt8))
    (ep : StdNetEndpoint) : Option Sent :=
  let is6 := ep.addr.is6
  if s.blackhole is6 then some ⟨.done none, [], [], s⟩
  else
    match s.conn is6 with
    | none => some ⟨.done (some (.errno .eafnosupport)), [], [], s⟩
    | some conn => do
      let (msgs, msgsPool) := s.getMessages p run.msgsPick
      let (ua, udpAddrPool) := Pool.get UDPAddr.new run.addrPick s.udpAddrPool
      let ua ← ua.fill ep.addr ep.port
      let t ← (coalescer p ua ep).transmit p (send p (s.pc is6)) conn.laddr (s.txOffload is6)
        run.outcomes bufs msgs
      some (s.sent is6 ua udpAddrPool msgsPool t)

section Send

variable {p : Platform} {s : StdNetBind} {run : SendRun} {bufs : List (Slice UInt8)}
  {ep : StdNetEndpoint}

theorem send_accepted_of_err_eq_none {pc : Bool} {os : List WriteOutcome} {msgs : List Message}
    (hb : ∀ m ∈ msgs, m.buffers.length = 1) (h : (send p pc os msgs).err = none) :
    (send p pc os msgs).accepted = msgs := by
  unfold send at h ⊢
  split_ifs at h ⊢ with hpc
  · exact writeBatch_accepted_of_err_eq_none h
  · exact writeEach_accepted_of_err_eq_none hb h

theorem send_err_of_forall (p : Platform) (pc : Bool) {os : List WriteOutcome}
    (h : ∀ e, .fail e ∉ os) (msgs : List Message) : (send p pc os msgs).err = none := by
  unfold send
  split_ifs
  · exact writeBatch_err_of_forall h msgs
  · exact writeEach_err_of_forall h

@[simp] theorem batchSize_sent {is6 : Bool} {ua : UDPAddr} {addrs : List UDPAddr}
    {pool : List (List Message)} {t : Transmitted} :
    (s.sent is6 ua addrs pool t).bind.batchSize = s.batchSize := by
  unfold sent
  split_ifs <;> simp

@[simp] theorem conn_sent {is6 is6' : Bool} {ua : UDPAddr} {addrs : List UDPAddr}
    {pool : List (List Message)} {t : Transmitted} :
    (s.sent is6 ua addrs pool t).bind.conn is6' = s.conn is6' := by
  unfold sent
  split_ifs
  · rfl
  · exact conn_setTxOffload

@[simp] theorem blackhole_sent {is6 is6' : Bool} {ua : UDPAddr} {addrs : List UDPAddr}
    {pool : List (List Message)} {t : Transmitted} :
    (s.sent is6 ua addrs pool t).bind.blackhole is6' = s.blackhole is6' := by
  unfold sent
  split_ifs
  · rfl
  · exact blackhole_setTxOffload

/-- The bind is open for the family of the endpoint, and the datagrams are no more than it takes. -/
structure Ready (p : Platform) (s : StdNetBind) (bufs : List (Slice UInt8)) (ep : StdNetEndpoint) :
    Prop where
  valid : s.Valid p
  addr : ep.addr ≠ .zero
  conn : (s.conn ep.addr.is6).isSome
  blackhole : s.blackhole ep.addr.is6 = false
  batch : bufs.length ≤ s.batchSize

theorem Ready.setTxOffload (h : s.Ready p bufs ep) (is6 on : Bool) :
    (s.setTxOffload is6 on).Ready p bufs ep :=
  ⟨h.valid.setTxOffload is6 on, h.addr, by simpa using h.conn, by simpa using h.blackhole,
    by simpa using h.batch⟩

theorem ready_opened (p : Platform) (offload : Bool) {batchSize : ℕ}
    (h : bufs.length ≤ batchSize) : (opened offload batchSize).Ready p bufs localhost :=
  ⟨valid_opened p offload batchSize, by decide, rfl, rfl, h⟩

/-- **A call on an open bind is a transmission** of messages from the pool to an address from the
pool. -/
theorem exists_Send (h : s.Ready p bufs ep) (run : SendRun) :
    ∃ laddr ua msgs addrs pool, (Pool.get UDPAddr.new run.addrPick s.udpAddrPool).1.fill
        ep.addr ep.port = some ua ∧
      ua.Pooled ∧ (∀ x ∈ addrs, x.Pooled) ∧
      (msgs.length = s.batchSize ∧ ∀ m ∈ msgs, PooledMessage p m) ∧
      (∀ ms ∈ pool, ms.length = s.batchSize ∧ ∀ m ∈ ms, PooledMessage p m) ∧
      s.Send p run bufs ep =
        ((coalescer p ua ep).transmit p (send p (s.pc ep.addr.is6)) laddr
          (s.txOffload ep.addr.is6) run.outcomes bufs msgs).map
          (s.sent ep.addr.is6 ua addrs pool) := by
  obtain ⟨conn, hconn⟩ := Option.isSome_iff_exists.mp h.conn
  obtain ⟨hua, haddrs⟩ := h.valid.getAddr run.addrPick
  obtain ⟨hmsgs, hpool⟩ := h.valid.getMessages run.msgsPick
  obtain ⟨ua, hfill, hpooled, -⟩ := UDPAddr.exists_fill hua h.addr ep.port
  refine ⟨conn.laddr, ua, _, _, _, hfill, hpooled, haddrs, hmsgs, hpool, ?_⟩
  simp only [Send, h.blackhole, hconn, hfill, Bool.false_eq_true, if_false, Option.bind_eq_bind,
    Option.bind_some]
  rw [Option.map_eq_bind]
  rfl

/-- The messages of a transmission can be put back. -/
def Kept (p : Platform) (m : Message) : Prop :=
  m.buffers.length = 1 ∧ m.oob.cap = stickyControlSize p + gsoControlSize p

theorem kept_of_pooled {m : Message} (h : PooledMessage p m) : Kept p m := ⟨h.buffers, h.oob.2⟩

/-- What the messages of a transmission keep: their buffer, and the capacity of their control
data. -/
theorem keeps_coalescer (p : Platform) (ua : UDPAddr) (ep : StdNetEndpoint) :
    (coalescer p ua ep).Keeps (Kept p) where
  join _ _ h := ⟨(List.length_modify _ _ _).trans h.1, h.2⟩
  setGSO _ _ h := ⟨h.1, (cap_setGSOSize p _ _).trans h.2⟩
  started _ m h := ⟨List.length_set.trans h.1, (cap_setSrcControl m.oob).trans h.2⟩

theorem kept_of_closed (ua : UDPAddr) (grp : List (Slice UInt8)) (m : Message)
    (h : (coalescer p ua ep).Closed Holds (PooledOOB p) grp m) : Kept p m := by
  obtain ⟨⟨b, hb, -, -⟩, -, o, ho, hoob⟩ := h
  refine ⟨by rw [hb]; rfl, ?_⟩
  rw [hoob]
  split_ifs
  · exact (cap_setGSOSize p _ _).trans ((cap_setSrcControl o).trans ho.2)
  · exact (cap_setSrcControl o).trans ho.2

/-- **A call that returns keeps the pools valid**, whatever it was given. -/
theorem Valid.Send (h : s.Valid p) {r : Sent} (hr : s.Send p run bufs ep = some r) :
    r.bind.Valid p ∧ r.bind.batchSize = s.batchSize := by
  unfold StdNetBind.Send at hr
  dsimp only at hr
  split_ifs at hr
  · obtain rfl := Option.some.inj hr
    exact ⟨h, rfl⟩
  split at hr
  · obtain rfl := Option.some.inj hr
    exact ⟨h, rfl⟩
  · obtain ⟨hua, haddrs⟩ := h.getAddr run.addrPick
    obtain ⟨⟨hlen, hmsgs⟩, hpool⟩ := h.getMessages run.msgsPick
    obtain ⟨ua, hfill, hr⟩ := Option.bind_eq_some_iff.mp hr
    obtain ⟨t, ht, hr⟩ := Option.bind_eq_some_iff.mp hr
    obtain rfl := Option.some.inj hr
    obtain ⟨htlen, hkept⟩ :=
      (keeps_coalescer p ua ep).transmit ht fun m hm => kept_of_pooled (hmsgs m hm)
    refine ⟨valid_put ?_ ?_, batchSize_sent⟩
    · exact List.forall_mem_cons.mpr ⟨hua.of_fill hfill, haddrs⟩
    · simp only [apply_ite batchSize, batchSize_setTxOffload, ite_self]
      refine List.forall_mem_cons.mpr ⟨⟨?_, pooledMessage_of_mem_putMessages hkept⟩, hpool⟩
      rw [putMessages, List.length_map, htlen, hlen]

/-- **A call ends with a result**, hands over messages to one pooled address, and keeps the pools
valid and the sockets open. -/
theorem Ready.exists_Send_valid (h : s.Ready p bufs ep) (run : SendRun) :
    ∃ r ua, s.Send p run bufs ep = some r ∧ r.bind.Valid p ∧
      r.bind.batchSize = s.batchSize ∧
      (∀ is6, r.bind.conn is6 = s.conn is6 ∧ r.bind.blackhole is6 = s.blackhole is6) ∧
      (Pool.get UDPAddr.new run.addrPick s.udpAddrPool).1.fill ep.addr ep.port = some ua ∧
      (∀ ms ∈ r.handed, ∀ m ∈ ms, m.addr = some ua) ∧
      (bufs ≠ [] → ∃ ms ∈ r.handed, ms ≠ []) := by
  obtain ⟨laddr, ua, msgs, addrs, pool, hfill, hua, haddrs, ⟨hlen, hmsgs⟩, hpool, he⟩ :=
    exists_Send h run
  obtain ⟨t, ht, haddr, hne⟩ := Coalescer.exists_transmit p (send p (s.pc ep.addr.is6)) laddr
    run.outcomes (models_coalescer p ua ep) (buffers_and_oob_of_pooled hmsgs)
    (h.batch.trans hlen.ge) (s.txOffload ep.addr.is6)
  rw [ht, Option.map_some] at he
  obtain ⟨hvalid, hsize⟩ := h.valid.Send he
  exact ⟨_, ua, he, hvalid, hsize, fun _ => ⟨conn_sent, blackhole_sent⟩, hfill, haddr, hne⟩

/-! ## Offload on and off -/

/-- **A call without offload** writes each datagram as a message of its own. -/
theorem exists_Send_of_not_txOffload (h : s.Ready p bufs ep) (hp : p.hasOffload = true)
    (hsrc : ep.SrcFramed) (hoff : s.txOffload ep.addr.is6 = false) (run : SendRun) :
    ∃ r ms, s.Send p run bufs ep = some r ∧
      r.result = .done (send p (s.pc ep.addr.is6) run.outcomes ms).err ∧
      r.accepted = (send p (s.pc ep.addr.is6) run.outcomes ms).accepted ∧
      (∀ m ∈ ms, m.buffers.length = 1) ∧ wire ms = bufs.map Slice.toList := by
  obtain ⟨laddr, ua, msgs, addrs, pool, -, -, -, ⟨hlen, hmsgs⟩, -, he⟩ := exists_Send h run
  have hpool := buffers_and_oob_of_pooled hmsgs
  have hl : bufs.length ≤ msgs.length := h.batch.trans hlen.ge
  rw [hoff, Coalescer.transmit_off (Coalescer.buffers_ne_nil_of_pooled hpool) hl] at he
  refine ⟨_, _, he, rfl, rfl, ?_, Coalescer.wire_spread (segmenting_coalescer hp hsrc ua) hpool hl⟩
  exact Coalescer.forall_mem_spread fun buf m hm =>
    ((keeps_coalescer p ua ep).started buf m (kept_of_pooled (hmsgs m hm))).1

/-- **A call with offload** writes one message for each group of datagrams, and writes the datagrams
again, one message each, if that fails because of offload. -/
theorem exists_Send_of_txOffload (h : s.Ready p bufs ep) (hon : s.txOffload ep.addr.is6 = true)
    (run : SendRun) :
    ∃ r ua built rest laddr, s.Send p run bufs ep = some r ∧
      List.Forall₂ ((coalescer p ua ep).Closed Holds (PooledOOB p))
        (groups (Coalescer.joins (maxPayloadLen ep.addr) room) bufs) built ∧
      (∀ m ∈ rest, PooledMessage p m) ∧ bufs.length ≤ (built ++ rest).length ∧
      let w := send p (s.pc ep.addr.is6) run.outcomes built
      let again := (coalescer p ua ep).spread bufs (built ++ rest)
      if w.err.any (errShouldDisableUDPGSO p) then
        r.result = .gsoDisabled laddr (send p (s.pc ep.addr.is6) w.rest again).err ∧
          r.handed = [built, again] ∧
          r.accepted = w.accepted ++ (send p (s.pc ep.addr.is6) w.rest again).accepted
      else r.result = .done w.err ∧ r.handed = [built] ∧ r.accepted = w.accepted := by
  obtain ⟨laddr, ua, msgs, addrs, pool, -, -, -, ⟨hlen, hmsgs⟩, -, he⟩ := exists_Send h run
  have hpool := buffers_and_oob_of_pooled hmsgs
  have hl : bufs.length ≤ msgs.length := h.batch.trans hlen.ge
  obtain ⟨built, left, rfl, hleft, hg, ht⟩ :=
    Coalescer.transmit_on p (send p (s.pc ep.addr.is6)) laddr run.outcomes
      (models_coalescer p ua ep) hpool hl
  rw [hon, ht] at he
  have hrest : ∀ m ∈ msgs.drop built.length, PooledMessage p m :=
    fun m hm => hmsgs m (List.mem_of_mem_drop hm)
  split_ifs at he with hret
  · refine ⟨_, ua, built, _, laddr, he, hg, hrest, hl.trans hleft.ge, ?_⟩
    simp only [hret, if_true]
    exact ⟨rfl, rfl, rfl⟩
  · refine ⟨_, ua, built, _, laddr, he, hg, hrest, hl.trans hleft.ge, ?_⟩
    simp only [hret]
    exact ⟨rfl, rfl, rfl⟩

theorem buffers_of_closed {ua : UDPAddr} {gs : List (List (Slice UInt8))} {built : List Message}
    (hg : List.Forall₂ ((coalescer p ua ep).Closed Holds (PooledOOB p)) gs built) :
    ∀ m ∈ built, m.buffers.length = 1 :=
  forall_mem_right (hg.imp fun grp m hc => (kept_of_closed ua grp m hc).1)

/-- **With offload, the datagrams that leave the socket are those that leave it without**, in order
and number, iff no empty datagram joins the group in front of it. -/
theorem wire_Send_txOffload_iff (hp : p.hasOffload = true) (h : s.Ready p bufs ep)
    (hsrc : ep.SrcFramed) {on off : SendRun} (hon : ∀ e, .fail e ∉ on.outcomes)
    (hoff : ∀ e, .fail e ∉ off.outcomes) :
    ∃ r r', (s.setTxOffload ep.addr.is6 true).Send p on bufs ep = some r ∧
      (s.setTxOffload ep.addr.is6 false).Send p off bufs ep = some r' ∧
      (wire r.accepted = wire r'.accepted ↔
        Coalescer.JoinsNonempty (maxPayloadLen ep.addr) room bufs) := by
  obtain ⟨r, ua, built, rest, laddr, he, hg, -, -, hr⟩ :=
    exists_Send_of_txOffload (h.setTxOffload ep.addr.is6 true) txOffload_setTxOffload on
  obtain ⟨r', ms, he', -, hr', hb', hw'⟩ :=
    exists_Send_of_not_txOffload (h.setTxOffload ep.addr.is6 false) hp hsrc
      txOffload_setTxOffload off
  have herr := send_err_of_forall p (s.pc ep.addr.is6) hon built
  have herr' := send_err_of_forall p (s.pc ep.addr.is6) hoff ms
  simp only [pc_setTxOffload, herr, Option.any_none, Bool.false_eq_true, if_false] at hr hr'
  refine ⟨r, r', he, he', ?_⟩
  rw [hr.2.2, hr', send_accepted_of_err_eq_none (buffers_of_closed hg) herr,
    send_accepted_of_err_eq_none hb' herr', hw']
  exact Coalescer.wire_built_iff (segmenting_coalescer hp hsrc ua) (maxPayloadLen_lt _) hg

/-- Two datagrams that share a message leave the socket as two. -/
theorem wire_Send_txOffload_iff_coalesced :
    ∃ r r',
      ((opened true 2).setTxOffload false true).Send .linux ⟨0, 0, []⟩
        [.withSpare [1, 2] [0], .ofList [3]] localhost = some r ∧
      ((opened true 2).setTxOffload false false).Send .linux ⟨0, 0, [.accept 0]⟩
        [.withSpare [1, 2] [0], .ofList [3]] localhost = some r' ∧
      (wire r.accepted = wire r'.accepted ↔ Coalescer.JoinsNonempty (maxPayloadLen localhost.addr)
        room [.withSpare [1, 2] [0], .ofList [3]]) :=
  wire_Send_txOffload_iff rfl (ready_opened .linux true le_rfl) srcFramed_localhost (by simp)
    (by simp)

/-- An empty datagram behind another one is not sent with offload. -/
theorem wire_Send_txOffload_empty :
    ∃ r r',
      ((opened true 2).setTxOffload false true).Send .linux ⟨0, 0, []⟩
        [.ofList [1], .ofList []] localhost = some r ∧
      ((opened true 2).setTxOffload false false).Send .linux ⟨0, 0, []⟩
        [.ofList [1], .ofList []] localhost = some r' ∧
      wire r.accepted = [[1]] ∧ wire r'.accepted = [[1], []] ∧ wire r.accepted ≠ wire r'.accepted :=
  ⟨_, _, rfl, rfl, by decide, by decide, by decide⟩

/-! ## Each datagram once -/

/-- The outcomes of the writes are such that a retry resends all: the first attempt does not fail
because of offload when it has written something already. Where the control data is not reset, the
segment sizes that the first attempt left in the messages have to exceed the datagrams that the
retry puts there. -/
def ResendsAll (p : Platform) (dst : Addr) (os : List WriteOutcome) (bufs : List (Slice UInt8)) :
    Prop :=
  let gs := groups (Coalescer.joins (maxPayloadLen dst) room) bufs
  (progress os gs.length).2.any (errShouldDisableUDPGSO p) →
    (progress os gs.length).1 = 0 ∧ (p.goos = .linux ∨
      ∀ x ∈ gs.zip bufs, 2 ≤ x.1.length → x.2.len ≤ Coalescer.headLen x.1)

instance (p : Platform) (dst : Addr) (os : List WriteOutcome) (bufs : List (Slice UInt8)) :
    Decidable (ResendsAll p dst os bufs) :=
  inferInstanceAs (Decidable (_ → _))

/-- A message of the retry leaves the socket as its datagram. -/
def Whole (m : Message) : Prop :=
  segmentSize m.oob.toList = 0 ∨ m.payload.length ≤ segmentSize m.oob.toList

section Retry

variable {ua : UDPAddr} {gs : List (List (Slice UInt8))} {built rest : List Message}
  (hg : List.Forall₂ ((coalescer p ua ep).Closed Holds (PooledOOB p)) gs built)
  (hrest : ∀ m ∈ rest, PooledMessage p m)

include hg hrest

theorem kept_left : ∀ m ∈ built ++ rest, Kept p m := by
  intro m hm
  rcases List.mem_append.mp hm with hm | hm
  · exact forall_mem_right (hg.imp (kept_of_closed ua)) m hm
  · exact kept_of_pooled (hrest m hm)

/-- The messages of the retry leave the socket as at least as many datagrams, and as the datagrams
iff each is whole. -/
theorem wire_again (hl : bufs.length ≤ (built ++ rest).length) :
    bufs.length ≤ (wire ((coalescer p ua ep).spread bufs (built ++ rest))).length ∧
      (wire ((coalescer p ua ep).spread bufs (built ++ rest)) = bufs.map Slice.toList ↔
        ∀ m ∈ (coalescer p ua ep).spread bufs (built ++ rest), Whole m) := by
  have hcases : List.Forall₂ (fun m buf => [Slice.toList buf] = m.datagrams ∧ Whole m ∨
      [Slice.toList buf].length < m.datagrams.length ∧ ¬ Whole m)
      ((coalescer p ua ep).spread bufs (built ++ rest)) bufs := by
    refine Coalescer.forall₂_spread (fun buf m hm => ?_) hl
    rw [Whole, Message.datagrams, Coalescer.payload_started (kept_left hg hrest m hm).1]
    exact (Message.segments_cases _ _).imp_left fun h => ⟨h.1.symm, h.2⟩
  have hmap : bufs.flatMap (fun buf => [buf.toList]) = bufs.map Slice.toList :=
    List.map_eq_flatMap.symm
  constructor
  · have hle := length_flatMap_le (hcases.imp (S := fun m buf =>
      [Slice.toList buf].length ≤ m.datagrams.length) ?_)
    · rwa [hmap, List.length_map] at hle
    · rintro m buf (⟨h, -⟩ | ⟨h, -⟩)
      · rw [h]
      · exact h.le
  · rw [← hmap, eq_comm]
    exact flatMap_eq_flatMap_iff hcases

/-- The messages of the retry are whole on Linux, where the control data is reset. On Android the
segment size of a message of several datagrams stays. -/
theorem forall_whole_iff (hp : p.hasOffload = true) (hsrc : ep.SrcFramed)
    (hgs : ∀ grp ∈ gs, Coalescer.Group (maxPayloadLen ep.addr) grp)
    (hne : ∀ grp ∈ gs, Coalescer.headLen grp ≠ 0) :
    (∀ m ∈ (coalescer p ua ep).spread bufs (built ++ rest), Whole m) ↔ p.goos = .linux ∨
      ∀ x ∈ gs.zip bufs, 2 ≤ x.1.length → x.2.len ≤ Coalescer.headLen x.1 := by
  by_cases hlin : p.goos = .linux
  · simp only [hlin, true_or, iff_true]
    refine Coalescer.forall_mem_spread fun buf m hm => .inl ?_
    have hcap : stickyControlSize p ≤ m.oob.cap := by
      rw [(kept_left hg hrest m hm).2]
      omega
    show segmentSize (setSrcControl p m.oob ep).toList = 0
    rw [toList_setSrcControl hsrc (fun h => absurd hlin h) hcap]
    exact hsrc.segmentSize_stickyControl
  · simp only [hlin, false_or]
    -- `setSrcControl` does nothing here, so that the segment size of the first attempt stays
    have hwhole (buf : Slice UInt8) {m : Message} (hm : m.buffers.length = 1) :
        Whole ((coalescer p ua ep).started buf m) ↔
          segmentSize m.oob.toList = 0 ∨ buf.len ≤ segmentSize m.oob.toList := by
      have hoob : ((coalescer p ua ep).started buf m).oob = m.oob := if_neg hlin
      rw [Whole, Coalescer.payload_started hm, Slice.length_toList, hoob]
    refine forall_mem_zipWith_append_iff (C := fun x => 2 ≤ x.1.length →
      Slice.len x.2 ≤ Coalescer.headLen x.1) ?_ ?_
    · have hall := (List.forall₂_and_left _ _).mpr
        ⟨fun grp h => And.intro (hgs grp h) (hne grp h), hg⟩
      refine hall.imp ?_
      rintro grp m ⟨⟨hgrp, h0⟩, hc⟩ buf
      rw [hwhole buf (kept_of_closed ua grp m hc).1,
        hc.segmentSize_eq (segmenting_coalescer hp hsrc ua) (maxPayloadLen_lt _) hgrp]
      split_ifs with h2 <;> simp [h0, h2]
    · intro m hm buf
      rw [hwhole buf (hrest m hm).buffers, (hrest m hm).oob.1]
      exact .inl rfl

end Retry

/-- A call that succeeds after a retry sent each datagram once iff nothing was accepted before the
retry, and its messages are whole. -/
theorem wire_retry_iff {ua : UDPAddr} {built rest : List Message}
    (hg : List.Forall₂ ((coalescer p ua ep).Closed Holds (PooledOOB p))
      (groups (Coalescer.joins (maxPayloadLen ep.addr) room) bufs) built)
    (hrest : ∀ m ∈ rest, PooledMessage p m) (hl : bufs.length ≤ (built ++ rest).length)
    (hp : p.hasOffload = true) (hsrc : ep.SrcFramed) (hne : ∀ b ∈ bufs, b.len ≠ 0) {k : ℕ}
    (hk : k ≤ built.length) :
    wire (built.take k ++ (coalescer p ua ep).spread bufs (built ++ rest)) =
        bufs.map Slice.toList ↔
      k = 0 ∧ (p.goos = .linux ∨
        ∀ x ∈ (groups (Coalescer.joins (maxPayloadLen ep.addr) room) bufs).zip bufs,
          2 ≤ x.1.length → x.2.len ≤ Coalescer.headLen x.1) := by
  obtain ⟨hle, hiff⟩ := wire_again hg hrest hl
  have hhead : ∀ grp ∈ groups (Coalescer.joins (maxPayloadLen ep.addr) room) bufs,
      Coalescer.headLen grp ≠ 0 := by
    intro grp hgrp
    obtain ⟨b, bs, rfl⟩ := List.exists_cons_of_ne_nil (groups_ne_nil bufs grp hgrp)
    exact hne b (mem_of_mem_groups hgrp (by simp))
  rw [← forall_whole_iff hg hrest hp hsrc
    (Coalescer.group_of_mem_groups (maxPayloadLen ep.addr) bufs) hhead, ← hiff, wire_append]
  constructor
  · intro he
    have hlen := congrArg List.length he
    rw [List.length_append, List.length_map] at hlen
    have hnil : wire (built.take k) = [] := List.length_eq_zero_iff.mp (by omega)
    rw [hnil, List.nil_append] at he
    refine ⟨?_, he⟩
    rcases List.take_eq_nil_iff.mp (wire_eq_nil_iff.mp hnil) with h0 | h0
    · exact h0
    · rw [h0] at hk
      exact Nat.le_zero.mp hk
  · rintro ⟨rfl, he⟩
    rw [List.take_zero, wire_nil, List.nil_append, he]

/-- **A call that succeeds sent each datagram exactly once, in order**, iff it did not retry, or the
retry resent all. -/
theorem wire_Send_eq_iff (hp : p.hasOffload = true) (h : s.Ready p bufs ep) (hsrc : ep.SrcFramed)
    (hpc : s.pc ep.addr.is6 = true) (hne : ∀ b ∈ bufs, b.len ≠ 0) (run : SendRun) :
    ∃ r, s.Send p run bufs ep = some r ∧
      (r.result = .done none ∨ (∃ laddr, r.result = .gsoDisabled laddr none) →
        (wire r.accepted = bufs.map Slice.toList ↔
          s.txOffload ep.addr.is6 = false ∨ ResendsAll p ep.addr run.outcomes bufs)) := by
  have hsend (os : List WriteOutcome) (ms : List Message) :
      send p true os ms = writeBatch os ms := by
    simp [send, hp]
  cases htx : s.txOffload ep.addr.is6 with
  | false =>
    obtain ⟨r, ms, he, hres, hacc, hb, hw⟩ := exists_Send_of_not_txOffload h hp hsrc htx run
    refine ⟨r, he, fun hok => ?_⟩
    have herr : (send p (s.pc ep.addr.is6) run.outcomes ms).err = none := by
      rw [hres] at hok
      simpa using hok
    simp [hacc, send_accepted_of_err_eq_none hb herr, hw]
  | true =>
    obtain ⟨r, ua, built, rest, laddr, he, hg, hrest, hl, hr⟩ := exists_Send_of_txOffload h htx run
    obtain ⟨hacc, herr⟩ := writeBatch_eq_progress run.outcomes built
    rw [← hg.length_eq] at hacc herr
    simp only [hpc, hsend, herr] at hr
    refine ⟨r, he, fun hok => ?_⟩
    simp only [Bool.true_eq_false, false_or, ResendsAll]
    split_ifs at hr with hret
    · obtain ⟨hres, -, hr⟩ := hr
      have herr' : (writeBatch (writeBatch run.outcomes built).rest
          ((coalescer p ua ep).spread bufs (built ++ rest))).err = none := by
        rw [hres] at hok
        simpa using hok
      rw [hr, writeBatch_accepted_of_err_eq_none herr', hacc]
      have hk := progress_le run.outcomes
        (groups (Coalescer.joins (maxPayloadLen ep.addr) room) bufs).length
      simp only [hret, true_implies]
      exact wire_retry_iff hg hrest hl hp hsrc hne (hk.trans hg.length_eq.le)
    · obtain ⟨hres, -, hr⟩ := hr
      have herr' : (writeBatch run.outcomes built).err = none := by
        rw [hres] at hok
        rw [herr]
        simpa using hok
      rw [hr, writeBatch_accepted_of_err_eq_none herr',
        Coalescer.wire_built_iff (segmenting_coalescer hp hsrc ua) (maxPayloadLen_lt _) hg]
      simp only [hret, Bool.false_eq_true, false_implies, iff_true]
      exact fun grp hgrp b hb => hne b (mem_of_mem_groups hgrp (List.mem_of_mem_tail hb))

/-- The device rejects the coalesced message, and the retry succeeds. -/
theorem wire_Send_eq_iff_rejected :
    ∃ r, (opened true 2).Send .linux
        ⟨0, 0, [.fail (.syscallError "sendmmsg" (.errno .eio))]⟩
        [.withSpare [1, 2] [0], .ofList [3]] localhost = some r ∧
      (r.result = .done none ∨ (∃ laddr, r.result = .gsoDisabled laddr none) →
        (wire r.accepted = [[1, 2], [3]] ↔
          (opened true 2).txOffload false = false ∨ ResendsAll .linux localhost.addr
            [.fail (.syscallError "sendmmsg" (.errno .eio))]
            [.withSpare [1, 2] [0], .ofList [3]])) :=
  wire_Send_eq_iff rfl (ready_opened .linux true le_rfl) srcFramed_localhost rfl (by decide) _

/-- The device accepts a single datagram and rejects the coalesced message behind it: the retry
sends the single datagram again. -/
theorem wire_Send_accepted_then_rejected :
    ∃ r, (opened true 3).Send .linux
        ⟨0, 0, [.accept 0, .fail (.syscallError "sendmmsg" (.errno .eio))]⟩
        [.ofList [1], .withSpare [2, 3] [0, 0], .ofList [4, 5]] localhost = some r ∧
      r.result = .gsoDisabled "0.0.0.0:51820" none ∧
      wire r.accepted = [[1], [1], [2, 3], [4, 5]] ∧
      wire r.accepted ≠ [[1], [2, 3], [4, 5]] :=
  ⟨_, rfl, by decide, by decide, by decide⟩

end Send

end StdNetBind

end BatchUDP
