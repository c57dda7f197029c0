import BatchUDP.Delivery
import BatchUDP.StdNet.Generations
import BatchUDP.StdNet.Options

/-!
# From the kernel to the caller

A receive function is told once, when `Open` makes it, whether `supportsUDPOffload` found receive
offload enabled on the socket; if so, and with at least two slots, it splits what it reads. On a
system that lets the option be read back wherever it is set, the functions with at least two slots
split exactly the reads of those sockets on which the kernel coalesces, so that the caller gets one
datagram in each slot, whatever the version of the kernel.

## Main definitions

* `StdNetBind.Generations.Informed`: every receive function knows whether its kernel coalesces
* `StdNetBind.Generations.Arrives`: what a kernel can have read for a call

## Main results

* `StdNetBind.Generations.Informed.step`: a step keeps that
* `StdNetBind.Generations.keeps_boundaries`: along every run, the caller gets the datagrams, and the
  kernel coalesces only for functions that split
* `StdNetBind.Generations.reads_configured_socket`: along every run, the sockets that are read have
  the options that the bind counts on
-/

namespace BatchUDP

open Go Machine Framing

namespace StdNetBind.Generations

/-- Every receive function reads in batches from a socket that is configured, and was told that the
kernel coalesces on that iff it does. -/
structure Informed (h : Host) (p : Platform) (b : ℕ) (s : Generations) : Prop where
  batchSize : s.bind.batchSize = b
  fns : ∀ r ∈ s.opens, ∀ f ∈ r.fns, h.Configured p.goos f.conn.id f.is6 ∧ f.pc = true ∧
    (f.rxOffload = true ↔ h.options p.goos f.conn.id f.is6 .udpGRO = 1)

/-- What the kernel can have read for a call: nonempty messages for which there is room, coalesced
only if receive offload is enabled on the socket, whose datagrams fit the slots. -/
structure Arrives (h : Host) (p : Platform) (b : ℕ) (c : ReceiveCall) (rs : List Received) :
    Prop where
  readable : ReadableInto p (window p c.fn.pc c.fn.rxOffload (c.bufs.take b)) rs
  nonempty : ∀ r ∈ rs, r.payload ≠ []
  uncoalesced : h.options p.goos c.fn.conn.id c.fn.is6 .udpGRO ≠ 1 → Uncoalesced p rs
  held : Held ((c.bufs.take b).map Slice.len) (originals p rs)

variable {h : Host} {p : Platform} {b major minor : ℕ} {opts : StdNetBindOptions}
  {s s' : Generations} {e : Event} {o : Out}

theorem Informed.of_eq (hi : s.Informed h p b) (hb : s'.bind.batchSize = s.bind.batchSize)
    (ho : s'.opens = s.opens) : s'.Informed h p b :=
  ⟨hb.trans hi.batchSize, ho ▸ hi.fns⟩

/-- **A step keeps the receive functions informed.** -/
theorem Informed.step (hp : p.hasOffload = true) (hr : h.Reports major minor) (hs : s.Inv p)
    (hi : s.Informed h p b)
    (he : Generations.step p opts (some (h.network p.goos)) s e = some (s', o)) :
    s'.Informed h p b := by
  cases e with
  | Open uport =>
    simp only [Generations.step] at he
    split_ifs at he
    · obtain ⟨rfl, -⟩ := Prod.mk.inj (Option.some.inj he)
      exact hi
    · obtain ⟨r, hopen, he⟩ := Option.map_eq_some_iff.mp he
      obtain ⟨rfl, -⟩ := Prod.mk.inj he
      obtain ⟨-, -, hb, -⟩ := Open_frame hopen
      refine ⟨hb.trans hi.batchSize, ?_⟩
      intro r' hr' f hf
      unfold opened at hr'
      split_ifs at hr'
      · rcases List.mem_append.mp hr' with hr' | hr'
        · exact hi.fns r' hr' f hf
        · obtain rfl := List.mem_singleton.mp hr'
          exact Host.configured_of_mem_fns hp hr hopen hf
      · exact hi.fns r' hr' f hf
  | beginClose =>
    simp only [Generations.step] at he
    split_ifs at he
    · obtain ⟨rfl, -⟩ := Prod.mk.inj (Option.some.inj he)
      exact hi
    · obtain ⟨rfl, -⟩ := Prod.mk.inj (Option.some.inj he)
      exact hi.of_eq (closeFamily_frame false).2.2 rfl
  | endClose =>
    simp only [Generations.step] at he
    split_ifs at he
    · obtain ⟨rfl, -⟩ := Prod.mk.inj (Option.some.inj he)
      exact hi.of_eq (closeFamily_frame true).2.2 rfl
    · obtain ⟨rfl, -⟩ := Prod.mk.inj (Option.some.inj he)
      exact hi
  | check gen fn networkDown bufs sizes eps =>
    have hsame : s'.bind = s.bind ∧ s'.opens = s.opens := by
      simp only [Generations.step] at he
      split at he
      · obtain ⟨rfl, -⟩ := Prod.mk.inj (Option.some.inj he)
        exact ⟨rfl, rfl⟩
      · split_ifs at he
        · obtain ⟨rfl, -⟩ := Prod.mk.inj (Option.some.inj he)
          exact ⟨rfl, rfl⟩
        · obtain ⟨rfl, -⟩ := Prod.mk.inj (Option.some.inj he)
          exact ⟨rfl, rfl⟩
        · split at he
          · obtain ⟨rfl, -⟩ := Prod.mk.inj (Option.some.inj he)
            exact ⟨rfl, rfl⟩
          · obtain ⟨rfl, -⟩ := Prod.mk.inj (Option.some.inj he)
            exact ⟨rfl, rfl⟩
    exact hi.of_eq (by rw [hsame.1]) hsame.2
  | read call run =>
    simp only [Generations.step] at he
    split at he
    · obtain ⟨rfl, -⟩ := Prod.mk.inj (Option.some.inj he)
      exact hi
    case h_2 c hc =>
      obtain ⟨rfl, -⟩ := Prod.mk.inj (Option.some.inj he)
      refine hi.of_eq ?_ rfl
      rcases hrec : s.bind.receiveIP p c.fn.pc c.fn.rxOffload (s.answer c run) c.bufs c.sizes c.eps
        with - | receipt
      · rfl
      · obtain ⟨⟨pool, hbind⟩, -⟩ := exists_pool_of_receiveIP hs.valid hrec
        rw [Option.map_some, Option.getD_some, hbind]

/-- **An informed call delivers the datagrams that arrived.** -/
theorem Informed.delivered (hp : p.hasOffload = true) (hb : 1 < b) (hs : s.Inv p)
    (hi : s.Informed h p b) {c : ReceiveCall} (hf : ∃ r ∈ s.opens, c.fn ∈ r.fns) {run : ReceiveRun}
    {rs : List Received} (hread : run.read = .ok rs) (ha : Arrives h p b c rs) {rec : Receipt}
    (he : s.bind.receiveIP p c.fn.pc c.fn.rxOffload run c.bufs c.sizes c.eps = some rec)
    (herr : rec.err = none) : rec.delivered = originals p rs := by
  obtain ⟨r, hr, hf⟩ := hf
  obtain ⟨-, hpc, hrx⟩ := hi.fns r hr c.fn hf
  obtain ⟨hread', hne, hun, hheld⟩ := ha
  rw [← hi.batchSize] at hb hread' hheld
  by_cases hgro : c.fn.rxOffload = true
  · rw [hgro] at he hread'
    exact (receiveIP_delivered_iff hs.valid hread hne hread' he herr).mpr
      ⟨hheld, .inl ⟨⟨hpc, hp⟩, rfl, hb⟩⟩
  · obtain ⟨-, rec', -, -, he', -, hdel, -⟩ := exists_receiveIP_plain hs.valid
      (validateReceiveBuffers_of_success he herr) hread (fun hsp => hgro hsp.2.1) hread'
    obtain rfl := Option.some.inj (he.symm.trans he')
    have hone := hun fun h1 => hgro (hrx.mpr h1)
    rw [hdel, originals, List.flatMap_congr hone]
    exact List.map_eq_flatMap

/-- A call that returned from its second half had read. -/
theorem read_returned {net : Option Network} {call : ℕ} {run : ReceiveRun} {c : ReceiveCall}
    {socket : Option Conn} {receipt : Option Receipt}
    (he : Generations.step p opts net s (.read call run) =
      some (s', .returned c socket receipt)) :
    s.calls[call]? = some c ∧
      s.bind.receiveIP p c.fn.pc c.fn.rxOffload (s.answer c run) c.bufs c.sizes c.eps =
        receipt := by
  simp only [Generations.step] at he
  split at he
  · simp at he
  case h_2 c' hc =>
    obtain ⟨-, ho⟩ := Prod.mk.inj (Option.some.inj he)
    obtain ⟨rfl, -, hrec⟩ := Out.returned.inj ho
    exact ⟨hc, hrec⟩

/-- Along every run the receive functions are informed. -/
theorem exists_trace_informed (hp : p.hasOffload = true) (hr : h.Reports major minor)
    (opts : StdNetBindOptions) (events : List Event) :
    ∃ t, trace (Generations.step p opts (some (h.network p.goos)))
        (start p opts (some (h.network p.goos))) events = some t ∧
      ∀ v ∈ t, v.before.Inv p ∧
        v.before.Informed h p (stdNetBindBatchSize p (some (h.network p.goos)) opts) ∧
        ∃ s', Generations.step p opts (some (h.network p.goos)) v.before v.input =
          some (s', v.output) := by
  have hstart : (start p opts (some (h.network p.goos))).Inv p ∧
      (start p opts (some (h.network p.goos))).Informed h p
        (stdNetBindBatchSize p (some (h.network p.goos)) opts) :=
    ⟨inv_start p opts _, rfl, by simp [start]⟩
  refine exists_trace_of_forall (fun s => s.Inv p ∧ s.Informed h p
    (stdNetBindBatchSize p (some (h.network p.goos)) opts)) (fun s e hs => ?_) hstart events
  obtain ⟨s', o, he, hinv, -⟩ := hs.1.exists_step e
  exact ⟨s', o, he, ⟨hinv, hs.2.step hp hr hs.1 he⟩, hs.1, hs.2, s', he⟩

/-- The socket that a call has read is that of its receive function, which is informed. -/
theorem informed_of_returned {v : Visit Generations Event Out} (hinv : v.before.Inv p)
    (hinf : v.before.Informed h p b)
    (he : Generations.step p opts (some (h.network p.goos)) v.before v.input =
      some (s', v.output))
    {c : ReceiveCall} {socket : Conn} {receipt : Option Receipt}
    (hout : v.output = .returned c (some socket) receipt) :
    h.Configured p.goos socket.id c.fn.is6 ∧ c.fn.pc = true ∧
      (c.fn.rxOffload = true ↔ h.options p.goos socket.id c.fn.is6 .udpGRO = 1) := by
  obtain ⟨s₁, o₁, he₁, -, hkeeps⟩ := hinv.exists_step v.input
  obtain ⟨-, ho⟩ := Prod.mk.inj (Option.some.inj (he₁.symm.trans he))
  obtain ⟨r, hr, hf, hsocket⟩ := hkeeps.own c socket receipt (ho.trans hout)
  have hr := List.mem_of_getElem? hr
  obtain rfl := Option.some.inj (hsocket.symm.trans (hinv.captured r hr c.fn hf))
  exact hinf.fns r hr c.fn hf

/-- **Datagram boundaries survive the way from the kernel to the caller**: on a Linux or Android
system of any kernel version, in every interleaving of `Open`, `Close` and receive calls on a bind
with at least two slots, a receive call that succeeds delivers exactly the datagrams that arrived,
and the kernel coalesces on those sockets only whose receive function splits what it reads. -/
theorem keeps_boundaries (hp : p.hasOffload = true) (hr : h.Reports major minor)
    (hb : 1 < stdNetBindBatchSize p (some (h.network p.goos)) opts) (events : List Event) :
    ∃ t, trace (step p opts (some (h.network p.goos))) (start p opts (some (h.network p.goos)))
        events = some t ∧
      ∀ v ∈ t, (∀ call run c rec rs, v.input = .read call run →
        v.output = .returned c (some c.fn.conn) (some rec) → rec.err = none → run.read = .ok rs →
        Arrives h p (stdNetBindBatchSize p (some (h.network p.goos)) opts) c rs →
        rec.delivered = originals p rs) ∧
      ∀ c socket receipt, v.output = .returned c (some socket) receipt →
        (Splits p c.fn.pc c.fn.rxOffload
            (stdNetBindBatchSize p (some (h.network p.goos)) opts) ↔
          h.options p.goos socket.id c.fn.is6 .udpGRO = 1) := by
  obtain ⟨t, ht, hall⟩ := exists_trace_informed hp hr opts events
  refine ⟨t, ht, fun v hv => ⟨?_, ?_⟩⟩
  · intro call run c rec rs hin hout herr hread ha
    obtain ⟨hinv, hinf, s', he⟩ := hall v hv
    rw [hin, hout] at he
    obtain ⟨hc, hrec⟩ := read_returned he
    obtain ⟨⟨r, hr, hf⟩, -⟩ := hinv.calls c (List.mem_of_getElem? hc)
    have hanswer : v.before.answer c run = run := by
      refine if_neg fun hrel => ?_
      have hclosed : (v.before.answer c run).read = .error errClosed := by
        rw [answer, if_pos hrel]
      obtain ⟨rec', he', -, herr', -⟩ := exists_receiveIP_error c.fn.pc c.fn.rxOffload hinv.valid
        (validateReceiveBuffers_of_success hrec herr) hclosed
      obtain rfl := Option.some.inj (hrec.symm.trans he')
      rw [herr] at herr'
      cases herr'
    rw [hanswer] at hrec
    exact hinf.delivered hp hb hinv ⟨r, List.mem_of_getElem? hr, hf⟩ hread ha hrec herr
  · intro c socket receipt hout
    obtain ⟨hinv, hinf, s', he⟩ := hall v hv
    obtain ⟨-, hpc, hrx⟩ := informed_of_returned hinv hinf he hout
    rw [← hrx]
    exact ⟨fun hs => hs.2.1, fun hrx => ⟨⟨hpc, hp⟩, hrx, hb⟩⟩

/-- A system with kernel 6.1 that answers every call. -/
def modern : Host where
  release := some [54, 46, 49, 46, 48, 0]
  answers _ := ⟨fun _ => none, fun _ => none, fun _ => none⟩
  create _ _ _ := none
  bind _ _ address := .ok address
  resolve _ := .ok 51820

theorem reports_modern : modern.Reports 6 1 where
  release := by
    rintro release ⟨⟩
    exact ⟨[54], [49], 46, [48, 0], rfl, by decide +kernel, by decide +kernel, by decide, rfl, rfl,
      by norm_num, by norm_num⟩
  control _ _ := rfl
  gro _ _ := rfl

/-- The call of the example: the IPv4 receive function, with two slots. -/
def twoSlots : ReceiveCall :=
  ⟨0, ⟨false, ⟨0, "0.0.0.0:0"⟩, true, true⟩, false, twoBuffers, [0, 0], [none, none]⟩

theorem arrives_pair : Arrives modern .linux 2 twoSlots [pair] where
  readable := ⟨by decide, .cons ⟨by decide, by decide, by decide⟩ .nil⟩
  nonempty := by decide
  uncoalesced hne := absurd (by decide +kernel) hne
  held := by decide

/-- The last step of a run, if it is the return of a call that had read: the call, the socket, and
what was delivered. -/
def lastReturn (t : List (Visit Generations Event Out)) : Option (ReceiveCall × Conn × Receipt) :=
  t.getLast?.bind fun v =>
    match v.output with
    | .returned c (some socket) (some rec) => some (c, socket, rec)
    | _ => none

theorem exists_of_lastReturn {t : List (Visit Generations Event Out)} {c : ReceiveCall}
    {socket : Conn} {rec : Receipt} (hl : lastReturn t = some (c, socket, rec)) :
    ∃ v ∈ t, t.getLast? = some v ∧ v.output = .returned c (some socket) (some rec) := by
  obtain ⟨v, hv, hl⟩ := Option.bind_eq_some_iff.mp hl
  split at hl
  case h_1 c' socket' rec' ho =>
    obtain ⟨rfl, rfl, rfl⟩ := by simpa using hl
    exact ⟨v, List.mem_of_getLast? hv, hv, ho⟩
  case h_2 => cases hl

/-- An `Open`, and a call of its first receive function for which a coalesced message arrives. -/
def receivePair : List Event :=
  [.Open 0, .check 0 0 false twoBuffers [0, 0] [none, none], .read 0 ⟨0, .ok [pair]⟩]

/-- Two slots, and one family is enough. -/
def slots2 : StdNetBindOptions := ⟨.ipv4First, true, false, 2⟩

/-- The call of the example returns. -/
theorem exists_returned_receivePair {t : List (Visit Generations Event Out)}
    (ht : trace (step .linux slots2 (some (modern.network Platform.linux.goos)))
      (start .linux slots2 (some (modern.network Platform.linux.goos))) receivePair = some t) :
    ∃ v ∈ t, ∃ rec, v.output = .returned twoSlots (some twoSlots.fn.conn) (some rec) ∧
      rec.err = none ∧ v.input = .read 0 ⟨0, .ok [pair]⟩ := by
  have he : ((trace (step .linux slots2 (some (modern.network Platform.linux.goos)))
      (start .linux slots2 (some (modern.network Platform.linux.goos))) receivePair).bind fun t =>
        (lastReturn t).map fun r => (r.1, r.2.1, r.2.2.err)) =
      some (twoSlots, twoSlots.fn.conn, none) := by
    decide +kernel
  rw [ht, Option.bind_some] at he
  obtain ⟨⟨c, socket, rec⟩, hl, he⟩ := Option.map_eq_some_iff.mp he
  obtain ⟨rfl, he⟩ := Prod.mk.inj he
  obtain ⟨rfl, herr⟩ := Prod.mk.inj he
  obtain ⟨v, hv, hlast, ho⟩ := exists_of_lastReturn hl
  have hin := congrArg List.getLast? (map_input_of_trace ht)
  rw [List.getLast?_map, hlast] at hin
  exact ⟨v, hv, rec, ho, herr, Option.some.inj hin⟩

/-- Two datagrams that the kernel coalesced are delivered as two. -/
theorem keeps_boundaries_modern :
    modern.Reports 6 1 ∧
      1 < stdNetBindBatchSize .linux (some (modern.network Platform.linux.goos)) slots2 ∧
      ∃ t, trace (step .linux slots2 (some (modern.network Platform.linux.goos)))
          (start .linux slots2 (some (modern.network Platform.linux.goos))) receivePair = some t ∧
        ∃ v ∈ t, ∃ rec, v.output = .returned twoSlots (some twoSlots.fn.conn) (some rec) ∧
          rec.err = none ∧ rec.delivered = originals .linux [pair] ∧
          modern.options .linux twoSlots.fn.conn.id false .udpGRO = 1 := by
  obtain ⟨t, ht, hall⟩ := @keeps_boundaries modern .linux 6 1 slots2 rfl reports_modern (by decide)
    receivePair
  obtain ⟨v, hv, rec, hout, herr, hin⟩ := exists_returned_receivePair ht
  obtain ⟨hdel, hsplits⟩ := hall v hv
  exact ⟨reports_modern, by decide, t, ht, v, hv, rec, hout, herr,
    hdel 0 _ _ rec [pair] hin hout herr rfl arrives_pair,
    (hsplits twoSlots _ _ hout).mp (by decide)⟩

/-- **Every socket that is read is configured**: on a Linux or Android system, in every interleaving
of `Open`, `Close` and receive calls, the socket that a receive call reads has packet information
enabled, except on Android, is restricted to IPv6 if it is an IPv6 socket, and is one on which the
kernel coalesces iff the receive function was told so when it was made. -/
theorem reads_configured_socket (hp : p.hasOffload = true) (hr : h.Reports major minor)
    (opts : StdNetBindOptions) (events : List Event) :
    ∃ t, trace (step p opts (some (h.network p.goos))) (start p opts (some (h.network p.goos)))
        events = some t ∧
      ∀ v ∈ t, ∀ c socket receipt, v.output = .returned c (some socket) receipt →
        (p.goos ≠ .android → h.options p.goos socket.id c.fn.is6 (pktinfo c.fn.is6) = 1) ∧
        (c.fn.is6 = true → h.options p.goos socket.id c.fn.is6 .ipv6V6only = 1) ∧
        (c.fn.rxOffload = true ↔ h.options p.goos socket.id c.fn.is6 .udpGRO = 1) := by
  obtain ⟨t, ht, hall⟩ := exists_trace_informed hp hr opts events
  refine ⟨t, ht, ?_⟩
  intro v hv c socket receipt hout
  obtain ⟨hinv, hinf, s', he⟩ := hall v hv
  obtain ⟨hcfg, -, hrx⟩ := informed_of_returned hinv hinf he hout
  exact ⟨hcfg.pktinfo, hcfg.v6only, hrx⟩

/-- The socket of the example. -/
theorem reads_configured_socket_modern :
    modern.Reports 6 1 ∧
      ∃ t, trace (step .linux slots2 (some (modern.network Platform.linux.goos)))
          (start .linux slots2 (some (modern.network Platform.linux.goos))) receivePair = some t ∧
        ∃ v ∈ t, ∃ c socket receipt, v.output = .returned c (some socket) receipt ∧
          modern.options .linux socket.id c.fn.is6 (pktinfo c.fn.is6) = 1 ∧
          (c.fn.rxOffload = true ↔ modern.options .linux socket.id c.fn.is6 .udpGRO = 1) := by
  obtain ⟨t, ht, hall⟩ := @reads_configured_socket modern .linux 6 1 rfl reports_modern slots2
    receivePair
  obtain ⟨v, hv, rec, hout, -, -⟩ := exists_returned_receivePair ht
  obtain ⟨hpkt, -, hrx⟩ := hall v hv twoSlots twoSlots.fn.conn rec hout
  exact ⟨reports_modern, t, ht, v, hv, twoSlots, _, _, hout, hpkt (by decide), hrx⟩

end StdNetBind.Generations

end BatchUDP
