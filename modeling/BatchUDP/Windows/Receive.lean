import BatchUDP.Windows.Send

/-!
# Receiving through a packet ring

`Open` posts all packets of the receive ring to the kernel, which fills the oldest posted one when a
datagram arrives. `afWinRingBind.Receive` dequeues a completion, gives one packet back, posts the
next one again, and only then copies the address and the payload out of the completed packet. The
kernel may deliver datagrams between any two of these steps. Each datagram is numbered, and a packet
remembers the number of the last one that filled it. The completion queue is not corrupt, for then
`DequeueCompletion` panics.

## Main definitions

* `AfWinRingBind.RxState`: the receive ring, the packets, the posted and the completed requests, and
  the point that `Open` or `Receive` has reached
* `AfWinRingBind.deliver`, `AfWinRingBind.advance`, `AfWinRingBind.rxStep`: a step of the kernel, a
  step of the program, and the machine in which they interleave
* `AfWinRingBind.Rearmed.Overruns`: the kernel has filled the completed packet again

## Main results

* `AfWinRingBind.exists_rxStep`: what a step can do
* `AfWinRingBind.rings_exclusive`: along every run no `Push` panics or returns a packet in flight
* `AfWinRingBind.copied_iff`: a call returns the datagram that completed iff the packet was not
  filled again before it was copied
-/

namespace BatchUDP

open Go Machine

namespace AfWinRingBind

/-- `receiveSpins`. -/
def receiveSpins : ℕ := 15

/-- `windows.WSAEMSGSIZE`. -/
def wsaEMSGSIZE : ℕ := 10040

/-- What the kernel delivers: the source of a datagram, its payload, and a status. -/
structure Delivery where
  src : WinRingEndpoint
  payload : List UInt8
  status : ℕ
  deriving DecidableEq, Repr

/-- A packet, and the number of the delivery that filled it last. -/
structure Filled where
  packet : RingPacket
  number : ℕ
  deriving DecidableEq, Repr

/-- `winrio.Result`: the packet of the request, the status, and the number of bytes. The number of
the delivery and the delivery itself are kept for reference. -/
structure Completion where
  slot : ℕ
  status : ℕ
  bytes : ℕ
  number : ℕ
  delivery : Delivery
  deriving DecidableEq, Repr

/-- For reference, what happened since a packet was posted again: which packet it was, how many were
posted then, and how many deliveries there were. -/
structure Rearmed where
  slot : ℕ
  posted : ℕ
  delivered : ℕ
  deriving DecidableEq, Repr

/-- The kernel has filled the completed packet again: it was the one that was posted, and all posted
packets have been filled. -/
def Rearmed.Overruns (re : Rearmed) (res : Completion) : Prop :=
  re.slot = res.slot ∧ re.posted ≤ re.delivered

instance (re : Rearmed) (res : Completion) : Decidable (re.Overruns res) :=
  inferInstanceAs (Decidable (_ ∧ _))

/-- The point that `Open`, which posts the packets, or a call of `Receive` has reached. -/
inductive RxPoint where
  | preposting (i : ℕ)
  | failed
  | idle
  | spin (tries : ℕ)
  | notify
  | wait
  | rearm (res : Completion)
  | check (res : Completion) (re : Rearmed)
  | copyAddr (res : Completion) (re : Rearmed)
  | copyData (res : Completion) (re : Rearmed) (ep : WinRingEndpoint) (epFrom : ℕ)
  deriving DecidableEq, Repr

/-- The receiving half of an `afWinRingBind`: its ring, the packets, the slots posted to the kernel,
oldest first, the completions, the number of deliveries so far, the length of the buffer of the
current call, and the point that the program has reached. -/
structure RxState where
  ring : RingBuffer
  mem : ℕ → Filled
  posted : List ℕ
  completed : List Completion
  deliveries : ℕ
  buf : ℕ
  point : RxPoint

/-- What a call of `Receive` copied: the completion, what happened since a packet was posted again,
the address and the payload, with the deliveries that they are from. -/
structure Copied where
  res : Completion
  re : Rearmed
  buf : ℕ
  ep : WinRingEndpoint
  epFrom : ℕ
  data : List UInt8
  dataFrom : ℕ
  deriving DecidableEq, Repr

/-- What a step did: its `Push`, and what the call returned if it ended. -/
structure RxOut where
  pushed : Option Pushed
  returned : Option (Except Error Copied)

/-- What the environment answers in a step of the program: whether the bind is open, the error of
the system call, whether a completion is found, and the length of the buffer of a new call. -/
structure Answer where
  isOpen : Bool
  err : Option Error
  found : Bool
  buf : ℕ
  deriving DecidableEq, Repr

/-- The requests that were submitted and not given back: that of the completion being handled, the
other completed ones, and the posted ones. -/
def RxState.inFlight (s : RxState) : List ℕ :=
  match s.point with
  | .rearm res => res.slot :: (s.completed.map Completion.slot ++ s.posted)
  | _ => s.completed.map Completion.slot ++ s.posted

/-! ## The kernel -/

/-- One more delivery since a packet was posted again. -/
def Rearmed.deliver (re : Rearmed) : Rearmed := { re with delivered := re.delivered + 1 }

/-- The point of the program, with one more delivery. -/
def RxPoint.deliver : RxPoint → RxPoint
  | .check res re => .check res re.deliver
  | .copyAddr res re => .copyAddr res re.deliver
  | .copyData res re ep epFrom => .copyData res re.deliver ep epFrom
  | pt => pt

/-- The completion of a delivery into a packet. A payload that does not fit is cut short. -/
def Delivery.complete (d : Delivery) (slot number : ℕ) : Completion where
  slot := slot
  status := if bytesPerPacket < d.payload.length then wsaEMSGSIZE else d.status
  bytes := min d.payload.length bytesPerPacket
  number := number
  delivery := d

/-- The kernel fills a packet, and completes its request. -/
def RxState.fill (s : RxState) (d : Delivery) (slot : ℕ) (posted : List ℕ) : RxState :=
  { s with
    mem := Function.update s.mem slot
      ⟨(s.mem slot).packet.fill d.src d.payload, s.deliveries + 1⟩
    posted := posted
    completed := s.completed ++ [d.complete slot (s.deliveries + 1)]
    deliveries := s.deliveries + 1
    point := s.point.deliver }

/-- The kernel delivers a datagram into the oldest posted packet, and drops it if there is none. -/
def deliver (s : RxState) (d : Delivery) : RxState :=
  match s.posted with
  | [] => s
  | slot :: posted => s.fill d slot posted

/-! ## The program -/

/-- A step that ends a call. -/
def RxState.ret (s : RxState) (r : Except Error Copied) : RxState × RxOut :=
  ({ s with point := .idle }, ⟨none, some r⟩)

/-- A step that goes on. -/
def RxState.goto (s : RxState) (pt : RxPoint) : RxState × RxOut :=
  ({ s with point := pt }, ⟨none, none⟩)

/-- `DequeueCompletion` with room for one result: on to posting the next packet, or to the given
step. -/
def RxState.dequeue (s : RxState) (found : Bool) (otherwise : RxState × RxOut) : RxState × RxOut :=
  match found, s.completed with
  | true, res :: rest => { s with completed := rest }.goto (.rearm res)
  | _, _ => otherwise

/-- A step of the program: of the loop in `Open` that posts the packets, or of `Receive`. -/
def advance (s : RxState) (a : Answer) : Option (RxState × RxOut) :=
  match s.point with
  | .preposting i => do
    let (slot, ring) ← s.ring.Push
    let out : RxOut := ⟨some ⟨s.ring, slot, s.inFlight⟩, none⟩
    match a.err with
    | some _ =>
      -- `Open` fails, and releases the ring with its requests
      some ({ s with
        ring := ring.CloseAndZero
        posted := []
        completed := []
        point := .failed }, out)
    | none =>
      some ({ s with
        ring := ring
        posted := s.posted ++ [slot]
        point := if i + 1 < packetsPerRing then .preposting (i + 1) else .idle }, out)
  | .failed => some (s.goto .failed)
  | .idle =>
    some (if a.isOpen then { s with buf := a.buf }.goto (.spin 0) else s.ret (.error errClosed))
  | .spin tries =>
    if tries < receiveSpins then
      if 0 < tries ∧ a.isOpen = false then some (s.ret (.error errClosed))
      else some (s.dequeue a.found (s.goto (.spin (tries + 1))))
    else some (s.goto .notify)
  | .notify =>
    match a.err with
    | some e => some (s.ret (.error e))
    | none => some (s.goto .wait)
  | .wait =>
    match a.err with
    | some e => some (s.ret (.error e))
    | none =>
      if a.isOpen = false then some (s.ret (.error errClosed))
      else some (s.dequeue a.found (s.ret (.error errNoProgress)))
  | .rearm res => do
    let ring := s.ring.Return 1
    let (slot, ring') ← ring.Push
    let pushed : Pushed := ⟨ring, slot, s.completed.map Completion.slot ++ s.posted⟩
    match a.err with
    -- the packet stays taken, and the completed datagram is lost
    | some e => some ({ s with ring := ring', point := .idle }, ⟨some pushed, some (.error e)⟩)
    | none =>
      some ({ s with
        ring := ring'
        posted := s.posted ++ [slot]
        point := .check res ⟨slot, s.posted.length + 1, 0⟩ }, ⟨some pushed, none⟩)
  | .check res re =>
    if res.status = wsaEMSGSIZE then
      some (if a.isOpen then s.goto (.spin 0) else s.ret (.error errClosed))
    else if res.status ≠ 0 then some (s.ret (.error (.errno (.other res.status))))
    else some (s.goto (.copyAddr res re))
  | .copyAddr res re =>
    some (s.goto (.copyData res re (s.mem res.slot).packet.addr (s.mem res.slot).number))
  | .copyData res re ep epFrom =>
    some (s.ret (.ok ⟨res, re, s.buf, ep, epFrom,
      ((s.mem res.slot).packet.data.take res.bytes).take s.buf, (s.mem res.slot).number⟩))

/-- What happens next: a delivery, or a step of the program. -/
inductive RxEvent where
  | deliver (d : Delivery)
  | advance (a : Answer)
  deriving DecidableEq, Repr

/-- The machine in which the kernel and the program interleave. -/
def rxStep (s : RxState) : RxEvent → Option (RxState × RxOut)
  | .deliver d => some (deliver s d, ⟨none, none⟩)
  | .advance a => advance s a

/-- The state in front of the loop that posts the packets. -/
def RxState.opening (packets id iocp cq : ℕ) (mem : ℕ → Filled) : RxState :=
  ⟨.opened packets id iocp cq, mem, [], [], 0, 0, .preposting 0⟩

/-! ## What a step keeps -/

/-- The packet still has the datagram of a completion. -/
structure Completion.Intact (mem : ℕ → Filled) (c : Completion) : Prop where
  number : (mem c.slot).number = c.number
  addr : (mem c.slot).packet.addr = c.delivery.src
  data : c.status = 0 → (mem c.slot).packet.data.take c.bytes = c.delivery.payload

/-- A call copies from a packet: unless the kernel has filled it again, it is as it was. The packet
posted again is the last one posted, and the completed one is not posted besides. -/
structure Copying (mem : ℕ → Filled) (posted : List ℕ) (deliveries : ℕ) (res : Completion)
    (re : Rearmed) : Prop where
  number_le : res.number ≤ deliveries
  posted_eq : (∃ front, posted = front ++ [re.slot] ∧ res.slot ∉ front ∧
      front.length + re.delivered + 1 = re.posted) ∨ posted = [] ∧ re.delivered = re.posted
  intact : ¬ re.Overruns res → res.Intact mem
  overrun : re.Overruns res → res.number < (mem res.slot).number

/-- What holds at a point of the program. -/
def RxState.AtPoint (s : RxState) : RxPoint → Prop
  | .preposting i => i < packetsPerRing ∧ s.ring.used = i
  | .rearm res => res.number ≤ s.deliveries ∧ res.Intact s.mem
  | .check res re => Copying s.mem s.posted s.deliveries res re
  | .copyAddr res re => Copying s.mem s.posted s.deliveries res re ∧ res.status = 0
  | .copyData res re ep epFrom => Copying s.mem s.posted s.deliveries res re ∧ res.status = 0 ∧
    (¬ re.Overruns res → epFrom = res.number ∧ ep = res.delivery.src)
  | _ => True

/-- The ring tracks the requests in flight, and each completed one still has its datagram. -/
structure RxState.Valid (s : RxState) : Prop where
  tracks : s.ring.Tracks s.inFlight
  completed : ∀ c ∈ s.completed, c.number ≤ s.deliveries ∧ c.Intact s.mem
  atPoint : s.AtPoint s.point

theorem valid_opening (packets id iocp cq : ℕ) (mem : ℕ → Filled) :
    (RxState.opening packets id iocp cq mem).Valid where
  tracks := RingBuffer.tracks_opened packets id iocp cq
  completed := by simp [RxState.opening]
  atPoint := ⟨by decide, RingBuffer.used_opened packets id iocp cq⟩

section Deliver

theorem Completion.Intact.update {mem : ℕ → Filled} {c : Completion} (h : c.Intact mem) {slot : ℕ}
    (hne : c.slot ≠ slot) (f : Filled) : c.Intact (Function.update mem slot f) := by
  constructor
  · rw [Function.update_of_ne hne, h.number]
  · rw [Function.update_of_ne hne, h.addr]
  · rw [Function.update_of_ne hne]
    exact h.data

/-- A delivery puts its datagram into the packet. -/
theorem intact_complete (mem : ℕ → Filled) (d : Delivery) (slot number : ℕ) :
    (d.complete slot number).Intact
      (Function.update mem slot ⟨(mem slot).packet.fill d.src d.payload, number⟩) where
  number := by simp [Delivery.complete]
  addr := by simp [Delivery.complete, RingPacket.fill]
  data := by
    intro h0
    have hfit : d.payload.length ≤ bytesPerPacket := by
      by_contra hlt
      simp only [Delivery.complete, if_pos (not_le.mp hlt)] at h0
      exact absurd h0 (by decide)
    simp [Delivery.complete, RingPacket.fill, List.take_of_length_le hfit, min_eq_left hfit]

variable {s : RxState}

/-- A delivery while a call copies: into the packet that was posted again, or into another one. -/
theorem Copying.fill {res : Completion} {re : Rearmed} {slot : ℕ} {posted : List ℕ}
    (h : Copying s.mem s.posted s.deliveries res re) (hp : s.posted = slot :: posted)
    (d : Delivery) :
    Copying (s.fill d slot posted).mem posted (s.deliveries + 1) res re.deliver := by
  have hle : res.number ≤ s.deliveries + 1 := h.number_le.trans (Nat.le_succ _)
  rcases h.posted_eq with ⟨front, hf, hnot, hlen⟩ | ⟨hnil, -⟩
  swap
  · rw [hp] at hnil
    exact absurd hnil (by simp)
  have hnow : ¬ re.Overruns res := fun ho => by
    have := ho.2
    omega
  have hin := h.intact hnow
  rw [hp] at hf
  rcases front with - | ⟨f, front⟩
  · obtain ⟨rfl, rfl⟩ := List.cons.inj hf
    have hlast : re.delivered + 1 = re.posted := by simpa using hlen
    by_cases hslot : re.slot = res.slot
    · refine ⟨hle, .inr ⟨rfl, hlast⟩, fun hno => absurd ⟨hslot, hlast.ge⟩ hno, fun _ => ?_⟩
      show res.number < (Function.update s.mem re.slot _ res.slot).number
      rw [hslot, Function.update_self]
      exact Nat.lt_succ_of_le h.number_le
    · exact ⟨hle, .inr ⟨rfl, hlast⟩, fun _ => hin.update (Ne.symm hslot) _,
        fun ho => absurd ho.1 hslot⟩
  · obtain ⟨rfl, rfl⟩ := List.cons.inj hf
    rw [List.mem_cons, not_or] at hnot
    have hlen' : front.length + (re.delivered + 1) + 1 = re.posted := by
      rw [List.length_cons] at hlen
      omega
    refine ⟨hle, .inl ⟨front, rfl, hnot.2, hlen'⟩, fun _ => hin.update hnot.1 _, fun ho => ?_⟩
    have : re.posted ≤ re.delivered + 1 := ho.2
    omega

theorem Rearmed.Overruns.deliver {re : Rearmed} {res : Completion} (h : re.Overruns res) :
    re.deliver.Overruns res :=
  ⟨h.1, h.2.trans (Nat.le_succ _)⟩

theorem inFlight_fill {slot : ℕ} {posted : List ℕ} (hp : s.posted = slot :: posted)
    (d : Delivery) : (s.fill d slot posted).inFlight = s.inFlight := by
  rcases hpt : s.point <;>
    simp [RxState.inFlight, RxState.fill, RxPoint.deliver, Delivery.complete, hpt, hp]

theorem RxState.Valid.nodup (h : s.Valid) :
    (s.completed.map Completion.slot ++ s.posted).Nodup := by
  have hnodup := h.tracks.nodup
  unfold RxState.inFlight at hnodup
  split at hnodup
  · exact hnodup.of_cons
  · exact hnodup

/-- The packet of a completed request is not posted. -/
theorem RxState.Valid.ne_of_mem_posted (h : s.Valid) {c : Completion} (hc : c ∈ s.completed)
    {slot : ℕ} (hp : slot ∈ s.posted) : c.slot ≠ slot :=
  (List.nodup_append.mp h.nodup).2.2 _ (List.mem_map_of_mem hc) _ hp

/-- **A delivery** fills a packet whose request is in flight, and leaves the others alone. -/
theorem RxState.Valid.deliver (h : s.Valid) (d : Delivery) :
    (AfWinRingBind.deliver s d).Valid := by
  unfold AfWinRingBind.deliver
  rcases hp : s.posted with - | ⟨slot, posted⟩
  · exact h
  have hslot : slot ∈ s.posted := hp ▸ List.mem_cons_self
  refine ⟨by rw [inFlight_fill hp]; exact h.tracks, ?_, ?_⟩
  · intro c hc
    rcases List.mem_append.mp hc with hc | hc
    · obtain ⟨hle, hin⟩ := h.completed c hc
      exact ⟨hle.trans (Nat.le_succ _), hin.update (h.ne_of_mem_posted hc hslot) _⟩
    · rw [List.mem_singleton.mp hc]
      exact ⟨le_rfl, intact_complete _ _ _ _⟩
  · have hat := h.atPoint
    have htr := h.tracks
    show RxState.AtPoint _ s.point.deliver
    rcases hpt : s.point with i | - | - | tries | - | - | res | ⟨res, re⟩ | ⟨res, re⟩ |
      ⟨res, re, ep, epFrom⟩ <;> rw [hpt] at hat
    case rearm =>
      obtain ⟨hle, hin⟩ := hat
      have hne : res.slot ≠ slot := by
        have := htr.nodup
        simp only [RxState.inFlight, hpt, List.nodup_cons, List.mem_append, not_or] at this
        exact fun he => this.1.2 (he ▸ hslot)
      exact ⟨hle.trans (Nat.le_succ _), hin.update hne _⟩
    case check => exact hat.fill hp d
    case copyAddr => exact ⟨hat.1.fill hp d, hat.2⟩
    case copyData =>
      exact ⟨hat.1.fill hp d, hat.2.1, fun hno => hat.2.2 fun ho => hno ho.deliver⟩
    all_goals exact hat

end Deliver

section Advance

variable {s : RxState}

/-- What a call copied: both parts are from the delivery that completed iff the packet was not
filled again, and are that datagram then; and the packet is posted iff it is the one that was posted
again and has not been filled since. -/
structure Copied.Exact (g : Copied) (posted : List ℕ) : Prop where
  from_iff : g.epFrom = g.res.number ∧ g.dataFrom = g.res.number ↔ ¬ g.re.Overruns g.res
  eq : ¬ g.re.Overruns g.res →
    g.ep = g.res.delivery.src ∧ g.data = g.res.delivery.payload.take g.buf
  mem_posted_iff : g.res.slot ∈ posted ↔ g.re.slot = g.res.slot ∧ g.re.delivered < g.re.posted

/-- What a step establishes about its `Push` and about what a call copied. -/
structure RxEffect (posted : List ℕ) (o : RxOut) : Prop where
  pushed : ∀ pu, o.pushed = some pu → pu.slot ∉ pu.inFlight ∧ pu.ring.Bounded
  copied : ∀ g, o.returned = some (.ok g) → g.Exact posted

theorem rxEffect_none (posted : List ℕ) : RxEffect posted ⟨none, none⟩ := ⟨by simp, by simp⟩

theorem rxEffect_error (posted : List ℕ) (e : Error) : RxEffect posted ⟨none, some (.error e)⟩ :=
  ⟨by simp, by simp⟩

theorem rxEffect_pushed (posted : List ℕ) {ring : RingBuffer} {slot : ℕ} {inFlight : List ℕ}
    (hnot : slot ∉ inFlight) (hb : ring.Bounded) {r : Option (Except Error Copied)}
    (hr : ∀ g, r ≠ some (.ok g)) : RxEffect posted ⟨some ⟨ring, slot, inFlight⟩, r⟩ := by
  refine ⟨?_, fun g hg => absurd hg (hr g)⟩
  rintro pu' ⟨⟩
  exact ⟨hnot, hb⟩

theorem Copying.mem_posted_iff {mem : ℕ → Filled} {posted : List ℕ} {deliveries : ℕ}
    {res : Completion} {re : Rearmed} (h : Copying mem posted deliveries res re) :
    res.slot ∈ posted ↔ re.slot = res.slot ∧ re.delivered < re.posted := by
  rcases h.posted_eq with ⟨front, rfl, hnot, hlen⟩ | ⟨rfl, hlen⟩
  · rw [List.mem_append, or_iff_right hnot, List.mem_singleton]
    exact ⟨fun he => ⟨he.symm, by omega⟩, fun he => he.1.symm⟩
  · exact iff_of_false (by simp) fun he => absurd he.2 (by omega)

/-- A step succeeds and keeps the state valid. -/
def Steps (s : RxState) (x : Option (RxState × RxOut)) : Prop :=
  ∃ s' o, x = some (s', o) ∧ s'.Valid ∧ RxEffect s.posted o

theorem inFlight_eq {pt : RxPoint} (hpt : s.point = pt) (hne : ∀ res, pt ≠ .rearm res) :
    s.inFlight = s.completed.map Completion.slot ++ s.posted := by
  unfold RxState.inFlight
  split
  · next res he => exact absurd (hpt.symm.trans he) (hne res)
  · rfl

/-- Moving on, with the same requests in flight. -/
theorem steps_goto (h : s.Valid) (hin : s.inFlight = s.completed.map Completion.slot ++ s.posted)
    {pt : RxPoint} (hne : ∀ res, pt ≠ .rearm res) (hat : s.AtPoint pt) :
    Steps s (some (s.goto pt)) := by
  refine ⟨_, _, rfl, ⟨?_, h.completed, by cases pt <;> exact hat⟩, rxEffect_none _⟩
  rw [inFlight_eq rfl hne, ← hin]
  exact h.tracks

/-- A call that ends with an error. -/
theorem steps_ret (h : s.Valid) (hin : s.inFlight = s.completed.map Completion.slot ++ s.posted)
    (e : Error) : Steps s (some (s.ret (.error e))) := by
  refine ⟨_, _, rfl, ⟨?_, h.completed, trivial⟩, rxEffect_error _ e⟩
  rw [inFlight_eq rfl (by simp), ← hin]
  exact h.tracks

/-- A completion that is dequeued stays in flight until a packet is given back. -/
theorem steps_dequeue (h : s.Valid) (hin : s.inFlight = s.completed.map Completion.slot ++ s.posted)
    (found : Bool) {otherwise : RxState × RxOut} (ho : Steps s (some otherwise)) :
    Steps s (some (s.dequeue found otherwise)) := by
  unfold RxState.dequeue
  split
  · next res rest hc =>
    have hcs := h.completed
    rw [hc] at hcs
    have htr := h.tracks
    rw [hin, hc] at htr
    exact ⟨_, _, rfl, ⟨htr, fun c hm => hcs c (List.mem_cons_of_mem _ hm),
      hcs res List.mem_cons_self⟩, rxEffect_none _⟩
  · exact ho

/-- **Posting a packet in `Open`.** -/
theorem steps_preposting (h : s.Valid) {i : ℕ} (hpt : s.point = .preposting i) (a : Answer) :
    Steps s (advance s a) := by
  have hin := inFlight_eq hpt (by simp)
  obtain ⟨hi, hused⟩ : s.AtPoint (.preposting i) := hpt ▸ h.atPoint
  have hnf : s.ring.isFull = false := by
    rw [← Bool.not_eq_true, h.tracks.isFull_iff, hused]
    omega
  obtain ⟨slot, ring, hpush, hnot, hused', htr, -⟩ := h.tracks.exists_Push hnf
  have heff : RxEffect s.posted ⟨some ⟨s.ring, slot, s.inFlight⟩, none⟩ :=
    rxEffect_pushed _ hnot h.tracks.bounded (by simp)
  simp only [advance, hpt, hpush, Option.bind_eq_bind, Option.bind_some]
  rcases a.err with - | e
  · refine ⟨_, _, rfl, ⟨?_, h.completed, ?_⟩, heff⟩
    · rw [hin, List.append_assoc] at htr
      split_ifs <;> exact htr
    · split_ifs with hlast
      · exact ⟨hlast, by rw [← hused]; exact hused'⟩
      · trivial
  · exact ⟨_, _, rfl, ⟨RingBuffer.tracks_closeAndZero ring, by simp, trivial⟩, heff⟩

/-- **Giving a packet back and posting the next one.** The completed packet is not posted
besides. -/
theorem steps_rearm (h : s.Valid) {res : Completion} (hpt : s.point = .rearm res) (a : Answer) :
    Steps s (advance s a) := by
  obtain ⟨hle, hint⟩ : s.AtPoint (.rearm res) := hpt ▸ h.atPoint
  have hin : s.inFlight = res.slot :: (s.completed.map Completion.slot ++ s.posted) := by
    simp [RxState.inFlight, hpt]
  have htr := h.tracks
  rw [hin] at htr
  have hone : UInt32.ofNat 1 = 1 := rfl
  obtain ⟨hret, hnf, -⟩ := htr.Return Nat.one_pos (by simp)
  rw [List.drop_one, List.tail_cons, hone] at hret
  rw [hone] at hnf
  obtain ⟨slot, ring, hpush, hnot, -, hyes, hno⟩ := hret.exists_Push hnf
  simp only [advance, hpt, hpush, Option.bind_eq_bind, Option.bind_some]
  rcases a.err with - | e
  · refine ⟨_, _, rfl, ⟨by rwa [List.append_assoc] at hyes, h.completed, ?_⟩,
      rxEffect_pushed _ hnot hret.bounded (by simp)⟩
    -- the completed packet has left the requests in flight, and was among them once
    have hres : res.slot ∉ s.posted := fun hm =>
      (List.nodup_cons.mp htr.nodup).1 (List.mem_append_right _ hm)
    have hnow : ¬ (Rearmed.mk slot (s.posted.length + 1) 0).Overruns res :=
      fun ho => absurd ho.2 (by simp)
    exact ⟨hle, .inl ⟨s.posted, rfl, hres, rfl⟩, fun _ => hint, fun ho => absurd ho hnow⟩
  · exact ⟨_, _, rfl, ⟨hno, h.completed, trivial⟩, rxEffect_pushed _ hnot hret.bounded (by simp)⟩

/-- **Copying the payload**, which ends a call. -/
theorem steps_copyData (h : s.Valid) {res : Completion} {re : Rearmed} {ep : WinRingEndpoint}
    {epFrom : ℕ} (hpt : s.point = .copyData res re ep epFrom) (a : Answer) :
    Steps s (advance s a) := by
  have hin := inFlight_eq hpt (by simp)
  obtain ⟨hcopy, hstatus, hep⟩ : s.AtPoint (.copyData res re ep epFrom) := hpt ▸ h.atPoint
  simp only [advance, hpt]
  refine ⟨_, _, rfl, ⟨?_, h.completed, trivial⟩, by simp, ?_⟩
  · rw [inFlight_eq rfl (by simp), ← hin]
    exact h.tracks
  · rintro g ⟨⟩
    refine ⟨⟨?_, fun hno => ⟨(hep hno).1, (hcopy.intact hno).number⟩⟩, fun hno => ?_,
      hcopy.mem_posted_iff⟩
    · rintro ⟨-, hdata⟩ ho
      exact absurd hdata (hcopy.overrun ho).ne'
    · exact ⟨(hep hno).2, by rw [(hcopy.intact hno).data hstatus]⟩

/-- **A step of the program** never panics. -/
theorem steps_advance (h : s.Valid) (a : Answer) : Steps s (advance s a) := by
  have hat := h.atPoint
  rcases hpt : s.point with i | - | - | tries | - | - | res | ⟨res, re⟩ | ⟨res, re⟩ |
    ⟨res, re, ep, epFrom⟩ <;> rw [hpt] at hat
  case preposting => exact steps_preposting h hpt a
  case rearm => exact steps_rearm h hpt a
  case copyData => exact steps_copyData h hpt a
  all_goals
    have hin := inFlight_eq hpt (by simp)
    simp only [advance, hpt]
  case failed => exact steps_goto h hin (by simp) trivial
  case idle =>
    split_ifs
    · refine ⟨_, _, rfl, ⟨?_, h.completed, trivial⟩, rxEffect_none _⟩
      rw [inFlight_eq rfl (by simp)]
      exact hin ▸ h.tracks
    · exact steps_ret h hin _
  case spin =>
    split_ifs
    · exact steps_ret h hin _
    · exact steps_dequeue h hin _ (steps_goto h hin (by simp) trivial)
    · exact steps_goto h hin (by simp) trivial
  case notify =>
    rcases a.err with - | e
    · exact steps_goto h hin (by simp) trivial
    · exact steps_ret h hin _
  case wait =>
    rcases a.err with - | e
    · dsimp only
      split_ifs
      · exact steps_ret h hin _
      · exact steps_dequeue h hin _ (steps_ret h hin _)
    · exact steps_ret h hin _
  case check =>
    split_ifs with hsize hopen hstatus
    · exact steps_goto h hin (by simp) trivial
    · exact steps_ret h hin _
    · exact steps_ret h hin _
    · exact steps_goto h hin (by simp) ⟨hat, not_not.mp hstatus⟩
  case copyAddr =>
    refine steps_goto h hin (by simp) ⟨hat.1, hat.2, fun hno => ?_⟩
    exact ⟨(hat.1.intact hno).number, (hat.1.intact hno).addr⟩

/-- **What a step can do.** -/
theorem exists_rxStep (h : s.Valid) (e : RxEvent) : Steps s (rxStep s e) := by
  cases e with
  | deliver d => exact ⟨_, _, rfl, h.deliver d, rxEffect_none _⟩
  | advance a => exact steps_advance h a

end Advance

/-! ## Runs -/

/-- Every run exists, and every step of it does what `RxEffect` says. -/
theorem exists_receives (packets id iocp cq : ℕ) (mem : ℕ → Filled) (events : List RxEvent) :
    ∃ t, trace rxStep (.opening packets id iocp cq mem) events = some t ∧
      ∀ v ∈ t, v.before.Valid ∧ RxEffect v.before.posted v.output := by
  refine exists_trace_of_forall RxState.Valid ?_ (valid_opening packets id iocp cq mem) events
  intro s e hs
  obtain ⟨s', o, he, hs', ho⟩ := exists_rxStep hs e
  exact ⟨s', o, he, hs', hs, ho⟩

/-- **Slots are exclusive**: along every run of `Send`, and along every run of posting the packets
and `Receive`, no `Push` panics, the counters of the ring are bounded and its flag is right, and
`Push` returns no packet of a request that was submitted and not dequeued. -/
theorem rings_exclusive (packets id iocp cq : ℕ) :
    (∀ (mem : ℕ → RingPacket) (calls : List TxCall),
      ∃ t, trace txStep (.opened packets id iocp cq mem) calls = some t ∧
        ∀ v ∈ t, v.before.ring.Bounded ∧ v.output.state.ring.Bounded ∧
          ∀ pu, v.output.pushed = some pu → pu.ring.Bounded ∧ pu.slot ∉ pu.inFlight) ∧
    ∀ (mem : ℕ → Filled) (events : List RxEvent),
      ∃ t, trace rxStep (.opening packets id iocp cq mem) events = some t ∧
        ∀ v ∈ t, v.before.ring.Bounded ∧
          ∀ pu, v.output.pushed = some pu → pu.ring.Bounded ∧ pu.slot ∉ pu.inFlight := by
  constructor
  · intro mem calls
    obtain ⟨t, ht, hall⟩ := exists_sends packets id iocp cq mem calls
    refine ⟨t, ht, fun v hv => ?_⟩
    obtain ⟨hval, heff⟩ := hall v hv
    exact ⟨hval.tracks.bounded, heff.valid.tracks.bounded, fun pu hpu => (heff.pushed pu hpu).symm⟩
  · intro mem events
    obtain ⟨t, ht, hall⟩ := exists_receives packets id iocp cq mem events
    refine ⟨t, ht, fun v hv => ?_⟩
    obtain ⟨hval, heff⟩ := hall v hv
    exact ⟨hval.tracks.bounded, fun pu hpu => (heff.pushed pu hpu).symm⟩

/-- **A call returns the datagram that completed iff the packet was not filled again** before it was
copied. The packet is posted while it is copied, unless another one was posted in its place or it
has been filled again. -/
theorem copied_iff (packets id iocp cq : ℕ) (mem : ℕ → Filled) (events : List RxEvent) :
    ∃ t, trace rxStep (.opening packets id iocp cq mem) events = some t ∧
      ∀ v ∈ t, ∀ g, v.output.returned = some (.ok g) →
        (g.epFrom = g.res.number ∧ g.dataFrom = g.res.number ↔
          ¬ (g.re.slot = g.res.slot ∧ g.re.posted ≤ g.re.delivered)) ∧
        (¬ (g.re.slot = g.res.slot ∧ g.re.posted ≤ g.re.delivered) →
          g.ep = g.res.delivery.src ∧ g.data = g.res.delivery.payload.take g.buf) ∧
        (g.res.slot ∈ v.before.posted ↔
          g.re.slot = g.res.slot ∧ g.re.delivered < g.re.posted) := by
  obtain ⟨t, ht, hall⟩ := exists_receives packets id iocp cq mem events
  refine ⟨t, ht, fun v hv g hg => ?_⟩
  have hx := (hall v hv).2.copied g hg
  exact ⟨hx.from_iff, hx.eq, hx.mem_posted_iff⟩

/-- Packets that were never filled. -/
def freshPackets : ℕ → Filled :=
  fun _ => ⟨⟨⟨0, .replicate 30 0⟩, List.replicate bytesPerPacket 0⟩, 0⟩

/-- A step in which all is well and a completion is found if there is one. -/
def goAhead : RxEvent := .advance ⟨true, none, true, 1500⟩

/-- Post all packets, deliver the payload `[1, 1]`, go on to the copying, and copy when other things
have happened. -/
def receiveRun (meanwhile : List RxEvent) : List RxEvent :=
  List.replicate 256 goAhead ++ .deliver ⟨⟨2, .replicate 30 1⟩, [1, 1], 0⟩ ::
    List.replicate 4 goAhead ++ meanwhile ++ [goAhead, goAhead]

/-- What the last step of a run copied, with the packets posted in front of it. -/
def lastCopied (events : List RxEvent) : Option (Copied × List ℕ) := do
  let v ← (trace rxStep (.opening 1 1 1 1 freshPackets) events).bind List.getLast?
  match v.output.returned with
  | some (.ok g) => some (g, v.before.posted)
  | _ => none

theorem exists_of_lastCopied {events : List RxEvent} {g : Copied} {posted : List ℕ}
    (h : lastCopied events = some (g, posted)) {t : List (Visit RxState RxEvent RxOut)}
    (ht : trace rxStep (.opening 1 1 1 1 freshPackets) events = some t) :
    ∃ v ∈ t, v.output.returned = some (.ok g) := by
  simp only [lastCopied, ht, Option.bind_eq_bind, Option.bind_some, Option.bind_eq_some_iff] at h
  obtain ⟨v, hv, h⟩ := h
  refine ⟨v, List.mem_of_getLast? hv, ?_⟩
  split at h
  · next g' hg =>
    obtain ⟨rfl, -⟩ := Prod.mk.inj (Option.some.inj h)
    exact hg
  · exact absurd h (by simp)

/-- A call that copies undisturbed returns the datagram. -/
theorem copied_iff_undisturbed :
    ∃ t, trace rxStep (.opening 1 1 1 1 freshPackets) (receiveRun []) = some t ∧
      ∃ v ∈ t, ∃ g, v.output.returned = some (.ok g) ∧ g.ep = g.res.delivery.src ∧
        g.data = g.res.delivery.payload.take g.buf := by
  obtain ⟨t, ht, hall⟩ := copied_iff 1 1 1 1 freshPackets (receiveRun [])
  have hlast : (lastCopied (receiveRun [])).any
      (fun x => decide (x.1.re.delivered < x.1.re.posted)) = true := by
    decide +kernel
  obtain ⟨⟨g, posted⟩, hg, hlt⟩ := (Option.any_eq_true _ _).mp hlast
  obtain ⟨v, hv, hret⟩ := exists_of_lastCopied hg ht
  refine ⟨t, ht, v, hv, g, hret, (hall v hv g hret).2.1 fun ho => ?_⟩
  exact absurd ho.2 (not_le.mpr (of_decide_eq_true hlt))

/-- The packet is posted while it is copied; and with 256 deliveries before that, a call returns the
source of the last one, and a payload that is partly from it. -/
theorem not_copied_of_refilled :
    (lastCopied (receiveRun [])).map (fun x => decide (x.1.res.slot ∈ x.2)) = some true ∧
    (lastCopied (receiveRun
        (List.replicate 256 (.deliver ⟨⟨2, .replicate 30 2⟩, [2], 0⟩)))).map
      (fun x => ((x.1.ep, x.1.data), (x.1.res.delivery.src, x.1.res.delivery.payload))) =
        some ((⟨2, .replicate 30 2⟩, [2, 1]), (⟨2, .replicate 30 1⟩, [1, 1])) := by
  constructor
  · decide +kernel
  · decide +kernel

end AfWinRingBind

end BatchUDP
