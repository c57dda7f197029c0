import BatchUDP.Machine.Trace
import BatchUDP.Windows.Ring

/-!
# Sending through a packet ring

`afWinRingBind.Send` first gives back the packets of completed requests, waiting for one if the ring
is full, then takes the next packet, fills it and submits it. The packet is taken before the
submission, which may fail. The run chooses how many completions each dequeue finds; requests
complete in the order in which they were submitted. The completion queue is not corrupt, for then
`DequeueCompletion` panics.

## Main definitions

* `AfWinRingBind.TxState`: the transmit ring, the packets, and the requests in flight
* `AfWinRingBind.Send`: a call, with `TxCall` and `TxSent`
* `AfWinRingBind.TxState.Valid`: the ring tracks the requests in flight, and each of them still has
  its datagram in its packet

## Main results

* `AfWinRingBind.exists_Send`: what a call can do
* `AfWinRingBind.used_eq_inFlight_iff`: the ring counts exactly the requests in flight, and a call
  waits only for one of them, iff no submission fails
-/

namespace BatchUDP

open Go Machine

/-- `WinRingEndpoint`. -/
structure WinRingEndpoint where
  family : UInt16
  data : Vector UInt8 30
  deriving DecidableEq, Repr

/-- `ringPacket`: an address, and `bytesPerPacket` bytes of data. -/
structure RingPacket where
  addr : WinRingEndpoint
  data : List UInt8
  deriving DecidableEq, Repr

/-- The packet with an address and data copied into it. -/
def RingPacket.fill (packet : RingPacket) (addr : WinRingEndpoint) (buf : List UInt8) :
    RingPacket :=
  ⟨addr, buf.take bytesPerPacket ++ packet.data.drop buf.length⟩

namespace AfWinRingBind

/-- A request that `SendEx` accepted: its packet, and what it was given. -/
structure Request where
  slot : ℕ
  nend : WinRingEndpoint
  buf : List UInt8
  deriving DecidableEq, Repr

/-- The sending half of an `afWinRingBind`: its ring, the packets, and the requests that were
accepted and not yet dequeued, oldest first. -/
structure TxState where
  ring : RingBuffer
  mem : ℕ → RingPacket
  inFlight : List Request

/-- A call of `Send`: its arguments, and what the run chooses for it. The bind may be closed when it
is checked first and when it is checked after waiting, each dequeue finds some completions, and
`Notify`, waiting and `SendEx` may fail. -/
structure TxCall where
  buf : List UInt8
  nend : WinRingEndpoint
  isOpen : Bool
  completed : ℕ
  notifyErr : Option Error
  waitErr : Option Error
  stillOpen : Bool
  completedLater : ℕ
  sendErr : Option Error
  deriving DecidableEq, Repr

/-- A `Push`: the ring in front of it, the packet it returned, and the packets in flight. -/
structure Pushed where
  ring : RingBuffer
  slot : ℕ
  inFlight : List ℕ
  deriving DecidableEq, Repr

/-- What a call of `Send` did: its result, whether it waited for a completion, its `Push`, what
`SendEx` answered if it came to that, and the state afterwards. -/
structure TxSent where
  err : Option Error
  waited : Bool
  pushed : Option Pushed
  sendEx : Option (Except Error Unit)
  state : TxState

/-- `SendEx` was called and failed. -/
def TxSent.failed (r : TxSent) : Bool :=
  match r.sendEx with
  | some (.error _) => true
  | _ => false

/-- `DequeueCompletion`, when `k` requests have completed: how many it dequeues, and the requests
left. -/
def dequeueCompletion (k : ℕ) (inFlight : List Request) : ℕ × List Request :=
  let count := min (min k packetsPerRing) inFlight.length
  (count, inFlight.drop count)

/-- The part of `Send` behind the dequeuing. -/
def submit (s : TxState) (c : TxCall) (waited : Bool) (count : ℕ) (inFlight : List Request) :
    Option TxSent := do
  let ring := if 0 < count then s.ring.Return (UInt32.ofNat count) else s.ring
  let (slot, ring') ← ring.Push
  let mem := Function.update s.mem slot ((s.mem slot).fill c.nend c.buf)
  let pushed := some ⟨ring, slot, inFlight.map Request.slot⟩
  match c.sendErr with
  -- the packet stays taken
  | some e => some ⟨some e, waited, pushed, some (.error e), ⟨ring', mem, inFlight⟩⟩
  | none => some ⟨none, waited, pushed, some (.ok ()),
    ⟨ring', mem, inFlight ++ [⟨slot, c.nend, c.buf⟩]⟩⟩

/-- `Send`. -/
def Send (s : TxState) (c : TxCall) : Option TxSent :=
  if c.isOpen = false then some ⟨some errClosed, false, none, none, s⟩
  else if bytesPerPacket < c.buf.length then some ⟨some errShortBuffer, false, none, none, s⟩
  else
    let (count, inFlight) := dequeueCompletion c.completed s.inFlight
    if count = 0 ∧ s.ring.isFull = true then
      match c.notifyErr with
      | some e => some ⟨some e, false, none, none, s⟩
      | none =>
        match c.waitErr with
        | some e => some ⟨some e, true, none, none, s⟩
        | none =>
          if c.stillOpen = false then some ⟨some errClosed, true, none, none, s⟩
          else
            let (count, inFlight) := dequeueCompletion c.completedLater inFlight
            if count = 0 then some ⟨some errNoProgress, true, none, none, s⟩
            else submit s c true count inFlight
    else submit s c false count inFlight

/-! ## What a call keeps -/

/-- The packet still has the datagram of a request. -/
structure Request.Intact (mem : ℕ → RingPacket) (r : Request) : Prop where
  addr : (mem r.slot).addr = r.nend
  data : (mem r.slot).data.take r.buf.length = r.buf

/-- The ring tracks the requests in flight, and each of them still has its datagram. -/
structure TxState.Valid (s : TxState) : Prop where
  tracks : s.ring.Tracks (s.inFlight.map Request.slot)
  intact : ∀ r ∈ s.inFlight, r.Intact s.mem

/-- The packets that the ring counts as used for no request in flight. -/
def TxState.leaked (s : TxState) : ℕ := s.ring.used - s.inFlight.length

/-- The state behind the opening of a ring. -/
def TxState.opened (packets id iocp cq : ℕ) (mem : ℕ → RingPacket) : TxState :=
  ⟨.opened packets id iocp cq, mem, []⟩

theorem valid_opened (packets id iocp cq : ℕ) (mem : ℕ → RingPacket) :
    (TxState.opened packets id iocp cq mem).Valid :=
  ⟨RingBuffer.tracks_opened packets id iocp cq, by simp [TxState.opened]⟩

theorem leaked_opened (packets id iocp cq : ℕ) (mem : ℕ → RingPacket) :
    (TxState.opened packets id iocp cq mem).leaked = 0 := by
  rw [TxState.leaked, TxState.opened, RingBuffer.used_opened, Nat.zero_sub]

section Step

variable {s : TxState}

theorem TxState.Valid.length_le (h : s.Valid) : s.inFlight.length ≤ s.ring.used := by
  simpa using h.tracks.length_le

theorem exists_dequeueCompletion (k : ℕ) (inFlight : List Request) :
    ∃ count, dequeueCompletion k inFlight = (count, inFlight.drop count) ∧
      count ≤ inFlight.length :=
  ⟨_, rfl, min_le_right _ _⟩

/-- What a call establishes: a `Push` returned no packet in flight, a packet leaks iff the
submission failed, and a call waits only on a full ring. -/
structure Effect (s : TxState) (r : TxSent) : Prop where
  valid : r.state.Valid
  pushed : ∀ pu, r.pushed = some pu → pu.slot ∉ pu.inFlight ∧ pu.ring.Bounded
  leaked : r.state.leaked = s.leaked + if r.failed then 1 else 0
  waited : r.waited = true → s.ring.isFull = true

/-- A call that stops before it takes a packet changes nothing. -/
theorem effect_stop (h : s.Valid) (e : Error) {waited : Bool}
    (hw : waited = true → s.ring.isFull = true) : Effect s ⟨some e, waited, none, none, s⟩ :=
  ⟨h, by simp, by simp [TxSent.failed], hw⟩

theorem intact_fill {mem : ℕ → RingPacket} {c : TxCall} {slot : ℕ}
    (hc : c.buf.length ≤ bytesPerPacket) :
    (Request.mk slot c.nend c.buf).Intact
      (Function.update mem slot ((mem slot).fill c.nend c.buf)) := by
  constructor
  · simp [RingPacket.fill]
  · simp [RingPacket.fill, List.take_of_length_le hc]

theorem Request.Intact.update {mem : ℕ → RingPacket} {r : Request} (h : r.Intact mem) {slot : ℕ}
    (hne : r.slot ≠ slot) (packet : RingPacket) : r.Intact (Function.update mem slot packet) := by
  constructor
  · rw [Function.update_of_ne hne, h.addr]
  · rw [Function.update_of_ne hne, h.data]

/-- **Giving back and submitting**: a packet that is not in flight is taken, and stays taken if the
submission fails. -/
theorem exists_submit (h : s.Valid) {c : TxCall} (hc : c.buf.length ≤ bytesPerPacket) {count : ℕ}
    (hcount : count ≤ s.inFlight.length) (hfull : count = 0 → s.ring.isFull = false) (waited : Bool)
    (hw : waited = true → s.ring.isFull = true) :
    ∃ r, submit s c waited count (s.inFlight.drop count) = some r ∧ Effect s r := by
  have hlen := h.length_le
  obtain ⟨ring, hring, htr, hnf, hused⟩ : ∃ ring,
      (if 0 < count then s.ring.Return (UInt32.ofNat count) else s.ring) = ring ∧
        ring.Tracks ((s.inFlight.drop count).map Request.slot) ∧ ring.isFull = false ∧
        ring.used + count = s.ring.used := by
    rcases Nat.eq_zero_or_pos count with rfl | hpos
    · exact ⟨s.ring, rfl, h.tracks, hfull rfl, rfl⟩
    · obtain ⟨htr, hnf, hused⟩ := h.tracks.Return hpos (by simpa using hcount)
      rw [← List.map_drop] at htr
      exact ⟨_, if_pos hpos, htr, hnf, hused⟩
  obtain ⟨slot, ring', hpush, hnotin, hused', hin, hout⟩ := htr.exists_Push hnf
  have hkeep : ∀ r ∈ s.inFlight.drop count, r.Intact
      (Function.update s.mem slot ((s.mem slot).fill c.nend c.buf)) := fun r hr =>
    (h.intact r (List.mem_of_mem_drop hr)).update
      (fun he => hnotin (List.mem_map.mpr ⟨r, hr, he⟩)) _
  simp only [submit, hring, hpush, Option.bind_eq_bind, Option.bind_some]
  rcases hsend : c.sendErr with - | e
  · refine ⟨_, rfl, ⟨⟨by simpa using hin, ?_⟩, ?_, ?_, hw⟩⟩
    · intro r hr
      rcases List.mem_append.mp hr with hr | hr
      · exact hkeep r hr
      · rw [List.mem_singleton.mp hr]
        exact intact_fill hc
    · rintro pu ⟨⟩
      exact ⟨hnotin, htr.bounded⟩
    · simp [TxState.leaked, TxSent.failed]
      omega
  · refine ⟨_, rfl, ⟨⟨hout, hkeep⟩, ?_, ?_, hw⟩⟩
    · rintro pu ⟨⟩
      exact ⟨hnotin, htr.bounded⟩
    · simp [TxState.leaked, TxSent.failed]
      omega

/-- **What a call can do.** It never panics. -/
theorem exists_Send (h : s.Valid) (c : TxCall) : ∃ r, Send s c = some r ∧ Effect s r := by
  unfold Send
  by_cases hopen : c.isOpen = false
  · rw [if_pos hopen]
    exact ⟨_, rfl, effect_stop h _ (by simp)⟩
  rw [if_neg hopen]
  by_cases hshort : bytesPerPacket < c.buf.length
  · rw [if_pos hshort]
    exact ⟨_, rfl, effect_stop h _ (by simp)⟩
  rw [if_neg hshort]
  have hc : c.buf.length ≤ bytesPerPacket := by omega
  obtain ⟨count, hdeq, hle⟩ := exists_dequeueCompletion c.completed s.inFlight
  rw [hdeq]
  dsimp only
  by_cases hwait : count = 0 ∧ s.ring.isFull = true
  · rw [if_pos hwait]
    rcases c.notifyErr with - | e
    · rcases c.waitErr with - | e
      · by_cases hstill : c.stillOpen = false
        · simp only [if_pos hstill]
          exact ⟨_, rfl, effect_stop h _ fun _ => hwait.2⟩
        · obtain ⟨later, hdeq', hle'⟩ := exists_dequeueCompletion c.completedLater s.inFlight
          simp only [if_neg hstill, hwait.1, List.drop_zero, hdeq']
          split_ifs with hzero
          · exact ⟨_, rfl, effect_stop h _ fun _ => hwait.2⟩
          · exact exists_submit h hc hle' (fun h0 => absurd h0 hzero) true fun _ => hwait.2
      · exact ⟨_, rfl, effect_stop h _ fun _ => hwait.2⟩
    · exact ⟨_, rfl, effect_stop h _ (by simp)⟩
  · rw [if_neg hwait]
    refine exists_submit h hc hle (fun h0 => ?_) false (by simp)
    rw [← Bool.not_eq_true]
    exact fun hf => hwait ⟨h0, hf⟩

end Step

/-! ## Runs -/

/-- The machine that makes calls of `Send`. -/
def txStep (s : TxState) (c : TxCall) : Option (TxState × TxSent) :=
  (Send s c).map fun r => (r.state, r)

theorem exists_txStep {s : TxState} (h : s.Valid) (c : TxCall) :
    ∃ r, txStep s c = some (r.state, r) ∧ Effect s r := by
  obtain ⟨r, he, hr⟩ := exists_Send h c
  exact ⟨r, by rw [txStep, he]; rfl, hr⟩

/-- Every run exists, and every call of it does what `Effect` says. -/
theorem exists_sends (packets id iocp cq : ℕ) (mem : ℕ → RingPacket) (calls : List TxCall) :
    ∃ t, trace txStep (.opened packets id iocp cq mem) calls = some t ∧
      ∀ v ∈ t, v.before.Valid ∧ Effect v.before v.output := by
  refine exists_trace_of_forall TxState.Valid ?_ (valid_opened packets id iocp cq mem) calls
  intro s c hs
  obtain ⟨r, he, hr⟩ := exists_txStep hs c
  exact ⟨r.state, r, he, hr.valid, hs, hr⟩

/-- A run without a failed submission leaks nothing. -/
theorem leaked_eq_zero {s : TxState} (hs : s.Valid) (h0 : s.leaked = 0) {calls : List TxCall}
    {t : List (Visit TxState TxCall TxSent)} (ht : trace txStep s calls = some t)
    (hall : ∀ v ∈ t, v.output.failed = false) : ∀ v ∈ t, v.before.leaked = 0 := by
  have hinv := forall_mem_trace (fun s => s.Valid ∧ s.leaked = 0) ?_ ⟨hs, h0⟩ ht hall
  · exact fun v hv => (hinv v hv).1.2
  · rintro s c s' o ⟨hs, h0⟩ hno he
    obtain ⟨r, he', hr⟩ := exists_txStep hs c
    obtain ⟨rfl, rfl⟩ := Prod.mk.inj (Option.some.inj (he'.symm.trans he))
    exact ⟨hr.valid, by rw [hr.leaked, h0, if_neg (by simpa using hno)]⟩

/-- **The ring counts exactly the requests in flight after each call, and a call waits only while
one is in flight, iff no submission fails.** -/
theorem used_eq_inFlight_iff (packets id iocp cq : ℕ) (mem : ℕ → RingPacket)
    (calls : List TxCall) :
    ∃ t, trace txStep (.opened packets id iocp cq mem) calls = some t ∧
      ((∀ v ∈ t, v.output.state.ring.used = v.output.state.inFlight.length ∧
          (v.output.waited = true → v.before.inFlight ≠ [])) ↔
        ∀ v ∈ t, v.output.failed = false) := by
  obtain ⟨t, ht, hall⟩ := exists_sends packets id iocp cq mem calls
  refine ⟨t, ht, ?_, ?_⟩
  · intro h v hv
    have hl := (hall v hv).2.leaked
    by_contra hf
    rw [TxState.leaked, (h v hv).1, Nat.sub_self, if_pos (by simpa using hf)] at hl
    omega
  · intro hno v hv
    obtain ⟨hval, heff⟩ := hall v hv
    have h0 := leaked_eq_zero (valid_opened packets id iocp cq mem)
      (leaked_opened packets id iocp cq mem) ht hno v hv
    have hafter := heff.leaked
    rw [h0, hno v hv] at hafter
    have hle := heff.valid.length_le
    constructor
    · rw [TxState.leaked] at hafter
      simp only [Bool.false_eq_true, if_false] at hafter
      omega
    · intro hw hnil
      have hfull := hval.tracks.isFull_iff.mp (heff.waited hw)
      rw [TxState.leaked, hfull, hnil] at h0
      simp [packetsPerRing] at h0

/-- A call on an open bind that finds no completion. -/
def sendCall (sendErr : Option Error) : TxCall :=
  ⟨[1], ⟨2, .replicate 30 0⟩, true, 0, none, none, true, 0, sendErr⟩

/-- Two calls whose submissions succeed. -/
theorem used_eq_inFlight_iff_accepted :
    ∃ t, trace txStep (.opened 1 1 1 1 fun _ => ⟨⟨0, .replicate 30 0⟩, []⟩)
        [sendCall none, sendCall none] = some t ∧
      ∀ v ∈ t, v.output.state.ring.used = v.output.state.inFlight.length ∧
        (v.output.waited = true → v.before.inFlight ≠ []) := by
  obtain ⟨t, ht, hiff⟩ := used_eq_inFlight_iff 1 1 1 1 (fun _ => ⟨⟨0, .replicate 30 0⟩, []⟩)
    [sendCall none, sendCall none]
  refine ⟨t, ht, hiff.mpr ?_⟩
  obtain rfl := Option.some.inj ht.symm
  decide

/-- After one failed submission the ring counts a packet that is not in flight, and after 256 of
them the next call waits although nothing is. -/
theorem used_ne_inFlight_of_failed :
    ((trace txStep (.opened 1 1 1 1 fun _ => ⟨⟨0, .replicate 30 0⟩, []⟩)
        [sendCall (some (.errno .einval))]).bind List.getLast?).map
      (fun v => (v.output.state.ring.used, v.output.state.inFlight)) = some (1, []) ∧
    ((trace txStep (.opened 1 1 1 1 fun _ => ⟨⟨0, .replicate 30 0⟩, []⟩)
        (List.replicate 256 (sendCall (some (.errno .einval))) ++ [sendCall none])).bind
          List.getLast?).map
      (fun v => (v.output.waited, v.before.inFlight, v.before.ring.used)) =
        some (true, [], 256) := by
  constructor
  · decide +kernel
  · decide +kernel

end AfWinRingBind

end BatchUDP
