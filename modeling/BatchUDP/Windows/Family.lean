import BatchUDP.Windows.Calls

/-!
# What a step keeps of an address family

A step of a call and a step of the kernel keep what holds of the rings of an address family and of
their completion ports. The port of a ring covers the call that waits for it: while the call waits,
a packet is in the port, or a notification is pending and no completion has arrived.

## Main definitions

* `WinRingBind.Family.Inv`: what holds of an address family, whether it is open or not
* `WinRingBind.Family.Keeps`: what a step leaves alone

## Main results

* `WinRingBind.Family.Inv.exists_rxStep`, `WinRingBind.Family.Inv.exists_txStep`: the steps of
  `Receive` and of `Send`, which do not panic unless a completion queue is corrupt
* `WinRingBind.Family.Inv.deliver`, `WinRingBind.Family.Inv.complete`: the steps of the kernel
* `WinRingBind.Family.sentAs_of_leaves`: the steps of a call of `Send` do what
  `AfWinRingBind.Send` does
* `WinRingBind.counts_Open`: the rings behind `Open`
-/

namespace BatchUDP

open Go Machine

namespace AfWinRingBind

/-! ## Receiving -/

/-- A point of `Receive` behind the mutex of the ring. -/
def RxPoint.inside : RxPoint → Bool
  | .preposting _ | .failed | .idle => false
  | _ => true

/-- The point at which `Receive` waits. -/
def RxPoint.waits : RxPoint → Bool
  | .wait => true
  | _ => false

/-- The steps that are left of a call of `Receive` once the bind is being closed. -/
def RxPoint.rank : RxPoint → ℕ
  | .spin 0 => 5
  | .rearm _ => 4
  | .spin _ | .check _ _ => 3
  | .notify | .copyAddr _ _ => 2
  | .wait | .copyData _ _ _ _ => 1
  | _ => 0

theorem RxPoint.rank_pos {pt : RxPoint} (h : pt.inside = true) : 0 < pt.rank := by
  cases pt with
  | spin tries => cases tries <;> simp [rank]
  | preposting | failed | idle => cases h
  | notify | wait | rearm | check | copyAddr | copyData => simp [rank]

/-- What a step of `Receive` does to the ring and to the completions, and where it leads. -/
structure Moves (s : RxState) (a : Answer) (x : RxState × RxOut) : Prop where
  handles : x.1.ring.handles = s.ring.handles
  live : s.ring.Live → x.1.ring.Live
  completed : x.1.completed.length ≤ s.completed.length
  goesOn : x.2.returned = none → x.1.point.inside = true
  leaves : x.2.returned ≠ none → x.1.point = .idle
  waits : x.1.point.waits = true → s.point = .notify ∧ a.err = none
  rank : a.isOpen = false → x.1.point.rank < s.point.rank

section Advance

variable {s : RxState} {a : Answer} {x : RxState × RxOut}

theorem moves_goto {pt : RxPoint} (hin : pt.inside = true)
    (hw : pt.waits = true → s.point = .notify ∧ a.err = none)
    (hr : a.isOpen = false → pt.rank < s.point.rank) : Moves s a (s.goto pt) :=
  ⟨rfl, id, le_rfl, fun _ => hin, fun h => absurd rfl h, hw, hr⟩

theorem moves_ret (hin : s.point.inside = true) (r : Except Error Copied) :
    Moves s a (s.ret r) :=
  ⟨rfl, id, le_rfl, by simp [RxState.ret], fun _ => rfl, by simp [RxState.ret, RxPoint.waits],
    fun _ => RxPoint.rank_pos hin⟩

theorem moves_dequeue (found : Bool) {otherwise : RxState × RxOut}
    (hr : a.isOpen = false → 4 < s.point.rank) (h : Moves s a otherwise) :
    Moves s a (s.dequeue found otherwise) := by
  unfold RxState.dequeue
  split
  case h_1 res rest hc =>
    refine ⟨rfl, id, ?_, fun _ => rfl, fun h => absurd rfl h,
      by simp [RxState.goto, RxPoint.waits], hr⟩
    simp [RxState.goto, hc]
  case h_2 => exact h

/-- `Return` and `Push` only count. -/
theorem moves_rearm {res : Completion} (hpt : s.point = .rearm res)
    (h : advance s a = some x) : Moves s a x := by
  simp only [advance, hpt, Option.bind_eq_bind, Option.bind_eq_some_iff] at h
  obtain ⟨⟨slot, ring⟩, hpush, h⟩ := h
  obtain ⟨hh, hl⟩ := RingBuffer.handles_Push hpush
  obtain ⟨hh', hl'⟩ := RingBuffer.handles_Return s.ring 1
  rcases herr : a.err with - | e
  · rw [herr] at h
    obtain rfl := Option.some.inj h
    exact ⟨hh.trans hh', fun h => hl (hl' h), le_rfl, fun _ => rfl, by simp,
      by simp [RxPoint.waits], by simp [hpt, RxPoint.rank]⟩
  · rw [herr] at h
    obtain rfl := Option.some.inj h
    exact ⟨hh.trans hh', fun h => hl (hl' h), le_rfl, by simp, fun _ => rfl,
      by simp [RxPoint.waits], by simp [hpt, RxPoint.rank]⟩

/-- **What a step of `Receive` does.** -/
theorem moves_advance (hin : s.point.inside = true) (h : advance s a = some x) :
    Moves s a x := by
  rcases hpt : s.point with i | - | - | tries | - | - | res | ⟨res, re⟩ | ⟨res, re⟩ |
    ⟨res, re, ep, epFrom⟩
  case preposting => simp [hpt, RxPoint.inside] at hin
  case failed => simp [hpt, RxPoint.inside] at hin
  case idle => simp [hpt, RxPoint.inside] at hin
  case rearm => exact moves_rearm hpt h
  case spin =>
    simp only [advance, hpt] at h
    split_ifs at h with hlt hclosed
    · obtain rfl := Option.some.inj h
      exact moves_ret hin _
    · obtain rfl := Option.some.inj h
      have h0 : a.isOpen = false → tries = 0 := fun hc => by
        by_contra h0
        exact hclosed ⟨Nat.pos_of_ne_zero h0, hc⟩
      have hr : a.isOpen = false → 4 < s.point.rank := fun hc => by
        rw [hpt, h0 hc]
        decide
      refine moves_dequeue _ hr (moves_goto rfl (by simp [RxPoint.waits]) fun hc => ?_)
      exact Nat.lt_of_le_of_lt (by simp [RxPoint.rank]) (hr hc)
    · obtain rfl := Option.some.inj h
      refine moves_goto rfl (by simp [RxPoint.waits]) fun _ => ?_
      obtain ⟨k, rfl⟩ : ∃ k, tries = k + 1 :=
        ⟨tries - 1, by simp only [receiveSpins] at hlt; omega⟩
      simp [hpt, RxPoint.rank]
  case notify =>
    simp only [advance, hpt] at h
    rcases herr : a.err with - | e
    · rw [herr] at h
      obtain rfl := Option.some.inj h
      exact moves_goto rfl (fun _ => ⟨hpt, herr⟩) (by simp [hpt, RxPoint.rank])
    · rw [herr] at h
      obtain rfl := Option.some.inj h
      exact moves_ret hin _
  case wait =>
    simp only [advance, hpt] at h
    rcases herr : a.err with - | e
    · rw [herr] at h
      dsimp only at h
      split_ifs at h with hclosed
      · obtain rfl := Option.some.inj h
        exact moves_ret hin _
      · obtain rfl := Option.some.inj h
        exact moves_dequeue _ (fun hc => absurd hc hclosed) (moves_ret hin _)
    · rw [herr] at h
      obtain rfl := Option.some.inj h
      exact moves_ret hin _
  case check =>
    simp only [advance, hpt] at h
    split_ifs at h with hsize hopen hstatus
    · obtain rfl := Option.some.inj h
      exact moves_goto rfl (by simp [RxPoint.waits]) (by simp [hopen])
    · obtain rfl := Option.some.inj h
      exact moves_ret hin _
    · obtain rfl := Option.some.inj h
      exact moves_ret hin _
    · obtain rfl := Option.some.inj h
      exact moves_goto rfl (by simp [RxPoint.waits]) (by simp [hpt, RxPoint.rank])
  case copyAddr =>
    simp only [advance, hpt] at h
    obtain rfl := Option.some.inj h
    exact moves_goto rfl (by simp [RxPoint.waits]) (by simp [hpt, RxPoint.rank])
  case copyData =>
    simp only [advance, hpt] at h
    obtain rfl := Option.some.inj h
    exact moves_ret hin _

end Advance

/-! ## Posting -/

/-- The next packet is posted. -/
theorem counts_InsertReceiveRequest {b b' : AfWinRingBind} {err err' : Option Error} {i : ℕ}
    (hb : b.rx.Counts 0 i) (hi : i < packetsPerRing)
    (h : b.InsertReceiveRequest err = some (err', b')) : b'.rx.Counts 0 (i + 1) := by
  obtain ⟨rx, hpush, hc⟩ := hb.Push (Nat.zero_le i) (by omega)
  simp only [InsertReceiveRequest, hpush, Option.bind_eq_bind, Option.bind_some] at h
  rw [← (Prod.mk.inj (Option.some.inj h)).2]
  exact hc

/-- A ring all of whose packets were posted. -/
theorem tracks_of_counts {rb : RingBuffer} (h : rb.Counts 0 packetsPerRing) :
    rb.Tracks (List.range packetsPerRing) := by
  refine ⟨0, packetsPerRing, List.range packetsPerRing, h,
    ⟨Nat.zero_le _, by simp, List.pairwise_lt_range, fun q hq => ?_⟩, ?_⟩
  · exact ⟨Nat.zero_le q, List.mem_range.mp hq⟩
  · refine (List.map_id _).symm.trans (List.map_congr_left fun q hq => ?_)
    exact (Nat.mod_eq_of_lt (List.mem_range.mp hq)).symm

end AfWinRingBind

namespace WinRingBind

open AfWinRingBind

/-- The point at which `Send` waits. -/
def TxPoint.waits : TxPoint → Bool
  | .wait => true
  | _ => false

/-- The steps that are left of a call of `Send`, of one datagram, once the bind is being closed. -/
def TxPoint.rank : TxPoint → ℕ
  | .idle => 0
  | .dequeue => 3
  | .notify => 2
  | .wait | .submit _ => 1

namespace Family

/-- A notification covers the wait that follows. -/
theorem notified {p port : Port} {waiting : Bool} {ready : ℕ} {err : Option Error}
    (h : p.Covers waiting ready) (hn : notify p ready err = .ok port) :
    p.posts ≤ port.posts ∧ port.Covers true ready := by
  unfold notify at hn
  split at hn
  · cases hn
  · split at hn
    · cases hn
    · obtain rfl := Except.ok.inj hn
      exact ⟨(Port.posts_notify ‹_›).ge, h.notify ‹_›⟩

/-- The datagrams that were submitted and that the kernel has not sent yet. -/
def pending (f : Family) : List (WinRingEndpoint × List UInt8) :=
  (f.tx.inFlight.drop (f.txPoint.dequeued + f.done)).map fun r => (r.nend, r.buf)

/-- What holds of an address family, whether it is open or not: its rings track the requests in
flight and the packets of these have not changed, the ports cover the calls that wait, and what was
sent and what is still to be sent is what was submitted. -/
structure Inv (f : Family) : Prop where
  rxValid : f.rx.Valid
  rxPoint : f.rx.point = .idle ∨ f.rx.point.inside = true
  rxCovers : f.rxPort.Covers f.rx.point.waits f.rx.completed.length
  txValid : f.tx.Valid
  done_le : f.txPoint.dequeued + f.done ≤ f.tx.inFlight.length
  room : ∀ count, f.txPoint = .submit count → count = 0 → f.tx.ring.isFull = false
  txCovers : f.txPort.Covers f.txPoint.waits f.done
  log : f.transmitted ++ f.pending = f.submitted

/-- A step leaves the handles alone, and takes back no packet posted by hand. -/
structure Keeps (f f' : Family) : Prop where
  handles : f'.af.handles = f.af.handles
  live : f.af.Live → f'.af.Live
  rxPosts : f.rxPort.posts ≤ f'.rxPort.posts
  txPosts : f.txPort.posts ≤ f'.txPort.posts

theorem Keeps.refl (f : Family) : Keeps f f := ⟨rfl, id, le_rfl, le_rfl⟩

variable {f : Family}

/-! ## The kernel -/

theorem inside_deliver (pt : RxPoint) : pt.deliver.inside = pt.inside := by cases pt <;> rfl

theorem waits_deliver (pt : RxPoint) : pt.deliver.waits = pt.waits := by cases pt <;> rfl

theorem deliver_eq_idle_iff (pt : RxPoint) : pt.deliver = .idle ↔ pt = .idle := by
  cases pt <;> simp [RxPoint.deliver]

theorem af_deliver (f : Family) (d : Delivery) : (f.deliver d).af = f.af := by
  unfold Family.deliver
  split
  · rfl
  · simp only [af, AfWinRingBind.deliver, ‹f.rx.posted = _›, RxState.fill]

/-- **A delivery** wakes the call that waits for it. -/
theorem Inv.deliver (h : f.Inv) (d : Delivery) :
    (f.deliver d).Inv ∧ Keeps f (f.deliver d) ∧ (f.deliver d).txPoint = f.txPoint ∧
      ((f.deliver d).rx.point = .idle ↔ f.rx.point = .idle) := by
  unfold Family.deliver
  split
  case h_1 => exact ⟨h, .refl f, rfl, Iff.rfl⟩
  case h_2 slot posted hp =>
    have he : AfWinRingBind.deliver f.rx d = f.rx.fill d slot posted := by
      rw [AfWinRingBind.deliver, hp]
    have hv := h.rxValid.deliver d
    rw [he] at hv ⊢
    refine ⟨⟨hv, ?_, ?_, h.txValid, h.done_le, h.room, h.txCovers, h.log⟩,
      ⟨rfl, fun hl => ⟨hl.sock, hl.rx, hl.tx⟩, (Port.posts_complete _).ge, le_rfl⟩, rfl,
      deliver_eq_idle_iff _⟩
    · rcases h.rxPoint with hpt | hpt
      · exact .inl ((deliver_eq_idle_iff _).mpr hpt)
      · exact .inr ((inside_deliver _).trans hpt)
    · have hc := h.rxCovers.complete
      simpa [RxState.fill, waits_deliver] using hc

/-- The kernel reads what the request was given. -/
theorem Inv.outgoing (h : f.Inv) {r : Request} (hr : r ∈ f.tx.inFlight) :
    f.outgoing r = (r.nend, r.buf) := by
  have hi := h.txValid.intact r hr
  rw [Family.outgoing, hi.addr, hi.data]

theorem af_complete (f : Family) : f.complete.af = f.af := by
  unfold Family.complete
  split <;> rfl

/-- **A send that completes** wakes the call that waits for it. What the kernel has sent is what
`Send` was given. -/
theorem Inv.complete (h : f.Inv) :
    f.complete.Inv ∧ Keeps f f.complete ∧ f.complete.txPoint = f.txPoint ∧
      f.complete.rx = f.rx := by
  unfold Family.complete
  split
  case h_1 => exact ⟨h, .refl f, rfl, rfl⟩
  case h_2 r hr =>
    obtain ⟨hlt, hr'⟩ := List.getElem?_eq_some_iff.mp hr
    refine ⟨⟨h.rxValid, h.rxPoint, h.rxCovers, h.txValid, ?_, h.room, h.txCovers.complete, ?_⟩,
      ⟨rfl, id, le_rfl, (Port.posts_complete _).ge⟩, rfl, rfl⟩
    · dsimp only
      omega
    · have hlog := h.log
      rw [pending, List.drop_eq_getElem_cons hlt, hr', List.map_cons,
        ← h.outgoing (List.mem_of_getElem? hr)] at hlog
      simpa [pending, Nat.add_assoc] using hlog

/-! ## What calls do outside the rings -/

/-- A family behind `Open` or `closeAndZero`. -/
theorem inv_load (f : Family) {b : AfWinRingBind} {opened : Bool}
    (hrx : b.rx.Tracks (if opened then List.range packetsPerRing else []))
    (htx : b.tx.Tracks []) : (f.load b opened).Inv where
  rxValid := ⟨hrx, by simp [load], trivial⟩
  rxPoint := .inl rfl
  rxCovers := Port.covers_empty _
  txValid := ⟨htx, by simp [load]⟩
  done_le := Nat.zero_le _
  room := by simp [load]
  txCovers := Port.covers_empty _
  log := by simp [load, pending]

/-- `Close` posts a packet to the port of a ring. -/
theorem Inv.post (h : f.Inv) (tx : Bool) :
    (f.post tx).Inv ∧ Keeps f (f.post tx) ∧ (f.post tx).af = f.af ∧ (f.post tx).rx = f.rx ∧
      (f.post tx).txPoint = f.txPoint := by
  cases tx
  · exact ⟨⟨h.rxValid, h.rxPoint, h.rxCovers.post, h.txValid, h.done_le, h.room, h.txCovers,
      h.log⟩, ⟨rfl, id, Nat.le_succ _, le_rfl⟩, rfl, rfl, rfl⟩
  · exact ⟨⟨h.rxValid, h.rxPoint, h.rxCovers, h.txValid, h.done_le, h.room, h.txCovers.post,
      h.log⟩, ⟨rfl, id, le_rfl, Nat.le_succ _⟩, rfl, rfl, rfl⟩

/-- A socket is bound to an interface. -/
theorem Inv.bound (h : f.Inv) (iface : ℕ) (blackhole : Bool) :
    ({ f with iface := iface, blackhole := blackhole } : Family).Inv ∧
      Keeps f { f with iface := iface, blackhole := blackhole } :=
  ⟨⟨h.rxValid, h.rxPoint, h.rxCovers, h.txValid, h.done_le, h.room, h.txCovers, h.log⟩,
    ⟨rfl, fun hl => ⟨hl.sock, hl.rx, hl.tx⟩, le_rfl, le_rfl⟩⟩

/-- A receive call gets the mutex of the ring. -/
theorem Inv.rxEnter (h : f.Inv) (hpt : f.rx.point = .idle) (buf : ℕ) :
    ({ f with rx := { f.rx with buf := buf, point := .spin 0 } } : Family).Inv ∧
      Keeps f { f with rx := { f.rx with buf := buf, point := .spin 0 } } := by
  have htracks := h.rxValid.tracks
  rw [inFlight_eq hpt (by simp)] at htracks
  exact ⟨⟨⟨htracks, h.rxValid.completed, trivial⟩, .inr rfl, h.rxCovers.giveUp, h.txValid,
    h.done_le, h.room, h.txCovers, h.log⟩, ⟨rfl, id, le_rfl, le_rfl⟩⟩

/-- A call of `Send` gets the mutex of the ring. -/
theorem Inv.txEnter (h : f.Inv) (hpt : f.txPoint = .idle) :
    ({ f with txPoint := .dequeue } : Family).Inv ∧ Keeps f { f with txPoint := .dequeue } := by
  have hdone := h.done_le
  have hlog := h.log
  rw [pending] at hlog
  rw [hpt] at hdone hlog
  exact ⟨⟨h.rxValid, h.rxPoint, h.rxCovers, h.txValid, hdone, by simp, h.txCovers.giveUp, hlog⟩,
    ⟨rfl, id, le_rfl, le_rfl⟩⟩

/-! ## Receiving -/

/-- What a step of `Receive` does, and where it leads. -/
structure RxStepped (f : Family) (isOpen : Bool) (f' : Family)
    (ended : Ended (Except Error Copied)) : Prop where
  inv : f'.Inv
  keeps : f.Keeps f'
  txPoint : f'.txPoint = f.txPoint
  leaves : ∀ r, ended = .leaves r → f'.rx.point = .idle
  stays : (∀ r, ended ≠ .leaves r) → f'.rx.point.inside = true
  rank : isOpen = false → ended ≠ .blocked → f'.rx.point.rank < f.rx.point.rank
  blocked : ended = .blocked → f' = f ∧ f.rx.point = .wait ∧ f.rxPort.packets = 0

/-- A step of `Receive`, with a port that covers a wait if it leads to one. -/
theorem Inv.exists_rxAdvance (h : f.Inv) (hin : f.rx.point.inside = true) {port : Port}
    (hposts : f.rxPort.posts ≤ port.posts) {err : Option Error}
    (hport : port.Covers false f.rx.completed.length)
    (hnotify : f.rx.point = .notify → err = none → port.Covers true f.rx.completed.length)
    (isOpen found : Bool) :
    ∃ f' ended, f.rxAdvance port isOpen err found = some (f', ended) ∧
      RxStepped f isOpen f' ended := by
  obtain ⟨rx, o, he, hv, -⟩ := steps_advance h.rxValid ⟨isOpen, err, found, 0⟩
  have hm := moves_advance hin he
  have hpoint : rx.point = .idle ∨ rx.point.inside = true := by
    rcases ho : o.returned with - | r
    · exact .inr (hm.goesOn ho)
    · exact .inl (hm.leaves (by simp [ho]))
  have hcovers : port.Covers rx.point.waits rx.completed.length := by
    refine Port.Covers.dequeue ?_ hm.completed
    rcases hw : rx.point.waits with - | -
    · exact hport
    · obtain ⟨hn, hnone⟩ := hm.waits hw
      exact hnotify hn hnone
  rw [rxAdvance, he]
  refine ⟨_, _, rfl, ⟨hv, hpoint, hcovers, h.txValid, h.done_le, h.room, h.txCovers, h.log⟩,
    ⟨?_, fun hl => ⟨hl.sock, hm.live hl.rx, hl.tx⟩, hposts, le_rfl⟩, rfl, fun r hr => ?_,
    fun hr => ?_, fun hc _ => hm.rank hc, fun hb => ?_⟩
  · simp only [af, AfWinRingBind.handles, hm.handles]
  · refine hm.leaves fun ho => ?_
    dsimp only at ho
    rw [ho] at hr
    cases hr
  · refine hm.goesOn ?_
    rcases ho : o.returned with - | r
    · rfl
    · rw [ho] at hr
      exact absurd rfl (hr r)
  · split at hb <;> cases hb

/-- **The next step of `Receive`** does not panic. -/
theorem Inv.exists_rxStep (h : f.Inv) (hin : f.rx.point.inside = true) (isOpen : Bool) {a : Ans}
    (ha : a.corrupt = false) :
    ∃ f' ended, f.rxStep isOpen a = some (f', ended) ∧ RxStepped f isOpen f' ended := by
  have hcov := h.rxCovers.giveUp
  rw [rxStep, if_neg (by simp [ha])]
  split
  case h_1 hpt =>
    rcases hn : notify f.rxPort f.rx.completed.length a.err with e | port
    · exact h.exists_rxAdvance hin le_rfl hcov (by simp) isOpen a.found
    · obtain ⟨hle, htrue⟩ := notified h.rxCovers hn
      exact h.exists_rxAdvance hin hle htrue.giveUp (fun _ _ => htrue) isOpen a.found
  case h_2 hpt =>
    have hne : f.rx.point = .notify → ∀ p : Port, p.Covers true f.rx.completed.length := by
      intro h'
      rw [hpt] at h'
      cases h'
    split
    case h_1 e _ _ => exact h.exists_rxAdvance hin le_rfl hcov (by simp) isOpen a.found
    case h_2 htake =>
      exact ⟨f, .blocked, rfl, h, .refl f, rfl, by simp, fun _ => hin, by simp,
        fun _ => ⟨rfl, hpt, Port.take_eq_none htake⟩⟩
    case h_3 port _ htake =>
      have htrue : f.rxPort.Covers true f.rx.completed.length := by
        simpa [hpt, RxPoint.waits] using h.rxCovers
      exact h.exists_rxAdvance hin (Port.posts_take htake).ge (htrue.take htake)
        (fun h' _ => hne h' port) isOpen a.found
  case h_3 hnot hwait =>
    exact h.exists_rxAdvance hin le_rfl hcov (fun h' _ => absurd h' hnot) isOpen a.found

/-! ## Sending -/

/-- What a step of `Send` does, and where it leads. -/
structure TxStepped (f : Family) (isOpen : Bool) (f' : Family) (ended : Ended (Option Error)) :
    Prop where
  inv : f'.Inv
  keeps : f.Keeps f'
  rx : f'.rx = f.rx
  leaves : ∀ r, ended = .leaves r → f'.txPoint = .idle
  stays : (∀ r, ended ≠ .leaves r) → f'.txPoint ≠ .idle
  rank : isOpen = false → ended ≠ .blocked → f'.txPoint.rank < f.txPoint.rank
  blocked : ended = .blocked → f' = f ∧ f.txPoint = .wait ∧ f.txPort.packets = 0

/-- A step that takes no packet: dequeued completions are given back by the next one. -/
theorem Inv.txMove (h : f.Inv) (port : Port) (pt : TxPoint) (done : ℕ)
    (hposts : f.txPort.posts ≤ port.posts)
    (hdone : pt.dequeued + done = f.txPoint.dequeued + f.done)
    (hroom : ∀ count, pt = .submit count → count = 0 → f.tx.ring.isFull = false)
    (hport : port.Covers pt.waits done) :
    ({ f with txPort := port, done := done, txPoint := pt } : Family).Inv ∧
      Keeps f { f with txPort := port, done := done, txPoint := pt } := by
  have hlog := h.log
  rw [pending, ← hdone] at hlog
  exact ⟨⟨h.rxValid, h.rxPoint, h.rxCovers, h.txValid, hdone ▸ h.done_le, hroom, hport, hlog⟩,
    ⟨rfl, id, le_rfl, hposts⟩⟩

theorem dequeue_le (f : Family) (count : ℕ) : f.dequeue count ≤ f.done := min_le_right _ _

/-- What a submission does to the requests in flight. -/
theorem submit_cases {s : TxState} {c : TxCall} {waited : Bool} {count : ℕ}
    {inFlight : List Request} {r : TxSent} (h : submit s c waited count inFlight = some r) :
    ∃ slot, r.err = c.sendErr ∧ r.state.ring.handles = s.ring.handles ∧
      (s.ring.Live → r.state.ring.Live) ∧ r.state.inFlight =
        inFlight ++ if c.sendErr = none then [⟨slot, c.nend, c.buf⟩] else [] := by
  simp only [submit, Option.bind_eq_bind, Option.bind_eq_some_iff] at h
  obtain ⟨⟨slot, ring⟩, hpush, h⟩ := h
  have hreturn : (if 0 < count then s.ring.Return (UInt32.ofNat count) else s.ring).handles =
      s.ring.handles ∧ (s.ring.Live →
        (if 0 < count then s.ring.Return (UInt32.ofNat count) else s.ring).Live) := by
    split_ifs
    · exact RingBuffer.handles_Return s.ring _
    · exact ⟨rfl, id⟩
  obtain ⟨hh, hl⟩ := RingBuffer.handles_Push hpush
  refine ⟨slot, ?_⟩
  split at h <;> rename_i hsend
  · obtain rfl := Option.some.inj h
    exact ⟨hsend.symm, hh.trans hreturn.1, hl ∘ hreturn.2, by simp [hsend]⟩
  · obtain rfl := Option.some.inj h
    exact ⟨hsend.symm, hh.trans hreturn.1, hl ∘ hreturn.2, by simp [hsend]⟩

/-- A submission gives the packets of the dequeued completions back. -/
theorem Inv.exists_submit (h : f.Inv) {count : ℕ} (hpt : f.txPoint = .submit count)
    (isOpen : Bool) (nend : WinRingEndpoint) {buf : List UInt8}
    (hbuf : buf.length ≤ bytesPerPacket) (a : Ans) :
    ∃ f' ended, f.txStep isOpen nend buf a = some (f', ended) ∧ TxStepped f isOpen f' ended := by
  have hdone := h.done_le
  have hlog := h.log
  simp only [pending, hpt, TxPoint.dequeued] at hdone hlog
  obtain ⟨r, hr, heffect⟩ := AfWinRingBind.exists_submit h.txValid
    (c := ⟨buf, nend, true, 0, none, none, true, 0, a.err⟩) hbuf
    (show count ≤ f.tx.inFlight.length by omega) (h.room count hpt) false (by simp)
  obtain ⟨slot, hrerr, hhandles, hlive, hflight⟩ := submit_cases hr
  simp only [txStep, hpt, hr, Option.bind_eq_bind, Option.bind_some]
  have hle : f.done ≤ (f.tx.inFlight.drop count).length := by simp; omega
  refine ⟨_, _, rfl, ⟨h.rxValid, h.rxPoint, h.rxCovers, heffect.valid, ?_, by simp,
    ?_, ?_⟩, ⟨?_, fun hl => ⟨hl.sock, hl.rx, hlive hl.tx⟩, le_rfl, le_rfl⟩, rfl, fun _ _ => rfl,
    fun hr => absurd rfl (hr _), fun _ _ => by simp [hpt, TxPoint.rank], by simp⟩
  · simp only [TxPoint.dequeued, Nat.zero_add, hflight, List.length_append]
    omega
  · exact h.txCovers.giveUp
  · simp only [pending, TxPoint.dequeued, Nat.zero_add, hflight]
    rw [List.drop_append_of_le_length hle, List.drop_drop, List.map_append, ← List.append_assoc,
      hlog]
    split_ifs <;> simp
  · simp only [af, AfWinRingBind.handles, hhandles]

theorem rank_pos {pt : TxPoint} (h : pt ≠ .idle) : 0 < pt.rank := by
  cases pt with
  | idle => exact absurd rfl h
  | dequeue | notify | wait | submit => simp [TxPoint.rank]

/-- `Send` leaves the ring before it takes a packet. -/
theorem Inv.txLeave (h : f.Inv) (hpt : f.txPoint ≠ .idle) (h0 : f.txPoint.dequeued = 0)
    {port : Port} (hposts : f.txPort.posts ≤ port.posts) (hport : port.Covers false f.done)
    (isOpen : Bool) (e : Error) :
    TxStepped f isOpen { f with txPort := port, txPoint := .idle } (.leaves (some e)) := by
  obtain ⟨hi, hk⟩ := h.txMove port .idle f.done hposts (by rw [h0]; rfl) (by simp) hport
  exact ⟨hi, hk, rfl, fun _ _ => rfl, fun hr => absurd rfl (hr _), fun _ _ => rank_pos hpt, by simp⟩

/-- `Send` goes on to the submission. -/
theorem Inv.txSubmit (h : f.Inv) (h0 : f.txPoint.dequeued = 0) {port : Port}
    (hposts : f.txPort.posts ≤ port.posts) (hport : port.Covers false f.done) {isOpen : Bool}
    (hrank : isOpen = false → 1 < f.txPoint.rank) {count : ℕ} (hle : count ≤ f.done)
    (hroom : count = 0 → f.tx.ring.isFull = false) :
    TxStepped f isOpen
      { f with txPort := port, done := f.done - count, txPoint := .submit count } .goesOn := by
  obtain ⟨hi, hk⟩ := h.txMove port (.submit count) (f.done - count) hposts
    (by rw [h0, Nat.zero_add]; exact Nat.add_sub_cancel' hle) (by rintro _ ⟨⟩; exact hroom)
    (hport.dequeue (by omega))
  exact ⟨hi, hk, rfl, by simp, by simp, fun hc _ => hrank hc, by simp⟩

/-- **The next step of `Send`** does not panic. -/
theorem Inv.exists_txStep (h : f.Inv) (hpt : f.txPoint ≠ .idle) (isOpen : Bool)
    (nend : WinRingEndpoint) {buf : List UInt8} (hbuf : buf.length ≤ bytesPerPacket) {a : Ans}
    (ha : a.corrupt = false) :
    ∃ f' ended, f.txStep isOpen nend buf a = some (f', ended) ∧ TxStepped f isOpen f' ended := by
  have hcov := h.txCovers.giveUp
  have hle := f.dequeue_le a.count
  rcases hp : f.txPoint with - | - | - | - | count
  case idle => exact absurd hp hpt
  case dequeue =>
    have h0 : f.txPoint.dequeued = 0 := by rw [hp]; rfl
    simp only [txStep, hp, ha, Bool.false_eq_true, if_false]
    split_ifs with hwait
    · obtain ⟨hi, hk⟩ := h.txMove f.txPort .notify f.done le_rfl (by rw [h0]; rfl) (by simp) hcov
      exact ⟨_, _, rfl, hi, hk, rfl, by simp, by simp, fun _ _ => by simp [hp, TxPoint.rank],
        by simp⟩
    · exact ⟨_, _, rfl, h.txSubmit h0 le_rfl hcov (fun _ => by simp [hp, TxPoint.rank]) hle
        (by simpa using hwait)⟩
  case notify =>
    have h0 : f.txPoint.dequeued = 0 := by rw [hp]; rfl
    simp only [txStep, hp]
    split
    case h_1 e _ => exact ⟨_, _, rfl, h.txLeave hpt h0 le_rfl hcov isOpen e⟩
    case h_2 port hn =>
      obtain ⟨hposts, hport⟩ := notified h.txCovers hn
      obtain ⟨hi, hk⟩ := h.txMove port .wait f.done hposts (by rw [h0]; rfl) (by simp) hport
      exact ⟨_, _, rfl, hi, hk, rfl, by simp, by simp, fun _ _ => by simp [hp, TxPoint.rank],
        by simp⟩
  case wait =>
    have h0 : f.txPoint.dequeued = 0 := by rw [hp]; rfl
    have htrue : f.txPort.Covers true f.done := by simpa [hp, TxPoint.waits] using h.txCovers
    simp only [txStep, hp, ha, Bool.false_eq_true, if_false]
    split
    case h_1 => exact ⟨_, _, rfl, h.txLeave hpt h0 le_rfl hcov isOpen _⟩
    case h_2 htake =>
      exact ⟨f, .blocked, rfl, h, .refl f, rfl, by simp, fun _ => hpt, by simp,
        fun _ => ⟨rfl, hp, Port.take_eq_none htake⟩⟩
    case h_3 port _ htake =>
      have hposts := (Port.posts_take htake).ge
      have hport := htrue.take htake
      split_ifs with hopen hzero
      · exact ⟨_, _, rfl, h.txLeave hpt h0 hposts hport isOpen _⟩
      · exact ⟨_, _, rfl, h.txLeave hpt h0 hposts hport isOpen _⟩
      · exact ⟨_, _, rfl, h.txSubmit h0 hposts hport (fun hc => absurd hc hopen) hle
          fun h' => absurd h' hzero⟩
  case submit => exact h.exists_submit hp isOpen nend hbuf a

/-! ## A call of `Send` as a whole -/

/-- What happens to the transmit ring of a family while a call of `Send` has its mutex: a step of
the call, or of the kernel. The output has the family behind it. -/
def txAlone (nend : WinRingEndpoint) (buf : List UInt8) (f : Family) :
    Option (Bool × Ans) → Option (Family × (Family × Ended (Option Error)))
  | none => some (f.complete, f.complete, .goesOn)
  | some (isOpen, a) => (f.txStep isOpen nend buf a).map fun r => (r.1, r)

/-- A call of `afWinRingBind.Send` does the same as a whole. -/
def SentAs (s : TxState) (nend : WinRingEndpoint) (buf : List UInt8) (err : Option Error)
    (s' : TxState) : Prop :=
  ∃ c r, AfWinRingBind.Send s c = some r ∧ c.buf = buf ∧ c.nend = nend ∧ c.isOpen = true ∧
    r.err = err ∧ r.state = s'

/-- A call of `Send` is under way that found the ring in a state: it waits only if the ring is full,
and has dequeued completions, or found room, when it comes to submit. -/
structure Underway (s : TxState) (f : Family) : Prop where
  tx : f.tx = s
  done_le : f.txPoint.dequeued + f.done ≤ s.inFlight.length
  isFull : f.txPoint = .notify ∨ f.txPoint = .wait → s.ring.isFull = true
  room : ∀ count, f.txPoint = .submit count →
    count ≤ packetsPerRing ∧ (count = 0 → s.ring.isFull = false)

/-- The call has dequeued completions, or found room. -/
theorem Underway.submitting {s : TxState} {f : Family} (h : Underway s f) (port : Port) {k : ℕ}
    (hroom : f.dequeue k = 0 → s.ring.isFull = false) :
    Underway s { f with
      txPort := port, done := f.done - f.dequeue k, txPoint := .submit (f.dequeue k) } := by
  have hle := f.dequeue_le k
  have hdone := h.done_le
  refine ⟨h.tx, ?_, by simp, ?_⟩
  · simp only [TxPoint.dequeued]
    omega
  · rintro _ ⟨⟩
    exact ⟨(min_le_left _ _).trans (min_le_right _ _), hroom⟩

theorem txStep_idle {f : Family} (h : f.txPoint = .idle) (isOpen : Bool) (nend : WinRingEndpoint)
    (buf : List UInt8) (a : Ans) : f.txStep isOpen nend buf a = some (f, .blocked) := by
  simp only [txStep, h]

/-- A send that completes leaves the rings alone. -/
theorem Underway.complete {s : TxState} {f : Family} (h : Underway s f) :
    Underway s f.complete := by
  unfold Family.complete
  split
  case h_1 => exact h
  case h_2 r hr =>
    have hlt := (List.getElem?_eq_some_iff.mp hr).1
    rw [h.tx] at hlt
    exact ⟨h.tx, by dsimp only; omega, h.isFull, h.room⟩

theorem txPoint_complete (f : Family) : f.complete.txPoint = f.txPoint := by
  unfold Family.complete
  split <;> rfl

/-- The call leaves the ring, and has done what a call does as a whole. -/
theorem leaves_txReturn {s : TxState} {f : Family} {nend : WinRingEndpoint} {buf : List UInt8}
    {err : Option Error} (h : SentAs s nend buf err f.tx) :
    ((f.txReturn err).1.txPoint = .idle ∨ Underway s (f.txReturn err).1) ∧
      ∀ e, (f.txReturn err).2 = .leaves e → SentAs s nend buf e (f.txReturn err).1.tx := by
  refine ⟨.inl rfl, ?_⟩
  rintro _ ⟨⟩
  exact h

section Underway

variable {s : TxState} {nend : WinRingEndpoint} {buf : List UInt8}
  (hbuf : buf.length ≤ bytesPerPacket)
include hbuf

/-- A call that stops while it waits for a completion leaves the ring as it is. -/
theorem sentAs_stop (hfull : s.ring.isFull = true) (notifyErr waitErr : Option Error)
    (stillOpen : Bool) : SentAs s nend buf (notifyErr <|> waitErr <|>
      some (if stillOpen then errNoProgress else errClosed)) s := by
  refine ⟨⟨buf, nend, true, 0, notifyErr, waitErr, stillOpen, 0, none⟩,
    ⟨_, notifyErr.isNone, none, none, s⟩, ?_, rfl, rfl, rfl, rfl, rfl⟩
  have hshort := Nat.not_lt.mpr hbuf
  rcases notifyErr with - | e
  · rcases waitErr with - | e
    · cases stillOpen <;> simp [AfWinRingBind.Send, hshort, dequeueCompletion, hfull]
    · simp [AfWinRingBind.Send, hshort, dequeueCompletion, hfull]
  · simp [AfWinRingBind.Send, hshort, dequeueCompletion, hfull]

/-- A call that submits has dequeued the completions at once. -/
theorem sentAs_submit {count : ℕ} (hle : count ≤ s.inFlight.length) (hmax : count ≤ packetsPerRing)
    (hroom : count = 0 → s.ring.isFull = false) {err : Option Error} {r : TxSent}
    (hr : submit s ⟨buf, nend, true, 0, none, none, true, 0, err⟩ false count
      (s.inFlight.drop count) = some r) : SentAs s nend buf r.err r.state := by
  have hdeq : dequeueCompletion count s.inFlight = (count, s.inFlight.drop count) := by
    simp [dequeueCompletion, min_eq_left hmax, min_eq_left hle]
  have hwait : ¬ (count = 0 ∧ s.ring.isFull = true) := fun ⟨h0, hf⟩ => by
    rw [hroom h0] at hf
    cases hf
  refine ⟨⟨buf, nend, true, count, none, none, true, 0, err⟩, r, ?_, rfl, rfl, rfl, rfl, rfl⟩
  rw [AfWinRingBind.Send, if_neg (by simp), if_neg (Nat.not_lt.mpr hbuf), hdeq]
  dsimp only
  rw [if_neg hwait]
  exact hr

/-- A step of the call: it stays under way, or leaves. -/
theorem Underway.txStep {f f' : Family} (h : Underway s f) {isOpen : Bool} {a : Ans}
    {ended : Ended (Option Error)} (he : f.txStep isOpen nend buf a = some (f', ended)) :
    (f'.txPoint = .idle ∨ Underway s f') ∧
      ∀ err, ended = .leaves err → SentAs s nend buf err f'.tx := by
  have hdone := h.done_le
  rcases hp : f.txPoint with - | - | - | - | count
  case idle =>
    rw [txStep_idle hp] at he
    obtain ⟨rfl, rfl⟩ := Prod.mk.inj (Option.some.inj he)
    exact ⟨.inr h, by simp⟩
  all_goals rw [hp] at hdone
  case dequeue =>
    simp only [Family.txStep, hp] at he
    split_ifs at he with hc hwait
    · obtain ⟨rfl, rfl⟩ := Prod.mk.inj (Option.some.inj he)
      exact ⟨.inr ⟨h.tx, hdone, fun _ => h.tx ▸ hwait.2, by simp⟩, by simp⟩
    · obtain ⟨rfl, rfl⟩ := Prod.mk.inj (Option.some.inj he)
      refine ⟨.inr (h.submitting f.txPort fun h0 => ?_), by simp⟩
      rw [← h.tx, ← Bool.not_eq_true]
      exact fun hf => hwait ⟨h0, hf⟩
  case notify =>
    have hfull := h.isFull (.inl hp)
    simp only [Family.txStep, hp] at he
    split at he
    · obtain ⟨rfl, rfl⟩ := Prod.mk.inj (Option.some.inj he)
      exact leaves_txReturn (h.tx.symm ▸ sentAs_stop hbuf hfull (some _) none true)
    · obtain ⟨rfl, rfl⟩ := Prod.mk.inj (Option.some.inj he)
      exact ⟨.inr ⟨h.tx, hdone, fun _ => hfull, by simp⟩, by simp⟩
  case wait =>
    have hfull := h.isFull (.inr hp)
    simp only [Family.txStep, hp] at he
    split at he
    · obtain ⟨rfl, rfl⟩ := Prod.mk.inj (Option.some.inj he)
      exact leaves_txReturn (h.tx.symm ▸ sentAs_stop hbuf hfull none (some _) true)
    · obtain ⟨rfl, rfl⟩ := Prod.mk.inj (Option.some.inj he)
      exact ⟨.inr h, by simp⟩
    · split_ifs at he with hopen hc hzero
      · obtain ⟨rfl, rfl⟩ := Prod.mk.inj (Option.some.inj he)
        exact leaves_txReturn (h.tx.symm ▸ sentAs_stop hbuf hfull none none false)
      · obtain ⟨rfl, rfl⟩ := Prod.mk.inj (Option.some.inj he)
        exact leaves_txReturn (h.tx.symm ▸ sentAs_stop hbuf hfull none none true)
      · obtain ⟨rfl, rfl⟩ := Prod.mk.inj (Option.some.inj he)
        exact ⟨.inr (h.submitting _ fun h0 => absurd h0 hzero), by simp⟩
  case submit =>
    obtain ⟨hcount, hroom⟩ := h.room count hp
    simp only [Family.txStep, hp, Option.bind_eq_bind, Option.bind_eq_some_iff] at he
    obtain ⟨r, hr, he⟩ := he
    obtain ⟨rfl, rfl⟩ := Prod.mk.inj (Option.some.inj he)
    refine ⟨.inl rfl, ?_⟩
    rintro _ ⟨⟩
    rw [h.tx] at hr
    simp only [TxPoint.dequeued] at hdone
    exact sentAs_submit hbuf (by omega) hcount hroom hr

/-- What happens while the call has the mutex: it stays under way, or leaves, or has left. -/
theorem underway_txAlone {f f' : Family} (h : f.txPoint = .idle ∨ Underway s f)
    {e : Option (Bool × Ans)} {o : Family × Ended (Option Error)}
    (he : txAlone nend buf f e = some (f', o)) :
    (f'.txPoint = .idle ∨ Underway s f') ∧
      ∀ err, o.2 = .leaves err → SentAs s nend buf err o.1.tx := by
  rcases e with - | ⟨isOpen, a⟩
  · obtain ⟨rfl, rfl⟩ := Prod.mk.inj (Option.some.inj he)
    exact ⟨h.imp (fun hidle => (txPoint_complete f).trans hidle) Underway.complete, by simp⟩
  · simp only [txAlone, Option.map_eq_some_iff, Prod.mk.injEq] at he
    obtain ⟨⟨f₁, ended⟩, hstep, rfl, rfl⟩ := he
    rcases h with hidle | hunder
    · rw [txStep_idle hidle] at hstep
      obtain ⟨rfl, rfl⟩ := Prod.mk.inj (Option.some.inj hstep)
      exact ⟨.inl hidle, by simp⟩
    · exact hunder.txStep hbuf hstep

/-- **The steps of a call of `Send`, with the kernel in between, do what a call of
`afWinRingBind.Send` does as a whole.** -/
theorem sentAs_of_leaves {f : Family} (hpt : f.txPoint = .dequeue)
    (hdone : f.done ≤ f.tx.inFlight.length) {es : List (Option (Bool × Ans))}
    {t : List (Visit Family (Option (Bool × Ans)) (Family × Ended (Option Error)))}
    (ht : trace (txAlone nend buf) f es = some t) :
    ∀ v ∈ t, ∀ err, v.output.2 = .leaves err → SentAs f.tx nend buf err v.output.1.tx := by
  have hstart : Underway f.tx f := ⟨rfl, by simpa [hpt, TxPoint.dequeued] using hdone,
    by simp [hpt], by simp [hpt]⟩
  have hall := @forall_mem_trace _ _ _ (txAlone nend buf)
    (fun f' => f'.txPoint = .idle ∨ Underway f.tx f') (fun _ => True)
    (fun _ _ _ _ h _ he => (underway_txAlone hbuf h he).1) f (.inr hstart) es t ht
    fun _ _ => trivial
  intro v hv err hleaves
  obtain ⟨hinv, f', he⟩ := hall v hv
  exact (underway_txAlone hbuf hinv he).2 err hleaves

end Underway

end Family

/-! ## Opening -/

/-- The loop posts the packets in order. -/
theorem counts_prepost {receiveErr : ℕ → Bool → Option Error} {left i : ℕ} {b b' : WinRingBind}
    (h : prepost receiveErr left i b = some (none, b')) (hi : i + left ≤ packetsPerRing)
    (hb : ∀ is6, (b.af is6).rx.Counts 0 i) : ∀ is6, (b'.af is6).rx.Counts 0 (i + left) := by
  induction left generalizing i b with
  | zero =>
    obtain ⟨-, rfl⟩ := Prod.mk.inj (Option.some.inj h)
    exact hb
  | succ left ih =>
    simp only [prepost, Option.bind_eq_bind, Option.bind_eq_some_iff] at h
    obtain ⟨⟨err4, v4⟩, h4, h⟩ := h
    rcases err4 with - | e
    swap
    · cases h
    simp only [Option.bind_eq_some_iff] at h
    obtain ⟨⟨err6, v6⟩, h6, h⟩ := h
    rcases err6 with - | e
    swap
    · cases h
    rw [← Nat.add_assoc, Nat.add_right_comm]
    refine ih h (by omega) fun is6 => ?_
    cases is6
    · exact AfWinRingBind.counts_InsertReceiveRequest (hb false) (by omega) h4
    · exact AfWinRingBind.counts_InsertReceiveRequest (hb true) (by omega) h6

/-- The body of `Open` succeeds: the families are open and the packets are posted. -/
theorem openBody_ok {b : WinRingBind} (hb : b.Zeroed) {port : UInt16} {run : OpenRun} {r : Opened}
    (he : b.openBody port run = some r) (hr : r.err = none) :
    ∃ v4 v6 b', (∃ packets id iocp cq, v4.rx = .opened packets id iocp cq) ∧
      (∃ packets id iocp cq, v6.rx = .opened packets id iocp cq) ∧
      prepost run.receiveErr packetsPerRing 0 { b with v4 := v4, v6 := v6 } = some (none, b') ∧
      ∀ is6, r.bind.af is6 = b'.af is6 := by
  have h4 := @AfWinRingBind.Open_zero b.v4 hb.v4.rx hb.v4.tx (run.v4 port.toNat)
  rw [openBody, if_neg (by simp [hb.isOpen])] at he
  rcases he4 : b.v4.Open (run.v4 port.toNat) with ⟨e | port4, v4⟩
  · rw [he4] at he
    simp [← Option.some.inj he] at hr
  have h6 := @AfWinRingBind.Open_zero b.v6 hb.v6.rx hb.v6.tx (run.v6 port4)
  rw [he4] at he h4
  dsimp only at he
  rcases he6 : b.v6.Open (run.v6 port4) with ⟨e | port6, v6⟩
  · rw [he6] at he
    simp [← Option.some.inj he] at hr
  rw [he6] at he h6
  simp only [Option.bind_eq_bind, Option.bind_eq_some_iff] at he
  obtain ⟨⟨err, b'⟩, hpre, he⟩ := he
  rcases err with - | e
  swap
  · simp [← Option.some.inj he] at hr
  refine ⟨v4, v6, b', (h4 rfl).1, (h6 rfl).1, hpre, fun is6 => ?_⟩
  dsimp only at he
  split_ifs at he
  · rcases hsub : run.subscribeErr with - | e
    · rw [hsub] at he
      rw [← Option.some.inj he]
      cases is6 <;> rfl
    · rw [hsub] at he
      simp [← Option.some.inj he] at hr
  · rw [← Option.some.inj he]
    cases is6 <;> rfl

/-- The rings behind a call of `Open` that succeeds. -/
theorem counts_Open {b : WinRingBind} (hb : b.isOpen = 0 → b.Zeroed) {port : UInt16}
    {run : OpenRun} {r : Opened} (he : b.Open port run = some r) (hr : r.err = none) :
    ∀ is6, (r.bind.af is6).rx.Counts 0 packetsPerRing ∧ (r.bind.af is6).tx.Tracks [] := by
  simp only [Open, Option.map_eq_some_iff] at he
  obtain ⟨r', he, rfl⟩ := he
  have hr' : r'.err = none := by
    rcases herr : r'.err with - | e
    · rfl
    · simp [herr] at hr
  rw [if_neg (by simp [hr'])]
  have h0 : b.isOpen = 0 := by
    by_contra h0
    rw [openBody, if_pos h0] at he
    simp [← Option.some.inj he] at hr'
  obtain ⟨v4, v6, b', ⟨p4, i4, o4, c4, h4⟩, ⟨p6, i6, o6, c6, h6⟩, hpre, haf⟩ :=
    openBody_ok (hb h0) he hr'
  have hcounts := counts_prepost hpre (by simp) fun is6 => by
    cases is6
    · exact h4 ▸ ⟨rfl, rfl, by simp [RingBuffer.opened, packetsPerRing]⟩
    · exact h6 ▸ ⟨rfl, rfl, by simp [RingBuffer.opened, packetsPerRing]⟩
  obtain ⟨r'', he', hlist⟩ := exists_openBody (hb h0).closed port run
  obtain rfl := Option.some.inj (he.symm.trans he')
  intro is6
  rw [Nat.zero_add] at hcounts
  obtain ⟨packets, id, iocp, cq, htx⟩ := (hlist hr').tx is6
  exact ⟨haf is6 ▸ hcounts is6, htx ▸ RingBuffer.tracks_opened packets id iocp cq⟩

end WinRingBind

end BatchUDP
