import BatchUDP.Windows.Family

/-!
# What the calls on the Windows bind keep

Calls that have found the bind open use its handles and rings until they release the read lock, and
only a call with the write lock releases the handles. So in every interleaving no call uses a handle
that is not open, and none releases one, except that an `Open` which could not make a socket
releases the invalid handle. No packet is overwritten before the kernel has sent it, and no call
waits for a completion that has arrived already.

## Main definitions

* `WinRingBind.Shared.Inv`, `WinRingBind.Calls.Inv`: what holds of the shared state and the machine
* `WinRingBind.Pc.Stepped`: what a step of a call does
* `WinRingBind.Calls.Event.Sound`: the system hands out fresh handles, and no queue is corrupt
* `WinRingBind.Calls.invalid`: the invalid handle that an event releases

## Main results

* `WinRingBind.Pc.exists_step`, `WinRingBind.Calls.Inv.exists_next`: no step panics
* `WinRingBind.Calls.faults_only_invalid`: no handle is used or released while it is not open,
  except for the invalid one, and none leaks
* `WinRingBind.Calls.no_lost_wakeup`: a call that waits for an empty port will be woken
* `WinRingBind.Calls.transmitted_append_pending`: the kernel sends what was submitted
-/

namespace BatchUDP

open Go Machine

/-! ## The handles that calls use -/

theorem RingBuffer.Live.handles {rb : RingBuffer} (h : rb.Live) :
    rb.handles = [⟨.queue, rb.cq⟩, ⟨.port, rb.iocp⟩, ⟨.buffer, rb.id⟩, ⟨.memory, rb.packets⟩] := by
  simp [RingBuffer.handles, Handle.field_of_ne, h.packets, h.id, h.iocp, h.cq]

theorem AfWinRingBind.Live.handles {b : AfWinRingBind} (h : b.Live) :
    b.handles = [⟨.queue, b.rx.cq⟩, ⟨.port, b.rx.iocp⟩, ⟨.buffer, b.rx.id⟩, ⟨.memory, b.rx.packets⟩,
      ⟨.queue, b.tx.cq⟩, ⟨.port, b.tx.iocp⟩, ⟨.buffer, b.tx.id⟩, ⟨.memory, b.tx.packets⟩,
      ⟨.socket, b.sock⟩] := by
  simp [AfWinRingBind.handles, h.rx.handles, h.tx.handles, Handle.field_of_ne h.sock]

namespace WinRingBind

open AfWinRingBind

namespace Family

variable {f : Family} (h : f.af.Live)
include h

theorem mem_handles_rxTouches : ∀ k ∈ f.rxTouches, k ∈ f.af.handles := by
  rw [h.handles]
  unfold rxTouches
  split <;> simp [af]

theorem mem_handles_txTouches : ∀ k ∈ f.txTouches, k ∈ f.af.handles := by
  rw [h.handles]
  unfold txTouches
  split <;> simp [af]

theorem iocp_mem_handles (tx : Bool) : f.iocp tx ∈ f.af.handles := by
  rw [h.handles]
  cases tx <;> simp [iocp, af]

theorem sock_mem_handles : ⟨.socket, f.sock⟩ ∈ f.af.handles := by
  rw [h.handles]
  simp [af]

end Family

/-! ## What the calls share -/

namespace Shared

/-- What holds of what the calls share. The bind owns the handles in its fields, which are all there
unless it is closed, and nothing but the invalid handle was used or released while it was not open.
-/
structure Inv (s : Shared) : Prop where
  families : ∀ is6, (s.af is6).Inv
  owns : s.handles.Owns s.bind.handles
  faults : ∀ k ∈ s.handles.faults, k = .invalid
  closed : s.isOpen = 0 → s.bind.Zeroed
  live : s.isOpen ≠ 0 → s.bind.Live

variable {s : Shared} {is6 : Bool}

theorem Inv.live_af (h : s.Inv) (ho : s.isOpen ≠ 0) (is6 : Bool) : (s.af is6).af.Live := by
  cases is6
  · exact (h.live ho).v4
  · exact (h.live ho).v6

/-- What is open may be used. -/
theorem Inv.touch (h : s.Inv) {hs : List Handle} (hs' : ∀ k ∈ hs, k ∈ (s.af is6).af.handles) :
    s.touch hs = s := by
  have hc : s.handles.touch hs = s.handles := h.owns.touch fun k hk => by
    cases is6
    · exact List.mem_append_left _ (hs' k hk)
    · exact List.mem_append_right _ (hs' k hk)
  rw [Shared.touch, hc]

theorem handles_set {f : Family} (hf : f.af.handles = (s.af is6).af.handles) :
    (s.set is6 f).bind.handles = s.bind.handles := by
  cases is6 <;> simp [set, bind, WinRingBind.handles, hf]

/-- A step of one address family. -/
theorem Inv.set (h : s.Inv) {f : Family} (hf : f.Inv) (hk : (s.af is6).Keeps f)
    (hz : s.isOpen = 0 → f.af = (s.af is6).af) : (s.set is6 f).Inv where
  families is6' := by
    by_cases he : is6' = is6
    · subst he
      simpa [Shared.set] using hf
    · simpa [Shared.set, he] using h.families is6'
  owns := handles_set hk.handles ▸ h.owns
  faults := h.faults
  closed ho := by
    have hb : (s.set is6 f).bind = s.bind := by
      cases is6 <;> simp [Shared.set, bind, hz ho]
    exact hb ▸ h.closed ho
  live ho := by
    have hl := hk.live (h.live_af ho is6)
    cases is6
    · exact ⟨hl, (h.live ho).v6⟩
    · exact ⟨(h.live ho).v4, hl⟩

/-- What is shared behind `Open` or `closeAndZero`. -/
theorem inv_load {b : WinRingBind} {handles : Custody Handle} (ho : handles.Owns b.handles)
    (hfaults : ∀ k ∈ handles.faults, k = .invalid) (hclosed : b.isOpen = 0 → b.Zeroed)
    (hopen : b.isOpen ≠ 0 → b.isOpen = 1 ∧ b.Live ∧
      ∀ is6, (b.af is6).rx.Counts 0 packetsPerRing ∧ (b.af is6).tx.Tracks []) :
    (s.load b handles).Inv where
  families is6 := by
    by_cases h0 : b.isOpen = 0
    · obtain ⟨hrx, htx⟩ := (hclosed h0).closed.rings is6
      refine Family.inv_load _ ?_ ?_
      · rw [hrx, h0]
        exact RingBuffer.tracks_closeAndZero .zero
      · rw [htx]
        exact RingBuffer.tracks_closeAndZero .zero
    · obtain ⟨h1, -, hr⟩ := hopen h0
      refine Family.inv_load _ ?_ (hr is6).2
      rw [h1]
      exact tracks_of_counts (hr is6).1
  owns := ho
  faults := hfaults
  closed := hclosed
  live h0 := (hopen h0).2.1

/-- A closed bind has no open handles. -/
theorem Inv.live_eq_nil (h : s.Inv) (h0 : s.isOpen = 0) : s.handles.live = [] := by
  have hp := h.owns.perm
  rw [(h.closed h0).handles] at hp
  exact hp.eq_nil

/-- `Open` never panics. -/
theorem Inv.exists_Open (h : s.Inv) (port : UInt16) (run : OpenRun) :
    ∃ r, s.bind.Open port run = some r := by
  by_cases h0 : s.isOpen = 0
  · obtain ⟨r, he, -⟩ := WinRingBind.exists_Open (h.closed h0).closed port run
    exact ⟨r, he⟩
  · exact ⟨_, Open_of_isOpen_ne h0 port run⟩

end Shared

/-! ## A step of a call -/

namespace Family

/-- Whether a call has the mutex of the receive ring. -/
def rxHeld (f : Family) : ℕ := if f.rx.point = .idle then 0 else 1

/-- Whether a call has the mutex of the transmit ring. -/
def txHeld (f : Family) : ℕ := if f.txPoint = .idle then 0 else 1

section Held

variable {f : Family}

theorem rxHeld_idle (h : f.rx.point = .idle) : f.rxHeld = 0 := if_pos h

theorem rxHeld_of_ne (h : f.rx.point ≠ .idle) : f.rxHeld = 1 := if_neg h

theorem rxHeld_inside (h : f.rx.point.inside = true) : f.rxHeld = 1 := by
  refine rxHeld_of_ne fun h' => ?_
  rw [h'] at h
  cases h

theorem txHeld_idle (h : f.txPoint = .idle) : f.txHeld = 0 := if_pos h

theorem txHeld_of_ne (h : f.txPoint ≠ .idle) : f.txHeld = 1 := if_neg h

end Held

/-- The completion port of a ring. -/
def port (f : Family) (tx : Bool) : Port := if tx then f.txPort else f.rxPort

/-- A call waits for the port of a ring. -/
def waits (f : Family) (tx : Bool) : Bool := if tx then f.txPoint.waits else f.rx.point.waits

/-- The completions in the queue of a ring. -/
def ready (f : Family) (tx : Bool) : ℕ := if tx then f.done else f.rx.completed.length

theorem Keeps.posts_le {f f' : Family} (h : f.Keeps f') (tx : Bool) :
    (f.port tx).posts ≤ (f'.port tx).posts := by
  cases tx
  · exact h.rxPosts
  · exact h.txPosts

theorem Inv.covers {f : Family} (h : f.Inv) (tx : Bool) :
    (f.port tx).Covers (f.waits tx) (f.ready tx) := by
  cases tx
  · exact h.rxCovers
  · exact h.txCovers

end Family

namespace Pc

/-- The datagram that is being sent fits into a packet. -/
def Fits : Pc → Prop
  | sendLock _ _ buf _ | sending _ _ buf _ => buf.length ≤ bytesPerPacket
  | _ => True

/-- The rings to whose ports the call still posts. -/
def left : Pc → List RingName
  | closePost left => left
  | _ => []

/-- The call is on its way to close the bind. -/
def closing : Pc → Bool
  | closePost _ | closeLock => true
  | _ => false

/-- The call has no mutex of a ring and is not on its way to close the bind. -/
def outside : Pc → Bool
  | receiving .. | sending .. | closePost .. | closeLock => false
  | _ => true

/-- The invalid handle that the next step of a call releases. -/
def invalid (quiet : Bool) (s : Shared) (a : Ans) : Pc → List Handle
  | «open» port => if quiet then s.bind.invalid port a.run else []
  | _ => []

/-- What a step of a call does. A call that has found the bind open finds it open until it releases
the read lock, the mutex of a ring passes from the ring to a call and back, and a bind that is being
closed has a call that closes it, which has posted to the ports or is about to. -/
structure Stepped (quiet : Bool) (a : Ans) (s s' : Shared) (pc pc' : Pc) : Prop where
  inv : s'.Inv
  faults : s'.handles.faults = pc.invalid quiet s a ++ s.handles.faults
  entered : pc'.entered = true → s'.isOpen ≠ 0
  fits : pc'.Fits
  isOpen : quiet = false → s.isOpen ≠ 0 → s'.isOpen ≠ 0
  rx : ∀ is6, (s'.af is6).rxHeld + (pc.inRx is6).toNat = (s.af is6).rxHeld + (pc'.inRx is6).toNat
  tx : ∀ is6, (s'.af is6).txHeld + (pc.inTx is6).toNat = (s.af is6).txHeld + (pc'.inTx is6).toNat
  posted : s'.isOpen = 2 → ∀ r : RingName, r ∈ pc'.left ∨ 0 < ((s'.af r.is6).port r.tx).posts ∨
    s.isOpen = 2 ∧ r ∉ pc.left ∧ ((s.af r.is6).port r.tx).posts = 0
  closing : s'.isOpen = 2 → pc'.closing = true ∨ s.isOpen = 2 ∧ pc.closing = false

section Step

variable {quiet : Bool} {a : Ans} {s : Shared} {pc pc' : Pc}

theorem inRx_outside (h : pc.outside = true) (is6 : Bool) : pc.inRx is6 = false := by
  cases pc <;> first | rfl | cases h

theorem inTx_outside (h : pc.outside = true) (is6 : Bool) : pc.inTx is6 = false := by
  cases pc <;> first | rfl | cases h

theorem left_outside (h : pc.outside = true) : pc.left = [] := by
  cases pc <;> first | rfl | cases h

theorem closing_outside (h : pc.outside = true) : pc.closing = false := by
  cases pc <;> first | rfl | cases h

/-- A step that leaves everything shared alone. -/
theorem stepped_same (h : s.Inv) (he : pc'.entered = true → s.isOpen ≠ 0) (hf : pc'.Fits)
    (hrx : ∀ is6, pc'.inRx is6 = pc.inRx is6) (htx : ∀ is6, pc'.inTx is6 = pc.inTx is6)
    (hl : pc'.left = pc.left) (hc : pc'.closing = pc.closing)
    (hi : pc.invalid quiet s a = []) : Stepped quiet a s s pc pc' where
  inv := h
  faults := by rw [hi, List.nil_append]
  entered := he
  fits := hf
  isOpen _ := id
  rx is6 := by rw [hrx]
  tx is6 := by rw [htx]
  posted h2 r := by
    rw [hl]
    by_cases hr : r ∈ pc.left
    · exact .inl hr
    · rcases Nat.eq_zero_or_pos (((s.af r.is6).port r.tx).posts) with h0 | h0
      · exact .inr (.inr ⟨h2, hr, h0⟩)
      · exact .inr (.inl h0)
  closing h2 := by
    rw [hc]
    rcases hb : pc.closing with - | -
    · exact .inr ⟨h2, rfl⟩
    · exact .inl rfl

/-- A step from a point outside the rings to another one. -/
theorem stepped_outside (h : s.Inv) (he : pc'.entered = true → s.isOpen ≠ 0) (hf : pc'.Fits)
    (ho : pc.outside = true) (ho' : pc'.outside = true) (hi : pc.invalid quiet s a = []) :
    Stepped quiet a s s pc pc' :=
  stepped_same h he hf (fun is6 => by rw [inRx_outside ho, inRx_outside ho'])
    (fun is6 => by rw [inTx_outside ho, inTx_outside ho'])
    (by rw [left_outside ho, left_outside ho']) (by rw [closing_outside ho, closing_outside ho']) hi

/-- A call that returns without having touched anything. -/
theorem stepped_returned (h : s.Inv) (ho : pc.outside = true) (hi : pc.invalid quiet s a = [])
    (r : Returned) : Stepped quiet a s s pc (.returned r) :=
  stepped_outside h (by simp [Pc.entered]) trivial ho rfl hi

/-- A step of one address family, of a call that is not about to close. -/
theorem stepped_set (h : s.Inv) {is6 : Bool} {f : Family} (hi : f.Inv) (hk : (s.af is6).Keeps f)
    (ho : s.isOpen ≠ 0) (hf : pc'.Fits)
    (hrx : f.rxHeld + (pc.inRx is6).toNat = (s.af is6).rxHeld + (pc'.inRx is6).toNat)
    (hrx' : pc.inRx (!is6) = pc'.inRx (!is6))
    (htx : f.txHeld + (pc.inTx is6).toNat = (s.af is6).txHeld + (pc'.inTx is6).toNat)
    (htx' : pc.inTx (!is6) = pc'.inTx (!is6)) (hl : ∀ r ∈ pc.left, r ∈ pc'.left ∨
      0 < (((s.set is6 f).af r.is6).port r.tx).posts) (hc : pc'.closing = pc.closing)
    (hinv : pc.invalid quiet s a = []) : Stepped quiet a s (s.set is6 f) pc pc' where
  inv := h.set hi hk fun h0 => absurd h0 ho
  faults := by rw [hinv, List.nil_append]; rfl
  entered _ := ho
  fits := hf
  isOpen _ := id
  rx is6' := by
    rcases eq_or_ne is6' is6 with rfl | hne
    · simpa [Shared.set] using hrx
    · rw [Bool.eq_not_of_ne hne, hrx']
      simp [Shared.set]
  tx is6' := by
    rcases eq_or_ne is6' is6 with rfl | hne
    · simpa [Shared.set] using htx
    · rw [Bool.eq_not_of_ne hne, htx']
      simp [Shared.set]
  posted h2 r := by
    by_cases hr : r ∈ pc.left
    · rcases hl r hr with hr | hr
      · exact .inl hr
      · exact .inr (.inl hr)
    rcases Nat.eq_zero_or_pos (((s.af r.is6).port r.tx).posts) with h0 | h0
    · exact .inr (.inr ⟨h2, hr, h0⟩)
    · refine .inr (.inl ?_)
      rcases eq_or_ne r.is6 is6 with rfl | hne
      · simpa [Shared.set] using h0.trans_le (hk.posts_le r.tx)
      · simpa [Shared.set, hne] using h0
  closing h2 := by
    rw [hc]
    rcases hb : pc.closing with - | -
    · exact .inr ⟨h2, rfl⟩
    · exact .inl rfl

/-- `Open`, or the end of `Close`, with the write lock. -/
theorem stepped_load {b : WinRingBind} {handles : Custody Handle} (h : (s.load b handles).Inv)
    (hheld : ∀ is6, (s.af is6).rxHeld = 0 ∧ (s.af is6).txHeld = 0) (hb : b.isOpen ≠ 2)
    (hrx : ∀ is6, pc.inRx is6 = false) (htx : ∀ is6, pc.inTx is6 = false)
    (hf : handles.faults = pc.invalid true s a ++ s.handles.faults) (r : Returned) :
    Stepped true a s (s.load b handles) pc (.returned r) where
  inv := h
  faults := hf
  entered := by simp [Pc.entered]
  fits := trivial
  isOpen := by simp
  rx is6 := by
    rw [(hheld is6).1, hrx is6]
    rfl
  tx is6 := by
    rw [(hheld is6).2, htx is6]
    rfl
  posted h2 := absurd h2 hb
  closing h2 := absurd h2 hb

/-- `Receive` takes a step. -/
theorem exists_receiving (h : s.Inv) (ho : s.isOpen ≠ 0) {is6 : Bool}
    (hpt : (s.af is6).rx.point ≠ .idle) (ha : a.corrupt = false) :
    ∃ s' pc', (receiving is6).step quiet s a = some (s', pc') ∧
      Stepped quiet a s s' (.receiving is6) pc' := by
  have hf := h.families is6
  obtain ⟨f, ended, he, hs⟩ := hf.exists_rxStep (hf.rxPoint.resolve_left hpt) (s.isOpen == 1) ha
  have htouch := h.touch (Family.mem_handles_rxTouches (h.live_af ho is6))
  have htx : f.txHeld = (s.af is6).txHeld := by rw [Family.txHeld, hs.txPoint, Family.txHeld]
  simp only [step, htouch, he, Option.bind_eq_bind, Option.bind_some]
  refine ⟨_, _, rfl, ?_⟩
  rcases ended with - | - | r
  case leaves =>
    refine stepped_set h hs.inv hs.keeps ho trivial ?_ (by simp [inRx]) (by rw [htx]; rfl) rfl
      (by simp [left]) rfl rfl
    rw [Family.rxHeld_idle (hs.leaves r rfl), Family.rxHeld_of_ne hpt]
    simp [inRx]
  all_goals
    refine stepped_set h hs.inv hs.keeps ho trivial ?_ rfl (by rw [htx]) rfl (by simp [left]) rfl
      rfl
    rw [Family.rxHeld_inside (hs.stays (by simp)), Family.rxHeld_of_ne hpt]

/-- `Send` takes a step. -/
theorem exists_sending (h : s.Inv) (ho : s.isOpen ≠ 0) {is6 : Bool}
    (hpt : (s.af is6).txPoint ≠ .idle) (nend : WinRingEndpoint) {buf : List UInt8}
    (hbuf : buf.length ≤ bytesPerPacket) (rest : List (List UInt8)) (ha : a.corrupt = false) :
    ∃ s' pc', (sending is6 nend buf rest).step quiet s a = some (s', pc') ∧
      Stepped quiet a s s' (.sending is6 nend buf rest) pc' := by
  obtain ⟨f, ended, he, hs⟩ := (h.families is6).exists_txStep hpt (s.isOpen == 1) nend hbuf ha
  have htouch := h.touch (Family.mem_handles_txTouches (h.live_af ho is6))
  have hrx : f.rxHeld = (s.af is6).rxHeld := by rw [Family.rxHeld, hs.rx, Family.rxHeld]
  simp only [step, htouch, he, Option.bind_eq_bind, Option.bind_some]
  refine ⟨_, _, rfl, ?_⟩
  -- the mutex is released when the call leaves the ring, whether it goes on to the next datagram
  have hleave : ∀ pc', f.txPoint = .idle → pc'.outside = true → pc'.Fits →
      Stepped quiet a s (s.set is6 f) (.sending is6 nend buf rest) pc' := by
    intro pc' hidle hout hfits
    refine stepped_set h hs.inv hs.keeps ho hfits ?_ (inRx_outside hout _).symm ?_ ?_
      (by simp [left]) (closing_outside hout) rfl
    · rw [hrx, inRx_outside hout]
      rfl
    · rw [Family.txHeld_idle hidle, Family.txHeld_of_ne hpt, inTx_outside hout]
      simp [inTx]
    · rw [inTx_outside hout]
      simp [inTx]
  rcases ended with - | - | err | e
  case leaves.none => exact hleave _ (hs.leaves _ rfl) rfl trivial
  case leaves.some => exact hleave _ (hs.leaves _ rfl) rfl trivial
  all_goals
    refine stepped_set h hs.inv hs.keeps ho hbuf (by rw [hrx]) rfl ?_ rfl (by simp [left]) rfl rfl
    rw [Family.txHeld_of_ne (hs.stays (by simp)), Family.txHeld_of_ne hpt]

/-- **The next step of a call** does not panic. -/
theorem exists_step (h : s.Inv) (ho : pc.entered = true → s.isOpen ≠ 0) (hfits : pc.Fits)
    (hrx : ∀ is6, pc.inRx is6 = true → (s.af is6).rx.point ≠ .idle)
    (htx : ∀ is6, pc.inTx is6 = true → (s.af is6).txPoint ≠ .idle)
    (hheld : quiet = true → ∀ is6, (s.af is6).rxHeld = 0 ∧ (s.af is6).txHeld = 0)
    (hfresh : a.run.Fresh) (ha : a.corrupt = false) :
    ∃ s' pc', pc.step quiet s a = some (s', pc') ∧ Stepped quiet a s s' pc pc' := by
  cases pc with
  | receive is6 bufs sizes eps =>
    simp only [step]
    split
    · exact ⟨_, _, rfl, stepped_returned h rfl rfl _⟩
    rcases bufs with - | ⟨buf, bufs⟩
    · exact ⟨_, _, rfl, stepped_returned h rfl rfl _⟩
    dsimp only
    split
    · exact ⟨_, _, rfl, stepped_returned h rfl rfl _⟩
    · exact ⟨_, _, rfl, stepped_outside h (by simp [entered]) trivial rfl rfl rfl⟩
  | receiveRLock is6 buf =>
    refine ⟨_, _, rfl, ?_⟩
    split <;> exact stepped_outside h (by simp [entered]) trivial rfl rfl rfl
  | receiveLoad is6 buf =>
    refine ⟨_, _, rfl, ?_⟩
    split
    · exact stepped_outside h (fun _ => by omega) trivial rfl rfl rfl
    · exact stepped_returned h rfl rfl _
  | receiveLock is6 buf =>
    simp only [step]
    split
    · next hpt =>
      obtain ⟨hi, hk⟩ := (h.families is6).rxEnter hpt buf
      refine ⟨_, _, rfl, stepped_set h hi hk (ho rfl) trivial ?_ (by simp [inRx]) rfl rfl
        (by simp [left]) rfl rfl⟩
      rw [Family.rxHeld_idle hpt, Family.rxHeld_inside rfl]
      simp [inRx]
    · exact ⟨_, _, rfl, stepped_outside h ho trivial rfl rfl rfl⟩
  | receiving is6 => exact exists_receiving h (ho rfl) (hrx is6 (by simp [inRx])) ha
  | send endpoint bufs =>
    rcases endpoint with - | nend
    · exact ⟨_, _, rfl, stepped_returned h rfl rfl _⟩
    · refine ⟨_, _, rfl, ?_⟩
      split <;> exact stepped_outside h (by simp [entered]) trivial rfl rfl rfl
  | sendNext nend bufs =>
    rcases bufs with - | ⟨buf, rest⟩
    · exact ⟨_, _, rfl, stepped_returned h rfl rfl _⟩
    simp only [step]
    split
    · exact ⟨_, _, rfl, stepped_outside h (by simp [entered]) trivial rfl rfl rfl⟩
    split
    · exact ⟨_, _, rfl, stepped_outside h (by simp [entered]) trivial rfl rfl rfl⟩
    split
    · exact ⟨_, _, rfl, stepped_returned h rfl rfl _⟩
    split
    · exact ⟨_, _, rfl, stepped_returned h rfl rfl _⟩
    · next hle =>
      exact ⟨_, _, rfl, stepped_outside h (fun _ => by omega) (Nat.le_of_not_lt hle) rfl rfl rfl⟩
  | sendLock is6 nend buf rest =>
    simp only [step]
    split
    · next hpt =>
      obtain ⟨hi, hk⟩ := (h.families is6).txEnter hpt
      refine ⟨_, _, rfl, stepped_set h hi hk (ho rfl) hfits rfl rfl ?_ (by simp [inTx])
        (by simp [left]) rfl rfl⟩
      rw [Family.txHeld_idle hpt, Family.txHeld_of_ne (by simp)]
      simp [inTx]
    · exact ⟨_, _, rfl, stepped_outside h ho hfits rfl rfl rfl⟩
  | sending is6 nend buf rest =>
    exact exists_sending h (ho rfl) (htx is6 (by simp [inTx])) nend hfits rest ha
  | bindSocket is6 interfaceIndex blackhole =>
    refine ⟨_, _, rfl, ?_⟩
    split <;> exact stepped_outside h (by simp [entered]) trivial rfl rfl rfl
  | bindLoad is6 interfaceIndex blackhole =>
    refine ⟨_, _, rfl, ?_⟩
    split
    · exact stepped_outside h (fun _ => by omega) trivial rfl rfl rfl
    · exact stepped_returned h rfl rfl _
  | bindSet is6 interfaceIndex blackhole =>
    have htouch : s.touch [⟨.socket, (s.af is6).sock⟩] = s :=
      h.touch (by simpa using Family.sock_mem_handles (h.live_af (ho rfl) is6))
    simp only [step, htouch]
    rcases a.err with - | e
    · obtain ⟨hi, hk⟩ := (h.families is6).bound (interfaceOption is6 interfaceIndex) blackhole
      exact ⟨_, _, rfl, stepped_set h hi hk (ho rfl) trivial rfl rfl rfl rfl (by simp [left]) rfl
        rfl⟩
    · exact ⟨_, _, rfl, stepped_returned h rfl rfl _⟩
  | close =>
    refine ⟨_, _, rfl, ?_⟩
    split <;> exact stepped_outside h (by simp [entered]) trivial rfl rfl rfl
  | closeLoad =>
    refine ⟨_, _, rfl, ?_⟩
    split
    · exact stepped_outside h (fun _ => by omega) trivial rfl rfl rfl
    · exact stepped_returned h rfl rfl _
  | closeStore =>
    refine ⟨_, _, rfl, ⟨⟨h.families, h.owns, h.faults, by simp, fun _ => ?_⟩, rfl, by simp, trivial,
      by simp, fun _ => rfl, fun _ => rfl, fun _ r => .inl ?_, fun _ => .inl rfl⟩⟩
    · exact ⟨(h.live (ho rfl)).v4, (h.live (ho rfl)).v6⟩
    · rcases r with ⟨is6, tx⟩
      cases is6 <;> cases tx <;> simp [left, ringNames]
  | closePost rings =>
    rcases rings with - | ⟨r, rings⟩
    · exact ⟨_, _, rfl, stepped_same h (by simp [entered]) trivial (fun _ => rfl) (fun _ => rfl)
        rfl rfl rfl⟩
    have htouch : s.touch [(s.af r.is6).iocp r.tx] = s :=
      h.touch (by simpa using Family.iocp_mem_handles (h.live_af (ho rfl) r.is6) r.tx)
    obtain ⟨hi, hk, -, hrx', htx'⟩ := (h.families r.is6).post r.tx
    simp only [step, htouch]
    refine ⟨_, _, rfl, stepped_set h hi hk (ho rfl) trivial ?_ rfl ?_ rfl ?_ rfl rfl⟩
    · rw [Family.rxHeld, hrx']
      rfl
    · rw [Family.txHeld, htx']
      rfl
    · intro r' hr'
      rcases List.mem_cons.mp hr' with rfl | hr'
      · right
        cases htx : r'.tx <;> simp [Shared.set, Family.port, Family.post, Port.post]
      · exact .inl hr'
  | closeLock =>
    simp only [step]
    split
    · next hq =>
      subst hq
      obtain ⟨howns, hfaults⟩ := owns_release h.owns (.inl rfl)
      rw [List.append_nil] at howns hfaults
      rw [← (zeroed_closeAndZero s.bind).handles] at howns
      refine ⟨_, _, rfl, stepped_load (Shared.inv_load howns (hfaults ▸ h.faults)
        (fun _ => zeroed_closeAndZero _) fun h0 => absurd rfl h0) (hheld rfl)
        (by simp [closeAndZero]) (fun _ => rfl) (fun _ => rfl) ?_ _⟩
      exact hfaults
    · exact ⟨_, _, rfl, stepped_same h (by simp [entered]) trivial (fun _ => rfl) (fun _ => rfl)
        rfl rfl rfl⟩
  | «open» port =>
    simp only [step]
    split
    · next hq =>
      subst hq
      obtain ⟨r, he⟩ := h.exists_Open port a.run
      obtain ⟨howns, hfaults, herr, hok⟩ := owns_Open h.closed hfresh h.owns he
      have hinvalid : ∀ k ∈ (s.bind.openCustody port a.run s.handles).faults, k = .invalid := by
        rw [hfaults, List.forall_mem_append]
        refine ⟨?_, h.faults⟩
        rcases s.bind.invalid_cases port a.run with hi | hi <;> simp [hi]
      rw [he]
      refine ⟨_, _, rfl, ?_⟩
      rcases hr : r.err with - | e
      · obtain ⟨h1, hl⟩ := hok hr
        refine stepped_load (Shared.inv_load howns hinvalid (fun h0 => by omega)
          fun _ => ⟨h1, hl, counts_Open h.closed he hr⟩) (hheld rfl) (by omega) (fun _ => rfl)
          (fun _ => rfl) ?_ _
        exact hfaults
      · have hz := herr (by simp [hr])
        refine stepped_load (Shared.inv_load howns hinvalid (fun _ => hz)
          fun h0 => absurd hz.isOpen h0) (hheld rfl) (by simp [hz.isOpen]) (fun _ => rfl)
          (fun _ => rfl) ?_ _
        exact hfaults
    · next hq =>
      exact ⟨_, _, rfl, stepped_outside h (by simp [entered]) trivial rfl rfl
        (by simp [invalid, hq])⟩
  | returned r => exact ⟨_, _, rfl, stepped_returned h rfl rfl _⟩

end Step

end Pc

/-! ## Runs -/

namespace Calls

/-- What holds of the machine. The calls inside a ring are those that hold its mutex, of which there
is at most one. -/
structure Inv (w : Calls) : Prop where
  shared : w.shared.Inv
  entered : ∀ pc ∈ w.calls, pc.entered = true → w.shared.isOpen ≠ 0
  fits : ∀ pc ∈ w.calls, pc.Fits
  rx : ∀ is6, w.calls.countP (Pc.inRx is6) = (w.shared.af is6).rxHeld
  tx : ∀ is6, w.calls.countP (Pc.inTx is6) = (w.shared.af is6).txHeld
  posted : w.shared.isOpen = 2 → ∀ r : RingName,
    0 < ((w.shared.af r.is6).port r.tx).posts ∨ ∃ pc ∈ w.calls, r ∈ pc.left
  closing : w.shared.isOpen = 2 → ∃ pc ∈ w.calls, pc.closing = true

theorem inv_start (rxMem : ℕ → Filled) (txMem : ℕ → RingPacket) : (start rxMem txMem).Inv where
  shared :=
    { families := fun is6 =>
        { rxValid := ⟨RingBuffer.tracks_closeAndZero .zero, by simp [start], trivial⟩
          rxPoint := .inl rfl
          rxCovers := Port.covers_empty _
          txValid := ⟨RingBuffer.tracks_closeAndZero .zero, by simp [start]⟩
          done_le := Nat.zero_le _
          room := by simp [start]
          txCovers := Port.covers_empty _
          log := rfl }
      owns := Custody.owns_empty
      faults := by simp [start, Custody.empty]
      closed := fun _ => ⟨rfl, ⟨rfl, rfl, rfl⟩, rfl, rfl, rfl⟩
      live := fun h => absurd rfl h }
  entered := by simp [start]
  fits := by simp [start]
  rx _ := rfl
  tx _ := rfl
  posted := by simp [start]
  closing := by simp [start]

theorem reads_of_entered {pc : Pc} (h : pc.entered = true) : pc.reads = true := by
  cases pc <;> first | rfl | cases h

theorem reads_of_inRx {pc : Pc} {is6 : Bool} (h : pc.inRx is6 = true) : pc.reads = true := by
  cases pc <;> first | rfl | cases h

theorem reads_of_inTx {pc : Pc} {is6 : Bool} (h : pc.inTx is6 = true) : pc.reads = true := by
  cases pc <;> first | rfl | cases h

section Set

variable {α : Type} {l : List α} {i : ℕ} {a : α}

theorem countP_set_add (h : l[i]? = some a) (p : α → Bool) (b : α) :
    (l.set i b).countP p + (p a).toNat = l.countP p + (p b).toNat := by
  obtain ⟨hi, rfl⟩ := List.getElem?_eq_some_iff.mp h
  have hle := List.boole_getElem_le_countP (p := p) hi
  have hite : ∀ b : Bool, (if b = true then 1 else 0) = b.toNat := by decide
  rw [hite] at hle
  rw [List.countP_set hi, hite, hite]
  omega

/-- The other elements stay. -/
theorem mem_set_of_ne (h : l[i]? = some a) {c : α} (hc : c ∈ l) (hne : c ≠ a) (b : α) :
    c ∈ l.set i b := by
  obtain ⟨j, hj⟩ := List.mem_iff_getElem?.mp hc
  have hij : i ≠ j := by
    rintro rfl
    exact hne (Option.some.inj (hj.symm.trans h))
  exact List.mem_iff_getElem?.mpr ⟨j, by rw [List.getElem?_set_ne hij, hj]⟩

end Set

variable {w : Calls}

theorem Inv.held_of_quiet (h : w.Inv) (hq : w.quiet = true) (is6 : Bool) :
    (w.shared.af is6).rxHeld = 0 ∧ (w.shared.af is6).txHeld = 0 := by
  rw [quiet, List.all_eq_true] at hq
  rw [← h.rx, ← h.tx, List.countP_eq_zero, List.countP_eq_zero]
  refine ⟨fun pc hpc hin => ?_, fun pc hpc hin => ?_⟩
  · simpa [reads_of_inRx hin] using hq pc hpc
  · simpa [reads_of_inTx hin] using hq pc hpc

/-- What a step of a call does to the machine. -/
theorem Inv.stepped (h : w.Inv) {call : ℕ} {pc : Pc} (hc : w.calls[call]? = some pc) {a : Ans}
    {s' : Shared} {pc' : Pc} (hs : Pc.Stepped w.quiet a w.shared s' pc pc') :
    (⟨s', w.calls.set call pc'⟩ : Calls).Inv where
  shared := hs.inv
  entered c hmem hent := by
    rcases List.mem_or_eq_of_mem_set hmem with hmem | rfl
    · rcases hq : w.quiet with - | -
      · exact hs.isOpen hq (h.entered c hmem hent)
      · rw [quiet, List.all_eq_true] at hq
        simpa [reads_of_entered hent] using hq c hmem
    · exact hs.entered hent
  fits c hmem := by
    rcases List.mem_or_eq_of_mem_set hmem with hmem | rfl
    · exact h.fits c hmem
    · exact hs.fits
  rx is6 := by
    have hcount := countP_set_add hc (Pc.inRx is6) pc'
    have hrx := h.rx is6
    have := hs.rx is6
    dsimp only
    omega
  tx is6 := by
    have hcount := countP_set_add hc (Pc.inTx is6) pc'
    have htx := h.tx is6
    have := hs.tx is6
    dsimp only
    omega
  posted h2 r := by
    have hself : pc' ∈ w.calls.set call pc' :=
      List.mem_set (List.getElem?_eq_some_iff.mp hc).1 pc'
    rcases hs.posted h2 r with hr | hr | ⟨h2', hr, h0⟩
    · exact .inr ⟨pc', hself, hr⟩
    · exact .inl hr
    · rcases h.posted h2' r with hpos | ⟨c, hmem, hrc⟩
      · omega
      · exact .inr ⟨c, mem_set_of_ne hc hmem (fun he => hr (he ▸ hrc)) pc', hrc⟩
  closing h2 := by
    have hself : pc' ∈ w.calls.set call pc' :=
      List.mem_set (List.getElem?_eq_some_iff.mp hc).1 pc'
    rcases hs.closing h2 with hcl | ⟨h2', hcl⟩
    · exact ⟨pc', hself, hcl⟩
    · obtain ⟨c, hmem, hcc⟩ := h.closing h2'
      refine ⟨c, mem_set_of_ne hc hmem (fun he => ?_) pc', hcc⟩
      rw [he, hcl] at hcc
      cases hcc

/-- A step of the kernel. -/
theorem Inv.kernel (h : w.Inv) {is6 : Bool} {f : Family} (hi : f.Inv)
    (hk : (w.shared.af is6).Keeps f) (haf : f.af = (w.shared.af is6).af)
    (hrx : f.rxHeld = (w.shared.af is6).rxHeld) (htx : f.txHeld = (w.shared.af is6).txHeld) :
    ({ w with shared := w.shared.set is6 f } : Calls).Inv where
  shared := h.shared.set hi hk fun _ => haf
  entered := h.entered
  fits := h.fits
  rx is6' := by
    rw [h.rx is6']
    rcases eq_or_ne is6' is6 with rfl | hne <;> simp [Shared.set, *]
  tx is6' := by
    rw [h.tx is6']
    rcases eq_or_ne is6' is6 with rfl | hne <;> simp [Shared.set, *]
  posted h2 r := by
    rcases h.posted h2 r with hr | hr
    · left
      rcases eq_or_ne r.is6 is6 with rfl | hne
      · simpa [Shared.set] using hr.trans_le (hk.posts_le r.tx)
      · simpa [Shared.set, hne] using hr
    · exact .inr hr
  closing := h.closing

/-- The system hands out fresh handles, and the completion queue is not corrupt. -/
def Event.Sound : Event → Prop
  | .step _ a => a.run.Fresh ∧ a.corrupt = false
  | _ => True

/-- The invalid handle that is released by an event: by an `Open` that could not make a socket. -/
def invalid (w : Calls) : Event → List Handle
  | .step call a =>
    match w.calls[call]? with
    | none => []
    | some pc => pc.invalid w.quiet w.shared a
  | _ => []

theorem outside_of_initial {pc : Pc} (h : pc.initial = true) :
    pc.outside = true ∧ pc.entered = false ∧ pc.Fits := by
  cases pc <;> first | exact ⟨rfl, rfl, trivial⟩ | cases h

/-- A call starts. -/
theorem Inv.start (h : w.Inv) {pc : Pc} (hpc : pc.initial = true) :
    ({ w with calls := w.calls ++ [pc] } : Calls).Inv := by
  obtain ⟨hout, hent, hfits⟩ := outside_of_initial hpc
  exact
    { shared := h.shared
      entered := List.forall_mem_append.mpr ⟨h.entered, by simp [hent]⟩
      fits := List.forall_mem_append.mpr ⟨h.fits, by simp [hfits]⟩
      rx := fun is6 => by simp [h.rx, Pc.inRx_outside hout]
      tx := fun is6 => by simp [h.tx, Pc.inTx_outside hout]
      posted := fun h2 r => (h.posted h2 r).imp_right fun ⟨c, hmem, hr⟩ =>
        ⟨c, List.mem_append_left _ hmem, hr⟩
      closing := fun h2 =>
        let ⟨c, hmem, hcl⟩ := h.closing h2
        ⟨c, List.mem_append_left _ hmem, hcl⟩ }

/-- The mutex of a receive ring is held by the call inside it. -/
theorem Inv.rx_point (h : w.Inv) {pc : Pc} (hmem : pc ∈ w.calls) {is6 : Bool}
    (hin : pc.inRx is6 = true) : (w.shared.af is6).rx.point ≠ .idle := by
  intro hidle
  have hcount := h.rx is6
  rw [Family.rxHeld_idle hidle, List.countP_eq_zero] at hcount
  exact hcount pc hmem hin

/-- The mutex of a transmit ring is held by the call inside it. -/
theorem Inv.tx_point (h : w.Inv) {pc : Pc} (hmem : pc ∈ w.calls) {is6 : Bool}
    (hin : pc.inTx is6 = true) : (w.shared.af is6).txPoint ≠ .idle := by
  intro hidle
  have hcount := h.tx is6
  rw [Family.txHeld_idle hidle, List.countP_eq_zero] at hcount
  exact hcount pc hmem hin

/-- **Whatever happens next, no call panics.** -/
theorem Inv.exists_next (h : w.Inv) (e : Event) (he : e.Sound) :
    ∃ w', w.next e = some w' ∧ w'.Inv ∧
      w'.shared.handles.faults = w.invalid e ++ w.shared.handles.faults := by
  cases e with
  | start pc =>
    refine ⟨_, rfl, ?_⟩
    split
    · exact ⟨h.start ‹_›, rfl⟩
    · exact ⟨h, rfl⟩
  | step call a =>
    rcases hc : w.calls[call]? with - | pc
    · exact ⟨w, by simp [next, hc], h, by simp [invalid, hc]⟩
    have hmem := List.mem_of_getElem? hc
    obtain ⟨s', pc', hstep, hs⟩ := Pc.exists_step h.shared (h.entered pc hmem) (h.fits pc hmem)
      (fun is6 => h.rx_point hmem) (fun is6 => h.tx_point hmem) h.held_of_quiet he.1 he.2
    exact ⟨_, by simp [next, hc, hstep], h.stepped hc hs, by simpa [invalid, hc] using hs.faults⟩
  | deliver is6 d =>
    obtain ⟨hi, hk, htx, hrx⟩ := (h.shared.families is6).deliver d
    exact ⟨_, rfl, h.kernel hi hk (Family.af_deliver _ d) (by simp [Family.rxHeld, hrx])
      (by simp [Family.txHeld, htx]), rfl⟩
  | complete is6 =>
    obtain ⟨hi, hk, htx, hrx⟩ := (h.shared.families is6).complete
    exact ⟨_, rfl, h.kernel hi hk (Family.af_complete _) (by simp [Family.rxHeld, hrx])
      (by simp [Family.txHeld, htx]), rfl⟩

/-- Every run exists, and keeps what holds of the machine. -/
theorem Inv.exists_trace (h : w.Inv) {es : List Event} (hes : ∀ e ∈ es, e.Sound) :
    ∃ t, trace step w es = some t ∧ ∀ v ∈ t, v.output.Inv ∧
      v.output.shared.handles.faults =
        v.before.invalid v.input ++ v.before.shared.handles.faults := by
  refine Machine.exists_trace Inv (fun w e h he => ?_) h hes
  obtain ⟨w', hn, h', hf⟩ := h.exists_next e he
  exact ⟨w', w', by simp [step, hn], h', h', hf⟩

/-- **The calls, in any interleaving, use and release only handles that are open**, unless `Open`
could not make a socket: then its deferred function releases the invalid handle, and that is the
only fault. The open handles are those in the fields of the bind, and a closed bind has none:
whichever calls fail, and however far an `Open` got, nothing leaks. -/
theorem faults_only_invalid (rxMem : ℕ → Filled) (txMem : ℕ → RingPacket) {es : List Event}
    (hes : ∀ e ∈ es, e.Sound) :
    ∃ t, trace step (start rxMem txMem) es = some t ∧ ∀ v ∈ t,
      v.output.shared.handles.faults =
        v.before.invalid v.input ++ v.before.shared.handles.faults ∧
      (∀ k ∈ v.output.shared.handles.faults, k = .invalid) ∧
      v.output.shared.handles.live.Perm v.output.shared.bind.handles ∧
      (v.output.shared.isOpen = 0 → v.output.shared.handles.live = []) := by
  obtain ⟨t, ht, hall⟩ := (inv_start rxMem txMem).exists_trace hes
  refine ⟨t, ht, fun v hv => ?_⟩
  obtain ⟨hinv, hfaults⟩ := hall v hv
  have hs := hinv.shared
  exact ⟨hfaults, hs.faults, hs.owns.perm, hs.live_eq_nil⟩

/-- System calls of an `Open` that all succeed, with handles that are counted from a number. -/
def counted (n : ℕ) : AfWinRingBind.OpenRun :=
  ⟨.ok n, ⟨.ok (n + 1), .ok (n + 2), .ok (n + 3), .ok (n + 4)⟩,
    ⟨.ok (n + 5), .ok (n + 6), .ok (n + 7), .ok (n + 8)⟩, .ok (n + 9), none, .ok 51820⟩

/-- The environment answers every system call with success, and finds no completion. -/
def succeeds : Ans :=
  ⟨none, false, 0, false, false, fun _ => counted 1, fun _ => counted 11, fun _ _ => none, none⟩

/-- The environment makes no socket for IPv6. -/
def noSocket : Ans :=
  { succeeds with
    run := { succeeds.run with
      v6 := fun _ => { counted 11 with socket := .error (.errno .eafnosupport) } } }

theorem fresh_of_const {run : OpenRun} (h4 : ∀ port, run.v4 port = run.v4 0)
    (h : (run.acquires 0).Nodup ∧ ∀ k ∈ run.acquires 0, k.value ≠ 0) : run.Fresh := by
  intro port
  have he : run.acquires port = run.acquires 0 := by
    rw [OpenRun.acquires, h4, OpenRun.acquires, h4 (0 : UInt16).toNat]
  rwa [he]

theorem sound_succeeds (call : ℕ) : (Event.step call succeeds).Sound :=
  ⟨fresh_of_const (fun _ => rfl) (by decide), rfl⟩

theorem sound_noSocket (call : ℕ) : (Event.step call noSocket).Sound :=
  ⟨fresh_of_const (fun _ => rfl) (by decide), rfl⟩

/-- A bind is opened once the system makes a socket for IPv6. A receive call waits in its ring while
another call closes the bind, which it can do once the receive call has left. -/
def closedWhileReceiving : List Event :=
  [.start (.open 0), .step 0 noSocket, .start (.open 0), .step 1 succeeds,
    .start (.receive false [1500] 1 1)] ++
    List.replicate 21 (.step 2 succeeds) ++ [.start .close] ++
    List.replicate 9 (.step 3 succeeds) ++ [.step 2 succeeds, .step 3 succeeds]

theorem sound_closedWhileReceiving : ∀ e ∈ closedWhileReceiving, e.Sound := by
  simp only [closedWhileReceiving, List.forall_mem_append, List.forall_mem_cons,
    List.forall_mem_replicate]
  exact ⟨⟨⟨⟨⟨trivial, sound_noSocket 0, trivial, sound_succeeds 1, trivial, by simp⟩,
    .inr (sound_succeeds 2)⟩, trivial, by simp⟩, .inr (sound_succeeds 3)⟩, sound_succeeds 2,
    sound_succeeds 3, by simp⟩

/-- The first call of `Open` releases the invalid handle. While the call that closes the bind waits
for the write lock, the 18 handles are open. -/
theorem faults_only_invalid_closedWhileReceiving :
    (∃ t, trace step (start (fun _ => ⟨⟨⟨0, .replicate 30 0⟩, []⟩, 0⟩)
        fun _ => ⟨⟨0, .replicate 30 0⟩, []⟩) closedWhileReceiving = some t ∧ ∀ v ∈ t,
      v.output.shared.handles.faults =
        v.before.invalid v.input ++ v.before.shared.handles.faults ∧
      (∀ k ∈ v.output.shared.handles.faults, k = .invalid) ∧
      v.output.shared.handles.live.Perm v.output.shared.bind.handles ∧
      (v.output.shared.isOpen = 0 → v.output.shared.handles.live = [])) ∧
    ((trace step (start (fun _ => ⟨⟨⟨0, .replicate 30 0⟩, []⟩, 0⟩)
        fun _ => ⟨⟨0, .replicate 30 0⟩, []⟩) closedWhileReceiving).map fun t =>
      (t.map fun v => (v.output.shared.handles.faults.length, v.output.shared.isOpen,
        v.output.shared.handles.live.length)).dedup) =
      some [(0, 0, 0), (1, 1, 18), (1, 2, 18), (1, 0, 0)] :=
  ⟨faults_only_invalid _ _ sound_closedWhileReceiving, by decide +kernel⟩

/-- **No wake-up is lost.** While a call waits for an empty port, a notification is pending and no
completion has arrived, so that the next one wakes the call. If the bind is being closed then, a
call is still to post to that port. -/
theorem no_lost_wakeup (rxMem : ℕ → Filled) (txMem : ℕ → RingPacket) {es : List Event}
    (hes : ∀ e ∈ es, e.Sound) :
    ∃ t, trace step (start rxMem txMem) es = some t ∧ ∀ v ∈ t, ∀ r : RingName,
      (v.output.shared.af r.is6).waits r.tx = true →
      ((v.output.shared.af r.is6).port r.tx).packets = 0 →
      ((v.output.shared.af r.is6).port r.tx).armed = true ∧
      (v.output.shared.af r.is6).ready r.tx = 0 ∧
      (v.output.shared.isOpen = 2 → ∃ pc ∈ v.output.calls, r ∈ pc.left) := by
  obtain ⟨t, ht, hall⟩ := (inv_start rxMem txMem).exists_trace hes
  refine ⟨t, ht, fun v hv r hw h0 => ?_⟩
  have hcov := ((hall v hv).1.shared.families r.is6).covers r.tx
  rw [hw] at hcov
  obtain ⟨harmed, hready⟩ := hcov.armed h0
  refine ⟨harmed, hready, fun h2 => ?_⟩
  rcases (hall v hv).1.posted h2 r with hpos | hleft
  · have := hcov.packets_pos hpos
    omega
  · exact hleft

/-- In front of the call to `Close` the receive call waits for an empty port. -/
theorem no_lost_wakeup_closedWhileReceiving :
    (∃ t, trace step (start (fun _ => ⟨⟨⟨0, .replicate 30 0⟩, []⟩, 0⟩)
        fun _ => ⟨⟨0, .replicate 30 0⟩, []⟩) closedWhileReceiving = some t ∧
      ∀ v ∈ t, ∀ r : RingName,
        (v.output.shared.af r.is6).waits r.tx = true →
        ((v.output.shared.af r.is6).port r.tx).packets = 0 →
        ((v.output.shared.af r.is6).port r.tx).armed = true ∧
        (v.output.shared.af r.is6).ready r.tx = 0 ∧
        (v.output.shared.isOpen = 2 → ∃ pc ∈ v.output.calls, r ∈ pc.left)) ∧
    ((trace step (start (fun _ => ⟨⟨⟨0, .replicate 30 0⟩, []⟩, 0⟩)
        fun _ => ⟨⟨0, .replicate 30 0⟩, []⟩) closedWhileReceiving).map fun t =>
      (t.drop 25).map fun v => ((v.output.shared.af false).waits false,
        ((v.output.shared.af false).port false).packets,
        ((v.output.shared.af false).port false).armed)) = some
      ((true, 0, true) :: List.replicate 4 (true, 0, true) ++ List.replicate 6 (true, 1, true) ++
        [(false, 0, true), (false, 0, false)]) :=
  ⟨no_lost_wakeup _ _ sound_closedWhileReceiving, by decide +kernel⟩

/-- **What the kernel sends is what `Send` was given**, in the order in which it was submitted and
each datagram once, whichever calls send at the same time and although they reuse the packets. -/
theorem transmitted_append_pending (rxMem : ℕ → Filled) (txMem : ℕ → RingPacket)
    {es : List Event} (hes : ∀ e ∈ es, e.Sound) :
    ∃ t, trace step (start rxMem txMem) es = some t ∧ ∀ v ∈ t, ∀ is6,
      (v.output.shared.af is6).transmitted ++ (v.output.shared.af is6).pending =
        (v.output.shared.af is6).submitted ∧
      (v.output.shared.af is6).pending.length ≤ packetsPerRing := by
  obtain ⟨t, ht, hall⟩ := (inv_start rxMem txMem).exists_trace hes
  refine ⟨t, ht, fun v hv is6 => ?_⟩
  have hf := (hall v hv).1.shared.families is6
  refine ⟨hf.log, ?_⟩
  have hlen := hf.txValid.length_le
  have hused := hf.txValid.tracks.used_le
  simp only [Family.pending, List.length_map, List.length_drop]
  omega

/-- Two calls send at the same time, the first of them two datagrams. The kernel sends one before
the second datagram of the first call is submitted. -/
def sentByTwo : List Event :=
  [.start (.open 0), .step 0 succeeds,
    .start (.send (some ⟨2, .replicate 30 0⟩) [[1], [2]]),
    .start (.send (some ⟨2, .replicate 30 0⟩) [[3]])] ++
    List.replicate 3 (.step 1 succeeds) ++ List.replicate 3 (.step 2 succeeds) ++
    List.replicate 2 (.step 1 succeeds) ++ List.replicate 3 (.step 2 succeeds) ++
    [.complete false] ++ List.replicate 4 (.step 1 succeeds)

theorem sound_sentByTwo : ∀ e ∈ sentByTwo, e.Sound := by
  simp only [sentByTwo, List.forall_mem_append, List.forall_mem_cons, List.forall_mem_replicate]
  exact ⟨⟨⟨⟨⟨⟨⟨trivial, sound_succeeds 0, trivial, trivial, by simp⟩, .inr (sound_succeeds 1)⟩,
    .inr (sound_succeeds 2)⟩, .inr (sound_succeeds 1)⟩, .inr (sound_succeeds 2)⟩, trivial,
    by simp⟩, .inr (sound_succeeds 1)⟩

/-- The datagrams are submitted one after the other. -/
theorem transmitted_append_pending_sentByTwo :
    (∃ t, trace step (start (fun _ => ⟨⟨⟨0, .replicate 30 0⟩, []⟩, 0⟩)
        fun _ => ⟨⟨0, .replicate 30 0⟩, []⟩) sentByTwo = some t ∧ ∀ v ∈ t, ∀ is6,
      (v.output.shared.af is6).transmitted ++ (v.output.shared.af is6).pending =
        (v.output.shared.af is6).submitted ∧
      (v.output.shared.af is6).pending.length ≤ packetsPerRing) ∧
    ((trace step (start (fun _ => ⟨⟨⟨0, .replicate 30 0⟩, []⟩, 0⟩)
        fun _ => ⟨⟨0, .replicate 30 0⟩, []⟩) sentByTwo).bind List.getLast?).map
      (fun v => ((v.output.shared.af false).transmitted.map Prod.snd,
        (v.output.shared.af false).pending.map Prod.snd)) = some ([[1]], [[3], [2]]) :=
  ⟨transmitted_append_pending _ _ sound_sentByTwo, by decide +kernel⟩

end Calls

end WinRingBind

end BatchUDP
