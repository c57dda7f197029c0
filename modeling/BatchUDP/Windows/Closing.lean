import BatchUDP.Machine.Fair
import BatchUDP.Windows.Invariants

/-!
# Closing the Windows bind

`Close` waits for the write lock until all calls with the read lock have left. Some of them may wait
for a datagram that never comes. They leave because the flag makes every loop end, and because the
packet in the port of a ring wakes the call that waits there, also if it starts to wait later. So a
bind that is being closed gets closed, under every schedule in which each call has its turns. Calls
may start in the meantime if the read lock is kept back from them, which Go does from when a call
waits for the write lock.

## Main definitions

* `WinRingBind.Calls.rank`: a bound on the steps that are left while the bind is being closed

## Main results

* `WinRingBind.Pc.closing_step`: a step of a call lowers the rank, unless the call cannot go on
* `WinRingBind.Calls.close_completes`: a bind that is being closed gets closed, and the calls that
  had the read lock have left
-/

namespace BatchUDP

open Go Machine

namespace WinRingBind

open AfWinRingBind

/-! ## The rank -/

/-- The steps that are left of the calls inside the rings of a family. -/
def Family.rank (f : Family) : ℕ := f.rx.point.rank + f.txPoint.rank

theorem Family.rank_deliver (f : Family) (d : Delivery) : (f.deliver d).rank = f.rank := by
  have hpt : ∀ pt : RxPoint, pt.deliver.rank = pt.rank := fun pt => by cases pt <;> rfl
  unfold Family.deliver
  split
  · rfl
  · simp only [rank, AfWinRingBind.deliver, ‹f.rx.posted = _›, RxState.fill, hpt]

/-- The steps that are left of the calls inside the rings. -/
def Shared.rank (s : Shared) : ℕ := (s.af false).rank + (s.af true).rank

theorem Shared.rank_set (s : Shared) (is6 : Bool) (f : Family) :
    (s.set is6 f).rank + (s.af is6).rank = s.rank + f.rank := by
  cases is6 <;> simp [rank, set] <;> omega

namespace Pc

/-- The steps that are left of a call outside the rings, once the bind is being closed. -/
def rank : Pc → ℕ
  | receiveLock .. | closeStore => 6
  | receiveRLock .. | bindSocket .. | close => 2
  | receive .. | receiveLoad .. | bindLoad .. | bindSet .. | closeLoad => 1
  | send _ bufs => bufs.length + 2
  | sendNext _ bufs => bufs.length + 1
  | sendLock _ _ _ rest => rest.length + 5
  | sending _ _ _ rest => rest.length + 1
  | closePost left => left.length + 1
  | receiving .. | closeLock | «open» .. | returned .. => 0

/-- The call may not be able to go on: the read lock is kept back from it, it needs a mutex that
another call holds, it waits for an empty port, or it has returned. -/
def stuck (quiet : Bool) (s : Shared) : Pc → Bool
  | receiveRLock .. | send .. | bindSocket .. | close => true
  | receiveLock is6 _ => (s.af is6).rx.point ≠ .idle
  | receiving is6 => (s.af is6).waits false && ((s.af is6).port false).packets == 0
  | sendLock is6 .. => (s.af is6).txPoint ≠ .idle
  | sending is6 .. => (s.af is6).waits true && ((s.af is6).port true).packets == 0
  | closeLock | «open» .. => !quiet
  | returned .. => true
  | _ => false

/-- A step closes the bind: no call has the read lock, and the one that takes the step returns. -/
def Closes (quiet : Bool) (s' : Shared) (pc' : Pc) : Prop :=
  s'.isOpen = 0 ∧ quiet = true ∧ ∃ r, pc' = .returned r

/-- The call has got the read lock, whether it still has it or not, or has returned. -/
def passed : Pc → Bool
  | receive .. | receiveRLock .. | send .. | bindSocket .. | close | «open» .. => false
  | _ => true

/-- The call has not got the read lock, or has returned. -/
def young : Pc → Bool
  | receive .. | receiveRLock .. | send .. | bindSocket .. | close | «open» .. | returned .. => true
  | _ => false

/-- How a step brings a bind that is being closed nearer to being closed. -/
def Nearer (quiet : Bool) (s : Shared) (pc : Pc) (s' : Shared) (pc' : Pc) : Prop :=
  Closes quiet s' pc' ∨ s'.isOpen = 2 ∧ s'.rank + pc'.rank < s.rank + pc.rank ∨
    s' = s ∧ pc' = pc ∧ pc.stuck quiet s = true

section Step

variable {quiet : Bool} {s s' : Shared} {pc pc' : Pc} {a : Ans}

theorem nearer_same (h2 : s.isOpen = 2) (hr : pc'.rank < pc.rank) : Nearer quiet s pc s pc' :=
  .inr (.inl ⟨h2, by omega⟩)

theorem nearer_set (h2 : s.isOpen = 2) {is6 : Bool} {f : Family}
    (hr : f.rank + pc'.rank < (s.af is6).rank + pc.rank) :
    Nearer quiet s pc (s.set is6 f) pc' := by
  have := s.rank_set is6 f
  exact .inr (.inl ⟨h2, by omega⟩)

theorem nearer_stuck (hs : pc.stuck quiet s = true) : Nearer quiet s pc s pc :=
  .inr (.inr ⟨rfl, rfl, hs⟩)

/-- The call gets the read lock, or it is kept back. -/
theorem nearer_rlock (h2 : s.isOpen = 2) (hs : pc.stuck quiet s = true) {locked : Bool}
    (hr : pc'.rank < pc.rank) : Nearer quiet s pc s (if locked then pc else pc') := by
  cases locked
  · exact nearer_same h2 hr
  · exact nearer_stuck hs

/-- `Receive` takes a step. -/
theorem nearer_receiving (h : s.Inv) (h2 : s.isOpen = 2) {is6 : Bool}
    (hpt : (s.af is6).rx.point ≠ .idle)
    (ha : a.corrupt = false) (he : (receiving is6).step quiet s a = some (s', pc')) :
    Nearer quiet s (.receiving is6) s' pc' := by
  have hf := h.families is6
  obtain ⟨f, ended, hstep, hs⟩ := hf.exists_rxStep (hf.rxPoint.resolve_left hpt) (s.isOpen == 1) ha
  have htouch := h.touch (Family.mem_handles_rxTouches (h.live_af (by omega) is6))
  simp only [step, htouch, hstep, Option.bind_eq_bind, Option.bind_some, Option.some.injEq,
    Prod.mk.injEq] at he
  obtain ⟨rfl, rfl⟩ := he
  have hlt : ended ≠ .blocked → f.rank < (s.af is6).rank := fun hb => by
    have := hs.rank (by simp [h2]) hb
    rw [Family.rank, Family.rank, hs.txPoint]
    omega
  rcases ended with - | - | r
  · obtain ⟨rfl, hw, h0⟩ := hs.blocked rfl
    refine .inr (.inr ⟨by simp [Shared.set], rfl, ?_⟩)
    simp [stuck, Family.waits, Family.port, hw, h0, RxPoint.waits]
  · exact nearer_set h2 (by simpa [rank] using hlt (by simp))
  · exact nearer_set h2 (by simpa [rank] using hlt (by simp))

/-- `Send` takes a step. -/
theorem nearer_sending (h : s.Inv) (h2 : s.isOpen = 2) {is6 : Bool}
    (hpt : (s.af is6).txPoint ≠ .idle) {nend : WinRingEndpoint} {buf : List UInt8}
    (hbuf : buf.length ≤ bytesPerPacket) {rest : List (List UInt8)} (ha : a.corrupt = false)
    (he : (sending is6 nend buf rest).step quiet s a = some (s', pc')) :
    Nearer quiet s (.sending is6 nend buf rest) s' pc' := by
  obtain ⟨f, ended, hstep, hs⟩ := (h.families is6).exists_txStep hpt (s.isOpen == 1) nend hbuf ha
  have htouch := h.touch (Family.mem_handles_txTouches (h.live_af (by omega) is6))
  simp only [step, htouch, hstep, Option.bind_eq_bind, Option.bind_some, Option.some.injEq,
    Prod.mk.injEq] at he
  obtain ⟨rfl, rfl⟩ := he
  have hlt : ended ≠ .blocked → f.rank < (s.af is6).rank := fun hb => by
    have := hs.rank (by simp [h2]) hb
    rw [Family.rank, Family.rank, hs.rx]
    omega
  rcases ended with - | - | r | e
  · obtain ⟨rfl, hw, h0⟩ := hs.blocked rfl
    refine .inr (.inr ⟨by simp [Shared.set], rfl, ?_⟩)
    simp [stuck, Family.waits, Family.port, hw, h0, TxPoint.waits]
  · exact nearer_set h2 (by simpa [rank] using hlt (by simp))
  · exact nearer_set h2 (by simpa [rank] using hlt (by simp))
  · have := hlt (by simp)
    exact nearer_set h2 (by simp [rank]; omega)

/-- A bind that is being closed is not closed yet, so that `Open` fails and closes it. -/
theorem open_step (h2 : s.isOpen = 2) {port : UInt16}
    (he : (Pc.open port).step quiet s a = some (s', pc')) :
    Closes quiet s' pc' ∨ s' = s ∧ pc' = .open port ∧ quiet = false := by
  simp only [step] at he
  split at he
  · next hq =>
    have h0 : s.bind.isOpen ≠ 0 := by simp [Shared.bind, h2]
    rw [Open_of_isOpen_ne h0] at he
    obtain ⟨rfl, rfl⟩ := Prod.mk.inj (Option.some.inj he)
    exact .inl ⟨rfl, hq, _, rfl⟩
  · next hq =>
    obtain ⟨rfl, rfl⟩ := Prod.mk.inj (Option.some.inj he)
    exact .inr ⟨rfl, rfl, by simpa using hq⟩

/-- **A step of a call lowers the rank** of a bind that is being closed, or closes it, unless the
call cannot go on. -/
theorem closing_step (h : s.Inv) (h2 : s.isOpen = 2) (hfits : pc.Fits)
    (hrx : ∀ is6, pc.inRx is6 = true → (s.af is6).rx.point ≠ .idle)
    (htx : ∀ is6, pc.inTx is6 = true → (s.af is6).txPoint ≠ .idle) (ha : a.corrupt = false)
    (he : pc.step quiet s a = some (s', pc')) : Nearer quiet s pc s' pc' := by
  cases pc with
  | receiving is6 => exact nearer_receiving h h2 (hrx is6 (by simp [inRx])) ha he
  | sending is6 nend buf rest => exact nearer_sending h h2 (htx is6 (by simp [inTx])) hfits ha he
  | receive is6 bufs sizes eps =>
    simp only [step, h2, ne_eq, OfNat.ofNat_ne_one, not_false_eq_true, if_true] at he
    obtain ⟨rfl, rfl⟩ := Prod.mk.inj (Option.some.inj he)
    exact nearer_same h2 Nat.one_pos
  | receiveRLock is6 buf =>
    obtain ⟨rfl, rfl⟩ := Prod.mk.inj (Option.some.inj he)
    exact nearer_rlock h2 rfl (by simp [rank])
  | receiveLoad is6 buf =>
    obtain ⟨rfl, rfl⟩ := Prod.mk.inj (Option.some.inj he)
    exact nearer_same h2 (by simp [h2, receivedClosed, rank])
  | receiveLock is6 buf =>
    simp only [step] at he
    split at he
    · next hpt =>
      obtain ⟨rfl, rfl⟩ := Prod.mk.inj (Option.some.inj he)
      exact nearer_set h2 (by simp [Family.rank, rank, hpt, RxPoint.rank]; omega)
    · next hpt =>
      obtain ⟨rfl, rfl⟩ := Prod.mk.inj (Option.some.inj he)
      exact nearer_stuck (by simp [stuck, hpt])
  | send endpoint bufs =>
    rcases endpoint with - | nend
    · obtain ⟨rfl, rfl⟩ := Prod.mk.inj (Option.some.inj he)
      exact nearer_same h2 (by simp [rank])
    · obtain ⟨rfl, rfl⟩ := Prod.mk.inj (Option.some.inj he)
      exact nearer_rlock h2 rfl (by simp [rank])
  | sendNext nend bufs =>
    rcases bufs with - | ⟨buf, rest⟩
    · obtain ⟨rfl, rfl⟩ := Prod.mk.inj (Option.some.inj he)
      exact nearer_same h2 (by simp [rank])
    simp only [step, h2, ne_eq, OfNat.ofNat_ne_one, not_false_eq_true, if_true] at he
    split at he
    · obtain ⟨rfl, rfl⟩ := Prod.mk.inj (Option.some.inj he)
      exact nearer_same h2 (by simp [rank])
    split at he
    · obtain ⟨rfl, rfl⟩ := Prod.mk.inj (Option.some.inj he)
      exact nearer_same h2 (by simp [rank])
    · obtain ⟨rfl, rfl⟩ := Prod.mk.inj (Option.some.inj he)
      exact nearer_same h2 (by simp [rank])
  | sendLock is6 nend buf rest =>
    simp only [step] at he
    split at he
    · next hpt =>
      obtain ⟨rfl, rfl⟩ := Prod.mk.inj (Option.some.inj he)
      exact nearer_set h2 (by simp [Family.rank, rank, hpt, TxPoint.rank]; omega)
    · next hpt =>
      obtain ⟨rfl, rfl⟩ := Prod.mk.inj (Option.some.inj he)
      exact nearer_stuck (by simp [stuck, hpt])
  | bindSocket is6 interfaceIndex blackhole =>
    obtain ⟨rfl, rfl⟩ := Prod.mk.inj (Option.some.inj he)
    exact nearer_rlock h2 rfl (by simp [rank])
  | bindLoad is6 interfaceIndex blackhole =>
    obtain ⟨rfl, rfl⟩ := Prod.mk.inj (Option.some.inj he)
    exact nearer_same h2 (by simp [h2, rank])
  | bindSet is6 interfaceIndex blackhole =>
    have htouch : s.touch [⟨.socket, (s.af is6).sock⟩] = s :=
      h.touch (by simpa using Family.sock_mem_handles (h.live_af (by omega) is6))
    simp only [step, htouch] at he
    split at he
    · obtain ⟨rfl, rfl⟩ := Prod.mk.inj (Option.some.inj he)
      exact nearer_same h2 (by simp [rank])
    · obtain ⟨rfl, rfl⟩ := Prod.mk.inj (Option.some.inj he)
      exact nearer_set h2 (by simp [Family.rank, rank])
  | close =>
    obtain ⟨rfl, rfl⟩ := Prod.mk.inj (Option.some.inj he)
    exact nearer_rlock h2 rfl (by simp [rank])
  | closeLoad =>
    obtain ⟨rfl, rfl⟩ := Prod.mk.inj (Option.some.inj he)
    exact nearer_same h2 (by simp [h2, rank])
  | closeStore =>
    obtain ⟨rfl, rfl⟩ := Prod.mk.inj (Option.some.inj he)
    exact .inr (.inl ⟨rfl, by simp [Shared.rank, rank, ringNames]⟩)
  | closePost rings =>
    rcases rings with - | ⟨r, rings⟩
    · obtain ⟨rfl, rfl⟩ := Prod.mk.inj (Option.some.inj he)
      exact nearer_same h2 (by simp [rank])
    have htouch : s.touch [(s.af r.is6).iocp r.tx] = s :=
      h.touch (by simpa using Family.iocp_mem_handles (h.live_af (by omega) r.is6) r.tx)
    obtain ⟨-, -, -, hrx', htx'⟩ := (h.families r.is6).post r.tx
    simp only [step, htouch] at he
    obtain ⟨rfl, rfl⟩ := Prod.mk.inj (Option.some.inj he)
    exact nearer_set h2 (by simp [Family.rank, rank, hrx', htx'])
  | closeLock =>
    simp only [step] at he
    split at he
    · next hq =>
      obtain ⟨rfl, rfl⟩ := Prod.mk.inj (Option.some.inj he)
      exact .inl ⟨rfl, hq, _, rfl⟩
    · next hq =>
      obtain ⟨rfl, rfl⟩ := Prod.mk.inj (Option.some.inj he)
      exact nearer_stuck (by simp [stuck, hq])
  | «open» port =>
    rcases open_step h2 he with hcl | ⟨rfl, rfl, hq⟩
    · exact .inl hcl
    · exact nearer_stuck (by simp [stuck, hq])
  | returned r =>
    obtain ⟨rfl, rfl⟩ := Prod.mk.inj (Option.some.inj he)
    exact nearer_stuck rfl

/-- A call from which the read lock is kept back stays without it. -/
theorem young_step (h2 : s.isOpen = 2) (hy : pc.young = true) (hl : a.locked = true)
    (he : pc.step quiet s a = some (s', pc')) :
    Closes quiet s' pc' ∨ s' = s ∧ pc'.young = true := by
  cases pc with
  | receive is6 bufs sizes eps =>
    simp only [step, h2, ne_eq, OfNat.ofNat_ne_one, not_false_eq_true, if_true] at he
    obtain ⟨rfl, rfl⟩ := Prod.mk.inj (Option.some.inj he)
    exact .inr ⟨rfl, rfl⟩
  | receiveRLock | bindSocket | close =>
    simp only [step, hl, if_true] at he
    obtain ⟨rfl, rfl⟩ := Prod.mk.inj (Option.some.inj he)
    exact .inr ⟨rfl, rfl⟩
  | send endpoint bufs =>
    rcases endpoint with - | nend
    · obtain ⟨rfl, rfl⟩ := Prod.mk.inj (Option.some.inj he)
      exact .inr ⟨rfl, rfl⟩
    · simp only [step, hl, if_true] at he
      obtain ⟨rfl, rfl⟩ := Prod.mk.inj (Option.some.inj he)
      exact .inr ⟨rfl, rfl⟩
  | «open» port =>
    rcases open_step h2 he with hcl | ⟨rfl, rfl, -⟩
    · exact .inl hcl
    · exact .inr ⟨rfl, rfl⟩
  | returned r =>
    obtain ⟨rfl, rfl⟩ := Prod.mk.inj (Option.some.inj he)
    exact .inr ⟨rfl, rfl⟩
  | receiveLoad | receiveLock | receiving | sendNext | sendLock | sending | bindLoad | bindSet
  | closeLoad | closeStore | closePost | closeLock => cases hy

/-- A call that has had the read lock does not ask for it again. -/
theorem passed_step (hp : pc.passed = true) (he : pc.step quiet s a = some (s', pc')) :
    pc'.passed = true := by
  cases pc with
  | receive | receiveRLock | send | bindSocket | close | «open» => cases hp
  | receiveLoad | bindLoad | closeLoad =>
    obtain ⟨-, rfl⟩ := Prod.mk.inj (Option.some.inj he)
    split <;> rfl
  | receiveLock | sendLock | closeLock =>
    simp only [step] at he
    split at he
    · obtain ⟨-, rfl⟩ := Prod.mk.inj (Option.some.inj he)
      rfl
    · obtain ⟨-, rfl⟩ := Prod.mk.inj (Option.some.inj he)
      rfl
  | receiving | sending =>
    simp only [step, Option.bind_eq_bind, Option.bind_eq_some_iff] at he
    obtain ⟨⟨f, ended⟩, -, he⟩ := he
    obtain ⟨-, rfl⟩ := Prod.mk.inj (Option.some.inj he)
    split <;> rfl
  | sendNext nend bufs =>
    rcases bufs with - | ⟨buf, rest⟩
    · obtain ⟨-, rfl⟩ := Prod.mk.inj (Option.some.inj he)
      rfl
    simp only [step] at he
    split at he
    · obtain ⟨-, rfl⟩ := Prod.mk.inj (Option.some.inj he)
      rfl
    · split_ifs at he <;>
      · obtain ⟨-, rfl⟩ := Prod.mk.inj (Option.some.inj he)
        rfl
  | bindSet =>
    simp only [step] at he
    split at he
    · obtain ⟨-, rfl⟩ := Prod.mk.inj (Option.some.inj he)
      rfl
    · obtain ⟨-, rfl⟩ := Prod.mk.inj (Option.some.inj he)
      rfl
  | closePost rings =>
    rcases rings with - | ⟨r, rings⟩
    · obtain ⟨-, rfl⟩ := Prod.mk.inj (Option.some.inj he)
      rfl
    · obtain ⟨-, rfl⟩ := Prod.mk.inj (Option.some.inj he)
      rfl
  | closeStore | returned =>
    obtain ⟨-, rfl⟩ := Prod.mk.inj (Option.some.inj he)
    rfl

end Step

theorem passed_of_reads {pc : Pc} (h : pc.reads = true) : pc.passed = true := by
  cases pc <;> first | rfl | cases h

/-- A call that has given the read lock back waits for the write lock or has returned. -/
theorem eq_of_passed {pc : Pc} (h : pc.passed = true) (hr : pc.reads = false) :
    pc = .closeLock ∨ ∃ r, pc = .returned r := by
  cases pc with
  | closeLock => exact .inl rfl
  | returned r => exact .inr ⟨r, rfl⟩
  | receive | receiveRLock | send | bindSocket | close | «open» => cases h
  | _ => cases hr

end Pc

/-! ## Who can go on -/

namespace Calls

/-- The rank of the machine, of which only the first calls count. -/
def rank (n : ℕ) (w : Calls) : ℕ := w.shared.rank + ((w.calls.take n).map Pc.rank).sum

/-- The call posts to the ports. -/
def posting : Pc → Bool
  | .closePost _ => true
  | _ => false

/-- The call is inside a ring. -/
def inRing : Pc → Bool
  | .receiving .. | .sending .. => true
  | _ => false

/-- Which calls can go on: one that posts to the ports, or else one inside a ring, or else one with
the read lock, or else one that is about to close the bind. -/
def helps (calls : List Pc) (pc : Pc) : Bool :=
  if calls.any posting then posting pc
  else if calls.any inRing then inRing pc
  else if calls.any Pc.reads then pc.reads
  else pc.closing

/-- The first call that can go on, among the first ones. -/
def helper (n : ℕ) (w : Calls) : ℕ := (w.calls.take n).findIdx (helps (w.calls.take n))

/-- The bind is being closed since the calls were the given ones. The calls that have started since
have not got the read lock, and those that had it then do not ask for it again. -/
structure Closing (old : List Pc) (w : Calls) : Prop where
  inv : w.Inv
  isOpen : w.shared.isOpen = 2
  length : old.length ≤ w.calls.length
  young : ∀ pc ∈ w.calls.drop old.length, pc.young = true
  passed : ∀ (i : ℕ) (pc : Pc), old[i]? = some pc → pc.reads = true →
    ∃ pc', w.calls[i]? = some pc' ∧ pc'.passed = true

section Helper

variable {w : Calls} {old : List Pc} (h : Closing old w)
include h

theorem Closing.mem_take {pc : Pc} (hmem : pc ∈ w.calls) (hy : pc.young = false) :
    pc ∈ w.calls.take old.length := by
  rw [← List.take_append_drop old.length w.calls] at hmem
  refine (List.mem_append.mp hmem).resolve_right fun hd => ?_
  rw [h.young pc hd] at hy
  cases hy

theorem Closing.exists_helps :
    ∃ pc ∈ w.calls.take old.length, helps (w.calls.take old.length) pc = true := by
  unfold helps
  split_ifs with hp hr hq
  · simpa using hp
  · simpa using hr
  · simpa using hq
  · obtain ⟨pc, hmem, hcl⟩ := h.inv.closing h.isOpen
    exact ⟨pc, h.mem_take hmem (by cases pc <;> first | rfl | cases hcl), hcl⟩

/-- Once nobody posts to the ports anymore, no call waits for an empty one. -/
theorem Closing.port_nonempty (hp : (w.calls.take old.length).any posting = false) (r : RingName)
    (hw : (w.shared.af r.is6).waits r.tx = true) :
    ((w.shared.af r.is6).port r.tx).packets ≠ 0 := by
  have hcov := (h.inv.shared.families r.is6).covers r.tx
  rw [hw] at hcov
  rcases h.inv.posted h.isOpen r with hpos | ⟨pc, hmem, hleft⟩
  · have := hcov.packets_pos hpos
    omega
  · rw [List.any_eq_false] at hp
    cases pc <;> first | exact absurd rfl (hp _ (h.mem_take hmem rfl)) | cases hleft

/-- Once nobody is inside a ring, the mutexes are free. -/
theorem Closing.idle (hr : (w.calls.take old.length).any inRing = false) (is6 : Bool) :
    (w.shared.af is6).rx.point = .idle ∧ (w.shared.af is6).txPoint = .idle := by
  rw [List.any_eq_false] at hr
  have hrx : w.calls.countP (Pc.inRx is6) = 0 := List.countP_eq_zero.mpr fun pc hmem hin => by
    cases pc <;> first | exact hr _ (h.mem_take hmem rfl) rfl | cases hin
  have htx : w.calls.countP (Pc.inTx is6) = 0 := List.countP_eq_zero.mpr fun pc hmem hin => by
    cases pc <;> first | exact hr _ (h.mem_take hmem rfl) rfl | cases hin
  rw [h.inv.rx] at hrx
  rw [h.inv.tx] at htx
  constructor
  · by_contra hne
    rw [Family.rxHeld_of_ne hne] at hrx
    cases hrx
  · by_contra hne
    rw [Family.txHeld_of_ne hne] at htx
    cases htx

/-- Once none of the first calls has the read lock, none has it. -/
theorem Closing.quiet (hq : (w.calls.take old.length).any Pc.reads = false) : w.quiet = true := by
  rw [List.any_eq_false] at hq
  rw [Calls.quiet, List.all_eq_true]
  intro pc hmem
  rw [Bool.not_eq_true', ← Bool.not_eq_true]
  intro hr
  refine hq pc (h.mem_take hmem ?_) hr
  cases pc <;> first | rfl | cases hr

/-- **Who can go on does.** -/
theorem Closing.not_stuck {pc : Pc} (hmem : pc ∈ w.calls.take old.length)
    (hpc : helps (w.calls.take old.length) pc = true) :
    pc.stuck w.quiet w.shared = false := by
  unfold helps at hpc
  split_ifs at hpc with hp hr hq
  · cases pc <;> first | rfl | cases hpc
  · rw [Bool.not_eq_true] at hp
    cases pc with
    | receiving is6 =>
      have := h.port_nonempty hp ⟨is6, false⟩
      simpa [Pc.stuck] using this
    | sending is6 nend buf rest =>
      have := h.port_nonempty hp ⟨is6, true⟩
      simpa [Pc.stuck] using this
    | _ => cases hpc
  · rw [Bool.not_eq_true] at hr
    have hout : inRing pc = false := by simpa using List.any_eq_false.mp hr pc hmem
    cases pc with
    | receiveLock is6 buf => simpa [Pc.stuck] using (h.idle hr is6).1
    | sendLock is6 nend buf rest => simpa [Pc.stuck] using (h.idle hr is6).2
    | receiving | sending => cases hout
    | receive | receiveRLock | send | bindSocket | close | closeLock | «open» | returned =>
      cases hpc
    | receiveLoad | sendNext | bindLoad | bindSet | closeLoad | closeStore | closePost => rfl
  · have hquiet := h.quiet (Bool.eq_false_iff.mpr hq)
    cases pc with
    | closePost => rfl
    | closeLock => simp [Pc.stuck, hquiet]
    | _ => cases hpc

theorem Closing.helper_spec :
    w.helper old.length < old.length ∧
      ∃ pc, w.calls[w.helper old.length]? = some pc ∧ pc.stuck w.quiet w.shared = false := by
  obtain ⟨pc, hmem, hpc⟩ := h.exists_helps
  have hlt : w.helper old.length < (w.calls.take old.length).length :=
    List.findIdx_lt_length_of_exists ⟨pc, hmem, hpc⟩
  have hold : w.helper old.length < old.length :=
    hlt.trans_le (by simp)
  refine ⟨hold, (w.calls.take old.length)[w.helper old.length], ?_, ?_⟩
  · rw [← List.getElem?_take_of_lt hold]
    exact List.getElem?_eq_getElem hlt
  · exact h.not_stuck (List.getElem_mem hlt) (List.findIdx_getElem (w := hlt))

end Helper

/-! ## Fair runs -/

theorem sum_map_set_add {α : Type} {l : List α} {i : ℕ} {a : α} (h : l[i]? = some a) (f : α → ℕ)
    (b : α) : ((l.set i b).map f).sum + f a = (l.map f).sum + f b := by
  induction l generalizing i with
  | nil => simp at h
  | cons c l ih =>
    cases i with
    | zero =>
      obtain rfl := Option.some.inj h
      simp only [List.set_cons_zero, List.map_cons, List.sum_cons]
      omega
    | succ i =>
      have := ih h
      simp only [List.set_cons_succ, List.map_cons, List.sum_cons]
      omega

/-- A call has its turn. -/
def Turn (call : ℕ) (e : Event) : Prop := ∃ a, e = .step call a

/-- The read lock is kept back from all calls but the first ones. -/
def Event.KeptBack (n : ℕ) (e : Event) : Prop :=
  ∀ call a, e = .step call a → n ≤ call → a.locked = true

/-- The bind is closed, and the calls that had the read lock have left: they have returned, or wait
for the write lock to close the bind once more. -/
def Left (old : List Pc) (w : Calls) : Prop :=
  w.shared.isOpen = 0 ∧ ∀ (i : ℕ) (pc : Pc), old[i]? = some pc → pc.reads = true →
    ∃ pc', w.calls[i]? = some pc' ∧ (pc' = .closeLock ∨ ∃ r, pc' = .returned r)

section Fair

variable {w : Calls} {old : List Pc}

/-- The step that closes the bind. -/
theorem Closing.left (h : Closing old w) {call : ℕ} {s' : Shared} {pc' : Pc}
    (hcl : Pc.Closes w.quiet s' pc') : Left old ⟨s', w.calls.set call pc'⟩ := by
  obtain ⟨h0, hq, r, rfl⟩ := hcl
  refine ⟨h0, fun i pc hi hr => ?_⟩
  obtain ⟨pc₁, hget, hpassed⟩ := h.passed i pc hi hr
  have hlt := (List.getElem?_eq_some_iff.mp hget).1
  rw [Calls.quiet, List.all_eq_true] at hq
  have hnot : pc₁.reads = false := by simpa using hq pc₁ (List.mem_of_getElem? hget)
  by_cases he : call = i
  · subst he
    exact ⟨_, List.getElem?_set_self hlt, .inr ⟨r, rfl⟩⟩
  · exact ⟨pc₁, by rw [List.getElem?_set_ne he, hget], Pc.eq_of_passed hpassed hnot⟩

/-- A step that leaves the bind being closed. -/
theorem Closing.set (h : Closing old w) {call : ℕ} {pc pc' : Pc} (hc : w.calls[call]? = some pc)
    {s' : Shared} (hinv : (⟨s', w.calls.set call pc'⟩ : Calls).Inv) (h2 : s'.isOpen = 2)
    (hpassed : pc.passed = true → pc'.passed = true)
    (hyoung : old.length ≤ call → pc'.young = true) :
    Closing old ⟨s', w.calls.set call pc'⟩ where
  inv := hinv
  isOpen := h2
  length := by simpa using h.length
  young p hp := by
    rcases Nat.lt_or_ge call old.length with hlt | hge
    · rw [List.drop_set_of_lt hlt] at hp
      exact h.young p hp
    · rw [List.drop_set, if_neg (by omega)] at hp
      rcases List.mem_or_eq_of_mem_set hp with hp | rfl
      · exact h.young p hp
      · exact hyoung hge
  passed i p hi hr := by
    obtain ⟨pc₁, hget, hp₁⟩ := h.passed i p hi hr
    by_cases he : call = i
    · subst he
      obtain rfl := Option.some.inj (hc.symm.trans hget)
      exact ⟨pc', List.getElem?_set_self (List.getElem?_eq_some_iff.mp hget).1, hpassed hp₁⟩
    · exact ⟨pc₁, by rw [List.getElem?_set_ne he, hget], hp₁⟩

/-- A step of a call while the bind is being closed. -/
theorem Closing.helped_step (h : Closing old w) {call : ℕ} {a : Ans}
    (ha : (Event.step call a).Sound) (hk : (Event.step call a).KeptBack old.length) {w' : Calls}
    (he : w.next (.step call a) = some w') :
    Helped (Closing old) (Left old) (rank old.length) (helper old.length) Turn w (.step call a) w'
      w' := by
  obtain ⟨hlt, helping, hget, hns⟩ := h.helper_spec
  obtain ⟨w'', he', hinv, -⟩ := h.inv.exists_next (.step call a) ha
  obtain rfl := Option.some.inj (he.symm.trans he')
  have hsame : w' = w → w.calls[call]? ≠ some helping → Helped (Closing old) (Left old)
      (rank old.length) (helper old.length) Turn w (.step call a) w' w' := by
    rintro rfl hne
    refine .inr ⟨h, .inr ⟨rfl, rfl, ?_⟩⟩
    rintro ⟨b, hb⟩
    obtain ⟨rfl, -⟩ := Event.step.inj hb
    exact hne hget
  rcases hc : w.calls[call]? with - | pc
  · exact hsame (by simpa [next, hc] using he.symm) (by simp [hc])
  have hmem := List.mem_of_getElem? hc
  simp only [next, hc, Option.bind_eq_bind, Option.bind_eq_some_iff] at he
  obtain ⟨⟨s', pc'⟩, hstep, he⟩ := he
  obtain rfl := Option.some.inj he
  rcases Nat.lt_or_ge call old.length with hcall | hcall
  · rcases Pc.closing_step h.inv.shared h.isOpen (h.inv.fits pc hmem)
        (fun is6 => h.inv.rx_point hmem) (fun is6 => h.inv.tx_point hmem) ha.2 hstep with
      hcl | ⟨h2, hrank⟩ | ⟨rfl, rfl, hstuck⟩
    · exact .inl (h.left hcl)
    · refine .inr ⟨h.set hc hinv h2 (fun hp => Pc.passed_step hp hstep) (by omega), .inl ?_⟩
      have htake : (w.calls.take old.length)[call]? = some pc := by
        rw [List.getElem?_take_of_lt hcall, hc]
      have := sum_map_set_add htake Pc.rank pc'
      simp only [rank, List.take_set]
      omega
    · refine hsame ?_ fun he => ?_
      · obtain ⟨hi, hp⟩ := List.getElem?_eq_some_iff.mp hc
        have hset : w.calls.set call pc' = w.calls := by
          rw [← hp]
          exact List.set_getElem_self hi
        dsimp only
        rw [hset]
      · rw [hc] at he
        obtain rfl := Option.some.inj he
        rw [hns] at hstuck
        cases hstuck
  · have hy : pc.young = true := by
      refine h.young pc (List.mem_iff_getElem?.mpr ⟨call - old.length, ?_⟩)
      rw [List.getElem?_drop, Nat.add_sub_cancel' hcall, hc]
    rcases Pc.young_step h.isOpen hy (hk call a rfl hcall) hstep with hcl | ⟨rfl, hy'⟩
    · exact .inl (h.left hcl)
    · refine .inr ⟨h.set hc hinv h.isOpen (fun hp => Pc.passed_step hp hstep) fun _ => hy',
        .inr ⟨?_, ?_, ?_⟩⟩
      · simp only [rank, List.take_set_of_le hcall]
      · simp only [helper, List.take_set_of_le hcall]
      · rintro ⟨b, hb⟩
        obtain ⟨rfl, -⟩ := Event.step.inj hb
        omega

/-- A step of the kernel while the bind is being closed. -/
theorem Closing.helped_kernel (h : Closing old w) {is6 : Bool} {f : Family}
    (hinv : ({ w with shared := w.shared.set is6 f } : Calls).Inv)
    (hf : f.rank = (w.shared.af is6).rank) {e : Event} (he : ∀ call, ¬ Turn call e) :
    Helped (Closing old) (Left old) (rank old.length) (helper old.length) Turn w e
      { w with shared := w.shared.set is6 f } { w with shared := w.shared.set is6 f } := by
  refine .inr ⟨⟨hinv, h.isOpen, h.length, h.young, h.passed⟩, .inr ⟨?_, rfl, he _⟩⟩
  have := w.shared.rank_set is6 f
  simp only [rank]
  omega

/-- A call starts while the bind is being closed. -/
theorem Closing.helped_start (h : Closing old w) {pc : Pc} (hpc : pc.initial = true) :
    Helped (Closing old) (Left old) (rank old.length) (helper old.length) Turn w (.start pc)
      { w with calls := w.calls ++ [pc] } { w with calls := w.calls ++ [pc] } := by
  have htake : (w.calls ++ [pc]).take old.length = w.calls.take old.length :=
    List.take_append_of_le_length h.length
  refine .inr ⟨⟨h.inv.start hpc, h.isOpen, h.length.trans (by simp), ?_, ?_⟩,
    .inr ⟨by simp only [rank, htake], by simp only [helper, htake], by simp [Turn]⟩⟩
  · rw [List.drop_append_of_le_length h.length, List.forall_mem_append]
    refine ⟨h.young, List.forall_mem_singleton.mpr ?_⟩
    cases pc <;> first | rfl | cases hpc
  · intro i p hi hr
    obtain ⟨pc₁, hget, hp₁⟩ := h.passed i p hi hr
    exact ⟨pc₁, by rw [List.getElem?_append_left (List.getElem?_eq_some_iff.mp hget).1, hget], hp₁⟩

/-- **Whatever happens next** closes the bind, lowers the rank, or is not the turn of the call that
can go on. -/
theorem Closing.helped (h : Closing old w) {e : Event} (hs : e.Sound)
    (hk : e.KeptBack old.length) {w' o : Calls} (he : step w e = some (w', o)) :
    Helped (Closing old) (Left old) (rank old.length) (helper old.length) Turn w e w' o := by
  simp only [step, Option.map_eq_some_iff, Prod.mk.injEq] at he
  obtain ⟨w', he, rfl, rfl⟩ := he
  obtain ⟨w'', he', hinv, -⟩ := h.inv.exists_next e hs
  obtain rfl := Option.some.inj (he.symm.trans he')
  cases e with
  | start pc =>
    obtain rfl := Option.some.inj he
    split
    · exact h.helped_start ‹_›
    · exact .inr ⟨h, .inr ⟨rfl, rfl, by simp [Turn]⟩⟩
  | step call a => exact h.helped_step hs hk he
  | deliver is6 d =>
    obtain rfl := Option.some.inj he
    exact h.helped_kernel hinv (Family.rank_deliver _ d) (by simp [Turn])
  | complete is6 =>
    obtain rfl := Option.some.inj he
    obtain ⟨-, -, htx, hrx⟩ := (h.inv.shared.families is6).complete
    exact h.helped_kernel hinv (by rw [Family.rank, Family.rank, htx, hrx]) (by simp [Turn])

/-- The state behind a list of events. -/
theorem Inv.exists_foldlM (h : w.Inv) {es : List Event} (hes : ∀ e ∈ es, e.Sound) :
    ∃ w', es.foldlM next w = some w' ∧ w'.Inv := by
  induction es generalizing w with
  | nil => exact ⟨w, rfl, h⟩
  | cons e es ih =>
    obtain ⟨he, hes⟩ := List.forall_mem_cons.mp hes
    obtain ⟨w₁, hn, h₁, -⟩ := h.exists_next e he
    obtain ⟨w', hw', h'⟩ := ih h₁ hes
    exact ⟨w', by simp [List.foldlM_cons, hn, hw'], h'⟩

end Fair

/-- **A bind that is being closed gets closed**, with all handles released, and the calls that had
the read lock have left: they have returned, or wait for the write lock to close the bind once more.
It takes at most one round more than the rank says, if each call that is there at first has a turn
in every round, and the read lock is kept back from the calls that start later. The environment
answers whatever it likes, and the kernel may deliver and complete in between. -/
theorem close_completes (rxMem : ℕ → Filled) (txMem : ℕ → RingPacket) {past : List Event}
    (hpast : ∀ e ∈ past, e.Sound) {rounds : List (List Event)}
    (hrounds : ∀ round ∈ rounds, ∀ e ∈ round, e.Sound) :
    ∃ w t, past.foldlM next (start rxMem txMem) = some w ∧
      trace step w rounds.flatten = some t ∧
      (w.shared.isOpen = 2 →
        (∀ round ∈ rounds, ∀ e ∈ round, e.KeptBack w.calls.length) →
        (∀ round ∈ rounds, ∀ call < w.calls.length, ∃ a, Event.step call a ∈ round) →
        w.rank w.calls.length < rounds.length →
        ∃ v ∈ t, v.output.shared.isOpen = 0 ∧ v.output.shared.handles.live = [] ∧
          ∀ (i : ℕ) (pc : Pc), w.calls[i]? = some pc → pc.reads = true → ∃ pc',
            v.output.calls[i]? = some pc' ∧ (pc' = .closeLock ∨ ∃ r, pc' = .returned r)) := by
  obtain ⟨w, hw, hinv⟩ := (inv_start rxMem txMem).exists_foldlM hpast
  have hsound : ∀ e ∈ rounds.flatten, e.Sound := fun e he => by
    obtain ⟨round, hround, he⟩ := List.mem_flatten.mp he
    exact hrounds round hround e he
  obtain ⟨t, ht, hall⟩ := hinv.exists_trace hsound
  refine ⟨w, t, hw, ht, fun h2 hkept hturn hrank => ?_⟩
  have hhelper : ∀ round ∈ rounds, ∀ s : Calls, Closing w.calls s →
      ∃ e ∈ round, Turn (s.helper w.calls.length) e := by
    intro round hround s hs
    obtain ⟨a, ha⟩ := hturn round hround _ hs.helper_spec.1
    exact ⟨_, ha, a, rfl⟩
  have hclosing : Closing w.calls w :=
    ⟨hinv, h2, le_rfl, by simp, fun i pc hi hr => ⟨pc, hi, Pc.passed_of_reads hr⟩⟩
  have hok : ∀ round ∈ rounds, ∀ e ∈ round, e.Sound ∧ e.KeptBack w.calls.length :=
    fun round hround e he => ⟨hrounds round hround e he, hkept round hround e he⟩
  obtain ⟨v, hv, h0, hleft⟩ := exists_of_rounds
    (fun s e s' o hs he hstep => Closing.helped hs he.1 he.2 hstep) hclosing hok hhelper hrank ht
  exact ⟨v, hv, h0, (hall v hv).1.shared.live_eq_nil h0, hleft⟩

/-- A round in which the first four calls have a turn, and another call starts that does not get the
read lock. -/
def closingRound : List Event :=
  [.step 0 succeeds, .step 1 succeeds, .step 2 succeeds, .step 3 succeeds, .start .close,
    .step 4 { succeeds with locked := true }]

/-- A receive call waits when the bind is being closed, and there are seven rounds. -/
theorem close_completes_receiving :
    ∃ w t, (closedWhileReceiving.take 30).foldlM next
        (start (fun _ => ⟨⟨⟨0, .replicate 30 0⟩, []⟩, 0⟩)
          fun _ => ⟨⟨0, .replicate 30 0⟩, []⟩) = some w ∧
      w.shared.isOpen = 2 ∧ w.calls.map Pc.reads = [false, false, true, true] ∧
      trace step w (List.replicate 7 closingRound).flatten = some t ∧
      ∃ v ∈ t, v.output.shared.isOpen = 0 ∧ v.output.shared.handles.live = [] ∧
        ∀ (i : ℕ) (pc : Pc), w.calls[i]? = some pc → pc.reads = true →
          ∃ pc', v.output.calls[i]? = some pc' ∧ (pc' = .closeLock ∨ ∃ r, pc' = .returned r) := by
  have hsound : ∀ round ∈ List.replicate 7 closingRound, ∀ e ∈ round, e.Sound := by
    intro round hround
    rw [List.eq_of_mem_replicate hround]
    simp only [closingRound, List.forall_mem_cons]
    exact ⟨sound_succeeds 0, sound_succeeds 1, sound_succeeds 2, sound_succeeds 3, trivial,
      sound_succeeds 4, by simp⟩
  obtain ⟨w, t, hw, ht, hclose⟩ := close_completes (fun _ => ⟨⟨⟨0, .replicate 30 0⟩, []⟩, 0⟩)
    (fun _ => ⟨⟨0, .replicate 30 0⟩, []⟩)
    (fun e he => sound_closedWhileReceiving e (List.mem_of_mem_take he)) hsound
  have hstate : ((closedWhileReceiving.take 30).foldlM next
      (start (fun _ => ⟨⟨⟨0, .replicate 30 0⟩, []⟩, 0⟩)
        fun _ => ⟨⟨0, .replicate 30 0⟩, []⟩)).map
      (fun w => (w.shared.isOpen, w.calls.map Pc.reads, w.calls.length, w.rank 4)) =
        some (2, [false, false, true, true], 4, 6) := by
    decide +kernel
  rw [hw] at hstate
  obtain ⟨h2, hreads, hlen, hrank⟩ : w.shared.isOpen = 2 ∧
      w.calls.map Pc.reads = [false, false, true, true] ∧ w.calls.length = 4 ∧ w.rank 4 = 6 := by
    simpa using hstate
  refine ⟨w, t, hw, h2, hreads, ht, hclose h2 ?_ ?_ (by rw [hlen, hrank]; decide)⟩
  · intro round hround e he call a hstep hcall
    rw [List.eq_of_mem_replicate hround] at he
    subst hstep
    simp only [closingRound, List.mem_cons, Event.step.injEq, List.not_mem_nil, or_false] at he
    rcases he with ⟨rfl, -⟩ | ⟨rfl, -⟩ | ⟨rfl, -⟩ | ⟨rfl, -⟩ | he | ⟨-, rfl⟩
    · omega
    · omega
    · omega
    · omega
    · cases he
    · rfl
  · intro round hround call hcall
    rw [List.eq_of_mem_replicate hround]
    refine ⟨succeeds, ?_⟩
    have : call = 0 ∨ call = 1 ∨ call = 2 ∨ call = 3 := by omega
    rcases this with rfl | rfl | rfl | rfl <;> simp [closingRound]

end Calls

end WinRingBind

end BatchUDP
