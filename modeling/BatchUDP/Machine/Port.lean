import Mathlib.Tactic

/-!
# Completion ports

A queue of completions is attached to a port, on which one thread at a time waits for a packet. A
notification is asked for once: it puts a packet into the port as soon as the queue has a
completion, right away or when the next one arrives, and only one can be pending. Packets may also
be posted by hand, to wake the thread that waits.

A thread asks for a notification in front of every wait, and takes one packet when it wakes up. The
packets in the port and the pending notification therefore cover the thread that waits and every
packet posted by hand, whichever packets were taken before: `Port.Covers`.

## Main definitions

* `Port`: the packets in a port, the pending notification, and the number of packets posted by hand
* `Port.post`, `Port.notify`, `Port.complete`, `Port.take`: the operations
* `Port.Covers p waiting ready`: what holds between them, with the completions in the queue

## Main results

* `Port.Covers.packets_pos`: a thread that waits is woken by a packet posted by hand, even if others
  waited and were woken before it
* `Port.Covers.armed`: a thread that waits for an empty port is woken by the next completion, and
  has missed none
-/

namespace Machine

/-- A completion port: the packets in it, whether a notification is pending, and the number of
packets posted by hand so far. -/
structure Port where
  packets : ℕ
  armed : Bool
  posts : ℕ
  deriving DecidableEq, Repr

namespace Port

/-- A new port. -/
def empty : Port := ⟨0, false, 0⟩

/-- A packet is posted by hand. -/
def post (p : Port) : Port := { p with packets := p.packets + 1, posts := p.posts + 1 }

/-- A notification is asked for, while `ready` completions are in the queue. It fails if one is
pending already. -/
def notify (p : Port) (ready : ℕ) : Option Port :=
  if p.armed then none
  else if 0 < ready then some { p with packets := p.packets + 1 }
  else some { p with armed := true }

/-- A completion arrives in the queue, and the pending notification comes in. -/
def complete (p : Port) : Port :=
  if p.armed then { p with packets := p.packets + 1, armed := false } else p

/-- A thread that waits takes a packet, if there is one. -/
def take (p : Port) : Option Port :=
  if p.packets = 0 then none else some { p with packets := p.packets - 1 }

theorem posts_notify {p p' : Port} {ready : ℕ} (h : p.notify ready = some p') :
    p'.posts = p.posts := by
  unfold notify at h
  split_ifs at h <;> exact Option.some.inj h ▸ rfl

theorem posts_complete (p : Port) : p.complete.posts = p.posts := by
  unfold complete
  split_ifs <;> rfl

theorem posts_take {p p' : Port} (h : p.take = some p') : p'.posts = p.posts := by
  unfold take at h
  split_ifs at h
  exact Option.some.inj h ▸ rfl

theorem take_eq_none {p : Port} (h : p.take = none) : p.packets = 0 := by
  unfold take at h
  split_ifs at h with hp
  exact hp

/-- The packets and the pending notification cover the thread that waits, if one does, and the
packets posted by hand. A notification is pending only while the queue is empty. -/
structure Covers (p : Port) (waiting : Bool) (ready : ℕ) : Prop where
  le : waiting.toNat + p.posts ≤ p.packets + p.armed.toNat
  ready : p.armed = true → ready = 0

theorem covers_empty (ready : ℕ) : empty.Covers false ready := ⟨le_rfl, by simp [empty]⟩

variable {p : Port} {waiting : Bool} {ready : ℕ}

/-- Completions are taken from the queue. -/
theorem Covers.dequeue (h : p.Covers waiting ready) {left : ℕ} (hle : left ≤ ready) :
    p.Covers waiting left :=
  ⟨h.le, fun ha => by have := h.ready ha; omega⟩

/-- A thread stops waiting without taking a packet. -/
theorem Covers.giveUp (h : p.Covers waiting ready) : p.Covers false ready :=
  ⟨by have := h.le; simp; omega, h.ready⟩

theorem Covers.post (h : p.Covers waiting ready) : p.post.Covers waiting ready :=
  ⟨by have := h.le; simp only [Port.post]; omega, h.ready⟩

/-- Asking for a notification covers the wait that follows. -/
theorem Covers.notify (h : p.Covers waiting ready) {p' : Port} (he : p.notify ready = some p') :
    p'.Covers true ready := by
  have hle := h.le
  unfold Port.notify at he
  split_ifs at he with harmed hready
  · obtain rfl := Option.some.inj he
    exact ⟨by simp only [Bool.toNat_true]; omega, fun ha => absurd ha harmed⟩
  · obtain rfl := Option.some.inj he
    rw [Bool.not_eq_true] at harmed
    rw [harmed, Bool.toNat_false] at hle
    exact ⟨by simp only [Bool.toNat_true]; omega, fun _ => by omega⟩

theorem Covers.complete (h : p.Covers waiting ready) : p.complete.Covers waiting (ready + 1) := by
  have hle := h.le
  unfold Port.complete
  split_ifs with harmed
  · rw [harmed, Bool.toNat_true] at hle
    exact ⟨by simpa using hle, by simp⟩
  · exact ⟨hle, fun ha => absurd ha harmed⟩

/-- The thread that waits takes a packet. -/
theorem Covers.take (h : p.Covers true ready) {p' : Port} (he : p.take = some p') :
    p'.Covers false ready := by
  have hle := h.le
  rw [Bool.toNat_true] at hle
  unfold Port.take at he
  split_ifs at he with hzero
  obtain rfl := Option.some.inj he
  exact ⟨by simp only [Bool.toNat_false]; omega, h.ready⟩

/-- **A thread that waits is woken by a packet posted by hand**, whoever took packets before. -/
theorem Covers.packets_pos (h : p.Covers true ready) (hp : 0 < p.posts) : 0 < p.packets := by
  have hle := h.le
  have harmed := p.armed.toNat_le
  rw [Bool.toNat_true] at hle
  omega

/-- **A thread that waits for an empty port is woken by the next completion**, and none has arrived
yet. -/
theorem Covers.armed (h : p.Covers true ready) (hp : p.packets = 0) :
    p.armed = true ∧ ready = 0 := by
  have hle := h.le
  rw [hp, Bool.toNat_true] at hle
  have harmed : p.armed = true := by
    rcases ha : p.armed with - | -
    · rw [ha, Bool.toNat_false] at hle
      omega
    · rfl
  exact ⟨harmed, h.ready harmed⟩

end Port

end Machine
