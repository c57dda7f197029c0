import BatchUDP.Control
import BatchUDP.Framing.Chunks

/-!
# Messages and the socket

A message pairs payload buffers with control data and an address; the kernel is handed batches of
messages and fills batches of messages. A message whose control data carries a segment size leaves
the socket as the chunks of its payload. The outcomes of the system calls are chosen by the run: a
write accepts a nonempty prefix of what it is given, or accepts nothing and fails; a read fills a
prefix of the messages it is given.

## Main definitions

* `Message`: `ipv6.Message`, with `Message.payload` and `Message.datagrams`
* `wire ms`: the datagrams that leave the socket for the messages `ms`
* `WriteOutcome`, `Written`: what a write call does, and what a sequence of them did
* `writeBatch`, `writeEach`: writing messages by batches, and one at a time
* `progress`: how far the loop over batches gets
* `Received`, `Message.fill`, `readBatch`: what the kernel read, and writing it into messages
* `Received.datagrams`: the datagrams that a message was coalesced from

## Main results

* `writeBatch_eq_progress`: how many messages are accepted depends on their number only
* `writeBatch_accepted_of_err_eq_none`: without an error, all of them
-/

namespace BatchUDP

open Go Unix Framing

/-- `ipv6.Message`. -/
structure Message where
  buffers : List (Slice UInt8)
  oob : Slice UInt8
  addr : Option UDPAddr
  n : ℕ
  nn : ℕ
  deriving DecidableEq, Repr

namespace Message

/-- The payload of an outgoing message. -/
def payload (m : Message) : List UInt8 := m.buffers.flatMap Slice.toList

/-- The destination of an outgoing message: IP and port. -/
def dest (m : Message) : Option (List UInt8 × ℕ) := m.addr.map fun ua => (ua.ip.toList, ua.port)

/-- What the kernel is given of an outgoing message: chunks, control data and destination. -/
def outgoing (m : Message) : List (List UInt8) × List UInt8 × Option (List UInt8 × ℕ) :=
  (m.buffers.map Slice.toList, m.oob.toList, m.dest)

/-- The datagrams of a payload with a segment size: a payload within one segment is sent as it is,
possibly empty, and a longer one as consecutive chunks. -/
def segments (g : ℕ) (payload : List UInt8) : List (List UInt8) :=
  if payload.length ≤ g then [payload] else chunks g payload

/-- The datagrams that leave the socket for a message. -/
def datagrams (m : Message) : List (List UInt8) :=
  segments (segmentSize m.oob.toList) m.payload

theorem segments_zero (l : List UInt8) : segments 0 l = [l] := by
  unfold segments
  split_ifs <;> simp

theorem segments_eq_chunks {g : ℕ} {l : List UInt8} (h : l ≠ []) : segments g l = chunks g l := by
  unfold segments
  split_ifs with hl
  · exact (chunks_of_le h hl).symm
  · rfl

/-- A payload is sent as it is, or as more than one datagram if it is longer than its segment
size. -/
theorem segments_cases (g : ℕ) (l : List UInt8) :
    segments g l = [l] ∧ (g = 0 ∨ l.length ≤ g) ∨
      1 < (segments g l).length ∧ ¬ (g = 0 ∨ l.length ≤ g) := by
  rcases Nat.eq_zero_or_pos g with rfl | hg
  · exact .inl ⟨segments_zero l, .inl rfl⟩
  · by_cases hl : l.length ≤ g
    · exact .inl ⟨if_pos hl, .inr hl⟩
    · have h2 : 2 ≤ (l.length + g - 1) / g := (Nat.le_div_iff_mul_le hg).mpr (by omega)
      refine .inr ⟨?_, by omega⟩
      rw [segments, if_neg hl, length_chunks hg]
      exact h2

theorem segments_ne_nil (g : ℕ) (l : List UInt8) : segments g l ≠ [] := by
  unfold segments
  split_ifs with hl
  · simp
  · exact chunks_ne_nil (by rintro rfl; simp at hl)

end Message

/-- The datagrams that leave the socket for a list of messages. -/
def wire (ms : List Message) : List (List UInt8) := ms.flatMap Message.datagrams

@[simp] theorem wire_nil : wire [] = [] := rfl

@[simp] theorem wire_append (ms ns : List Message) : wire (ms ++ ns) = wire ms ++ wire ns :=
  List.flatMap_append

theorem wire_eq_nil_iff {ms : List Message} : wire ms = [] ↔ ms = [] := by
  constructor
  · intro h
    cases ms with
    | nil => rfl
    | cons m ms =>
      have := List.flatMap_eq_nil_iff.mp h m (by simp)
      exact absurd this (Message.segments_ne_nil _ _)
  · rintro rfl
    rfl

/-! ## Writing -/

/-- What one write call does: accept `more + 1` of the messages it is given, or all if there are
fewer, or accept none and fail. -/
inductive WriteOutcome where
  | accept (more : ℕ)
  | fail (err : Error)
  deriving DecidableEq, Repr

/-- What a sequence of write calls did: the messages accepted, the error it ended with, and the
outcomes left for later calls. -/
structure Written where
  accepted : List Message
  err : Option Error
  rest : List WriteOutcome
  deriving DecidableEq, Repr

/-- The loop over `WriteBatch`: offer the messages not accepted yet until none is left or a call
fails. Calls beyond the given outcomes accept everything. -/
def writeBatch : List WriteOutcome → List Message → Written
  | [], ms => ⟨ms, none, []⟩
  | .fail e :: os, _ => ⟨[], some e, os⟩
  | .accept more :: os, ms =>
    if ms.length ≤ more + 1 then ⟨ms, none, os⟩
    else
      let w := writeBatch os (ms.drop (more + 1))
      { w with accepted := ms.take (more + 1) ++ w.accepted }

/-- The loop over `WriteMsgUDPAddrPort`, which is given the first buffer of each message. -/
def writeEach : List WriteOutcome → List Message → Written
  | os, [] => ⟨[], none, os⟩
  | [], m :: ms =>
    let w := writeEach [] ms
    { w with accepted := { m with buffers := m.buffers.take 1 } :: w.accepted }
  | .fail e :: os, _ :: _ => ⟨[], some e, os⟩
  | .accept _ :: os, m :: ms =>
    let w := writeEach os ms
    { w with accepted := { m with buffers := m.buffers.take 1 } :: w.accepted }

/-- How far the loop over `WriteBatch` gets with `n` messages: the number it accepts, and the error
it ends with. -/
def progress : List WriteOutcome → ℕ → ℕ × Option Error
  | [], n => (n, none)
  | .fail e :: _, _ => (0, some e)
  | .accept more :: os, n =>
    if n ≤ more + 1 then (n, none)
    else
      let r := progress os (n - (more + 1))
      (more + 1 + r.1, r.2)

theorem progress_le (os : List WriteOutcome) (n : ℕ) : (progress os n).1 ≤ n := by
  induction os generalizing n with
  | nil => exact le_rfl
  | cons o os ih =>
    cases o with
    | fail e => exact Nat.zero_le n
    | accept more =>
      have := ih (n - (more + 1))
      rw [progress]
      split_ifs with h
      · exact le_rfl
      · show more + 1 + (progress os (n - (more + 1))).1 ≤ n
        omega

/-- The messages accepted, and the error, are determined by the number of messages. -/
theorem writeBatch_eq_progress (os : List WriteOutcome) (ms : List Message) :
    (writeBatch os ms).accepted = ms.take (progress os ms.length).1 ∧
      (writeBatch os ms).err = (progress os ms.length).2 := by
  induction os generalizing ms with
  | nil => exact ⟨List.take_length.symm, rfl⟩
  | cons o os ih =>
    cases o with
    | fail e => exact ⟨rfl, rfl⟩
    | accept more =>
      rw [writeBatch, progress]
      split_ifs with h
      · exact ⟨List.take_length.symm, rfl⟩
      · obtain ⟨ha, he⟩ := ih (ms.drop (more + 1))
        rw [List.length_drop] at ha he
        refine ⟨?_, he⟩
        show ms.take (more + 1) ++ (writeBatch os (ms.drop (more + 1))).accepted =
          ms.take (more + 1 + (progress os (ms.length - (more + 1))).1)
        rw [ha, ← List.take_add]

/-- Without an error, all messages are accepted. -/
theorem writeBatch_accepted_of_err_eq_none {os : List WriteOutcome} {ms : List Message}
    (h : (writeBatch os ms).err = none) : (writeBatch os ms).accepted = ms := by
  induction os generalizing ms with
  | nil => rfl
  | cons o os ih =>
    cases o with
    | fail e => simp [writeBatch] at h
    | accept more =>
      rw [writeBatch] at h ⊢
      split_ifs at h ⊢ with hl
      · rfl
      · show ms.take (more + 1) ++ (writeBatch os (ms.drop (more + 1))).accepted = ms
        rw [ih h, List.take_append_drop]

/-- Outcomes without a failure leave no error. -/
theorem writeBatch_err_of_forall {os : List WriteOutcome} (h : ∀ e, .fail e ∉ os)
    (ms : List Message) : (writeBatch os ms).err = none := by
  induction os generalizing ms with
  | nil => rfl
  | cons o os ih =>
    cases o with
    | fail e => exact absurd (List.mem_cons_self) (h e)
    | accept more =>
      rw [writeBatch]
      split_ifs with hl
      · rfl
      · exact ih (fun e he => h e (List.mem_cons_of_mem _ he)) _

section Single

variable {ms : List Message} (hb : ∀ m ∈ ms, m.buffers.length = 1)

include hb

/-- Messages with one buffer are written one at a time as they are. -/
theorem writeEach_accepted_of_err_eq_none {os : List WriteOutcome}
    (h : (writeEach os ms).err = none) : (writeEach os ms).accepted = ms := by
  induction ms generalizing os with
  | nil => cases os <;> rfl
  | cons m ms ih =>
    have hm : ({ m with buffers := m.buffers.take 1 } : Message) = m := by
      rw [List.take_of_length_le (hb m (by simp)).le]
    have ih := @ih fun x hx => hb x (List.mem_cons_of_mem _ hx)
    cases os with
    | nil => rw [writeEach, hm] at h ⊢; exact congrArg (m :: ·) (ih h)
    | cons o os =>
      cases o with
      | fail e => simp [writeEach] at h
      | accept more => rw [writeEach, hm] at h ⊢; exact congrArg (m :: ·) (ih h)

omit hb in
theorem writeEach_err_of_forall {os : List WriteOutcome} (h : ∀ e, .fail e ∉ os) :
    (writeEach os ms).err = none := by
  induction ms generalizing os with
  | nil => cases os <;> rfl
  | cons m ms ih =>
    cases os with
    | nil => rw [writeEach]; exact ih h
    | cons o os =>
      cases o with
      | fail e => exact absurd (List.mem_cons_self) (h e)
      | accept more =>
        rw [writeEach]
        exact ih fun e he => h e (List.mem_cons_of_mem _ he)

end Single

/-! ## Reading -/

/-- A message as the kernel read it from the socket. -/
structure Received where
  payload : List UInt8
  control : List ControlMessage
  addr : UDPAddr
  deriving DecidableEq, Repr

namespace Received

/-- The segment size that the kernel reported, or 0. -/
def gso (p : Platform) (r : Received) : ℕ :=
  if p.hasOffload then (r.control.findSome? fun c => groData c.header c.data).getD 0 else 0

theorem getGSOSize_encode (p : Platform) (r : Received) :
    getGSOSize p (ControlMessage.encode r.control) = .ok (r.gso p) := by
  unfold getGSOSize gso
  split_ifs
  · rw [p.control.scan_encode]
    cases r.control.findSome? fun c => groData c.header c.data <;> rfl
  · rfl

/-- The datagrams that a message was coalesced from. An empty message carries none. -/
def datagrams (p : Platform) (r : Received) : List (List UInt8) :=
  if r.payload = [] then [] else chunks (r.gso p) r.payload

theorem datagrams_of_ne_nil {p : Platform} {r : Received} (h : r.payload ≠ []) :
    r.datagrams p = chunks (r.gso p) r.payload := if_neg h

end Received

/-- The control message with which the kernel reports a segment size. -/
def groMessage (g : ℕ) : ControlMessage where
  level := solUDP
  type := udpGRO
  data := leBytes sizeOfGSOData g
  pad := List.replicate 6 0
  framed := framed_gso udpGRO g (by decide) (by simp)
  data_ne_nil := by simp [sizeOfGSOData, leBytes]

/-- A coalesced message with its segment size. -/
def Received.coalesced (g : ℕ) (payload : List UInt8) : Received := ⟨payload, [groMessage g], .new⟩

theorem Received.gso_coalesced {p : Platform} (hp : p.hasOffload = true) {g : ℕ} (hg : g < 2 ^ 16)
    (payload : List UInt8) : (Received.coalesced g payload).gso p = g := by
  simp [gso, hp, coalesced, groMessage, FramedMessage.header, groData, leNat_gsoData hg]

/-- Bytes written over buffers one after the other. -/
def scatter : List (Slice UInt8) → List UInt8 → List (Slice UInt8)
  | [], _ => []
  | b :: bs, xs => b.copy xs :: scatter bs (xs.drop b.len)

/-- The message filled by the kernel: payload and control data as far as they fit, their lengths,
and the source address. -/
def Message.fill (m : Message) (r : Received) : Message where
  buffers := scatter m.buffers r.payload
  oob := m.oob.copy (ControlMessage.encode r.control)
  addr := some r.addr
  n := min r.payload.length (m.buffers.map Slice.len).sum
  nn := min (ControlMessage.encode r.control).length m.oob.len

/-- `ReadBatch`: the kernel fills a prefix of the messages and leaves the others alone. -/
def readBatch : List Message → List Received → List Message
  | m :: ms, r :: rs => m.fill r :: readBatch ms rs
  | ms, [] => ms
  | [], _ :: _ => []

@[simp] theorem length_readBatch (ms : List Message) (rs : List Received) :
    (readBatch ms rs).length = ms.length := by
  induction ms generalizing rs with
  | nil => cases rs <;> rfl
  | cons m ms ih => cases rs <;> simp [readBatch, ih]

/-- A message as the kernel can read it into `m`: payload and control data fit, and the segment size
is no larger than the payload. -/
structure Received.Fits (p : Platform) (r : Received) (m : Message) : Prop where
  payload : ∃ b bs, m.buffers = b :: bs ∧ r.payload.length ≤ b.len
  control : (ControlMessage.encode r.control).length ≤ m.oob.len
  gso : r.gso p ≤ r.payload.length

/-- The result of `ReadBatch` on `ms`: it fills at least one message, and at most all. -/
structure ReadsInto (p : Platform) (ms : List Message) (rs : List Received) : Prop where
  ne_nil : rs ≠ []
  fits : List.Forall₂ (fun m r => r.Fits p m) (ms.take rs.length) rs

theorem ReadsInto.length_le {p : Platform} {ms : List Message} {rs : List Received}
    (h : ReadsInto p ms rs) : rs.length ≤ ms.length := by
  have := h.fits.length_eq
  rw [List.length_take] at this
  omega

end BatchUDP
