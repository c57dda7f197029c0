import BatchUDP.Go.Runtime
import BatchUDP.Machine.Ring

/-!
# The packet rings of the Windows bind

A `ringBuffer` hands out its packets in turn. `Push` takes the next one and `Return` gives back as
many as requests have completed; both only count. A flag tells a full ring from an empty one. What
the counters mean for the requests in flight is said by `RingBuffer.Tracks`.

## Main definitions

* `RingBuffer`, `RingBuffer.Push`, `RingBuffer.Return`, `RingBuffer.CloseAndZero`, `RingBuffer.Open`
* `RingBuffer.used`: the number of packets that the ring counts as used
* `RingBuffer.Tracks rb slots`: the requests in flight, oldest first, occupy the given slots, which
  are among those that the ring counts as used

## Main results

* `RingBuffer.Tracks.exists_Push`: a ring that is not full hands out a slot that is not in flight
* `RingBuffer.Tracks.Return`: giving back completed requests
-/

namespace BatchUDP

open Go Machine.Ring

/-- `packetsPerRing`. -/
def packetsPerRing : ℕ := 256

/-- `bytesPerPacket`. -/
def bytesPerPacket : ℕ := 65507

/-- `ringBuffer`, with handles as numbers of which zero stands for none. -/
structure RingBuffer where
  packets : ℕ
  head : UInt32
  tail : UInt32
  id : ℕ
  iocp : ℕ
  isFull : Bool
  cq : ℕ
  deriving DecidableEq, Repr

namespace RingBuffer

/-- The packet that a counter stands for. -/
def slot (counter : UInt32) : ℕ := counter.toNat % packetsPerRing

/-- `Push`: the next packet. It panics on a full ring. -/
def Push (rb : RingBuffer) : Option (ℕ × RingBuffer) :=
  if rb.isFull then none
  else
    let tail := rb.tail + 1
    some (slot rb.tail,
      { rb with tail := tail, isFull := if slot tail = slot rb.head then true else rb.isFull })

/-- `Return`. On an empty ring it does nothing. -/
def Return (rb : RingBuffer) (count : UInt32) : RingBuffer :=
  if slot rb.head = slot rb.tail ∧ rb.isFull = false then rb
  else { rb with head := rb.head + count, isFull := false }

/-- A ring that is not open. -/
def zero : RingBuffer := ⟨0, 0, 0, 0, 0, false, 0⟩

/-- `CloseAndZero`. -/
def CloseAndZero (_ : RingBuffer) : RingBuffer := zero

/-- What the system calls of opening a ring return. -/
structure OpenRun where
  alloc : Except Error ℕ
  register : Except Error ℕ
  port : Except Error ℕ
  queue : Except Error ℕ

/-- `Open`: the error if there is one, and the ring. -/
def Open (rb : RingBuffer) (run : OpenRun) : Option Error × RingBuffer :=
  match run.alloc with
  | .error e => (some e, { rb with packets := 0 })
  | .ok packets =>
    match run.register with
    | .error e => (some e, { rb with packets, id := 0 })
    | .ok id =>
      match run.port with
      | .error e => (some e, { rb with packets, id, iocp := 0 })
      | .ok iocp =>
        match run.queue with
        | .error e => (some e, { rb with packets, id, iocp, cq := 0 })
        | .ok cq => (none, { rb with packets, id, iocp, cq })

/-- An open ring that is empty. -/
def opened (packets id iocp cq : ℕ) : RingBuffer := ⟨packets, 0, 0, id, iocp, false, cq⟩

/-- Opening a ring that is not open. -/
theorem Open_zero {run : OpenRun} (h : (zero.Open run).1 = none) :
    ∃ packets id iocp cq, (zero.Open run).2 = opened packets id iocp cq := by
  rcases run with ⟨e | packets, register, port, queue⟩
  · exact absurd h (by simp [Open])
  rcases register with e | id
  · exact absurd h (by simp [Open])
  rcases port with e | iocp
  · exact absurd h (by simp [Open])
  rcases queue with e | cq
  · exact absurd h (by simp [Open])
  exact ⟨packets, id, iocp, cq, rfl⟩

/-- The number of packets that the ring counts as used. -/
def used (rb : RingBuffer) : ℕ := (rb.tail - rb.head).toNat

/-- At most all packets are used, and the flag says whether they all are. -/
def Bounded (rb : RingBuffer) : Prop :=
  rb.used ≤ packetsPerRing ∧ (rb.isFull = true ↔ rb.used = packetsPerRing)

/-- The counters are those of a ring with the given numbers. -/
structure Counts (rb : RingBuffer) (head tail : ℕ) : Prop where
  head_eq : rb.head = UInt32.ofNat head
  tail_eq : rb.tail = UInt32.ofNat tail
  isFull_iff : rb.isFull = true ↔ tail = head + packetsPerRing

/-- The requests in flight occupy the given slots, oldest first, among those counted as used. -/
def Tracks (rb : RingBuffer) (slots : List ℕ) : Prop :=
  ∃ head tail pending, rb.Counts head tail ∧ Window packetsPerRing head tail pending ∧
    slots = pending.map (· % packetsPerRing)

theorem tracks_opened (packets id iocp cq : ℕ) : (opened packets id iocp cq).Tracks [] :=
  ⟨0, 0, [], ⟨rfl, rfl, by simp [opened, packetsPerRing]⟩, window_nil _ _, rfl⟩

theorem used_opened (packets id iocp cq : ℕ) : (opened packets id iocp cq).used = 0 := by
  simp [used, opened]

theorem tracks_closeAndZero (rb : RingBuffer) : rb.CloseAndZero.Tracks [] :=
  tracks_opened 0 0 0 0

section Counts

variable {rb : RingBuffer} {head tail : ℕ}

theorem Counts.slot_head (h : rb.Counts head tail) : slot rb.head = head % packetsPerRing := by
  rw [slot, h.head_eq, toNat_ofNat_mod (by decide)]

theorem Counts.slot_tail (h : rb.Counts head tail) : slot rb.tail = tail % packetsPerRing := by
  rw [slot, h.tail_eq, toNat_ofNat_mod (by decide)]

theorem Counts.used_eq (h : rb.Counts head tail) (hle : head ≤ tail)
    (hfull : tail ≤ head + packetsPerRing) : rb.used = tail - head := by
  rw [packetsPerRing] at hfull
  rw [used, h.head_eq, h.tail_eq, toNat_ofNat_sub_ofNat hle (by omega)]

/-- The packet of the next entry is that of the first used one iff all are used then. -/
theorem mod_succ_eq_iff (hle : head ≤ tail) (hlt : tail < head + packetsPerRing) :
    (tail + 1) % packetsPerRing = head % packetsPerRing ↔ tail + 1 = head + packetsPerRing := by
  constructor
  · intro h
    rw [← Nat.add_mod_right head] at h
    exact eq_of_mod_eq h (by omega) (by omega)
  · intro h
    rw [h, Nat.add_mod_right]

theorem Counts.Push (h : rb.Counts head tail) (hle : head ≤ tail)
    (hlt : tail < head + packetsPerRing) :
    ∃ rb', rb.Push = some (tail % packetsPerRing, rb') ∧ rb'.Counts head (tail + 1) := by
  have hfull : rb.isFull = false := by
    rw [← Bool.not_eq_true, h.isFull_iff]
    omega
  have htail : rb.tail + 1 = UInt32.ofNat (tail + 1) := by
    rw [h.tail_eq, UInt32.ofNat_add]
    rfl
  have hslot : slot (rb.tail + 1) = (tail + 1) % packetsPerRing := by
    rw [slot, htail, toNat_ofNat_mod (by decide)]
  have he : rb.Push = some (slot rb.tail, { rb with
      tail := rb.tail + 1
      isFull := if slot (rb.tail + 1) = slot rb.head then true else rb.isFull }) := by
    rw [RingBuffer.Push, if_neg (by simp [hfull])]
  rw [h.slot_tail] at he
  refine ⟨_, he, h.head_eq, htail, ?_⟩
  rw [← mod_succ_eq_iff hle hlt, ← hslot, ← h.slot_head]
  simp [hfull]

theorem Counts.Return (h : rb.Counts head tail) {k : ℕ} (hk : 0 < k) (hle : head + k ≤ tail)
    (hfull : tail ≤ head + packetsPerRing) :
    (rb.Return (UInt32.ofNat k)).Counts (head + k) tail := by
  -- the ring is not empty: counters that stand for the same packet belong to a full ring
  have hne : ¬ (slot rb.head = slot rb.tail ∧ rb.isFull = false) := by
    rintro ⟨hs, hf⟩
    rw [h.slot_head, h.slot_tail, ← Nat.add_mod_right head] at hs
    have := eq_of_mod_eq hs (by omega) (by omega)
    rw [← Bool.not_eq_true, h.isFull_iff] at hf
    exact hf this.symm
  rw [RingBuffer.Return, if_neg hne]
  refine ⟨?_, h.tail_eq, ?_⟩
  · rw [UInt32.ofNat_add, ← h.head_eq]
  · exact iff_of_false (by simp) (by omega)

end Counts

section Tracks

variable {rb : RingBuffer} {slots : List ℕ}

theorem Tracks.used_le (h : rb.Tracks slots) : rb.used ≤ packetsPerRing := by
  obtain ⟨head, tail, pending, hc, hw, -⟩ := h
  rw [hc.used_eq hw.head_le hw.tail_le]
  have := hw.tail_le
  omega

theorem Tracks.isFull_iff (h : rb.Tracks slots) : rb.isFull = true ↔ rb.used = packetsPerRing := by
  obtain ⟨head, tail, pending, hc, hw, -⟩ := h
  rw [hc.used_eq hw.head_le hw.tail_le, hc.isFull_iff]
  have := hw.head_le
  omega

theorem Tracks.bounded (h : rb.Tracks slots) : rb.Bounded := ⟨h.used_le, h.isFull_iff⟩

theorem Tracks.length_le (h : rb.Tracks slots) : slots.length ≤ rb.used := by
  obtain ⟨head, tail, pending, hc, hw, rfl⟩ := h
  rw [hc.used_eq hw.head_le hw.tail_le, List.length_map]
  have := hw.length_le
  omega

theorem Tracks.nodup (h : rb.Tracks slots) : slots.Nodup := by
  obtain ⟨head, tail, pending, hc, hw, rfl⟩ := h
  exact hw.nodup_map_mod

/-- **A ring that is not full hands out a slot that is not in flight**, whether the request is then
submitted or not. -/
theorem Tracks.exists_Push (h : rb.Tracks slots) (hf : rb.isFull = false) :
    ∃ slot rb', rb.Push = some (slot, rb') ∧ slot ∉ slots ∧ rb'.used = rb.used + 1 ∧
      rb'.Tracks (slots ++ [slot]) ∧ rb'.Tracks slots := by
  obtain ⟨head, tail, pending, hc, hw, rfl⟩ := h
  have hlt : tail < head + packetsPerRing := by
    have := hw.tail_le
    rw [← Bool.not_eq_true, hc.isFull_iff] at hf
    omega
  obtain ⟨rb', he, hc'⟩ := hc.Push hw.head_le hlt
  have hwp := hw.push hlt
  refine ⟨_, rb', he, ?_, ?_, ⟨head, tail + 1, _, hc', hwp, by simp⟩,
    ⟨head, tail + 1, _, hc', hw.skip hlt, rfl⟩⟩
  · intro hm
    obtain ⟨q, hq, hs⟩ := List.mem_map.mp hm
    exact hw.mod_ne_tail hlt hq hs
  · rw [hc'.used_eq hwp.head_le hwp.tail_le, hc.used_eq hw.head_le hw.tail_le]
    have := hw.head_le
    omega

/-- **Giving back completed requests**, the oldest ones in flight. -/
theorem Tracks.Return (h : rb.Tracks slots) {k : ℕ} (hk : 0 < k) (hl : k ≤ slots.length) :
    (rb.Return (UInt32.ofNat k)).Tracks (slots.drop k) ∧
      (rb.Return (UInt32.ofNat k)).isFull = false ∧
      (rb.Return (UInt32.ofNat k)).used + k = rb.used := by
  obtain ⟨head, tail, pending, hc, hw, rfl⟩ := h
  rw [List.length_map] at hl
  have hwd := hw.drop hl
  have hcd := hc.Return hk hwd.head_le hw.tail_le
  have hle := hw.tail_le
  have hhd := hwd.head_le
  refine ⟨⟨head + k, tail, _, hcd, hwd, by rw [List.map_drop]⟩, ?_, ?_⟩
  · rw [← Bool.not_eq_true, hcd.isFull_iff]
    omega
  · rw [hcd.used_eq hwd.head_le hwd.tail_le, hc.used_eq hw.head_le hw.tail_le]
    omega

end Tracks

end RingBuffer

end BatchUDP
