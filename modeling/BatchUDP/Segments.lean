import Mathlib.Data.List.TakeWhile
import BatchUDP.Window

/-!
# Splitting any list of messages

What `splitCoalescedMessages` does with a list of messages that need not come from a read: the
messages of the window may have any lengths, control data and segment sizes, and the slots any
buffers.

## Main definitions

* `processed first msgs`: the messages of the window in front of the first one of length zero
* `countBefore c first i msgs`: how many slots the messages of the window in front of `i` take
* `Message.gsoSegments`, `Message.Segmentable`: the segments of a message, and the messages that
  have a segment size within their length
* `Message.parts`: the segments that the loop selects, whatever the segment size
* `Reached getGSO first msgs i`: the loop gets as far as message `i`
* `SplitsWithin`, `Message.Bounded`: what the split promises, and what it takes

## Main results

* `exists_split_segments`: the slots hold the segments of the window in order, or these overflow
* `exists_split_parts`: how the split of messages within bounds ends
* `splitsWithin_iff`: when the split selects and reports only bytes that the messages have
-/

namespace BatchUDP

open Go Unix Framing

/-- The messages of the window in front of the first one of length zero. -/
def processed (first : ℕ) (msgs : List Message) : List Message :=
  (msgs.drop first).takeWhile fun m => m.n ≠ 0

/-- How many slots the messages from `first` up to `i` take, if each takes `c`. -/
def countBefore (c : Message → ℕ) (first i : ℕ) (msgs : List Message) : ℕ :=
  (((msgs.take i).drop first).map c).sum

namespace Message

/-- The segments of a message. -/
def gsoSegments (getGSO : List UInt8 → Except Error ℕ) (m : Message) : List (List UInt8) :=
  match getGSO m.controlData with
  | .ok g => chunks g m.received
  | .error _ => []

/-- The lengths of a message are within its buffers, and it has a segment size within its length. -/
structure Segmentable (getGSO : List UInt8 → Except Error ℕ) (m : Message) : Prop where
  payload : ∃ b bs, m.buffers = b :: bs ∧ m.n ≤ b.len
  control : m.nn ≤ m.oob.cap
  gso : ∃ g, getGSO m.controlData = .ok g ∧ (g = 0 ∨ 1 ≤ g ∧ g ≤ m.n)

/-- The segments of a message, each with the address of the message. -/
def pieced (getGSO : List UInt8 → Except Error ℕ) (m : Message) :
    List (List UInt8 × Option UDPAddr) :=
  (m.gsoSegments getGSO).map (·, m.addr)

/-- What a caller sees of a slot: its bytes, its length and its address. -/
def contents (m : Message) : List UInt8 × ℕ × Option UDPAddr := (m.received, m.n, m.addr)

/-- A slot whose buffer is long enough holds the whole segment. -/
theorem contents_deliver {m : Message} {b : Slice UInt8} {bs : List (Slice UInt8)}
    (hb : m.buffers = b :: bs) {x : List UInt8 × Option UDPAddr} (hx : x.1.length ≤ b.len) :
    (m.deliver x).contents = (x.1, x.1.length, x.2) := by
  have hrec : (m.deliver x).received = x.1 := by
    rw [received_deliver (by simp [hb]), room_eq hb, List.take_of_length_le hx]
  have hn : (m.deliver x).n = x.1.length := by
    simp [deliver, hb, Slice.copied, hx]
  rw [contents, hrec, hn]
  rfl

end Message

section Segments

variable {getGSO : List UInt8 → Except Error ℕ} {first : ℕ} {msgs : List Message}

theorem exists_processed_append (first : ℕ) (msgs : List Message) :
    ∃ rest, msgs.drop first = processed first msgs ++ rest ∧ ∀ m ∈ rest.head?, m.n = 0 := by
  refine ⟨(msgs.drop first).dropWhile fun m => m.n ≠ 0,
    (List.takeWhile_append_dropWhile).symm, fun m hm => ?_⟩
  have := List.head?_dropWhile_not (fun m : Message => decide (m.n ≠ 0)) (msgs.drop first)
  rw [Option.mem_def.mp hm] at this
  simpa using this

theorem n_ne_zero_of_mem_processed {m : Message} (hm : m ∈ processed first msgs) : m.n ≠ 0 := by
  simpa using List.mem_takeWhile_imp hm

namespace Message.Segmentable

variable {m : Message} (h : m.Segmentable getGSO)

include h

theorem splittable : m.Splittable getGSO where
  payload := h.payload
  control := h.control
  gso g hg := by
    obtain ⟨g', hg', hle⟩ := h.gso
    rw [hg, Except.ok.injEq] at hg'
    omega

theorem cut_eq (h0 : m.n ≠ 0) :
    m.cut getGSO = some (.ok (m.pieced getGSO)) := by
  obtain ⟨g, hg, -⟩ := h.gso
  simp only [cut, if_neg h0, pieced, gsoSegments, hg]

end Message.Segmentable

/-- Up to a message that is processed, the window has only messages that are. -/
theorem countBefore_eq (c : Message → ℕ) {k : ℕ} (hk : k ≤ (processed first msgs).length) :
    countBefore c first (first + k) msgs = (((processed first msgs).map c).take k).sum := by
  obtain ⟨rest, hrest, -⟩ := exists_processed_append first msgs
  rw [countBefore, List.drop_take, Nat.add_sub_cancel_left, hrest,
    List.take_append_of_le_length hk, List.map_take]

theorem noOverflow_processed_iff (c : Message → ℕ) :
    NoOverflow first 0 ((processed first msgs).map c) ↔
      ∀ i, first ≤ i → i < first + (processed first msgs).length →
        countBefore c first (i + 1) msgs ≤ i + 1 := by
  rw [noOverflow_iff, List.length_map]
  constructor
  · intro h i hi hlt
    obtain ⟨k, rfl⟩ := Nat.exists_eq_add_of_le hi
    have hk := h k (by omega)
    rwa [Nat.zero_add, ← countBefore_eq c (by omega)] at hk
  · intro h k hk
    have hi := h (first + k) (by omega) (by omega)
    rw [Nat.add_assoc, countBefore_eq c (by omega)] at hi
    omega

/-- Slots with long enough buffers show the pieces that were delivered to them. -/
theorem map_contents_placed {i : ℕ} {ps : List (List UInt8 × Option UDPAddr)}
    (hlen : ps.length ≤ msgs.length)
    (hb : ∀ m ∈ msgs, ∃ b bs, m.buffers = b :: bs ∧ ∀ x ∈ ps, x.1.length ≤ b.len) :
    ((placed first i ps msgs).take ps.length).map Message.contents =
      ps.map fun x => (x.1, x.1.length, x.2) := by
  rw [placed, take_render hlen]
  induction ps generalizing msgs with
  | nil => simp
  | cons x ps ih =>
    obtain ⟨m, msgs, rfl⟩ := List.exists_cons_of_length_pos (Nat.zero_lt_of_lt hlen)
    obtain ⟨⟨b, bs, hm, hx⟩, hb⟩ := List.forall_mem_cons.mp hb
    have hrest : ∀ m ∈ msgs, ∃ b bs, m.buffers = b :: bs ∧ ∀ x ∈ ps, x.1.length ≤ b.len := by
      intro m' hm'
      obtain ⟨b', bs', hb', hx'⟩ := hb m' hm'
      exact ⟨b', bs', hb', fun y hy => hx' y (List.mem_cons_of_mem x hy)⟩
    rw [List.zipWith_cons_cons, List.map_cons, List.map_cons,
      Message.contents_deliver hm (hx x List.mem_cons_self),
      ih (Nat.le_of_succ_le_succ hlen) hrest]

/-- A message that was split, and that no segment was delivered to, has length zero. -/
theorem n_placed_eq_zero {i k : ℕ} {ps : List (List UInt8 × Option UDPAddr)} (hf : first ≤ k)
    (hi : k < i) (hps : ps.length ≤ k) (hk : k < msgs.length) :
    ∃ m, (placed first i ps msgs)[k]? = some m ∧ m.n = 0 := by
  refine ⟨_, by rw [placed, getElem?_render, List.getElem?_eq_getElem hk]; rfl, ?_⟩
  simp [slot, List.getElem?_eq_none hps, hf, hi, Message.zeroed]

theorem length_processed_le (first : ℕ) (msgs : List Message) :
    (processed first msgs).length ≤ msgs.length - first := by
  rw [← List.length_drop]
  exact (List.takeWhile_sublist _).length_le

/-- Without an overflow there is a slot for each segment. -/
theorem length_pieced_le
    (h : NoOverflow first 0 ((processed first msgs).map fun m => (m.gsoSegments getGSO).length)) :
    ((processed first msgs).flatMap (Message.pieced getGSO)).length ≤ msgs.length := by
  have hle := add_sum_le_of_noOverflow h (Nat.zero_le first)
  have hproc := length_processed_le first msgs
  rw [List.length_map, Nat.zero_add] at hle
  rcases eq_or_ne (processed first msgs) [] with h0 | h0
  · simp [h0]
  · have hpos := List.length_pos_iff.mpr h0
    simp only [List.length_flatMap, Message.pieced, List.length_map]
    omega

section Processed

variable (hb : ∀ m ∈ msgs, m.buffers ≠ []) (hws : ∀ m ∈ processed first msgs, m.Segmentable getGSO)

include hb hws

/-- The messages of the window are cut into their segments, as long as these do not overflow. -/
theorem split_processed :
    (NoOverflow first 0 ((processed first msgs).map fun m => (m.gsoSegments getGSO).length) →
      splitCoalescedMessages getGSO first msgs =
        some ⟨placed first (first + (processed first msgs).length)
            ((processed first msgs).flatMap (Message.pieced getGSO)) msgs,
          ((processed first msgs).flatMap (Message.pieced getGSO)).length, none⟩) ∧
    (¬ NoOverflow first 0 ((processed first msgs).map fun m => (m.gsoSegments getGSO).length) →
      ∃ r, splitCoalescedMessages getGSO first msgs = some r ∧
        r.err = some errSplitOverflow) := by
  obtain ⟨rest, hdrop, hstop⟩ := exists_processed_append first msgs
  have hlen := congrArg List.length hdrop
  rw [List.length_drop, List.length_append] at hlen
  have hstart : splitCoalescedMessages getGSO first msgs =
      splitFrom getGSO ((processed first msgs).length + rest.length) first
        ([] : List (List UInt8 × Option UDPAddr)).length (placed first first [] msgs) := by
    rw [splitCoalescedMessages, hlen, placed, render_self]
    rfl
  have hcut : List.Forall₂ (fun m q => m.cut getGSO = some (.ok q)) (processed first msgs)
      ((processed first msgs).map (Message.pieced getGSO)) := by
    rw [List.forall₂_map_right_iff, List.forall₂_same]
    exact fun m hm => (hws m hm).cut_eq (n_ne_zero_of_mem_processed hm)
  have hs : ∀ m ∈ processed first msgs, m.Splittable getGSO := fun m hm => (hws m hm).splittable
  have hcount : (processed first msgs).map (fun m => (m.gsoSegments getGSO).length) =
      ((processed first msgs).map (Message.pieced getGSO)).map List.length := by
    rw [List.map_map]
    exact List.map_congr_left fun m _ => (List.length_map _).symm
  rw [hcount, hstart]
  constructor
  · intro hno
    have hle := add_sum_le_of_noOverflow hno (Nat.zero_le first)
    rw [← List.length_flatten, Nat.zero_add, List.length_map, List.length_map] at hle
    rw [@splitFrom_append getGSO first first [] msgs hb _ _ _ hdrop hs hcut le_rfl
      (Nat.zero_le first) hno, List.nil_append, List.flatMap]
    refine splitFrom_stop hle fun hpos => ?_
    obtain ⟨m, rest, rfl⟩ := List.exists_cons_of_length_pos hpos
    refine ⟨m, ?_, hstop m rfl⟩
    rw [← List.getElem?_drop, hdrop, List.getElem?_append_right le_rfl]
    simp
  · exact @splitFrom_overflow getGSO first first [] msgs hb _ _ _ hdrop hs hcut le_rfl
      (Nat.zero_le first)

end Processed

/-- **The split is the in-order segmentation of the window.** It reports an overflow iff up to some
message the window has more segments than there are slots; otherwise the first slots hold the
segments with the addresses of their messages, and the other messages that were split have length
zero. -/
theorem exists_split_segments
    (hbuf : ∀ m ∈ msgs, ∃ b bs, m.buffers = b :: bs ∧
      ∀ w ∈ processed first msgs, ∀ s ∈ w.gsoSegments getGSO, s.length ≤ b.len)
    (hws : ∀ m ∈ processed first msgs, m.Segmentable getGSO) :
    ∃ r, splitCoalescedMessages getGSO first msgs = some r ∧
      (r.err = some errSplitOverflow ↔
        ∃ i, first ≤ i ∧ i < first + (processed first msgs).length ∧
          i + 1 < countBefore (fun m => (m.gsoSegments getGSO).length) first (i + 1) msgs) ∧
      ((∀ i, first ≤ i → i < first + (processed first msgs).length →
          countBefore (fun m => (m.gsoSegments getGSO).length) first (i + 1) msgs ≤ i + 1) →
        r.err = none ∧
        r.n = ((processed first msgs).map fun m => (m.gsoSegments getGSO).length).sum ∧
        (r.msgs.take r.n).map Message.contents =
          ((processed first msgs).flatMap fun m =>
            (m.gsoSegments getGSO).map fun s => (s, s.length, m.addr)) ∧
        ∀ i, first ≤ i → i < first + (processed first msgs).length → r.n ≤ i →
          ∃ m, r.msgs[i]? = some m ∧ m.n = 0) := by
  have hb : ∀ m ∈ msgs, m.buffers ≠ [] := by
    intro m hm
    obtain ⟨b, bs, hbs, -⟩ := hbuf m hm
    simp [hbs]
  obtain ⟨hfit, hover⟩ := split_processed hb hws
  rw [← noOverflow_processed_iff]
  by_cases hno : NoOverflow first 0 ((processed first msgs).map
      fun m => (m.gsoSegments getGSO).length)
  · refine ⟨_, hfit hno, ?_, fun _ => ⟨rfl, ?_, ?_, fun i hi hlt hn => ?_⟩⟩
    · rw [noOverflow_processed_iff] at hno
      refine iff_of_false (by simp) ?_
      rintro ⟨i, hi, hlt, hgt⟩
      exact absurd hgt (not_lt.mpr (hno i hi hlt))
    · simp [List.length_flatMap, Message.pieced]
    · rw [map_contents_placed (length_pieced_le hno), List.map_flatMap]
      · simp only [Message.pieced, List.map_map]
        rfl
      · intro m hm
        obtain ⟨b, bs, hbs, hroom⟩ := hbuf m hm
        refine ⟨b, bs, hbs, fun x hx => ?_⟩
        obtain ⟨w, hw, hx⟩ := List.mem_flatMap.mp hx
        obtain ⟨s, hs, rfl⟩ := List.mem_map.mp hx
        exact hroom w hw s hs
    · have := length_processed_le first msgs
      exact n_placed_eq_zero hi hlt hn (by omega)
  · obtain ⟨r, hr, herr⟩ := hover hno
    refine ⟨r, hr, ?_, fun h => absurd h hno⟩
    rw [noOverflow_processed_iff] at hno
    push Not at hno
    exact ⟨fun _ => hno, fun _ => herr⟩

end Segments

/-- A message of `n` bytes in a buffer, with a segment size. -/
def Message.readWith (buf : Slice UInt8) (n g : ℕ) : Message where
  buffers := [buf]
  oob := Slice.ofList (ControlMessage.encode [groMessage g])
  addr := some .new
  n := n
  nn := (ControlMessage.encode [groMessage g]).length

/-- A window of one message of five bytes in segments of two, behind two slots. -/
def fiveInThree : List Message :=
  [.readWith (.ofList [0, 0, 0, 0, 0]) 0 0, .readWith (.ofList [0, 0, 0, 0, 0]) 0 0,
    .readWith (.ofList [1, 2, 3, 4, 5]) 5 2]

theorem mem_fiveInThree :
    ∀ m ∈ fiveInThree, ∃ b bs, m.buffers = b :: bs ∧ b.len = 5 ∧ m.n ≤ 5 := by
  simp only [fiveInThree, List.forall_mem_cons]
  exact ⟨⟨_, _, rfl, rfl, by decide⟩, ⟨_, _, rfl, rfl, by decide⟩, ⟨_, _, rfl, rfl, by decide⟩,
    by simp⟩

theorem exists_split_segments_fiveInThree :
    ∃ r, splitCoalescedMessages (getGSOSize .linux) 2 fiveInThree = some r ∧ r.err = none ∧
      (r.msgs.take r.n).map Message.contents =
        [([1, 2], 2, some .new), ([3, 4], 2, some .new), ([5], 1, some .new)] := by
  have hproc : processed 2 fiveInThree = [.readWith (.ofList [1, 2, 3, 4, 5]) 5 2] := by
    decide +kernel
  have hgso : getGSOSize .linux
      (Message.readWith (.ofList [1, 2, 3, 4, 5]) 5 2).controlData = .ok 2 := by decide +kernel
  have hbuf : ∀ m ∈ fiveInThree, ∃ b bs, m.buffers = b :: bs ∧ ∀ w ∈ processed 2 fiveInThree,
      ∀ s ∈ w.gsoSegments (getGSOSize .linux), s.length ≤ b.len := by
    intro m hm
    obtain ⟨b, bs, hb, hlen, -⟩ := mem_fiveInThree m hm
    refine ⟨b, bs, hb, ?_⟩
    rw [hproc, hlen]
    decide +kernel
  have hws : ∀ m ∈ processed 2 fiveInThree, m.Segmentable (getGSOSize .linux) := by
    rw [hproc]
    intro m hm
    obtain rfl := List.mem_singleton.mp hm
    exact ⟨⟨_, _, rfl, by decide⟩, by decide +kernel, 2, hgso, by decide⟩
  obtain ⟨r, hr, -, h⟩ := exists_split_segments hbuf hws
  obtain ⟨herr, -, hcontents, -⟩ := h fun i hi hlt => by
    rw [hproc] at hlt
    obtain rfl : i = 2 := Nat.le_antisymm (Nat.lt_succ_iff.mp hlt) hi
    decide +kernel
  refine ⟨r, hr, herr, hcontents.trans ?_⟩
  rw [hproc]
  decide +kernel

/-! ## Segment sizes beyond the length

The loop cuts the first segment of a message before it compares its end with the length of the
message. A segment size beyond the length therefore selects bytes behind it, up to the capacity of
the buffer. -/

section Parts

variable {getGSO : List UInt8 → Except Error ℕ} {first : ℕ} {msgs : List Message}

namespace Message

/-- The number of segments that the loop cuts a message into. -/
def numToSplit (getGSO : List UInt8 → Except Error ℕ) (m : Message) : ℕ :=
  if m.n = 0 then 0
  else
    match getGSO m.controlData with
    | .error _ => 0
    | .ok g => if 0 < g then (m.n + g - 1) / g else 1

/-- The segments that the loop selects: a single one, of the segment size, if that is beyond the
length. -/
def parts (getGSO : List UInt8 → Except Error ℕ) (m : Message) :
    List (List UInt8 × Option UDPAddr) :=
  if m.n = 0 then []
  else
    match getGSO m.controlData with
    | .error _ => []
    | .ok g =>
      if g ≤ m.n then (chunks g m.received).map (·, m.addr)
      else [((m.buffers.head?.map fun b => b.arr.take g).getD [], m.addr)]

/-- The capacity of the buffer that a message was read into. -/
def capacity (m : Message) : ℕ := (m.buffers.head?.map Slice.cap).getD 0

/-- A segment size beyond the length makes a single segment. -/
theorem numToSplit_eq_one {n g : ℕ} (h0 : n ≠ 0) (hgt : n < g) : (n + g - 1) / g = 1 := by
  rw [Nat.div_eq_iff (by omega)]
  omega

theorem parts_of_gt {m : Message} {b : Slice UInt8} {bs : List (Slice UInt8)}
    (hb : m.buffers = b :: bs) (h0 : m.n ≠ 0) {g : ℕ} (hg : getGSO m.controlData = .ok g)
    (hgt : ¬ g ≤ m.n) : m.parts getGSO = [(b.arr.take g, m.addr)] := by
  simp [parts, h0, hg, hgt, hb]

theorem length_parts {m : Message} (h : ∃ b bs, m.buffers = b :: bs ∧ m.n ≤ b.len) :
    (m.parts getGSO).length = m.numToSplit getGSO := by
  obtain ⟨b, bs, hb, hn⟩ := h
  unfold parts numToSplit
  split_ifs with h0
  · rfl
  · cases getGSO m.controlData with
    | error e => rfl
    | ok g =>
      have hrec : m.received.length = m.n := by simp [received, hb, hn]
      rcases Nat.lt_or_ge m.n g with hlt | hle
      · simp [not_le.mpr hlt, numToSplit_eq_one h0 hlt]
      · rcases Nat.eq_zero_or_pos g with rfl | hg
        · simp
        · simp [hle, hg, length_chunks hg, hrec]

end Message

/-- The loop gets as far as message `i`: the messages of the window before it are not empty, their
control data is parsed, and their segments do not run past them. -/
def Reached (getGSO : List UInt8 → Except Error ℕ) (first : ℕ) (msgs : List Message) (i : ℕ) :
    Prop :=
  first ≤ i ∧ ∀ j, first ≤ j → j < i → ∃ m, msgs[j]? = some m ∧ m.n ≠ 0 ∧
    (∃ g, getGSO m.controlData = .ok g) ∧
      countBefore (Message.numToSplit getGSO) first (j + 1) msgs ≤ j + 1

/-- The slots that hold `c` segments from slot `k` on, as far as the split has filled them. -/
def Split.outputs (r : Split) (k c : ℕ) : List Message := ((r.msgs.take r.n).drop k).take c

/-- The slots from `k` on hold bytes of `m` only, and not more than it had. -/
structure Split.CutFrom (r : Split) (k c : ℕ) (m : Message) : Prop where
  total : ((r.outputs k c).map Message.n).sum ≤ m.n
  bytes : ∀ o ∈ r.outputs k c, o.received.length = o.n ∧ o.received <:+: m.received

/-- The slice expressions on a message are within bounds, and its segments within its length: at a
segment size beyond the length, the slot must be too short for the bytes behind the length. -/
def Message.Bounded (getGSO : List UInt8 → Except Error ℕ) (m : Message) (slot : Option Message) :
    Prop :=
  m.nn ≤ m.oob.cap ∧ ∀ g, getGSO m.controlData = .ok g →
    g ≤ m.n ∨ g ≤ m.capacity ∧ ∀ s ∈ slot, s.room ≤ m.n

/-- The split does not panic, each slot that it reports belongs to a message, and the slots of a
message hold bytes of the message only, and not more than it had. -/
def SplitsWithin (getGSO : List UInt8 → Except Error ℕ) (first : ℕ) (msgs : List Message) : Prop :=
  ∃ r, splitCoalescedMessages getGSO first msgs = some r ∧
    (∀ k < r.n, ∃ i m, Reached getGSO first msgs i ∧ msgs[i]? = some m ∧
      countBefore (Message.numToSplit getGSO) first i msgs ≤ k ∧
      k < countBefore (Message.numToSplit getGSO) first i msgs + m.numToSplit getGSO) ∧
    ∀ i m, Reached getGSO first msgs i → msgs[i]? = some m →
      r.CutFrom (countBefore (Message.numToSplit getGSO) first i msgs) (m.numToSplit getGSO) m

theorem reached_succ_iff {i : ℕ} (hi : first ≤ i) :
    Reached getGSO first msgs (i + 1) ↔ Reached getGSO first msgs i ∧
      ∃ m, msgs[i]? = some m ∧ m.n ≠ 0 ∧ (∃ g, getGSO m.controlData = .ok g) ∧
        countBefore (Message.numToSplit getGSO) first (i + 1) msgs ≤ i + 1 := by
  constructor
  · rintro ⟨-, h⟩
    exact ⟨⟨hi, fun j hj hlt => h j hj (by omega)⟩, h i hi (by omega)⟩
  · rintro ⟨⟨-, h⟩, hlast⟩
    refine ⟨by omega, fun j hj hlt => ?_⟩
    rcases Nat.lt_succ_iff_lt_or_eq.mp hlt with hlt | rfl
    · exact h j hj hlt
    · exact hlast

theorem Reached.mono {i j : ℕ} (h : Reached getGSO first msgs i) (hj : first ≤ j) (hji : j ≤ i) :
    Reached getGSO first msgs j :=
  ⟨hj, fun k hk hlt => h.2 k hk (by omega)⟩

/-- The window up to and with a message. -/
theorem drop_take_succ {i : ℕ} {m : Message} (hi : first ≤ i) (hm : msgs[i]? = some m) :
    (msgs.take (i + 1)).drop first = (msgs.take i).drop first ++ [m] := by
  have hlt := (List.getElem?_eq_some_iff.mp hm).1
  rw [List.take_add_one, hm, Option.toList_some,
    List.drop_append_of_le_length (by rw [List.length_take]; omega)]

theorem countBefore_succ (c : Message → ℕ) {i : ℕ} {m : Message} (hi : first ≤ i)
    (hm : msgs[i]? = some m) :
    countBefore c first (i + 1) msgs = countBefore c first i msgs + c m := by
  rw [countBefore, drop_take_succ hi hm, List.map_append, List.sum_append]
  simp [countBefore]

/-- Each slot belongs to a message. -/
theorem exists_owner {c : Message → ℕ} {e k : ℕ} (h : k < countBefore c first e msgs) :
    ∃ i m, first ≤ i ∧ i < e ∧ msgs[i]? = some m ∧ countBefore c first i msgs ≤ k ∧
      k < countBefore c first i msgs + c m := by
  induction e with
  | zero => simp [countBefore] at h
  | succ e ih =>
    by_cases hk : k < countBefore c first e msgs
    · obtain ⟨i, m, hf, hi, hrest⟩ := ih hk
      exact ⟨i, m, hf, hi.trans (Nat.lt_succ_self e), hrest⟩
    · have hf : first ≤ e := by
        by_contra hlt
        rw [countBefore, List.drop_eq_nil_of_le (by rw [List.length_take]; omega)] at h
        simp at h
      cases hm : msgs[e]? with
      | none => simp [countBefore, List.take_add_one, hm] at h hk; omega
      | some m =>
        rw [countBefore_succ c hf hm] at h
        exact ⟨e, m, hf, Nat.lt_succ_self e, hm, not_lt.mp hk, h⟩

/-- The part of a list of pieces that starts behind `a`, if the pieces behind `a` are `b`. -/
theorem take_drop_prefix_of_append_prefix {α : Type} {ps a b q : List α} (hps : ps <+: q)
    (hab : a ++ b <+: q) : (ps.drop a.length).take b.length <+: b := by
  have hle : (ps.take (a.length + b.length)).length ≤ (a ++ b).length := by
    rw [List.length_append]
    exact List.length_take_le _ _
  have hpre := List.prefix_of_prefix_length_le ((List.take_prefix _ _).trans hps) hab hle
  have := hpre.drop a.length
  rwa [List.drop_take, Nat.add_sub_cancel_left, List.drop_left] at this

/-- The segments that the loop selects from the messages in front of `i`. -/
def partsBefore (getGSO : List UInt8 → Except Error ℕ) (first i : ℕ) (msgs : List Message) :
    List (List UInt8 × Option UDPAddr) :=
  ((msgs.take i).drop first).flatMap (Message.parts getGSO)

theorem partsBefore_succ {i : ℕ} {m : Message} (hi : first ≤ i) (hm : msgs[i]? = some m) :
    partsBefore getGSO first (i + 1) msgs =
      partsBefore getGSO first i msgs ++ m.parts getGSO := by
  rw [partsBefore, drop_take_succ hi hm, List.flatMap_append, List.flatMap_singleton]
  rfl

theorem Reached.length_partsBefore_le {i : ℕ} (hi : Reached getGSO first msgs i)
    (hps : (partsBefore getGSO first i msgs).length ≤ i) :
    (partsBefore getGSO first i msgs).length ≤ msgs.length := by
  rcases eq_or_lt_of_le hi.1 with rfl | hlt
  · simp [partsBefore]
  · obtain ⟨m, hm, -⟩ := hi.2 (i - 1) (by omega) (by omega)
    have := (List.getElem?_eq_some_iff.mp hm).1
    omega

/-- The loop ends at a message whose control data is not parsed. -/
theorem splitFrom_error {i left : ℕ} {m : Message} (hm : msgs[i]? = some m) (h0 : m.n ≠ 0)
    (hctl : m.nn ≤ m.oob.cap) {e : Error} (hg : getGSO m.controlData = .error e)
    {ps : List (List UInt8 × Option UDPAddr)} (hps : ps.length ≤ i) :
    splitFrom getGSO (left + 1) i ps.length (placed first i ps msgs) =
      some ⟨placed first i ps msgs, ps.length, some e⟩ := by
  have hctl' : m.oob.sub 0 m.nn = some m.controlData := by
    rw [Slice.sub_of_le (Nat.zero_le _) hctl]
    rfl
  rw [splitFrom, getElem?_placed_self hps, hm]
  simp [h0, hctl', hg]

namespace Message

/-- What a slot reports is as much of the segment as its buffer holds. -/
theorem n_deliver {m : Message} (h : m.buffers ≠ []) (x : List UInt8 × Option UDPAddr) :
    (m.deliver x).n = (m.deliver x).received.length := by
  obtain ⟨b, bs, hb⟩ := List.exists_cons_of_ne_nil h
  rw [received_deliver h, room_eq hb]
  simp [deliver, hb, Slice.copied]

theorem length_received_le (m : Message) : m.received.length ≤ m.n := by
  unfold received
  cases m.buffers.head? with
  | none => exact Nat.zero_le _
  | some b => exact (List.length_take_le _ _)

/-- Within the length, the segments of a message make up its bytes. -/
theorem flatten_parts {m : Message} (h0 : m.n ≠ 0) {g : ℕ} (hg : getGSO m.controlData = .ok g)
    (hle : g ≤ m.n) : ((m.parts getGSO).map Prod.fst).flatten = m.received := by
  simp only [parts, if_neg h0, hg, if_pos hle, List.map_map]
  exact (congrArg List.flatten (List.map_id _)).trans (flatten_chunks g m.received)

end Message

section Bounds

variable (hn : ∀ m ∈ msgs, ∃ b bs, m.buffers = b :: bs ∧ m.n ≤ b.len)

include hn

theorem buffers_ne_nil : ∀ m ∈ msgs, m.buffers ≠ [] := by
  intro m hm
  obtain ⟨b, bs, hb, -⟩ := hn m hm
  exact hb ▸ List.cons_ne_nil b bs

theorem length_partsBefore (i : ℕ) :
    (partsBefore getGSO first i msgs).length =
      countBefore (Message.numToSplit getGSO) first i msgs := by
  rw [partsBefore, countBefore, List.length_flatMap]
  refine congrArg List.sum (List.map_congr_left fun m hm => ?_)
  exact Message.length_parts (hn m (List.mem_of_mem_take (List.mem_of_mem_drop hm)))

/-- The loop over the segments of a message whose slice expressions are within bounds. -/
theorem cutSegments_parts {i : ℕ} {m : Message} (hm : msgs[i]? = some m) (h0 : m.n ≠ 0)
    (hctl : m.nn ≤ m.oob.cap) {g : ℕ} (hg : getGSO m.controlData = .ok g)
    (hcap : g ≤ m.n ∨ g ≤ m.capacity) {ps : List (List UInt8 × Option UDPAddr)}
    (hps : ps.length ≤ i) :
    cutSegments i g (if 0 < g then (m.n + g - 1) / g else 1) ps.length 0
        (if 0 < g then g else m.n) (placed first i ps msgs) =
      some (cutResult first i ps (m.parts getGSO) msgs) := by
  have hb := buffers_ne_nil hn
  obtain ⟨b, bs, hbs, hle⟩ := hn m (List.mem_of_getElem? hm)
  simp only [Message.parts, if_neg h0, hg]
  by_cases hgn : g ≤ m.n
  · have hs : m.Splittable getGSO := by
      refine ⟨⟨b, bs, hbs, hle⟩, hctl, fun g' hg' => ?_⟩
      rw [hg, Except.ok.injEq] at hg'
      omega
    rw [if_pos hgn, cutSegments_eq hb hm hs hg hps]
  · have hcap' : g ≤ b.cap := by simpa [Message.capacity, hbs] using hcap.resolve_left hgn
    have h1 : (m.n + g - 1) / g = 1 := Message.numToSplit_eq_one h0 (not_le.mp hgn)
    obtain ⟨n, -, hstep⟩ := @cutSegments_succ first i ps msgs hb m hm b bs hbs hps 0 g
      (Nat.zero_le _) hcap' g 0
    have hfit : ps.length + 1 ≤ i + 1 := Nat.succ_le_succ hps
    rw [if_neg hgn, if_pos (by omega), if_pos (by omega), h1, hstep, cutSegments, cutResult]
    simp [hfit, hbs]

/-- **The loop gets to message `i`** with the segments of the messages in front of it delivered, if
the slice expressions on these are within bounds. -/
theorem Reached.split_eq {i : ℕ} (hi : Reached getGSO first msgs i)
    (hall : ∀ j < i, ∀ m, Reached getGSO first msgs j → msgs[j]? = some m → m.n ≠ 0 →
      m.Bounded getGSO msgs[countBefore (Message.numToSplit getGSO) first j msgs]?) :
    (partsBefore getGSO first i msgs).length ≤ i ∧
      splitCoalescedMessages getGSO first msgs =
        splitFrom getGSO (msgs.length - i) i (partsBefore getGSO first i msgs).length
          (placed first i (partsBefore getGSO first i msgs) msgs) := by
  have hfirst := hi.1
  -- the induction is on the messages behind `first`
  induction i, hfirst using Nat.le_induction with
  | base =>
    have hnil : partsBefore getGSO first first msgs = [] := by simp [partsBefore]
    rw [hnil, splitCoalescedMessages, placed, render_self]
    exact ⟨Nat.zero_le _, rfl⟩
  | succ i hfirst ih =>
    obtain ⟨hri, m, hm, h0, ⟨g, hg⟩, hcount⟩ := (reached_succ_iff hfirst).mp hi
    obtain ⟨hps, hrun⟩ := ih hri fun j hj => hall j (by omega)
    obtain ⟨hctl, hgso⟩ := hall i (Nat.lt_succ_self i) m hri hm h0
    have hlt := (List.getElem?_eq_some_iff.mp hm).1
    have happ := @partsBefore_succ getGSO first msgs i m hfirst hm
    rw [← length_partsBefore hn, happ, List.length_append] at hcount
    have hleft : msgs.length - i = msgs.length - (i + 1) + 1 := by omega
    refine ⟨by rwa [happ, List.length_append], ?_⟩
    rw [hrun, hleft, splitFrom_succ_of_cut hm h0 hctl hg
      (cutSegments_parts hn hm h0 hctl hg ((hgso g hg).imp_right And.left) hps) hfirst hps,
      if_pos hcount, happ]

omit hn in
/-- The loop gets as far as some message, and not further. -/
theorem exists_last_reached (getGSO : List UInt8 → Except Error ℕ) (first : ℕ)
    (msgs : List Message) :
    ∃ i, Reached getGSO first msgs i ∧ ¬ Reached getGSO first msgs (i + 1) := by
  by_contra hno
  push Not at hno
  have hall : ∀ k, Reached getGSO first msgs (first + k) := by
    intro k
    induction k with
    | zero => exact ⟨le_rfl, fun j hj hlt => by omega⟩
    | succ k ih => exact hno _ ih
  obtain ⟨m, hm, -⟩ := (hall (msgs.length + 1)).2 (first + msgs.length) (by omega) (by omega)
  have := (List.getElem?_eq_some_iff.mp hm).1
  omega

/-- **How the split ends**: with the slots filled by segments that it selected, in their order. -/
theorem exists_split_parts
    (hall : ∀ i m, Reached getGSO first msgs i → msgs[i]? = some m → m.n ≠ 0 →
      m.Bounded getGSO msgs[countBefore (Message.numToSplit getGSO) first i msgs]?) :
    ∃ i ps err, Reached getGSO first msgs i ∧ ¬ Reached getGSO first msgs (i + 1) ∧
      splitCoalescedMessages getGSO first msgs =
        some ⟨placed first i ps msgs, ps.length, err⟩ ∧
      ps <+: partsBefore getGSO first (i + 1) msgs ∧ ps.length ≤ msgs.length := by
  obtain ⟨i, hi, hlast⟩ := exists_last_reached getGSO first msgs
  obtain ⟨hps, hrun⟩ := hi.split_eq hn fun j _ m => hall j m
  have hlen := hi.length_partsBefore_le hps
  have hpre : partsBefore getGSO first i msgs <+: partsBefore getGSO first (i + 1) msgs :=
    ((List.take_prefix_take_left (Nat.le_succ i)).drop first).flatMap _
  cases hm : msgs[i]? with
  | none =>
    have hend := List.getElem?_eq_none_iff.mp hm
    exact ⟨i, _, _, hi, hlast, hrun.trans (splitFrom_stop hps fun hpos => by omega), hpre, hlen⟩
  | some m =>
    have hlt := (List.getElem?_eq_some_iff.mp hm).1
    by_cases h0 : m.n = 0
    · exact ⟨i, _, _, hi, hlast, hrun.trans (splitFrom_stop hps fun _ => ⟨m, hm, h0⟩), hpre, hlen⟩
    · obtain ⟨hctl, hgso⟩ := hall i m hi hm h0
      have hleft : msgs.length - i = msgs.length - (i + 1) + 1 := by omega
      cases hg : getGSO m.controlData with
      | error e =>
        refine ⟨i, _, some e, hi, hlast, hrun.trans ?_, hpre, hlen⟩
        rw [hleft, splitFrom_error hm h0 hctl hg hps]
      | ok g =>
        have happ := @partsBefore_succ getGSO first msgs i m hi.1 hm
        have hfit :
            ¬ (partsBefore getGSO first i msgs).length + (m.parts getGSO).length ≤ i + 1 := by
          intro hle
          rw [← List.length_append, ← happ, length_partsBefore hn] at hle
          exact hlast ((reached_succ_iff hi.1).mpr ⟨hi, m, hm, h0, ⟨g, hg⟩, hle⟩)
        have htake : ((partsBefore getGSO first i msgs ++ m.parts getGSO).take (i + 1)).length =
            i + 1 := by
          rw [List.length_take, List.length_append]
          omega
        refine ⟨i, (partsBefore getGSO first i msgs ++ m.parts getGSO).take (i + 1),
          some errSplitOverflow, hi, hlast, hrun.trans ?_, ?_, by omega⟩
        swap
        · rw [happ]
          exact List.take_prefix _ _
        rw [hleft, splitFrom_succ_of_cut hm h0 hctl hg
          (cutSegments_parts hn hm h0 hctl hg ((hgso g hg).imp_right And.left) hps) hi.1 hps,
          if_neg hfit, htake]

omit hn in
/-- The slots of a message, after the segments `ps` were delivered. -/
theorem outputs_placed {i k c : ℕ} {ps : List (List UInt8 × Option UDPAddr)}
    (hlen : ps.length ≤ msgs.length) (err : Option Error) :
    Split.outputs ⟨placed first i ps msgs, ps.length, err⟩ k c =
      List.zipWith Message.deliver ((msgs.drop k).take c) ((ps.drop k).take c) := by
  rw [Split.outputs, placed, take_render hlen, List.drop_zipWith, List.take_zipWith]

omit hn in
theorem exists_of_mem_deliver {ss : List Message} {xs : List (List UInt8 × Option UDPAddr)}
    {o : Message} (ho : o ∈ List.zipWith Message.deliver ss xs) :
    ∃ s ∈ ss, ∃ x ∈ xs, o = s.deliver x := by
  rw [← List.map_uncurry_zip_eq_zipWith] at ho
  obtain ⟨⟨s, x⟩, hmem, rfl⟩ := List.mem_map.mp ho
  obtain ⟨hs, hx⟩ := List.of_mem_zip hmem
  exact ⟨s, hs, x, hx, rfl⟩

omit hn in
/-- Slots report no more bytes than were delivered to them. -/
theorem sum_n_deliver_le {ss : List Message} (hss : ∀ s ∈ ss, s.buffers ≠ [])
    (xs : List (List UInt8 × Option UDPAddr)) :
    ((List.zipWith Message.deliver ss xs).map Message.n).sum ≤
      (xs.map Prod.fst).flatten.length := by
  induction ss generalizing xs with
  | nil => simp
  | cons s ss ih =>
    obtain ⟨hs, hss⟩ := List.forall_mem_cons.mp hss
    cases xs with
    | nil => simp
    | cons x xs =>
      have := ih hss xs
      have hlen : (s.deliver x).n ≤ x.1.length := by
        rw [Message.n_deliver hs, Message.received_deliver hs]
        exact (List.take_sublist _ _).length_le
      simp only [List.zipWith_cons_cons, List.map_cons, List.sum_cons, List.flatten_cons,
        List.length_append]
      omega

omit hn in
theorem cutFrom_of_outputs_eq_nil {r : Split} {k c : ℕ} (h : r.outputs k c = []) (m : Message) :
    r.CutFrom k c m :=
  ⟨by simp [h], by simp [h]⟩

omit hn in
/-- Slots with segments within the length of a message hold bytes of the message. -/
theorem cutFrom_of_le {r : Split} {k c : ℕ} {m : Message} {ss : List Message}
    (hss : ∀ s ∈ ss, s.buffers ≠ []) {xs : List (List UInt8 × Option UDPAddr)}
    (hout : r.outputs k c = List.zipWith Message.deliver ss xs) (hxs : xs <+: m.parts getGSO)
    (h0 : m.n ≠ 0) {g : ℕ} (hg : getGSO m.controlData = .ok g) (hle : g ≤ m.n) :
    r.CutFrom k c m := by
  have hflat := Message.flatten_parts h0 hg hle
  constructor
  · calc ((r.outputs k c).map Message.n).sum
        ≤ (xs.map Prod.fst).flatten.length := hout ▸ sum_n_deliver_le hss xs
      _ ≤ ((m.parts getGSO).map Prod.fst).flatten.length :=
          ((hxs.map Prod.fst).flatten).length_le
      _ = m.received.length := by rw [hflat]
      _ ≤ m.n := m.length_received_le
  · intro o ho
    obtain ⟨s, hs, x, hx, rfl⟩ := exists_of_mem_deliver (hout ▸ ho)
    refine ⟨(Message.n_deliver (hss s hs) x).symm, ?_⟩
    rw [Message.received_deliver (hss s hs), ← hflat]
    exact (List.take_prefix _ _).isInfix.trans
      (List.infix_of_mem_flatten (List.mem_map_of_mem (hxs.subset hx)))

/-- A slot with a segment beyond the length of a message holds bytes of the message if it is too
short for those behind. -/
theorem cutFrom_of_gt {r : Split} {k c : ℕ} {m : Message} (hm : m ∈ msgs)
    {xs : List (List UInt8 × Option UDPAddr)}
    (hout : r.outputs k c = List.zipWith Message.deliver ((msgs.drop k).take c) xs)
    (hxs : xs <+: m.parts getGSO) (h0 : m.n ≠ 0) {g : ℕ} (hg : getGSO m.controlData = .ok g)
    (hgt : ¬ g ≤ m.n) (hroom : ∀ s ∈ msgs[k]?, s.room ≤ m.n) : r.CutFrom k c m := by
  obtain ⟨b, bs, hb, hle⟩ := hn m hm
  rw [Message.parts_of_gt hb h0 hg hgt] at hxs
  cases xs with
  | nil => exact cutFrom_of_outputs_eq_nil (by rw [hout, List.zipWith_nil_right]) m
  | cons x xs =>
    obtain ⟨rfl, hnil⟩ := List.cons_prefix_cons.mp hxs
    obtain rfl := List.prefix_nil.mp hnil
    cases hss : (msgs.drop k).take c with
    | nil => exact cutFrom_of_outputs_eq_nil (by rw [hout, hss, List.zipWith_nil_left]) m
    | cons s ss =>
      have hmem : s ∈ (msgs.drop k).take c := hss ▸ List.mem_cons_self
      have hs := buffers_ne_nil hn s (List.mem_of_mem_drop (List.mem_of_mem_take hmem))
      have hk : msgs[k]? = some s := by
        have h0 : ((msgs.drop k).take c)[0]? = some s := by rw [hss, List.getElem?_cons_zero]
        rw [List.getElem?_take] at h0
        split_ifs at h0
        rwa [List.getElem?_drop, Nat.add_zero] at h0
      have hlen := hroom s hk
      have hrec : (s.deliver (b.arr.take g, m.addr)).received <+: m.received := by
        rw [Message.received_deliver hs, List.take_take, Message.received, hb]
        simp only [List.head?_cons, Option.map_some, Option.getD_some]
        rw [Slice.take_toList hle]
        exact List.take_prefix_take_left (by omega)
      have hn' := Message.n_deliver hs (b.arr.take g, m.addr)
      rw [hss, List.zipWith_cons_cons, List.zipWith_nil_right] at hout
      constructor
      · rw [hout, List.map_singleton, List.sum_singleton, hn']
        exact hrec.length_le.trans m.length_received_le
      · rw [hout]
        intro o ho
        obtain rfl := List.mem_singleton.mp ho
        exact ⟨hn'.symm, hrec.isInfix⟩

/-- Slots with segments of a message hold bytes of the message only. -/
theorem cutFrom_of_parts {r : Split} {k c : ℕ} {m : Message} (hm : m ∈ msgs)
    {xs : List (List UInt8 × Option UDPAddr)}
    (hout : r.outputs k c = List.zipWith Message.deliver ((msgs.drop k).take c) xs)
    (hxs : xs <+: m.parts getGSO) (hbd : m.n ≠ 0 → m.Bounded getGSO msgs[k]?) :
    r.CutFrom k c m := by
  have hbuf : ∀ s ∈ (msgs.drop k).take c, s.buffers ≠ [] := fun s hs =>
    buffers_ne_nil hn s (List.mem_of_mem_drop (List.mem_of_mem_take hs))
  have hnil : m.parts getGSO = [] → r.CutFrom k c m := by
    intro hp
    rw [hp, List.prefix_nil] at hxs
    exact cutFrom_of_outputs_eq_nil (by rw [hout, hxs, List.zipWith_nil_right]) m
  by_cases h0 : m.n = 0
  · exact hnil (if_pos h0)
  · cases hg : getGSO m.controlData with
    | error e => exact hnil (by simp [Message.parts, h0, hg])
    | ok g =>
      by_cases hle : g ≤ m.n
      · exact cutFrom_of_le hbuf hout hxs h0 hg hle
      · exact cutFrom_of_gt hn hm hout hxs h0 hg hle
          (((hbd h0).2 g hg).resolve_left hle).2

/-- **Within the bounds the split promises what it should.** -/
theorem splitsWithin_of_bounded
    (hall : ∀ i m, Reached getGSO first msgs i → msgs[i]? = some m → m.n ≠ 0 →
      m.Bounded getGSO msgs[countBefore (Message.numToSplit getGSO) first i msgs]?) :
    SplitsWithin getGSO first msgs := by
  obtain ⟨e, ps, err, he, hlast, hrun, hpre, hlen⟩ := exists_split_parts hn hall
  refine ⟨_, hrun, fun k hk => ?_, fun i m hi hm => ?_⟩
  · have hk' := hk.trans_le hpre.length_le
    rw [length_partsBefore hn] at hk'
    obtain ⟨i, m, hf, hie, hm, hle, hlt⟩ := exists_owner hk'
    exact ⟨i, m, he.mono hf (by omega), hm, hle, hlt⟩
  · have hie : i ≤ e := by
      by_contra hlt
      exact hlast (hi.mono (he.1.trans (Nat.le_succ e)) (by omega))
    have hi1 : partsBefore getGSO first i msgs ++ m.parts getGSO <+:
        partsBefore getGSO first (e + 1) msgs := by
      rw [← partsBefore_succ hi.1 hm]
      exact ((List.take_prefix_take_left (Nat.succ_le_succ hie)).drop first).flatMap _
    have hmem := List.mem_of_getElem? hm
    have hxs := take_drop_prefix_of_append_prefix hpre hi1
    rw [length_partsBefore hn, Message.length_parts (hn m hmem)] at hxs
    exact cutFrom_of_parts hn hmem (outputs_placed hlen err) hxs (hall i m hi hm)

omit hn in
/-- A round of the loop that does not panic is within the capacities. -/
theorem le_capacity_of_splitFrom {i left : ℕ} {m : Message} (hm : msgs[i]? = some m) (h0 : m.n ≠ 0)
    {ps : List (List UInt8 × Option UDPAddr)} (hps : ps.length ≤ i) {r : Split}
    (h : splitFrom getGSO (left + 1) i ps.length (placed first i ps msgs) = some r) :
    m.nn ≤ m.oob.cap ∧ ∀ g, getGSO m.controlData = .ok g → g ≤ m.n ∨ g ≤ m.capacity := by
  obtain ⟨m', hm', h⟩ := splitFrom_cases h
  rw [getElem?_placed_self hps, hm] at hm'
  obtain rfl := Option.some.inj hm'
  obtain ⟨h0', -⟩ | ⟨-, control, hcontrol, h⟩ := h
  · exact absurd h0' h0
  obtain ⟨hctl, rfl⟩ := Slice.sub_eq_some_iff.mp hcontrol
  refine ⟨hctl.2, fun g hg => ?_⟩
  obtain ⟨e, he, -⟩ | ⟨g', r₁, hg', hcut, -⟩ := h
  · cases hg.symm.trans he
  obtain rfl := Except.ok.inj (hg.symm.trans hg')
  by_contra hno
  push Not at hno
  have h1 : (m.n + g - 1) / g = 1 := Message.numToSplit_eq_one h0 hno.1
  rw [if_pos (by omega), if_pos (by omega), h1] at hcut
  obtain ⟨hi, -⟩ | ⟨-, ⟨msg, b, hmsg, hb, hcap⟩, -⟩ := cutSegments_cases hcut
  · omega
  rw [getElem?_placed_self hps, hm] at hmsg
  obtain rfl := Option.some.inj hmsg
  have : m.capacity = b.cap := by simp [Message.capacity, hb]
  omega

omit hn in
theorem outputs_one {r : Split} {k : ℕ} {o : Message} (hk : k < r.n) (ho : r.msgs[k]? = some o) :
    r.outputs k 1 = [o] := by
  have h : ((r.msgs.take r.n).drop k).head? = some o := by
    rw [List.head?_drop, List.getElem?_take, if_pos hk, ho]
  rw [Split.outputs, List.take_one, h, Option.toList_some]

/-- After a segment beyond the length of a message, the slot reports as much of it as its buffer
holds. -/
theorem outputs_of_gt {i left : ℕ} {m s : Message} (hm : msgs[i]? = some m) (h0 : m.n ≠ 0)
    (hctl : m.nn ≤ m.oob.cap) {g : ℕ} (hg : getGSO m.controlData = .ok g) (hgt : ¬ g ≤ m.n)
    (hcap : g ≤ m.capacity) (hf : first ≤ i) {ps : List (List UInt8 × Option UDPAddr)}
    (hps : ps.length ≤ i) (hs : msgs[ps.length]? = some s) {r : Split}
    (h : splitFrom getGSO (left + 1) i ps.length (placed first i ps msgs) = some r) :
    ∃ o, r.outputs ps.length 1 = [o] ∧ o.n = min s.room g := by
  obtain ⟨b, bs, hb, -⟩ := hn m (List.mem_of_getElem? hm)
  have hparts := Message.parts_of_gt hb h0 hg hgt
  have hlen : (b.arr.take g).length = g := by
    have : g ≤ b.arr.length := by simpa [Message.capacity, hb, Slice.cap] using hcap
    rw [List.length_take, min_eq_left this]
  have hcut := @cutSegments_parts getGSO first msgs hn i m hm h0 hctl g hg (.inr hcap) ps hps
  rw [splitFrom_succ_of_cut hm h0 hctl hg hcut hf hps, hparts, if_pos (by simpa using hps)] at h
  obtain ⟨hr, -, hframe, -⟩ := splitFrom_frame h (by simpa using hps)
  rw [List.length_append, List.length_singleton] at hr hframe
  refine ⟨s.deliver (b.arr.take g, m.addr), outputs_one hr ?_, ?_⟩
  · rw [hframe ps.length (Nat.lt_succ_self _), placed, getElem?_render, hs]
    simp [slot]
  · have hne := buffers_ne_nil hn s (List.mem_of_getElem? hs)
    rw [Message.n_deliver hne, Message.received_deliver hne, List.length_take, hlen]

/-- **A split that does as it promises is within the bounds.** -/
theorem bounded_of_splitsWithin (h : SplitsWithin getGSO first msgs) {i : ℕ} {m : Message}
    (hi : Reached getGSO first msgs i) (hm : msgs[i]? = some m) (h0 : m.n ≠ 0) :
    m.Bounded getGSO msgs[countBefore (Message.numToSplit getGSO) first i msgs]? := by
  -- the induction is on the messages in front, which the loop gets past only if they are bounded
  induction i using Nat.strong_induction_on generalizing m with
  | _ i ih =>
    obtain ⟨r, hr, -, hcut⟩ := h
    have hcut := hcut i m hi hm
    obtain ⟨hps, hrun⟩ := hi.split_eq hn fun j hj m' hj' hm' h0' => ih j hj hj' hm' h0'
    have hlt := (List.getElem?_eq_some_iff.mp hm).1
    have hleft : msgs.length - i = msgs.length - (i + 1) + 1 := by omega
    rw [hr, hleft] at hrun
    obtain ⟨hctl, hcap⟩ := le_capacity_of_splitFrom hm h0 hps hrun.symm
    refine ⟨hctl, fun g hg => or_iff_not_imp_left.mpr fun hgt => ?_⟩
    refine ⟨(hcap g hg).resolve_left hgt, fun s hs => ?_⟩
    rw [← length_partsBefore hn] at hs hcut
    obtain ⟨o, ho, hon⟩ := outputs_of_gt hn hm h0 hctl hg hgt ((hcap g hg).resolve_left hgt) hi.1
      hps hs hrun.symm
    have h1 : m.numToSplit getGSO = 1 := by
      rw [← Message.length_parts (hn m (List.mem_of_getElem? hm))]
      simp [Message.parts, h0, hg, hgt]
    have htotal := hcut.total
    rw [h1, ho, List.map_singleton, List.sum_singleton, hon] at htotal
    omega

end Bounds

/-- **Bounds and bytes.** For messages whose lengths are within their buffers, the split selects
only bytes of the messages, and reports no more than they had, iff each message that the loop gets
to has a segment size within its length, or one within the capacity of its buffer while the slot is
too short for the bytes behind the length. -/
theorem splitsWithin_iff (hn : ∀ m ∈ msgs, ∃ b bs, m.buffers = b :: bs ∧ m.n ≤ b.len) :
    SplitsWithin getGSO first msgs ↔
      ∀ i m, Reached getGSO first msgs i → msgs[i]? = some m → m.n ≠ 0 →
        m.Bounded getGSO msgs[countBefore (Message.numToSplit getGSO) first i msgs]? := by
  constructor
  · intro h i m hi hm h0
    exact bounded_of_splitsWithin hn h hi hm h0
  · exact splitsWithin_of_bounded hn

end Parts

theorem splitsWithin_fiveInThree : SplitsWithin (getGSOSize .linux) 2 fiveInThree := by
  have hgso : ∀ i m, 2 ≤ i → fiveInThree[i]? = some m → m.nn ≤ m.oob.cap ∧
      getGSOSize .linux m.controlData = .ok 2 ∧ m.n = 5 := by
    intro i m hi hm
    have hlt : i < 3 := (List.getElem?_eq_some_iff.mp hm).1
    obtain rfl : i = 2 := by omega
    obtain rfl := Option.some.inj hm
    decide +kernel
  refine (splitsWithin_iff fun m hm => ?_).mpr fun i m hi hm _ => ?_
  · obtain ⟨b, bs, hb, hlen, hle⟩ := mem_fiveInThree m hm
    exact ⟨b, bs, hb, by omega⟩
  · obtain ⟨hctl, hg, h5⟩ := hgso i m hi.1 hm
    refine ⟨hctl, fun g hg' => .inl ?_⟩
    rw [hg, Except.ok.injEq] at hg'
    omega

/-- A read of four bytes that was cut off at the end of its buffer, in front of the end of the first
segment. -/
def cutOff (spare : ℕ) : Message := .readWith ⟨List.replicate (4 + spare) 7, 4, by simp⟩ 4 5

/-- A slot in front of the read. -/
def longSlot : Message := .readWith (.ofList (List.replicate 8 0)) 0 0

/-- Without spare capacity the split of such a read panics. With some, it reports more bytes than
were read. -/
theorem not_splitsWithin_cutOff :
    (∀ m ∈ [longSlot, cutOff 0, cutOff 1], ∃ b bs, m.buffers = b :: bs ∧ m.n ≤ b.len) ∧
    splitCoalescedMessages (getGSOSize .linux) 1 [longSlot, cutOff 0] = none ∧
    ¬ SplitsWithin (getGSOSize .linux) 1 [longSlot, cutOff 0] ∧
    ¬ SplitsWithin (getGSOSize .linux) 1 [longSlot, cutOff 1] := by
  have hnone : splitCoalescedMessages (getGSOSize .linux) 1 [longSlot, cutOff 0] = none := by
    decide +kernel
  have hfive : (splitCoalescedMessages (getGSOSize .linux) 1 [longSlot, cutOff 1]).map
      (fun r => (r.outputs 0 1).map Message.n) = some [5] := by decide +kernel
  refine ⟨?_, hnone, ?_, ?_⟩
  · simp only [List.forall_mem_cons]
    exact ⟨⟨_, _, rfl, by decide⟩, ⟨_, _, rfl, by decide⟩, ⟨_, _, rfl, by decide⟩, by simp⟩
  · rintro ⟨r, hr, -⟩
    rw [hnone] at hr
    simp at hr
  · rintro ⟨r, hr, -, hcut⟩
    rw [hr, Option.map_some, Option.some.injEq] at hfive
    have htotal := (hcut 1 (cutOff 1) ⟨le_rfl, fun j hj hlt => by omega⟩ rfl).total
    have hslot : countBefore (Message.numToSplit (getGSOSize .linux)) 1 1
        [longSlot, cutOff 1] = 0 := by decide +kernel
    have hone : (cutOff 1).numToSplit (getGSOSize .linux) = 1 := by decide +kernel
    rw [hslot, hone, hfive] at htotal
    exact absurd htotal (by decide)

end BatchUDP
