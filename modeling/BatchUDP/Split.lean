import BatchUDP.Socket
import BatchUDP.Framing.InPlace

/-!
# Splitting coalesced messages

The receivers read coalesced messages into the last slots of a list of messages and split them in
place: the segments of the messages are copied to the slots from the start of the list on, one
segment each. Payload, length and address move; control data stays where it was read. A message of
length zero ends the loop.

## Main definitions

* `cutSegments`, `splitFrom`, `splitCoalescedMessages`: the loops
* `Message.received`: the bytes that a message says it holds
* `Message.deliver`: a slot with a segment copied to it
* `Message.cut`: the segments of a message, with its address
* `Message.Splittable`: the lengths of a message are within its buffers
* `Message.shape`: the sizes of a message's buffers
* `Split.append`: the result of a split with more messages behind it

## Main results

* `cutSegments_eq`: the segments of a message are delivered to the next slots, up to the message
* `splitFrom_append`, `splitFrom_overflow`, `splitFrom_stop`: messages are split one after the other
  until one does not fit, or one has length zero
* `cutSegments_cases`, `splitFrom_cases`: what one round of the loops does
* `splitFrom_frame`, `splitFrom_shape`: slots that were filled are left alone, and no buffer changes
  its size
* `splitCoalescedMessages_append_right`: messages behind one of length zero play no part
-/

namespace BatchUDP

open Go Unix Framing

/-- What `splitCoalescedMessages` leaves behind: the messages, the number of slots, and the error.
-/
structure Split where
  msgs : List Message
  n : ℕ
  err : Option Error
  deriving DecidableEq, Repr

/-- The error of a segment that has no slot. -/
def errSplitOverflow : Error := .text "splitting coalesced packet resulted in overflow"

/-- The loop over the segments of message `i`: `left` segments remain, the next slot is `n`, and the
next segment is `start` to `stop`. -/
def cutSegments (i gsoSize : ℕ) :
    (left n start stop : ℕ) → List Message → Option Split
  | 0, n, _, _, msgs => some ⟨msgs, n, none⟩
  | left + 1, n, start, stop, msgs =>
    -- a segment never goes to a slot behind the message that it is cut from
    if i < n then some ⟨msgs, n, some errSplitOverflow⟩
    else do
      let msg ← msgs[i]?
      let slot ← msgs[n]?
      let src ← (← msg.buffers.head?).sub start stop
      let buf ← slot.buffers.head?
      let msgs := msgs.set n { slot with
        buffers := slot.buffers.set 0 (buf.copy src)
        n := buf.copied src
        addr := msg.addr }
      -- the slot may be the message itself, whose length has changed then
      let msg ← msgs[i]?
      cutSegments i gsoSize left (n + 1) stop (min (stop + gsoSize) msg.n) msgs

/-- The loop over the messages from `i` on, of which `left` remain. -/
def splitFrom (getGSO : List UInt8 → Except Error ℕ) :
    (left i n : ℕ) → List Message → Option Split
  | 0, _, n, msgs => some ⟨msgs, n, none⟩
  | left + 1, i, n, msgs => do
    let msg ← msgs[i]?
    -- a message of length zero ends the split, wherever it is
    if msg.n = 0 then some ⟨msgs, n, none⟩
    else
      let control ← msg.oob.sub 0 msg.nn
      match getGSO control with
      | .error e => some ⟨msgs, n, some e⟩
      | .ok gsoSize =>
        let numToSplit := if 0 < gsoSize then (msg.n + gsoSize - 1) / gsoSize else 1
        let stop := if 0 < gsoSize then gsoSize else msg.n
        let r ← cutSegments i gsoSize numToSplit n 0 stop msgs
        if r.err.isSome then some r
        else
          -- the length of a message that is not a slot now is set to zero
          let msgs := if i + 1 = r.n then r.msgs
            else r.msgs.modify i fun m => { m with n := 0 }
          splitFrom getGSO left (i + 1) r.n msgs

/-- `splitCoalescedMessages`. -/
def splitCoalescedMessages (getGSO : List UInt8 → Except Error ℕ) (firstMsgAt : ℕ)
    (msgs : List Message) : Option Split :=
  splitFrom getGSO (msgs.length - firstMsgAt) firstMsgAt 0 msgs

namespace Message

/-- The bytes that a message says it holds. -/
def received (m : Message) : List UInt8 := (m.buffers.head?.map fun b => b.toList.take m.n).getD []

/-- The control data that a message says it holds. -/
def controlData (m : Message) : List UInt8 := m.oob.arr.take m.nn

/-- A slot with a segment copied to it, and the address of the message it was cut from. -/
def deliver (m : Message) (x : List UInt8 × Option UDPAddr) : Message :=
  { m with
    buffers := m.buffers.modify 0 fun b => b.copy x.1
    n := (m.buffers.head?.map fun b => b.copied x.1).getD 0
    addr := x.2 }

/-- A message whose length was set to zero. -/
def zeroed (m : Message) : Message := { m with n := 0 }

/-- The segments of a message with their address: none at a message of length zero. -/
def cut (getGSO : List UInt8 → Except Error ℕ) (m : Message) :
    Option (Except Error (List (List UInt8 × Option UDPAddr))) :=
  if m.n = 0 then none
  else
    match getGSO m.controlData with
    | .error e => some (.error e)
    | .ok g => some (.ok ((chunks g m.received).map (·, m.addr)))

/-- The lengths of a message are within its buffers, and its segment size is within its length. -/
structure Splittable (getGSO : List UInt8 → Except Error ℕ) (m : Message) : Prop where
  payload : ∃ b bs, m.buffers = b :: bs ∧ m.n ≤ b.len
  control : m.nn ≤ m.oob.cap
  gso : ∀ g, getGSO m.controlData = .ok g → g ≤ m.n

/-- What neither a read nor a split changes: the lengths of the payload buffers, and the capacity of
the control buffer. -/
def shape (m : Message) : List ℕ × ℕ := (m.buffers.map Slice.len, m.oob.cap)

theorem deliver_zeroed (m : Message) (x : List UInt8 × Option UDPAddr) :
    m.zeroed.deliver x = m.deliver x := rfl

end Message

section Split

variable {getGSO : List UInt8 → Except Error ℕ} {first i : ℕ}
  {ps : List (List UInt8 × Option UDPAddr)} {msgs : List Message}

/-- The messages after the segments `ps` were delivered and the messages up to `i` split. -/
def placed (first i : ℕ) (ps : List (List UInt8 × Option UDPAddr)) (msgs : List Message) :
    List Message :=
  render Message.deliver Message.zeroed first i ps msgs

theorem getElem?_placed_self (h : ps.length ≤ i) : (placed first i ps msgs)[i]? = msgs[i]? :=
  getElem?_render_self h

/-- What the loop over the segments `qs` of message `i` leaves behind. -/
def cutResult (first i : ℕ) (ps qs : List (List UInt8 × Option UDPAddr)) (msgs : List Message) :
    Split :=
  if ps.length + qs.length ≤ i + 1 then
    ⟨placed first i (ps ++ qs) msgs, ps.length + qs.length, none⟩
  else ⟨placed first i ((ps ++ qs).take (i + 1)) msgs, i + 1, some errSplitOverflow⟩

theorem cutResult_cons (x : List UInt8 × Option UDPAddr)
    (qs : List (List UInt8 × Option UDPAddr)) :
    cutResult first i ps (x :: qs) msgs = cutResult first i (ps ++ [x]) qs msgs := by
  have hlen : (ps ++ [x]).length + qs.length = ps.length + (x :: qs).length := by
    simp only [List.length_append, List.length_cons, List.length_nil]
    omega
  rw [cutResult, cutResult, hlen, List.append_assoc, List.singleton_append]

/-- The next slot has a buffer, whatever was done to the messages before. -/
theorem exists_slot (hb : ∀ m ∈ msgs, m.buffers ≠ []) (hlt : ps.length < msgs.length) :
    ∃ m b bs, (placed first i ps msgs)[ps.length]? = some m ∧ m.buffers = b :: bs := by
  obtain ⟨b, bs, hbs⟩ := List.exists_cons_of_ne_nil (hb msgs[ps.length] (List.getElem_mem hlt))
  refine ⟨_, b, bs, by rw [placed, getElem?_render, List.getElem?_eq_getElem hlt]; rfl, ?_⟩
  simp only [slot, List.getElem?_eq_none le_rfl]
  split_ifs
  · exact hbs
  · exact hbs

/-- **One segment is delivered** to the next slot. Unless that is the message itself, the length of
the message is as before. -/
theorem cutSegments_succ (hb : ∀ m ∈ msgs, m.buffers ≠ []) {m : Message} (hm : msgs[i]? = some m)
    {b : Slice UInt8} {bs : List (Slice UInt8)} (hbuf : m.buffers = b :: bs) (hps : ps.length ≤ i)
    {start stop : ℕ} (hle : start ≤ stop) (hstop : stop ≤ b.cap) (g left : ℕ) :
    ∃ n, (ps.length < i → n = m.n) ∧
      cutSegments i g (left + 1) ps.length start stop (placed first i ps msgs) =
        cutSegments i g left (ps.length + 1) stop (min (stop + g) n)
          (placed first i (ps ++ [((b.arr.take stop).drop start, m.addr)]) msgs) := by
  have hi : i < msgs.length := (List.getElem?_eq_some_iff.mp hm).1
  have hmsg : (placed first i ps msgs)[i]? = some m := (getElem?_placed_self hps).trans hm
  obtain ⟨d, c, cs, hd, hdb⟩ := @exists_slot first i ps msgs hb (hps.trans_lt hi)
  have hset := set_render Message.deliver_zeroed hd ((b.arr.take stop).drop start, m.addr)
  have hdel : ({ d with
      buffers := d.buffers.set 0 (c.copy ((b.arr.take stop).drop start))
      n := c.copied ((b.arr.take stop).drop start)
      addr := m.addr } : Message) = d.deliver ((b.arr.take stop).drop start, m.addr) := by
    simp [Message.deliver, hdb]
  obtain ⟨m', hm'⟩ : ∃ m', (placed first i
      (ps ++ [((b.arr.take stop).drop start, m.addr)]) msgs)[i]? = some m' :=
    ⟨_, List.getElem?_eq_getElem (by rw [placed, length_render]; exact hi)⟩
  refine ⟨m'.n, fun hlt => ?_, ?_⟩
  · rw [getElem?_placed_self (by simpa using hlt), hm] at hm'
    rw [Option.some.inj hm']
  · have hb1 : m.buffers.head? = some b := by rw [hbuf]; rfl
    have hd1 : d.buffers.head? = some c := by rw [hdb]; rfl
    rw [cutSegments, if_neg (not_lt.mpr hps)]
    simp only [hmsg, hd, hb1, hd1, Slice.sub_of_le hle hstop, Option.bind_eq_bind,
      Option.bind_some, hdel]
    rw [placed, hset, ← placed, hm']
    rfl

/-- The loop over the chunks of the bytes from `start` on. -/
theorem cutSegments_chunks (hb : ∀ m ∈ msgs, m.buffers ≠ []) {m : Message}
    (hm : msgs[i]? = some m) {b : Slice UInt8} {bs : List (Slice UInt8)}
    (hbuf : m.buffers = b :: bs) (hn : m.n ≤ b.len) {g : ℕ} (hg : 0 < g) {left start stop : ℕ}
    (hps : ps.length ≤ i + 1) (hstart : start ≤ m.n)
    (hleft : left = (chunks g ((b.toList.take m.n).drop start)).length)
    (hstop : ps.length ≤ i → stop = min (start + g) m.n) :
    cutSegments i g left ps.length start stop (placed first i ps msgs) =
      some (cutResult first i ps ((chunks g ((b.toList.take m.n).drop start)).map (·, m.addr))
        msgs) := by
  have hlen : (b.toList.take m.n).length = m.n := by simp [hn]
  have hcap := hn.trans b.len_le_cap
  -- the induction is on the segments left; the bytes in front of `start` are delivered already
  induction left generalizing start stop ps with
  | zero =>
    rw [List.length_eq_zero_iff.mp hleft.symm, cutSegments, cutResult]
    simp [hps]
  | succ left ih =>
    have hrest : (b.toList.take m.n).drop start ≠ [] := by
      intro h0
      rw [h0, chunks_nil hg] at hleft
      simp at hleft
    rw [chunks_eq_cons hg hrest] at hleft ⊢
    rcases Nat.lt_or_ge i ps.length with hlt | hle
    · have hps' : ps.length = i + 1 := by omega
      have hover : ¬ ps.length + (List.map (fun x => (x, m.addr))
          (((b.toList.take m.n).drop start).take g ::
            chunks g (((b.toList.take m.n).drop start).drop g))).length ≤ i + 1 := by
        simp only [List.map_cons, List.length_cons]
        omega
      rw [cutSegments, if_pos hlt, cutResult, if_neg hover, ← hps', List.take_left]
    · obtain rfl := hstop hle
      have hsub : (b.arr.take (min (start + g) m.n)).drop start =
          ((b.toList.take m.n).drop start).take g := by
        rw [Slice.take_toList hn, ← List.take_take, List.drop_take, Nat.add_sub_cancel_left]
      have hdrop : ((b.toList.take m.n).drop start).drop g =
          (b.toList.take m.n).drop (min (start + g) m.n) := by
        rw [List.drop_drop]
        rcases Nat.le_total (start + g) m.n with h | h
        · rw [min_eq_left h]
        · rw [min_eq_right h, List.drop_eq_nil_of_le (by omega), List.drop_eq_nil_of_le (by omega)]
      obtain ⟨n, hkeep, hstep⟩ := @cutSegments_succ first i ps msgs hb m hm b bs hbuf hle start
        (min (start + g) m.n) (by omega) (by omega) g left
      rw [hstep, hsub, List.map_cons, cutResult_cons, hdrop]
      have hlen' : ps.length + 1 =
          (ps ++ [(((b.toList.take m.n).drop start).take g, m.addr)]).length := by simp
      rw [hlen']
      refine ih (by simpa using hle) (by omega) ?_ fun hlt => ?_
      · rw [← hdrop]
        simpa using hleft
      · rw [hkeep (by simpa using hlt)]

/-- **The loop over the segments of a message** delivers its segments to the next slots, up to the
message itself. -/
theorem cutSegments_eq (hb : ∀ m ∈ msgs, m.buffers ≠ []) {m : Message} (hm : msgs[i]? = some m)
    (hs : m.Splittable getGSO) {g : ℕ} (hg : getGSO m.controlData = .ok g) (hps : ps.length ≤ i) :
    cutSegments i g (if 0 < g then (m.n + g - 1) / g else 1) ps.length 0
        (if 0 < g then g else m.n) (placed first i ps msgs) =
      some (cutResult first i ps ((chunks g m.received).map (·, m.addr)) msgs) := by
  obtain ⟨b, bs, hbuf, hn⟩ := hs.payload
  have hrec : m.received = b.toList.take m.n := by simp [Message.received, hbuf]
  rw [hrec]
  rcases Nat.eq_zero_or_pos g with rfl | hg0
  · obtain ⟨n, -, hstep⟩ := @cutSegments_succ first i ps msgs hb m hm b bs hbuf hps 0 m.n
      (Nat.zero_le _) (hn.trans b.len_le_cap) 0 0
    rw [← Slice.take_toList hn] at hstep
    have hfit : ps.length + 1 ≤ i + 1 := Nat.succ_le_succ hps
    rw [if_neg (lt_irrefl 0), if_neg (lt_irrefl 0), hstep, cutSegments, cutResult]
    simp [hfit]
  · have hle := hs.gso g hg
    rw [if_pos hg0, if_pos hg0]
    have := @cutSegments_chunks first i ps msgs hb m hm b bs hbuf hn g hg0
      ((m.n + g - 1) / g) 0 g (by omega) (Nat.zero_le _) (by
        rw [List.drop_zero, length_chunks hg0]
        simp [hn]) fun _ => by omega
    rwa [List.drop_zero] at this

/-- A message that was split is set to length zero, unless it is a slot now. -/
theorem placed_next (hf : first ≤ i) (hps : ps.length ≤ i + 1) :
    (if i + 1 = ps.length then placed first i ps msgs
      else (placed first i ps msgs).modify i Message.zeroed) = placed first (i + 1) ps msgs := by
  split_ifs with h
  · exact (render_succ_of_lt (by omega)).symm
  · exact modify_render hf (by omega)

theorem getElem?_of_drop_eq_cons {m : Message} {ws : List Message} (h : msgs.drop i = m :: ws) :
    msgs[i]? = some m ∧ msgs.drop (i + 1) = ws := by
  constructor
  · rw [← List.head?_drop, h]
    rfl
  · rw [← List.drop_drop, h]
    rfl

/-- One round of the loop over the messages, on a message whose segments are `qs`. -/
theorem splitFrom_succ_of_cut {m : Message} (hm : msgs[i]? = some m) (h0 : m.n ≠ 0)
    (hctl : m.nn ≤ m.oob.cap) {g : ℕ} (hg : getGSO m.controlData = .ok g)
    {qs : List (List UInt8 × Option UDPAddr)}
    (hcut : cutSegments i g (if 0 < g then (m.n + g - 1) / g else 1) ps.length 0
      (if 0 < g then g else m.n) (placed first i ps msgs) = some (cutResult first i ps qs msgs))
    (hf : first ≤ i) (hps : ps.length ≤ i) (left : ℕ) :
    splitFrom getGSO (left + 1) i ps.length (placed first i ps msgs) =
      if ps.length + qs.length ≤ i + 1 then
        splitFrom getGSO left (i + 1) (ps ++ qs).length (placed first (i + 1) (ps ++ qs) msgs)
      else some ⟨placed first i ((ps ++ qs).take (i + 1)) msgs, i + 1, some errSplitOverflow⟩ := by
  have hmsg : (placed first i ps msgs)[i]? = some m := (getElem?_placed_self hps).trans hm
  have hctl' : m.oob.sub 0 m.nn = some m.controlData := by
    rw [Slice.sub_of_le (Nat.zero_le _) hctl]
    rfl
  rw [splitFrom]
  simp only [hmsg, Option.bind_eq_bind, Option.bind_some, if_neg h0, hctl', hg, hcut, cutResult]
  by_cases hfit : ps.length + qs.length ≤ i + 1
  · have hlen : (ps ++ qs).length ≤ i + 1 := by simpa using hfit
    rw [← placed_next hf hlen, List.length_append]
    simp only [if_pos hfit, Option.isSome_none, Bool.false_eq_true, if_false]
    rfl
  · simp only [if_neg hfit, Option.isSome_some, if_true]

/-- One round of the loop over the messages, on a message that is to be split. -/
theorem splitFrom_succ (hb : ∀ m ∈ msgs, m.buffers ≠ []) {m : Message} (hm : msgs[i]? = some m)
    (hs : m.Splittable getGSO) {qs : List (List UInt8 × Option UDPAddr)}
    (hcut : m.cut getGSO = some (.ok qs)) (hf : first ≤ i) (hps : ps.length ≤ i) (left : ℕ) :
    splitFrom getGSO (left + 1) i ps.length (placed first i ps msgs) =
      if ps.length + qs.length ≤ i + 1 then
        splitFrom getGSO left (i + 1) (ps ++ qs).length (placed first (i + 1) (ps ++ qs) msgs)
      else some ⟨placed first i ((ps ++ qs).take (i + 1)) msgs, i + 1, some errSplitOverflow⟩ := by
  obtain ⟨h0, g, hg, rfl⟩ : m.n ≠ 0 ∧ ∃ g, getGSO m.controlData = .ok g ∧
      (chunks g m.received).map (·, m.addr) = qs := by
    unfold Message.cut at hcut
    split_ifs at hcut with h0
    cases hg : getGSO m.controlData with
    | error e => simp [hg] at hcut
    | ok g => exact ⟨h0, g, rfl, by simpa [hg] using hcut⟩
  exact splitFrom_succ_of_cut hm h0 hs.control hg (cutSegments_eq hb hm hs hg hps) hf hps left

/-- Messages whose segments fit are split one after the other, whatever follows them. -/
theorem splitFrom_append (hb : ∀ m ∈ msgs, m.buffers ≠ []) {fs rest : List Message}
    {qs : List (List (List UInt8 × Option UDPAddr))} (hws : msgs.drop i = fs ++ rest)
    (hs : ∀ m ∈ fs, m.Splittable getGSO)
    (hcut : List.Forall₂ (fun m q => m.cut getGSO = some (.ok q)) fs qs) (hf : first ≤ i)
    (hps : ps.length ≤ i) (hno : NoOverflow i ps.length (qs.map List.length)) :
    splitFrom getGSO (fs.length + rest.length) i ps.length (placed first i ps msgs) =
      splitFrom getGSO rest.length (i + fs.length) (ps ++ qs.flatten).length
        (placed first (i + fs.length) (ps ++ qs.flatten) msgs) := by
  -- the induction is on the messages, with the segments delivered so far as the accumulator
  induction hcut generalizing i ps with
  | nil => simp
  | @cons m q fs qs hm _ ih =>
    obtain ⟨hm0, hs'⟩ := List.forall_mem_cons.mp hs
    obtain ⟨hget, hdrop⟩ := getElem?_of_drop_eq_cons hws
    obtain ⟨hfit, hno⟩ := hno
    rw [← List.length_append] at hno
    have hcount : (m :: fs).length + rest.length = fs.length + rest.length + 1 := by
      rw [List.length_cons]
      omega
    rw [hcount, splitFrom_succ hb hget hm0 hm hf hps, if_pos hfit,
      ih hdrop hs' (hf.trans (Nat.le_succ i)) (by simpa using hfit) hno, List.flatten_cons,
      List.append_assoc, List.length_cons, Nat.add_assoc i 1, Nat.add_comm 1]

/-- Messages whose segments do not fit are reported. -/
theorem splitFrom_overflow (hb : ∀ m ∈ msgs, m.buffers ≠ []) {fs rest : List Message}
    {qs : List (List (List UInt8 × Option UDPAddr))} (hws : msgs.drop i = fs ++ rest)
    (hs : ∀ m ∈ fs, m.Splittable getGSO)
    (hcut : List.Forall₂ (fun m q => m.cut getGSO = some (.ok q)) fs qs) (hf : first ≤ i)
    (hps : ps.length ≤ i) (hno : ¬ NoOverflow i ps.length (qs.map List.length)) :
    ∃ r, splitFrom getGSO (fs.length + rest.length) i ps.length (placed first i ps msgs) = some r ∧
      r.err = some errSplitOverflow := by
  induction hcut generalizing i ps with
  | nil => exact absurd trivial hno
  | @cons m q fs qs hm _ ih =>
    obtain ⟨hm0, hs'⟩ := List.forall_mem_cons.mp hs
    obtain ⟨hget, hdrop⟩ := getElem?_of_drop_eq_cons hws
    have hcount : (m :: fs).length + rest.length = fs.length + rest.length + 1 := by
      rw [List.length_cons]
      omega
    rw [hcount, splitFrom_succ hb hget hm0 hm hf hps]
    by_cases hfit : ps.length + q.length ≤ i + 1
    · rw [if_pos hfit]
      refine ih hdrop hs' (hf.trans (Nat.le_succ i)) (by simpa using hfit) fun hno' => ?_
      refine hno ⟨hfit, ?_⟩
      rwa [List.length_append] at hno'
    · rw [if_neg hfit]
      exact ⟨_, rfl, rfl⟩

/-- The loop ends at the end of the list, and at a message of length zero. -/
theorem splitFrom_stop {left : ℕ} (hps : ps.length ≤ i)
    (h : 0 < left → ∃ m, msgs[i]? = some m ∧ m.n = 0) :
    splitFrom getGSO left i ps.length (placed first i ps msgs) =
      some ⟨placed first i ps msgs, ps.length, none⟩ := by
  cases left with
  | zero => rfl
  | succ left =>
    obtain ⟨m, hm, h0⟩ := h (Nat.succ_pos left)
    rw [splitFrom, getElem?_placed_self hps, hm]
    simp [h0]

/-! ## What a split leaves alone -/

theorem map_shape_set {n : ℕ} {m m' : Message} (hm : msgs[n]? = some m) (h : m'.shape = m.shape) :
    (msgs.set n m').map Message.shape = msgs.map Message.shape := by
  obtain ⟨hn, rfl⟩ := List.getElem?_eq_some_iff.mp hm
  rw [List.map_set, h, ← List.getElem_map Message.shape (h := by simpa using hn),
    List.set_getElem_self]

theorem map_shape_modify_zeroed (msgs : List Message) (i : ℕ) :
    (msgs.modify i Message.zeroed).map Message.shape = msgs.map Message.shape := by
  cases hm : msgs[i]? with
  | none => simp [List.modify_eq_set_getElem?, hm]
  | some m =>
    rw [List.modify_eq_set_getElem?, hm]
    exact map_shape_set hm rfl

/-- What one round of the loop over the segments does: it fails when the slots are full, or selects
a segment within the capacity of the buffer, fills a slot, whose buffers keep their sizes, and goes
on. -/
theorem cutSegments_cases {g left n start stop : ℕ} {r : Split}
    (h : cutSegments i g (left + 1) n start stop msgs = some r) :
    i < n ∧ r = ⟨msgs, n, some errSplitOverflow⟩ ∨
      n ≤ i ∧ (∃ msg b, msgs[i]? = some msg ∧ msg.buffers.head? = some b ∧ stop ≤ b.cap) ∧
        ∃ slot slot' stop', msgs[n]? = some slot ∧ slot'.shape = slot.shape ∧
          cutSegments i g left (n + 1) stop stop' (msgs.set n slot') = some r := by
  rw [cutSegments] at h
  split_ifs at h with hi
  · exact .inl ⟨hi, (Option.some.inj h).symm⟩
  · simp only [Option.bind_eq_bind, Option.bind_eq_some_iff] at h
    obtain ⟨msg, hmsg, slot, hslot, b, hb, src, hsrc, buf, hbuf, msg', -, h⟩ := h
    have hstop := (Slice.sub_eq_some_iff.mp hsrc).1.2
    refine .inr ⟨not_lt.mp hi, ⟨msg, b, hmsg, hb, hstop⟩, slot, _, _, hslot, ?_, h⟩
    obtain ⟨bs, hbs⟩ := List.head?_eq_some_iff.mp hbuf
    simp [Message.shape, hbs]

/-- What one round of the loop over the messages does: it ends at a message of length zero, at
control data that cannot be read, or at a segment without a slot, and otherwise it goes on from what
the segments left, with the length of the message set to zero or not. -/
theorem splitFrom_cases {left n : ℕ} {r : Split}
    (h : splitFrom getGSO (left + 1) i n msgs = some r) :
    ∃ m, msgs[i]? = some m ∧ (m.n = 0 ∧ r = ⟨msgs, n, none⟩ ∨
      m.n ≠ 0 ∧ ∃ control, m.oob.sub 0 m.nn = some control ∧
        ((∃ e, getGSO control = .error e ∧ r = ⟨msgs, n, some e⟩) ∨
          ∃ g r₁, getGSO control = .ok g ∧
            cutSegments i g (if 0 < g then (m.n + g - 1) / g else 1) n 0
              (if 0 < g then g else m.n) msgs = some r₁ ∧
            (r₁.err ≠ none ∧ r = r₁ ∨ r₁.err = none ∧
              ∃ msgs', (msgs' = r₁.msgs ∨ msgs' = r₁.msgs.modify i Message.zeroed) ∧
                splitFrom getGSO left (i + 1) r₁.n msgs' = some r))) := by
  rw [splitFrom] at h
  simp only [Option.bind_eq_bind] at h
  obtain ⟨m, hm, h⟩ := Option.bind_eq_some_iff.mp h
  refine ⟨m, hm, ?_⟩
  split_ifs at h with h0
  · exact .inl ⟨h0, (Option.some.inj h).symm⟩
  · obtain ⟨control, hcontrol, h⟩ := Option.bind_eq_some_iff.mp h
    refine .inr ⟨h0, control, hcontrol, ?_⟩
    cases hg : getGSO control with
    | error e =>
      rw [hg] at h
      exact .inl ⟨e, rfl, (Option.some.inj h).symm⟩
    | ok g =>
      rw [hg] at h
      obtain ⟨r₁, h₁, h⟩ := Option.bind_eq_some_iff.mp h
      refine .inr ⟨g, r₁, rfl, h₁, ?_⟩
      split_ifs at h with herr hself
      · exact .inl ⟨Option.isSome_iff_ne_none.mp herr, (Option.some.inj h).symm⟩
      · exact .inr ⟨by simpa using herr, _, .inl rfl, h⟩
      · exact .inr ⟨by simpa using herr, _, .inr rfl, h⟩

/-- The loop over the segments keeps the sizes of all buffers. -/
theorem cutSegments_shape {g left n start stop : ℕ} {r : Split}
    (h : cutSegments i g left n start stop msgs = some r) :
    r.msgs.map Message.shape = msgs.map Message.shape := by
  induction left generalizing n start stop msgs with
  | zero =>
    obtain rfl := Option.some.inj h
    rfl
  | succ left ih =>
    obtain ⟨-, rfl⟩ | ⟨-, -, slot, slot', stop', hslot, hshape, h⟩ := cutSegments_cases h
    · rfl
    · rw [ih h, map_shape_set hslot hshape]

/-- The loop over the messages keeps the sizes of all buffers, also when it fails. -/
theorem splitFrom_shape {left n : ℕ} {r : Split} (h : splitFrom getGSO left i n msgs = some r) :
    r.msgs.map Message.shape = msgs.map Message.shape := by
  induction left generalizing i n msgs with
  | zero =>
    obtain rfl := Option.some.inj h
    rfl
  | succ left ih =>
    obtain ⟨m, -, ⟨-, rfl⟩ | ⟨-, control, -, ⟨e, -, rfl⟩ | ⟨g, r₁, -, hcut, h⟩⟩⟩ :=
      splitFrom_cases h
    · rfl
    · rfl
    · have hcut := cutSegments_shape hcut
      obtain ⟨-, rfl⟩ | ⟨-, msgs', rfl | rfl, h⟩ := h
      · exact hcut
      · exact (ih h).trans hcut
      · rw [ih h, map_shape_modify_zeroed, hcut]

/-- The loop over the segments fills one slot for each, unless it fails, and leaves the slots before
them alone. -/
theorem cutSegments_frame {g left n start stop : ℕ} {r : Split}
    (h : cutSegments i g left n start stop msgs = some r) (hn : n ≤ i + 1) :
    (r.err = none → r.n = n + left) ∧ n ≤ r.n ∧ r.n ≤ i + 1 ∧ ∀ k < n, r.msgs[k]? = msgs[k]? := by
  induction left generalizing n start stop msgs with
  | zero =>
    obtain rfl := Option.some.inj h
    exact ⟨fun _ => rfl, le_rfl, hn, fun _ _ => rfl⟩
  | succ left ih =>
    obtain ⟨-, rfl⟩ | ⟨hi, -, slot, slot', stop', -, -, h⟩ := cutSegments_cases h
    · exact ⟨fun hr => by simp at hr, le_rfl, hn, fun _ _ => rfl⟩
    · obtain ⟨h1, h2, h3, h4⟩ := ih h (by omega)
      refine ⟨fun hr => ?_, by omega, h3, fun k hk => ?_⟩
      · have := h1 hr
        omega
      · rw [h4 k (by omega), List.getElem?_set_ne (by omega)]

theorem numToSplit_pos {n : ℕ} (hn : n ≠ 0) (g : ℕ) :
    0 < if 0 < g then (n + g - 1) / g else 1 := by
  split_ifs with hg
  · exact Nat.div_pos (by omega) hg
  · exact Nat.one_pos

/-- The loop over the messages leaves the slots filled before alone. Unless it fails, it fills
another one if the next message is not empty. -/
theorem splitFrom_frame {left n : ℕ} {r : Split} (h : splitFrom getGSO left i n msgs = some r)
    (hn : n ≤ i) :
    n ≤ r.n ∧ r.n ≤ i + left ∧ (∀ k < n, r.msgs[k]? = msgs[k]?) ∧
      (r.err = none → (∃ m, msgs[i]? = some m ∧ m.n ≠ 0) → 0 < left → n < r.n) := by
  induction left generalizing i n msgs with
  | zero =>
    obtain rfl := Option.some.inj h
    exact ⟨le_rfl, hn, fun _ _ => rfl, fun _ _ h0 => absurd h0 (lt_irrefl 0)⟩
  | succ left ih =>
    obtain ⟨m, hm, ⟨h0, rfl⟩ | ⟨h0, control, -, ⟨e, -, rfl⟩ | ⟨g, r₁, -, hcut, h⟩⟩⟩ :=
      splitFrom_cases h
    · refine ⟨le_rfl, hn.trans (Nat.le_add_right _ _), fun _ _ => rfl, fun _ => ?_⟩
      rintro ⟨m', hm', hne⟩ -
      rw [hm] at hm'
      exact absurd (Option.some.inj hm' ▸ h0) hne
    · exact ⟨le_rfl, hn.trans (Nat.le_add_right _ _), fun _ _ => rfl, fun hr => by simp at hr⟩
    · obtain ⟨hcount, hge₁, hle₁, hframe₁⟩ := cutSegments_frame hcut (hn.trans (Nat.le_succ i))
      obtain ⟨herr, rfl⟩ | ⟨herr, msgs', hmsgs', h⟩ := h
      · exact ⟨hge₁, by omega, hframe₁, fun hr => absurd hr herr⟩
      · have hn₁ := hcount herr
        have hpos := numToSplit_pos h0 g
        obtain ⟨hle, hup, hframe, -⟩ := ih h hle₁
        refine ⟨by omega, by omega, fun k hk => ?_, fun _ _ _ => by omega⟩
        rw [hframe k (by omega), ← hframe₁ k hk]
        obtain rfl | rfl := hmsgs'
        · rfl
        · rw [List.getElem?_modify_ne _ _ (by omega)]

/-! ## Messages that play no part -/

/-- The result of a split with the messages `rest` behind it. -/
def Split.append (r : Split) (rest : List Message) : Split := { r with msgs := r.msgs ++ rest }

theorem length_cutSegments {g left n start stop : ℕ} {r : Split}
    (h : cutSegments i g left n start stop msgs = some r) : r.msgs.length = msgs.length := by
  simpa using congrArg List.length (cutSegments_shape h)

/-- The segments of a message in front of `rest` are not written there. -/
theorem cutSegments_append_right (hi : i < msgs.length) (rest : List Message)
    (g left n start stop : ℕ) :
    cutSegments i g left n start stop (msgs ++ rest) =
      (cutSegments i g left n start stop msgs).map (·.append rest) := by
  induction left generalizing msgs n start stop with
  | zero => rfl
  | succ left ih =>
    rw [cutSegments, cutSegments]
    split_ifs with hn
    · rfl
    · have hn : n < msgs.length := (not_lt.mp hn).trans_lt hi
      have hset (m : Message) : (msgs ++ rest).set n m = msgs.set n m ++ rest :=
        List.set_append_left n m hn
      have hat (m : Message) : (msgs.set n m ++ rest)[i]? = (msgs.set n m)[i]? :=
        List.getElem?_append_left (by rwa [List.length_set])
      have hrec (m : Message) := @ih (msgs.set n m) (by rwa [List.length_set])
      simp only [List.getElem?_append_left hi, List.getElem?_append_left hn, hset, hat, hrec,
        Option.bind_eq_bind, Option.map_bind, Function.comp_def]

theorem modify_append_left (hi : i < msgs.length) (rest : List Message) (f : Message → Message) :
    (msgs ++ rest).modify i f = msgs.modify i f ++ rest := by
  rw [List.modify_eq_set_getElem?, List.modify_eq_set_getElem?, List.getElem?_append_left hi,
    List.getElem?_eq_getElem hi]
  exact List.set_append_left i _ hi

/-- **Messages behind one of length zero play no part in a split**, nor does that message. -/
theorem splitFrom_append_right {rest : List Message} (h0 : ∀ m ∈ rest.head?, m.n = 0) (n : ℕ)
    {left : ℕ} (hl : i + left = msgs.length) :
    splitFrom getGSO (left + rest.length) i n (msgs ++ rest) =
      (splitFrom getGSO left i n msgs).map (·.append rest) := by
  induction left generalizing i n msgs with
  | zero =>
    cases rest with
    | nil => rfl
    | cons m rest =>
      obtain rfl : i = msgs.length := hl
      have hm : (msgs ++ m :: rest)[msgs.length]? = some m := by simp
      have h0 : m.n = 0 := h0 m (by simp)
      simp only [Nat.zero_add, List.length_cons, splitFrom, hm, h0, if_true, Option.bind_eq_bind,
        Option.bind_some, Option.map_some, Split.append]
  | succ left ih =>
    have hi : i < msgs.length := by omega
    rw [Nat.succ_add, splitFrom, splitFrom, List.getElem?_append_left hi,
      List.getElem?_eq_getElem hi]
    simp only [Option.bind_eq_bind, Option.bind_some]
    split_ifs
    · rfl
    rw [Option.map_bind]
    congr 1
    funext control
    rw [Function.comp_apply]
    cases getGSO control with
    | error e => rfl
    | ok g =>
      dsimp only
      rw [cutSegments_append_right hi]
      cases hr : cutSegments i g (if 0 < g then (msgs[i].n + g - 1) / g else 1) n 0
          (if 0 < g then g else msgs[i].n) msgs with
      | none => rfl
      | some r =>
        have hlen := length_cutSegments hr
        simp only [Option.map_some, Option.bind_some, Split.append]
        split_ifs
        · rfl
        · exact ih _ (by omega)
        · rw [modify_append_left (by omega)]
          exact ih _ (by rw [List.length_modify]; omega)

/-- The same for a whole split. -/
theorem splitCoalescedMessages_append_right {rest : List Message}
    (h0 : ∀ m ∈ rest.head?, m.n = 0) (hf : first ≤ msgs.length) :
    splitCoalescedMessages getGSO first (msgs ++ rest) =
      (splitCoalescedMessages getGSO first msgs).map (·.append rest) := by
  have hleft : (msgs ++ rest).length - first = msgs.length - first + rest.length := by
    rw [List.length_append]
    omega
  rw [splitCoalescedMessages, hleft, splitFrom_append_right h0 0 (by omega)]
  rfl

end Split

end BatchUDP
