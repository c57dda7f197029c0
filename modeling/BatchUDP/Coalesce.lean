import BatchUDP.Socket
import BatchUDP.Framing.Grouping

/-!
# Coalescing datagrams

Both senders coalesce the datagrams of a batch by one loop: a datagram joins the message being
built when the sizes allow it, and otherwise starts the next message. The loops differ in how a
datagram joins a message, in the room they look for, and in how the control data is reset; the
segment size is written when a message of several datagrams is closed, and at the last datagram.
The messages that the loop builds are the greedy groups of the datagrams.

## Main definitions

* `Coalescer`: what the loops differ in
* `Coalescing`, `Coalescer.step`, `Coalescer.coalesce`: the state of the loop, one round, the loop
* `Coalescer.joins`: the test of the loop, on the group being built
* `Coalescer.Models`: the buffers of a message hold a group of datagrams
* `Coalescer.Closed`: a message holds a group of datagrams and is ready to be sent
* `Coalescer.Keeps`: a property of messages that every write of the loop keeps

## Main results

* `Coalescer.step_inv`: one round keeps the invariant of the loop
* `Coalescer.coalesce_spec`: the loop builds one message for each greedy group
* `Coalescer.Keeps.coalesce`: what every write keeps holds of the messages that the loop leaves
-/

namespace BatchUDP

open Go Unix Framing

/-- The largest IPv4 payload: larger ones result in `EMSGSIZE`. -/
def maxIPv4PayloadLen : ℕ := 2 ^ 16 - 1 - 20 - 8

/-- The largest IPv6 payload. -/
def maxIPv6PayloadLen : ℕ := 2 ^ 16 - 1 - 8

/-- The kernel's limit on the segments of a message. -/
def udpSegmentMaxDatagrams : ℕ := 64

/-- The state of the loop: the index of the message being built, its segment size, the number of
its datagrams, whether it takes no more, and the messages. -/
structure Coalescing where
  base : ℤ
  gsoSize : ℕ
  dgramCnt : ℕ
  endBatch : Bool
  msgs : List Message

/-- What the coalescing loops of the two senders differ in, besides limit and destination: the
payload length of a message, the room for a datagram, joining it, and resetting and extending
control data. -/
structure Coalescer where
  maxPayloadLen : ℕ
  addr : UDPAddr
  payloadLen : List (Slice UInt8) → Option ℕ
  room : List (Slice UInt8) → Slice UInt8 → Bool
  join : List (Slice UInt8) → Slice UInt8 → List (Slice UInt8)
  reset : Slice UInt8 → Slice UInt8
  setGSO : Slice UInt8 → ℕ → Slice UInt8

/-- The index expression `msgs[i]`, which panics out of range. -/
def msgAt (msgs : List Message) (i : ℤ) : Option Message :=
  if 0 ≤ i then msgs[i.toNat]? else none

theorem mem_of_msgAt {msgs : List Message} {i : ℤ} {m : Message} (h : msgAt msgs i = some m) :
    m ∈ msgs := by
  unfold msgAt at h
  split_ifs at h
  exact List.mem_of_getElem? h

namespace Coalescer

variable (c : Coalescer)

/-- The test whether `buf` joins the message being built. -/
def mayJoin (i : ℕ) (buf : Slice UInt8) (st : Coalescing) : Option Bool :=
  if i = 0 then some false
  else do
    let m ← msgAt st.msgs st.base
    let baseLenBefore ← c.payloadLen m.buffers
    some (decide (buf.len + baseLenBefore ≤ c.maxPayloadLen ∧ buf.len ≤ st.gsoSize ∧
      st.dgramCnt < udpSegmentMaxDatagrams ∧ st.endBatch = false) && c.room m.buffers buf)

/-- `buf` joins the message being built. A datagram smaller than the segment size ends it. -/
def joinBase (last i : ℕ) (buf : Slice UInt8) (st : Coalescing) : Option Coalescing := do
  let m ← msgAt st.msgs st.base
  let m := { m with
    buffers := c.join m.buffers buf
    oob := if i = last then c.setGSO m.oob (st.gsoSize % 2 ^ 16) else m.oob }
  some { st with
    dgramCnt := st.dgramCnt + 1
    endBatch := if buf.len < st.gsoSize then true else st.endBatch
    msgs := st.msgs.set st.base.toNat m }

/-- A message of several datagrams receives its segment size before the next is started. -/
def closeBase (st : Coalescing) : Option (List Message) :=
  if 1 < st.dgramCnt then do
    let m ← msgAt st.msgs st.base
    some (st.msgs.set st.base.toNat { m with oob := c.setGSO m.oob (st.gsoSize % 2 ^ 16) })
  else some st.msgs

/-- A message from the pool, started with `buf`. -/
def started (buf : Slice UInt8) (m : Message) : Message :=
  { m with
    buffers := m.buffers.set 0 buf
    oob := c.reset m.oob
    addr := some c.addr }

/-- `buf` starts the next message. -/
def startNext (buf : Slice UInt8) (st : Coalescing) : Option Coalescing := do
  let msgs ← c.closeBase st
  let m ← msgAt msgs (st.base + 1)
  if m.buffers = [] then none
  else
    some {
      base := st.base + 1
      gsoSize := buf.len
      dgramCnt := 1
      endBatch := false
      msgs := msgs.set (st.base + 1).toNat (c.started buf m) }

/-- One round of the loop. -/
def step (last i : ℕ) (buf : Slice UInt8) (st : Coalescing) : Option Coalescing := do
  if ← c.mayJoin i buf st then c.joinBase last i buf st else c.startNext buf st

/-- The loop over the datagrams from index `i` on. -/
def loop (last : ℕ) : ℕ → List (Slice UInt8) → Coalescing → Option Coalescing
  | _, [], st => some st
  | i, buf :: bufs, st => do
    let st ← c.step last i buf st
    loop last (i + 1) bufs st

/-- The messages after the loop, and the number of them that are to be sent. -/
def coalesce (bufs : List (Slice UInt8)) (msgs : List Message) : Option (List Message × ℕ) := do
  let st ← c.loop (bufs.length - 1) 0 bufs ⟨-1, 0, 0, false, msgs⟩
  some (st.msgs, (st.base + 1).toNat)

/-! ## The groups -/

/-- The length of the first datagram of a group: its segment size. -/
def headLen (grp : List (Slice UInt8)) : ℕ := (grp.head?.map Slice.len).getD 0

/-- The payload length of a group. -/
def totalLen (grp : List (Slice UInt8)) : ℕ := (grp.map Slice.len).sum

@[simp] theorem headLen_cons (b : Slice UInt8) (bs : List (Slice UInt8)) :
    headLen (b :: bs) = b.len := rfl

theorem headLen_append {cur : List (Slice UInt8)} (h : cur ≠ []) (bs : List (Slice UInt8)) :
    headLen (cur ++ bs) = headLen cur := by
  cases cur with
  | nil => exact absurd rfl h
  | cons b cur => rfl

/-- The test of the loop on the group being built: the payload stays within the limit, the datagram
is no longer than the first one, there is room, and the group is neither full nor ended by a shorter
datagram. -/
def joins (maxPayloadLen : ℕ) (room : List (Slice UInt8) → Slice UInt8 → Bool)
    (cur : List (Slice UInt8)) (buf : Slice UInt8) : Bool :=
  decide (buf.len + totalLen cur ≤ maxPayloadLen ∧ buf.len ≤ headLen cur ∧
    cur.length < udpSegmentMaxDatagrams ∧ ∀ b ∈ cur, b.len = headLen cur) && room cur buf

theorem joins_iff {maxPayloadLen : ℕ} {room : List (Slice UInt8) → Slice UInt8 → Bool}
    {cur : List (Slice UInt8)} {buf : Slice UInt8} :
    joins maxPayloadLen room cur buf = true ↔
      (buf.len + totalLen cur ≤ maxPayloadLen ∧ buf.len ≤ headLen cur ∧
        cur.length < udpSegmentMaxDatagrams ∧ ∀ b ∈ cur, b.len = headLen cur) ∧
      room cur buf = true := by
  rw [joins, Bool.and_eq_true, decide_eq_true_iff]

/-- The next of two datagrams in a row joins the message that the other one starts. -/
theorem joins_singleton_iff {maxPayloadLen : ℕ} {room : List (Slice UInt8) → Slice UInt8 → Bool}
    {x y : Slice UInt8} :
    joins maxPayloadLen room [x] y = true ↔
      (y.len + x.len ≤ maxPayloadLen ∧ y.len ≤ x.len) ∧ room [x] y = true := by
  simp [joins_iff, totalLen, headLen, udpSegmentMaxDatagrams]

/-- The buffers of a message hold a group of datagrams: the loop measures, tests and extends the
buffers as the group. -/
structure Models (Holds : List (Slice UInt8) → List (Slice UInt8) → Prop)
    (room : List (Slice UInt8) → Slice UInt8 → Bool) : Prop where
  holds_start : ∀ buf, Holds [buf] [buf]
  holds_ne_nil : ∀ cur bs, Holds cur bs → cur ≠ [] → bs ≠ []
  payloadLen_eq : ∀ cur bs, Holds cur bs → c.payloadLen bs = some (totalLen cur)
  room_eq : ∀ cur bs buf, Holds cur bs → c.room bs buf = room cur buf
  holds_join : ∀ cur bs buf, cur ≠ [] → Holds cur bs → room cur buf = true →
    Holds (cur ++ [buf]) (c.join bs buf)

/-- A message holds a group of datagrams and is ready to be sent: the control data was reset, and
extended by the segment size if there are several datagrams. -/
def Closed (Holds : List (Slice UInt8) → List (Slice UInt8) → Prop) (PooledOOB : Slice UInt8 → Prop)
    (grp : List (Slice UInt8)) (m : Message) : Prop :=
  Holds grp m.buffers ∧ m.addr = some c.addr ∧ ∃ o, PooledOOB o ∧
    m.oob = if 2 ≤ grp.length then c.setGSO (c.reset o) (headLen grp % 2 ^ 16) else c.reset o

variable {c} {Holds : List (Slice UInt8) → List (Slice UInt8) → Prop}
  {room : List (Slice UInt8) → Slice UInt8 → Bool} {PooledOOB : Slice UInt8 → Prop}

/-- **The invariant of the loop** before the datagrams `rest`: the messages `closed` hold the groups
`gs`, the message `m` is being built and holds the group `cur`, and the messages `tail` are as they
came from the pool. After the last datagram the message being built is closed, too. -/
structure Inv (c : Coalescer) (Holds : List (Slice UInt8) → List (Slice UInt8) → Prop)
    (PooledOOB : Slice UInt8 → Prop) (rest : List (Slice UInt8))
    (gs : List (List (Slice UInt8))) (cur : List (Slice UInt8)) (closed : List Message)
    (m : Message) (tail : List Message) (st : Coalescing) : Prop where
  msgs : st.msgs = closed ++ m :: tail
  base : st.base = closed.length
  ne_nil : cur ≠ []
  gso : st.gsoSize = headLen cur
  cnt : st.dgramCnt = cur.length
  ended : st.endBatch = false ↔ ∀ b ∈ cur, b.len = headLen cur
  closed : List.Forall₂ (c.Closed Holds PooledOOB) gs closed
  holds : Holds cur m.buffers
  addr : m.addr = some c.addr
  oob : ∃ o, PooledOOB o ∧ m.oob = if rest = [] ∧ 2 ≤ cur.length then
    c.setGSO (c.reset o) (headLen cur % 2 ^ 16) else c.reset o

section Inv

variable {rest : List (Slice UInt8)} {gs : List (List (Slice UInt8))}
  {cur : List (Slice UInt8)} {closed : List Message} {m : Message} {tail : List Message}
  {st : Coalescing} {buf : Slice UInt8} {last i : ℕ}

theorem Inv.msgAt (h : Inv c Holds PooledOOB rest gs cur closed m tail st) :
    msgAt st.msgs st.base = some m := by
  simp [BatchUDP.msgAt, h.msgs, h.base]

theorem Inv.set (h : Inv c Holds PooledOOB rest gs cur closed m tail st) (m' : Message) :
    st.msgs.set st.base.toNat m' = closed ++ m' :: tail := by
  simp [h.msgs, h.base]

theorem Inv.mayJoin (h : Inv c Holds PooledOOB rest gs cur closed m tail st)
    (hM : c.Models Holds room) (hi : i ≠ 0) :
    c.mayJoin i buf st = some (joins c.maxPayloadLen room cur buf) := by
  simp only [Coalescer.mayJoin, if_neg hi, h.msgAt, hM.payloadLen_eq cur _ h.holds,
    hM.room_eq cur _ buf h.holds, Option.bind_eq_bind, Option.bind_some, joins, h.gso, h.cnt]
  simp only [h.ended]

/-- Joining keeps the invariant. -/
theorem Inv.joinBase (h : Inv c Holds PooledOOB (buf :: rest) gs cur closed m tail st)
    (hM : c.Models Holds room) (hl : i + rest.length = last)
    (hj : joins c.maxPayloadLen room cur buf = true) :
    ∃ m' st', c.joinBase last i buf st = some st' ∧
      Inv c Holds PooledOOB rest gs (cur ++ [buf]) closed m' tail st' := by
  obtain ⟨⟨-, hle, -, heq⟩, hr⟩ := joins_iff.mp hj
  obtain ⟨o, ho, hoob⟩ := h.oob
  rw [if_neg (by simp)] at hoob
  have hh := headLen_append h.ne_nil [buf]
  have hpos : 1 ≤ cur.length := List.length_pos_iff.mpr h.ne_nil
  have hlast : i = last ↔ rest = [] := by
    rw [← List.length_eq_zero_iff]
    omega
  refine ⟨{ m with
      buffers := c.join m.buffers buf
      oob := if i = last then c.setGSO m.oob (st.gsoSize % 2 ^ 16) else m.oob },
    _, by rw [Coalescer.joinBase, h.msgAt]; rfl, ?_⟩
  refine ⟨h.set _, h.base, by simp, h.gso.trans hh.symm, by simp [h.cnt], ?_, h.closed,
    hM.holds_join cur _ buf h.ne_nil h.holds hr, h.addr, o, ho, ?_⟩
  · have he : st.endBatch = false := h.ended.mpr heq
    rw [hh, h.gso]
    simp only [he, List.mem_append, List.mem_singleton]
    split_ifs with hlt
    · simp only [false_iff, not_forall]
      exact ⟨buf, .inr rfl, by omega⟩
    · simp only [true_iff]
      rintro b (hb | rfl)
      · exact heq b hb
      · omega
  · rw [hh, h.gso, hoob]
    simp only [hlast, List.length_append, List.length_singleton]
    by_cases hrest : rest = []
    · rw [if_pos hrest, if_pos ⟨hrest, by omega⟩]
    · rw [if_neg hrest, if_neg fun hc => hrest hc.1]

/-- The message being built is closed before the next is started. -/
theorem Inv.closeBase (h : Inv c Holds PooledOOB (buf :: rest) gs cur closed m tail st) :
    ∃ m', c.closeBase st = some (closed ++ m' :: tail) ∧ c.Closed Holds PooledOOB cur m' := by
  obtain ⟨o, ho, hoob⟩ := h.oob
  rw [if_neg (by simp)] at hoob
  by_cases h2 : 1 < cur.length
  · refine ⟨{ m with oob := c.setGSO m.oob (st.gsoSize % 2 ^ 16) }, ?_, h.holds, h.addr, o, ho, ?_⟩
    · rw [Coalescer.closeBase, h.cnt, if_pos h2, h.msgAt]
      exact congrArg some (h.set _)
    · rw [if_pos (by omega), hoob, h.gso]
  · refine ⟨m, ?_, h.holds, h.addr, o, ho, ?_⟩
    · rw [Coalescer.closeBase, h.cnt, if_neg h2, h.msgs]
    · rw [if_neg (by omega), hoob]

variable (st) in
/-- Starting a message from the pool establishes the invariant, with the groups before it closed. -/
theorem inv_startNext (hM : c.Models Holds room)
    (hc : c.closeBase st = some (closed ++ m :: tail)) (hb : st.base + 1 = closed.length)
    (hg : List.Forall₂ (c.Closed Holds PooledOOB) gs closed) (hm : m.buffers.length = 1)
    (ho : PooledOOB m.oob) :
    ∃ st', c.startNext buf st = some st' ∧
      Inv c Holds PooledOOB rest gs [buf] closed (c.started buf m) tail st' := by
  obtain ⟨b, hbuf⟩ := List.length_eq_one_iff.mp hm
  have hat : BatchUDP.msgAt (closed ++ m :: tail) (st.base + 1) = some m := by
    rw [hb]
    simp [BatchUDP.msgAt]
  have hset : (closed ++ m :: tail).set (st.base + 1).toNat (c.started buf m) =
      closed ++ c.started buf m :: tail := by
    rw [hb]
    simp
  refine ⟨⟨st.base + 1, buf.len, 1, false, closed ++ c.started buf m :: tail⟩, ?_, ?_⟩
  · rw [startNext, hc]
    simp only [Option.bind_eq_bind, Option.bind_some, hat, hbuf, hset]
    rfl
  · refine ⟨rfl, hb, by simp, rfl, rfl, by simp, hg, ?_, rfl, m.oob, ho, by simp [started]⟩
    rw [started, hbuf]
    exact hM.holds_start buf

end Inv

/-- **One round of the loop** lets the next datagram join the group being built, if the test allows
it, and otherwise closes that group and starts the next. -/
theorem step_inv (hM : c.Models Holds room) {last i : ℕ} {buf : Slice UInt8}
    {rest : List (Slice UInt8)} {gs : List (List (Slice UInt8))} {cur : List (Slice UInt8)}
    {closed : List Message} {m : Message} {tail : List Message} {st : Coalescing}
    (h : Inv c Holds PooledOOB (buf :: rest) gs cur closed m tail st) (hi : i ≠ 0)
    (hl : i + rest.length = last)
    (ht : ∀ t ∈ tail, t.buffers.length = 1 ∧ PooledOOB t.oob) (hlen : rest.length < tail.length) :
    ∃ gs' cur' closed' m' tail' st', c.step last i buf st = some st' ∧
      Inv c Holds PooledOOB rest gs' cur' closed' m' tail' st' ∧
      gs ++ groupsFrom (joins c.maxPayloadLen room) cur (buf :: rest) =
        gs' ++ groupsFrom (joins c.maxPayloadLen room) cur' rest ∧
      (∃ k, tail' = tail.drop k ∧ closed'.length = closed.length + k) ∧
      rest.length ≤ tail'.length := by
  by_cases hj : joins c.maxPayloadLen room cur buf = true
  · obtain ⟨m', st', hs, hinv⟩ := h.joinBase hM hl hj
    refine ⟨gs, cur ++ [buf], closed, m', tail, st', ?_, hinv, ?_, ⟨0, by simp⟩, hlen.le⟩
    · rw [step, h.mayJoin hM hi, hj]
      exact hs
    · rw [groupsFrom_of_joins hj]
  · obtain ⟨t, tail, rfl⟩ := List.exists_cons_of_length_pos (Nat.zero_lt_of_lt hlen)
    obtain ⟨ht1, ht2⟩ := ht t (by simp)
    obtain ⟨m', hm', hc⟩ := h.closeBase
    have hm'' : c.closeBase st = some ((closed ++ [m']) ++ t :: tail) := by simpa using hm'
    obtain ⟨st', hs, hinv⟩ := inv_startNext st hM hm'' (by rw [h.base]; simp)
      (List.rel_append h.closed (.cons hc .nil)) ht1 ht2
    refine ⟨gs ++ [cur], [buf], closed ++ [m'], _, tail, st', ?_, hinv, ?_, ⟨1, by simp⟩,
      by simpa using hlen⟩
    · rw [step, h.mayJoin hM hi, Bool.eq_false_iff.mpr hj]
      exact hs
    · rw [groupsFrom_of_not_joins hj]
      simp

/-- The loop behind the first datagram builds the groups of the remaining datagrams. -/
theorem loop_inv (hM : c.Models Holds room) {last i : ℕ} {rest : List (Slice UInt8)}
    {gs : List (List (Slice UInt8))} {cur : List (Slice UInt8)} {closed : List Message}
    {m : Message} {tail : List Message} {st : Coalescing}
    (h : Inv c Holds PooledOOB rest gs cur closed m tail st) (hi : i ≠ 0)
    (hl : i + rest.length = last + 1)
    (ht : ∀ t ∈ tail, t.buffers.length = 1 ∧ PooledOOB t.oob) (hlen : rest.length ≤ tail.length) :
    ∃ gs' cur' closed' m' tail' st', c.loop last i rest st = some st' ∧
      Inv c Holds PooledOOB [] gs' cur' closed' m' tail' st' ∧
      gs ++ groupsFrom (joins c.maxPayloadLen room) cur rest = gs' ++ [cur'] ∧
      ∃ k, tail' = tail.drop k ∧ closed'.length = closed.length + k := by
  -- the groups closed so far and the group being built are the accumulator of the induction
  induction rest generalizing i gs cur closed m tail st with
  | nil => exact ⟨gs, cur, closed, m, tail, st, rfl, h, rfl, 0, by simp⟩
  | cons buf rest ih =>
    simp only [List.length_cons] at hl hlen
    have hl' : i + rest.length = last := by omega
    obtain ⟨gs₁, cur₁, closed₁, m₁, tail₁, st₁, hs, hinv, hg, ⟨k, hk, hkl⟩, hlen₁⟩ :=
      step_inv hM h hi hl' ht (by omega)
    have ht₁ : ∀ t ∈ tail₁, t.buffers.length = 1 ∧ PooledOOB t.oob := by
      intro t htt
      rw [hk] at htt
      exact ht t (List.mem_of_mem_drop htt)
    obtain ⟨gs', cur', closed', m', tail', st', hs', hinv', hg', k', hk', hkl'⟩ :=
      ih hinv (Nat.succ_ne_zero i) (by omega) ht₁ hlen₁
    refine ⟨gs', cur', closed', m', tail', st', ?_, hinv', hg.trans hg', k + k', ?_, by omega⟩
    · rw [loop, hs]
      exact hs'
    · rw [hk', hk, List.drop_drop]

/-- **The loop builds one message for each greedy group** of the datagrams, in order, and leaves the
other messages alone. -/
theorem coalesce_spec (hM : c.Models Holds room) {bufs : List (Slice UInt8)} {msgs : List Message}
    (hp : ∀ m ∈ msgs, m.buffers.length = 1 ∧ PooledOOB m.oob) (hl : bufs.length ≤ msgs.length) :
    ∃ built, c.coalesce bufs msgs =
        some (built ++ msgs.drop built.length, built.length) ∧
      List.Forall₂ (c.Closed Holds PooledOOB) (groups (joins c.maxPayloadLen room) bufs) built := by
  cases bufs with
  | nil => exact ⟨[], by simp [coalesce, loop], .nil⟩
  | cons buf rest =>
    obtain ⟨t, tail, rfl⟩ := List.exists_cons_of_length_pos (Nat.zero_lt_of_lt hl)
    obtain ⟨ht1, ht2⟩ := hp t (by simp)
    obtain ⟨st₁, hs, hinv⟩ := inv_startNext ⟨-1, 0, 0, false, t :: tail⟩ hM rfl rfl .nil ht1
      ht2
    obtain ⟨gs, cur, closed, m, tail', st, hs', hinv', hg, k, hk, hkl⟩ :=
      loop_inv hM hinv Nat.one_ne_zero (Nat.add_comm 1 rest.length)
        (fun t ht => hp t (List.mem_cons_of_mem _ ht)) (by simpa using hl)
    have hlen : (closed ++ [m]).length = k + 1 := by simp [hkl]
    refine ⟨closed ++ [m], ?_, ?_⟩
    · have hloop : c.loop rest.length 0 (buf :: rest) ⟨-1, 0, 0, false, t :: tail⟩ = some st := by
        have hfirst : c.step rest.length 0 buf ⟨-1, 0, 0, false, t :: tail⟩ = some st₁ := by
          simpa [step, mayJoin] using hs
        rw [loop, hfirst]
        exact hs'
      have hb : (st.base + 1).toNat = (closed ++ [m]).length := by
        rw [hinv'.base]
        simp
      rw [coalesce, List.length_cons, Nat.add_sub_cancel, hloop]
      simp only [Option.bind_eq_bind, Option.bind_some, hinv'.msgs, hb, hlen, hk,
        List.drop_succ_cons]
      simp
    · rw [groups]
      rw [List.nil_append] at hg
      rw [hg]
      obtain ⟨o, ho, hoob⟩ := hinv'.oob
      exact List.rel_append hinv'.closed (.cons ⟨hinv'.holds, hinv'.addr, o, ho, by
        simpa using hoob⟩ .nil)

/-! ## What every round keeps -/

/-- A property of messages that every write of the loop keeps: joining a datagram, setting the
segment size, and starting a message. -/
structure Keeps (c : Coalescer) (Kept : Message → Prop) : Prop where
  join : ∀ buf m, Kept m → Kept { m with buffers := c.join m.buffers buf }
  setGSO : ∀ g m, Kept m → Kept { m with oob := c.setGSO m.oob g }
  started : ∀ buf m, Kept m → Kept (c.started buf m)

theorem forall_mem_set {Kept : Message → Prop} {msgs : List Message} {i : ℕ}
    (hms : ∀ m ∈ msgs, Kept m) {m' : Message} (hm' : Kept m') :
    ∀ m ∈ msgs.set i m', Kept m := by
  intro m hm
  rcases List.mem_or_eq_of_mem_set hm with hm | rfl
  · exact hms m hm
  · exact hm'

namespace Keeps

variable {c : Coalescer} {Kept : Message → Prop} (hk : c.Keeps Kept) {st st' : Coalescing}
  {last i : ℕ} {buf : Slice UInt8} {bufs : List (Slice UInt8)} {msgs msgs' : List Message} {n : ℕ}

include hk

theorem joinBase (h : c.joinBase last i buf st = some st') (hms : ∀ m ∈ st.msgs, Kept m) :
    st'.msgs.length = st.msgs.length ∧ ∀ m ∈ st'.msgs, Kept m := by
  obtain ⟨m, hm, h⟩ := Option.bind_eq_some_iff.mp h
  obtain rfl := Option.some.inj h
  have hjoin := hk.join buf m (hms m (mem_of_msgAt hm))
  refine ⟨List.length_set, forall_mem_set hms ?_⟩
  split_ifs
  · exact hk.setGSO _ _ hjoin
  · exact hjoin

theorem closeBase (h : c.closeBase st = some msgs) (hms : ∀ m ∈ st.msgs, Kept m) :
    msgs.length = st.msgs.length ∧ ∀ m ∈ msgs, Kept m := by
  unfold Coalescer.closeBase at h
  split_ifs at h
  · obtain ⟨m, hm, h⟩ := Option.bind_eq_some_iff.mp h
    obtain rfl := Option.some.inj h
    exact ⟨List.length_set, forall_mem_set hms (hk.setGSO _ m (hms m (mem_of_msgAt hm)))⟩
  · obtain rfl := Option.some.inj h
    exact ⟨rfl, hms⟩

theorem startNext (h : c.startNext buf st = some st') (hms : ∀ m ∈ st.msgs, Kept m) :
    st'.msgs.length = st.msgs.length ∧ ∀ m ∈ st'.msgs, Kept m := by
  obtain ⟨msgs, hclose, h⟩ := Option.bind_eq_some_iff.mp h
  obtain ⟨m, hm, h⟩ := Option.bind_eq_some_iff.mp h
  split_ifs at h
  obtain rfl := Option.some.inj h
  obtain ⟨hlen, hms⟩ := hk.closeBase hclose hms
  exact ⟨List.length_set.trans hlen,
    forall_mem_set hms (hk.started buf m (hms m (mem_of_msgAt hm)))⟩

/-- **One round of the loop keeps the property**, and the number of messages. -/
theorem step (h : c.step last i buf st = some st') (hms : ∀ m ∈ st.msgs, Kept m) :
    st'.msgs.length = st.msgs.length ∧ ∀ m ∈ st'.msgs, Kept m := by
  obtain ⟨b, -, h⟩ := Option.bind_eq_some_iff.mp h
  split_ifs at h
  · exact hk.joinBase h hms
  · exact hk.startNext h hms

theorem loop (h : c.loop last i bufs st = some st') (hms : ∀ m ∈ st.msgs, Kept m) :
    st'.msgs.length = st.msgs.length ∧ ∀ m ∈ st'.msgs, Kept m := by
  induction bufs generalizing i st with
  | nil =>
    obtain rfl := Option.some.inj h
    exact ⟨rfl, hms⟩
  | cons buf bufs ih =>
    obtain ⟨st₁, hstep, h⟩ := Option.bind_eq_some_iff.mp h
    obtain ⟨hlen, hms⟩ := hk.step hstep hms
    obtain ⟨hlen', hms'⟩ := ih h hms
    exact ⟨hlen'.trans hlen, hms'⟩

/-- **The coalescing loop keeps the property**, whatever it is given. -/
theorem coalesce (h : c.coalesce bufs msgs = some (msgs', n)) (hms : ∀ m ∈ msgs, Kept m) :
    msgs'.length = msgs.length ∧ ∀ m ∈ msgs', Kept m := by
  obtain ⟨st, hloop, h⟩ := Option.bind_eq_some_iff.mp h
  obtain ⟨rfl, -⟩ := Prod.mk.inj (Option.some.inj h)
  exact hk.loop hloop hms

end Keeps

end Coalescer

end BatchUDP
