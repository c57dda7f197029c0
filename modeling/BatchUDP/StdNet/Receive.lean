import BatchUDP.StdNet.Bind
import BatchUDP.Window

/-!
# Receiving with the standard bind

`receiveIP` lends the caller's buffers to pooled messages, reads, and reports the size and the
endpoint of every datagram. With a batch reader and receive offload it reads into the last messages
only and splits what it read over all of them. Otherwise it reports the messages as they were read,
several with a batch reader and one without.

## Main definitions

* `validateReceiveBuffers`, `groReadBatchSize`
* `StdNetBind.lend`, `StdNetBind.fetch`, `StdNetBind.report`: the parts of a call
* `StdNetBind.receiveIP`: a call, with `ReceiveRun` and `Receipt`
* `StdNetBind.Splits`: the calls that split what they read
* `StdNetBind.ReadableInto`: messages that the kernel can read into buffers
* `StdNetBind.SplitsFilled`: a receipt tells nothing of messages that were not read into

## Main results

* `StdNetBind.exists_conclude`: a read with an address for every nonempty message is reported
* `StdNetBind.exists_pool_of_receiveIP`: a call changes its pool only, and keeps that valid
* `StdNetBind.splitsFilled_of_receiveIP`: a call splits no message that was not read into
* `StdNetBind.exists_receiveIP_split`: a call that splits reports what the split delivers
* `StdNetBind.exists_receiveIP_plain`: any other call reports the messages as they were read
* `StdNetBind.readsSucceed_iff`: the batch sizes at which no read runs out of slots
-/

namespace BatchUDP

open Go Unix Framing

/-- `ErrReadBufferTooShort`. -/
def errReadBufferTooShort : Error := .text "receive buffers list shorter than bind batch size"

/-- `validateReceiveBuffers`. -/
def validateReceiveBuffers (bufs : List (Slice UInt8)) (sizes : List ℕ)
    (eps : List (Option StdNetEndpoint)) (batchSize : ℕ) : Option Error :=
  if bufs.length < batchSize ∨ sizes.length < batchSize ∨ eps.length < batchSize then
    some errReadBufferTooShort
  else none

/-- `groReadBatchSize`: the number of messages that are read into when they are split. -/
def groReadBatchSize (batchSize : ℕ) : ℕ :=
  let n := (batchSize + udpSegmentMaxDatagrams - 1) / udpSegmentMaxDatagrams
  if n < 1 then 1 else if batchSize < n then batchSize else n

theorem groReadBatchSize_lt {b : ℕ} (hb : 1 < b) : groReadBatchSize b < b := by
  unfold groReadBatchSize udpSegmentMaxDatagrams
  dsimp only
  split_ifs <;> omega

/-- What a run chooses for one call of `receiveIP`: the messages that the pool hands back, and the
result of the read. -/
structure ReceiveRun where
  pick : ℕ
  read : Except Error (List Received)

/-- What a call of `receiveIP` did: its results, the caller's slices, and the bind afterwards. -/
structure Receipt where
  n : ℕ
  err : Option Error
  bufs : List (Slice UInt8)
  sizes : List ℕ
  eps : List (Option StdNetEndpoint)
  bind : StdNetBind
  deriving DecidableEq, Repr

/-- The bytes that the caller finds in the slots below `n`. -/
def Receipt.delivered (r : Receipt) : List (List UInt8) :=
  List.zipWith (fun b n => b.toList.take n) r.bufs (r.sizes.take r.n)

namespace StdNetBind

/-- The caller's buffers are lent to the messages, with their control buffers in full. -/
def lend : List Message → List (Slice UInt8) → Option (List Message)
  | [], _ => some []
  | _ :: _, [] => none
  | m :: msgs, b :: bufs => do
    let _ ← m.buffers.head?
    let msgs ← lend msgs bufs
    some ({ m with buffers := m.buffers.set 0 b, oob := m.oob.full } :: msgs)

/-- The first message that a read with batch size `b` goes to when it is split. -/
def readAt (b : ℕ) : ℕ := b - groReadBatchSize b

/-- The calls that split what they read. -/
def Splits (p : Platform) (br rxOffload : Bool) (batchSize : ℕ) : Prop :=
  (br = true ∧ p.hasOffload = true) ∧ rxOffload = true ∧ 1 < batchSize

instance (p : Platform) (br rxOffload : Bool) (batchSize : ℕ) :
    Decidable (Splits p br rxOffload batchSize) := inferInstanceAs (Decidable (_ ∧ _))

/-- Reading into the messages, and splitting what was read: the branches of `receiveIP`. -/
def fetch (p : Platform) (br rxOffload : Bool) (msgs : List Message) :
    Except Error (List Received) → Option Split
  | .error e => some ⟨msgs, 0, some e⟩
  | .ok rs =>
    if br = true ∧ p.hasOffload = true then
      if rxOffload = true ∧ 1 < msgs.length then
        -- the number of messages read is not used
        splitCoalescedMessages (getGSOSize p) (readAt msgs.length)
          (readWindow (readAt msgs.length) msgs rs)
      else some ⟨readBatch msgs rs, rs.length, none⟩
    -- without a batch reader one message is read, whatever the offload
    else some ⟨readBatch msgs (rs.take 1), 1, none⟩

/-- The endpoint of a message: the address it came from, and the source in its control data. -/
def endpoint (p : Platform) (m : Message) : Option StdNetEndpoint := do
  let ua ← m.addr
  let control ← m.oob.sub 0 m.nn
  some (getSrcFromControl p control (.ofAddrPort ua.addrPort.1.unmap ua.addrPort.2))

/-- The endpoint reported for a message: an empty one leaves the caller's as it is. -/
def slotEndpoint (p : Platform) (m : Message) (ep : Option StdNetEndpoint) :
    Option (Option StdNetEndpoint) :=
  if m.n = 0 then some ep else (endpoint p m).map some

/-- The loop over the messages to report: sizes and endpoints. -/
def report (p : Platform) : List Message → List ℕ → List (Option StdNetEndpoint) →
    Option (List ℕ × List (Option StdNetEndpoint))
  | [], sizes, eps => some (sizes, eps)
  | m :: msgs, _ :: sizes, ep :: eps => do
    let ep ← slotEndpoint p m ep
    let (sizes, eps) ← report p msgs sizes eps
    some (m.n :: sizes, ep :: eps)
  | _ :: _, _, _ => none

/-- The caller's buffers, which share their arrays with the messages they were lent to. -/
def giveBack (msgs : List Message) (bufs : List (Slice UInt8)) : List (Slice UInt8) :=
  List.zipWith (fun m b => m.buffers.head?.getD b) msgs bufs ++ bufs.drop msgs.length

/-- The end of a call: reporting what was read, and putting the messages back. -/
def conclude (p : Platform) (s : StdNetBind) (msgsPool : List (List Message))
    (bufs : List (Slice UInt8)) (sizes : List ℕ) (eps : List (Option StdNetEndpoint))
    (r : Split) : Option Receipt :=
  let bind := { s with msgsPool := putMessages r.msgs :: msgsPool }
  match r.err with
  -- an error discards what was read
  | some e => some ⟨0, some e, giveBack r.msgs bufs, sizes, eps, bind⟩
  | none =>
    if r.msgs.length < r.n then none
    else do
      let (sizes, eps) ← report p (r.msgs.take r.n) sizes eps
      some ⟨r.n, none, giveBack r.msgs bufs, sizes, eps, bind⟩

/-- `receiveIP`. -/
def receiveIP (p : Platform) (s : StdNetBind) (br rxOffload : Bool) (run : ReceiveRun)
    (bufs : List (Slice UInt8)) (sizes : List ℕ) (eps : List (Option StdNetEndpoint)) :
    Option Receipt :=
  match validateReceiveBuffers bufs sizes eps s.batchSize with
  | some e => some ⟨0, some e, bufs, sizes, eps, s⟩
  | none => do
    let (msgs, msgsPool) := s.getMessages p run.pick
    let msgs ← lend msgs bufs
    let r ← fetch p br rxOffload msgs run.read
    conclude p s msgsPool bufs sizes eps r

/-! ## Reporting -/

section Report

variable {p : Platform}

/-- A message that can be reported: it has an address, unless it is empty. -/
def Reportable (m : Message) : Prop := m.n ≠ 0 → m.addr ≠ none ∧ m.nn ≤ m.oob.cap

theorem exists_endpoint {m : Message} (h : Reportable m) (h0 : m.n ≠ 0) :
    ∃ ep, endpoint p m = some ep := by
  obtain ⟨ha, hnn⟩ := h h0
  obtain ⟨ua, hua⟩ := Option.ne_none_iff_exists'.mp ha
  exact ⟨_, by rw [endpoint, hua, Slice.sub_of_le (Nat.zero_le _) hnn]; rfl⟩

/-- The loop reports the size of every message. -/
theorem take_sizes_of_report {msgs : List Message} {sizes sizes' : List ℕ}
    {eps eps' : List (Option StdNetEndpoint)} (h : report p msgs sizes eps = some (sizes', eps')) :
    sizes'.take msgs.length = msgs.map Message.n := by
  induction msgs generalizing sizes eps sizes' eps' with
  | nil => simp
  | cons m msgs ih =>
    rcases sizes with - | ⟨size, sizes⟩
    · simp [report] at h
    rcases eps with - | ⟨ep, eps⟩
    · simp [report] at h
    obtain ⟨ep', -, h⟩ := Option.bind_eq_some_iff.mp h
    obtain ⟨⟨sizes₁, eps₁⟩, hrest, h⟩ := Option.bind_eq_some_iff.mp h
    obtain ⟨rfl, -⟩ := Prod.mk.inj (Option.some.inj h)
    rw [List.length_cons, List.take_succ_cons, ih hrest, List.map_cons]

/-- The loop reports the endpoint of every nonempty message. -/
theorem exists_report {msgs : List Message} (h : ∀ m ∈ msgs, Reportable m) {sizes : List ℕ}
    {eps : List (Option StdNetEndpoint)} (hs : msgs.length ≤ sizes.length)
    (he : msgs.length ≤ eps.length) :
    ∃ sizes' eps', report p msgs sizes eps = some (sizes', eps') ∧
      ∀ (k : ℕ) m, msgs[k]? = some m → m.n ≠ 0 →
        ∃ ep, endpoint p m = some ep ∧ eps'[k]? = some (some ep) := by
  induction msgs generalizing sizes eps with
  | nil => exact ⟨sizes, eps, rfl, by simp⟩
  | cons m msgs ih =>
    obtain ⟨hm, hms⟩ := List.forall_mem_cons.mp h
    obtain ⟨size, sizes, rfl⟩ := List.exists_cons_of_length_pos (Nat.zero_lt_of_lt hs)
    obtain ⟨ep, eps, rfl⟩ := List.exists_cons_of_length_pos (Nat.zero_lt_of_lt he)
    obtain ⟨sizes', eps', hrep, heps⟩ := ih hms (Nat.le_of_succ_le_succ hs)
      (Nat.le_of_succ_le_succ he)
    obtain ⟨ep', hep, hep'⟩ : ∃ ep', slotEndpoint p m ep = some ep' ∧
        (m.n ≠ 0 → ∃ e, endpoint p m = some e ∧ ep' = some e) := by
      unfold slotEndpoint
      by_cases h0 : m.n = 0
      · exact ⟨ep, if_pos h0, fun h => absurd h0 h⟩
      · obtain ⟨e, he⟩ := exists_endpoint hm h0
        exact ⟨some e, by rw [if_neg h0, he]; rfl, fun _ => ⟨e, he, rfl⟩⟩
    refine ⟨m.n :: sizes', ep' :: eps', ?_, ?_⟩
    · rw [report, hep, hrep]
      rfl
    · rintro (_ | k) m' hm' h0
      · obtain rfl : m = m' := by simpa using hm'
        obtain ⟨e, he, rfl⟩ := hep' h0
        exact ⟨e, he, List.getElem?_cons_zero⟩
      · exact heps k m' (by simpa using hm') h0

theorem zipWith_giveBack {msgs : List Message} {bufs : List (Slice UInt8)}
    (hb : ∀ m ∈ msgs, m.buffers ≠ []) (hl : msgs.length ≤ bufs.length) (n : ℕ) :
    List.zipWith (fun b n => b.toList.take n) (giveBack msgs bufs)
        ((msgs.take n).map Message.n) = (msgs.take n).map Message.received := by
  rw [giveBack]
  induction msgs generalizing bufs n with
  | nil => simp
  | cons m msgs ih =>
    obtain ⟨hm, hms⟩ := List.forall_mem_cons.mp hb
    obtain ⟨b, bufs, rfl⟩ := List.exists_cons_of_length_pos (Nat.zero_lt_of_lt hl)
    obtain ⟨b', bs, hb'⟩ := List.exists_cons_of_ne_nil hm
    cases n with
    | zero => simp
    | succ n =>
      have hrec : m.received = b'.toList.take m.n := by simp [Message.received, hb']
      rw [List.take_succ_cons, List.map_cons, List.map_cons, List.zipWith_cons_cons,
        List.cons_append, List.zipWith_cons_cons, List.length_cons, List.drop_succ_cons,
        ih hms (Nat.le_of_succ_le_succ hl), hb', hrec]
      rfl

variable {s : StdNetBind} {pool : List (List Message)} {bufs : List (Slice UInt8)}
  {sizes : List ℕ} {eps : List (Option StdNetEndpoint)} {r : Split}

/-- The end of a call reports what was read, unless there was an error. -/
theorem delivered_of_conclude (hb : ∀ m ∈ r.msgs, m.buffers ≠ [])
    (hl : r.msgs.length ≤ bufs.length) {rec : Receipt}
    (h : conclude p s pool bufs sizes eps r = some rec) :
    rec.err = r.err ∧ (r.err = none → rec.n = r.n ∧ rec.delivered = r.delivered) := by
  unfold conclude at h
  dsimp only at h
  split at h
  case h_1 e he =>
    obtain rfl := Option.some.inj h
    exact ⟨he.symm, fun h0 => by simp [he] at h0⟩
  case h_2 he =>
    split_ifs at h with hn
    obtain ⟨⟨sizes', eps'⟩, hrep, h⟩ := Option.bind_eq_some_iff.mp h
    obtain rfl := Option.some.inj h
    refine ⟨he.symm, fun _ => ⟨rfl, ?_⟩⟩
    have hsizes := take_sizes_of_report hrep
    rw [List.length_take, min_eq_left (not_lt.mp hn)] at hsizes
    rw [Receipt.delivered, Split.delivered, hsizes, zipWith_giveBack hb hl]

variable (p s pool) in
/-- **A read with an address for every nonempty message is reported.** -/
theorem exists_conclude (hv : validateReceiveBuffers bufs sizes eps r.msgs.length = none)
    (herr : r.err = none) (hn : r.n ≤ r.msgs.length) (hb : ∀ m ∈ r.msgs, m.buffers ≠ [])
    (hr : ∀ m ∈ r.msgs.take r.n, Reportable m) :
    ∃ rec, conclude p s pool bufs sizes eps r = some rec ∧ rec.err = none ∧ rec.n = r.n ∧
      rec.delivered = r.delivered ∧
      ∀ (k : ℕ) m, (r.msgs.take r.n)[k]? = some m → m.n ≠ 0 →
        ∃ ep, endpoint p m = some ep ∧ rec.eps[k]? = some (some ep) := by
  obtain ⟨hbufs, hsizes, heps⟩ : r.msgs.length ≤ bufs.length ∧ r.msgs.length ≤ sizes.length ∧
      r.msgs.length ≤ eps.length := by
    simpa [validateReceiveBuffers, not_or, not_lt] using hv
  have hlen : (r.msgs.take r.n).length = r.n := by rw [List.length_take, min_eq_left hn]
  obtain ⟨sizes', eps', hrep, he'⟩ := @exists_report p _ hr sizes eps (by omega) (by omega)
  have hc : conclude p s pool bufs sizes eps r = some ⟨r.n, none, giveBack r.msgs bufs, sizes',
      eps', { s with msgsPool := putMessages r.msgs :: pool }⟩ := by
    simp only [conclude, herr, if_neg (not_lt.mpr hn), hrep, Option.bind_eq_bind,
      Option.bind_some]
  exact ⟨_, hc, rfl, rfl, ((delivered_of_conclude hb hbufs hc).2 herr).2, he'⟩

end Report

/-! ## The messages that are read into -/

/-- A message lent to the socket: a buffer of the caller's, and its control buffer in full. -/
structure Lent (p : Platform) (b : Slice UInt8) (m : Message) : Prop where
  buffers : m.buffers = [b]
  oob_len : m.oob.len = stickyControlSize p + gsoControlSize p
  oob_cap : m.oob.cap = stickyControlSize p + gsoControlSize p
  n : m.n = 0
  nn : m.nn = 0

/-- A message that the kernel can read into a buffer. -/
structure Readable (p : Platform) (b : Slice UInt8) (r : Received) : Prop where
  payload : r.payload.length ≤ b.len
  control : (ControlMessage.encode r.control).length ≤ stickyControlSize p + gsoControlSize p
  gso : r.gso p ≤ r.payload.length

/-- Messages that the kernel can read into buffers: at least one, and at most one each. -/
structure ReadableInto (p : Platform) (bufs : List (Slice UInt8)) (rs : List Received) : Prop where
  ne_nil : rs ≠ []
  fits : List.Forall₂ (Readable p) (bufs.take rs.length) rs

/-- The part of the caller's buffers, or of the messages, that a call reads into. -/
def window (p : Platform) (br rxOffload : Bool) {α : Type} (l : List α) : List α :=
  if br = true ∧ p.hasOffload = true then
    if rxOffload = true ∧ 1 < l.length then l.drop (readAt l.length) else l
  else l.take 1

/-- A receipt tells what the messages that were read into are split into, and nothing of the other
messages of the window. -/
def SplitsFilled (p : Platform) (batchSize : ℕ) (bufs : List (Slice UInt8)) (rs : List Received)
    (rec : Receipt) : Prop :=
  ∃ msgs r, List.Forall₂ (Lent p) (bufs.take batchSize) msgs ∧
    splitCoalescedMessages (getGSOSize p) (readAt batchSize) (filled (readAt batchSize) msgs rs) =
      some r ∧
    rec.err = r.err ∧ (r.err = none → rec.n = r.n ∧ rec.delivered = r.delivered)

section Lend

variable {p : Platform} {bufs : List (Slice UInt8)} {msgs : List Message} {rs : List Received}

theorem exists_lend (hm : ∀ m ∈ msgs, PooledMessage p m) (hl : msgs.length ≤ bufs.length) :
    ∃ lent, lend msgs bufs = some lent ∧
      List.Forall₂ (Lent p) (bufs.take msgs.length) lent := by
  induction msgs generalizing bufs with
  | nil => exact ⟨[], rfl, by simp⟩
  | cons m msgs ih =>
    obtain ⟨hm, hms⟩ := List.forall_mem_cons.mp hm
    obtain ⟨b, bufs, rfl⟩ := List.exists_cons_of_length_pos (Nat.zero_lt_of_lt hl)
    obtain ⟨lent, he, hlent⟩ := ih hms (Nat.le_of_succ_le_succ hl)
    obtain ⟨b', hb'⟩ := List.length_eq_one_iff.mp hm.buffers
    refine ⟨{ m with buffers := m.buffers.set 0 b, oob := m.oob.full } :: lent, ?_, ?_⟩
    · simp [lend, he, hb']
    · exact .cons ⟨by simp [hb'], hm.oob.2, hm.oob.2, hm.n, hm.nn⟩ hlent

theorem map_room_of_lent (h : List.Forall₂ (Lent p) bufs msgs) :
    msgs.map Message.room = bufs.map Slice.len := by
  induction h with
  | nil => rfl
  | cons hm _ ih => rw [List.map_cons, List.map_cons, ih, Message.room_eq hm.buffers]

theorem forall_mem_of_lent (h : List.Forall₂ (Lent p) bufs msgs) :
    ∀ m ∈ msgs, ∃ b, Lent p b m := by
  intro m hm
  induction h with
  | nil => simp at hm
  | cons hbm _ ih =>
    rcases List.mem_cons.mp hm with rfl | hm
    · exact ⟨_, hbm⟩
    · exact ih hm

theorem buffers_ne_nil_of_lent (h : List.Forall₂ (Lent p) bufs msgs) :
    ∀ m ∈ msgs, m.buffers ≠ [] := by
  intro m hm
  obtain ⟨b, hb⟩ := forall_mem_of_lent h m hm
  simp [hb.buffers]

theorem nn_le_of_lent (h : List.Forall₂ (Lent p) bufs msgs) : ∀ m ∈ msgs, m.nn ≤ m.oob.cap := by
  intro m hm
  obtain ⟨b, hb⟩ := forall_mem_of_lent h m hm
  rw [hb.nn]
  exact Nat.zero_le _

theorem not_stale_of_lent (h : List.Forall₂ (Lent p) bufs msgs) (first : ℕ) :
    ¬ Stale first msgs rs := by
  rintro ⟨m, hm, h0⟩
  obtain ⟨b, hb⟩ := forall_mem_of_lent h m (List.mem_of_getElem? hm)
  exact h0 hb.n

theorem forall₂_fits_of_lent (h : List.Forall₂ (Lent p) bufs msgs)
    (hr : List.Forall₂ (Readable p) bufs rs) : List.Forall₂ (fun m r => r.Fits p m) msgs rs := by
  induction hr generalizing msgs with
  | nil =>
    cases h
    exact .nil
  | cons hbr _ ih =>
    cases h with
    | cons hbm h =>
      exact .cons ⟨⟨_, [], hbm.buffers, hbr.payload⟩, by rw [hbm.oob_len]; exact hbr.control,
        hbr.gso⟩ (ih h)

/-- Buffers that were only lent come back as they were. -/
theorem giveBack_of_lent (h : List.Forall₂ (Lent p) bufs msgs) (rest : List (Slice UInt8)) :
    giveBack msgs (bufs ++ rest) = bufs ++ rest := by
  unfold giveBack
  induction h with
  | nil => simp
  | cons hm _ ih => simpa [hm.buffers] using ih

/-- Messages of the shape of lent ones can be put back. -/
theorem pooledMessage_of_map_shape {msgs' : List Message} (h : List.Forall₂ (Lent p) bufs msgs)
    (hshape : msgs'.map Message.shape = msgs.map Message.shape) :
    ∀ m ∈ putMessages msgs', PooledMessage p m := by
  apply pooledMessage_of_mem_putMessages
  intro m hm
  have hmem : m.shape ∈ msgs.map Message.shape := hshape ▸ List.mem_map_of_mem hm
  obtain ⟨m', hm', he⟩ := List.mem_map.mp hmem
  obtain ⟨b, hb⟩ := forall_mem_of_lent h m' hm'
  obtain ⟨hlens, hcap⟩ := Prod.mk.inj he
  refine ⟨?_, hcap.symm.trans hb.oob_cap⟩
  simpa [hb.buffers] using congrArg List.length hlens.symm

/-- What the kernel can read into buffers it can read into the messages they are lent to. -/
theorem ReadableInto.reads (hr : ReadableInto p bufs rs) (h : List.Forall₂ (Lent p) bufs msgs) :
    ReadsInto p msgs rs :=
  ⟨hr.ne_nil, forall₂_fits_of_lent (List.forall₂_take rs.length h) hr.fits⟩

end Lend

section Reportable

variable {p : Platform} {first i : ℕ} {msgs : List Message} {rs : List Received}

theorem nn_le_of_mem_readBatch (h : ∀ m ∈ msgs, m.nn ≤ m.oob.cap) :
    ∀ m ∈ readBatch msgs rs, m.nn ≤ m.oob.cap := by
  induction msgs generalizing rs with
  | nil => cases rs <;> simp [readBatch]
  | cons m msgs ih =>
    obtain ⟨hm, hms⟩ := List.forall_mem_cons.mp h
    cases rs with
    | nil => exact h
    | cons r rs =>
      refine List.forall_mem_cons.mpr ⟨?_, ih hms⟩
      rw [Message.fill, Slice.cap_copy]
      exact (min_le_right _ _).trans m.oob.len_le_cap

theorem nn_le_of_mem_readWindow (h : ∀ m ∈ msgs, m.nn ≤ m.oob.cap) :
    ∀ m ∈ readWindow first msgs rs, m.nn ≤ m.oob.cap := by
  intro m hm
  rcases List.mem_append.mp hm with hm | hm
  · exact h m (List.mem_of_mem_take hm)
  · exact nn_le_of_mem_readBatch (fun m hm => h m (List.mem_of_mem_drop hm)) m hm

theorem addr_ne_none_of_mem_take_readBatch (h : rs.length ≤ msgs.length) :
    ∀ m ∈ (readBatch msgs rs).take rs.length, m.addr ≠ none := by
  intro m hm
  rw [take_readBatch h] at hm
  obtain ⟨k, hk⟩ := List.mem_iff_getElem?.mp hm
  obtain ⟨w, r, -, -, rfl⟩ := List.getElem?_zipWith_eq_some.mp hk
  simp [Message.fill]

/-- Slots that datagrams were delivered to can be reported. -/
theorem reportable_placed (h : ∀ m ∈ msgs, m.nn ≤ m.oob.cap)
    (hlen : (pieces p rs).length ≤ msgs.length) :
    ∀ m ∈ (placed first i (pieces p rs) msgs).take (pieces p rs).length, Reportable m := by
  intro m hm
  rw [placed, take_render hlen] at hm
  obtain ⟨k, hk⟩ := List.mem_iff_getElem?.mp hm
  obtain ⟨w, x, hw, hx, rfl⟩ := List.getElem?_zipWith_eq_some.mp hk
  obtain ⟨r, -, hx⟩ := List.mem_flatMap.mp (List.mem_of_getElem? hx)
  obtain ⟨d, -, rfl⟩ := List.mem_map.mp hx
  exact fun _ => ⟨by simp [Message.deliver], h w (List.mem_of_getElem? hw)⟩

end Reportable

section Calls

variable {p : Platform} {s : StdNetBind} {br rxOffload : Bool} {run : ReceiveRun}
  {bufs : List (Slice UInt8)} {sizes : List ℕ} {eps : List (Option StdNetEndpoint)}
  {rs : List Received} (hs : s.Valid p)
  (hv : validateReceiveBuffers bufs sizes eps s.batchSize = none)

include hs hv

variable (br rxOffload run) in
/-- A call reads into messages that the caller's buffers were lent to, and reports what it read. -/
theorem exists_receiveIP_eq :
    ∃ msgs, List.Forall₂ (Lent p) (bufs.take s.batchSize) msgs ∧ msgs.length = s.batchSize ∧
      s.receiveIP p br rxOffload run bufs sizes eps =
        (fetch p br rxOffload msgs run.read).bind
          (conclude p s (s.getMessages p run.pick).2 bufs sizes eps) := by
  obtain ⟨⟨hlen, hmsgs⟩, -⟩ := hs.getMessages run.pick
  have hbufs : s.batchSize ≤ bufs.length := by
    by_contra hlt
    simp [validateReceiveBuffers, not_le.mp hlt] at hv
  obtain ⟨lent, he, hlent⟩ := exists_lend hmsgs (hlen.trans_le hbufs)
  rw [hlen] at hlent
  refine ⟨lent, hlent, ?_, ?_⟩
  · rw [← hlent.length_eq, List.length_take, min_eq_left hbufs]
  · simp [receiveIP, hv, he]

variable (br rxOffload) in
/-- **A read that fails is reported as it is**: the call delivers nothing, and leaves the caller's
slices alone. -/
theorem exists_receiveIP_error {e : Error} (hread : run.read = .error e) :
    ∃ rec, s.receiveIP p br rxOffload run bufs sizes eps = some rec ∧ rec.n = 0 ∧
      rec.err = some e ∧ rec.bufs = bufs ∧ rec.sizes = sizes ∧ rec.eps = eps := by
  obtain ⟨msgs, hlent, -, he⟩ := exists_receiveIP_eq br rxOffload run hs hv
  rw [hread, fetch, Option.bind_some, conclude] at he
  refine ⟨_, he, rfl, rfl, ?_, rfl, rfl⟩
  have hback := giveBack_of_lent hlent (bufs.drop s.batchSize)
  rwa [List.take_append_drop] at hback

omit hs hv

/-- No read and no split changes the shape of the messages. -/
theorem map_shape_fetch {msgs : List Message} {read : Except Error (List Received)} {r : Split}
    (h : fetch p br rxOffload msgs read = some r) :
    r.msgs.map Message.shape = msgs.map Message.shape := by
  unfold fetch at h
  split at h
  · obtain rfl := Option.some.inj h
    rfl
  · split_ifs at h
    · exact (splitFrom_shape h).trans (map_shape_readWindow _ _ _)
    · obtain rfl := Option.some.inj h
      exact map_shape_readBatch _ _
    · obtain rfl := Option.some.inj h
      exact map_shape_readBatch _ _

/-- The end of a call changes nothing of the bind but its pool of messages. -/
theorem bind_conclude {pool : List (List Message)} {r : Split} {rec : Receipt}
    (h : conclude p s pool bufs sizes eps r = some rec) :
    rec.bind = { s with msgsPool := putMessages r.msgs :: pool } := by
  unfold conclude at h
  dsimp only at h
  split at h
  · obtain rfl := Option.some.inj h
    rfl
  · split_ifs at h
    obtain ⟨reported, -, h⟩ := Option.bind_eq_some_iff.mp h
    obtain rfl := Option.some.inj h
    rfl

/-- **A call changes nothing of the bind but its pool of messages, and keeps that valid.** -/
theorem exists_pool_of_receiveIP (hs : s.Valid p) {rec : Receipt}
    (h : s.receiveIP p br rxOffload run bufs sizes eps = some rec) :
    (∃ pool, rec.bind = { s with msgsPool := pool }) ∧ rec.bind.Valid p := by
  rcases hv : validateReceiveBuffers bufs sizes eps s.batchSize with - | e
  · obtain ⟨msgs, hlent, hlen, he⟩ := exists_receiveIP_eq br rxOffload run hs hv
    obtain ⟨r, hr, hc⟩ := Option.bind_eq_some_iff.mp (he.symm.trans h)
    have hbind := bind_conclude hc
    have hshape := map_shape_fetch hr
    refine ⟨⟨_, hbind⟩, ?_⟩
    rw [hbind]
    refine valid_put hs.addrs (List.forall_mem_cons.mpr ⟨⟨?_, ?_⟩, (hs.getMessages run.pick).2⟩)
    · rw [putMessages, List.length_map, length_of_map_shape hshape, hlen]
    · exact pooledMessage_of_map_shape hlent hshape
  · simp only [receiveIP, hv] at h
    obtain rfl := Option.some.inj h
    exact ⟨⟨_, rfl⟩, hs⟩

include hs hv

variable (hread : run.read = .ok rs)

include hread

/-- **A call that splits reports what the messages that were read into are split into**: those of
the window that the kernel did not fill play no part. -/
theorem splitsFilled_of_receiveIP (hsp : Splits p br rxOffload s.batchSize) {rec : Receipt}
    (h : s.receiveIP p br rxOffload run bufs sizes eps = some rec) :
    SplitsFilled p s.batchSize bufs rs rec := by
  obtain ⟨msgs, hlent, hlen, he⟩ := exists_receiveIP_eq br rxOffload run hs hv
  obtain ⟨r, hr, hc⟩ := Option.bind_eq_some_iff.mp (he.symm.trans h)
  have hshape := map_shape_fetch hr
  have hbufs : r.msgs.length ≤ bufs.length := by
    rw [length_of_map_shape hshape, ← hlent.length_eq]
    exact List.length_take_le' _ _
  have hrep := delivered_of_conclude
    (buffers_ne_nil_of_map_shape hshape (buffers_ne_nil_of_lent hlent)) hbufs hc
  have hfirst : readAt s.batchSize ≤ msgs.length := hlen ▸ Nat.sub_le _ _
  have h0 : ∀ m ∈ (msgs.drop (readAt s.batchSize + rs.length)).head?, m.n = 0 := by
    intro m hm
    obtain ⟨b, hb⟩ :=
      forall_mem_of_lent hlent m (List.mem_of_mem_drop (List.mem_of_mem_head? hm))
    exact hb.n
  have hle : readAt s.batchSize ≤ (filled (readAt s.batchSize) msgs rs).length := by
    rw [filled, List.length_append, List.length_take, min_eq_left hfirst]
    exact Nat.le_add_right _ _
  have hsplit : 1 < msgs.length := hlen ▸ hsp.2.2
  rw [hread, fetch, if_pos hsp.1, if_pos ⟨hsp.2.1, hsplit⟩, hlen, readWindow_eq,
    splitCoalescedMessages_append_right h0 hle] at hr
  obtain ⟨r', hr', rfl⟩ := Option.map_eq_some_iff.mp hr
  refine ⟨msgs, r', hlent, hr', hrep.1, fun herr => ?_⟩
  obtain ⟨hn, hd⟩ := hrep.2 herr
  refine ⟨hn, hd.trans (Split.delivered_append ?_ _)⟩
  rw [length_of_map_shape (splitFrom_shape hr')]
  have := (splitFrom_frame hr' (Nat.zero_le _)).2.1
  omega

/-- **A call that splits fails iff the datagrams run past their messages, and otherwise reports what
the split delivers.** -/
theorem exists_receiveIP_split (hsp : Splits p br rxOffload s.batchSize)
    (hr : ReadableInto p ((bufs.take s.batchSize).drop (readAt s.batchSize)) rs) :
    ∃ msgs rec, List.Forall₂ (Lent p) (bufs.take s.batchSize) msgs ∧ msgs.length = s.batchSize ∧
      Reads p (readAt s.batchSize) msgs rs ∧
      s.receiveIP p br rxOffload run bufs sizes eps = some rec ∧
      (¬ Fitting p (readAt s.batchSize) rs → rec.n = 0 ∧ rec.err = some errSplitOverflow) ∧
      (Fitting p (readAt s.batchSize) rs → rec.err = none ∧ ∃ r,
        splitCoalescedMessages (getGSOSize p) (readAt s.batchSize)
          (readWindow (readAt s.batchSize) msgs rs) = some r ∧ r.err = none ∧
        rec.n = r.n ∧ rec.delivered = r.delivered ∧
        ∀ (k : ℕ) m, (r.msgs.take r.n)[k]? = some m → m.n ≠ 0 →
          ∃ ep, endpoint p m = some ep ∧ rec.eps[k]? = some (some ep)) := by
  obtain ⟨msgs, hlent, hlen, he⟩ := exists_receiveIP_eq br rxOffload run hs hv
  have hreads : Reads p (readAt s.batchSize) msgs rs := by
    refine ⟨?_, buffers_ne_nil_of_lent hlent, hr.reads (List.forall₂_drop _ hlent)⟩
    rw [hlen]
    exact Nat.sub_le _ _
  have hfetch : fetch p br rxOffload msgs run.read =
      splitCoalescedMessages (getGSOSize p) (readAt s.batchSize)
        (readWindow (readAt s.batchSize) msgs rs) := by
    rw [hread, fetch, if_pos hsp.1, hlen, if_pos hsp.2]
  rw [hfetch] at he
  by_cases hno : Fitting p (readAt s.batchSize) rs
  · obtain ⟨r, hsplit, hmsgs, hn, herr⟩ : ∃ r, splitCoalescedMessages (getGSOSize p)
          (readAt s.batchSize) (readWindow (readAt s.batchSize) msgs rs) = some r ∧
        r.msgs = placed (readAt s.batchSize) (readAt s.batchSize + (leading rs).length)
          (pieces p (leading rs)) (readWindow (readAt s.batchSize) msgs rs) ∧
        r.n = (pieces p (leading rs)).length ∧ r.err = none :=
      ⟨_, hreads.split_readWindow hno (.inr (not_stale_of_lent hlent _)), rfl, rfl, rfl⟩
    have hwin := map_shape_readWindow (readAt s.batchSize) msgs rs
    have hshape := (splitFrom_shape hsplit).trans hwin
    have hcount := (length_of_map_shape hshape).trans hlen
    have hle : r.n ≤ s.batchSize := by
      have h1 := hno.length_pieces_le
      have h2 := hreads.length_leading_le
      omega
    have hrep : ∀ m ∈ r.msgs.take r.n, Reportable m := by
      rw [hmsgs, hn]
      refine reportable_placed (nn_le_of_mem_readWindow (nn_le_of_lent hlent)) ?_
      rw [length_of_map_shape hwin, hlen, ← hn]
      exact hle
    obtain ⟨rec, hrec, hok, hrn, hdel, heps⟩ := exists_conclude p s (s.getMessages p run.pick).2
      (hcount.symm ▸ hv) herr (hcount.symm ▸ hle)
      (buffers_ne_nil_of_map_shape hshape hreads.buffers) hrep
    rw [hsplit, Option.bind_some, hrec] at he
    exact ⟨msgs, rec, hlent, hlen, hreads, he, fun h => absurd hno h,
      fun _ => ⟨hok, r, hsplit, herr, hrn, hdel, heps⟩⟩
  · obtain ⟨r, hsplit, herr⟩ := hreads.split_readWindow_overflow hno
    rw [hsplit, Option.bind_some, conclude, herr] at he
    exact ⟨msgs, _, hlent, hlen, hreads, he, fun _ => ⟨rfl, rfl⟩, fun h => absurd h hno⟩

/-- **Any other call reports the messages as they were read.** -/
theorem exists_receiveIP_plain (hsp : ¬ Splits p br rxOffload s.batchSize)
    (hr : ReadableInto p (window p br rxOffload (bufs.take s.batchSize)) rs) :
    ∃ msgs rec, rs.length ≤ msgs.length ∧
      ((readBatch msgs rs).take rs.length).map Message.received = rs.map Received.payload ∧
      s.receiveIP p br rxOffload run bufs sizes eps = some rec ∧ rec.err = none ∧
      rec.delivered = rs.map Received.payload ∧
      ∀ (k : ℕ) m, ((readBatch msgs rs).take rs.length)[k]? = some m → m.n ≠ 0 →
        ∃ ep, endpoint p m = some ep ∧ rec.eps[k]? = some (some ep) := by
  obtain ⟨msgs, hlent, hlen, he⟩ := exists_receiveIP_eq br rxOffload run hs hv
  have hbl : (bufs.take s.batchSize).length = s.batchSize := hlent.length_eq.trans hlen
  have hfetch : fetch p br rxOffload msgs run.read = some ⟨readBatch msgs rs, rs.length, none⟩ ∧
      ReadsInto p msgs rs := by
    unfold window at hr
    split_ifs at hr with h1 h2
    · exact absurd ⟨h1, by rwa [hbl] at h2⟩ hsp
    · rw [hbl] at h2
      refine ⟨?_, hr.reads hlent⟩
      rw [hread, fetch, if_pos h1, hlen, if_neg h2]
    · have hreads := hr.reads (List.forall₂_take 1 hlent)
      have hle := hreads.length_le
      rw [List.length_take] at hle
      have hone : rs.length = 1 := by
        have := List.length_pos_iff.mpr hreads.ne_nil
        omega
      refine ⟨?_, hreads.ne_nil, ?_⟩
      · rw [hread, fetch, if_neg h1, List.take_of_length_le hone.le, hone]
      · have := hreads.fits
        rwa [List.take_take, min_eq_left hone.le] at this
  obtain ⟨hfetch, hreads⟩ := hfetch
  have hshape := map_shape_readBatch msgs rs
  have hle : rs.length ≤ (readBatch msgs rs).length := by
    rw [length_readBatch]
    exact hreads.length_le
  have hrep : ∀ m ∈ (readBatch msgs rs).take rs.length, Reportable m := fun m hm _ =>
    ⟨addr_ne_none_of_mem_take_readBatch hreads.length_le m hm,
      nn_le_of_mem_readBatch (nn_le_of_lent hlent) m (List.mem_of_mem_take hm)⟩
  obtain ⟨rec, hrec, hok, -, hdel, heps⟩ := exists_conclude p s (s.getMessages p run.pick).2
    (r := ⟨readBatch msgs rs, rs.length, none⟩)
    (((length_of_map_shape hshape).trans hlen).symm ▸ hv) rfl hle
    (buffers_ne_nil_of_map_shape hshape (buffers_ne_nil_of_lent hlent)) hrep
  rw [hfetch, Option.bind_some, hrec] at he
  exact ⟨msgs, rec, hreads.length_le, hreads.map_received_take, he, hok,
    hdel.trans hreads.map_received_take, heps⟩

end Calls

/-! ## Overflow -/

/-- Every read with batch size `b`, in which no message carries more datagrams than the kernel
coalesces, succeeds. -/
def ReadsSucceed (p : Platform) (b : ℕ) : Prop :=
  ∀ (s : StdNetBind) (run : ReceiveRun) (bufs : List (Slice UInt8)) (sizes : List ℕ)
    (eps : List (Option StdNetEndpoint)) (rs : List Received), s.Valid p → s.batchSize = b →
    validateReceiveBuffers bufs sizes eps b = none → run.read = .ok rs →
    ReadableInto p ((bufs.take b).drop (readAt b)) rs →
    (∀ r ∈ rs, (r.datagrams p).length ≤ udpSegmentMaxDatagrams) →
    ∃ rec, s.receiveIP p true true run bufs sizes eps = some rec ∧ rec.err = none

/-- A message coalesced from as many datagrams as the kernel coalesces. -/
def fullMessage : Received := .coalesced 1 (List.replicate udpSegmentMaxDatagrams 0)

section Overflow

variable {p : Platform} (hp : p.hasOffload = true)

include hp

theorem length_datagrams_fullMessage :
    (fullMessage.datagrams p).length = udpSegmentMaxDatagrams := by
  have hg : fullMessage.gso p = 1 := Received.gso_coalesced hp (by decide) _
  rw [Received.datagrams_of_ne_nil (by decide), hg, length_chunks Nat.one_pos]
  rfl

theorem readable_fullMessage :
    Readable p (.ofList (List.replicate udpSegmentMaxDatagrams 0)) fullMessage where
  payload := le_rfl
  control := by
    have h24 : (ControlMessage.encode fullMessage.control).length = cmsgSpace sizeOfGSOData := by
      decide
    rw [h24, gsoControlSize, if_pos hp]
    omega
  gso := (Received.gso_coalesced hp (by decide) _).trans_le (by decide)

/-- A window full of full messages runs over unless the batch size is a multiple of what one message
carries. -/
theorem fitting_fullMessages {b : ℕ} (hb : udpSegmentMaxDatagrams ≤ b)
    (h : Fitting p (readAt b) (List.replicate (groReadBatchSize b) fullMessage)) :
    udpSegmentMaxDatagrams ∣ b := by
  have hlead : leading (List.replicate (groReadBatchSize b) fullMessage) =
      List.replicate (groReadBatchSize b) fullMessage :=
    leading_eq_self fun r hr => by
      rw [List.eq_of_mem_replicate hr]
      decide
  have hsum := add_sum_le_of_noOverflow h (Nat.zero_le _)
  rw [hlead, counts, List.map_replicate, length_datagrams_fullMessage hp, List.sum_replicate,
    List.length_replicate, smul_eq_mul] at hsum
  unfold readAt groReadBatchSize udpSegmentMaxDatagrams at *
  dsimp only at hsum
  split_ifs at hsum <;> omega

/-- A window full of full messages can be read. -/
theorem readableInto_fullMessages {b : ℕ} (hb : udpSegmentMaxDatagrams ≤ b) :
    ReadableInto p (((List.replicate b (.ofList (List.replicate udpSegmentMaxDatagrams 0))).take
      b).drop (readAt b)) (List.replicate (groReadBatchSize b) fullMessage) := by
  have hpos : 0 < groReadBatchSize b ∧ groReadBatchSize b ≤ b := by
    unfold groReadBatchSize udpSegmentMaxDatagrams at *
    dsimp only
    split_ifs <;> omega
  refine ⟨by simpa using hpos.1.ne', ?_⟩
  have hmin : min (groReadBatchSize b) (min b b - readAt b) = groReadBatchSize b := by
    unfold readAt
    omega
  rw [List.take_replicate, List.drop_replicate, List.length_replicate, List.take_replicate, hmin]
  generalize groReadBatchSize b = n
  induction n with
  | zero => exact .nil
  | succ n ih => exact .cons (readable_fullMessage hp) ih

/-- **Reads never run over iff the batch size is a multiple of the number of datagrams that one
message carries.** -/
theorem readsSucceed_iff {b : ℕ} (hb : udpSegmentMaxDatagrams ≤ b) :
    ReadsSucceed p b ↔ udpSegmentMaxDatagrams ∣ b := by
  have hsp : Splits p true true b := ⟨⟨rfl, hp⟩, rfl, lt_of_lt_of_le (by decide) hb⟩
  constructor
  · intro h
    have hs := valid_opened p true b
    have hv : validateReceiveBuffers
        (List.replicate b (.ofList (List.replicate udpSegmentMaxDatagrams 0)))
        (List.replicate b 0) (List.replicate b none) b = none := by simp [validateReceiveBuffers]
    have hr := readableInto_fullMessages hp hb
    have hread : (ReceiveRun.mk 0 (.ok (List.replicate (groReadBatchSize b) fullMessage))).read =
      .ok (List.replicate (groReadBatchSize b) fullMessage) := rfl
    obtain ⟨rec, he, herr⟩ := h (opened true b) _ _ _ _ _ hs rfl hv hread hr fun r hr => by
      rw [List.eq_of_mem_replicate hr, length_datagrams_fullMessage hp]
    obtain ⟨-, rec', -, -, -, he', hover, -⟩ := exists_receiveIP_split hs hv hread hsp hr
    obtain rfl := Option.some.inj (he.symm.trans he')
    refine fitting_fullMessages hp hb ?_
    by_contra hno
    simp [(hover hno).2] at herr
  · rintro hdvd s run bufs sizes eps rs hs rfl hv hread hr h64
    obtain ⟨msgs, rec, -, hlen, hreads, he, -, hok⟩ := exists_receiveIP_split hs hv hread hsp hr
    refine ⟨rec, he, (hok ?_).1⟩
    refine noOverflow_of_forall_le (k := udpSegmentMaxDatagrams) ?_ ?_ (by decide)
    · intro c hc
      obtain ⟨r, hr, rfl⟩ := List.mem_map.mp hc
      exact h64 r ((List.takeWhile_sublist _).subset hr)
    · have hle := hreads.length_leading_le
      rw [counts, List.length_map]
      unfold readAt groReadBatchSize udpSegmentMaxDatagrams at *
      dsimp only at hle ⊢
      split_ifs at hle ⊢ <;> omega

end Overflow

/-- The default batch size is a multiple. -/
theorem readsSucceed_iff_ideal : ReadsSucceed .linux 128 ↔ udpSegmentMaxDatagrams ∣ 128 :=
  readsSucceed_iff rfl (by decide)

/-- With 65 slots a read of two full messages fails, and its 128 datagrams are discarded. -/
theorem receiveIP_overflow_of_batchSize_65 :
    (∀ r ∈ [fullMessage, fullMessage], (r.datagrams .linux).length ≤ udpSegmentMaxDatagrams) ∧
    ∃ rec, (opened true 65).receiveIP .linux true true ⟨0, .ok [fullMessage, fullMessage]⟩
        (List.replicate 65 (.ofList (List.replicate 64 0))) (List.replicate 65 0)
        (List.replicate 65 none) = some rec ∧
      rec.n = 0 ∧ rec.err = some errSplitOverflow := by
  have hr : ReadableInto .linux (((List.replicate 65 (.ofList (List.replicate 64 0))).take 65).drop
      (readAt 65)) [fullMessage, fullMessage] := readableInto_fullMessages rfl (by decide)
  have hno : ¬ Fitting .linux (readAt 65) [fullMessage, fullMessage] := fun h =>
    absurd (fitting_fullMessages rfl (by decide) h) (by decide)
  have hread : (ReceiveRun.mk 0 (.ok [fullMessage, fullMessage])).read =
    .ok [fullMessage, fullMessage] := rfl
  have hv : validateReceiveBuffers (List.replicate 65 (.ofList (List.replicate 64 0)))
    (List.replicate 65 0) (List.replicate 65 none) (opened true 65).batchSize = none := by decide
  obtain ⟨-, rec, -, -, -, he, hover, -⟩ := exists_receiveIP_split (valid_opened .linux true 65) hv
    hread ⟨⟨rfl, rfl⟩, rfl, by decide⟩ hr
  exact ⟨by decide, rec, he, hover hno⟩

end StdNetBind

end BatchUDP
