import Mathlib.Data.List.TakeWhile
import BatchUDP.Split

/-!
# Reading into a window and splitting

Both receivers read coalesced messages into the last slots of a list of messages, the read window,
and split them in place. What they report is determined by the messages up to the first empty one:
all their datagrams, if these do not run past their messages. If all messages read are nonempty and
the window has more slots, what comes next depends on the next slot: the loop ends there if its
length is zero, and otherwise splits what an earlier call left in it.

## Main definitions

* `readWindow first msgs rs`: the messages after the window from `first` on was read into
* `originals p rs`: the datagrams that the messages read were coalesced from
* `leading rs`: the messages read up to the first empty one
* `EmptyLast rs`, `Stale first msgs rs`, `Fitting p first rs`: no empty message is followed by a
  nonempty one, the slot behind the messages read has a length left over from earlier, the datagrams
  do not run past their messages
* `Message.room`, `Split.delivered`: what a slot can hold, and what the slots do hold

## Main results

* `Reads.split_readWindow`: without leftovers, the slots hold the datagrams of the leading messages
* `Reads.split_readWindow_overflow`: datagrams that run past their message are reported
* `Reads.split_readWindow_stale`: with leftovers, more slots are reported
* `Reads.delivered_eq_iff`: when a successful split delivers exactly the datagrams read
* `Reads.sublist_delivered_iff`: when a successful split drops none of them
-/

namespace BatchUDP

open Go Unix Framing

/-! ## Filled messages -/

section Fill

variable {p : Platform} {r : Received} {m : Message}

theorem Received.Fits.n_fill (h : r.Fits p m) : (m.fill r).n = r.payload.length := by
  obtain ⟨b, bs, hb, hle⟩ := h.payload
  refine min_eq_left ?_
  rw [hb, List.map_cons, List.sum_cons]
  omega

theorem Received.Fits.received_fill (h : r.Fits p m) : (m.fill r).received = r.payload := by
  obtain ⟨b, bs, hb, hle⟩ := h.payload
  rw [Message.received, h.n_fill]
  simp only [Message.fill, hb, scatter, List.head?_cons, Option.map_some, Option.getD_some]
  exact Slice.take_toList_copy_of_le hle

theorem Received.Fits.controlData_fill (h : r.Fits p m) :
    (m.fill r).controlData = ControlMessage.encode r.control := by
  have hle := h.control
  simp only [Message.controlData, Message.fill, Slice.arr_copy, min_eq_left hle]
  rw [List.take_of_length_le hle, List.take_left]

theorem Received.Fits.splittable_fill (h : r.Fits p m) :
    (m.fill r).Splittable (getGSOSize p) where
  payload := by
    obtain ⟨b, bs, hb, hle⟩ := h.payload
    refine ⟨b.copy r.payload, scatter bs (r.payload.drop b.len), ?_, ?_⟩
    · simp only [Message.fill, hb, scatter]
    · rw [h.n_fill, Slice.len_copy]
      exact hle
  control := by
    rw [Message.fill, Slice.cap_copy]
    exact (min_le_right _ _).trans m.oob.len_le_cap
  gso g hg := by
    rw [h.controlData_fill, r.getGSOSize_encode, Except.ok.injEq] at hg
    rw [h.n_fill, ← hg]
    exact h.gso

/-- The datagrams of a message with its address. -/
def Received.pieces (p : Platform) (r : Received) : List (List UInt8 × Option UDPAddr) :=
  (r.datagrams p).map (·, some r.addr)

/-- A filled message is cut into the datagrams that were read. -/
theorem Received.Fits.cut_fill (h : r.Fits p m) (h0 : r.payload ≠ []) :
    (m.fill r).cut (getGSOSize p) = some (.ok (r.pieces p)) := by
  have hn : (m.fill r).n ≠ 0 := by
    rw [h.n_fill]
    exact mt List.length_eq_zero_iff.mp h0
  rw [Message.cut, if_neg hn, h.controlData_fill, r.getGSOSize_encode, h.received_fill,
    Received.pieces, Received.datagrams_of_ne_nil h0]
  rfl

theorem map_received_fill {ws : List Message} {rs : List Received}
    (h : List.Forall₂ (fun m r => r.Fits p m) ws rs) :
    (List.zipWith Message.fill ws rs).map Message.received = rs.map Received.payload := by
  induction h with
  | nil => rfl
  | cons hmr _ ih =>
    rw [List.zipWith_cons_cons, List.map_cons, List.map_cons, hmr.received_fill, ih]

theorem n_fill_of_payload_eq_nil (h : r.payload = []) : (m.fill r).n = 0 := by
  simp [Message.fill, h]

end Fill

/-! ## Slots -/

theorem map_len_scatter (bs : List (Slice UInt8)) (xs : List UInt8) :
    (scatter bs xs).map Slice.len = bs.map Slice.len := by
  induction bs generalizing xs with
  | nil => rfl
  | cons b bs ih => simp [scatter, ih]

namespace Message

/-- The length of the buffer that a slot delivers. -/
def room (m : Message) : ℕ := (m.shape.1.head?).getD 0

theorem room_eq {m : Message} {b : Slice UInt8} {bs : List (Slice UInt8)}
    (h : m.buffers = b :: bs) : m.room = b.len := by
  simp [room, shape, h]

theorem shape_fill (m : Message) (r : Received) : (m.fill r).shape = m.shape := by
  simp [shape, fill, map_len_scatter]

/-- A slot holds a segment as far as its buffer does. -/
theorem received_deliver {m : Message} (h : m.buffers ≠ []) (x : List UInt8 × Option UDPAddr) :
    (m.deliver x).received = x.1.take m.room := by
  obtain ⟨b, bs, hb⟩ := List.exists_cons_of_ne_nil h
  rw [room_eq hb]
  simp only [received, deliver, hb, List.modify_zero_cons, List.head?_cons, Option.map_some,
    Option.getD_some]
  exact Slice.take_toList_copy b x.1

end Message

section Shape

variable {ms ms' : List Message} (h : ms'.map Message.shape = ms.map Message.shape)

include h

theorem length_of_map_shape : ms'.length = ms.length := by
  simpa using congrArg List.length h

theorem map_room_of_map_shape : ms'.map Message.room = ms.map Message.room := by
  have := congrArg (List.map fun x : List ℕ × ℕ => (x.1.head?).getD 0) h
  rwa [List.map_map, List.map_map] at this

theorem buffers_ne_nil_of_map_shape (hb : ∀ m ∈ ms, m.buffers ≠ []) :
    ∀ m ∈ ms', m.buffers ≠ [] := by
  intro m hm hnil
  have hmem : m.shape ∈ ms.map Message.shape := h ▸ List.mem_map_of_mem hm
  obtain ⟨m', hm', he⟩ := List.mem_map.mp hmem
  have : m'.buffers.map Slice.len = [] := by
    rw [show m'.buffers.map Slice.len = m.buffers.map Slice.len from congrArg Prod.fst he, hnil]
    rfl
  exact hb m' hm' (List.map_eq_nil_iff.mp this)

end Shape

/-- The bytes that the slots of a split hold. -/
def Split.delivered (r : Split) : List (List UInt8) := (r.msgs.take r.n).map Message.received

theorem Split.delivered_append {r : Split} (h : r.n ≤ r.msgs.length) (rest : List Message) :
    (r.append rest).delivered = r.delivered := by
  simp only [delivered, append, List.take_append_of_le_length h]

/-- The slots hold the segments, each as far as its buffer does. -/
theorem map_received_placed {first i : ℕ} {ps : List (List UInt8 × Option UDPAddr)}
    {msgs : List Message} (hlen : ps.length ≤ msgs.length) (hb : ∀ m ∈ msgs, m.buffers ≠ []) :
    ((placed first i ps msgs).take ps.length).map Message.received =
      List.zipWith List.take (msgs.map Message.room) (ps.map Prod.fst) := by
  rw [placed, take_render hlen]
  induction ps generalizing msgs with
  | nil => simp
  | cons x ps ih =>
    obtain ⟨m, msgs, rfl⟩ := List.exists_cons_of_length_pos (Nat.zero_lt_of_lt hlen)
    obtain ⟨hm, hb⟩ := List.forall_mem_cons.mp hb
    simp only [List.zipWith_cons_cons, List.map_cons, Message.received_deliver hm,
      ih (Nat.le_of_succ_le_succ hlen) hb]

/-! ## The window -/

/-- The messages after the window from `first` on was read into. -/
def readWindow (first : ℕ) (msgs : List Message) (rs : List Received) : List Message :=
  msgs.take first ++ readBatch (msgs.drop first) rs

/-- The messages in front of the window, and those of the window that were read into. -/
def filled (first : ℕ) (msgs : List Message) (rs : List Received) : List Message :=
  msgs.take first ++ List.zipWith Message.fill (msgs.drop first) rs

/-- The messages read up to the first empty one. -/
def leading (rs : List Received) : List Received := rs.takeWhile fun r => r.payload ≠ []

/-- The datagrams of the messages read, with their addresses. -/
def pieces (p : Platform) (rs : List Received) : List (List UInt8 × Option UDPAddr) :=
  rs.flatMap (Received.pieces p)

/-- The datagrams that the messages read were coalesced from. -/
def originals (p : Platform) (rs : List Received) : List (List UInt8) :=
  rs.flatMap (Received.datagrams p)

/-- No empty message is followed by a nonempty one. -/
def EmptyLast (rs : List Received) : Prop :=
  rs.Pairwise fun r r' => r.payload = [] → r'.payload = []

instance (rs : List Received) : Decidable (EmptyLast rs) :=
  inferInstanceAs (Decidable (rs.Pairwise _))

/-- The slot behind the messages read has a length left over from earlier. -/
def Stale (first : ℕ) (msgs : List Message) (rs : List Received) : Prop :=
  ∃ m, msgs[first + rs.length]? = some m ∧ m.n ≠ 0

theorem readBatch_append {ms : List Message} {rs : List Received} (h : rs.length ≤ ms.length)
    (rs' : List Received) :
    readBatch ms (rs ++ rs') =
      List.zipWith Message.fill (ms.take rs.length) rs ++ readBatch (ms.drop rs.length) rs' := by
  induction rs generalizing ms with
  | nil => simp
  | cons r rs ih =>
    obtain ⟨m, ms, rfl⟩ := List.exists_cons_of_length_pos (Nat.zero_lt_of_lt h)
    simp [readBatch, ih (Nat.le_of_succ_le_succ h)]

theorem readBatch_eq (ms : List Message) (rs : List Received) :
    readBatch ms rs = List.zipWith Message.fill ms rs ++ ms.drop rs.length := by
  induction ms generalizing rs with
  | nil => cases rs <;> rfl
  | cons m ms ih => cases rs <;> simp [readBatch, ih]

/-- The messages behind those that were read into are as they were before. -/
theorem readWindow_eq (first : ℕ) (msgs : List Message) (rs : List Received) :
    readWindow first msgs rs = filled first msgs rs ++ msgs.drop (first + rs.length) := by
  rw [readWindow, filled, readBatch_eq, List.append_assoc, List.drop_drop]

theorem take_readBatch {ms : List Message} {rs : List Received} (h : rs.length ≤ ms.length) :
    (readBatch ms rs).take rs.length = List.zipWith Message.fill (ms.take rs.length) rs := by
  have hread := readBatch_append h []
  rw [List.append_nil] at hread
  rw [hread, List.take_left' (by rw [List.length_zipWith, List.length_take]; omega)]

/-- The messages that a read filled hold what was read. -/
theorem ReadsInto.map_received_take {p : Platform} {ms : List Message} {rs : List Received}
    (h : ReadsInto p ms rs) :
    ((readBatch ms rs).take rs.length).map Message.received = rs.map Received.payload := by
  rw [take_readBatch h.length_le]
  exact map_received_fill h.fits

theorem exists_leading_append (rs : List Received) :
    ∃ rs', rs = leading rs ++ rs' ∧ (rs' = [] ∨ ∃ e es, rs' = e :: es ∧ e.payload = []) := by
  refine ⟨rs.dropWhile fun r => r.payload ≠ [], (List.takeWhile_append_dropWhile).symm, ?_⟩
  cases h : rs.dropWhile fun r => r.payload ≠ [] with
  | nil => exact .inl rfl
  | cons e es =>
    refine .inr ⟨e, es, rfl, ?_⟩
    have := List.head?_dropWhile_not (fun r : Received => decide (r.payload ≠ [])) rs
    rw [h] at this
    simpa using this

theorem payload_ne_nil_of_mem_leading {rs : List Received} :
    ∀ r ∈ leading rs, r.payload ≠ [] := by
  intro r hr
  simpa using List.mem_takeWhile_imp hr

theorem leading_eq_self {rs : List Received} (h : ∀ r ∈ rs, r.payload ≠ []) : leading rs = rs := by
  rw [leading, List.takeWhile_eq_self_iff]
  simpa using h

theorem emptyLast_of_forall_ne_nil {rs : List Received} (h : ∀ r ∈ rs, r.payload ≠ []) :
    EmptyLast rs :=
  List.pairwise_of_forall_mem_list fun r hr _ _ h0 => absurd h0 (h r hr)

/-- The leading messages carry all datagrams iff no empty message is followed by a nonempty one. -/
theorem originals_leading (p : Platform) (rs : List Received) :
    (EmptyLast rs → originals p (leading rs) = originals p rs) ∧
      (¬ EmptyLast rs → (originals p (leading rs)).length < (originals p rs).length) := by
  obtain ⟨rs', hrs, hrest⟩ := exists_leading_append rs
  have happ : originals p rs = originals p (leading rs) ++ originals p rs' := by
    conv_lhs => rw [hrs]
    exact List.flatMap_append
  have hiff : EmptyLast rs ↔ ∀ r ∈ rs', r.payload = [] := by
    have hpair : EmptyLast rs ↔ EmptyLast (leading rs ++ rs') := by rw [← hrs]
    rw [hpair, EmptyLast, List.pairwise_append]
    constructor
    · rintro ⟨-, h, -⟩
      rcases hrest with rfl | ⟨e, es, rfl, he⟩
      · simp
      · exact List.forall_mem_cons.mpr ⟨he, fun r hr => List.rel_of_pairwise_cons h hr he⟩
    · intro h
      refine ⟨?_, ?_, fun r hr _ _ h0 => absurd h0 (payload_ne_nil_of_mem_leading r hr)⟩
      · exact emptyLast_of_forall_ne_nil payload_ne_nil_of_mem_leading
      · exact List.pairwise_of_forall_mem_list fun _ _ r hr _ => h r hr
  constructor
  · intro h
    have hnil : originals p rs' = [] :=
      List.flatMap_eq_nil_iff.mpr fun r hr => if_pos (hiff.mp h r hr)
    rw [happ, hnil, List.append_nil]
  · intro h
    rw [hiff] at h
    push Not at h
    obtain ⟨r, hr, h0⟩ := h
    have hne : originals p rs' ≠ [] := fun hnil =>
      chunks_ne_nil h0 ((Received.datagrams_of_ne_nil h0).symm.trans
        (List.flatMap_eq_nil_iff.mp hnil r hr))
    have := List.length_pos_iff.mpr hne
    rw [happ, List.length_append]
    omega

/-- An empty message in front of a nonempty one ends the leading ones early. -/
theorem leading_ne_self_of_not_emptyLast {rs : List Received} (h : ¬ EmptyLast rs) :
    leading rs ≠ rs := by
  intro hall
  have hnil : ∀ r ∈ rs, r.payload ≠ [] := hall ▸ payload_ne_nil_of_mem_leading
  exact h (emptyLast_of_forall_ne_nil hnil)

/-- A read into the window from `first` on. -/
structure Reads (p : Platform) (first : ℕ) (msgs : List Message) (rs : List Received) : Prop where
  first_le : first ≤ msgs.length
  buffers : ∀ m ∈ msgs, m.buffers ≠ []
  reads : ReadsInto p (msgs.drop first) rs

section Window

variable {p : Platform} {first : ℕ} {msgs : List Message} {rs : List Received}

theorem Reads.length_leading_le (h : Reads p first msgs rs) :
    first + (leading rs).length ≤ msgs.length := by
  have h1 := h.first_le
  have h2 := h.reads.length_le
  have h3 : (leading rs).length ≤ rs.length := (List.takeWhile_sublist _).length_le
  rw [List.length_drop] at h2
  omega

theorem Reads.drop_readWindow (h : Reads p first msgs rs) :
    (readWindow first msgs rs).drop first = readBatch (msgs.drop first) rs :=
  List.drop_left' (by rw [List.length_take, min_eq_left h.first_le])

@[simp] theorem readBatch_nil (ms : List Message) : readBatch ms [] = ms := by cases ms <;> rfl

/-- The slot behind the messages read is left alone. -/
theorem Reads.getElem?_readWindow (h : Reads p first msgs rs) :
    (readWindow first msgs rs)[first + rs.length]? = msgs[first + rs.length]? := by
  have hfirst := h.first_le
  have hle := h.reads.length_le
  rw [List.length_drop] at hle
  have hlen : (filled first msgs rs).length = first + rs.length := by
    rw [filled, List.length_append, List.length_take, List.length_zipWith, List.length_drop]
    omega
  rw [readWindow_eq, List.getElem?_append_right hlen.le, hlen, Nat.sub_self, List.getElem?_drop,
    Nat.add_zero]

theorem map_shape_readBatch (ms : List Message) (rs : List Received) :
    (readBatch ms rs).map Message.shape = ms.map Message.shape := by
  induction ms generalizing rs with
  | nil => cases rs <;> rfl
  | cons m ms ih => cases rs <;> simp [readBatch, ih, Message.shape_fill]

/-- A read keeps the sizes of all buffers. -/
theorem map_shape_readWindow (first : ℕ) (msgs : List Message) (rs : List Received) :
    (readWindow first msgs rs).map Message.shape = msgs.map Message.shape := by
  rw [readWindow, List.map_append, map_shape_readBatch, ← List.map_append, List.take_append_drop]

/-- The filled messages of the leading ones are cut into their datagrams. -/
theorem forall₂_cut_fill {ws : List Message} (hf : List.Forall₂ (fun m r => r.Fits p m) ws rs)
    (h0 : ∀ r ∈ rs, r.payload ≠ []) :
    List.Forall₂ (fun m q => m.cut (getGSOSize p) = some (.ok q)) (List.zipWith Message.fill ws rs)
        (rs.map (Received.pieces p)) ∧
      ∀ m ∈ List.zipWith Message.fill ws rs, m.Splittable (getGSOSize p) := by
  induction hf with
  | nil => exact ⟨.nil, by simp⟩
  | @cons m r ws rs hmr _ ih =>
    obtain ⟨hr, hrs⟩ := List.forall_mem_cons.mp h0
    obtain ⟨hcut, hspl⟩ := ih hrs
    exact ⟨.cons (hmr.cut_fill hr) hcut, List.forall_mem_cons.mpr ⟨hmr.splittable_fill, hspl⟩⟩

/-- The window after a read: the leading messages, and what follows them. -/
theorem Reads.exists_window (h : Reads p first msgs rs) :
    ∃ fs rest, (readWindow first msgs rs).drop first = fs ++ rest ∧
      (readWindow first msgs rs).length - first = fs.length + rest.length ∧
      fs.length = (leading rs).length ∧ (∀ m ∈ fs, m.Splittable (getGSOSize p)) ∧
      List.Forall₂ (fun m q => m.cut (getGSOSize p) = some (.ok q)) fs
        ((leading rs).map (Received.pieces p)) ∧
      (leading rs ≠ rs ∨ ¬ Stale first msgs rs → ∀ m ∈ rest.head?, m.n = 0) := by
  obtain ⟨rs', hrs, hrest⟩ := exists_leading_append rs
  have hle := h.reads.length_le
  have hlen : rs.length = (leading rs).length + rs'.length := by
    conv_lhs => rw [hrs]
    exact List.length_append
  -- the read fills the leading messages first, and then those from the empty one on
  have hread : readBatch (msgs.drop first) rs =
      List.zipWith Message.fill ((msgs.drop first).take (leading rs).length) (leading rs) ++
        readBatch ((msgs.drop first).drop (leading rs).length) rs' := by
    conv_lhs => rw [hrs]
    exact readBatch_append (by omega) rs'
  have hfits : List.Forall₂ (fun m r => r.Fits p m)
      ((msgs.drop first).take (leading rs).length) (leading rs) := by
    have := List.forall₂_take (leading rs).length h.reads.fits
    rw [List.take_take, min_eq_left (by omega)] at this
    have htake : rs.take (leading rs).length = leading rs := by
      obtain ⟨l, hl⟩ : ∃ l, l = leading rs := ⟨_, rfl⟩
      rw [← hl] at hrs ⊢
      rw [hrs, List.take_left]
    rwa [htake] at this
  obtain ⟨hcut, hspl⟩ := forall₂_cut_fill hfits payload_ne_nil_of_mem_leading
  have hwindow := h.drop_readWindow.trans hread
  refine ⟨_, _, hwindow, ?_, ?_, hspl, hcut, fun hstop m hm => ?_⟩
  · rw [← List.length_drop, hwindow, List.length_append]
  · rw [List.length_zipWith, List.length_take]
    omega
  rcases hrest with rfl | ⟨e, es, rfl, he⟩
  · have hall : leading rs = rs := by
      conv_rhs => rw [hrs]
      exact (List.append_nil _).symm
    rw [readBatch_nil, hall, List.drop_drop, List.head?_drop] at hm
    by_contra h0
    exact hstop.elim (fun h => h hall) fun hns => hns ⟨m, hm, h0⟩
  · obtain ⟨m', ms, hms⟩ := List.exists_cons_of_length_pos
      (l := (msgs.drop first).drop (leading rs).length) (by
        rw [List.length_drop]
        rw [List.length_cons] at hlen
        omega)
    rw [hms] at hm
    obtain rfl : m'.fill e = m := by simpa [readBatch] using hm
    exact n_fill_of_payload_eq_nil he

/-- The number of datagrams of each message. -/
def counts (p : Platform) (rs : List Received) : List ℕ := rs.map fun r => (r.datagrams p).length

theorem map_length_pieces (rs : List Received) :
    (rs.map (Received.pieces p)).map List.length = counts p rs := by
  simp [counts, Received.pieces, Function.comp_def]

theorem length_pieces (rs : List Received) : (pieces p rs).length = (counts p rs).sum := by
  rw [pieces, List.length_flatMap, counts]
  simp [Received.pieces]

theorem map_fst_pieces (rs : List Received) : (pieces p rs).map Prod.fst = originals p rs := by
  simp [pieces, originals, List.map_flatMap, Received.pieces, Function.comp_def]

/-- The datagrams of the leading messages do not run past their messages. -/
def Fitting (p : Platform) (first : ℕ) (rs : List Received) : Prop :=
  NoOverflow first 0 (counts p (leading rs))

instance (p : Platform) (first : ℕ) (rs : List Received) : Decidable (Fitting p first rs) :=
  inferInstanceAs (Decidable (NoOverflow _ _ _))

theorem Fitting.length_pieces_le (hno : Fitting p first rs) :
    (pieces p (leading rs)).length ≤ first + (leading rs).length := by
  have := add_sum_le_of_noOverflow hno (Nat.zero_le first)
  rw [length_pieces]
  simpa [counts] using this

/-- The leading messages are split; what the loop does behind them depends on what follows. -/
theorem Reads.split_leading (h : Reads p first msgs rs) (hno : Fitting p first rs) :
    ∃ left, (0 < left → ∃ m, (readWindow first msgs rs)[first + (leading rs).length]? = some m ∧
        (leading rs ≠ rs ∨ ¬ Stale first msgs rs → m.n = 0)) ∧
      first + (leading rs).length + left = msgs.length ∧
      splitCoalescedMessages (getGSOSize p) first (readWindow first msgs rs) =
        splitFrom (getGSOSize p) left (first + (leading rs).length) (pieces p (leading rs)).length
          (placed first (first + (leading rs).length) (pieces p (leading rs))
            (readWindow first msgs rs)) := by
  obtain ⟨fs, rest, hdrop, hcount, hlen, hspl, hcut, hrest⟩ := h.exists_window
  have hb := buffers_ne_nil_of_map_shape (map_shape_readWindow first msgs rs) h.buffers
  have hno' : NoOverflow first 0 (((leading rs).map (Received.pieces p)).map List.length) := by
    rw [map_length_pieces]
    exact hno
  have hsplit := @splitFrom_append (getGSOSize p) first first [] _ hb fs rest _ hdrop hspl hcut
    le_rfl (Nat.zero_le _) hno'
  have hflat : ((leading rs).map (Received.pieces p)).flatten = pieces p (leading rs) := by
    rw [pieces, List.flatMap_def]
  rw [placed, render_self, List.nil_append, hlen, hflat] at hsplit
  refine ⟨rest.length, fun hpos => ?_, ?_, ?_⟩
  · obtain ⟨m, ms, rfl⟩ := List.exists_cons_of_length_pos hpos
    refine ⟨m, ?_, fun hs => hrest hs m rfl⟩
    rw [← List.getElem?_drop, hdrop, ← hlen, List.getElem?_append_right le_rfl]
    simp
  · have := h.first_le
    rw [length_of_map_shape (map_shape_readWindow first msgs rs)] at hcount
    omega
  · rw [splitCoalescedMessages, hcount, hlen]
    exact hsplit

/-- **Without leftovers, the slots hold the datagrams of the leading messages.** -/
theorem Reads.split_readWindow (h : Reads p first msgs rs) (hno : Fitting p first rs)
    (hs : leading rs ≠ rs ∨ ¬ Stale first msgs rs) :
    splitCoalescedMessages (getGSOSize p) first (readWindow first msgs rs) =
      some ⟨placed first (first + (leading rs).length) (pieces p (leading rs))
        (readWindow first msgs rs), (pieces p (leading rs)).length, none⟩ := by
  obtain ⟨left, hnext, -, he⟩ := h.split_leading hno
  rw [he]
  refine splitFrom_stop hno.length_pieces_le fun hpos => ?_
  obtain ⟨m, hm, h0⟩ := hnext hpos
  exact ⟨m, hm, h0 hs⟩

/-- **Datagrams that run past their message are reported.** -/
theorem Reads.split_readWindow_overflow (h : Reads p first msgs rs) (hno : ¬ Fitting p first rs) :
    ∃ r, splitCoalescedMessages (getGSOSize p) first (readWindow first msgs rs) = some r ∧
      r.err = some errSplitOverflow := by
  obtain ⟨fs, rest, hdrop, hcount, hlen, hspl, hcut, -⟩ := h.exists_window
  have hb := buffers_ne_nil_of_map_shape (map_shape_readWindow first msgs rs) h.buffers
  have hno' : ¬ NoOverflow first 0 (((leading rs).map (Received.pieces p)).map List.length) := by
    rw [map_length_pieces]
    exact hno
  have hsplit := @splitFrom_overflow (getGSOSize p) first first [] _ hb fs rest _ hdrop hspl hcut
    le_rfl (Nat.zero_le _) hno'
  rw [placed, render_self] at hsplit
  rw [splitCoalescedMessages, hcount]
  exact hsplit

/-- Without leftovers, a window that nothing was read into is left alone. -/
theorem split_readWindow_nil (hs : ¬ Stale first msgs []) :
    splitCoalescedMessages (getGSOSize p) first (readWindow first msgs []) =
      some ⟨msgs, 0, none⟩ := by
  have hstop := @splitFrom_stop (getGSOSize p) first first [] msgs (msgs.length - first)
    (Nat.zero_le _) fun hpos => by
      have hlt : first < msgs.length := by omega
      refine ⟨msgs[first], List.getElem?_eq_getElem hlt, ?_⟩
      by_contra h0
      exact hs ⟨msgs[first], List.getElem?_eq_getElem hlt, h0⟩
  rw [placed, render_self] at hstop
  rw [readWindow, readBatch_nil, List.take_append_drop, splitCoalescedMessages]
  exact hstop

/-- **With leftovers, more slots are reported**, behind the datagrams of the messages read. -/
theorem Reads.split_readWindow_stale (h : Reads p first msgs rs) (hno : Fitting p first rs)
    (hall : leading rs = rs) (hs : Stale first msgs rs) {r : Split}
    (hr : splitCoalescedMessages (getGSOSize p) first (readWindow first msgs rs) = some r)
    (herr : r.err = none) :
    (pieces p rs).length < r.n ∧ r.n ≤ msgs.length ∧
      r.msgs.take (pieces p rs).length =
        (placed first (first + rs.length) (pieces p rs) (readWindow first msgs rs)).take
          (pieces p rs).length := by
  obtain ⟨left, hnext, hlen, he⟩ := h.split_leading hno
  have hps := hno.length_pieces_le
  rw [hall] at hnext hlen he hps
  obtain ⟨m, hm, hn⟩ := hs
  have hpos : 0 < left := by
    have := (List.getElem?_eq_some_iff.mp hm).1
    omega
  have hslot : (placed first (first + rs.length) (pieces p rs)
      (readWindow first msgs rs))[first + rs.length]? = some m := by
    rw [getElem?_placed_self hps, h.getElem?_readWindow, hm]
  obtain ⟨-, hup, hframe, hmore⟩ := splitFrom_frame (he.symm.trans hr) hps
  refine ⟨hmore herr ⟨m, hslot, hn⟩ hpos, by omega, List.ext_getElem? fun k => ?_⟩
  rw [List.getElem?_take, List.getElem?_take]
  split_ifs with hk
  · exact hframe k hk
  · rfl

/-! ## What is delivered -/

theorem Reads.fitting_of_split (h : Reads p first msgs rs) {r : Split}
    (hr : splitCoalescedMessages (getGSOSize p) first (readWindow first msgs rs) = some r)
    (herr : r.err = none) : Fitting p first rs := by
  by_contra hno
  obtain ⟨r', hr', herr'⟩ := h.split_readWindow_overflow hno
  obtain rfl := Option.some.inj (hr.symm.trans hr')
  simp [herr] at herr'

theorem Reads.map_received_take (h : Reads p first msgs rs) (hno : Fitting p first rs) :
    ((placed first (first + (leading rs).length) (pieces p (leading rs))
        (readWindow first msgs rs)).take (pieces p (leading rs)).length).map Message.received =
      List.zipWith List.take (msgs.map Message.room) (originals p (leading rs)) := by
  have hshape := map_shape_readWindow first msgs rs
  have hlen : (pieces p (leading rs)).length ≤ (readWindow first msgs rs).length := by
    have := hno.length_pieces_le
    have := h.length_leading_le
    rw [length_of_map_shape hshape]
    omega
  rw [map_received_placed hlen (buffers_ne_nil_of_map_shape hshape h.buffers),
    map_room_of_map_shape hshape, map_fst_pieces]

/-- A split delivers the datagrams of the leading messages, each as far as its buffer does, and
leftovers behind them if all messages read were nonempty and the next slot has a length. -/
theorem Reads.delivered_eq (h : Reads p first msgs rs) {r : Split}
    (hr : splitCoalescedMessages (getGSOSize p) first (readWindow first msgs rs) = some r)
    (herr : r.err = none) :
    ∃ extra, r.delivered =
        List.zipWith List.take (msgs.map Message.room) (originals p (leading rs)) ++ extra ∧
      (extra = [] ↔ leading rs ≠ rs ∨ ¬ Stale first msgs rs) := by
  have hno := h.fitting_of_split hr herr
  rw [← h.map_received_take hno]
  by_cases hs : leading rs ≠ rs ∨ ¬ Stale first msgs rs
  · obtain rfl := Option.some.inj (hr.symm.trans (h.split_readWindow hno hs))
    exact ⟨[], (List.append_nil _).symm, by simp [hs]⟩
  · obtain ⟨hall, hstale⟩ := not_or.mp hs
    obtain ⟨hlt, hle, htake⟩ := h.split_readWindow_stale hno (not_not.mp hall) (not_not.mp hstale)
      hr herr
    have hlen := length_of_map_shape
      ((splitFrom_shape hr).trans (map_shape_readWindow first msgs rs))
    rw [not_not.mp hall, ← htake]
    refine ⟨((r.msgs.take r.n).drop (pieces p rs).length).map Message.received, ?_, ?_⟩
    · have hcut : r.msgs.take (pieces p rs).length =
          (r.msgs.take r.n).take (pieces p rs).length := by
        rw [List.take_take, min_eq_left hlt.le]
      rw [Split.delivered, hcut, ← List.map_append, List.take_append_drop]
    · refine iff_of_false ?_ (by simpa using not_not.mp hstale)
      rw [List.map_eq_nil_iff, List.drop_eq_nil_iff, List.length_take]
      omega

theorem Reads.length_truncated (h : Reads p first msgs rs) (hno : Fitting p first rs) :
    (List.zipWith List.take (msgs.map Message.room) (originals p (leading rs))).length =
      (originals p (leading rs)).length := by
  have h1 := hno.length_pieces_le
  have h2 := h.length_leading_le
  have h3 : (originals p (leading rs)).length = (pieces p (leading rs)).length := by
    rw [← map_fst_pieces, List.length_map]
  rw [List.length_zipWith, List.length_map]
  omega

theorem Reads.length_originals_le (h : Reads p first msgs rs) (hno : Fitting p first rs) :
    (originals p (leading rs)).length ≤ (msgs.map Message.room).length := by
  rw [← h.length_truncated hno, List.length_zipWith]
  exact min_le_left _ _

/-- **A successful split delivers exactly the datagrams read** iff each of them fits its slot, no
empty message is followed by a nonempty one, and there are no leftovers. -/
theorem Reads.delivered_eq_iff (h : Reads p first msgs rs) {r : Split}
    (hr : splitCoalescedMessages (getGSOSize p) first (readWindow first msgs rs) = some r)
    (herr : r.err = none) :
    r.delivered = originals p rs ↔ Held (msgs.map Message.room) (originals p rs) ∧ EmptyLast rs ∧
      (leading rs ≠ rs ∨ ¬ Stale first msgs rs) := by
  have hno := h.fitting_of_split hr herr
  have hlen := h.length_truncated hno
  obtain ⟨extra, hdel, hextra⟩ := h.delivered_eq hr herr
  obtain ⟨hlast, hlost⟩ := originals_leading p rs
  have hheld := h.length_originals_le hno
  rw [hdel, ← hextra]
  constructor
  · intro he
    have hempty : EmptyLast rs := by
      by_contra hne
      have hlt := hlost hne
      have hsome : extra = [] := hextra.mpr (.inl (leading_ne_self_of_not_emptyLast hne))
      rw [← he, hsome, List.append_nil, hlen] at hlt
      exact lt_irrefl _ hlt
    rw [hlast hempty] at he hlen hheld
    have hnil : extra = [] := by
      have := congrArg List.length he
      rw [List.length_append, hlen] at this
      exact List.length_eq_zero_iff.mp (by omega)
    rw [hnil, List.append_nil] at he
    exact ⟨(zipWith_take_eq_iff hheld).mp he, hempty, hnil⟩
  · rintro ⟨hfit, hempty, rfl⟩
    rw [hlast hempty] at hheld ⊢
    rw [List.append_nil, (zipWith_take_eq_iff hheld).mpr hfit]

/-- **A successful split drops no datagram** iff no empty message is followed by a nonempty one. -/
theorem Reads.sublist_delivered_iff (h : Reads p first msgs rs) {r : Split}
    (hr : splitCoalescedMessages (getGSOSize p) first (readWindow first msgs rs) = some r)
    (herr : r.err = none) (hfit : Held (msgs.map Message.room) (originals p rs)) :
    (originals p rs).Sublist r.delivered ↔ EmptyLast rs := by
  have hno := h.fitting_of_split hr herr
  have hlen := h.length_truncated hno
  have hheld := h.length_originals_le hno
  obtain ⟨extra, hdel, hextra⟩ := h.delivered_eq hr herr
  obtain ⟨hlast, hlost⟩ := originals_leading p rs
  rw [hdel]
  constructor
  · intro hsub
    by_contra hne
    have hlt := hlost hne
    have hnil : extra = [] := hextra.mpr (.inl (leading_ne_self_of_not_emptyLast hne))
    have := hsub.length_le
    rw [hnil, List.append_nil, hlen] at this
    omega
  · intro hempty
    rw [hlast hempty] at hheld ⊢
    rw [(zipWith_take_eq_iff hheld).mpr hfit]
    exact List.sublist_append_left _ _

end Window

end BatchUDP
