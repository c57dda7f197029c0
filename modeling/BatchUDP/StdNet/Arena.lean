import BatchUDP.Go.Arena
import BatchUDP.StdNet.Bind

/-!
# Coalescing datagrams that share an array

The caller of `Send` may pass datagrams that are slices of one array, with capacities that extend
over one another. Coalescing appends to the first datagram of a group, within its capacity, and so
it may overwrite datagrams that come later. This module has the coalescing loop on slices of one
array; apart from what the slices show it is the loop on slices that own their arrays.

## Main definitions

* `ArenaMessage`, `ArenaCoalescing`: a message with slices of the array, and the state of the loop
* `Arena.coalesceMessages`: the coalescing loop, with the array
* `blank v`: the slice with the sizes of `v`, without what it shows
* `Arena.groupMoves grp`: what coalescing a group moves
* `Arena.InPlace`: a datagram joins a group without overwriting datagrams

## Main results

* `Arena.forget_coalesceMessages`: without what slices show, the loop is that of slices with arrays
  of their own
* `Arena.exists_coalesceMessages`: the array after the loop
* `Arena.keepsDatagrams_iff`: the datagrams are left as they were iff all are in place
-/

namespace BatchUDP

open Go Unix Framing

/-- A message whose buffers are slices of the array. The control data is not. -/
structure ArenaMessage where
  buffers : List View
  oob : Slice UInt8
  addr : Option UDPAddr
  deriving DecidableEq, Repr

/-- The state of the coalescing loop: that of `Coalescing`, and the array. -/
structure ArenaCoalescing where
  base : ℤ
  gsoSize : ℕ
  dgramCnt : ℕ
  endBatch : Bool
  msgs : List ArenaMessage
  mem : List UInt8

/-- The slice with the sizes of a view, without what it shows. -/
def blank (v : View) : Slice UInt8 := ⟨List.replicate v.cap 0, v.len, by simpa using v.len_le⟩

@[simp] theorem len_blank (v : View) : (blank v).len = v.len := rfl

@[simp] theorem cap_blank (v : View) : (blank v).cap = v.cap := List.length_replicate

theorem toList_blank (v : View) : (blank v).toList = List.replicate v.len 0 := by
  rw [Slice.toList, blank, List.take_replicate, min_eq_left v.len_le]

theorem eq_blank {s : Slice UInt8} {v : View} (harr : s.arr = List.replicate v.cap 0)
    (hlen : s.len = v.len) : s = blank v := by
  obtain ⟨arr, len, hle⟩ := s
  obtain rfl : arr = List.replicate v.cap 0 := harr
  obtain rfl : len = v.len := hlen
  rfl

/-- A message without what its buffers show. -/
def ArenaMessage.forget (m : ArenaMessage) : Message := ⟨m.buffers.map blank, m.oob, m.addr, 0, 0⟩

/-- The state of the loop without what slices show. -/
def ArenaCoalescing.forget (st : ArenaCoalescing) : Coalescing :=
  ⟨st.base, st.gsoSize, st.dgramCnt, st.endBatch, st.msgs.map ArenaMessage.forget⟩

namespace Arena

/-! ## The loop -/

section Loop

variable (p : Platform) (ua : UDPAddr) (ep : StdNetEndpoint)

/-- The index expression `msgs[i]`, which panics out of range. -/
def msgAt (msgs : List ArenaMessage) (i : ℤ) : Option ArenaMessage :=
  if 0 ≤ i then msgs[i.toNat]? else none

/-- The test whether `buf` joins the message being built. -/
def mayJoin (i : ℕ) (buf : View) (st : ArenaCoalescing) : Option Bool :=
  if i = 0 then some false
  else do
    let m ← msgAt st.msgs st.base
    let b ← m.buffers.head?
    some (decide (buf.len + b.len ≤ StdNetBind.maxPayloadLen ep.addr ∧ buf.len ≤ st.gsoSize ∧
      buf.len ≤ b.cap - b.len ∧ st.dgramCnt < udpSegmentMaxDatagrams ∧ st.endBatch = false))

/-- `buf` is appended to the buffer of the message being built. -/
def joinBase (last i : ℕ) (buf : View) (st : ArenaCoalescing) : Option ArenaCoalescing := do
  let m ← msgAt st.msgs st.base
  let b ← m.buffers.head?
  let m := { m with
    buffers := m.buffers.set 0 (b.append buf st.mem).1
    oob := if i = last then setGSOSize p m.oob (st.gsoSize % 2 ^ 16) else m.oob }
  some { st with
    dgramCnt := st.dgramCnt + 1
    endBatch := if buf.len < st.gsoSize then true else st.endBatch
    msgs := st.msgs.set st.base.toNat m
    mem := (b.append buf st.mem).2 }

/-- A message of several datagrams receives its segment size before the next is started. -/
def closeBase (st : ArenaCoalescing) : Option (List ArenaMessage) :=
  if 1 < st.dgramCnt then do
    let m ← msgAt st.msgs st.base
    some (st.msgs.set st.base.toNat { m with oob := setGSOSize p m.oob (st.gsoSize % 2 ^ 16) })
  else some st.msgs

/-- `buf` starts the next message. -/
def startNext (buf : View) (st : ArenaCoalescing) : Option ArenaCoalescing := do
  let msgs ← closeBase p st
  let m ← msgAt msgs (st.base + 1)
  if m.buffers = [] then none
  else
    some {
      base := st.base + 1
      gsoSize := buf.len
      dgramCnt := 1
      endBatch := false
      msgs := msgs.set (st.base + 1).toNat
        { buffers := m.buffers.set 0 buf, oob := setSrcControl p m.oob ep, addr := some ua }
      mem := st.mem }

/-- One round of the loop. -/
def step (last i : ℕ) (buf : View) (st : ArenaCoalescing) : Option ArenaCoalescing := do
  if ← mayJoin ep i buf st then joinBase p last i buf st else startNext p ua ep buf st

/-- The loop over the datagrams from index `i` on. -/
def loop (last : ℕ) : ℕ → List View → ArenaCoalescing → Option ArenaCoalescing
  | _, [], st => some st
  | i, buf :: bufs, st => do
    let st ← step p ua ep last i buf st
    loop last (i + 1) bufs st

/-- `coalesceMessages` on slices of an array: the messages, the number of them that are to be sent,
and the array afterwards. -/
def coalesceMessages (bufs : List View) (msgs : List ArenaMessage) (mem : List UInt8) :
    Option (List ArenaMessage × ℕ × List UInt8) := do
  let st ← loop p ua ep (bufs.length - 1) 0 bufs ⟨-1, 0, 0, false, msgs, mem⟩
  some (st.msgs, (st.base + 1).toNat, st.mem)

end Loop

/-! ## Without what slices show -/

section Forget

variable {p : Platform} {ua : UDPAddr} {ep : StdNetEndpoint}

/-- Appending treats sizes as it does for slices with arrays of their own. -/
theorem blank_append (v w : View) (mem : List UInt8) :
    blank (v.append w mem).1 = (blank v).append (blank w).toList := by
  have hlen : (blank w).toList.length = w.len := Slice.length_toList _
  have hcap : (blank v).arr.length = v.cap := List.length_replicate
  unfold View.append Slice.append
  by_cases h : v.len + w.len ≤ v.cap
  · rw [dif_pos h, dif_pos (by rw [hlen, hcap]; exact h)]
    refine (eq_blank ?_ (congrArg (v.len + ·) hlen)).symm
    show patch v.len (blank w).toList (List.replicate v.cap 0) = List.replicate v.cap 0
    rw [toList_blank, patch, List.take_replicate, List.drop_replicate, List.length_replicate,
      List.replicate_append_replicate, List.replicate_append_replicate]
    congr 1
    omega
  · rw [dif_neg h, dif_neg (by rw [hlen, hcap]; exact h)]
    refine (eq_blank ?_ ?_).symm
    · show (blank v).toList ++ (blank w).toList = List.replicate (v.len + w.len) 0
      rw [toList_blank, toList_blank, List.replicate_append_replicate]
    · show ((blank v).toList ++ (blank w).toList).length = v.len + w.len
      rw [List.length_append, hlen, Slice.length_toList, len_blank]

theorem msgAt_forget (msgs : List ArenaMessage) (i : ℤ) :
    BatchUDP.msgAt (msgs.map ArenaMessage.forget) i = (msgAt msgs i).map ArenaMessage.forget := by
  unfold BatchUDP.msgAt msgAt
  split_ifs
  · exact List.getElem?_map
  · rfl

theorem mayJoin_forget (p : Platform) (ua : UDPAddr) (ep : StdNetEndpoint) (i : ℕ) (buf : View)
    (st : ArenaCoalescing) :
    (StdNetBind.coalescer p ua ep).mayJoin i (blank buf) st.forget = mayJoin ep i buf st := by
  unfold Coalescer.mayJoin mayJoin
  split_ifs with hi
  · rfl
  have hval : BatchUDP.msgAt st.forget.msgs st.forget.base =
      (msgAt st.msgs st.base).map ArenaMessage.forget := msgAt_forget st.msgs st.base
  rw [hval]
  cases msgAt st.msgs st.base with
  | none => rfl
  | some m =>
    obtain ⟨buffers, oob, addr⟩ := m
    cases buffers with
    | nil => rfl
    | cons b bs =>
      have hroom : (StdNetBind.coalescer p ua ep).room ((b :: bs).map blank) (blank buf) =
          decide (buf.len ≤ b.cap - b.len) := by
        simp [StdNetBind.coalescer]
      simp only [Option.map_some, Option.bind_eq_bind, Option.bind_some, ArenaMessage.forget, hroom,
        List.head?_cons]
      refine congrArg some ?_
      rw [Bool.eq_iff_iff, Bool.and_eq_true, decide_eq_true_iff, decide_eq_true_iff,
        decide_eq_true_iff]
      exact ⟨fun h => ⟨h.1.1, h.1.2.1, h.2, h.1.2.2⟩, fun h => ⟨⟨h.1, h.2.1, h.2.2.2⟩, h.2.2.1⟩⟩

/-- A message that the test was made on. -/
theorem exists_of_mayJoin {i : ℕ} {buf : View} {st : ArenaCoalescing}
    (h : mayJoin ep i buf st = some true) :
    ∃ m b, msgAt st.msgs st.base = some m ∧ m.buffers.head? = some b := by
  unfold mayJoin at h
  split_ifs at h with hi
  · cases h
  obtain ⟨m, hm, h⟩ := Option.bind_eq_some_iff.mp h
  obtain ⟨b, hb, -⟩ := Option.bind_eq_some_iff.mp h
  exact ⟨m, b, hm, hb⟩

theorem joinBase_forget (p : Platform) (ua : UDPAddr) (ep : StdNetEndpoint) (last i : ℕ)
    (buf : View) {st : ArenaCoalescing} {m : ArenaMessage} {b : View}
    (hm : msgAt st.msgs st.base = some m) (hb : m.buffers.head? = some b) :
    (StdNetBind.coalescer p ua ep).joinBase last i (blank buf) st.forget =
      (joinBase p last i buf st).map ArenaCoalescing.forget := by
  obtain ⟨bs, hbs⟩ := List.head?_eq_some_iff.mp hb
  have hval : BatchUDP.msgAt st.forget.msgs st.forget.base = some m.forget := by
    show BatchUDP.msgAt (st.msgs.map ArenaMessage.forget) st.base = _
    rw [msgAt_forget, hm]
    rfl
  simp only [Coalescer.joinBase, hval, joinBase, hm, hb, Option.bind_eq_bind, Option.bind_some,
    Option.map_some, Option.some.injEq]
  simp only [ArenaCoalescing.forget, List.map_set, ArenaMessage.forget, hbs, List.set_cons_zero,
    List.map_cons, blank_append, len_blank]
  rfl

theorem closeBase_forget (p : Platform) (ua : UDPAddr) (ep : StdNetEndpoint)
    (st : ArenaCoalescing) :
    (StdNetBind.coalescer p ua ep).closeBase st.forget =
      (closeBase p st).map (List.map ArenaMessage.forget) := by
  unfold Coalescer.closeBase closeBase
  show (if 1 < st.dgramCnt then _ else _) = _
  split_ifs with hc
  · simp only [ArenaCoalescing.forget, msgAt_forget]
    cases msgAt st.msgs st.base with
    | none => rfl
    | some m =>
      simp only [Option.map_some, Option.bind_eq_bind, Option.bind_some, List.map_set]
      rfl
  · rfl

theorem startNext_forget (p : Platform) (ua : UDPAddr) (ep : StdNetEndpoint) (buf : View)
    (st : ArenaCoalescing) :
    (StdNetBind.coalescer p ua ep).startNext (blank buf) st.forget =
      (startNext p ua ep buf st).map ArenaCoalescing.forget := by
  unfold Coalescer.startNext startNext
  rw [closeBase_forget]
  cases closeBase p st with
  | none => rfl
  | some msgs =>
    simp only [Option.map_some, Option.bind_eq_bind, Option.bind_some, ArenaCoalescing.forget,
      msgAt_forget]
    cases msgAt msgs (st.base + 1) with
    | none => rfl
    | some m =>
      simp only [Option.map_some, Option.bind_some]
      by_cases hb : m.buffers = []
      · rw [if_pos hb, if_pos (by simp [ArenaMessage.forget, hb])]
        rfl
      · rw [if_neg hb, if_neg (by simpa [ArenaMessage.forget] using hb)]
        simp only [Option.map_some, Option.some.injEq, ArenaCoalescing.forget, List.map_set,
          ArenaMessage.forget, Coalescer.started]
        rfl

theorem step_forget (p : Platform) (ua : UDPAddr) (ep : StdNetEndpoint) (last i : ℕ) (buf : View)
    (st : ArenaCoalescing) :
    (StdNetBind.coalescer p ua ep).step last i (blank buf) st.forget =
      (step p ua ep last i buf st).map ArenaCoalescing.forget := by
  unfold Coalescer.step step
  rw [mayJoin_forget]
  cases hj : mayJoin ep i buf st with
  | none => rfl
  | some j =>
    cases j with
    | false => exact startNext_forget p ua ep buf st
    | true =>
      obtain ⟨m, b, hm, hb⟩ := exists_of_mayJoin hj
      exact joinBase_forget p ua ep last i buf hm hb

theorem loop_forget (p : Platform) (ua : UDPAddr) (ep : StdNetEndpoint) (last i : ℕ)
    (bufs : List View) (st : ArenaCoalescing) :
    (StdNetBind.coalescer p ua ep).loop last i (bufs.map blank) st.forget =
      (loop p ua ep last i bufs st).map ArenaCoalescing.forget := by
  induction bufs generalizing i st with
  | nil => rfl
  | cons buf bufs ih =>
    rw [List.map_cons, Coalescer.loop, loop, step_forget]
    cases step p ua ep last i buf st with
    | none => rfl
    | some st' => exact ih (i + 1) st'

/-- **Without what slices show, the loop is that of slices with arrays of their own.** -/
theorem forget_coalesceMessages (p : Platform) (ua : UDPAddr) (ep : StdNetEndpoint)
    (bufs : List View) (msgs : List ArenaMessage) (mem : List UInt8) :
    (StdNetBind.coalescer p ua ep).coalesce (bufs.map blank) (msgs.map ArenaMessage.forget) =
      (coalesceMessages p ua ep bufs msgs mem).map fun r =>
        (r.1.map ArenaMessage.forget, r.2.1) := by
  have h := loop_forget p ua ep (bufs.length - 1) 0 bufs ⟨-1, 0, 0, false, msgs, mem⟩
  unfold Coalescer.coalesce coalesceMessages
  rw [List.length_map]
  rw [ArenaCoalescing.forget] at h
  rw [h]
  cases loop p ua ep (bufs.length - 1) 0 bufs ⟨-1, 0, 0, false, msgs, mem⟩ with
  | none => rfl
  | some st => rfl

end Forget

/-! ## The array after the loop -/

/-- The offset of the first datagram of a group. -/
def headOff (grp : List View) : ℕ := (grp.head?.map View.off).getD 0

/-- The number of bytes of a group. -/
def totalLen (grp : List View) : ℕ := (grp.map View.len).sum

/-- The test of the loop on the group being built, which depends on sizes alone. -/
def joins (dst : Addr) (cur : List View) (buf : View) : Bool :=
  Coalescer.joins (StdNetBind.maxPayloadLen dst) StdNetBind.room (cur.map blank) (blank buf)

/-- Where a datagram goes that joins the group `cur`: behind the datagrams that joined before. -/
def joinMove (cur : List View) (buf : View) : Move := ⟨headOff cur + totalLen cur, buf.off, buf.len⟩

/-- What coalescing the datagrams `rest` behind the group `cur` moves. -/
def movesFrom : List View → List View → List Move
  | _, [] => []
  | cur, buf :: rest => joinMove cur buf :: movesFrom (cur ++ [buf]) rest

/-- What coalescing a group moves: every datagram but the first. -/
def groupMoves : List View → List Move
  | [] => []
  | v :: grp => movesFrom [v] grp

section Moves

variable {cur grp rest : List View} {buf : View}

theorem headOff_append (h : cur ≠ []) (vs : List View) : headOff (cur ++ vs) = headOff cur := by
  cases cur with
  | nil => exact absurd rfl h
  | cons v cur => rfl

theorem totalLen_append (cur vs : List View) :
    totalLen (cur ++ vs) = totalLen cur + totalLen vs := by
  simp [totalLen]

theorem totalLen_map_blank (grp : List View) :
    Coalescer.totalLen (grp.map blank) = totalLen grp := by
  simp [Coalescer.totalLen, totalLen, Function.comp_def]

theorem movesFrom_append (cur rest : List View) (buf : View) :
    movesFrom cur (rest ++ [buf]) = movesFrom cur rest ++ [joinMove (cur ++ rest) buf] := by
  induction rest generalizing cur with
  | nil => simp [movesFrom]
  | cons w rest ih => simp [movesFrom, ih]

theorem groupMoves_snoc (h : cur ≠ []) (buf : View) :
    groupMoves (cur ++ [buf]) = groupMoves cur ++ [joinMove cur buf] := by
  obtain ⟨v, cur, rfl⟩ := List.exists_cons_of_ne_nil h
  exact movesFrom_append [v] cur buf

theorem mem_movesFrom {m : Move} :
    m ∈ movesFrom cur rest ↔
      ∃ us buf vs, rest = us ++ buf :: vs ∧ m = joinMove (cur ++ us) buf := by
  induction rest generalizing cur with
  | nil => simp [movesFrom]
  | cons w rest ih =>
    rw [movesFrom, List.mem_cons, ih]
    constructor
    · rintro (rfl | ⟨us, buf, vs, rfl, rfl⟩)
      · exact ⟨[], w, rest, rfl, by rw [List.append_nil]⟩
      · exact ⟨w :: us, buf, vs, rfl, by rw [List.append_assoc, List.singleton_append]⟩
    · rintro ⟨us, buf, vs, he, rfl⟩
      cases us with
      | nil =>
        obtain ⟨rfl, rfl⟩ := List.cons.inj he
        exact .inl (by rw [List.append_nil])
      | cons u us =>
        obtain ⟨rfl, rfl⟩ := List.cons.inj he
        exact .inr ⟨us, buf, vs, rfl, by rw [List.append_assoc, List.singleton_append]⟩

/-- Every datagram behind the first is moved behind those before it. -/
theorem mem_groupMoves {m : Move} :
    m ∈ groupMoves grp ↔
      ∃ cur buf rest, grp = cur ++ buf :: rest ∧ cur ≠ [] ∧ m = joinMove cur buf := by
  cases grp with
  | nil => simp [groupMoves]
  | cons v grp =>
    rw [groupMoves, mem_movesFrom]
    constructor
    · rintro ⟨us, buf, vs, rfl, rfl⟩
      exact ⟨v :: us, buf, vs, rfl, by simp, rfl⟩
    · rintro ⟨cur, buf, rest, he, hne, rfl⟩
      obtain ⟨u, us, rfl⟩ := List.exists_cons_of_ne_nil hne
      obtain ⟨rfl, rfl⟩ := List.cons.inj he
      exact ⟨us, buf, rest, rfl, rfl⟩

/-- A group fits into the capacity of its first datagram. -/
theorem totalLen_le_headCap (dst : Addr) (bufs : List View) :
    ∀ grp ∈ groups (joins dst) bufs,
      grp ≠ [] ∧ totalLen grp ≤ StdNetBind.headCap (grp.map blank) := by
  refine forall_groups (fun v => ⟨by simp, ?_⟩) (fun cur v hcur hj => ⟨by simp, ?_⟩) bufs
  · simpa [totalLen, StdNetBind.headCap] using v.len_le
  · obtain ⟨u, us, rfl⟩ := List.exists_cons_of_ne_nil hcur.1
    obtain ⟨-, hroom⟩ := Coalescer.joins_iff.mp hj
    rw [StdNetBind.room, decide_eq_true_iff, totalLen_map_blank, len_blank] at hroom
    have hle : totalLen (u :: us) ≤ u.cap := by simpa [StdNetBind.headCap] using hcur.2
    have hroom' : v.len ≤ u.cap - totalLen (u :: us) := by simpa [StdNetBind.headCap] using hroom
    rw [totalLen_append, List.map_append, List.map_cons, List.cons_append]
    simp only [StdNetBind.headCap, List.head?_cons, Option.map_some, Option.getD_some, cap_blank]
    simp only [totalLen, List.map_cons, List.map_nil, List.sum_cons, List.sum_nil] at hle hroom' ⊢
    omega

end Moves

/-- **The invariant of the loop** before the datagrams `rest`: that of the loop on slices with
arrays of their own, where the buffer being extended lies, and what was moved. -/
structure Inv (p : Platform) (ua : UDPAddr) (ep : StdNetEndpoint) (mem : List UInt8)
    (rest : List View) (gs : List (List View)) (cur : List View) (closed : List Message)
    (m : Message) (tail : List Message) (st : ArenaCoalescing) : Prop where
  forget : Coalescer.Inv (StdNetBind.coalescer p ua ep) StdNetBind.Holds (fun _ => True)
    (rest.map blank) (gs.map (List.map blank)) (cur.map blank) closed m tail st.forget
  off : ∃ vm b, msgAt st.msgs st.base = some vm ∧ vm.buffers.head? = some b ∧ b.off = headOff cur
  mem : st.mem = runMoves ((gs ++ [cur]).flatMap groupMoves) mem

section Loop

variable {p : Platform} {ua : UDPAddr} {ep : StdNetEndpoint} {mem : List UInt8} {buf : View}
  {rest : List View} {gs : List (List View)} {cur : List View} {closed : List Message} {m : Message}
  {tail : List Message} {st : ArenaCoalescing} {last i : ℕ}

theorem Inv.cur_ne_nil (h : Inv p ua ep mem rest gs cur closed m tail st) : cur ≠ [] := by
  rintro rfl
  exact h.forget.ne_nil rfl

/-- The buffer that the loop extends. -/
theorem Inv.exists_base (h : Inv p ua ep mem rest gs cur closed m tail st) :
    ∃ vm b, msgAt st.msgs st.base = some vm ∧ vm.buffers.head? = some b ∧ b.off = headOff cur ∧
      b.len = totalLen cur ∧ b.cap = StdNetBind.headCap (cur.map blank) := by
  obtain ⟨vm, b, hvm, hb, hoff⟩ := h.off
  have hm : vm.forget = m := by
    have hat : BatchUDP.msgAt (st.msgs.map ArenaMessage.forget) st.base = some m := h.forget.msgAt
    rw [msgAt_forget, hvm] at hat
    exact Option.some.inj hat
  obtain ⟨s, hs, hlist, hcap⟩ := h.forget.holds
  have hblank : blank b = s := by
    have hhead : (vm.forget.buffers).head? = some (blank b) := by
      rw [ArenaMessage.forget, List.head?_map, hb]
      rfl
    rw [hm, hs] at hhead
    exact (Option.some.inj hhead).symm
  subst hblank
  refine ⟨vm, b, hvm, hb, hoff, ?_, by rwa [cap_blank] at hcap⟩
  have hlen := StdNetBind.length_flatMap_toList (cur.map blank)
  rw [← hlist, Slice.length_toList, len_blank, totalLen_map_blank] at hlen
  exact hlen

theorem msgAt_set {msgs : List ArenaMessage} {i : ℤ} {vm : ArenaMessage}
    (h : msgAt msgs i = some vm) (vm' : ArenaMessage) :
    msgAt (msgs.set i.toNat vm') i = some vm' := by
  unfold msgAt at h ⊢
  split_ifs at h ⊢ with hi
  obtain ⟨hlt, -⟩ := List.getElem?_eq_some_iff.mp h
  exact List.getElem?_set_self hlt

/-- Joining keeps the invariant: the datagram is moved behind the group. -/
theorem Inv.join (h : Inv p ua ep mem (buf :: rest) gs cur closed m tail st) (hi : i ≠ 0)
    (hl : i + rest.length = last) (hj : joins ep.addr cur buf = true) :
    ∃ m' st', step p ua ep last i buf st = some st' ∧
      Inv p ua ep mem rest gs (cur ++ [buf]) closed m' tail st' := by
  have hM := StdNetBind.models_coalescer p ua ep
  obtain ⟨vm, b, hvm, hb, hoff, hlen, hcap⟩ := h.exists_base
  obtain ⟨m', stv, hs, hinv⟩ := h.forget.joinBase hM (by simpa using hl) hj
  rw [joinBase_forget p ua ep last i buf hvm hb] at hs
  obtain ⟨st', hst, rfl⟩ := Option.map_eq_some_iff.mp hs
  have hmay : mayJoin ep i buf st = some true := by
    rw [← mayJoin_forget p ua, h.forget.mayJoin hM hi]
    exact congrArg some hj
  have hfit : b.len + buf.len ≤ b.cap := by
    obtain ⟨-, hroom⟩ := Coalescer.joins_iff.mp hj
    rw [StdNetBind.room, decide_eq_true_iff, totalLen_map_blank, len_blank] at hroom
    have := b.len_le
    omega
  have happ : b.append buf st.mem =
      (⟨b.off, b.len + buf.len, b.cap, hfit⟩, (joinMove cur buf).run st.mem) := by
    rw [View.append, dif_pos hfit]
    refine congrArg (Prod.mk _) ?_
    rw [joinMove, ← hoff, ← hlen]
    rfl
  have hstep : step p ua ep last i buf st = some st' := by
    rw [step, hmay]
    exact hst
  simp only [joinBase, hvm, hb, Option.bind_eq_bind, Option.bind_some, happ] at hst
  obtain rfl := Option.some.inj hst
  refine ⟨m', _, hstep, by simpa using hinv, ?_, ?_⟩
  · obtain ⟨bs, hbs⟩ := List.head?_eq_some_iff.mp hb
    refine ⟨_, ⟨b.off, b.len + buf.len, b.cap, hfit⟩, msgAt_set hvm _, ?_, ?_⟩
    · rw [hbs]
      rfl
    · rw [headOff_append h.cur_ne_nil]
      exact hoff
  · show (joinMove cur buf).run st.mem = _
    rw [h.mem, List.flatMap_append, List.flatMap_append, List.flatMap_singleton,
      List.flatMap_singleton, groupMoves_snoc h.cur_ne_nil, ← List.append_assoc,
      runMoves_append _ [joinMove cur buf]]
    rfl

/-- What starting a message does besides. -/
theorem exists_of_startNext {st' : ArenaCoalescing} (h : startNext p ua ep buf st = some st') :
    st'.mem = st.mem ∧
      ∃ vm, msgAt st'.msgs st'.base = some vm ∧ vm.buffers.head? = some buf := by
  obtain ⟨msgs, -, h⟩ := Option.bind_eq_some_iff.mp h
  obtain ⟨vm, hvm, h⟩ := Option.bind_eq_some_iff.mp h
  split_ifs at h with hb
  obtain rfl := Option.some.inj h
  refine ⟨rfl, _, msgAt_set hvm _, ?_⟩
  obtain ⟨b, bs, hbs⟩ := List.exists_cons_of_ne_nil hb
  rw [hbs]
  rfl

variable (rest) in
/-- Starting a message establishes the invariant, with the groups before it closed. -/
theorem inv_startNext
    (hc : (StdNetBind.coalescer p ua ep).closeBase st.forget = some (closed ++ m :: tail))
    (hb : st.base + 1 = closed.length)
    (hg : List.Forall₂ ((StdNetBind.coalescer p ua ep).Closed StdNetBind.Holds fun _ => True)
      (gs.map (List.map blank)) closed)
    (hm : m.buffers.length = 1) (hmem : st.mem = runMoves (gs.flatMap groupMoves) mem) :
    ∃ m' st', startNext p ua ep buf st = some st' ∧
      Inv p ua ep mem rest gs [buf] closed m' tail st' := by
  obtain ⟨stv, hs, hinv⟩ : ∃ stv,
      (StdNetBind.coalescer p ua ep).startNext (blank buf) st.forget = some stv ∧
        Coalescer.Inv (StdNetBind.coalescer p ua ep) StdNetBind.Holds (fun _ => True)
          (rest.map blank) (gs.map (List.map blank)) [blank buf] closed
          ((StdNetBind.coalescer p ua ep).started (blank buf) m) tail stv :=
    Coalescer.inv_startNext st.forget (StdNetBind.models_coalescer p ua ep) hc hb hg hm trivial
  rw [startNext_forget] at hs
  obtain ⟨st', hst, rfl⟩ := Option.map_eq_some_iff.mp hs
  obtain ⟨hmem', vm, hvm, hbuf⟩ := exists_of_startNext hst
  refine ⟨_, st', hst, hinv, ⟨vm, buf, hvm, hbuf, rfl⟩, ?_⟩
  rw [hmem', hmem, List.flatMap_append, List.flatMap_singleton]
  exact (congrArg (runMoves · mem) (List.append_nil _)).symm

/-- **The loop behind the first datagram** moves what its groups move. -/
theorem exists_loop (h : Inv p ua ep mem rest gs cur closed m tail st) (hi : i ≠ 0)
    (hl : i + rest.length = last + 1) (ht : ∀ t ∈ tail, t.buffers.length = 1)
    (hlen : rest.length ≤ tail.length) :
    ∃ st', loop p ua ep last i rest st = some st' ∧
      st'.mem = runMoves ((gs ++ groupsFrom (joins ep.addr) cur rest).flatMap groupMoves) mem := by
  induction rest generalizing i gs cur closed m tail st with
  | nil => exact ⟨st, rfl, h.mem⟩
  | cons buf rest ih =>
    simp only [List.length_cons] at hl hlen
    have hl' : i + rest.length = last := by omega
    by_cases hj : joins ep.addr cur buf = true
    · obtain ⟨m', st', hs, hinv⟩ := h.join hi hl' hj
      obtain ⟨st'', hloop, hmem⟩ := ih hinv (Nat.succ_ne_zero i) (by omega) ht (by omega)
      refine ⟨st'', ?_, ?_⟩
      · rw [loop, hs]
        exact hloop
      · rw [groupsFrom_of_joins hj]
        exact hmem
    · obtain ⟨t, tail, rfl⟩ := List.exists_cons_of_length_pos (Nat.zero_lt_of_lt hlen)
      obtain ⟨ht1, ht⟩ := List.forall_mem_cons.mp ht
      obtain ⟨m', hm', hc⟩ := h.forget.closeBase
      obtain ⟨m'', st', hs, hinv⟩ := @inv_startNext p ua ep mem buf rest (gs ++ [cur])
        (closed ++ [m']) t tail st (by simpa using hm')
        (by
          have hbase : st.base = closed.length := h.forget.base
          rw [hbase]
          simp)
        (by
          rw [List.map_append]
          exact List.rel_append h.forget.closed (.cons hc .nil))
        ht1 h.mem
      have hmay : mayJoin ep i buf st = some false := by
        rw [← mayJoin_forget p ua,
          h.forget.mayJoin (StdNetBind.models_coalescer p ua ep) hi]
        exact congrArg some (Bool.eq_false_iff.mpr hj)
      obtain ⟨st'', hloop, hmem⟩ := ih hinv (Nat.succ_ne_zero i) (by omega) ht
        (by simpa using hlen)
      refine ⟨st'', ?_, ?_⟩
      · rw [loop, step, hmay]
        simp only [Option.bind_eq_bind, Option.bind_some, hs]
        exact hloop
      · rw [hmem, groupsFrom_of_not_joins hj, List.append_assoc]
        rfl

variable (p ua ep mem) in
/-- **The array after the loop**: every datagram that joined a group was moved behind those before
it. -/
theorem exists_coalesceMessages {bufs : List View} {msgs : List ArenaMessage}
    (hm : ∀ m ∈ msgs, m.buffers.length = 1) (hl : bufs.length ≤ msgs.length) :
    ∃ msgs' n, coalesceMessages p ua ep bufs msgs mem =
      some (msgs', n, runMoves ((groups (joins ep.addr) bufs).flatMap groupMoves) mem) := by
  cases bufs with
  | nil => exact ⟨msgs, 0, rfl⟩
  | cons buf rest =>
    obtain ⟨t, tail, rfl⟩ := List.exists_cons_of_length_pos (Nat.zero_lt_of_lt hl)
    obtain ⟨ht, htail⟩ := List.forall_mem_cons.mp hm
    obtain ⟨m', st, hs, hinv⟩ := @inv_startNext p ua ep mem buf rest [] [] t.forget
      (tail.map ArenaMessage.forget) ⟨-1, 0, 0, false, t :: tail, mem⟩ rfl rfl .nil
      (by rw [ArenaMessage.forget, List.length_map]; exact ht) rfl
    obtain ⟨st', hloop, hmem⟩ := exists_loop hinv Nat.one_ne_zero (Nat.add_comm 1 rest.length)
      (by
        intro m hm'
        obtain ⟨vm, hvm, rfl⟩ := List.mem_map.mp hm'
        rw [ArenaMessage.forget, List.length_map]
        exact htail vm hvm)
      (by simpa using hl)
    refine ⟨st'.msgs, (st'.base + 1).toNat, ?_⟩
    have hall : loop p ua ep rest.length 0 (buf :: rest) ⟨-1, 0, 0, false, t :: tail, mem⟩ =
        some st' := by
      have hfirst : step p ua ep rest.length 0 buf ⟨-1, 0, 0, false, t :: tail, mem⟩ = some st := by
        rw [step, mayJoin, if_pos rfl]
        exact hs
      rw [loop, hfirst]
      exact hloop
    rw [coalesceMessages, List.length_cons, Nat.add_sub_cancel, hall]
    simp only [Option.bind_eq_bind, Option.bind_some, hmem, groups, List.nil_append]

end Loop

/-! ## The datagrams after the loop -/

/-- The datagrams are left as they were: whatever the array of `size` bytes contains, the loop
returns, and every datagram reads as before. -/
def KeepsDatagrams (p : Platform) (ua : UDPAddr) (ep : StdNetEndpoint) (size : ℕ) (bufs : List View)
    (msgs : List ArenaMessage) : Prop :=
  ∀ mem : List UInt8, mem.length = size →
    ∃ msgs' n mem', coalesceMessages p ua ep bufs msgs mem = some (msgs', n, mem') ∧
      ∀ v ∈ bufs, v.read mem' = v.read mem

/-- A datagram that joins the group `cur` is where it goes already, or no datagram is visible
there. -/
def InPlace (bufs cur : List View) (buf : View) : Prop :=
  headOff cur + totalLen cur = buf.off ∨
    ∀ v ∈ bufs, Disjoint (Set.Ico (headOff cur + totalLen cur)
      (headOff cur + totalLen cur + buf.len)) v.visible

section Keeps

variable {bufs : List View} {dst : Addr} {size : ℕ}

/-- The addresses of the datagrams. -/
def visibles (bufs : List View) : Set ℕ := ⋃ v ∈ bufs, v.visible

theorem harmless_joinMove_iff (cur : List View) (buf : View) :
    (joinMove cur buf).Harmless (visibles bufs) ↔ InPlace bufs cur buf := by
  unfold Move.Harmless InPlace visibles
  rw [Set.disjoint_iUnion₂_right]
  rfl

/-- The moves stay within the array and read from the datagrams. -/
theorem inBounds_of_mem_groupMoves (hfit : ∀ v ∈ bufs, v.off + v.cap ≤ size) {grp : List View}
    (hg : grp ∈ groups (joins dst) bufs) {m : Move} (hm : m ∈ groupMoves grp) :
    m.InBounds size ∧ m.ReadsFrom (visibles bufs) := by
  obtain ⟨cur, buf, rest, rfl, hne, rfl⟩ := mem_groupMoves.mp hm
  obtain ⟨-, hcap⟩ := totalLen_le_headCap dst bufs _ hg
  have hmem {v : View} (hv : v ∈ cur ++ buf :: rest) : v ∈ bufs := mem_of_mem_groups hg hv
  have hbuf : buf ∈ bufs := hmem (by simp)
  obtain ⟨v, cur, rfl⟩ := List.exists_cons_of_ne_nil hne
  have hv := hfit v (hmem (by simp))
  have hb := hfit buf hbuf
  have hlen := buf.len_le
  have hle : totalLen (v :: cur) + buf.len ≤ v.cap := by
    rw [totalLen_append] at hcap
    simp only [StdNetBind.headCap, List.cons_append, List.map_cons, List.head?_cons,
      Option.map_some, Option.getD_some, cap_blank, totalLen, List.sum_cons] at hcap ⊢
    omega
  refine ⟨⟨?_, ?_⟩, ?_⟩
  · show v.off + totalLen (v :: cur) + buf.len ≤ size
    omega
  · show buf.off + buf.len ≤ size
    omega
  · exact Set.subset_iUnion₂_of_subset buf hbuf subset_rfl

/-- **Coalescing leaves the datagrams as they were, whatever they contain, iff every datagram that
joins a group is in place**, or no datagram is visible where it goes. -/
theorem keepsDatagrams_iff (p : Platform) (ua : UDPAddr) (ep : StdNetEndpoint)
    {msgs : List ArenaMessage} (hfit : ∀ v ∈ bufs, v.off + v.cap ≤ size)
    (hm : ∀ m ∈ msgs, m.buffers.length = 1) (hl : bufs.length ≤ msgs.length) :
    KeepsDatagrams p ua ep size bufs msgs ↔
      ∀ grp ∈ groups (joins ep.addr) bufs, ∀ cur buf rest, grp = cur ++ buf :: rest → cur ≠ [] →
        InPlace bufs cur buf := by
  have hmoves : ∀ m ∈ (groups (joins ep.addr) bufs).flatMap groupMoves,
      m.InBounds size ∧ m.ReadsFrom (visibles bufs) := by
    intro m hmem
    obtain ⟨grp, hg, hmg⟩ := List.mem_flatMap.mp hmem
    exact inBounds_of_mem_groupMoves hfit hg hmg
  have : Nontrivial UInt8 := ⟨0, 1, by decide⟩
  have hiff := @forall_harmless_iff UInt8 size
    ((groups (joins ep.addr) bufs).flatMap groupMoves) (visibles bufs) _
    (fun m h => (hmoves m h).1) (fun m h => (hmoves m h).2)
  constructor
  · intro hkeep grp hg cur buf rest he hne
    rw [← harmless_joinMove_iff]
    refine hiff.mp (fun mem hsize i hi => ?_) _
      (List.mem_flatMap.mpr ⟨grp, hg, mem_groupMoves.mpr ⟨cur, buf, rest, he, hne, rfl⟩⟩)
    obtain ⟨msgs', n, mem', hc, hread⟩ := hkeep mem hsize
    obtain ⟨msgs'', n', hc'⟩ := exists_coalesceMessages p ua ep mem hm hl
    obtain ⟨-, -, rfl⟩ : _ ∧ _ ∧ _ = mem' := by
      simpa only [Prod.mk.injEq] using Option.some.inj (hc'.symm.trans hc)
    obtain ⟨v, hv, hvi⟩ := Set.mem_iUnion₂.mp hi
    exact v.read_eq_iff.mp (hread v hv) i hvi
  · intro hplace mem hsize
    obtain ⟨msgs', n, hc⟩ := exists_coalesceMessages p ua ep mem hm hl
    refine ⟨msgs', n, _, hc, fun v hv => v.read_eq_iff.mpr fun i hi => ?_⟩
    refine hiff.mpr (fun m hmem => ?_) mem hsize i (Set.mem_iUnion₂.mpr ⟨v, hv, hi⟩)
    obtain ⟨grp, hg, hmg⟩ := List.mem_flatMap.mp hmem
    obtain ⟨cur, buf, rest, he, hne, rfl⟩ := mem_groupMoves.mp hmg
    exact (harmless_joinMove_iff cur buf).mpr (hplace grp hg cur buf rest he hne)

end Keeps

/-- Messages from the pool. -/
def pooled (n : ℕ) : List ArenaMessage := List.replicate n ⟨[⟨0, 0, 0, le_rfl⟩], .ofList [], none⟩

/-- Three datagrams of two bytes, in the order in which they lie in an array of six. The capacity of
the first is the whole array. -/
def contiguous : List View :=
  [⟨0, 2, 6, by decide⟩, ⟨2, 2, 2, by decide⟩, ⟨4, 2, 2, by decide⟩]

/-- Datagrams that lie one behind the other are moved to where they are. -/
theorem keepsDatagrams_contiguous :
    KeepsDatagrams .linux .new StdNetBind.localhost 6 contiguous (pooled 3) := by
  refine (keepsDatagrams_iff .linux .new StdNetBind.localhost (by decide) (by decide)
    (by decide)).mpr ?_
  intro grp hg cur buf rest he hne
  obtain rfl : grp = contiguous := List.mem_singleton.mp hg
  match cur, hne with
  | [v], _ =>
    obtain ⟨rfl, rfl, -⟩ : _ = v ∧ _ = buf ∧ _ := by simpa [contiguous] using he
    exact .inl rfl
  | [v, w], _ =>
    obtain ⟨rfl, rfl, rfl, -⟩ : _ = v ∧ _ = w ∧ _ = buf ∧ _ := by simpa [contiguous] using he
    exact .inl rfl
  | v :: w :: x :: cur, _ =>
    have := congrArg List.length he
    simp [contiguous] at this

/-- The same datagrams, the second behind the third. -/
def swapped : List View :=
  [⟨0, 2, 6, by decide⟩, ⟨4, 2, 2, by decide⟩, ⟨2, 2, 2, by decide⟩]

/-- The second datagram is appended over the third, which is then appended as it reads now. -/
theorem not_keepsDatagrams_swapped :
    swapped.Pairwise (fun v w => Disjoint v.visible w.visible) ∧
      ((coalesceMessages .linux .new StdNetBind.localhost swapped (pooled 3)
        [1, 2, 3, 4, 5, 6]).map fun r => r.2.2) = some [1, 2, 5, 6, 5, 6] ∧
      ¬ KeepsDatagrams .linux .new StdNetBind.localhost 6 swapped (pooled 3) := by
  have hrun : ((coalesceMessages .linux .new StdNetBind.localhost swapped (pooled 3)
      [1, 2, 3, 4, 5, 6]).map fun r => r.2.2) = some [1, 2, 5, 6, 5, 6] := by decide +kernel
  refine ⟨?_, hrun, fun hkeep => ?_⟩
  · simp [swapped, View.visible]
  · obtain ⟨msgs', n, mem', hc, hread⟩ := hkeep [1, 2, 3, 4, 5, 6] rfl
    rw [hc] at hrun
    obtain rfl : mem' = [1, 2, 5, 6, 5, 6] := Option.some.inj hrun
    exact absurd (hread ⟨2, 2, 2, by decide⟩ (by decide)) (by decide)

end Arena

end BatchUDP
