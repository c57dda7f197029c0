import BatchUDP.StdNet.Receive

/-!
# The sources of received datagrams

On Linux the kernel reports the local address of each message in a `PKTINFO` control message, and
the endpoint of a datagram caches it as its sticky source. When messages are split, payload and
address of a datagram move to its slot but control data does not, and the first slots are never read
into.

## Main definitions

* `Received.source`: the local address and interface that the kernel reported for a message
* `sources p rs`: the source of the message that each datagram was cut from
* `Receipt.sources`: the sources of the endpoints that a call delivered

## Main results

* `StdNetBind.sources_eq_iff`: a call that splits delivers the sources of the messages read iff it
  delivers nothing
-/

namespace BatchUDP

open Go Unix Framing

/-- The interface index in a `PKTINFO` message, a signed 32-bit number. -/
def ifindex (bytes : List UInt8) : ℤ := (BitVec.ofNat 32 (leNat bytes)).toInt

/-- The local address and the interface in a `PKTINFO` message. -/
def pktinfoSource (c : ControlMessage) : Option (Addr × ℤ) :=
  if c.level = ipprotoIP ∧ c.type = ipPktinfo ∧ c.data.length = sizeofInet4Pktinfo then
    some (.ofSlice ((c.data.drop 4).take 4), ifindex (c.data.take 4))
  else if c.level = ipprotoIPv6 ∧ c.type = ipv6Pktinfo ∧ c.data.length = sizeofInet6Pktinfo then
    some (.ofSlice (c.data.take 16), ifindex ((c.data.drop 16).take 4))
  else none

/-- The source that the kernel reported for a message, or zero values. -/
def Received.source (r : Received) : Addr × ℤ :=
  (r.control.findSome? pktinfoSource).getD (.zero, 0)

/-- The source of the message that each datagram was cut from. -/
def sources (p : Platform) (rs : List Received) : List (Addr × ℤ) :=
  rs.flatMap fun r => (r.datagrams p).map fun _ => r.source

/-- The sources of the endpoints that a call delivered. -/
def Receipt.sources (p : Platform) (r : Receipt) : List (Option (Addr × ℤ)) :=
  (r.eps.take r.n).map (Option.map fun ep => (ep.srcIP p, ep.srcIfidx p))

theorem ofSlice_ne_zero {l : List UInt8} (h : l.length = 4 ∨ l.length = 16) :
    Addr.ofSlice l ≠ .zero := by
  unfold Addr.ofSlice
  split_ifs with h4 h16
  · simp
  · simp
  · exact absurd h (not_or.mpr ⟨h4, h16⟩)

theorem pktinfoSource_fst_ne_zero {c : ControlMessage} {x : Addr × ℤ}
    (h : pktinfoSource c = some x) : x.1 ≠ .zero := by
  unfold pktinfoSource at h
  split_ifs at h with h4 h16
  · obtain rfl := Option.some.inj h
    refine ofSlice_ne_zero (.inl ?_)
    rw [List.length_take, List.length_drop, h4.2.2]
    rfl
  · obtain rfl := Option.some.inj h
    refine ofSlice_ne_zero (.inr ?_)
    rw [List.length_take, h16.2.2]
    rfl

/-- A reported source is an address. -/
theorem source_fst_ne_zero {r : Received} (h : ∃ c ∈ r.control, pktinfoSource c ≠ none) :
    r.source.1 ≠ .zero := by
  obtain ⟨c, hc, hne⟩ := h
  rw [Received.source]
  cases hf : r.control.findSome? pktinfoSource with
  | none => exact absurd (List.findSome?_eq_none_iff.mp hf c hc) hne
  | some x =>
    obtain ⟨c', -, hc'⟩ := List.exists_of_findSome?_eq_some hf
    exact pktinfoSource_fst_ne_zero hc'

theorem getElem?_sources_cons {p : Platform} {r : Received} (h0 : r.payload ≠ [])
    (rs : List Received) : (sources p (r :: rs))[0]? = some r.source := by
  obtain ⟨d, ds, hds⟩ := List.exists_cons_of_ne_nil (chunks_ne_nil (g := r.gso p) h0)
  simp [sources, Received.datagrams_of_ne_nil h0, hds]

/-- Without control data an endpoint has no source. -/
theorem srcIP_getSrcFromControl_nil (p : Platform) (addr : Addr) (port : UInt16) :
    (getSrcFromControl p [] (.ofAddrPort addr port)).srcIP p = .zero := by
  unfold getSrcFromControl
  split_ifs with hl
  · rw [p.control.scan_of_le _ (Nat.zero_le _)]
    simp only [StdNetEndpoint.srcIP, if_pos hl]
    rfl
  · exact if_neg hl

namespace StdNetBind

section Sources

variable {p : Platform} {s : StdNetBind} {br : Bool} {run : ReceiveRun} {bufs : List (Slice UInt8)}
  {sizes : List ℕ} {eps : List (Option StdNetEndpoint)} {rs : List Received}

/-- A datagram in a slot that was not read into is reported without a source. -/
theorem exists_endpoint_deliver {b : Slice UInt8} {m : Message} (hm : Lent p b m) (hb : 0 < b.len)
    {d : List UInt8} (hd : d ≠ []) (ua : UDPAddr) :
    (m.deliver (d, some ua)).n ≠ 0 ∧
      ∃ ep, endpoint p (m.deliver (d, some ua)) = some ep ∧ ep.srcIP p = .zero := by
  constructor
  · have := List.length_pos_iff.mpr hd
    simp only [Message.deliver, hm.buffers, List.head?_cons, Option.map_some, Option.getD_some,
      Slice.copied]
    omega
  · refine ⟨getSrcFromControl p [] (.ofAddrPort ua.addrPort.1.unmap ua.addrPort.2), ?_,
      srcIP_getSrcFromControl_nil p _ _⟩
    have hsub : m.oob.sub 0 m.nn = some [] := by
      rw [hm.nn, Slice.sub_of_le le_rfl (Nat.zero_le _)]
      rfl
    simp [endpoint, Message.deliver, hsub]

variable (rs) in
/-- The first slot is not read into when messages are split. -/
theorem exists_readWindow_eq_cons {b : ℕ} (hb : 1 < b) {msgs : List Message}
    (hlen : msgs.length = b) :
    ∃ m ms ws, msgs = m :: ms ∧ readWindow (readAt b) msgs rs = m :: ws := by
  obtain ⟨m, ms, rfl⟩ := List.exists_cons_of_length_pos (l := msgs) (by omega)
  obtain ⟨k, hk⟩ : ∃ k, readAt b = k + 1 :=
    ⟨readAt b - 1, by have := groReadBatchSize_lt hb; unfold readAt; omega⟩
  exact ⟨m, ms, _, rfl, by rw [readWindow, hk, List.take_succ_cons, List.cons_append]⟩

/-- The first slot of a split is the first message with the first datagram delivered to it. -/
theorem exists_take_placed_eq_cons (first i : ℕ) {m : Message} {ws : List Message} {r : Received}
    (h0 : r.payload ≠ []) (hlen : (pieces p (r :: rs)).length ≤ (m :: ws).length) :
    ∃ d, d ≠ [] ∧ ((placed first i (pieces p (r :: rs)) (m :: ws)).take
      (pieces p (r :: rs)).length)[0]? = some (m.deliver (d, some r.addr)) := by
  obtain ⟨d, ds, hds⟩ := List.exists_cons_of_ne_nil (chunks_ne_nil (g := r.gso p) h0)
  refine ⟨d, ne_nil_of_mem_chunks h0 (by rw [hds]; exact List.mem_cons_self), ?_⟩
  rw [placed, take_render hlen]
  simp [pieces, Received.pieces, Received.datagrams_of_ne_nil h0, hds]

/-- **A call that splits delivers the sources of the messages read iff it delivers nothing**, that
is iff the first message is empty. -/
theorem sources_eq_iff (hp : p.goos = .linux) (hs : s.Valid p) (hb : 1 < s.batchSize)
    (hv : validateReceiveBuffers bufs sizes eps s.batchSize = none)
    (hbuf : ∀ b ∈ bufs.head?, 0 < b.len) (hread : run.read = .ok rs)
    (hr : ReadableInto p ((bufs.take s.batchSize).drop (readAt s.batchSize)) rs)
    (hsrc : ∀ r ∈ rs, ∃ c ∈ r.control, pktinfoSource c ≠ none)
    (hno : Fitting p (readAt s.batchSize) rs) :
    ∃ rec, s.receiveIP p true true run bufs sizes eps = some rec ∧ rec.err = none ∧
      (rec.sources p = (sources p (leading rs)).map some ↔ ∀ r ∈ rs.head?, r.payload = []) := by
  have hoff : p.hasOffload = true := by simp [Platform.hasOffload, hp]
  obtain ⟨msgs, rec, hlent, hlen, hreads, he, -, hok⟩ := exists_receiveIP_split hs hv hread
    (show Splits p true true s.batchSize from ⟨⟨rfl, hoff⟩, rfl, hb⟩) hr
  obtain ⟨herr, split, hsplit, -, hn, -, heps⟩ := hok hno
  obtain rfl := Option.some.inj
    (hsplit.symm.trans (hreads.split_readWindow hno (.inr (not_stale_of_lent hlent _))))
  refine ⟨rec, he, herr, ?_⟩
  obtain ⟨r, rs', rfl⟩ := List.exists_cons_of_ne_nil hr.ne_nil
  by_cases h0 : r.payload = []
  · have hlead : leading (r :: rs') = [] := by simp [leading, h0]
    rw [hlead] at hn
    have hzero : rec.n = 0 := hn
    simp [Receipt.sources, sources, hlead, hzero, h0]
  · refine iff_of_false (fun hsame => ?_) (by simpa using h0)
    have hlead : leading (r :: rs') = r :: leading rs' := by simp [leading, h0]
    have hpieces : (pieces p (leading (r :: rs'))).length ≤
        (readWindow (readAt s.batchSize) msgs (r :: rs')).length := by
      rw [length_of_map_shape (map_shape_readWindow _ msgs _)]
      exact hno.length_pieces_le.trans hreads.length_leading_le
    obtain ⟨m, ms, ws, rfl, hwin⟩ := exists_readWindow_eq_cons (r :: rs') hb hlen
    rw [hwin, hlead] at hpieces
    obtain ⟨d, hd, hslot⟩ := exists_take_placed_eq_cons _ _ h0 hpieces
    obtain ⟨b, bs, hm, -, hbs⟩ := List.forall₂_cons_right_iff.mp hlent
    have hpos : 0 < b.len := by
      have hhead := List.head?_take (l := bufs) (i := s.batchSize)
      rw [if_neg (Nat.ne_zero_of_lt hb), hbs, List.head?_cons] at hhead
      exact hbuf b hhead.symm
    obtain ⟨hn0, ep, hep, hzero⟩ := exists_endpoint_deliver hm hpos hd r.addr
    have hfirst : (rec.sources p)[0]? = some (some (ep.srcIP p, ep.srcIfidx p)) := by
      obtain ⟨ep', hep', heps0⟩ := heps 0 _ (by rw [hlead, hwin]; exact hslot) hn0
      obtain rfl := Option.some.inj (hep'.symm.trans hep)
      have hne : (pieces p (r :: leading rs')).length ≠ 0 := fun h => by simp [h] at hslot
      have hn1 : 0 < rec.n := by
        rw [hn, hlead]
        exact Nat.pos_of_ne_zero hne
      rw [Receipt.sources, List.getElem?_map, List.getElem?_take_of_lt hn1, heps0]
      rfl
    rw [hsame, hlead, List.getElem?_map, getElem?_sources_cons h0] at hfirst
    simp only [Option.map_some, Option.some.injEq] at hfirst
    exact source_fst_ne_zero (hsrc r List.mem_cons_self) ((congrArg Prod.fst hfirst).trans hzero)

end Sources

/-- A message that arrived at 192.0.2.1 on interface 2. -/
def arrived : Received where
  payload := [1]
  control := [{
    level := ipprotoIP
    type := ipPktinfo
    data := [2, 0, 0, 0, 192, 0, 2, 1, 192, 0, 2, 1]
    pad := [0, 0, 0, 0]
    framed := framed_pktinfo4 rfl rfl
    data_ne_nil := by simp }]
  addr := .new

/-- The hypotheses hold of a read of one message. -/
theorem sources_eq_iff_arrived :
    ∃ rec, (opened true 2).receiveIP .linux true true ⟨0, .ok [arrived]⟩
        [.ofList [0, 0], .ofList [0, 0]] [0, 0] [none, none] = some rec ∧ rec.err = none ∧
      (rec.sources .linux = (sources .linux (leading [arrived])).map some ↔
        ∀ r ∈ [arrived].head?, r.payload = []) :=
  sources_eq_iff rfl (valid_opened .linux true 2) (by decide) (by decide) (by decide) rfl
    ⟨by decide, .cons ⟨by decide, by decide, by decide⟩ .nil⟩ (by decide) (by decide)

/-- The source of the message is lost on its way to the first slot. -/
theorem receiveIP_loses_source :
    ∃ rec, (opened true 2).receiveIP .linux true true ⟨0, .ok [arrived]⟩
        [.ofList [0, 0], .ofList [0, 0]] [0, 0] [none, none] = some rec ∧ rec.err = none ∧
      rec.delivered = [[1]] ∧ sources .linux [arrived] = [(.v4 #v[192, 0, 2, 1], 2)] ∧
      rec.sources .linux = [some (.zero, 0)] :=
  ⟨_, rfl, rfl, by decide, by decide, by decide⟩

end StdNetBind

end BatchUDP
