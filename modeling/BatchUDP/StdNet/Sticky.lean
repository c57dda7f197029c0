import BatchUDP.StdNet.Source

/-!
# Sticky sources

On Linux an endpoint caches the first `PKTINFO` message of the control data it arrived with, and the
messages sent to it start with what it cached. Header and data go into a buffer that is as large as
the message should be and that earlier sources were cached in: the header is copied as it is, the
data as far as it fits, and bytes that neither covers keep what was there.

## Main definitions

* `infoSource size info`: the local address and the interface that `info` stands for
* `firstPktinfo cs`, `stickySource cs`: the first `PKTINFO` message of control data, and its source

## Main results

* `toList_cacheSrc`: the bytes that are cached
* `reads_setGSOSize_setSrcControl`: a source survives the way through an endpoint to a message
-/

namespace BatchUDP

open Go Unix

/-! ## Sources -/

/-- The size of the data type of a `PKTINFO` message. -/
def pktinfoSize (h : Cmsghdr) : Option ℕ :=
  if h.level = ipprotoIP ∧ h.type = ipPktinfo then some sizeofInet4Pktinfo
  else if h.level = ipprotoIPv6 ∧ h.type = ipv6Pktinfo then some sizeofInet6Pktinfo
  else none

/-- The local address and the interface in the data of a `PKTINFO` message. -/
def infoSource (size : ℕ) (info : List UInt8) : Addr × ℤ :=
  if size = sizeofInet4Pktinfo then (.ofSlice ((info.drop 4).take 4), ifindex (info.take 4))
  else (.ofSlice (info.take 16), ifindex ((info.drop 16).take 4))

/-- The number of bytes that a source is read from. -/
def infoLen (size : ℕ) : ℕ := if size = sizeofInet4Pktinfo then 8 else 20

/-- The cached source of an endpoint. -/
def StdNetEndpoint.source (p : Platform) (ep : StdNetEndpoint) : Addr × ℤ :=
  (ep.srcIP p, ep.srcIfidx p)

section Sources

variable {p : Platform} {ep : StdNetEndpoint} {h : Cmsghdr} {size : ℕ} {info info' : List UInt8}

theorem pktinfoData_eq (h : Cmsghdr) (data : List UInt8) :
    pktinfoData h data = (pktinfoSize h).map fun n => (h, data, n) := by
  unfold pktinfoData pktinfoSize
  split_ifs <;> rfl

theorem pktinfoSize_cases (hs : pktinfoSize h = some size) :
    size = sizeofInet4Pktinfo ∨ size = sizeofInet6Pktinfo := by
  unfold pktinfoSize at hs
  split_ifs at hs
  · exact .inl (Option.some.inj hs).symm
  · exact .inr (Option.some.inj hs).symm

theorem infoLen_le_cmsgAlign (hs : pktinfoSize h = some size) : infoLen size ≤ cmsgAlign size := by
  rcases pktinfoSize_cases hs with rfl | rfl <;> decide

/-- An endpoint reads its source from what it cached behind the header. -/
theorem source_of_toList (hp : p.goos = .linux) (hs : pktinfoSize h = some size) {hdr : Cmsghdr}
    (hl : info.length = cmsgAlign size) (hsrc : ep.src.toList = hdr.bytes ++ info) :
    ep.source p = infoSource size info := by
  have hlen : ep.src.len = cmsgSpace size := by
    rw [← Slice.length_toList, hsrc, List.length_append, hdr.length_bytes, hl, cmsgSpace]
  have hdrop (k : ℕ) : (hdr.bytes ++ info).drop (cmsgLen k) = info.drop k := by
    rw [cmsgLen, ← hdr.length_bytes, List.drop_length_add_append]
  simp only [StdNetEndpoint.source, StdNetEndpoint.srcIP, StdNetEndpoint.srcIfidx, if_pos hp, hlen,
    hsrc, hdrop, infoSource, ifindex]
  rcases pktinfoSize_cases hs with rfl | rfl
  · rfl
  · rfl

theorem source_of_nil (hp : p.goos = .linux) (hsrc : ep.src.toList = []) :
    ep.source p = (.zero, 0) := by
  have hlen : ep.src.len = 0 := Slice.toList_eq_nil_iff.mp hsrc
  simp only [StdNetEndpoint.source, StdNetEndpoint.srcIP, StdNetEndpoint.srcIfidx, if_pos hp, hlen]
  rfl

/-- The source is read from the first bytes. -/
theorem infoSource_append (hl : infoLen size ≤ info.length) (rest : List UInt8) :
    infoSource size (info ++ rest) = infoSource size info := by
  have htake {k : ℕ} (hk : k ≤ info.length) : (info ++ rest).take k = info.take k :=
    List.take_append_of_le_length hk
  have hdrop {i j : ℕ} (hij : i + j ≤ info.length) :
      ((info ++ rest).drop i).take j = (info.drop i).take j := by
    rw [List.drop_append_of_le_length (by omega),
      List.take_append_of_le_length (by rw [List.length_drop]; omega)]
  unfold infoLen at hl
  unfold infoSource
  split_ifs at hl ⊢
  · rw [htake (by omega), hdrop (by omega)]
  · rw [htake (by omega), hdrop (by omega)]

theorem bytes_ofSlice {l : List UInt8} (hl : l.length = 4 ∨ l.length = 16) :
    (Addr.ofSlice l).bytes = l := by
  unfold Addr.ofSlice
  split_ifs with h4 h16
  · rfl
  · rfl
  · exact absurd hl (not_or.mpr ⟨h4, h16⟩)

theorem ofSlice_inj {l l' : List UInt8} (hl : l.length = 4 ∨ l.length = 16)
    (hl' : l'.length = l.length) (h : Addr.ofSlice l = Addr.ofSlice l') : l = l' := by
  rw [← bytes_ofSlice hl, h, bytes_ofSlice (by rwa [hl'])]

theorem ifindex_inj {l l' : List UInt8} (hl : l.length = 4) (hl' : l'.length = 4)
    (h : ifindex l = ifindex l') : l = l' := by
  have hlt {b : List UInt8} (hb : b.length = 4) : leNat b < 2 ^ 32 := by
    have := leNat_lt b
    rwa [hb] at this
  have he := congrArg BitVec.toNat (BitVec.toInt_inj.mp h)
  rw [BitVec.toNat_ofNat, BitVec.toNat_ofNat, Nat.mod_eq_of_lt (hlt hl),
    Nat.mod_eq_of_lt (hlt hl')] at he
  exact (leNat_inj (hl.trans hl'.symm)).mp he

/-- A source determines the bytes it is read from. -/
theorem take_infoLen_of_infoSource (hl : infoLen size ≤ info.length)
    (hl' : infoLen size ≤ info'.length) (he : infoSource size info = infoSource size info') :
    info.take (infoLen size) = info'.take (infoLen size) := by
  unfold infoLen at hl hl'
  unfold infoSource at he
  unfold infoLen
  split_ifs at he hl hl' ⊢
  · obtain ⟨hip, hidx⟩ := Prod.mk.inj he
    have h1 := ifindex_inj (by rw [List.length_take]; omega) (by rw [List.length_take]; omega) hidx
    have h2 := ofSlice_inj (.inl (by rw [List.length_take, List.length_drop]; omega))
      (by simp only [List.length_take, List.length_drop]; omega) hip
    rw [show 8 = 4 + 4 from rfl, List.take_add, List.take_add, h1, h2]
  · obtain ⟨hip, hidx⟩ := Prod.mk.inj he
    have h1 := ofSlice_inj (.inr (by rw [List.length_take]; omega))
      (by simp only [List.length_take]; omega) hip
    have h2 := ifindex_inj (by rw [List.length_take, List.length_drop]; omega)
      (by rw [List.length_take, List.length_drop]; omega) hidx
    rw [show 20 = 16 + 4 from rfl, List.take_add, List.take_add, h1, h2]

end Sources

/-! ## Caching -/

/-- The bytes that a source is cached over. -/
def oldSrc (src : Slice UInt8) (size : ℕ) : List UInt8 :=
  if src.cap < cmsgSpace size then List.replicate (cmsgSpace size) 0
  else src.arr.take (cmsgSpace size)

section Caching

variable {p : Platform} {h : Cmsghdr}

theorem length_oldSrc (src : Slice UInt8) (size : ℕ) :
    (oldSrc src size).length = cmsgSpace size := by
  unfold oldSrc
  split_ifs with hc
  · exact List.length_replicate
  · rw [List.length_take]
    exact min_eq_left (not_lt.mp hc)

/-- The buffer that a source is cached in. -/
theorem exists_reslice_oldSrc (src : Slice UInt8) (size : ℕ) :
    ∃ s, (if src.cap < cmsgSpace size then Slice.ofList (List.replicate (cmsgSpace size) 0)
      else src).reslice (cmsgSpace size) = some s ∧ s.len = cmsgSpace size ∧
      s.toList = oldSrc src size := by
  unfold oldSrc
  split_ifs with hc
  · refine ⟨_, Slice.reslice_of_le (by simp [Slice.ofList, Slice.cap]), rfl, ?_⟩
    simp [Slice.toList, Slice.ofList]
  · exact ⟨_, Slice.reslice_of_le (not_lt.mp hc), rfl, rfl⟩

/-- The cached bytes: the header, the data as far as it fits, and old bytes behind it. -/
theorem toList_cacheSrc (src : Slice UInt8) (hdr : Cmsghdr) (data : List UInt8) (size : ℕ) :
    (cacheSrc src hdr data size).toList = hdr.bytes ++
      (data.take (cmsgAlign size) ++ (oldSrc src size).drop (cmsgLen data.length)) := by
  obtain ⟨s, hs, hlen, hold⟩ := exists_reslice_oldSrc src size
  have hl := length_oldSrc src size
  have hsub : cmsgSpace size - sizeofCmsghdr = cmsgAlign size := by rw [cmsgSpace]; omega
  have hle : sizeofCmsghdr ≤ cmsgSpace size := by rw [cmsgSpace]; omega
  have hhdr : (s.copy hdr.bytes).toList = hdr.bytes ++ (oldSrc src size).drop sizeofCmsghdr := by
    have ht : hdr.bytes.take (cmsgSpace size - 0) = hdr.bytes :=
      List.take_of_length_le (by rw [hdr.length_bytes]; omega)
    rw [Slice.copy, Slice.toList_copyAt (Nat.zero_le _), hlen, hold, ht, patch, hdr.length_bytes,
      Nat.zero_add]
    rfl
  simp only [cacheSrc, hs]
  rw [Slice.toList_copyAt (by rw [Slice.len_copy, hlen]; exact hle), hhdr, patch, Slice.len_copy,
    hlen, show cmsgLen 0 = sizeofCmsghdr from rfl, hsub, List.take_left' hdr.length_bytes,
    ← hdr.length_bytes, List.drop_length_add_append, hdr.length_bytes, List.drop_drop,
    List.append_assoc]
  congr 2
  rw [cmsgLen, List.length_take]
  rcases Nat.le_total data.length (cmsgAlign size) with hd | hd
  · rw [min_eq_right hd]
  · rw [min_eq_left hd, List.drop_eq_nil_of_le (by rw [hl, cmsgSpace]),
      List.drop_eq_nil_of_le (by rw [hl, cmsgSpace]; omega)]

theorem length_info (src : Slice UInt8) (data : List UInt8) (size : ℕ) :
    (data.take (cmsgAlign size) ++ (oldSrc src size).drop (cmsgLen data.length)).length =
      cmsgAlign size := by
  rw [List.length_append, List.length_take, List.length_drop, length_oldSrc, cmsgSpace, cmsgLen]
  omega

end Caching

/-! ## The way through an endpoint -/

/-- A `PKTINFO` message has the data of its type. -/
def Sized (c : FramedMessage) : Prop := ∀ n ∈ pktinfoSize c.header, c.data.length = n

/-- The first `PKTINFO` message, with the size of its data type. -/
def firstPktinfo (cs : List FramedMessage) : Option (ℕ × FramedMessage) :=
  cs.findSome? fun c => (pktinfoSize c.header).map (·, c)

/-- The source in control data: that of its first `PKTINFO` message, or zero values. -/
def stickySource (cs : List FramedMessage) : Addr × ℤ :=
  (firstPktinfo cs).elim (.zero, 0) fun x => infoSource x.1 x.2.data

/-- The endpoint has cached the given message, padded with old bytes. -/
def Caches (ep : StdNetEndpoint) : Option (ℕ × FramedMessage) → Prop
  | none => ep.src.toList = []
  | some (_, c) => ∃ pad : List UInt8, pad.length = 4 ∧
    ep.src.toList = cmsg c.level c.type c.data pad

section RoundTrip

variable {p : Platform} {ep : StdNetEndpoint} {cs : List FramedMessage}

theorem firstPktinfo_eq_some {n : ℕ} {c : FramedMessage} (h : firstPktinfo cs = some (n, c)) :
    c ∈ cs ∧ pktinfoSize c.header = some n := by
  obtain ⟨c', hc', he⟩ := List.exists_of_findSome?_eq_some h
  obtain ⟨n', hn', hpair⟩ := Option.map_eq_some_iff.mp he
  obtain ⟨rfl, rfl⟩ := Prod.mk.inj hpair
  exact ⟨hc', hn'⟩

theorem Sized.length_eq {n : ℕ} {c : FramedMessage} (h : Sized c)
    (hn : pktinfoSize c.header = some n) : c.data.length = n := h n hn

/-- The loop finds the first `PKTINFO` message. -/
theorem scan_pktinfoData (p : Platform) (hcs : ∀ c ∈ cs, Sized c) :
    p.control.scan pktinfoData (cs.flatMap FramedMessage.bytes) =
      .ok ((firstPktinfo cs).map fun x => (x.2.header, x.2.data, x.1)) := by
  rw [p.control.scan_framed, firstPktinfo, List.map_findSome?]
  · congr 2
    funext c
    rw [pktinfoData_eq, Function.comp_apply, Option.map_map]
    rfl
  · intro c hc hnil
    rw [pktinfoData_eq, Option.map_eq_none_iff]
    cases hn : pktinfoSize c.header with
    | none => rfl
    | some n =>
      have hl := (hcs c hc).length_eq hn
      rw [hnil] at hl
      rcases pktinfoSize_cases hn with rfl | rfl <;> cases hl

/-- An endpoint caches the first `PKTINFO` message, whatever it had cached before. -/
theorem caches_getSrcFromControl (hp : p.goos = .linux) (hcs : ∀ c ∈ cs, Sized c)
    (ep : StdNetEndpoint) :
    Caches (getSrcFromControl p (cs.flatMap FramedMessage.bytes) ep) (firstPktinfo cs) := by
  simp only [getSrcFromControl, if_pos hp, scan_pktinfoData p hcs]
  cases hf : firstPktinfo cs with
  | none => exact Slice.toList_clear _
  | some x =>
    obtain ⟨n, c⟩ := x
    obtain ⟨hc, hn⟩ := firstPktinfo_eq_some hf
    have hl := (hcs c hc).length_eq hn
    have halign : cmsgAlign n = n + 4 := by
      rcases pktinfoSize_cases hn with rfl | rfl <;> rfl
    refine ⟨(oldSrc ep.clearSrc.src n).drop (cmsgLen n), ?_, ?_⟩
    · rw [List.length_drop, length_oldSrc, cmsgSpace, cmsgLen, halign]
      omega
    · show (cacheSrc ep.clearSrc.src c.header c.data n).toList = _
      rw [toList_cacheSrc, List.take_of_length_le (by rw [hl, halign]; omega), hl, cmsg,
        List.append_assoc]
      rfl

/-- The source of an endpoint is that of the message it has cached. -/
theorem Caches.source_eq (hp : p.goos = .linux) (hcs : ∀ c ∈ cs, Sized c)
    (h : Caches ep (firstPktinfo cs)) : ep.source p = stickySource cs := by
  unfold stickySource
  cases hf : firstPktinfo cs with
  | none =>
    rw [hf] at h
    exact source_of_nil hp h
  | some x =>
    obtain ⟨n, c⟩ := x
    obtain ⟨hc, hn⟩ := firstPktinfo_eq_some hf
    have hl := (hcs c hc).length_eq hn
    rw [hf] at h
    obtain ⟨pad, hpad, hsrc⟩ := h
    have halign : (c.data ++ pad).length = cmsgAlign n := by
      rw [List.length_append, hl, hpad]
      rcases pktinfoSize_cases hn with rfl | rfl <;> rfl
    rw [cmsg, List.append_assoc] at hsrc
    rw [source_of_toList hp hn halign hsrc]
    refine infoSource_append ?_ pad
    rw [hl]
    rcases pktinfoSize_cases hn with rfl | rfl <;> decide

/-- What an endpoint has cached is made up of at most one message, with the source of that message
whatever other message follows it. -/
theorem Caches.exists_framed (hcs : ∀ c ∈ cs, Sized c) (h : Caches ep (firstPktinfo cs)) :
    ∃ cs' : List FramedMessage, ep.src.toList = cs'.flatMap FramedMessage.bytes ∧
      (∀ c ∈ cs', Sized c) ∧ (cs'.map fun c => (c.header, c.data)) =
        ((firstPktinfo cs).toList.map fun x => (x.2.header, x.2.data)) ∧
      ∀ m, pktinfoSize m.header = none → stickySource (cs' ++ [m]) = stickySource cs := by
  cases hf : firstPktinfo cs with
  | none =>
    rw [hf] at h
    refine ⟨[], h, by simp, rfl, fun m hm => ?_⟩
    rw [stickySource, stickySource, hf]
    simp [firstPktinfo, hm]
  | some x =>
    obtain ⟨n, c⟩ := x
    obtain ⟨hc, hn⟩ := firstPktinfo_eq_some hf
    have hl := (hcs c hc).length_eq hn
    rw [hf] at h
    obtain ⟨pad, hpad, hsrc⟩ := h
    have hframed : Framed c.level c.type c.data pad := by
      refine ⟨c.framed.level_lt, c.framed.type_lt, c.framed.data_lt, ?_⟩
      rw [hl, hpad]
      rcases pktinfoSize_cases hn with rfl | rfl <;> rfl
    refine ⟨[⟨c.level, c.type, c.data, pad, hframed⟩], ?_, ?_, rfl, fun m _ => ?_⟩
    · rw [hsrc, List.flatMap_singleton]
      rfl
    · intro c' hc'
      obtain rfl := List.mem_singleton.mp hc'
      exact hcs c hc
    · have hn' : pktinfoSize (FramedMessage.mk c.level c.type c.data pad hframed).header = some n :=
        hn
      rw [stickySource, stickySource, hf]
      simp [firstPktinfo, hn']

/-- The message that carries a segment size, padded with the given bytes. -/
def segmentMessage (g : ℕ) {pad : List UInt8} (hp : pad.length = 6) : FramedMessage :=
  ⟨solUDP, udpSegment, leBytes sizeOfGSOData g, pad, framed_gso udpSegment g (by decide) hp⟩

theorem header_segmentMessage (g : ℕ) {pad : List UInt8} (hp : pad.length = 6) :
    (segmentMessage g hp).header = ⟨cmsgLen sizeOfGSOData, solUDP, udpSegment⟩ := by
  rw [FramedMessage.header, segmentMessage, length_leBytes]

theorem Caches.length_stickyControl_le (hp : p.goos = .linux) (hcs : ∀ c ∈ cs, Sized c)
    (h : Caches ep (firstPktinfo cs)) : (ep.stickyControl p).length ≤ stickyControlSize p := by
  rw [stickyControlSize, StdNetEndpoint.stickyControl, if_pos hp, if_pos hp]
  cases hf : firstPktinfo cs with
  | none =>
    rw [hf] at h
    rw [show ep.src.toList = [] from h]
    exact Nat.zero_le _
  | some x =>
    obtain ⟨n, c⟩ := x
    obtain ⟨hc, hn⟩ := firstPktinfo_eq_some hf
    rw [hf] at h
    obtain ⟨pad, hpad, hsrc⟩ := h
    rw [hsrc, cmsg, List.length_append, List.length_append, Cmsghdr.length_bytes, hpad,
      (hcs c hc).length_eq hn]
    rcases pktinfoSize_cases hn with rfl | rfl <;> decide

/-- **A sticky source survives the way through an endpoint to the next message.** The endpoint gets
the source of the first `PKTINFO` message; the control data of a message to it is read as exactly
that message and the segment size; and from that any endpoint gets the same source. -/
theorem reads_setGSOSize_setSrcControl (hp : p.goos = .linux) (hcs : ∀ c ∈ cs, Sized c)
    (ep : StdNetEndpoint) {control : Slice UInt8}
    (hc : stickyControlSize p + gsoControlSize p ≤ control.cap) (g : UInt16) :
    let ep' := getSrcFromControl p (cs.flatMap FramedMessage.bytes) ep
    let out := (setGSOSize p (setSrcControl p control ep') g.toNat).toList
    (ep'.srcIP p, ep'.srcIfidx p) = stickySource cs ∧
    p.control.Reads out (((firstPktinfo cs).toList.map fun x => (x.2.header, x.2.data)) ++
      [(⟨cmsgLen sizeOfGSOData, solUDP, udpSegment⟩, leBytes sizeOfGSOData g.toNat)]) ∧
    ∀ ep'', ((getSrcFromControl p out ep'').srcIP p, (getSrcFromControl p out ep'').srcIfidx p) =
      stickySource cs := by
  intro ep' out
  have hcaches : Caches ep' (firstPktinfo cs) := caches_getSrcFromControl hp hcs ep
  obtain ⟨cs', hsrc, hsized, hmap, hsource⟩ := hcaches.exists_framed hcs
  have hoff : p.hasOffload = true := by simp [Platform.hasOffload, hp]
  obtain ⟨pad, hpad, hout⟩ := exists_toList_setGSOSize_setSrcControl_of_le hoff
    (fun hne => absurd hp hne)
    ((Nat.add_le_add_right (hcaches.length_stickyControl_le hp hcs) _).trans hc) g.toNat
  rw [StdNetEndpoint.stickyControl, if_pos hp] at hout
  have hbytes : out = (cs' ++ [segmentMessage g.toNat hpad]).flatMap FramedMessage.bytes := by
    rw [List.flatMap_append, List.flatMap_singleton, ← hsrc]
    exact hout
  have hnone : pktinfoSize (segmentMessage g.toNat hpad).header = none := by
    rw [header_segmentMessage]
    rfl
  refine ⟨hcaches.source_eq hp hcs, ?_, fun ep'' => ?_⟩
  · have hr := p.control.reads_framed (cs' ++ [segmentMessage g.toNat hpad])
    rw [← hbytes, List.map_append, hmap, List.map_singleton, header_segmentMessage] at hr
    exact hr
  · have hsized' : ∀ c ∈ cs' ++ [segmentMessage g.toNat hpad], Sized c := by
      intro c hc'
      rcases List.mem_append.mp hc' with hc' | hc'
      · exact hsized c hc'
      · obtain rfl := List.mem_singleton.mp hc'
        intro n hn
        rw [hnone] at hn
        cases hn
    have hcaches' := caches_getSrcFromControl hp hsized' ep''
    rw [← hbytes] at hcaches'
    exact (hcaches'.source_eq hp hsized').trans (hsource _ hnone)

end RoundTrip

/-- Control data as the kernel delivers it: a segment size, and an IPv6 source. -/
def groAndPktinfo6 : List FramedMessage :=
  [⟨solUDP, udpGRO, leBytes sizeOfGSOData 1200, List.replicate 6 0,
      framed_gso udpGRO 1200 (by decide) rfl⟩,
    ⟨ipprotoIPv6, ipv6Pktinfo, List.replicate 15 0 ++ [1, 7, 0, 0, 0], List.replicate 4 0,
      framed_pktinfo6 rfl rfl⟩]

theorem sized_groAndPktinfo6 : ∀ c ∈ groAndPktinfo6, Sized c := by
  intro c hc n hn
  rcases List.mem_cons.mp hc with rfl | hc
  · cases hn
  · obtain rfl := List.mem_singleton.mp hc
    exact Option.some.inj hn

/-- The source is the loopback address on interface 7, and an earlier source is replaced by it. -/
theorem reads_groAndPktinfo6 :
    let ep' := getSrcFromControl .linux (groAndPktinfo6.flatMap FramedMessage.bytes)
      ⟨.zero, 0, .ofList (List.replicate 40 9)⟩
    let out := (setGSOSize .linux (setSrcControl .linux (.ofList (List.replicate 64 5)) ep')
      (1200 : UInt16).toNat).toList
    stickySource groAndPktinfo6 = (.ofSlice (List.replicate 15 0 ++ [1]), 7) ∧
    (ep'.srcIP .linux, ep'.srcIfidx .linux) = stickySource groAndPktinfo6 ∧
    Platform.linux.control.Reads out
      (((firstPktinfo groAndPktinfo6).toList.map fun x => (x.2.header, x.2.data)) ++
        [(⟨cmsgLen sizeOfGSOData, solUDP, udpSegment⟩,
          leBytes sizeOfGSOData (1200 : UInt16).toNat)]) ∧
    ∀ ep'', ((getSrcFromControl .linux out ep'').srcIP .linux,
      (getSrcFromControl .linux out ep'').srcIfidx .linux) = stickySource groAndPktinfo6 :=
  ⟨by decide, reads_setGSOSize_setSrcControl rfl sized_groAndPktinfo6 _ (by decide) 1200⟩

end BatchUDP
