import BatchUDP.StdNet.Sticky

/-!
# Parsing arbitrary control data

The parsing functions take control data as it comes. They never access anything out of range and
they return, since the parser is only called where a header is left and every round consumes one.
What they cache is another matter: a `PKTINFO` message is cached with the length field it came with,
in a buffer of the size that its type prescribes.

## Main definitions

* `getSrcFromControlChecked`, `getGSOSizeChecked`: the parsing functions with every access checked
* `OnePktinfo src`: the bytes are a single `PKTINFO` message
* `ControlSafe p control`: parsing the control data is safe
* `Cacheable size data`: the data covers what the source is read from, and fits into the buffer

## Main results

* `getSrcFromControlChecked_eq`, `getGSOSizeChecked_eq`: no access is out of range
* `controlSafe_iff`: parsing is safe iff the first `PKTINFO` message is cacheable
-/

namespace BatchUDP

open Go Unix

/-! ## Checked parsing -/

/-- The loop of `SocketControl.scan` with every access checked: none stands for an access out of
range, and for a loop that goes on after the given number of rounds. -/
def scanChecked {β : Type} (sc : SocketControl) (f : Cmsghdr → List UInt8 → Option (Option β)) :
    ℕ → List UInt8 → Option (Except Error (Option β))
  | 0, _ => none
  | k + 1, rem =>
    if rem.length ≤ sizeofCmsghdr then some (.ok none)
    else
      match sc.parse rem with
      | .error e => some (.error e)
      | .ok (hdr, data, rem') => do
        match ← f hdr data with
        | some r => some (.ok (some r))
        | none => scanChecked sc f k rem'

/-- `groData` with the slice expression `data[:sizeOfGSOData]` checked. -/
def groDataChecked (hdr : Cmsghdr) (data : List UInt8) : Option (Option ℕ) :=
  if hdr.level = solUDP ∧ hdr.type = udpGRO ∧ sizeOfGSOData ≤ data.length then do
    let gso ← (Slice.ofList data).sub 0 sizeOfGSOData
    some (some (leNat gso))
  else some none

/-- `getGSOSize` with every access checked. -/
def getGSOSizeChecked (p : Platform) (rounds : ℕ) (control : List UInt8) :
    Option (Except Error ℕ) :=
  if p.hasOffload then do
    match ← scanChecked p.control groDataChecked rounds control with
    | .error e => some (.error (.wrapped "error parsing socket control message" e))
    | .ok (some gso) => some (.ok gso)
    | .ok none => some (.ok 0)
  else some (.ok 0)

/-- `cacheSrc` with the slice expressions for the buffer and for the place of the data checked. -/
def cacheSrcChecked (src : Slice UInt8) (hdr : Cmsghdr) (data : List UInt8) (size : ℕ) :
    Option (Slice UInt8) := do
  let buf := if src.cap < cmsgSpace size then Slice.ofList (List.replicate (cmsgSpace size) 0)
    else src
  let s ← buf.reslice (cmsgSpace size)
  let s := s.copy hdr.bytes
  if cmsgLen 0 ≤ s.len then some (s.copyAt (cmsgLen 0) data) else none

/-- `getSrcFromControl` with every access checked. -/
def getSrcFromControlChecked (p : Platform) (rounds : ℕ) (control : List UInt8)
    (ep : StdNetEndpoint) : Option StdNetEndpoint :=
  if p.goos = .linux then do
    let ep := ep.clearSrc
    match ← scanChecked p.control (fun hdr data => some (pktinfoData hdr data)) rounds control with
    | .ok (some (hdr, data, size)) => do
      let src ← cacheSrcChecked ep.src hdr data size
      some { ep with src := src }
    | .ok none => some ep
    | .error _ => some ep
  else some ep

section Checked

variable {p : Platform} {rounds : ℕ} {control : List UInt8}

/-- The loop ends within as many rounds as the buffer has bytes, and every access is in range if
those of the round are. -/
theorem scanChecked_eq {β : Type} (sc : SocketControl) {f : Cmsghdr → List UInt8 → Option β}
    {f' : Cmsghdr → List UInt8 → Option (Option β)} (hf : ∀ h d, f' h d = some (f h d))
    (hk : control.length < rounds) :
    scanChecked sc f' rounds control = some (sc.scan f control) := by
  induction rounds generalizing control with
  | zero => omega
  | succ k ih =>
    unfold scanChecked
    by_cases hb : control.length ≤ sizeofCmsghdr
    · rw [if_pos hb, sc.scan_of_le f hb]
    rw [if_neg hb]
    by_cases hh : Headed control
    · have hlt := hh.length_afterMessage
      have h16 : sizeofCmsghdr = 16 := rfl
      rw [sc.parse_of_headed hh, sc.scan_of_headed f (not_le.mp hb) hh]
      simp only [hf]
      cases f (.ofBytes control) (messageData control) with
      | some r => rfl
      | none => exact ih (by omega)
    · obtain ⟨e, he⟩ := sc.exists_parse_error (not_le.mp hb).le hh
      rw [he, sc.scan_of_parse_error f (not_le.mp hb) he]

theorem groDataChecked_eq (hdr : Cmsghdr) (data : List UInt8) :
    groDataChecked hdr data = some (groData hdr data) := by
  unfold groDataChecked groData
  split_ifs with hc
  · rw [Slice.sub_of_le (Nat.zero_le _) hc.2.2]
    rfl
  · rfl

theorem cacheSrcChecked_eq (src : Slice UInt8) (hdr : Cmsghdr) (data : List UInt8) (size : ℕ) :
    cacheSrcChecked src hdr data size = some (cacheSrc src hdr data size) := by
  obtain ⟨s, hs, hlen, -⟩ := exists_reslice_oldSrc src size
  have hle : cmsgLen 0 ≤ (s.copy hdr.bytes).len := by
    rw [Slice.len_copy, hlen, cmsgLen, cmsgSpace]
    omega
  simp only [cacheSrcChecked, cacheSrc, hs, Option.bind_eq_bind, Option.bind_some, if_pos hle]

theorem getGSOSizeChecked_eq (hk : control.length < rounds) :
    getGSOSizeChecked p rounds control = some (getGSOSize p control) := by
  unfold getGSOSizeChecked getGSOSize
  split_ifs with hoff
  · rw [scanChecked_eq p.control groDataChecked_eq hk]
    simp only [Option.bind_eq_bind, Option.bind_some]
    cases p.control.scan groData control with
    | error e => rfl
    | ok r => cases r <;> rfl
  · rfl

theorem getSrcFromControlChecked_eq (hk : control.length < rounds) (ep : StdNetEndpoint) :
    getSrcFromControlChecked p rounds control ep = some (getSrcFromControl p control ep) := by
  unfold getSrcFromControlChecked getSrcFromControl
  split_ifs with hp
  · rw [scanChecked_eq p.control (fun _ _ => rfl) hk]
    simp only [Option.bind_eq_bind, Option.bind_some]
    cases p.control.scan pktinfoData control with
    | error e => rfl
    | ok r =>
      cases r with
      | none => rfl
      | some x => simp only [cacheSrcChecked_eq, Option.bind_some]
  · rfl

end Checked

/-! ## Safety -/

/-- The bytes are a single `PKTINFO` message: its length field is in range, and what follows it is
too short for another header. -/
structure OnePktinfo (src : List UInt8) : Prop where
  pktinfo : pktinfoSize (.ofBytes src) ≠ none
  headed : Headed src
  single : (afterMessage src).length < sizeofCmsghdr

/-- Parsing the control data is safe: both functions return without an access out of range, and
every endpoint is left without a source or with a single message, and with a source that does not
depend on what it had cached before. -/
structure ControlSafe (p : Platform) (control : List UInt8) : Prop where
  src_returns : ∀ ep rounds, control.length < rounds →
    getSrcFromControlChecked p rounds control ep = some (getSrcFromControl p control ep)
  gso_returns : ∀ rounds, control.length < rounds →
    getGSOSizeChecked p rounds control = some (getGSOSize p control)
  wellFormed : ∀ ep, (getSrcFromControl p control ep).src.toList = [] ∨
    OnePktinfo (getSrcFromControl p control ep).src.toList
  srcIP_eq : ∀ ep ep', (getSrcFromControl p control ep).srcIP p =
    (getSrcFromControl p control ep').srcIP p
  srcIfidx_eq : ∀ ep ep', (getSrcFromControl p control ep).srcIfidx p =
    (getSrcFromControl p control ep').srcIfidx p

/-- The data of a `PKTINFO` message covers the bytes that the source is read from, 8 or 20, and fits
into the buffer, which has room for 16 or 24. -/
def Cacheable (size : ℕ) (data : List UInt8) : Prop :=
  infoLen size ≤ data.length ∧ data.length ≤ cmsgAlign size

section Safety

variable {p : Platform} {control data : List UInt8} {hdr : Cmsghdr} {size : ℕ}

/-- A message that the loop stops at. -/
theorem pktinfo_of_meets (h : Meets pktinfoData control (hdr, data, size)) :
    pktinfoSize hdr = some size ∧ hdr.len = cmsgLen data.length ∧
      ∀ rest, Cmsghdr.ofBytes (hdr.bytes ++ rest) = hdr := by
  obtain ⟨b, hb, hf⟩ := h.exists_headed
  rw [pktinfoData_eq] at hf
  obtain ⟨n, hn, he⟩ := Option.map_eq_some_iff.mp hf
  simp only [Prod.mk.injEq] at he
  obtain ⟨rfl, rfl, rfl⟩ := he
  exact ⟨hn, hb.len_eq, Cmsghdr.ofBytes_bytes_append b⟩

/-- What an endpoint caches of the message that the loop stops at. -/
theorem toList_getSrcFromControl (hp : p.goos = .linux)
    (h : Meets pktinfoData control (hdr, data, size)) (ep : StdNetEndpoint) :
    (getSrcFromControl p control ep).src.toList = hdr.bytes ++
      (data.take (cmsgAlign size) ++ (oldSrc ep.src size).drop (cmsgLen data.length)) := by
  simp only [getSrcFromControl, if_pos hp, p.control.scan_eq_some_iff.mpr h]
  exact toList_cacheSrc ep.clearSrc.src hdr data size

/-- Without such a message the endpoint is left without a source. -/
theorem toList_getSrcFromControl_of_not_meets (hp : p.goos = .linux)
    (h : ∀ r, ¬ Meets pktinfoData control r) (ep : StdNetEndpoint) :
    (getSrcFromControl p control ep).src.toList = [] := by
  simp only [getSrcFromControl, if_pos hp]
  cases hs : p.control.scan pktinfoData control with
  | error e => exact Slice.toList_clear _
  | ok r =>
    cases r with
    | none => exact Slice.toList_clear _
    | some r => exact absurd (p.control.scan_eq_some_iff.mp hs) (h r)

theorem source_getSrcFromControl (hp : p.goos = .linux)
    (h : Meets pktinfoData control (hdr, data, size)) (ep : StdNetEndpoint) :
    (getSrcFromControl p control ep).source p = infoSource size
      (data.take (cmsgAlign size) ++ (oldSrc ep.src size).drop (cmsgLen data.length)) :=
  source_of_toList hp (pktinfo_of_meets h).1 (length_info _ _ _) (toList_getSrcFromControl hp h ep)

/-- Data that covers the source leaves nothing of what was cached before. -/
theorem source_eq_of_cacheable (hp : p.goos = .linux)
    (h : Meets pktinfoData control (hdr, data, size)) (hc : Cacheable size data)
    (ep : StdNetEndpoint) : (getSrcFromControl p control ep).source p = infoSource size data := by
  rw [source_getSrcFromControl hp h ep, List.take_of_length_le hc.2]
  exact infoSource_append hc.1 _

/-- Data that fits leaves a single message. -/
theorem onePktinfo_of_cacheable (hp : p.goos = .linux)
    (h : Meets pktinfoData control (hdr, data, size)) (hc : Cacheable size data)
    (ep : StdNetEndpoint) : OnePktinfo (getSrcFromControl p control ep).src.toList := by
  obtain ⟨hs, hlen, hread⟩ := pktinfo_of_meets h
  obtain ⟨hlow, hhigh⟩ := hc
  have hsrc := toList_getSrcFromControl hp h ep
  have hl : (getSrcFromControl p control ep).src.toList.length = cmsgSpace size := by
    rw [hsrc, List.length_append, hdr.length_bytes, length_info, cmsgSpace]
  have hof : Cmsghdr.ofBytes (getSrcFromControl p control ep).src.toList = hdr := by
    rw [hsrc, hread]
  refine ⟨?_, ⟨?_, ?_, ?_⟩, ?_⟩
  · rw [hof, hs]
    exact Option.some_ne_none _
  · rw [hl, cmsgSpace]
    omega
  · rw [hof, hlen, cmsgLen]
    omega
  · rw [hof, hlen, hl, cmsgLen, cmsgSpace]
    omega
  · rw [afterMessage, hof, hlen, List.length_drop, hl, cmsgAlign_cmsgLen, cmsgSpace, cmsgSpace]
    unfold infoLen at hlow
    unfold cmsgAlign sizeofCmsghdr
    rcases pktinfoSize_cases hs with rfl | rfl
    · simp only [if_pos] at hlow
      unfold sizeofInet4Pktinfo
      omega
    · unfold sizeofInet6Pktinfo sizeofInet4Pktinfo at *
      simp only [Nat.reduceEqDiff, if_false] at hlow
      omega

/-- An endpoint that has cached a source of `b` bytes. -/
def stale (b : UInt8) : StdNetEndpoint := ⟨.zero, 0, .ofList (List.replicate 40 b)⟩

theorem oldSrc_stale (b : UInt8) (hs : pktinfoSize hdr = some size) :
    oldSrc (stale b).src size = List.replicate (cmsgSpace size) b := by
  rcases pktinfoSize_cases hs with rfl | rfl <;> rfl

/-- Data that is too short for the source leaves bytes of an earlier one. -/
theorem infoLen_le_of_source_eq (hp : p.goos = .linux)
    (h : Meets pktinfoData control (hdr, data, size))
    (he : (getSrcFromControl p control (stale 0)).source p =
      (getSrcFromControl p control (stale 1)).source p) : infoLen size ≤ data.length := by
  obtain ⟨hs, -, -⟩ := pktinfo_of_meets h
  by_contra hlt
  have hle := infoLen_le_cmsgAlign hs
  rw [source_getSrcFromControl hp h, source_getSrcFromControl hp h] at he
  have htake := take_infoLen_of_infoSource (by rw [length_info]; exact hle)
    (by rw [length_info]; exact hle) he
  have hd : data.take (cmsgAlign size) = data := List.take_of_length_le (by omega)
  rw [hd, oldSrc_stale 0 hs, oldSrc_stale 1 hs, List.drop_replicate, List.drop_replicate,
    List.take_append, List.take_append, List.take_replicate, List.take_replicate] at htake
  have hrep := List.append_cancel_left htake
  obtain ⟨k, hk⟩ : ∃ k, min (infoLen size - data.length) (cmsgSpace size - cmsgLen data.length) =
      k + 1 := by
    refine ⟨min (infoLen size - data.length) (cmsgSpace size - cmsgLen data.length) - 1, ?_⟩
    rw [cmsgSpace, cmsgLen]
    omega
  rw [hk, List.replicate_succ, List.replicate_succ] at hrep
  exact absurd (List.cons.inj hrep).1 (by decide)

/-- Control data is safe if every endpoint is left well-formed, and with the same source. -/
theorem controlSafe_of_source {source : Addr × ℤ}
    (hwf : ∀ ep, (getSrcFromControl p control ep).src.toList = [] ∨
      OnePktinfo (getSrcFromControl p control ep).src.toList)
    (hsource : ∀ ep, (getSrcFromControl p control ep).source p = source) :
    ControlSafe p control where
  src_returns ep _ hk := getSrcFromControlChecked_eq hk ep
  gso_returns _ hk := getGSOSizeChecked_eq hk
  wellFormed := hwf
  srcIP_eq ep ep' := congrArg Prod.fst ((hsource ep).trans (hsource ep').symm)
  srcIfidx_eq ep ep' := congrArg Prod.snd ((hsource ep).trans (hsource ep').symm)

/-- **Parsing control data is safe iff the first `PKTINFO` message is cacheable**, if there is one
before a malformed message. -/
theorem controlSafe_iff (hp : p.goos = .linux) (control : List UInt8) :
    ControlSafe p control ↔
      ∀ hdr data size, Meets pktinfoData control (hdr, data, size) → Cacheable size data := by
  constructor
  · intro hsafe hdr data size h
    obtain ⟨hs, hlen, hread⟩ := pktinfo_of_meets h
    refine ⟨infoLen_le_of_source_eq hp h
      (Prod.ext (hsafe.srcIP_eq _ _) (hsafe.srcIfidx_eq _ _)), ?_⟩
    have hsrc := toList_getSrcFromControl hp h (stale 0)
    rcases hsafe.wellFormed (stale 0) with hnil | hone
    · have h0 := congrArg List.length (hsrc.symm.trans hnil)
      rw [List.length_append, hdr.length_bytes] at h0
      cases (Nat.add_eq_zero_iff.mp h0).1
    · have hle := hone.headed.len_le
      rw [hsrc, hread, hlen, List.length_append, hdr.length_bytes, length_info, cmsgLen] at hle
      omega
  · intro hc
    by_cases hmeets : ∃ r, Meets pktinfoData control r
    · obtain ⟨⟨hdr, data, size⟩, h⟩ := hmeets
      have hcache := hc hdr data size h
      exact controlSafe_of_source (fun ep => .inr (onePktinfo_of_cacheable hp h hcache ep))
        (source_eq_of_cacheable hp h hcache)
    · have hnil := toList_getSrcFromControl_of_not_meets hp (not_exists.mp hmeets)
      exact controlSafe_of_source (fun ep => .inl (hnil ep)) fun ep => source_of_nil hp (hnil ep)

end Safety

/-- Control data with a segment size and a source of the right size is safe. -/
theorem controlSafe_groAndPktinfo6 :
    ControlSafe .linux (groAndPktinfo6.flatMap FramedMessage.bytes) := by
  refine (controlSafe_iff rfl _).mpr fun hdr data size h => ?_
  have hs := Platform.linux.control.scan_eq_some_iff.mpr h
  rw [scan_pktinfoData _ sized_groAndPktinfo6] at hs
  obtain ⟨-, rfl, rfl⟩ : _ = hdr ∧ _ = data ∧ _ = size := by
    simpa only [Prod.mk.injEq] using Option.some.inj (Except.ok.inj hs)
  exact ⟨by decide, by decide⟩

/-- A message that ends behind the interface index. -/
def shortPktinfo : List UInt8 := cmsg ipprotoIP ipPktinfo [7, 0, 0, 0] [0, 0, 0, 0]

/-- A message with more data than its type has. -/
def longPktinfo : List UInt8 := cmsg ipprotoIP ipPktinfo (List.replicate 32 0) []

/-- A short message leaves the address that the endpoint had cached before. A long one leaves a
header whose length field exceeds what is cached. -/
theorem not_controlSafe_short_long :
    (¬ ControlSafe .linux shortPktinfo ∧
      (getSrcFromControl .linux shortPktinfo (.ofAddrPort .zero 0)).srcIP .linux =
        .v4 #v[0, 0, 0, 0] ∧
      (getSrcFromControl .linux shortPktinfo (stale 9)).srcIP .linux = .v4 #v[9, 9, 9, 9]) ∧
    ¬ ControlSafe .linux longPktinfo ∧
      (getSrcFromControl .linux longPktinfo (.ofAddrPort .zero 0)).src.len = 32 ∧
      (Cmsghdr.ofBytes
        (getSrcFromControl .linux longPktinfo (.ofAddrPort .zero 0)).src.toList).len = 48 := by
  have hfresh : (getSrcFromControl .linux shortPktinfo (.ofAddrPort .zero 0)).srcIP .linux =
      .v4 #v[0, 0, 0, 0] := by decide
  have hstale : (getSrcFromControl .linux shortPktinfo (stale 9)).srcIP .linux =
      .v4 #v[9, 9, 9, 9] := by decide
  have hlen : (getSrcFromControl .linux longPktinfo (.ofAddrPort .zero 0)).src.len = 32 := by decide
  have hfield : (Cmsghdr.ofBytes
      (getSrcFromControl .linux longPktinfo (.ofAddrPort .zero 0)).src.toList).len = 48 := by decide
  refine ⟨⟨fun hsafe => ?_, hfresh, hstale⟩, fun hsafe => ?_, hlen, hfield⟩
  · have he := hsafe.srcIP_eq (.ofAddrPort .zero 0) (stale 9)
    rw [hfresh, hstale] at he
    exact absurd he (by decide)
  · rcases hsafe.wellFormed (.ofAddrPort .zero 0) with hnil | hone
    · rw [Slice.toList_eq_nil_iff, hlen] at hnil
      cases hnil
    · have hle := hone.headed.len_le
      rw [hfield, Slice.length_toList, hlen] at hle
      omega

end BatchUDP
