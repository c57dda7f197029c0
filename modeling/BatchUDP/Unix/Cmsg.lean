import BatchUDP.Go.Runtime

/-!
# Socket control messages

Ancillary data of a socket is a sequence of control messages, each a header with a length, a level
and a type, followed by its data and by padding up to the next aligned header. The layout is that
of 64-bit little-endian Linux.

## Main definitions

* `leBytes`, `leNat`: little-endian integers
* `Cmsghdr`, `cmsgLen`, `cmsgSpace`: the header and the size functions
* `cmsg level type data pad`: the bytes of one control message
* `SocketControl`: the function `ParseOneSocketControlMessage`, with its documented behaviour
* `SocketControl.scan`: the loop over the control messages of a buffer
* `Headed`: a buffer starts with a control message
* `SocketControl.Reads`, `Meets`: the messages that parsing reads, and what the loop stops at
* `FramedMessage`: a control message with any data and padding
* `ControlMessage`, `ControlMessage.encode`: well-formed control messages, and their bytes
* `findMessage`: the first control message of a level and type, as the kernel reads a buffer

## Main results

* `SocketControl.parse_of_headed`, `SocketControl.exists_parse_error`: parsing succeeds on a buffer
  that starts with a control message, and fails on any other
* `SocketControl.scan_eq_some_iff`: the loop returns what it makes of the message that it meets
* `SocketControl.scan_cmsg`: the loop peels one control message off
* `SocketControl.scan_framed`, `SocketControl.scan_encode`: the loop looks at control messages one
  after the other
* `findMessage_cmsg`: so does the kernel
-/

namespace Unix

open Go (Error)

/-! ## Little-endian integers -/

/-- The `k` low bytes of `v`, the lowest first. -/
def leBytes : ℕ → ℕ → List UInt8
  | 0, _ => []
  | k + 1, v => UInt8.ofNat v :: leBytes k (v / 256)

/-- The value of a little-endian integer. -/
def leNat : List UInt8 → ℕ
  | [] => 0
  | b :: bs => b.toNat + 256 * leNat bs

@[simp] theorem length_leBytes (k v : ℕ) : (leBytes k v).length = k := by
  induction k generalizing v with
  | zero => rfl
  | succ k ih => simp [leBytes, ih]

/-- An integer that fits is read back. -/
theorem leNat_leBytes {k v : ℕ} (h : v < 256 ^ k) : leNat (leBytes k v) = v := by
  induction k generalizing v with
  | zero =>
    have : v = 0 := by simpa using h
    simp [leBytes, leNat, this]
  | succ k ih =>
    have hq : v / 256 < 256 ^ k := by
      rw [pow_succ] at h
      exact Nat.div_lt_of_lt_mul (by rwa [Nat.mul_comm] at h)
    have hb : (UInt8.ofNat v).toNat = v % 256 := by simp
    rw [leBytes, leNat, ih hq, hb]
    exact Nat.mod_add_div v 256

theorem leNat_lt (bs : List UInt8) : leNat bs < 256 ^ bs.length := by
  induction bs with
  | nil => simp [leNat]
  | cons b bs ih =>
    have hb : b.toNat < 256 := b.toNat_lt
    rw [leNat, List.length_cons, pow_succ]
    omega

/-- Bytes are determined by their number and the value they make up. -/
theorem leNat_inj {bs bs' : List UInt8} (hl : bs.length = bs'.length) :
    leNat bs = leNat bs' ↔ bs = bs' := by
  refine ⟨fun h => ?_, fun h => h ▸ rfl⟩
  induction bs generalizing bs' with
  | nil => exact (List.length_eq_zero_iff.mp hl.symm).symm
  | cons b bs ih =>
    obtain ⟨b', bs', rfl⟩ := List.exists_cons_of_length_pos (l := bs') (by rw [← hl]; simp)
    have hb : b.toNat < 256 := b.toNat_lt
    have hb' : b'.toNat < 256 := b'.toNat_lt
    rw [leNat, leNat] at h
    have hlow : b.toNat = b'.toNat := by omega
    rw [UInt8.toNat_inj.mp hlow, ih (by simpa using hl) (by omega)]

/-! ## Headers and sizes -/

/-- The size of a control message header. -/
def sizeofCmsghdr : ℕ := 16

/-- Alignment to the next header position. -/
def cmsgAlign (n : ℕ) : ℕ := (n + 7) / 8 * 8

/-- `unix.CmsgLen`: the length field of a message with `n` data bytes. -/
def cmsgLen (n : ℕ) : ℕ := sizeofCmsghdr + n

/-- `unix.CmsgSpace`: the space a message with `n` data bytes takes. -/
def cmsgSpace (n : ℕ) : ℕ := sizeofCmsghdr + cmsgAlign n

/-- A control message header. -/
structure Cmsghdr where
  len : ℕ
  level : ℕ
  type : ℕ
  deriving DecidableEq, Repr

/-- The bytes of a header. -/
def Cmsghdr.bytes (h : Cmsghdr) : List UInt8 :=
  leBytes 8 h.len ++ leBytes 4 h.level ++ leBytes 4 h.type

/-- The header at the start of a buffer. -/
def Cmsghdr.ofBytes (b : List UInt8) : Cmsghdr where
  len := leNat (b.take 8)
  level := leNat ((b.drop 8).take 4)
  type := leNat ((b.drop 12).take 4)

@[simp] theorem Cmsghdr.length_bytes (h : Cmsghdr) : h.bytes.length = sizeofCmsghdr := by
  simp [Cmsghdr.bytes, sizeofCmsghdr]

/-- A header whose fields fit is read back, whatever follows it. -/
theorem Cmsghdr.ofBytes_append {h : Cmsghdr} (hl : h.len < 256 ^ 8) (hv : h.level < 256 ^ 4)
    (ht : h.type < 256 ^ 4) (rest : List UInt8) : Cmsghdr.ofBytes (h.bytes ++ rest) = h := by
  have h8 : (leBytes 8 h.len).length = 8 := length_leBytes 8 _
  have h4 : (leBytes 4 h.level).length = 4 := length_leBytes 4 _
  have e1 : (h.bytes ++ rest).take 8 = leBytes 8 h.len := by
    rw [Cmsghdr.bytes, List.append_assoc, List.append_assoc, List.take_left' h8]
  have e2 : ((h.bytes ++ rest).drop 8).take 4 = leBytes 4 h.level := by
    rw [Cmsghdr.bytes, List.append_assoc, List.append_assoc, List.drop_left' h8,
      List.take_left' h4]
  have e3 : ((h.bytes ++ rest).drop 12).take 4 = leBytes 4 h.type := by
    have h12 : (leBytes 8 h.len ++ leBytes 4 h.level).length = 12 := by simp
    rw [Cmsghdr.bytes, List.append_assoc, List.drop_left' h12,
      List.take_left' (length_leBytes 4 _)]
  simp only [Cmsghdr.ofBytes, e1, e2, e3, leNat_leBytes hl, leNat_leBytes hv, leNat_leBytes ht]

/-- A header taken from a buffer fits, so that it is read back. -/
theorem Cmsghdr.ofBytes_bytes_append (b rest : List UInt8) :
    Cmsghdr.ofBytes ((Cmsghdr.ofBytes b).bytes ++ rest) = .ofBytes b := by
  have hlt (l : List UInt8) (k : ℕ) : leNat (l.take k) < 256 ^ k :=
    (leNat_lt _).trans_le (Nat.pow_le_pow_right (by decide) (List.length_take_le _ _))
  exact Cmsghdr.ofBytes_append (hlt _ _) (hlt _ _) (hlt _ _) rest

/-- The bytes of one control message. -/
def cmsg (level type : ℕ) (data pad : List UInt8) : List UInt8 :=
  (Cmsghdr.mk (cmsgLen data.length) level type).bytes ++ data ++ pad

/-- The data and padding of a message fill its aligned space. -/
structure Framed (level type : ℕ) (data pad : List UInt8) : Prop where
  level_lt : level < 256 ^ 4
  type_lt : type < 256 ^ 4
  data_lt : cmsgLen data.length < 256 ^ 8
  pad_eq : data.length + pad.length = cmsgAlign data.length

section Framed

variable {level type : ℕ} {data pad : List UInt8}

theorem length_cmsg (h : Framed level type data pad) :
    (cmsg level type data pad).length = cmsgSpace data.length := by
  have := h.pad_eq
  simp only [cmsg, List.length_append, Cmsghdr.length_bytes, cmsgSpace]
  omega

variable (level type data pad) in
theorem sizeofCmsghdr_le_cmsg : sizeofCmsghdr ≤ (cmsg level type data pad).length := by
  simp only [cmsg, List.length_append, Cmsghdr.length_bytes]
  omega

theorem ofBytes_cmsg (h : Framed level type data pad) (rest : List UInt8) :
    Cmsghdr.ofBytes (cmsg level type data pad ++ rest) = ⟨cmsgLen data.length, level, type⟩ := by
  rw [cmsg, List.append_assoc, List.append_assoc]
  exact Cmsghdr.ofBytes_append h.data_lt h.level_lt h.type_lt _

theorem cmsgAlign_cmsgLen (n : ℕ) : cmsgAlign (cmsgLen n) = cmsgSpace n := by
  simp only [cmsgAlign, cmsgLen, cmsgSpace, sizeofCmsghdr]
  omega

theorem drop_cmsg (h : Framed level type data pad) (rest : List UInt8) :
    (cmsg level type data pad ++ rest).drop (cmsgAlign (cmsgLen data.length)) = rest := by
  rw [cmsgAlign_cmsgLen, ← length_cmsg h, List.drop_left]

theorem data_cmsg (rest : List UInt8) :
    ((cmsg level type data pad ++ rest).take (cmsgLen data.length)).drop sizeofCmsghdr = data := by
  have hl : ((Cmsghdr.mk (cmsgLen data.length) level type).bytes ++ data).length =
      cmsgLen data.length := by simp [cmsgLen]
  rw [cmsg, List.append_assoc _ pad, List.take_left' hl, List.drop_left' (Cmsghdr.length_bytes _)]

variable (level type data pad) in
theorem cmsgLen_le_cmsg (rest : List UInt8) :
    cmsgLen data.length ≤ (cmsg level type data pad ++ rest).length := by
  simp only [cmsg, List.length_append, Cmsghdr.length_bytes, cmsgLen]
  omega

end Framed

/-! ## The parser -/

/-- The data of the message that a buffer starts with. -/
def messageData (b : List UInt8) : List UInt8 :=
  (b.take (Cmsghdr.ofBytes b).len).drop sizeofCmsghdr

/-- What follows the message that a buffer starts with. -/
def afterMessage (b : List UInt8) : List UInt8 := b.drop (cmsgAlign (Cmsghdr.ofBytes b).len)

/-- A buffer starts with a message whose length field is in range. -/
structure Headed (b : List UInt8) : Prop where
  header_le : sizeofCmsghdr ≤ b.length
  le_len : sizeofCmsghdr ≤ (Cmsghdr.ofBytes b).len
  len_le : (Cmsghdr.ofBytes b).len ≤ b.length

theorem Headed.len_eq {b : List UInt8} (h : Headed b) :
    (Cmsghdr.ofBytes b).len = cmsgLen (messageData b).length := by
  have h1 := h.le_len
  have h2 := h.len_le
  rw [cmsgLen, messageData, List.length_drop, List.length_take]
  omega

/-- A round consumes at least a header. -/
theorem Headed.length_afterMessage {b : List UInt8} (h : Headed b) :
    (afterMessage b).length + sizeofCmsghdr ≤ b.length := by
  have h1 := h.le_len
  have h2 := h.len_le
  have : (Cmsghdr.ofBytes b).len ≤ cmsgAlign (Cmsghdr.ofBytes b).len := by
    unfold cmsgAlign
    omega
  rw [afterMessage, List.length_drop]
  omega

theorem headed_cmsg {level type : ℕ} {data pad : List UInt8} (h : Framed level type data pad)
    (rest : List UInt8) : Headed (cmsg level type data pad ++ rest) := by
  have hlen := cmsgLen_le_cmsg level type data pad rest
  have hb := ofBytes_cmsg h rest
  refine ⟨?_, by rw [hb]; simp [cmsgLen], by rw [hb]; exact hlen⟩
  rw [cmsgLen] at hlen
  omega

/-- `ParseOneSocketControlMessage` of `golang.org/x/sys/unix`, with its documented behaviour on
buffers that hold a header: it returns the header, its data and the aligned remainder, or an error
when the length field is below the header size or beyond the buffer. -/
structure SocketControl where
  parse : List UInt8 → Except Error (Cmsghdr × List UInt8 × List UInt8)
  parse_ok : ∀ b, sizeofCmsghdr ≤ b.length → sizeofCmsghdr ≤ (Cmsghdr.ofBytes b).len →
    (Cmsghdr.ofBytes b).len ≤ b.length →
    parse b = .ok (Cmsghdr.ofBytes b, (b.take (Cmsghdr.ofBytes b).len).drop sizeofCmsghdr,
      b.drop (cmsgAlign (Cmsghdr.ofBytes b).len))
  parse_error : ∀ b, sizeofCmsghdr ≤ b.length →
    (Cmsghdr.ofBytes b).len < sizeofCmsghdr ∨ b.length < (Cmsghdr.ofBytes b).len →
    ∃ e, parse b = .error e

namespace SocketControl

/-- A parser that behaves as documented and answers `EINVAL` otherwise. -/
def sys : SocketControl where
  parse b :=
    if sizeofCmsghdr ≤ (Cmsghdr.ofBytes b).len ∧ (Cmsghdr.ofBytes b).len ≤ b.length then
      .ok (Cmsghdr.ofBytes b, (b.take (Cmsghdr.ofBytes b).len).drop sizeofCmsghdr,
        b.drop (cmsgAlign (Cmsghdr.ofBytes b).len))
    else .error (.errno .einval)
  parse_ok _ _ h1 h2 := if_pos ⟨h1, h2⟩
  parse_error _ _ h := ⟨_, if_neg (by omega)⟩

variable {β : Type} (sc : SocketControl) (f : Cmsghdr → List UInt8 → Option β)

/-- The loop over the control messages of `rem`: the first result of `f`, or none at the end of the
buffer. Every round consumes a header, so the length of the buffer bounds the rounds. -/
def scanFrom : ℕ → List UInt8 → Except Error (Option β)
  | 0, _ => .ok none
  | k + 1, rem =>
    -- a rest that holds no more than a header is ignored
    if rem.length ≤ sizeofCmsghdr then .ok none
    else
      match sc.parse rem with
      | .error e => .error e
      | .ok (hdr, data, rem') =>
        match f hdr data with
        | some r => .ok (some r)
        | none => scanFrom k rem'

/-- The loop over the control messages of a buffer. -/
def scan (control : List UInt8) : Except Error (Option β) := sc.scanFrom f control.length control

theorem scan_of_le {control : List UInt8} (h : control.length ≤ sizeofCmsghdr) :
    sc.scan f control = .ok none := by
  unfold scan
  cases control.length with
  | zero => rfl
  | succ k => simp only [scanFrom, if_pos h]

theorem parse_of_headed {b : List UInt8} (h : Headed b) :
    sc.parse b = .ok (.ofBytes b, messageData b, afterMessage b) :=
  sc.parse_ok b h.header_le h.le_len h.len_le

theorem exists_parse_error {b : List UInt8} (hb : sizeofCmsghdr ≤ b.length) (h : ¬ Headed b) :
    ∃ e, sc.parse b = .error e :=
  sc.parse_error b hb (by
    by_contra hn
    exact h ⟨hb, by omega, by omega⟩)

/-- The length of the buffer is enough rounds. -/
theorem scanFrom_eq_scan {k : ℕ} {b : List UInt8} (hk : b.length ≤ k) :
    sc.scanFrom f k b = sc.scan f b := by
  -- the induction is on the length of the buffer, for all bounds on the rounds at once
  induction hn : b.length using Nat.strong_induction_on generalizing b k with
  | _ n ih =>
    by_cases hb : b.length ≤ sizeofCmsghdr
    · rw [scan_of_le sc f hb]
      cases k with
      | zero => rfl
      | succ k => simp only [scanFrom, if_pos hb]
    · obtain ⟨k, rfl⟩ : ∃ m, k = m + 1 := ⟨k - 1, by omega⟩
      obtain ⟨m, hm⟩ : ∃ m, b.length = m + 1 := ⟨b.length - 1, by omega⟩
      rw [scan, hm]
      simp only [scanFrom, if_neg hb]
      by_cases hh : Headed b
      · have hlt := hh.length_afterMessage
        have h16 : sizeofCmsghdr = 16 := rfl
        rw [sc.parse_of_headed hh]
        simp only
        cases f (.ofBytes b) (messageData b) with
        | some r => rfl
        | none => simp only; rw [ih _ (by omega) (k := k) (by omega) rfl,
            ih _ (by omega) (k := m) (by omega) rfl]
      · obtain ⟨e, he⟩ := sc.exists_parse_error (by omega) hh
        rw [he]

/-- The loop decides on the first message and continues behind it. -/
theorem scan_of_headed {b : List UInt8} (hb : sizeofCmsghdr < b.length) (h : Headed b) :
    sc.scan f b =
      match f (.ofBytes b) (messageData b) with
      | some r => .ok (some r)
      | none => sc.scan f (afterMessage b) := by
  have h16 : sizeofCmsghdr = 16 := rfl
  have hlt := h.length_afterMessage
  obtain ⟨m, hm⟩ : ∃ m, b.length = m + 1 := ⟨b.length - 1, by omega⟩
  rw [scan, hm]
  simp only [scanFrom, if_neg (not_le.mpr hb), sc.parse_of_headed h]
  cases f (.ofBytes b) (messageData b) with
  | some r => rfl
  | none => exact scanFrom_eq_scan sc f (by omega)

/-- The loop fails where the parser does. -/
theorem scan_of_parse_error {b : List UInt8} (hb : sizeofCmsghdr < b.length) {e : Error}
    (he : sc.parse b = .error e) : sc.scan f b = .error e := by
  obtain ⟨m, hm⟩ : ∃ m, b.length = m + 1 := ⟨b.length - 1, by omega⟩
  rw [scan, hm]
  simp only [scanFrom, if_neg (not_le.mpr hb), he]

theorem parse_cmsg {level type : ℕ} {data pad : List UInt8} (h : Framed level type data pad)
    (rest : List UInt8) : sc.parse (cmsg level type data pad ++ rest) =
      .ok (⟨cmsgLen data.length, level, type⟩, data, rest) := by
  rw [sc.parse_of_headed (headed_cmsg h rest), messageData, afterMessage, ofBytes_cmsg h rest]
  simp only [data_cmsg, drop_cmsg h]

/-- **The loop peels one control message off**: its result on that message, or the result on what
follows it. A message without data at the end of the buffer is not looked at. -/
theorem scan_cmsg {level type : ℕ} {data pad : List UInt8} (h : Framed level type data pad)
    (h0 : data = [] → f ⟨cmsgLen data.length, level, type⟩ data = none) (rest : List UInt8) :
    sc.scan f (cmsg level type data pad ++ rest) =
      match f ⟨cmsgLen data.length, level, type⟩ data with
      | some r => .ok (some r)
      | none => sc.scan f rest := by
  by_cases hle : (cmsg level type data pad ++ rest).length ≤ sizeofCmsghdr
  · have hlen := hle
    rw [List.length_append, length_cmsg h, cmsgSpace] at hlen
    have hd : data = [] := List.length_eq_zero_iff.mp (by unfold cmsgAlign at hlen; omega)
    have hrest : rest.length ≤ sizeofCmsghdr := by omega
    rw [h0 hd, sc.scan_of_le f hle]
    exact (sc.scan_of_le f hrest).symm
  · rw [sc.scan_of_headed f (not_le.mp hle) (headed_cmsg h rest), messageData, afterMessage,
      ofBytes_cmsg h rest]
    simp only [data_cmsg, drop_cmsg h]

/-- What the parser reads from a buffer, message by message until nothing is left. -/
inductive Reads : List UInt8 → List (Cmsghdr × List UInt8) → Prop
  | nil : Reads [] []
  | cons {b : List UInt8} {h : Cmsghdr} {d rest : List UInt8} {ms : List (Cmsghdr × List UInt8)} :
    sc.parse b = .ok (h, d, rest) → Reads rest ms → Reads b ((h, d) :: ms)

end SocketControl

/-- The first message that `f` accepts, in a buffer whose messages up to there have length fields
in range. -/
inductive Meets {β : Type} (f : Cmsghdr → List UInt8 → Option β) : List UInt8 → β → Prop
  | here {b : List UInt8} {r : β} : sizeofCmsghdr < b.length → Headed b →
    f (.ofBytes b) (messageData b) = some r → Meets f b r
  | later {b : List UInt8} {r : β} : sizeofCmsghdr < b.length → Headed b →
    f (.ofBytes b) (messageData b) = none → Meets f (afterMessage b) r → Meets f b r

theorem Meets.exists_headed {β : Type} {f : Cmsghdr → List UInt8 → Option β} {b : List UInt8}
    {r : β} (h : Meets f b r) : ∃ b', Headed b' ∧ f (.ofBytes b') (messageData b') = some r := by
  induction h with
  | here _ hh hf => exact ⟨_, hh, hf⟩
  | later _ _ _ _ ih => exact ih

/-- **The loop finds the first message that `f` accepts.** -/
theorem SocketControl.scan_eq_some_iff {β : Type} (sc : SocketControl)
    {f : Cmsghdr → List UInt8 → Option β} {b : List UInt8} {r : β} :
    sc.scan f b = .ok (some r) ↔ Meets f b r := by
  constructor
  · intro h
    induction hn : b.length using Nat.strong_induction_on generalizing b with
    | _ n ih =>
      by_cases hb : b.length ≤ sizeofCmsghdr
      · rw [sc.scan_of_le f hb] at h
        cases h
      by_cases hh : Headed b
      · rw [sc.scan_of_headed f (not_le.mp hb) hh] at h
        cases hf : f (.ofBytes b) (messageData b) with
        | some r' =>
          rw [hf] at h
          cases h
          exact .here (not_le.mp hb) hh hf
        | none =>
          rw [hf] at h
          have hlt := hh.length_afterMessage
          have h16 : sizeofCmsghdr = 16 := rfl
          exact .later (not_le.mp hb) hh hf (ih _ (by omega) h rfl)
      · obtain ⟨e, he⟩ := sc.exists_parse_error (not_le.mp hb).le hh
        rw [sc.scan_of_parse_error f (not_le.mp hb) he] at h
        cases h
  · intro h
    induction h with
    | here hb hh hf => rw [sc.scan_of_headed f hb hh, hf]
    | later hb hh hf _ ih => rw [sc.scan_of_headed f hb hh, hf, ← ih]

/-! ## Well-formed control data -/

/-- A well-formed control message. -/
structure FramedMessage where
  level : ℕ
  type : ℕ
  data : List UInt8
  pad : List UInt8
  framed : Framed level type data pad
  deriving DecidableEq, Repr

namespace FramedMessage

/-- The header of a control message. -/
def header (c : FramedMessage) : Cmsghdr := ⟨cmsgLen c.data.length, c.level, c.type⟩

/-- The bytes of a control message. -/
def bytes (c : FramedMessage) : List UInt8 := cmsg c.level c.type c.data c.pad

end FramedMessage

/-- A control message with data, as the kernel delivers it. -/
structure ControlMessage extends FramedMessage where
  data_ne_nil : data ≠ []
  deriving DecidableEq, Repr

/-- The control data that a list of control messages makes up. -/
def ControlMessage.encode (cs : List ControlMessage) : List UInt8 := cs.flatMap fun c => c.bytes

section Encode

variable {β : Type} (sc : SocketControl) {f : Cmsghdr → List UInt8 → Option β}

/-- **The loop looks at the control messages one after the other.** Those without data are not of
interest to it. -/
theorem SocketControl.scan_framed {cs : List FramedMessage}
    (h : ∀ c ∈ cs, c.data = [] → f c.header c.data = none) :
    sc.scan f (cs.flatMap FramedMessage.bytes) =
      .ok (cs.findSome? fun c => f c.header c.data) := by
  induction cs with
  | nil => exact sc.scan_of_le f (Nat.zero_le _)
  | cons c cs ih =>
    obtain ⟨hc, hcs⟩ := List.forall_mem_cons.mp h
    rw [List.flatMap_cons, FramedMessage.bytes, sc.scan_cmsg f c.framed hc]
    have hh : (⟨cmsgLen c.data.length, c.level, c.type⟩ : Cmsghdr) = c.header := rfl
    rw [hh, List.findSome?_cons]
    cases f c.header c.data with
    | some r => rfl
    | none => exact ih hcs

/-- The parser reads the control messages one after the other. -/
theorem SocketControl.reads_framed (cs : List FramedMessage) :
    sc.Reads (cs.flatMap FramedMessage.bytes) (cs.map fun c => (c.header, c.data)) := by
  induction cs with
  | nil => exact .nil
  | cons c cs ih => exact .cons (sc.parse_cmsg c.framed _) ih

variable (f) in
theorem SocketControl.scan_encode (cs : List ControlMessage) :
    sc.scan f (ControlMessage.encode cs) = .ok (cs.findSome? fun c => f c.header c.data) := by
  have henc : ControlMessage.encode cs =
      (cs.map ControlMessage.toFramedMessage).flatMap FramedMessage.bytes := by
    rw [List.flatMap_map]
    rfl
  rw [henc, sc.scan_framed, List.findSome?_map]
  · rfl
  · intro c hc hnil
    obtain ⟨c', -, rfl⟩ := List.mem_map.mp hc
    exact absurd hnil c'.data_ne_nil

end Encode

/-! ## The kernel's reading -/

/-- The kernel's walk over a control buffer: the data of the first control message of the given
level and type. -/
def findFrom (level type : ℕ) : ℕ → List UInt8 → Option (List UInt8)
  | 0, _ => none
  | k + 1, b =>
    let h := Cmsghdr.ofBytes b
    if sizeofCmsghdr ≤ b.length ∧ sizeofCmsghdr ≤ h.len ∧ h.len ≤ b.length then
      if h.level = level ∧ h.type = type then some ((b.take h.len).drop sizeofCmsghdr)
      else findFrom level type k (b.drop (cmsgAlign h.len))
    else none

/-- The data of the first control message of the given level and type. -/
def findMessage (level type : ℕ) (control : List UInt8) : Option (List UInt8) :=
  findFrom level type control.length control

theorem findFrom_eq_findMessage (level type : ℕ) {k : ℕ} {b : List UInt8} (hk : b.length ≤ k) :
    findFrom level type k b = findMessage level type b := by
  induction hn : b.length using Nat.strong_induction_on generalizing b k with
  | _ n ih =>
    rcases Nat.eq_zero_or_pos b.length with h0 | h0
    · obtain rfl := List.length_eq_zero_iff.mp h0
      cases k with
      | zero => rfl
      | succ k => simp [findFrom, findMessage, sizeofCmsghdr]
    · obtain ⟨k, rfl⟩ : ∃ m, k = m + 1 := ⟨k - 1, by omega⟩
      obtain ⟨m, hm⟩ : ∃ m, b.length = m + 1 := ⟨b.length - 1, by omega⟩
      rw [findMessage, hm]
      simp only [findFrom]
      by_cases hc : sizeofCmsghdr ≤ b.length ∧ sizeofCmsghdr ≤ (Cmsghdr.ofBytes b).len ∧
          (Cmsghdr.ofBytes b).len ≤ b.length
      · have hlt : (b.drop (cmsgAlign (Cmsghdr.ofBytes b).len)).length < b.length := by
          rw [List.length_drop]
          unfold cmsgAlign sizeofCmsghdr at *
          omega
        rw [if_pos hc, if_pos hc, ih _ (by omega) (k := k) (by omega) rfl,
          ih _ (by omega) (k := m) (by omega) rfl]
      · rw [if_neg hc, if_neg hc]

/-- The kernel's walk decides on one control message and continues behind it. -/
theorem findMessage_cmsg (level type : ℕ) {level' type' : ℕ} {data pad : List UInt8}
    (h : Framed level' type' data pad) (rest : List UInt8) :
    findMessage level type (cmsg level' type' data pad ++ rest) =
      if level' = level ∧ type' = type then some data else findMessage level type rest := by
  have hlen := cmsgLen_le_cmsg level' type' data pad rest
  have hs := sizeofCmsghdr_le_cmsg level' type' data pad
  have h16 : sizeofCmsghdr = 16 := rfl
  obtain ⟨m, hm⟩ : ∃ m, (cmsg level' type' data pad ++ rest).length = m + 1 := by
    refine ⟨(cmsg level' type' data pad ++ rest).length - 1, ?_⟩
    rw [List.length_append]
    omega
  rw [findMessage, hm]
  simp only [findFrom, ofBytes_cmsg h rest]
  rw [if_pos ⟨by rw [List.length_append]; omega, by simp [cmsgLen], hlen⟩]
  simp only [data_cmsg, drop_cmsg h]
  split_ifs with he
  · rfl
  · refine findFrom_eq_findMessage level type ?_
    rw [List.length_append] at hm
    omega

end Unix
