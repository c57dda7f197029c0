import BatchUDP.StdNet.Open
import BatchUDP.Windows.Receive

/-!
# The Windows bind

`WinRingBind` holds a socket with a receive ring and a transmit ring for each address family. `Open`
opens both, posts all packets of the receive rings, and subscribes to the closing of the network.
Whatever error it returns, a deferred function then closes and zeroes the bind, also when the error
says that the bind was already open.

## Main definitions

* `AfWinRingBind`, `WinRingBind`: the state
* `AfWinRingBind.Open`, `AfWinRingBind.InsertReceiveRequest`, `AfWinRingBind.CloseAndZero`
* `WinRingBind.Open`, `WinRingBind.Close`, `WinRingBind.Send`: the calls
* `BindImpl`: the two implementations of `Bind`

## Main results

* `WinRingBind.exists_Open`: what a call of `Open` on a closed bind can do
* `WinRingBind.lifecycle_closed_or_listening`: no run of `Open` and `Close` leaves a bind half open
* `BindImpl.Open_of_isOpen`: a second `Open` leaves the bind as it was iff it is a `StdNetBind`
-/

namespace BatchUDP

open Go Machine

/-- `windows.InvalidHandle`, of 64 bits, which `WSASocket` returns if it fails. -/
def invalidHandle : ℕ := 2 ^ 64 - 1

/-- `afWinRingBind`. -/
structure AfWinRingBind where
  sock : ℕ
  rx : RingBuffer
  tx : RingBuffer
  rq : ℕ
  blackhole : Bool
  deriving DecidableEq, Repr

namespace AfWinRingBind

/-- `CloseAndZero`, which leaves the handle of the request queue. -/
def CloseAndZero (b : AfWinRingBind) : AfWinRingBind where
  sock := 0
  rx := b.rx.CloseAndZero
  tx := b.tx.CloseAndZero
  rq := b.rq
  blackhole := false

/-- What the system calls of opening an address family return, the last one the port. -/
structure OpenRun where
  socket : Except Error ℕ
  rx : RingBuffer.OpenRun
  tx : RingBuffer.OpenRun
  queue : Except Error ℕ
  bindErr : Option Error
  name : Except Error ℕ

/-- `Open`: the port or an error, and the state. A socket that could not be made leaves the invalid
handle. -/
def Open (b : AfWinRingBind) (run : OpenRun) : Except Error ℕ × AfWinRingBind :=
  match run.socket with
  | .error e => (.error e, { b with sock := invalidHandle })
  | .ok sock =>
    let (err, rx) := b.rx.Open run.rx
    let b := { b with sock, rx }
    match err with
    | some e => (.error e, b)
    | none =>
      let (err, tx) := b.tx.Open run.tx
      let b := { b with tx }
      match err with
      | some e => (.error e, b)
      | none =>
        match run.queue with
        | .error e => (.error e, { b with rq := 0 })
        | .ok rq =>
          let b := { b with rq }
          match run.bindErr with
          | some e => (.error e, b)
          | none => (run.name, b)

/-- `InsertReceiveRequest`, when `ReceiveEx` ends with the given error. -/
def InsertReceiveRequest (b : AfWinRingBind) (err : Option Error) :
    Option (Option Error × AfWinRingBind) := do
  let (_, rx) ← b.rx.Push
  some (err, { b with rx })

end AfWinRingBind

/-- `WinRingBind`. Of the subscriber and of the function to end the subscription only their presence
matters. -/
structure WinRingBind where
  v4 : AfWinRingBind
  v6 : AfWinRingBind
  isOpen : ℕ
  subscriber : Bool
  unsubscribe : Bool
  deriving DecidableEq, Repr

namespace WinRingBind

/-- `closeAndZero`. -/
def closeAndZero (b : WinRingBind) : WinRingBind :=
  { b with
    v4 := b.v4.CloseAndZero
    v6 := b.v6.CloseAndZero
    isOpen := 0
    unsubscribe := false }

/-- What the system calls of `Open` return: opening the two families on a port, each `ReceiveEx` of
the loop that posts the packets, by its number and family, and subscribing. -/
structure OpenRun where
  v4 : ℕ → AfWinRingBind.OpenRun
  v6 : ℕ → AfWinRingBind.OpenRun
  receiveErr : ℕ → Bool → Option Error
  subscribeErr : Option Error

/-- The loop that posts the packets, from the `i`-th one on. -/
def prepost (receiveErr : ℕ → Bool → Option Error) :
    ℕ → ℕ → WinRingBind → Option (Option Error × WinRingBind)
  | 0, _, b => some (none, b)
  | left + 1, i, b => do
    let (err, v4) ← b.v4.InsertReceiveRequest (receiveErr i false)
    let b := { b with v4 }
    match err with
    | some e => some (some e, b)
    | none => do
      let (err, v6) ← b.v6.InsertReceiveRequest (receiveErr i true)
      let b := { b with v6 }
      match err with
      | some e => some (some e, b)
      | none => prepost receiveErr left (i + 1) b

/-- What a call of `Open` did: its error, the port, and the bind. The receive functions are those of
both families unless there is an error. -/
structure Opened where
  err : Option Error
  port : UInt16
  bind : WinRingBind
  deriving DecidableEq, Repr

/-- The body of `Open`, in front of the deferred function. -/
def openBody (b : WinRingBind) (port : UInt16) (run : OpenRun) : Option Opened :=
  if b.isOpen ≠ 0 then some ⟨some errBindAlreadyOpen, 0, b⟩
  else
    let (r, v4) := b.v4.Open (run.v4 port.toNat)
    let b := { b with v4 }
    match r with
    | .error e => some ⟨some e, 0, b⟩
    | .ok port =>
      let (r, v6) := b.v6.Open (run.v6 port)
      let b := { b with v6 }
      match r with
      | .error e => some ⟨some e, 0, b⟩
      | .ok port => do
        let (err, b) ← prepost run.receiveErr packetsPerRing 0 b
        match err with
        | some e => some ⟨some e, 0, b⟩
        | none =>
          if b.subscriber then
            match run.subscribeErr with
            | some e => some ⟨some e, 0, b⟩
            | none => some ⟨none, UInt16.ofNat port, { b with unsubscribe := true, isOpen := 1 }⟩
          else some ⟨none, UInt16.ofNat port, { b with isOpen := 1 }⟩

/-- `Open`: whatever the error is, the bind is closed and zeroed. -/
def Open (b : WinRingBind) (port : UInt16) (run : OpenRun) : Option Opened :=
  (b.openBody port run).map fun r =>
    if r.err.isSome then { r with bind := r.bind.closeAndZero } else r

/-- `Close`. -/
def Close (b : WinRingBind) : WinRingBind := if b.isOpen ≠ 1 then b else b.closeAndZero

/-- A bind that was never opened, as `NewWinRingBind` makes it. -/
def NewWinRingBind : WinRingBind :=
  let af : AfWinRingBind := ⟨0, .zero, .zero, 0, false⟩
  ⟨af, af, 0, true, false⟩

/-! ## Sending -/

/-- The packets and the requests in flight of a transmit ring. -/
structure Outgoing where
  mem : ℕ → RingPacket
  inFlight : List AfWinRingBind.Request

/-- The address family of an endpoint: `AF_INET`, `AF_INET6`, or another one. -/
def family (nend : WinRingEndpoint) : Option Bool :=
  if nend.family = 2 then some false else if nend.family = 23 then some true else none

/-- The part of the bind for an address family. -/
def af (b : WinRingBind) (is6 : Bool) : AfWinRingBind := if is6 then b.v6 else b.v4

/-- The bind with another transmit ring for an address family. -/
def setTx (b : WinRingBind) (is6 : Bool) (tx : RingBuffer) : WinRingBind :=
  if is6 then { b with v6 := { b.v6 with tx } } else { b with v4 := { b.v4 with tx } }

/-- `Send`, with one call of `afWinRingBind.Send` for each datagram. -/
def Send (b : WinRingBind) (nend : WinRingEndpoint) (calls : List AfWinRingBind.TxCall)
    (k : Bool → Outgoing) : Option (Option Error × WinRingBind × (Bool → Outgoing)) :=
  match calls with
  | [] => some (none, b, k)
  | c :: rest =>
    match family nend with
    | none => Send b nend rest k
    | some is6 =>
      if (b.af is6).blackhole then Send b nend rest k
      else do
        let r ← AfWinRingBind.Send ⟨(b.af is6).tx, (k is6).mem, (k is6).inFlight⟩
          { c with nend := nend, isOpen := c.isOpen && b.isOpen == 1 }
        let b := b.setTx is6 r.state.ring
        let k := Function.update k is6 ⟨r.state.mem, r.state.inFlight⟩
        match r.err with
        | some e => some (some e, b, k)
        | none => Send b nend rest k

/-! ## What `Open` keeps -/

/-- The bind is closed: none of its rings is open. -/
structure Closed (b : WinRingBind) : Prop where
  isOpen : b.isOpen = 0
  rings : ∀ is6, (b.af is6).rx = .zero ∧ (b.af is6).tx = .zero

/-- The bind is open: its transmit rings are, and all packets of its receive rings are posted. -/
structure Listening (b : WinRingBind) : Prop where
  isOpen : b.isOpen = 1
  tx : ∀ is6, ∃ packets id iocp cq, (b.af is6).tx = .opened packets id iocp cq
  rx : ∀ is6, (b.af is6).rx.used = packetsPerRing

theorem closed_new : NewWinRingBind.Closed := ⟨rfl, fun is6 => by cases is6 <;> exact ⟨rfl, rfl⟩⟩

theorem closed_closeAndZero (b : WinRingBind) : b.closeAndZero.Closed :=
  ⟨rfl, fun is6 => by cases is6 <;> exact ⟨rfl, rfl⟩⟩

end WinRingBind

/-- Opening an address family whose rings are not open. -/
theorem AfWinRingBind.Open_zero {b : AfWinRingBind} (hrx : b.rx = .zero) (htx : b.tx = .zero)
    {run : OpenRun} {port : ℕ} (h : (b.Open run).1 = .ok port) :
    (∃ packets id iocp cq, (b.Open run).2.rx = .opened packets id iocp cq) ∧
      ∃ packets id iocp cq, (b.Open run).2.tx = .opened packets id iocp cq := by
  have hr := @RingBuffer.Open_zero run.rx
  have ht := @RingBuffer.Open_zero run.tx
  rw [← hrx] at hr
  rw [← htx] at ht
  rcases run with ⟨e | sock, rx, tx, queue, bindErr, name⟩
  · exact absurd h (by simp [Open])
  rcases hrx' : b.rx.Open rx with ⟨- | e, rx'⟩
  swap
  · exact absurd h (by simp [Open, hrx'])
  rcases htx' : b.tx.Open tx with ⟨- | e, tx'⟩
  swap
  · exact absurd h (by simp [Open, hrx', htx'])
  rw [hrx'] at hr
  rw [htx'] at ht
  rcases queue with e | rq
  · exact absurd h (by simp [Open, hrx', htx'])
  rcases bindErr with - | e
  · simp only [Open, hrx', htx']
    exact ⟨hr rfl, ht rfl⟩
  · exact absurd h (by simp [Open, hrx', htx'])

/-- As many packets of the receive ring are taken, each for a request or for none. -/
def AfWinRingBind.Posted (b : AfWinRingBind) (n : ℕ) : Prop :=
  (∃ slots, b.rx.Tracks slots) ∧ b.rx.used = n

/-- Posting one more packet. -/
theorem AfWinRingBind.exists_InsertReceiveRequest {b : AfWinRingBind} {n : ℕ} (h : b.Posted n)
    (hn : n < packetsPerRing) (err : Option Error) :
    ∃ b', b.InsertReceiveRequest err = some (err, b') ∧ b'.tx = b.tx ∧ b'.Posted (n + 1) := by
  obtain ⟨⟨slots, htr⟩, hused⟩ := h
  have hnf : b.rx.isFull = false := by
    rw [← Bool.not_eq_true, htr.isFull_iff, hused]
    omega
  obtain ⟨slot, rx, hpush, -, hused', -, htr'⟩ := htr.exists_Push hnf
  exact ⟨{ b with rx }, by simp [InsertReceiveRequest, hpush], rfl, ⟨slots, htr'⟩,
    by rw [← hused]; exact hused'⟩

namespace WinRingBind

/-- **The loop that posts the packets** never panics, and posts all of them unless one fails. -/
theorem exists_prepost (receiveErr : ℕ → Bool → Option Error) {left i : ℕ} {b : WinRingBind}
    (h4 : b.v4.Posted i) (h6 : b.v6.Posted i) (hi : i + left ≤ packetsPerRing) :
    ∃ err b', prepost receiveErr left i b = some (err, b') ∧ b'.v4.tx = b.v4.tx ∧
      b'.v6.tx = b.v6.tx ∧
      (err = none → b'.v4.Posted (i + left) ∧ b'.v6.Posted (i + left)) := by
  induction left generalizing i b with
  | zero => exact ⟨none, b, rfl, rfl, rfl, fun _ => ⟨h4, h6⟩⟩
  | succ left ih =>
    obtain ⟨v4, he4, ht4, h4'⟩ := AfWinRingBind.exists_InsertReceiveRequest h4 (by omega)
      (receiveErr i false)
    obtain ⟨v6, he6, ht6, h6'⟩ := AfWinRingBind.exists_InsertReceiveRequest h6 (by omega)
      (receiveErr i true)
    simp only [prepost, he4, Option.bind_eq_bind, Option.bind_some]
    rcases receiveErr i false with - | e
    · simp only [he6, Option.bind_some]
      rcases receiveErr i true with - | e
      · obtain ⟨err, b', he, ht4', ht6', hp⟩ :=
          @ih (i + 1) { b with v4 := v4, v6 := v6 } h4' h6' (by omega)
        refine ⟨err, b', he, ht4'.trans ht4, ht6'.trans ht6, ?_⟩
        rwa [Nat.add_right_comm i 1 left] at hp
      · exact ⟨some e, _, rfl, ht4, ht6, by simp⟩
    · exact ⟨some e, _, rfl, ht4, rfl, by simp⟩

theorem posted_zero {b : AfWinRingBind}
    (h : ∃ packets id iocp cq, b.rx = .opened packets id iocp cq) : b.Posted 0 := by
  obtain ⟨packets, id, iocp, cq, h⟩ := h
  exact ⟨⟨[], h ▸ RingBuffer.tracks_opened packets id iocp cq⟩,
    h ▸ RingBuffer.used_opened packets id iocp cq⟩

/-- The body of `Open` on a closed bind. -/
theorem exists_openBody {b : WinRingBind} (h : b.Closed) (port : UInt16) (run : OpenRun) :
    ∃ r, b.openBody port run = some r ∧ (r.err = none → r.bind.Listening) := by
  have h4 := @AfWinRingBind.Open_zero b.v4 (h.rings false).1 (h.rings false).2 (run.v4 port.toNat)
  rw [openBody, if_neg (by simp [h.isOpen])]
  rcases he4 : b.v4.Open (run.v4 port.toNat) with ⟨e | port4, v4⟩
  · exact ⟨_, rfl, by simp⟩
  have h6 := @AfWinRingBind.Open_zero b.v6 (h.rings true).1 (h.rings true).2 (run.v6 port4)
  rcases he6 : b.v6.Open (run.v6 port4) with ⟨e | port6, v6⟩
  · simp only [he6]
    exact ⟨_, rfl, by simp⟩
  rw [he4] at h4
  rw [he6] at h6
  obtain ⟨hrx4, htx4⟩ := h4 rfl
  obtain ⟨hrx6, htx6⟩ := h6 rfl
  obtain ⟨err, b', he, ht4, ht6, hp⟩ := @exists_prepost run.receiveErr packetsPerRing 0
    { b with v4 := v4, v6 := v6 } (posted_zero hrx4) (posted_zero hrx6) (by simp)
  simp only [he6, he, Option.bind_eq_bind, Option.bind_some]
  rcases err with - | e
  swap
  · exact ⟨_, rfl, by simp⟩
  obtain ⟨hp4, hp6⟩ := hp rfl
  rw [Nat.zero_add] at hp4 hp6
  have htx : ∀ is6, ∃ packets id iocp cq, (b'.af is6).tx = .opened packets id iocp cq := by
    intro is6
    cases is6
    · exact ht4 ▸ htx4
    · exact ht6 ▸ htx6
  have hrx : ∀ is6, (b'.af is6).rx.used = packetsPerRing := by
    intro is6
    cases is6
    · exact hp4.2
    · exact hp6.2
  dsimp only
  split_ifs
  · rcases run.subscribeErr with - | e
    · exact ⟨_, rfl, fun _ => ⟨rfl, htx, hrx⟩⟩
    · exact ⟨_, rfl, by simp⟩
  · exact ⟨_, rfl, fun _ => ⟨rfl, htx, hrx⟩⟩

/-- **What a call of `Open` on a closed bind can do**: it fails and leaves a closed bind, or opens
it and posts all packets. It never panics. -/
theorem exists_Open {b : WinRingBind} (h : b.Closed) (port : UInt16) (run : OpenRun) :
    ∃ r, b.Open port run = some r ∧
      ((r.err ≠ none ∧ r.bind.Closed) ∨ (r.err = none ∧ r.bind.Listening)) := by
  obtain ⟨r, he, hr⟩ := exists_openBody h port run
  rw [Open, he]
  rcases herr : r.err with - | e
  · exact ⟨r, by simp [herr], .inr ⟨herr, hr herr⟩⟩
  · exact ⟨{ r with bind := r.bind.closeAndZero }, by simp [herr],
      .inl ⟨by simp [herr], closed_closeAndZero _⟩⟩

/-- `Open` on a bind that is not closed fails, and closes it. -/
theorem Open_of_isOpen_ne {b : WinRingBind} (h : b.isOpen ≠ 0) (port : UInt16) (run : OpenRun) :
    b.Open port run = some ⟨some errBindAlreadyOpen, 0, b.closeAndZero⟩ := by
  simp [Open, openBody, h]

/-- A call of `Open`, with what the system calls return, or of `Close`. -/
inductive Call where
  | Open (port : UInt16) (run : OpenRun)
  | Close

/-- The machine that opens and closes a bind. -/
def lifecycle (b : WinRingBind) : Call → Option (WinRingBind × Option Error)
  | .Open port run => (b.Open port run).map fun r => (r.bind, r.err)
  | .Close => some (b.Close, none)

/-- **Along every run of `Open` and `Close` the bind is closed or listening**, and no call
panics. -/
theorem lifecycle_closed_or_listening (calls : List Call) :
    ∃ t, trace lifecycle NewWinRingBind calls = some t ∧
      ∀ v ∈ t, v.before.Closed ∨ v.before.Listening := by
  refine exists_trace_of_forall (fun b => b.Closed ∨ b.Listening) ?_ (.inl closed_new) calls
  intro b c hb
  cases c with
  | Open port run =>
    rcases hb with hb | hb
    · obtain ⟨r, he, hr⟩ := exists_Open hb port run
      refine ⟨r.bind, r.err, by simp [lifecycle, he], ?_, .inl hb⟩
      rcases hr with ⟨-, hr⟩ | ⟨-, hr⟩
      · exact .inl hr
      · exact .inr hr
    · have he := @Open_of_isOpen_ne b (by simp [hb.isOpen]) port run
      exact ⟨_, _, by rw [lifecycle, he]; rfl, .inl (closed_closeAndZero b), .inr hb⟩
  | Close =>
    refine ⟨b.Close, none, rfl, ?_, hb⟩
    rcases hb with hb | hb
    · rw [Close, if_pos (by simp [hb.isOpen])]
      exact .inl hb
    · rw [Close, if_neg (by simp [hb.isOpen])]
      exact .inl (closed_closeAndZero b)

end WinRingBind

/-! ## The two implementations -/

/-- The two implementations of `Bind`. -/
inductive BindImpl where
  | stdNet (s : StdNetBind) (o : Sockets)
  | winRing (b : WinRingBind)
  deriving DecidableEq

namespace BindImpl

/-- The bind is open, or being closed. -/
def isOpen : BindImpl → Bool
  | stdNet s _ => s.isOpen
  | winRing b => b.isOpen ≠ 0

/-- `Bind.Open`, with what the environment of either implementation answers. -/
def Open (p : Platform) (opts : StdNetBindOptions) (net : Option Network)
    (run : WinRingBind.OpenRun) (port : UInt16) : BindImpl → Option (Option Error × BindImpl)
  | stdNet s o => (s.Open p opts net port o).map fun r => (r.err, stdNet r.bind r.sockets)
  | winRing b => (b.Open port run).map fun r => (r.err, winRing r.bind)

/-- **A second `Open` fails, and leaves the bind as it was iff it is a `StdNetBind`.** -/
theorem Open_of_isOpen (p : Platform) (opts : StdNetBindOptions) (net : Option Network)
    (run : WinRingBind.OpenRun) (port : UInt16) {b : BindImpl} (h : b.isOpen = true) :
    ∃ b', b.Open p opts net run port = some (some errBindAlreadyOpen, b') ∧
      (b' = b ↔ ∃ s o, b = stdNet s o) := by
  cases b with
  | stdNet s o =>
    have hs : s.isOpen = true := h
    exact ⟨stdNet s o, by simp [Open, StdNetBind.Open, hs, StdNetBind.Opened.failed],
      iff_of_true rfl ⟨s, o, rfl⟩⟩
  | winRing b =>
    have hb : b.isOpen ≠ 0 := by simpa [isOpen] using h
    refine ⟨winRing b.closeAndZero, by simp [Open, WinRingBind.Open_of_isOpen_ne hb],
      iff_of_false ?_ (by simp)⟩
    intro he
    have := congrArg WinRingBind.isOpen (winRing.inj he)
    exact hb this.symm

/-- Every system call succeeds. -/
def allWell : WinRingBind.OpenRun :=
  let ring : RingBuffer.OpenRun := ⟨.ok 1, .ok 1, .ok 1, .ok 1⟩
  let af : AfWinRingBind.OpenRun := ⟨.ok 1, ring, ring, .ok 1, none, .ok 51820⟩
  ⟨fun _ => af, fun _ => af, fun _ _ => none, none⟩

/-- A second `Open` of a `StdNetBind`. -/
theorem Open_of_isOpen_stdNet :
    ∃ b', (stdNet (.opened true 128) .empty).Open .linux ⟨.ipv4First, false, false, 0⟩ none allWell
        0 = some (some errBindAlreadyOpen, b') ∧
      (b' = stdNet (.opened true 128) .empty ↔
        ∃ s o, stdNet (.opened true 128) .empty = stdNet s o) :=
  Open_of_isOpen _ _ _ _ _ rfl

/-- What `Send` of one datagram to an IPv4 endpoint returns. -/
def sendErr (b : WinRingBind) : Option (Option Error) :=
  (b.Send ⟨2, .replicate 30 0⟩ [AfWinRingBind.sendCall none]
    fun _ => ⟨fun _ => ⟨⟨0, .replicate 30 0⟩, []⟩, []⟩).map Prod.fst

/-- A new `WinRingBind` is opened and can send. The second `Open` closes it, and `Send` fails. -/
theorem Open_twice_closes_winRing :
    (WinRingBind.NewWinRingBind.Open 0 allWell).map
      (fun r => (r.err, r.bind.isOpen, sendErr r.bind)) = some (none, 1, some none) ∧
    ((WinRingBind.NewWinRingBind.Open 0 allWell).bind fun r => r.bind.Open 0 allWell).map
      (fun r => (r.err, r.bind.isOpen, sendErr r.bind)) =
        some (some errBindAlreadyOpen, 0, some (some errClosed)) := by
  constructor
  · decide +kernel
  · decide +kernel

end BindImpl

end BatchUDP
