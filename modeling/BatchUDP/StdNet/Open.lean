import BatchUDP.Machine.Custody
import BatchUDP.Machine.Trace
import BatchUDP.StdNet.Bind

/-!
# Opening and closing the standard bind

`Open` listens on the same port in both address families. It retries when the port chosen for the
first family is taken in the second one, settles for one family where that is allowed, and closes
what it does not keep. `Close` closes the sockets of both families. The network answers each listen
as it likes; a custody records the sockets that were opened through it and those that were closed.

## Main definitions

* `Network`, `Sockets`: what the network answers, and the sockets so far
* `StdNetBind.listenNet`, `StdNetBind.attempt`, `StdNetBind.attempts`: one listen, one pass through
  the body of `Open`, and its retry loop
* `StdNetBind.Open`, `StdNetBind.Close`: the two calls
* `StdNetBind.lifecycle`: the machine that makes them

## Main results

* `StdNetBind.exists_Open`: what a call of `Open` can do
* `StdNetBind.lifecycle_owns`: along every run the bind owns exactly the sockets it has installed
-/

namespace BatchUDP

open Go Machine

/-- `FamilyOrder`. -/
inductive FamilyOrder where
  | ipv4First
  | ipv6First
  deriving DecidableEq, Repr

/-- `StdNetBindOptions`. Of the callback only its presence matters. -/
structure StdNetBindOptions where
  familyOrder : FamilyOrder
  allowSingleFamily : Bool
  onFamilyOpenError : Bool
  batchSize : ℤ
  deriving DecidableEq, Repr

/-- A socket as the network hands it out: the text of its local address, what configuring it and
resolving its local port ends with, whether a native socket is underneath, and what it says about
offload. -/
structure Bound where
  laddr : String
  configured : Option Error
  resolved : Except Error ℕ
  native : Bool
  offload : Bool × Bool

/-- `gonnect.Network`: what it answers to each listen, given the number of listens before, the name
of the family and the address. -/
structure Network where
  isNative : Bool
  listen : ℕ → String → String → Except Error Bound

/-- `gonnect.UDPConn`: a socket that a listen returned. -/
structure UDPConn where
  conn : Conn
  native : Bool
  offload : Bool × Bool
  deriving DecidableEq, Repr

/-- The listens so far, and the sockets opened and closed through the network. -/
structure Sockets where
  listens : ℕ
  custody : Custody Conn
  deriving DecidableEq, Repr

namespace Sockets

/-- No socket was opened yet. -/
def empty : Sockets := ⟨0, .empty⟩

/-- A listen that the network refused. -/
def refused (o : Sockets) : Sockets := { o with listens := o.listens + 1 }

/-- A listen that opened a socket. -/
def opened (o : Sockets) (c : Conn) : Sockets := ⟨o.listens + 1, o.custody.acquire [c]⟩

/-- `Close` of a socket. -/
def close (o : Sockets) (c : Conn) : Sockets := { o with custody := o.custody.release [c] }

/-- A socket was opened and not closed. -/
def IsOpen (o : Sockets) (c : Conn) : Prop := c ∈ o.custody.acquired ∧ c ∉ o.custody.released

/-- Exactly the given sockets are open, none was opened or closed twice, and the next one will be a
new one. -/
structure Holds (o : Sockets) (held : List Conn) : Prop where
  owns : o.custody.Owns held
  faultless : o.custody.faults = []
  acquired_nodup : o.custody.acquired.Nodup
  lt_listens : ∀ c ∈ o.custody.acquired, c.id < o.listens

theorem holds_empty : empty.Holds [] :=
  ⟨Custody.owns_empty, rfl, .nil, by simp [empty, Custody.empty]⟩

variable {o : Sockets} {held : List Conn}

theorem Holds.perm (h : o.Holds held) {held' : List Conn} (hp : held.Perm held') : o.Holds held' :=
  ⟨h.owns.congr hp, h.faultless, h.acquired_nodup, h.lt_listens⟩

theorem Holds.refused (h : o.Holds held) : o.refused.Holds held :=
  ⟨h.owns, h.faultless, h.acquired_nodup, fun c hc => Nat.lt_succ_of_lt (h.lt_listens c hc)⟩

theorem Holds.mem_iff (h : o.Holds held) (c : Conn) : c ∈ held ↔ o.IsOpen c :=
  h.owns.mem_iff h.acquired_nodup h.faultless c

theorem Holds.released_nodup (h : o.Holds held) : o.custody.released.Nodup :=
  h.owns.released_nodup h.acquired_nodup h.faultless

/-- A socket that carries the number of its listen is a new one. -/
theorem Holds.opened (h : o.Holds held) {c : Conn} (hc : c.id = o.listens) :
    (o.opened c).Holds (c :: held) := by
  have hnew : c ∉ o.custody.acquired := fun hm => by
    have := h.lt_listens c hm
    omega
  have hn : ([c] ++ held).Nodup :=
    List.nodup_cons.mpr ⟨fun hm => hnew ((h.mem_iff c).mp hm).1, h.owns.nodup⟩
  refine ⟨h.owns.acquire hn, h.faultless, List.nodup_cons.mpr ⟨hnew, h.acquired_nodup⟩,
    fun d hd => ?_⟩
  rcases List.mem_cons.mp hd with rfl | hd
  · exact hc ▸ Nat.lt_succ_self _
  · exact Nat.lt_succ_of_lt (h.lt_listens d hd)

theorem Holds.close {c : Conn} (h : o.Holds (c :: held)) : (o.close c).Holds held := by
  obtain ⟨howns, hfaults⟩ := h.owns.releaseOne
  exact ⟨howns, hfaults.trans h.faultless, h.acquired_nodup, h.lt_listens⟩

end Sockets

/-- `ErrNoNetwork`. -/
def errNoNetwork : Error := .text "bind network is nil"

/-- `ErrBindAlreadyOpen`. -/
def errBindAlreadyOpen : Error := .text "bind is already open"

/-- `supportsUDPOffload`: sending and receiving. -/
def supportsUDPOffload (p : Platform) (c : UDPConn) : Bool × Bool :=
  if p.hasOffload then c.offload else (false, false)

/-- A function made by `makeReceiveIPv4` or `makeReceiveIPv6`: what it captured. -/
structure ReceiveFunc where
  is6 : Bool
  conn : Conn
  pc : Bool
  rxOffload : Bool
  deriving DecidableEq, Repr

namespace StdNetBind

/-! ## Listening -/

/-- The name of an address family. -/
def network (is6 : Bool) : String := if is6 then "udp6" else "udp4"

/-- `listenAddress`. -/
def listenAddress (is6 : Bool) (port : ℕ) : String :=
  if is6 then s!"[::]:{port}" else s!"0.0.0.0:{port}"

/-- `familyOrder`: whether the first family is IPv6, and whether the second one is. -/
def familyOrder (opts : StdNetBindOptions) : Bool × Bool :=
  if opts.familyOrder = .ipv6First then (true, false) else (false, true)

/-- `listenNet`: a socket of an address family with its port. -/
def listenNet (net : Option Network) (is6 : Bool) (port : ℕ) (o : Sockets) :
    Except Error (UDPConn × ℕ) × Sockets :=
  match net with
  | none => (.error errNoNetwork, o)
  | some net =>
    match net.listen o.listens (network is6) (listenAddress is6 port) with
    | .error err => (.error err, o.refused)
    | .ok b =>
      let conn : Conn := ⟨o.listens, b.laddr⟩
      match b.configured with
      | some err => (.error err, (o.opened conn).close conn)
      | none =>
        match b.resolved with
        | .error err => (.error err, (o.opened conn).close conn)
        | .ok port => (.ok (⟨conn, b.native, b.offload⟩, port), o.opened conn)

/-- How a pass through the body of `Open` ends: it starts over, fails, or has the sockets of the
first and the second family, the port, and the failure of the second family that is reported. -/
inductive Attempt where
  | again
  | failed (err : Error)
  | opened (first second : Option UDPConn) (port : ℕ) (report : Option (Bool × Error))

/-- The body of `Open`, up to the installation of the sockets. -/
def attempt (opts : StdNetBindOptions) (net : Option Network) (uport : UInt16) (tries : ℕ)
    (o : Sockets) : Attempt × Sockets :=
  let (firstNetwork, secondNetwork) := familyOrder opts
  let (first, o) := listenNet net firstNetwork uport.toNat o
  match first with
  | .ok (firstConn, actualPort) =>
    let (second, o) := listenNet net secondNetwork actualPort o
    match second with
    | .ok (secondConn, _) => (.opened (some firstConn) (some secondConn) actualPort none, o)
    | .error secondErr =>
      if uport = 0 ∧ opts.allowSingleFamily = false ∧ secondErr.is .eaddrinuse ∧ tries < 100 then
        (.again, o.close firstConn.conn)
      else if opts.allowSingleFamily then
        (.opened (some firstConn) none actualPort (some (secondNetwork, secondErr)), o)
      else if secondErr.is .eafnosupport then (.opened (some firstConn) none actualPort none, o)
      else (.failed secondErr, o.close firstConn.conn)
  | .error firstErr =>
    if firstErr.is .eafnosupport then
      let (second, o) := listenNet net secondNetwork uport.toNat o
      match second with
      | .ok (secondConn, secondPort) => (.opened none (some secondConn) secondPort none, o)
      | .error secondErr =>
        if secondErr.is .eafnosupport then (.failed (.errno .eafnosupport), o)
        else (.failed secondErr, o)
    else (.failed firstErr, o)

/-- The retry loop of `Open`, for as many passes as the first argument says: the last pass, and the
number of passes. -/
def attempts (opts : StdNetBindOptions) (net : Option Network) (uport : UInt16) :
    ℕ → ℕ → Sockets → Option (Attempt × Sockets × ℕ)
  | 0, _, _ => none
  | fuel + 1, tries, o =>
    match attempt opts net uport tries o with
    | (.again, o) => attempts opts net uport fuel (tries + 1) o
    | (a, o) => some (a, o, tries + 1)

/-! ## The calls -/

/-- The socket of an address family, if there is one, with what it supports, and its receive
function. Without batch I/O the field for it is not written. -/
def install (p : Platform) (is6 : Bool) (c : Option UDPConn) (s : StdNetBind) :
    StdNetBind × List ReceiveFunc :=
  match c with
  | none => (s, [])
  | some c =>
    let (tx, rx) := supportsUDPOffload p c
    let pc := c.native && p.hasOffload
    (if is6 then
        { s with
          ipv6 := c.conn, ipv6PC := pc || s.ipv6PC, ipv6TxOffload := tx, ipv6RxOffload := rx }
      else
        { s with
          ipv4 := c.conn, ipv4PC := pc || s.ipv4PC, ipv4TxOffload := tx, ipv4RxOffload := rx },
      [⟨is6, c.conn, pc, rx⟩])

/-- What a call of `Open` did: its results, the failure of a family that it reported, the number of
attempts, and the bind and the sockets afterwards. -/
structure Opened where
  fns : List ReceiveFunc
  port : UInt16
  err : Option Error
  familyOpenError : Option (String × Error)
  attempts : ℕ
  bind : StdNetBind
  sockets : Sockets
  deriving DecidableEq, Repr

/-- A call of `Open` that failed. -/
def Opened.failed (err : Error) (attempts : ℕ) (s : StdNetBind) (o : Sockets) : Opened :=
  ⟨[], 0, some err, none, attempts, s, o⟩

/-- The two sockets by family. -/
def byFamily (opts : StdNetBindOptions) (first second : Option UDPConn) :
    Option UDPConn × Option UDPConn :=
  if (familyOrder opts).1 then (second, first) else (first, second)

/-- The part of `Open` behind the loop: install what was opened. -/
def finish (p : Platform) (opts : StdNetBindOptions) (s : StdNetBind) :
    Attempt × Sockets × ℕ → Opened
  -- the loop goes on in this case, and does not end with it
  | (.again, o, n) => .failed (.errno .eafnosupport) n s o
  | (.failed err, o, n) => .failed err n s o
  | (.opened first second port report, o, n) =>
    let (v4conn, v6conn) := byFamily opts first second
    let (s, fns4) := install p false v4conn s
    let (s, fns6) := install p true v6conn s
    if fns4 ++ fns6 = [] then .failed (.errno .eafnosupport) n s o
    else
      { fns := fns4 ++ fns6
        port := UInt16.ofNat port
        err := none
        familyOpenError := if opts.onFamilyOpenError then
          report.map fun r => (network r.1, r.2) else none
        attempts := n
        bind := s
        sockets := o }

/-- The bind has a socket. -/
def isOpen (s : StdNetBind) : Bool := s.ipv4.isSome || s.ipv6.isSome

/-- `Open`. The first attempt and a hundred more are all it can make. -/
def Open (p : Platform) (opts : StdNetBindOptions) (net : Option Network) (uport : UInt16)
    (s : StdNetBind) (o : Sockets) : Option Opened :=
  if s.isOpen then some (.failed errBindAlreadyOpen 0 s o)
  else (attempts opts net uport 101 0 o).map (finish p opts s)

/-- The part of `Close` for one address family. -/
def closeFamily (is6 : Bool) (s : StdNetBind) (o : Sockets) : StdNetBind × Sockets :=
  match s.conn is6 with
  | none => (s, o)
  | some c =>
    (if is6 then { s with ipv6 := none, ipv6PC := false }
      else { s with ipv4 := none, ipv4PC := false }, o.close c)

/-- The flags that `Close` clears in the end. -/
def clearFlags (s : StdNetBind) : StdNetBind :=
  { s with
    blackhole4 := false
    blackhole6 := false
    ipv4TxOffload := false
    ipv4RxOffload := false
    ipv6TxOffload := false
    ipv6RxOffload := false }

/-- What a call of `Close` did: its result, and the bind and the sockets afterwards. -/
structure Closed where
  err : Option Error
  bind : StdNetBind
  sockets : Sockets
  deriving DecidableEq, Repr

/-- `Close`, where closing the IPv4 socket and closing the IPv6 socket, if it comes to that, end
with the given errors. -/
def Close (s : StdNetBind) (o : Sockets) (err4 err6 : Option Error) : Closed :=
  let err1 := if s.ipv4.isSome then err4 else none
  let err2 := if s.ipv6.isSome then err6 else none
  let (s, o) := closeFamily false s o
  let (s, o) := closeFamily true s o
  ⟨err1 <|> err2, s.clearFlags, o⟩

/-- `stdNetBindBatchSize`. -/
def stdNetBindBatchSize (p : Platform) (net : Option Network) (opts : StdNetBindOptions) : ℕ :=
  if 0 < opts.batchSize then opts.batchSize.toNat
  else if net.any (fun net => net.isNative) && p.hasOffload then 128
  else 1

/-- `NewStdNetBindWithOptions`. -/
def NewStdNetBindWithOptions (p : Platform) (net : Option Network) (opts : StdNetBindOptions) :
    StdNetBind where
  ipv4 := none
  ipv6 := none
  ipv4PC := false
  ipv6PC := false
  ipv4TxOffload := false
  ipv4RxOffload := false
  ipv6TxOffload := false
  ipv6RxOffload := false
  udpAddrPool := []
  msgsPool := []
  blackhole4 := false
  blackhole6 := false
  batchSize := stdNetBindBatchSize p net opts

theorem valid_new (p : Platform) (net : Option Network) (opts : StdNetBindOptions) :
    (NewStdNetBindWithOptions p net opts).Valid p := by
  constructor <;> simp [NewStdNetBindWithOptions]

/-! ## What a call keeps -/

/-- The installed sockets. -/
def conns (s : StdNetBind) : List Conn := s.ipv4.toList ++ s.ipv6.toList

theorem mem_conns {s : StdNetBind} {c : Conn} :
    c ∈ s.conns ↔ s.ipv4 = some c ∨ s.ipv6 = some c := by
  simp [conns]

theorem conns_eq_nil_iff {s : StdNetBind} : s.conns = [] ↔ s.isOpen = false := by
  simp [conns, isOpen]

section Attempts

variable (opts : StdNetBindOptions) (net : Option Network) (uport : UInt16) {o : Sockets}

/-- **A listen** adds the socket it returns, and none if it fails. -/
theorem holds_listenNet {held : List Conn} (h : o.Holds held) (is6 : Bool) (port : ℕ) :
    (∃ err o', listenNet net is6 port o = (.error err, o') ∧ o'.Holds held) ∨
      ∃ c port' o', listenNet net is6 port o = (.ok (c, port'), o') ∧
        o'.Holds (c.conn :: held) := by
  unfold listenNet
  rcases net with - | net
  · exact .inl ⟨_, _, rfl, h⟩
  simp only
  rcases net.listen o.listens (network is6) (listenAddress is6 port) with err | b
  · exact .inl ⟨_, _, rfl, h.refused⟩
  · have hb := h.opened (c := ⟨o.listens, b.laddr⟩) rfl
    rcases hconf : b.configured with - | err
    · rcases hres : b.resolved with err | port'
      · exact .inl ⟨err, _, by simp [hconf, hres], hb.close⟩
      · exact .inr ⟨⟨⟨o.listens, b.laddr⟩, b.native, b.offload⟩, port', _,
          by simp only [hconf, hres], hb⟩
    · exact .inl ⟨err, _, by simp [hconf], hb.close⟩

/-- What the end of a pass says about the sockets: those it has are open, and it has one. -/
def Attempt.Keeps (o : Sockets) : Attempt → Prop
  | .again => o.Holds []
  | .failed _ => o.Holds []
  | .opened first second _ _ =>
    o.Holds (first.toList ++ second.toList |>.map UDPConn.conn) ∧ (first ≠ none ∨ second ≠ none)

/-- **A pass through the body of `Open`** keeps what it has, and starts over at most a hundred
times. -/
theorem keeps_attempt (h : o.Holds []) (tries : ℕ) :
    (attempt opts net uport tries o).1.Keeps (attempt opts net uport tries o).2 ∧
      ((attempt opts net uport tries o).1 = .again → tries < 100) := by
  unfold attempt
  rcases holds_listenNet net h (familyOrder opts).1 uport.toNat with
    ⟨firstErr, o₁, he₁, h₁⟩ | ⟨firstConn, port, o₁, he₁, h₁⟩
  · simp only [he₁]
    by_cases hf : firstErr.is .eafnosupport = true
    · rcases holds_listenNet net h₁ (familyOrder opts).2 uport.toNat with
        ⟨secondErr, o₂, he₂, h₂⟩ | ⟨secondConn, port₂, o₂, he₂, h₂⟩
      · simp only [hf, he₂, if_true]
        by_cases hs : secondErr.is .eafnosupport = true
        · exact ⟨by simpa [hs, Attempt.Keeps] using h₂, by simp [hs]⟩
        · exact ⟨by simpa [hs, Attempt.Keeps] using h₂, by simp [hs]⟩
      · simp only [hf, he₂, if_true]
        exact ⟨⟨h₂, .inr (by simp)⟩, by simp⟩
    · simp only [hf]
      exact ⟨h₁, by simp⟩
  · simp only [he₁]
    rcases holds_listenNet net h₁ (familyOrder opts).2 port with
      ⟨secondErr, o₂, he₂, h₂⟩ | ⟨secondConn, port₂, o₂, he₂, h₂⟩
    · simp only [he₂]
      split_ifs with hagain hsingle hunsup
      · exact ⟨h₂.close, fun _ => hagain.2.2.2⟩
      · exact ⟨⟨h₂, .inl (by simp)⟩, by simp⟩
      · exact ⟨⟨h₂, .inl (by simp)⟩, by simp⟩
      · exact ⟨h₂.close, by simp⟩
    · simp only [he₂]
      exact ⟨⟨h₂.perm (.swap _ _ _), .inl (by simp)⟩, by simp⟩

/-- **The retry loop ends** after at most a hundred and one passes. -/
theorem exists_attempts {fuel tries : ℕ} (hf : 101 ≤ fuel + tries) (ht : tries ≤ 100)
    (h : o.Holds []) :
    ∃ a o' n, attempts opts net uport fuel tries o = some (a, o', n) ∧ n ≤ 101 ∧ a ≠ .again ∧
      a.Keeps o' := by
  induction fuel generalizing tries o with
  | zero => omega
  | succ fuel ih =>
    obtain ⟨hkeep, hagain⟩ := keeps_attempt opts net uport h tries
    rcases ha : attempt opts net uport tries o with ⟨a, o'⟩
    rw [ha] at hkeep hagain
    rcases a with - | err | ⟨first, second, port, report⟩
    · have hlt := hagain rfl
      simp only [attempts, ha]
      exact ih (by omega) (by omega) hkeep
    · exact ⟨.failed err, o', tries + 1, by simp [attempts, ha], by omega, by simp, hkeep⟩
    · exact ⟨.opened first second port report, o', tries + 1, by simp [attempts, ha], by omega,
        by simp, hkeep⟩

/-- What was closed before a listen is closed behind it. -/
theorem released_listenNet (is6 : Bool) (port : ℕ) (o : Sockets) :
    o.custody.released ⊆ (listenNet net is6 port o).2.custody.released := by
  unfold listenNet
  rcases net with - | net
  · exact List.Subset.refl _
  simp only
  rcases net.listen o.listens (network is6) (listenAddress is6 port) with err | b
  · exact List.Subset.refl _
  · rcases hconf : b.configured with - | err
    · rcases hres : b.resolved with err | port'
      · simp only [hconf, hres]
        exact List.subset_cons_self _ _
      · simp only [hconf, hres]
        exact List.Subset.refl _
    · simp only [hconf]
      exact List.subset_cons_self _ _

/-- What was closed before a pass through the body of `Open` is closed behind it. -/
theorem released_attempt (tries : ℕ) (o : Sockets) :
    o.custody.released ⊆ (attempt opts net uport tries o).2.custody.released := by
  unfold attempt
  have h₁ := released_listenNet net (familyOrder opts).1 uport.toNat o
  rcases he₁ : listenNet net (familyOrder opts).1 uport.toNat o with ⟨firstErr | first, o₁⟩
  · rw [he₁] at h₁
    simp only [he₁]
    have h₂ := released_listenNet net (familyOrder opts).2 uport.toNat o₁
    rcases he₂ : listenNet net (familyOrder opts).2 uport.toNat o₁ with ⟨secondErr | second, o₂⟩
    · rw [he₂] at h₂
      simp only
      split_ifs
      · exact List.Subset.trans h₁ h₂
      · exact List.Subset.trans h₁ h₂
      · exact h₁
    · rw [he₂] at h₂
      split_ifs
      · exact List.Subset.trans h₁ h₂
      · exact h₁
  · rw [he₁] at h₁
    simp only [he₁]
    have h₂ := released_listenNet net (familyOrder opts).2 first.2 o₁
    rcases he₂ : listenNet net (familyOrder opts).2 first.2 o₁ with ⟨secondErr | second, o₂⟩
    · rw [he₂] at h₂
      have hclose := List.Subset.trans (List.Subset.trans h₁ h₂)
        (List.subset_cons_self first.1.conn o₂.custody.released)
      simp only
      split_ifs
      · exact hclose
      · exact List.Subset.trans h₁ h₂
      · exact List.Subset.trans h₁ h₂
      · exact hclose
    · rw [he₂] at h₂
      exact List.Subset.trans h₁ h₂

theorem released_attempts {fuel tries n : ℕ} {a : Attempt} {o' : Sockets}
    (he : attempts opts net uport fuel tries o = some (a, o', n)) :
    o.custody.released ⊆ o'.custody.released := by
  induction fuel generalizing tries o with
  | zero => simp [attempts] at he
  | succ fuel ih =>
    have h₁ := released_attempt opts net uport tries o
    rcases ha : attempt opts net uport tries o with ⟨a₁, o₁⟩
    rw [ha] at h₁
    rcases a₁ with - | err | ⟨first, second, port, report⟩ <;> simp only [attempts, ha] at he
    · exact List.Subset.trans h₁ (ih he)
    · obtain ⟨-, rfl, -⟩ := Prod.mk.inj (Option.some.inj he)
      exact h₁
    · obtain ⟨-, rfl, -⟩ := Prod.mk.inj (Option.some.inj he)
      exact h₁

end Attempts

section Calls

variable (p : Platform) (opts : StdNetBindOptions) (net : Option Network) {s : StdNetBind}
  {o : Sockets}

/-- The sockets of a bind without one after an installation. -/
theorem conns_install (hs : s.isOpen = false) (v4conn v6conn : Option UDPConn) :
    (install p true v6conn (install p false v4conn s).1).1.conns =
      (v4conn.toList ++ v6conn.toList).map UDPConn.conn := by
  obtain ⟨h4, h6⟩ := Bool.or_eq_false_iff.mp hs
  rw [Option.isSome_eq_false_iff, Option.isNone_iff_eq_none] at h4 h6
  rcases v4conn with - | c4 <;> rcases v6conn with - | c6 <;> simp [install, conns, h4, h6]

theorem install_snd_eq_nil_iff {p : Platform} {is6 : Bool} {c : Option UDPConn} :
    (install p is6 c s).2 = [] ↔ c = none := by
  rcases c with - | c <;> simp [install]

theorem byFamily_eq_none_iff {opts : StdNetBindOptions} {first second : Option UDPConn} :
    ((byFamily opts first second).1 = none ∧ (byFamily opts first second).2 = none) ↔
      first = none ∧ second = none := by
  unfold byFamily
  split_ifs
  · exact and_comm
  · exact Iff.rfl

theorem perm_byFamily (first second : Option UDPConn) :
    (first.toList ++ second.toList).Perm
      ((byFamily opts first second).1.toList ++ (byFamily opts first second).2.toList) := by
  unfold byFamily
  split_ifs
  · exact List.perm_append_comm
  · exact .refl _

/-- **The part of `Open` behind the loop** fails and leaves the bind as it was, or installs the
sockets and returns the functions for them. -/
theorem finish_cases (s : StdNetBind) (a : Attempt) (o' : Sockets) (n : ℕ) {r : Opened}
    (hr : finish p opts s (a, o', n) = r) :
    r.sockets = o' ∧ r.attempts = n ∧
      ((r.err ≠ none ∧ r.bind = s ∧ r.fns = [] ∧
          ∀ first second port report, a = .opened first second port report →
            first = none ∧ second = none) ∨
        ∃ first second port report, a = .opened first second port report ∧ r.err = none ∧
          r.bind = (install p true (byFamily opts first second).2
            (install p false (byFamily opts first second).1 s).1).1 ∧
          r.fns = (install p false (byFamily opts first second).1 s).2 ++
            (install p true (byFamily opts first second).2
              (install p false (byFamily opts first second).1 s).1).2) := by
  subst hr
  rcases a with - | err | ⟨first, second, port, report⟩
  · exact ⟨rfl, rfl, .inl ⟨by simp [finish, Opened.failed], rfl, rfl, by simp⟩⟩
  · exact ⟨rfl, rfl, .inl ⟨by simp [finish, Opened.failed], rfl, rfl, by simp⟩⟩
  · simp only [finish]
    split
    case isTrue hfns =>
      rw [List.append_eq_nil_iff, install_snd_eq_nil_iff, install_snd_eq_nil_iff] at hfns
      refine ⟨rfl, rfl, .inl ⟨by simp [Opened.failed], by rw [hfns.1, hfns.2]; rfl, rfl, ?_⟩⟩
      rintro _ _ _ _ ⟨⟩
      exact byFamily_eq_none_iff.mp hfns
    case isFalse => exact ⟨rfl, rfl, .inr ⟨_, _, _, _, rfl, rfl, rfl, rfl⟩⟩

/-- **What a call of `Open` can do**: it ends after at most a hundred and one attempts, and either
fails and leaves the bind as it was, or opens a bind that was not open. The bind owns its sockets
afterwards. -/
theorem exists_Open (h : o.Holds s.conns) (uport : UInt16) :
    ∃ r, s.Open p opts net uport o = some r ∧ r.attempts ≤ 101 ∧ r.sockets.Holds r.bind.conns ∧
      ((r.err ≠ none ∧ r.bind = s) ∨
        (r.err = none ∧ s.isOpen = false ∧ r.bind.isOpen = true)) := by
  unfold Open
  by_cases hs : s.isOpen = true
  · rw [if_pos hs]
    exact ⟨_, rfl, Nat.zero_le _, h, .inl ⟨by simp [Opened.failed], rfl⟩⟩
  rw [if_neg hs]
  rw [Bool.not_eq_true] at hs
  have hnil : s.conns = [] := conns_eq_nil_iff.mpr hs
  rw [hnil] at h
  obtain ⟨a, o', n, he, hn, hne, hkeep⟩ :=
    @exists_attempts opts net uport o 101 0 le_rfl (by omega) h
  obtain ⟨hsock, hattempts, hfin⟩ := finish_cases p opts s a o' n rfl
  refine ⟨finish p opts s (a, o', n), by rw [he]; rfl, hattempts.trans_le hn, ?_⟩
  rw [hsock]
  rcases hfin with ⟨herr, hbind, -, hnone⟩ | ⟨first, second, port, report, rfl, herr, hbind, -⟩
  · refine ⟨?_, .inl ⟨herr, hbind⟩⟩
    rw [hbind, hnil]
    rcases a with - | err | ⟨first, second, port, report⟩
    · exact absurd rfl hne
    · exact hkeep
    · obtain ⟨rfl, rfl⟩ := hnone first second port report rfl
      exact absurd hkeep.2 (by simp)
  · obtain ⟨hkeep, hsome⟩ := hkeep
    have hperm := (perm_byFamily opts first second).map UDPConn.conn
    rw [hbind, conns_install p hs]
    refine ⟨hkeep.perm hperm, .inr ⟨herr, hs, ?_⟩⟩
    rw [← Bool.not_eq_false, ← conns_eq_nil_iff, conns_install p hs]
    intro hno
    rw [hno, List.perm_nil, List.map_eq_nil_iff, List.append_eq_nil_iff, Option.toList_eq_nil_iff,
      Option.toList_eq_nil_iff] at hperm
    exact hsome.elim (fun h => h hperm.1) fun h => h hperm.2

section Inversion

variable {p opts net} {uport : UInt16} {r : Opened} (he : s.Open p opts net uport o = some r)

include he

/-- **What a call of `Open` makes of the bind**: it fails and leaves the bind as it was, or installs
the sockets it opened and returns the functions for them. -/
theorem Open_cases :
    (r.err ≠ none ∧ r.bind = s ∧ r.fns = []) ∨
      ∃ first second port report o' n,
        attempts opts net uport 101 0 o = some (.opened first second port report, o', n) ∧
        s.isOpen = false ∧ r.err = none ∧
        r.bind = (install p true (byFamily opts first second).2
          (install p false (byFamily opts first second).1 s).1).1 ∧
        r.fns = (install p false (byFamily opts first second).1 s).2 ++
          (install p true (byFamily opts first second).2
            (install p false (byFamily opts first second).1 s).1).2 := by
  unfold Open at he
  split_ifs at he with hs
  · obtain rfl := Option.some.inj he
    exact .inl ⟨by simp [Opened.failed], rfl, rfl⟩
  rw [Bool.not_eq_true] at hs
  obtain ⟨⟨a, o', n⟩, ha, hr⟩ := Option.map_eq_some_iff.mp he
  obtain ⟨-, -, hfin⟩ := finish_cases p opts s a o' n hr
  rcases hfin with ⟨herr, hbind, hfns, -⟩ | ⟨first, second, port, report, rfl, herr, hbind, hfns⟩
  · exact .inl ⟨herr, hbind, hfns⟩
  · exact .inr ⟨first, second, port, report, o', n, ha, hs, herr, hbind, hfns⟩

/-- What was closed before a call of `Open` is closed behind it. -/
theorem released_Open : o.custody.released ⊆ r.sockets.custody.released := by
  unfold Open at he
  split_ifs at he with hs
  · obtain rfl := Option.some.inj he
    exact List.Subset.refl _
  obtain ⟨⟨a, o', n⟩, ha, hr⟩ := Option.map_eq_some_iff.mp he
  rw [(finish_cases p opts s a o' n hr).1]
  exact released_attempts opts net uport ha

/-- A function that `Open` returns has captured the socket that it installed for its family. -/
theorem conn_of_mem_fns {f : ReceiveFunc} (hf : f ∈ r.fns) : r.bind.conn f.is6 = some f.conn := by
  rcases Open_cases he with ⟨-, -, hfns⟩ | ⟨first, second, -, -, -, -, -, -, -, hbind, hfns⟩
  · simp [hfns] at hf
  · rw [hbind]
    rw [hfns] at hf
    generalize byFamily opts first second = conns at hf ⊢
    obtain ⟨- | c4, - | c6⟩ := conns <;>
      simp only [install, List.nil_append, List.append_nil, List.mem_append, List.mem_singleton,
        List.not_mem_nil] at hf
    · subst hf
      rfl
    · subst hf
      rfl
    · rcases hf with rfl | rfl <;> rfl

/-- `Open` does not touch the pools and the blackholes. -/
theorem Open_frame :
    r.bind.udpAddrPool = s.udpAddrPool ∧ r.bind.msgsPool = s.msgsPool ∧
      r.bind.batchSize = s.batchSize ∧ r.bind.blackhole = s.blackhole := by
  rcases Open_cases he with ⟨-, hbind, -⟩ | ⟨first, second, -, -, -, -, -, -, -, hbind, -⟩
  · rw [hbind]
    exact ⟨rfl, rfl, rfl, rfl⟩
  · rw [hbind]
    generalize byFamily opts first second = conns
    obtain ⟨- | c4, - | c6⟩ := conns <;> exact ⟨rfl, rfl, rfl, rfl⟩

theorem Valid.Open (hs : s.Valid p) : r.bind.Valid p := by
  obtain ⟨haddrs, hmsgs, hsize, -⟩ := Open_frame he
  exact hs.congr haddrs hmsgs hsize

end Inversion

/-- What was closed before is closed behind closing an address family. -/
theorem released_closeFamily (is6 : Bool) :
    o.custody.released ⊆ (closeFamily is6 s o).2.custody.released := by
  unfold closeFamily
  split
  · exact List.Subset.refl _
  · exact List.subset_cons_self _ _

/-- Closing an address family does not touch the pools. -/
theorem closeFamily_frame (is6 : Bool) :
    (closeFamily is6 s o).1.udpAddrPool = s.udpAddrPool ∧
      (closeFamily is6 s o).1.msgsPool = s.msgsPool ∧
      (closeFamily is6 s o).1.batchSize = s.batchSize := by
  unfold closeFamily
  split
  · exact ⟨rfl, rfl, rfl⟩
  · cases is6 <;> exact ⟨rfl, rfl, rfl⟩

theorem Valid.closeFamily {p : Platform} (hs : s.Valid p) (is6 : Bool) (o : Sockets) :
    (closeFamily is6 s o).1.Valid p := by
  obtain ⟨haddrs, hmsgs, hsize⟩ := @closeFamily_frame s o is6
  exact hs.congr haddrs hmsgs hsize

theorem conn_closeFamily (is6 is6' : Bool) :
    (closeFamily is6 s o).1.conn is6' = if is6 = is6' then none else s.conn is6' := by
  unfold closeFamily
  rcases hc : s.conn is6 with - | c
  · cases is6 <;> cases is6' <;> simp [hc]
  · cases is6 <;> cases is6' <;> simp [conn]

/-- The socket that the bind loses when an address family is closed is closed. -/
theorem conn_or_released_closeFamily (is6 : Bool) {is6' : Bool} {c : Conn}
    (hc : s.conn is6' = some c) :
    (closeFamily is6 s o).1.conn is6' = some c ∨
      c ∈ (closeFamily is6 s o).2.custody.released := by
  rw [conn_closeFamily]
  split_ifs with his
  · subst his
    exact .inr (by simp [closeFamily, hc, Sockets.close, Custody.release, Custody.releaseOne])
  · exact .inl hc

/-- Closing an address family closes the socket that the bind loses. -/
theorem holds_closeFamily (h : o.Holds s.conns) (is6 : Bool) :
    (closeFamily is6 s o).2.Holds (closeFamily is6 s o).1.conns := by
  unfold closeFamily
  rcases hc : s.conn is6 with - | c
  · exact h
  · refine Sockets.Holds.close (h.perm ?_)
    cases is6
    · simp [conns, show s.ipv4 = some c from hc]
    · simp [conns, show s.ipv6 = some c from hc]

/-- **What a call of `Close` does**: the bind has no socket afterwards, and owns none. -/
theorem holds_Close (h : o.Holds s.conns) (err4 err6 : Option Error) :
    (s.Close o err4 err6).bind.isOpen = false ∧
      (s.Close o err4 err6).sockets.Holds (s.Close o err4 err6).bind.conns := by
  have hboth := holds_closeFamily (holds_closeFamily h false) true
  refine ⟨?_, hboth⟩
  have h4 : (s.Close o err4 err6).bind.ipv4 = none := by
    show (closeFamily true (closeFamily false s o).1 (closeFamily false s o).2).1.conn false = none
    rw [conn_closeFamily, conn_closeFamily]
    rfl
  have h6 : (s.Close o err4 err6).bind.ipv6 = none := by
    show (closeFamily true (closeFamily false s o).1 (closeFamily false s o).2).1.conn true = none
    rw [conn_closeFamily]
    rfl
  rw [isOpen, h4, h6]
  rfl

/-- `Close` does not touch the pools, and clears the blackholes. -/
theorem Close_frame (err4 err6 : Option Error) :
    (s.Close o err4 err6).bind.udpAddrPool = s.udpAddrPool ∧
      (s.Close o err4 err6).bind.msgsPool = s.msgsPool ∧
      (s.Close o err4 err6).bind.batchSize = s.batchSize ∧
      ∀ is6, (s.Close o err4 err6).bind.blackhole is6 = false := by
  obtain ⟨haddrs, hmsgs, hsize⟩ := @closeFamily_frame s o false
  obtain ⟨haddrs', hmsgs', hsize'⟩ :=
    @closeFamily_frame (closeFamily false s o).1 (closeFamily false s o).2 true
  refine ⟨haddrs'.trans haddrs, hmsgs'.trans hmsgs, hsize'.trans hsize, ?_⟩
  intro is6
  cases is6 <;> rfl

end Calls

/-! ## Runs -/

/-- A call of `Open` or of `Close`, the latter with the errors of closing the sockets. -/
inductive Call where
  | Open (uport : UInt16)
  | Close (err4 err6 : Option Error)
  deriving DecidableEq, Repr

/-- What a call did. -/
inductive Reply where
  | opened (r : Opened)
  | closed (r : Closed)
  deriving DecidableEq, Repr

namespace Reply

/-- The bind after a call. -/
def bind : Reply → StdNetBind
  | opened r => r.bind
  | closed r => r.bind

/-- The sockets after a call. -/
def sockets : Reply → Sockets
  | opened r => r.sockets
  | closed r => r.sockets

/-- The call opened the bind. -/
def succeeded : Reply → Bool
  | opened r => r.err.isNone
  | closed _ => false

/-- The call was one of `Close`. -/
def isClose : Reply → Bool
  | opened _ => false
  | closed _ => true

end Reply

/-- The machine that opens and closes a bind. -/
def lifecycle (p : Platform) (opts : StdNetBindOptions) (net : Option Network) :
    StdNetBind × Sockets → Call → Option ((StdNetBind × Sockets) × Reply)
  | (s, o), .Open uport => (s.Open p opts net uport o).map fun r =>
    ((r.bind, r.sockets), .opened r)
  | (s, o), .Close err4 err6 =>
    let r := s.Close o err4 err6
    some ((r.bind, r.sockets), .closed r)

/-- Some call of `Open` succeeded, and no call of `Close` came after it. -/
def OpenedSinceClose (past : List (Visit (StdNetBind × Sockets) Call Reply)) : Prop :=
  ∃ front v back, past = front ++ v :: back ∧ v.output.succeeded = true ∧
    ∀ w ∈ back, w.output.isClose = false

theorem not_openedSinceClose_nil : ¬ OpenedSinceClose [] := by
  rintro ⟨front, v, back, h, -⟩
  simp at h

/-- The last call opened the bind, or it was already open and the call did not close it. -/
theorem openedSinceClose_append {past : List (Visit (StdNetBind × Sockets) Call Reply)}
    {v : Visit (StdNetBind × Sockets) Call Reply} :
    OpenedSinceClose (past ++ [v]) ↔
      v.output.succeeded = true ∨ OpenedSinceClose past ∧ v.output.isClose = false := by
  constructor
  · rintro ⟨front, w, back, h, hw, hb⟩
    rcases List.eq_nil_or_concat back with rfl | ⟨back, u, rfl⟩
    · obtain ⟨-, h⟩ := List.append_inj' h rfl
      obtain rfl := List.singleton_inj.mp h
      exact .inl hw
    · rw [List.concat_eq_append, ← List.cons_append, ← List.append_assoc] at h
      rw [List.concat_eq_append] at hb
      obtain ⟨rfl, hvu⟩ := List.append_inj' h rfl
      obtain rfl := List.singleton_inj.mp hvu
      exact .inr ⟨⟨front, w, back, rfl, hw, fun x hx => hb x (by simp [hx])⟩, hb v (by simp)⟩
  · rintro (hv | ⟨⟨front, w, back, rfl, hw, hb⟩, hv⟩)
    · exact ⟨past, v, [], rfl, hv, by simp⟩
    · refine ⟨front, w, back ++ [v], by simp, hw, fun x hx => ?_⟩
      rcases List.mem_append.mp hx with hx | hx
      · exact hb x hx
      · exact List.mem_singleton.mp hx ▸ hv

/-- What holds along a run: the bind owns its sockets, and is open iff it was opened since it was
last closed. -/
structure Owning (past : List (Visit (StdNetBind × Sockets) Call Reply))
    (s : StdNetBind × Sockets) : Prop where
  holds : s.2.Holds s.1.conns
  isOpen_iff : s.1.isOpen = true ↔ OpenedSinceClose past

section Runs

variable (p : Platform) (opts : StdNetBindOptions) (net : Option Network)

/-- What a call does to the bind, besides keeping what it owns. -/
structure Effect (v : Visit (StdNetBind × Sockets) Call Reply) : Prop where
  failed : ∀ r, v.output = .opened r → r.err ≠ none → r.bind = v.before.1
  attempts : ∀ r, v.output = .opened r → r.attempts ≤ 101

/-- **A call keeps what the bind owns.** -/
theorem exists_lifecycle {past : List (Visit (StdNetBind × Sockets) Call Reply)}
    {s : StdNetBind × Sockets} (h : Owning past s) (c : Call) :
    ∃ r : Reply, lifecycle p opts net s c = some ((r.bind, r.sockets), r) ∧
      Owning (past ++ [⟨s, c, r⟩]) (r.bind, r.sockets) ∧ Effect ⟨s, c, r⟩ := by
  obtain ⟨b, o⟩ := s
  obtain ⟨hh, hiff⟩ := h
  cases c with
  | Open uport =>
    obtain ⟨r, he, hn, hheld, hr⟩ := exists_Open p opts net hh uport
    refine ⟨.opened r, by simp [lifecycle, he, Reply.bind, Reply.sockets], ⟨hheld, ?_⟩, ?_, ?_⟩
    · rw [openedSinceClose_append, ← hiff]
      rcases hr with ⟨herr, hb⟩ | ⟨herr, hs, hopen⟩
      · simp [Reply.bind, hb, Reply.succeeded, Reply.isClose, herr]
      · simp [Reply.bind, hopen, Reply.succeeded, herr]
    · rintro r' ⟨⟩ herr
      rcases hr with ⟨-, hb⟩ | ⟨hnone, -⟩
      · exact hb
      · exact absurd hnone herr
    · rintro r' ⟨⟩
      exact hn
  | Close err4 err6 =>
    obtain ⟨hclosed, hheld⟩ := holds_Close hh err4 err6
    refine ⟨.closed (b.Close o err4 err6), rfl, ⟨hheld, ?_⟩, ?_, ?_⟩
    · rw [openedSinceClose_append]
      simp [Reply.bind, hclosed, Reply.succeeded, Reply.isClose]
    · rintro r' ⟨⟩
    · rintro r' ⟨⟩

/-- **Along every run of `Open` and `Close` the bind owns exactly the sockets it has installed**:
they are those opened through the network and not closed, none is closed twice, a failed `Open`
changes nothing, the bind is open iff it was opened since it was last closed, and `Open` makes at
most a hundred and one attempts. -/
theorem lifecycle_owns (calls : List Call) :
    ∃ t, trace (lifecycle p opts net) (NewStdNetBindWithOptions p net opts, .empty) calls = some t ∧
      ∀ past v, past ++ [v] <+: t →
        (∀ c, (v.output.bind.ipv4 = some c ∨ v.output.bind.ipv6 = some c) ↔
          c ∈ v.output.sockets.custody.acquired ∧ c ∉ v.output.sockets.custody.released) ∧
        v.output.sockets.custody.released.Nodup ∧
        (∀ r, v.output = .opened r → r.err ≠ none → r.bind = v.before.1) ∧
        (v.output.bind.isOpen = true ↔ OpenedSinceClose (past ++ [v])) ∧
        ∀ r, v.output = .opened r → r.attempts ≤ 101 := by
  have hnew : Owning [] (NewStdNetBindWithOptions p net opts, Sockets.empty) :=
    ⟨Sockets.holds_empty, iff_of_false (by simp [NewStdNetBindWithOptions, isOpen])
      not_openedSinceClose_nil⟩
  obtain ⟨t, ht, hall⟩ := exists_trace_history
    (fun past s => Owning past s)
    (fun past s c h => by
      obtain ⟨r, he, ho, -⟩ := exists_lifecycle p opts net h c
      exact ⟨_, r, he, ho⟩) hnew calls
  refine ⟨t, ht, ?_⟩
  intro past v hv
  obtain ⟨hbefore, s', hrec, -⟩ := hall past v hv
  obtain ⟨r, he, howns, heff⟩ := exists_lifecycle p opts net hbefore v.input
  obtain ⟨before, input, output⟩ := v
  obtain ⟨-, rfl⟩ := Prod.mk.inj (Option.some.inj (he.symm.trans hrec))
  refine ⟨fun c => ?_, howns.holds.released_nodup, heff.failed, howns.isOpen_iff,
    heff.attempts⟩
  rw [← mem_conns]
  exact howns.holds.mem_iff c

end Runs

end StdNetBind

end BatchUDP
