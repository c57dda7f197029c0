import BatchUDP.Machine.Port
import BatchUDP.StdNet.Receive
import BatchUDP.Windows.Handles

/-!
# Concurrent calls on the Windows bind

The calls of a `WinRingBind` share a read-write mutex, a flag that says whether the bind is open,
and for each ring a mutex and a completion port. Receive calls, `Send` and the calls that bind to an
interface have the read lock throughout. `Close` sets the flag to 2 and posts a packet to each port
under the read lock, so that the calls that wait wake up and leave; it then takes the write lock,
which it gets when no call has the read lock, to close and zero the bind. `Open` has the write lock
throughout.

A step of a call is what it does up to the next load, store, lock or system call. What happens under
the write lock, or the mutex of a request queue, is one step. The kernel delivers datagrams and
completes sends in between. A call that cannot go on stays where it is, and one that dequeues from a
corrupt queue panics. The mutexes are no values of their own: a call has the lock of a ring while
the ring is at another point than its idle one. The read lock may be kept back from a call, as Go
does while another one waits for the write lock.

## Main definitions

* `WinRingBind.Family`: an address family, with what the kernel has of it
* `WinRingBind.Shared`, `WinRingBind.Pc`: what the calls share, and where a call is
* `WinRingBind.Pc.step`: the next step of a call
* `WinRingBind.Calls`, `WinRingBind.Calls.next`: the machine
-/

namespace BatchUDP

open Go Machine

/-- `ErrWrongEndpointType`. -/
def errWrongEndpointType : Error := .text "endpoint type does not correspond with bind type"

/-- `windows.WSAEALREADY`, with which `Notify` fails while a notification is pending. -/
def wsaEALREADY : Error := .errno (.other 10037)

namespace WinRingBind

open AfWinRingBind

/-- The point that the call with the mutex of a transmit ring has reached. Behind the dequeuing, the
number of dequeued completions is known. -/
inductive TxPoint where
  | idle
  | dequeue
  | notify
  | wait
  | submit (count : ℕ)
  deriving DecidableEq, Repr

/-- The completed sends that were dequeued, and whose packets were not given back yet. -/
def TxPoint.dequeued : TxPoint → ℕ
  | .submit count => count
  | _ => 0

/-- An address family, with what the kernel has of it: the two rings with their completion ports,
the number of completed sends that were not dequeued, the point that the call with the mutex of the
transmit ring has reached, and the interface that the socket is bound to. For reference, what
`SendEx` accepted since the family was opened, and what the kernel has sent of it. -/
structure Family where
  sock : ℕ
  rq : ℕ
  blackhole : Bool
  iface : ℕ
  rx : RxState
  rxPort : Port
  tx : TxState
  done : ℕ
  txPoint : TxPoint
  txPort : Port
  submitted : List (WinRingEndpoint × List UInt8)
  transmitted : List (WinRingEndpoint × List UInt8)

namespace Family

/-- The fields of the bind. -/
def af (f : Family) : AfWinRingBind := ⟨f.sock, f.rx.ring, f.tx.ring, f.rq, f.blackhole⟩

/-- The family behind `Open` or `closeAndZero`, with the fields that these leave. `Open` has posted
all packets of the receive ring. -/
def load (f : Family) (b : AfWinRingBind) (opened : Bool) : Family where
  sock := b.sock
  rq := b.rq
  blackhole := b.blackhole
  iface := 0
  rx := ⟨b.rx, f.rx.mem, if opened then List.range packetsPerRing else [], [], f.rx.deliveries, 0,
    .idle⟩
  rxPort := .empty
  tx := ⟨b.tx, f.tx.mem, []⟩
  done := 0
  txPoint := .idle
  txPort := .empty
  submitted := []
  transmitted := []

/-! ## The kernel -/

/-- The kernel delivers a datagram. -/
def deliver (f : Family) (d : Delivery) : Family :=
  match f.rx.posted with
  | [] => f
  | _ :: _ => { f with rx := AfWinRingBind.deliver f.rx d, rxPort := f.rxPort.complete }

/-- What the kernel reads from the packet of a request. -/
def outgoing (f : Family) (r : Request) : WinRingEndpoint × List UInt8 :=
  ((f.tx.mem r.slot).addr, (f.tx.mem r.slot).data.take r.buf.length)

/-- The kernel sends the datagram of the oldest request that it has not completed, and completes
it. -/
def complete (f : Family) : Family :=
  match f.tx.inFlight[f.txPoint.dequeued + f.done]? with
  | none => f
  | some r =>
    { f with
      done := f.done + 1
      txPort := f.txPort.complete
      transmitted := f.transmitted ++ [f.outgoing r] }

end Family

/-- What the environment answers in a step: the error of the system call, whether a receive call
finds a completion, how many completions a send finds, whether the completion queue is corrupt,
whether the read lock is kept back, and the system calls of `Open`. -/
structure Ans where
  err : Option Error
  found : Bool
  count : ℕ
  corrupt : Bool
  locked : Bool
  run : OpenRun

/-- `Notify`, while a number of completions is in the queue: an error, or the port behind it. -/
def notify (port : Port) (ready : ℕ) (err : Option Error) : Except Error Port :=
  match err with
  | some e => .error e
  | none =>
    match port.notify ready with
    | none => .error wsaEALREADY
    | some port => .ok port

/-- How a step in a ring ends: the call cannot go on, goes on, or leaves the ring with a result. -/
inductive Ended (α : Type) where
  | blocked
  | goesOn
  | leaves (r : α)

namespace Family

/-! ## Receiving -/

/-- The handles that `Receive` uses in its next step. -/
def rxTouches (f : Family) : List Handle :=
  match f.rx.point with
  | .spin _ | .notify => [⟨.queue, f.rx.ring.cq⟩]
  | .wait => [⟨.port, f.rx.ring.iocp⟩, ⟨.queue, f.rx.ring.cq⟩]
  | .rearm _ => [⟨.memory, f.rx.ring.packets⟩, ⟨.buffer, f.rx.ring.id⟩, ⟨.socket, f.sock⟩]
  | .copyAddr _ _ | .copyData _ _ _ _ => [⟨.memory, f.rx.ring.packets⟩]
  | _ => []

/-- A step of `Receive` that does not wait for the port. -/
def rxAdvance (f : Family) (port : Port) (isOpen : Bool) (err : Option Error) (found : Bool) :
    Option (Family × Ended (Except Error Copied)) := do
  let (rx, out) ← advance f.rx ⟨isOpen, err, found, 0⟩
  some ({ f with rx := rx, rxPort := port },
    match out.returned with
    | none => .goesOn
    | some r => .leaves r)

/-- The next step of `Receive` calls `DequeueCompletion`. -/
def rxDequeues (f : Family) (isOpen : Bool) (a : Ans) : Bool :=
  match f.rx.point with
  | .spin tries => tries < receiveSpins && (tries == 0 || isOpen)
  | .wait => a.err.isNone && f.rxPort.take.isSome && isOpen
  | _ => false

/-- The next step of `Receive`, which panics if it dequeues from a corrupt queue. -/
def rxStep (f : Family) (isOpen : Bool) (a : Ans) :
    Option (Family × Ended (Except Error Copied)) :=
  if a.corrupt && f.rxDequeues isOpen a then none
  else
    match f.rx.point with
    | .notify =>
      match notify f.rxPort f.rx.completed.length a.err with
      | .error e => f.rxAdvance f.rxPort isOpen (some e) a.found
      | .ok port => f.rxAdvance port isOpen none a.found
    | .wait =>
      match a.err, f.rxPort.take with
      | some e, _ => f.rxAdvance f.rxPort isOpen (some e) a.found
      | none, none => some (f, .blocked)
      | none, some port => f.rxAdvance port isOpen none a.found
    | _ => f.rxAdvance f.rxPort isOpen a.err a.found

/-! ## Sending -/

/-- The handles that `Send` uses in its next step. -/
def txTouches (f : Family) : List Handle :=
  match f.txPoint with
  | .idle => []
  | .dequeue | .notify => [⟨.queue, f.tx.ring.cq⟩]
  | .wait => [⟨.port, f.tx.ring.iocp⟩, ⟨.queue, f.tx.ring.cq⟩]
  | .submit _ => [⟨.memory, f.tx.ring.packets⟩, ⟨.buffer, f.tx.ring.id⟩, ⟨.socket, f.sock⟩]

/-- How many completions `DequeueCompletion` finds. -/
def dequeue (f : Family) (count : ℕ) : ℕ := min (min count packetsPerRing) f.done

/-- `Send` leaves the ring. -/
def txReturn (f : Family) (err : Option Error) : Family × Ended (Option Error) :=
  ({ f with txPoint := .idle }, .leaves err)

/-- `Send` goes on. -/
def txGoto (f : Family) (pt : TxPoint) : Family × Ended (Option Error) :=
  ({ f with txPoint := pt }, .goesOn)

/-- The next step of `Send` of a datagram to an endpoint, which panics if it dequeues from a corrupt
queue. -/
def txStep (f : Family) (isOpen : Bool) (nend : WinRingEndpoint) (buf : List UInt8) (a : Ans) :
    Option (Family × Ended (Option Error)) :=
  match f.txPoint with
  | .idle => some (f, .blocked)
  | .dequeue =>
    if a.corrupt then none
    else if f.dequeue a.count = 0 ∧ f.tx.ring.isFull = true then some (f.txGoto .notify)
    else some ({ f with done := f.done - f.dequeue a.count }.txGoto (.submit (f.dequeue a.count)))
  | .notify =>
    match notify f.txPort f.done a.err with
    | .error e => some (f.txReturn (some e))
    | .ok port => some ({ f with txPort := port }.txGoto .wait)
  | .wait =>
    match a.err, f.txPort.take with
    | some e, _ => some (f.txReturn (some e))
    | none, none => some (f, .blocked)
    | none, some port =>
      if isOpen = false then some ({ f with txPort := port }.txReturn (some errClosed))
      else if a.corrupt then none
      else if f.dequeue a.count = 0 then
        some ({ f with txPort := port }.txReturn (some errNoProgress))
      else
        some ({ f with txPort := port, done := f.done - f.dequeue a.count }.txGoto
          (.submit (f.dequeue a.count)))
  | .submit count => do
    let r ← submit f.tx ⟨buf, nend, true, 0, none, none, true, 0, a.err⟩ false count
      (f.tx.inFlight.drop count)
    some ({ f with
      tx := r.state
      submitted := if a.err = none then f.submitted ++ [(nend, buf)] else f.submitted }.txReturn
        r.err)

end Family

/-! ## What the calls share -/

/-- What the calls share: the address families, the flag, the subscription, and the custody of the
handles. -/
structure Shared where
  af : Bool → Family
  isOpen : ℕ
  subscriber : Bool
  unsubscribe : Bool
  handles : Custody Handle

namespace Shared

/-- The fields of the bind. -/
def bind (s : Shared) : WinRingBind :=
  ⟨(s.af false).af, (s.af true).af, s.isOpen, s.subscriber, s.unsubscribe⟩

/-- What is shared behind `Open` or `closeAndZero`. -/
def load (s : Shared) (b : WinRingBind) (handles : Custody Handle) : Shared where
  af is6 := (s.af is6).load (b.af is6) (b.isOpen == 1)
  isOpen := b.isOpen
  subscriber := b.subscriber
  unsubscribe := b.unsubscribe
  handles := handles

/-- Another address family. -/
def set (s : Shared) (is6 : Bool) (f : Family) : Shared :=
  { s with af := Function.update s.af is6 f }

/-- Handles are used. -/
def touch (s : Shared) (hs : List Handle) : Shared := { s with handles := s.handles.touch hs }

end Shared

/-- What a call returned. -/
inductive Returned where
  | received (r : Except Error Copied)
  | done (err : Option Error)
  | opened (err : Option Error) (port : UInt16)

/-- A ring: that of a family for receiving, or for sending. -/
structure RingName where
  is6 : Bool
  tx : Bool
  deriving DecidableEq, Repr

/-- Where a call is. A receive call has the lengths of the caller's slices and of its buffers, and
then that of the first buffer. A call of `Send` has the datagrams that are left. A call of `Close`
has the rings to whose ports it still posts. -/
inductive Pc where
  | receive (is6 : Bool) (bufs : List ℕ) (sizes eps : ℕ)
  | receiveRLock (is6 : Bool) (buf : ℕ)
  | receiveLoad (is6 : Bool) (buf : ℕ)
  | receiveLock (is6 : Bool) (buf : ℕ)
  | receiving (is6 : Bool)
  | send (endpoint : Option WinRingEndpoint) (bufs : List (List UInt8))
  | sendNext (nend : WinRingEndpoint) (bufs : List (List UInt8))
  | sendLock (is6 : Bool) (nend : WinRingEndpoint) (buf : List UInt8) (rest : List (List UInt8))
  | sending (is6 : Bool) (nend : WinRingEndpoint) (buf : List UInt8) (rest : List (List UInt8))
  | bindSocket (is6 : Bool) (interfaceIndex : UInt32) (blackhole : Bool)
  | bindLoad (is6 : Bool) (interfaceIndex : UInt32) (blackhole : Bool)
  | bindSet (is6 : Bool) (interfaceIndex : UInt32) (blackhole : Bool)
  | close
  | closeLoad
  | closeStore
  | closePost (left : List RingName)
  | closeLock
  | open (port : UInt16)
  | returned (r : Returned)

namespace Pc

/-- The call has not done anything yet. -/
def initial : Pc → Bool
  | receive .. | send .. | bindSocket .. | close | «open» .. => true
  | _ => false

/-- The call has the read lock. -/
def reads : Pc → Bool
  | receiveLoad .. | receiveLock .. | receiving .. | sendNext .. | sendLock .. | sending ..
  | bindLoad .. | bindSet .. | closeLoad | closeStore | closePost .. => true
  | _ => false

/-- The call has found the bind open since it has the read lock. -/
def entered : Pc → Bool
  | receiveLock .. | receiving .. | sendLock .. | sending .. | bindSet .. | closeStore
  | closePost .. => true
  | _ => false

/-- The call has the mutex of the receive ring of a family. -/
def inRx (is6 : Bool) : Pc → Bool
  | receiving is6' => is6 = is6'
  | _ => false

/-- The call has the mutex of the transmit ring of a family. -/
def inTx (is6 : Bool) : Pc → Bool
  | sending is6' .. => is6 = is6'
  | _ => false

end Pc

/-- The option value that binds a socket to an interface: in network byte order for IPv4. -/
def interfaceOption (is6 : Bool) (interfaceIndex : UInt32) : ℕ :=
  if is6 then interfaceIndex.toNat else Unix.leNat (Unix.leBytes 4 interfaceIndex.toNat).reverse

/-- The port of a ring gets a packet. -/
def Family.post (f : Family) (tx : Bool) : Family :=
  if tx then { f with txPort := f.txPort.post } else { f with rxPort := f.rxPort.post }

/-- The completion port of a ring. -/
def Family.iocp (f : Family) (tx : Bool) : Handle :=
  ⟨.port, if tx then f.tx.ring.iocp else f.rx.ring.iocp⟩

/-- The rings in the order in which `Close` posts to their ports. -/
def ringNames : List RingName := [⟨false, false⟩, ⟨false, true⟩, ⟨true, false⟩, ⟨true, true⟩]

namespace Pc

/-- A call that found the bind closed. -/
def receivedClosed : Pc := .returned (.received (.error errClosed))

/-- The next step of a call, where `quiet` says that no call has the read lock. It is `none` if the
call panics. -/
def step (quiet : Bool) (s : Shared) (a : Ans) : Pc → Option (Shared × Pc)
  -- `receiveIPv4` and `receiveIPv6`, for which the batch size is 1
  | receive is6 bufs sizes eps =>
    if s.isOpen ≠ 1 then some (s, receivedClosed)
    else
      match bufs with
      | [] => some (s, .returned (.received (.error errReadBufferTooShort)))
      | buf :: _ =>
        if sizes < 1 ∨ eps < 1 then some (s, .returned (.received (.error errReadBufferTooShort)))
        else some (s, .receiveRLock is6 buf)
  | receiveRLock is6 buf =>
    some (s, if a.locked then .receiveRLock is6 buf else .receiveLoad is6 buf)
  | receiveLoad is6 buf => some (s, if s.isOpen = 1 then .receiveLock is6 buf else receivedClosed)
  | receiveLock is6 buf =>
    let f := s.af is6
    if f.rx.point = .idle then
      some (s.set is6 { f with rx := { f.rx with buf := buf, point := .spin 0 } }, .receiving is6)
    else some (s, .receiveLock is6 buf)
  | receiving is6 => do
    let s := s.touch (s.af is6).rxTouches
    let (f, ended) ← (s.af is6).rxStep (s.isOpen == 1) a
    some (s.set is6 f,
      match ended with
      | .leaves r => .returned (.received r)
      | _ => .receiving is6)
  | send none _ => some (s, .returned (.done (some errWrongEndpointType)))
  | send (some nend) bufs =>
    some (s, if a.locked then .send (some nend) bufs else .sendNext nend bufs)
  | sendNext _ [] => some (s, .returned (.done none))
  | sendNext nend (buf :: rest) =>
    match family nend with
    | none => some (s, .sendNext nend rest)
    | some is6 =>
      if (s.af is6).blackhole then some (s, .sendNext nend rest)
      else if s.isOpen ≠ 1 then some (s, .returned (.done (some errClosed)))
      else if bytesPerPacket < buf.length then some (s, .returned (.done (some errShortBuffer)))
      else some (s, .sendLock is6 nend buf rest)
  | sendLock is6 nend buf rest =>
    let f := s.af is6
    if f.txPoint = .idle then
      some (s.set is6 { f with txPoint := .dequeue }, .sending is6 nend buf rest)
    else some (s, .sendLock is6 nend buf rest)
  | sending is6 nend buf rest => do
    let s := s.touch (s.af is6).txTouches
    let (f, ended) ← (s.af is6).txStep (s.isOpen == 1) nend buf a
    some (s.set is6 f,
      match ended with
      | .leaves none => .sendNext nend rest
      | .leaves (some e) => .returned (.done (some e))
      | _ => .sending is6 nend buf rest)
  -- `BindSocketToInterface4` and `BindSocketToInterface6`
  | bindSocket is6 interfaceIndex blackhole =>
    some (s, if a.locked then .bindSocket is6 interfaceIndex blackhole
      else .bindLoad is6 interfaceIndex blackhole)
  | bindLoad is6 interfaceIndex blackhole =>
    some (s, if s.isOpen = 1 then .bindSet is6 interfaceIndex blackhole
      else .returned (.done (some errClosed)))
  | bindSet is6 interfaceIndex blackhole =>
    let s := s.touch [⟨.socket, (s.af is6).sock⟩]
    match a.err with
    | some e => some (s, .returned (.done (some e)))
    | none =>
      some (s.set is6 { s.af is6 with
        iface := interfaceOption is6 interfaceIndex
        blackhole := blackhole }, .returned (.done none))
  | close => some (s, if a.locked then .close else .closeLoad)
  | closeLoad => some (s, if s.isOpen = 1 then .closeStore else .returned (.done none))
  | closeStore => some ({ s with isOpen := 2 }, .closePost ringNames)
  | closePost [] => some (s, .closeLock)
  | closePost (r :: left) =>
    let f := s.af r.is6
    some ((s.touch [f.iocp r.tx]).set r.is6 (f.post r.tx), .closePost left)
  | closeLock =>
    if quiet then
      some (s.load s.bind.closeAndZero (s.handles.release s.bind.handles), .returned (.done none))
    else some (s, .closeLock)
  | «open» port =>
    if quiet then
      (s.bind.Open port a.run).map fun r =>
        (s.load r.bind (s.bind.openCustody port a.run s.handles), .returned (.opened r.err r.port))
    else some (s, .open port)
  | returned r => some (s, .returned r)

end Pc

/-- The machine: what the calls share, and the calls. -/
structure Calls where
  shared : Shared
  calls : List Pc

namespace Calls

/-- No call has the read lock. -/
def quiet (w : Calls) : Bool := w.calls.all fun pc => !pc.reads

/-- What can happen next: a call starts, a call takes a step, or the kernel delivers a datagram or
completes a send. -/
inductive Event where
  | start (pc : Pc)
  | step (call : ℕ) (a : Ans)
  | deliver (is6 : Bool) (d : Delivery)
  | complete (is6 : Bool)

/-- The state behind an event, or `none` if a call panics. -/
def next (w : Calls) : Event → Option Calls
  | .start pc => some (if pc.initial then { w with calls := w.calls ++ [pc] } else w)
  | .step call a =>
    match w.calls[call]? with
    | none => some w
    | some pc => do
      let (s, pc') ← pc.step w.quiet w.shared a
      some ⟨s, w.calls.set call pc'⟩
  | .deliver is6 d =>
    some { w with shared := w.shared.set is6 ((w.shared.af is6).deliver d) }
  | .complete is6 =>
    some { w with shared := w.shared.set is6 (w.shared.af is6).complete }

/-- The machine. Its output is the state behind the event. -/
def step (w : Calls) (e : Event) : Option (Calls × Calls) := (w.next e).map fun w' => (w', w')

/-- A bind that was never opened. The memory of the packets has any content. -/
def start (rxMem : ℕ → Filled) (txMem : ℕ → RingPacket) : Calls where
  shared :=
    { af := fun _ =>
        ⟨0, 0, false, 0, ⟨.zero, rxMem, [], [], 0, 0, .idle⟩, .empty, ⟨.zero, txMem, []⟩, 0, .idle,
          .empty, [], []⟩
      isOpen := 0
      subscriber := true
      unsubscribe := false
      handles := .empty }
  calls := []

end Calls

end WinRingBind

end BatchUDP
