import BatchUDP.Bindtest.ChannelBind
import BatchUDP.Machine.Trace
import BatchUDP.Unix.Cmsg

/-!
# A session of the ping-pong program over channel binds

`runSession` opens a pair of binds, starts a receive loop for each receive function of either, and
sends one payload after another from the client to the server, whose loops send back what they
receive. The client waits for the reply to a payload before it sends the next one, and compares it
with the payload. In the end it closes both binds and waits for the loops to return.

The session is a machine in which the goroutines take their steps in any order. A step ends where
another goroutine can notice: at a read or write of a channel, and at a test of a close signal. A
goroutine that has to wait has no step. The context of the session may be done at any time, by its
deadline or because another session has failed.

## Main definitions

* `makePayload`: the payload of a round trip
* `Session`, `Session.start`: the state of a session
* `Session.stepMain`, `Session.stepLoop`: a step of `runSession`, and of a receive loop
* `Session.step`: the machine
-/

namespace BatchUDP

namespace Pingpong

open Go ChannelBind

/-- `context.Canceled`. -/
def errCanceled : Error := .text "context canceled"

/-- `context.DeadlineExceeded`. -/
def errDeadlineExceeded : Error := .text "context deadline exceeded"

/-- `maxUDPPayload`. -/
def maxUDPPayload : ℕ := 65507

/-- `maxPacketBuffer`. -/
def maxPacketBuffer (batchSize : ℕ) : ℕ := if 1 < batchSize then maxUDPPayload else maxUDPPayload

/-- The buffer that `receiveLoop` makes for its one slot. -/
def newPacket : Slice UInt8 :=
  ⟨List.replicate (maxPacketBuffer BatchSize) 0, maxPacketBuffer BatchSize, by simp⟩

/-- `makePayload`. It panics for sizes below 16. -/
def makePayload (payloadSize sessionID roundTrip : ℕ) : Option (List UInt8) :=
  if payloadSize < 16 then none
  else some (Unix.leBytes 8 sessionID ++ Unix.leBytes 8 roundTrip ++
    (List.range' 16 (payloadSize - 16)).map fun i =>
      UInt8.ofNat (sessionID * 31 + roundTrip * 17 + i))

theorem length_of_makePayload {payloadSize sessionID roundTrip : ℕ} {payload : List UInt8}
    (h : makePayload payloadSize sessionID roundTrip = some payload) :
    payload.length = payloadSize := by
  unfold makePayload at h
  split_ifs at h with hsize
  obtain rfl := Option.some.inj h
  simp only [List.length_append, Unix.length_leBytes, List.length_map, List.length_range']
  omega

/-- What `runSession` is called with: the part of the configuration that it uses, and its number. -/
structure Config where
  payloadSize : ℕ
  roundTrips : ℕ
  sessionID : ℕ
  payload_le : 16 ≤ payloadSize

namespace Config

/-- The payload of a round trip. -/
def payload (cfg : Config) (roundTrip : ℕ) : List UInt8 :=
  (makePayload cfg.payloadSize cfg.sessionID roundTrip).getD []

theorem makePayload_eq (cfg : Config) (roundTrip : ℕ) :
    makePayload cfg.payloadSize cfg.sessionID roundTrip = some (cfg.payload roundTrip) := by
  simp [payload, makePayload, Nat.not_lt.mpr cfg.payload_le]

@[simp] theorem length_payload (cfg : Config) (roundTrip : ℕ) :
    (cfg.payload roundTrip).length = cfg.payloadSize :=
  length_of_makePayload (cfg.makePayload_eq roundTrip)

end Config

/-- Why a context is done: its deadline has passed, or it was canceled with a cause. -/
inductive Done where
  | deadline
  | canceled (cause : Error)
  deriving DecidableEq, Repr

/-- `ctx.Err`. -/
def Done.err : Done → Error
  | .deadline => errDeadlineExceeded
  | .canceled _ => errCanceled

/-- `context.Cause`. -/
def Done.cause : Done → Error
  | .deadline => errDeadlineExceeded
  | .canceled cause => cause

/-- `taskGroup`: its context, which is done with that of the session at the latest, and its error.
-/
structure TaskGroup where
  ctx : Option Done
  err : Option Error
  deriving DecidableEq, Repr

namespace TaskGroup

/-- `newTaskGroup`, for a context that is not done. -/
def new : TaskGroup := ⟨none, none⟩

/-- `taskGroup.fail`. -/
def fail (g : TaskGroup) (err : Error) : TaskGroup :=
  if g.err ≠ none then g else ⟨g.ctx.or (some (.canceled err)), some err⟩

/-- What the function that `taskGroup.Go` starts does with the result of a task. -/
def finish (g : TaskGroup) : Option Error → TaskGroup
  | none => g
  | some err => if err.isValue errCanceled then g else g.fail err

/-- What `taskGroup.Wait` returns once the tasks have returned. -/
def waitErr (g : TaskGroup) : Option Error :=
  match g.err, g.ctx with
  | some err, _ => some err
  | none, some d => if d.cause.isValue errCanceled then none else some d.cause
  | none, none => none

end TaskGroup

/-- The goroutines that run receive loops: one for each receive function of either bind. -/
inductive Task where
  | server4
  | server6
  | client4
  | client6
  deriving DecidableEq, Repr

/-- The task belongs to the server. -/
def Task.isServer : Task → Bool
  | .server4 | .server6 => true
  | .client4 | .client6 => false

/-- Where a receive loop is: in a call of its receive function; in front of a call of `handle`; in
the call of `Send` that `handle` makes on the server; or returned. -/
inductive Loop where
  | receiving (buf : Slice UInt8)
  | handling (buf : Slice UInt8) (packet : List UInt8) (ep : ChannelEndpoint)
  | sending (buf : Slice UInt8) (st : Sending) (ep : ChannelEndpoint)
  | returned

/-- The loop has returned. -/
def Loop.isReturned : Loop → Bool
  | .returned => true
  | _ => false

/-- Where `runSession` is: in a call of `Send`; waiting for the reply; in front of the calls of
`Close`; waiting for the groups; in front of the deferred calls of `Close`, with its result; or
returned. -/
inductive Main where
  | send (roundTrip : ℕ) (st : Sending)
  | await (roundTrip : ℕ)
  | closeClient
  | closeServer
  | waitClient
  | waitServer
  | deferServer (err : Option Error)
  | deferClient (err : Option Error)
  | returned (err : Option Error)
  deriving DecidableEq, Repr

/-- A session. -/
structure Session where
  clientBind : ChannelBind
  serverBind : ChannelBind
  chans : Chans
  /-- whether the context is done, and why -/
  ctx : Option Done
  clientGroup : TaskGroup
  serverGroup : TaskGroup
  loops : Task → Loop
  clientRecv : List (List UInt8)
  serverEndpoint : ChannelEndpoint
  main : Main

/-- `payload mismatch in mode=channel ...`. -/
def errMismatch (cfg : Config) (roundTrip : ℕ) : Error :=
  .text ("payload mismatch in mode=channel session=" ++ toString cfg.sessionID ++ " round_trip=" ++
    toString roundTrip)

namespace Session

/-! ## Receive loops -/

/-- The bind of a task. -/
def bind (s : Session) (g : Task) : ChannelBind := if g.isServer then s.serverBind else s.clientBind

/-- The channel that the receive function of a task reads. -/
def fn (s : Session) : Task → Chan
  | .server4 => s.serverBind.rx4
  | .server6 => s.serverBind.rx6
  | .client4 => s.clientBind.rx4
  | .client6 => s.clientBind.rx6

/-- The group of a task. -/
def group (s : Session) (g : Task) : TaskGroup :=
  if g.isServer then s.serverGroup else s.clientGroup

/-- The loop of a task moves on. -/
def setLoop (s : Session) (g : Task) (l : Loop) : Session :=
  { s with loops := Function.update s.loops g l }

/-- A receive loop returns. -/
def exit (s : Session) (g : Task) (err : Option Error) : Session :=
  if g.isServer then { s.setLoop g .returned with serverGroup := s.serverGroup.finish err }
  else { s.setLoop g .returned with clientGroup := s.clientGroup.finish err }

/-- What `receiveLoop` returns after an error of its receive function. -/
def receiveErr (s : Session) (g : Task) (err : Error) : Option Error :=
  if err.isValue errClosed || err.isValue errCanceled then none
  else if (s.group g).ctx ≠ none then none
  else some err

/-- What `receiveLoop` returns after an error of `handle`. -/
def handleErr (err : Error) : Option Error :=
  if err.isValue errClosed || err.isValue errCanceled then none else some err

/-- `handle` of the client: it passes on the packet, or gives up if the context is done. If it can
do both, the run chooses. -/
def handleClient (s : Session) (g : Task) (pick : Bool) (buf : Slice UInt8) (packet : List UInt8) :
    Option Session :=
  match (s.group g).ctx with
  | none =>
    if s.clientRecv.length < 1 then
      some { s.setLoop g (.receiving buf) with clientRecv := s.clientRecv ++ [packet] }
    else none
  | some d =>
    if s.clientRecv.length < 1 ∧ pick = false then
      some { s.setLoop g (.receiving buf) with clientRecv := s.clientRecv ++ [packet] }
    else some (s.exit g (handleErr d.err))

/-- The next step of a receive loop. -/
def stepLoop (s : Session) (g : Task) (pick : Bool) : Option Session :=
  match s.loops g with
  | .receiving buf =>
    match (s.bind g).receive (s.fn g) pick buf s.chans with
    | none => none
    | some (.error e, _) => some (s.exit g (s.receiveErr g e))
    | some (.ok (buf, n, ep), chans) =>
      some { s.setLoop g (if n = 0 then .receiving buf
        else .handling buf (buf.toList.take n) ep) with chans := chans }
  | .handling buf packet ep =>
    if g.isServer then some (s.setLoop g (.sending buf (.next [packet]) ep))
    else s.handleClient g pick buf packet
  | .sending buf (.done none) _ => some (s.setLoop g (.receiving buf))
  | .sending _ (.done (some e)) _ => some (s.exit g (handleErr e))
  | .sending buf st ep =>
    (st.step (s.bind g) ep s.chans).map fun r =>
      { s.setLoop g (.sending buf r.1 ep) with chans := r.2 }
  | .returned => none

/-! ## The client -/

/-- The loop over the round trips: the next one, or behind the loop. -/
def nextTrip (cfg : Config) (roundTrip : ℕ) : Main :=
  if roundTrip < cfg.roundTrips then .send roundTrip (.next [cfg.payload roundTrip])
  else .closeClient

/-- The tasks of a group have returned. -/
def groupReturned (s : Session) : Bool → Bool
  | true => (s.loops .server4).isReturned && (s.loops .server6).isReturned
  | false => (s.loops .client4).isReturned && (s.loops .client6).isReturned

/-- The comparison of a reply with the payload. -/
def compare (cfg : Config) (roundTrip : ℕ) (reply : List UInt8) : Main :=
  if reply = cfg.payload roundTrip then nextTrip cfg (roundTrip + 1)
  else .deferServer (some (errMismatch cfg roundTrip))

/-- The `select` of the client, which waits for a reply or for the context. If there are both, the
run chooses. -/
def awaitReply (cfg : Config) (s : Session) (roundTrip : ℕ) (pick : Bool) : Option Session :=
  match s.clientRecv, s.ctx with
  | [], none => none
  | [], some d => some { s with main := .deferServer (some d.cause) }
  | reply :: rest, none => some { s with clientRecv := rest, main := compare cfg roundTrip reply }
  | reply :: rest, some d =>
    if pick then some { s with main := .deferServer (some d.cause) }
    else some { s with clientRecv := rest, main := compare cfg roundTrip reply }

/-- The next step of `runSession`. -/
def stepMain (cfg : Config) (s : Session) (pick : Bool) : Option Session :=
  match s.main with
  | .send i (.done none) => some { s with main := .await i }
  | .send _ (.done (some e)) => some { s with main := .deferServer (some (.wrapped "send ping" e)) }
  | .send i st =>
    (st.step s.clientBind s.serverEndpoint s.chans).map fun r =>
      { s with main := .send i r.1, chans := r.2 }
  | .await i => awaitReply cfg s i pick
  | .closeClient => some { s with clientBind := s.clientBind.Close, main := .closeServer }
  | .closeServer => some { s with serverBind := s.serverBind.Close, main := .waitClient }
  | .waitClient =>
    if s.groupReturned false then
      match s.clientGroup.waitErr with
      | none => some { s with main := .waitServer }
      | some e => some { s with main := .deferServer (some e) }
    else none
  | .waitServer =>
    if s.groupReturned true then some { s with main := .deferServer s.serverGroup.waitErr }
    else none
  | .deferServer err => some { s with serverBind := s.serverBind.Close, main := .deferClient err }
  | .deferClient err => some { s with clientBind := s.clientBind.Close, main := .returned err }
  | .returned _ => none

/-! ## The machine -/

/-- What happens next: a step of `runSession` or of a receive loop, with the choice of a `select`;
or the context is done. -/
inductive Event where
  | main (pick : Bool)
  | loop (g : Task) (pick : Bool)
  | done (d : Done)
  deriving DecidableEq, Repr

/-- The event is a step of a goroutine. -/
def Event.isStep : Event → Bool
  | .done _ => false
  | _ => true

/-- The context is done, and with it those of the groups. A context that is done stays so. -/
def cancel (s : Session) (d : Done) : Session :=
  { s with
    ctx := s.ctx.or (some d)
    clientGroup := { s.clientGroup with ctx := s.clientGroup.ctx.or (some d) }
    serverGroup := { s.serverGroup with ctx := s.serverGroup.ctx.or (some d) } }

/-- The machine. -/
def step (cfg : Config) (s : Session) : Event → Option (Session × Unit)
  | .main pick => (stepMain cfg s pick).map fun s' => (s', ())
  | .loop g pick => (s.stepLoop g pick).map fun s' => (s', ())
  | .done d => some (s.cancel d, ())

/-- The session in front of its loop over the round trips: the binds are open, each with a port at
random, and the receive loops are running. -/
def start (cfg : Config) (rand rand' : Bool) : Session :=
  let (clientBind, serverBind) := NewChannelBinds
  let (serverBind, _, serverPort) := serverBind.Open rand
  let (clientBind, _, _) := clientBind.Open rand'
  { clientBind := clientBind
    serverBind := serverBind
    chans := fun _ => []
    ctx := none
    clientGroup := .new
    serverGroup := .new
    loops := fun _ => .receiving newPacket
    clientRecv := []
    serverEndpoint := ParseEndpoint serverPort
    main := nextTrip cfg 0 }

end Session

end Pingpong

end BatchUDP
