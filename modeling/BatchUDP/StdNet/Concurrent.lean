import BatchUDP.Machine.Interleave
import BatchUDP.StdNet.Open
import BatchUDP.StdNet.Send

/-!
# Concurrent sends on the standard bind

A call of `Send` takes the mutex to look up the socket of its family and what that supports, and
writes without it. If a coalesced write is rejected, the call takes the mutex again and clears the
flag of the family, whatever socket the family has by then. Calls of `Open` and `Close` and the
steps of other calls may come in between. Every part under the mutex and every write is one step;
what a call does between them touches only what it took from the pools.

## Main definitions

* `StdNetBind.Sender`, `StdNetBind.Point`: a call behind its snapshot, and where it is
* `StdNetBind.Sender.snapshot`, `StdNetBind.Sender.step`: the steps of a call
* `StdNetBind.Senders`: the bind, the calls, what the sockets of the bind support, and the sockets
  on which a coalesced send was rejected
* `StdNetBind.Senders.FlagsJustified`: offload is off only for sockets that do not support it or
  rejected it
* `StdNetBind.Senders.InTime`: no call clears the flag of another socket than its own

## Main results

* `StdNetBind.Sender.exists_reaches_Send`: a call alone does what `Send` does
* `StdNetBind.Senders.flagsJustified_iff_inTime`: in every run, offload is off only for sockets that
  do not support it or rejected it, iff no call clears the flag of another socket
-/

namespace BatchUDP

open Go Machine

namespace StdNetBind

/-- Where a call of `Send` is: in the loop over the writes of an attempt, with the messages not
written yet, in front of the store behind a rejected attempt, or back at its caller. -/
inductive Point where
  | write (offload : Bool) (left : List Message)
  | store
  | returned (result : SendResult)
  deriving DecidableEq, Repr

/-- A call of `Send` behind its snapshot: its arguments, the socket and whether that has batch I/O,
the address and the messages it took, whether it has retried, the messages it handed over at each
attempt, those the kernel accepted, and where it is. -/
structure Sender where
  bufs : List (Slice UInt8)
  ep : StdNetEndpoint
  conn : Conn
  pc : Bool
  ua : UDPAddr
  msgs : List Message
  retried : Bool
  handed : List (List Message)
  accepted : List Message
  point : Point
  deriving DecidableEq, Repr

/-- The bind while a call has an address and messages of the pools. -/
def taken (p : Platform) (s : StdNetBind) (msgsPick addrPick : ℕ) : StdNetBind :=
  { s with
    udpAddrPool := (Pool.get UDPAddr.new addrPick s.udpAddrPool).2
    msgsPool := (s.getMessages p msgsPick).2 }

theorem setTxOffload_eq_self {s : StdNetBind} {is6 on : Bool} (h : s.txOffload is6 = on) :
    s.setTxOffload is6 on = s := by
  subst h
  cases is6 <;> rfl

namespace Sender

/-- The address family of a call. -/
def is6 (w : Sender) : Bool := w.ep.addr.is6

/-- The messages of an attempt are set up, and some of them are to be written. -/
def setUp (offload : Bool) (msgs handed : List Message) (w : Sender) : Sender :=
  { w with msgs := msgs, handed := w.handed ++ [handed], point := .write offload handed }

/-- The label `retry`, up to the first write of the attempt. -/
def attempt (p : Platform) (offload : Bool) (w : Sender) : Option Sender :=
  if offload then do
    let (msgs, n) ← (coalescer p w.ua w.ep).coalesce w.bufs w.msgs
    some (w.setUp true msgs (msgs.take n))
  else do
    let msgs ← (coalescer p w.ua w.ep).plain w.bufs w.msgs
    some (w.setUp false msgs (msgs.take w.bufs.length))

/-- The first part under the mutex, and what follows up to the first write. A call that does not get
that far has returned. -/
def snapshot (p : Platform) (s : StdNetBind) (msgsPick addrPick : ℕ) (bufs : List (Slice UInt8))
    (ep : StdNetEndpoint) : Option (StdNetBind × Except SendResult Sender) :=
  let is6 := ep.addr.is6
  if s.blackhole is6 then some (s, .error (.done none))
  else
    match s.conn is6 with
    | none => some (s, .error (.done (some (.errno .eafnosupport))))
    | some conn => do
      let msgs := (s.getMessages p msgsPick).1
      let ua ← (Pool.get UDPAddr.new addrPick s.udpAddrPool).1.fill ep.addr ep.port
      let w ← attempt p (s.txOffload is6)
        ⟨bufs, ep, conn, s.pc is6, ua, msgs, false, [], [], .store⟩
      some (s.taken p msgsPick addrPick, .ok w)

/-- Where an attempt leads: a rejected one to the store, any other back to the caller. -/
def leads (p : Platform) (offload retried : Bool) (laddr : String) (err : Option Error) : Point :=
  if offload && err.any (errShouldDisableUDPGSO p) then .store
  else .returned (if retried then .gsoDisabled laddr err else .done err)

/-- The end of an attempt. -/
def finish (p : Platform) (offload : Bool) (err : Option Error) (w : Sender) : Sender :=
  { w with point := leads p offload w.retried w.conn.laddr err }

/-- A write was accepted, and others are left. -/
def wrote (offload : Bool) (accepted left : List Message) (w : Sender) : Sender :=
  { w with accepted := w.accepted ++ accepted, point := .write offload left }

/-- A `WriteBatch` of the messages that are left. -/
def offer (p : Platform) (offload : Bool) (left : List Message) (w : Sender) :
    WriteOutcome → Sender
  | .accept more =>
    if left.length ≤ more + 1 then
      { w with accepted := w.accepted ++ left }.finish p offload none
    else w.wrote offload (left.take (more + 1)) (left.drop (more + 1))
  | .fail e => w.finish p offload (some e)

/-- A `WriteMsgUDPAddrPort` of the first message that is left, or the end of the loop. -/
def writeMsg (p : Platform) (offload : Bool) (w : Sender) (o : WriteOutcome) :
    List Message → Sender
  | [] => w.finish p offload none
  | m :: left =>
    match o with
    | .accept _ => w.wrote offload [{ m with buffers := m.buffers.take 1 }] left
    | .fail e => w.finish p offload (some e)

/-- One write of an attempt: a batch where batch I/O is available, and otherwise one message. -/
def write (p : Platform) (offload : Bool) (left : List Message) (o : WriteOutcome) (w : Sender) :
    Sender :=
  if w.pc && p.hasOffload then w.offer p offload left o else w.writeMsg p offload o left

/-- A call that returns puts its address and its messages back. -/
def putBack (w : Sender) (s : StdNetBind) : StdNetBind :=
  match w.point with
  | .returned _ =>
    { s with
      udpAddrPool := w.ua :: s.udpAddrPool
      msgsPool := putMessages w.msgs :: s.msgsPool }
  | _ => s

/-- The next step of a call. A write has the given outcome. -/
def step (p : Platform) (s : StdNetBind) (w : Sender) (o : WriteOutcome) :
    Option (StdNetBind × Sender) :=
  match w.point with
  | .write offload left =>
    let w := w.write p offload left o
    some (w.putBack s, w)
  | .store => do
    -- the flag is that of the family, and the socket may be another one by now
    let w' ← { w with retried := true }.attempt p false
    some (s.setTxOffload w.is6 false, w')
  | .returned _ => none

section Cases

variable {p : Platform} {s s' : StdNetBind} {w w' : Sender}

theorem attempt_cases {offload : Bool} (h : w.attempt p offload = some w') :
    w'.conn = w.conn ∧ w'.point ≠ .store := by
  unfold attempt at h
  split_ifs at h
  · obtain ⟨r, -, h⟩ := Option.bind_eq_some_iff.mp h
    obtain rfl := Option.some.inj h
    exact ⟨rfl, by simp [setUp]⟩
  · obtain ⟨msgs, -, h⟩ := Option.bind_eq_some_iff.mp h
    obtain rfl := Option.some.inj h
    exact ⟨rfl, by simp [setUp]⟩

/-- The snapshot of a call takes something from the pools, and leaves the rest as it is. -/
theorem snapshot_cases {msgsPick addrPick : ℕ} {bufs : List (Slice UInt8)} {ep : StdNetEndpoint}
    {call : Except SendResult Sender}
    (h : snapshot p s msgsPick addrPick bufs ep = some (s', call)) :
    (∃ addrs pool, s' = { s with udpAddrPool := addrs, msgsPool := pool }) ∧
      ∀ w, call = .ok w → w.point ≠ .store := by
  unfold snapshot at h
  dsimp only at h
  split_ifs at h
  · obtain ⟨rfl, rfl⟩ := Prod.mk.inj (Option.some.inj h)
    exact ⟨⟨_, _, rfl⟩, by simp⟩
  rcases hc : s.conn ep.addr.is6 with - | c <;> rw [hc] at h
  · obtain ⟨rfl, rfl⟩ := Prod.mk.inj (Option.some.inj h)
    exact ⟨⟨_, _, rfl⟩, by simp⟩
  · simp only [Option.bind_eq_bind, Option.bind_eq_some_iff] at h
    obtain ⟨ua, -, w, hw, h⟩ := h
    obtain ⟨rfl, rfl⟩ := Prod.mk.inj (Option.some.inj h)
    refine ⟨⟨_, _, rfl⟩, ?_⟩
    rintro w' ⟨⟩
    exact (attempt_cases hw).2

theorem conn_write (offload : Bool) (left : List Message) (o : WriteOutcome) :
    (w.write p offload left o).conn = w.conn := by
  unfold write
  split_ifs
  · rcases o with more | e
    · unfold offer
      dsimp only
      split_ifs
      · rfl
      · rfl
    · rfl
  · rcases left with - | ⟨m, left⟩
    · rfl
    · rcases o with more | e
      · rfl
      · rfl

/-- **What a step of a call can do**: a write leaves the flags alone, and the store clears that of
the family. -/
theorem step_cases {o : WriteOutcome} (h : w.step p s o = some (s', w')) :
    w'.conn = w.conn ∧
      (w.point ≠ .store ∧ (∃ addrs pool, s' = { s with udpAddrPool := addrs, msgsPool := pool }) ∨
        w.point = .store ∧ s' = s.setTxOffload w.is6 false ∧ w'.point ≠ .store) := by
  unfold step at h
  split at h
  case h_1 offload left hpoint =>
    obtain ⟨rfl, rfl⟩ := Prod.mk.inj (Option.some.inj h)
    refine ⟨conn_write offload left o, .inl ⟨by simp [hpoint], ?_⟩⟩
    unfold putBack
    split
    · exact ⟨_, _, rfl⟩
    · exact ⟨_, _, rfl⟩
  case h_2 hpoint =>
    obtain ⟨w₁, hw, h⟩ := Option.bind_eq_some_iff.mp h
    obtain ⟨rfl, rfl⟩ := Prod.mk.inj (Option.some.inj h)
    exact ⟨(attempt_cases hw).1, .inr ⟨hpoint, rfl, (attempt_cases hw).2⟩⟩
  case h_3 => cases h

end Cases

/-! ## A call alone -/

section Alone

variable {p : Platform} {s : StdNetBind} {w : Sender}

/-- The end of an attempt, with the messages that it got accepted. -/
def ended (p : Platform) (offload : Bool) (written : Written) (w : Sender) : Sender :=
  { w with accepted := w.accepted ++ written.accepted }.finish p offload written.err

theorem ended_wrote {offload : Bool} {accepted left : List Message} {written : Written} :
    (w.wrote offload accepted left).ended p offload written =
      w.ended p offload { written with accepted := accepted ++ written.accepted } := by
  simp only [ended, wrote, finish, List.append_assoc]

/-- The last write of an attempt. -/
theorem reaches_of_write {offload : Bool} {left : List Message} (hw : w.point = .write offload left)
    (o : WriteOutcome) {w' : Sender} (h : w.write p offload left o = w') :
    Reaches (alone (step p)) (s, w) (w'.putBack s, w') := by
  refine .alone o _ ?_ .refl
  simp [step, hw, h]

/-- A write in the middle of an attempt. -/
theorem reaches_of_wrote {offload : Bool} {left accepted left' : List Message}
    (hw : w.point = .write offload left) (o : WriteOutcome)
    (h : w.write p offload left o = w.wrote offload accepted left') :
    Reaches (alone (step p)) (s, w) (s, w.wrote offload accepted left') :=
  reaches_of_write hw o h

theorem reaches_writeBatch (hpc : (w.pc && p.hasOffload) = true) {offload : Bool}
    {left : List Message} (hw : w.point = .write offload left) (os : List WriteOutcome) :
    Reaches (alone (step p)) (s, w) ((w.ended p offload (writeBatch os left)).putBack s,
      w.ended p offload (writeBatch os left)) := by
  induction os generalizing w left with
  | nil =>
    refine reaches_of_write hw (.accept left.length) ?_
    simp [write, offer, hpc, ended, writeBatch]
  | cons o os ih =>
    cases o with
    | fail e =>
      refine reaches_of_write hw (.fail e) ?_
      simp [write, offer, hpc, ended, writeBatch]
    | accept more =>
      by_cases hle : left.length ≤ more + 1
      · refine reaches_of_write hw (.accept more) ?_
        simp [write, offer, hpc, ended, writeBatch, hle]
      · have hgo := @ih (w.wrote offload (left.take (more + 1)) (left.drop (more + 1))) hpc _ rfl
        rw [ended_wrote] at hgo
        simp only [writeBatch, if_neg hle]
        refine (reaches_of_wrote hw (.accept more) ?_).trans hgo
        simp [write, offer, hpc, hle]

theorem reaches_writeEach (hpc : ¬ (w.pc && p.hasOffload) = true) {offload : Bool}
    {left : List Message} (hw : w.point = .write offload left) (os : List WriteOutcome) :
    Reaches (alone (step p)) (s, w) ((w.ended p offload (writeEach os left)).putBack s,
      w.ended p offload (writeEach os left)) := by
  induction left generalizing w os with
  | nil =>
    refine reaches_of_write hw (.accept 0) ?_
    simp [write, writeMsg, hpc, ended, writeEach]
  | cons m left ih =>
    have hgo (os : List WriteOutcome) :=
      @ih (w.wrote offload [{ m with buffers := m.buffers.take 1 }] left) hpc rfl os
    have hone : Reaches (alone (step p)) (s, w)
        (s, w.wrote offload [{ m with buffers := m.buffers.take 1 }] left) :=
      reaches_of_wrote hw (.accept 0) (by simp [write, writeMsg, hpc])
    simp only [ended_wrote] at hgo
    rcases os with - | ⟨more | e, os⟩
    · simpa [writeEach] using hone.trans (hgo [])
    · simpa [writeEach] using hone.trans (hgo os)
    · refine reaches_of_write hw (.fail e) ?_
      simp [write, writeMsg, hpc, ended, writeEach]

/-- The steps of an attempt are the loops of `send`. -/
theorem reaches_send {offload : Bool} {left : List Message} (hw : w.point = .write offload left)
    (os : List WriteOutcome) :
    Reaches (alone (step p)) (s, w) ((w.ended p offload (send p w.pc os left)).putBack s,
      w.ended p offload (send p w.pc os left)) := by
  unfold send
  split_ifs with hpc
  · exact reaches_writeBatch hpc hw os
  · exact reaches_writeEach hpc hw os

/-- The attempt without offload, which is the last one. -/
theorem exists_reaches_plain (os : List WriteOutcome) {msgs : List Message}
    (hp : (coalescer p w.ua w.ep).plain w.bufs w.msgs = some msgs) (s : StdNetBind) :
    ∃ w₁ w₂, w.attempt p false = some w₁ ∧ Reaches (alone (step p)) (s, w₁) (w₂.putBack s, w₂) ∧
      w₂.point = .returned (if w.retried then
        .gsoDisabled w.conn.laddr (send p w.pc os (msgs.take w.bufs.length)).err
        else .done (send p w.pc os (msgs.take w.bufs.length)).err) ∧
      w₂.handed = w.handed ++ [msgs.take w.bufs.length] ∧
      w₂.accepted = w.accepted ++ (send p w.pc os (msgs.take w.bufs.length)).accepted ∧
      w₂.msgs = msgs ∧ w₂.ua = w.ua := by
  refine ⟨w.setUp false msgs (msgs.take w.bufs.length), _, ?_, reaches_send rfl os, ?_, rfl, rfl,
    rfl, rfl⟩
  · simp only [attempt, Bool.false_eq_true, if_false, hp, Option.bind_eq_bind, Option.bind_some]
  · rfl

/-- A call that was rejected clears the flag, and sets up its messages again. -/
theorem reaches_store {w₁ : Sender} (hw : w.point = .store)
    (he : { w with retried := true }.attempt p false = some w₁) :
    Reaches (alone (step p)) (s, w) (s.setTxOffload w.is6 false, w₁) := by
  rw [hw] at he
  refine .alone (.accept 0) _ ?_ .refl
  simp only [step, hw, he, Option.bind_eq_bind, Option.bind_some]

theorem putBack_of_store (hw : w.point = .store) : w.putBack s = s := by
  simp only [putBack, hw]

/-- **A call alone does what `transmit` does.** -/
theorem exists_reaches_transmit (hret : w.retried = false) (hnil : w.handed = [])
    (hacc : w.accepted = []) {os : List WriteOutcome} {t : Transmitted}
    (ht : (coalescer p w.ua w.ep).transmit p (send p w.pc) w.conn.laddr (s.txOffload w.is6) os
      w.bufs w.msgs = some t) :
    ∃ w₁ w₂, w.attempt p (s.txOffload w.is6) = some w₁ ∧
      Reaches (alone (step p)) (s, w₁)
        (w₂.putBack (if t.offload then s else s.setTxOffload w.is6 false), w₂) ∧
      w₂.point = .returned t.result ∧ w₂.handed = t.handed ∧ w₂.accepted = t.accepted ∧
      w₂.msgs = t.msgs ∧ w₂.ua = w.ua := by
  cases hoff : s.txOffload w.is6 with
  | false =>
    simp only [hoff, Coalescer.transmit, Bool.false_eq_true, if_false, Option.bind_eq_bind,
      Option.bind_eq_some_iff] at ht
    obtain ⟨msgs, hp, ht⟩ := ht
    obtain rfl := Option.some.inj ht
    obtain ⟨w₁, w₂, he, hreach, hpoint, hhanded, hacc', hmsgs, hua⟩ := exists_reaches_plain os hp s
    refine ⟨w₁, w₂, he, ?_, ?_, ?_, ?_, hmsgs, hua⟩
    · rw [setTxOffload_eq_self hoff]
      exact hreach
    · rw [hpoint, hret]
      rfl
    · rw [hhanded, hnil]
      rfl
    · rw [hacc', hacc]
      rfl
  | true =>
    simp only [hoff, Coalescer.transmit, if_true, Option.bind_eq_bind,
      Option.bind_eq_some_iff] at ht
    obtain ⟨⟨msgs, n⟩, hc, ht⟩ := ht
    have hw₁ : w.attempt p true = some (w.setUp true msgs (msgs.take n)) := by
      simp only [attempt, if_true, hc, Option.bind_eq_bind, Option.bind_some]
    have hfirst := @reaches_send p s (w.setUp true msgs (msgs.take n)) true _ rfl os
    by_cases hrej : (send p w.pc os (msgs.take n)).err.any (errShouldDisableUDPGSO p) = true
    · rw [if_pos hrej, Option.bind_eq_some_iff] at ht
      obtain ⟨again, hp, ht⟩ := ht
      obtain rfl := Option.some.inj ht
      have hpoint : ((w.setUp true msgs (msgs.take n)).ended p true
          (send p w.pc os (msgs.take n))).point = .store := by
        simp [ended, finish, leads, setUp, hrej]
      obtain ⟨w₁, w₂, he, hreach, hpt, hh, ha, hm, hu⟩ := @exists_reaches_plain p
        { (w.setUp true msgs (msgs.take n)).ended p true (send p w.pc os (msgs.take n)) with
          retried := true }
        (send p w.pc os (msgs.take n)).rest again hp (s.setTxOffload w.is6 false)
      have hstore := (putBack_of_store hpoint ▸ hfirst).trans (reaches_store hpoint he)
      refine ⟨_, w₂, hw₁, hstore.trans hreach, hpt, ?_, ?_, hm, hu⟩
      · rw [hh]
        simp [ended, finish, setUp, hnil]
      · rw [ha]
        simp [ended, finish, setUp, hacc]
    · rw [if_neg hrej] at ht
      obtain rfl := Option.some.inj ht
      refine ⟨_, _, hw₁, hfirst, ?_, ?_, ?_, rfl, rfl⟩
      · simp [ended, finish, leads, setUp, hrej, hret]
      · simp [ended, finish, setUp, hnil]
      · simp [ended, finish, setUp, hacc]

/-- What a call that returns behind a transmission leaves of the bind. -/
theorem putBack_eq_sent {t : Transmitted} {result : SendResult} {addrs : List UDPAddr}
    {pool : List (List Message)} (is6 : Bool) (hpoint : w.point = .returned result)
    (hmsgs : w.msgs = t.msgs) :
    w.putBack (if t.offload then { s with udpAddrPool := addrs, msgsPool := pool }
      else setTxOffload { s with udpAddrPool := addrs, msgsPool := pool } is6 false) =
      (s.sent is6 w.ua addrs pool t).bind := by
  simp only [putBack, hpoint, hmsgs, sent]
  cases t.offload
  · cases is6 <;> rfl
  · rfl

/-- **A call alone does what `Send` does**: its steps lead to the same result and the same bind,
with the same messages handed over and accepted. -/
theorem exists_reaches_Send {run : SendRun} {bufs : List (Slice UInt8)} {ep : StdNetEndpoint}
    {c : Conn} (hc : s.conn ep.addr.is6 = some c) (hb : s.blackhole ep.addr.is6 = false) {r : Sent}
    (h : s.Send p run bufs ep = some r) :
    ∃ s₁ w₁ w₂, snapshot p s run.msgsPick run.addrPick bufs ep = some (s₁, .ok w₁) ∧
      Reaches (alone (step p)) (s₁, w₁) (r.bind, w₂) ∧ w₂.point = .returned r.result ∧
      w₂.handed = r.handed ∧ w₂.accepted = r.accepted := by
  simp only [Send, hb, hc, Bool.false_eq_true, if_false, Option.bind_eq_bind,
    Option.bind_eq_some_iff] at h
  obtain ⟨ua, hfill, t, ht, h⟩ := h
  obtain rfl := Option.some.inj h
  obtain ⟨w₁, w₂, he, hreach, hpoint, hhanded, hacc, hmsgs, hua⟩ := @exists_reaches_transmit p
    (s.taken p run.msgsPick run.addrPick)
    ⟨bufs, ep, c, s.pc ep.addr.is6, ua, (s.getMessages p run.msgsPick).1, false, [], [], .store⟩
    rfl rfl rfl run.outcomes t ht
  refine ⟨s.taken p run.msgsPick run.addrPick, w₁, w₂, ?_, ?_, hpoint, hhanded, hacc⟩
  · simp only [snapshot, hb, hc, hfill, Bool.false_eq_true, if_false, Option.bind_eq_bind,
      Option.bind_some, Option.bind_eq_some_iff]
    exact ⟨w₁, he, rfl⟩
  · have hbind := @putBack_eq_sent s w₂ t _ (Pool.get UDPAddr.new run.addrPick s.udpAddrPool).2
      (s.getMessages p run.msgsPick).2 ep.addr.is6 hpoint hmsgs
    rw [hua] at hbind
    rw [← hbind]
    exact hreach

end Alone

end Sender

/-- The bind and its sockets, what `supportsUDPOffload` reported for the IPv4 and the IPv6 socket
installed last, the sockets on which a coalesced send was rejected, and the calls of `Send`. -/
structure Senders where
  bind : StdNetBind
  sockets : Sockets
  supports4 : Bool
  supports6 : Bool
  rejected : List Conn
  calls : List Sender
  deriving DecidableEq, Repr

/-- What `supportsUDPOffload` reports about sending for the socket of a family that `Open` opens. -/
def reports (p : Platform) (opts : StdNetBindOptions) (net : Option Network) (uport : UInt16)
    (o : Sockets) (is6 : Bool) : Option Bool :=
  match attempts opts net uport 101 0 o with
  | some (.opened first second _ _, _, _) =>
    let (v4conn, v6conn) := byFamily opts first second
    (if is6 then v6conn else v4conn).map fun c => (supportsUDPOffload p c).1
  | _ => none

namespace Senders

/-- What was reported for the socket of a family. -/
def supports (s : Senders) (is6 : Bool) : Bool := if is6 then s.supports6 else s.supports4

/-- What can happen next: a call of `Open` or of `Close`, the snapshot of a new call of `Send`, or
the next step of one. -/
inductive Event where
  | Open (uport : UInt16)
  | Close (err4 err6 : Option Error)
  | Send (msgsPick addrPick : ℕ) (bufs : List (Slice UInt8)) (ep : StdNetEndpoint)
  | advance (call : ℕ) (o : WriteOutcome)
  deriving DecidableEq, Repr

/-- The state after an event. -/
def next (p : Platform) (opts : StdNetBindOptions) (net : Option Network) (s : Senders) :
    Event → Option Senders
  | .Open uport => do
    let r ← s.bind.Open p opts net uport s.sockets
    let report (is6 : Bool) := if r.err = none then reports p opts net uport s.sockets is6 else none
    some { s with
      bind := r.bind
      sockets := r.sockets
      supports4 := (report false).getD s.supports4
      supports6 := (report true).getD s.supports6 }
  | .Close err4 err6 =>
    let r := s.bind.Close s.sockets err4 err6
    some { s with bind := r.bind, sockets := r.sockets }
  | .Send msgsPick addrPick bufs ep => do
    let (bind, call) ← Sender.snapshot p s.bind msgsPick addrPick bufs ep
    match call with
    | .error _ => some { s with bind := bind }
    | .ok w => some { s with bind := bind, calls := s.calls ++ [w] }
  | .advance call o => do
    let w ← s.calls[call]?
    let (bind, w') ← w.step p s.bind o
    some { s with
      bind := bind
      rejected := if w'.point = .store then w.conn :: s.rejected else s.rejected
      calls := s.calls.set call w' }

/-- The machine. Its output is the state after the event. -/
def step (p : Platform) (opts : StdNetBindOptions) (net : Option Network) (s : Senders)
    (e : Event) : Option (Senders × Senders) := (s.next p opts net e).map fun s' => (s', s')

/-- A new bind. -/
def start (p : Platform) (opts : StdNetBindOptions) (net : Option Network) : Senders :=
  ⟨NewStdNetBindWithOptions p net opts, .empty, false, false, [], []⟩

/-- Offload is off only for sockets that do not support it or rejected a coalesced send. -/
def FlagsJustified (s : Senders) : Prop :=
  ∀ is6 c, s.bind.conn is6 = some c → s.bind.txOffload is6 = false →
    s.supports is6 = false ∨ c ∈ s.rejected

/-- A call that is about to clear the flag of its family does so for the socket that it wrote to, or
for one that has no use for the flag: it is off already, or that socket rejected a coalesced send as
well. -/
def InTime (v : Visit Senders Event Senders) : Prop :=
  ∀ call o w c, v.input = .advance call o → v.before.calls[call]? = some w → w.point = .store →
    v.before.bind.conn w.is6 = some c →
    c = w.conn ∨ v.before.bind.txOffload w.is6 = false ∨ c ∈ v.before.rejected

/-! ## What a step does to the flags -/

/-- What an event does to an address family: nothing; its socket is gone, and the flag with it; a
socket was installed, with the flag that was reported for it; or a call cleared the flag. -/
inductive Effect (s : Senders) (e : Event) (s' : Senders) (is6 : Bool) : Prop
  | kept (conn : s'.bind.conn is6 = s.bind.conn is6)
      (flag : s'.bind.txOffload is6 = s.bind.txOffload is6)
      (supports : s'.supports is6 = s.supports is6)
  | closed (conn : s'.bind.conn is6 = none) (flag : s'.bind.txOffload is6 = false)
  | installed (flag : s'.supports is6 = s'.bind.txOffload is6)
  | cleared (call : ℕ) (o : WriteOutcome) (w : Sender) (event : e = .advance call o)
      (mem : s.calls[call]? = some w) (point : w.point = .store) (family : w.is6 = is6)
      (conn : s'.bind.conn is6 = s.bind.conn is6) (flag : s'.bind.txOffload is6 = false)
      (supports : s'.supports is6 = s.supports is6)

variable {p : Platform} {opts : StdNetBindOptions} {net : Option Network} {s s' : Senders}

theorem effect_Open {uport : UInt16} (h : s.next p opts net (.Open uport) = some s')
    (is6 : Bool) : Effect s (.Open uport) s' is6 := by
  simp only [next, Option.bind_eq_bind, Option.bind_eq_some_iff] at h
  obtain ⟨r, he, h⟩ := h
  obtain rfl := Option.some.inj h
  rcases Open_cases he with ⟨herr, hbind, -⟩ | ⟨first, second, port, report, o', n, ha, -, herr,
    hbind, -⟩
  · refine .kept (congrArg (conn · is6) hbind) (congrArg (txOffload · is6) hbind) ?_
    simp only [supports, if_neg herr, Option.getD_none]
  · have hrep : ∀ is6, (if r.err = none then reports p opts net uport s.sockets is6 else none) =
        (if is6 then (byFamily opts first second).2 else (byFamily opts first second).1).map
          fun c => (supportsUDPOffload p c).1 := by
      intro is6
      rw [if_pos herr, reports, ha]
    simp only [hrep, hbind]
    generalize byFamily opts first second = conns
    obtain ⟨v4conn, v6conn⟩ := conns
    cases is6
    · rcases v4conn with - | c4
      · rcases v6conn with - | c6 <;> exact .kept rfl rfl rfl
      · rcases v6conn with - | c6 <;> exact .installed rfl
    · rcases v6conn with - | c6
      · rcases v4conn with - | c4 <;> exact .kept rfl rfl rfl
      · exact .installed rfl

theorem effect_Close {err4 err6 : Option Error}
    (h : s.next p opts net (.Close err4 err6) = some s') (is6 : Bool) :
    Effect s (.Close err4 err6) s' is6 := by
  obtain rfl := Option.some.inj h
  refine .closed ?_ (by cases is6 <;> rfl)
  show (closeFamily true (closeFamily false s.bind s.sockets).1
    (closeFamily false s.bind s.sockets).2).1.conn is6 = none
  rw [conn_closeFamily, conn_closeFamily]
  cases is6 <;> rfl

theorem effect_Send {msgsPick addrPick : ℕ} {bufs : List (Slice UInt8)} {ep : StdNetEndpoint}
    (h : s.next p opts net (.Send msgsPick addrPick bufs ep) = some s') (is6 : Bool) :
    Effect s (.Send msgsPick addrPick bufs ep) s' is6 := by
  simp only [next, Option.bind_eq_bind, Option.bind_eq_some_iff] at h
  obtain ⟨⟨bind, call⟩, he, h⟩ := h
  obtain ⟨⟨addrs, pool, rfl⟩, -⟩ := Sender.snapshot_cases he
  rcases call with result | w
  · obtain rfl := Option.some.inj h
    exact .kept rfl rfl rfl
  · obtain rfl := Option.some.inj h
    exact .kept rfl rfl rfl

theorem effect_advance {call : ℕ} {o : WriteOutcome}
    (h : s.next p opts net (.advance call o) = some s') (is6 : Bool) :
    Effect s (.advance call o) s' is6 := by
  simp only [next, Option.bind_eq_bind, Option.bind_eq_some_iff] at h
  obtain ⟨w, hw, ⟨bind, w'⟩, he, h⟩ := h
  obtain rfl := Option.some.inj h
  obtain ⟨-, ⟨-, addrs, pool, rfl⟩ | ⟨hpoint, rfl, -⟩⟩ := Sender.step_cases he
  · exact .kept rfl rfl rfl
  by_cases hf : w.is6 = is6
  · refine .cleared call o w rfl hw hpoint hf conn_setTxOffload ?_ rfl
    subst hf
    exact txOffload_setTxOffload
  · refine .kept conn_setTxOffload ?_ rfl
    show (s.bind.setTxOffload w.is6 false).txOffload is6 = s.bind.txOffload is6
    cases hw6 : w.is6 <;> cases is6
    · exact absurd hw6 hf
    · rfl
    · rfl
    · exact absurd hw6 hf

/-- **What an event does to an address family.** -/
theorem effect_next {e : Event} (h : s.next p opts net e = some s') (is6 : Bool) :
    Effect s e s' is6 := by
  cases e with
  | Open uport => exact effect_Open h is6
  | Close err4 err6 => exact effect_Close h is6
  | Send msgsPick addrPick bufs ep => exact effect_Send h is6
  | advance call o => exact effect_advance h is6

/-- What holds along every run: a call in front of the store was rejected on its socket, and offload
is on only for sockets that support it. -/
structure Inv (s : Senders) : Prop where
  rejected : ∀ w ∈ s.calls, w.point = .store → w.conn ∈ s.rejected
  supports : ∀ is6, s.bind.txOffload is6 = true → s.supports is6 = true

/-- The calls and the rejections after an event. -/
theorem Inv.rejected_next (h : s.Inv) {e : Event} (he : s.next p opts net e = some s') :
    s.rejected ⊆ s'.rejected ∧ ∀ w ∈ s'.calls, w.point = .store → w.conn ∈ s'.rejected := by
  cases e with
  | Open uport =>
    obtain ⟨r, -, he⟩ := Option.bind_eq_some_iff.mp he
    obtain rfl := Option.some.inj he
    exact ⟨List.Subset.refl _, h.rejected⟩
  | Close err4 err6 =>
    obtain rfl := Option.some.inj he
    exact ⟨List.Subset.refl _, h.rejected⟩
  | Send msgsPick addrPick bufs ep =>
    obtain ⟨⟨bind, call⟩, hs, he⟩ := Option.bind_eq_some_iff.mp he
    rcases call with result | w
    · obtain rfl := Option.some.inj he
      exact ⟨List.Subset.refl _, h.rejected⟩
    · obtain rfl := Option.some.inj he
      refine ⟨List.Subset.refl _, fun w' hw' hpoint => ?_⟩
      rcases List.mem_append.mp hw' with hw' | hw'
      · exact h.rejected w' hw' hpoint
      · obtain rfl := List.mem_singleton.mp hw'
        exact absurd hpoint ((Sender.snapshot_cases hs).2 w' rfl)
  | advance call o =>
    simp only [next, Option.bind_eq_bind, Option.bind_eq_some_iff] at he
    obtain ⟨w, -, ⟨bind, w'⟩, hs, he⟩ := he
    obtain rfl := Option.some.inj he
    have hsub : s.rejected ⊆ if w'.point = .store then w.conn :: s.rejected else s.rejected := by
      split_ifs
      · exact List.subset_cons_self _ _
      · exact List.Subset.refl _
    refine ⟨hsub, fun w'' hw'' hpoint => ?_⟩
    rcases List.mem_or_eq_of_mem_set hw'' with hw'' | rfl
    · exact hsub (h.rejected w'' hw'' hpoint)
    · simp [hpoint, (Sender.step_cases hs).1]

theorem Inv.next (h : s.Inv) {e : Event} (he : s.next p opts net e = some s') : s'.Inv := by
  refine ⟨(h.rejected_next he).2, fun is6 hon => ?_⟩
  rcases effect_next he is6 with ⟨-, hflag, hsup⟩ | ⟨-, hflag⟩ | hflag |
    ⟨-, -, -, -, -, -, -, -, hflag, -⟩
  · exact hsup.trans (h.supports is6 (hflag.symm.trans hon))
  · exact absurd (hflag.symm.trans hon) (by decide)
  · exact hflag.trans hon
  · exact absurd (hflag.symm.trans hon) (by decide)

/-- An event in time keeps the flags justified. -/
theorem FlagsJustified.next (hj : s.FlagsJustified) (h : s.Inv) {e : Event}
    (he : s.next p opts net e = some s') (ht : InTime ⟨s, e, s'⟩) : s'.FlagsJustified := by
  intro is6 c hc hoff
  have hsub := (h.rejected_next he).1
  rcases effect_next he is6 with ⟨hconn, hflag, hsup⟩ | ⟨hconn, -⟩ | hflag |
    ⟨call, o, w, rfl, hw, hpoint, rfl, hconn, -, hsup⟩
  · rw [hsup]
    exact (hj is6 c (hconn.symm.trans hc) (hflag.symm.trans hoff)).imp_right fun hr => hsub hr
  · exact absurd (hconn.symm.trans hc) (by simp)
  · exact .inl (hflag.trans hoff)
  · rcases ht call o w c rfl hw hpoint (hconn.symm.trans hc) with rfl | hoff' | hr
    · exact .inr (hsub (h.rejected w (List.mem_of_getElem? hw) hpoint))
    · rw [hsup]
      exact (hj w.is6 c (hconn.symm.trans hc) hoff').imp_right fun hr => hsub hr
    · exact .inr (hsub hr)

/-- The store of a call. -/
theorem next_store {call : ℕ} {o : WriteOutcome} {w : Sender} (hw : s.calls[call]? = some w)
    (hpoint : w.point = .store) (he : s.next p opts net (.advance call o) = some s') :
    s'.bind = s.bind.setTxOffload w.is6 false ∧ s'.rejected = s.rejected ∧
      s'.supports w.is6 = s.supports w.is6 := by
  simp only [Senders.next, hw, Option.bind_eq_bind, Option.bind_some, Option.bind_eq_some_iff] at he
  obtain ⟨⟨bind, w'⟩, hs, he⟩ := he
  obtain rfl := Option.some.inj he
  rcases (Sender.step_cases hs).2 with ⟨hne, -⟩ | ⟨-, rfl, hne⟩
  · exact absurd hpoint hne
  · exact ⟨rfl, if_neg hne, rfl⟩

/-- If the flags are justified behind an event, it was in time. -/
theorem inTime_of_flagsJustified (h : s.Inv) {e : Event} (he : s.next p opts net e = some s')
    (hj : s'.FlagsJustified) : InTime ⟨s, e, s'⟩ := by
  rintro call o w c rfl hw hpoint hc
  obtain ⟨hbind, hrej, hsup⟩ := next_store hw hpoint he
  have hor := hj w.is6 c (by rw [hbind, conn_setTxOffload]; exact hc)
    (by rw [hbind, txOffload_setTxOffload])
  rcases hor with hor | hor
  · refine .inr (.inl (Bool.eq_false_iff.mpr fun hon => ?_))
    exact absurd ((hsup.trans (h.supports w.is6 hon)).symm.trans hor) (by decide)
  · exact .inr (.inr (hrej ▸ hor))

theorem inv_start (p : Platform) (opts : StdNetBindOptions) (net : Option Network) :
    (start p opts net).Inv :=
  ⟨by simp [start], fun is6 => by cases is6 <;> simp [start, NewStdNetBindWithOptions, txOffload]⟩

theorem flagsJustified_start (p : Platform) (opts : StdNetBindOptions) (net : Option Network) :
    (start p opts net).FlagsJustified := by
  intro is6 c hc
  cases is6 <;> simp [start, NewStdNetBindWithOptions, conn] at hc

theorem step_eq_some {e : Event} {o : Senders} (h : s.step p opts net e = some (s', o)) :
    s.next p opts net e = some o ∧ s' = o := by
  obtain ⟨s₁, he, h⟩ := Option.map_eq_some_iff.mp h
  obtain ⟨rfl, rfl⟩ := Prod.mk.inj h
  exact ⟨he, rfl⟩

/-- **In every run, offload is off only for sockets that do not support it or rejected it, iff no
call clears the flag of another socket than its own.** -/
theorem flagsJustified_iff_inTime {events : List Event}
    {t : List (Visit Senders Event Senders)}
    (ht : trace (step p opts net) (start p opts net) events = some t) :
    (∀ v ∈ t, v.output.FlagsJustified) ↔ ∀ v ∈ t, InTime v := by
  constructor
  · intro hj v hv
    obtain ⟨hinv, s', he⟩ := @forall_mem_trace _ _ _ _ Inv (fun _ => True)
      (fun s e s' o h _ he => by
        obtain ⟨hn, rfl⟩ := step_eq_some he
        exact h.next hn) _ (inv_start p opts net) _ _ ht (fun _ _ => trivial) v hv
    exact inTime_of_flagsJustified hinv (step_eq_some he).1 (hj v hv)
  · intro hin v hv
    obtain ⟨⟨hinv, hj⟩, s', he⟩ := forall_mem_trace (fun s => s.Inv ∧ s.FlagsJustified)
      (fun s e s' o h ht he => by
        obtain ⟨hn, rfl⟩ := step_eq_some he
        exact ⟨h.1.next hn, h.2.next h.1 hn ht⟩)
      ⟨inv_start p opts net, flagsJustified_start p opts net⟩ ht hin v hv
    exact hj.next hinv (step_eq_some he).1 (hin v hv)

/-- A network that opens every socket, with offload. -/
def offloading : Network where
  isNative := true
  listen _ _ _ := .ok ⟨"localhost:51820", none, .ok 51820, true, (true, true)⟩

/-- The events of a `Send` whose coalesced write fails with `EIO`, with what comes between that and
the store. -/
def rejectedSend (between : List Event) : List Event :=
  [.Open 0, .Send 0 0 [.ofList [1]] localhost,
    .advance 0 (.fail (.syscallError "sendmmsg" (.errno .eio)))] ++ between ++
    [.advance 0 (.accept 0)]

/-- What a run ends with: the IPv4 socket, its flag, what was reported for it, and the sockets on
which a coalesced send was rejected. -/
def ending (events : List Event) : Option (Option Conn × Bool × Bool × List Conn) := do
  let t ← trace (step .linux ⟨.ipv4First, false, false, 1⟩ (some offloading))
    (start .linux ⟨.ipv4First, false, false, 1⟩ (some offloading)) events
  let v ← t.getLast?
  some (v.output.bind.ipv4, v.output.bind.ipv4TxOffload, v.output.supports4, v.output.rejected)

theorem exists_of_ending {events : List Event} {c : Option Conn} {flag reported : Bool}
    {rejected : List Conn} (h : ending events = some (c, flag, reported, rejected)) :
    ∃ t, trace (step .linux ⟨.ipv4First, false, false, 1⟩ (some offloading))
        (start .linux ⟨.ipv4First, false, false, 1⟩ (some offloading)) events = some t ∧
      ∃ v ∈ t, v.output.bind.ipv4 = c ∧ v.output.bind.ipv4TxOffload = flag ∧
        v.output.supports4 = reported ∧ v.output.rejected = rejected := by
  obtain ⟨t, ht, h⟩ := Option.bind_eq_some_iff.mp h
  obtain ⟨v, hv, h⟩ := Option.bind_eq_some_iff.mp h
  obtain ⟨rfl, rfl, rfl, rfl⟩ := by simpa using h
  exact ⟨t, ht, v, List.mem_of_getLast? hv, rfl, rfl, rfl, rfl⟩

/-- A rejected send clears the flag of its socket. -/
theorem flagsJustified_iff_inTime_rejectedSend :
    ∃ t, trace (step .linux ⟨.ipv4First, false, false, 1⟩ (some offloading))
        (start .linux ⟨.ipv4First, false, false, 1⟩ (some offloading)) (rejectedSend []) = some t ∧
      (∃ v ∈ t, v.output.bind.ipv4TxOffload = false ∧ v.output.bind.ipv4.isSome) ∧
      ((∀ v ∈ t, v.output.FlagsJustified) ↔ ∀ v ∈ t, InTime v) := by
  have he : ending (rejectedSend []) =
      some (some ⟨0, "localhost:51820"⟩, false, true, [⟨0, "localhost:51820"⟩]) := by
    decide +kernel
  obtain ⟨t, ht, v, hv, hconn, hflag, -, -⟩ := exists_of_ending he
  exact ⟨t, ht, ⟨v, hv, hflag, by simp [hconn]⟩, flagsJustified_iff_inTime ht⟩

/-- A send that is rejected before the bind is closed and opened again clears the flag of the new
socket, which supports offload and never rejected anything. -/
theorem offload_off_after_reopen :
    ∃ t, trace (step .linux ⟨.ipv4First, false, false, 1⟩ (some offloading))
        (start .linux ⟨.ipv4First, false, false, 1⟩ (some offloading))
        (rejectedSend [.Close none none, .Open 0]) = some t ∧
      ∃ v ∈ t, v.output.bind.ipv4 = some ⟨2, "localhost:51820"⟩ ∧
        v.output.bind.ipv4TxOffload = false ∧ v.output.supports4 = true ∧
        v.output.rejected = [⟨0, "localhost:51820"⟩] ∧ ¬ v.output.FlagsJustified := by
  have he : ending (rejectedSend [.Close none none, .Open 0]) =
      some (some ⟨2, "localhost:51820"⟩, false, true, [⟨0, "localhost:51820"⟩]) := by
    decide +kernel
  obtain ⟨t, ht, v, hv, hconn, hflag, hsup, hrej⟩ := exists_of_ending he
  refine ⟨t, ht, v, hv, hconn, hflag, hsup, hrej, fun hj => ?_⟩
  rcases hj false _ hconn hflag with h | h
  · exact absurd (hsup.symm.trans h) (by decide)
  · rw [hrej] at h
    simp at h

end Senders

end StdNetBind

end BatchUDP
