import BatchUDP.StdNet.Concurrent

/-!
# Concurrent sends, one at a time

A call of `Send` reads the bind once, in its snapshot. Afterwards it uses the socket, the address
and the messages that it took, so that calls of `Open` and `Close` and other calls of `Send` in
between do not change what it does: it ends as a call would that has the bind for itself from its
snapshot on, and whose writes have the same outcomes.

## Main definitions

* `StdNetBind.Sender.complete`: a call when it has returned, given the outcomes of its writes
* `StdNetBind.Senders.begun`, `StdNetBind.Senders.outcomes`: the snapshots of a history, and the
  outcomes of the writes of one call

## Main results

* `StdNetBind.Sender.complete_step`: a step of a call does not change how it ends
* `StdNetBind.Sender.exists_Send_of_complete`: a call that has the bind for itself from its snapshot
  on does what `Send` does
* `StdNetBind.Senders.returned_as_alone`: in every interleaving, a call that has returned did what
  `Send` does alone
-/

namespace BatchUDP

open Go Machine

namespace StdNetBind

namespace Sender

/-- The second attempt, to its end. -/
def again (p : Platform) (w : Sender) (os : List WriteOutcome) : Option Sender := do
  let msgs ← (coalescer p w.ua w.ep).plain w.bufs w.msgs
  let w := { w with retried := true }.setUp false msgs (msgs.take w.bufs.length)
  some (w.ended p false (send p w.pc os (msgs.take w.bufs.length)))

/-- What follows the writes of an attempt: the second attempt if it was rejected. -/
def settle (p : Platform) (offload : Bool) (written : Written) (w : Sender) : Option Sender :=
  let w := w.ended p offload written
  if w.point = .store then w.again p written.rest else some w

/-- The call when it has returned, if its writes have the given outcomes from here on. -/
def complete (p : Platform) (w : Sender) (os : List WriteOutcome) : Option Sender :=
  match w.point with
  | .write offload left => w.settle p offload (send p w.pc os left)
  | .store => w.again p os
  | .returned _ => some w

/-- The outcomes that a step uses up: a write has the one that it is given, and the store has
none. -/
def used (w : Sender) (o : WriteOutcome) : List WriteOutcome :=
  match w.point with
  | .write _ _ => [o]
  | _ => []

section Step

variable {p : Platform} {s s' : StdNetBind} {w w' : Sender}

theorem complete_of_write {offload : Bool} {left : List Message}
    (hw : w.point = .write offload left) (os : List WriteOutcome) :
    w.complete p os = w.settle p offload (send p w.pc os left) := by
  simp only [complete, hw]

theorem complete_ended (offload : Bool) (written : Written) :
    (w.ended p offload written).complete p written.rest = w.settle p offload written := by
  by_cases h : (offload && written.err.any (errShouldDisableUDPGSO p)) = true
  · simp [complete, settle, ended, finish, leads, h]
  · simp [complete, settle, ended, finish, leads, h]

theorem complete_finish (offload : Bool) (err : Option Error) (os : List WriteOutcome) :
    (w.finish p offload err).complete p os = w.settle p offload ⟨[], err, os⟩ := by
  rw [← complete_ended]
  simp [ended]

theorem settle_wrote {offload : Bool} {accepted left : List Message} {written : Written} :
    (w.wrote offload accepted left).settle p offload written =
      w.settle p offload { written with accepted := accepted ++ written.accepted } := by
  rw [settle, settle, ended_wrote]

/-- Without an error there is no second attempt, and no outcome is looked at. -/
theorem settle_of_err_eq_none (offload : Bool) {written : Written} (h : written.err = none) :
    w.settle p offload written = some (w.ended p offload written) := by
  simp [settle, ended, finish, leads, h]

/-- One round of the loop over `WriteBatch`. -/
theorem complete_offer (hpc : (w.pc && p.hasOffload) = true) {offload : Bool} {left : List Message}
    (hw : w.point = .write offload left) (o : WriteOutcome) (os : List WriteOutcome) :
    (w.offer p offload left o).complete p os = w.complete p (o :: os) := by
  have hsend (os : List WriteOutcome) (ms : List Message) : send p w.pc os ms = writeBatch os ms :=
    if_pos hpc
  rw [complete_of_write hw, hsend]
  cases o with
  | fail e => rw [offer, complete_finish, writeBatch]
  | accept more =>
    rw [offer, writeBatch]
    split_ifs with hle
    · exact @complete_ended p w offload ⟨left, none, os⟩
    · rw [complete_of_write rfl, show (w.wrote _ _ _).pc = w.pc from rfl, hsend, settle_wrote]

/-- One round of the loop over `WriteMsgUDPAddrPort`, or its end. -/
theorem complete_writeMsg (hpc : ¬ (w.pc && p.hasOffload) = true) {offload : Bool}
    {left : List Message} (hw : w.point = .write offload left) (o : WriteOutcome)
    (os : List WriteOutcome) :
    (w.writeMsg p offload o left).complete p os = w.complete p (o :: os) := by
  have hsend (os : List WriteOutcome) (ms : List Message) : send p w.pc os ms = writeEach os ms :=
    if_neg hpc
  rw [complete_of_write hw, hsend]
  cases left with
  | nil =>
    rw [writeMsg, complete_finish, writeEach, settle_of_err_eq_none offload rfl,
      settle_of_err_eq_none offload rfl]
    rfl
  | cons m left =>
    cases o with
    | fail e => rw [writeMsg, complete_finish, writeEach]
    | accept more =>
      rw [writeMsg, complete_of_write rfl, show (w.wrote _ _ _).pc = w.pc from rfl, hsend,
        settle_wrote]
      rfl

/-- The store leads to the second attempt. -/
theorem complete_attempt (hw : w.point = .store)
    (h : { w with retried := true }.attempt p false = some w') (os : List WriteOutcome) :
    w'.complete p os = w.complete p os := by
  simp only [attempt, Bool.false_eq_true, if_false, Option.bind_eq_bind,
    Option.bind_eq_some_iff] at h
  obtain ⟨msgs, hp, h⟩ := h
  obtain rfl := Option.some.inj h
  rw [complete_of_write rfl, complete, hw]
  simp [settle, again, hp, ended, finish, leads, setUp]

/-- **A step of a call does not change how it ends.** -/
theorem complete_step {o : WriteOutcome} (h : w.step p s o = some (s', w'))
    (os : List WriteOutcome) :
    w'.complete p os = w.complete p (w.used o ++ os) := by
  unfold step at h
  unfold used
  split at h
  case h_1 offload left hpoint =>
    obtain ⟨rfl, rfl⟩ := Prod.mk.inj (Option.some.inj h)
    rw [hpoint, write]
    split_ifs with hpc
    · exact complete_offer hpc hpoint o os
    · exact complete_writeMsg hpc hpoint o os
  case h_2 hpoint =>
    obtain ⟨w₁, hw, h⟩ := Option.bind_eq_some_iff.mp h
    obtain ⟨rfl, rfl⟩ := Prod.mk.inj (Option.some.inj h)
    rw [hpoint]
    exact complete_attempt hpoint hw os
  case h_3 => cases h

end Step

/-! ## A call behind its snapshot -/

section Snapshot

variable {p : Platform} {s s' : StdNetBind} {w w' : Sender}

/-- An attempt that is followed to the end of the call is a transmission. -/
theorem exists_transmit_of_complete {offload : Bool} (hret : w.retried = false)
    (hnil : w.handed = []) (hacc : w.accepted = []) {w₁ : Sender}
    (h : w.attempt p offload = some w₁) {os : List WriteOutcome} (hc : w₁.complete p os = some w') :
    ∃ t, (coalescer p w.ua w.ep).transmit p (send p w.pc) w.conn.laddr offload os w.bufs w.msgs =
        some t ∧
      w'.point = .returned t.result ∧ w'.handed = t.handed ∧ w'.accepted = t.accepted := by
  cases offload with
  | false =>
    simp only [attempt, Bool.false_eq_true, if_false, Option.bind_eq_bind,
      Option.bind_eq_some_iff] at h
    obtain ⟨msgs, hp, h⟩ := h
    obtain rfl := Option.some.inj h
    rw [complete_of_write rfl] at hc
    simp only [settle, ended, finish, leads, setUp, Bool.false_and, Bool.false_eq_true, if_false,
      hret, hnil, hacc, reduceCtorEq, Option.some.injEq] at hc
    obtain rfl := hc
    simp [Coalescer.transmit, hp]
  | true =>
    simp only [attempt, if_true, Option.bind_eq_bind, Option.bind_eq_some_iff] at h
    obtain ⟨⟨msgs, n⟩, hp, h⟩ := h
    obtain rfl := Option.some.inj h
    rw [complete_of_write rfl] at hc
    by_cases hrej : (send p w.pc os (msgs.take n)).err.any (errShouldDisableUDPGSO p) = true
    · simp only [settle, ended, finish, leads, setUp, again, hrej, Bool.and_self, if_true,
        Option.bind_eq_bind, Option.bind_eq_some_iff] at hc
      obtain ⟨again, ha, hc⟩ := hc
      obtain rfl := Option.some.inj hc
      simp [Coalescer.transmit, hp, hrej, ha, hnil, hacc]
    · simp only [settle, ended, finish, leads, setUp, hrej, Bool.and_false, Bool.false_eq_true,
        if_false, hret, hnil, hacc, reduceCtorEq, Option.some.injEq] at hc
      obtain rfl := hc
      simp [Coalescer.transmit, hp, hrej]

/-- **A call that has the bind for itself from its snapshot on does what `Send` does.** -/
theorem exists_Send_of_complete {msgsPick addrPick : ℕ} {bufs : List (Slice UInt8)}
    {ep : StdNetEndpoint} (h : snapshot p s msgsPick addrPick bufs ep = some (s', .ok w))
    {os : List WriteOutcome} (hc : w.complete p os = some w') :
    ∃ r, s.Send p ⟨msgsPick, addrPick, os⟩ bufs ep = some r ∧ w'.point = .returned r.result ∧
      w'.handed = r.handed ∧ w'.accepted = r.accepted := by
  unfold snapshot at h
  dsimp only at h
  split_ifs at h with hb
  · cases h
  rcases hconn : s.conn ep.addr.is6 with - | c <;> rw [hconn] at h
  · cases h
  · simp only [Option.bind_eq_bind, Option.bind_eq_some_iff] at h
    obtain ⟨ua, hfill, w₁, hw, h⟩ := h
    obtain ⟨rfl, hok⟩ := Prod.mk.inj (Option.some.inj h)
    obtain rfl := Except.ok.inj hok
    obtain ⟨t, ht, hpoint⟩ := exists_transmit_of_complete rfl rfl rfl hw hc
    refine ⟨s.sent ep.addr.is6 ua (Pool.get UDPAddr.new addrPick s.udpAddrPool).2
      (s.getMessages p msgsPick).2 t, ?_, hpoint⟩
    simp [Send, hb, hconn, hfill, ht]

end Snapshot

end Sender

namespace Senders

/-- A call of `Send` got through its snapshot. -/
def begins (v : Visit Senders Event Senders) : Bool :=
  decide (v.before.calls.length < v.output.calls.length)

/-- The snapshots of a history, in the order of the calls. -/
def begun (h : List (Visit Senders Event Senders)) : List (Visit Senders Event Senders) :=
  h.filter begins

/-- The outcome of a write of a call. -/
def outcome (call : ℕ) (v : Visit Senders Event Senders) : List WriteOutcome :=
  match v.input with
  | .advance i o => if i = call then (v.before.calls[i]?.elim [] fun w => w.used o) else []
  | _ => []

/-- The outcomes of the writes of a call, in their order. -/
def outcomes (call : ℕ) (h : List (Visit Senders Event Senders)) : List WriteOutcome :=
  h.flatMap (outcome call)

variable {p : Platform} {opts : StdNetBindOptions} {net : Option Network} {s s' : Senders}

/-- A call ends as one that has the bind for itself from the given snapshot on, and whose writes had
the given outcomes so far. -/
def Continues (p : Platform) (v : Visit Senders Event Senders) (os : List WriteOutcome)
    (w : Sender) : Prop :=
  ∃ msgsPick addrPick bufs ep bind w₀, v.input = .Send msgsPick addrPick bufs ep ∧
    Sender.snapshot p v.before.bind msgsPick addrPick bufs ep = some (bind, .ok w₀) ∧
    ∀ more, w.complete p more = w₀.complete p (os ++ more)

/-- Every call continues what began with its snapshot, and has not written before. -/
structure Serial (p : Platform) (h : List (Visit Senders Event Senders)) (s : Senders) : Prop where
  length : (begun h).length = s.calls.length
  continues : ∀ call w, s.calls[call]? = some w →
    ∃ v, (begun h)[call]? = some v ∧ Continues p v (outcomes call h) w
  fresh : ∀ call, s.calls.length ≤ call → outcomes call h = []

@[simp] theorem outcomes_concat (call : ℕ) (h : List (Visit Senders Event Senders))
    (v : Visit Senders Event Senders) :
    outcomes call (h ++ [v]) = outcomes call h ++ outcome call v := by
  simp [outcomes]

theorem begun_concat (h : List (Visit Senders Event Senders)) (v : Visit Senders Event Senders) :
    begun (h ++ [v]) = if begins v then begun h ++ [v] else begun h := by
  cases hv : begins v
  · simp [begun, hv]
  · simp [begun, hv]

section Step

variable {h : List (Visit Senders Event Senders)} {e : Event}

/-- Events that neither begin a call nor advance one. -/
theorem Serial.of_calls_eq (hs : Serial p h s) (hcalls : s'.calls = s.calls)
    (he : ∀ call, outcome call ⟨s, e, s'⟩ = []) : Serial p (h ++ [⟨s, e, s'⟩]) s' := by
  have hb : begun (h ++ [⟨s, e, s'⟩]) = begun h := by simp [begun_concat, begins, hcalls]
  have ho (call : ℕ) : outcomes call (h ++ [⟨s, e, s'⟩]) = outcomes call h := by simp [he call]
  refine ⟨?_, ?_, ?_⟩
  · rw [hb, hcalls]
    exact hs.length
  · intro call w hw
    rw [hb, ho]
    exact hs.continues call w (hcalls ▸ hw)
  · intro call hle
    rw [ho]
    exact hs.fresh call (hcalls ▸ hle)

/-- The snapshot of a new call. -/
theorem Serial.snapshot (hs : Serial p h s) {msgsPick addrPick : ℕ} {bufs : List (Slice UInt8)}
    {ep : StdNetEndpoint} {bind : StdNetBind} {w : Sender}
    (hw : Sender.snapshot p s.bind msgsPick addrPick bufs ep = some (bind, .ok w))
    (hcalls : s'.calls = s.calls ++ [w]) :
    Serial p (h ++ [⟨s, .Send msgsPick addrPick bufs ep, s'⟩]) s' := by
  have hb : begun (h ++ [⟨s, .Send msgsPick addrPick bufs ep, s'⟩]) =
      begun h ++ [⟨s, .Send msgsPick addrPick bufs ep, s'⟩] := by
    simp [begun_concat, begins, hcalls]
  have hlen : s'.calls.length = s.calls.length + 1 := by simp [hcalls]
  refine ⟨?_, ?_, ?_⟩
  · rw [hb, hlen, List.length_append, hs.length]
    rfl
  · intro call w' hw'
    rw [hb, outcomes_concat, show outcome call _ = [] from rfl, List.append_nil]
    rw [hcalls] at hw'
    rcases lt_trichotomy call s.calls.length with hlt | rfl | hgt
    · rw [List.getElem?_append_left hlt] at hw'
      rw [List.getElem?_append_left (hs.length ▸ hlt)]
      exact hs.continues call w' hw'
    · obtain rfl : w = w' := by simpa using hw'
      refine ⟨⟨s, _, s'⟩, ?_, msgsPick, addrPick, bufs, ep, bind, w, rfl, hw, ?_⟩
      · rw [← hs.length, List.getElem?_concat_length]
      · simp [hs.fresh s.calls.length le_rfl]
    · rw [List.getElem?_eq_none (by simp; omega)] at hw'
      cases hw'
  · intro call hle
    rw [outcomes_concat, show outcome call _ = [] from rfl, List.append_nil]
    exact hs.fresh call (by omega)

/-- The step of a call. -/
theorem Serial.advance (hs : Serial p h s) {call : ℕ} {o : WriteOutcome} {w w' : Sender}
    {bind : StdNetBind} (hw : s.calls[call]? = some w)
    (hstep : w.step p s.bind o = some (bind, w')) (hcalls : s'.calls = s.calls.set call w') :
    Serial p (h ++ [⟨s, .advance call o, s'⟩]) s' := by
  have hb : begun (h ++ [⟨s, .advance call o, s'⟩]) = begun h := by
    simp [begun_concat, begins, hcalls]
  have hlen : s'.calls.length = s.calls.length := by rw [hcalls, List.length_set]
  have hlt : call < s.calls.length := (List.getElem?_eq_some_iff.mp hw).1
  have ho (i : ℕ) : outcome i ⟨s, .advance call o, s'⟩ = if call = i then w.used o else [] := by
    simp [outcome, hw]
  refine ⟨?_, ?_, ?_⟩
  · rw [hb, hlen]
    exact hs.length
  · intro i x hx
    rw [hb, outcomes_concat, ho]
    rw [hcalls] at hx
    by_cases hi : call = i
    -- the step uses up outcomes, and does not change how the call ends
    · subst hi
      obtain rfl : w' = x := by simpa [List.getElem?_set_self hlt] using hx
      obtain ⟨v, hv, msgsPick, addrPick, bufs, ep, bind₀, w₀, hin, hsnap, hc⟩ :=
        hs.continues call w hw
      refine ⟨v, hv, msgsPick, addrPick, bufs, ep, bind₀, w₀, hin, hsnap, ?_⟩
      intro more
      rw [Sender.complete_step hstep, hc, if_pos rfl, List.append_assoc]
    · rw [List.getElem?_set_ne hi] at hx
      rw [if_neg hi, List.append_nil]
      exact hs.continues i x hx
  · intro i hle
    rw [hlen] at hle
    rw [outcomes_concat, ho, if_neg (by omega), List.append_nil]
    exact hs.fresh i hle

/-- **Every event keeps the calls on their way.** -/
theorem Serial.next (hs : Serial p h s) (he : s.next p opts net e = some s') :
    Serial p (h ++ [⟨s, e, s'⟩]) s' := by
  cases e with
  | Open uport =>
    obtain ⟨r, -, he⟩ := Option.bind_eq_some_iff.mp he
    obtain rfl := Option.some.inj he
    exact hs.of_calls_eq rfl fun _ => rfl
  | Close err4 err6 =>
    obtain rfl := Option.some.inj he
    exact hs.of_calls_eq rfl fun _ => rfl
  | Send msgsPick addrPick bufs ep =>
    obtain ⟨⟨bind, c⟩, hsnap, he⟩ := Option.bind_eq_some_iff.mp he
    cases c with
    | error r =>
      obtain rfl := Option.some.inj he
      exact hs.of_calls_eq rfl fun _ => rfl
    | ok w =>
      obtain rfl := Option.some.inj he
      exact hs.snapshot hsnap rfl
  | advance call o =>
    obtain ⟨w, hw, he⟩ := Option.bind_eq_some_iff.mp he
    obtain ⟨⟨bind, w'⟩, hstep, he⟩ := Option.bind_eq_some_iff.mp he
    obtain rfl := Option.some.inj he
    exact hs.advance hw hstep rfl

end Step

theorem step_serial (h : List (Visit Senders Event Senders)) (s : Senders) (e : Event)
    (s' o : Senders) (hs : Serial p h s) (he : step p opts net s e = some (s', o)) :
    Serial p (h ++ [⟨s, e, o⟩]) s' := by
  obtain ⟨s₁, hnext, he⟩ := Option.map_eq_some_iff.mp he
  obtain ⟨rfl, rfl⟩ := Prod.mk.inj he
  exact hs.next hnext

/-- **In every interleaving, a call that has returned did what `Send` does alone**: it took its
snapshot of the bind in one event, and `Send` with that bind to itself, whose writes have the
outcomes that those of the call had, has the same result and hands over the same messages, of which
the same are accepted. -/
theorem returned_as_alone {es : List Event} {t : List (Visit Senders Event Senders)}
    (ht : trace (Senders.step p opts net) (start p opts net) es = some t)
    {h : List (Visit Senders Event Senders)} {v : Visit Senders Event Senders}
    (hv : h ++ [v] <+: t) {call : ℕ} {w : Sender} (hw : v.output.calls[call]? = some w)
    {result : SendResult} (hr : w.point = .returned result) :
    ∃ v₀ msgsPick addrPick bufs ep r, (begun (h ++ [v]))[call]? = some v₀ ∧
      v₀.input = .Send msgsPick addrPick bufs ep ∧
      v₀.before.bind.Send p ⟨msgsPick, addrPick, outcomes call (h ++ [v])⟩ bufs ep = some r ∧
      r.result = result ∧ r.handed = w.handed ∧ r.accepted = w.accepted := by
  have hstart : Serial p [] (start p opts net) := ⟨rfl, by simp [start], fun _ _ => rfl⟩
  obtain ⟨s', hs', hserial⟩ := forall_trace_history (Serial p) step_serial hstart ht h v hv
  obtain ⟨s₁, -, hs'⟩ := Option.map_eq_some_iff.mp hs'
  obtain ⟨rfl, hout⟩ := Prod.mk.inj hs'
  rw [← hout] at hw
  obtain ⟨v₀, hv₀, msgsPick, addrPick, bufs, ep, bind, w₀, hin, hsnap, hc⟩ :=
    hserial.continues call w hw
  have hend : w.complete p [] = some w := by simp [Sender.complete, hr]
  rw [hc, List.append_nil] at hend
  obtain ⟨r, hsend, hres, hh, ha⟩ := Sender.exists_Send_of_complete hsnap hend
  refine ⟨v₀, msgsPick, addrPick, bufs, ep, r, hv₀, hin, hsend, ?_, hh.symm, ha.symm⟩
  rw [hr] at hres
  exact (Point.returned.inj hres).symm

/-- A call whose coalesced write is rejected, and which retries on its socket after the bind was
closed and opened again. -/
theorem returned_as_alone_reopened :
    ∃ t h v w, trace (step .linux ⟨.ipv4First, false, false, 1⟩ (some offloading))
        (start .linux ⟨.ipv4First, false, false, 1⟩ (some offloading))
        (rejectedSend [.Close none none, .Open 0] ++ [.advance 0 (.accept 0)]) = some t ∧
      h ++ [v] <+: t ∧ v.output.calls[0]? = some w ∧
      w.point = .returned (.gsoDisabled "localhost:51820" none) ∧
      ∃ v₀ msgsPick addrPick bufs ep r, (begun (h ++ [v]))[0]? = some v₀ ∧
        v₀.input = .Send msgsPick addrPick bufs ep ∧
        v₀.before.bind.Send .linux ⟨msgsPick, addrPick, outcomes 0 (h ++ [v])⟩ bufs ep = some r ∧
        r.result = .gsoDisabled "localhost:51820" none ∧ r.handed = w.handed ∧
        r.accepted = w.accepted := by
  have he : ((trace (step .linux ⟨.ipv4First, false, false, 1⟩ (some offloading))
      (start .linux ⟨.ipv4First, false, false, 1⟩ (some offloading))
      (rejectedSend [.Close none none, .Open 0] ++ [.advance 0 (.accept 0)])).bind fun t =>
        t.getLast?.bind fun v => v.output.calls[0]?.map Sender.point) =
      some (.returned (.gsoDisabled "localhost:51820" none)) := by
    decide +kernel
  obtain ⟨t, ht, he⟩ := Option.bind_eq_some_iff.mp he
  obtain ⟨v, hv, he⟩ := Option.bind_eq_some_iff.mp he
  obtain ⟨w, hw, hpoint⟩ := Option.map_eq_some_iff.mp he
  have hpre : t.dropLast ++ [v] <+: t := by
    rw [List.dropLast_append_getLast? v hv]
  exact ⟨t, t.dropLast, v, w, ht, hpre, hw, hpoint, returned_as_alone ht hpre hw hpoint⟩

end Senders

end StdNetBind

end BatchUDP
