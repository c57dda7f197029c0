import BatchUDP.Go.Runtime
import BatchUDP.Go.Slice

/-!
# The channel bind

`NewChannelBinds` makes two binds that are connected by four channels of the Go run time, two for
each direction. A bind sends by its endpoint on one of its two outgoing channels, and its receive
functions read one incoming channel each. `Close` closes a channel that nothing is ever sent on, so
that every `select` that waits on it wakes up.

A call of `Send` is a sequence of steps: between the test of the close signal and the write to the
channel, which may have to wait, other calls have their turn.

## Main definitions

* `ChannelBind`, `NewChannelBinds`: the binds
* `ChannelBind.Open`, `ChannelBind.Close`, `ChannelBind.receive`: the calls that take one step
* `ChannelBind.Sending`: how far a call of `Send` has come

## Main results

* `ChannelBind.cases_of_receive`, `ChannelBind.receive_eq_none`: what a receive call returns, and
  when it waits
* `ChannelBind.Sending.cases_of_step`, `ChannelBind.Sending.step_eq_none`: the same for `Send`
-/

namespace BatchUDP

open Go

/-- `os.ErrInvalid`. -/
def errInvalid : Error := .text "invalid argument"

/-- `ChannelEndpoint`. -/
structure ChannelEndpoint where
  port : UInt16
  deriving DecidableEq, Repr

namespace ChannelBind

/-- The channels of a pair of binds. -/
inductive Chan where
  | arx4
  | brx4
  | arx6
  | brx6
  deriving DecidableEq, Repr

/-- What is in the channels, the oldest first. -/
abbrev Chans := Chan → List (List UInt8)

/-- The capacity of each channel. -/
def chanSize : ℕ := 8192

end ChannelBind

open ChannelBind in
/-- `ChannelBind`. The channel `closeSignal` is nil before `Open`; otherwise it is known whether it
is closed. -/
structure ChannelBind where
  rx4 : Chan
  tx4 : Chan
  rx6 : Chan
  tx6 : Chan
  closeSignal : Option Bool
  source4 : ChannelEndpoint
  source6 : ChannelEndpoint
  target4 : ChannelEndpoint
  target6 : ChannelEndpoint
  deriving DecidableEq, Repr

/-- `NewChannelBinds`. -/
def NewChannelBinds : ChannelBind × ChannelBind :=
  ({ rx4 := .arx4, tx4 := .brx4, rx6 := .arx6, tx6 := .brx6, closeSignal := none
     source4 := ⟨2⟩, source6 := ⟨4⟩, target4 := ⟨1⟩, target6 := ⟨3⟩ },
   { rx4 := .brx4, tx4 := .arx4, rx6 := .brx6, tx6 := .arx6, closeSignal := none
     source4 := ⟨1⟩, source6 := ⟨3⟩, target4 := ⟨2⟩, target6 := ⟨4⟩ })

namespace ChannelBind

/-- `Open`: the channels that the receive functions read, and the port, which is that of either
family at random. -/
def Open (c : ChannelBind) (rand : Bool) : ChannelBind × List Chan × UInt16 :=
  ({ c with closeSignal := some false }, [c.rx4, c.rx6],
    if rand then c.source4.port else c.source6.port)

/-- `Close`. -/
def Close (c : ChannelBind) : ChannelBind :=
  match c.closeSignal with
  | none => c
  | some _ => { c with closeSignal := some true }

/-- `BatchSize`. -/
def BatchSize : ℕ := 1

/-- `ParseEndpoint`, for a text in which `netip.ParseAddrPort` finds the port. -/
def ParseEndpoint (port : UInt16) : ChannelEndpoint := ⟨port⟩

/-- Receiving from the close signal succeeds at once. -/
def Closed (c : ChannelBind) : Prop := c.closeSignal = some true

instance (c : ChannelBind) : Decidable c.Closed := inferInstanceAs (Decidable (_ = _))

/-! ## Receiving -/

/-- A receive function of `makeReceiveFunc`, called with one slot: the error, or the slot and what
is reported for it. It waits if there is neither a packet nor a close signal, and if there are both,
the run chooses. -/
def receive (c : ChannelBind) (ch : Chan) (pick : Bool) (buf : Slice UInt8) (chans : Chans) :
    Option (Except Error (Slice UInt8 × ℕ × ChannelEndpoint) × Chans) :=
  match chans ch with
  | [] => if c.Closed then some (.error errClosed, chans) else none
  | rx :: rest =>
    if c.Closed ∧ pick = true then some (.error errClosed, chans)
    else some (.ok (buf.copy rx, buf.copied rx, c.target6), Function.update chans ch rest)

/-- **A receive call returns** an error if the bind is closed, or the first packet of its channel.
-/
theorem cases_of_receive {c : ChannelBind} {ch : Chan} {pick : Bool} {buf : Slice UInt8}
    {chans chans' : Chans} {r : Except Error (Slice UInt8 × ℕ × ChannelEndpoint)}
    (h : c.receive ch pick buf chans = some (r, chans')) :
    c.Closed ∧ r = .error errClosed ∧ chans' = chans ∨
    ∃ rx rest, chans ch = rx :: rest ∧ r = .ok (buf.copy rx, buf.copied rx, c.target6) ∧
      chans' = Function.update chans ch rest := by
  unfold receive at h
  split at h
  · split_ifs at h with hc
    obtain ⟨rfl, rfl⟩ := Prod.mk.inj (Option.some.inj h)
    exact .inl ⟨hc, rfl, rfl⟩
  · next rx rest hrx =>
    split_ifs at h with hc
    · obtain ⟨rfl, rfl⟩ := Prod.mk.inj (Option.some.inj h)
      exact .inl ⟨hc.1, rfl, rfl⟩
    · obtain ⟨rfl, rfl⟩ := Prod.mk.inj (Option.some.inj h)
      exact .inr ⟨rx, rest, hrx, rfl, rfl⟩

/-- A receive call waits only if its bind is not closed and its channel is empty. -/
theorem receive_eq_none {c : ChannelBind} {ch : Chan} {pick : Bool} {buf : Slice UInt8}
    {chans : Chans} (h : c.receive ch pick buf chans = none) : ¬ c.Closed ∧ chans ch = [] := by
  unfold receive at h
  split at h
  · next hrx =>
    split_ifs at h with hc
    exact ⟨hc, hrx⟩
  · split_ifs at h

/-! ## Sending -/

/-- How far a call of `Send` has come: in front of an iteration of its loop; behind the test, with a
packet to be written to a channel; or returned. -/
inductive Sending where
  | next (bufs : List (List UInt8))
  | push (ch : Chan) (bc : List UInt8) (bufs : List (List UInt8))
  | done (err : Option Error)
  deriving DecidableEq, Repr

/-- The channel for an endpoint. -/
def tx (c : ChannelBind) (ep : ChannelEndpoint) : Option Chan :=
  if ep = c.target4 then some c.tx4
  else if ep = c.target6 then some c.tx6
  else none

/-- The next step of a call of `Send`, unless it has to wait for room in the channel. -/
def Sending.step (c : ChannelBind) (ep : ChannelEndpoint) (chans : Chans) :
    Sending → Option (Sending × Chans)
  | .next [] => some (.done none, chans)
  | .next (b :: bufs) =>
    if c.Closed then some (.done (some errClosed), chans)
    else
      match c.tx ep with
      | some ch => some (.push ch b bufs, chans)
      | none => some (.done (some errInvalid), chans)
  | .push ch bc bufs =>
    if (chans ch).length < chanSize then
      some (.next bufs, Function.update chans ch (chans ch ++ [bc]))
    else none
  | .done _ => none

/-- **A step of `Send`**: it returns, takes up the next packet, or writes the packet that it has. -/
theorem Sending.cases_of_step {c : ChannelBind} {ep : ChannelEndpoint} {chans chans' : Chans}
    {st st' : Sending} (h : st.step c ep chans = some (st', chans')) :
    (∃ bufs err, st = .next bufs ∧ st' = .done err ∧ chans' = chans ∧
      (bufs = [] ∧ err = none ∨ c.Closed ∧ err = some errClosed ∨
        c.tx ep = none ∧ err = some errInvalid)) ∨
    (∃ b bufs ch, st = .next (b :: bufs) ∧ c.tx ep = some ch ∧ st' = .push ch b bufs ∧
      chans' = chans) ∨
    ∃ ch bc bufs, st = .push ch bc bufs ∧ st' = .next bufs ∧
      chans' = Function.update chans ch (chans ch ++ [bc]) := by
  unfold Sending.step at h
  split at h
  · obtain ⟨rfl, rfl⟩ := Prod.mk.inj (Option.some.inj h)
    exact .inl ⟨[], none, rfl, rfl, rfl, .inl ⟨rfl, rfl⟩⟩
  · next b bufs =>
    split_ifs at h with hc
    · obtain ⟨rfl, rfl⟩ := Prod.mk.inj (Option.some.inj h)
      exact .inl ⟨b :: bufs, _, rfl, rfl, rfl, .inr (.inl ⟨hc, rfl⟩)⟩
    · split at h
      · next ch hch =>
        obtain ⟨rfl, rfl⟩ := Prod.mk.inj (Option.some.inj h)
        exact .inr (.inl ⟨b, bufs, ch, rfl, hch, rfl, rfl⟩)
      · next hch =>
        obtain ⟨rfl, rfl⟩ := Prod.mk.inj (Option.some.inj h)
        exact .inl ⟨b :: bufs, _, rfl, rfl, rfl, .inr (.inr ⟨hch, rfl⟩)⟩
  · next ch bc bufs =>
    split_ifs at h
    obtain ⟨rfl, rfl⟩ := Prod.mk.inj (Option.some.inj h)
    exact .inr (.inr ⟨ch, bc, bufs, rfl, rfl, rfl⟩)
  · cases h

/-- A call of `Send` waits only for room in a channel. -/
theorem Sending.step_eq_none {c : ChannelBind} {ep : ChannelEndpoint} {chans : Chans} {st : Sending}
    (h : st.step c ep chans = none) :
    (∃ err, st = .done err) ∨
      ∃ ch bc bufs, st = .push ch bc bufs ∧ chanSize ≤ (chans ch).length := by
  unfold Sending.step at h
  split at h
  · cases h
  · split_ifs at h
    split at h <;> cases h
  · next ch bc bufs =>
    split_ifs at h with hlt
    exact .inr ⟨ch, bc, bufs, rfl, Nat.not_lt.mp hlt⟩
  · next err => exact .inl ⟨err, rfl⟩

/-! ## What the channels hold -/

/-- The packets in the channels, each counted with the weight of its channel. -/
def load (w : Chan → ℕ) (chans : Chans) : ℕ :=
  w .arx4 * (chans .arx4).length + w .brx4 * (chans .brx4).length +
    w .arx6 * (chans .arx6).length + w .brx6 * (chans .brx6).length

theorem load_update (w : Chan → ℕ) (chans : Chans) (ch : Chan) (ps : List (List UInt8)) :
    load w (Function.update chans ch ps) + w ch * (chans ch).length =
      load w chans + w ch * ps.length := by
  cases ch <;> simp only [load, Function.update_self, ne_eq, reduceCtorEq, not_false_eq_true,
    Function.update_of_ne] <;> omega

theorem length_le_load (chans : Chans) (ch : Chan) :
    (chans ch).length ≤ load (fun _ => 1) chans := by
  cases ch <;> simp only [load] <;> omega

/-- What holds of the packets in the channels still does when one channel changes to such packets.
-/
theorem forall_mem_update {P : List UInt8 → Prop} {chans : Chans} (h : ∀ ch, ∀ p ∈ chans ch, P p)
    {ch : Chan} {ps : List (List UInt8)} (hps : ∀ p ∈ ps, P p) :
    ∀ ch', ∀ p ∈ Function.update chans ch ps ch', P p :=
  (Function.forall_update_iff chans (fun _ ps => ∀ p ∈ ps, P p)).mpr ⟨hps, fun ch _ => h ch⟩

end ChannelBind

end BatchUDP
