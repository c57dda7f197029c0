import BatchUDP.Machine.Custody
import BatchUDP.Windows.Bind

/-!
# The handles of the Windows bind

A ring has memory for its packets, the registration of that memory, a completion port and a
completion queue, and an address family has a socket besides. `Open` acquires them one after the
other and stops at the first failure. `closeAndZero` releases what it finds in the fields, where
zero stands for none. The handle of a request queue goes with its socket.

A socket that could not be made leaves the invalid handle in its field. That is not zero, so that
the deferred `closeAndZero` releases it although it is not open.

## Main definitions

* `Handle`: a handle, with what it is for
* `RingBuffer.handles`, `AfWinRingBind.handles`, `WinRingBind.handles`: what the fields hold, in the
  order in which it is released
* `WinRingBind.acquires`: what a call of `Open` acquires
* `WinRingBind.invalid`: the invalid handle that a call of `Open` leaves in front of the deferred
  function, if it could not make a socket
* `WinRingBind.OpenRun.Fresh`: the system hands out handles that are not zero, each once
* `WinRingBind.openCustody`: the custody of the handles behind a call of `Open`

## Main results

* `WinRingBind.perm_handles_openBody`: what the body of `Open` acquires is in the fields of the
  bind, also when it fails, and besides that only the invalid handle is
* `WinRingBind.owns_Open`: after `Open` the bind owns what its fields hold, which is nothing if it
  failed, and the only fault is the release of the invalid handle
-/

namespace BatchUDP

open Go Machine

/-- What a handle is for. -/
inductive HandleKind where
  | memory
  | buffer
  | port
  | queue
  | socket
  deriving DecidableEq, Repr

/-- A handle. -/
structure Handle where
  kind : HandleKind
  value : ℕ
  deriving DecidableEq, Repr

/-- The handle of a socket that could not be made. -/
def Handle.invalid : Handle := ⟨.socket, invalidHandle⟩

/-- The handle in a field, of which zero stands for none. -/
def Handle.field (kind : HandleKind) (value : ℕ) : List Handle :=
  if value = 0 then [] else [⟨kind, value⟩]

/-- The handle that a system call returns, if it succeeds. -/
def Handle.acquired (kind : HandleKind) : Except Error ℕ → List Handle
  | .error _ => []
  | .ok value => [⟨kind, value⟩]

namespace RingBuffer

/-- The handles in the fields, in the order in which `CloseAndZero` releases them. -/
def handles (rb : RingBuffer) : List Handle :=
  Handle.field .queue rb.cq ++ (Handle.field .port rb.iocp ++ (Handle.field .buffer rb.id ++
    Handle.field .memory rb.packets))

/-- What `Open` acquires. -/
def OpenRun.acquires (run : OpenRun) : List Handle :=
  match run.alloc with
  | .error _ => []
  | .ok packets => ⟨.memory, packets⟩ ::
    match run.register with
    | .error _ => []
    | .ok id => ⟨.buffer, id⟩ ::
      match run.port with
      | .error _ => []
      | .ok iocp => ⟨.port, iocp⟩ :: Handle.acquired .queue run.queue

end RingBuffer

namespace AfWinRingBind

/-- The handles in the fields, in the order in which `CloseAndZero` releases them. -/
def handles (b : AfWinRingBind) : List Handle :=
  b.rx.handles ++ b.tx.handles ++ Handle.field .socket b.sock

/-- What `Open` acquires: it stops at the first failure. -/
def OpenRun.acquires (run : OpenRun) : List Handle :=
  match run.socket with
  | .error _ => []
  | .ok sock => ⟨.socket, sock⟩ :: (run.rx.acquires ++
    match (RingBuffer.zero.Open run.rx).1 with
    | some _ => []
    | none => run.tx.acquires)

/-- What `Open` leaves in the field of a socket that it could not make. -/
def OpenRun.invalid (run : OpenRun) : List Handle :=
  match run.socket with
  | .error _ => [.invalid]
  | .ok _ => []

end AfWinRingBind

namespace WinRingBind

/-- The handles in the fields, in the order in which `closeAndZero` releases them. -/
def handles (b : WinRingBind) : List Handle := b.v4.handles ++ b.v6.handles

/-- What `Open` of a closed bind acquires: the handles of the second family only if the first one
opens. Whether it does is up to the system calls. -/
def OpenRun.acquires (run : OpenRun) (port : UInt16) : List Handle :=
  (run.v4 port.toNat).acquires ++
    match (NewWinRingBind.v4.Open (run.v4 port.toNat)).1 with
    | .error _ => []
    | .ok port => (run.v6 port).acquires

/-- What `Open` of a closed bind leaves in the field of the socket that it could not make. -/
def OpenRun.invalid (run : OpenRun) (port : UInt16) : List Handle :=
  match (NewWinRingBind.v4.Open (run.v4 port.toNat)).1 with
  | .error _ => (run.v4 port.toNat).invalid
  | .ok port => (run.v6 port).invalid

/-- The system hands out handles that are not zero, and none twice. -/
def OpenRun.Fresh (run : OpenRun) : Prop :=
  ∀ port, (run.acquires port).Nodup ∧ ∀ h ∈ run.acquires port, h.value ≠ 0

/-- What a call of `Open` acquires: nothing if the bind is open. -/
def acquires (b : WinRingBind) (port : UInt16) (run : OpenRun) : List Handle :=
  if b.isOpen ≠ 0 then [] else run.acquires port

/-- What a call of `Open` leaves in the field of the socket that it could not make. -/
def invalid (b : WinRingBind) (port : UInt16) (run : OpenRun) : List Handle :=
  if b.isOpen ≠ 0 then [] else run.invalid port

end WinRingBind

/-! ## What `Open` leaves in the fields -/

theorem Handle.field_zero (kind : HandleKind) : Handle.field kind 0 = [] := rfl

theorem Handle.field_of_ne {kind : HandleKind} {value : ℕ} (h : value ≠ 0) :
    Handle.field kind value = [⟨kind, value⟩] := if_neg h

namespace RingBuffer

theorem handles_zero : zero.handles = [] := rfl

/-- All handles of a ring are there. -/
structure Live (rb : RingBuffer) : Prop where
  packets : rb.packets ≠ 0
  id : rb.id ≠ 0
  iocp : rb.iocp ≠ 0
  cq : rb.cq ≠ 0

/-- **A ring holds what its `Open` acquired**, however far it got. -/
theorem perm_handles_Open {run : OpenRun} (hf : ∀ h ∈ run.acquires, h.value ≠ 0) :
    run.acquires.Perm (zero.Open run).2.handles ∧
      ((zero.Open run).1 = none → (zero.Open run).2.Live) := by
  rcases run with ⟨e | packets, register, port, queue⟩
  · exact ⟨.nil, by simp [Open]⟩
  rcases register with e | id
  · simp only [OpenRun.acquires, List.forall_mem_cons] at hf
    refine ⟨?_, by simp [Open]⟩
    simp [OpenRun.acquires, Open, handles, zero, Handle.field_of_ne hf.1, Handle.field_zero]
  rcases port with e | iocp
  · simp only [OpenRun.acquires, List.forall_mem_cons] at hf
    refine ⟨?_, by simp [Open]⟩
    simp only [OpenRun.acquires, Open, handles, zero, Handle.field_of_ne hf.1,
      Handle.field_of_ne hf.2.1, Handle.field_zero]
    exact List.Perm.swap _ _ _
  rcases queue with e | cq
  · simp only [OpenRun.acquires, Handle.acquired, List.forall_mem_cons] at hf
    refine ⟨?_, by simp [Open]⟩
    simp only [OpenRun.acquires, Handle.acquired, Open, handles, zero, Handle.field_of_ne hf.1,
      Handle.field_of_ne hf.2.1, Handle.field_of_ne hf.2.2.1, Handle.field_zero]
    exact (List.reverse_perm _).symm
  · simp only [OpenRun.acquires, Handle.acquired, List.forall_mem_cons] at hf
    refine ⟨?_, fun _ => ⟨hf.1, hf.2.1, hf.2.2.1, hf.2.2.2.1⟩⟩
    simp only [OpenRun.acquires, Handle.acquired, Open, handles, zero, Handle.field_of_ne hf.1,
      Handle.field_of_ne hf.2.1, Handle.field_of_ne hf.2.2.1, Handle.field_of_ne hf.2.2.2.1]
    exact (List.reverse_perm _).symm

/-- Whether `Open` fails is up to the system calls. -/
theorem fst_Open (rb rb' : RingBuffer) (run : OpenRun) : (rb.Open run).1 = (rb'.Open run).1 := by
  rcases run with ⟨e | packets, register, port, queue⟩
  · rfl
  rcases register with e | id
  · rfl
  rcases port with e | iocp
  · rfl
  rcases queue with e | cq <;> rfl

/-- `Return` only counts. -/
theorem handles_Return (rb : RingBuffer) (count : UInt32) :
    (rb.Return count).handles = rb.handles ∧ (rb.Live → (rb.Return count).Live) := by
  unfold Return
  split_ifs
  · exact ⟨rfl, fun h => h⟩
  · exact ⟨rfl, fun h => ⟨h.packets, h.id, h.iocp, h.cq⟩⟩

/-- `Push` only counts. -/
theorem handles_Push {rb rb' : RingBuffer} {slot : ℕ} (h : rb.Push = some (slot, rb')) :
    rb'.handles = rb.handles ∧ (rb.Live → rb'.Live) := by
  unfold Push at h
  split_ifs at h
  obtain ⟨-, rfl⟩ := Prod.mk.inj (Option.some.inj h)
  exact ⟨rfl, fun hl => ⟨hl.packets, hl.id, hl.iocp, hl.cq⟩⟩

end RingBuffer

namespace AfWinRingBind

/-- Nothing is open. -/
structure Zeroed (b : AfWinRingBind) : Prop where
  sock : b.sock = 0
  rx : b.rx = .zero
  tx : b.tx = .zero

/-- Everything is open. -/
structure Live (b : AfWinRingBind) : Prop where
  sock : b.sock ≠ 0
  rx : b.rx.Live
  tx : b.tx.Live

theorem Zeroed.handles {b : AfWinRingBind} (h : b.Zeroed) : b.handles = [] := by
  rw [AfWinRingBind.handles, h.rx, h.tx, h.sock]
  rfl

/-- **An address family holds what its `Open` acquired**, however far it got, or the invalid handle
if it could not make the socket. -/
theorem perm_handles_Open {b : AfWinRingBind} (hb : b.Zeroed) {run : OpenRun}
    (hf : ∀ h ∈ run.acquires, h.value ≠ 0) :
    (∃ held, (b.Open run).2.handles = held ++ run.invalid ∧ run.acquires.Perm held) ∧
      ∀ port, (b.Open run).1 = .ok port → (b.Open run).2.Live ∧ run.invalid = [] := by
  rcases run with ⟨e | sock, rx, tx, queue, bindErr, name⟩
  · refine ⟨⟨[], ?_, .nil⟩, by simp [Open]⟩
    simp [OpenRun.invalid, Open, AfWinRingBind.handles, hb.rx, hb.tx, RingBuffer.handles_zero,
      Handle.field, invalidHandle, Handle.invalid]
  simp only [OpenRun.acquires, List.forall_mem_cons, List.forall_mem_append] at hf
  obtain ⟨hs, hfrx, hftx⟩ := hf
  obtain ⟨hprx, hlrx⟩ := RingBuffer.perm_handles_Open hfrx
  have hinvalid : OpenRun.invalid ⟨.ok sock, rx, tx, queue, bindErr, name⟩ = [] := rfl
  simp only [hinvalid, List.append_nil, exists_eq_left', and_true]
  rcases hrx : RingBuffer.zero.Open rx with ⟨- | e, rx'⟩
  swap
  · rw [hrx] at hprx
    refine ⟨?_, by simp [Open, hb.rx, hrx]⟩
    simp only [OpenRun.acquires, hrx, Open, hb.rx, hb.tx, AfWinRingBind.handles,
      RingBuffer.handles_zero, Handle.field_of_ne hs, List.append_nil]
    exact (hprx.cons _).trans (List.perm_append_singleton _ _).symm
  rw [hrx] at hprx hlrx hftx
  obtain ⟨hptx, hltx⟩ := RingBuffer.perm_handles_Open hftx
  have hperm : ∀ rx' tx' : RingBuffer, rx.acquires.Perm rx'.handles →
      tx.acquires.Perm tx'.handles → ((⟨.socket, sock⟩ : Handle) ::
        (rx.acquires ++ tx.acquires)).Perm
          (rx'.handles ++ tx'.handles ++ Handle.field .socket sock) := by
    intro rx' tx' hrx htx
    rw [Handle.field_of_ne hs]
    exact ((hrx.append htx).cons _).trans (List.perm_append_singleton _ _).symm
  rcases htx : RingBuffer.zero.Open tx with ⟨- | e, tx'⟩
  swap
  · rw [htx] at hptx
    refine ⟨?_, by simp [Open, hb.rx, hb.tx, hrx, htx]⟩
    simpa [OpenRun.acquires, hrx, Open, hb.rx, hb.tx, htx, AfWinRingBind.handles]
      using hperm rx' tx' hprx hptx
  rw [htx] at hptx hltx
  have hlive : ∀ rq, Live { b with sock := sock, rx := rx', tx := tx', rq := rq } := fun rq =>
    ⟨hs, hlrx rfl, hltx rfl⟩
  rcases queue with e | rq
  · refine ⟨?_, by simp [Open, hb.rx, hb.tx, hrx, htx]⟩
    simpa [OpenRun.acquires, hrx, Open, hb.rx, hb.tx, htx, AfWinRingBind.handles]
      using hperm rx' tx' hprx hptx
  rcases bindErr with - | e
  · refine ⟨?_, fun port _ => ?_⟩
    · simpa [OpenRun.acquires, hrx, Open, hb.rx, hb.tx, htx, AfWinRingBind.handles]
        using hperm rx' tx' hprx hptx
    · simpa [Open, hb.rx, hb.tx, hrx, htx] using hlive rq
  · refine ⟨?_, by simp [Open, hb.rx, hb.tx, hrx, htx]⟩
    simpa [OpenRun.acquires, hrx, Open, hb.rx, hb.tx, htx, AfWinRingBind.handles]
      using hperm rx' tx' hprx hptx

/-- Whether `Open` fails, and with which port, is up to the system calls. -/
theorem fst_Open (b b' : AfWinRingBind) (run : OpenRun) : (b.Open run).1 = (b'.Open run).1 := by
  rcases run with ⟨e | sock, rx, tx, queue, bindErr, name⟩
  · rfl
  have hrx := RingBuffer.fst_Open b.rx b'.rx rx
  have htx := RingBuffer.fst_Open b.tx b'.tx tx
  rcases hrx' : b'.rx.Open rx with ⟨- | e, rx'⟩
  swap
  · rw [hrx'] at hrx
    simp [Open, hrx, hrx']
  rcases htx' : b'.tx.Open tx with ⟨- | e, tx'⟩
  swap
  · rw [hrx'] at hrx
    rw [htx'] at htx
    simp [Open, hrx, hrx', htx, htx']
  rw [hrx'] at hrx
  rw [htx'] at htx
  rcases queue with e | rq
  · simp [Open, hrx, hrx', htx, htx']
  rcases bindErr with - | e <;> simp [Open, hrx, hrx', htx, htx']

/-- Posting a packet only counts. -/
theorem handles_InsertReceiveRequest {b b' : AfWinRingBind} {err err' : Option Error}
    (h : b.InsertReceiveRequest err = some (err', b')) :
    b'.handles = b.handles ∧ (b.Live → b'.Live) := by
  simp only [InsertReceiveRequest, Option.bind_eq_bind, Option.bind_eq_some_iff] at h
  obtain ⟨⟨slot, rx⟩, hpush, h⟩ := h
  obtain ⟨-, rfl⟩ := Prod.mk.inj (Option.some.inj h)
  obtain ⟨hh, hl⟩ := RingBuffer.handles_Push hpush
  refine ⟨?_, fun hb => ⟨hb.sock, hl hb.rx, hb.tx⟩⟩
  simp only [AfWinRingBind.handles, hh]

end AfWinRingBind

namespace WinRingBind

/-- The bind is closed, and its fields hold nothing. -/
structure Zeroed (b : WinRingBind) : Prop where
  isOpen : b.isOpen = 0
  v4 : b.v4.Zeroed
  v6 : b.v6.Zeroed

/-- Everything is open. -/
structure Live (b : WinRingBind) : Prop where
  v4 : b.v4.Live
  v6 : b.v6.Live

theorem zeroed_closeAndZero (b : WinRingBind) : b.closeAndZero.Zeroed :=
  ⟨rfl, ⟨rfl, rfl, rfl⟩, rfl, rfl, rfl⟩

section Zeroed

variable {b : WinRingBind} (h : b.Zeroed)
include h

theorem Zeroed.closed : b.Closed := by
  refine ⟨h.isOpen, fun is6 => ?_⟩
  cases is6
  · exact ⟨h.v4.rx, h.v4.tx⟩
  · exact ⟨h.v6.rx, h.v6.tx⟩

theorem Zeroed.handles : b.handles = [] := by
  rw [WinRingBind.handles, h.v4.handles, h.v6.handles, List.append_nil]

end Zeroed

/-- The loop that posts the packets only counts. -/
theorem handles_prepost {receiveErr : ℕ → Bool → Option Error} {left i : ℕ} {b b' : WinRingBind}
    {err : Option Error} (h : prepost receiveErr left i b = some (err, b')) :
    b'.handles = b.handles ∧ (b.Live → b'.Live) := by
  induction left generalizing i b with
  | zero =>
    obtain ⟨-, rfl⟩ := Prod.mk.inj (Option.some.inj h)
    exact ⟨rfl, id⟩
  | succ left ih =>
    simp only [prepost, Option.bind_eq_bind, Option.bind_eq_some_iff] at h
    obtain ⟨⟨err4, v4⟩, h4, h⟩ := h
    obtain ⟨hh4, hl4⟩ := AfWinRingBind.handles_InsertReceiveRequest h4
    rcases err4 with - | e
    swap
    · obtain ⟨-, rfl⟩ := Prod.mk.inj (Option.some.inj h)
      exact ⟨by simp only [WinRingBind.handles, hh4], fun hb => ⟨hl4 hb.v4, hb.v6⟩⟩
    simp only [Option.bind_eq_some_iff] at h
    obtain ⟨⟨err6, v6⟩, h6, h⟩ := h
    obtain ⟨hh6, hl6⟩ := AfWinRingBind.handles_InsertReceiveRequest h6
    rcases err6 with - | e
    swap
    · obtain ⟨-, rfl⟩ := Prod.mk.inj (Option.some.inj h)
      exact ⟨by simp only [WinRingBind.handles, hh4, hh6], fun hb => ⟨hl4 hb.v4, hl6 hb.v6⟩⟩
    obtain ⟨hh, hl⟩ := ih h
    refine ⟨hh.trans ?_, fun hb => hl ⟨hl4 hb.v4, hl6 hb.v6⟩⟩
    simp only [WinRingBind.handles, hh4, hh6]

/-- **What the body of `Open` acquires is in the fields of the bind**, also when it fails. Besides
that they hold at most the invalid handle, and it is what is released last. -/
theorem perm_handles_openBody {b : WinRingBind} (hb : b.Zeroed) {port : UInt16} {run : OpenRun}
    (hf : run.Fresh) {r : Opened} (he : b.openBody port run = some r) :
    (∃ held, r.bind.handles = held ++ b.invalid port run ∧ (b.acquires port run).Perm held) ∧
      (r.err = none → r.bind.Live ∧ b.invalid port run = []) := by
  have hnil6 : b.v6.handles = [] := hb.v6.handles
  have hzero := (hf port).2
  rw [openBody, if_neg (by simp [hb.isOpen])] at he
  rw [acquires, if_neg (by simp [hb.isOpen]), invalid, if_neg (by simp [hb.isOpen])]
  rw [OpenRun.acquires, AfWinRingBind.fst_Open _ b.v4] at hzero ⊢
  rw [OpenRun.invalid, AfWinRingBind.fst_Open _ b.v4]
  rw [List.forall_mem_append] at hzero
  obtain ⟨⟨held4, hh4, hp4⟩, hl4⟩ := AfWinRingBind.perm_handles_Open hb.v4 hzero.1
  rcases he4 : b.v4.Open (run.v4 port.toNat) with ⟨e | port4, v4⟩
  · rw [he4] at hh4 he
    obtain rfl := Option.some.inj he
    refine ⟨⟨held4, ?_, by simpa using hp4⟩, by simp⟩
    simpa [WinRingBind.handles, hnil6] using hh4
  rw [he4] at hh4 hl4 hzero he
  obtain ⟨hlive4, hinv4⟩ := hl4 port4 rfl
  rw [hinv4, List.append_nil] at hh4
  dsimp only at he hzero ⊢
  obtain ⟨⟨held6, hh6, hp6⟩, hl6⟩ := AfWinRingBind.perm_handles_Open hb.v6 hzero.2
  have hperm := hp4.append hp6
  rcases he6 : b.v6.Open (run.v6 port4) with ⟨e | port6, v6⟩
  · rw [he6] at hh6 he
    obtain rfl := Option.some.inj he
    refine ⟨⟨held4 ++ held6, ?_, hperm⟩, by simp⟩
    simp only [WinRingBind.handles, List.append_assoc] at hh4 hh6 ⊢
    rw [hh4, hh6]
  rw [he6] at hh6 hl6 he
  obtain ⟨hlive6, hinv6⟩ := hl6 port6 rfl
  rw [hinv6, List.append_nil] at hh6
  simp only [Option.bind_eq_bind, Option.bind_eq_some_iff] at he
  obtain ⟨⟨err, b'⟩, hpre, he⟩ := he
  obtain ⟨hh, hl⟩ := handles_prepost hpre
  have hheld : b'.handles = held4 ++ held6 := by
    rw [hh, WinRingBind.handles]
    exact congrArg₂ _ hh4 hh6
  have hlive : b'.Live := hl ⟨hlive4, hlive6⟩
  rw [hinv6]
  simp only [List.append_nil, exists_eq_left', and_true]
  rcases err with - | e
  swap
  · obtain rfl := Option.some.inj he
    exact ⟨hheld ▸ hperm, by simp⟩
  dsimp only at he
  split_ifs at he
  · rcases hsub : run.subscribeErr with - | e
    · rw [hsub] at he
      obtain rfl := Option.some.inj he
      exact ⟨hheld ▸ hperm, fun _ => ⟨hlive.v4, hlive.v6⟩⟩
    · rw [hsub] at he
      obtain rfl := Option.some.inj he
      exact ⟨hheld ▸ hperm, by simp⟩
  · obtain rfl := Option.some.inj he
    exact ⟨hheld ▸ hperm, fun _ => ⟨hlive.v4, hlive.v6⟩⟩

/-! ## Custody -/

/-- The handles behind a call of `Open`: what it acquired is open, unless the deferred function has
released what the bind held. -/
def openCustody (b : WinRingBind) (port : UInt16) (run : OpenRun) (c : Custody Handle) :
    Custody Handle :=
  let c := c.acquire (b.acquires port run)
  match b.openBody port run with
  | none => c
  | some r => if r.err.isSome then c.release r.bind.handles else c

theorem OpenRun.invalid_cases (run : OpenRun) (port : UInt16) :
    run.invalid port = [] ∨ run.invalid port = [.invalid] := by
  have haf : ∀ r : AfWinRingBind.OpenRun, r.invalid = [] ∨ r.invalid = [.invalid] := fun r => by
    rcases r with ⟨_ | _, _, _, _, _, _⟩
    · exact .inr rfl
    · exact .inl rfl
  unfold OpenRun.invalid
  split
  · exact haf _
  · exact haf _

theorem invalid_cases (b : WinRingBind) (port : UInt16) (run : OpenRun) :
    b.invalid port run = [] ∨ b.invalid port run = [.invalid] := by
  unfold invalid
  split_ifs
  · exact .inl rfl
  · exact run.invalid_cases port

/-- The deferred function releases what is open, and then the invalid handle. -/
theorem owns_release {c : Custody Handle} {held invalid : List Handle} (hc : c.Owns held)
    (hi : invalid = [] ∨ invalid = [.invalid]) :
    (c.release (held ++ invalid)).Owns [] ∧
      (c.release (held ++ invalid)).faults = invalid ++ c.faults := by
  obtain ⟨ho, hfaults⟩ := Custody.Owns.release (show c.Owns (held ++ []) by rwa [List.append_nil])
  rcases hi with rfl | rfl
  · rw [List.append_nil]
    exact ⟨ho, hfaults⟩
  · rw [Custody.release_append, ← hfaults]
    exact ho.release_absent List.not_mem_nil

/-- **After `Open` the bind owns what its fields hold**, and all of it if it succeeded. A call that
fails, also because the bind is open, has released everything. The only fault is the release of the
invalid handle. -/
theorem owns_Open {b : WinRingBind} (hb : b.isOpen = 0 → b.Zeroed) {port : UInt16} {run : OpenRun}
    (hf : run.Fresh) {c : Custody Handle} (hc : c.Owns b.handles) {r : Opened}
    (he : b.Open port run = some r) :
    (b.openCustody port run c).Owns r.bind.handles ∧
      (b.openCustody port run c).faults = b.invalid port run ++ c.faults ∧
      (r.err ≠ none → r.bind.Zeroed) ∧ (r.err = none → r.bind.isOpen = 1 ∧ r.bind.Live) := by
  rw [Open, Option.map_eq_some_iff] at he
  obtain ⟨r', hbody, rfl⟩ := he
  rw [openCustody, hbody]
  by_cases hopen : b.isOpen = 0
  swap
  · rw [openBody, if_pos hopen] at hbody
    obtain rfl := Option.some.inj hbody
    have hnil : b.acquires port run = [] := by rw [acquires, if_pos hopen]
    have hinv : b.invalid port run = [] := by rw [invalid, if_pos hopen]
    have hacq : c.acquire [] = c := rfl
    simp only [hnil, hinv, hacq, Option.isSome_some, if_true]
    rw [(zeroed_closeAndZero b).handles]
    obtain ⟨ho, hfaults⟩ := owns_release hc (.inl rfl)
    rw [List.append_nil] at ho hfaults
    exact ⟨ho, hfaults, fun _ => zeroed_closeAndZero b, by simp⟩
  have hzero := hb hopen
  obtain ⟨⟨held, hheld, hperm⟩, hlive⟩ := perm_handles_openBody hzero hf hbody
  have hacq : (c.acquire (b.acquires port run)).Owns held := by
    rw [hzero.handles] at hc
    have hn : (b.acquires port run ++ []).Nodup := by
      rw [List.append_nil, acquires, if_neg (by simp [hopen])]
      exact (hf port).1
    have howns := hc.acquire hn
    rw [List.append_nil] at howns
    exact howns.congr hperm
  rcases herr : r'.err with - | e
  · have hone : r'.bind.isOpen = 1 := by
      obtain ⟨r'', hr'', hl⟩ := exists_openBody hzero.closed port run
      rw [hbody] at hr''
      obtain rfl := Option.some.inj hr''
      exact (hl herr).isOpen
    obtain ⟨hl, hinv⟩ := hlive herr
    rw [hinv, List.append_nil] at hheld
    simp only [herr, Option.isSome_none, Bool.false_eq_true, if_false, hinv]
    exact ⟨hheld ▸ hacq, rfl, by simp, fun _ => ⟨hone, hl⟩⟩
  · simp only [herr, Option.isSome_some, if_true]
    rw [(zeroed_closeAndZero _).handles, hheld]
    obtain ⟨ho, hfaults⟩ := owns_release hacq (b.invalid_cases port run)
    exact ⟨ho, hfaults, fun _ => zeroed_closeAndZero _, by simp⟩

end WinRingBind

end BatchUDP
