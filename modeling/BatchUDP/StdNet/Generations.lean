import BatchUDP.StdNet.Open
import BatchUDP.StdNet.Receive

/-!
# The generations of receive functions

Every successful `Open` returns receive functions that have captured the sockets it opened. A call
of one of them asks the network and then, under the mutex, whether the bind has a socket of its
family at present; the read behind that goes to the captured socket. `Close` and `Open` may run
between the two halves of a call. `Close` itself closes one socket after the other while it has the
mutex.

## Main definitions

* `StdNetBind.receive`: a call of a receive function, as one step
* `StdNetBind.Generations`: the bind, its sockets, what every successful `Open` returned, and the
  calls of receive functions between their halves
* `StdNetBind.Generations.step`: the machine
* `StdNetBind.Generations.Refused`: a call that returned `net.ErrClosed` and delivered nothing

## Main results

* `StdNetBind.Generations.endClose_beginClose`, `StdNetBind.Generations.exists_check_read`: the two
  halves of `Close` are `Close`, and those of a receive call are a receive call
* `StdNetBind.Generations.Inv.exists_step`: a step keeps the generations apart
* `StdNetBind.Generations.reads_own_socket`: along every run a receive function reads the socket of
  its own generation, and is refused once that was closed
-/

namespace BatchUDP

open Go Machine

namespace StdNetBind

/-- A call of a function made by `makeReceiveIPv4` or `makeReceiveIPv6`, with nothing between its
halves. The socket that it looks for is the one that the bind has at present. -/
def receive (p : Platform) (s : StdNetBind) (f : ReceiveFunc) (networkDown : Bool)
    (run : ReceiveRun) (bufs : List (Slice UInt8)) (sizes : List ℕ)
    (eps : List (Option StdNetEndpoint)) : Option Receipt :=
  if networkDown || (s.conn f.is6).isNone then some ⟨0, some errClosed, bufs, sizes, eps, s⟩
  else s.receiveIP p f.pc f.rxOffload run bufs sizes eps

/-- A call of a receive function: the number of the `Open` that returned the function, what the
function has captured, whether the bind was closed since then when the call looked for a socket, and
the caller's slices. -/
structure ReceiveCall where
  gen : ℕ
  fn : ReceiveFunc
  late : Bool
  bufs : List (Slice UInt8)
  sizes : List ℕ
  eps : List (Option StdNetEndpoint)
  deriving DecidableEq, Repr

/-- The bind and its sockets, whether a `Close` is between its halves and has the mutex, the results
of the calls of `Open` that succeeded, the number of them when a `Close` was last completed, and the
calls of receive functions between their halves. -/
structure Generations where
  bind : StdNetBind
  sockets : Sockets
  closing : Bool
  opens : List Opened
  closed : ℕ
  calls : List ReceiveCall
  deriving DecidableEq, Repr

namespace Generations

/-- What can happen next: a call of `Open`, one half of a `Close`, or one half of a call of a
receive function. The first half of such a call names the function and says what `networkDown`
returns; the second names the call and says what the socket answers. -/
inductive Event where
  | Open (uport : UInt16)
  | beginClose
  | endClose
  | check (gen fn : ℕ) (networkDown : Bool) (bufs : List (Slice UInt8)) (sizes : List ℕ)
      (eps : List (Option StdNetEndpoint))
  | read (call : ℕ) (run : ReceiveRun)

/-- What happened: nothing, because the mutex was taken or because there is no such function or
call; a call of `Open`; a half of `Close`; the first half of a call; or the return of a call, with
the socket that it read, if it came to that, and its results, unless it panicked. -/
inductive Out where
  | nothing
  | opened (r : Opened)
  | closing
  | closed
  | passed
  | returned (c : ReceiveCall) (socket : Option Conn) (receipt : Option Receipt)

/-- A call that returns `net.ErrClosed` without a read. -/
def refuse (s : Generations) (c : ReceiveCall) : Receipt :=
  ⟨0, some errClosed, c.bufs, c.sizes, c.eps, s.bind⟩

/-- What the socket answers: a read on a closed socket fails. -/
def answer (s : Generations) (c : ReceiveCall) (run : ReceiveRun) : ReceiveRun :=
  if c.fn.conn ∈ s.sockets.custody.released then { run with read := .error errClosed } else run

/-- A call of `Open` has returned. -/
def opened (s : Generations) (r : Opened) : Generations :=
  { s with
    bind := r.bind
    sockets := r.sockets
    opens := if r.err = none then s.opens ++ [r] else s.opens }

/-- `Close` has closed the IPv4 socket. -/
def beginClose (s : Generations) : Generations :=
  { s with
    bind := (closeFamily false s.bind s.sockets).1
    sockets := (closeFamily false s.bind s.sockets).2
    closing := true }

/-- `Close` has closed the IPv6 socket and cleared the flags, and returns. -/
def endClose (s : Generations) : Generations :=
  { s with
    bind := (closeFamily true s.bind s.sockets).1.clearFlags
    sockets := (closeFamily true s.bind s.sockets).2
    closing := false
    closed := s.opens.length }

/-- The machine. The first half of a call is that of `makeReceiveIPv4` and `makeReceiveIPv6`. -/
def step (p : Platform) (opts : StdNetBindOptions) (net : Option Network) (s : Generations) :
    Event → Option (Generations × Out)
  | .Open uport =>
    if s.closing then some (s, .nothing)
    else (s.bind.Open p opts net uport s.sockets).map fun r => (s.opened r, .opened r)
  | .beginClose => if s.closing then some (s, .nothing) else some (s.beginClose, .closing)
  | .endClose => if s.closing then some (s.endClose, .closed) else some (s, .nothing)
  | .check gen fn networkDown bufs sizes eps =>
    match s.opens[gen]?.bind fun r => r.fns[fn]? with
    | none => some (s, .nothing)
    | some f =>
      let c : ReceiveCall := ⟨gen, f, gen < s.closed, bufs, sizes, eps⟩
      if networkDown then some (s, .returned c none (s.refuse c))
      else if s.closing then some (s, .nothing)
      else
        -- the socket that the bind has now, not the one that was captured
        match s.bind.conn f.is6 with
        | none => some (s, .returned c none (s.refuse c))
        | some _ => some ({ s with calls := s.calls ++ [c] }, .passed)
  | .read call run =>
    match s.calls[call]? with
    | none => some (s, .nothing)
    | some c =>
      let receipt :=
        s.bind.receiveIP p c.fn.pc c.fn.rxOffload (s.answer c run) c.bufs c.sizes c.eps
      some ({ s with
              bind := (receipt.map Receipt.bind).getD s.bind
              calls := s.calls.eraseIdx call }, .returned c c.fn.conn receipt)

/-- A new bind. -/
def start (p : Platform) (opts : StdNetBindOptions) (net : Option Network) : Generations :=
  ⟨NewStdNetBindWithOptions p net opts, .empty, false, [], 0, []⟩

/-- A call that returned `net.ErrClosed`, delivered nothing, and left the caller's slices alone. -/
structure Refused (c : ReceiveCall) (receipt : Receipt) : Prop where
  n : receipt.n = 0
  err : receipt.err = some errClosed
  bufs : receipt.bufs = c.bufs
  sizes : receipt.sizes = c.sizes
  eps : receipt.eps = c.eps

variable {p : Platform} {opts : StdNetBindOptions} {net : Option Network} {s : Generations}

/-- **The two halves of `Close` are `Close`.** -/
theorem endClose_beginClose (s : Generations) (err4 err6 : Option Error) :
    s.beginClose.endClose.bind = (s.bind.Close s.sockets err4 err6).bind ∧
      s.beginClose.endClose.sockets = (s.bind.Close s.sockets err4 err6).sockets :=
  ⟨rfl, rfl⟩

/-- **The two halves of a call are a call**, where nothing comes between them and the socket is
open. -/
theorem exists_check_read {gen fn : ℕ} {f : ReceiveFunc}
    (hf : (s.opens[gen]?.bind fun r => r.fns[fn]?) = some f) (hclosing : s.closing = false)
    (hopen : f.conn ∉ s.sockets.custody.released) (networkDown : Bool) (run : ReceiveRun)
    (bufs : List (Slice UInt8)) (sizes : List ℕ) (eps : List (Option StdNetEndpoint)) :
    ∃ s' o, step p opts net s (.check gen fn networkDown bufs sizes eps) = some (s', o) ∧
      ((∃ c, o = .returned c none (s.bind.receive p f networkDown run bufs sizes eps)) ∨
        o = .passed ∧ ∃ s'' c, step p opts net s' (.read s.calls.length run) =
          some (s'', .returned c f.conn (s.bind.receive p f networkDown run bufs sizes eps))) := by
  let c : ReceiveCall := ⟨gen, f, gen < s.closed, bufs, sizes, eps⟩
  cases networkDown with
  | true => exact ⟨s, .returned c none (s.refuse c), by simp [step, hf, c], .inl ⟨c, rfl⟩⟩
  | false =>
    rcases hc : s.bind.conn f.is6 with - | conn
    · refine ⟨s, .returned c none (s.refuse c), by simp [step, hf, hclosing, hc, c], .inl ⟨c, ?_⟩⟩
      simp [receive, hc, refuse, c]
    · refine ⟨{ s with calls := s.calls ++ [c] }, .passed, ?_, .inr ⟨rfl, ?_⟩⟩
      · simp only [step, hf, hclosing, hc]
        rfl
      have hget : (s.calls ++ [c])[s.calls.length]? = some c := by simp
      have hanswer : Generations.answer { s with calls := s.calls ++ [c] } c run = run :=
        if_neg hopen
      have hreceive : s.bind.receive p f false run bufs sizes eps =
          s.bind.receiveIP p c.fn.pc c.fn.rxOffload run c.bufs c.sizes c.eps := by
        simp [receive, hc, c]
      exact ⟨_, c, by simp only [step, hget, hanswer, hreceive]; rfl⟩

/-! ## What a step keeps -/

/-- A receive function of generation `gen`. -/
def HandedOut (s : Generations) (gen : ℕ) (f : ReceiveFunc) : Prop :=
  ∃ r, s.opens[gen]? = some r ∧ f ∈ r.fns

/-- What holds along a run. A function has captured the socket of its own generation. That socket is
the one that the bind has for the family, or it is closed; it is closed once the generation is. -/
structure Inv (p : Platform) (s : Generations) : Prop where
  holds : s.sockets.Holds s.bind.conns
  valid : s.bind.Valid p
  closing : s.closing = true → s.bind.conn false = none
  closed_le : s.closed ≤ s.opens.length
  captured : ∀ r ∈ s.opens, ∀ f ∈ r.fns, r.bind.conn f.is6 = some f.conn
  installed : ∀ gen f, s.HandedOut gen f →
    s.bind.conn f.is6 = some f.conn ∨ f.conn ∈ s.sockets.custody.released
  released : ∀ gen f, s.HandedOut gen f → gen < s.closed →
    f.conn ∈ s.sockets.custody.released
  calls : ∀ c ∈ s.calls, s.HandedOut c.gen c.fn ∧
    (c.late = true → c.fn.conn ∈ s.sockets.custody.released)

/-- What a step does: a call that returns has read the socket that its own generation has for its
family, or none, and is refused if it came after the `Close` of its generation, and the second half
of such a call returns. -/
structure Keeps (v : Visit Generations Event Out) : Prop where
  own : ∀ c socket receipt, v.output = .returned c (some socket) receipt →
    ∃ r, v.before.opens[c.gen]? = some r ∧ c.fn ∈ r.fns ∧ r.bind.conn c.fn.is6 = some socket
  late : ∀ c socket receipt, v.output = .returned c socket receipt → c.late = true →
    validateReceiveBuffers c.bufs c.sizes c.eps v.before.bind.batchSize = none →
    ∃ receipt', receipt = some receipt' ∧ Refused c receipt'
  returns : ∀ call run c, v.input = .read call run → v.before.calls[call]? = some c →
    ∃ socket receipt, v.output = .returned c socket receipt

/-- A step that returns from no call. -/
theorem keeps_of_ne {v : Visit Generations Event Out}
    (h : ∀ c socket receipt, v.output ≠ .returned c socket receipt)
    (hr : ∀ call run c, v.input = .read call run → v.before.calls[call]? ≠ some c) : Keeps v where
  own c socket receipt he := absurd he (h c socket receipt)
  late c socket receipt he := absurd he (h c socket receipt)
  returns call run c hi hc := absurd hc (hr call run c hi)

/-- A call that returns without a read is refused. -/
theorem keeps_refuse {c : ReceiveCall} {e : Event} (he : ∀ call run, e ≠ .read call run) :
    Keeps ⟨s, e, .returned c none (some (s.refuse c))⟩ where
  own := by rintro c' socket receipt ⟨⟩
  late := by
    rintro c' socket receipt ⟨⟩ - -
    exact ⟨_, rfl, rfl, rfl, rfl, rfl, rfl⟩
  returns call run c' hi := absurd hi (he call run)

/-- A receive function after a call of `Open` that succeeded is an earlier one, or a new one. -/
theorem handedOut_opened {r : Opened} (hr : r.err = none) {gen : ℕ} {f : ReceiveFunc}
    (h : (s.opened r).HandedOut gen f) :
    s.HandedOut gen f ∨ gen = s.opens.length ∧ f ∈ r.fns := by
  obtain ⟨r', hr', hf⟩ := h
  simp only [opened, if_pos hr] at hr'
  rcases lt_trichotomy gen s.opens.length with hlt | rfl | hgt
  · rw [List.getElem?_append_left hlt] at hr'
    exact .inl ⟨r', hr', hf⟩
  · obtain rfl : r = r' := by simpa using hr'
    exact .inr ⟨rfl, hf⟩
  · rw [List.getElem?_eq_none (by simpa using hgt)] at hr'
    cases hr'

section Steps

variable (h : s.Inv p)

include h

/-- The sockets that a bind loses are closed, and those that were closed stay so. -/
theorem Inv.replace {bind : StdNetBind} {sockets : Sockets} {closing : Bool}
    (hheld : sockets.Holds bind.conns) (hvalid : bind.Valid p)
    (hclosing : closing = true → bind.conn false = none)
    (hsub : s.sockets.custody.released ⊆ sockets.custody.released)
    (hconn : ∀ is6 c, s.bind.conn is6 = some c →
      bind.conn is6 = some c ∨ c ∈ sockets.custody.released) :
    Inv p { s with bind := bind, sockets := sockets, closing := closing } where
  holds := hheld
  valid := hvalid
  closing := hclosing
  closed_le := h.closed_le
  captured := h.captured
  installed gen f hf := (h.installed gen f hf).elim (hconn f.is6 f.conn) fun hr => .inr (hsub hr)
  released gen f hf hlt := hsub (h.released gen f hf hlt)
  calls c hc := ⟨(h.calls c hc).1, fun hl => hsub ((h.calls c hc).2 hl)⟩

/-- Without a socket in the bind those of all functions are closed. -/
theorem Inv.released_of_conn_eq_none (hnone : ∀ is6, s.bind.conn is6 = none) {gen : ℕ}
    {f : ReceiveFunc} (hf : s.HandedOut gen f) : f.conn ∈ s.sockets.custody.released := by
  refine (h.installed gen f hf).resolve_left fun hi => ?_
  rw [hnone] at hi
  cases hi

/-- A new generation leaves the earlier ones as they are. -/
theorem Inv.opened {uport : UInt16} {r : Opened}
    (he : s.bind.Open p opts net uport s.sockets = some r) (hheld : r.sockets.Holds r.bind.conns)
    (hclosing : s.closing = false) (hr : r.err = none) (hopen : s.bind.isOpen = false) :
    (s.opened r).Inv p := by
  have hsub := released_Open he
  have hnone : ∀ is6, s.bind.conn is6 = none := by
    obtain ⟨h4, h6⟩ := Bool.or_eq_false_iff.mp hopen
    rw [Option.isSome_eq_false_iff, Option.isNone_iff_eq_none] at h4 h6
    intro is6
    cases is6
    · exact h4
    · exact h6
  have hold : ∀ gen f, s.HandedOut gen f → f.conn ∈ r.sockets.custody.released :=
    fun gen f hf => hsub (h.released_of_conn_eq_none hnone hf)
  refine ⟨hheld, h.valid.Open he, ?_, ?_, ?_, ?_, ?_, ?_⟩
  · intro hc
    exact absurd (hclosing.symm.trans hc) (by simp)
  · simp only [Generations.opened, if_pos hr, List.length_append]
    exact h.closed_le.trans (Nat.le_add_right _ _)
  · intro r' hr' f hf
    simp only [Generations.opened, if_pos hr, List.mem_append, List.mem_singleton] at hr'
    rcases hr' with hr' | rfl
    · exact h.captured r' hr' f hf
    · exact conn_of_mem_fns he hf
  · intro gen f hf
    rcases handedOut_opened hr hf with hf | ⟨-, hf⟩
    · exact .inr (hold gen f hf)
    · exact .inl (conn_of_mem_fns he hf)
  · intro gen f hf hlt
    rcases handedOut_opened hr hf with hf | ⟨rfl, -⟩
    · exact hold gen f hf
    · exact absurd hlt (not_lt.mpr h.closed_le)
  · intro c hc
    obtain ⟨⟨r', hr', hf⟩, -⟩ := h.calls c hc
    refine ⟨⟨r', ?_, hf⟩, fun _ => hold c.gen c.fn ⟨r', hr', hf⟩⟩
    simp only [Generations.opened, if_pos hr]
    rw [List.getElem?_append_left (List.getElem?_eq_some_iff.mp hr').1, hr']

theorem Inv.beginClose : s.beginClose.Inv p :=
  h.replace (holds_closeFamily h.holds false) (h.valid.closeFamily false s.sockets)
    (fun _ => by rw [conn_closeFamily, if_pos rfl]) (released_closeFamily false)
    fun _ _ => conn_or_released_closeFamily false

/-- A completed `Close` has closed the sockets of all functions. -/
theorem Inv.endClose (hclosing : s.closing = true) : s.endClose.Inv p := by
  have hboth := @Inv.replace p s h _ _ false (holds_closeFamily h.holds true)
    (h.valid.closeFamily true s.sockets) (by simp) (released_closeFamily true)
    fun _ _ => conn_or_released_closeFamily true
  have hnone : ∀ is6, (closeFamily true s.bind s.sockets).1.conn is6 = none := by
    intro is6
    rw [conn_closeFamily]
    cases is6
    · exact h.closing hclosing
    · rfl
  exact ⟨hboth.holds, hboth.valid.congr rfl rfl rfl, by simp [Generations.endClose], le_rfl,
    hboth.captured, hboth.installed,
    fun gen f hf _ => hboth.released_of_conn_eq_none hnone hf, hboth.calls⟩

/-- A call that has returned, with a change of the message pool only. -/
theorem Inv.returned {pool : List (List Message)} {calls : List ReceiveCall}
    (hvalid : StdNetBind.Valid p { s.bind with msgsPool := pool }) (hsub : calls ⊆ s.calls) :
    Inv p { s with bind := { s.bind with msgsPool := pool }, calls := calls } where
  holds := h.holds
  valid := hvalid
  closing := h.closing
  closed_le := h.closed_le
  captured := h.captured
  installed := h.installed
  released := h.released
  calls c hc := h.calls c (hsub hc)

/-- The first half of a call. -/
theorem Inv.exists_check (gen fn : ℕ) (networkDown : Bool) (bufs : List (Slice UInt8))
    (sizes : List ℕ) (eps : List (Option StdNetEndpoint)) :
    ∃ s' o, step p opts net s (.check gen fn networkDown bufs sizes eps) = some (s', o) ∧
      s'.Inv p ∧ Keeps ⟨s, .check gen fn networkDown bufs sizes eps, o⟩ := by
  simp only [step]
  rcases hf : s.opens[gen]?.bind fun r => r.fns[fn]? with - | f
  · exact ⟨_, _, rfl, h, keeps_of_ne (by simp) (by simp)⟩
  obtain ⟨r, hr, hfr⟩ := Option.bind_eq_some_iff.mp hf
  have hand : s.HandedOut gen f := ⟨r, hr, List.mem_of_getElem? hfr⟩
  simp only
  split_ifs
  · exact ⟨_, _, rfl, h, keeps_refuse (by simp)⟩
  · exact ⟨_, _, rfl, h, keeps_of_ne (by simp) (by simp)⟩
  rcases s.bind.conn f.is6 with - | c
  · exact ⟨_, _, rfl, h, keeps_refuse (by simp)⟩
  · refine ⟨_, _, rfl, ?_, keeps_of_ne (by simp) (by simp)⟩
    refine ⟨h.holds, h.valid, h.closing, h.closed_le, h.captured, h.installed, h.released, ?_⟩
    intro c' hc'
    rcases List.mem_append.mp hc' with hc' | hc'
    · exact h.calls c' hc'
    · obtain rfl := List.mem_singleton.mp hc'
      exact ⟨hand, fun hl => h.released gen f hand (of_decide_eq_true hl)⟩

/-- The second half of a call. -/
theorem Inv.exists_read (call : ℕ) (run : ReceiveRun) :
    ∃ s' o, step p opts net s (.read call run) = some (s', o) ∧ s'.Inv p ∧
      Keeps ⟨s, .read call run, o⟩ := by
  simp only [step]
  rcases hc : s.calls[call]? with - | c
  · refine ⟨_, _, rfl, h, keeps_of_ne (by simp) ?_⟩
    rintro call' run' c' ⟨⟩
    simp [hc]
  obtain ⟨⟨r, hr, hf⟩, hlate⟩ := h.calls c (List.mem_of_getElem? hc)
  refine ⟨_, _, rfl, ?_, ?_, ?_, ?_⟩
  · have hsub := (List.eraseIdx_sublist s.calls call).subset
    rcases hrec : s.bind.receiveIP p c.fn.pc c.fn.rxOffload (s.answer c run) c.bufs c.sizes c.eps
      with - | receipt
    · exact h.returned h.valid hsub
    · obtain ⟨⟨pool, hbind⟩, hvalid⟩ := exists_pool_of_receiveIP h.valid hrec
      rw [Option.map_some, Option.getD_some, hbind]
      exact h.returned (hbind ▸ hvalid) hsub
  · rintro c' socket receipt ⟨⟩
    exact ⟨r, hr, hf, h.captured r (List.mem_of_getElem? hr) c.fn hf⟩
  · rintro c' socket receipt ⟨⟩ hl hv
    have hread : (s.answer c run).read = .error errClosed := by rw [answer, if_pos (hlate hl)]
    obtain ⟨receipt, he, hn, herr, hbufs, hsizes, heps⟩ :=
      exists_receiveIP_error c.fn.pc c.fn.rxOffload h.valid hv hread
    exact ⟨receipt, he, hn, herr, hbufs, hsizes, heps⟩
  · rintro call' run' c' ⟨⟩ hc'
    obtain rfl := Option.some.inj (hc.symm.trans hc')
    exact ⟨_, _, rfl⟩

/-- **A step keeps the generations apart.** -/
theorem Inv.exists_step (e : Event) :
    ∃ s' o, step p opts net s e = some (s', o) ∧ s'.Inv p ∧ Keeps ⟨s, e, o⟩ := by
  cases e with
  | Open uport =>
    simp only [step]
    split_ifs with hc
    · exact ⟨_, _, rfl, h, keeps_of_ne (by simp) (by simp)⟩
    rw [Bool.not_eq_true] at hc
    obtain ⟨r, he, -, hheld, hr⟩ := StdNetBind.exists_Open p opts net h.holds uport
    refine ⟨s.opened r, .opened r, by rw [he]; rfl, ?_, keeps_of_ne (by simp) (by simp)⟩
    rcases hr with ⟨herr, hbind⟩ | ⟨herr, hopen, -⟩
    · simp only [Generations.opened, if_neg herr]
      refine h.replace hheld (h.valid.Open he) (fun h' => ?_) (released_Open he) ?_
      · exact absurd (hc.symm.trans h') (by simp)
      · exact fun is6 c hi => .inl (hbind ▸ hi)
    · exact h.opened he hheld hc herr hopen
  | beginClose =>
    simp only [step]
    split_ifs
    · exact ⟨_, _, rfl, h, keeps_of_ne (by simp) (by simp)⟩
    · exact ⟨_, _, rfl, h.beginClose, keeps_of_ne (by simp) (by simp)⟩
  | endClose =>
    simp only [step]
    split_ifs with hc
    · exact ⟨_, _, rfl, h.endClose hc, keeps_of_ne (by simp) (by simp)⟩
    · exact ⟨_, _, rfl, h, keeps_of_ne (by simp) (by simp)⟩
  | check gen fn networkDown bufs sizes eps =>
    exact h.exists_check gen fn networkDown bufs sizes eps
  | read call run => exact h.exists_read call run

end Steps

variable (p opts net) in
theorem inv_start : (start p opts net).Inv p where
  holds := Sockets.holds_empty
  valid := valid_new p net opts
  closing := by simp [start]
  closed_le := le_rfl
  captured := by simp [start]
  installed := by
    rintro gen f ⟨r, hr, -⟩
    simp [start] at hr
  released := by
    rintro gen f ⟨r, hr, -⟩
    simp [start] at hr
  calls := by simp [start]

variable (p opts net) in
/-- **Along every run a receive function reads the socket of its own generation**: the one that the
`Open` that returned it has installed for its family. A call that looks for a socket after the
`Close` of that generation was completed is refused, also when the bind was opened again. -/
theorem reads_own_socket (events : List Event) :
    ∃ t, trace (step p opts net) (start p opts net) events = some t ∧ ∀ v ∈ t,
      (∀ c socket receipt, v.output = .returned c (some socket) receipt →
        ∃ r, v.before.opens[c.gen]? = some r ∧ c.fn ∈ r.fns ∧
          r.bind.conn c.fn.is6 = some socket) ∧
      (∀ c socket receipt, v.output = .returned c socket receipt → c.late = true →
        validateReceiveBuffers c.bufs c.sizes c.eps v.before.bind.batchSize = none →
        ∃ receipt', receipt = some receipt' ∧ Refused c receipt') ∧
      ∀ call run c, v.input = .read call run → v.before.calls[call]? = some c →
        ∃ socket receipt, v.output = .returned c socket receipt := by
  obtain ⟨t, ht, hall⟩ := exists_trace_of_forall (Inv p) (fun s e h => h.exists_step e)
    (inv_start p opts net) events
  exact ⟨t, ht, fun v hv => ⟨(hall v hv).own, (hall v hv).late, (hall v hv).returns⟩⟩

end Generations

end StdNetBind

end BatchUDP
