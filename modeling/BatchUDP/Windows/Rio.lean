import BatchUDP.Windows.Handles

/-!
# Registered I/O and the constructors

`winrio.Initialize` finds out whether registered I/O works, by making a socket, loading the table of
the extension functions, and making a completion port, a completion queue and a request queue. It
does so at most once in a process, gives back what it acquired, and remembers the answer. The
constructors of Windows make a `WinRingBind` if the answer is yes, the network is native and can be
subscribed to, and no options are given. Otherwise they make a `StdNetBind`.

## Main definitions

* `Rio`: what a process knows about registered I/O
* `Rio.Initialize`: `winrio.Initialize`
* `Rio.NewWinRingBind`, `Rio.NewDefaultBind`, `Rio.NewDefaultBindWithOptions`: the constructors

## Main results

* `Rio.owns_probe`: whatever fails, each handle is released once
* `Rio.constructs`: what the constructors make in a process, in any order of calls
-/

namespace BatchUDP

open Go Machine

/-- What a process knows about registered I/O: whether `Initialize` ran, its answer, whether the
table of extension functions is loaded, and the handles that are open because of it. -/
structure Rio where
  initialized : Bool
  available : Bool
  table : Bool
  custody : Custody Handle
  deriving DecidableEq, Repr

namespace Rio

/-- A new process. -/
def new : Rio := ⟨false, false, false, .empty⟩

/-- What the system calls of `Initialize` return: the socket, the result of loading the table, the
completion port, the completion queue, and the result of making a request queue. -/
structure InitRun where
  socket : Except Error ℕ
  ioctl : Option Error
  port : Except Error ℕ
  queue : Except Error ℕ
  request : Option Error

/-! ## Initializing -/

/-- The part of `Initialize` behind the completion port. -/
def probeQueue (run : InitRun) (socket port : Handle) (c : Custody Handle) :
    Option Error × Custody Handle :=
  let c := c.touch [port]
  match run.queue with
  | .error e => (some e, c)
  | .ok cq =>
    let c := (c.acquire [⟨.queue, cq⟩]).touch [socket, ⟨.queue, cq⟩]
    (run.request, c.release [⟨.queue, cq⟩])

/-- The part of `Initialize` behind the loading of the table. -/
def probePort (run : InitRun) (socket : Handle) (c : Custody Handle) :
    Option Error × Custody Handle :=
  match run.port with
  | .error e => (some e, c)
  | .ok iocp =>
    let (err, c) := probeQueue run socket ⟨.port, iocp⟩ (c.acquire [⟨.port, iocp⟩])
    (err, c.release [⟨.port, iocp⟩])

/-- The function that `Initialize` runs once: its error, and the handles behind its deferred calls.
-/
def probe (run : InitRun) (c : Custody Handle) : Option Error × Custody Handle :=
  match run.socket with
  | .error e => (some e, c)
  | .ok sock =>
    let c := (c.acquire [⟨.socket, sock⟩]).touch [⟨.socket, sock⟩]
    match run.ioctl with
    | some e => (some e, c.release [⟨.socket, sock⟩])
    | none =>
      let (err, c) := probePort run ⟨.socket, sock⟩ c
      (err, c.release [⟨.socket, sock⟩])

/-- The table is loaded. -/
def InitRun.loads (run : InitRun) : Bool := run.socket.isOk && run.ioctl.isNone

/-- All system calls succeed. -/
def InitRun.works (run : InitRun) : Bool :=
  run.loads && run.port.isOk && run.queue.isOk && run.request.isNone

/-- `winrio.Initialize`. -/
def Initialize (r : Rio) (run : InitRun) : Bool × Rio :=
  if r.initialized then (r.available, r)
  else
    let (err, c) := probe run r.custody
    (err.isNone, ⟨true, err.isNone, run.loads, c⟩)

/-! ## Constructors -/

/-- What the constructors ask of a network. -/
structure Net where
  isNative : Bool
  subscribes : Bool
  deriving DecidableEq, Repr

/-- `winRingCloserSubscriber`: whether there is a subscriber. -/
def winRingCloserSubscriber : Option Net → Bool
  | none => false
  | some network => network.isNative && network.subscribes

/-- A bind that a constructor makes. -/
inductive Made where
  | std (opts : StdNetBindOptions)
  | winRing
  deriving DecidableEq, Repr

/-- The options that `NewStdNetBind` passes on. -/
def noOptions : StdNetBindOptions := ⟨.ipv4First, false, false, 0⟩

/-- `NewWinRingBind`. -/
def NewWinRingBind (r : Rio) (run : InitRun) (network : Option Net) : Made × Rio :=
  if winRingCloserSubscriber network = false then (.std noOptions, r)
  else
    let (ok, r) := r.Initialize run
    if ok = false then (.std noOptions, r) else (.winRing, r)

/-- `NewDefaultBind`. -/
def NewDefaultBind (r : Rio) (run : InitRun) (network : Option Net) : Made × Rio :=
  if winRingCloserSubscriber network = false then (.std noOptions, r)
  else r.NewWinRingBind run network

/-- Options that only a `StdNetBind` has. -/
def Custom (opts : StdNetBindOptions) : Prop :=
  opts.familyOrder ≠ .ipv4First ∨ opts.allowSingleFamily = true ∨ opts.onFamilyOpenError = true ∨
    0 < opts.batchSize

instance (opts : StdNetBindOptions) : Decidable (Custom opts) :=
  inferInstanceAs (Decidable (_ ∨ _ ∨ _ ∨ _))

/-- `NewDefaultBindWithOptions`. -/
def NewDefaultBindWithOptions (r : Rio) (run : InitRun) (network : Option Net)
    (opts : StdNetBindOptions) : Made × Rio :=
  if Custom opts then (.std opts, r) else r.NewDefaultBind run network

/-- A call of a constructor. -/
inductive Call where
  | NewWinRingBind (network : Option Net)
  | NewDefaultBind (network : Option Net)
  | NewDefaultBindWithOptions (network : Option Net) (opts : StdNetBindOptions)
  deriving DecidableEq, Repr

/-- The network of a call. -/
def Call.network : Call → Option Net
  | .NewWinRingBind network => network
  | .NewDefaultBind network => network
  | .NewDefaultBindWithOptions network _ => network

/-- The options of a call, which are none where a constructor takes none. -/
def Call.opts : Call → StdNetBindOptions
  | .NewWinRingBind _ => noOptions
  | .NewDefaultBind _ => noOptions
  | .NewDefaultBindWithOptions _ opts => opts

/-- A process that calls constructors. -/
def step (r : Rio) : Call × InitRun → Option (Rio × (Made × Rio))
  | (.NewWinRingBind network, run) =>
    let (made, r) := r.NewWinRingBind run network
    some (r, made, r)
  | (.NewDefaultBind network, run) =>
    let (made, r) := r.NewDefaultBind run network
    some (r, made, r)
  | (.NewDefaultBindWithOptions network opts, run) =>
    let (made, r) := r.NewDefaultBindWithOptions run network opts
    some (r, made, r)

/-- The call asks whether registered I/O works. -/
def Call.Asks (call : Call) : Prop :=
  winRingCloserSubscriber call.network = true ∧ ¬ Custom call.opts

instance (call : Call) : Decidable call.Asks := inferInstanceAs (Decidable (_ ∧ _))

/-- The options have the same effect. -/
def SameEffect (opts opts' : StdNetBindOptions) : Prop :=
  opts.familyOrder = opts'.familyOrder ∧ opts.allowSingleFamily = opts'.allowSingleFamily ∧
    opts.onFamilyOpenError = opts'.onFamilyOpenError ∧
    ∀ p net, StdNetBind.stdNetBindBatchSize p net opts =
      StdNetBind.stdNetBindBatchSize p net opts'

/-! ## What a call does -/

section Calls

variable {r : Rio} {run : InitRun} {c : Custody Handle}

theorem owns_probeQueue (run : InitRun) {socket port : Handle} (hs : socket.kind = .socket)
    (hp : port.kind = .port) (h : c.Owns [port, socket]) :
    (probeQueue run socket port c).2.Owns [port, socket] ∧
      (probeQueue run socket port c).2.faults = c.faults := by
  unfold probeQueue
  rw [h.touch (by simp)]
  split
  · exact ⟨h, rfl⟩
  · next cq _ =>
    have hn : ([⟨.queue, cq⟩] ++ [port, socket] : List Handle).Nodup := by
      have h₁ : (⟨.queue, cq⟩ : Handle) ≠ port := fun he => by simp [← he] at hp
      have h₂ : (⟨.queue, cq⟩ : Handle) ≠ socket := fun he => by simp [← he] at hs
      simpa [h₁, h₂] using h.nodup
    have ha := h.acquire hn
    dsimp only
    rw [ha.touch (by simp)]
    exact ha.release

theorem owns_probePort (run : InitRun) {socket : Handle} (hs : socket.kind = .socket)
    (h : c.Owns [socket]) :
    (probePort run socket c).2.Owns [socket] ∧
      (probePort run socket c).2.faults = c.faults := by
  unfold probePort
  split
  · exact ⟨h, rfl⟩
  · next iocp _ =>
    have hn : ([⟨.port, iocp⟩] ++ [socket] : List Handle).Nodup := by
      have h₁ : (⟨.port, iocp⟩ : Handle) ≠ socket := fun he => by simp [← he] at hs
      simpa using h₁
    obtain ⟨hq, hfaults⟩ := owns_probeQueue run hs rfl (h.acquire hn)
    obtain ⟨ho, hfaults'⟩ := hq.releaseOne
    exact ⟨ho, hfaults'.trans hfaults⟩

/-- **Whatever fails, each handle is released once.** -/
theorem owns_probe (run : InitRun) (h : c.Owns []) :
    (probe run c).2.Owns [] ∧ (probe run c).2.faults = c.faults := by
  unfold probe
  split
  · exact ⟨h, rfl⟩
  · next sock _ =>
    have hn : ([⟨.socket, sock⟩] ++ [] : List Handle).Nodup := by simp
    have ha := h.acquire hn
    rw [ha.touch (by simp)]
    split
    · exact ha.release
    · obtain ⟨hp, hfaults⟩ := owns_probePort run rfl ha
      obtain ⟨ho, hfaults'⟩ := hp.releaseOne
      exact ⟨ho, hfaults'.trans hfaults⟩

theorem fst_probe_isNone (run : InitRun) (c : Custody Handle) :
    (probe run c).1.isNone = run.works := by
  rcases run with ⟨_ | _, _ | _, _ | _, _ | _, _ | _⟩ <;> rfl

/-- Options that are not custom have the effect of none. -/
theorem sameEffect_noOptions {opts : StdNetBindOptions} (h : ¬ Custom opts) :
    SameEffect noOptions opts := by
  simp only [Custom, not_or, not_not, Bool.not_eq_true, not_lt] at h
  obtain ⟨h₁, h₂, h₃, h₄⟩ := h
  refine ⟨h₁.symm, h₂.symm, h₃.symm, fun p net => ?_⟩
  simp [StdNetBind.stdNetBindBatchSize, noOptions, Int.not_lt.mpr h₄]

theorem not_custom_noOptions : ¬ Custom noOptions := by decide

variable {call : Call}

/-- A call that does not ask makes a `StdNetBind` with the options that it was given. -/
theorem exists_step_of_not_asks (h : ¬ call.Asks) (r : Rio) (run : InitRun) :
    ∃ opts, step r (call, run) = some (r, .std opts, r) ∧ SameEffect opts call.opts := by
  have hnet : ¬ Custom call.opts → winRingCloserSubscriber call.network = false := fun hc =>
    Bool.eq_false_iff.mpr fun hn => h ⟨hn, hc⟩
  cases call with
  | NewWinRingBind network =>
    have hn := hnet not_custom_noOptions
    exact ⟨noOptions, by simp [step, NewWinRingBind, show winRingCloserSubscriber network = false
      from hn], sameEffect_noOptions not_custom_noOptions⟩
  | NewDefaultBind network =>
    have hn := hnet not_custom_noOptions
    exact ⟨noOptions, by simp [step, NewDefaultBind, show winRingCloserSubscriber network = false
      from hn], sameEffect_noOptions not_custom_noOptions⟩
  | NewDefaultBindWithOptions network opts =>
    by_cases hc : Custom opts
    · exact ⟨opts, by simp [step, NewDefaultBindWithOptions, hc], rfl, rfl, rfl, fun _ _ => rfl⟩
    · have hn := hnet hc
      exact ⟨noOptions, by simp [step, NewDefaultBindWithOptions, hc, NewDefaultBind,
        show winRingCloserSubscriber network = false from hn], sameEffect_noOptions hc⟩

/-- A call that asks makes a `WinRingBind` if the answer is yes. -/
theorem step_of_asks (h : call.Asks) (r : Rio) (run : InitRun) :
    step r (call, run) = some ((r.Initialize run).2,
      if (r.Initialize run).1 then .winRing else .std noOptions, (r.Initialize run).2) := by
  obtain ⟨hnet, hc⟩ := h
  cases call with
  | NewWinRingBind network =>
    simp only [Call.network] at hnet
    cases hi : (r.Initialize run).1 <;> simp [step, NewWinRingBind, hnet, hi]
  | NewDefaultBind network =>
    simp only [Call.network] at hnet
    cases hi : (r.Initialize run).1 <;> simp [step, NewDefaultBind, NewWinRingBind, hnet, hi]
  | NewDefaultBindWithOptions network opts =>
    simp only [Call.network] at hnet
    simp only [Call.opts] at hc
    cases hi : (r.Initialize run).1 <;>
      simp [step, NewDefaultBindWithOptions, hc, NewDefaultBind, NewWinRingBind, hnet, hi]

end Calls

/-! ## Processes -/

section Runs

variable {r : Rio} {run : InitRun}

/-- What holds along a run. -/
structure Inv (r : Rio) : Prop where
  owns : r.custody.Owns []
  faultless : r.custody.faults = []
  table : r.available = true → r.table = true

theorem inv_new : new.Inv := ⟨Custody.owns_empty, rfl, by simp [new]⟩

/-- `Initialize` keeps the invariant. The first time its answer is whether the system calls succeed,
and it is the same from then on. -/
theorem Inv.Initialize (h : r.Inv) (run : InitRun) :
    (r.Initialize run).2.Inv ∧ (r.Initialize run).2.initialized = true ∧
      (r.Initialize run).2.available = (r.Initialize run).1 ∧
      (r.Initialize run).1 = if r.initialized then r.available else run.works := by
  unfold Rio.Initialize
  split_ifs with hi
  · exact ⟨h, hi, rfl, rfl⟩
  · obtain ⟨howns, hfaults⟩ := owns_probe run h.owns
    refine ⟨⟨howns, hfaults.trans h.faultless, ?_⟩, rfl, rfl, fst_probe_isNone run r.custody⟩
    intro hw
    simp only [fst_probe_isNone, InitRun.works, Bool.and_eq_true] at hw
    exact hw.1.1.1

/-- The answer that the calls of a process get: the one that is known, or else that of the first
call which asks. -/
def answer (r : Rio) (calls : List (Call × InitRun)) : Option Bool :=
  if r.initialized then some r.available
  else (calls.find? fun c => decide c.1.Asks).map fun c => c.2.works

/-- A call made the system calls of `Initialize`. -/
def Probes (v : Visit Rio (Call × InitRun) (Made × Rio)) : Bool :=
  !v.before.initialized && v.output.2.initialized

/-- A call made what it should, if the answer is the given one, and left nothing open: a
`WinRingBind`, whose extension functions are loaded, iff it asks and the answer is yes, and
otherwise a `StdNetBind` with the options that it was given. -/
structure Right (answer : Option Bool) (v : Visit Rio (Call × InitRun) (Made × Rio)) : Prop where
  owns : v.output.2.custody.Owns []
  faultless : v.output.2.custody.faults = []
  winRing : v.output.1 = .winRing ↔ v.input.1.Asks ∧ answer = some true
  table : v.output.1 = .winRing → v.output.2.table = true
  std : ∀ opts, v.output.1 = .std opts → SameEffect opts v.input.1.opts

/-- A run from any state, in front of which `Initialize` ran or not. -/
theorem Inv.exists_trace (h : r.Inv) (calls : List (Call × InitRun)) :
    ∃ t, trace step r calls = some t ∧ (∀ v ∈ t, Right (r.answer calls) v) ∧
      t.countP Probes ≤ if r.initialized then 0 else 1 := by
  induction calls generalizing r with
  | nil => exact ⟨[], rfl, by simp, by simp⟩
  | cons c calls ih =>
    obtain ⟨call, run⟩ := c
    by_cases hasks : call.Asks
    · obtain ⟨hinv, hinit, havail, hfst⟩ := h.Initialize run
      obtain ⟨t, ht, hright, hcount⟩ := ih hinv
      have hans : (r.Initialize run).2.answer calls = some (r.Initialize run).1 := by
        simp [answer, hinit, havail]
      have hans' : r.answer ((call, run) :: calls) = some (r.Initialize run).1 := by
        rw [hfst]
        unfold answer
        split_ifs <;> simp [hasks]
      rw [hans] at hright
      rw [hans']
      refine ⟨⟨r, (call, run), if (r.Initialize run).1 then .winRing else .std noOptions,
        (r.Initialize run).2⟩ :: t, by rw [trace, step_of_asks hasks]; simp [ht], ?_, ?_⟩
      · refine List.forall_mem_cons.mpr ⟨⟨hinv.owns, hinv.faultless, ?_, ?_, ?_⟩, hright⟩
        · cases (r.Initialize run).1 <;> simp [hasks]
        · intro hmade
          refine hinv.table (havail.trans ?_)
          by_contra hne
          simp [hne] at hmade
        · intro opts hmade
          cases hf : (r.Initialize run).1 with
          | true => simp [hf] at hmade
          | false =>
            simp only [hf, Bool.false_eq_true, if_false, Made.std.injEq] at hmade
            exact hmade ▸ sameEffect_noOptions hasks.2
      · rw [if_pos hinit] at hcount
        rw [List.countP_cons, Nat.le_zero.mp hcount]
        cases hr : r.initialized <;> simp [Probes, hr, hinit]
    · obtain ⟨opts, he, hsame⟩ := exists_step_of_not_asks hasks r run
      obtain ⟨t, ht, hright, hcount⟩ := ih h
      have hans : r.answer ((call, run) :: calls) = r.answer calls := by
        simp [answer, hasks]
      rw [hans]
      refine ⟨⟨r, (call, run), .std opts, r⟩ :: t, by rw [trace, he]; simp [ht], ?_, ?_⟩
      · refine List.forall_mem_cons.mpr ⟨⟨h.owns, h.faultless, ?_, ?_, ?_⟩, hright⟩
        · simp [hasks]
        · simp
        · rintro _ ⟨⟩
          exact hsame
      · rw [List.countP_cons]
        simpa [Probes] using hcount

/-- **What the constructors make in a process**, in any order of calls and whatever the system calls
return: they make a `WinRingBind` iff the network is native and can be subscribed to, no custom
options are given, and registered I/O worked when the first such call tried it. Then its functions
are loaded. Otherwise they make a `StdNetBind` with the options given. It is tried at most once, and
all handles are released, each once. -/
theorem constructs (calls : List (Call × InitRun)) :
    ∃ t, trace step new calls = some t ∧ (∀ v ∈ t, Right (new.answer calls) v) ∧
      t.countP Probes ≤ 1 :=
  inv_new.exists_trace calls

end Runs

end Rio

end BatchUDP
