import BatchUDP.Pingpong.Completes

/-!
# A scenario: many sessions at a time

`runScenario` runs a number of sessions at a time, each over a pair of channel binds of its own. The
first one that fails cancels the context of all, and its error is the result. The context may also
pass its deadline.

Whenever that happens, and in whatever order the goroutines of all the sessions run, a scenario
comes to its end after a number of steps that is known in advance. It succeeds iff the deadline has
not passed and a payload fits the buffers of the receive loops.

## Main definitions

* `Scenario`, `Scenario.step`: the state, and the machine
* `Scenario.rank`: how many steps a scenario can take at most

## Main results

* `Scenario.Inv.of_step`: every event keeps the invariant, and every step lowers the rank
* `Scenario.Inv.exists_step`: some goroutine can go on until the scenario has come to its end
* `Scenario.succeeds_iff`: a scenario comes to its end, and when it succeeds
-/

namespace BatchUDP

namespace Pingpong

open Go Machine

/-- What `runScenario` is called with, as `run` has checked it. -/
structure ScenarioConfig where
  sessions : ℕ
  roundTrips : ℕ
  payloadSize : ℕ
  sessions_pos : 0 < sessions
  roundTrips_pos : 0 < roundTrips
  payload_le : 16 ≤ payloadSize

/-- What a session is called with. -/
def ScenarioConfig.session (cfg : ScenarioConfig) (sessionID : ℕ) : Config :=
  ⟨cfg.payloadSize, cfg.roundTrips, sessionID, cfg.payload_le⟩

/-- A session, and whether the function that `taskGroup.Go` has started for it has ended. -/
structure SessionTask where
  session : Session
  ended : Bool

/-- A scenario: the group, whose context is that of the sessions, and its tasks. -/
structure Scenario (n : ℕ) where
  group : TaskGroup
  tasks : Fin n → SessionTask

namespace Scenario

/-- What happens next: a step of a goroutine of a session; the end of the function around a session
that has returned; or the deadline passes. -/
inductive Event (n : ℕ) where
  | session (k : Fin n) (e : Session.Event)
  | finish (k : Fin n)
  | deadline
  deriving DecidableEq, Repr

/-- The event is a step of a goroutine. -/
def Event.isStep {n : ℕ} : Event n → Bool
  | .deadline => false
  | _ => true

section Machine

variable {n : ℕ}

/-- The group gets another state. If its context is done in that, then so is that of every session.
-/
def setGroup (s : Scenario n) (g : TaskGroup) : Scenario n :=
  match g.ctx with
  | none => { s with group := g }
  | some d =>
    { group := g, tasks := fun k => { s.tasks k with session := (s.tasks k).session.cancel d } }

/-- A task moves on. -/
def setTask (s : Scenario n) (k : Fin n) (t : SessionTask) : Scenario n :=
  { s with tasks := Function.update s.tasks k t }

/-- The machine. -/
def step (cfg : ScenarioConfig) (s : Scenario n) : Event n → Option (Scenario n × Unit)
  | .session k e =>
    if e.isStep then
      (Session.step (cfg.session k) (s.tasks k).session e).map fun r =>
        (s.setTask k ⟨r.1, (s.tasks k).ended⟩, ())
    else none
  | .finish k =>
    match (s.tasks k).session.main, (s.tasks k).ended with
    | .returned err, false =>
      some ((s.setTask k ⟨(s.tasks k).session, true⟩).setGroup (s.group.finish err), ())
    | _, _ => none
  | .deadline => some (s.setGroup { s.group with ctx := s.group.ctx.or (some .deadline) }, ())

/-- The scenario in front of the call of `Wait`, with the ports that the binds have got. -/
def start (cfg : ScenarioConfig) (rand : Fin n → Bool × Bool) : Scenario n where
  group := .new
  tasks k := ⟨Session.start (cfg.session k) (rand k).1 (rand k).2, false⟩

/-- The scenario has come to its end: its tasks have ended, and all goroutines have returned. -/
def Finished (s : Scenario n) : Prop := ∀ k, (s.tasks k).ended = true ∧ (s.tasks k).session.Finished

/-- How many steps a task can take at most. -/
def taskRank (cfg : ScenarioConfig) (k : Fin n) (t : SessionTask) : ℕ :=
  Session.rank (cfg.session k) t.session + if t.ended then 0 else 1

/-- How many steps a scenario can take at most. -/
def rank (cfg : ScenarioConfig) (s : Scenario n) : ℕ := ∑ k, taskRank cfg k (s.tasks k)

end Machine

section Runs

variable {n : ℕ} {cfg : ScenarioConfig} {s s' : Scenario n} {k : Fin n}

@[simp] theorem tasks_setTask_self (t : SessionTask) : (s.setTask k t).tasks k = t :=
  Function.update_self ..

theorem tasks_setTask_of_ne {j : Fin n} (hj : j ≠ k) (t : SessionTask) :
    (s.setTask k t).tasks j = s.tasks j :=
  Function.update_of_ne hj ..

@[simp] theorem group_setGroup (g : TaskGroup) : (s.setGroup g).group = g := by
  unfold setGroup
  split <;> rfl

/-- What a step does. -/
inductive Moves (cfg : ScenarioConfig) (s : Scenario n) : Event n → Scenario n → Prop where
  | session {k : Fin n} {e : Session.Event} {r : Session × Unit} (hstep : e.isStep = true)
      (he : Session.step (cfg.session k) (s.tasks k).session e = some r) :
      Moves cfg s (.session k e) (s.setTask k ⟨r.1, (s.tasks k).ended⟩)
  | finish {k : Fin n} {err : Option Error} (hended : (s.tasks k).ended = false)
      (hmain : (s.tasks k).session.main = .returned err) :
      Moves cfg s (.finish k)
        ((s.setTask k ⟨(s.tasks k).session, true⟩).setGroup (s.group.finish err))
  | deadline : Moves cfg s .deadline
      (s.setGroup { s.group with ctx := s.group.ctx.or (some .deadline) })

theorem moves_of_step {e : Event n} {o : Unit} (he : step cfg s e = some (s', o)) :
    Moves cfg s e s' := by
  cases e with
  | session k e =>
    simp only [step] at he
    split_ifs at he with hstep
    obtain ⟨r, hr, heq⟩ := Option.map_eq_some_iff.mp he
    obtain ⟨rfl, -⟩ := Prod.mk.inj heq
    exact .session hstep hr
  | finish k =>
    simp only [step] at he
    split at he
    · next err hmain hended =>
      obtain ⟨rfl, -⟩ := Prod.mk.inj (Option.some.inj he)
      exact .finish hended hmain
    · cases he
  | deadline =>
    obtain ⟨rfl, -⟩ := Prod.mk.inj (Option.some.inj he)
    exact .deadline

/-! ## The rank -/

@[simp] theorem rank_setGroup (g : TaskGroup) : rank cfg (s.setGroup g) = rank cfg s := by
  unfold setGroup
  split <;> rfl

theorem rank_setTask_lt {t : SessionTask} (hlt : taskRank cfg k t < taskRank cfg k (s.tasks k)) :
    rank cfg (s.setTask k t) < rank cfg s := by
  refine Finset.sum_lt_sum (fun j _ => ?_) ⟨k, Finset.mem_univ k, by rwa [tasks_setTask_self]⟩
  by_cases hj : j = k
  · subst hj
    rw [tasks_setTask_self]
    exact hlt.le
  · rw [tasks_setTask_of_ne hj]

theorem rank_start (rand : Fin n → Bool × Bool) :
    rank cfg (start cfg rand) = n * (13 * cfg.roundTrips + 11) := by
  have hk (k : Fin n) : taskRank cfg k ((start cfg rand).tasks k) = 13 * cfg.roundTrips + 11 := by
    have := @Session.rank_start (cfg.session k) (rand k).1 (rand k).2 cfg.roundTrips_pos
    exact congrArg (· + 1) this
  simp [rank, hk]

/-! ## The invariant -/

/-- What holds of every state of a scenario. -/
structure Inv (cfg : ScenarioConfig) (s : Scenario n) : Prop where
  session : ∀ k, (s.tasks k).session.Inv (cfg.session k)
  err : s.group.ctx = none → s.group.err = none
  ctx : s.group.ctx = none → ∀ k, (s.tasks k).session.ctx = none
  fits : s.group.ctx = none → ∀ k, (s.tasks k).ended = true → cfg.payloadSize ≤ maxUDPPayload
  done : s.group.ctx ≠ none → s.group.waitErr ≠ none

theorem isValue_errMismatch (cfg : Config) (i : ℕ) :
    ¬ (errMismatch cfg i).isValue errCanceled = true := by
  intro he
  have hstr := congrArg String.toList (Error.text.inj (of_decide_eq_true he))
  simp only [String.toList_append] at hstr
  cases hstr

/-- A group with an error fails. -/
theorem waitErr_ne_none {g : TaskGroup} (h : g.err ≠ none) : g.waitErr ≠ none := by
  obtain ⟨e, he⟩ := Option.ne_none_iff_exists'.mp h
  simp [TaskGroup.waitErr, he]

/-- What the end of a task does to the group: nothing, or it fails. -/
theorem cases_of_finish (g : TaskGroup) (err : Option Error) :
    g.finish err = g ∧ (g.err = none → ∀ e, err = some e → e.isValue errCanceled) ∨
      (g.finish err).ctx ≠ none ∧ (g.finish err).err ≠ none := by
  cases err with
  | none => exact .inl ⟨rfl, nofun⟩
  | some e =>
    by_cases he : e.isValue errCanceled
    · exact .inl ⟨if_pos he, fun _ _ h => Option.some.inj h ▸ he⟩
    have hfinish : g.finish (some e) = g.fail e := if_neg he
    by_cases herr : g.err = none
    · right
      rw [hfinish, TaskGroup.fail, if_neg (not_not.mpr herr)]
      cases g.ctx <;> simp
    · exact .inl ⟨hfinish.trans (if_pos herr), fun h => absurd h herr⟩

/-- The invariant behind a change of the group. -/
theorem inv_setGroup {g : TaskGroup} (hsession : ∀ k, (s.tasks k).session.Inv (cfg.session k))
    (hnone : g.ctx = none → Inv cfg { s with group := g })
    (hdone : g.ctx ≠ none → g.waitErr ≠ none) : (s.setGroup g).Inv cfg := by
  unfold setGroup
  split
  · next hctx => exact hnone hctx
  · next d hctx =>
    have hne : g.ctx ≠ none := by simp [hctx]
    exact ⟨fun k => (hsession k).cancel d, fun hn => absurd hn hne, fun hn => absurd hn hne,
      fun hn => absurd hn hne, hdone⟩

/-- What holds of every task and of another state of one of them holds of all behind its step. -/
theorem forall_setTask {P : Fin n → SessionTask → Prop} {t : SessionTask}
    (h : ∀ j, P j (s.tasks j)) (ht : P k t) : ∀ j, P j ((s.setTask k t).tasks j) := by
  intro j
  by_cases hj : j = k
  · subst hj
    rwa [tasks_setTask_self]
  · rw [tasks_setTask_of_ne hj]
    exact h j

/-- A step of a session. -/
theorem Inv.of_session (h : s.Inv cfg) {e : Session.Event} {r : Session × Unit}
    (hstep : e.isStep = true)
    (he : Session.step (cfg.session k) (s.tasks k).session e = some r) :
    (s.setTask k ⟨r.1, (s.tasks k).ended⟩).Inv cfg ∧
      rank cfg (s.setTask k ⟨r.1, (s.tasks k).ended⟩) < rank cfg s := by
  obtain ⟨hinv, hctx, hlt⟩ := (h.session k).of_step he hstep
  refine ⟨⟨?_, h.err, fun hn => ?_, fun hn => ?_, h.done⟩, rank_setTask_lt ?_⟩
  · exact forall_setTask (P := fun j t => t.session.Inv (cfg.session j)) h.session hinv
  · exact forall_setTask (P := fun _ t => t.session.ctx = none) (h.ctx hn) (hctx.trans (h.ctx hn k))
  · exact forall_setTask (P := fun _ t => t.ended = true → cfg.payloadSize ≤ maxUDPPayload)
      (h.fits hn) (h.fits hn k)
  · exact Nat.add_lt_add_right hlt _

/-- The result of a session is determined, as long as the context is not done. -/
theorem Inv.err_of_returned (h : s.Inv cfg) (hn : s.group.ctx = none) {err : Option Error}
    (hmain : (s.tasks k).session.main = .returned err) :
    err = none ∧ cfg.payloadSize ≤ maxUDPPayload ∨
      err = some (errMismatch (cfg.session k) 0) ∧ ¬ cfg.payloadSize ≤ maxUDPPayload := by
  have hm := (h.session k).main
  rw [hmain] at hm
  rcases hm.1 with hok | hbad | hne
  · exact .inl hok
  · exact .inr hbad
  · exact absurd (h.ctx hn k) hne

/-- The end of a task. -/
theorem Inv.of_finish (h : s.Inv cfg) {err : Option Error} (hended : (s.tasks k).ended = false)
    (hmain : (s.tasks k).session.main = .returned err) :
    ((s.setTask k ⟨(s.tasks k).session, true⟩).setGroup (s.group.finish err)).Inv cfg ∧
      rank cfg (s.setTask k ⟨(s.tasks k).session, true⟩) < rank cfg s := by
  have hinv := forall_setTask (P := fun j t => t.session.Inv (cfg.session j))
    (t := ⟨(s.tasks k).session, true⟩) h.session (h.session k)
  refine ⟨inv_setGroup hinv (fun hn => ?_) (fun hne => ?_), rank_setTask_lt ?_⟩
  · obtain ⟨hsame, herr⟩ := (cases_of_finish s.group err).resolve_right fun hf => hf.1 hn
    rw [hsame] at hn ⊢
    have hfits : cfg.payloadSize ≤ maxUDPPayload := by
      rcases h.err_of_returned hn hmain with ⟨-, hfits⟩ | ⟨rfl, -⟩
      · exact hfits
      · exact absurd (herr (h.err hn) _ rfl) (isValue_errMismatch _ 0)
    refine ⟨hinv, h.err, fun _ => ?_, fun _ _ _ => hfits, h.done⟩
    exact forall_setTask (P := fun _ t => t.session.ctx = none) (h.ctx hn) (h.ctx hn k)
  · rcases cases_of_finish s.group err with ⟨hsame, -⟩ | ⟨-, hf⟩
    · rw [hsame] at hne ⊢
      exact h.done hne
    · exact waitErr_ne_none hf
  · simp [taskRank, hended]

/-- The deadline passes. -/
theorem Inv.of_deadline (h : s.Inv cfg) :
    (s.setGroup { s.group with ctx := s.group.ctx.or (some .deadline) }).Inv cfg := by
  refine inv_setGroup h.session (fun hn => ?_) (fun _ => ?_)
  · cases hc : s.group.ctx <;> simp [hc] at hn
  · cases hc : s.group.ctx with
    | none =>
      simp only [TaskGroup.waitErr, h.err hc, Option.none_or]
      decide
    | some d =>
      have := h.done (by simp [hc])
      rwa [Option.some_or, ← hc]

/-- **Every event keeps the invariant**, and every step of a goroutine lowers the rank. -/
theorem Inv.of_step (h : s.Inv cfg) {e : Event n} {o : Unit} (he : step cfg s e = some (s', o)) :
    s'.Inv cfg ∧ rank cfg s' + (if e.isStep then 1 else 0) ≤ rank cfg s := by
  cases moves_of_step he with
  | session hstep hr => exact h.of_session hstep hr
  | finish hended hmain =>
    obtain ⟨hinv, hlt⟩ := h.of_finish hended hmain
    exact ⟨hinv, by rwa [rank_setGroup]⟩
  | deadline => exact ⟨h.of_deadline, (rank_setGroup _).le⟩

theorem inv_start (rand : Fin n → Bool × Bool) : (start cfg rand).Inv cfg where
  session := fun k => @Session.inv_start _ (rand k).1 (rand k).2 cfg.roundTrips_pos
  err := fun _ => rfl
  ctx := fun _ _ => rfl
  fits := fun _ _ => nofun
  done := fun hne => absurd rfl hne

/-- **Some goroutine can go on** until the scenario has come to its end. -/
theorem Inv.exists_step (h : s.Inv cfg) :
    s.Finished ∨ ∃ e s', e.isStep = true ∧ step cfg s e = some (s', ()) := by
  by_contra hstuck
  obtain ⟨hnot, hno⟩ := not_or.mp hstuck
  refine hnot fun k => ?_
  have hfin : (s.tasks k).session.Finished := by
    refine (h.session k).exists_step.resolve_right fun ⟨e, r, hstep, he⟩ => ?_
    exact hno ⟨.session k e, _, rfl, by simp only [step, hstep, he, if_true]; rfl⟩
  refine ⟨?_, hfin⟩
  by_contra hended
  obtain ⟨⟨err, hmain⟩, -⟩ := hfin
  have hended := Bool.eq_false_of_not_eq_true hended
  exact hno ⟨.finish k, _, rfl, by simp only [step, hmain, hended]; rfl⟩

/-! ## Whole runs -/

/-- A context that is done stays so. -/
theorem ctx_ne_none_of_step {e : Event n} {o : Unit} (hne : s.group.ctx ≠ none)
    (he : step cfg s e = some (s', o)) : s'.group.ctx ≠ none := by
  cases moves_of_step he with
  | session => exact hne
  | finish =>
    rw [group_setGroup]
    rcases cases_of_finish s.group _ with ⟨hsame, -⟩ | ⟨hctx, -⟩
    · rwa [hsame]
    · exact hctx
  | deadline => simp

/-- The context is not done before the deadline passes, if a payload fits. -/
theorem Inv.ctx_of_step (h : s.Inv cfg) (hfits : cfg.payloadSize ≤ maxUDPPayload)
    (hn : s.group.ctx = none) {e : Event n} {o : Unit} (hstep : e.isStep = true)
    (he : step cfg s e = some (s', o)) : s'.group.ctx = none := by
  cases moves_of_step he with
  | session => exact hn
  | finish hended hmain =>
    rcases h.err_of_returned hn hmain with ⟨rfl, -⟩ | ⟨-, hno⟩
    · rw [group_setGroup]
      exact hn
    · exact absurd hfits hno
  | deadline => cases hstep

/-- **A scenario comes to its end**, in whatever order the goroutines of its sessions run and
whenever its deadline passes: these take at most 13 steps for each round trip of each session and 11
more for each session, and some goroutine can go on until all have returned. It succeeds iff a
payload fits the buffers of the receive loops and the deadline has not passed. -/
theorem succeeds_iff {cfg : ScenarioConfig} {rand : Fin cfg.sessions → Bool × Bool}
    {events : List (Event cfg.sessions)} {s : Scenario cfg.sessions}
    (hrun : RunsTo (step cfg) (start cfg rand) events s) :
    events.countP Event.isStep ≤ cfg.sessions * (13 * cfg.roundTrips + 11) ∧
      (s.Finished ∨ ∃ e s', e.isStep = true ∧ step cfg s e = some (s', ())) ∧
      ((∀ k, (s.tasks k).ended = true) →
        (s.group.waitErr = none ↔ cfg.payloadSize ≤ maxUDPPayload ∧ .deadline ∉ events)) := by
  have hkeep : ∀ (s : Scenario cfg.sessions) e s' o, Inv cfg s → True →
      step cfg s e = some (s', o) →
        Inv cfg s' ∧ rank cfg s' + (if e.isStep then 1 else 0) ≤ rank cfg s :=
    fun s e s' o h _ he => h.of_step he
  have hinv : s.Inv cfg := hrun.invariant (fun s e s' o h hok he => (hkeep s e s' o h hok he).1)
    (inv_start rand) fun _ _ => trivial
  refine ⟨?_, hinv.exists_step, fun hended => ⟨fun hwait => ?_, fun ⟨hfits, hno⟩ => ?_⟩⟩
  · have := hrun.countP_add_rank_le hkeep (inv_start rand) fun _ _ => trivial
    rw [rank_start] at this
    omega
  · have hctx : s.group.ctx = none := not_not.mp fun hne => hinv.done hne hwait
    refine ⟨hinv.fits hctx ⟨0, cfg.sessions_pos⟩ (hended _), fun hmem => ?_⟩
    have hset : ∀ (s s' : Scenario cfg.sessions) o, step cfg s .deadline = some (s', o) →
        s'.group.ctx ≠ none := by
      intro s s' o he
      cases moves_of_step he
      simp
    exact hrun.of_mem hmem hset (fun s e s' o => ctx_ne_none_of_step) hctx
  · have hsteps : ∀ e ∈ events, e.isStep = true := by
      rintro (_ | _ | _) he
      · rfl
      · rfl
      · exact absurd he hno
    have hkeep' : ∀ (s : Scenario cfg.sessions) e s' o, (Inv cfg s ∧ s.group.ctx = none) →
        e.isStep = true → step cfg s e = some (s', o) → Inv cfg s' ∧ s'.group.ctx = none :=
      fun s e s' o h hok he => ⟨(h.1.of_step he).1, h.1.ctx_of_step hfits h.2 hok he⟩
    obtain ⟨-, hctx⟩ := hrun.invariant hkeep' ⟨inv_start rand, rfl⟩ hsteps
    simp [TaskGroup.waitErr, hinv.err hctx, hctx]

/-- Two sessions of one round trip of the smallest payload. -/
def twoSmallest : ScenarioConfig where
  sessions := 2
  roundTrips := Session.smallest.roundTrips
  payloadSize := Session.smallest.payloadSize
  sessions_pos := Nat.two_pos
  roundTrips_pos := Nat.one_pos
  payload_le := Session.smallest.payload_le

/-- The deadline passes behind the first session. -/
def deadlineBetween : List (Event 2) :=
  Session.oneTrip.map (.session 0) ++ [.finish 0, .deadline] ++
    List.replicate 7 (.session 1 (.main false)) ++ [.finish 1]

/-- The second session fails then, and with it the scenario. -/
theorem succeeds_iff_deadline :
    ∃ s, RunsTo (step twoSmallest) (start twoSmallest fun _ => (true, true)) deadlineBetween s ∧
      (∀ k, (s.tasks k).ended = true) ∧ s.group.waitErr = some errDeadlineExceeded ∧
      ¬ (s.group.waitErr = none) := by
  have he : ((runs (step twoSmallest) (start twoSmallest fun _ => (true, true))
      deadlineBetween).map fun s => (s.group.waitErr, (s.tasks 0).ended, (s.tasks 1).ended)) =
      some (some errDeadlineExceeded, true, true) := by
    decide +kernel
  obtain ⟨s, hs, hsum⟩ := Option.map_eq_some_iff.mp he
  simp only [Prod.mk.injEq] at hsum
  obtain ⟨hwait, h₀, h₁⟩ := hsum
  have hended : ∀ k, (s.tasks k).ended = true := Fin.forall_fin_two.mpr ⟨h₀, h₁⟩
  have hrun := runsTo_of_runs hs
  have hmem : (Event.deadline : Event 2) ∈ deadlineBetween := by decide
  exact ⟨s, hrun, hended, hwait, fun hn => (((succeeds_iff hrun).2.2 hended).mp hn).2 hmem⟩

end Runs

end Scenario

end Pingpong

end BatchUDP
