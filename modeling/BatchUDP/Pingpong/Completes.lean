import BatchUDP.Machine.Complete
import BatchUDP.Pingpong.Invariant

/-!
# A session comes to its end

With one packet in flight the goroutines of a session never wait for each other in a circle, and no
reply is taken for that to another payload. Without its context being done, a session therefore ends
after a number of steps that is known in advance, in whatever order its goroutines run, and its
result is determined: it succeeds if a payload fits the buffers of the receive loops. A larger
payload, which `run` admits for the channel binds only, comes back cut off, and fails the comparison
in the first round trip.

## Main results

* `Inv.of_step`, `Inv.cancel`: every event keeps the invariant
* `Inv.exists_step`: some goroutine can go on until the session has come to its end
* `completes`: a session comes to its end, with the result that its payload size determines
* `fails_only_if_done`: a session with a payload that fits fails only if its context is done
-/

namespace BatchUDP

namespace Pingpong

open Go ChannelBind Machine

namespace Session

section Runs

variable {cfg : Config} {s s' : Session} {e : Event} {rand rand' : Bool}

/-- The client does not touch the context. -/
theorem ctx_of_stepMain {pick : Bool} (he : stepMain cfg s pick = some s') : s'.ctx = s.ctx := by
  unfold stepMain awaitReply at he
  grind [Option.map_eq_some_iff]

/-- **Every step of a goroutine** keeps the invariant and lowers the rank. -/
theorem Inv.of_step (h : s.Inv cfg) {o : Unit} (he : step cfg s e = some (s', o))
    (hstep : e.isStep = true) : s'.Inv cfg ∧ s'.ctx = s.ctx ∧ rank cfg s' < rank cfg s := by
  cases e with
  | main pick =>
    obtain ⟨s₁, he₁, heq⟩ := Option.map_eq_some_iff.mp he
    obtain rfl := (Prod.mk.inj heq).1
    obtain ⟨hinv, hlt⟩ := h.of_stepMain he₁
    exact ⟨hinv, ctx_of_stepMain he₁, hlt⟩
  | loop g pick =>
    obtain ⟨s₁, he₁, heq⟩ := Option.map_eq_some_iff.mp he
    obtain rfl := (Prod.mk.inj heq).1
    have hk := h.keeps (loopMoves_of_stepLoop he₁)
    exact ⟨h.of_keeps hk, hk.ctx, hk.rank_lt⟩
  | done d => cases hstep

/-- The client is still in order when the context is done. -/
theorem MainOk.of_ctx {m : Main} (hm : s.MainOk cfg m) (hctx : s'.ctx ≠ none)
    (hcb : s'.clientBind = s.clientBind) (hsb : s'.serverBind = s.serverBind)
    (hchans : s'.chans = s.chans) (hloops : s'.loops = s.loops)
    (hrecv : s'.clientRecv = s.clientRecv) : s'.MainOk cfg m := by
  have hopen : s.Opened → s'.Opened := by simp [Opened, hcb, hsb]
  have hclosed : s.BothClosed → s'.BothClosed := by simp [BothClosed, hcb, hsb]
  have hflight : s'.inFlight = s.inFlight := by simp [inFlight, hchans, hloops, hrecv]
  have htoken (i : ℕ) : s.Token cfg i → s'.Token cfg i := by
    rintro ⟨hc, -⟩
    exact ⟨⟨hchans ▸ hc.chans, hloops ▸ hc.loops, hrecv ▸ hc.recv⟩, fun hn => absurd hn hctx⟩
  cases m with
  | send i st =>
    obtain ⟨ho, hi, hst | ⟨hst, ht⟩⟩ := hm
    · exact ⟨hopen ho, hi, .inl (hflight ▸ hst)⟩
    · exact ⟨hopen ho, hi, .inr ⟨hst, htoken i ht⟩⟩
  | await i => exact ⟨hopen hm.1, hm.2.1, htoken i hm.2.2⟩
  | closeClient => exact hm
  | closeServer => exact ⟨hm.1, hcb ▸ hm.2⟩
  | waitClient => exact ⟨hm.1, hclosed hm.2⟩
  | waitServer => exact ⟨hm.1, hclosed hm.2⟩
  | deferServer err => exact .inr (.inr hctx)
  | deferClient err => exact ⟨.inr (.inr hctx), hsb ▸ hm.2⟩
  | returned err => exact ⟨.inr (.inr hctx), hclosed hm.2⟩

theorem ctx_cancel_ne_none (s : Session) (d : Done) : (s.cancel d).ctx ≠ none := by
  unfold cancel
  cases s.ctx <;> simp

/-- The context may be done at any time. -/
theorem Inv.cancel (h : s.Inv cfg) (d : Done) : (s.cancel d).Inv cfg := by
  have hctx := ctx_cancel_ne_none s d
  exact ⟨h.client, h.server, h.endpoint, h.loops, h.alone, fun hn => absurd hn hctx,
    fun hn => absurd hn hctx, h.main.of_ctx hctx rfl rfl rfl rfl rfl⟩

theorem inv_start (hpos : 0 < cfg.roundTrips) : (start cfg rand rand').Inv cfg where
  client := ⟨false, rfl⟩
  server := ⟨false, rfl⟩
  endpoint := by cases rand <;> simp [start, NewChannelBinds, ChannelBind.Open, ParseEndpoint]
  loops := fun _ => by simp [start, LoopOk, newPacket, maxPacketBuffer, BatchSize]
  alone := by simp [start, inFlight, load, sumTasks, Loop.packets]
  groups := fun _ => ⟨rfl, rfl⟩
  running := fun _ _ _ => nofun
  main := by
    have hmain : (start cfg rand rand').main = .send 0 (.next [cfg.payload 0]) := by
      simp [start, nextTrip, hpos]
    rw [hmain]
    exact ⟨⟨by simp [start, ChannelBind.Open, ChannelBind.Closed],
      by simp [start, ChannelBind.Open, ChannelBind.Closed]⟩, .inl rfl, .inl ⟨.inl rfl, rfl⟩⟩

theorem rank_start (hpos : 0 < cfg.roundTrips) :
    rank cfg (start cfg rand rand') = 13 * cfg.roundTrips + 10 := by
  have hmain : (start cfg rand rand').main = .send 0 (.next [cfg.payload 0]) := by
    simp [start, nextTrip, hpos]
  have hrest : load weight (start cfg rand rand').chans +
      sumTasks (fun g => loopRank g ((start cfg rand rand').loops g)) = 4 := rfl
  simp only [rank, hmain, mainRank, sendRank, List.length_singleton]
  omega

/-- The session has come to its end: it has returned, and so have its receive loops. -/
def Finished (s : Session) : Prop := (∃ err, s.main = .returned err) ∧ ∀ g, s.loops g = .returned

/-- **Some goroutine can go on** until the session has come to its end. -/
theorem Inv.exists_step (h : s.Inv cfg) :
    s.Finished ∨ ∃ e s', e.isStep = true ∧ step cfg s e = some (s', ()) := by
  by_contra hstuck
  obtain ⟨hnot, hno⟩ := not_or.mp hstuck
  have hloop (g : Task) : s.stepLoop g false = none := by
    by_contra hne
    obtain ⟨s', he⟩ := Option.ne_none_iff_exists'.mp hne
    exact hno ⟨.loop g false, s', rfl, by simp [step, he]⟩
  have hmain : stepMain cfg s false = none := by
    by_contra hne
    obtain ⟨s', he⟩ := Option.ne_none_iff_exists'.mp hne
    exact hno ⟨.main false, s', rfl, by simp [step, he]⟩
  have hwaits (g : Task) := waits_of_stepLoop h.alone (hloop g)
  have hreturned (hclosed : s.BothClosed) (g : Task) : s.loops g = .returned := by
    refine (hwaits g).resolve_right fun hw => hw.2.1 ?_
    unfold bind
    split_ifs
    exacts [hclosed.2, hclosed.1]
  have hgroup (hclosed : s.BothClosed) (b : Bool) : s.groupReturned b = true := by
    cases b <;> simp [groupReturned, hreturned hclosed, Loop.isReturned]
  have hm := h.main
  unfold stepMain at hmain
  split at hmain
  · cases hmain
  · cases hmain
  · next i st hnone hsome hmain' =>
    rcases Sending.step_eq_none (Option.map_eq_none_iff.mp hmain) with
      ⟨err, rfl⟩ | ⟨ch, bc, bufs, rfl, hle⟩
    · cases err with
      | none => exact hnone rfl
      | some e => exact hsome e rfl
    · have := length_le_load s.chans ch
      have hf := h.alone
      simp only [inFlight] at hf
      simp only [chanSize] at hle
      omega
  · next i hmain' =>
    unfold awaitReply at hmain
    split at hmain
    · next hr hctx =>
      -- the packet in flight would have to be somewhere
      rw [hmain'] at hm
      obtain ⟨hopen, -, -, hone⟩ := hm
      have hidle (g : Task) : (s.loops g).packets = [] ∧ s.chans (s.fn g) = [] := by
        have hg : ¬ (s.bind g).Closed := by
          unfold bind
          split_ifs
          exacts [hopen.2, hopen.1]
        obtain ⟨⟨buf, hl⟩, -, hch⟩ := (hwaits g).resolve_left (h.running hctx g hg)
        exact ⟨by rw [hl]; rfl, hch⟩
      obtain ⟨c, hc⟩ := h.client
      obtain ⟨d, hd⟩ := h.server
      have hall := fun g => (hidle g).2
      have h₁ := hall .server4
      have h₂ := hall .server6
      have h₃ := hall .client4
      have h₄ := hall .client6
      simp only [fn, hc, hd, opened, NewChannelBinds] at h₁ h₂ h₃ h₄
      have hf := hone hctx
      simp [inFlight, load, sumTasks, h₁, h₂, h₃, h₄, hr, fun g => (hidle g).1] at hf
    · cases hmain
    · cases hmain
    · split_ifs at hmain
  · cases hmain
  · cases hmain
  · next hmain' =>
    rw [hmain'] at hm
    rw [if_pos (hgroup hm.2 false)] at hmain
    split at hmain <;> cases hmain
  · next hmain' =>
    rw [hmain'] at hm
    rw [if_pos (hgroup hm.2 true)] at hmain
    cases hmain
  · cases hmain
  · cases hmain
  · next err hmain' =>
    rw [hmain'] at hm
    exact hnot ⟨⟨err, hmain'⟩, hreturned hm.2⟩

/-- **A session comes to its end.** Its goroutines may run in any order: unless its context is done,
a session takes at most 13 steps for each round trip and ten more, some goroutine can go on until
all have returned, and the session succeeds iff a payload fits the buffers of the receive loops. -/
theorem completes (hpos : 0 < cfg.roundTrips) {events : List Event}
    (hsteps : ∀ e ∈ events, e.isStep = true)
    (hrun : RunsTo (step cfg) (start cfg rand rand') events s) :
    events.length ≤ 13 * cfg.roundTrips + 10 ∧
      (s.Finished ∨ ∃ e s', e.isStep = true ∧ step cfg s e = some (s', ())) ∧
      ∀ err, s.main = .returned err →
        err = if cfg.payloadSize ≤ maxUDPPayload then none else some (errMismatch cfg 0) := by
  have hkeep : ∀ s e s' o, (s.Inv cfg ∧ s.ctx = none) → e.isStep = true →
      step cfg s e = some (s', o) → (s'.Inv cfg ∧ s'.ctx = none) ∧ rank cfg s' < rank cfg s := by
    rintro s e s' o ⟨hs, hctx⟩ hok he
    obtain ⟨hs', hctx', hlt⟩ := hs.of_step he hok
    exact ⟨⟨hs', hctx'.trans hctx⟩, hlt⟩
  have hstart : (start cfg rand rand').Inv cfg ∧ (start cfg rand rand').ctx = none :=
    ⟨inv_start hpos, rfl⟩
  obtain ⟨hinv, hctx⟩ :=
    hrun.invariant (fun s e s' o h hok he => (hkeep s e s' o h hok he).1) hstart hsteps
  refine ⟨?_, hinv.exists_step, fun err hmain => ?_⟩
  · have := hrun.length_add_rank_le hkeep hstart hsteps
    rw [rank_start hpos] at this
    omega
  · have hm := hinv.main
    rw [hmain] at hm
    rcases hm.1 with ⟨rfl, hfits⟩ | ⟨rfl, hfits⟩ | hne
    · exact (if_pos hfits).symm
    · exact (if_neg hfits).symm
    · exact absurd hctx hne

/-- One round trip of the smallest payload. -/
def smallest : Config := ⟨16, 1, 0, le_rfl⟩

/-- A run of that session: the client sends, a loop of the server replies, a loop of the client
passes on the reply, and everything is closed. -/
def oneTrip : List Event :=
  List.replicate 4 (.main false) ++ List.replicate 6 (.loop .server4 false) ++
    List.replicate 2 (.loop .client6 false) ++ List.replicate 3 (.main false) ++
    [.loop .client4 false, .loop .client6 false, .main false, .loop .server4 false,
      .loop .server6 false, .main false, .main false, .main false]

/-- The run takes all the steps that it can take. -/
theorem completes_smallest :
    ∃ s, RunsTo (step smallest) (start smallest true true) oneTrip s ∧ s.main = .returned none ∧
      oneTrip.length = 23 ∧ oneTrip.length ≤ 13 * smallest.roundTrips + 10 := by
  have he : ((runs (step smallest) (start smallest true true) oneTrip).map Session.main) =
      some (.returned none) := by
    decide +kernel
  obtain ⟨s, hs, hmain⟩ := Option.map_eq_some_iff.mp he
  have hrun := runsTo_of_runs hs
  exact ⟨s, hrun, hmain, rfl, (completes (by decide) (by decide) hrun).1⟩

/-- **A session fails only if its context is done**, whenever that happens, if a payload fits the
buffers of the receive loops: the client never sees another reply than that to its last payload. -/
theorem fails_only_if_done (hpos : 0 < cfg.roundTrips) (hfits : cfg.payloadSize ≤ maxUDPPayload)
    {events : List Event} (hrun : RunsTo (step cfg) (start cfg rand rand') events s) :
    (∀ i, s.main = .await i → ∀ reply ∈ s.clientRecv, reply = cfg.payload i) ∧
      ∀ err, s.main = .returned (some err) → s.ctx ≠ none := by
  have hinv : s.Inv cfg := by
    have hstep : ∀ s e s' o, Inv cfg s → True → step cfg s e = some (s', o) → Inv cfg s' := by
      intro s e s' o h _ he
      cases e with
      | main pick => exact (h.of_step he rfl).1
      | loop g pick => exact (h.of_step he rfl).1
      | done d =>
        obtain ⟨rfl, -⟩ := Prod.mk.inj (Option.some.inj he)
        exact h.cancel d
    exact hrun.invariant hstep (inv_start hpos) fun _ _ => trivial
  have hm := hinv.main
  constructor
  · intro i hmain reply hreply
    rw [hmain] at hm
    obtain ⟨-, -, hcarries, -⟩ := hm
    rw [hcarries.recv reply hreply]
    exact (cfg.reply_eq_payload_iff i).mpr hfits
  · intro err hmain
    rw [hmain] at hm
    rcases hm.1 with ⟨hn, -⟩ | ⟨-, hn⟩ | hctx
    · cases hn
    · exact absurd hfits hn
    · exact hctx

/-- The deadline passes while the reply is on its way. -/
def deadlinePassed : List Event :=
  List.replicate 4 (.main false) ++ [.loop .server4 false, .done .deadline] ++
    List.replicate 3 (.main false)

/-- The session fails then, and its context is done. -/
theorem fails_only_if_done_deadline :
    ∃ s, RunsTo (step smallest) (start smallest true true) deadlinePassed s ∧
      s.main = .returned (some errDeadlineExceeded) ∧ s.ctx ≠ none := by
  have he : ((runs (step smallest) (start smallest true true) deadlinePassed).map Session.main) =
      some (.returned (some errDeadlineExceeded)) := by
    decide +kernel
  obtain ⟨s, hs, hmain⟩ := Option.map_eq_some_iff.mp he
  have hrun := runsTo_of_runs hs
  exact ⟨s, hrun, hmain, (fails_only_if_done (by decide) (by decide) hrun).2 _ hmain⟩

end Runs

end Session

end Pingpong

end BatchUDP
