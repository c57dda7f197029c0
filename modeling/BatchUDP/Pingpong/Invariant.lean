import BatchUDP.Pingpong.Steps

/-!
# What holds of every state of a session

There is at most one packet in flight, which belongs to the round trip that the client is in. Every
step of a goroutine lowers a rank, in which a packet counts for the steps that it can still cause.

## Main definitions

* `rank cfg s`: how many steps a session can take at most
* `Carries cfg i s`: the packets in flight belong to round trip `i`
* `Inv cfg s`: what holds of every state of a session

## Main results

* `Inv.keeps`, `Inv.of_keeps`: what a step of a receive loop keeps
* `Inv.of_stepMain`: what a step of the client keeps
-/

namespace BatchUDP

namespace Pingpong

open Go ChannelBind

/-- A payload fits the buffers of the receive loops. -/
def Config.Fits (cfg : Config) : Prop := cfg.payloadSize ≤ maxUDPPayload

instance (cfg : Config) : Decidable cfg.Fits := inferInstanceAs (Decidable (_ ≤ _))

/-- The reply to the payload of a round trip. -/
def Config.reply (cfg : Config) (i : ℕ) : List UInt8 := (cfg.payload i).take maxUDPPayload

theorem Config.reply_eq_payload_iff (cfg : Config) (i : ℕ) :
    cfg.reply i = cfg.payload i ↔ cfg.Fits := by
  rw [reply, List.take_eq_self_iff, length_payload, Fits]

theorem Config.reply_ne_nil (cfg : Config) (i : ℕ) : cfg.reply i ≠ [] := by
  have hsize := cfg.payload_le
  rw [reply, ne_eq, List.take_eq_nil_iff, ← List.length_eq_zero_iff, length_payload, maxUDPPayload]
  omega

/-- A bind of the pair that has been opened. -/
def opened (c : ChannelBind) (closed : Bool) : ChannelBind := { c with closeSignal := some closed }

@[simp] theorem Close_opened (c : ChannelBind) (closed : Bool) :
    (opened c closed).Close = opened c true := rfl

@[simp] theorem Closed_opened (c : ChannelBind) (closed : Bool) :
    (opened c closed).Closed ↔ closed = true := by
  simp [ChannelBind.Closed, opened]

namespace Session

/-! ## The rank -/

/-- What a packet can still cause, by the channel that it is in: two steps in a channel of the
client, and six more in one of the server, which replies to it. -/
def weight : Chan → ℕ
  | .arx4 | .arx6 => 2
  | .brx4 | .brx6 => 8

/-- What a call of `Send` can still cause, if a packet that it sends can cause `w` steps. -/
def sendRank (w : ℕ) : Sending → ℕ
  | .next bufs => (w + 2) * bufs.length + 2
  | .push _ _ bufs => (w + 2) * bufs.length + w + 3
  | .done _ => 1

/-- What a receive loop can still cause with the packets that it has. -/
def loopRank (g : Task) : Loop → ℕ
  | .receiving _ => 1
  | .handling _ _ _ => if g.isServer then 8 else 2
  | .sending _ st _ => sendRank 2 st + 1
  | .returned => 0

/-- What `runSession` can still cause. A round trip takes 13 steps. -/
def mainRank (cfg : Config) : Main → ℕ
  | .send i st => 13 * (cfg.roundTrips - i - 1) + 7 + sendRank 8 st
  | .await i => 13 * (cfg.roundTrips - i - 1) + 7
  | .closeClient => 6
  | .closeServer => 5
  | .waitClient => 4
  | .waitServer => 3
  | .deferServer _ => 2
  | .deferClient _ => 1
  | .returned _ => 0

/-- How many steps a session can take at most. -/
def rank (cfg : Config) (s : Session) : ℕ :=
  mainRank cfg s.main + load weight s.chans + sumTasks (fun g => loopRank g (s.loops g))

/-! ## The invariant -/

/-- A receive loop is in order: its buffer has the size of a payload, replies of the server go to
the channel of the client that its endpoint names, and they fail only if the server is closed. -/
def LoopOk (s : Session) (g : Task) : Loop → Prop
  | .receiving buf => buf.len = maxUDPPayload
  | .handling buf _ ep => buf.len = maxUDPPayload ∧ (g.isServer = true → ep = ⟨4⟩)
  | .sending buf st ep => buf.len = maxUDPPayload ∧ g.isServer = true ∧ ep = ⟨4⟩ ∧
    (∀ ch bc bufs, st = .push ch bc bufs → ch = .arx6) ∧
    ∀ e, st = .done (some e) → e = errClosed ∧ s.serverBind.Closed
  | .returned => True

/-- The packets in flight belong to a round trip: they are its payload or its reply. -/
structure Carries (cfg : Config) (i : ℕ) (s : Session) : Prop where
  chans : ∀ ch, ∀ p ∈ s.chans ch, p.take maxUDPPayload = cfg.reply i
  loops : ∀ g, ∀ p ∈ (s.loops g).packets, p = cfg.reply i
  recv : ∀ p ∈ s.clientRecv, p = cfg.reply i

/-- The packet of a round trip is on its way. It can get lost only if the context is done. -/
def Token (cfg : Config) (i : ℕ) (s : Session) : Prop :=
  s.Carries cfg i ∧ (s.ctx = none → s.inFlight = 1)

/-- Neither bind is closed. -/
def Opened (s : Session) : Prop := ¬ s.clientBind.Closed ∧ ¬ s.serverBind.Closed

/-- Both binds are closed. -/
def BothClosed (s : Session) : Prop := s.clientBind.Closed ∧ s.serverBind.Closed

/-- What a session can return. -/
def Result (cfg : Config) (s : Session) (err : Option Error) : Prop :=
  err = none ∧ cfg.Fits ∨ err = some (errMismatch cfg 0) ∧ ¬ cfg.Fits ∨ s.ctx ≠ none

/-- The client is in order, where it is. -/
def MainOk (cfg : Config) (s : Session) : Main → Prop
  | .send i st => s.Opened ∧ (i = 0 ∨ cfg.Fits) ∧
    ((st = .next [cfg.payload i] ∨ ∃ ch, (ch = .brx4 ∨ ch = .brx6) ∧
        st = .push ch (cfg.payload i) []) ∧ s.inFlight = 0 ∨
      (st = .next [] ∨ st = .done none) ∧ s.Token cfg i)
  | .await i => s.Opened ∧ (i = 0 ∨ cfg.Fits) ∧ s.Token cfg i
  | .closeClient => cfg.Fits
  | .closeServer => cfg.Fits ∧ s.clientBind.Closed
  | .waitClient | .waitServer => cfg.Fits ∧ s.BothClosed
  | .deferServer err => s.Result cfg err
  | .deferClient err => s.Result cfg err ∧ s.serverBind.Closed
  | .returned err => s.Result cfg err ∧ s.BothClosed

/-- What holds of every state of a session. -/
structure Inv (cfg : Config) (s : Session) : Prop where
  client : ∃ closed, s.clientBind = opened NewChannelBinds.1 closed
  server : ∃ closed, s.serverBind = opened NewChannelBinds.2 closed
  endpoint : s.serverEndpoint = ⟨1⟩ ∨ s.serverEndpoint = ⟨3⟩
  loops : ∀ g, s.LoopOk g (s.loops g)
  alone : s.inFlight ≤ 1
  groups : s.ctx = none → s.clientGroup = .new ∧ s.serverGroup = .new
  running : s.ctx = none → ∀ g, ¬ (s.bind g).Closed → s.loops g ≠ .returned
  main : s.MainOk cfg s.main

section Loops

variable {cfg : Config} {s s' : Session} {g : Task} {i : ℕ}

theorem Inv.weight_fn (h : s.Inv cfg) (g : Task) :
    weight (s.fn g) = if g.isServer then 8 else 2 := by
  obtain ⟨c, hc⟩ := h.client
  obtain ⟨d, hd⟩ := h.server
  cases g <;> simp [fn, hc, hd, opened, NewChannelBinds, weight, Task.isServer]

theorem Inv.target6 (h : s.Inv cfg) (hg : g.isServer = true) : (s.bind g).target6 = ⟨4⟩ := by
  obtain ⟨d, hd⟩ := h.server
  simp [bind, hg, hd, opened, NewChannelBinds]

theorem Inv.tx_server (h : s.Inv cfg) : s.serverBind.tx ⟨4⟩ = some .arx6 := by
  obtain ⟨d, hd⟩ := h.server
  rw [hd]
  rfl

/-- What a step of a receive loop keeps. -/
structure Keeps (cfg : Config) (s s' : Session) : Prop where
  clientBind : s'.clientBind = s.clientBind
  serverBind : s'.serverBind = s.serverBind
  endpoint : s'.serverEndpoint = s.serverEndpoint
  ctx : s'.ctx = s.ctx
  main : s'.main = s.main
  loops : ∀ g, s'.LoopOk g (s'.loops g)
  inFlight_le : s'.inFlight ≤ s.inFlight
  rank_lt : rank cfg s' < rank cfg s
  carries : ∀ i, s.Carries cfg i → s'.Carries cfg i
  inFlight_eq : ∀ i, s.ctx = none → s.Opened → s.Carries cfg i → s'.inFlight = s.inFlight
  groups : s.ctx = none → s'.clientGroup = s.clientGroup ∧ s'.serverGroup = s.serverGroup
  running : s.ctx = none → ∀ g, ¬ (s.bind g).Closed → s.loops g ≠ .returned →
    s'.loops g ≠ .returned

/-- A loop that moves on, with the packets that are in flight then. -/
theorem Inv.keeps_setLoop (h : s.Inv cfg) {l : Loop} {chans : Chans} {recv : List (List UInt8)}
    (hret : l ≠ .returned) (hok : s.LoopOk g l)
    (hle : load (fun _ => 1) chans + l.packets.length + recv.length ≤
      load (fun _ => 1) s.chans + (s.loops g).packets.length + s.clientRecv.length)
    (hlt : load weight chans + loopRank g l < load weight s.chans + loopRank g (s.loops g))
    (hcarries : ∀ i, s.Carries cfg i → (∀ ch, ∀ p ∈ chans ch, p.take maxUDPPayload = cfg.reply i) ∧
      (∀ p ∈ l.packets, p = cfg.reply i) ∧ ∀ p ∈ recv, p = cfg.reply i)
    (heq : ∀ i, s.Opened → s.Carries cfg i →
      load (fun _ => 1) chans + l.packets.length + recv.length =
        load (fun _ => 1) s.chans + (s.loops g).packets.length + s.clientRecv.length) :
    Keeps cfg s { s.setLoop g l with chans := chans, clientRecv := recv } := by
  have hpackets := sumTasks_update (fun _ l => l.packets.length) s.loops g l
  have hrank := sumTasks_update loopRank s.loops g l
  refine ⟨rfl, rfl, rfl, rfl, rfl, ?_, ?_, ?_, ?_, ?_, fun _ => ⟨rfl, rfl⟩, ?_⟩
  · exact forall_update_loops (P := s.LoopOk) h.loops hok
  · simp only [inFlight, setLoop]
    omega
  · simp only [rank, setLoop]
    omega
  · intro i hc
    obtain ⟨h₁, h₂, h₃⟩ := hcarries i hc
    exact ⟨h₁, forall_update_loops (P := fun _ l => ∀ p ∈ l.packets, p = cfg.reply i) hc.loops h₂,
      h₃⟩
  · intro i _ hopen hc
    have := heq i hopen hc
    simp only [inFlight, setLoop]
    omega
  · intro _ g' _ hg'
    by_cases he : g' = g
    · subst he
      simpa [setLoop] using hret
    · simpa [setLoop, he] using hg'

/-- A loop that returns. If the context is not done, it returns without an error, and because its
bind is closed. -/
theorem Inv.keeps_exit (h : s.Inv cfg) {err : Option Error} (hret : s.loops g ≠ .returned)
    (hend : s.ctx = none → err = none ∧ (s.bind g).Closed) : Keeps cfg s (s.exit g err) := by
  have hpackets := sumTasks_update (fun _ l => l.packets.length) s.loops g .returned
  have hrank := sumTasks_update loopRank s.loops g .returned
  have hpos : 0 < loopRank g (s.loops g) := by
    cases hl : s.loops g <;> simp_all [loopRank]
    split_ifs <;> omega
  have hexit : ∃ cg sg, s.exit g err = { s.setLoop g .returned with
      clientGroup := cg, serverGroup := sg } ∧
      (s.ctx = none → cg = s.clientGroup ∧ sg = s.serverGroup) := by
    unfold exit
    split_ifs
    · exact ⟨_, _, rfl, fun hctx => ⟨rfl, by rw [(hend hctx).1]; rfl⟩⟩
    · exact ⟨_, _, rfl, fun hctx => ⟨by rw [(hend hctx).1]; rfl, rfl⟩⟩
  obtain ⟨cg, sg, hexit, hgroups⟩ := hexit
  rw [hexit]
  refine ⟨rfl, rfl, rfl, rfl, rfl, ?_, ?_, ?_, ?_, ?_, hgroups, ?_⟩
  · exact forall_update_loops (P := s.LoopOk) h.loops trivial
  · simp only [inFlight, setLoop]
    have hnil : Loop.returned.packets.length = 0 := rfl
    omega
  · simp only [rank, setLoop]
    have hzero : loopRank g .returned = 0 := rfl
    omega
  · intro i hc
    exact ⟨hc.chans, forall_update_loops (P := fun _ l => ∀ p ∈ l.packets, p = cfg.reply i) hc.loops
      (by simp [Loop.packets]), hc.recv⟩
  · intro i hctx hopen _
    refine absurd (hend hctx).2 ?_
    unfold bind
    split_ifs
    exacts [hopen.2, hopen.1]
  · intro hctx g' hg' hrun
    by_cases he : g' = g
    · subst he
      exact absurd (hend hctx).2 hg'
    · simpa [setLoop, he] using hrun

/-- A loop that takes a packet from its channel cuts it to the size of its buffer. -/
theorem Inv.keeps_took (h : s.Inv cfg) {buf : Slice UInt8} {rx : List UInt8}
    {rest : List (List UInt8)} (hl : s.loops g = .receiving buf)
    (hch : s.chans (s.fn g) = rx :: rest) :
    Keeps cfg s { s.setLoop g (if buf.copied rx = 0 then .receiving (buf.copy rx)
        else .handling (buf.copy rx) (rx.take buf.len) (s.bind g).target6) with
      chans := Function.update s.chans (s.fn g) rest } := by
  have hbuf : buf.len = maxUDPPayload := by
    have := h.loops g
    rwa [hl] at this
  have hones := load_update (fun _ => 1) s.chans (s.fn g) rest
  have hweights := load_update weight s.chans (s.fn g) rest
  rw [h.weight_fn, hch, List.length_cons] at hweights
  rw [hch, List.length_cons] at hones
  have hchans : ∀ i, s.Carries cfg i → ∀ ch, ∀ p ∈ Function.update s.chans (s.fn g) rest ch,
      p.take maxUDPPayload = cfg.reply i := by
    intro i hc
    refine forall_mem_update (P := fun p => p.take maxUDPPayload = cfg.reply i) hc.chans ?_
    exact fun p hp => hc.chans (s.fn g) p (hch ▸ List.mem_cons_of_mem rx hp)
  have hcopied : ∀ i, s.Carries cfg i → buf.copied rx ≠ 0 := by
    intro i hc hzero
    have hrx : rx.take maxUDPPayload = cfg.reply i :=
      hc.chans (s.fn g) rx (hch ▸ List.mem_cons_self)
    refine cfg.reply_ne_nil i ?_
    rw [← hrx, ← hbuf, ← List.length_eq_zero_iff, List.length_take]
    exact hzero
  split_ifs with hzero
  · refine h.keeps_setLoop nofun ?_ ?_ ?_ ?_ ?_
    · simpa [LoopOk] using hbuf
    · simp only [hl, Loop.packets, List.length_nil, clientRecv_setLoop]
      omega
    · simp only [hl, loopRank]
      split_ifs at hweights <;> omega
    · exact fun i hc => absurd hzero (hcopied i hc)
    · exact fun i _ hc => absurd hzero (hcopied i hc)
  · refine h.keeps_setLoop nofun ?_ ?_ ?_ ?_ ?_
    · exact ⟨by simpa using hbuf, fun hg => h.target6 hg⟩
    · simp only [hl, Loop.packets, List.length_nil, List.length_singleton, clientRecv_setLoop]
      omega
    · simp only [hl, loopRank]
      split_ifs at hweights ⊢ <;> omega
    · intro i hc
      refine ⟨hchans i hc, ?_, hc.recv⟩
      rintro p hp
      rw [List.mem_singleton.mp hp, hbuf]
      exact hc.chans (s.fn g) rx (hch ▸ List.mem_cons_self)
    · intro i _ _
      simp only [hl, Loop.packets, List.length_nil, List.length_singleton, clientRecv_setLoop]
      omega

/-- A step of the `Send` of a server loop. -/
theorem Inv.keeps_sends (h : s.Inv cfg) {buf : Slice UInt8} {st st' : Sending}
    {ep : ChannelEndpoint} {chans : Chans} (hl : s.loops g = .sending buf st ep)
    (he : st.step (s.bind g) ep s.chans = some (st', chans)) :
    Keeps cfg s { s.setLoop g (.sending buf st' ep) with chans := chans } := by
  have hok := h.loops g
  rw [hl] at hok
  obtain ⟨hbuf, hg, rfl, hpush, -⟩ := hok
  have hbind : s.bind g = s.serverBind := by simp [bind, hg]
  have hne : Loop.sending buf st' ⟨4⟩ ≠ .returned := nofun
  rw [hbind] at he
  rcases Sending.cases_of_step he with ⟨bufs, err, rfl, rfl, rfl, herr⟩ |
      ⟨b, bufs, ch, rfl, hch, rfl, rfl⟩ | ⟨ch, bc, bufs, rfl, rfl, rfl⟩
  · have hclosed : ∀ e, err = some e → e = errClosed ∧ s.serverBind.Closed := by
      rintro e rfl
      rcases herr with ⟨-, hn⟩ | ⟨hc, he⟩ | ⟨htx, -⟩
      · cases hn
      · exact ⟨Option.some.inj he, hc⟩
      · rw [h.tx_server] at htx
        cases htx
    refine h.keeps_setLoop hne ⟨hbuf, hg, rfl, nofun, ?_⟩ ?_ ?_ ?_ ?_
    · rintro e ⟨⟩
      exact hclosed e rfl
    · simp [hl, Loop.packets]
    · simp only [hl, loopRank, sendRank]
      omega
    · exact fun i hc => ⟨hc.chans, by simp [Loop.packets], hc.recv⟩
    · intro i hopen _
      rcases herr with ⟨rfl, -⟩ | ⟨hc, -⟩ | ⟨htx, -⟩
      · simp [hl, Loop.packets]
      · exact absurd hc hopen.2
      · rw [h.tx_server] at htx
        cases htx
  · rw [h.tx_server] at hch
    obtain rfl := Option.some.inj hch
    refine h.keeps_setLoop hne ⟨hbuf, hg, rfl, ?_, nofun⟩ ?_ ?_ ?_ ?_
    · rintro _ _ _ ⟨⟩
      rfl
    · simp [hl, Loop.packets]
    · simp only [hl, loopRank, sendRank, List.length_cons]
      omega
    · intro i hc
      have := hc.loops g
      rw [hl] at this
      exact ⟨hc.chans, this, hc.recv⟩
    · simp [hl, Loop.packets]
  · obtain rfl := hpush ch bc bufs rfl
    have hones := load_update (fun _ => 1) s.chans .arx6 (s.chans .arx6 ++ [bc])
    have hweights := load_update weight s.chans .arx6 (s.chans .arx6 ++ [bc])
    rw [List.length_append, List.length_singleton] at hones hweights
    have hcount : load (fun _ => 1) (Function.update s.chans .arx6 (s.chans .arx6 ++ [bc])) +
        (Loop.sending buf (.next bufs) ⟨4⟩).packets.length + s.clientRecv.length =
        load (fun _ => 1) s.chans + (s.loops g).packets.length + s.clientRecv.length := by
      simp only [hl, Loop.packets, List.length_cons]
      omega
    refine h.keeps_setLoop hne ⟨hbuf, hg, rfl, nofun, nofun⟩ hcount.le ?_ ?_ fun _ _ _ => hcount
    · simp only [hl, loopRank, sendRank]
      simp only [weight] at hweights
      omega
    · intro i hc
      have hloop := hc.loops g
      rw [hl] at hloop
      obtain ⟨hbc, hbufs⟩ := List.forall_mem_cons.mp hloop
      refine ⟨?_, hbufs, hc.recv⟩
      refine forall_mem_update (P := fun p => p.take maxUDPPayload = cfg.reply i) hc.chans ?_
      refine List.forall_mem_append.mpr ⟨hc.chans .arx6, ?_⟩
      rintro p hp
      rw [List.mem_singleton.mp hp, hbc, Config.reply, List.take_take, min_self]

/-- **A step of a receive loop** keeps its loop in order, moves a packet on without making one up,
and loses one only if the context is done or a bind closed. -/
theorem Inv.keeps (h : s.Inv cfg) (hm : LoopMoves s g s') : Keeps cfg s s' := by
  have hok := h.loops g
  cases hm with
  | closed buf hl hc => exact h.keeps_exit (by simp [hl]) fun _ => ⟨rfl, hc⟩
  | took buf rx rest hl hch => exact h.keeps_took hl hch
  | replies buf packet ep hl hg =>
    rw [hl] at hok
    refine h.keeps_setLoop nofun ⟨hok.1, hg, hok.2 hg, nofun, nofun⟩ ?_ ?_ ?_ ?_
    · simp [hl, Loop.packets]
    · simp [hl, loopRank, sendRank, hg]
    · intro i hc
      have := hc.loops g
      rw [hl] at this
      exact ⟨hc.chans, this, hc.recv⟩
    · simp [hl, Loop.packets]
  | passed buf packet ep hl hg hr =>
    rw [hl] at hok
    refine h.keeps_setLoop nofun hok.1 ?_ ?_ ?_ ?_
    · simp [hl, hr, Loop.packets]
    · simp [hl, loopRank, hg]
    · intro i hc
      have := hc.loops g
      rw [hl] at this
      exact ⟨hc.chans, by simp [Loop.packets], this⟩
    · simp [hl, hr, Loop.packets]
  | gaveUp buf packet ep d hl hg hd =>
    refine h.keeps_exit (by simp [hl]) fun hctx => ?_
    rw [(h.groups hctx).1] at hd
    cases hd
  | sends buf st st' ep chans hl he => exact h.keeps_sends hl he
  | sent buf ep hl =>
    rw [hl] at hok
    refine h.keeps_setLoop nofun hok.1 ?_ ?_ ?_ ?_
    · simp [hl, Loop.packets]
    · simp [hl, loopRank, sendRank]
    · exact fun i hc => ⟨hc.chans, by simp [Loop.packets], hc.recv⟩
    · simp [hl, Loop.packets]
  | failed buf e ep hl =>
    rw [hl] at hok
    obtain ⟨-, hg, -, -, hfail⟩ := hok
    obtain ⟨rfl, hc⟩ := hfail e rfl
    exact h.keeps_exit (by simp [hl]) fun _ => ⟨rfl, by simpa [bind, hg] using hc⟩

/-- The client is still in order behind a step of a receive loop. -/
theorem MainOk.of_keeps (hk : Keeps cfg s s') {m : Main} (h : s.MainOk cfg m) :
    s'.MainOk cfg m := by
  have hopen : s.Opened → s'.Opened := by simp [Opened, hk.clientBind, hk.serverBind]
  have hclosed : s.BothClosed → s'.BothClosed := by simp [BothClosed, hk.clientBind, hk.serverBind]
  have htoken (i : ℕ) (ho : s.Opened) : s.Token cfg i → s'.Token cfg i := by
    rintro ⟨hc, hone⟩
    refine ⟨hk.carries i hc, fun hctx => ?_⟩
    rw [hk.ctx] at hctx
    rw [hk.inFlight_eq i hctx ho hc, hone hctx]
  have hresult (err : Option Error) : s.Result cfg err → s'.Result cfg err := by
    simp [Result, hk.ctx]
  cases m with
  | send i st =>
    obtain ⟨ho, hi, ⟨hst, hzero⟩ | ⟨hst, ht⟩⟩ := h
    · exact ⟨hopen ho, hi, .inl ⟨hst, Nat.eq_zero_of_le_zero (hzero ▸ hk.inFlight_le)⟩⟩
    · exact ⟨hopen ho, hi, .inr ⟨hst, htoken i ho ht⟩⟩
  | await i => exact ⟨hopen h.1, h.2.1, htoken i h.1 h.2.2⟩
  | closeClient => exact h
  | closeServer => exact ⟨h.1, hk.clientBind ▸ h.2⟩
  | waitClient => exact ⟨h.1, hclosed h.2⟩
  | waitServer => exact ⟨h.1, hclosed h.2⟩
  | deferServer err => exact hresult err h
  | deferClient err => exact ⟨hresult err h.1, hk.serverBind ▸ h.2⟩
  | returned err => exact ⟨hresult err h.1, hclosed h.2⟩

/-- A step of a receive loop keeps the invariant. -/
theorem Inv.of_keeps (h : s.Inv cfg) (hk : Keeps cfg s s') : s'.Inv cfg where
  client := hk.clientBind ▸ h.client
  server := hk.serverBind ▸ h.server
  endpoint := hk.endpoint ▸ h.endpoint
  loops := hk.loops
  alone := hk.inFlight_le.trans h.alone
  groups := fun hctx => by
    rw [hk.ctx] at hctx
    rw [(hk.groups hctx).1, (hk.groups hctx).2]
    exact h.groups hctx
  running := fun hctx g hg => by
    rw [hk.ctx] at hctx
    have hg' : ¬ (s.bind g).Closed := by
      simpa [bind, hk.clientBind, hk.serverBind] using hg
    exact hk.running hctx g hg' (h.running hctx g hg')
  main := hk.main ▸ h.main.of_keeps hk

end Loops

/-! ## The steps of the client -/

section Client

variable {cfg : Config} {s s' : Session} {i : ℕ} {pick : Bool}

theorem Inv.exists_tx_client (h : s.Inv cfg) :
    ∃ ch, (ch = .brx4 ∨ ch = .brx6) ∧ s.clientBind.tx s.serverEndpoint = some ch := by
  obtain ⟨c, hc⟩ := h.client
  rw [hc]
  rcases h.endpoint with he | he
  · exact ⟨.brx4, .inl rfl, by rw [he]; rfl⟩
  · exact ⟨.brx6, .inr rfl, by rw [he]; rfl⟩

/-- If nothing is in flight, then what is in flight belongs to any round trip. -/
theorem carries_of_inFlight_eq_zero (h : s.inFlight = 0) : s.Carries cfg i := by
  simp only [inFlight] at h
  refine ⟨fun ch p hp => ?_, fun g p hp => ?_, fun p hp => ?_⟩
  · have := length_le_load s.chans ch
    have := List.length_pos_of_mem hp
    omega
  · have : (s.loops g).packets.length ≤ _ :=
      le_sumTasks (fun g => (s.loops g).packets.length) g
    have := List.length_pos_of_mem hp
    omega
  · have := List.length_pos_of_mem hp
    omega

/-- A step of the client keeps the invariant, if it leaves the client in order and no second packet
in flight. -/
theorem Inv.of_client (h : s.Inv cfg) {cb sb : ChannelBind} {chans : Chans}
    {recv : List (List UInt8)} {m : Main}
    (hcb : cb = s.clientBind ∨ cb = s.clientBind.Close)
    (hsb : sb = s.serverBind ∨ sb = s.serverBind.Close)
    (hf : load (fun _ => 1) chans + sumTasks (fun g => (s.loops g).packets.length) +
      recv.length ≤ 1)
    (hm : MainOk cfg { s with
      clientBind := cb, serverBind := sb, chans := chans, clientRecv := recv, main := m } m) :
    Inv cfg { s with
      clientBind := cb, serverBind := sb, chans := chans, clientRecv := recv, main := m } := by
  obtain ⟨c, hc⟩ := h.client
  obtain ⟨d, hd⟩ := h.server
  have hcb' : (∃ c, cb = opened NewChannelBinds.1 c) ∧ (s.clientBind.Closed → cb.Closed) := by
    rcases hcb with rfl | rfl <;> simp [hc]
  have hsb' : (∃ d, sb = opened NewChannelBinds.2 d) ∧ (s.serverBind.Closed → sb.Closed) := by
    rcases hsb with rfl | rfl <;> simp [hd]
  refine ⟨hcb'.1, hsb'.1, h.endpoint, fun g => ?_, hf, h.groups, fun hctx g hg => ?_, hm⟩
  · have := h.loops g
    generalize s.loops g = l at this
    cases l with
    | receiving buf => exact this
    | handling buf packet ep => exact this
    | sending buf st ep =>
      obtain ⟨h₁, h₂, h₃, h₄, h₅⟩ := this
      exact ⟨h₁, h₂, h₃, h₄, fun e he => ⟨(h₅ e he).1, hsb'.2 (h₅ e he).2⟩⟩
    | returned => trivial
  · refine h.running hctx g fun hg' => hg ?_
    unfold bind at hg' ⊢
    split_ifs at hg' ⊢
    exacts [hsb'.2 hg', hcb'.2 hg']

/-- The next round trip starts, or the client is behind its loop, with nothing in flight. -/
theorem mainOk_nextTrip (hopen : s.Opened) (hfits : cfg.Fits) (hf : s.inFlight = 0) (i : ℕ) :
    s.MainOk cfg (nextTrip cfg i) := by
  unfold nextTrip
  split_ifs
  · exact ⟨hopen, .inr hfits, .inl ⟨.inl rfl, hf⟩⟩
  · exact hfits

theorem mainRank_nextTrip_le (cfg : Config) (i : ℕ) :
    mainRank cfg (nextTrip cfg (i + 1)) < mainRank cfg (.await i) := by
  unfold nextTrip
  split_ifs
  · simp only [mainRank, sendRank, List.length_singleton]
    omega
  · simp only [mainRank]
    omega

/-- A step of the client inside its `Send`. -/
theorem Inv.of_send (h : s.Inv cfg) {st st' : Sending} {chans : Chans}
    (hmain : s.main = .send i st)
    (he : st.step s.clientBind s.serverEndpoint s.chans = some (st', chans)) :
    Inv cfg { s with main := .send i st', chans := chans } ∧
      rank cfg { s with main := .send i st', chans := chans } < rank cfg s := by
  have hm := h.main
  rw [hmain] at hm
  obtain ⟨hopen, hi, hst⟩ := hm
  obtain ⟨tx, htx, htx'⟩ := h.exists_tx_client
  have hf := h.alone
  simp only [inFlight] at hf
  rcases Sending.cases_of_step he with ⟨bufs, err, rfl, rfl, rfl, herr⟩ |
      ⟨b, bufs, ch, rfl, hch, rfl, rfl⟩ | ⟨ch, bc, bufs, rfl, rfl, rfl⟩
  · have hnil : bufs = [] ∧ err = none := by
      rcases herr with hnil | ⟨hc, -⟩ | ⟨hn, -⟩
      · exact hnil
      · exact absurd hc hopen.1
      · rw [htx'] at hn
        cases hn
    obtain ⟨rfl, rfl⟩ := hnil
    refine ⟨h.of_client (.inl rfl) (.inl rfl) hf ⟨hopen, hi, .inr ⟨.inr rfl, ?_⟩⟩, ?_⟩
    · rcases hst with ⟨hst | ⟨_, _, hst⟩, -⟩ | ⟨-, ht⟩
      · cases hst
      · cases hst
      · exact ⟨⟨ht.1.chans, ht.1.loops, ht.1.recv⟩, ht.2⟩
    · simp only [rank, hmain, mainRank, sendRank, List.length_nil]
      omega
  · obtain rfl := Option.some.inj (hch.symm.trans htx')
    rcases hst with ⟨hst | ⟨_, _, hst⟩, hzero⟩ | ⟨hst | hst, -⟩
    · obtain ⟨rfl, rfl⟩ := List.cons.inj (Sending.next.inj hst)
      refine ⟨h.of_client (.inl rfl) (.inl rfl) hf
        ⟨hopen, hi, .inl ⟨.inr ⟨ch, htx, rfl⟩, hzero⟩⟩, ?_⟩
      simp only [rank, hmain, mainRank, sendRank, List.length_cons]
      omega
    all_goals cases hst
  · rcases hst with ⟨hst | ⟨ch', hch', hst⟩, hzero⟩ | ⟨hst | hst, -⟩
    · cases hst
    · obtain ⟨rfl, rfl, rfl⟩ := Sending.push.inj hst
      have hones := load_update (fun _ => 1) s.chans ch (s.chans ch ++ [cfg.payload i])
      have hweights := load_update weight s.chans ch (s.chans ch ++ [cfg.payload i])
      rw [List.length_append, List.length_singleton] at hones hweights
      have hcarries := @carries_of_inFlight_eq_zero cfg s i hzero
      simp only [inFlight] at hzero
      have hone : load (fun _ => 1) (Function.update s.chans ch (s.chans ch ++ [cfg.payload i])) +
          sumTasks (fun g => (s.loops g).packets.length) + s.clientRecv.length = 1 := by omega
      refine ⟨h.of_client (.inl rfl) (.inl rfl) hone.le
        ⟨hopen, hi, .inr ⟨.inl rfl, ⟨?_, hcarries.loops, hcarries.recv⟩, fun _ => hone⟩⟩, ?_⟩
      · refine forall_mem_update (P := fun p => p.take maxUDPPayload = cfg.reply i)
          hcarries.chans ?_
        refine List.forall_mem_append.mpr ⟨hcarries.chans ch, ?_⟩
        rintro p hp
        rw [List.mem_singleton.mp hp, Config.reply]
      · have hw : weight ch = 8 := by rcases hch' with rfl | rfl <;> rfl
        rw [hw] at hweights
        simp only [rank, hmain, mainRank, sendRank]
        omega
    all_goals cases hst

/-- The client gives up because the context is done. -/
theorem Inv.of_await_done (h : s.Inv cfg) {d : Done} (hmain : s.main = .await i)
    (hd : s.ctx = some d) :
    Inv cfg { s with main := .deferServer (some d.cause) } ∧
      rank cfg { s with main := .deferServer (some d.cause) } < rank cfg s := by
  constructor
  · exact h.of_client (.inl rfl) (.inl rfl) h.alone (.inr (.inr (by simp [hd])))
  · simp only [rank, hmain, mainRank]
    omega

/-- The client compares a reply with the payload. -/
theorem Inv.of_compare (h : s.Inv cfg) {reply : List UInt8} {rest : List (List UInt8)}
    (hmain : s.main = .await i) (hr : s.clientRecv = reply :: rest) :
    Inv cfg { s with clientRecv := rest, main := compare cfg i reply } ∧
      rank cfg { s with clientRecv := rest, main := compare cfg i reply } < rank cfg s := by
  have hm := h.main
  rw [hmain] at hm
  obtain ⟨hopen, hi, hcarries, -⟩ := hm
  have hreply : reply = cfg.reply i := hcarries.recv reply (by simp [hr])
  have hf := h.alone
  simp only [inFlight, hr, List.length_cons] at hf
  have hzero : load (fun _ => 1) s.chans + sumTasks (fun g => (s.loops g).packets.length) +
      rest.length = 0 := by omega
  unfold compare
  split_ifs with heq
  · have hfits : cfg.Fits := (cfg.reply_eq_payload_iff i).mp (hreply ▸ heq)
    have hnext : MainOk cfg { s with clientRecv := rest, main := nextTrip cfg (i + 1) }
        (nextTrip cfg (i + 1)) :=
      mainOk_nextTrip (s := { s with clientRecv := rest, main := nextTrip cfg (i + 1) }) hopen hfits
        hzero (i + 1)
    refine ⟨h.of_client (.inl rfl) (.inl rfl) (by omega) hnext, ?_⟩
    have := mainRank_nextTrip_le cfg i
    simp only [rank, hmain]
    omega
  · have hfits : ¬ cfg.Fits := fun hfits => heq (hreply ▸ (cfg.reply_eq_payload_iff i).mpr hfits)
    obtain rfl := hi.resolve_right hfits
    refine ⟨h.of_client (.inl rfl) (.inl rfl) (by omega) (.inr (.inl ⟨rfl, hfits⟩)), ?_⟩
    simp only [rank, hmain, mainRank]
    omega

/-- **A step of the client** keeps the invariant and lowers the rank. -/
theorem Inv.of_stepMain (h : s.Inv cfg) (he : stepMain cfg s pick = some s') :
    s'.Inv cfg ∧ rank cfg s' < rank cfg s := by
  have hm := h.main
  obtain ⟨c, hc⟩ := h.client
  obtain ⟨d, hd⟩ := h.server
  have hclient : s.clientBind.Close.Closed := by simp [hc]
  have hserver : s.serverBind.Close.Closed := by simp [hd]
  unfold stepMain at he
  split at he
  · next i hmain =>
    obtain rfl := Option.some.inj he
    rw [hmain] at hm
    obtain ⟨hopen, hi, ⟨hst | ⟨_, _, hst⟩, -⟩ | ⟨-, ht⟩⟩ := hm
    · cases hst
    · cases hst
    · refine ⟨h.of_client (.inl rfl) (.inl rfl) h.alone
        ⟨hopen, hi, ⟨ht.1.chans, ht.1.loops, ht.1.recv⟩, ht.2⟩, ?_⟩
      simp only [rank, hmain, mainRank, sendRank]
      omega
  · next i e hmain =>
    rw [hmain] at hm
    obtain ⟨-, -, ⟨hst | ⟨_, _, hst⟩, -⟩ | ⟨hst | hst, -⟩⟩ := hm <;> cases hst
  · next i st _ _ hmain =>
    obtain ⟨⟨st', chans⟩, he', rfl⟩ := Option.map_eq_some_iff.mp he
    exact h.of_send hmain he'
  · next i hmain =>
    unfold awaitReply at he
    split at he
    · cases he
    · next d hr hctx =>
      obtain rfl := Option.some.inj he
      exact h.of_await_done hmain hctx
    · next reply rest hr hctx =>
      obtain rfl := Option.some.inj he
      exact h.of_compare hmain hr
    · next reply rest d hr hctx =>
      split_ifs at he
      · obtain rfl := Option.some.inj he
        exact h.of_await_done hmain hctx
      · obtain rfl := Option.some.inj he
        exact h.of_compare hmain hr
  · next hmain =>
    obtain rfl := Option.some.inj he
    rw [hmain] at hm
    refine ⟨h.of_client (.inr rfl) (.inl rfl) h.alone ⟨hm, hclient⟩, ?_⟩
    simp only [rank, hmain, mainRank]
    omega
  · next hmain =>
    obtain rfl := Option.some.inj he
    rw [hmain] at hm
    refine ⟨h.of_client (.inl rfl) (.inr rfl) h.alone ⟨hm.1, hm.2, hserver⟩, ?_⟩
    simp only [rank, hmain, mainRank]
    omega
  · next hmain =>
    rw [hmain] at hm
    split_ifs at he
    split at he
    · obtain rfl := Option.some.inj he
      refine ⟨h.of_client (.inl rfl) (.inl rfl) h.alone hm, ?_⟩
      simp only [rank, hmain, mainRank]
      omega
    · next e hwait =>
      obtain rfl := Option.some.inj he
      refine ⟨h.of_client (.inl rfl) (.inl rfl) h.alone (.inr (.inr fun hctx => ?_)), ?_⟩
      · rw [(h.groups hctx).1] at hwait
        cases hwait
      · simp only [rank, hmain, mainRank]
        omega
  · next hmain =>
    rw [hmain] at hm
    split_ifs at he
    obtain rfl := Option.some.inj he
    refine ⟨h.of_client (.inl rfl) (.inl rfl) h.alone ?_, ?_⟩
    · by_cases hctx : s.ctx = none
      · rw [(h.groups hctx).2]
        exact .inl ⟨rfl, hm.1⟩
      · exact .inr (.inr hctx)
    · simp only [rank, hmain, mainRank]
      omega
  · next err hmain =>
    obtain rfl := Option.some.inj he
    rw [hmain] at hm
    refine ⟨h.of_client (.inl rfl) (.inr rfl) h.alone ⟨hm, hserver⟩, ?_⟩
    simp only [rank, hmain, mainRank]
    omega
  · next err hmain =>
    obtain rfl := Option.some.inj he
    rw [hmain] at hm
    refine ⟨h.of_client (.inr rfl) (.inl rfl) h.alone ⟨hm.1, hclient, hm.2⟩, ?_⟩
    simp only [rank, hmain, mainRank]
    omega
  · cases he

end Client

end Session

end Pingpong

end BatchUDP
