import BatchUDP.Pingpong.Session

/-!
# The steps of a receive loop

A step of a receive loop takes a packet from its channel, passes it on, or ends the loop. Packets
are neither made up nor doubled: the number of packets in flight does not grow, and it only falls
when a packet is empty, the context is done, or the bind is closed.

## Main definitions

* `LoopMoves s g s'`: what a step of a receive loop does
* `inFlight s`: the number of packets between the client's `Send` and its comparison

## Main results

* `loopMoves_of_stepLoop`: a step of a receive loop is one of those
* `waits_of_stepLoop`: a receive loop has to wait only for packets
-/

namespace BatchUDP

namespace Pingpong

open Go ChannelBind

/-- The packets that a receive loop has. -/
def Loop.packets : Loop → List (List UInt8)
  | .receiving _ => []
  | .handling _ packet _ => [packet]
  | .sending _ (.next bufs) _ => bufs
  | .sending _ (.push _ bc bufs) _ => bc :: bufs
  | .sending _ (.done _) _ => []
  | .returned => []

/-- A sum over the tasks. -/
def sumTasks (f : Task → ℕ) : ℕ := f .server4 + f .server6 + f .client4 + f .client6

theorem sumTasks_update (f : Task → Loop → ℕ) (loops : Task → Loop) (g : Task) (l : Loop) :
    sumTasks (fun g' => f g' (Function.update loops g l g')) + f g (loops g) =
      sumTasks (fun g' => f g' (loops g')) + f g l := by
  cases g <;> simp only [sumTasks, Function.update_self, ne_eq, reduceCtorEq, not_false_eq_true,
    Function.update_of_ne] <;> omega

/-- What holds of all loops still does when one of them moves on to where it holds. -/
theorem forall_update_loops {P : Task → Loop → Prop} {loops : Task → Loop} (h : ∀ g, P g (loops g))
    {g : Task} {l : Loop} (hl : P g l) : ∀ g', P g' (Function.update loops g l g') :=
  (Function.forall_update_iff loops P).mpr ⟨hl, fun g _ => h g⟩

theorem le_sumTasks (f : Task → ℕ) (g : Task) : f g ≤ sumTasks f := by
  cases g <;> simp only [sumTasks] <;> omega

namespace Session

variable {s s' : Session} {g : Task} {pick : Bool}

@[simp] theorem clientRecv_setLoop (s : Session) (g : Task) (l : Loop) :
    (s.setLoop g l).clientRecv = s.clientRecv := rfl

@[simp] theorem chans_setLoop (s : Session) (g : Task) (l : Loop) :
    (s.setLoop g l).chans = s.chans := rfl

/-- What a step of a receive loop does. -/
inductive LoopMoves (s : Session) (g : Task) : Session → Prop where
  | closed (buf : Slice UInt8) (hl : s.loops g = .receiving buf) (hc : (s.bind g).Closed) :
      LoopMoves s g (s.exit g none)
  | took (buf : Slice UInt8) (rx : List UInt8) (rest : List (List UInt8))
      (hl : s.loops g = .receiving buf) (hch : s.chans (s.fn g) = rx :: rest) :
      LoopMoves s g { s.setLoop g (if buf.copied rx = 0 then .receiving (buf.copy rx)
          else .handling (buf.copy rx) (rx.take buf.len) (s.bind g).target6) with
        chans := Function.update s.chans (s.fn g) rest }
  | replies (buf : Slice UInt8) (packet : List UInt8) (ep : ChannelEndpoint)
      (hl : s.loops g = .handling buf packet ep) (hg : g.isServer = true) :
      LoopMoves s g (s.setLoop g (.sending buf (.next [packet]) ep))
  | passed (buf : Slice UInt8) (packet : List UInt8) (ep : ChannelEndpoint)
      (hl : s.loops g = .handling buf packet ep) (hg : g.isServer = false)
      (hr : s.clientRecv = []) :
      LoopMoves s g { s.setLoop g (.receiving buf) with clientRecv := [packet] }
  | gaveUp (buf : Slice UInt8) (packet : List UInt8) (ep : ChannelEndpoint) (d : Done)
      (hl : s.loops g = .handling buf packet ep) (hg : g.isServer = false)
      (hd : s.clientGroup.ctx = some d) : LoopMoves s g (s.exit g (handleErr d.err))
  | sends (buf : Slice UInt8) (st st' : Sending) (ep : ChannelEndpoint) (chans : Chans)
      (hl : s.loops g = .sending buf st ep)
      (he : st.step (s.bind g) ep s.chans = some (st', chans)) :
      LoopMoves s g { s.setLoop g (.sending buf st' ep) with chans := chans }
  | sent (buf : Slice UInt8) (ep : ChannelEndpoint)
      (hl : s.loops g = .sending buf (.done none) ep) :
      LoopMoves s g (s.setLoop g (.receiving buf))
  | failed (buf : Slice UInt8) (e : Error) (ep : ChannelEndpoint)
      (hl : s.loops g = .sending buf (.done (some e)) ep) : LoopMoves s g (s.exit g (handleErr e))

/-- `handle` of the client passes on the packet or gives up. -/
theorem loopMoves_of_handleClient {buf : Slice UInt8} {packet : List UInt8} {ep : ChannelEndpoint}
    (hl : s.loops g = .handling buf packet ep) (hg : g.isServer = false)
    (h : s.handleClient g pick buf packet = some s') : LoopMoves s g s' := by
  have hgroup : s.group g = s.clientGroup := by simp [group, hg]
  have hpass (hlt : s.clientRecv.length < 1) (he : { s.setLoop g (.receiving buf) with
      clientRecv := s.clientRecv ++ [packet] } = s') : LoopMoves s g s' := by
    have hr : s.clientRecv = [] := List.eq_nil_of_length_eq_zero (by omega)
    subst he
    rw [hr, List.nil_append]
    exact .passed buf packet ep hl hg hr
  unfold handleClient at h
  rw [hgroup] at h
  split at h
  · split_ifs at h with hlt
    exact hpass hlt (Option.some.inj h)
  · next d hd =>
    split_ifs at h with hlt
    · exact hpass hlt.1 (Option.some.inj h)
    · obtain rfl := Option.some.inj h
      exact .gaveUp buf packet ep d hl hg hd

/-- **A step of a receive loop is one of those.** -/
theorem loopMoves_of_stepLoop (h : s.stepLoop g pick = some s') : LoopMoves s g s' := by
  unfold stepLoop at h
  split at h
  · next buf hl =>
    split at h
    · cases h
    · next e _ he =>
      obtain rfl := Option.some.inj h
      rcases cases_of_receive he with ⟨hc, hr, -⟩ | ⟨_, _, -, hr, -⟩
      · obtain rfl := Except.error.inj hr
        exact LoopMoves.closed buf hl hc
      · cases hr
    · next buf' n ep chans he =>
      obtain rfl := Option.some.inj h
      rcases cases_of_receive he with ⟨-, hr, -⟩ | ⟨rx, rest, hch, hr, rfl⟩
      · cases hr
      · obtain ⟨rfl, hr'⟩ := Prod.mk.inj (Except.ok.inj hr)
        obtain ⟨rfl, rfl⟩ := Prod.mk.inj hr'
        rw [Slice.take_toList_copy]
        exact .took buf rx rest hl hch
  · next buf packet ep hl =>
    split_ifs at h with hg
    · obtain rfl := Option.some.inj h
      exact .replies buf packet ep hl hg
    · exact loopMoves_of_handleClient hl (by simpa using hg) h
  · next buf ep hl =>
    obtain rfl := Option.some.inj h
    exact .sent buf ep hl
  · next buf e ep hl =>
    obtain rfl := Option.some.inj h
    exact .failed buf e ep hl
  · next buf st ep _ _ hl =>
    obtain ⟨⟨st', chans⟩, he, rfl⟩ := Option.map_eq_some_iff.mp h
    exact .sends buf st st' ep chans hl he
  · cases h

/-- The number of packets between the client's `Send` and its comparison. -/
def inFlight (s : Session) : ℕ :=
  load (fun _ => 1) s.chans + sumTasks (fun g => (s.loops g).packets.length) + s.clientRecv.length

/-- **A receive loop has to wait only for packets**, if there is at most one in flight: it has
returned, or its channel is empty and its bind is not closed. -/
theorem waits_of_stepLoop (hf : s.inFlight ≤ 1) (h : s.stepLoop g pick = none) :
    s.loops g = .returned ∨
      (∃ buf, s.loops g = .receiving buf) ∧ ¬ (s.bind g).Closed ∧ s.chans (s.fn g) = [] := by
  unfold stepLoop at h
  split at h
  · next buf hl =>
    split at h
    · next he => exact .inr ⟨⟨buf, hl⟩, receive_eq_none he⟩
    · cases h
    · cases h
  · next buf packet ep hl =>
    split_ifs at h with hg
    have hr : s.clientRecv.length < 1 := by
      have hle : (s.loops g).packets.length ≤ _ :=
        le_sumTasks (fun g => (s.loops g).packets.length) g
      have hone : (s.loops g).packets.length = 1 := by rw [hl]; rfl
      simp only [inFlight] at hf
      omega
    unfold handleClient at h
    split at h <;> split_ifs at h
  · cases h
  · cases h
  · next buf st ep hnone hsome hl =>
    rcases Sending.step_eq_none (Option.map_eq_none_iff.mp h) with
      ⟨err, rfl⟩ | ⟨ch, bc, bufs, rfl, hle⟩
    · cases err with
      | none => exact (hnone rfl).elim
      | some e => exact (hsome e rfl).elim
    · have := length_le_load s.chans ch
      simp only [inFlight] at hf
      simp only [chanSize] at hle
      omega
  · next hl => exact .inl hl

end Session

end Pingpong

end BatchUDP
