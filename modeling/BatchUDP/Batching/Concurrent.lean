import BatchUDP.Batching.Write
import BatchUDP.Machine.Interleave

/-!
# Concurrent writes

Calls of `linuxBatchingConn.WriteBatchTo` share the offload flag. A call loads it at the label
`retry`; if a coalesced write fails, it loads the flag again, and only if the flag is still set and
the error tells that the device cannot segment, it stores `false` and goes back to the label. Every
load, every store and every `WriteBatch` is one step; what a call does between them is its own.

## Main definitions

* `Writer`, `Pc`: a call in progress, and where it is
* `Writer.step`: the next step of a call, with the outcome of a write chosen by the schedule
* `Writer.rank`: a bound on the steps that a call has left
* `Writer.Inv`, `Writer.Next`: what holds of a call at every time, and what a step does to it
* `Writer.FallsBack`: a call whose coalesced write was rejected writes its datagrams again
* `Undisturbed`: the flag is still set when a call loads it again after a rejection

## Main results

* `Writer.Inv.exists_step`: a call that has not returned can take its next step, which brings it
  closer to its return
* `Writer.exists_reaches_transmit`, `Ready.exists_reaches_WriteBatchTo`: a call alone does what
  `WriteBatchTo` does
* `fallsBack_of_run_iff`: in every interleaving, all calls whose coalesced write was rejected fall
  back iff the flag is still set whenever one of them loads it again
-/

namespace BatchUDP

open Go Framing Machine

namespace BatchingConn

/-- An attempt that ended: with or without offload, the messages handed over, and the error. -/
structure Attempt where
  offload : Bool
  handed : List Message
  err : Option Error
  deriving DecidableEq, Repr

/-- A coalesced write that failed with an error that switches offload off. -/
def Attempt.Rejected (p : Platform) (a : Attempt) : Prop :=
  a.offload = true ∧ a.err.any (errShouldDisableUDPGSO p) = true

/-- Where a call is: at a load of the flag at the label `retry`, in the loop over `WriteBatch` with
the messages of the attempt and those not accepted yet, at the load behind a failed coalesced write,
at the store, or back at its caller. -/
inductive Pc where
  | load
  | write (offload : Bool) (handed left : List Message)
  | recheck (err : Error)
  | store
  | returned (result : SendResult)
  deriving DecidableEq, Repr

/-- A call of `WriteBatchTo` in progress: its datagrams, the address and the messages of its batch,
whether it has retried, the attempts that ended, and where it is. -/
structure Writer where
  bufs : List (Slice UInt8)
  ua : UDPAddr
  msgs : List Message
  retried : Bool
  attempts : List Attempt
  pc : Pc
  deriving DecidableEq, Repr

namespace Writer

/-- A call that has its batch, and is about to load the flag. -/
def start (bufs : List (Slice UInt8)) (ua : UDPAddr) (msgs : List Message) : Writer :=
  ⟨bufs, ua, msgs, false, [], .load⟩

/-- An attempt has ended. -/
def record (w : Writer) (a : Attempt) : Writer := { w with attempts := w.attempts ++ [a] }

/-- The return with the error of the last attempt. -/
def ret (laddr : String) (err : Option Error) (w : Writer) : Writer :=
  { w with pc := .returned (if w.retried then .gsoDisabled laddr err else .done err) }

/-- The end of an attempt: `writeBatch` returned. The failure of a coalesced write is looked at. -/
def finish (laddr : String) (offload : Bool) (handed : List Message) (err : Option Error)
    (w : Writer) : Writer :=
  let w := w.record ⟨offload, handed, err⟩
  match offload, err with
  | true, some e => { w with pc := .recheck e }
  | _, err => w.ret laddr err

/-- The next step of a call, on the flag. A write has the outcome that the schedule chose. -/
def step (p : Platform) (laddr : String) (txOffload : Bool) (w : Writer) (o : WriteOutcome) :
    Option (Bool × Writer) :=
  match w.pc with
  | .load =>
    if txOffload then do
      let (msgs, n) ← (coalescer p w.ua).coalesce w.bufs w.msgs
      some (txOffload, { w with msgs := msgs, pc := .write true (msgs.take n) (msgs.take n) })
    else do
      let msgs ← (coalescer p w.ua).plain w.bufs w.msgs
      let handed := msgs.take w.bufs.length
      some (txOffload, { w with msgs := msgs, pc := .write false handed handed })
  | .write offload handed left =>
    match o with
    | .accept more =>
      if left.length ≤ more + 1 then some (txOffload, w.finish laddr offload handed none)
      else some (txOffload, { w with pc := .write offload handed (left.drop (more + 1)) })
    | .fail e => some (txOffload, w.finish laddr offload handed (some e))
  | .recheck e =>
    -- the flag is loaded again, before the error is looked at
    some (txOffload, if txOffload && errShouldDisableUDPGSO p e then { w with pc := .store }
      else w.ret laddr (some e))
  -- offload is switched off for all calls, and `retried` is set for this one
  | .store => some (false, { w with retried := true, pc := .load })
  | .returned _ => none

/-- A bound on the steps that a call has left. -/
def rank (w : Writer) : ℕ :=
  match w.pc with
  | .load => if w.retried then w.bufs.length + 2 else 2 * w.bufs.length + 6
  | .write true _ left => left.length + w.bufs.length + 5
  | .write false _ left => left.length + 1
  | .recheck _ => w.bufs.length + 4
  | .store => w.bufs.length + 3
  | .returned _ => 0

/-- The messages of an attempt without offload: one for each datagram, which is its first chunk. -/
def Rewrites (bufs : List (Slice UInt8)) (handed : List Message) : Prop :=
  handed.map (fun m => m.buffers.head?) = bufs.map some

/-- A call whose coalesced write was rejected writes its datagrams again without offload, and
returns `ErrUDPGSODisabled` with the result of that. -/
def FallsBack (p : Platform) (laddr : String) (w : Writer) : Prop :=
  ∀ a ∈ w.attempts, a.Rejected p → ∀ result, w.pc = .returned result →
    ∃ b, w.attempts = [a, b] ∧ b.offload = false ∧ Rewrites w.bufs b.handed ∧
      result = .gsoDisabled laddr b.err

/-- A call returned with the error of a rejected coalesced write. -/
def Bare (p : Platform) (w : Writer) : Prop :=
  ∃ a, w.attempts = [a] ∧ a.Rejected p ∧ ∃ result, w.pc = .returned result

/-- The attempts of a call that has not ended one since it started or retried. -/
def Fresh (p : Platform) (w : Writer) : Prop :=
  w.retried = false ∧ w.attempts = [] ∨ w.retried = true ∧ ∃ a, w.attempts = [a] ∧ a.Rejected p

/-- What a call has done when it is at a point. -/
def At (p : Platform) (laddr : String) (w : Writer) : Pc → Prop
  | .load => w.Fresh p ∧
      (w.retried = false → ∀ m ∈ w.msgs, m.buffers.length = 1 ∧ PooledOOB p m.oob)
  | .write true _ left => w.retried = false ∧ w.attempts = [] ∧ left.length ≤ w.bufs.length
  | .write false handed left =>
      w.Fresh p ∧ Rewrites w.bufs handed ∧ left.length ≤ w.bufs.length
  | .recheck e => w.retried = false ∧ ∃ handed, w.attempts = [⟨true, handed, some e⟩]
  | .store => w.retried = false ∧ ∃ a, w.attempts = [a] ∧ a.Rejected p
  | .returned result => (∃ a, w.attempts = [a] ∧ result = .done a.err) ∨
      ∃ a b, w.attempts = [a, b] ∧ a.Rejected p ∧ b.offload = false ∧
        Rewrites w.bufs b.handed ∧ result = .gsoDisabled laddr b.err

/-- What holds of a call at every time: its batch is large enough, and once it has retried the flag
is not set. -/
structure Inv (p : Platform) (laddr : String) (txOffload : Bool) (w : Writer) : Prop where
  length_le : w.bufs.length ≤ w.msgs.length
  buffers : ∀ m ∈ w.msgs, m.buffers ≠ []
  flag : w.retried = true → txOffload = false
  pc : w.At p laddr w.pc

/-- A call is about to load the flag again after a rejection, but it is not set any more. -/
def Disturbed (p : Platform) (txOffload : Bool) (w : Writer) : Prop :=
  txOffload = false ∧ ∃ e, w.pc = .recheck e ∧ errShouldDisableUDPGSO p e = true

/-- What a step does to a call: it keeps the invariant, never sets the flag, brings the call closer
to its return, and returns the error of a rejected write iff the call was disturbed. -/
structure Next (p : Platform) (laddr : String) (txOffload : Bool) (w : Writer) (txOffload' : Bool)
    (w' : Writer) : Prop where
  inv : w'.Inv p laddr txOffload'
  flag : txOffload' = true → txOffload = true
  rank : w'.rank < w.rank
  bare : w'.Bare p ↔ w.Disturbed p txOffload

section Step

variable {p : Platform} {laddr : String} {txOffload : Bool} {w : Writer}

theorem not_bare (h : ∀ result, w.pc ≠ .returned result) : ¬ w.Bare p := by
  rintro ⟨-, -, -, result, hpc⟩
  exact h result hpc

theorem not_disturbed (h : ∀ e, w.pc ≠ .recheck e) : ¬ w.Disturbed p txOffload := by
  rintro ⟨-, e, hpc, -⟩
  exact h e hpc

theorem rewrites_spread (h : w.bufs.length ≤ w.msgs.length) (hb : ∀ m ∈ w.msgs, m.buffers ≠ []) :
    Rewrites w.bufs ((coalescer p w.ua).spread w.bufs w.msgs) := by
  rw [Rewrites, ← List.forall₂_eq_eq_eq, List.forall₂_map_left_iff, List.forall₂_map_right_iff]
  refine Coalescer.forall₂_spread (fun buf m hm => ?_) h
  obtain ⟨b, bs, hbs⟩ := List.exists_cons_of_ne_nil (hb m hm)
  simp [Coalescer.started, hbs]

/-- The load at the label with the flag set: the messages are coalesced. -/
theorem Inv.exists_load_on (h : w.Inv p laddr true) (hpc : w.pc = .load) (o : WriteOutcome) :
    ∃ w', w.step p laddr true o = some (true, w') ∧ Next p laddr true w true w' := by
  -- a call that has retried finds the flag not set, since nobody sets it again
  have hret : w.retried = false := Bool.eq_false_iff.mpr fun hr => absurd (h.flag hr) (by decide)
  obtain ⟨hfresh, hpool⟩ : w.At p laddr .load := hpc ▸ h.pc
  have hnil : w.attempts = [] := by
    rcases hfresh with hf | hf
    · exact hf.2
    · exact absurd (hret.symm.trans hf.1) (by decide)
  obtain ⟨built, hc, hg⟩ :=
    Coalescer.coalesce_spec (models_coalescer p w.ua) (hpool hret) h.length_le
  have hlen : built.length ≤ w.bufs.length := by
    rw [← hg.length_eq]
    exact length_groups_le w.bufs
  have hle := hlen.trans h.length_le
  refine ⟨{ w with msgs := built ++ w.msgs.drop built.length, pc := .write true built built },
    ?_, ⟨?_, ?_, h.flag, hret, hnil, hlen⟩, id, ?_, ?_⟩
  · simp only [step, hpc, if_true, hc, Option.bind_eq_bind, Option.bind_some, List.take_left]
  · have := h.length_le
    simp only [List.length_append, List.length_drop]
    omega
  · exact Coalescer.forall_buffers_ne_nil (models_coalescer p w.ua) (hpool hret) hg
  · simp only [rank, hpc, hret, Bool.false_eq_true, if_false]
    omega
  · exact iff_of_false (not_bare (by simp)) (not_disturbed (by simp [hpc]))

/-- The load at the label with the flag not set: one message for each datagram. -/
theorem Inv.exists_load_off (h : w.Inv p laddr false) (hpc : w.pc = .load) (o : WriteOutcome) :
    ∃ w', w.step p laddr false o = some (false, w') ∧ Next p laddr false w false w' := by
  obtain ⟨hfresh, -⟩ : w.At p laddr .load := hpc ▸ h.pc
  have hlen := Coalescer.length_spread (c := coalescer p w.ua) h.length_le
  refine ⟨{ w with
      msgs := (coalescer p w.ua).spread w.bufs w.msgs ++ w.msgs.drop w.bufs.length
      pc := .write false ((coalescer p w.ua).spread w.bufs w.msgs)
        ((coalescer p w.ua).spread w.bufs w.msgs) }, ?_, ⟨?_, ?_, fun _ => rfl, ?_⟩, id, ?_, ?_⟩
  · simp only [step, hpc, Bool.false_eq_true, if_false, Coalescer.plain_eq h.buffers h.length_le,
      Option.bind_eq_bind, Option.bind_some, Coalescer.take_spread_append h.length_le]
  · exact h.length_le.trans (Coalescer.length_spread_append h.length_le).ge
  · refine Coalescer.forall_mem_spread_append h.buffers fun buf m hm => ?_
    simpa [Coalescer.started] using hm
  · exact ⟨hfresh, rewrites_spread h.length_le h.buffers, hlen.le⟩
  · simp only [rank, hpc, hlen]
    split_ifs <;> omega
  · exact iff_of_false (not_bare (by simp)) (not_disturbed (by simp [hpc]))

/-- The return behind an attempt, of a call that had ended none since it started or retried. -/
theorem Inv.ret (h : w.Inv p laddr txOffload) (hfresh : w.Fresh p) {a : Attempt}
    (ha : w.retried = true → a.offload = false ∧ Rewrites w.bufs a.handed) :
    ((w.record a).ret laddr a.err).Inv p laddr txOffload := by
  refine ⟨h.length_le, h.buffers, h.flag, ?_⟩
  rcases hfresh with ⟨hret, hnil⟩ | ⟨hret, b, hb, hrej⟩
  · refine .inl ⟨a, ?_, ?_⟩
    · simp [Writer.ret, record, hnil]
    · simp [record, hret]
  · refine .inr ⟨b, a, ?_, hrej, (ha hret).1, (ha hret).2, ?_⟩
    · simp [Writer.ret, record, hb]
    · simp [record, hret]

/-- A call does not return the error of a rejected write if it tried without offload, or if the last
attempt was not rejected. -/
theorem not_bare_ret (a : Attempt) (ha : ¬ a.Rejected p) :
    ¬ ((w.record a).ret laddr a.err).Bare p := by
  rintro ⟨b, hb, hrej, -⟩
  refine ha ?_
  have : a ∈ [b] := hb ▸ by simp [ret, record]
  rwa [List.mem_singleton.mp this]

theorem rank_pos (h : ∀ result, w.pc ≠ .returned result) : 0 < w.rank := by
  unfold rank
  split
  · split <;> omega
  all_goals first | omega | exact absurd ‹_› (h _)

/-- A write of the attempt with offload. -/
theorem Inv.exists_write_on (h : w.Inv p laddr txOffload) {handed left : List Message}
    (hpc : w.pc = .write true handed left) (o : WriteOutcome) :
    ∃ w', w.step p laddr txOffload o = some (txOffload, w') ∧
      Next p laddr txOffload w txOffload w' := by
  obtain ⟨hret, hnil, hlen⟩ : w.At p laddr (.write true handed left) := hpc ▸ h.pc
  have hd : ¬ w.Disturbed p txOffload := not_disturbed (by simp [hpc])
  cases o with
  | accept more =>
    by_cases hle : left.length ≤ more + 1
    · refine ⟨w.finish laddr true handed none, ?_, ?_, id, ?_, iff_of_false ?_ hd⟩
      · simp only [step, hpc, if_pos hle]
      · exact h.ret (.inl ⟨hret, hnil⟩) (a := ⟨true, handed, none⟩) (by simp [hret])
      · exact rank_pos (by simp [hpc])
      · exact not_bare_ret ⟨true, handed, none⟩ (by simp [Attempt.Rejected])
    · refine ⟨{ w with pc := .write true handed (left.drop (more + 1)) }, ?_,
        ⟨h.length_le, h.buffers, h.flag, hret, hnil, ?_⟩, id, ?_,
        iff_of_false (not_bare (by simp)) hd⟩
      · simp only [step, hpc, if_neg hle]
      · exact (List.drop_sublist _ _).length_le.trans hlen
      · simp only [rank, hpc, List.length_drop]
        omega
  | fail e =>
    refine ⟨w.finish laddr true handed (some e), by simp only [step, hpc],
      ⟨h.length_le, h.buffers, h.flag, hret, handed, by simp [finish, record, hnil]⟩, id, ?_,
      iff_of_false (not_bare (by simp [finish])) hd⟩
    simp only [rank, hpc, finish, record]
    omega

/-- A write of the attempt without offload. -/
theorem Inv.exists_write_off (h : w.Inv p laddr txOffload) {handed left : List Message}
    (hpc : w.pc = .write false handed left) (o : WriteOutcome) :
    ∃ w', w.step p laddr txOffload o = some (txOffload, w') ∧
      Next p laddr txOffload w txOffload w' := by
  obtain ⟨hfresh, hrw, hlen⟩ : w.At p laddr (.write false handed left) := hpc ▸ h.pc
  have hd : ¬ w.Disturbed p txOffload := not_disturbed (by simp [hpc])
  have hend (err : Option Error) :
      Next p laddr txOffload w txOffload (w.finish laddr false handed err) :=
    ⟨h.ret hfresh (a := ⟨false, handed, err⟩) fun _ => ⟨rfl, hrw⟩, id,
      rank_pos (by simp [hpc]),
      iff_of_false (not_bare_ret ⟨false, handed, err⟩ (by simp [Attempt.Rejected])) hd⟩
  cases o with
  | accept more =>
    by_cases hle : left.length ≤ more + 1
    · exact ⟨_, by simp only [step, hpc, if_pos hle], hend none⟩
    · refine ⟨{ w with pc := .write false handed (left.drop (more + 1)) }, ?_,
        ⟨h.length_le, h.buffers, h.flag, hfresh, hrw, ?_⟩, id, ?_,
        iff_of_false (not_bare (by simp)) hd⟩
      · simp only [step, hpc, if_neg hle]
      · exact (List.drop_sublist _ _).length_le.trans hlen
      · simp only [rank, hpc, List.length_drop]
        omega
  | fail e => exact ⟨_, by simp only [step, hpc], hend (some e)⟩

/-- The load behind a failed coalesced write: whether the call falls back depends on the flag. -/
theorem Inv.exists_recheck (h : w.Inv p laddr txOffload) {e : Error} (hpc : w.pc = .recheck e)
    (o : WriteOutcome) :
    ∃ w', w.step p laddr txOffload o = some (txOffload, w') ∧
      Next p laddr txOffload w txOffload w' := by
  obtain ⟨hret, handed, ha⟩ : w.At p laddr (.recheck e) := hpc ▸ h.pc
  by_cases hgo : (txOffload && errShouldDisableUDPGSO p e) = true
  · obtain ⟨rfl, he⟩ := Bool.and_eq_true_iff.mp hgo
    refine ⟨{ w with pc := .store }, by simp only [step, hpc, if_pos hgo],
      ⟨h.length_le, h.buffers, h.flag, hret, _, ha, rfl, he⟩, id, by simp [rank, hpc], ?_⟩
    exact iff_of_false (not_bare (by simp)) (by simp [Disturbed])
  · refine ⟨w.ret laddr (some e), by simp only [step, hpc, if_neg hgo],
      ⟨h.length_le, h.buffers, h.flag, .inl ⟨_, ha, by simp [hret]⟩⟩, id,
      rank_pos (by simp [hpc]), ?_⟩
    have hbare : (w.ret laddr (some e)).Bare p ↔ errShouldDisableUDPGSO p e = true := by
      simp [Bare, Writer.ret, ha, Attempt.Rejected]
    have hdist : w.Disturbed p txOffload ↔
        txOffload = false ∧ errShouldDisableUDPGSO p e = true := by
      simp [Disturbed, hpc]
    rw [hbare, hdist]
    cases txOffload <;> simp_all

/-- The store. -/
theorem Inv.exists_store (h : w.Inv p laddr txOffload) (hpc : w.pc = .store) (o : WriteOutcome) :
    ∃ w', w.step p laddr txOffload o = some (false, w') ∧ Next p laddr txOffload w false w' := by
  obtain ⟨hret, a, ha, hrej⟩ : w.At p laddr .store := hpc ▸ h.pc
  refine ⟨{ w with retried := true, pc := .load }, by simp only [step, hpc],
    ⟨h.length_le, h.buffers, fun _ => rfl, .inr ⟨rfl, a, ha, hrej⟩, by simp⟩, by simp,
    by simp [rank, hpc], ?_⟩
  exact iff_of_false (not_bare (by simp)) (not_disturbed (by simp [hpc]))

/-- **A call that has not returned can take its next step**, whatever the others did to the flag. -/
theorem Inv.exists_step (h : w.Inv p laddr txOffload) (hpc : ∀ result, w.pc ≠ .returned result)
    (o : WriteOutcome) :
    ∃ txOffload' w', w.step p laddr txOffload o = some (txOffload', w') ∧
      Next p laddr txOffload w txOffload' w' := by
  match hw : w.pc, txOffload, h with
  | .load, true, h => exact ⟨_, h.exists_load_on hw o⟩
  | .load, false, h => exact ⟨_, h.exists_load_off hw o⟩
  | .write true _ _, _, h => exact ⟨_, h.exists_write_on hw o⟩
  | .write false _ _, _, h => exact ⟨_, h.exists_write_off hw o⟩
  | .recheck _, _, h => exact ⟨_, h.exists_recheck hw o⟩
  | .store, _, h => exact ⟨_, h.exists_store hw o⟩
  | .returned result, _, _ => exact absurd hw (hpc result)

/-- A step of a call. -/
theorem Inv.next (h : w.Inv p laddr txOffload) {o : WriteOutcome} {txOffload' : Bool} {w' : Writer}
    (hs : w.step p laddr txOffload o = some (txOffload', w')) :
    Next p laddr txOffload w txOffload' w' := by
  have hpc : ∀ result, w.pc ≠ .returned result := by
    rintro result hpc
    simp [step, hpc] at hs
  obtain ⟨f, x, he, hn⟩ := h.exists_step hpc o
  obtain ⟨rfl, rfl⟩ := Prod.mk.inj (Option.some.inj (he.symm.trans hs))
  exact hn

/-- The invariant of a call survives the steps of the others, which never set the flag. -/
theorem Inv.mono (h : w.Inv p laddr txOffload) {txOffload' : Bool}
    (hf : txOffload' = true → txOffload = true) : w.Inv p laddr txOffload' := by
  refine ⟨h.length_le, h.buffers, fun hr => Bool.eq_false_iff.mpr fun ht => ?_, h.pc⟩
  exact absurd ((hf ht).symm.trans (h.flag hr)) (by decide)

/-- A call falls back unless it returned the error of a rejected write. -/
theorem Inv.fallsBack_iff_not_bare (h : w.Inv p laddr txOffload) :
    w.FallsBack p laddr ↔ ¬ w.Bare p := by
  constructor
  · rintro hfb ⟨a, ha, hrej, result, hpc⟩
    obtain ⟨b, hab, -⟩ := hfb a (by simp [ha]) hrej result hpc
    simp [ha] at hab
  · intro hb a ha hrej result hpc
    have hat : w.At p laddr (.returned result) := hpc ▸ h.pc
    rcases hat with ⟨a', ha', -⟩ | ⟨a', b, hab, hrej', hoff, hrw, hres⟩
    · rw [ha', List.mem_singleton] at ha
      exact absurd ⟨a', ha', ha ▸ hrej, result, hpc⟩ hb
    · refine ⟨b, ?_, hoff, hrw, hres⟩
      rw [hab] at ha ⊢
      rcases List.mem_cons.mp ha with rfl | ha
      · rfl
      · rw [List.mem_singleton] at ha
        rw [Attempt.Rejected, ha, hoff] at hrej
        exact absurd hrej.1 (by decide)

end Step

/-! ## A call alone -/

section Alone

variable {p : Platform} {laddr : String} {w : Writer}

/-- A call alone that was rejected is not disturbed: it gets back to the label. -/
theorem reaches_load {e : Error} (hpc : w.pc = .recheck e)
    (he : errShouldDisableUDPGSO p e = true) :
    Reaches (alone (step p laddr)) (true, w) (false, { w with retried := true, pc := .load }) := by
  refine .alone (.accept 0) (true, { w with pc := .store }) ?_ (.alone (.accept 0) _ rfl .refl)
  simp [step, hpc, he]

/-- The steps of an attempt are the loop over `WriteBatch`. -/
theorem reaches_finish (txOffload offload : Bool) (handed : List Message) (os : List WriteOutcome)
    (left : List Message) :
    Reaches (alone (step p laddr)) (txOffload, { w with pc := .write offload handed left })
      (txOffload, w.finish laddr offload handed (writeBatch os left).err) := by
  induction os generalizing left with
  | nil =>
    refine .alone (.accept left.length) _ ?_ .refl
    simp only [step, if_pos (Nat.le_succ _)]
    rfl
  | cons o os ih =>
    cases o with
    | fail e => exact .alone (.fail e) _ rfl .refl
    | accept more =>
      by_cases hle : left.length ≤ more + 1
      · refine .alone (.accept more) _ ?_ .refl
        simp only [step, writeBatch, if_pos hle]
        rfl
      · refine .alone (.accept more)
          (txOffload, { w with pc := .write offload handed (left.drop (more + 1)) }) ?_ ?_
        · simp only [step, if_neg hle]
        · simp only [writeBatch, if_neg hle]
          exact ih _

variable (laddr) in
/-- The attempt without offload, of a call that is at the label. -/
theorem reaches_plain (hpc : w.pc = .load) (os : List WriteOutcome) {msgs : List Message}
    (hp : (coalescer p w.ua).plain w.bufs w.msgs = some msgs) :
    Reaches (alone (step p laddr)) (false, w) (false, { w with msgs := msgs }.finish laddr false
      (msgs.take w.bufs.length) (writeBatch os (msgs.take w.bufs.length)).err) := by
  refine .alone (.accept 0) _ ?_ (reaches_finish false false _ os _)
  simp only [step, hpc, Bool.false_eq_true, if_false, hp, Option.bind_eq_bind, Option.bind_some]

variable (laddr) in
/-- The attempt with offload. -/
theorem reaches_coalesced (hpc : w.pc = .load) (os : List WriteOutcome) {msgs : List Message}
    {n : ℕ} (hc : (coalescer p w.ua).coalesce w.bufs w.msgs = some (msgs, n)) :
    Reaches (alone (step p laddr)) (true, w) (true, { w with msgs := msgs }.finish laddr true
      (msgs.take n) (writeBatch os (msgs.take n)).err) := by
  refine .alone (.accept 0) _ ?_ (reaches_finish true true _ os _)
  simp only [step, hpc, if_true, hc, Option.bind_eq_bind, Option.bind_some]

/-- **A call alone does what `transmit` does**: its steps lead to the same result, flag and
messages, with the same messages handed over. -/
theorem exists_reaches_transmit (hpc : w.pc = .load) (hret : w.retried = false)
    (hnil : w.attempts = []) {txOffload : Bool} {os : List WriteOutcome} {t : Transmitted}
    (ht : (coalescer p w.ua).transmit p writeBatch laddr txOffload os w.bufs w.msgs = some t) :
    ∃ w', Reaches (alone (step p laddr)) (txOffload, w) (t.offload, w') ∧
      w'.pc = .returned t.result ∧ w'.attempts.map Attempt.handed = t.handed ∧
      w'.msgs = t.msgs := by
  cases txOffload with
  | false =>
    simp only [Coalescer.transmit, Bool.false_eq_true, if_false, Option.bind_eq_bind,
      Option.bind_eq_some_iff] at ht
    obtain ⟨msgs, hp, ht⟩ := ht
    obtain rfl := Option.some.inj ht
    exact ⟨_, reaches_plain laddr hpc os hp, by simp [finish, ret, record, hret],
      by simp [finish, ret, record, hnil], rfl⟩
  | true =>
    simp only [Coalescer.transmit, if_true, Option.bind_eq_bind, Option.bind_eq_some_iff] at ht
    obtain ⟨⟨msgs, n⟩, hc, ht⟩ := ht
    have hfirst := reaches_coalesced laddr hpc os hc
    cases herr : (writeBatch os (msgs.take n)).err with
    | none =>
      rw [herr, Option.any_none, if_neg Bool.false_ne_true] at ht
      obtain rfl := Option.some.inj ht
      rw [herr] at hfirst
      exact ⟨_, hfirst, by simp [finish, ret, record, hret], by simp [finish, ret, record, hnil],
        rfl⟩
    | some e =>
      rw [herr] at ht hfirst
      by_cases he : errShouldDisableUDPGSO p e = true
      · rw [Option.any_some, if_pos he, Option.bind_eq_some_iff] at ht
        obtain ⟨again, hp, ht⟩ := ht
        obtain rfl := Option.some.inj ht
        refine ⟨_, (hfirst.trans (reaches_load rfl he)).trans
          (reaches_plain laddr rfl (writeBatch os (msgs.take n)).rest hp), ?_, ?_, rfl⟩
        · simp [finish, ret, record]
        · simp [finish, ret, record, hnil]
      · rw [Option.any_some, if_neg he] at ht
        obtain rfl := Option.some.inj ht
        have hlast : Reaches (alone (step p laddr))
            (true, { w with msgs := msgs }.finish laddr true (msgs.take n) (some e))
            (true, ({ w with msgs := msgs }.finish laddr true (msgs.take n) (some e)).ret laddr
              (some e)) := by
          refine .alone (.accept 0) _ ?_ .refl
          simp [step, finish, he]
        exact ⟨_, hfirst.trans hlast, by simp [finish, ret, record, hret],
          by simp [finish, ret, record, hnil], rfl⟩

end Alone

end Writer

/-! ## Calls together -/

section Run

variable {p : Platform} {laddr : String}

/-- No call loads the flag again after a rejection when it is not set any more. -/
def Undisturbed (p : Platform)
    (v : Visit (World Bool Writer) (ℕ × WriteOutcome) (World Bool Writer)) : Prop :=
  ∀ w, v.before.procs[v.input.1]? = some w → ¬ w.Disturbed p v.before.shared

/-- A call with a batch from the pool, about to load the flag. -/
structure Writer.Started (p : Platform) (w : Writer) : Prop where
  length_le : w.bufs.length ≤ w.msgs.length
  msgs : ∀ m ∈ w.msgs, m.buffers.length = 1 ∧ PooledOOB p m.oob
  retried : w.retried = false
  attempts : w.attempts = []
  pc : w.pc = .load

theorem Writer.Started.inv {w : Writer} (h : w.Started p) (txOffload : Bool) :
    w.Inv p laddr txOffload where
  length_le := h.length_le
  buffers := Coalescer.buffers_ne_nil_of_pooled h.msgs
  flag hr := absurd (h.retried.symm.trans hr) (by decide)
  pc := h.pc ▸ ⟨.inl ⟨h.retried, h.attempts⟩, fun _ => h.msgs⟩

theorem Writer.Started.not_bare {w : Writer} (h : w.Started p) : ¬ w.Bare p :=
  Writer.not_bare (by simp [h.pc])

/-- **`WriteBatchTo` is the run of a call alone**, which starts with a batch from the pool. -/
theorem Ready.exists_reaches_WriteBatchTo {c : BatchingConn} {bufs : List (Slice UInt8)}
    {dst : Addr} (h : c.Ready p bufs dst) {run : WriteRun} {port : UInt16} {r : BatchWritten}
    (he : c.WriteBatchTo p run bufs dst port = some r) :
    ∃ ua w', (Writer.start bufs ua (c.getSendBatch p run.pick).1.msgs).Started p ∧
      Reaches (alone (Writer.step p c.laddr))
        (c.txOffload, Writer.start bufs ua (c.getSendBatch p run.pick).1.msgs)
        (r.conn.txOffload, w') ∧
      w'.pc = .returned r.result ∧ w'.attempts.map Attempt.handed = r.handed := by
  obtain ⟨batch, pool, ua, hget, hbatch, -, -, -, -, he'⟩ := h.WriteBatchTo_eq run port
  rw [he', Option.map_eq_some_iff] at he
  obtain ⟨t, ht, rfl⟩ := he
  have hstart : (Writer.start bufs ua batch.msgs).Started p :=
    ⟨h.batch.trans hbatch.length.ge, hbatch.msgs, rfl, rfl, rfl⟩
  obtain ⟨w', hw, hpc, hatt, -⟩ := Writer.exists_reaches_transmit hstart.pc hstart.retried
    hstart.attempts ht
  rw [hget]
  exact ⟨ua, w', hstart, hw, hpc, hatt⟩

variable {txOffload : Bool} {ws : List Writer} {is : List (ℕ × WriteOutcome)}
  {t : List (Visit (World Bool Writer) (ℕ × WriteOutcome) (World Bool Writer))}

/-- The invariant holds of every call throughout a run. -/
theorem inv_of_run (hws : ∀ w ∈ ws, w.Started p)
    (ht : trace (interleave (Writer.step p laddr)) ⟨txOffload, ws⟩ is = some t) :
    ∀ v ∈ t, (∃ w w', Moves (Writer.step p laddr) v w w') ∧
      (∀ w ∈ v.before.procs, w.Inv p laddr v.before.shared) ∧
      ∀ w ∈ v.output.procs, w.Inv p laddr v.output.shared :=
  forall_mem_interleave (fun _ => True)
    (fun _ _ _ hm _ h => (h.next hm.step).inv)
    (fun _ _ _ _ hm h hq => hq.mono (h.next hm.step).flag)
    (fun w hw => (hws w hw).inv txOffload) ht (by simp)

/-- No call of an undisturbed run returns the error of a rejected write. -/
theorem not_bare_of_run (hws : ∀ w ∈ ws, w.Started p)
    (ht : trace (interleave (Writer.step p laddr)) ⟨txOffload, ws⟩ is = some t)
    (hall : ∀ v ∈ t, Undisturbed p v) : ∀ v ∈ t, ∀ w ∈ v.output.procs, ¬ w.Bare p := by
  have hrun := forall_mem_interleave (Undisturbed p)
    (P := fun txOffload (w : Writer) => w.Inv p laddr txOffload ∧ ¬ w.Bare p)
    (fun v w w' hm hv h => by
      have hn := h.1.next hm.step
      exact ⟨hn.inv, fun hb => hv w hm.proc (hn.bare.mp hb)⟩)
    (fun v w w' q hm h hq => ⟨hq.1.mono (h.1.next hm.step).flag, hq.2⟩)
    (fun w hw => ⟨(hws w hw).inv txOffload, (hws w hw).not_bare⟩) ht hall
  exact fun v hv w hw => ((hrun v hv).2.2 w hw).2

/-- **Calls whose coalesced write was rejected fall back** in a run iff none of them finds the flag
not set when it loads it again. In every run, a call that has not returned can take its next step,
and is then closer to its return. -/
theorem fallsBack_of_run_iff (hws : ∀ w ∈ ws, w.Started p)
    (ht : trace (interleave (Writer.step p laddr)) ⟨txOffload, ws⟩ is = some t) :
    ((∀ v ∈ t, ∀ w ∈ v.output.procs, w.FallsBack p laddr) ↔ ∀ v ∈ t, Undisturbed p v) ∧
      ∀ v ∈ t, ∀ w ∈ v.output.procs, (∀ result, w.pc ≠ .returned result) → ∀ o,
        ∃ txOffload' w', w.step p laddr v.output.shared o = some (txOffload', w') ∧
          w'.rank < w.rank := by
  have hrun := inv_of_run hws ht
  refine ⟨⟨fun hfb v hv w hw hd => ?_, fun hall v hv w hw => ?_⟩, fun v hv w hw hpc o => ?_⟩
  · obtain ⟨⟨r, r', hm⟩, hbefore, hafter⟩ := hrun v hv
    obtain rfl : r = w := Option.some.inj (hm.proc.symm.trans hw)
    have hbare := ((hbefore r hm.mem_before).next hm.step).bare.mpr hd
    have hfalls := hfb v hv r' hm.mem_output
    exact (hafter r' hm.mem_output).fallsBack_iff_not_bare.mp hfalls hbare
  · exact ((hrun v hv).2.2 w hw).fallsBack_iff_not_bare.mpr (not_bare_of_run hws ht hall v hv w hw)
  · obtain ⟨txOffload', w', hs, hn⟩ := ((hrun v hv).2.2 w hw).exists_step hpc o
    exact ⟨txOffload', w', hs, hn.rank⟩

/-- A call with one datagram of one byte. -/
def oneByte (d : UInt8) : Writer :=
  Writer.start [.ofList [d]] ⟨.ofList [127, 0, 0, 1], 53, ""⟩ (newBatch .linux 1).msgs

theorem started_oneByte (d : UInt8) : (oneByte d).Started .linux :=
  ⟨by simp [oneByte, Writer.start, newBatch], (pooled_newBatch .linux 1).msgs, rfl, rfl, rfl⟩

/-- The error of a device that cannot segment. -/
def noChecksumOffload : Error := .syscallError "sendmmsg" (.errno .eio)

/-- The schedule of a call alone that is rejected. -/
def rejectedOnce : List (ℕ × WriteOutcome) :=
  [(0, .accept 0), (0, .fail noChecksumOffload), (0, .accept 0), (0, .accept 0), (0, .accept 0),
    (0, .accept 0)]

/-- A rejected call alone falls back. -/
theorem fallsBack_of_run_iff_rejected :
    ∃ t, trace (interleave (Writer.step .linux "")) ⟨true, [oneByte 1]⟩ rejectedOnce = some t ∧
      (((∀ v ∈ t, ∀ w ∈ v.output.procs, w.FallsBack .linux "") ↔ ∀ v ∈ t, Undisturbed .linux v) ∧
        ∀ v ∈ t, ∀ w ∈ v.output.procs, (∀ result, w.pc ≠ .returned result) → ∀ o,
          ∃ txOffload' w', w.step .linux "" v.output.shared o = some (txOffload', w') ∧
            w'.rank < w.rank) := by
  have hstarted : ∀ w ∈ [oneByte 1], w.Started .linux := by simpa using started_oneByte 1
  obtain ⟨t, ht⟩ : ∃ t, trace (interleave (Writer.step .linux "")) ⟨true, [oneByte 1]⟩
      rejectedOnce = some t := ⟨_, rfl⟩
  exact ⟨t, ht, fallsBack_of_run_iff hstarted ht⟩

/-- Two calls are rejected, and one of them switches offload off before the other loads the flag
again: the other returns the error of its coalesced write. -/
theorem not_fallsBack_of_two_rejected :
    ∃ t, trace (interleave (Writer.step .linux "")) ⟨true, [oneByte 1, oneByte 2]⟩
        [(0, .accept 0), (1, .accept 0), (0, .fail noChecksumOffload),
          (1, .fail noChecksumOffload), (0, .accept 0), (0, .accept 0), (1, .accept 0)] = some t ∧
      ∃ v ∈ t, ∃ w ∈ v.output.procs, w.attempts.map Attempt.err = [some noChecksumOffload] ∧
        w.pc = .returned (.done (some noChecksumOffload)) ∧ ¬ w.FallsBack .linux "" := by
  refine ⟨_, rfl, _, List.mem_of_getElem? (i := 6) rfl, _, List.mem_of_getElem? (i := 1) rfl,
    rfl, rfl, fun h => ?_⟩
  obtain ⟨b, hb, -⟩ := h _ (List.mem_of_getElem? (i := 0) rfl) ⟨rfl, by decide⟩ _ rfl
  cases hb

end Run

end BatchingConn

end BatchUDP
