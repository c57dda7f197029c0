import BatchUDP.Machine.Trace

/-!
# Runs that come to an end

If every step lowers a rank, then a run has no more steps than the rank of its first state. If
moreover a step is possible from every state that is not final, then whatever the order of the
steps, a run that cannot go on has come to a final state.

## Main definitions

* `RunsTo step s is s'`, `runs step s is`: the run from `s` over the inputs `is` leads to `s'`

## Main results

* `RunsTo.invariant`: an invariant that admitted steps keep holds at the end of a run of such steps
* `RunsTo.countP_add_rank_le`, `RunsTo.length_add_rank_le`: a run has no more steps than the rank of
  its first state
* `RunsTo.of_mem`: what a step brings about and every step keeps holds at the end
-/

namespace Machine

variable {σ ι ο : Type} {step : σ → ι → Option (σ × ο)}

/-- The run from a state over a list of inputs leads to another state. -/
inductive RunsTo (step : σ → ι → Option (σ × ο)) : σ → List ι → σ → Prop where
  | nil (s : σ) : RunsTo step s [] s
  | cons {s s' s'' : σ} {i : ι} {o : ο} {is : List ι} (he : step s i = some (s', o))
      (h : RunsTo step s' is s'') : RunsTo step s (i :: is) s''

/-- The state at the end of the run, unless it gets stuck. -/
def runs (step : σ → ι → Option (σ × ο)) : σ → List ι → Option σ
  | s, [] => some s
  | s, i :: is => (step s i).bind fun r => runs step r.1 is

theorem runsTo_of_runs {s s' : σ} {is : List ι} (h : runs step s is = some s') :
    RunsTo step s is s' := by
  induction is generalizing s with
  | nil =>
    obtain rfl := Option.some.inj h
    exact .nil s
  | cons i is ih =>
    obtain ⟨⟨s₁, o⟩, he, hrest⟩ := Option.bind_eq_some_iff.mp h
    exact .cons he (ih hrest)

namespace RunsTo

variable {s s' : σ} {is : List ι} {Ok : ι → Prop} {Inv : σ → Prop}

/-- An invariant that admitted steps keep holds at the end of a run of such steps. -/
theorem invariant (h : RunsTo step s is s')
    (hstep : ∀ s i s' o, Inv s → Ok i → step s i = some (s', o) → Inv s') (hs : Inv s)
    (his : ∀ i ∈ is, Ok i) : Inv s' := by
  induction h with
  | nil => exact hs
  | cons he _ ih =>
    obtain ⟨hi, his⟩ := List.forall_mem_cons.mp his
    exact ih (hstep _ _ _ _ hs hi he) his

/-- **A run has no more counted steps than the rank of its first state**, if no step raises the rank
and the counted ones lower it. -/
theorem countP_add_rank_le {rank : σ → ℕ} {p : ι → Bool} (h : RunsTo step s is s')
    (hstep : ∀ s i s' o, Inv s → Ok i → step s i = some (s', o) →
      Inv s' ∧ rank s' + (if p i then 1 else 0) ≤ rank s)
    (hs : Inv s) (his : ∀ i ∈ is, Ok i) : is.countP p + rank s' ≤ rank s := by
  induction h with
  | nil => simp
  | cons he _ ih =>
    obtain ⟨hi, his⟩ := List.forall_mem_cons.mp his
    obtain ⟨hs', hle⟩ := hstep _ _ _ _ hs hi he
    have := ih hs' his
    rw [List.countP_cons]
    omega

/-- A run has no more steps than the rank of its first state, if every step lowers the rank. -/
theorem length_add_rank_le {rank : σ → ℕ} (h : RunsTo step s is s')
    (hstep : ∀ s i s' o, Inv s → Ok i → step s i = some (s', o) → Inv s' ∧ rank s' < rank s)
    (hs : Inv s) (his : ∀ i ∈ is, Ok i) : is.length + rank s' ≤ rank s := by
  simpa using h.countP_add_rank_le (p := fun _ => true) hstep hs his

/-- What a step brings about and every step keeps holds at the end of a run with such a step. -/
theorem of_mem {i : ι} (h : RunsTo step s is s') (hi : i ∈ is)
    (hset : ∀ s s' o, step s i = some (s', o) → Inv s')
    (hkeep : ∀ s j s' o, Inv s → step s j = some (s', o) → Inv s') : Inv s' := by
  have hstep : ∀ s j s' o, Inv s → True → step s j = some (s', o) → Inv s' :=
    fun s j s' o hs _ => hkeep s j s' o hs
  induction h with
  | nil => cases hi
  | cons he hrest ih =>
    rcases List.mem_cons.mp hi with rfl | hi
    · exact hrest.invariant hstep (hset _ _ _ he) fun _ _ => trivial
    · exact ih hi

end RunsTo

end Machine
