import BatchUDP.Machine.Trace

/-!
# Interleavings

Processes with local states take turns on a shared state. The schedule picks the process that steps
next, and what its environment does in that step. A property of each process, which may mention the
shared state, holds throughout a run if the step of a process keeps it for that process and for
every other one.

## Main definitions

* `World`: the shared state and the local states
* `interleave step`: the machine in which the schedule picks a process that steps
* `Moves step v r r'`: the visit `v` records the step of a process from `r` to `r'`
* `alone step`: the machine of one process, with nobody else around

## Main results

* `forall_mem_interleave`: the rule for properties of the processes
-/

namespace Machine

variable {σ ρ ι : Type}

/-- A shared state, and the local states of the processes. -/
structure World (σ ρ : Type) where
  shared : σ
  procs : List ρ

/-- The process that the schedule picks takes a step. The output is the world after it. -/
def interleave (step : σ → ρ → ι → Option (σ × ρ)) (w : World σ ρ) (i : ℕ × ι) :
    Option (World σ ρ × World σ ρ) := do
  let r ← w.procs[i.1]?
  let (s, r') ← step w.shared r i.2
  some (⟨s, w.procs.set i.1 r'⟩, ⟨s, w.procs.set i.1 r'⟩)

/-- A process alone takes a step. -/
def alone (step : σ → ρ → ι → Option (σ × ρ)) (s : σ × ρ) (i : ι) : Option ((σ × ρ) × Unit) :=
  (step s.1 s.2 i).map (·, ())

/-- The first step of a process alone. -/
theorem Reaches.alone {step : σ → ρ → ι → Option (σ × ρ)} {s s'' : σ × ρ} (i : ι) (s' : σ × ρ)
    (h : step s.1 s.2 i = some s') (hr : Reaches (alone step) s' s'') :
    Reaches (Machine.alone step) s s'' :=
  Relation.ReflTransGen.head ⟨i, (), by rw [Machine.alone, h]; rfl⟩ hr

/-- A visit records the step of a process from `r` to `r'`. -/
structure Moves (step : σ → ρ → ι → Option (σ × ρ))
    (v : Visit (World σ ρ) (ℕ × ι) (World σ ρ)) (r r' : ρ) : Prop where
  proc : v.before.procs[v.input.1]? = some r
  step : step v.before.shared r v.input.2 = some (v.output.shared, r')
  procs : v.output.procs = v.before.procs.set v.input.1 r'

section Moves

variable {step : σ → ρ → ι → Option (σ × ρ)} {v : Visit (World σ ρ) (ℕ × ι) (World σ ρ)} {r r' : ρ}

theorem Moves.mem_before (h : Moves step v r r') : r ∈ v.before.procs :=
  List.mem_of_getElem? h.proc

theorem Moves.mem_output (h : Moves step v r r') : r' ∈ v.output.procs := by
  rw [h.procs]
  exact List.mem_set (List.getElem?_eq_some_iff.mp h.proc).1 r'

theorem exists_moves {w : World σ ρ}
    (h : interleave step v.before v.input = some (w, v.output)) :
    w = v.output ∧ ∃ r r', Moves step v r r' := by
  simp only [interleave, Option.bind_eq_bind, Option.bind_eq_some_iff] at h
  obtain ⟨r, hr, ⟨s, r'⟩, hs, h⟩ := h
  obtain ⟨rfl, ho⟩ := Prod.mk.inj (Option.some.inj h)
  exact ⟨ho, r, r', hr, by rw [← ho]; exact hs, by rw [← ho]⟩

end Moves

/-- **A property of each process holds throughout a run of admitted steps** if the step of a process
keeps it for that process, and for every other one. -/
theorem forall_mem_interleave {step : σ → ρ → ι → Option (σ × ρ)} {P : σ → ρ → Prop}
    (Admitted : Visit (World σ ρ) (ℕ × ι) (World σ ρ) → Prop)
    (hown : ∀ v r r', Moves step v r r' → Admitted v → P v.before.shared r → P v.output.shared r')
    (hother : ∀ v r r' q, Moves step v r r' → P v.before.shared r → P v.before.shared q →
      P v.output.shared q)
    {w : World σ ρ} (hw : ∀ r ∈ w.procs, P w.shared r) {is : List (ℕ × ι)}
    {t : List (Visit (World σ ρ) (ℕ × ι) (World σ ρ))} (ht : trace (interleave step) w is = some t)
    (hall : ∀ v ∈ t, Admitted v) :
    ∀ v ∈ t, (∃ r r', Moves step v r r') ∧ (∀ r ∈ v.before.procs, P v.before.shared r) ∧
      ∀ r ∈ v.output.procs, P v.output.shared r := by
  have hkeep (v : Visit (World σ ρ) (ℕ × ι) (World σ ρ)) {r r' : ρ} (hm : Moves step v r r')
      (hv : Admitted v) (h : ∀ r ∈ v.before.procs, P v.before.shared r) :
      ∀ r ∈ v.output.procs, P v.output.shared r := by
    intro q hq
    rw [hm.procs] at hq
    rcases List.mem_or_eq_of_mem_set hq with hq | rfl
    · exact hother v r r' q hm (h r hm.mem_before) (h q hq)
    · exact hown v r q hm hv (h r hm.mem_before)
  intro v hv
  obtain ⟨hinv, w', he⟩ := forall_mem_trace (fun w => ∀ r ∈ w.procs, P w.shared r)
    (fun s i s' o hs hadm he => by
      obtain ⟨rfl, r, r', hm⟩ := exists_moves (v := ⟨s, i, o⟩) he
      exact hkeep ⟨s, i, s'⟩ hm hadm hs) hw ht hall v hv
  obtain ⟨-, r, r', hm⟩ := exists_moves he
  exact ⟨⟨r, r', hm⟩, hinv, hkeep v hm (hall v hv) hinv⟩

end Machine
