import BatchUDP.Machine.Trace

/-!
# Refinement of machines

A machine refines another one if each of its steps is matched by a step of the other from a related
state to a related state. Every run of the first is then matched, step for step, by a run of the
second, and what holds of all runs of the second carries over.

## Main definitions

* `Refines R Ok Match step spec`: every step of `step` over admitted inputs is matched by one of
  `spec`

## Main results

* `Refines.exists_trace`: every run is matched by a run
-/

namespace Machine

variable {σ ι ο τ κ π : Type}

/-- Every step of the first machine over an admitted input, from a state in relation with one of the
second, is matched by a step of the second, and leads to states in relation again. -/
def Refines (R : σ → τ → Prop) (Ok : ι → Prop) (Match : Visit σ ι ο → κ → π → Prop)
    (step : σ → ι → Option (σ × ο)) (spec : τ → κ → Option (τ × π)) : Prop :=
  ∀ s t i s' o, R s t → Ok i → step s i = some (s', o) →
    ∃ k t' q, spec t k = some (t', q) ∧ Match ⟨s, i, o⟩ k q ∧ R s' t'

variable {R : σ → τ → Prop} {Ok : ι → Prop} {Match : Visit σ ι ο → κ → π → Prop}
  {step : σ → ι → Option (σ × ο)} {spec : τ → κ → Option (τ × π)}

/-- **Every run is matched by a run**, step for step. -/
theorem Refines.exists_trace (h : Refines R Ok Match step spec) {s : σ} {t : τ} (hR : R s t)
    {is : List ι} (his : ∀ i ∈ is, Ok i) {vs : List (Visit σ ι ο)}
    (hvs : trace step s is = some vs) :
    ∃ ks us, trace spec t ks = some us ∧
      List.Forall₂ (fun v u => Match v u.input u.output) vs us := by
  induction is generalizing s t vs with
  | nil =>
    obtain rfl := Option.some.inj hvs
    exact ⟨[], [], rfl, .nil⟩
  | cons i is ih =>
    simp only [trace, Option.bind_eq_bind, Option.bind_eq_some_iff] at hvs
    obtain ⟨⟨s', o⟩, he, vs', hvs', hv⟩ := hvs
    obtain rfl := Option.some.inj hv
    obtain ⟨hi, his⟩ := List.forall_mem_cons.mp his
    obtain ⟨k, t', q, hk, hmatch, hR'⟩ := h s t i s' o hR hi he
    obtain ⟨ks, us, hus, hall⟩ := ih hR' his hvs'
    refine ⟨k :: ks, ⟨t, k, q⟩ :: us, ?_, .cons hmatch hall⟩
    rw [trace, hk]
    simp [hus]

end Machine
