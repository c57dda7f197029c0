import Mathlib.Tactic

/-!
# Runs of a machine

A machine takes a state and an input to the next state and an output, or gets stuck. A run over a
list of inputs records what happened at each of them.

## Main definitions

* `Visit`: one step of a run
* `trace step s is`: the steps of the run from `s` over the inputs `is`
* `Reaches step s s'`: some run from `s` ends in `s'`

## Main results

* `exists_trace`: what every step establishes, while it keeps an invariant, holds of all steps of
  every run
* `forall_mem_trace`: an invariant holds before every step of a run of admitted steps
* `Reaches.invariant`: an invariant that every step keeps holds of every state that is reached
* `exists_trace_history`, `forall_trace_history`: the rules for invariants that mention the steps so
  far
-/

namespace Machine

variable {σ ι ο : Type}

/-- One step of a run: the state before it, the input, and the output. -/
structure Visit (σ ι ο : Type) where
  before : σ
  input : ι
  output : ο

/-- The steps of the run from a state over a list of inputs, unless it gets stuck. -/
def trace (step : σ → ι → Option (σ × ο)) : σ → List ι → Option (List (Visit σ ι ο))
  | _, [] => some []
  | s, i :: is => do
    let (s', o) ← step s i
    let t ← trace step s' is
    some (⟨s, i, o⟩ :: t)

/-- The inputs of a run are those that it was given. -/
theorem map_input_of_trace {step : σ → ι → Option (σ × ο)} {s : σ} {is : List ι}
    {t : List (Visit σ ι ο)} (ht : trace step s is = some t) : t.map Visit.input = is := by
  induction is generalizing s t with
  | nil =>
    obtain rfl := Option.some.inj ht
    rfl
  | cons i is ih =>
    simp only [trace, Option.bind_eq_bind, Option.bind_eq_some_iff] at ht
    obtain ⟨⟨s', o⟩, -, t', ht', h⟩ := ht
    obtain rfl := Option.some.inj h
    rw [List.map_cons, ih ht']

/-- What every step establishes, while it keeps an invariant, holds of all steps of every run. -/
theorem exists_trace {step : σ → ι → Option (σ × ο)} (Inv : σ → Prop) {Ok : ι → Prop}
    {Q : Visit σ ι ο → Prop}
    (hstep : ∀ s i, Inv s → Ok i → ∃ s' o, step s i = some (s', o) ∧ Inv s' ∧ Q ⟨s, i, o⟩)
    {s : σ} (hs : Inv s) {is : List ι} (his : ∀ i ∈ is, Ok i) :
    ∃ t, trace step s is = some t ∧ ∀ v ∈ t, Q v := by
  induction is generalizing s with
  | nil => exact ⟨[], rfl, by simp⟩
  | cons i is ih =>
    obtain ⟨hi, his⟩ := List.forall_mem_cons.mp his
    obtain ⟨s', o, he, hs', hq⟩ := hstep s i hs hi
    obtain ⟨t, ht, hall⟩ := ih hs' his
    refine ⟨⟨s, i, o⟩ :: t, ?_, List.forall_mem_cons.mpr ⟨hq, hall⟩⟩
    rw [trace, he]
    simp [ht]

/-- The same for steps that put no condition on the input. -/
theorem exists_trace_of_forall {step : σ → ι → Option (σ × ο)} (Inv : σ → Prop)
    {Q : Visit σ ι ο → Prop}
    (hstep : ∀ s i, Inv s → ∃ s' o, step s i = some (s', o) ∧ Inv s' ∧ Q ⟨s, i, o⟩)
    {s : σ} (hs : Inv s) (is : List ι) :
    ∃ t, trace step s is = some t ∧ ∀ v ∈ t, Q v := by
  refine @exists_trace σ ι ο step Inv (fun _ => True) Q ?_ s hs is fun _ _ => trivial
  exact fun s i hs _ => hstep s i hs

/-- An invariant that every admitted step keeps holds before every step of a run of admitted
steps. -/
theorem forall_mem_trace {step : σ → ι → Option (σ × ο)} (Inv : σ → Prop)
    {Admitted : Visit σ ι ο → Prop}
    (hstep : ∀ s i s' o, Inv s → Admitted ⟨s, i, o⟩ → step s i = some (s', o) → Inv s') {s : σ}
    (hs : Inv s) {is : List ι} {t : List (Visit σ ι ο)} (ht : trace step s is = some t)
    (hall : ∀ v ∈ t, Admitted v) :
    ∀ v ∈ t, Inv v.before ∧ ∃ s', step v.before v.input = some (s', v.output) := by
  induction is generalizing s t with
  | nil =>
    obtain rfl := Option.some.inj ht
    simp
  | cons i is ih =>
    simp only [trace, Option.bind_eq_bind, Option.bind_eq_some_iff] at ht
    obtain ⟨⟨s', o⟩, he, t', ht', h⟩ := ht
    obtain rfl := Option.some.inj h
    obtain ⟨hv, hall⟩ := List.forall_mem_cons.mp hall
    exact List.forall_mem_cons.mpr ⟨⟨hs, s', he⟩, ih (hstep s i s' o hs hv he) ht' hall⟩

/-- The states that any number of steps, over any inputs, lead to. -/
def Reaches (step : σ → ι → Option (σ × ο)) : σ → σ → Prop :=
  Relation.ReflTransGen fun s s' => ∃ i o, step s i = some (s', o)

theorem Reaches.trans {step : σ → ι → Option (σ × ο)} {s s' s'' : σ} (h : Reaches step s s')
    (h' : Reaches step s' s'') : Reaches step s s'' :=
  Relation.ReflTransGen.trans h h'

/-- **An invariant that every step keeps holds of every state that is reached.** -/
theorem Reaches.invariant {step : σ → ι → Option (σ × ο)} (Inv : σ → Prop)
    (hstep : ∀ s i s' o, Inv s → step s i = some (s', o) → Inv s') {s s' : σ}
    (h : Reaches step s s') (hs : Inv s) : Inv s' := by
  induction h with
  | refl => exact hs
  | tail _ he ih =>
    obtain ⟨i, o, he⟩ := he
    exact hstep _ i _ o ih he

/-- **Invariants that mention the steps so far** hold in front of every step of every run and behind
it. -/
theorem exists_trace_history {step : σ → ι → Option (σ × ο)}
    (Inv : List (Visit σ ι ο) → σ → Prop)
    (hstep : ∀ h s i, Inv h s → ∃ s' o, step s i = some (s', o) ∧ Inv (h ++ [⟨s, i, o⟩]) s')
    {past : List (Visit σ ι ο)} {s : σ} (hs : Inv past s) (is : List ι) :
    ∃ t, trace step s is = some t ∧ ∀ h v, h ++ [v] <+: t → Inv (past ++ h) v.before ∧
      ∃ s', step v.before v.input = some (s', v.output) ∧ Inv (past ++ h ++ [v]) s' := by
  induction is generalizing past s with
  | nil =>
    refine ⟨[], rfl, ?_⟩
    intro h v hp
    simpa using hp.length_le
  | cons i is ih =>
    obtain ⟨s', o, he, hs'⟩ := hstep past s i hs
    obtain ⟨t, ht, hall⟩ := ih hs'
    refine ⟨⟨s, i, o⟩ :: t, by rw [trace, he]; simp [ht], ?_⟩
    intro h v hp
    cases h with
    | nil =>
      obtain ⟨rfl, -⟩ := List.cons_prefix_cons.mp hp
      rw [List.append_nil]
      exact ⟨hs, s', he, hs'⟩
    | cons w h =>
      obtain ⟨rfl, hp'⟩ := List.cons_prefix_cons.mp hp
      simpa [List.append_assoc] using hall h v hp'

/-- The same for a run that is given, of steps that may get stuck. -/
theorem forall_trace_history {step : σ → ι → Option (σ × ο)}
    (Inv : List (Visit σ ι ο) → σ → Prop)
    (hstep : ∀ h s i s' o, Inv h s → step s i = some (s', o) → Inv (h ++ [⟨s, i, o⟩]) s')
    {past : List (Visit σ ι ο)} {s : σ} (hs : Inv past s) {is : List ι} {t : List (Visit σ ι ο)}
    (ht : trace step s is = some t) :
    ∀ h v, h ++ [v] <+: t →
      ∃ s', step v.before v.input = some (s', v.output) ∧ Inv (past ++ h ++ [v]) s' := by
  induction is generalizing past s t with
  | nil =>
    obtain rfl := Option.some.inj ht
    intro h v hp
    simpa using hp.length_le
  | cons i is ih =>
    simp only [trace, Option.bind_eq_bind, Option.bind_eq_some_iff] at ht
    obtain ⟨⟨s', o⟩, he, t', ht', h⟩ := ht
    obtain rfl := Option.some.inj h
    have hs' := hstep past s i s' o hs he
    intro h v hp
    cases h with
    | nil =>
      obtain ⟨rfl, -⟩ := List.cons_prefix_cons.mp hp
      rw [List.append_nil]
      exact ⟨s', he, hs'⟩
    | cons w h =>
      obtain ⟨rfl, hp'⟩ := List.cons_prefix_cons.mp hp
      simpa [List.append_assoc] using ih hs' ht' h v hp'

end Machine
