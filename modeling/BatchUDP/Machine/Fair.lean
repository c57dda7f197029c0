import BatchUDP.Machine.Trace

/-!
# Fair runs

A run is divided into rounds. In each state some party can bring the machine nearer to its goal, and
keeps that ability until it has its turn or the machine has come nearer to the goal another way. If
every party has a turn in every round, the goal is reached within one round more than a rank says.

## Main results

* `exists_of_rounds`: a run with more rounds than the rank of its first state reaches the goal
-/

namespace Machine

variable {σ ι ο κ : Type} {step : σ → ι → Option (σ × ο)}

/-- An admitted step from a state on the way to the goal: it reaches the goal, or comes nearer, or
is no turn of the party that can help, which it leaves able to. -/
def Helped (P : σ → Prop) (Goal : ο → Prop) (rank : σ → ℕ) (helper : σ → κ) (Turn : κ → ι → Prop)
    (s : σ) (i : ι) (s' : σ) (o : ο) : Prop :=
  Goal o ∨ P s' ∧ (rank s' < rank s ∨
    rank s' = rank s ∧ helper s' = helper s ∧ ¬ Turn (helper s) i)

variable {P : σ → Prop} {Goal : ο → Prop} {rank : σ → ℕ} {helper : σ → κ} {Turn : κ → ι → Prop}
  {Ok : ι → Prop}

/-- One round, in front of the rest of a run. -/
theorem exists_or_round
    (hstep : ∀ s i s' o, P s → Ok i → step s i = some (s', o) →
      Helped P Goal rank helper Turn s i s' o)
    {s : σ} (hs : P s) {round rest : List ι} (hok : ∀ i ∈ round, Ok i) {t : List (Visit σ ι ο)}
    (ht : trace step s (round ++ rest) = some t) :
    (∃ v ∈ t, Goal v.output) ∨ ∃ s' t', trace step s' rest = some t' ∧ t' ⊆ t ∧ P s' ∧
      (rank s' < rank s ∨
        rank s' = rank s ∧ helper s' = helper s ∧ ∀ i ∈ round, ¬ Turn (helper s) i) := by
  induction round generalizing s t with
  | nil => exact .inr ⟨s, t, ht, List.Subset.refl t, hs, .inr ⟨rfl, rfl, by simp⟩⟩
  | cons i round ih =>
    obtain ⟨hi, hok⟩ := List.forall_mem_cons.mp hok
    simp only [List.cons_append, trace, Option.bind_eq_bind, Option.bind_eq_some_iff] at ht
    obtain ⟨⟨s₁, o⟩, he, t₁, ht₁, h⟩ := ht
    obtain rfl := Option.some.inj h
    rcases hstep s i s₁ o hs hi he with hg | ⟨hs₁, hr₁⟩
    · exact .inl ⟨_, List.mem_cons_self, hg⟩
    rcases ih hs₁ hok ht₁ with ⟨v, hv, hg⟩ | ⟨s', t', ht', hsub, hs', hr'⟩
    · exact .inl ⟨v, List.mem_cons_of_mem _ hv, hg⟩
    refine .inr ⟨s', t', ht', fun v hv => List.mem_cons_of_mem _ (hsub hv), hs', ?_⟩
    rcases hr₁ with hlt | ⟨heq, hsame, hnot⟩
    · rcases hr' with hlt' | ⟨heq', -⟩
      · exact .inl (hlt'.trans hlt)
      · exact .inl (heq' ▸ hlt)
    · rcases hr' with hlt' | ⟨heq', hsame', hnot'⟩
      · exact .inl (heq ▸ hlt')
      · rw [hsame] at hsame' hnot'
        exact .inr ⟨heq'.trans heq, hsame', List.forall_mem_cons.mpr ⟨hnot, hnot'⟩⟩

/-- **A run with more rounds than the rank of its first state reaches the goal**, if whoever can
help has a turn in every round. -/
theorem exists_of_rounds
    (hstep : ∀ s i s' o, P s → Ok i → step s i = some (s', o) →
      Helped P Goal rank helper Turn s i s' o)
    {s : σ} (hs : P s) {rounds : List (List ι)} (hok : ∀ round ∈ rounds, ∀ i ∈ round, Ok i)
    (hturn : ∀ round ∈ rounds, ∀ s, P s → ∃ i ∈ round, Turn (helper s) i)
    (hrank : rank s < rounds.length) {t : List (Visit σ ι ο)}
    (ht : trace step s rounds.flatten = some t) : ∃ v ∈ t, Goal v.output := by
  induction rounds generalizing s t with
  | nil => simp at hrank
  | cons round rounds ih =>
    obtain ⟨hok₁, hok⟩ := List.forall_mem_cons.mp hok
    obtain ⟨hturn₁, hturn⟩ := List.forall_mem_cons.mp hturn
    rw [List.flatten_cons] at ht
    rcases exists_or_round hstep hs hok₁ ht with hg | ⟨s', t', ht', hsub, hs', hr⟩
    · exact hg
    rcases hr with hlt | ⟨-, -, hnot⟩
    · rw [List.length_cons] at hrank
      obtain ⟨v, hv, hg⟩ := ih hs' hok hturn (by omega) ht'
      exact ⟨v, hsub hv, hg⟩
    · obtain ⟨i, hi, hturn⟩ := hturn₁ s hs
      exact absurd hturn (hnot i hi)

end Machine
