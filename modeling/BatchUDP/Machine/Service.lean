import BatchUDP.Machine.Trace

/-!
# A datagram service

What a datagram transport is for: a sender offers datagrams, a receiver is handed some of those on
the way, and the network in between may lose, repeat and reorder them, but makes up none. Without
such disturbances the receiver gets the datagrams that were offered, each once and in order.

## Main definitions

* `Service.Event`, `Service.step`: the machine whose state is the datagrams on the way
* `Service.offered`, `Service.handed`: the datagrams offered and handed out in a run

## Main results

* `Service.mem_offered_of_mem_handed`: nothing is made up
* `Service.handed_isPrefix`: without disturbances, the datagrams handed out are the first ones that
  were offered
-/

namespace Machine.Service

variable {α : Type}

/-- What can happen: datagrams are offered, a number of them is handed out, or the network changes
what is on the way. -/
inductive Event (α : Type) where
  | put (ds : List α)
  | take (n : ℕ)
  | disturb (flight : List α)

/-- An event is one of the network. -/
def Event.isDisturb : Event α → Bool
  | .disturb _ => true
  | _ => false

/-- The service. Its output is the datagrams handed out. -/
def step [DecidableEq α] (flight : List α) : Event α → Option (List α × List α)
  | .put ds => some (flight ++ ds, [])
  | .take n => if n ≤ flight.length then some (flight.drop n, flight.take n) else none
  | .disturb flight' => if ∀ d ∈ flight', d ∈ flight then some (flight', []) else none

/-- The datagrams that an event offers. -/
def Event.ds : Event α → List α
  | .put ds => ds
  | _ => []

/-- The datagrams offered in a run. -/
def offered (us : List (Visit (List α) (Event α) (List α))) : List α :=
  us.flatMap fun u => u.input.ds

/-- The datagrams handed out in a run. -/
def handed (us : List (Visit (List α) (Event α) (List α))) : List α := us.flatMap Visit.output

variable [DecidableEq α] {flight : List α}

/-- What a step hands out and leaves on the way was there before, or is offered by it. -/
theorem mem_of_step {k : Event α} {flight' out : List α} (h : step flight k = some (flight', out)) :
    (∀ d ∈ out, d ∈ flight) ∧ ∀ d ∈ flight', d ∈ flight ∨ d ∈ k.ds := by
  cases k with
  | put ds =>
    obtain ⟨rfl, rfl⟩ := Prod.mk.inj (Option.some.inj h)
    exact ⟨by simp, fun d hd => List.mem_append.mp hd⟩
  | take n =>
    simp only [step] at h
    split_ifs at h
    obtain ⟨rfl, rfl⟩ := Prod.mk.inj (Option.some.inj h)
    exact ⟨fun d hd => List.mem_of_mem_take hd, fun d hd => .inl (List.mem_of_mem_drop hd)⟩
  | disturb flight' =>
    simp only [step] at h
    split_ifs at h with hall
    obtain ⟨rfl, rfl⟩ := Prod.mk.inj (Option.some.inj h)
    exact ⟨by simp, fun d hd => .inl (hall d hd)⟩

/-- **Nothing is made up.** -/
theorem mem_offered_of_mem_handed {ks : List (Event α)}
    {us : List (Visit (List α) (Event α) (List α))} (h : trace step flight ks = some us) {d : α}
    (hd : d ∈ handed us) : d ∈ flight ∨ d ∈ offered us := by
  induction ks generalizing flight us with
  | nil =>
    obtain rfl := Option.some.inj h
    simp [handed] at hd
  | cons k ks ih =>
    simp only [trace, Option.bind_eq_bind, Option.bind_eq_some_iff] at h
    obtain ⟨⟨flight', out⟩, he, us', hus, h⟩ := h
    obtain rfl := Option.some.inj h
    obtain ⟨hout, hleft⟩ := mem_of_step he
    rcases List.mem_append.mp hd with hd | hd
    · exact .inl (hout d hd)
    · rcases ih hus hd with hd | hd
      · exact (hleft d hd).imp_right fun hk => List.mem_append_left _ hk
      · exact .inr (List.mem_append_right _ hd)

/-- A step that is none of the network keeps the order. -/
theorem append_of_step {k : Event α} (hk : k.isDisturb = false) {flight' out : List α}
    (h : step flight k = some (flight', out)) : flight ++ k.ds = out ++ flight' := by
  cases k with
  | put ds =>
    obtain ⟨rfl, rfl⟩ := Prod.mk.inj (Option.some.inj h)
    rfl
  | take n =>
    simp only [step] at h
    split_ifs at h
    obtain ⟨rfl, rfl⟩ := Prod.mk.inj (Option.some.inj h)
    simp [Event.ds]
  | disturb flight' => cases hk

/-- **Without disturbances the datagrams handed out are the first ones that were offered**, each
once and in order. -/
theorem handed_isPrefix {ks : List (Event α)} (hks : ∀ k ∈ ks, k.isDisturb = false)
    {us : List (Visit (List α) (Event α) (List α))} (h : trace step flight ks = some us) :
    handed us <+: flight ++ offered us := by
  induction ks generalizing flight us with
  | nil =>
    obtain rfl := Option.some.inj h
    exact List.nil_prefix
  | cons k ks ih =>
    obtain ⟨hk, hks⟩ := List.forall_mem_cons.mp hks
    simp only [trace, Option.bind_eq_bind, Option.bind_eq_some_iff] at h
    obtain ⟨⟨flight', out⟩, he, us', hus, h⟩ := h
    obtain rfl := Option.some.inj h
    show out ++ handed us' <+: flight ++ (k.ds ++ offered us')
    rw [← List.append_assoc, append_of_step hk he, List.append_assoc]
    exact (List.prefix_append_right_inj out).mpr (ih hks hus)

end Machine.Service
