import Mathlib.Tactic

/-!
# Rings of numbered entries

A ring with `N` slots numbers its entries in the order in which they are made; entry `q` occupies
the slot `q % N`. The entries from `head` up to `tail` count as used. Some of them are pending: an
entry becomes pending when it is made, or never, and pending entries are finished in order.
Finishing `k` of them moves `head` by `k`, whichever entries they were. The counters of a program
are the numbers reduced modulo the size of its words.

## Main definitions

* `Window N head tail pending`: the numbers of the used entries, and of the pending ones among them

## Main results

* `Window.push`, `Window.skip`, `Window.drop`: making an entry that becomes pending, one that never
  does, and finishing entries
* `Window.length_le`: no more entries are pending than are used
* `Window.mod_inj`, `Window.mod_ne_tail`: the slots of pending entries, and the next slot, are
  distinct
-/

namespace Machine.Ring

/-- The entries from `head` up to `tail` are used, and the pending ones are among them in order. -/
structure Window (N head tail : ℕ) (pending : List ℕ) : Prop where
  head_le : head ≤ tail
  tail_le : tail ≤ head + N
  sorted : pending.Pairwise (· < ·)
  mem : ∀ q ∈ pending, head ≤ q ∧ q < tail

theorem window_nil (N head : ℕ) : Window N head head [] :=
  ⟨le_rfl, Nat.le_add_right _ _, .nil, by simp⟩

variable {N head tail : ℕ} {pending : List ℕ}

/-- Making an entry that becomes pending. -/
theorem Window.push (h : Window N head tail pending) (hlt : tail < head + N) :
    Window N head (tail + 1) (pending ++ [tail]) where
  head_le := h.head_le.trans (Nat.le_succ _)
  tail_le := hlt
  sorted := by
    rw [List.pairwise_append]
    refine ⟨h.sorted, List.pairwise_singleton _ _, ?_⟩
    intro q hq r hr
    rw [List.mem_singleton.mp hr]
    exact (h.mem q hq).2
  mem := by
    intro q hq
    rcases List.mem_append.mp hq with hq | hq
    · exact ⟨(h.mem q hq).1, Nat.lt_succ_of_lt (h.mem q hq).2⟩
    · rw [List.mem_singleton.mp hq]
      exact ⟨h.head_le, Nat.lt_succ_self _⟩

/-- Making an entry that never becomes pending. -/
theorem Window.skip (h : Window N head tail pending) (hlt : tail < head + N) :
    Window N head (tail + 1) pending where
  head_le := h.head_le.trans (Nat.le_succ _)
  tail_le := hlt
  sorted := h.sorted
  mem q hq := ⟨(h.mem q hq).1, Nat.lt_succ_of_lt (h.mem q hq).2⟩

/-- Finishing the first pending entry. -/
theorem Window.finish {q : ℕ} (h : Window N head tail (q :: pending)) :
    Window N (head + 1) tail pending := by
  obtain ⟨hq, hs⟩ := List.pairwise_cons.mp h.sorted
  obtain ⟨hge, hlt⟩ := h.mem q List.mem_cons_self
  have := h.tail_le
  refine ⟨by omega, by omega, hs, fun r hr => ?_⟩
  have := hq r hr
  exact ⟨by omega, (h.mem r (List.mem_cons_of_mem q hr)).2⟩

/-- **Finishing pending entries** in order. -/
theorem Window.drop (h : Window N head tail pending) {k : ℕ} (hk : k ≤ pending.length) :
    Window N (head + k) tail (pending.drop k) := by
  induction k generalizing head pending with
  | zero => exact h
  | succ k ih =>
    obtain ⟨q, rest, rfl⟩ := List.exists_cons_of_length_pos (by omega : 0 < pending.length)
    have := ih h.finish (Nat.le_of_succ_le_succ hk)
    rwa [Nat.add_right_comm] at this

/-- **No more entries are pending than are used.** -/
theorem Window.length_le (h : Window N head tail pending) : head + pending.length ≤ tail :=
  (h.drop le_rfl).head_le

/-- Used entries with the same slot are the same entry. -/
theorem eq_of_mod_eq {a b : ℕ} (hab : a % N = b % N) (h : a < b + N) (h' : b < a + N) : a = b := by
  rcases Nat.le_total a b with hle | hle
  · have := (Nat.modEq_iff_dvd' hle).mp hab
    have := Nat.eq_zero_of_dvd_of_lt this (by omega)
    omega
  · have := (Nat.modEq_iff_dvd' hle).mp hab.symm
    have := Nat.eq_zero_of_dvd_of_lt this (by omega)
    omega

/-- **Pending entries have distinct slots.** -/
theorem Window.mod_inj (h : Window N head tail pending) {q r : ℕ} (hq : q ∈ pending)
    (hr : r ∈ pending) (he : q % N = r % N) : q = r := by
  have := h.tail_le
  obtain ⟨hq₁, hq₂⟩ := h.mem q hq
  obtain ⟨hr₁, hr₂⟩ := h.mem r hr
  exact eq_of_mod_eq he (by omega) (by omega)

/-- **The next slot is not that of a pending entry**, unless all slots are used. -/
theorem Window.mod_ne_tail (h : Window N head tail pending) (hlt : tail < head + N) {q : ℕ}
    (hq : q ∈ pending) : q % N ≠ tail % N := by
  intro he
  obtain ⟨hq₁, hq₂⟩ := h.mem q hq
  have := eq_of_mod_eq he (by omega) (by omega)
  omega

/-- The slots of the pending entries are distinct. -/
theorem Window.nodup_map_mod (h : Window N head tail pending) :
    (pending.map (· % N)).Nodup := by
  have hn : pending.Nodup := h.sorted.imp fun hlt => Nat.ne_of_lt hlt
  exact hn.map_on fun q hq r hr he => h.mod_inj hq hr he

/-! ## Counters -/

/-- The slot of an entry from a counter that wraps at a multiple of the number of slots. -/
theorem toNat_ofNat_mod {n : ℕ} (hn : N ∣ 2 ^ 32) : (UInt32.ofNat n).toNat % N = n % N := by
  rw [UInt32.toNat_ofNat', Nat.mod_mod_of_dvd n hn]

/-- The number of used entries from two counters that wrap. -/
theorem toNat_ofNat_sub_ofNat (hle : head ≤ tail) (hlt : tail - head < 2 ^ 32) :
    (UInt32.ofNat tail - UInt32.ofNat head).toNat = tail - head := by
  rw [← UInt32.ofNat_sub hle, UInt32.toNat_ofNat', Nat.mod_eq_of_lt hlt]

end Machine.Ring
