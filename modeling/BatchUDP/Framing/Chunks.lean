import Mathlib.Tactic

/-!
# Cutting a payload into chunks

A payload is cut into consecutive chunks of one size, the last of which may be shorter. A list of
members of that size, with a shorter last member, is recovered from its concatenation exactly when
the last member is not empty.

## Main definitions

* `chunks g l`: the consecutive `g`-element chunks of `l`, or `l` itself for `g = 0`
* `Uniform g ms`: all members of `ms` but the last have length `g`, and the last is no longer

## Main results

* `chunks_append`: a leading chunk is cut off
* `flatten_chunks`: the chunks of a payload make up the payload
* `Uniform.chunks_flatten`: the chunks of a uniform concatenation are its members
* `Uniform.length_chunks_flatten_lt`: an empty last member is lost
-/

namespace Framing

variable {α : Type}

/-- The consecutive `g`-element chunks of `l`, the last possibly shorter. The size `0` stands for
no cutting. -/
def chunks (g : ℕ) (l : List α) : List (List α) :=
  if g = 0 then [l]
  else (List.range ((l.length + g - 1) / g)).map fun j => (l.drop (j * g)).take g

@[simp] theorem chunks_zero (l : List α) : chunks 0 l = [l] := if_pos rfl

theorem chunks_of_pos {g : ℕ} (hg : 0 < g) (l : List α) :
    chunks g l = (List.range ((l.length + g - 1) / g)).map fun j => (l.drop (j * g)).take g :=
  if_neg hg.ne'

theorem chunks_nil {g : ℕ} (hg : 0 < g) : chunks g ([] : List α) = [] := by
  have h0 : (0 + g - 1) / g = 0 := Nat.div_eq_of_lt (by omega)
  simp only [chunks_of_pos hg, List.length_nil, h0, List.range_zero, List.map_nil]

theorem length_chunks {g : ℕ} (hg : 0 < g) (l : List α) :
    (chunks g l).length = (l.length + g - 1) / g := by
  simp [chunks_of_pos hg]

/-- A leading chunk is cut off. -/
theorem chunks_append {g : ℕ} (hg : 0 < g) {xs : List α} (hx : xs.length = g) (ys : List α) :
    chunks g (xs ++ ys) = xs :: chunks g ys := by
  have hn : ((xs ++ ys).length + g - 1) / g = (ys.length + g - 1) / g + 1 := by
    rw [List.length_append, hx, ← Nat.add_div_right _ hg]
    congr 1
    omega
  rw [chunks_of_pos hg, chunks_of_pos hg, hn, List.range_succ_eq_map, List.map_cons, List.map_map]
  congr 1
  · simp [← hx]
  · refine List.map_congr_left fun j _ => ?_
    simp only [Function.comp_apply, Nat.succ_mul]
    rw [Nat.add_comm, ← List.drop_drop, ← hx, List.drop_left]

/-- A nonempty payload of at most one chunk is that chunk. -/
theorem chunks_of_le {g : ℕ} {l : List α} (h0 : l ≠ []) (hl : l.length ≤ g) :
    chunks g l = [l] := by
  have hpos : 0 < l.length := List.length_pos_iff.mpr h0
  have hg : 0 < g := by omega
  have h1 : (l.length + g - 1) / g = 1 := by
    rw [Nat.div_eq_iff hg]
    omega
  rw [chunks_of_pos hg, h1]
  simp [List.take_of_length_le hl]

theorem chunks_eq_cons {g : ℕ} (hg : 0 < g) {l : List α} (h0 : l ≠ []) :
    chunks g l = l.take g :: chunks g (l.drop g) := by
  rcases le_or_gt l.length g with h | h
  · rw [chunks_of_le h0 h, List.take_of_length_le h, List.drop_eq_nil_of_le h, chunks_nil hg]
  · have ht : (l.take g).length = g := by simp [h.le]
    conv_lhs => rw [← List.take_append_drop g l]
    exact chunks_append hg ht _

theorem flatten_chunks (g : ℕ) (l : List α) : (chunks g l).flatten = l := by
  rcases Nat.eq_zero_or_pos g with rfl | hg
  · simp
  -- the induction is on the length, since a chunk may be longer than one element
  induction hn : l.length using Nat.strong_induction_on generalizing l with
  | _ n ih =>
    rcases eq_or_ne l [] with rfl | h0
    · simp [chunks_nil hg]
    · have hpos : 0 < l.length := List.length_pos_iff.mpr h0
      rw [chunks_eq_cons hg h0, List.flatten_cons,
        ih (l.drop g).length (by rw [List.length_drop]; omega) _ rfl, List.take_append_drop]

/-- No chunk of a nonempty payload is empty. -/
theorem ne_nil_of_mem_chunks {g : ℕ} {l : List α} (h0 : l ≠ []) {c : List α}
    (hc : c ∈ chunks g l) : c ≠ [] := by
  rcases Nat.eq_zero_or_pos g with rfl | hg
  · rw [chunks_zero, List.mem_singleton] at hc
    exact hc ▸ h0
  · rw [chunks_of_pos hg, List.mem_map] at hc
    obtain ⟨j, hj, rfl⟩ := hc
    have hj' : (j + 1) * g ≤ l.length + g - 1 := by
      have := Nat.mul_le_mul_right g (Nat.succ_le_of_lt (List.mem_range.mp hj))
      exact this.trans (Nat.div_mul_le_self _ _)
    have hlt : j * g < l.length := by
      rw [Nat.succ_mul] at hj'
      omega
    intro he
    have := congrArg List.length he
    simp only [List.length_take, List.length_drop, List.length_nil] at this
    omega

/-- A nonempty payload has at least one chunk. -/
theorem chunks_ne_nil {g : ℕ} {l : List α} (h0 : l ≠ []) : chunks g l ≠ [] := by
  intro h
  apply h0
  rw [← flatten_chunks g l, h, List.flatten_nil]

/-! ## Uniform members -/

/-- All members but the last have length `g`, and the last is no longer. -/
def Uniform (g : ℕ) (ms : List (List α)) : Prop :=
  ∃ init last, ms = init ++ [last] ∧ (∀ m ∈ init, m.length = g) ∧ last.length ≤ g

theorem Uniform.singleton (m : List α) : Uniform m.length [m] :=
  ⟨[], m, rfl, by simp, le_rfl⟩

theorem Uniform.snoc {g : ℕ} {ms : List (List α)} {m : List α} (h : ∀ x ∈ ms, x.length = g)
    (hm : m.length ≤ g) : Uniform g (ms ++ [m]) :=
  ⟨ms, m, rfl, h, hm⟩

theorem Uniform.length_le {g : ℕ} {ms : List (List α)} (h : Uniform g ms) :
    ∀ m ∈ ms, m.length ≤ g := by
  obtain ⟨init, last, rfl, hi, hle⟩ := h
  intro m hm
  rcases List.mem_append.mp hm with hm | hm
  · exact (hi m hm).le
  · rwa [List.mem_singleton.mp hm]

theorem chunks_flatten_append {g : ℕ} (hg : 0 < g) {init : List (List α)}
    (h : ∀ m ∈ init, m.length = g) (l : List α) :
    chunks g (init.flatten ++ l) = init ++ chunks g l := by
  induction init with
  | nil => rfl
  | cons m init ih =>
    rw [List.flatten_cons, List.append_assoc, chunks_append hg (h m (by simp)),
      ih fun x hx => h x (by simp [hx]), List.cons_append]

/-- The chunks of a uniform concatenation whose last member is not empty are its members. -/
theorem Uniform.chunks_flatten {g : ℕ} {ms : List (List α)} (h : Uniform g ms)
    (hl : ∀ m ∈ ms, m ≠ []) : chunks g ms.flatten = ms := by
  obtain ⟨init, last, rfl, hi, hle⟩ := h
  have h0 : last ≠ [] := hl last (by simp)
  have hg : 0 < g := (List.length_pos_iff.mpr h0).trans_le hle
  rw [List.flatten_append, List.flatten_singleton, chunks_flatten_append hg hi,
    chunks_of_le h0 hle]

/-- An empty last member behind other members is lost in the concatenation. -/
theorem Uniform.length_chunks_flatten_lt {g : ℕ} {ms : List (List α)} (h : Uniform g ms)
    (h2 : 2 ≤ ms.length) (hl : ∃ m ∈ ms.tail, m = []) :
    (chunks g ms.flatten).length < ms.length := by
  obtain ⟨init, last, rfl, hi, hle⟩ := h
  rcases Nat.eq_zero_or_pos g with rfl | hg
  · rw [chunks_zero, List.length_singleton]
    omega
  · have hlast : last = [] := by
      obtain ⟨m, hm, rfl⟩ := hl
      rcases List.mem_append.mp (List.mem_of_mem_tail hm) with h' | h'
      · exact absurd (hi [] h') (by simp; omega)
      · exact (List.mem_singleton.mp h').symm
    subst hlast
    rw [List.flatten_append, chunks_flatten_append hg hi]
    simp [chunks_nil hg]

end Framing
