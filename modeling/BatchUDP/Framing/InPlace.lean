import Mathlib.Tactic

/-!
# Expanding a list in place

The elements behind some position of a list are cut into pieces one after the other, and the pieces
are written over the same list from its start. The pieces of an element must not run past the
element itself, since the elements behind it are still to be read. An element that no piece has been
written over is cleared once it has been cut.

## Main definitions

* `render first i ps as`: the list `as` with the pieces `ps` written over it, and the other elements
  from `first` up to `i` cleared
* `NoOverflow i n counts`: `counts` pieces of the elements from `i` on, behind `n` pieces, do not
  run past their elements
* `Held rooms ds`: each of the lists `ds` is no longer than the room it is put into

## Main results

* `set_render`, `modify_render`: writing a piece, and clearing an element
* `take_render`: the pieces are written over the first elements
* `noOverflow_iff`: overflow counted up to each element
* `noOverflow_of_forall_le`: a bound on the pieces of each element under which none runs past it
* `zipWith_take_eq_iff`: lists cut off at the room they are put into are complete iff they are held
-/

namespace Framing

variable {α β : Type}

section Render

variable (write : α → β → α) (clear : α → α)

/-- An element at position `k` after the pieces `ps` were written and the elements up to `i` cut. -/
def slot (first i : ℕ) (ps : List β) (k : ℕ) (a : α) : α :=
  match ps[k]? with
  | some b => write a b
  | none => if first ≤ k ∧ k < i then clear a else a

/-- The list after the pieces `ps` were written and the elements up to `i` cut. -/
def render (first i : ℕ) (ps : List β) (as : List α) : List α :=
  as.mapIdx (slot write clear first i ps)

variable {write clear} {first i : ℕ} {ps : List β} {as : List α}

@[simp] theorem length_render : (render write clear first i ps as).length = as.length := by
  simp [render]

theorem getElem?_render (k : ℕ) :
    (render write clear first i ps as)[k]? = (as[k]?).map (slot write clear first i ps k) := by
  rw [render, List.getElem?_mapIdx]

theorem render_self : render write clear first first [] as = as := by
  refine List.ext_getElem? fun k => ?_
  have hk : ¬ (first ≤ k ∧ k < first) := by omega
  rw [getElem?_render]
  cases as[k]? <;> simp [slot, hk]

/-- The element to be cut next is as it was. -/
theorem getElem?_render_self (h : ps.length ≤ i) :
    (render write clear first i ps as)[i]? = as[i]? := by
  rw [getElem?_render]
  cases as[i]? <;> simp [slot, List.getElem?_eq_none h]

/-- Writing the next piece. -/
theorem set_render (hw : ∀ a b, write (clear a) b = write a b) {a : α}
    (ha : (render write clear first i ps as)[ps.length]? = some a) (b : β) :
    (render write clear first i ps as).set ps.length (write a b) =
      render write clear first i (ps ++ [b]) as := by
  have hlt : ps.length < as.length := by
    have := (List.getElem?_eq_some_iff.mp ha).1
    rwa [length_render] at this
  refine List.ext_getElem? fun k => ?_
  rw [getElem?_render]
  rcases eq_or_ne k ps.length with rfl | hk
  · rw [getElem?_render, List.getElem?_eq_getElem hlt] at ha
    have ha' : a = slot write clear first i ps ps.length as[ps.length] := (Option.some.inj ha).symm
    rw [List.getElem?_set_self (by rwa [length_render]), List.getElem?_eq_getElem hlt, ha']
    simp only [Option.map_some, slot, List.getElem?_concat_length, List.getElem?_eq_none le_rfl]
    split_ifs
    · rw [hw]
    · rfl
  · rw [List.getElem?_set_ne hk.symm, getElem?_render]
    have hps : (ps ++ [b])[k]? = ps[k]? := by
      rcases lt_or_gt_of_ne hk with h | h
      · exact List.getElem?_append_left h
      · rw [List.getElem?_eq_none h.le, List.getElem?_eq_none (by simpa using h)]
    cases as[k]? <;> simp [slot, hps]

/-- An element that a piece was written over is not cleared. -/
theorem render_succ_of_lt (h : i < ps.length) :
    render write clear first (i + 1) ps as = render write clear first i ps as := by
  refine List.ext_getElem? fun k => ?_
  rw [getElem?_render, getElem?_render]
  congr 1
  funext a
  cases hk : ps[k]? with
  | some b => simp [slot, hk]
  | none =>
    have := List.getElem?_eq_none_iff.mp hk
    have hiff : first ≤ k ∧ k < i + 1 ↔ first ≤ k ∧ k < i := by omega
    simp only [slot, hk, hiff]

/-- Clearing the element that was just cut. -/
theorem modify_render (hf : first ≤ i) (h : ps.length ≤ i) :
    (render write clear first i ps as).modify i clear = render write clear first (i + 1) ps as := by
  refine List.ext_getElem? fun k => ?_
  rw [List.getElem?_modify, getElem?_render, getElem?_render]
  rcases eq_or_ne i k with rfl | hk
  · cases as[i]? <;> simp [slot, List.getElem?_eq_none h, hf]
  · have hiff : first ≤ k ∧ k < i + 1 ↔ first ≤ k ∧ k < i := by omega
    cases as[k]? with
    | none => rfl
    | some a => simp only [Option.map_some, Option.map_eq_map, slot, hiff, if_neg hk]

/-- The first elements are those that the pieces were written over. -/
theorem take_render (h : ps.length ≤ as.length) :
    (render write clear first i ps as).take ps.length = List.zipWith write as ps := by
  refine List.ext_getElem? fun k => ?_
  rw [List.getElem?_take, getElem?_render, List.getElem?_zipWith]
  rcases Nat.lt_or_ge k ps.length with hk | hk
  · rw [if_pos hk, List.getElem?_eq_getElem hk, List.getElem?_eq_getElem (hk.trans_le h)]
    simp [slot, hk]
  · rw [if_neg (not_lt.mpr hk), List.getElem?_eq_none hk]
    cases as[k]? <;> rfl

end Render

/-! ## Overflow -/

/-- The pieces of the elements from position `i` on, behind `n` pieces, do not run past their
elements. -/
def NoOverflow : ℕ → ℕ → List ℕ → Prop
  | _, _, [] => True
  | i, n, c :: cs => n + c ≤ i + 1 ∧ NoOverflow (i + 1) (n + c) cs

instance instDecidableNoOverflow : ∀ i n cs, Decidable (NoOverflow i n cs)
  | _, _, [] => .isTrue trivial
  | i, n, c :: cs =>
    have := instDecidableNoOverflow (i + 1) (n + c) cs
    inferInstanceAs (Decidable (_ ∧ _))

/-- The pieces do not run past their elements iff, up to each element, there are no more pieces than
elements. -/
theorem noOverflow_iff {cs : List ℕ} {i n : ℕ} :
    NoOverflow i n cs ↔ ∀ k < cs.length, n + (cs.take (k + 1)).sum ≤ i + k + 1 := by
  induction cs generalizing i n with
  | nil => simp [NoOverflow]
  | cons c cs ih =>
    simp only [NoOverflow, ih, List.length_cons, List.take_succ_cons, List.sum_cons]
    constructor
    · rintro ⟨h0, h⟩ k hk
      cases k with
      | zero => simpa using h0
      | succ k =>
        have := h k (by omega)
        omega
    · intro h
      refine ⟨by simpa using h 0 (by omega), fun k hk => ?_⟩
      have := h (k + 1) (by omega)
      omega

theorem noOverflow_of_forall_le {k : ℕ} {cs : List ℕ} (h : ∀ c ∈ cs, c ≤ k) {i n : ℕ}
    (hi : n + k * cs.length ≤ i + cs.length) (hk : 1 ≤ k) : NoOverflow i n cs := by
  induction cs generalizing i n with
  | nil => trivial
  | cons c cs ih =>
    obtain ⟨hc, hcs⟩ := List.forall_mem_cons.mp h
    rw [List.length_cons, Nat.mul_succ] at hi
    have : cs.length ≤ k * cs.length := Nat.le_mul_of_pos_left _ hk
    exact ⟨by omega, ih hcs (by omega)⟩

theorem add_sum_le_of_noOverflow {cs : List ℕ} {i n : ℕ} (h : NoOverflow i n cs) (hn : n ≤ i) :
    n + cs.sum ≤ i + cs.length := by
  induction cs generalizing i n with
  | nil => simpa using hn
  | cons c cs ih =>
    have := ih h.2 h.1
    rw [List.sum_cons, List.length_cons]
    omega

/-! ## Room -/

/-- Each list is no longer than the room it is put into. -/
def Held (rooms : List ℕ) (ds : List (List α)) : Prop := ∀ x ∈ rooms.zip ds, x.2.length ≤ x.1

instance (rooms : List ℕ) (ds : List (List α)) : Decidable (Held rooms ds) :=
  inferInstanceAs (Decidable (∀ x ∈ rooms.zip ds, x.2.length ≤ x.1))

theorem held_of_forall_le {rooms : List ℕ} {ds : List (List α)} {n : ℕ}
    (hrooms : ∀ room ∈ rooms, n ≤ room) (hds : ∀ d ∈ ds, d.length ≤ n) : Held rooms ds := by
  intro x hx
  obtain ⟨hroom, hd⟩ := List.of_mem_zip hx
  exact (hds x.2 hd).trans (hrooms x.1 hroom)

/-- Lists cut off at the room they are put into are complete iff they are held. -/
theorem zipWith_take_eq_iff {rooms : List ℕ} {ds : List (List α)}
    (h : ds.length ≤ rooms.length) : List.zipWith List.take rooms ds = ds ↔ Held rooms ds := by
  induction ds generalizing rooms with
  | nil => simp [Held]
  | cons d ds ih =>
    obtain ⟨n, rooms, rfl⟩ := List.exists_cons_of_length_pos (Nat.zero_lt_of_lt h)
    have ih := ih (Nat.le_of_succ_le_succ h)
    simp only [Held, List.zip_cons_cons, List.zipWith_cons_cons, List.cons.injEq,
      List.forall_mem_cons, List.take_eq_self_iff] at ih ⊢
    rw [ih]

end Framing
