import Mathlib.Tactic

/-!
# Greedy grouping

A list is cut into consecutive groups from the left: the next element joins the group being built
when the test lets it, and otherwise starts a new group.

## Main definitions

* `groupsFrom joins cur xs`: the groups of `xs` behind the open group `cur`
* `groups joins xs`: the greedy groups of `xs`

## Main results

* `flatten_groups`: the groups make up the list
* `forall_groups`: what holds of one-element groups and survives every admitted element holds of
  every group
* `groups_congr`: tests that agree make the same groups
* `forall_length_one_iff`: no two elements share a group iff no element is admitted behind its
  predecessor
* `flatMap_eq_flatMap_iff`: images that are right or too short make up the whole iff all are right
-/

namespace Framing

variable {α : Type}

/-- The groups of `xs` behind the open group `cur`. -/
def groupsFrom (joins : List α → α → Bool) : List α → List α → List (List α)
  | cur, [] => [cur]
  | cur, x :: xs =>
    if joins cur x then groupsFrom joins (cur ++ [x]) xs else cur :: groupsFrom joins [x] xs

/-- The greedy groups of a list: the next element joins the open group when `joins` allows it. -/
def groups (joins : List α → α → Bool) : List α → List (List α)
  | [] => []
  | x :: xs => groupsFrom joins [x] xs

variable {joins : List α → α → Bool}

theorem groupsFrom_nil (cur : List α) : groupsFrom joins cur [] = [cur] := rfl

theorem groupsFrom_of_joins {cur : List α} {x : α} (h : joins cur x = true) (xs : List α) :
    groupsFrom joins cur (x :: xs) = groupsFrom joins (cur ++ [x]) xs := if_pos h

theorem groupsFrom_of_not_joins {cur : List α} {x : α} (h : ¬ joins cur x = true)
    (xs : List α) :
    groupsFrom joins cur (x :: xs) = cur :: groupsFrom joins [x] xs := if_neg h

theorem flatten_groupsFrom (cur xs : List α) :
    (groupsFrom joins cur xs).flatten = cur ++ xs := by
  induction xs generalizing cur with
  | nil => simp [groupsFrom_nil]
  | cons x xs ih =>
    by_cases h : joins cur x = true
    · rw [groupsFrom_of_joins h, ih, List.append_assoc, List.singleton_append]
    · rw [groupsFrom_of_not_joins h, List.flatten_cons, ih, List.singleton_append]

theorem flatten_groups (xs : List α) : (groups joins xs).flatten = xs := by
  cases xs with
  | nil => rfl
  | cons x xs => exact flatten_groupsFrom [x] xs

theorem mem_of_mem_groups {xs grp : List α} (hg : grp ∈ groups joins xs) {x : α} (hx : x ∈ grp) :
    x ∈ xs := by
  rw [← @flatten_groups _ joins xs]
  exact List.mem_flatten.mpr ⟨grp, hg, hx⟩

theorem forall_groupsFrom {P : List α → Prop} (h1 : ∀ x, P [x])
    (hs : ∀ cur x, P cur → joins cur x = true → P (cur ++ [x])) {cur : List α} (hc : P cur)
    (xs : List α) : ∀ grp ∈ groupsFrom joins cur xs, P grp := by
  induction xs generalizing cur with
  | nil => simpa [groupsFrom_nil] using hc
  | cons x xs ih =>
    by_cases h : joins cur x = true
    · rw [groupsFrom_of_joins h]
      exact ih (hs cur x hc h)
    · rw [groupsFrom_of_not_joins h]
      intro grp hg
      rcases List.mem_cons.mp hg with rfl | hg
      · exact hc
      · exact ih (h1 x) grp hg

/-- What holds of one-element groups and survives every admitted element holds of every group. -/
theorem forall_groups {P : List α → Prop} (h1 : ∀ x, P [x])
    (hs : ∀ cur x, P cur → joins cur x = true → P (cur ++ [x])) (xs : List α) :
    ∀ grp ∈ groups joins xs, P grp := by
  cases xs with
  | nil => intro grp hg; cases hg
  | cons x xs => exact forall_groupsFrom h1 hs (h1 x) xs

theorem groups_ne_nil (xs : List α) : ∀ grp ∈ groups joins xs, grp ≠ [] :=
  forall_groups (by simp) (by simp) xs

theorem groupsFrom_congr {joins' : List α → α → Bool} {P : α → Prop}
    (h : ∀ cur x, cur ≠ [] → (∀ y ∈ cur, P y) → joins cur x = joins' cur x) {cur xs : List α}
    (h0 : cur ≠ []) (hcur : ∀ y ∈ cur, P y) (hxs : ∀ y ∈ xs, P y) :
    groupsFrom joins cur xs = groupsFrom joins' cur xs := by
  induction xs generalizing cur with
  | nil => rfl
  | cons x xs ih =>
    obtain ⟨hx, hxs⟩ := List.forall_mem_cons.mp hxs
    have hjoin : ∀ y ∈ cur ++ [x], P y := by
      simpa [or_imp, forall_and] using ⟨hcur, hx⟩
    rw [groupsFrom, groupsFrom, h cur x h0 hcur, ih (by simp) hjoin hxs,
      ih (by simp) (by simpa using hx) hxs]

/-- Tests that agree on groups of the elements make the same groups. -/
theorem groups_congr {joins' : List α → α → Bool} {P : α → Prop}
    (h : ∀ cur x, cur ≠ [] → (∀ y ∈ cur, P y) → joins cur x = joins' cur x) {xs : List α}
    (hxs : ∀ x ∈ xs, P x) : groups joins xs = groups joins' xs := by
  cases xs with
  | nil => rfl
  | cons x xs =>
    obtain ⟨hx, hxs⟩ := List.forall_mem_cons.mp hxs
    exact groupsFrom_congr h (by simp) (by simpa using hx) hxs

theorem length_groupsFrom_le (cur xs : List α) :
    (groupsFrom joins cur xs).length ≤ xs.length + 1 := by
  induction xs generalizing cur with
  | nil => exact le_rfl
  | cons x xs ih =>
    by_cases h : joins cur x = true
    · rw [groupsFrom_of_joins h]
      exact (ih _).trans (Nat.le_succ _)
    · rw [groupsFrom_of_not_joins h]
      exact Nat.succ_le_succ (ih _)

theorem length_groups_le (xs : List α) : (groups joins xs).length ≤ xs.length := by
  cases xs with
  | nil => exact le_rfl
  | cons x xs => exact length_groupsFrom_le [x] xs

/-- The first group behind an open group extends it. -/
theorem exists_groupsFrom_eq_cons (cur xs : List α) :
    ∃ more rest, groupsFrom joins cur xs = (cur ++ more) :: rest := by
  induction xs generalizing cur with
  | nil => exact ⟨[], [], by simp [groupsFrom_nil]⟩
  | cons x xs ih =>
    by_cases h : joins cur x = true
    · obtain ⟨more, rest, he⟩ := ih (cur ++ [x])
      exact ⟨x :: more, rest, by rw [groupsFrom_of_joins h, he]; simp⟩
    · exact ⟨[], groupsFrom joins [x] xs, by rw [groupsFrom_of_not_joins h]; simp⟩

theorem forall_length_one_groupsFrom_iff (a : α) (xs : List α) :
    (∀ grp ∈ groupsFrom joins [a] xs, grp.length = 1) ↔
      List.IsChain (fun x y => ¬ joins [x] y = true) (a :: xs) := by
  induction xs generalizing a with
  | nil => simp [groupsFrom_nil]
  | cons x xs ih =>
    by_cases h : joins [a] x = true
    · obtain ⟨more, rest, he⟩ := @exists_groupsFrom_eq_cons _ joins ([a] ++ [x]) xs
      rw [groupsFrom_of_joins h, he]
      simp [h]
    · rw [groupsFrom_of_not_joins h]
      simp [h, ih]

/-- No two elements share a group iff no element is admitted behind its predecessor. -/
theorem forall_length_one_iff (xs : List α) :
    (∀ grp ∈ groups joins xs, grp.length = 1) ↔
      List.IsChain (fun x y => ¬ joins [x] y = true) xs := by
  cases xs with
  | nil => simp [groups]
  | cons x xs => exact forall_length_one_groupsFrom_iff x xs

/-! ## Images of groups -/

section Images

variable {β γ : Type} {image : γ → List β} {whole : α → List β} {Right : α → Prop}

theorem forall_mem_right {Q : γ → Prop} {as : List α} {cs : List γ}
    (h : List.Forall₂ (fun _ c => Q c) as cs) : ∀ c ∈ cs, Q c := by
  induction h with
  | nil => simp
  | cons h _ ih => exact List.forall_mem_cons.mpr ⟨h, ih⟩

/-- What two members have in common that belong to the same element. -/
theorem forall₂_of_common {R : α → β → Prop} {S : α → γ → Prop} {T : β → γ → Prop}
    (h : ∀ a b c, R a b → S a c → T b c) {as : List α} {bs : List β} {cs : List γ}
    (hb : List.Forall₂ R as bs) (hc : List.Forall₂ S as cs) : List.Forall₂ T bs cs := by
  induction hb generalizing cs with
  | nil =>
    obtain rfl := List.forall₂_nil_left_iff.mp hc
    exact .nil
  | cons hab _ ih =>
    cases hc with
    | cons hac hrest => exact .cons (h _ _ _ hab hac) (ih hrest)

theorem length_flatMap_le {as : List α} {cs : List γ}
    (h : List.Forall₂ (fun a c => (image c).length ≤ (whole a).length) as cs) :
    (cs.flatMap image).length ≤ (as.flatMap whole).length := by
  induction h with
  | nil => exact le_rfl
  | cons h _ ih =>
    rw [List.flatMap_cons, List.flatMap_cons, List.length_append, List.length_append]
    exact Nat.add_le_add h ih

/-- Images of which each is right or too short make up the whole iff all are right. -/
theorem flatMap_eq_flatMap_iff {as : List α} {cs : List γ}
    (h : List.Forall₂ (fun a c => image c = whole a ∧ Right a ∨
      (image c).length < (whole a).length ∧ ¬ Right a) as cs) :
    cs.flatMap image = as.flatMap whole ↔ ∀ a ∈ as, Right a := by
  induction h with
  | nil => simp
  | @cons a c as cs hac hrest ih =>
    rw [List.flatMap_cons, List.flatMap_cons, List.forall_mem_cons]
    rcases hac with ⟨he, hr⟩ | ⟨hlt, hr⟩
    · rw [he, List.append_cancel_left_eq, ih, and_iff_right hr]
    · refine ⟨fun he => ?_, fun hall => absurd hall.1 hr⟩
      have hle : List.Forall₂ (fun a c => (image c).length ≤ (whole a).length) as cs := by
        refine hrest.imp ?_
        rintro a c (⟨he, -⟩ | ⟨hlt, -⟩)
        · rw [he]
        · exact hlt.le
      have hlen := congrArg List.length he
      have := length_flatMap_le hle
      rw [List.length_append, List.length_append] at hlen
      omega

/-- Members paired with elements, of which those behind the first ones are always right. -/
theorem forall_mem_zipWith_append_iff {δ : Type} {f : β → γ → δ} {R : δ → Prop} {C : α × β → Prop}
    {as : List α} {cs rest : List γ} {bs : List β}
    (h : List.Forall₂ (fun a c => ∀ b, R (f b c) ↔ C (a, b)) as cs)
    (hrest : ∀ c ∈ rest, ∀ b, R (f b c)) :
    (∀ d ∈ List.zipWith f bs (cs ++ rest), R d) ↔ ∀ x ∈ as.zip bs, C x := by
  induction h generalizing bs with
  | nil =>
    simp only [List.nil_append, List.zip_nil_left, List.not_mem_nil, false_implies, implies_true,
      iff_true]
    intro d hd
    obtain ⟨i, hi, rfl⟩ := List.getElem_of_mem hd
    rw [List.getElem_zipWith]
    exact hrest _ (List.getElem_mem _) _
  | cons hac _ ih =>
    cases bs with
    | nil => simp
    | cons b bs => simp [hac b, ih]

theorem forall₂_zipWith_iff {δ : Type} {f : β → γ → δ} {R : δ → β → Prop} {bs : List β}
    {cs : List γ} (h : bs.length ≤ cs.length) :
    List.Forall₂ R (List.zipWith f bs cs) bs ↔
      ∀ d ∈ List.zipWith (fun b c => (f b c, b)) bs cs, R d.1 d.2 := by
  induction bs generalizing cs with
  | nil => simp
  | cons b bs ih =>
    obtain ⟨c, cs, rfl⟩ := List.exists_cons_of_length_pos (Nat.zero_lt_of_lt h)
    simp [ih (Nat.le_of_succ_le_succ h)]

theorem forall_mem_zip_fst_iff {P : α → Prop} {as : List α} {bs : List β}
    (h : as.length ≤ bs.length) : (∀ x ∈ as.zip bs, P x.1) ↔ ∀ a ∈ as, P a := by
  rw [← List.map_fst_zip h, List.forall_mem_map]
  rw [List.map_fst_zip h]

end Images

end Framing
