import Mathlib.Tactic

/-!
# Custody of handles

A program acquires handles, uses them and releases them. Using or releasing a handle that is not
open is a fault, whether it was never acquired or was released before. A handle may be handed out
again once it was released, so that only the open ones matter for that. For reference, a custody
also records what was acquired and released so far; where no handle is handed out twice, the open
ones are those that were acquired and not released.

## Main definitions

* `Custody`: the open handles, those acquired and released so far, and the faults, with
  `Custody.acquire`, `Custody.touch` and `Custody.release`
* `Custody.Owns c held`: the handles in `held` are the open ones

## Main results

* `Custody.Owns.acquire`, `Custody.Owns.touch`, `Custody.Owns.release`: the three operations on
  lists of handles that are open
* `Custody.Owns.release_absent`: releasing a handle that is not open is a fault
* `Custody.Owns.mem_iff`: the open handles, if none is handed out twice
-/

namespace Machine

/-- The open handles, those acquired and released so far, and those that were used or released while
they were not open. -/
structure Custody (κ : Type) where
  live : List κ
  acquired : List κ
  released : List κ
  faults : List κ
  deriving DecidableEq, Repr

namespace Custody

variable {κ : Type}

/-- Nothing was acquired yet. -/
def empty : Custody κ := ⟨[], [], [], []⟩

/-- Handles are acquired. -/
def acquire (c : Custody κ) (ks : List κ) : Custody κ :=
  { c with live := ks ++ c.live, acquired := ks ++ c.acquired }

/-- Handles are used. -/
def touch [DecidableEq κ] (c : Custody κ) (ks : List κ) : Custody κ :=
  { c with faults := ks.filter (· ∉ c.live) ++ c.faults }

/-- A handle is released. -/
def releaseOne [DecidableEq κ] (c : Custody κ) (k : κ) : Custody κ where
  live := c.live.erase k
  acquired := c.acquired
  released := k :: c.released
  faults := if k ∈ c.live then c.faults else k :: c.faults

/-- Handles are released, one after the other. -/
def release [DecidableEq κ] (c : Custody κ) (ks : List κ) : Custody κ := ks.foldl releaseOne c

/-- The owner has exactly the open handles, each once. Whatever was acquired is open or was
released, and besides that only faults were released. -/
structure Owns (c : Custody κ) (held : List κ) : Prop where
  perm : c.live.Perm held
  nodup : held.Nodup
  log : (c.acquired ++ c.faults).Perm (c.live ++ c.released)

theorem owns_empty : (empty : Custody κ).Owns [] := ⟨.nil, .nil, .nil⟩

variable {c : Custody κ} {held ks : List κ}

theorem Owns.mem_live (h : c.Owns held) {k : κ} : k ∈ c.live ↔ k ∈ held := h.perm.mem_iff

/-- The order in which the handles are listed does not matter. -/
theorem Owns.congr (h : c.Owns held) {held' : List κ} (hp : held.Perm held') : c.Owns held' :=
  ⟨h.perm.trans hp, hp.nodup_iff.mp h.nodup, h.log⟩

/-- **Acquiring handles** that are not open adds them. -/
theorem Owns.acquire (h : c.Owns held) (hn : (ks ++ held).Nodup) :
    (c.acquire ks).Owns (ks ++ held) := by
  refine ⟨h.perm.append_left ks, hn, ?_⟩
  simpa [Custody.acquire] using h.log.append_left ks

section Once

variable (h : c.Owns held) (hn : c.acquired.Nodup) (hf : c.faults = [])
include h hn hf

theorem Owns.live_append_released_nodup : (c.live ++ c.released).Nodup := by
  have hlog := h.log
  rw [hf, List.append_nil] at hlog
  exact hlog.nodup_iff.mp hn

/-- No handle was released twice, if none was handed out twice. -/
theorem Owns.released_nodup : c.released.Nodup :=
  (h.live_append_released_nodup hn hf).of_append_right

/-- **The open handles are those acquired and not released**, if none was handed out twice. -/
theorem Owns.mem_iff (k : κ) : k ∈ held ↔ k ∈ c.acquired ∧ k ∉ c.released := by
  have hlog := h.log
  rw [hf, List.append_nil] at hlog
  have hdis := (List.nodup_append.mp (h.live_append_released_nodup hn hf)).2.2
  rw [hlog.mem_iff, List.mem_append, h.mem_live]
  constructor
  · exact fun hk => ⟨.inl hk, fun hr => hdis k (h.mem_live.mpr hk) k hr rfl⟩
  · rintro ⟨hk | hk, hr⟩
    · exact hk
    · exact absurd hk hr

end Once

variable [DecidableEq κ]

/-- **Using open handles** is no fault. -/
theorem Owns.touch (h : c.Owns held) (hk : ∀ k ∈ ks, k ∈ held) : c.touch ks = c := by
  have hnil : ks.filter (· ∉ c.live) = [] := by
    rw [List.filter_eq_nil_iff]
    intro k hm
    simpa [h.mem_live] using hk k hm
  rw [Custody.touch, hnil, List.nil_append]

theorem Owns.releaseOne {k : κ} (h : c.Owns (k :: held)) :
    (c.releaseOne k).Owns held ∧ (c.releaseOne k).faults = c.faults := by
  have hk : k ∈ c.live := h.mem_live.mpr List.mem_cons_self
  have hfaults : (c.releaseOne k).faults = c.faults := if_pos hk
  refine ⟨⟨?_, h.nodup.of_cons, ?_⟩, hfaults⟩
  · simpa [Custody.releaseOne] using h.perm.erase k
  · rw [hfaults]
    refine h.log.trans ?_
    exact ((List.perm_cons_erase hk).append_right _).trans List.perm_middle.symm

/-- **Releasing handles that are open**, each once, takes them away. -/
theorem Owns.release (h : c.Owns (ks ++ held)) :
    (c.release ks).Owns held ∧ (c.release ks).faults = c.faults := by
  induction ks generalizing c with
  | nil => exact ⟨h, rfl⟩
  | cons k ks ih =>
    obtain ⟨h₁, hf₁⟩ := h.releaseOne
    obtain ⟨h₂, hf₂⟩ := ih h₁
    exact ⟨h₂, hf₂.trans hf₁⟩

/-- **Releasing a handle that is not open** is a fault, and leaves the open ones alone. -/
theorem Owns.release_absent {k : κ} (h : c.Owns held) (hk : k ∉ held) :
    (c.release [k]).Owns held ∧ (c.release [k]).faults = k :: c.faults := by
  have hk' : k ∉ c.live := fun hm => hk (h.mem_live.mp hm)
  have hfaults : (c.release [k]).faults = k :: c.faults := if_neg hk'
  have hlive : (c.release [k]).live = c.live := List.erase_of_not_mem hk'
  refine ⟨⟨hlive ▸ h.perm, h.nodup, ?_⟩, hfaults⟩
  rw [hfaults, hlive]
  exact List.perm_middle.trans ((h.log.cons k).trans List.perm_middle.symm)

theorem release_append (c : Custody κ) (ks ks' : List κ) :
    c.release (ks ++ ks') = (c.release ks).release ks' := List.foldl_append

end Custody

end Machine
