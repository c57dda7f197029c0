import Mathlib.Tactic

/-!
# Slices

A slice is the part of a backing array that starts at its first element, with a length up to
which the elements are visible. Reslicing within the capacity brings elements behind the length
back into view, `copy` overwrites visible elements, and `append` writes into the spare capacity.
A slice value owns its backing array: two slices never share one.

## Main definitions

* `Slice α`: a backing array with a length within its capacity
* `Slice.toList`, `Slice.cap`: the visible elements, and the capacity
* `Slice.reslice`, `Slice.sub`: the slice expressions `s[:n]` and `s[lo:hi]`
* `Slice.copy`, `Slice.copyAt`, `Slice.append`, `Slice.extend`: the operations that write to the
  backing array

## Main results

* `Slice.toList_append`, `Slice.cap_append_of_fits`: appending extends the visible elements, in
  place when they fit
* `Slice.take_toList_copy`: the elements a `copy` wrote
* `Slice.toList_extend`: the visible elements after writing behind the length and extending it
-/

namespace Go

variable {α : Type}

/-- The list `arr` with `xs` written over it from position `off` on. -/
def patch (off : ℕ) (xs arr : List α) : List α :=
  arr.take off ++ xs ++ arr.drop (off + xs.length)

theorem length_patch {off : ℕ} {xs arr : List α} (h : off + xs.length ≤ arr.length) :
    (patch off xs arr).length = arr.length := by
  simp only [patch, List.length_append, List.length_take, List.length_drop]
  omega

theorem take_patch {off : ℕ} (xs : List α) {arr : List α} (h : off ≤ arr.length) :
    (patch off xs arr).take (off + xs.length) = arr.take off ++ xs := by
  have hl : (arr.take off ++ xs).length = off + xs.length := by
    simp only [List.length_append, List.length_take]
    omega
  rw [patch, ← hl, List.take_left]

theorem take_patch_of_le {off n : ℕ} {xs arr : List α} (hoff : off ≤ arr.length)
    (h : off + xs.length ≤ n) : (patch off xs arr).take n = patch off xs (arr.take n) := by
  have hl : (arr.take off ++ xs).length = off + xs.length := by
    rw [List.length_append, List.length_take, min_eq_left hoff]
  have hmin : min off n = off := by omega
  rw [patch, patch, List.take_append, List.take_of_length_le (by omega), hl, List.take_take, hmin,
    List.drop_take]

/-- A slice: its backing array from its first element on, and the number of visible elements. -/
structure Slice (α : Type) where
  arr : List α
  len : ℕ
  len_le : len ≤ arr.length
  deriving DecidableEq, Repr

namespace Slice

/-- The capacity of a slice. -/
def cap (s : Slice α) : ℕ := s.arr.length

/-- The visible elements of a slice. -/
def toList (s : Slice α) : List α := s.arr.take s.len

/-- The slice with exactly the elements `l`, and no spare capacity. -/
def ofList (l : List α) : Slice α := ⟨l, l.length, le_rfl⟩

/-- The slice with the visible elements `l` and the spare capacity `spare`. -/
def withSpare (l spare : List α) : Slice α := ⟨l ++ spare, l.length, by simp⟩

theorem len_le_cap (s : Slice α) : s.len ≤ s.cap := s.len_le

@[simp] theorem length_toList (s : Slice α) : s.toList.length = s.len := by
  simp [toList, s.len_le]

@[simp] theorem toList_ofList (l : List α) : (ofList l).toList = l := by simp [ofList, toList]

@[simp] theorem toList_withSpare (l spare : List α) : (withSpare l spare).toList = l := by
  simp [withSpare, toList]

@[simp] theorem cap_withSpare (l spare : List α) :
    (withSpare l spare).cap = l.length + spare.length := by simp [withSpare, cap]

theorem toList_eq_nil_iff {s : Slice α} : s.toList = [] ↔ s.len = 0 := by
  rw [← List.length_eq_zero_iff, length_toList]

/-- The slice expression `s[:n]`, which panics beyond the capacity. -/
def reslice (s : Slice α) (n : ℕ) : Option (Slice α) :=
  if h : n ≤ s.arr.length then some ⟨s.arr, n, h⟩ else none

/-- The slice expression `s[:cap(s)]`. -/
def full (s : Slice α) : Slice α := ⟨s.arr, s.arr.length, le_rfl⟩

/-- The slice expression `s[:0]`. -/
def clear (s : Slice α) : Slice α := ⟨s.arr, 0, Nat.zero_le _⟩

/-- The elements of `s[lo:hi]`: the upper bound is the capacity, not the length. -/
def sub (s : Slice α) (lo hi : ℕ) : Option (List α) :=
  if lo ≤ hi ∧ hi ≤ s.cap then some ((s.arr.take hi).drop lo) else none

@[simp] theorem toList_clear (s : Slice α) : s.clear.toList = [] := by simp [clear, toList]

@[simp] theorem len_clear (s : Slice α) : s.clear.len = 0 := rfl

@[simp] theorem cap_clear (s : Slice α) : s.clear.cap = s.cap := rfl

theorem reslice_of_le {s : Slice α} {n : ℕ} (h : n ≤ s.cap) :
    s.reslice n = some ⟨s.arr, n, h⟩ := dif_pos h

theorem sub_of_le {s : Slice α} {lo hi : ℕ} (hl : lo ≤ hi) (hh : hi ≤ s.cap) :
    s.sub lo hi = some ((s.arr.take hi).drop lo) := if_pos ⟨hl, hh⟩

theorem sub_eq_some_iff {s : Slice α} {lo hi : ℕ} {l : List α} :
    s.sub lo hi = some l ↔ (lo ≤ hi ∧ hi ≤ s.cap) ∧ (s.arr.take hi).drop lo = l := by
  simp [sub]

theorem take_toList {s : Slice α} {n : ℕ} (h : n ≤ s.len) : s.toList.take n = s.arr.take n := by
  rw [toList, List.take_take, min_eq_left h]

/-- The number of elements `copy(dst, src)` copies. -/
def copied (dst : Slice α) (src : List α) : ℕ := min dst.len src.length

/-- The built-in `copy(dst[off:], src)`: it overwrites visible elements from `off` on. -/
def copyAt (dst : Slice α) (off : ℕ) (src : List α) : Slice α :=
  if h : off ≤ dst.len then
    ⟨patch off (src.take (dst.len - off)) dst.arr, dst.len, by
      have := dst.len_le
      rw [length_patch (by rw [List.length_take]; omega)]
      exact this⟩
  else dst

/-- The built-in `copy(dst, src)`: it overwrites the first visible elements. -/
def copy (dst : Slice α) (src : List α) : Slice α := dst.copyAt 0 src

@[simp] theorem len_copyAt (dst : Slice α) (off : ℕ) (src : List α) :
    (dst.copyAt off src).len = dst.len := by
  unfold copyAt
  split_ifs <;> rfl

@[simp] theorem cap_copyAt (dst : Slice α) (off : ℕ) (src : List α) :
    (dst.copyAt off src).cap = dst.cap := by
  have := dst.len_le
  unfold copyAt
  split_ifs with h
  · exact length_patch (by rw [List.length_take]; omega)
  · rfl

/-- What `copy` leaves visible. -/
theorem toList_copyAt {dst : Slice α} {off : ℕ} (h : off ≤ dst.len) (src : List α) :
    (dst.copyAt off src).toList = patch off (src.take (dst.len - off)) dst.toList := by
  have hle := dst.len_le
  simp only [copyAt, dif_pos h, toList]
  exact take_patch_of_le (h.trans hle) (by rw [List.length_take]; omega)

@[simp] theorem len_copy (dst : Slice α) (src : List α) : (dst.copy src).len = dst.len :=
  dst.len_copyAt 0 src

@[simp] theorem cap_copy (dst : Slice α) (src : List α) : (dst.copy src).cap = dst.cap :=
  dst.cap_copyAt 0 src

theorem arr_copy (dst : Slice α) (src : List α) :
    (dst.copy src).arr = src.take dst.len ++ dst.arr.drop (dst.copied src) := by
  simp [copy, copyAt, patch, copied]

/-- The elements that `copy` wrote. -/
theorem take_toList_copy (dst : Slice α) (src : List α) :
    (dst.copy src).toList.take (dst.copied src) = src.take dst.len := by
  have hl : (src.take dst.len).length = dst.copied src := by
    rw [List.length_take, copied]
  have hc : dst.copied src ≤ dst.len := Nat.min_le_left _ _
  rw [toList, List.take_take, len_copy, min_eq_left hc, arr_copy, List.take_left' hl]

/-- Copying a list that fits makes it the first visible elements. -/
theorem take_toList_copy_of_le {dst : Slice α} {src : List α} (h : src.length ≤ dst.len) :
    (dst.copy src).toList.take src.length = src := by
  have := take_toList_copy dst src
  rwa [copied, min_eq_right h, List.take_of_length_le h] at this

/-- The built-in `append`: in place when the spare capacity holds `xs`, otherwise into a new
array. -/
def append (s : Slice α) (xs : List α) : Slice α :=
  if h : s.len + xs.length ≤ s.arr.length then
    ⟨patch s.len xs s.arr, s.len + xs.length, by rw [length_patch h]; exact h⟩
  -- the old array keeps its contents, and the new one has no spare capacity
  else ofList (s.toList ++ xs)

@[simp] theorem toList_append (s : Slice α) (xs : List α) :
    (s.append xs).toList = s.toList ++ xs := by
  unfold append
  split_ifs with h
  · exact take_patch xs s.len_le
  · exact toList_ofList _

/-- Appending within the capacity keeps the backing array. -/
theorem cap_append_of_fits {s : Slice α} {xs : List α} (h : s.len + xs.length ≤ s.cap) :
    (s.append xs).cap = s.cap := by
  have h' : s.len + xs.length ≤ s.arr.length := h
  simp only [append, dif_pos h', cap]
  exact length_patch h'

/-- The slice with `n` more visible elements, the first of them overwritten by `xs`. -/
def extend (s : Slice α) (n : ℕ) (xs : List α) : Slice α :=
  if h : s.len + n ≤ s.arr.length ∧ xs.length ≤ n then
    ⟨patch s.len xs s.arr, s.len + n, by rw [length_patch (by omega)]; exact h.1⟩
  else s

/-- Extending keeps the visible elements, and shows `xs` and old contents of the array behind
them. -/
theorem toList_extend {s : Slice α} {n : ℕ} {xs : List α} (hn : s.len + n ≤ s.cap)
    (hx : xs.length ≤ n) :
    (s.extend n xs).toList =
      s.toList ++ xs ++ (s.arr.drop (s.len + xs.length)).take (n - xs.length) := by
  have hh : s.len + n ≤ s.arr.length ∧ xs.length ≤ n := ⟨hn, hx⟩
  have hl : (s.arr.take s.len ++ xs).length = s.len + xs.length := by
    have := s.len_le
    rw [List.length_append, List.length_take]
    omega
  simp only [extend, dif_pos hh, toList, patch]
  rw [List.take_append, hl, List.take_of_length_le (by omega)]
  congr 2
  omega

@[simp] theorem cap_extend (s : Slice α) (n : ℕ) (xs : List α) :
    (s.extend n xs).cap = s.cap := by
  unfold extend
  split_ifs with h
  · exact length_patch (by omega)
  · rfl

end Slice

end Go
