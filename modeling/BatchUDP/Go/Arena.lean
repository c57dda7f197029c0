import BatchUDP.Go.Slice
import Mathlib.Order.CompletePartialOrder

/-!
# Slices of one array

Slices may share their backing array: each is then an offset, a length and a capacity, and writing
through one of them changes what others show. Copying from one place of the array to another is a
move. A sequence of moves that only read from a set of addresses leaves that set as it was, whatever
the array contains, exactly when no move that changes places touches it: what such a move overwrites
is lost, since later moves only read from the set.

## Main definitions

* `View`, `View.read`, `View.append`: a slice of an array, what it shows, and the built-in `append`
* `Move`, `Move.run`, `runMoves`: copying within an array, and a sequence of moves
* `Move.Harmless S`: a move that stays in place or does not touch `S`

## Main results

* `getElem?_run`: a move said element by element
* `forall_harmless_iff`: moves that read from `S` leave `S` as it was iff all are harmless
-/

namespace Go

variable {α : Type}

theorem getElem?_patch {off : ℕ} {xs arr : List α} (h : off + xs.length ≤ arr.length) (i : ℕ) :
    (patch off xs arr)[i]? =
      if off ≤ i ∧ i < off + xs.length then xs[i - off]? else arr[i]? := by
  have hl : (arr.take off).length = off := by rw [List.length_take]; omega
  rw [patch, List.append_assoc]
  split_ifs with hi
  · rw [List.getElem?_append_right (by omega), hl, List.getElem?_append_left (by omega)]
  · rcases Nat.lt_or_ge i off with hlt | hge
    · rw [List.getElem?_append_left (by omega), List.getElem?_take_of_lt hlt]
    · rw [List.getElem?_append_right (by omega), hl, List.getElem?_append_right (by omega),
        List.getElem?_drop]
      congr 1
      omega

/-! ## Views -/

/-- A slice of an array: the offset of its first element, and the number of elements that are
visible and that it may grow to. -/
structure View where
  off : ℕ
  len : ℕ
  cap : ℕ
  len_le : len ≤ cap
  deriving DecidableEq, Repr

namespace View

/-- The elements that a slice shows. -/
def read (v : View) (mem : List α) : List α := (mem.drop v.off).take v.len

/-- The built-in `append(v, w...)`: in place when the spare capacity holds the elements of `w`,
otherwise into a new array. -/
def append (v w : View) (mem : List α) : View × List α :=
  if h : v.len + w.len ≤ v.cap then
    (⟨v.off, v.len + w.len, v.cap, h⟩, patch (v.off + v.len) (w.read mem) mem)
  else (⟨mem.length, v.len + w.len, v.len + w.len, le_rfl⟩, mem ++ (v.read mem ++ w.read mem))

/-- The addresses of the visible elements. -/
def visible (v : View) : Set ℕ := Set.Ico v.off (v.off + v.len)

theorem getElem?_read (v : View) (mem : List α) {i : ℕ} (hi : i < v.len) :
    (v.read mem)[i]? = mem[v.off + i]? := by
  rw [read, List.getElem?_take_of_lt hi, List.getElem?_drop]

theorem read_eq_iff (v : View) {mem mem' : List α} :
    v.read mem' = v.read mem ↔ ∀ i ∈ v.visible, mem'[i]? = mem[i]? := by
  constructor
  · rintro h i ⟨h1, h2⟩
    have he : (v.read mem')[i - v.off]? = (v.read mem)[i - v.off]? := by rw [h]
    rwa [v.getElem?_read mem' (by omega), v.getElem?_read mem (by omega),
      show v.off + (i - v.off) = i by omega] at he
  · intro h
    apply List.ext_getElem?
    intro i
    by_cases hi : i < v.len
    · rw [v.getElem?_read mem' hi, v.getElem?_read mem hi]
      exact h _ ⟨by omega, by omega⟩
    · rw [read, read, List.getElem?_take_eq_none (by omega), List.getElem?_take_eq_none (by omega)]

end View

/-! ## Moves -/

/-- Copying `len` elements from one offset of an array to another. -/
structure Move where
  dst : ℕ
  src : ℕ
  len : ℕ
  deriving DecidableEq, Repr

/-- The array after a move. The elements are read before any is written. -/
def Move.run (m : Move) (mem : List α) : List α := patch m.dst ((mem.drop m.src).take m.len) mem

/-- The array after a sequence of moves. -/
def runMoves (ms : List Move) (mem : List α) : List α := ms.foldl (fun mem m => m.run mem) mem

@[simp] theorem runMoves_append (ms ms' : List Move) (mem : List α) :
    runMoves (ms ++ ms') mem = runMoves ms' (runMoves ms mem) := List.foldl_append

namespace Move

/-- A move within an array of `n` elements. -/
structure InBounds (n : ℕ) (m : Move) : Prop where
  dst_le : m.dst + m.len ≤ n
  src_le : m.src + m.len ≤ n

/-- The addresses that a move writes to. -/
def target (m : Move) : Set ℕ := Set.Ico m.dst (m.dst + m.len)

/-- A move that stays in place, or that does not touch the given addresses. -/
def Harmless (S : Set ℕ) (m : Move) : Prop := m.dst = m.src ∨ Disjoint m.target S

/-- A move that reads from the given addresses. -/
def ReadsFrom (S : Set ℕ) (m : Move) : Prop := Set.Ico m.src (m.src + m.len) ⊆ S

end Move

section Moves

variable {n : ℕ} {m : Move} {ms : List Move} {S : Set ℕ} {mem mem' : List α}

theorem length_run (hb : m.InBounds n) (hn : mem.length = n) : (m.run mem).length = n := by
  have h1 := hb.dst_le
  have h2 := hb.src_le
  rw [Move.run, length_patch, hn]
  rw [List.length_take, List.length_drop]
  omega

/-- A move, element by element. -/
theorem getElem?_run (hb : m.InBounds n) (hn : mem.length = n) (i : ℕ) :
    (m.run mem)[i]? =
      if m.dst ≤ i ∧ i < m.dst + m.len then mem[m.src + (i - m.dst)]? else mem[i]? := by
  have h1 := hb.dst_le
  have h2 := hb.src_le
  have hl : ((mem.drop m.src).take m.len).length = m.len := by
    rw [List.length_take, List.length_drop]
    omega
  rw [Move.run, getElem?_patch (by omega), hl]
  split_ifs with hi
  · rw [List.getElem?_take_of_lt (by omega), List.getElem?_drop]
  · rfl

/-- Moves that read from `S` act on `S` alone. -/
theorem agree_run (hb : m.InBounds n) (hs : m.ReadsFrom S) (hn : mem.length = n)
    (hn' : mem'.length = n) (h : ∀ i ∈ S, mem[i]? = mem'[i]?) :
    ∀ i ∈ S, (m.run mem)[i]? = (m.run mem')[i]? := by
  intro i hi
  rw [getElem?_run hb hn, getElem?_run hb hn']
  split_ifs with ht
  · obtain ⟨h1, h2⟩ := ht
    exact h _ (hs ⟨by omega, by omega⟩)
  · exact h i hi

theorem agree_runMoves (hb : ∀ m ∈ ms, m.InBounds n) (hs : ∀ m ∈ ms, m.ReadsFrom S)
    (hn : mem.length = n) (hn' : mem'.length = n) (h : ∀ i ∈ S, mem[i]? = mem'[i]?) :
    ∀ i ∈ S, (runMoves ms mem)[i]? = (runMoves ms mem')[i]? := by
  induction ms generalizing mem mem' with
  | nil => exact h
  | cons m ms ih =>
    obtain ⟨hbm, hb⟩ := List.forall_mem_cons.mp hb
    obtain ⟨hsm, hs⟩ := List.forall_mem_cons.mp hs
    exact ih hb hs (length_run hbm hn) (length_run hbm hn') (agree_run hbm hsm hn hn' h)

theorem keeps_of_harmless (hb : m.InBounds n) (hn : mem.length = n) (hm : m.Harmless S) :
    ∀ i ∈ S, (m.run mem)[i]? = mem[i]? := by
  intro i hi
  rw [getElem?_run hb hn]
  split_ifs with ht
  · rcases hm with he | hd
    · obtain ⟨h1, h2⟩ := ht
      rw [← he, show m.dst + (i - m.dst) = i by omega]
    · exact absurd hi (Set.disjoint_left.mp hd ht)
  · rfl

/-- A move that changes places loses an element: the first or the last of those that it overwrites
is not among those that are moved over them. -/
theorem exists_lost (hm : ¬ m.Harmless S) :
    ∃ q ∈ S, q ∈ m.target ∧ ∀ i ∈ S, i ∈ m.target → m.src + (i - m.dst) ≠ q := by
  classical
  obtain ⟨hne, hd⟩ := not_or.mp hm
  obtain ⟨a, hat, haS⟩ := Set.not_disjoint_iff.mp hd
  let T : Finset ℕ := (Finset.Ico m.dst (m.dst + m.len)).filter (· ∈ S)
  have hmem {i : ℕ} : i ∈ T ↔ i ∈ m.target ∧ i ∈ S := by
    simp [T, Move.target]
  have hT : T.Nonempty := ⟨a, hmem.mpr ⟨hat, haS⟩⟩
  rcases Nat.lt_or_gt_of_ne hne with hlt | hgt
  · obtain ⟨hq, hqS⟩ := hmem.mp (T.min'_mem hT)
    refine ⟨T.min' hT, hqS, hq, fun i hi hit he => ?_⟩
    have := T.min'_le i (hmem.mpr ⟨hit, hi⟩)
    have h1 : m.dst ≤ i := hit.1
    omega
  · obtain ⟨hq, hqS⟩ := hmem.mp (T.max'_mem hT)
    refine ⟨T.max' hT, hqS, hq, fun i hi hit he => ?_⟩
    have := T.le_max' i (hmem.mpr ⟨hit, hi⟩)
    have h1 : m.dst ≤ i := hit.1
    omega

/-- Arrays that differ only in the element that a move loses are the same after it. -/
theorem agree_run_of_lost (hb : m.InBounds n) (hs : m.ReadsFrom S) (hn : mem.length = n)
    (hn' : mem'.length = n) {q : ℕ} (hq : q ∈ m.target)
    (hlost : ∀ i ∈ S, i ∈ m.target → m.src + (i - m.dst) ≠ q)
    (h : ∀ i ∈ S, i ≠ q → mem[i]? = mem'[i]?) :
    ∀ i ∈ S, (m.run mem)[i]? = (m.run mem')[i]? := by
  intro i hi
  rw [getElem?_run hb hn, getElem?_run hb hn']
  split_ifs with ht
  · have hne := hlost i hi ht
    obtain ⟨h1, h2⟩ := ht
    exact h _ (hs ⟨by omega, by omega⟩) hne
  · exact h i hi fun he => ht (he ▸ hq)

/-- **Moves that read from `S` leave `S` as it was, whatever the array contains, iff all of them are
harmless.** -/
theorem forall_harmless_iff [Nontrivial α] (hb : ∀ m ∈ ms, m.InBounds n)
    (hs : ∀ m ∈ ms, m.ReadsFrom S) :
    (∀ mem : List α, mem.length = n → ∀ i ∈ S, (runMoves ms mem)[i]? = mem[i]?) ↔
      ∀ m ∈ ms, m.Harmless S := by
  induction ms with
  | nil => simp [runMoves]
  | cons m ms ih =>
    obtain ⟨hbm, hb⟩ := List.forall_mem_cons.mp hb
    obtain ⟨hsm, hs⟩ := List.forall_mem_cons.mp hs
    rw [List.forall_mem_cons]
    constructor
    · intro hkeep
      have hm : m.Harmless S := by
        by_contra hm
        obtain ⟨q, hqS, hq, hlost⟩ := exists_lost hm
        obtain ⟨a, b, hab⟩ := exists_pair_ne α
        have hqn : q < n := lt_of_lt_of_le hq.2 hbm.dst_le
        -- two arrays that differ in the lost element are the same on `S` after the first move
        have hn : (List.replicate n a).length = n := List.length_replicate
        have hn' : ((List.replicate n a).set q b).length = n := by rw [List.length_set, hn]
        have hdiff : ∀ i ∈ S, i ≠ q →
            (List.replicate n a)[i]? = ((List.replicate n a).set q b)[i]? := by
          intro i _ hne
          exact (List.getElem?_set_ne hne.symm).symm
        have hrest := agree_runMoves hb hs (length_run hbm hn) (length_run hbm hn')
          (agree_run_of_lost hbm hsm hn hn' hq hlost hdiff)
        have h0 := hkeep (List.replicate n a) hn q hqS
        have h1 := hkeep ((List.replicate n a).set q b) hn' q hqS
        rw [List.getElem?_set_self (by simpa using hqn)] at h1
        rw [List.getElem?_replicate_of_lt hqn] at h0
        have he := (h0.symm.trans (hrest q hqS)).trans h1
        exact hab (Option.some.inj he)
      refine ⟨hm, (ih hb hs).mp fun mem hn i hi => ?_⟩
      have hagree := agree_runMoves hb hs (length_run hbm hn) hn (keeps_of_harmless hbm hn hm) i hi
      exact hagree.symm.trans (hkeep mem hn i hi)
    · rintro ⟨hm, hms⟩ mem hn i hi
      have hrest := (ih hb hs).mpr hms (m.run mem) (length_run hbm hn) i hi
      exact hrest.trans (keeps_of_harmless hbm hn hm i hi)

end Moves

end Go
