import Mathlib.Data.List.DropRight
import Mathlib.Tactic

/-!
# Names of receive functions

`PrettyName` derives a short name for a receive function from the one that the run time has for it,
which consists of the path of the package, the receiver, the name of the function in the source, one
part for every function literal around it, and a mark for method values. Of all that it keeps the
name in the source, and for names that end in a version of the Internet protocol only that version.

Texts are lists of characters here. All the characters that `PrettyName` looks for are ASCII, so
that it does not matter that the source goes by bytes.

## Main definitions

* `PrettyName`: `ReceiveFunc.PrettyName`
* `FuncName`: the parts of a name of the run time

## Main results

* `FuncName.PrettyName_name`: `PrettyName` returns the name in the source, or the version that it
  ends in
-/

namespace BatchUDP

/-- `strings.TrimSuffix`. -/
def trimSuffix (s suffix : List Char) : List Char :=
  if suffix <:+ s then s.take (s.length - suffix.length) else s

/-- What follows the last occurrence of a character, or everything if there is none. -/
def afterLast (c : Char) (s : List Char) : List Char := s.rtakeWhile (· ≠ c)

/-- The part of a name for a function literal, in front of its number. -/
def dotFunc : List Char := ['.', 'f', 'u', 'n', 'c']

/-- The loop of `PrettyName`: it removes the parts for function literals from the end. -/
def stripFuncs (name : List Char) : List Char :=
  if (name.rdropWhile Char.isDigit).length = name.length then name
  else if dotFunc <:+ name.rdropWhile Char.isDigit then
    stripFuncs ((name.rdropWhile Char.isDigit).take
      ((name.rdropWhile Char.isDigit).length - dotFunc.length))
  else name
termination_by name.length
decreasing_by
  have := (List.rdropWhile_prefix Char.isDigit (l := name)).length_le
  simp only [List.length_take]
  omega

/-- The end of `PrettyName`: the version of the Internet protocol, if the name ends in one. -/
def label (pointer name : List Char) : List Char :=
  if name = [] then pointer
  else if ['I', 'P', 'v', '4'] <:+ name then ['v', '4']
  else if ['I', 'P', 'v', '6'] <:+ name then ['v', '6']
  else name

/-- `ReceiveFunc.PrettyName`, with the text of the pointer and the name of the run time. -/
def PrettyName (pointer name : List Char) : List Char :=
  label pointer (afterLast '.' (stripFuncs (afterLast '/' (trimSuffix name ['-', 'f', 'm']))))

/-- The number of a function literal. -/
structure IsNumber (ds : List Char) : Prop where
  ne_nil : ds ≠ []
  isDigit : ∀ d ∈ ds, d.isDigit = true

/-- The parts of a name of the run time: what is in front of the name in the source, which is
nothing or ends in a dot or a slash; that name, which is an identifier, but not one that looks like
a function literal; the numbers of the function literals; and whether it is a method value. -/
structure FuncName where
  qualifier : List Char
  ident : List Char
  literals : List (List Char)
  isMethodValue : Bool
  qualifier_eq : qualifier = [] ∨ ∃ q, qualifier = q ++ ['.'] ∨ qualifier = q ++ ['/']
  ident_ne_nil : ident ≠ []
  ident_chars : '.' ∉ ident ∧ '/' ∉ ident ∧ '-' ∉ ident
  ident_ne : ∀ ds, IsNumber ds → ident ≠ 'f' :: 'u' :: 'n' :: 'c' :: ds
  literals_number : ∀ ds ∈ literals, IsNumber ds

namespace FuncName

/-- The parts for the function literals. -/
def funcs (n : FuncName) : List Char := n.literals.flatMap (dotFunc ++ ·)

/-- The name. -/
def name (n : FuncName) : List Char :=
  n.qualifier ++ n.ident ++ n.funcs ++ if n.isMethodValue then ['-', 'f', 'm'] else []

end FuncName

/-! ## The steps of `PrettyName` -/

section Steps

theorem trimSuffix_append (s suffix : List Char) : trimSuffix (s ++ suffix) suffix = s := by
  rw [trimSuffix, if_pos (List.suffix_append s suffix), List.length_append, Nat.add_sub_cancel,
    List.take_left]

/-- What follows the last occurrence of a character extends to what is appended without it. -/
theorem afterLast_append {c : Char} (s : List Char) {t : List Char} (ht : c ∉ t) :
    afterLast c (s ++ t) = afterLast c s ++ t := by
  induction t using List.reverseRecOn with
  | nil => simp
  | append_singleton t x ih =>
    simp only [List.mem_append, List.mem_singleton, not_or] at ht
    have hx : (fun y : Char => decide (y ≠ c)) x = true := by simpa using Ne.symm ht.2
    rw [← List.append_assoc, afterLast, List.rtakeWhile_concat_pos (fun y => decide (y ≠ c)) _ x hx]
    have := ih ht.1
    rw [afterLast] at this
    rw [this, List.append_assoc]

theorem afterLast_concat_self (c : Char) (s : List Char) : afterLast c (s ++ [c]) = [] :=
  List.rtakeWhile_concat_neg _ _ _ (by simp)

theorem rdropWhile_append_number {ds : List Char} (hd : ∀ d ∈ ds, d.isDigit = true) {s : List Char}
    {c : Char} (hc : c.isDigit = false) :
    (s ++ [c] ++ ds).rdropWhile Char.isDigit = s ++ [c] := by
  induction ds using List.reverseRecOn with
  | nil =>
    rw [List.append_nil]
    exact List.rdropWhile_concat_neg _ _ _ (by simp [hc])
  | append_singleton ds d ih =>
    rw [← List.append_assoc, List.rdropWhile_concat_pos _ _ _ (hd d (by simp))]
    exact ih fun d hm => hd d (List.mem_append_left _ hm)

/-- The loop removes the part for a function literal. -/
theorem stripFuncs_append {ds : List Char} (h : IsNumber ds) (s : List Char) :
    stripFuncs (s ++ (dotFunc ++ ds)) = stripFuncs s := by
  have hdrop : (s ++ (dotFunc ++ ds)).rdropWhile Char.isDigit = s ++ dotFunc := by
    have := @rdropWhile_append_number ds h.isDigit (s ++ ['.', 'f', 'u', 'n']) 'c' (by decide)
    simpa [dotFunc] using this
  have hlen : (s ++ dotFunc).length ≠ (s ++ (dotFunc ++ ds)).length := by
    have hpos := List.length_pos_iff.mpr h.ne_nil
    simp only [List.length_append]
    omega
  rw [stripFuncs, hdrop, if_neg hlen, if_pos (List.suffix_append s dotFunc), List.length_append,
    Nat.add_sub_cancel, List.take_left]

theorem stripFuncs_funcs {literals : List (List Char)} (h : ∀ ds ∈ literals, IsNumber ds)
    (s : List Char) : stripFuncs (s ++ literals.flatMap (dotFunc ++ ·)) = stripFuncs s := by
  induction literals using List.reverseRecOn with
  | nil => simp
  | append_singleton literals ds ih =>
    rw [List.flatMap_append, ← List.append_assoc, List.flatMap_singleton,
      stripFuncs_append (h ds (by simp)), ih fun ds hm => h ds (List.mem_append_left _ hm)]

/-- The loop ends at a name that is not that of a function literal. -/
theorem stripFuncs_of_ne {s : List Char}
    (h : ∀ ds, IsNumber ds → afterLast '.' s ≠ 'f' :: 'u' :: 'n' :: 'c' :: ds) :
    stripFuncs s = s := by
  rw [stripFuncs]
  split_ifs with hlen hsuf
  · rfl
  · exfalso
    have hsplit : s.rdropWhile Char.isDigit ++ s.rtakeWhile Char.isDigit = s :=
      List.rdropWhile_append_rtakeWhile
    obtain ⟨q, hq⟩ := hsuf
    have hnum : IsNumber (s.rtakeWhile Char.isDigit) := by
      refine ⟨fun hnil => hlen ?_, fun d hd => ?_⟩
      · rw [hnil, List.append_nil] at hsplit
        rw [hsplit]
      · exact List.mem_rtakeWhile_imp hd
    refine h _ hnum ?_
    have hdot : '.' ∉ 'f' :: 'u' :: 'n' :: 'c' :: s.rtakeWhile Char.isDigit := by
      intro hm
      simp only [List.mem_cons, Char.reduceEq, false_or] at hm
      exact absurd (hnum.isDigit _ hm) (by decide)
    calc afterLast '.' s
        = afterLast '.' (q ++ ['.'] ++ 'f' :: 'u' :: 'n' :: 'c' :: s.rtakeWhile Char.isDigit) := by
          conv_lhs => rw [← hsplit, ← hq]
          simp [dotFunc]
      _ = 'f' :: 'u' :: 'n' :: 'c' :: s.rtakeWhile Char.isDigit := by
          rw [afterLast_append _ hdot, afterLast_concat_self, List.nil_append]
  · rfl

end Steps

namespace FuncName

theorem not_mem_funcs (n : FuncName) {c : Char} (hc : c ∉ dotFunc) (hd : c.isDigit = false) :
    c ∉ n.funcs := by
  intro hm
  obtain ⟨ds, hds, hm⟩ := List.mem_flatMap.mp hm
  rcases List.mem_append.mp hm with hm | hm
  · exact hc hm
  · rw [(n.literals_number ds hds).isDigit c hm] at hd
    cases hd

/-- The mark for method values is removed. -/
theorem trimSuffix_name (n : FuncName) :
    trimSuffix n.name ['-', 'f', 'm'] = n.qualifier ++ (n.ident ++ n.funcs) := by
  unfold name
  rw [List.append_assoc n.qualifier]
  cases n.isMethodValue with
  | true => exact trimSuffix_append _ _
  | false =>
    have hdash : '-' ∉ n.ident ++ n.funcs := by
      simp [n.ident_chars.2.2, n.not_mem_funcs (c := '-') (by decide) (by decide)]
    have hsep : ∀ q c, n.qualifier = q ++ [c] → c ≠ '-' → c ∉ ['-', 'f', 'm'] →
        ¬ ['-', 'f', 'm'] <:+ n.qualifier ++ (n.ident ++ n.funcs) := by
      intro q c hq hne hc hs
      rw [hq, List.append_assoc] at hs
      rcases List.suffix_or_suffix_of_suffix hs (List.suffix_append q _) with h | h
      · have := h.subset (List.mem_cons_self (a := '-') (l := ['f', 'm']))
        simp only [List.singleton_append, List.mem_cons] at this
        exact this.elim (fun he => hne he.symm) hdash
      · exact hc (h.subset (by simp))
    rw [if_neg (by simp), List.append_nil, trimSuffix, if_neg]
    rcases n.qualifier_eq with hq | ⟨q, hq | hq⟩
    · rw [hq, List.nil_append]
      exact fun hs => hdash (hs.subset (by simp))
    · exact hsep q '.' hq (by decide) (by decide)
    · exact hsep q '/' hq (by decide) (by decide)

/-- `PrettyName` finds the name in the source. -/
theorem PrettyName_eq_label (pointer : List Char) (n : FuncName) :
    PrettyName pointer n.name = label pointer n.ident := by
  obtain ⟨hdot, hslash, -⟩ := n.ident_chars
  have hfuncs : '/' ∉ n.funcs := n.not_mem_funcs (by decide) (by decide)
  have hrest : '/' ∉ n.ident ++ n.funcs := by simp [hslash, hfuncs]
  have hq : afterLast '.' (afterLast '/' n.qualifier) = [] := by
    rcases n.qualifier_eq with hq | ⟨q, hq | hq⟩
    · rw [hq]
      rfl
    · rw [hq, afterLast_append q (by decide), afterLast_concat_self]
    · rw [hq, afterLast_concat_self]
      rfl
  have hident : afterLast '.' (afterLast '/' n.qualifier ++ n.ident) = n.ident := by
    rw [afterLast_append _ hdot, hq, List.nil_append]
  rw [PrettyName, trimSuffix_name, afterLast_append _ hrest, ← List.append_assoc, funcs,
    stripFuncs_funcs n.literals_number, stripFuncs_of_ne (by rw [hident]; exact n.ident_ne), hident]

/-- **`PrettyName` returns the version of the Internet protocol that the name in the source ends in,
or else that name**, whatever the package, the receiver and the nesting of function literals. -/
theorem PrettyName_name (pointer : List Char) (n : FuncName) :
    (['I', 'P', 'v', '4'] <:+ n.ident → PrettyName pointer n.name = ['v', '4']) ∧
      (['I', 'P', 'v', '6'] <:+ n.ident → PrettyName pointer n.name = ['v', '6']) ∧
      (¬ ['I', 'P', 'v', '4'] <:+ n.ident → ¬ ['I', 'P', 'v', '6'] <:+ n.ident →
        PrettyName pointer n.name = n.ident) := by
  rw [PrettyName_eq_label, label, if_neg n.ident_ne_nil]
  refine ⟨fun h4 => if_pos h4, fun h6 => ?_, fun h4 h6 => ?_⟩
  · have h4 : ¬ ['I', 'P', 'v', '4'] <:+ n.ident := fun h4 => by
      have := (List.suffix_of_suffix_length_le h4 h6 le_rfl).eq_of_length rfl
      simp at this
    rw [if_neg h4, if_pos h6]
  · rw [if_neg h4, if_neg h6]

/-- A closure in a method of a package. -/
def makeReceiveIPv6 : FuncName where
  qualifier := "github.com/asciimoth/batchudp.(*StdNetBind).".toList
  ident := "makeReceiveIPv6".toList
  literals := ["1".toList, "12".toList]
  isMethodValue := true
  qualifier_eq := .inr ⟨"github.com/asciimoth/batchudp.(*StdNetBind)".toList, .inl (by decide)⟩
  ident_ne_nil := by decide
  ident_chars := by decide
  ident_ne := by
    intro ds _ he
    have hne : "makeReceiveIPv6".toList.head? ≠ some 'f' := by decide
    exact hne (congrArg List.head? he)
  literals_number := by
    intro ds hm
    fin_cases hm
    · exact ⟨by decide, List.all_eq_true.mp (by decide)⟩
    · exact ⟨by decide, List.all_eq_true.mp (by decide)⟩

theorem PrettyName_name_makeReceiveIPv6 :
    makeReceiveIPv6.name = ("github.com/asciimoth/batchudp.(*StdNetBind).makeReceiveIPv6" ++
      ".func1.func12-fm").toList ∧ PrettyName [] makeReceiveIPv6.name = "v6".toList :=
  ⟨by decide, (PrettyName_name [] makeReceiveIPv6).2.1 (by decide)⟩

end FuncName

end BatchUDP
