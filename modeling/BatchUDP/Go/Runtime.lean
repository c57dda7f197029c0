import Mathlib.Tactic

/-!
# Errors and object pools

The parts of the Go run time that a datagram sender touches besides slices: error values with the
trees that `errors.Is` and `errors.As` search, and `sync.Pool`, which hands back any object put into
it earlier or makes a new one.

## Main definitions

* `Errno`, `Error`: system error numbers, and error values
* `Error.is`: `errors.Is` with an error number as the target
* `Error.isValue`: `errors.Is` with an error value such as `errClosed` as the target
* `Error.asSyscallError`: `errors.As` with the target type `*os.SyscallError`
* `errClosed`, `errShortBuffer`, `errNoProgress`: errors of the standard library
* `Pool.get`: `sync.Pool.Get`, with the object it hands back chosen by the run

## Main results

* `Pool.forall_get`: what holds of all pooled objects and of new ones holds of the object handed
  back and of those left behind
-/

namespace Go

/-- System error numbers. -/
inductive Errno where
  | eio
  | einval
  | emsgsize
  | eaddrinuse
  | eafnosupport
  | other (code : ℕ)
  deriving DecidableEq, Repr

/-- Error values: error numbers, texts, the wrappers around another error, and joined errors. -/
inductive Error where
  | errno (e : Errno)
  | text (msg : String)
  | syscallError (call : String) (err : Error)
  | opError (op : String) (err : Error)
  | wrapped (msg : String) (err : Error)
  | joined (err err' : Error)
  deriving DecidableEq, Repr

/-- `errors.Is` with an error number as the target: whether it occurs in the tree. -/
def Error.is (target : Errno) : Error → Bool
  | .errno e => e = target
  | .text _ => false
  | .syscallError _ e => e.is target
  | .opError _ e => e.is target
  | .wrapped _ e => e.is target
  | .joined e e' => e.is target || e'.is target

/-- `errors.Is` with the value of a variable such as `net.ErrClosed` as the target, which is not a
wrapper: whether it occurs in the tree. -/
def Error.isValue : Error → Error → Bool
  | .errno e, target => .errno e = target
  | .text msg, target => .text msg = target
  | .syscallError _ e, target => e.isValue target
  | .opError _ e, target => e.isValue target
  | .wrapped _ e, target => e.isValue target
  | .joined e e', target => e.isValue target || e'.isValue target

/-- `errors.As` with the target `*os.SyscallError`: the error inside the first such wrapper in the
tree. -/
def Error.asSyscallError : Error → Option Error
  | .syscallError _ e => some e
  | .opError _ e => e.asSyscallError
  | .wrapped _ e => e.asSyscallError
  | .joined e e' => e.asSyscallError <|> e'.asSyscallError
  | .errno _ => none
  | .text _ => none

/-- `net.ErrClosed`. -/
def errClosed : Error := .text "use of closed network connection"

/-- `io.ErrShortBuffer`. -/
def errShortBuffer : Error := .text "short buffer"

/-- `io.ErrNoProgress`. -/
def errNoProgress : Error := .text "multiple Read calls return no data or error"

namespace Pool

variable {α : Type}

/-- `sync.Pool.Get` on the objects put back earlier. The run chooses: `pick` selects one of them,
and any other value stands for an object made by `New`. -/
def get (new : α) (pick : ℕ) (pool : List α) : α × List α :=
  match pool[pick]? with
  | some a => (a, pool.eraseIdx pick)
  | none => (new, pool)

/-- What holds of all pooled objects and of new ones holds of the object handed back and of those
left behind. -/
theorem forall_get {P : α → Prop} {new : α} {pool : List α} (hn : P new)
    (hp : ∀ a ∈ pool, P a) (pick : ℕ) :
    P (get new pick pool).1 ∧ ∀ a ∈ (get new pick pool).2, P a := by
  unfold get
  cases h : pool[pick]? with
  | some a => exact ⟨hp a (List.mem_of_getElem? h), fun b hb => hp b (List.mem_of_mem_eraseIdx hb)⟩
  | none => exact ⟨hn, hp⟩

end Pool

end Go
