import BatchUDP.Go.Runtime

/-!
# Socket options

A raw connection runs functions on its socket, and those set and read options of the socket. The
system answers each of these calls as it likes. Options are set by lists of control functions, which
are called in order up to the first error.

## Main definitions

* `Sockopt`, `RawConn`, `Answers`: options, a socket with its options, and what the system answers
* `RawConn.Control`, `RawConn.SetsockoptInt`, `RawConn.GetsockoptInt`: the calls
* `ControlFn`, `runControlFns`: functions that configure a socket, and a list of them
* `ControlFn.Keeps`: a control function keeps a property of the options

## Main results

* `keeps_runControlFns`: what every function keeps, the list keeps
* `establishes_runControlFns`: what one function establishes and every function keeps holds behind a
  list that ends without an error
-/

namespace Unix

open Go

/-- Socket options, under the names that they have for `setsockopt` and `getsockopt`. -/
inductive Sockopt where
  | soRcvbuf
  | soSndbuf
  | soRcvbufforce
  | soSndbufforce
  | ipPktinfo
  | ipv6Recvpktinfo
  | ipv6V6only
  | udpSegment
  | udpGRO
  deriving DecidableEq, Repr

/-- What the system answers for one socket: the error of each call of `Control`, if it fails, and of
setting and of reading an option. -/
structure Answers where
  control : ℕ → Option Error
  set : Sockopt → Option Errno
  get : Sockopt → Option Errno

/-- `syscall.RawConn`: the calls of `Control` so far, and the options of the socket. -/
structure RawConn where
  controls : ℕ
  options : Sockopt → ℕ

namespace RawConn

/-- A new socket. -/
def new : RawConn := ⟨0, fun _ => 0⟩

/-- `Control`: a function is run on the socket, or the call fails. -/
def Control {β : Type} (a : Answers) (f : RawConn → β × RawConn) (c : RawConn) :
    Except Error β × RawConn :=
  let c' := { c with controls := c.controls + 1 }
  match a.control c.controls with
  | some err => (.error err, c')
  | none => ((.ok (f c').1), (f c').2)

/-- `SetsockoptInt`. -/
def SetsockoptInt (a : Answers) (o : Sockopt) (value : ℕ) (c : RawConn) : Option Errno × RawConn :=
  match a.set o with
  | some err => (some err, c)
  | none => (none, { c with options := Function.update c.options o value })

/-- `GetsockoptInt`. -/
def GetsockoptInt (a : Answers) (o : Sockopt) (c : RawConn) : Except Errno ℕ :=
  match a.get o with
  | some err => .error err
  | none => .ok (c.options o)

/-- Options that are set one after the other, whatever comes of it. -/
def setAll (a : Answers) : List (Sockopt × ℕ) → RawConn → RawConn
  | [], c => c
  | (o, value) :: os, c => setAll a os (c.SetsockoptInt a o value).2

section Options

variable {a : Answers} {c : RawConn}

theorem options_SetsockoptInt {o o' : Sockopt} {value : ℕ} (h : o ≠ o') :
    (c.SetsockoptInt a o value).2.options o' = c.options o' := by
  unfold SetsockoptInt
  split
  · rfl
  · exact Function.update_of_ne h.symm _ _

theorem options_setAll {os : List (Sockopt × ℕ)} {o : Sockopt} (h : ∀ x ∈ os, x.1 ≠ o) :
    (c.setAll a os).options o = c.options o := by
  induction os generalizing c with
  | nil => rfl
  | cons x os ih =>
    obtain ⟨hx, hos⟩ := List.forall_mem_cons.mp h
    rw [setAll, ih hos, options_SetsockoptInt hx]

/-- A function that is run on the socket, and that keeps a property of the options. -/
theorem keeps_Control {β : Type} {P : (Sockopt → ℕ) → Prop} {f : RawConn → β × RawConn}
    (hf : ∀ c, P c.options → P (f c).2.options) (h : P c.options) :
    P (c.Control a f).2.options := by
  unfold Control
  split
  · exact h
  · exact hf _ h

end Options

end RawConn

/-- A function that configures a socket of the named network. -/
abbrev ControlFn := String → RawConn → Option Error × RawConn

/-- Control functions are called in order, up to the first error. -/
def runControlFns (network : String) : List ControlFn → RawConn → Option Error × RawConn
  | [], c => (none, c)
  | fn :: fns, c =>
    match fn network c with
    | (some err, c) => (some err, c)
    | (none, c) => runControlFns network fns c

/-- A control function keeps a property of the options. -/
def ControlFn.Keeps (network : String) (P : (Sockopt → ℕ) → Prop) (fn : ControlFn) : Prop :=
  ∀ c, P c.options → P (fn network c).2.options

section Run

variable {network : String} {P : (Sockopt → ℕ) → Prop} {fns : List ControlFn} {c : RawConn}

/-- What every function keeps, the list keeps. -/
theorem keeps_runControlFns (hk : ∀ fn ∈ fns, ControlFn.Keeps network P fn) (h : P c.options) :
    P (runControlFns network fns c).2.options := by
  induction fns generalizing c with
  | nil => exact h
  | cons fn fns ih =>
    obtain ⟨hfn, hfns⟩ := List.forall_mem_cons.mp hk
    have hc := hfn c h
    rcases he : fn network c with ⟨- | err, c'⟩
    · rw [he] at hc
      simp only [runControlFns, he]
      exact ih hfns hc
    · rw [he] at hc
      simp only [runControlFns, he]
      exact hc

/-- **What one function establishes** if it succeeds, and every function keeps, holds behind a list
that ends without an error. -/
theorem establishes_runControlFns (hk : ∀ fn ∈ fns, ControlFn.Keeps network P fn) {fn : ControlFn}
    (hmem : fn ∈ fns) (hfn : ∀ c, (fn network c).1 = none → P (fn network c).2.options)
    (h : (runControlFns network fns c).1 = none) : P (runControlFns network fns c).2.options := by
  induction fns generalizing c with
  | nil => simp at hmem
  | cons g fns ih =>
    obtain ⟨-, hfns⟩ := List.forall_mem_cons.mp hk
    rcases he : g network c with ⟨- | err, c'⟩
    · simp only [runControlFns, he] at h ⊢
      rcases List.mem_cons.mp hmem with rfl | hmem
      · have hc := hfn c (by rw [he])
        rw [he] at hc
        exact keeps_runControlFns hfns hc
      · exact ih hfns hmem h
    · simp only [runControlFns, he] at h
      cases h

end Run

end Unix
