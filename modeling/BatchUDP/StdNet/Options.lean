import BatchUDP.StdNet.Ports
import BatchUDP.Unix.Sockopt

/-!
# Socket options of the standard bind

A socket is configured twice: `listenConfig` runs control functions on it before it is bound, and
`configureSocket` others afterwards. On Linux and Android the latter enable packet information,
which sticky sources rest on, and receive offload, the latter for kernels from 5.12 on only: older
ones do not let the option be read back, and that is how `supportsUDPOffload` finds out about it.

## Main definitions

* `kernelVersion`: the version in the release that `uname` reports
* `socketOpenControlFns`, `listenControlFns`, `listenConfig`, `configureSocket`: the control
  functions of a build
* `Host`, `Host.network`: a system, and the network it makes
* `Host.Reports`: what is known of the kernel of a version

## Main results

* `kernelVersion_of_isRelease`: the version of a release is read back
* `Host.rx_iff`: receive offload is reported for a socket iff the kernel coalesces on it
* `Host.Configured.of_Open`: the sockets that `Open` installs are configured
-/

namespace BatchUDP

open Go Unix Machine

/-! ## The version of the kernel -/

/-- A character between `0` and `9`. -/
def IsDigit (c : UInt8) : Prop := 48 ≤ c ∧ c ≤ 57

instance (c : UInt8) : Decidable (IsDigit c) := inferInstanceAs (Decidable (_ ∧ _))

/-- The loop of `kernelVersion` over the characters of the release, with the values stored so far,
the value of the digits so far, and the number of values stored. Values are integers of 64 bits. -/
def versionLoop : List UInt8 → ℤ × ℤ → ℤ → ℕ → ℤ × ℤ
  | [], values, _, _ => values
  | c :: cs, values, value, vi =>
    if IsDigit c then
      versionLoop cs values ((value * 10 + (c.toNat - 48 : ℕ)).bmod (2 ^ 64)) vi
    else
      let values := if vi = 0 then (value, values.2) else (values.1, value)
      if 2 ≤ vi + 1 then values else versionLoop cs values 0 (vi + 1)

/-- `kernelVersion`, given what `uname` reports as the release, unless it fails. -/
def kernelVersion (release : Option (List UInt8)) : ℤ × ℤ :=
  match release with
  | none => (0, 0)
  | some release => versionLoop release (0, 0) 0 0

/-- The value of decimal digits that follow digits of the given value. -/
def decimal (v : ℕ) (ds : List UInt8) : ℕ := ds.foldl (fun v c => v * 10 + (c.toNat - 48)) v

/-- The release of a kernel of the given version: two decimal numbers with a dot in between, and
something else behind them that does not start with a digit. -/
def IsRelease (release : List UInt8) (major minor : ℕ) : Prop :=
  ∃ ds ds' c rest, release = ds ++ 46 :: (ds' ++ c :: rest) ∧ (∀ d ∈ ds, IsDigit d) ∧
    (∀ d ∈ ds', IsDigit d) ∧ ¬ IsDigit c ∧ decimal 0 ds = major ∧ decimal 0 ds' = minor ∧
    major < 2 ^ 63 ∧ minor < 2 ^ 63

theorem le_decimal (v : ℕ) (ds : List UInt8) : v ≤ decimal v ds := by
  induction ds generalizing v with
  | nil => exact le_rfl
  | cons d ds ih =>
    refine le_trans ?_ (ih (v * 10 + (d.toNat - 48)))
    omega

/-- The loop reads a decimal number, unless it does not fit. -/
theorem versionLoop_append {ds : List UInt8} (hds : ∀ d ∈ ds, IsDigit d) (cs : List UInt8)
    (values : ℤ × ℤ) {v : ℕ} (vi : ℕ) (h : decimal v ds < 2 ^ 63) :
    versionLoop (ds ++ cs) values v vi = versionLoop cs values (decimal v ds) vi := by
  induction ds generalizing v with
  | nil => rfl
  | cons d ds ih =>
    obtain ⟨hd, hds⟩ := List.forall_mem_cons.mp hds
    have hlt : v * 10 + (d.toNat - 48) < 2 ^ 63 := (le_decimal _ ds).trans_lt h
    have hb : ((v : ℤ) * 10 + (d.toNat - 48 : ℕ)).bmod (2 ^ 64) =
        ((v * 10 + (d.toNat - 48) : ℕ) : ℤ) := by
      push_cast
      exact Int.bmod_eq_of_le (by omega) (by omega)
    rw [List.cons_append, versionLoop, if_pos hd, hb]
    exact ih hds h

/-- **The version of a release is read back.** -/
theorem kernelVersion_of_isRelease {release : List UInt8} {major minor : ℕ}
    (h : IsRelease release major minor) :
    kernelVersion (some release) = ((major : ℤ), (minor : ℤ)) := by
  obtain ⟨ds, ds', c, rest, rfl, hds, hds', hc, rfl, rfl, hmajor, hminor⟩ := h
  have h46 : ¬ IsDigit 46 := by decide
  have hfirst := @versionLoop_append ds hds (46 :: (ds' ++ c :: rest)) (0, 0) 0 0 hmajor
  have hsecond := @versionLoop_append ds' hds' (c :: rest) (decimal 0 ds, 0) 0 1 hminor
  rw [Nat.cast_zero] at hfirst hsecond
  rw [kernelVersion, hfirst, versionLoop, if_neg h46]
  simp only [if_true, Nat.zero_add, show ¬ 2 ≤ 1 by decide, if_false]
  rw [hsecond, versionLoop, if_neg hc]
  rfl

/-! ## The control functions -/

/-- `socketBufferSize`. -/
def socketBufferSize : ℕ := 7 * 2 ^ 20

/-- The file that a build takes its control functions from. -/
inductive ControlFile where
  | linux
  | unix
  | windows
  | none
  deriving DecidableEq, Repr

/-- The result of a call of `Control` whose function reports nothing. -/
def controlErr : Except Error Unit × RawConn → Option Error × RawConn
  | (.error err, c) => (some err, c)
  | (.ok _, c) => (none, c)

/-- The result of a call of `Control` whose function sets one option. -/
def controlSetErr : Except Error (Option Errno) × RawConn → Option Error × RawConn
  | (.error err, c) => (some err, c)
  | (.ok err, c) => (err.map .errno, c)

/-- Sets buffer sizes, and ignores what comes of it. -/
def setBuffers (a : Answers) (os : List Sockopt) : ControlFn := fun _ c =>
  controlErr (c.Control a fun c => ((), c.setAll a (os.map fun o => (o, socketBufferSize))))

/-- Enables the packet information of the family. -/
def setPktinfo (goos : GOOS) (a : Answers) : ControlFn := fun network c =>
  if network = "udp4" then
    if goos = .android then (none, c)
    else controlSetErr (c.Control a (RawConn.SetsockoptInt a .ipPktinfo 1))
  else if network = "udp6" then
    controlSetErr (c.Control a fun c =>
      if goos = .android then (none, c) else c.SetsockoptInt a .ipv6Recvpktinfo 1)
  else (some (.wrapped s!"unhandled network: {network}" (.errno .einval)), c)

/-- Enables receive offload, on kernels that let it be read back. -/
def setGRO (release : Option (List UInt8)) (a : Answers) : ControlFn := fun _ c =>
  let (major, minor) := kernelVersion release
  if major < 5 ∨ major = 5 ∧ minor < 12 then (none, c)
  else controlErr (c.Control a fun c => ((), (c.SetsockoptInt a .udpGRO 1).2))

/-- Restricts an IPv6 socket to IPv6, before it is bound. -/
def setV6only (file : ControlFile) (a : Answers) : ControlFn := fun network c =>
  if network ≠ "udp6" then (none, c)
  else
    match c.Control a (RawConn.SetsockoptInt a .ipv6V6only 1) with
    -- on other systems than Linux the error of the call itself is lost
    | (.error err, c) => (if file = .linux then some err else none, c)
    | (.ok err, c) => (err.map .errno, c)

/-- `socketOpenControlFns`. -/
def socketOpenControlFns (file : ControlFile) (goos : GOOS) (release : Option (List UInt8))
    (a : Answers) : List ControlFn :=
  match file with
  | .linux => [setBuffers a [.soRcvbuf, .soSndbuf, .soRcvbufforce, .soSndbufforce],
      setPktinfo goos a, setGRO release a]
  | .unix => [setBuffers a [.soRcvbuf, .soSndbuf]]
  | .windows => [setBuffers a [.soRcvbuf, .soSndbuf]]
  | .none => []

/-- `listenControlFns`. -/
def listenControlFns (file : ControlFile) (a : Answers) : List ControlFn :=
  match file with
  | .linux => [setV6only .linux a]
  | .unix => [setV6only .unix a]
  | .windows => []
  | .none => []

/-- `listenConfig`: its control function, which is given a socket unless the network has none to
give. -/
def listenConfig (file : ControlFile) (a : Answers) (network : String) :
    Option RawConn → Option Error × Option RawConn
  | none => (none, none)
  | some c =>
    let (err, c) := runControlFns network (listenControlFns file a) c
    (err, some c)

/-- `configureSocket`, where `SyscallConn` gives a socket, none, or an error. -/
def configureSocket (file : ControlFile) (goos : GOOS) (release : Option (List UInt8)) (a : Answers)
    (network : String) : Except Error (Option RawConn) → Option Error × Option RawConn
  | .error err => (some err, none)
  | .ok none => (none, none)
  | .ok (some c) =>
    let (err, c) := runControlFns network (socketOpenControlFns file goos release a) c
    (err, some c)

/-- `supportsUDPOffload` on Linux: segment sizes can be read, and receive offload is read back as
enabled. -/
def linuxSupportsUDPOffload (a : Answers) (c : RawConn) : Bool × Bool :=
  let probe (c : RawConn) : (Bool × Bool) × RawConn :=
    (((c.GetsockoptInt a .udpSegment).isOk,
      match c.GetsockoptInt a .udpGRO with
      | .error _ => false
      | .ok opt => opt == 1), c)
  match (c.Control a probe).1 with
  | .error _ => (false, false)
  | .ok r => r

/-- A system: the release of its kernel, unless `uname` fails, and for the socket of each listen
what it answers about options, whether it can be made, what it is bound to, and its port. -/
structure Host where
  release : Option (List UInt8)
  answers : ℕ → Answers
  create : ℕ → String → String → Option Error
  bind : ℕ → String → String → Except Error String
  resolve : ℕ → Except Error ℕ

namespace Host

/-- The socket of a listen in front of its binding, with the error of the control function. -/
def listening (h : Host) (n : ℕ) (network : String) : Option Error × RawConn :=
  let (err, c) := listenConfig .linux (h.answers n) network (some .new)
  (err, c.getD .new)

/-- The socket of a listen behind `configureSocket`, with the error of that. -/
def configured (h : Host) (goos : GOOS) (n : ℕ) (network : String) : Option Error × RawConn :=
  let (err, c) := configureSocket .linux goos h.release (h.answers n) network
    (.ok (some (h.listening n network).2))
  (err, c.getD .new)

/-- The options of the socket of a listen. -/
def options (h : Host) (goos : GOOS) (n : ℕ) (is6 : Bool) : Sockopt → ℕ :=
  (h.configured goos n (StdNetBind.network is6)).2.options

/-- The network of a Linux or Android system. -/
def network (h : Host) (goos : GOOS) : Network where
  isNative := true
  listen n network address :=
    match h.create n network address with
    | some err => .error err
    | none =>
      match (h.listening n network).1 with
      | some err => .error err
      | none =>
        match h.bind n network address with
        | .error err => .error err
        | .ok laddr => .ok {
            laddr := laddr
            configured := (h.configured goos n network).1
            resolved := h.resolve n
            native := true
            offload := linuxSupportsUDPOffload (h.answers n) (h.configured goos n network).2 }

/-- What is known of a system with a kernel of the given version: `uname` reports that version, if
it does not fail, functions can be run on a socket that is open, and receive offload can be read
back from version 5.12 on. -/
structure Reports (h : Host) (major minor : ℕ) : Prop where
  release : ∀ release, h.release = some release → IsRelease release major minor
  control : ∀ n k, (h.answers n).control k = none
  gro : 5 < major ∨ major = 5 ∧ 12 ≤ minor → ∀ n, (h.answers n).get .udpGRO = none

end Host

/-! ## What the control functions do -/

section Keeps

variable {a : Answers} {goos : GOOS} {name : String} {P : (Sockopt → ℕ) → Prop}

theorem controlErr_snd (r : Except Error Unit × RawConn) : (controlErr r).2 = r.2 := by
  rcases r with ⟨- | -, c⟩ <;> rfl

theorem controlSetErr_snd (r : Except Error (Option Errno) × RawConn) :
    (controlSetErr r).2 = r.2 := by
  rcases r with ⟨- | -, c⟩ <;> rfl

/-- Setting an option keeps the value of another one, and that of the option itself if it is the
same. -/
theorem keeps_SetsockoptInt {o o' : Sockopt} {value v : ℕ} (hv : o = o' → value = v) (c : RawConn)
    (h : c.options o' = v) : (c.SetsockoptInt a o value).2.options o' = v := by
  by_cases ho : o = o'
  · subst ho
    unfold RawConn.SetsockoptInt
    split
    · exact h
    · simpa using hv rfl
  · rw [RawConn.options_SetsockoptInt ho, h]

variable {o : Sockopt} {v : ℕ}

theorem keeps_setBuffers {os : List Sockopt} (h : o ∉ os) :
    ControlFn.Keeps name (fun os => os o = v) (setBuffers a os) := by
  intro c hc
  unfold setBuffers
  rw [controlErr_snd]
  refine RawConn.keeps_Control (P := fun os => os o = v) (fun c hc => ?_) hc
  show (c.setAll a _).options o = v
  rw [RawConn.options_setAll, hc]
  intro x hx
  obtain ⟨o', ho', rfl⟩ := List.mem_map.mp hx
  exact fun he => h (he ▸ ho')

theorem keeps_setPktinfo (h4 : .ipPktinfo = o → 1 = v) (h6 : .ipv6Recvpktinfo = o → 1 = v) :
    ControlFn.Keeps name (fun os => os o = v) (setPktinfo goos a) := by
  intro c hc
  unfold setPktinfo
  split_ifs
  · exact hc
  · rw [controlSetErr_snd]
    exact RawConn.keeps_Control (P := fun os => os o = v) (keeps_SetsockoptInt h4) hc
  · rw [controlSetErr_snd]
    exact RawConn.keeps_Control (P := fun os => os o = v) (fun c hc => hc) hc
  · rw [controlSetErr_snd]
    exact RawConn.keeps_Control (P := fun os => os o = v) (keeps_SetsockoptInt h6) hc
  · exact hc

theorem keeps_setGRO {release : Option (List UInt8)} (h : .udpGRO = o → 1 = v) :
    ControlFn.Keeps name (fun os => os o = v) (setGRO release a) := by
  intro c hc
  unfold setGRO
  dsimp only
  split_ifs
  · exact hc
  · rw [controlErr_snd]
    exact RawConn.keeps_Control (P := fun os => os o = v) (keeps_SetsockoptInt h) hc

theorem keeps_setV6only {file : ControlFile} (h : .ipv6V6only = o → 1 = v) :
    ControlFn.Keeps name (fun os => os o = v) (setV6only file a) := by
  intro c hc
  unfold setV6only
  have hk : (c.Control a (RawConn.SetsockoptInt a .ipv6V6only 1)).2.options o = v :=
    RawConn.keeps_Control (P := fun os => os o = v) (keeps_SetsockoptInt h) hc
  by_cases hn : name ≠ "udp6"
  · rw [if_pos hn]
    exact hc
  · rw [if_neg hn]
    generalize c.Control a (RawConn.SetsockoptInt a .ipv6V6only 1) = r at hk ⊢
    rcases r with ⟨_ | _, c'⟩
    · exact hk
    · exact hk

/-- An option that the control functions of Linux keep. -/
theorem keeps_socketOpenControlFns {release : Option (List UInt8)}
    (hb : o ∉ [.soRcvbuf, .soSndbuf, .soRcvbufforce, .soSndbufforce])
    (h4 : .ipPktinfo = o → 1 = v) (h6 : .ipv6Recvpktinfo = o → 1 = v) (hg : .udpGRO = o → 1 = v) :
    ∀ fn ∈ socketOpenControlFns .linux goos release a,
      ControlFn.Keeps name (fun os => os o = v) fn := by
  intro fn hfn
  rcases List.mem_cons.mp hfn with rfl | hfn
  · exact keeps_setBuffers hb
  rcases List.mem_cons.mp hfn with rfl | hfn
  · exact keeps_setPktinfo h4 h6
  · obtain rfl := List.mem_singleton.mp hfn
    exact keeps_setGRO hg

/-- A call of `Control` that sets one option and ends without an error has set it. -/
theorem options_of_controlSetErr {c : RawConn}
    (h : (controlSetErr (c.Control a (RawConn.SetsockoptInt a o v))).1 = none) :
    (controlSetErr (c.Control a (RawConn.SetsockoptInt a o v))).2.options o = v := by
  rw [controlSetErr_snd]
  unfold RawConn.Control at h ⊢
  cases hc : a.control c.controls with
  | some err => simp [hc, controlSetErr] at h
  | none =>
    unfold RawConn.SetsockoptInt at h ⊢
    cases hs : a.set o with
    | some err => simp [hc, hs, controlSetErr] at h
    | none => simp

theorem setV6only_linux :
    setV6only .linux a (StdNetBind.network true) = fun c =>
      controlSetErr (c.Control a (RawConn.SetsockoptInt a .ipv6V6only 1)) := by
  funext c
  rw [setV6only, if_neg (by decide)]
  rcases c.Control a (RawConn.SetsockoptInt a .ipv6V6only 1) with ⟨- | -, c'⟩ <;> rfl

/-- The packet information of a family. -/
def pktinfo (is6 : Bool) : Sockopt := if is6 then .ipv6Recvpktinfo else .ipPktinfo

theorem setPktinfo_linux (hg : goos ≠ .android) (is6 : Bool) :
    setPktinfo goos a (StdNetBind.network is6) = fun c =>
      controlSetErr (c.Control a (RawConn.SetsockoptInt a (pktinfo is6) 1)) := by
  funext c
  cases is6
  · simp [setPktinfo, hg, StdNetBind.network, pktinfo]
  · simp only [setPktinfo, hg, StdNetBind.network, pktinfo, if_true, if_false]
    rfl

end Keeps

namespace Host

variable {h : Host} {goos : GOOS} {major minor : ℕ}

theorem listening_eq (n : ℕ) (name : String) :
    h.listening n name = runControlFns name (listenControlFns .linux (h.answers n)) .new := rfl

theorem configured_eq (n : ℕ) (name : String) :
    h.configured goos n name =
      runControlFns name (socketOpenControlFns .linux goos h.release (h.answers n))
        (h.listening n name).2 := rfl

/-- The control functions in front of the binding touch nothing but `IPV6_V6ONLY`. -/
theorem options_listening {o : Sockopt} (ho : .ipv6V6only ≠ o) (n : ℕ) (name : String) :
    (h.listening n name).2.options o = 0 := by
  rw [listening_eq]
  refine keeps_runControlFns (P := fun os => os o = 0) (fun fn hfn => ?_) rfl
  obtain rfl := List.mem_singleton.mp hfn
  exact keeps_setV6only fun he => absurd he ho

/-- **Receive offload is enabled on kernels from 5.12 on only.** -/
theorem version_of_gro {n : ℕ} {name : String}
    (hgro : (h.configured goos n name).2.options .udpGRO ≠ 0) :
    5 < (kernelVersion h.release).1 ∨
      (kernelVersion h.release).1 = 5 ∧ 12 ≤ (kernelVersion h.release).2 := by
  by_contra hold
  rw [configured_eq] at hgro
  refine hgro (keeps_runControlFns (P := fun os => os .udpGRO = 0) (fun fn hfn => ?_)
    (options_listening (by decide) n name))
  rcases List.mem_cons.mp hfn with rfl | hfn
  · exact keeps_setBuffers (by decide)
  rcases List.mem_cons.mp hfn with rfl | hfn
  · exact keeps_setPktinfo (by decide) (by decide)
  obtain rfl := List.mem_singleton.mp hfn
  intro c hc
  have hlt : (kernelVersion h.release).1 < 5 ∨
      (kernelVersion h.release).1 = 5 ∧ (kernelVersion h.release).2 < 12 := by omega
  simp only [setGRO, hlt, if_true]
  exact hc

/-- From the version that is reported to the version of the kernel. -/
theorem Reports.of_kernelVersion (hr : h.Reports major minor)
    (hv : 5 < (kernelVersion h.release).1 ∨
      (kernelVersion h.release).1 = 5 ∧ 12 ≤ (kernelVersion h.release).2) :
    5 < major ∨ major = 5 ∧ 12 ≤ minor := by
  rcases hrel : h.release with - | release
  · rw [hrel] at hv
    simp [kernelVersion] at hv
  · rw [hrel, kernelVersion_of_isRelease (hr.release release hrel)] at hv
    simp only at hv
    omega

/-- **Receive offload is reported for a socket iff the kernel coalesces on it.** -/
theorem rx_iff (hr : h.Reports major minor) (n : ℕ) (name : String) :
    (linuxSupportsUDPOffload (h.answers n) (h.configured goos n name).2).2 = true ↔
      (h.configured goos n name).2.options .udpGRO = 1 := by
  generalize hc : (h.configured goos n name).2 = c
  simp only [linuxSupportsUDPOffload, RawConn.Control, hr.control]
  rcases hget : (h.answers n).get .udpGRO with - | err
  · simp [RawConn.GetsockoptInt, hget]
  · simp only [RawConn.GetsockoptInt, hget, Bool.false_eq_true, false_iff]
    intro hgro
    have hv := hr.of_kernelVersion (@version_of_gro h goos n name (by rw [hc, hgro]; decide))
    rw [hr.gro hv n] at hget
    cases hget

/-- A socket that is configured: packet information is on, except on Android, and an IPv6 socket is
restricted to IPv6. -/
structure Configured (h : Host) (goos : GOOS) (n : ℕ) (is6 : Bool) : Prop where
  pktinfo : goos ≠ .android → h.options goos n is6 (pktinfo is6) = 1
  v6only : is6 = true → h.options goos n is6 .ipv6V6only = 1

theorem configured_of_errs {n : ℕ} {is6 : Bool}
    (hl : (h.listening n (StdNetBind.network is6)).1 = none)
    (hc : (h.configured goos n (StdNetBind.network is6)).1 = none) : h.Configured goos n is6 := by
  rw [configured_eq] at hc
  constructor
  · intro hg
    rw [options, configured_eq]
    refine @establishes_runControlFns _ (fun os => os (BatchUDP.pktinfo is6) = 1) _ _ ?_
      (setPktinfo goos (h.answers n)) (by simp [socketOpenControlFns]) ?_ hc
    · exact keeps_socketOpenControlFns (by cases is6 <;> decide) (fun _ => rfl) (fun _ => rfl)
        (by cases is6 <;> decide)
    · rw [setPktinfo_linux hg]
      exact fun c hc => options_of_controlSetErr hc
  · rintro rfl
    rw [options, configured_eq]
    refine keeps_runControlFns (P := fun os => os .ipv6V6only = 1)
      (keeps_socketOpenControlFns (by decide) (by decide) (by decide) (by decide)) ?_
    rw [listening_eq] at hl ⊢
    refine @establishes_runControlFns _ (fun os => os .ipv6V6only = 1) _ _ ?_
      (setV6only .linux (h.answers n)) (by simp [listenControlFns]) ?_ hl
    · intro fn hfn
      obtain rfl := List.mem_singleton.mp hfn
      exact keeps_setV6only fun _ => rfl
    · rw [setV6only_linux]
      exact fun c hc => options_of_controlSetErr hc

end Host

/-! ## The sockets that `Open` installs -/

namespace StdNetBind

variable {p : Platform} {opts : StdNetBindOptions} {net : Option Network} {uport : UInt16}
  {o : Sockets}

/-- A socket that a listen returned: the network handed it out under its number, and it was
configured. -/
theorem listenNet_ok {is6 : Bool} {port q : ℕ} {c : UDPConn}
    (h : (listenNet net is6 port o).1 = .ok (c, q)) :
    ∃ m b, net = some m ∧
      m.listen c.conn.id (network is6) (listenAddress is6 port) = .ok b ∧ b.configured = none ∧
      c.native = b.native ∧ c.offload = b.offload := by
  unfold listenNet at h
  rcases net with - | m
  · cases h
  simp only at h
  rcases hl : m.listen o.listens (network is6) (listenAddress is6 port) with err | b
  · simp [hl] at h
  · rcases hconf : b.configured with - | err
    · rcases hres : b.resolved with err | port'
      · simp [hl, hconf, hres] at h
      · simp only [hl, hconf, hres, Except.ok.injEq, Prod.mk.injEq] at h
        obtain ⟨rfl, -⟩ := h
        exact ⟨m, b, rfl, hl, hconf, rfl, rfl⟩
    · simp [hl, hconf] at h

/-- What a pass returns for a family is what one of its listens returned. -/
theorem exists_listenNet_of_listened {is6 : Bool} {r : Except Error (UDPConn × ℕ)}
    (h : listened opts net uport o is6 = r) :
    ∃ port o', (listenNet net is6 port o').1 = r := by
  unfold listened at h
  split_ifs at h with his
  · exact ⟨uport.toNat, o, his ▸ h⟩
  · exact ⟨_, _, h⟩

/-- The sockets of a pass, by family. -/
theorem exists_listenNet_of_attempts {first second : Option UDPConn} {port n : ℕ}
    {report : Option (Bool × Error)} {o' : Sockets} {fuel tries : ℕ}
    (h : attempts opts net uport fuel tries o = some (.opened first second port report, o', n))
    {is6 : Bool} {c : UDPConn}
    (hc : (if is6 then (byFamily opts first second).2 else (byFamily opts first second).1) =
      some c) :
    ∃ port q o₁, (listenNet net is6 port o₁).1 = .ok (c, q) := by
  obtain ⟨k, -, ha⟩ := exists_passes_of_attempts h
  have hcase : is6 = (familyOrder opts).1 ∧ first = some c ∨
      is6 = (familyOrder opts).2 ∧ second = some c := by
    unfold byFamily at hc
    unfold familyOrder at hc ⊢
    cases is6 <;> split_ifs at hc ⊢ <;> simp_all
  rcases attempt_opened ha with ⟨d, hd, hfirst, hsecond⟩ | ⟨e, d, -, -, hfirst, hd, hsecond, -⟩
  · rcases hcase with ⟨rfl, hf⟩ | ⟨rfl, hs⟩
    · obtain rfl := Option.some.inj (hfirst.symm.trans hf)
      obtain ⟨q, o₁, he⟩ := exists_listenNet_of_listened hd
      exact ⟨q, port, o₁, he⟩
    · rcases hsecond with ⟨d', q', hd', hs', -⟩ | ⟨e, -, hs', -⟩
      · obtain rfl := Option.some.inj (hs'.symm.trans hs)
        obtain ⟨q, o₁, he⟩ := exists_listenNet_of_listened hd'
        exact ⟨q, q', o₁, he⟩
      · rw [hs'] at hs
        cases hs
  · rcases hcase with ⟨rfl, hf⟩ | ⟨rfl, hs⟩
    · rw [hfirst] at hf
      cases hf
    · obtain rfl := Option.some.inj (hsecond.symm.trans hs)
      obtain ⟨q, o₁, he⟩ := exists_listenNet_of_listened hd
      exact ⟨q, port, o₁, he⟩

/-- A function that `Open` returns was made for a socket that one of its listens returned. -/
theorem exists_listenNet_of_mem_fns {s : StdNetBind} {r : Opened}
    (he : s.Open p opts net uport o = some r) {f : ReceiveFunc} (hf : f ∈ r.fns) :
    ∃ c port q o₁, (listenNet net f.is6 port o₁).1 = .ok (c, q) ∧
      f = ⟨f.is6, c.conn, c.native && p.hasOffload, (supportsUDPOffload p c).2⟩ := by
  rcases Open_cases he with ⟨-, -, hfns⟩ | ⟨first, second, port, report, o', n, ha, -, -, -, hfns⟩
  · simp [hfns] at hf
  · rw [hfns] at hf
    have hcase : ∃ c, (if f.is6 then (byFamily opts first second).2
        else (byFamily opts first second).1) = some c ∧
        f = ⟨f.is6, c.conn, c.native && p.hasOffload, (supportsUDPOffload p c).2⟩ := by
      generalize byFamily opts first second = conns at hf ⊢
      obtain ⟨v4conn, v6conn⟩ := conns
      rcases List.mem_append.mp hf with hf | hf
      · rcases v4conn with - | c
        · simp [install] at hf
        · obtain rfl := List.mem_singleton.mp hf
          exact ⟨c, rfl, rfl⟩
      · rcases v6conn with - | c
        · simp [install] at hf
        · obtain rfl := List.mem_singleton.mp hf
          exact ⟨c, rfl, rfl⟩
    obtain ⟨c, hc, hfeq⟩ := hcase
    obtain ⟨port, q, o₁, hl⟩ := exists_listenNet_of_attempts ha hc
    exact ⟨c, port, q, o₁, hl, hfeq⟩

end StdNetBind

namespace Host

variable {h : Host} {p : Platform} {major minor : ℕ}

/-- A socket that the network hands out and that was configured. -/
theorem configured_of_listen {n : ℕ} {is6 : Bool} {address : String} {b : Bound}
    (hl : (h.network p.goos).listen n (StdNetBind.network is6) address = .ok b)
    (hc : b.configured = none) :
    h.Configured p.goos n is6 ∧ b.native = true ∧
      b.offload = linuxSupportsUDPOffload (h.answers n)
        (h.configured p.goos n (StdNetBind.network is6)).2 := by
  simp only [network] at hl
  rcases hcreate : h.create n (StdNetBind.network is6) address with - | err
  · rcases hlis : (h.listening n (StdNetBind.network is6)).1 with - | err
    · rcases hbind : h.bind n (StdNetBind.network is6) address with err | laddr
      · simp [hcreate, hlis, hbind] at hl
      · simp only [hcreate, hlis, hbind, Except.ok.injEq] at hl
        subst hl
        exact ⟨configured_of_errs hlis hc, rfl, rfl⟩
    · simp [hcreate, hlis] at hl
  · simp [hcreate] at hl

/-- **The sockets that `Open` installs are configured**, and its receive functions split what they
read iff the kernel coalesces on their sockets. -/
theorem configured_of_mem_fns (hp : p.hasOffload = true) (hr : h.Reports major minor)
    {opts : StdNetBindOptions} {uport : UInt16} {s : StdNetBind} {o : Sockets}
    {r : StdNetBind.Opened} (he : s.Open p opts (some (h.network p.goos)) uport o = some r)
    {f : ReceiveFunc} (hf : f ∈ r.fns) :
    h.Configured p.goos f.conn.id f.is6 ∧ f.pc = true ∧
      (f.rxOffload = true ↔ h.options p.goos f.conn.id f.is6 .udpGRO = 1) := by
  obtain ⟨c, port, q, o₁, hl, hfeq⟩ := StdNetBind.exists_listenNet_of_mem_fns he hf
  obtain ⟨m, b, hm, hlisten, hconf, hnative, hoff⟩ := StdNetBind.listenNet_ok hl
  obtain rfl := Option.some.inj hm
  obtain ⟨hcfg, hnat, hoffload⟩ := configured_of_listen hlisten hconf
  have hconn : f.conn = c.conn := by rw [hfeq]
  rw [hconn]
  refine ⟨hcfg, ?_, ?_⟩
  · rw [hfeq]
    simp [hnative, hnat, hp]
  · have hrx : f.rxOffload = (linuxSupportsUDPOffload (h.answers c.conn.id)
        (h.configured p.goos c.conn.id (StdNetBind.network f.is6)).2).2 := by
      rw [hfeq]
      simp [supportsUDPOffload, hp, hoff, hoffload]
    rw [hrx]
    exact rx_iff hr c.conn.id _

end Host

end BatchUDP
