import BatchUDP.StdNet.Open

/-!
# What a successful `Open` guarantees

`Open` listens in one family after the other, on the port that the first socket has. If the network
binds sockets to the ports they ask for, the port that `Open` returns is that of every socket it
installs.

## Main definitions

* `Network.BindsPorts`: a socket is bound to the port it asks for, or to some port if it asks for
  none
* `StdNetBind.passes`: the sockets after so many passes through the body of `Open`
* `StdNetBind.listened`: what the listens of a pass return, by family
* `StdNetBind.OpenedAs`: the results of `Open`, in terms of the listens of its last pass

## Main results

* `StdNetBind.openedAs_of_Open`: the results of every successful call
-/

namespace BatchUDP

open Go Machine

/-- A socket that asks for a port is bound to that port, and one that asks for none to some port. -/
def Network.BindsPorts (net : Network) : Prop :=
  ∀ n is6 port b q, net.listen n (StdNetBind.network is6) (StdNetBind.listenAddress is6 port) =
    .ok b → b.resolved = .ok q → if port = 0 then 0 < q ∧ q < 2 ^ 16 else q = port

namespace StdNetBind

variable {p : Platform} {opts : StdNetBindOptions} {net : Option Network} {uport : UInt16}

section Listens

variable (opts net uport)

/-- The sockets after `k` passes through the body of `Open`, the first of which is pass `tries`. -/
def passes : ℕ → ℕ → Sockets → Sockets
  | _, 0, o => o
  | tries, k + 1, o => passes (tries + 1) k (attempt opts net uport tries o).2

/-- The listen of the first family in a pass. -/
def firstListen (o : Sockets) : Except Error (UDPConn × ℕ) × Sockets :=
  listenNet net (familyOrder opts).1 uport.toNat o

/-- The port that the second family is asked to listen on: that of the first, if it has one. -/
def secondPort (o : Sockets) : ℕ :=
  match (firstListen opts net uport o).1 with
  | .ok (_, port) => port
  | .error _ => uport.toNat

/-- What the listens of a pass return, by family. -/
def listened (o : Sockets) (is6 : Bool) : Except Error (UDPConn × ℕ) :=
  if is6 = (familyOrder opts).1 then (firstListen opts net uport o).1
  else (listenNet net is6 (secondPort opts net uport o) (firstListen opts net uport o).2).1

end Listens

/-- The results of `Open`, in terms of what the listens of its last pass returned. -/
structure OpenedAs (opts : StdNetBindOptions) (uport : UInt16)
    (listened : Bool → Except Error (UDPConn × ℕ)) (r : Opened) : Prop where
  installed : ∀ is6, r.bind.conn is6 = (listened is6).toOption.map fun c => c.1.conn
  port : ∀ is6 c q, listened is6 = .ok (c, q) → q = r.port.toNat
  requested : uport ≠ 0 → r.port = uport
  fns : r.fns.map (fun f => (f.is6, f.conn)) =
    (r.bind.ipv4.toList.map fun c => (false, c)) ++ r.bind.ipv6.toList.map fun c => (true, c)
  isOpen : r.bind.isOpen = true
  strict : opts.allowSingleFamily = false →
    ∀ is6 e, listened is6 = .error e → e.is .eafnosupport = true
  reported : ∀ name e, r.familyOpenError = some (name, e) ↔
    opts.onFamilyOpenError = true ∧ opts.allowSingleFamily = true ∧
      (∃ c, listened (familyOrder opts).1 = .ok c) ∧
      listened (familyOrder opts).2 = .error e ∧ name = network (familyOrder opts).2

/-- The last pass of the loop. -/
theorem exists_passes_of_attempts {fuel tries n : ℕ} {a : Attempt} {o o' : Sockets}
    (h : attempts opts net uport fuel tries o = some (a, o', n)) :
    ∃ k, n = tries + k + 1 ∧
      attempt opts net uport (tries + k) (passes opts net uport tries k o) = (a, o') := by
  induction fuel generalizing tries o with
  | zero => simp [attempts] at h
  | succ fuel ih =>
    rcases ha : attempt opts net uport tries o with ⟨a₁, o₁⟩
    rcases a₁ with - | err | ⟨first, second, port, report⟩ <;> simp only [attempts, ha] at h
    · obtain ⟨k, hn, hk⟩ := ih h
      refine ⟨k + 1, by omega, ?_⟩
      rw [passes, ha, ← hk]
      congr 1
      omega
    · obtain ⟨rfl, rfl, rfl⟩ : Attempt.failed err = a ∧ o₁ = o' ∧ tries + 1 = n := by simpa using h
      exact ⟨0, rfl, ha⟩
    · obtain ⟨rfl, rfl, rfl⟩ : Attempt.opened first second port report = a ∧ o₁ = o' ∧
        tries + 1 = n := by simpa using h
      exact ⟨0, rfl, ha⟩

section Pass

variable {o : Sockets}

theorem familyOrder_ne (opts : StdNetBindOptions) :
    (familyOrder opts).2 ≠ (familyOrder opts).1 := by
  unfold familyOrder
  split_ifs <;> decide

theorem listened_first (o : Sockets) :
    listened opts net uport o (familyOrder opts).1 = (firstListen opts net uport o).1 := if_pos rfl

theorem listened_second (o : Sockets) :
    listened opts net uport o (familyOrder opts).2 =
      (listenNet net (familyOrder opts).2 (secondPort opts net uport o)
        (firstListen opts net uport o).2).1 := if_neg (familyOrder_ne opts)

/-- **How a pass ends with sockets**: both families are open, or only the first, because the other
failed and that is allowed or its family is missing, or only the second, because the first family is
missing. -/
theorem attempt_opened {tries : ℕ} {first second : Option UDPConn} {port : ℕ}
    {report : Option (Bool × Error)} {o' : Sockets}
    (h : attempt opts net uport tries o = (.opened first second port report, o')) :
    (∃ c, listened opts net uport o (familyOrder opts).1 = .ok (c, port) ∧ first = some c ∧
      ((∃ d q, listened opts net uport o (familyOrder opts).2 = .ok (d, q) ∧ second = some d ∧
          report = none) ∨
        ∃ e, listened opts net uport o (familyOrder opts).2 = .error e ∧ second = none ∧
          (opts.allowSingleFamily = true ∧ report = some ((familyOrder opts).2, e) ∨
            opts.allowSingleFamily = false ∧ e.is .eafnosupport = true ∧ report = none))) ∨
      ∃ e d, listened opts net uport o (familyOrder opts).1 = .error e ∧
        e.is .eafnosupport = true ∧ first = none ∧
        listened opts net uport o (familyOrder opts).2 = .ok (d, port) ∧ second = some d ∧
        report = none := by
  rw [listened_first, listened_second, secondPort]
  unfold attempt at h
  simp only [firstListen]
  rcases he₁ : listenNet net (familyOrder opts).1 uport.toNat o with ⟨firstErr | ⟨c, q⟩, o₁⟩
  · simp only [he₁] at h ⊢
    by_cases hf : firstErr.is .eafnosupport = true
    · rw [if_pos hf] at h
      rcases he₂ : listenNet net (familyOrder opts).2 uport.toNat o₁ with ⟨secondErr | ⟨d, q⟩, o₂⟩
      · rw [he₂] at h
        simp only at h
        split_ifs at h <;> simp at h
      · rw [he₂] at h
        simp only [Prod.mk.injEq, Attempt.opened.injEq] at h
        obtain ⟨⟨rfl, rfl, rfl, rfl⟩, -⟩ := h
        exact .inr ⟨firstErr, d, rfl, hf, rfl, rfl, rfl, rfl⟩
    · rw [if_neg hf] at h
      simp at h
  · simp only [he₁] at h ⊢
    rcases he₂ : listenNet net (familyOrder opts).2 q o₁ with ⟨secondErr | ⟨d, q'⟩, o₂⟩
    · rw [he₂] at h
      simp only at h
      split_ifs at h with hagain hsingle hunsup
      · simp at h
      · simp only [Prod.mk.injEq, Attempt.opened.injEq] at h
        obtain ⟨⟨rfl, rfl, rfl, rfl⟩, -⟩ := h
        exact .inl ⟨c, rfl, rfl, .inr ⟨secondErr, rfl, rfl, .inl ⟨hsingle, rfl⟩⟩⟩
      · simp only [Prod.mk.injEq, Attempt.opened.injEq] at h
        obtain ⟨⟨rfl, rfl, rfl, rfl⟩, -⟩ := h
        rw [Bool.not_eq_true] at hsingle
        exact .inl ⟨c, rfl, rfl, .inr ⟨secondErr, rfl, rfl, .inr ⟨hsingle, hunsup, rfl⟩⟩⟩
      · simp at h
    · rw [he₂] at h
      simp only [Prod.mk.injEq, Attempt.opened.injEq] at h
      obtain ⟨⟨rfl, rfl, rfl, rfl⟩, -⟩ := h
      exact .inl ⟨c, rfl, rfl, .inl ⟨d, q', rfl, rfl, rfl⟩⟩

/-- The port of a socket that a listen returned. -/
theorem port_of_listenNet (hnet : ∀ n ∈ net, n.BindsPorts) {is6 : Bool} {port q : ℕ} {c : UDPConn}
    {o' : Sockets} (h : listenNet net is6 port o = (.ok (c, q), o')) :
    if port = 0 then 0 < q ∧ q < 2 ^ 16 else q = port := by
  unfold listenNet at h
  rcases net with - | net
  · simp at h
  · simp only at h
    rcases hb : net.listen o.listens (network is6) (listenAddress is6 port) with err | b
    · simp [hb] at h
    · rw [hb] at h
      rcases hconf : b.configured with - | err
      · rcases hres : b.resolved with err | q'
        · simp [hconf, hres] at h
        · simp only [hconf, hres, Prod.mk.injEq, Except.ok.injEq] at h
          obtain ⟨⟨-, rfl⟩, -⟩ := h
          exact hnet net rfl _ _ _ _ _ hb hres
      · simp [hconf] at h

/-- The port asked for is the port that was given, and any port is one of sixteen bits. -/
theorem port_of_uport {q : ℕ}
    (h : if uport.toNat = 0 then 0 < q ∧ q < 2 ^ 16 else q = uport.toNat) :
    (uport ≠ 0 → q = uport.toNat) ∧ 0 < q ∧ q < 2 ^ 16 := by
  have hlt := uport.toNat_lt
  split_ifs at h with h0
  · exact ⟨fun hne => absurd (UInt16.toNat_inj.mp h0) hne, h⟩
  · exact ⟨fun _ => h, by omega, by omega⟩

/-- The socket of the first family has the port that was asked for, and the other one the same. -/
theorem ports_of_first (hnet : ∀ n ∈ net, n.BindsPorts) {c : UDPConn} {port : ℕ}
    (h : listened opts net uport o (familyOrder opts).1 = .ok (c, port)) :
    ((uport ≠ 0 → port = uport.toNat) ∧ 0 < port ∧ port < 2 ^ 16) ∧
      ∀ d q, listened opts net uport o (familyOrder opts).2 = .ok (d, q) → q = port := by
  rw [listened_first] at h
  have hport := port_of_uport (port_of_listenNet hnet (Prod.ext h rfl))
  refine ⟨hport, fun d q hd => ?_⟩
  have hsecond : secondPort opts net uport o = port := by rw [secondPort, h]
  rw [listened_second, hsecond] at hd
  have := port_of_listenNet hnet (Prod.ext hd rfl)
  rwa [if_neg hport.2.1.ne'] at this

/-- Without the first family, the socket of the second has the port that was asked for. -/
theorem port_of_second (hnet : ∀ n ∈ net, n.BindsPorts) {e : Error} {d : UDPConn} {port : ℕ}
    (he : listened opts net uport o (familyOrder opts).1 = .error e)
    (h : listened opts net uport o (familyOrder opts).2 = .ok (d, port)) :
    (uport ≠ 0 → port = uport.toNat) ∧ 0 < port ∧ port < 2 ^ 16 := by
  rw [listened_first] at he
  have hsecond : secondPort opts net uport o = uport.toNat := by rw [secondPort, he]
  rw [listened_second, hsecond] at h
  exact port_of_uport (port_of_listenNet hnet (Prod.ext h rfl))

end Pass

/-- The families in their order. -/
theorem forall_family_iff (opts : StdNetBindOptions) {P : Bool → Prop} :
    (∀ is6, P is6) ↔ P (familyOrder opts).1 ∧ P (familyOrder opts).2 := by
  unfold familyOrder
  split_ifs
  · exact ⟨fun h => ⟨h true, h false⟩, fun h is6 => by cases is6; exacts [h.2, h.1]⟩
  · exact ⟨fun h => ⟨h false, h true⟩, fun h is6 => by cases is6; exacts [h.1, h.2]⟩

/-- What a pass that ends with sockets has, in terms of what its listens returned. -/
structure PassedAs (opts : StdNetBindOptions) (uport : UInt16)
    (listened : Bool → Except Error (UDPConn × ℕ)) (first second : Option UDPConn) (port : ℕ)
    (report : Option (Bool × Error)) : Prop where
  first_eq : first = (listened (familyOrder opts).1).toOption.map Prod.fst
  second_eq : second = (listened (familyOrder opts).2).toOption.map Prod.fst
  ne_none : first ≠ none ∨ second ≠ none
  same_port : ∀ is6 c q, listened is6 = .ok (c, q) → q = port
  requested : (uport ≠ 0 → port = uport.toNat) ∧ 0 < port ∧ port < 2 ^ 16
  strict : opts.allowSingleFamily = false →
    ∀ is6 e, listened is6 = .error e → e.is .eafnosupport = true
  reported : ∀ is6 e, report = some (is6, e) ↔
    opts.allowSingleFamily = true ∧ (∃ c, listened (familyOrder opts).1 = .ok c) ∧
      listened (familyOrder opts).2 = .error e ∧ is6 = (familyOrder opts).2

theorem passedAs_of_attempt (hnet : ∀ n ∈ net, n.BindsPorts) {tries port : ℕ} {o o' : Sockets}
    {first second : Option UDPConn} {report : Option (Bool × Error)}
    (h : attempt opts net uport tries o = (.opened first second port report, o')) :
    PassedAs opts uport (listened opts net uport o) first second port report := by
  rcases attempt_opened h with
    ⟨c, hc, rfl, ⟨d, q, hd, rfl, rfl⟩ | ⟨e, he, rfl, ⟨hsingle, rfl⟩ | ⟨hstrict, hno, rfl⟩⟩⟩ |
    ⟨e, d, he, hno, rfl, hd, rfl, rfl⟩
  · obtain ⟨hport, hsame⟩ := ports_of_first hnet hc
    obtain rfl := hsame d q hd
    refine ⟨by rw [hc]; rfl, by rw [hd]; rfl, by simp, ?_, hport, fun _ => ?_, by simp [hd]⟩
    · rw [forall_family_iff opts]
      simp [hc, hd]
    · rw [forall_family_iff opts]
      simp [hc, hd]
  · obtain ⟨hport, -⟩ := ports_of_first hnet hc
    refine ⟨by rw [hc]; rfl, by rw [he]; rfl, by simp, ?_, hport, by simp [hsingle], ?_⟩
    · rw [forall_family_iff opts]
      simp [hc, he]
    · simp [hc, he, hsingle, and_comm, eq_comm]
  · obtain ⟨hport, -⟩ := ports_of_first hnet hc
    refine ⟨by rw [hc]; rfl, by rw [he]; rfl, by simp, ?_, hport, fun _ => ?_, by simp [hstrict]⟩
    · rw [forall_family_iff opts]
      simp [hc, he]
    · rw [forall_family_iff opts]
      simp [hc, he, hno]
  · refine ⟨by rw [he]; rfl, by rw [hd]; rfl, by simp, ?_, port_of_second hnet he hd, fun _ => ?_,
      by simp [he]⟩
    · rw [forall_family_iff opts]
      simp [he, hd]
    · rw [forall_family_iff opts]
      simp [he, hd, hno]

theorem isOpen_of_conn_ne_none {s : StdNetBind} {is6 : Bool} (h : s.conn is6 ≠ none) :
    s.isOpen = true := by
  rw [isOpen, Bool.or_eq_true, Option.isSome_iff_ne_none, Option.isSome_iff_ne_none]
  cases is6
  · exact .inl h
  · exact .inr h

section Install

variable {s : StdNetBind} (hs : s.isOpen = false)

include hs

/-- What a bind without a socket has after an installation. -/
theorem conn_install (v4conn v6conn : Option UDPConn) (is6 : Bool) :
    (install p true v6conn (install p false v4conn s).1).1.conn is6 =
      (if is6 then v6conn else v4conn).map UDPConn.conn := by
  obtain ⟨h4, h6⟩ := Bool.or_eq_false_iff.mp hs
  rw [Option.isSome_eq_false_iff, Option.isNone_iff_eq_none] at h4 h6
  rcases v4conn with - | c <;> rcases v6conn with - | d <;> cases is6 <;>
    simp [install, conn, h4, h6]

theorem conn_install_byFamily (first second : Option UDPConn) :
    (install p true (byFamily opts first second).2
        (install p false (byFamily opts first second).1 s).1).1.conn (familyOrder opts).1 =
      first.map UDPConn.conn ∧
    (install p true (byFamily opts first second).2
        (install p false (byFamily opts first second).1 s).1).1.conn (familyOrder opts).2 =
      second.map UDPConn.conn := by
  rw [conn_install hs, conn_install hs]
  by_cases hf : opts.familyOrder = .ipv6First
  · simp [byFamily, familyOrder, hf]
  · simp [byFamily, familyOrder, hf]

/-- There is one receive function for each socket, that of IPv4 first. -/
theorem fns_install (v4conn v6conn : Option UDPConn) :
    ((install p false v4conn s).2 ++ (install p true v6conn (install p false v4conn s).1).2).map
        (fun f => (f.is6, f.conn)) =
      ((install p true v6conn (install p false v4conn s).1).1.ipv4.toList.map
        fun c => (false, c)) ++
      (install p true v6conn (install p false v4conn s).1).1.ipv6.toList.map
        fun c => (true, c) := by
  obtain ⟨h4, h6⟩ := Bool.or_eq_false_iff.mp hs
  rw [Option.isSome_eq_false_iff, Option.isNone_iff_eq_none] at h4 h6
  rcases v4conn with - | c <;> rcases v6conn with - | d <;> simp [install, h4, h6]

end Install

/-- The part of `Open` behind the loop succeeds only if the loop ended with sockets. -/
theorem exists_opened_of_finish {s : StdNetBind} {a : Attempt} {o : Sockets} {n : ℕ} {r : Opened}
    (h : finish p opts s (a, o, n) = r) (herr : r.err = none) :
    ∃ first second port report, a = .opened first second port report := by
  obtain ⟨-, -, ⟨hne, -⟩ | ⟨first, second, port, report, ha, -⟩⟩ := finish_cases p opts s a o n h
  · exact absurd herr hne
  · exact ⟨first, second, port, report, ha⟩

/-- What the part of `Open` behind the loop returns. -/
theorem finish_opened {s : StdNetBind} {first second : Option UDPConn} {port n : ℕ}
    {report : Option (Bool × Error)} {o : Sockets} {r : Opened}
    (h : finish p opts s (.opened first second port report, o, n) = r) (herr : r.err = none) :
    r.port = UInt16.ofNat port ∧ r.attempts = n ∧
      (r.familyOpenError = if opts.onFamilyOpenError then
        report.map fun x => (network x.1, x.2) else none) ∧
      r.bind = (install p true (byFamily opts first second).2
        (install p false (byFamily opts first second).1 s).1).1 ∧
      r.fns = (install p false (byFamily opts first second).1 s).2 ++
        (install p true (byFamily opts first second).2
          (install p false (byFamily opts first second).1 s).1).2 := by
  subst h
  simp only [finish] at herr ⊢
  split at herr
  case isTrue => simp [Opened.failed] at herr
  case isFalse hne =>
    rw [if_neg hne]
    exact ⟨rfl, rfl, rfl, rfl, rfl⟩

/-- **What a successful `Open` guarantees**, in terms of what the listens of its last attempt
returned. -/
theorem openedAs_of_Open (hnet : ∀ n ∈ net, n.BindsPorts) {s : StdNetBind} {o : Sockets}
    {r : Opened} (he : s.Open p opts net uport o = some r) (herr : r.err = none) :
    OpenedAs opts uport
      (listened opts net uport (passes opts net uport 0 (r.attempts - 1) o)) r := by
  unfold Open at he
  split_ifs at he with hs
  · obtain rfl := Option.some.inj he
    simp [Opened.failed] at herr
  rw [Bool.not_eq_true] at hs
  obtain ⟨⟨a, o', n⟩, ha, hr⟩ := Option.map_eq_some_iff.mp he
  obtain ⟨first, second, port, report, rfl⟩ := exists_opened_of_finish hr herr
  obtain ⟨hport, hn, hreport, hbind, hfns⟩ := finish_opened hr herr
  obtain ⟨k, hk, hlast⟩ := exists_passes_of_attempts ha
  have hk' : r.attempts - 1 = k := by omega
  rw [Nat.zero_add] at hlast
  rw [hk']
  have hpass := passedAs_of_attempt hnet hlast
  generalize listened opts net uport (passes opts net uport 0 k o) = listened at hpass ⊢
  obtain ⟨hfirst, hsecond⟩ := @conn_install_byFamily p opts s hs first second
  rw [← hbind] at hfirst hsecond
  have htoNat : r.port.toNat = port := by
    rw [hport, UInt16.toNat_ofNat_of_lt' hpass.requested.2.2]
  refine ⟨?_, fun is6 c q hq => ?_, fun hne => ?_, ?_, ?_, hpass.strict, fun name e => ?_⟩
  · rw [forall_family_iff opts, hfirst, hsecond, hpass.first_eq, hpass.second_eq, Option.map_map,
      Option.map_map]
    exact ⟨rfl, rfl⟩
  · rw [htoNat, hpass.same_port is6 c q hq]
  · rw [← UInt16.toNat_inj, htoNat, hpass.requested.1 hne]
  · rw [hfns, hbind]
    exact fns_install hs _ _
  · rcases hpass.ne_none with hne | hne
    · exact @isOpen_of_conn_ne_none _ (familyOrder opts).1 (by simpa [hfirst] using hne)
    · exact @isOpen_of_conn_ne_none _ (familyOrder opts).2 (by simpa [hsecond] using hne)
  · rw [hreport]
    by_cases hon : opts.onFamilyOpenError = true
    · rw [if_pos hon, Option.map_eq_some_iff, Prod.exists]
      simp only [hpass.reported, Prod.mk.injEq]
      constructor
      · rintro ⟨is6, e', ⟨hsingle, hok, herr', rfl⟩, rfl, rfl⟩
        exact ⟨hon, hsingle, hok, herr', rfl⟩
      · rintro ⟨-, hsingle, hok, herr', rfl⟩
        exact ⟨_, e, ⟨hsingle, hok, herr', rfl⟩, rfl, rfl⟩
    · simp [hon]

/-- Different ports are asked for by different texts. -/
theorem listenAddress_injective (is6 : Bool) : Function.Injective (listenAddress is6) := by
  intro port port' h
  have hrepr : port.repr = port'.repr := by cases is6 <;> simpa [listenAddress] using h
  rw [Nat.repr_eq_ofList_toDigits, Nat.repr_eq_ofList_toDigits, String.ofList_inj] at hrepr
  rw [← @Nat.ofDigitChars_ten_toDigits port, hrepr, Nat.ofDigitChars_ten_toDigits]

/-- A network on which one port is free in both families. -/
def freeNetwork : Network where
  isNative := true
  listen _ family addr :=
    if addr = listenAddress (family = "udp6") 0 ∨ addr = listenAddress (family = "udp6") 51820 then
      .ok ⟨addr, none, .ok 51820, true, (true, true)⟩
    else .error (.errno .eaddrinuse)

theorem bindsPorts_freeNetwork : freeNetwork.BindsPorts := by
  intro n is6 port b q hb hq
  have hfamily : decide (network is6 = "udp6") = is6 := by cases is6 <;> decide
  simp only [freeNetwork, hfamily, (listenAddress_injective is6).eq_iff] at hb
  split_ifs at hb with hport
  obtain rfl := Except.ok.inj hb
  obtain rfl := Except.ok.inj hq
  rcases hport with rfl | rfl <;> decide

/-- Both families, IPv4 first. -/
def bothFamilies : StdNetBindOptions := ⟨.ipv4First, false, true, 0⟩

theorem openedAs_freeNetwork :
    ∃ r, (NewStdNetBindWithOptions .linux (some freeNetwork) bothFamilies).Open .linux bothFamilies
        (some freeNetwork) 0 .empty = some r ∧ r.err = none ∧
      OpenedAs bothFamilies 0 (listened bothFamilies (some freeNetwork) 0
        (passes bothFamilies (some freeNetwork) 0 0 (r.attempts - 1) .empty)) r := by
  have hrun : ((NewStdNetBindWithOptions .linux (some freeNetwork) bothFamilies).Open .linux
      bothFamilies (some freeNetwork) 0 .empty).map Opened.err = some none := by decide +kernel
  obtain ⟨r, hr, herr⟩ := Option.map_eq_some_iff.mp hrun
  refine ⟨r, hr, herr, openedAs_of_Open ?_ hr herr⟩
  rintro n ⟨⟩
  exact bindsPorts_freeNetwork

end StdNetBind

end BatchUDP
