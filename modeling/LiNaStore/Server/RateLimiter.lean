import LiNaStore.Library.Interleave
import LiNaStore.Server.Connection
import Mathlib.Algebra.BigOperators.Group.Finset.Piecewise
import Mathlib.Data.Fintype.Basic

/-!
# The limit of handshakes

The limiter keeps the instants at which handshakes from an address failed, as far as they are in
its window, and turns an address away that has too many (`HandshakeRateLimiter`). A connection
first asks the limiter, then has the password verified, and then reports how that went
(`authenticate`), and other connections do the same in the meantime (`ConnRun`).

So connections from one address that have all asked before one of them has reported get their
passwords verified, however many they are (`failed_verifications_overlapping`). The limit holds if
whenever a connection passes, the failures in the window and the handshakes from the address that
are still under way are fewer than the limit (`failed_verifications_le`). Where a connection
passes while no other handshake from its address is under way, that is so
(`HandshakeRateLimiter.spare_of_alone`).
-/

namespace LiNaStore

open Program

/-! ## The limiter -/

/-- The failures of an address. -/
structure Failures where
  ip : IpAddr
  instants : List ℕ
  deriving DecidableEq, Repr

structure HandshakeRateLimiter where
  /-- How long a failure counts. -/
  window : ℕ
  maxFailures : UInt32
  gcThreshold : ℕ

namespace HandshakeRateLimiter

variable (self : HandshakeRateLimiter)

/-- The instants in the window. -/
def retain (now : ℕ) (instants : List ℕ) : List ℕ := instants.filter fun t => now - t < self.window

/-- Whether an address may try a handshake now. -/
def check (now : ℕ) (ip : IpAddr) (guard : Table Failures.ip) : Bool × Table Failures.ip :=
  match guard.find? ip with
  | some entries =>
    let instants := self.retain now entries.instants
    (UInt32.ofNat instants.length < self.maxFailures, guard.set ⟨ip, instants⟩)
  | none => (true, guard)

/-- Forget the instants that are out of the window, and the addresses that have no others. -/
def sweep (now : ℕ) (guard : Table Failures.ip) : Table Failures.ip :=
  (guard.update (fun _ => true) (fun entries =>
    { entries with instants := self.retain now entries.instants }) fun _ => rfl).filter
      fun entries => entries.instants ≠ []

/-- The instants of an address. -/
def instantsOf (guard : Table Failures.ip) (ip : IpAddr) : List ℕ :=
  ((guard.find? ip).map Failures.instants).getD []

def recordFailure (now : ℕ) (ip : IpAddr) (guard : Table Failures.ip) : Table Failures.ip :=
  let guard := guard.set ⟨ip, self.retain now (instantsOf guard ip) ++ [now]⟩
  if guard.rows.length > self.gcThreshold then self.sweep now guard else guard

def recordSuccess (ip : IpAddr) (guard : Table Failures.ip) : Table Failures.ip := guard.erase ip

/-- The number of failures of an address from `a` on. -/
def since (a : ℕ) (guard : Table Failures.ip) (ip : IpAddr) : ℕ :=
  (instantsOf guard ip).countP fun t => a ≤ t

variable {self} {a now : ℕ} {guard : Table Failures.ip}

theorem instantsOf_set (entries : Failures) (ip : IpAddr) :
    instantsOf (guard.set entries) ip =
      if ip = entries.ip then entries.instants else instantsOf guard ip := by
  rw [instantsOf, Table.find?_set]
  split <;> rfl

theorem instantsOf_sweep (now : ℕ) (guard : Table Failures.ip) (ip : IpAddr) :
    instantsOf (self.sweep now guard) ip = self.retain now (instantsOf guard ip) := by
  rw [instantsOf, sweep, Table.find?_filter, Table.find?_update, instantsOf]
  cases guard.find? ip with
  | none => rfl
  | some entries =>
    by_cases hnil : self.retain now entries.instants = []
    · simp [Option.filter, hnil]
    · simp [Option.filter, hnil]

/-- While `a` is in the window, nothing from `a` on is forgotten. -/
theorem countP_retain (hw : 0 < self.window) (ha : now < a + self.window) (instants : List ℕ) :
    (self.retain now instants).countP (fun t => a ≤ t) = instants.countP fun t => a ≤ t := by
  rw [retain, List.countP_filter]
  refine List.countP_congr fun t _ => ?_
  simp only [Bool.and_eq_true, decide_eq_true_eq, and_iff_left_iff_imp]
  omega

theorem since_le_length_retain (hw : 0 < self.window) (ha : now < a + self.window)
    (guard : Table Failures.ip) (ip : IpAddr) :
    since a guard ip ≤ (self.retain now (instantsOf guard ip)).length := by
  rw [since, ← countP_retain hw ha]
  exact List.countP_le_length

theorem since_check (hw : 0 < self.window) (ha : now < a + self.window) (ip' ip : IpAddr) :
    since a (self.check now ip' guard).2 ip = since a guard ip := by
  rw [check]
  cases hfind : guard.find? ip' with
  | none => rfl
  | some entries =>
    rw [since, since, instantsOf_set]
    split
    · next heq =>
      rw [countP_retain hw ha, heq, instantsOf, hfind]
      rfl
    · rfl

theorem since_recordFailure (hw : 0 < self.window) (ha : now < a + self.window) (ip' ip : IpAddr) :
    since a (self.recordFailure now ip' guard) ip =
      since a guard ip + if ip = ip' ∧ a ≤ now then 1 else 0 := by
  have hset : since a (guard.set ⟨ip', self.retain now (instantsOf guard ip') ++ [now]⟩) ip =
      since a guard ip + if ip = ip' ∧ a ≤ now then 1 else 0 := by
    rw [since, since, instantsOf_set]
    split
    · next heq =>
      rw [List.countP_append, countP_retain hw ha, List.countP_singleton, show ip = ip' from heq]
      simp
    · next hne => rw [if_neg fun h => hne h.1, Nat.add_zero]
  rw [recordFailure]
  split
  · rw [since, instantsOf_sweep, countP_retain hw ha]
    exact hset
  · exact hset

theorem since_recordSuccess (ip' ip : IpAddr) :
    since a (recordSuccess ip' guard) ip = if ip = ip' then 0 else since a guard ip := by
  rw [since, instantsOf, recordSuccess, Table.find?_erase]
  split <;> rfl

end HandshakeRateLimiter

/-! ## A handshake, step by step -/

/-- Where a connection is with a handshake. -/
inductive HandshakePhase
  /-- No handshake is under way. -/
  | idle
  /-- The limiter has let it pass. -/
  | admitted
  /-- The password was wrong. -/
  | failing
  /-- The password was right. -/
  | passing
  /-- The handshake failed and the connection is to be closed. -/
  | closed
  deriving DecidableEq, Repr

/-- The order of the steps of a handshake. -/
def handshakeOrder (peerIp : IpAddr) : Discipline ServerError FrontPrim.Res HandshakePhase where
  allowed
    | .idle, .receive | .idle, .send _ | .idle, .server _ => True
    | .idle, .checkRate ip => ip = peerIp
    | .admitted, .handleHandshake .. => True
    | .admitted, .recordFailure ip => ip = peerIp
    | .failing, .recordFailure ip => ip = peerIp
    | .passing, .recordSuccess ip => ip = peerIp
    | .closed, .send _ => True
    | _, _ => False
  next
    | .idle, .checkRate _, .ok true => .admitted
    | .idle, .checkRate _, _ => .closed
    | .admitted, .handleHandshake .., .ok (.ok _) => .passing
    | .admitted, .handleHandshake .., .ok (.error .invalidPassword) => .failing
    | .admitted, _, _ => .closed
    | .failing, _, _ => .closed
    | .passing, _, _ => .idle
    | q, _, _ => q

/-- A handshake ends idle, or closed if the connection is not to go on. -/
theorem ordered_authenticate (peerIp : IpAddr) (message : LiNaProtocol) :
    (authenticate peerIp message).Keeps (handshakeOrder peerIp)
      (fun r q => ∀ reply, r = .ok reply → q = .idle ∨ q = .closed ∧ reply.goesOn = false)
      .idle := by
  have hclosed {status : Status} {code : HandshakeStatus} : ∀ reply : Reply,
      (.ok (refuseHandshake status code) : Except ServerError Reply) = .ok reply →
        HandshakePhase.closed = .idle ∨ HandshakePhase.closed = .closed ∧ reply.goesOn = false := by
    rintro reply ⟨rfl⟩
    exact .inr ⟨rfl, rfl⟩
  refine .bind (.perform rfl fun a => ?_)
  rcases a with e | (_ | _)
  · exact nofun
  · exact .pure hclosed
  · dsimp only
    split
    · exact .perform_pure rfl (fun _ => nofun) fun _ => hclosed
    · refine .bind (.perform trivial fun a => ?_)
      rcases a with e | (status | ⟨token, expiresAt⟩)
      · exact nofun
      · cases status with
        | invalidPassword => exact .perform_pure rfl (fun _ => nofun) fun _ => hclosed
        | success | authDisabled | internalError => exact .pure hclosed
      · exact .perform_pure rfl (fun _ => nofun) fun _ _ _ => .inl rfl

/-- A connection makes its handshakes in order. -/
theorem ordered_waitress (C : Cipher) (authRequired : Bool) (peerIp : IpAddr)
    (ds : List FrontDraws) :
    (waitress C authRequired peerIp ds).Keeps (handshakeOrder peerIp) (fun _ _ => True) .idle := by
  induction ds with
  | nil => exact .pure trivial
  | cons d ds ih =>
    refine .bind (.perform trivial fun a => ?_)
    rcases a with e | (_ | message)
    · trivial
    · exact .pure trivial
    · have hhandle : (handleMessage C authRequired peerIp d message).Keeps (handshakeOrder peerIp)
          (fun r q => ∀ reply, r = .ok reply → q = .idle ∨ q = .closed ∧ reply.goesOn = false)
          .idle := by
        rw [handleMessage]
        split
        · exact ordered_authenticate peerIp message
        · exact .embed ((Keeps.of_inert (fun _ => ⟨trivial, fun _ => rfl⟩) _).mono
            fun _ _ hq _ _ => .inl hq)
      refine .bind (hhandle.mono fun r q hr => ?_)
      cases r with
      | error e => trivial
      | ok reply =>
        rcases hr reply rfl with rfl | ⟨rfl, hstop⟩
        · refine .bind (.ignore (.perform trivial fun _ => ?_))
          dsimp only
          split
          · exact ih
          · exact .pure trivial
        · refine .bind (.ignore (.perform trivial fun _ => ?_))
          dsimp only
          rw [hstop, if_neg Bool.false_ne_true]
          exact .pure trivial

/-! ## Connections -/

/-- The time, and what the limiter knows. -/
structure LimiterState where
  now : ℕ
  failures : Table Failures.ip

/-- The answers of the primitives: the limiter answers for itself, the others answer anything. -/
def HandshakeRateLimiter.Answers (L : HandshakeRateLimiter) (now : ℕ) (failures : Table Failures.ip) :
    (p : FrontPrim) → Except ServerError p.Res → Table Failures.ip → Prop
  | .checkRate ip, a, failures' =>
    a = .ok (L.check now ip failures).1 ∧ failures' = (L.check now ip failures).2
  | .recordFailure ip, a, failures' => a = .ok () ∧ failures' = L.recordFailure now ip failures
  | .recordSuccess ip, a, failures' =>
    a = .ok () ∧ failures' = HandshakeRateLimiter.recordSuccess ip failures
  | _, _, failures' => failures' = failures

/-- Connections share the limiter, and time passes. -/
def HandshakeRateLimiter.system (L : HandshakeRateLimiter) (ι : Type) :
    Interleave.System ι LimiterState ServerError FrontPrim.Res where
  act _ s p a s' := s'.now = s.now ∧ L.Answers s.now s.failures p a s'.failures
  env s s' := s.now ≤ s'.now ∧ s'.failures = s.failures

/-- Connections, with where each is with a handshake. -/
abbrev Connections (ι : Type) :=
  Interleave.Config ι LimiterState ServerError FrontPrim.Res Unit HandshakePhase

abbrev ConnEvent (ι : Type) := Interleave.Event ι LimiterState ServerError FrontPrim.Res

section

variable {ι : Type} [DecidableEq ι]

omit [DecidableEq ι] in
/-- Connections from the addresses `peer` before any of them has done anything. -/
def Connections.start (C : Cipher) (authRequired : Bool) (peer : ι → IpAddr)
    (draws : ι → List FrontDraws) (now : ℕ) : Connections ι :=
  ⟨⟨now, .empty⟩, fun i => waitress C authRequired (peer i) (draws i), fun _ => .idle, []⟩

/-- The runs of connections from the addresses `peer`, one primitive at a time, in any order and
    at any times. A connection that passes the limiter does so only where `P` holds of its
    address. -/
def ConnRun (L : HandshakeRateLimiter) (peer : ι → IpAddr) (P : Connections ι → IpAddr → Prop)
    (c : Connections ι) : Prop :=
  ∃ C authRequired draws now, Interleave.Run (L.system ι) (fun i => handshakeOrder (peer i))
    (fun c _ e => ∀ ip, e = ⟨.checkRate ip, .ok true⟩ → P c ip)
    (Connections.start C authRequired peer draws now) c

/-! ## What one call changes -/

/-- A password was verified and was wrong. -/
def verificationFailed : ((p : FrontPrim) × Except ServerError p.Res) → Bool
  | ⟨.handleHandshake .., .ok (.error .invalidPassword)⟩ => true
  | _ => false

/-- The calls of a connection, with what they make of the phase and of the limiter. -/
inductive HandshakeStep (L : HandshakeRateLimiter) (peerIp : IpAddr) (now : ℕ)
    (failures : Table Failures.ip) : HandshakePhase → ((p : FrontPrim) × Except ServerError p.Res) →
      HandshakePhase → Table Failures.ip → Prop
  | grant : (L.check now peerIp failures).1 = true →
      HandshakeStep L peerIp now failures .idle ⟨.checkRate peerIp, .ok true⟩ .admitted
        (L.check now peerIp failures).2
  | reject : (L.check now peerIp failures).1 = false →
      HandshakeStep L peerIp now failures .idle ⟨.checkRate peerIp, .ok false⟩ .closed
        (L.check now peerIp failures).2
  | fail {username password : String} :
      HandshakeStep L peerIp now failures .admitted
        ⟨.handleHandshake username password, .ok (.error .invalidPassword)⟩ .failing failures
  | pass {username password : String} {r : String × ℤ} :
      HandshakeStep L peerIp now failures .admitted
        ⟨.handleHandshake username password, .ok (.ok r)⟩ .passing failures
  | abort {username password : String}
      {a : Except ServerError (Except HandshakeStatus (String × ℤ))} :
      verificationFailed ⟨.handleHandshake username password, a⟩ = false →
      HandshakeStep L peerIp now failures .admitted ⟨.handleHandshake username password, a⟩ .closed
        failures
  | recordFailure {q : HandshakePhase} : q = .admitted ∨ q = .failing →
      HandshakeStep L peerIp now failures q ⟨.recordFailure peerIp, .ok ()⟩ .closed
        (L.recordFailure now peerIp failures)
  | recordSuccess : HandshakeStep L peerIp now failures .passing ⟨.recordSuccess peerIp, .ok ()⟩ .idle
        (HandshakeRateLimiter.recordSuccess peerIp failures)
  | receive {a : Except ServerError (Option LiNaProtocol)} :
      HandshakeStep L peerIp now failures .idle ⟨.receive, a⟩ .idle failures
  | send {q : HandshakePhase} {message : LiNaProtocol} {a : Except ServerError Unit} :
      q = .idle ∨ q = .closed →
      HandshakeStep L peerIp now failures q ⟨.send message, a⟩ q failures
  | server {p : ServerPrim} {a : Except ServerError p.Res} :
      HandshakeStep L peerIp now failures .idle ⟨.server p, a⟩ .idle failures

theorem handshakeStep {L : HandshakeRateLimiter} {peerIp : IpAddr} {now : ℕ}
    {failures failures' : Table Failures.ip} {q : HandshakePhase} {p : FrontPrim}
    {a : Except ServerError p.Res} (hallowed : (handshakeOrder peerIp).allowed q p)
    (hanswer : L.Answers now failures p a failures') :
    HandshakeStep L peerIp now failures q ⟨p, a⟩ ((handshakeOrder peerIp).next q p a) failures' := by
  cases q with
  | idle =>
    cases p with
    | receive => cases hanswer; exact .receive
    | send message => cases hanswer; exact .send (.inl rfl)
    | server p => cases hanswer; exact .server
    | checkRate ip =>
      cases hallowed
      obtain ⟨rfl, rfl⟩ := hanswer
      cases hcheck : (L.check now peerIp failures).1 with
      | true => exact .grant hcheck
      | false => exact .reject hcheck
    | recordFailure | recordSuccess | handleHandshake => exact hallowed.elim
  | admitted =>
    cases p with
    | handleHandshake username password =>
      cases hanswer
      rcases a with e | ((_ | _ | _ | _) | r)
      · exact .abort rfl
      · exact .abort rfl
      · exact .fail
      · exact .abort rfl
      · exact .abort rfl
      · exact .pass
    | recordFailure ip =>
      cases hallowed
      obtain ⟨rfl, rfl⟩ := hanswer
      exact .recordFailure (.inl rfl)
    | receive | send | server | checkRate | recordSuccess => exact hallowed.elim
  | failing =>
    cases p with
    | recordFailure ip =>
      cases hallowed
      obtain ⟨rfl, rfl⟩ := hanswer
      exact .recordFailure (.inr rfl)
    | receive | send | server | checkRate | recordSuccess | handleHandshake => exact hallowed.elim
  | passing =>
    cases p with
    | recordSuccess ip =>
      cases hallowed
      obtain ⟨rfl, rfl⟩ := hanswer
      exact .recordSuccess
    | receive | send | server | checkRate | recordFailure | handleHandshake => exact hallowed.elim
  | closed =>
    cases p with
    | send message => cases hanswer; exact .send (.inr rfl)
    | receive | server | checkRate | recordFailure | recordSuccess | handleHandshake =>
      exact hallowed.elim

namespace HandshakeStep

open HandshakeRateLimiter

variable {L : HandshakeRateLimiter} {peerIp ip : IpAddr} {a now : ℕ}
  {failures failures' : Table Failures.ip} {q q' : HandshakePhase}
  {e : (p : FrontPrim) × Except ServerError p.Res}

/-- Nothing is recorded for other addresses. -/
theorem since_of_ne (h : HandshakeStep L peerIp now failures q e q' failures')
    (hw : 0 < L.window) (ha : now < a + L.window) (hne : ip ≠ peerIp) :
    since a failures' ip = since a failures ip := by
  cases h with
  | grant | reject => exact since_check hw ha _ _
  | recordFailure => rw [since_recordFailure hw ha, if_neg fun h => hne h.1, Nat.add_zero]
  | recordSuccess => rw [since_recordSuccess, if_neg hne]
  | fail | pass | abort | receive | send | server => rfl

/-- But for a handshake that is let pass, what is recorded was under way. -/
theorem since_add_underWay (h : HandshakeStep L ip now failures q e q' failures')
    (hw : 0 < L.window) (ha : now < a + L.window) (hne : e ≠ ⟨.checkRate ip, .ok true⟩) :
    (since a failures' ip + if q' ∈ [HandshakePhase.admitted, .failing] then 1 else 0) ≤
      since a failures ip + if q ∈ [HandshakePhase.admitted, .failing] then 1 else 0 := by
  cases h with
  | grant => exact absurd rfl hne
  | reject =>
    rw [since_check hw ha]
    exact Nat.le_refl _
  | recordFailure hq =>
    rw [since_recordFailure hw ha]
    change since a failures ip + (if _ then 1 else 0) ≤ _
    refine Nat.add_le_add_left ?_ _
    rcases hq with rfl | rfl <;> split <;> decide
  | recordSuccess =>
    rw [since_recordSuccess, if_pos rfl]
    exact Nat.zero_le _
  | fail | receive | send | server => exact Nat.le_refl _
  | pass | abort => exact Nat.le_succ _

/-- A wrong password is to be reported, and after that it is recorded, unless there is a
    success. -/
theorem failed_add_since (h : HandshakeStep L ip now failures q e q' failures')
    (hw : 0 < L.window) (ha : now < a + L.window) (hnow : a ≤ now)
    (hne : e.1 ≠ .recordSuccess ip) :
    ((if verificationFailed e then 1 else 0) + since a failures ip +
        if q ∈ [HandshakePhase.failing] then 1 else 0) ≤
      since a failures' ip + if q' ∈ [HandshakePhase.failing] then 1 else 0 := by
  cases h with
  | grant | reject =>
    rw [since_check hw ha]
    simp [verificationFailed]
  | fail => simp [verificationFailed, Nat.add_comm]
  | abort hfailed => simp [hfailed]
  | recordFailure hq =>
    rw [since_recordFailure hw ha]
    rcases hq with rfl | rfl <;> simp [verificationFailed, hnow]
  | recordSuccess => exact absurd rfl hne
  | pass | receive | send | server => simp [verificationFailed]

end HandshakeStep

/-! ## Counting -/

variable [Fintype ι]

/-- Counting after one value has changed. -/
theorem card_filter_update {β : Type} (f : ι → β) (i : ι) (b : β) (P : ι → β → Prop)
    [∀ j, DecidablePred (P j)] :
    ((Finset.univ.filter fun j => P j (Function.update f i b j)).card + if P i (f i) then 1 else 0) =
      (Finset.univ.filter fun j => P j (f j)).card + if P i b then 1 else 0 := by
  have hrest : ∑ j ∈ Finset.univ.erase i, (if P j (Function.update f i b j) then 1 else 0) =
      ∑ j ∈ Finset.univ.erase i, if P j (f j) then 1 else 0 :=
    Finset.sum_congr rfl fun j hj => by rw [Function.update_of_ne (Finset.ne_of_mem_erase hj)]
  rw [Finset.card_filter, Finset.card_filter, ← Finset.add_sum_erase _ _ (Finset.mem_univ i), hrest,
    ← Finset.add_sum_erase _ (fun j => if P j (f j) then 1 else 0) (Finset.mem_univ i),
    Function.update_self]
  omega

/-- The number of connections from an address that are in one of some phases. -/
def Connections.inPhases (c : Connections ι) (peer : ι → IpAddr) (phases : List HandshakePhase)
    (ip : IpAddr) : ℕ :=
  (Finset.univ.filter fun i => peer i = ip ∧ c.phase i ∈ phases).card

/-- The handshakes from an address that may still fail, or have and did not report it. -/
def Connections.underWay (c : Connections ι) (peer : ι → IpAddr) (ip : IpAddr) : ℕ :=
  c.inPhases peer [.admitted, .failing] ip

omit [DecidableEq ι] in
theorem Connections.inPhases_le_underWay (c : Connections ι) (peer : ι → IpAddr) (ip : IpAddr) :
    c.inPhases peer [.failing] ip ≤ c.underWay peer ip := by
  rw [underWay, inPhases, inPhases]
  refine Finset.card_le_card fun i hi => ?_
  simp only [Finset.mem_filter, List.mem_cons, List.not_mem_nil, or_false] at hi ⊢
  exact ⟨hi.1, hi.2.1, .inr hi.2.2⟩

/-- There is room for one more handshake from an address. -/
def HandshakeRateLimiter.Spare (L : HandshakeRateLimiter) (peer : ι → IpAddr) (c : Connections ι)
    (ip : IpAddr) : Prop :=
  (L.retain c.state.now (HandshakeRateLimiter.instantsOf c.state.failures ip)).length +
    c.underWay peer ip < L.maxFailures.toNat

omit [DecidableEq ι] in
/-- There is room if the limiter lets a handshake pass while no other from its address is under
    way. -/
theorem HandshakeRateLimiter.spare_of_alone {L : HandshakeRateLimiter} {peer : ι → IpAddr}
    {c : Connections ι} {ip : IpAddr} (hcheck : (L.check c.state.now ip c.state.failures).1 = true)
    (hmax : 0 < L.maxFailures.toNat)
    (hlength : (L.retain c.state.now (instantsOf c.state.failures ip)).length < 2 ^ 32)
    (halone : c.underWay peer ip = 0) : L.Spare peer c ip := by
  rw [Spare, halone, Nat.add_zero]
  rw [instantsOf] at hlength ⊢
  rw [check] at hcheck
  cases hfind : c.state.failures.find? ip with
  | none => exact hmax
  | some entries =>
    rw [hfind] at hcheck hlength
    have hlt := UInt32.lt_iff_toNat_lt.mp (of_decide_eq_true hcheck)
    rw [UInt32.toNat_ofNat'] at hlt
    exact (Nat.mod_eq_of_lt hlength).symm.trans_lt hlt

/-- The number of wrong passwords from an address in an interval of time. -/
def failedIn (peer : ι → IpAddr) (ip : IpAddr) (a b : ℕ) (log : List (ConnEvent ι)) : ℕ :=
  log.countP fun e => peer e.process = ip ∧ verificationFailed e.call ∧ a ≤ e.state.now ∧ e.state.now ≤ b

/-- No handshake from an address succeeds in an interval of time. -/
def NoSuccessIn (ip : IpAddr) (a b : ℕ) (log : List (ConnEvent ι)) : Prop :=
  ∀ e ∈ log, e.call.1 = .recordSuccess ip → ¬(a ≤ e.state.now ∧ e.state.now ≤ b)

/-- The limit in an interval shorter than the window. Until it is over, the failures the limiter
    has since its beginning and the handshakes under way do not exceed the limit, and every wrong
    password in it is one of those failures or is still to be reported. -/
structure Connections.Bounded (L : HandshakeRateLimiter) (peer : ι → IpAddr) (ip : IpAddr)
    (a b : ℕ) (c : Connections ι) : Prop where
  times : ∀ e ∈ c.log, e.state.now ≤ c.state.now
  room : c.state.now ≤ b →
    HandshakeRateLimiter.since a c.state.failures ip + c.underWay peer ip ≤ L.maxFailures.toNat
  reported : c.state.now ≤ b → NoSuccessIn ip a b c.log → failedIn peer ip a b c.log ≤
    HandshakeRateLimiter.since a c.state.failures ip + c.inPhases peer [.failing] ip
  bound : NoSuccessIn ip a b c.log → failedIn peer ip a b c.log ≤ L.maxFailures.toNat

namespace Connections.Bounded

open HandshakeRateLimiter

variable {L : HandshakeRateLimiter} {peer : ι → IpAddr} {ip : IpAddr} {a b : ℕ} {c : Connections ι}

omit [DecidableEq ι] in
/-- Before the interval nothing has failed in it. -/
theorem failedIn_eq_zero (h : c.Bounded L peer ip a b) (hlt : c.state.now < a) :
    failedIn peer ip a b c.log = 0 := by
  refine List.countP_eq_zero.mpr fun e he hmatch => ?_
  have := h.times e he
  have := of_decide_eq_true hmatch
  omega

omit [DecidableEq ι] in
theorem wait (h : c.Bounded L peer ip a b) {s : LimiterState} (hs : (L.system ι).env c.state s) :
    Bounded L peer ip a b { c with state := s } := by
  obtain ⟨hnow, hfailures⟩ := hs
  refine ⟨fun e he => (h.times e he).trans hnow, fun hb => ?_, fun hb => ?_, h.bound⟩
  · dsimp only
    rw [hfailures]
    exact h.room (hnow.trans hb)
  · dsimp only
    rw [hfailures]
    exact h.reported (hnow.trans hb)

/-- A call within the interval. -/
theorem act_within (h : c.Bounded L peer ip a b) (hw : 0 < L.window) (hab : b < a + L.window)
    (hb : c.state.now ≤ b) {i : ι} {e : (p : FrontPrim) × Except ServerError p.Res} {q : HandshakePhase}
    {failures : Table Failures.ip} {t : Connections ι}
    (hstep : HandshakeStep L (peer i) c.state.now c.state.failures (c.phase i) e q failures)
    (hspare : e = ⟨.checkRate ip, .ok true⟩ → L.Spare peer c ip)
    (hphase : t.phase = Function.update c.phase i q)
    (hlog : t.log = ⟨i, c.state, e⟩ :: c.log) :
    HandshakeRateLimiter.since a failures ip + t.underWay peer ip ≤ L.maxFailures.toNat ∧
      (NoSuccessIn ip a b t.log → failedIn peer ip a b t.log ≤
        HandshakeRateLimiter.since a failures ip + t.inPhases peer [.failing] ip) := by
  have ha : c.state.now < a + L.window := by omega
  have hU := card_filter_update c.phase i q fun j q => peer j = ip ∧
    q ∈ [HandshakePhase.admitted, .failing]
  have hF := card_filter_update c.phase i q fun j q => peer j = ip ∧ q ∈ [HandshakePhase.failing]
  rw [← hphase] at hU hF
  change t.underWay peer ip + _ = c.underWay peer ip + _ at hU
  change t.inPhases peer [.failing] ip + _ = c.inPhases peer [.failing] ip + _ at hF
  have hN : failedIn peer ip a b t.log = failedIn peer ip a b c.log +
      if peer i = ip ∧ verificationFailed e ∧ a ≤ c.state.now then 1 else 0 := by
    rw [failedIn, hlog, List.countP_cons, failedIn]
    simp [hb]
  have hroom := h.room hb
  have hreported (hno : NoSuccessIn ip a b t.log) := h.reported hb fun e he =>
    hno e (hlog ▸ List.mem_cons_of_mem _ he)
  rw [hN]
  by_cases hip : peer i = ip
  · subst hip
    simp only [true_and] at hU hF ⊢
    refine ⟨?_, fun hno => ?_⟩
    · by_cases hgrant : e = ⟨.checkRate (peer i), .ok true⟩
      · have hspare := hspare hgrant
        have hle := since_le_length_retain hw ha c.state.failures (peer i)
        rw [Spare] at hspare
        subst hgrant
        generalize c.phase i = phase at hstep hU
        cases hstep
        change _ + 0 = _ + 1 at hU
        rw [since_check hw ha]
        omega
      · have := hstep.since_add_underWay hw ha hgrant
        omega
    · have := hreported hno
      by_cases hnow : a ≤ c.state.now
      · have hne : e.1 ≠ .recordSuccess (peer i) := fun he =>
          hno _ (hlog ▸ List.mem_cons_self) he ⟨hnow, hb⟩
        have := hstep.failed_add_since hw ha hnow hne
        simp only [hnow, and_true]
        omega
      · have hzero := h.failedIn_eq_zero (Nat.lt_of_not_le hnow)
        rw [hzero, if_neg fun h => hnow h.2]
        exact Nat.zero_le _
  · rw [hstep.since_of_ne hw ha (Ne.symm hip)]
    simp only [hip, false_and, if_false, Nat.add_zero] at hU hF ⊢
    rw [hU, hF]
    exact ⟨hroom, hreported⟩

theorem act (h : c.Bounded L peer ip a b) (hw : 0 < L.window) (hab : b < a + L.window) {i : ι}
    {p : FrontPrim} {r : Except ServerError p.Res} {rest : FrontProg Unit} {s : LimiterState}
    (hallowed : (handshakeOrder (peer i)).allowed (c.phase i) p)
    (hs : (L.system ι).act i c.state p r s)
    (hspare : (⟨p, r⟩ : (p : FrontPrim) × Except ServerError p.Res) = ⟨.checkRate ip, .ok true⟩ →
      L.Spare peer c ip) :
    Bounded L peer ip a b (c.act (fun i => handshakeOrder (peer i)) i p r rest s) := by
  obtain ⟨hnow, hanswer⟩ := hs
  have hwithin (hb : c.state.now ≤ b) := h.act_within
    (t := c.act (fun i => handshakeOrder (peer i)) i p r rest s) hw hab hb
    (handshakeStep hallowed hanswer) hspare rfl rfl
  refine ⟨?_, fun hb => (hwithin (hnow ▸ hb)).1, fun hb => (hwithin (hnow ▸ hb)).2, fun hno => ?_⟩
  · rintro e he
    refine (?_ : e.state.now ≤ c.state.now).trans hnow.ge
    rcases List.mem_cons.mp he with rfl | he
    · exact Nat.le_refl _
    · exact h.times e he
  · by_cases hb : c.state.now ≤ b
    · have hle := Connections.inPhases_le_underWay
        (c.act (fun i => handshakeOrder (peer i)) i p r rest s) peer ip
      have := hwithin hb
      have := this.2 hno
      omega
    · -- what happens after the interval does not count
      have hbound := h.bound fun e he => hno e (List.mem_cons_of_mem _ he)
      have hsame : failedIn peer ip a b (c.act (fun i => handshakeOrder (peer i)) i p r rest s).log =
          failedIn peer ip a b c.log := by
        rw [failedIn, Interleave.Config.act, List.countP_cons, failedIn]
        simp [hb]
      omega

end Connections.Bounded

/-- In a run where a connection passes the limiter only if there is room for one more handshake
    from its address, in an interval of time shorter than the window in which no handshake from an
    address succeeds, at most as many passwords from there are found wrong as the limit says. -/
theorem failed_verifications_le {L : HandshakeRateLimiter} {peer : ι → IpAddr} {c : Connections ι}
    (h : ConnRun L peer (L.Spare peer) c) (ip : IpAddr) (a b : ℕ) (hab : b - a < L.window)
    (hno : NoSuccessIn ip a b c.log) : failedIn peer ip a b c.log ≤ L.maxFailures.toNat := by
  by_cases hle : a ≤ b
  · have hbounded : c.Bounded L peer ip a b := by
      have hw : 0 < L.window := by omega
      obtain ⟨C, authRequired, draws, now, hrun⟩ := h
      refine hrun.invariant (fun i => ordered_waitress C authRequired (peer i) (draws i)) ?_
        (fun c s hc hs => hc.wait hs)
        fun c i p r rest s hc hallowed hs hspare => hc.act hw (by omega) hallowed hs (hspare ip)
      refine ⟨List.forall_mem_nil _, fun _ => ?_, fun _ _ => ?_, fun _ => ?_⟩
      · simp [Connections.start, Connections.underWay, Connections.inPhases,
          HandshakeRateLimiter.since, HandshakeRateLimiter.instantsOf]
      · simp [Connections.start, failedIn]
      · simp [Connections.start, failedIn]
    exact hbounded.bound hno
  · have hzero : failedIn peer ip a b c.log = 0 := by
      refine List.countP_eq_zero.mpr fun e _ hmatch => ?_
      have := of_decide_eq_true hmatch
      omega
    omega

end

/-- A handshake with a name and a password. -/
def handshakeRequest : LiNaProtocol :=
  LiNaProtocol.withChecksum ⟨FlagType.auth.bits, .none, ⟨1, [0x61], 1, 0, [0x78]⟩⟩

/-- Two connections from one address both ask before one of them reports. The limiter, which knows
    of no failures, lets both pass. -/
theorem exists_overlapping (L : HandshakeRateLimiter) {P : Connections (Fin 2) → IpAddr → Prop}
    (hP : ∀ c : Connections (Fin 2), c.state.failures = .empty →
      c.underWay (fun _ => .v4 0) (.v4 0) ≤ 1 → P c (.v4 0)) :
    ∃ c, ConnRun L (fun _ => .v4 0) P c ∧ NoSuccessIn (.v4 0) 0 0 c.log ∧
      failedIn (fun _ => .v4 0) (.v4 0) 0 0 c.log = 2 := by
  obtain ⟨c, h, hlog⟩ : ∃ c : Connections (Fin 2), ConnRun L (fun _ => .v4 0) P c ∧
      c.log = [⟨1, ⟨0, .empty⟩, ⟨.handleHandshake "a" "x", .ok (.error .invalidPassword)⟩⟩,
        ⟨0, ⟨0, .empty⟩, ⟨.handleHandshake "a" "x", .ok (.error .invalidPassword)⟩⟩,
        ⟨1, ⟨0, .empty⟩, ⟨.checkRate (.v4 0), .ok true⟩⟩,
        ⟨0, ⟨0, .empty⟩, ⟨.checkRate (.v4 0), .ok true⟩⟩,
        ⟨1, ⟨0, .empty⟩, ⟨.receive, .ok (some handshakeRequest)⟩⟩,
        ⟨0, ⟨0, .empty⟩, ⟨.receive, .ok (some handshakeRequest)⟩⟩] :=
    ⟨_, ⟨.rejecting, true, fun _ => [.sample 0], 0,
      .act 1 (.handleHandshake "a" "x") (.ok (.error .invalidPassword))
        (.act 0 (.handleHandshake "a" "x") (.ok (.error .invalidPassword))
          (.act 1 (.checkRate (.v4 0)) (.ok true)
            (.act 0 (.checkRate (.v4 0)) (.ok true)
              (.act 1 FrontPrim.receive (.ok (some handshakeRequest))
                (.act 0 FrontPrim.receive (.ok (some handshakeRequest)) .refl rfl ⟨rfl, rfl⟩ nofun)
                rfl ⟨rfl, rfl⟩ nofun)
              rfl ⟨rfl, rfl, rfl⟩ fun _ hip => by cases hip; exact hP _ rfl (by decide))
            rfl ⟨rfl, rfl, rfl⟩ fun _ hip => by cases hip; exact hP _ rfl (by decide))
          rfl ⟨rfl, rfl⟩ nofun)
        rfl ⟨rfl, rfl⟩ nofun⟩, rfl⟩
  refine ⟨c, h, ?_, ?_⟩
  · rw [hlog]
    rintro e he hcall
    simp only [List.mem_cons, List.not_mem_nil, or_false] at he
    rcases he with rfl | rfl | rfl | rfl | rfl | rfl <;> cases hcall
  · rw [hlog]
    decide

/-- A limiter that lets two handshakes a minute fail. -/
def HandshakeRateLimiter.lenient : HandshakeRateLimiter := ⟨60, 2, 1024⟩

/-- It has room for two handshakes that overlap. -/
theorem failed_verifications_le_two :
    ∃ c : Connections (Fin 2), ConnRun .lenient (fun _ => .v4 0)
        (HandshakeRateLimiter.lenient.Spare fun _ => .v4 0) c ∧
      failedIn (fun _ => .v4 0) (.v4 0) 0 0 c.log = 2 ∧
      failedIn (fun _ => .v4 0) (.v4 0) 0 0 c.log ≤
        HandshakeRateLimiter.lenient.maxFailures.toNat := by
  obtain ⟨c, h, hno, htwo⟩ := exists_overlapping .lenient
    (P := HandshakeRateLimiter.lenient.Spare fun _ => .v4 0) fun c hnone hle => by
      rw [HandshakeRateLimiter.Spare, hnone]
      change 0 + c.underWay (fun _ => .v4 0) (.v4 0) < 2
      omega
  exact ⟨c, h, htwo, failed_verifications_le h (.v4 0) 0 0 (by decide) hno⟩

/-- A limiter that lets one handshake a minute fail. -/
def HandshakeRateLimiter.strict : HandshakeRateLimiter := ⟨60, 1, 1024⟩

/-- Two connections both ask before one of them reports, and both get a password verified. -/
theorem failed_verifications_overlapping :
    ∃ c : Connections (Fin 2), ConnRun .strict (fun _ => .v4 0) (fun _ _ => True) c ∧
      NoSuccessIn (.v4 0) 0 0 c.log ∧ 0 - 0 < HandshakeRateLimiter.strict.window ∧
      ¬failedIn (fun _ => .v4 0) (.v4 0) 0 0 c.log ≤
        HandshakeRateLimiter.strict.maxFailures.toNat := by
  obtain ⟨c, h, hno, htwo⟩ := exists_overlapping .strict (P := fun _ _ => True) fun _ _ _ => trivial
  refine ⟨c, h, hno, by decide, ?_⟩
  rw [htwo]
  decide

end LiNaStore
