import LiNaStore.Library.Interleave

/-!
# Shutting down

The server is shut down by setting a flag and then notifying all who wait (`Shutdown.shutdown`). The
three front ends and the cleaner of sessions wait for it in each round of their loops
(`serveUntilShutdown`), unless a connection or the next hour comes first. To wait is to ask for a
notification, then to look at the flag, and then to wait for the notification (`Shutdown.wait`); a
notification reaches those who have asked for one before.

Between any two of these steps other processes take theirs. Nevertheless nobody misses the shutdown:
once the flag is set and no notification is outstanding, none of those who wait for one has to wait
any longer, and nobody leaves its loop for a shutdown that was not (`no_lost_shutdown`).
-/

namespace LiNaStore

open Program Interleave

/-! ## The flag and the notifications -/

/-- The flag, and how often all who wait were notified. -/
structure Shutdown where
  isShutdown : Bool
  notifications : ℕ
  deriving DecidableEq, Repr

/-- The accesses to them, and what else a loop waits for. -/
inductive ShutdownPrim
  /-- Set the flag; the answer is what it was. -/
  | swap
  | notifyWaiters
  /-- Ask for a notification; the answer tells which ones came before. -/
  | notified
  /-- Look at the flag. -/
  | isShutdown
  /-- Wait for a notification later than the given ones. The answer is false if something else
      comes first. -/
  | await (since : ℕ)
  /-- Something else has already come when the branches of a loop are looked at. -/
  | ready
  deriving DecidableEq, Repr

namespace ShutdownPrim

/-- The type of the answer. -/
def Res : ShutdownPrim → Type
  | swap | isShutdown | await _ | ready => Bool
  | notifyWaiters => Unit
  | notified => ℕ

end ShutdownPrim

/-- Programs over these accesses. None of them fails. -/
abbrev ShutdownProg := Program Empty ShutdownPrim.Res

abbrev signal (o : ShutdownPrim) : ShutdownProg o.Res := perform o

namespace Shutdown

/-- Shut the server down. Only the first one who does so notifies. -/
def shutdown : ShutdownProg Bool := do
  let alreadyShutdown : Bool ← signal .swap
  if !alreadyShutdown then signal .notifyWaiters
  return true

/-- Wait for the shutdown; the result is false if something else came first. -/
def wait : ShutdownProg Bool := do
  let notified : ℕ ← signal .notified
  let isShutdown : Bool ← signal .isShutdown
  if isShutdown then return true
  signal (.await notified)

end Shutdown

/-- The loop of a front end, or of the cleaner, for a number of rounds: the branches are looked at
    in any order. The result tells whether it was left for a shutdown. -/
def serveUntilShutdown : ℕ → ShutdownProg Bool
  | 0 => return false
  | n + 1 => do
    let ready : Bool ← signal .ready
    if ready then serveUntilShutdown n
    else
      let shutdown ← Shutdown.wait
      if shutdown then return true
      else serveUntilShutdown n

/-- Who takes part. -/
inductive ShutdownRole
  /-- The one who is told to stop the server. -/
  | stopper
  | server (rounds : ℕ)
  deriving DecidableEq, Repr

def ShutdownRole.program : ShutdownRole → ShutdownProg Bool
  | stopper => Shutdown.shutdown
  | server rounds => serveUntilShutdown rounds

/-- How the accesses are answered. -/
inductive Shutdown.Act (s : Shutdown) :
    (o : ShutdownPrim) → Except Empty o.Res → Shutdown → Prop
  | swap : Act s .swap (.ok s.isShutdown) { s with isShutdown := true }
  | notifyWaiters : Act s .notifyWaiters (.ok ()) { s with notifications := s.notifications + 1 }
  | notified : Act s .notified (.ok s.notifications) s
  | isShutdown : Act s .isShutdown (.ok s.isShutdown) s
  | awaited {since : ℕ} : since < s.notifications → Act s (.await since) (.ok true) s
  | interrupted {since : ℕ} : Act s (.await since) (.ok false) s
  | ready (b : Bool) : Act s .ready (.ok b) s

/-- All processes share the flag and the notifications, which do not change by themselves. -/
def Shutdown.system (ι : Type) : System ι Shutdown Empty ShutdownPrim.Res where
  act _ s o a s' := s.Act o a s'
  env _ _ := False

/-! ## How far a process is -/

/-- How far a process is. -/
inductive ShutdownPhase
  | idle
  /-- It was the first to set the flag, and has not notified yet. -/
  | first
  /-- It has asked for a notification. -/
  | listening (since : ℕ)
  /-- It has not found the flag set after that. -/
  | waiting (since : ℕ)
  /-- It knows of the shutdown. -/
  | ended
  deriving DecidableEq, Repr

/-- What a process does next, and how far it is then. -/
def shutdownOrder : Discipline Empty ShutdownPrim.Res ShutdownPhase where
  allowed q o := match q with
    | .idle => o = .swap ∨ o = .notified ∨ o = .ready
    | .first => o = .notifyWaiters
    | .listening _ => o = .isShutdown
    | .waiting since => o = .await since
    | .ended => False
  next q o a := match o, a with
    | .swap, .ok true => .ended
    | .swap, .ok false => .first
    | .notifyWaiters, _ => .ended
    | .notified, .ok (since : ℕ) => .listening since
    | .isShutdown, .ok true => .ended
    | .isShutdown, .ok false => match q with
      | .listening since => .waiting since
      | _ => q
    | .await _, .ok true => .ended
    | .await _, .ok false => .idle
    | _, _ => q

/-- A process that knows of the shutdown ends with it. -/
def ShutdownEnds (r : Except Empty Bool) (q : ShutdownPhase) : Prop :=
  (r = .ok true ∧ q = .ended) ∨ r = .ok false ∧ q = .idle

namespace Shutdown

theorem keeps_shutdown : shutdown.Keeps shutdownOrder ShutdownEnds .idle := by
  rw [shutdown]
  refine .perform_bind (.inl rfl) (fun e => e.elim) fun alreadyShutdown => ?_
  change Bool at alreadyShutdown
  cases alreadyShutdown with
  | true => exact .pure (.inl ⟨rfl, rfl⟩)
  | false =>
    exact .perform_pure rfl (fun e => e.elim) fun _ => .inl ⟨rfl, rfl⟩

theorem keeps_wait : wait.Keeps shutdownOrder ShutdownEnds .idle := by
  rw [wait]
  refine .perform_bind (.inr (.inl rfl)) (fun e => e.elim) fun since => ?_
  refine .perform_bind rfl (fun e => e.elim) fun isShutdown => ?_
  change Bool at isShutdown
  cases isShutdown with
  | true => exact .pure (.inl ⟨rfl, rfl⟩)
  | false =>
    refine .perform rfl fun a => ?_
    rcases a with e | _ | _
    · exact e.elim
    · exact .inr ⟨rfl, rfl⟩
    · exact .inl ⟨rfl, rfl⟩

end Shutdown

theorem keeps_serveUntilShutdown (n : ℕ) :
    (serveUntilShutdown n).Keeps shutdownOrder ShutdownEnds .idle := by
  induction n with
  | zero => exact .pure (.inr ⟨rfl, rfl⟩)
  | succ n ih =>
    rw [serveUntilShutdown]
    refine .perform_bind (.inr (.inr rfl)) (fun e => e.elim) fun ready => ?_
    change Bool at ready
    cases ready with
    | true => exact ih
    | false =>
      refine .bind (Shutdown.keeps_wait.mono fun r q h => ?_)
      rcases h with ⟨rfl, rfl⟩ | ⟨rfl, rfl⟩
      · exact .pure (.inl ⟨rfl, rfl⟩)
      · exact ih

theorem ShutdownRole.keeps (role : ShutdownRole) :
    role.program.Keeps shutdownOrder ShutdownEnds .idle := by
  cases role with
  | stopper => exact Shutdown.keeps_shutdown
  | server rounds => exact keeps_serveUntilShutdown rounds

/-- Where a process is when it makes a call. -/
theorem shutdownOrder.allowed_cases {q : ShutdownPhase} {o : ShutdownPrim}
    (h : shutdownOrder.allowed q o) :
    (q = .idle ∧ (o = .swap ∨ o = .notified ∨ o = .ready)) ∨
      (q = .first ∧ o = .notifyWaiters) ∨
      (∃ since, q = .listening since ∧ o = .isShutdown) ∨
      ∃ since, q = .waiting since ∧ o = .await since := by
  cases q with
  | idle => exact .inl ⟨rfl, h⟩
  | first => exact .inr (.inl ⟨rfl, h⟩)
  | listening since => exact .inr (.inr (.inl ⟨since, rfl, h⟩))
  | waiting since => exact .inr (.inr (.inr ⟨since, rfl, h⟩))
  | ended => exact h.elim

/-! ## Invariants -/

variable {ι : Type} [DecidableEq ι] {i : ι} {s s' : Shutdown} {phase : ι → ShutdownPhase}
  {q : ShutdownPhase}

/-- The flag is set before anybody is notified, and whoever was the first to set it will notify. -/
structure Signalled (s : Shutdown) (phase : ι → ShutdownPhase) : Prop where
  ended : ∀ i, phase i = .ended → s.isShutdown = true
  first : ∀ i, phase i = .first → s.isShutdown = true ∧ s.notifications = 0
  unique : ∀ i j, phase i = .first → phase j = .first → i = j
  unset : s.isShutdown = false → s.notifications = 0
  told : s.isShutdown = true → s.notifications = 1 ∨ ∃ i, phase i = .first
  listening : ∀ i since, phase i = .listening since → since ≤ s.notifications
  /-- Who did not find the flag set asked before anybody was notified. -/
  waiting : ∀ i since, phase i = .waiting since → since = 0

namespace Signalled

omit [DecidableEq ι] in
theorem notifications_le (h : Signalled s phase) : s.notifications ≤ 1 := by
  cases hset : s.isShutdown with
  | false =>
    rw [h.unset hset]
    exact Nat.zero_le 1
  | true =>
    rcases h.told hset with hone | ⟨i, hi⟩
    · exact Nat.le_of_eq hone
    · rw [(h.first i hi).2]
      exact Nat.zero_le 1

/-- A process that has not to notify goes on, and nothing else changes. -/
theorem move (h : Signalled s phase) (hi : phase i ≠ .first) (hfirst : q ≠ .first)
    (hended : q = .ended → s.isShutdown = true)
    (hlistening : ∀ since, q = .listening since → since ≤ s.notifications)
    (hwaiting : ∀ since, q = .waiting since → since = 0) :
    Signalled s (Function.update phase i q) := by
  have hother {j : ι} (hj : Function.update phase i q j = .first) : phase j = .first := by
    by_cases hji : j = i
    · subst hji
      rw [Function.update_self] at hj
      exact absurd hj hfirst
    · rwa [Function.update_of_ne hji] at hj
  have hstays {j : ι} (hj : phase j = .first) : Function.update phase i q j = .first := by
    rw [Function.update_of_ne, hj]
    rintro rfl
    exact hi hj
  refine ⟨?_, fun j hj => h.first j (hother hj),
    fun j k hj hk => h.unique j k (hother hj) (hother hk), h.unset,
    fun hset => (h.told hset).imp_right fun ⟨j, hj⟩ => ⟨j, hstays hj⟩, ?_, ?_⟩
  · exact (Function.forall_update_iff phase fun _ q => q = .ended → s.isShutdown = true).mpr
      ⟨hended, fun j _ => h.ended j⟩
  · exact (Function.forall_update_iff phase fun _ q => ∀ since, q = .listening since →
      since ≤ s.notifications).mpr ⟨hlistening, fun j _ => h.listening j⟩
  · exact (Function.forall_update_iff phase fun _ q => ∀ since, q = .waiting since →
      since = 0).mpr ⟨hwaiting, fun j _ => h.waiting j⟩

/-- The flag is set for the first time. -/
theorem set (h : Signalled s phase) (hunset : s.isShutdown = false) :
    Signalled { s with isShutdown := true } (Function.update phase i .first) := by
  have hnone {j : ι} : phase j ≠ .first := fun hj => by
    rw [(h.first j hj).1] at hunset
    cases hunset
  have honly {j : ι} (hj : Function.update phase i .first j = .first) : j = i := by
    by_contra hji
    rw [Function.update_of_ne hji] at hj
    exact hnone hj
  refine ⟨fun _ _ => rfl, fun _ _ => ⟨rfl, h.unset hunset⟩,
    fun j k hj hk => (honly hj).trans (honly hk).symm, fun _ => h.unset hunset,
    fun _ => .inr ⟨i, Function.update_self ..⟩, ?_, ?_⟩
  · exact (Function.forall_update_iff phase fun _ q => ∀ since, q = .listening since →
      since ≤ s.notifications).mpr ⟨fun _ => ShutdownPhase.noConfusion, fun j _ => h.listening j⟩
  · exact (Function.forall_update_iff phase fun _ q => ∀ since, q = .waiting since →
      since = 0).mpr ⟨fun _ => ShutdownPhase.noConfusion, fun j _ => h.waiting j⟩

/-- The first one to set the flag notifies. -/
theorem notify (h : Signalled s phase) (hi : phase i = .first) :
    Signalled { s with notifications := s.notifications + 1 } (Function.update phase i .ended) := by
  obtain ⟨hset, hzero⟩ := h.first i hi
  have hnone {j : ι} : Function.update phase i .ended j ≠ .first := fun hj => by
    by_cases hji : j = i
    · subst hji
      rw [Function.update_self] at hj
      cases hj
    · rw [Function.update_of_ne hji] at hj
      exact hji (h.unique j i hj hi)
  refine ⟨fun _ _ => hset, fun j hj => absurd hj hnone, fun j _ hj => absurd hj hnone,
    fun hunset => ?_, fun _ => .inl ?_, ?_, ?_⟩
  · cases hset.symm.trans hunset
  · exact congrArg (· + 1) hzero
  · exact (Function.forall_update_iff phase fun _ q => ∀ since, q = .listening since →
      since ≤ s.notifications + 1).mpr ⟨fun _ => ShutdownPhase.noConfusion,
        fun j _ since hj => Nat.le_succ_of_le (h.listening j since hj)⟩
  · exact (Function.forall_update_iff phase fun _ q => ∀ since, q = .waiting since →
      since = 0).mpr ⟨fun _ => ShutdownPhase.noConfusion, fun j _ => h.waiting j⟩

theorem step (h : Signalled s phase) {o : ShutdownPrim} {a : Except Empty o.Res}
    (hallowed : shutdownOrder.allowed (phase i) o) (hact : s.Act o a s') :
    Signalled s' (Function.update phase i (shutdownOrder.next (phase i) o a)) := by
  -- who knows of the shutdown, or goes back to its loop, has nothing to keep
  have hended (hi : phase i ≠ .first) (hset : s.isShutdown = true) :
      Signalled s (Function.update phase i .ended) :=
    h.move hi ShutdownPhase.noConfusion (fun _ => hset) (fun _ => ShutdownPhase.noConfusion)
      fun _ => ShutdownPhase.noConfusion
  have hidle (hi : phase i ≠ .first) : Signalled s (Function.update phase i .idle) :=
    h.move hi ShutdownPhase.noConfusion ShutdownPhase.noConfusion
      (fun _ => ShutdownPhase.noConfusion) fun _ => ShutdownPhase.noConfusion
  rcases shutdownOrder.allowed_cases hallowed with
    ⟨hi, rfl | rfl | rfl⟩ | ⟨hi, rfl⟩ | ⟨since, hi, rfl⟩ | ⟨since, hi, rfl⟩
  · have hne : phase i ≠ .first := hi ▸ ShutdownPhase.noConfusion
    cases hact
    obtain ⟨isShutdown, notifications⟩ := s
    cases isShutdown with
    | false => exact h.set rfl
    | true => exact hended hne rfl
  · cases hact
    refine h.move (hi ▸ ShutdownPhase.noConfusion) ShutdownPhase.noConfusion
      ShutdownPhase.noConfusion (fun since heq => ?_) fun _ => ShutdownPhase.noConfusion
    cases heq
    exact Nat.le_refl _
  · cases hact
    rw [hi]
    exact hidle (hi ▸ ShutdownPhase.noConfusion)
  · cases hact
    exact h.notify hi
  · have hne : phase i ≠ .first := hi ▸ ShutdownPhase.noConfusion
    have hsince := h.listening i since hi
    cases hact
    rw [hi]
    obtain ⟨isShutdown, notifications⟩ := s
    cases isShutdown with
    | true => exact hended hne rfl
    | false =>
      refine h.move hne ShutdownPhase.noConfusion ShutdownPhase.noConfusion
        (fun _ => ShutdownPhase.noConfusion) fun since' heq => ?_
      cases heq
      rw [h.unset rfl] at hsince
      exact Nat.le_zero.mp hsince
  · have hne : phase i ≠ .first := hi ▸ ShutdownPhase.noConfusion
    cases hact with
    | awaited hlt =>
      refine hended hne ?_
      by_contra hunset
      rw [h.unset (Bool.eq_false_iff.mpr hunset)] at hlt
      exact absurd hlt (Nat.not_lt_zero _)
    | interrupted => exact hidle hne

end Signalled

/-! ## Runs -/

abbrev ShutdownConfig (ι : Type) := Config ι Shutdown Empty ShutdownPrim.Res Bool ShutdownPhase

/-- The runs in which nobody was told to stop at the start. -/
def ShutdownRun (role : ι → ShutdownRole) (c : ShutdownConfig ι) : Prop :=
  Run (Shutdown.system ι) (fun _ => shutdownOrder) (fun _ _ _ => True)
    ⟨⟨false, 0⟩, fun i => (role i).program, fun _ => .idle, []⟩ c

theorem ShutdownRun.act {role : ι → ShutdownRole} {c : ShutdownConfig ι} (h : ShutdownRun role c)
    (i : ι) (o : ShutdownPrim) {k : Except Empty o.Res → ShutdownProg Bool} (a : Except Empty o.Res)
    (hcall : c.programs i = .call o k) (hact : c.state.Act o a s) :
    ShutdownRun role (c.act (fun _ => shutdownOrder) i o a (k a) s) :=
  Run.act i o a h hcall hact trivial

theorem ShutdownRun.signalled {role : ι → ShutdownRole} {c : ShutdownConfig ι}
    (h : ShutdownRun role c) : Signalled c.state c.phase := by
  refine Run.invariant (I := fun c => Signalled c.state c.phase) (fun i => (role i).keeps) ?_
    (fun _ _ _ henv => False.elim henv)
    (fun c i o a rest s hc hallowed hact _ => hc.step hallowed hact) h
  exact ⟨fun _ => ShutdownPhase.noConfusion, fun _ => ShutdownPhase.noConfusion,
    fun _ _ => ShutdownPhase.noConfusion, fun _ => rfl, Bool.noConfusion,
    fun _ _ => ShutdownPhase.noConfusion, fun _ _ => ShutdownPhase.noConfusion⟩

/-- In any run of any number of loops, and of processes that shut the server down: all are notified
    at most once; whoever has left its loop for the shutdown has not done so before the flag was
    set; and once the flag is set and nobody is about to notify, all who wait for a notification
    have got it. -/
theorem no_lost_shutdown {role : ι → ShutdownRole} {c : ShutdownConfig ι}
    (h : ShutdownRun role c) :
    c.state.notifications ≤ 1 ∧
    (∀ i, c.programs i = .ret (.ok true) → c.state.isShutdown = true) ∧
    (c.state.isShutdown = true → (∀ i k, c.programs i ≠ .call .notifyWaiters k) →
      ∀ i since k, c.programs i = .call (.await since) k → since < c.state.notifications) := by
  have hsignalled := h.signalled
  have hkeeps := h.keeps fun i => (role i).keeps
  refine ⟨hsignalled.notifications_le, fun i hi => ?_, fun hset hquiet i since k hi => ?_⟩
  · have hends := hkeeps i
    rw [hi] at hends
    rcases hends with ⟨-, hended⟩ | ⟨hfalse, -⟩
    · exact hsignalled.ended i hended
    · cases hfalse
  · have hwaits := (hi ▸ hkeeps i).1
    rcases shutdownOrder.allowed_cases hwaits with
      ⟨-, ho | ho | ho⟩ | ⟨-, ho⟩ | ⟨_, -, ho⟩ | ⟨since', hphase, ho⟩ <;> cases ho
    rcases hsignalled.told hset with hone | ⟨j, hj⟩
    · rw [hsignalled.waiting i since hphase, hone]
      exact Nat.one_pos
    · -- who was the first to set the flag has nothing else to do than to notify
      have hnext := hkeeps j
      rw [hj] at hnext
      cases hprogram : c.programs j with
      | ret r =>
        rw [hprogram] at hnext
        rcases hnext with ⟨-, hphase⟩ | ⟨-, hphase⟩ <;> cases hphase
      | call o k =>
        rw [hprogram] at hnext
        obtain rfl : o = .notifyWaiters := hnext.1
        exact absurd hprogram (hquiet j k)

/-- A server and the one who stops it. -/
def stopAndServe : Bool → ShutdownRole
  | false => .stopper
  | true => .server 1

/-- The server looks at the flag before it is set, and is notified nevertheless. -/
theorem no_lost_shutdown_between :
    ∃ (c : ShutdownConfig Bool) (k : _), ShutdownRun stopAndServe c ∧
      c.programs true = .call (.await 0) k ∧ 0 < c.state.notifications := by
  have hstart : ShutdownRun stopAndServe _ := .refl
  have h := ((((hstart.act true .ready (.ok false) rfl (.ready false)).act
    true .notified (.ok (0 : ℕ)) rfl .notified).act
    true .isShutdown (.ok false) rfl .isShutdown).act
    false .swap (.ok false) rfl .swap).act
    false .notifyWaiters (.ok ()) rfl .notifyWaiters
  refine ⟨_, _, h, rfl, (no_lost_shutdown h).2.2 rfl (fun i k => ?_) true 0 _ rfl⟩
  intro hi
  cases i <;> cases hi

end LiNaStore
