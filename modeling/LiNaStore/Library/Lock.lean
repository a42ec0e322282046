import LiNaStore.Library.Program
import Mathlib.Logic.Function.Basic
import Mathlib.Data.List.Induction

/-!
# Calls under a readers-writer lock

Any number of calls run concurrently, each a *job* (`Job`): it returns at once, or
takes a lock, runs a program of primitive calls under it, releases it and makes its
answer of the result. The lock is held by any number of readers or by one writer,
and the programs of readers only read.

The calls are interleaved one primitive at a time, in any order the lock permits
(`Step`, `Execution`). Every execution is *linearizable*: in the order in which the
calls took the lock, or returned at once (`Execution.order`), running them one after
the other gives all calls that have returned their answers
(`Execution.mem_sequential`) and, when no call is under way, the final state
(`Execution.state_eq`); and a call that had returned when another was invoked is before
it in that order (`Execution.real_time`).
-/

namespace LiNaStore.Lock

open Program

variable {ε Op σ α ι : Type} {Res : Op → Type} {Mid : ι → Type}
  {step : (o : Op) → σ → Except ε (Res o) × σ}

/-- What a call does; `γ` is the type of the results of the part under the lock. -/
inductive Job (step : (o : Op) → σ → Except ε (Res o) × σ) (γ α : Type)
  /-- It returns without taking the lock. -/
  | refuse (r : Except ε α)
  /-- It takes the lock as a reader. -/
  | reading (body : Program ε Res γ) (readOnly : body.ReadOnly step)
      (post : Except ε γ → Except ε α)
  /-- It takes the lock as a writer. -/
  | writing (body : Program ε Res γ) (post : Except ε γ → Except ε α)

namespace Job

variable {γ : Type}

/-- What the call makes of the result of the part under the lock. -/
def finish : Job step γ α → Except ε γ → Except ε α
  | refuse r, _ => r
  | reading _ _ post, r => post r
  | writing _ post, r => post r

/-- The call running alone. -/
def run : Job step γ α → σ → Except ε α × σ
  | refuse r, s => (r, s)
  | reading body _ post, s => (post (body.run step s).1, (body.run step s).2)
  | writing body post, s => (post (body.run step s).1, (body.run step s).2)

variable {β : Type}

/-- Make something else of the result. -/
def map (f : Except ε α → Except ε β) : Job step γ α → Job step γ β
  | refuse r => refuse (f r)
  | reading body readOnly post => reading body readOnly (f ∘ post)
  | writing body post => writing body (f ∘ post)

theorem run_map (f : Except ε α → Except ε β) (job : Job step γ α) (s : σ) :
    (job.map f).run s = (f (job.run s).1, (job.run s).2) := by
  cases job <;> rfl

end Job

/-- Calls run one after the other: their answers, and the state after them. -/
def sequential (jobs : (i : ι) → Job step (Mid i) α) : List ι → σ → List (ι × Except ε α) × σ
  | [], s => ([], s)
  | i :: order, s =>
    let rest := sequential jobs order ((jobs i).run s).2
    ((i, ((jobs i).run s).1) :: rest.1, rest.2)

theorem sequential_concat (jobs : (i : ι) → Job step (Mid i) α) (order : List ι) (i : ι) (s : σ) :
    sequential jobs (order ++ [i]) s =
      ((sequential jobs order s).1 ++ [(i, ((jobs i).run (sequential jobs order s).2).1)],
        ((jobs i).run (sequential jobs order s).2).2) := by
  induction order generalizing s with
  | nil => rfl
  | cons j order ih =>
    rw [List.cons_append, sequential, ih]
    rfl

theorem map_fst_sequential (jobs : (i : ι) → Job step (Mid i) α) (order : List ι) (s : σ) :
    (sequential jobs order s).1.map Prod.fst = order := by
  induction order generalizing s with
  | nil => rfl
  | cons i order ih => rw [sequential, List.map_cons, ih]

/-- Where a call is. -/
inductive Phase (ε : Type) {Op : Type} (Res : Op → Type) (γ α : Type)
  /-- It has not been invoked. -/
  | idle
  /-- It has been invoked, and waits for the lock if it takes it. -/
  | waiting
  /-- It holds the lock, with this left to do. -/
  | inside (p : Program ε Res γ)
  /-- It has released the lock. -/
  | released (r : Except ε γ)
  /-- It has returned. -/
  | returned (r : Except ε α)

namespace Phase

variable {γ : Type}

/-- The call has taken the lock, or has returned at once. -/
def Begun : Phase ε Res γ α → Prop
  | idle | waiting => False
  | inside _ | released _ | returned _ => True

/-- The call has returned or will return `r`, if the state is `s` and stays so but for
    what the call does. -/
def Yields (step : (o : Op) → σ → Except ε (Res o) × σ) (job : Job step γ α) (s : σ)
    (r : Except ε α) : Phase ε Res γ α → Prop
  | idle | waiting => False
  | inside p => job.finish (p.run step s).1 = r
  | released r₀ => job.finish r₀ = r
  | returned r₀ => r₀ = r

end Phase

/-- Calls, a state and who holds the lock. -/
structure Config (σ ε : Type) {Op : Type} (Res : Op → Type) {ι : Type} (Mid : ι → Type)
    (α : Type) where
  state : σ
  readers : List ι
  writer : Option ι
  phase : (i : ι) → Phase ε Res (Mid i) α

/-- The events of an execution. -/
inductive Event (ι : Type)
  | invoke (i : ι)
  | acquire (i : ι)
  | act (i : ι)
  | release (i : ι)
  /-- A call returns without having taken the lock. -/
  | refuse (i : ι)
  /-- A call returns. -/
  | ret (i : ι)
  deriving DecidableEq

namespace Event

/-- The call that takes effect with an event: the one that takes the lock, or that
    returns without. -/
def point : Event ι → Option ι
  | acquire i | refuse i => some i
  | invoke _ | act _ | release _ | ret _ => none

/-- The call returns. -/
def Returns (i : ι) : Event ι → Prop
  | refuse j | ret j => j = i
  | invoke _ | acquire _ | act _ | release _ => False

end Event

/-- The state before any call. -/
def Config.init (s : σ) : Config σ ε Res Mid α := ⟨s, [], none, fun _ => .idle⟩

/-! ## The invariant -/

/-- An execution up to `c`, in which the calls took effect in the given order: a call
    inside is a reader, among readers only and with nothing but reading left, or the
    writer, alone; the state is the sequential one, but for what the writer has left to
    do; and calls answer, or will answer, what they do sequentially. -/
structure Linearized (jobs : (i : ι) → Job step (Mid i) α) (s : σ) (order : List ι)
    (c : Config σ ε Res Mid α) : Prop where
  nodup : order.Nodup
  begun : ∀ i, (c.phase i).Begun ↔ i ∈ order
  inside : ∀ i p, c.phase i = .inside p →
    (i ∈ c.readers ∧ c.writer = none ∧ p.ReadOnly step) ∨ (c.readers = [] ∧ c.writer = some i)
  state : c.writer = none → c.state = (sequential jobs order s).2
  writer : ∀ i, c.writer = some i →
    ∃ p, c.phase i = .inside p ∧ (p.run step c.state).2 = (sequential jobs order s).2
  answers : ∀ i r, (i, r) ∈ (sequential jobs order s).1 → (c.phase i).Yields step (jobs i) c.state r

namespace Linearized

variable {jobs : (i : ι) → Job step (Mid i) α} {s : σ} {order : List ι}
  {c c' : Config σ ε Res Mid α} {i : ι}

theorem init (jobs : (i : ι) → Job step (Mid i) α) (s : σ) : Linearized jobs s [] (.init s) where
  nodup := List.nodup_nil
  begun _ := ⟨False.elim, fun h => absurd h List.not_mem_nil⟩
  inside _ _ h := by cases h
  state _ := rfl
  writer _ h := by cases h
  answers _ _ h := absurd h List.not_mem_nil

theorem not_mem (h : Linearized jobs s order c) (hi : ¬(c.phase i).Begun) : i ∉ order :=
  fun hmem => hi ((h.begun i).2 hmem)

theorem nodup_concat (h : Linearized jobs s order c) (hi : ¬(c.phase i).Begun) :
    (order ++ [i]).Nodup := by
  refine List.nodup_append.2 ⟨h.nodup, List.pairwise_singleton _ i, fun j hj k hk heq => ?_⟩
  rw [heq, List.mem_singleton.1 hk] at hj
  exact h.not_mem hi hj

/-- While there is a writer, no other call is inside. -/
theorem not_inside (h : Linearized jobs s order c) (hw : c.writer = some i) {j : ι} (hj : j ≠ i)
    (p : Program ε Res (Mid j)) : c.phase j ≠ .inside p := by
  intro hp
  rcases h.inside j p hp with ⟨_, hnone, _⟩ | ⟨_, hw'⟩
  · rw [hw] at hnone
    cases hnone
  · rw [hw] at hw'
    exact hj (Option.some.inj hw').symm

end Linearized

/-! ## Steps -/

variable [DecidableEq ι]

/-- Put a call into a phase. -/
def Config.set (c : Config σ ε Res Mid α) (i : ι) (ph : Phase ε Res (Mid i) α) :
    Config σ ε Res Mid α :=
  { c with phase := Function.update c.phase i ph }

theorem Config.phase_set_self (c : Config σ ε Res Mid α) (i : ι) (ph : Phase ε Res (Mid i) α) :
    (c.set i ph).phase i = ph := Function.update_self ..

/-- The steps of calls: taking the lock as a reader needs that there is no writer, taking
    it as a writer that there is no one else. -/
inductive Step (jobs : (i : ι) → Job step (Mid i) α) :
    Config σ ε Res Mid α → Event ι → Config σ ε Res Mid α → Prop
  | invoke {c : Config σ ε Res Mid α} {i : ι} : c.phase i = .idle →
      Step jobs c (.invoke i) (c.set i .waiting)
  | refuse {c : Config σ ε Res Mid α} {i : ι} {r : Except ε α} : c.phase i = .waiting →
      jobs i = .refuse r → Step jobs c (.refuse i) (c.set i (.returned r))
  | acquireRead {c : Config σ ε Res Mid α} {i : ι} {body : Program ε Res (Mid i)}
      {readOnly : body.ReadOnly step} {post : Except ε (Mid i) → Except ε α} :
      c.phase i = .waiting → jobs i = .reading body readOnly post → c.writer = none →
      Step jobs c (.acquire i) { c.set i (.inside body) with readers := i :: c.readers }
  | acquireWrite {c : Config σ ε Res Mid α} {i : ι} {body : Program ε Res (Mid i)}
      {post : Except ε (Mid i) → Except ε α} :
      c.phase i = .waiting → jobs i = .writing body post → c.writer = none → c.readers = [] →
      Step jobs c (.acquire i) { c.set i (.inside body) with writer := some i }
  | act {c : Config σ ε Res Mid α} {i : ι} {o : Op} {k : Except ε (Res o) → Program ε Res (Mid i)} :
      c.phase i = .inside (.call o k) →
      Step jobs c (.act i)
        { c.set i (.inside (k (step o c.state).1)) with state := (step o c.state).2 }
  | releaseRead {c : Config σ ε Res Mid α} {i : ι} {r : Except ε (Mid i)} :
      c.phase i = .inside (.ret r) → i ∈ c.readers →
      Step jobs c (.release i) { c.set i (.released r) with readers := c.readers.erase i }
  | releaseWrite {c : Config σ ε Res Mid α} {i : ι} {r : Except ε (Mid i)} :
      c.phase i = .inside (.ret r) → c.writer = some i →
      Step jobs c (.release i) { c.set i (.released r) with writer := none }
  | ret {c : Config σ ε Res Mid α} {i : ι} {r : Except ε (Mid i)} : c.phase i = .released r →
      Step jobs c (.ret i) (c.set i (.returned ((jobs i).finish r)))

/-- A step changes the phase of one call, which is idle only before it is invoked. -/
theorem Step.phase_eq {jobs : (i : ι) → Job step (Mid i) α} {c c' : Config σ ε Res Mid α}
    {e : Event ι} (h : Step jobs c e c') :
    ∃ i ph, c'.phase = Function.update c.phase i ph ∧ ph ≠ .idle ∧
      (e = .invoke i ∧ c.phase i = .idle ∨ c.phase i ≠ .idle ∧ ∀ j, e ≠ .invoke j) := by
  cases h with
  | invoke hi => exact ⟨_, _, rfl, nofun, .inl ⟨rfl, hi⟩⟩
  | refuse hi => exact ⟨_, _, rfl, nofun, .inr ⟨by rw [hi]; nofun, nofun⟩⟩
  | acquireRead hi => exact ⟨_, _, rfl, nofun, .inr ⟨by rw [hi]; nofun, nofun⟩⟩
  | acquireWrite hi => exact ⟨_, _, rfl, nofun, .inr ⟨by rw [hi]; nofun, nofun⟩⟩
  | act hi => exact ⟨_, _, rfl, nofun, .inr ⟨by rw [hi]; nofun, nofun⟩⟩
  | releaseRead hi => exact ⟨_, _, rfl, nofun, .inr ⟨by rw [hi]; nofun, nofun⟩⟩
  | releaseWrite hi => exact ⟨_, _, rfl, nofun, .inr ⟨by rw [hi]; nofun, nofun⟩⟩
  | ret hi => exact ⟨_, _, rfl, nofun, .inr ⟨by rw [hi]; nofun, nofun⟩⟩

/-- A call that has returned stays so. -/
theorem Step.phase_returned {jobs : (i : ι) → Job step (Mid i) α} {c c' : Config σ ε Res Mid α}
    {e : Event ι} (h : Step jobs c e c') {j : ι} {r : Except ε α} (hj : c.phase j = .returned r) :
    c'.phase j = .returned r := by
  have hkeep {i : ι} {ph : Phase ε Res (Mid i) α} (hi : ∀ r, c.phase i ≠ .returned r) :
      (c.set i ph).phase j = .returned r := by
    have hji : j ≠ i := by
      rintro rfl
      exact hi r hj
    exact (Function.update_of_ne hji ..).trans hj
  cases h with
  | invoke hi => exact hkeep (by rw [hi]; nofun)
  | refuse hi => exact hkeep (by rw [hi]; nofun)
  | acquireRead hi => exact hkeep (by rw [hi]; nofun)
  | acquireWrite hi => exact hkeep (by rw [hi]; nofun)
  | act hi => exact hkeep (by rw [hi]; nofun)
  | releaseRead hi => exact hkeep (by rw [hi]; nofun)
  | releaseWrite hi => exact hkeep (by rw [hi]; nofun)
  | ret hi => exact hkeep (by rw [hi]; nofun)

/-- A call that has the lock can do all it has to without another one coming between. -/
theorem Step.carryOut (jobs : (i : ι) → Job step (Mid i) α) {P : Config σ ε Res Mid α → Prop}
    {i : ι} (hstep : ∀ c c', P c → Step jobs c (.act i) c' → P c') {c : Config σ ε Res Mid α}
    {p : Program ε Res (Mid i)} (h : P c) (hi : c.phase i = .inside p) :
    P { c.set i (.inside (.ret (p.run step c.state).1)) with state := (p.run step c.state).2 } := by
  induction p generalizing c with
  | ret r =>
    have hset : c.set i (.inside (.ret r)) = c := by
      rw [Config.set, ← hi, Function.update_eq_self]
    rw [Program.run, hset]
    exact h
  | call o k ih =>
    have hnext := ih _ (hstep _ _ h (.act hi)) (Config.phase_set_self ..)
    rwa [Config.set, Config.set, Function.update_idem] at hnext

/-- The executions of calls from a state, with their events in order. -/
inductive Execution (jobs : (i : ι) → Job step (Mid i) α) (s : σ) :
    List (Event ι) → Config σ ε Res Mid α → Prop
  | init : Execution jobs s [] (.init s)
  | step {trace : List (Event ι)} {c c' : Config σ ε Res Mid α} {e : Event ι} :
      Execution jobs s trace c → Step jobs c e c' → Execution jobs s (trace ++ [e]) c'

theorem Execution.carryOut {jobs : (i : ι) → Job step (Mid i) α} {s : σ} {trace : List (Event ι)}
    {c : Config σ ε Res Mid α} {i : ι} {p : Program ε Res (Mid i)} (h : Execution jobs s trace c)
    (hi : c.phase i = .inside p) : ∃ trace', Execution jobs s trace'
      { c.set i (.inside (.ret (p.run step c.state).1)) with state := (p.run step c.state).2 } := by
  refine Step.carryOut jobs (P := fun c => ∃ trace', Execution jobs s trace' c) ?_ ⟨_, h⟩ hi
  rintro c c' ⟨trace, h⟩ hstep
  exact ⟨_, h.step hstep⟩

/-! ## Executions are linearizable -/

namespace Linearized

variable {jobs : (i : ι) → Job step (Mid i) α} {s : σ} {order : List ι}
  {c c' : Config σ ε Res Mid α} {i : ι}

/-- A step of one call from a phase to another that answers the same. -/
theorem answers_set (h : Linearized jobs s order c) {ph : Phase ε Res (Mid i) α}
    (hph : ∀ r, (c.phase i).Yields step (jobs i) c.state r → ph.Yields step (jobs i) c.state r) :
    ∀ j r, (j, r) ∈ (sequential jobs order s).1 →
      ((c.set i ph).phase j).Yields step (jobs j) c.state r := by
  rw [Config.set, Function.forall_update_iff c.phase fun j ph' => ∀ r,
    (j, r) ∈ (sequential jobs order s).1 → ph'.Yields step (jobs j) c.state r]
  exact ⟨fun r hr => hph r (h.answers i r hr), fun j _ => h.answers j⟩

/-- A step of one call that stays before or after its taking effect. -/
theorem begun_set (h : Linearized jobs s order c) {ph : Phase ε Res (Mid i) α}
    (hph : ph.Begun ↔ (c.phase i).Begun) : ∀ j, ((c.set i ph).phase j).Begun ↔ j ∈ order := by
  rw [Config.set, Function.forall_update_iff c.phase fun j ph' => ph'.Begun ↔ j ∈ order]
  exact ⟨hph.trans (h.begun i), fun j _ => h.begun j⟩

/-- A call that takes effect is the last one. -/
theorem begun_concat (h : Linearized jobs s order c) {ph : Phase ε Res (Mid i) α} (hph : ph.Begun) :
    ∀ j, ((c.set i ph).phase j).Begun ↔ j ∈ order ++ [i] := by
  rw [Config.set, Function.forall_update_iff c.phase fun j ph' => ph'.Begun ↔ j ∈ order ++ [i]]
  refine ⟨iff_of_true hph (List.mem_append_right _ List.mem_cons_self), fun j hj => ?_⟩
  rw [h.begun, List.mem_append, List.mem_singleton, or_iff_left hj]

theorem answers_concat (h : Linearized jobs s order c) {ph : Phase ε Res (Mid i) α}
    (hi : ¬(c.phase i).Begun)
    (hph : ph.Yields step (jobs i) c.state ((jobs i).run (sequential jobs order s).2).1) :
    ∀ j r, (j, r) ∈ (sequential jobs (order ++ [i]) s).1 →
      ((c.set i ph).phase j).Yields step (jobs j) c.state r := by
  rw [Config.set, Function.forall_update_iff c.phase fun j ph' => ∀ r,
    (j, r) ∈ (sequential jobs (order ++ [i]) s).1 → ph'.Yields step (jobs j) c.state r]
  have hmem : ∀ {j r}, (j, r) ∈ (sequential jobs (order ++ [i]) s).1 →
      (j, r) ∈ (sequential jobs order s).1 ∨
        (j = i ∧ r = ((jobs i).run (sequential jobs order s).2).1) := by
    intro j r hr
    rw [sequential_concat, List.mem_append, List.mem_singleton, Prod.mk.injEq] at hr
    exact hr
  constructor
  · intro r hr
    rcases hmem hr with hr | ⟨_, rfl⟩
    · refine absurd ?_ (h.not_mem hi)
      rw [← map_fst_sequential jobs order s]
      exact List.mem_map_of_mem hr
    · exact hph
  · intro j hj r hr
    rcases hmem hr with hr | ⟨hji, _⟩
    · exact h.answers j r hr
    · exact absurd hji hj

/-- A call is inside after a step of a call that is not if it was before. -/
theorem inside_set {ph : Phase ε Res (Mid i) α} {P : (j : ι) → Program ε Res (Mid j) → Prop}
    (hph : ∀ p, ph = .inside p → P i p) (hothers : ∀ j p, j ≠ i → c.phase j = .inside p → P j p) :
    ∀ j p, (c.set i ph).phase j = .inside p → P j p := by
  rw [Config.set, Function.forall_update_iff c.phase fun j ph' => ∀ p, ph' = .inside p → P j p]
  exact ⟨hph, fun j hj p => hothers j p hj⟩

/-- A step of a call that does not hold the lock, before and after it. -/
theorem outside (h : Linearized jobs s order c) {order' : List ι} {ph : Phase ε Res (Mid i) α}
    (hi : ∀ p, c.phase i ≠ .inside p) (hph : ∀ p, ph ≠ .inside p) (hnodup : order'.Nodup)
    (hbegun : ∀ j, ((c.set i ph).phase j).Begun ↔ j ∈ order')
    (hstate : (sequential jobs order' s).2 = (sequential jobs order s).2)
    (hanswers : ∀ j r, (j, r) ∈ (sequential jobs order' s).1 →
      ((c.set i ph).phase j).Yields step (jobs j) c.state r) :
    Linearized jobs s order' (c.set i ph) where
  nodup := hnodup
  begun := hbegun
  inside := inside_set (fun p hp => absurd hp (hph p)) fun j p _ => h.inside j p
  state hw := (h.state hw).trans hstate.symm
  writer j hj := by
    obtain ⟨p, hp, hrun⟩ := h.writer j hj
    have hne : j ≠ i := fun heq => by
      subst heq
      exact hi p hp
    exact ⟨p, (Function.update_of_ne hne _ _).trans hp, hrun.trans hstate.symm⟩
  answers := hanswers

/-- A call takes the lock as a reader. -/
theorem acquireRead (h : Linearized jobs s order c) {body : Program ε Res (Mid i)}
    {readOnly : body.ReadOnly step} {post : Except ε (Mid i) → Except ε α}
    (hi : c.phase i = .waiting) (hjob : jobs i = .reading body readOnly post)
    (hw : c.writer = none) :
    Linearized jobs s (order ++ [i])
      { c.set i (.inside body) with readers := i :: c.readers } := by
  have hbegun : ¬(c.phase i).Begun := by rw [hi]; exact id
  have hstate : (sequential jobs (order ++ [i]) s).2 = (sequential jobs order s).2 := by
    rw [sequential_concat, hjob]
    exact readOnly.run_eq _
  refine ⟨h.nodup_concat hbegun, h.begun_concat trivial, ?_, ?_, ?_, ?_⟩
  · refine inside_set (fun p hp => ?_) fun j p _ hp => ?_
    · cases hp
      exact .inl ⟨List.mem_cons_self, hw, readOnly⟩
    · rcases h.inside j p hp with ⟨hr, _, hro⟩ | ⟨_, hw'⟩
      · exact .inl ⟨List.mem_cons_of_mem _ hr, hw, hro⟩
      · rw [hw] at hw'
        cases hw'
  · exact fun _ => (h.state hw).trans hstate.symm
  · intro j hj
    rw [show c.writer = some j from hj] at hw
    cases hw
  · refine h.answers_concat hbegun ?_
    rw [Phase.Yields, h.state hw, hjob]
    rfl

/-- A call takes the lock as a writer. -/
theorem acquireWrite (h : Linearized jobs s order c) {body : Program ε Res (Mid i)}
    {post : Except ε (Mid i) → Except ε α} (hi : c.phase i = .waiting)
    (hjob : jobs i = .writing body post) (hw : c.writer = none) (hr : c.readers = []) :
    Linearized jobs s (order ++ [i]) { c.set i (.inside body) with writer := some i } := by
  have hbegun : ¬(c.phase i).Begun := by rw [hi]; exact id
  refine ⟨h.nodup_concat hbegun, h.begun_concat trivial, ?_, nofun, ?_, ?_⟩
  · refine inside_set (fun p hp => .inr ⟨hr, rfl⟩) fun j p _ hp => ?_
    rcases h.inside j p hp with ⟨hr', _⟩ | ⟨_, hw'⟩
    · rw [hr] at hr'
      cases hr'
    · rw [hw] at hw'
      cases hw'
  · rintro j ⟨rfl⟩
    refine ⟨body, Function.update_self .., ?_⟩
    change (body.run step c.state).2 = _
    rw [h.state hw, sequential_concat, hjob]
    rfl
  · refine h.answers_concat hbegun ?_
    rw [Phase.Yields, h.state hw, hjob]
    rfl

/-- A call inside makes a primitive call. -/
theorem act (h : Linearized jobs s order c) {o : Op} {k : Except ε (Res o) → Program ε Res (Mid i)}
    (hi : c.phase i = .inside (.call o k)) :
    Linearized jobs s order
      { c.set i (.inside (k (step o c.state).1)) with state := (step o c.state).2 } := by
  have hbegun : ∀ j, ((c.set i (.inside (k (step o c.state).1))).phase j).Begun ↔ j ∈ order :=
    h.begun_set (by rw [hi]; rfl)
  have hyields : ∀ r, (c.phase i).Yields step (jobs i) c.state r →
      (jobs i).finish ((k (step o c.state).1).run step (step o c.state).2).1 = r := by
    intro r hr
    rw [hi] at hr
    exact hr
  rcases h.inside i _ hi with ⟨hr, hw, hcall, hk⟩ | ⟨hr, hw⟩
  · -- a reader changes nothing
    have hstate : (step o c.state).2 = c.state := hcall c.state
    rw [hstate] at hyields ⊢
    refine ⟨h.nodup, hbegun, ?_, h.state, ?_, h.answers_set hyields⟩
    · refine inside_set (fun p hp => ?_) fun j p _ => h.inside j p
      cases hp
      exact .inl ⟨hr, hw, hk _⟩
    · intro j hj
      rw [show c.writer = some j from hj] at hw
      cases hw
  · -- a writer is alone
    refine ⟨h.nodup, hbegun, ?_, ?_, ?_, ?_⟩
    · exact inside_set (fun p _ => .inr ⟨hr, hw⟩) fun j p _ => h.inside j p
    · intro hnone
      rw [show c.writer = none from hnone] at hw
      cases hw
    · intro j hj
      cases hw.symm.trans hj
      obtain ⟨p, hp, hrun⟩ := h.writer i hw
      rw [hi] at hp
      cases hp
      exact ⟨_, Function.update_self .., hrun⟩
    · change ∀ j r, (j, r) ∈ _ → (Function.update c.phase i _ j).Yields step (jobs j) _ r
      rw [Function.forall_update_iff c.phase fun j ph => ∀ r,
        (j, r) ∈ (sequential jobs order s).1 → ph.Yields step (jobs j) (step o c.state).2 r]
      refine ⟨fun r hr => hyields r (h.answers i r hr), fun j hj r hr => ?_⟩
      have hans := h.answers j r hr
      cases hph : c.phase j with
      | inside p => exact absurd hph (h.not_inside hw hj p)
      | idle => rw [hph] at hans; exact hans
      | waiting => rw [hph] at hans; exact hans
      | released r₀ => rw [hph] at hans; exact hans
      | returned r₀ => rw [hph] at hans; exact hans

/-- A reader releases the lock. -/
theorem releaseRead (h : Linearized jobs s order c) {r : Except ε (Mid i)}
    (hi : c.phase i = .inside (.ret r)) (hr : i ∈ c.readers) :
    Linearized jobs s order
      { c.set i (.released r) with readers := c.readers.erase i } := by
  refine ⟨h.nodup, h.begun_set (by rw [hi]; rfl), ?_, h.state, ?_,
    h.answers_set (by rw [hi]; exact fun _ => id)⟩
  · refine inside_set nofun fun j p hj hp => ?_
    rcases h.inside j p hp with ⟨hr', hw, hro⟩ | ⟨hnil, _⟩
    · exact .inl ⟨(List.mem_erase_of_ne hj).2 hr', hw, hro⟩
    · rw [hnil] at hr
      cases hr
  · intro j hj
    rcases h.inside i _ hi with ⟨_, hw, _⟩ | ⟨hnil, _⟩
    · rw [show c.writer = some j from hj] at hw
      cases hw
    · rw [hnil] at hr
      cases hr

/-- The writer releases the lock. -/
theorem releaseWrite (h : Linearized jobs s order c) {r : Except ε (Mid i)}
    (hi : c.phase i = .inside (.ret r)) (hw : c.writer = some i) :
    Linearized jobs s order { c.set i (.released r) with writer := none } := by
  refine ⟨h.nodup, h.begun_set (by rw [hi]; rfl), ?_, fun _ => ?_, nofun,
    h.answers_set (by rw [hi]; exact fun _ => id)⟩
  · exact inside_set nofun fun j p hj hp => absurd hp (h.not_inside hw hj p)
  · obtain ⟨p, hp, hrun⟩ := h.writer i hw
    rw [hi] at hp
    cases hp
    exact hrun

/-- Every step of an execution keeps the invariant, calls taking effect at their points. -/
theorem of_step {e : Event ι} (h : Linearized jobs s order c) (hstep : Step jobs c e c') :
    Linearized jobs s (order ++ e.point.toList) c' := by
  have hnil : order ++ (none : Option ι).toList = order := List.append_nil order
  cases hstep with
  | @invoke i hi =>
    rw [Event.point, hnil]
    exact h.outside (by rw [hi]; nofun) nofun h.nodup (h.begun_set (by rw [hi]; rfl)) rfl
      (h.answers_set (by rw [hi]; exact fun _ => id))
  | @refuse i r hi hjob =>
    have hbegun : ¬(c.phase i).Begun := by rw [hi]; exact id
    have hrun : ∀ t, (jobs i).run t = (r, t) := fun t => by rw [hjob]; rfl
    refine h.outside (by rw [hi]; nofun) nofun
      (h.nodup_concat hbegun) (h.begun_concat trivial) ?_
      (h.answers_concat hbegun ?_)
    · rw [Event.point, Option.toList, sequential_concat, hrun]
    · rw [hrun]
      exact rfl
  | @acquireRead i body readOnly post hi hjob hw => exact h.acquireRead hi hjob hw
  | @acquireWrite i body post hi hjob hw hr => exact h.acquireWrite hi hjob hw hr
  | @act i o k hi =>
    rw [Event.point, hnil]
    exact h.act hi
  | @releaseRead i r hi hr =>
    rw [Event.point, hnil]
    exact h.releaseRead hi hr
  | @releaseWrite i r hi hw =>
    rw [Event.point, hnil]
    exact h.releaseWrite hi hw
  | @ret i r hi =>
    rw [Event.point, hnil]
    exact h.outside (by rw [hi]; nofun) nofun h.nodup (h.begun_set (by rw [hi]; rfl)) rfl
      (h.answers_set (by rw [hi]; exact fun _ => id))

end Linearized

namespace Execution

variable {jobs : (i : ι) → Job step (Mid i) α} {s : σ} {trace : List (Event ι)}
  {c : Config σ ε Res Mid α}

/-- The calls that have taken effect, in order. -/
def order (trace : List (Event ι)) : List ι := trace.flatMap fun e => e.point.toList

theorem linearized (h : Execution jobs s trace c) : Linearized jobs s (order trace) c := by
  induction h with
  | init => exact .init jobs s
  | step _ hstep ih =>
    rw [order, List.flatMap_append, List.flatMap_singleton]
    exact ih.of_step hstep

/-- The last step of an execution. -/
theorem of_concat {e : Event ι} (h : Execution jobs s (trace ++ [e]) c) :
    ∃ c₁, Execution jobs s trace c₁ ∧ Step jobs c₁ e c := by
  generalize htrace : trace ++ [e] = trace' at h
  cases h with
  | init => exact absurd htrace (List.append_ne_nil_of_right_ne_nil _ (List.cons_ne_nil _ _))
  | step h hstep =>
    obtain ⟨rfl, he⟩ := List.append_inj' htrace rfl
    cases he
    exact ⟨_, h, hstep⟩

/-- The first part of an execution is one. -/
theorem of_append {t₁ t₂ : List (Event ι)} (h : Execution jobs s (t₁ ++ t₂) c) :
    ∃ c₁, Execution jobs s t₁ c₁ := by
  induction t₂ using List.reverseRecOn generalizing c with
  | nil => exact ⟨c, by rwa [List.append_nil] at h⟩
  | append_singleton t₂ e ih =>
    rw [← List.append_assoc] at h
    obtain ⟨c₁, h₁, _⟩ := h.of_concat
    exact ih h₁

/-- A call has been invoked if and only if it is not idle. -/
theorem invoke_mem_iff (h : Execution jobs s trace c) (i : ι) :
    .invoke i ∈ trace ↔ c.phase i ≠ .idle := by
  induction h with
  | init => exact ⟨fun h => absurd h List.not_mem_nil, fun h => absurd rfl h⟩
  | @step trace c c' e _ hstep ih =>
    obtain ⟨j, ph, hphase, hph, hj⟩ := hstep.phase_eq
    rw [List.mem_append, ih, List.mem_singleton, hphase]
    by_cases hij : i = j
    · subst hij
      rw [Function.update_self]
      refine iff_of_true ?_ hph
      rcases hj with ⟨rfl, _⟩ | ⟨hne, _⟩
      · exact .inr rfl
      · exact .inl hne
    · rw [Function.update_of_ne hij, or_iff_left]
      rintro rfl
      rcases hj with ⟨heq, _⟩ | ⟨_, hnot⟩
      · exact hij (Event.invoke.inj heq)
      · exact hnot i rfl

/-- A call that has returned has taken effect. -/
theorem mem_order_of_returns (h : Execution jobs s trace c) {i : ι} {e : Event ι} (he : e ∈ trace)
    (hi : e.Returns i) : i ∈ order trace := by
  induction h with
  | init => exact absurd he List.not_mem_nil
  | @step trace c c' e' h hstep ih =>
    rcases List.mem_append.1 he with he | he
    · rw [order, List.flatMap_append]
      exact List.mem_append_left _ (ih he)
    · rw [List.mem_singleton.1 he] at hi
      refine ((h.step hstep).linearized.begun i).1 ?_
      cases hstep with
      | refuse =>
        cases hi
        rw [Config.phase_set_self]
        trivial
      | ret =>
        cases hi
        rw [Config.phase_set_self]
        trivial
      | _ => cases hi

/-- The calls that have returned gave the answers of the sequential run. -/
theorem mem_sequential (h : Execution jobs s trace c) {i : ι} {r : Except ε α}
    (hi : c.phase i = .returned r) : (i, r) ∈ (sequential jobs (order trace) s).1 := by
  have hlin := h.linearized
  have hmem : i ∈ order trace := (hlin.begun i).1 (by rw [hi]; trivial)
  rw [← map_fst_sequential jobs (order trace) s] at hmem
  obtain ⟨⟨_, r'⟩, hr', rfl⟩ := List.mem_map.1 hmem
  have hyields := hlin.answers _ r' hr'
  rw [hi] at hyields
  cases hyields
  exact hr'

/-- When no call is under way, the calls invoked have taken effect and the state is the
    one after them. -/
theorem state_eq (h : Execution jobs s trace c)
    (hdone : ∀ i, c.phase i = .idle ∨ ∃ r, c.phase i = .returned r) :
    c.state = (sequential jobs (order trace) s).2 ∧ ∀ i, .invoke i ∈ trace → i ∈ order trace := by
  have hlin := h.linearized
  constructor
  · refine hlin.state (Option.eq_none_iff_forall_ne_some.2 fun i hi => ?_)
    obtain ⟨p, hp, _⟩ := hlin.writer i hi
    rcases hdone i with hi | ⟨r, hi⟩
    · rw [hp] at hi
      cases hi
    · rw [hp] at hi
      cases hi
  · intro i hi
    refine (hlin.begun i).1 ?_
    rcases hdone i with hidle | ⟨r, hr⟩
    · exact absurd hidle ((h.invoke_mem_iff i).1 hi)
    · rw [hr]
      trivial

/-- A call that had returned when another was invoked takes effect before it. -/
theorem real_time {u v : List (Event ι)} {i j : ι} {e : Event ι}
    (h : Execution jobs s (u ++ .invoke j :: v) c) (he : e ∈ u) (hi : e.Returns i)
    (hj : j ∈ order (u ++ .invoke j :: v)) : [i, j].Sublist (order (u ++ .invoke j :: v)) := by
  obtain ⟨c₁, h₁⟩ := h.of_append
  have hmem : i ∈ order u := h₁.mem_order_of_returns he hi
  rw [order, List.flatMap_append] at hj ⊢
  have hnot : j ∉ order u := by
    -- the call was idle when it was invoked
    rw [List.append_cons] at h
    obtain ⟨c₂, h₂⟩ := h.of_append
    obtain ⟨c₃, h₃, hstep⟩ := h₂.of_concat
    have hidle : c₃.phase j = .idle := by
      cases hstep with
      | invoke hidle => exact hidle
    exact h₃.linearized.not_mem (by rw [hidle]; exact id)
  have hj' : j ∈ (Event.invoke j :: v).flatMap fun e => e.point.toList :=
    (List.mem_append.1 hj).resolve_left hnot
  exact (List.singleton_sublist.2 hmem).append (List.singleton_sublist.2 hj')

/-- A call that has taken effect comes before one that has not yet. -/
theorem sublist_order {u v : List (Event ι)} {i j : ι} (h : Execution jobs s u c)
    (hi : (c.phase i).Begun) (hj : ¬(c.phase j).Begun) (hmem : j ∈ order (u ++ v)) :
    [i, j].Sublist (order (u ++ v)) := by
  rw [order, List.flatMap_append] at hmem ⊢
  have hmem := (List.mem_append.1 hmem).resolve_left (h.linearized.not_mem hj)
  exact (List.singleton_sublist.2 ((h.linearized.begun i).1 hi)).append
    (List.singleton_sublist.2 hmem)

end Execution

end LiNaStore.Lock
