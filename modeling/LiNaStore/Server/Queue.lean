import LiNaStore.Server.Delivery

/-!
# The queue is a queue

Orders are put on the queue at its end and taken from its front, by the porters or by a handler
that makes room. What was taken and what is queued together are what was put on the queue, in the
order in which it was put there, but for the orders that were withdrawn from between others
(`Lined`). And room is only made on a full queue, and at the cost of its oldest order (`Packed`).

Together this is `first_in_first_out`.
-/

namespace LiNaStore

variable {ι : Type}

/-! ## What is said of runs -/

/-- The order that is put on the queue. -/
def pushedBy : ((p : ConveyPrim ι) × Except ConveyError p.Res) → Option Package
  | ⟨.pushBack order, _⟩ => some order
  | _ => none

/-- The order that is taken from the front of the queue. -/
def poppedBy : ((p : ConveyPrim ι) × Except ConveyError p.Res) → Option Package
  | ⟨.popFront, .ok order⟩ => order
  | ⟨.consumeOrder, .ok order⟩ => order
  | _ => none

/-- An order is removed, wherever it is on the queue. -/
def isRemoval : ((p : ConveyPrim ι) × Except ConveyError p.Res) → Bool
  | ⟨.removeOrder _, .ok removed⟩ => removed
  | _ => false

/-- The orders that were put on the queue, the first first. -/
def pushed (log : List (ConveyEvent ι)) : List Package :=
  log.reverse.flatMap fun e => (pushedBy e.call).toList

/-- The orders that were taken from the front of the queue, the first first. -/
def popped (log : List (ConveyEvent ι)) : List Package :=
  log.reverse.flatMap fun e => (poppedBy e.call).toList

variable {E : Engine} {role : ι → Role} {i : ι} {s s' : ConveyState ι} {r : Role}
  {phase : ι → ConveyPhase} {q q' : ConveyPhase} {log : List (ConveyEvent ι)}
  {e : (p : ConveyPrim ι) × Except ConveyError p.Res}

theorem pushed_cons : pushed (⟨i, s, e⟩ :: log) = pushed log ++ (pushedBy e).toList := by
  rw [pushed, List.reverse_cons, List.flatMap_append, List.flatMap_singleton]
  rfl

theorem popped_cons : popped (⟨i, s, e⟩ :: log) = popped log ++ (poppedBy e).toList := by
  rw [popped, List.reverse_cons, List.flatMap_append, List.flatMap_singleton]
  rfl

variable [DecidableEq ι]

/-! ## Steps -/

namespace ConveyStep

/-- What a step does to the queue. -/
theorem queue_cases (h : ConveyStep E i s r q e q' s') :
    (∃ order, pushedBy e = some order ∧ poppedBy e = none ∧ isRemoval e = false ∧
      s'.orderQueue = s.orderQueue ++ [order]) ∨
    (∃ order, pushedBy e = none ∧ poppedBy e = some order ∧ isRemoval e = false ∧
      s.orderQueue = order :: s'.orderQueue) ∨
    pushedBy e = none ∧ poppedBy e = none ∧ s'.orderQueue.Sublist s.orderQueue ∧
      (isRemoval e = false → s'.orderQueue = s.orderQueue) := by
  cases h with
  | push => exact .inl ⟨_, rfl, rfl, rfl, rfl⟩
  | evict hqueue => exact .inr (.inl ⟨_, rfl, rfl, rfl, hqueue⟩)
  | consume _ hqueue => exact .inr (.inl ⟨_, rfl, rfl, rfl, hqueue⟩)
  | evictNone hqueue | drain _ hqueue =>
    exact .inr (.inr ⟨rfl, rfl, List.nil_sublist _, fun _ => hqueue.symm⟩)
  | remove =>
    refine .inr (.inr ⟨rfl, rfl, List.filter_sublist, fun hfalse => ?_⟩)
    exact List.filter_sublist.eq_of_length (not_not.mp (of_decide_eq_false hfalse))
  | _ => exact .inr (.inr ⟨rfl, rfl, List.Sublist.refl _, fun _ => rfl⟩)

/-- The queue is only changed by who has its lock, or while nobody has. -/
theorem queue_locked (h : ConveyStep E i s r q e q' s') :
    s'.orderQueue = s.orderQueue ∨ q.Critical ∨ s.holder = none := by
  cases h with
  | push | evict | evictNone => exact .inr (.inl trivial)
  | remove hholder | consume hholder | drain hholder => exact .inr (.inr hholder)
  | _ => exact .inl rfl

/-- The queue is found full by who has its lock, and an order taken to make room is the first. -/
theorem evict_cases (h : ConveyStep E i s r q e q' s') :
    (q' = .full → orderQueueCapacity ≤ s'.orderQueue.length) ∧
      (evictedBy e = none ∨ q = .full ∧ s.orderQueue.head? = evictedBy e) := by
  cases h with
  | full hfull => exact ⟨fun _ => hfull, .inl rfl⟩
  | evict hqueue => exact ⟨ConveyPhase.noConfusion, .inr ⟨rfl, by rw [hqueue]; rfl⟩⟩
  | _ => exact ⟨ConveyPhase.noConfusion, .inl rfl⟩

end ConveyStep

/-! ## Invariants -/

/-- What was taken from the queue and what is on it, one after the other, were put on it in this
    order. -/
structure Lined (s : ConveyState ι) (log : List (ConveyEvent ι)) : Prop where
  sublist : (popped log ++ s.orderQueue).Sublist (pushed log)
  eq_pushed : (∀ e ∈ log, isRemoval e.call = false) → popped log ++ s.orderQueue = pushed log

theorem Lined.step (h : Lined s log) (hstep : ConveyStep E i s r q e q' s') :
    Lined s' (⟨i, s, e⟩ :: log) := by
  have hexact (hlog : ∀ e' ∈ (⟨i, s, e⟩ :: log : List (ConveyEvent ι)), isRemoval e'.call = false) :
      popped log ++ s.orderQueue = pushed log :=
    h.eq_pushed fun e' he' => hlog e' (List.mem_cons_of_mem _ he')
  rcases hstep.queue_cases with ⟨order, hpush, hpop, -, hqueue⟩ | ⟨order, hpush, hpop, -, hqueue⟩ |
    ⟨hpush, hpop, hqueue, hsame⟩
  · have hlists : popped (⟨i, s, e⟩ :: log) ++ s'.orderQueue =
        (popped log ++ s.orderQueue) ++ [order] := by
      rw [popped_cons, hpop, hqueue, Option.toList_none, List.append_nil, List.append_assoc]
    have hpushed : pushed (⟨i, s, e⟩ :: log) = pushed log ++ [order] := by
      rw [pushed_cons, hpush, Option.toList_some]
    refine ⟨?_, fun hlog => ?_⟩
    · rw [hlists, hpushed]
      exact h.sublist.append (.refl _)
    · rw [hlists, hpushed, hexact hlog]
  · have hlists : popped (⟨i, s, e⟩ :: log) ++ s'.orderQueue = popped log ++ s.orderQueue := by
      rw [popped_cons, hpop, hqueue, Option.toList_some, List.append_assoc, List.singleton_append]
    have hpushed : pushed (⟨i, s, e⟩ :: log) = pushed log := by
      rw [pushed_cons, hpush, Option.toList_none, List.append_nil]
    exact ⟨by rw [hlists, hpushed]; exact h.sublist,
      fun hlog => by rw [hlists, hpushed, hexact hlog]⟩
  · have hpushed : pushed (⟨i, s, e⟩ :: log) = pushed log := by
      rw [pushed_cons, hpush, Option.toList_none, List.append_nil]
    have hpopped : popped (⟨i, s, e⟩ :: log) = popped log := by
      rw [popped_cons, hpop, Option.toList_none, List.append_nil]
    refine ⟨?_, fun hlog => ?_⟩
    · rw [hpopped, hpushed]
      exact (hqueue.append_left _).trans h.sublist
    · rw [hpopped, hpushed, hsame (hlog _ List.mem_cons_self), hexact hlog]

/-- Room is only made on a full queue, and at the cost of its oldest order. -/
structure Packed (s : ConveyState ι) (phase : ι → ConveyPhase) (log : List (ConveyEvent ι)) :
    Prop where
  guarded : Guarded s phase
  full : ∀ i, phase i = .full → orderQueueCapacity ≤ s.orderQueue.length
  oldest : ∀ e ∈ log, ∀ dropped, evictedBy e.call = some dropped →
    e.state.orderQueue.length = orderQueueCapacity ∧ e.state.orderQueue.head? = some dropped

theorem Packed.step (h : Packed s phase log) (hstep : ConveyStep E i s r (phase i) e q s') :
    Packed s' (Function.update phase i q) (⟨i, s, e⟩ :: log) where
  guarded := h.guarded.step hstep
  full := by
    refine (Function.forall_update_iff phase fun _ q => q = .full → _).mpr
      ⟨hstep.evict_cases.1, fun j hj hfull => ?_⟩
    -- who has found the queue full has the lock, so nobody else has changed it
    have hholder : s.holder = some j := h.guarded.exclusive j (hfull ▸ trivial)
    rcases hstep.queue_locked with hsame | hcritical | hnone
    · rw [hsame]
      exact h.full j hfull
    · exact absurd (Option.some.inj (hholder.symm.trans (h.guarded.exclusive i hcritical))) hj
    · cases hholder.symm.trans hnone
  oldest := by
    refine List.forall_mem_cons.mpr ⟨fun dropped hdropped => ?_, h.oldest⟩
    rcases hstep.evict_cases.2 with hnone | ⟨hfull, hhead⟩
    · cases hdropped.symm.trans hnone
    · exact ⟨Nat.le_antisymm h.guarded.length_le (h.full i hfull), hhead.trans hdropped⟩

/-! ## Runs -/

/-- In any run: the orders that were taken from the front of the queue and those that are still on
    it, one after the other, were put on the queue in this order, and they are all that were if
    none was removed from between others. An order is taken to make room only from a queue that has
    as many orders as it may have, and it is then the oldest one there. -/
theorem first_in_first_out {c : Conveyance ι} (h : ConveyRun E role c) :
    (popped c.log ++ c.state.orderQueue).Sublist (pushed c.log) ∧
    ((∀ e ∈ c.log, isRemoval e.call = false) →
      popped c.log ++ c.state.orderQueue = pushed c.log) ∧
    ∀ e ∈ c.log, ∀ dropped, evictedBy e.call = some dropped →
      e.state.orderQueue.length = orderQueueCapacity ∧
        e.state.orderQueue.head? = some dropped := by
  have hlined : Lined c.state c.log :=
    h.invariant (I := fun s _ log => Lined s log) (fun _ => ⟨.refl _, fun _ => rfl⟩)
      (fun s s' _ _ hs henv => by
        rcases henv with ⟨now, _, rfl⟩ | rfl
        · exact ⟨hs.sublist, hs.eq_pushed⟩
        · exact ⟨hs.sublist, hs.eq_pushed⟩)
      fun _ _ _ _ _ _ _ hs => hs.step
  have hpacked : Packed c.state c.phase c.log :=
    h.invariant (fun _ => ⟨⟨fun _ => False.elim, Nat.zero_le _, fun _ => False.elim⟩,
        fun _ => ConveyPhase.noConfusion, fun _ he => absurd he List.not_mem_nil⟩)
      (fun s s' _ _ hs henv => by
        obtain ⟨⟨hexclusive, hle, hroom⟩, hfull, holdest⟩ := hs
        rcases henv with ⟨now, _, rfl⟩ | rfl
        · exact ⟨⟨hexclusive, hle, hroom⟩, hfull, holdest⟩
        · exact ⟨⟨hexclusive, hle, hroom⟩, hfull, holdest⟩)
      fun _ _ _ _ _ _ _ hs => hs.step
  exact ⟨hlined.sublist, hlined.eq_pushed, hpacked.oldest⟩

/-- Two handlers have put their orders on the queue, and the porter takes the first one. -/
theorem first_in_first_out_consumed :
    ∃ c : Conveyance (Fin 5), ConveyRun .plain sampleRoles c ∧ popped c.log = [writeOrder] ∧
      c.state.orderQueue = [readOrder] ∧
      popped c.log ++ c.state.orderQueue = pushed c.log := by
  have h := sampleOrdered.2
  have h := h.act 2 (.select true true false) (.ok .changed) rfl
    (.inr (.inl ⟨rfl, by decide, rfl, rfl⟩))
  have h := h.act 2 .isShutdown (.ok false) rfl ⟨rfl, rfl⟩
  have h := h.act 2 .taskCount (.ok 0) rfl ⟨rfl, rfl⟩
  have h := h.act 2 .consumeOrder (.ok (some writeOrder)) rfl ⟨rfl, rfl, rfl⟩
  exact ⟨_, h, rfl, rfl, (first_in_first_out h).2.1 (by decide)⟩

end LiNaStore
