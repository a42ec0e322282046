import LiNaStore.Server.Conveyer

/-!
# The porter is woken

A porter waits for new orders only after it has found the queue empty, and an order that is put on
the queue after that is notified after that too, if not at once. So while the porter waits, the
queue is empty, or it has been notified of something it has not seen, or somebody who has put an
order on the queue is still to notify it (`Watched`).

If there is nobody of the last kind, the branch of the porter's `select!` that waits for orders is
therefore ready whenever there are any (`no_lost_wakeup`).
-/

namespace LiNaStore

variable {ι : Type} [DecidableEq ι] {E : Engine} {role : ι → Role} {i : ι} {s s' : ConveyState ι}
  {phase : ι → ConveyPhase} {q q' : ConveyPhase}
  {e : (p : ConveyPrim ι) × Except ConveyError p.Res}

/-- A handler has put its order on the queue and has not notified anybody. -/
def ConveyPhase.Announcing : ConveyPhase → Prop
  | pushed | unlocked => True
  | _ => False

/-- A porter has subscribed. -/
def ConveyPhase.Subscribed : ConveyPhase → Prop
  | running | drained | holding _ => True
  | _ => False

/-- What the porters can rely on. -/
structure Watched (s : ConveyState ι) (phase : ι → ConveyPhase) : Prop where
  seen_le : ∀ i version, s.seen i = some version → version ≤ s.version
  subscribed : ∀ i, (phase i).Subscribed → s.seen i ≠ none
  drained : ∀ i, phase i = .drained →
    s.orderQueue = [] ∨ s.seen i ≠ some s.version ∨ ∃ j, (phase j).Announcing

namespace ConveyStep

variable {r : Role}

/-- What a step does to the others: it shows them nothing, and puts an order on the queue, or stops
    announcing one, only as it should. -/
theorem notified (h : ConveyStep E i s r q e q' s') :
    (∀ j, j ≠ i → s'.seen j = s.seen j) ∧ s.version ≤ s'.version ∧
      (q'.Announcing ∨ (s.orderQueue = [] → s'.orderQueue = [])) ∧
      (q.Announcing → q'.Announcing ∨ ((∃ j, s.seen j ≠ none) → s.version < s'.version)) := by
  cases h with
  | push => exact ⟨fun _ _ => rfl, Nat.le_refl _, .inl trivial, fun _ => .inl trivial⟩
  | count | unlock => exact ⟨fun _ _ => rfl, Nat.le_refl _, .inl trivial, fun _ => .inl trivial⟩
  | notify hle hlt => exact ⟨fun _ _ => rfl, hle, .inr id, fun _ => .inr hlt⟩
  | evict hqueue | consume _ hqueue =>
    exact ⟨fun _ _ => rfl, Nat.le_refl _, .inr fun hnil => absurd (hnil.symm.trans hqueue) nofun,
      False.elim⟩
  | evictNone | drain => exact ⟨fun _ _ => rfl, Nat.le_refl _, .inr fun _ => rfl, False.elim⟩
  | remove =>
    refine ⟨fun _ _ => rfl, Nat.le_refl _, .inr fun hnil => ?_, False.elim⟩
    rw [ConveyState.removeOrder, hnil]
    rfl
  | subscribe =>
    exact ⟨fun _ hj => Function.update_of_ne hj .., Nat.le_refl _, .inr id, False.elim⟩
  | select hq hother =>
    refine ⟨hother, Nat.le_refl _, .inr id, ?_⟩
    rcases hq with rfl | rfl <;> exact False.elim
  | _ => exact ⟨fun _ _ => rfl, Nat.le_refl _, .inr id, False.elim⟩

/-- What a step does to the process itself. -/
theorem watched (h : ConveyStep E i s r q e q' s') :
    (s'.seen i = s.seen i ∨ s'.seen i = some s'.version) ∧
      (q'.Subscribed → q.Subscribed ∨ s'.seen i = some s'.version) ∧
      (q' = .drained → s'.orderQueue = []) := by
  cases h with
  | subscribe =>
    exact ⟨.inr (Function.update_self ..), fun _ => .inr (Function.update_self ..), nofun⟩
  | drain => exact ⟨.inl rfl, fun _ => .inl trivial, fun _ => rfl⟩
  | select hq _ hseen =>
    refine ⟨hseen, fun _ => .inl ?_, nofun⟩
    rcases hq with rfl | rfl <;> trivial
  | taskCount | isShutdown | consume | spawn => exact ⟨.inl rfl, fun _ => .inl trivial, nofun⟩
  | _ => exact ⟨.inl rfl, False.elim, nofun⟩

end ConveyStep

theorem Watched.step {r : Role} (h : Watched s phase)
    (hstep : ConveyStep E i s r (phase i) e q s') : Watched s' (Function.update phase i q) := by
  obtain ⟨hother, hle, hgrows, hannounces⟩ := hstep.notified
  obtain ⟨hseen, hsubscribed, hdrained⟩ := hstep.watched
  refine ⟨fun j version hj => ?_, fun j hj => ?_, fun j hj => ?_⟩
  · by_cases hji : j = i
    · subst hji
      rcases hseen with hsame | hnow
      · exact (h.seen_le j version (hsame ▸ hj)).trans hle
      · exact (Option.some.inj (hj.symm.trans hnow)).le
    · exact (h.seen_le j version (hother j hji ▸ hj)).trans hle
  · by_cases hji : j = i
    · subst hji
      rw [Function.update_self] at hj
      rcases hseen with hsame | hnow
      · rcases hsubscribed hj with hj | hnow
        · exact hsame ▸ h.subscribed j hj
        · exact hnow ▸ nofun
      · exact hnow ▸ nofun
    · rw [Function.update_of_ne hji] at hj
      exact hother j hji ▸ h.subscribed j hj
  · by_cases hji : j = i
    · subst hji
      rw [Function.update_self] at hj
      exact .inl (hdrained hj)
    · rw [Function.update_of_ne hji] at hj
      have hsub : s.seen j ≠ none := h.subscribed j (hj ▸ trivial)
      have hbehind (hlt : s.version < s'.version) : s'.seen j ≠ some s'.version := fun heq =>
        absurd (h.seen_le j _ (hother j hji ▸ heq)) (Nat.not_le.mpr hlt)
      have hself (hq : q.Announcing) : ∃ k, (Function.update phase i q k).Announcing :=
        ⟨i, by rwa [Function.update_self]⟩
      rcases h.drained j hj with hnil | hne | ⟨k, hk⟩
      · rcases hgrows with hq | hgrows
        · exact .inr (.inr (hself hq))
        · exact .inl (hgrows hnil)
      · rcases hle.eq_or_lt with heq | hlt
        · exact .inr (.inl (by rwa [hother j hji, ← heq]))
        · exact .inr (.inl (hbehind hlt))
      · by_cases hki : k = i
        · subst hki
          rcases hannounces hk with hq | hlt
          · exact .inr (.inr (hself hq))
          · exact .inr (.inl (hbehind (hlt ⟨j, hsub⟩)))
        · exact .inr (.inr ⟨k, by rwa [Function.update_of_ne hki]⟩)

/-- While a porter that is not shutting down and has room for a task waits, and nobody who has put
    an order on the queue is still to notify it, the queue is empty or it has been notified. -/
theorem no_lost_wakeup {c : Conveyance ι} (h : ConveyRun E role c) {joined : Bool}
    {k : Except ConveyError Selected → ConveyProg ι Unit}
    (hwaits : c.programs i = .call (.select true true joined) k)
    (hquiet : ∀ j, ¬(c.phase j).Announcing) :
    c.state.orderQueue = [] ∨ c.state.seen i ≠ some c.state.version := by
  have hc : Watched c.state c.phase :=
    h.invariant (I := fun s phase _ => Watched s phase)
      (fun now => ⟨nofun, fun _ => False.elim, nofun⟩)
      (fun s s' phase log hs henv => by
        rcases henv with ⟨now, _, rfl⟩ | rfl
        · exact ⟨hs.seen_le, hs.subscribed, hs.drained⟩
        · exact ⟨hs.seen_le, hs.subscribed, hs.drained⟩)
      fun _ _ _ _ _ _ _ hs => hs.step
  have hkeeps := h.keeps i
  rw [hwaits] at hkeeps
  rcases hc.drained i (drained_of_allowed hkeeps.1) with hnil | hne | ⟨j, hj⟩
  · exact .inl hnil
  · exact .inr hne
  · exact absurd hj (hquiet j)

/-- Two orders are put on the queue while the porter waits. -/
theorem no_lost_wakeup_notified :
    ∃ c : Conveyance (Fin 5), ConveyRun .plain sampleRoles c ∧
      c.state.orderQueue = [writeOrder, readOrder] ∧ c.state.seen 2 ≠ some c.state.version := by
  have hready := no_lost_wakeup (i := 2) sampleOrdered.2 rfl fun
    | 0 => id
    | 1 => id
    | 2 => id
    | 3 => id
    | 4 => id
  exact ⟨_, sampleOrdered.2, rfl, hready.resolve_left nofun⟩

end LiNaStore
