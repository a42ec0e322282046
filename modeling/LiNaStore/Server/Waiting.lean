import LiNaStore.Server.Delivery

/-!
# Nobody waits in vain

A handler that waits for its answer is registered as a waiter, or its channel has been sent to or
closed. And as long as it is registered, its order is on its way: on the queue, with a porter, with
a worker, or with who takes it from the full queue and is to remove the waiter (`Attended`). For
whoever removes an order has removed its waiter before: a handler that gives up withdraws its own
order, and a cleaner those whose waiters it has found expired (`withdrawal`).

So whoever waits can go on at once, or its order is on its way (`nobody_waits_in_vain`).
-/

namespace LiNaStore

open Program

variable {ι : Type}

/-! ## Withdrawing orders -/

/-- With which identifiers a process may remove orders: a handler with its own once it has waited,
    a cleaner with those of the waiters it has found expired. -/
def withdrawal (role : Role) : Discipline ConveyError (ConveyPrim.Res (ι := ι)) (List Bytes) where
  allowed gone p := match role, p with
    | .handler _, .unregisterWaiter uniId => gone ≠ [] → uniId ∈ gone
    | .handler _, .removeOrder uniId => uniId ∈ gone
    | .cleaner, .removeOrder uniId => uniId ∈ gone
    | _, _ => True
  next gone p a := match role, p, a with
    | .handler order, .awaitResponse, _ => [order.uniId]
    | .cleaner, .expireWaiters _, .ok expired => expired
    | _, _, _ => gone

theorem withdrawal_dropOldest (order : Package) :
    (dropOldest : ConveyProg ι Unit).Keeps (withdrawal (.handler order)) (fun _ gone => gone = [])
      [] := by
  refine .perform_bind trivial (fun _ => rfl) fun n => ?_
  split
  · refine .perform_bind trivial (fun _ => rfl) fun dropped => ?_
    cases dropped with
    | none => exact .pure rfl
    | some dropped => exact .perform (fun hne => absurd rfl hne) fun _ => rfl
  · exact .pure rfl

theorem withdrawal_produceOrder (order : Package) :
    (produceOrder order : ConveyProg ι Unit).Keeps (withdrawal (.handler order))
      (fun _ gone => gone = []) [] := by
  refine .perform_bind trivial (fun _ => rfl) fun _ => ?_
  refine .bind ((withdrawal_dropOldest order).mono fun r gone hgone => ?_)
  subst hgone
  cases r with
  | error e => rfl
  | ok _ =>
    refine .perform_bind trivial (fun _ => rfl) fun _ => ?_
    refine .perform_bind trivial (fun _ => rfl) fun queueLen => ?_
    refine .perform_bind trivial (fun _ => rfl) fun _ => ?_
    exact .perform trivial fun _ => rfl

theorem withdrawal_giveOrder (order : Package) :
    (giveOrder order : ConveyProg ι Unit).Keeps (withdrawal (.handler order)) (fun _ _ => True)
      [] := by
  refine .perform_bind trivial (fun _ => trivial) fun registered => ?_
  cases registered with
  | false => exact .pure trivial
  | true =>
    refine .bind ((withdrawal_produceOrder order).mono fun r gone hgone => ?_)
    subst hgone
    cases r with
    | error e => trivial
    | ok _ =>
      have hgivingUp : (do
            convey (.unregisterWaiter order.uniId)
            (convey (.removeOrder order.uniId)).ignore : ConveyProg ι Unit).Keeps
          (withdrawal (.handler order)) (fun _ _ => True) [order.uniId] :=
        .perform_bind (fun _ => List.mem_singleton_self _) (fun _ => trivial) fun _ =>
          .ignore (.perform (List.mem_singleton_self _) fun _ => trivial)
      refine .perform_bind trivial (fun _ => trivial) fun awaited => ?_
      cases awaited with
      | package pkg => exact .pure trivial
      | closed => exact hgivingUp
      | timeout => exact hgivingUp

theorem withdrawal_cleanupExpiredWaiters :
    (cleanupExpiredWaiters : ConveyProg ι Unit).Keeps (withdrawal .cleaner) (fun _ _ => True)
      [] := by
  refine .perform_bind trivial (fun _ => trivial) fun now => ?_
  refine .perform_bind trivial (fun _ => trivial) fun expired => ?_
  change Keeps _ _ _ expired
  suffices h : ∀ ids ⊆ expired, (forEach (fun uniId => (convey (.removeOrder uniId)).ignore) ids :
      ConveyProg ι Unit).Keeps (withdrawal .cleaner) (fun _ _ => True) expired from
    h expired (List.Subset.refl _)
  intro ids hids
  induction ids with
  | nil => exact .pure trivial
  | cons uniId ids ih =>
    obtain ⟨hmem, hids⟩ := List.cons_subset.mp hids
    exact .bind (.ignore (.perform hmem fun _ => ih hids))

theorem withdrawal_program (role : Role) :
    (role.program : ConveyProg ι Unit).Keeps (withdrawal role) (fun _ _ => True) [] := by
  cases role with
  | handler order => exact withdrawal_giveOrder order
  | cleaner => exact withdrawal_cleanupExpiredWaiters
  | worker => exact .of_allowed (fun _ _ => trivial) _
  | porter => exact .of_allowed (fun _ _ => trivial) _

variable [DecidableEq ι] {E : Engine} {role : ι → Role} {i j : ι} {s s' : ConveyState ι} {r : Role}
  {phase : ι → ConveyPhase} {q q' : ConveyPhase} {log : List (ConveyEvent ι)}
  {e : (p : ConveyPrim ι) × Except ConveyError p.Res} {order : Package} {uniId : Bytes}

/-! ## Being heard -/

/-- Who waits under an identifier is registered, or can find something in its channel. -/
def ConveyState.Heard (s : ConveyState ι) (i : ι) (uniId : Bytes) : Prop :=
  s.waiters.find? uniId ≠ none ∨ s.channel i ≠ .empty

namespace ConveyState.Heard

/-- A channel that is sent to, or closed, is not empty. -/
theorem channel_settleWaiter {channel : Channel} (hchannel : channel ≠ .empty)
    (h : s.channel j ≠ .empty) : (s.settleWaiter uniId channel).channel j ≠ .empty := by
  rw [settleWaiter]
  cases s.waiters.find? uniId with
  | none => exact h
  | some entry =>
    dsimp only
    by_cases hj : j = entry.sender
    · rwa [hj, Function.update_self]
    · rwa [Function.update_of_ne hj]

/-- Who is removed from the waiters finds something in its channel. -/
theorem settleWaiter {channel : Channel} {settled : Bytes} (h : s.Heard j uniId)
    (hsender : ∀ entry, s.waiters.find? uniId = some entry → entry.sender = j)
    (hchannel : channel ≠ .empty) : (s.settleWaiter settled channel).Heard j uniId := by
  by_cases heq : uniId = settled
  · subst heq
    refine .inr ?_
    cases hfind : s.waiters.find? uniId with
    | none => exact channel_settleWaiter hchannel (h.resolve_left (not_not_intro hfind))
    | some entry =>
      have hnew : (s.settleWaiter uniId channel).channel =
          Function.update s.channel entry.sender channel := by
        rw [ConveyState.settleWaiter, hfind]
      rwa [hnew, ← hsender entry hfind, Function.update_self]
  · refine h.imp (fun hfind => ?_) (channel_settleWaiter hchannel)
    rw [ConveyState.settleWaiter, Table.find?_erase, if_neg heq]
    exact hfind

theorem expireWaiters {now : ℕ} (h : s.Heard j uniId)
    (hsender : ∀ entry, s.waiters.find? uniId = some entry → entry.sender = j) :
    (s.expireWaiters now).2.Heard j uniId := by
  have hclosed (hchannel : s.channel j ≠ .empty) : (s.expireWaiters now).2.channel j ≠ .empty := by
    rw [ConveyState.expireWaiters]
    dsimp only
    split
    · exact Channel.noConfusion
    · exact hchannel
  rcases h with hfind | hchannel
  · obtain ⟨entry, hentry⟩ := Option.ne_none_iff_exists'.mp hfind
    by_cases hexpired : now - entry.createdAt > waitersTtl
    · refine .inr ?_
      rw [ConveyState.expireWaiters]
      dsimp only
      rw [if_pos]
      · exact Channel.noConfusion
      · rw [← hsender entry hentry]
        exact List.mem_map_of_mem
          (List.mem_filter.mpr ⟨Table.mem_of_find? hentry, decide_eq_true hexpired⟩)
    · refine .inl ?_
      rw [ConveyState.expireWaiters, Table.find?_filter, hentry]
      simpa using Nat.sub_le_iff_le_add.mp (Nat.le_of_not_lt hexpired)
  · exact .inr (hclosed hchannel)

end ConveyState.Heard

/-! ## Being on the way -/

/-- The process has the order. -/
def ConveyPhase.Has (order : Package) : ConveyPhase → Prop
  | evicting pkg | holding pkg | working pkg | responding pkg _ => pkg = order
  | _ => False

/-- The order is on the queue, or spawned as a task, or some process has it. -/
def UnderWay (s : ConveyState ι) (phase : ι → ConveyPhase) (order : Package) : Prop :=
  order ∈ s.orderQueue ∨ order ∈ s.spawned.map Prod.snd ∨ ∃ j, (phase j).Has order

/-- An order stays on its way until it is removed, or its waiter is. -/
theorem ConveyStep.underWay (h : ConveyStep E i s r (phase i) e q s') (hway : UnderWay s phase order) :
    UnderWay s' (Function.update phase i q) order ∨
      (phase i = .removing ∧ e.1 = .removeOrder order.uniId) ∨
      (phase i = .evicting order ∧ s' = s.unregisterWaiter order.uniId) ∨
      ∃ resPkg, phase i = .responding order resPkg ∧ s' = (s.produceService resPkg).2 := by
  have hhas (hq : q.Has order) : UnderWay s' (Function.update phase i q) order :=
    .inr (.inr ⟨i, by rwa [Function.update_self]⟩)
  generalize hi : phase i = q₀ at h
  rcases hway with hqueue | hspawned | ⟨j, hj⟩
  · cases h with
    | push => exact .inl (.inl (List.mem_append_left _ hqueue))
    | evict heq | consume _ heq =>
      rw [heq] at hqueue
      rcases List.mem_cons.mp hqueue with rfl | hrest
      · exact .inl (hhas rfl)
      · exact .inl (.inl hrest)
    | evictNone heq | drain _ heq =>
      rw [heq] at hqueue
      exact absurd hqueue List.not_mem_nil
    | @remove _ uniId =>
      by_cases hid : order.uniId = uniId
      · exact .inr (.inl ⟨rfl, by rw [hid]⟩)
      · exact .inl (.inl (List.mem_filter.mpr ⟨hqueue, decide_eq_true hid⟩))
    | _ => exact .inl (.inl hqueue)
  · cases h with
    | spawn =>
      refine .inl (.inr (.inl ?_))
      rw [List.map_append]
      exact List.mem_append_left _ hspawned
    | takeTask heq =>
      rw [heq, List.map_append, List.map_cons, List.mem_append, List.mem_cons] at hspawned
      rcases hspawned with hbefore | rfl | hafter
      · refine .inl (.inr (.inl ?_))
        rw [List.map_append]
        exact List.mem_append_left _ hbefore
      · exact .inl (hhas rfl)
      · refine .inl (.inr (.inl ?_))
        rw [List.map_append]
        exact List.mem_append_right _ hafter
    | _ => exact .inl (.inr (.inl hspawned))
  · by_cases hji : j = i
    · subst hji
      rw [hi] at hj
      cases h with
      | spawn =>
        cases hj
        refine .inl (.inr (.inl ?_))
        rw [List.map_append]
        exact List.mem_append_right _ (List.mem_singleton_self _)
      | unregister =>
        cases hj
        exact .inr (.inr (.inl ⟨rfl, rfl⟩))
      | process => exact .inl (hhas hj)
      | respond =>
        cases hj
        exact .inr (.inr (.inr ⟨_, rfl, rfl⟩))
      | select hq => rcases hq with rfl | rfl <;> exact hj.elim
      | _ => exact hj.elim
    · exact .inl (.inr (.inr ⟨j, by rwa [Function.update_of_ne hji]⟩))

/-! ## Steps -/

/-- A handler is registered, or has been, and has not given up. -/
def ConveyPhase.Waiting : ConveyPhase → Prop
  | registered | locked | full | evicting _ | roomy | pushed | unlocked | awaiting => True
  | _ => False

/-- It has put its order on the queue. -/
def ConveyPhase.Sent : ConveyPhase → Prop
  | pushed | unlocked | awaiting => True
  | _ => False

namespace ConveyStep

/-- What a step does to the waiters and their channels. -/
theorem waiters_cases (h : ConveyStep E i s r q e q' s') :
    (s'.waiters = s.waiters ∧ s'.channel = s.channel) ∨
    (∃ order, r = .handler order ∧ q = .start ∧ q' = .registered ∧
      s.waiters.find? order.uniId = none ∧
      s'.waiters = s.waiters.insert ⟨order.uniId, i, s.now⟩ ∧
      s'.channel = Function.update s.channel i .empty) ∨
    (∃ uniId channel, channel ≠ .empty ∧ s' = s.settleWaiter uniId channel) ∨
    ∃ now, s' = (s.expireWaiters now).2 := by
  cases h with
  | register hfind => exact .inr (.inl ⟨_, rfl, rfl, rfl, hfind, rfl, rfl⟩)
  | unregister | withdraw => exact .inr (.inr (.inl ⟨_, .closed, Channel.noConfusion, rfl⟩))
  | respond => exact .inr (.inr (.inl ⟨_, .sent _, Channel.noConfusion, rfl⟩))
  | expire => exact .inr (.inr (.inr ⟨_, rfl⟩))
  | _ => exact .inl ⟨rfl, rfl⟩

/-- An identifier is only registered by the handler that has it, at its start. -/
theorem find?_eq_none (h : ConveyStep E i s r q e q' s') (hnone : s.waiters.find? uniId = none) :
    s'.waiters.find? uniId = none ∨ q = .start ∧ ∃ order, r = .handler order ∧
      order.uniId = uniId := by
  rcases h.waiters_cases with ⟨heq, -⟩ | ⟨order, hr, hq, -, hfind, heq, -⟩ |
    ⟨settled, channel, -, rfl⟩ | ⟨now, rfl⟩
  · exact .inl (heq ▸ hnone)
  · by_cases hid : uniId = order.uniId
    · exact .inr ⟨hq, order, hr, hid.symm⟩
    · refine .inl ?_
      rw [heq, Table.find?_insert hfind]
      exact (if_neg hid).trans hnone
  · exact .inl (Registered.find?_erase_eq_none hnone)
  · refine .inl ?_
    rw [ConveyState.expireWaiters, Table.find?_filter, hnone]
    rfl

theorem mem_waiters (h : ConveyStep E i s r q e q' s') {entry : WaiterEntry ι}
    (hentry : entry ∈ s'.waiters.rows) :
    entry ∈ s.waiters.rows ∨ entry.sender = i ∧ q' = .registered := by
  rcases h.waiters_cases with ⟨heq, -⟩ | ⟨order, -, -, hq', hfind, heq, -⟩ |
    ⟨settled, channel, -, rfl⟩ | ⟨now, rfl⟩
  · exact .inl (heq ▸ hentry)
  · rw [heq] at hentry
    rcases (Table.mem_insert hfind).mp hentry with hentry | rfl
    · exact .inl hentry
    · exact .inr ⟨rfl, hq'⟩
  · exact .inl (Registered.mem_of_mem_erase entry hentry)
  · exact .inl (List.mem_filter.mp hentry).1

/-- Who is heard stays so, if it does not begin anew. -/
theorem heard (h : ConveyStep E i s r q e q' s')
    (hsender : ∀ entry, s.waiters.find? uniId = some entry → entry.sender = j)
    (hne : j = i → q ≠ .start) (hheard : s.Heard j uniId) : s'.Heard j uniId := by
  rcases h.waiters_cases with ⟨hwaiters, hchannel⟩ | ⟨order, -, hq, -, hfind, hwaiters, hchannel⟩ |
    ⟨settled, channel, hchannel, rfl⟩ | ⟨now, rfl⟩
  · rwa [ConveyState.Heard, hwaiters, hchannel]
  · rw [ConveyState.Heard, hwaiters, hchannel, Function.update_of_ne fun hji => hne hji hq]
    refine hheard.imp_left fun hsome => ?_
    rw [Table.find?_insert hfind]
    split
    · exact Option.some_ne_none _
    · exact hsome
  · exact hheard.settleWaiter hsender hchannel
  · exact hheard.expireWaiters hsender

/-- How a handler comes to wait, and to have sent its order. -/
theorem waiting_cases (h : ConveyStep E i s r q e q' s') :
    (q ≠ .start → q' ≠ .start) ∧
    (q'.Waiting → q.Waiting ∨ q = .start ∧ q' = .registered ∧
      ∀ order, r = .handler order → s'.waiters.find? order.uniId ≠ none) ∧
    (q'.Sent → q.Sent ∨ ∀ order, r = .handler order → order ∈ s'.orderQueue) := by
  cases h with
  | register hfind =>
    refine ⟨fun _ => ConveyPhase.noConfusion, fun _ => .inr ⟨rfl, rfl, fun order hr => ?_⟩,
      False.elim⟩
    cases hr
    dsimp only
    rw [Table.find?_insert hfind]
    exact (if_pos rfl).trans_ne (Option.some_ne_none _)
  | push =>
    refine ⟨fun _ => ConveyPhase.noConfusion, fun _ => .inl trivial, fun _ => .inr fun order hr => ?_⟩
    cases hr
    exact List.mem_append_right _ (List.mem_singleton_self _)
  | instant => exact ⟨id, False.elim, False.elim⟩
  | lock | full | roomy | evict | evictNone | unregister =>
    exact ⟨fun _ => ConveyPhase.noConfusion, fun _ => .inl trivial, False.elim⟩
  | count | unlock | notify =>
    exact ⟨fun _ => ConveyPhase.noConfusion, fun _ => .inl trivial, fun _ => .inl trivial⟩
  | _ => exact ⟨fun _ => ConveyPhase.noConfusion, False.elim, False.elim⟩

end ConveyStep

/-! ## The invariant -/

/-- Who waits is heard, and its order is on its way as long as it is registered. Whoever removes
    orders has removed their waiters before, whose handlers do not register again. -/
structure Attended (role : ι → Role) (s : ConveyState ι) (phase : ι → ConveyPhase)
    (gone : ι → List Bytes) : Prop where
  entered : ∀ entry ∈ s.waiters.rows, phase entry.sender ≠ .start
  own : ∀ i order, role i = .handler order → phase i = .givingUp ∨ phase i = .removing →
    gone i = [order.uniId]
  remover : ∀ i, phase i = .removing → role i = .cleaner ∨ ∃ order, role i = .handler order
  withdrawn : ∀ i, phase i = .removing → ∀ uniId ∈ gone i, s.waiters.find? uniId = none ∧
    ∃ j order, role j = .handler order ∧ order.uniId = uniId ∧ phase j ≠ .start
  heard : ∀ i order, role i = .handler order → (phase i).Waiting → s.Heard i order.uniId
  underWay : ∀ i order, role i = .handler order → (phase i).Sent →
    s.waiters.find? order.uniId ≠ none → UnderWay s phase order

namespace Attended

variable {gone : ι → List Bytes} {place : Bytes → Place ι}

/-- The waiter under the identifier of a handler is that handler. -/
theorem sender_eq (hreg : Registered E role s phase log) (hfresh : FreshIds role)
    (hrole : role j = .handler order) (entry : WaiterEntry ι)
    (hentry : s.waiters.find? order.uniId = some entry) : entry.sender = j := by
  obtain ⟨order', hrole', hid⟩ := hreg.waiters entry (Table.mem_of_find? hentry)
  exact hfresh _ _ _ _ hrole' hrole (hid.trans (Table.key_of_find? hentry))

/-- An identifier that was withdrawn stays unregistered. -/
theorem find?_eq_none (hfresh : FreshIds role) (hstep : ConveyStep E i s (role i) (phase i) e q s')
    (hgone : s.waiters.find? uniId = none ∧
      ∃ j order, role j = .handler order ∧ order.uniId = uniId ∧ phase j ≠ .start) :
    s'.waiters.find? uniId = none ∧ ∃ j order, role j = .handler order ∧ order.uniId = uniId ∧
      Function.update phase i q j ≠ .start := by
  obtain ⟨hnone, j, order, hrole, hid, hj⟩ := hgone
  refine ⟨(hstep.find?_eq_none hnone).resolve_right ?_, j, order, hrole, hid, ?_⟩
  · rintro ⟨hstart, order', hrole', hid'⟩
    -- who registers it is its handler, which has left its start
    cases hfresh _ _ _ _ hrole' hrole (hid'.trans hid.symm)
    exact hj hstart
  · by_cases hji : j = i
    · subst hji
      rw [Function.update_self]
      exact hstep.waiting_cases.1 hj
    · rwa [Function.update_of_ne hji]

/-- A process that removes orders has withdrawn their waiters. -/
theorem withdrawn_self (h : Attended role s phase gone) (hreg : Registered E role s phase log)
    (hfresh : FreshIds role) (hstep : ConveyStep E i s (role i) (phase i) e .removing s')
    (hallowed : (withdrawal (role i)).allowed (gone i) e.1) :
    ∀ uniId ∈ (withdrawal (role i)).next (gone i) e.1 e.2, s'.waiters.find? uniId = none ∧
      ∃ j order, role j = .handler order ∧ order.uniId = uniId ∧
        Function.update phase i .removing j ≠ .start := by
  have hstep' := hstep
  generalize hrole : role i = r at hstep hallowed
  generalize hi : phase i = q₀ at hstep
  cases hstep with
  | @withdraw order settled =>
    have hown := h.own i order hrole (.inl hi)
    intro uniId hmem
    change uniId ∈ gone i at hmem
    have hsettled : settled = order.uniId := by
      have := hallowed (by rw [hown]; exact List.cons_ne_nil _ _)
      rwa [hown, List.mem_singleton] at this
    rw [hown, List.mem_singleton] at hmem
    subst hmem
    refine ⟨?_, i, order, hrole, rfl, by rw [Function.update_self]; exact ConveyPhase.noConfusion⟩
    rw [hsettled]
    exact (Table.find?_erase ..).trans (if_pos rfl)
  | remove =>
    intro uniId hmem
    have hkept : uniId ∈ gone i := by
      cases r <;> exact hmem
    exact find?_eq_none hfresh hstep' (h.withdrawn i hi uniId hkept)
  | @expire now =>
    intro uniId hmem
    obtain ⟨entry, hentry, rfl⟩ := List.mem_map.mp hmem
    obtain ⟨hentry, hexpired⟩ := List.mem_filter.mp hentry
    obtain ⟨order, hsender, hid⟩ := hreg.waiters entry hentry
    refine ⟨?_, entry.sender, order, hsender, hid, ?_⟩
    · rw [ConveyState.expireWaiters, Table.find?_filter, Table.find?_key hentry]
      simpa [Nat.lt_sub_iff_add_lt] using hexpired
    · by_cases hji : entry.sender = i
      · rw [hji, Function.update_self]
        exact ConveyPhase.noConfusion
      · rw [Function.update_of_ne hji]
        exact h.entered entry hentry

/-- What a handler may remove when it gives up. -/
theorem own_self (h : Attended role s phase gone) (hrole : role i = .handler order)
    (hstep : ConveyStep E i s (role i) (phase i) e q s') (hq : q = .givingUp ∨ q = .removing) :
    (withdrawal (role i)).next (gone i) e.1 e.2 = [order.uniId] := by
  rw [hrole] at hstep ⊢
  generalize hi : phase i = q₀ at hstep
  cases hstep with
  | giveUp => rfl
  | withdraw => exact h.own i order hrole (.inl hi)
  | remove => exact h.own i order hrole (.inr hi)
  | _ => rcases hq with hq | hq <;> cases hq

theorem remover_self (h : Attended role s phase gone)
    (hstep : ConveyStep E i s (role i) (phase i) e .removing s') :
    role i = .cleaner ∨ ∃ order, role i = .handler order := by
  have hbefore := h.remover i
  generalize role i = r at hstep hbefore ⊢
  generalize phase i = q₀ at hstep hbefore
  cases hstep with
  | withdraw => exact .inr ⟨_, rfl⟩
  | remove => exact hbefore rfl
  | expire => exact .inl rfl

/-- An order whose waiter is registered stays on its way. -/
theorem underWay_step (h : Attended role s phase gone) (hreg : Registered E role s phase log)
    (hstep : ConveyStep E i s (role i) (phase i) e q s')
    (hallowed : (withdrawal (role i)).allowed (gone i) e.1) (hway : UnderWay s phase order)
    (hfind : s'.waiters.find? order.uniId ≠ none) (hbefore : s.waiters.find? order.uniId ≠ none) :
    UnderWay s' (Function.update phase i q) order := by
  rcases hstep.underWay hway with hway | ⟨hi, he⟩ | ⟨-, rfl⟩ | ⟨resPkg, hi, rfl⟩
  · exact hway
  · -- whoever removes orders has removed their waiters before
    have hmem : order.uniId ∈ gone i := by
      rw [he] at hallowed
      rcases h.remover i hi with hrole | ⟨order', hrole⟩
      · rw [hrole] at hallowed
        exact hallowed
      · rw [hrole] at hallowed
        exact hallowed
    exact absurd (h.withdrawn i hi _ hmem).1 hbefore
  · exact absurd ((Table.find?_erase ..).trans (if_pos rfl)) hfind
  · have hid := (hreg.responding i order resPkg hi).2.1.uniId
    exact absurd ((Table.find?_erase ..).trans (if_pos hid.symm)) hfind

theorem step (h : Attended role s phase gone) (hreg : Registered E role s phase log)
    (hfresh : FreshIds role) (hstep : ConveyStep E i s (role i) (phase i) e q s')
    (hallowed : (withdrawal (role i)).allowed (gone i) e.1) :
    Attended role s' (Function.update phase i q)
      (Function.update gone i ((withdrawal (role i)).next (gone i) e.1 e.2)) := by
  obtain ⟨hstart, hwaiting, hsent⟩ := hstep.waiting_cases
  refine ⟨fun entry hentry => ?_, fun j order hrole hj => ?_, fun j hj => ?_, fun j hj => ?_,
    fun j order hrole hj => ?_, fun j order hrole hj hfind => ?_⟩
  · by_cases hji : entry.sender = i
    · rw [hji, Function.update_self]
      rcases hstep.mem_waiters hentry with hentry | ⟨-, rfl⟩
      · exact hstart (hji ▸ h.entered entry hentry)
      · exact ConveyPhase.noConfusion
    · rw [Function.update_of_ne hji]
      exact h.entered entry ((hstep.mem_waiters hentry).resolve_right fun hself => hji hself.1)
  · by_cases hji : j = i
    · subst hji
      rw [Function.update_self] at hj ⊢
      exact h.own_self hrole hstep hj
    · rw [Function.update_of_ne hji] at hj ⊢
      exact h.own j order hrole hj
  · by_cases hji : j = i
    · subst hji
      rw [Function.update_self] at hj
      subst hj
      exact h.remover_self hstep
    · rw [Function.update_of_ne hji] at hj
      exact h.remover j hj
  · by_cases hji : j = i
    · subst hji
      rw [Function.update_self] at hj ⊢
      subst hj
      exact h.withdrawn_self hreg hfresh hstep hallowed
    · rw [Function.update_of_ne hji] at hj ⊢
      exact fun uniId hmem => find?_eq_none hfresh hstep (h.withdrawn j hj uniId hmem)
  · by_cases hji : j = i
    · subst hji
      rw [Function.update_self] at hj
      rcases hwaiting hj with hbefore | ⟨-, -, hfind⟩
      · refine hstep.heard (sender_eq hreg hfresh hrole) (fun _ heq => ?_) (h.heard j order hrole hbefore)
        rw [heq] at hbefore
        exact hbefore
      · exact .inl (hfind order hrole)
    · rw [Function.update_of_ne hji] at hj
      exact hstep.heard (sender_eq hreg hfresh hrole) (absurd · hji) (h.heard j order hrole hj)
  · by_cases hji : j = i
    · subst hji
      rw [Function.update_self] at hj
      rcases hsent hj with hbefore | hqueue
      · have hbound : s.waiters.find? order.uniId ≠ none := fun hnone => by
          rcases hstep.find?_eq_none hnone with hnone | ⟨heq, -⟩
          · exact hfind hnone
          · rw [heq] at hbefore
            exact hbefore
        exact h.underWay_step hreg hstep hallowed (h.underWay j order hrole hbefore hbound) hfind hbound
      · exact .inl (hqueue order hrole)
    · rw [Function.update_of_ne hji] at hj
      have hbound : s.waiters.find? order.uniId ≠ none := fun hnone => by
        rcases hstep.find?_eq_none hnone with hnone | ⟨-, order', hrole', hid⟩
        · exact hfind hnone
        · exact hji (hfresh _ _ _ _ hrole hrole' hid.symm)
      exact h.underWay_step hreg hstep hallowed (h.underWay j order hrole hj hbound) hfind hbound

omit [DecidableEq ι] in
theorem start (role : ι → Role) (now : ℕ) :
    Attended role (.start now) (fun _ => .start) fun _ => [] where
  entered _ hentry := absurd hentry List.not_mem_nil
  own _ _ _ := fun h => by rcases h with h | h <;> cases h
  remover _ := ConveyPhase.noConfusion
  withdrawn _ := ConveyPhase.noConfusion
  heard _ _ _ := False.elim
  underWay _ _ _ := False.elim

end Attended

/-! ## Runs -/

/-- Whoever waits for its answer, in any run with different identifiers: it can go on at once, as
    its channel has been sent to or closed, or its order is on its way, on the queue, spawned as a
    task or with a process. -/
theorem nobody_waits_in_vain {c : Conveyance ι} (hfresh : FreshIds role) (h : ConveyRun E role c)
    (hrole : role i = .handler order) {k : Except ConveyError Awaited → ConveyProg ι Unit}
    (hwaits : c.programs i = .call .awaitResponse k) :
    c.state.channel i ≠ .empty ∨ UnderWay c.state c.phase order := by
  obtain ⟨gone, ⟨-, hc⟩, -⟩ := h.invariant_alongside withdrawal [] withdrawal_program
    (I := fun s phase gone log => Conveyed E role s phase log ∧ Attended role s phase gone)
    (fun now => ⟨.start now, .start role now⟩)
    (fun s s' phase gone log ⟨hconveyed, hs⟩ henv => by
      refine ⟨hconveyed.env henv, ?_⟩
      obtain ⟨hentered, hown, hremover, hwithdrawn, hheard, hway⟩ := hs
      rcases henv with ⟨now, _, rfl⟩ | rfl
      · exact ⟨hentered, hown, hremover, hwithdrawn, hheard, hway⟩
      · exact ⟨hentered, hown, hremover, hwithdrawn, hheard, hway⟩)
    fun s phase gone log i e q s' ⟨hconveyed, hs⟩ hstep _ hallowed =>
      ⟨hconveyed.step hfresh hstep, hs.step hconveyed.registered hfresh hstep hallowed⟩
  have hawaiting : c.phase i = .awaiting := by
    have hkeeps := h.keeps i
    rw [hwaits, hrole] at hkeeps
    have hallowed := hkeeps.1
    generalize c.phase i = q at hallowed
    cases q with
    | awaiting => rfl
    | _ => exact hallowed.elim
  rcases hc.heard i order hrole (hawaiting ▸ trivial) with hfind | hchannel
  · exact .inr (hc.underWay i order hrole (hawaiting ▸ trivial) hfind)
  · exact .inl hchannel

/-- Two handlers wait for the answers to their orders, of which one is with a worker and the other
    has been spawned as a task. -/
theorem nobody_waits_in_vain_spawned :
    ∃ c : Conveyance (Fin 5), ConveyRun .plain sampleRoles c ∧
      c.state.channel 0 = .empty ∧ UnderWay c.state c.phase writeOrder ∧
      c.state.channel 1 = .empty ∧ UnderWay c.state c.phase readOrder := by
  have hwrite := nobody_waits_in_vain (i := 0) freshIds_sampleRoles sampleBegun.2 rfl rfl
  have hread := nobody_waits_in_vain (i := 1) freshIds_sampleRoles sampleBegun.2 rfl rfl
  exact ⟨_, sampleBegun.2, rfl, hwrite.resolve_left (not_not_intro rfl), rfl,
    hread.resolve_left (not_not_intro rfl)⟩

end LiNaStore
