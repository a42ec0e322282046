import LiNaStore.Server.Conveyer

/-!
# One request, one answer

The queue never has more orders than it may have (`Guarded`): whoever puts one on it has the lock
of the queue, and has made room under it.

The identifier of an order is always at one place (`Placed`): on the queue, with the porter, with a
worker, or gone. A place is left for the next one only, so an order is carried out at most once,
and one that is taken from a full queue is not carried out at all.

A waiter is only registered by the handler whose order has its identifier (`Registered`). So the
answer a handler receives is that to its own order, and it receives one only
(`one_request_one_response`).
-/

namespace LiNaStore

variable {ι : Type}

/-! ## What is said of runs -/

/-- Requests have different identifiers. -/
def FreshIds (role : ι → Role) : Prop :=
  ∀ i j order order', role i = .handler order → role j = .handler order' →
    order.uniId = order'.uniId → i = j

/-- An order with the identifier is carried out. -/
def isProcessing (uniId : Bytes) : ((p : ConveyPrim ι) × Except ConveyError p.Res) → Bool
  | ⟨.process pkg, _⟩ => pkg.uniId = uniId
  | _ => false

def timesProcessed (uniId : Bytes) (log : List (ConveyEvent ι)) : ℕ :=
  log.countP fun e => isProcessing uniId e.call

/-- The order that is taken from a full queue. -/
def evictedBy : ((p : ConveyPrim ι) × Except ConveyError p.Res) → Option Package
  | ⟨.popFront, .ok dropped⟩ => dropped
  | _ => none

def Evicted (pkg : Package) (log : List (ConveyEvent ι)) : Prop :=
  ∃ e ∈ log, evictedBy e.call = some pkg

/-- An answer is received. -/
def isReceipt : ((p : ConveyPrim ι) × Except ConveyError p.Res) → Bool
  | ⟨.awaitResponse, .ok (.package _)⟩ => true
  | _ => false

def timesReceived [DecidableEq ι] (i : ι) (log : List (ConveyEvent ι)) : ℕ :=
  log.countP fun e => e.process = i ∧ isReceipt e.call

def Received (i : ι) (pkg : Package) (log : List (ConveyEvent ι)) : Prop :=
  ∃ e ∈ log, e.process = i ∧ e.call = ⟨.awaitResponse, .ok (.package pkg)⟩

/-- The package is what a worker made of the order. -/
def ComputedFrom (E : Engine) (order pkg : Package) (log : List (ConveyEvent ι)) : Prop :=
  order.Answers E pkg ∧ ∃ e ∈ log, e.call = ⟨.process order, .ok pkg⟩

variable [DecidableEq ι] {E : Engine} {role : ι → Role} {i : ι} {s s' : ConveyState ι}
  {phase : ι → ConveyPhase} {q q' : ConveyPhase} {log : List (ConveyEvent ι)}
  {e : (p : ConveyPrim ι) × Except ConveyError p.Res}

/-! ## The length of the queue -/

/-- The process has the lock of the queue. -/
def ConveyPhase.Critical : ConveyPhase → Prop
  | locked | full | evicting _ | roomy | pushed => True
  | _ => False

/-- It has made room on the queue. -/
def ConveyPhase.HasRoom : ConveyPhase → Prop
  | evicting _ | roomy => True
  | _ => False

structure Guarded (s : ConveyState ι) (phase : ι → ConveyPhase) : Prop where
  exclusive : ∀ i, (phase i).Critical → s.holder = some i
  length_le : s.orderQueue.length ≤ orderQueueCapacity
  room : ∀ i, (phase i).HasRoom → s.orderQueue.length < orderQueueCapacity

theorem ConveyPhase.HasRoom.critical (h : q.HasRoom) : q.Critical := by
  cases q with
  | evicting | roomy => trivial
  | _ => exact h.elim

/-- The lock is kept, taken or given back. -/
theorem ConveyStep.holder_cases {r : Role} (h : ConveyStep E i s r q e q' s') :
    s'.holder = s.holder ∧ (q'.Critical → q.Critical) ∨ s.holder = none ∧ s'.holder = some i ∨
      q.Critical ∧ ¬q'.Critical := by
  cases h with
  | lock hholder => exact .inr (.inl ⟨hholder, rfl⟩)
  | unlock => exact .inr (.inr ⟨trivial, id⟩)
  | full | roomy | evict | evictNone | unregister | push | count =>
    exact .inl ⟨rfl, fun _ => trivial⟩
  | _ => exact .inl ⟨rfl, False.elim⟩

/-- The queue grows only if there is room, and there is room only if it is short enough. -/
theorem ConveyStep.length_cases {r : Role} (h : ConveyStep E i s r q e q' s') :
    s'.orderQueue.length ≤ s.orderQueue.length ∧ (q'.HasRoom → q.HasRoom ∨
        s'.orderQueue.length < s.orderQueue.length ∨ s'.orderQueue.length < orderQueueCapacity) ∨
      q.HasRoom ∧ s'.orderQueue.length = s.orderQueue.length + 1 ∧ ¬q'.HasRoom := by
  cases h with
  | push => exact .inr ⟨trivial, List.length_append, id⟩
  | roomy hlt => exact .inl ⟨Nat.le_refl _, fun _ => .inr (.inr hlt)⟩
  | evict hqueue =>
    rw [hqueue]
    exact .inl ⟨Nat.le_succ _, fun _ => .inr (.inl (Nat.lt_succ_self _))⟩
  | evictNone => exact .inl ⟨Nat.zero_le _, fun _ => .inr (.inr (Nat.zero_lt_succ 31))⟩
  | unregister => exact .inl ⟨Nat.le_refl _, fun _ => .inl trivial⟩
  | remove => exact .inl ⟨List.length_filter_le .., False.elim⟩
  | consume _ hqueue =>
    rw [hqueue]
    exact .inl ⟨Nat.le_succ _, False.elim⟩
  | drain => exact .inl ⟨Nat.zero_le _, False.elim⟩
  | _ => exact .inl ⟨Nat.le_refl _, False.elim⟩

theorem Guarded.step {r : Role} (h : Guarded s phase)
    (hstep : ConveyStep E i s r (phase i) e q s') : Guarded s' (Function.update phase i q) := by
  have hroom := hstep.length_cases
  have hle := h.length_le
  refine ⟨(Function.forall_update_iff phase fun j q => q.Critical → _).mpr ?_, ?_,
    (Function.forall_update_iff phase fun _ q => q.HasRoom → _).mpr ⟨fun hq => ?_, fun j hj hq => ?_⟩⟩
  · rcases hstep.holder_cases with ⟨hsame, hcritical⟩ | ⟨hnone, hsome⟩ | ⟨hcritical, hnot⟩
    · rw [hsame]
      exact ⟨fun hq => h.exclusive i (hcritical hq), fun j _ => h.exclusive j⟩
    · refine ⟨fun _ => hsome, fun j _ hj => ?_⟩
      cases hnone.symm.trans (h.exclusive j hj)
    · refine ⟨fun hq => absurd hq hnot, fun j hne hj => absurd ?_ hne⟩
      exact Option.some.inj ((h.exclusive j hj).symm.trans (h.exclusive i hcritical))
  · rcases hroom with ⟨hlen, -⟩ | ⟨hq, hlen, -⟩
    · exact hlen.trans hle
    · have := h.room i hq
      omega
  · rcases hroom with ⟨hlen, hcases⟩ | ⟨-, -, hnot⟩
    · rcases hcases hq with hq | hlt | hlt
      · exact hlen.trans_lt (h.room i hq)
      · exact hlt.trans_le hle
      · exact hlt
    · exact absurd hq hnot
  · rcases hroom with ⟨hlen, -⟩ | ⟨hi, -, -⟩
    · exact hlen.trans_lt (h.room j hq)
    · -- two processes have not both the lock
      have := (h.exclusive i hi.critical).symm.trans (h.exclusive j hq.critical)
      exact absurd (Option.some.inj this).symm hj

/-! ## The places of an order -/

/-- Where the identifier of an order is. -/
inductive Place (ι : Type)
  | unsent
  | queued
  /-- With a porter that is to spawn a task. -/
  | held (i : ι)
  | spawned
  /-- With a worker that is to carry it out. -/
  | working (i : ι)
  | processed
  | evicted
  deriving DecidableEq

/-- The order is at a place. -/
def Lies (s : ConveyState ι) (phase : ι → ConveyPhase) : Place ι → Package → Prop
  | .queued, pkg => pkg ∈ s.orderQueue
  | .held i, pkg => phase i = .holding pkg
  | .spawned, pkg => pkg ∈ s.spawned.map Prod.snd
  | .working i, pkg => phase i = .working pkg
  | _, _ => False

/-- A porter or a worker has an order. -/
def ConveyPhase.Carrying : ConveyPhase → Prop
  | holding _ | working _ => True
  | _ => False

/-- A handler has not put its order on the queue. -/
def ConveyPhase.Unsent : ConveyPhase → Prop
  | start | registered | locked | full | evicting _ | roomy => True
  | _ => False

/-- The identifiers are where `place` says. -/
structure Placed (role : ι → Role) (place : Bytes → Place ι) (s : ConveyState ι)
    (phase : ι → ConveyPhase) (log : List (ConveyEvent ι)) : Prop where
  lies : ∀ p pkg, Lies s phase p pkg → (∃ i, role i = .handler pkg) ∧ place pkg.uniId = p
  queue_nodup : (s.orderQueue.map Package.uniId).Nodup
  spawned_nodup : ((s.spawned.map Prod.snd).map Package.uniId).Nodup
  unsent : ∀ i order, role i = .handler order → (phase i).Unsent → place order.uniId = .unsent
  processed : ∀ uniId, timesProcessed uniId log = if place uniId = .processed then 1 else 0
  evicted : ∀ pkg, Evicted pkg log → place pkg.uniId = .evicted

omit [DecidableEq ι] in
theorem timesProcessed_cons (uniId : Bytes) (i : ι) (s : ConveyState ι) :
    timesProcessed uniId (⟨i, s, e⟩ :: log) =
      timesProcessed uniId log + if isProcessing uniId e then 1 else 0 := by
  rw [timesProcessed, List.countP_cons, timesProcessed]

omit [DecidableEq ι] in
theorem evicted_cons {pkg : Package} :
    Evicted pkg (⟨i, s, e⟩ :: log) ↔ evictedBy e = some pkg ∨ Evicted pkg log := by
  simp [Evicted]

/-- Where an order is after a step. -/
theorem Lies.cases {p : Place ι} {pkg : Package} (h : Lies s' (Function.update phase i q) p pkg) :
    p = .queued ∧ pkg ∈ s'.orderQueue ∨ p = .spawned ∧ pkg ∈ s'.spawned.map Prod.snd ∨
      p = .held i ∧ q = .holding pkg ∨ p = .working i ∧ q = .working pkg ∨
      Lies s phase p pkg ∧ p ≠ .queued ∧ p ≠ .spawned ∧ p ≠ .held i ∧ p ≠ .working i := by
  cases p with
  | queued => exact .inl ⟨rfl, h⟩
  | spawned => exact .inr (.inl ⟨rfl, h⟩)
  | held j =>
    by_cases hj : j = i
    · subst hj
      exact .inr (.inr (.inl ⟨rfl, (Function.update_self ..).symm.trans h⟩))
    · refine .inr (.inr (.inr (.inr ⟨(Function.update_of_ne hj ..).symm.trans h, ?_⟩)))
      simp [hj]
  | working j =>
    by_cases hj : j = i
    · subst hj
      exact .inr (.inr (.inr (.inl ⟨rfl, (Function.update_self ..).symm.trans h⟩)))
    · refine .inr (.inr (.inr (.inr ⟨(Function.update_of_ne hj ..).symm.trans h, ?_⟩)))
      simp [hj]
  | unsent | processed | evicted => exact h.elim

namespace Placed

variable {place : Bytes → Place ι}

/-- A step that leaves the orders where they are, or removes some. -/
theorem frame (h : Placed role place s phase log)
    (hqueue : s'.orderQueue.Sublist s.orderQueue) (hspawned : s'.spawned = s.spawned)
    (hq : ¬q.Carrying) (hunsent : q.Unsent → (phase i).Unsent)
    (hprocess : ∀ uniId, isProcessing uniId e = false) (hevict : evictedBy e = none) :
    Placed role place s' (Function.update phase i q) (⟨i, s, e⟩ :: log) where
  lies p pkg hlies := by
    refine h.lies p pkg ?_
    rcases hlies.cases with ⟨rfl, hmem⟩ | ⟨rfl, hmem⟩ | ⟨-, rfl⟩ | ⟨-, rfl⟩ | ⟨hlies, -⟩
    · exact hqueue.subset hmem
    · rw [hspawned] at hmem
      exact hmem
    · exact absurd trivial hq
    · exact absurd trivial hq
    · exact hlies
  queue_nodup := h.queue_nodup.sublist (hqueue.map _)
  spawned_nodup := hspawned ▸ h.spawned_nodup
  unsent := (Function.forall_update_iff phase fun j q => ∀ order, role j = .handler order →
    q.Unsent → place order.uniId = .unsent).mpr
      ⟨fun order hrole hq => h.unsent i order hrole (hunsent hq), fun j _ => h.unsent j⟩
  processed uniId := by
    rw [timesProcessed_cons, hprocess, h.processed]
    rfl
  evicted pkg hevicted := by
    rw [evicted_cons, hevict] at hevicted
    exact h.evicted pkg (hevicted.resolve_left nofun)

/-- A step in which an order changes its place. -/
theorem move (h : Placed role place s phase log) {pkg : Package} {p p' : Place ι}
    (horder : ∃ i, role i = .handler pkg) (hplace : place pkg.uniId = p)
    (hp : p ≠ .processed ∧ p ≠ .evicted)
    (hlies : ∀ p₁ pkg₁, Lies s' (Function.update phase i q) p₁ pkg₁ →
      Lies s phase p₁ pkg₁ ∧ (p₁ = p → pkg₁.uniId ≠ pkg.uniId) ∨ p₁ = p' ∧ pkg₁ = pkg)
    (hqueue : (s'.orderQueue.map Package.uniId).Nodup)
    (hspawned : ((s'.spawned.map Prod.snd).map Package.uniId).Nodup)
    (hunsent : ∀ j order, role j = .handler order → (Function.update phase i q j).Unsent →
      (phase j).Unsent ∧ order.uniId ≠ pkg.uniId)
    (hprocess : ∀ uniId, isProcessing uniId e = (decide (uniId = pkg.uniId) && p' = .processed))
    (hevict : ∀ pkg₁, evictedBy e = some pkg₁ → pkg₁ = pkg ∧ p' = .evicted) :
    Placed role (Function.update place pkg.uniId p') s' (Function.update phase i q)
      (⟨i, s, e⟩ :: log) where
  lies p₁ pkg₁ h₁ := by
    rcases hlies p₁ pkg₁ h₁ with ⟨hbefore, hne⟩ | ⟨rfl, rfl⟩
    · obtain ⟨horder₁, hplace₁⟩ := h.lies p₁ pkg₁ hbefore
      refine ⟨horder₁, (Function.update_of_ne (fun heq => ?_) ..).trans hplace₁⟩
      exact hne (hplace₁.symm.trans (heq ▸ hplace)) heq
    · exact ⟨horder, Function.update_self ..⟩
  queue_nodup := hqueue
  spawned_nodup := hspawned
  unsent j order hrole hj := by
    obtain ⟨hbefore, hne⟩ := hunsent j order hrole hj
    exact (Function.update_of_ne hne ..).trans (h.unsent j order hrole hbefore)
  processed uniId := by
    rw [timesProcessed_cons, hprocess, h.processed]
    by_cases hid : uniId = pkg.uniId
    · subst hid
      rw [hplace, if_neg hp.1, Function.update_self]
      simp
    · rw [Function.update_of_ne hid]
      simp [hid]
  evicted pkg₁ hevicted := by
    rcases evicted_cons.mp hevicted with heq | hbefore
    · obtain ⟨rfl, rfl⟩ := hevict pkg₁ heq
      exact Function.update_self ..
    · have hplace₁ := h.evicted pkg₁ hbefore
      refine (Function.update_of_ne (fun heq => hp.2 ?_) ..).trans hplace₁
      exact hplace.symm.trans (heq ▸ hplace₁)

/-- An order that is somewhere has been put on the queue. -/
theorem not_unsent (h : Placed role place s phase log) {pkg order : Package} {p : Place ι} {j : ι}
    (hplace : place pkg.uniId = p) (hp : p ≠ .unsent) (hrole : role j = .handler order)
    (hj : (phase j).Unsent) : order.uniId ≠ pkg.uniId := fun heq =>
  hp (hplace.symm.trans (heq ▸ h.unsent j order hrole hj))

theorem push (h : Placed role place s phase log) (hfresh : FreshIds role) {order : Package}
    (hrole : role i = .handler order) (hi : phase i = .roomy) :
    Placed role (Function.update place order.uniId .queued)
      { s with orderQueue := s.orderQueue ++ [order] } (Function.update phase i .pushed)
      (⟨i, s, ⟨.pushBack order, .ok ()⟩⟩ :: log) := by
  have hplace : place order.uniId = .unsent := h.unsent i order hrole (hi ▸ trivial)
  refine h.move ⟨i, hrole⟩ hplace ⟨nofun, nofun⟩ (fun p₁ pkg₁ h₁ => ?_) ?_ h.spawned_nodup ?_
    (fun _ => by simp [isProcessing]) nofun
  · rcases h₁.cases with ⟨rfl, hmem⟩ | ⟨rfl, hmem⟩ | ⟨-, hq⟩ | ⟨-, hq⟩ | ⟨hlies, -⟩
    · rcases List.mem_append.mp hmem with hmem | hmem
      · exact .inl ⟨hmem, nofun⟩
      · exact .inr ⟨rfl, List.mem_singleton.mp hmem⟩
    · exact .inl ⟨hmem, nofun⟩
    · cases hq
    · cases hq
    · refine .inl ⟨hlies, ?_⟩
      rintro rfl
      exact hlies.elim
  · rw [List.map_append, List.map_cons, List.map_nil, ← List.concat_eq_append]
    refine h.queue_nodup.concat fun hmem => ?_
    obtain ⟨pkg, hpkg, hid⟩ := List.mem_map.mp hmem
    have := (h.lies .queued pkg hpkg).2
    rw [hid, hplace] at this
    cases this
  · refine (Function.forall_update_iff phase fun j q => ∀ order', role j = .handler order' →
      q.Unsent → (phase j).Unsent ∧ order'.uniId ≠ order.uniId).mpr ⟨nofun, ?_⟩
    exact fun j hj order' hrole' hq => ⟨hq, fun hid => hj (hfresh j i _ _ hrole' hrole hid)⟩

/-- A step in which an order that was on the queue changes its place. -/
theorem move_on (h : Placed role place s phase log) {pkg : Package} {p p' : Place ι}
    (hpkg : Lies s phase p pkg)
    (hlies : ∀ p₁ pkg₁, Lies s' (Function.update phase i q) p₁ pkg₁ →
      Lies s phase p₁ pkg₁ ∧ (p₁ = p → pkg₁.uniId ≠ pkg.uniId) ∨ p₁ = p' ∧ pkg₁ = pkg)
    (hqueue : (s'.orderQueue.map Package.uniId).Nodup)
    (hspawned : ((s'.spawned.map Prod.snd).map Package.uniId).Nodup)
    (hunsent : q.Unsent → (phase i).Unsent)
    (hprocess : ∀ uniId, isProcessing uniId e = (decide (uniId = pkg.uniId) && p' = .processed))
    (hevict : ∀ pkg₁, evictedBy e = some pkg₁ → pkg₁ = pkg ∧ p' = .evicted) :
    Placed role (Function.update place pkg.uniId p') s' (Function.update phase i q)
      (⟨i, s, e⟩ :: log) := by
  obtain ⟨horder, hplace⟩ := h.lies p pkg hpkg
  have hp : p ≠ .unsent ∧ p ≠ .processed ∧ p ≠ .evicted := by
    refine ⟨?_, ?_, ?_⟩ <;> rintro rfl <;> exact hpkg.elim
  refine h.move horder hplace hp.2 hlies hqueue hspawned ?_ hprocess hevict
  refine (Function.forall_update_iff phase fun j q => ∀ order, role j = .handler order →
    q.Unsent → (phase j).Unsent ∧ order.uniId ≠ pkg.uniId).mpr ⟨fun order hrole hq => ?_, ?_⟩
  · exact ⟨hunsent hq, h.not_unsent hplace hp.1 hrole (hunsent hq)⟩
  · exact fun j _ order hrole hj => ⟨hj, h.not_unsent hplace hp.1 hrole hj⟩

/-- The first order is taken from the queue. -/
theorem pop (h : Placed role place s phase log) {pkg : Package} {rest : List Package}
    (p' : Place ι) (hqueue : s.orderQueue = pkg :: rest)
    (hq : ∀ pkg₁, (q = .holding pkg₁ → p' = .held i ∧ pkg₁ = pkg) ∧ q ≠ .working pkg₁)
    (hunsent : q.Unsent → (phase i).Unsent) (hp' : p' ≠ .processed)
    (hprocess : ∀ uniId, isProcessing uniId e = false)
    (hevict : ∀ pkg₁, evictedBy e = some pkg₁ → pkg₁ = pkg ∧ p' = .evicted) :
    Placed role (Function.update place pkg.uniId p') { s with orderQueue := rest }
      (Function.update phase i q) (⟨i, s, e⟩ :: log) := by
  have hnodup := h.queue_nodup
  rw [hqueue, List.map_cons, List.nodup_cons] at hnodup
  have hmem {pkg₁ : Package} (h₁ : pkg₁ ∈ pkg :: rest) : Lies s phase .queued pkg₁ :=
    (congrArg (pkg₁ ∈ ·) hqueue).mpr h₁
  refine h.move_on (hmem List.mem_cons_self) (fun p₁ pkg₁ h₁ => ?_) hnodup.2 h.spawned_nodup hunsent
    (fun uniId => by simp [hprocess, hp']) hevict
  rcases h₁.cases with ⟨rfl, hmem₁⟩ | ⟨rfl, hmem₁⟩ | ⟨rfl, hhold⟩ | ⟨-, hwork⟩ | ⟨hlies, hp, -⟩
  · refine .inl ⟨hmem (List.mem_cons_of_mem _ hmem₁), fun _ hid => hnodup.1 ?_⟩
    exact hid ▸ List.mem_map_of_mem hmem₁
  · exact .inl ⟨hmem₁, nofun⟩
  · obtain ⟨rfl, rfl⟩ := (hq pkg₁).1 hhold
    exact .inr ⟨rfl, rfl⟩
  · exact absurd hwork (hq pkg₁).2
  · exact .inl ⟨hlies, fun heq => absurd heq hp⟩

theorem spawn (h : Placed role place s phase log) {pkg : Package} {tasks : ι → ℕ}
    (hi : phase i = .holding pkg) :
    Placed role (Function.update place pkg.uniId .spawned)
      { s with spawned := s.spawned ++ [(i, pkg)], tasks } (Function.update phase i .running)
      (⟨i, s, ⟨.spawn pkg, .ok ()⟩⟩ :: log) := by
  have hpkg : Lies s phase (.held i) pkg := hi
  refine h.move_on hpkg (fun p₁ pkg₁ h₁ => ?_) h.queue_nodup ?_ nofun
    (fun _ => by simp [isProcessing]) nofun
  · rcases h₁.cases with ⟨rfl, hmem₁⟩ | ⟨rfl, hmem₁⟩ | ⟨-, hq⟩ | ⟨-, hq⟩ | ⟨hlies, -, -, hp, -⟩
    · exact .inl ⟨hmem₁, nofun⟩
    · rw [List.map_append, List.mem_append] at hmem₁
      rcases hmem₁ with hmem₁ | hmem₁
      · exact .inl ⟨hmem₁, nofun⟩
      · exact .inr ⟨rfl, List.mem_singleton.mp hmem₁⟩
    · cases hq
    · cases hq
    · exact .inl ⟨hlies, fun heq => absurd heq hp⟩
  · rw [List.map_append, List.map_append, List.map_cons, List.map_nil, List.map_cons, List.map_nil,
      ← List.concat_eq_append]
    refine h.spawned_nodup.concat fun hmem => ?_
    obtain ⟨pkg₁, hpkg₁, hid⟩ := List.mem_map.mp hmem
    have := (h.lies .spawned pkg₁ hpkg₁).2
    rw [hid, (h.lies _ pkg hpkg).2] at this
    cases this

theorem takeTask (h : Placed role place s phase log) {pkg : Package} {porter : ι}
    {before after : List (ι × Package)} (hspawned : s.spawned = before ++ (porter, pkg) :: after) :
    Placed role (Function.update place pkg.uniId (.working i)) { s with spawned := before ++ after }
      (Function.update phase i (.working pkg))
      (⟨i, s, ⟨.takeTask, .ok (porter, pkg)⟩⟩ :: log) := by
  have hnodup := h.spawned_nodup
  have hperm : (before ++ (porter, pkg) :: after).Perm ((porter, pkg) :: (before ++ after)) :=
    List.perm_middle
  rw [hspawned, ((hperm.map Prod.snd).map Package.uniId).nodup_iff, List.map_cons, List.map_cons,
    List.nodup_cons] at hnodup
  have hmem {pkg₁ : Package} (h₁ : pkg₁ ∈ pkg :: (before ++ after).map Prod.snd) :
      Lies s phase .spawned pkg₁ := by
    refine (congrArg (fun spawned => pkg₁ ∈ spawned.map Prod.snd) hspawned).mpr ?_
    exact (hperm.map Prod.snd).symm.subset h₁
  refine h.move_on (hmem List.mem_cons_self) (fun p₁ pkg₁ h₁ => ?_) h.queue_nodup hnodup.2 nofun
    (fun _ => by simp [isProcessing]) nofun
  rcases h₁.cases with ⟨rfl, hmem₁⟩ | ⟨rfl, hmem₁⟩ | ⟨-, hq⟩ | ⟨rfl, hq⟩ | ⟨hlies, -, hp, -⟩
  · exact .inl ⟨hmem₁, nofun⟩
  · refine .inl ⟨hmem (List.mem_cons_of_mem _ hmem₁), fun _ hid => hnodup.1 ?_⟩
    exact hid ▸ List.mem_map_of_mem hmem₁
  · cases hq
  · cases hq
    exact .inr ⟨rfl, rfl⟩
  · exact .inl ⟨hlies, fun heq => absurd heq hp⟩

theorem process (h : Placed role place s phase log) {pkg resPkg : Package}
    (hi : phase i = .working pkg) :
    Placed role (Function.update place pkg.uniId .processed) s
      (Function.update phase i (.responding pkg resPkg))
      (⟨i, s, ⟨.process pkg, .ok resPkg⟩⟩ :: log) := by
  refine h.move_on (p := .working i) hi (fun p₁ pkg₁ h₁ => ?_) h.queue_nodup h.spawned_nodup nofun
    (fun uniId => by simp [isProcessing, eq_comm]) nofun
  rcases h₁.cases with ⟨rfl, hmem₁⟩ | ⟨rfl, hmem₁⟩ | ⟨-, hq⟩ | ⟨-, hq⟩ | ⟨hlies, -, -, -, hp⟩
  · exact .inl ⟨hmem₁, nofun⟩
  · exact .inl ⟨hmem₁, nofun⟩
  · cases hq
  · cases hq
  · exact .inl ⟨hlies, fun heq => absurd heq hp⟩

/-- After a step the identifiers are somewhere again. -/
theorem step (h : Placed role place s phase log) (hfresh : FreshIds role)
    (hstep : ConveyStep E i s (role i) (phase i) e q s') :
    ∃ place', Placed role place' s' (Function.update phase i q) (⟨i, s, e⟩ :: log) := by
  generalize hrole : role i = r at hstep
  generalize hi : phase i = q₀ at hstep
  have hframe (hqueue : s'.orderQueue.Sublist s.orderQueue) (hspawned : s'.spawned = s.spawned)
      (hq : ¬q.Carrying) (hunsent : q.Unsent → q₀.Unsent)
      (hprocess : ∀ uniId, isProcessing uniId e = false) (hevict : evictedBy e = none) :
      ∃ place', Placed role place' s' (Function.update phase i q) (⟨i, s, e⟩ :: log) :=
    ⟨place, h.frame hqueue hspawned hq (hi ▸ hunsent) hprocess hevict⟩
  cases hstep with
  | push => exact ⟨_, h.push hfresh hrole hi⟩
  | evict hqueue =>
    exact ⟨_, h.pop .evicted hqueue (fun _ => ⟨nofun, nofun⟩) (fun _ => hi ▸ trivial) nofun
      (fun _ => rfl) fun pkg₁ he => by cases he; exact ⟨rfl, rfl⟩⟩
  | consume _ hqueue =>
    exact ⟨_, h.pop (.held i) hqueue
      (fun _ => ⟨fun hq => by cases hq; exact ⟨rfl, rfl⟩, nofun⟩) nofun nofun (fun _ => rfl) nofun⟩
  | spawn => exact ⟨_, h.spawn hi⟩
  | takeTask hspawned => exact ⟨_, h.takeTask hspawned⟩
  | process => exact ⟨_, h.process hi⟩
  | remove => exact hframe List.filter_sublist rfl id False.elim (fun _ => rfl) rfl
  | evictNone => exact hframe (List.nil_sublist _) rfl id (fun _ => trivial) (fun _ => rfl) rfl
  | drain => exact hframe (List.nil_sublist _) rfl id False.elim (fun _ => rfl) rfl
  | register | lock | full | roomy | unregister | instant =>
    exact hframe (List.Sublist.refl _) rfl id (fun _ => trivial) (fun _ => rfl) rfl
  | _ => exact hframe (List.Sublist.refl _) rfl id False.elim (fun _ => rfl) rfl

end Placed

/-! ## The waiters -/

/-- Who waits for what, and what was sent and received. -/
structure Registered (E : Engine) (role : ι → Role) (s : ConveyState ι) (phase : ι → ConveyPhase)
    (log : List (ConveyEvent ι)) : Prop where
  waiters : ∀ entry ∈ s.waiters.rows, ∃ order, role entry.sender = .handler order ∧
    order.uniId = entry.uniId
  responding : ∀ i pkg resPkg, phase i = .responding pkg resPkg →
    (∃ j, role j = .handler pkg) ∧ ComputedFrom E pkg resPkg log
  channel : ∀ i pkg, s.channel i = .sent pkg → ∃ order, role i = .handler order ∧
    ComputedFrom E order pkg log
  received : ∀ i pkg, Received i pkg log → ∃ order, role i = .handler order ∧
    ComputedFrom E order pkg log
  once : ∀ i, timesReceived i log ≤ if phase i = .done then 1 else 0
  evicted : ∀ pkg, Evicted pkg log → s.waiters.find? pkg.uniId = none ∨
    ∃ i, phase i = .evicting pkg

/-- No answer is to be sent and no waiter to be removed. -/
def ConveyPhase.Settled : ConveyPhase → Prop
  | evicting _ | responding .. => False
  | _ => True

def ConveyPhase.Done : ConveyPhase → Prop
  | done => True
  | _ => False

theorem ConveyPhase.Done.eq (h : q.Done) : q = .done := by
  cases q with
  | done => rfl
  | _ => exact h.elim

omit [DecidableEq ι] in
theorem ComputedFrom.cons {order pkg : Package} (h : ComputedFrom E order pkg log)
    (e : ConveyEvent ι) : ComputedFrom E order pkg (e :: log) := by
  obtain ⟨hanswers, e', he', hcall⟩ := h
  exact ⟨hanswers, e', List.mem_cons_of_mem _ he', hcall⟩

theorem timesReceived_cons (j i : ι) (s : ConveyState ι) :
    timesReceived j (⟨i, s, e⟩ :: log) =
      timesReceived j log + if i = j ∧ isReceipt e then 1 else 0 := by
  rw [timesReceived, List.countP_cons, timesReceived]
  simp

omit [DecidableEq ι] in
theorem received_cons {j : ι} {pkg : Package} :
    Received j pkg (⟨i, s, e⟩ :: log) ↔
      i = j ∧ e = ⟨.awaitResponse, .ok (.package pkg)⟩ ∨ Received j pkg log := by
  simp [Received]

namespace Registered

/-- What a step has to be like. -/
theorem of_step (h : Registered E role s phase log)
    (hwaiters : ∀ entry ∈ s'.waiters.rows, entry ∈ s.waiters.rows ∨
      ∃ order, role entry.sender = .handler order ∧ order.uniId = entry.uniId)
    (hresponding : ∀ pkg resPkg, q = .responding pkg resPkg →
      (∃ j, role j = .handler pkg) ∧ ComputedFrom E pkg resPkg (⟨i, s, e⟩ :: log))
    (hchannel : ∀ j pkg, s'.channel j = .sent pkg → s.channel j = .sent pkg ∨
      ∃ order, role j = .handler order ∧ ComputedFrom E order pkg log)
    (hdone : phase i = .done → q = .done)
    (hreceipt : isReceipt e → phase i ≠ .done ∧ q = .done ∧
      ∀ pkg, e = ⟨.awaitResponse, .ok (.package pkg)⟩ → s.channel i = .sent pkg)
    (hevict : ∀ pkg, evictedBy e = some pkg → q = .evicting pkg)
    (hsettle : ∀ pkg, phase i = .evicting pkg → s'.waiters.find? pkg.uniId = none)
    (hnone : ∀ pkg, Evicted pkg log → s.waiters.find? pkg.uniId = none →
      s'.waiters.find? pkg.uniId = none) :
    Registered E role s' (Function.update phase i q) (⟨i, s, e⟩ :: log) where
  waiters entry hentry := (hwaiters entry hentry).elim (h.waiters entry) id
  responding j pkg resPkg hj := by
    by_cases hji : j = i
    · subst hji
      exact hresponding pkg resPkg ((Function.update_self ..).symm.trans hj)
    · obtain ⟨horder, hcomputed⟩ := h.responding j pkg resPkg
        ((Function.update_of_ne hji ..).symm.trans hj)
      exact ⟨horder, hcomputed.cons _⟩
  channel j pkg hj := by
    obtain ⟨order, hrole, hcomputed⟩ := (hchannel j pkg hj).elim (h.channel j pkg) id
    exact ⟨order, hrole, hcomputed.cons _⟩
  received j pkg hj := by
    have hbefore : ∃ order, role j = .handler order ∧ ComputedFrom E order pkg log := by
      rcases received_cons.mp hj with ⟨rfl, rfl⟩ | hj
      · exact h.channel _ _ ((hreceipt rfl).2.2 pkg rfl)
      · exact h.received j pkg hj
    obtain ⟨order, hrole, hcomputed⟩ := hbefore
    exact ⟨order, hrole, hcomputed.cons _⟩
  once j := by
    have hbefore := h.once j
    rw [timesReceived_cons]
    by_cases hj : j = i
    · subst hj
      rw [Function.update_self]
      cases hr : isReceipt e with
      | true =>
        obtain ⟨hnot, rfl, -⟩ := hreceipt hr
        rw [if_neg hnot] at hbefore
        simpa using hbefore
      | false =>
        simp only [Bool.false_eq_true, and_false, if_false, Nat.add_zero]
        split at hbefore
        · next hq => rwa [if_pos (hdone hq)]
        · exact hbefore.trans (Nat.zero_le _)
    · rw [Function.update_of_ne hj, if_neg fun h => hj h.1.symm]
      exact hbefore
  evicted pkg hpkg := by
    rcases evicted_cons.mp hpkg with heq | hpkg
    · exact .inr ⟨i, (Function.update_self ..).trans (hevict pkg heq)⟩
    · rcases h.evicted pkg hpkg with hbefore | ⟨j, hj⟩
      · exact .inl (hnone pkg hpkg hbefore)
      · by_cases hji : j = i
        · exact .inl (hsettle pkg (hji ▸ hj))
        · exact .inr ⟨j, (Function.update_of_ne hji ..).trans hj⟩

/-- A step that only removes waiters and closes channels. -/
theorem frame (h : Registered E role s phase log)
    (hwaiters : ∀ entry ∈ s'.waiters.rows, entry ∈ s.waiters.rows)
    (hchannel : ∀ j pkg, s'.channel j = .sent pkg → s.channel j = .sent pkg)
    (hi : (phase i).Settled) (hq : q.Settled) (hdone : (phase i).Done → q.Done)
    (hreceipt : isReceipt e = false) (hevict : evictedBy e = none) :
    Registered E role s' (Function.update phase i q) (⟨i, s, e⟩ :: log) := by
  refine h.of_step (fun entry hentry => .inl (hwaiters entry hentry)) ?_
    (fun j pkg hj => .inl (hchannel j pkg hj)) (fun hi => ?_) (fun hr => ?_) (fun pkg heq => ?_)
    (fun pkg heq => ?_) fun pkg _ hnone => ?_
  · rintro pkg resPkg rfl
    exact hq.elim
  · rw [hi] at hdone
    exact (hdone trivial).eq
  · rw [hreceipt] at hr
    cases hr
  · rw [hevict] at heq
    cases heq
  · rw [heq] at hi
    exact hi.elim
  · exact Table.find?_eq_none_iff.mpr fun entry hentry =>
      Table.find?_eq_none_iff.mp hnone entry (hwaiters entry hentry)

theorem register {place : Bytes → Place ι} (h : Registered E role s phase log)
    (hplaced : Placed role place s phase log) {order : Package} (hrole : role i = .handler order)
    (hi : phase i = .start) (hfind : s.waiters.find? order.uniId = none) :
    Registered E role { s with
        waiters := s.waiters.insert ⟨order.uniId, i, s.now⟩
        channel := Function.update s.channel i .empty }
      (Function.update phase i .registered)
      (⟨i, s, ⟨.registerWaiter order.uniId, .ok true⟩⟩ :: log) := by
  refine h.of_step (fun entry hentry => ?_) (fun _ _ => ConveyPhase.noConfusion)
    (fun j pkg hj => ?_) (nomatch hi.symm.trans ·) (absurd · Bool.false_ne_true) nofun
    (fun _ heq => nomatch hi.symm.trans heq) fun pkg hpkg hnone => ?_
  · rcases (Table.mem_insert hfind).mp hentry with hentry | rfl
    · exact .inl hentry
    · exact .inr ⟨order, hrole, rfl⟩
  · by_cases hji : j = i
    · subst hji
      cases (Function.update_self ..).symm.trans hj
    · exact .inl ((Function.update_of_ne hji ..).symm.trans hj)
  · -- the order is still to be put on the queue, so it has not been taken from there
    have hne : pkg.uniId ≠ order.uniId := fun heq => by
      have := hplaced.evicted pkg hpkg
      rw [heq, hplaced.unsent i order hrole (hi ▸ trivial)] at this
      cases this
    exact (Table.find?_insert hfind _).trans ((if_neg hne).trans hnone)

theorem evict (h : Registered E role s phase log) {dropped : Package} {rest : List Package}
    (hi : phase i = .full) :
    Registered E role { s with orderQueue := rest } (Function.update phase i (.evicting dropped))
      (⟨i, s, ⟨.popFront, .ok (some dropped)⟩⟩ :: log) := by
  refine h.of_step (fun _ => .inl) (fun _ _ => ConveyPhase.noConfusion) (fun _ _ => .inl)
    (nomatch hi.symm.trans ·) (absurd · Bool.false_ne_true) (fun pkg heq => ?_)
    (fun _ heq => nomatch hi.symm.trans heq) fun _ _ => id
  cases heq
  rfl

omit [DecidableEq ι] in
theorem mem_of_mem_erase {uniId : Bytes} :
    ∀ entry ∈ (s.waiters.erase uniId).rows, entry ∈ s.waiters.rows :=
  fun _ hentry => (Table.mem_erase.mp hentry).1

omit [DecidableEq ι] in
theorem find?_erase_eq_none {uniId uniId' : Bytes} (h : s.waiters.find? uniId' = none) :
    (s.waiters.erase uniId).find? uniId' = none := by
  rw [Table.find?_erase]
  split
  · rfl
  · exact h

theorem unregister (h : Registered E role s phase log) {dropped : Package}
    (hi : phase i = .evicting dropped) :
    Registered E role (s.unregisterWaiter dropped.uniId) (Function.update phase i .roomy)
      (⟨i, s, ⟨.unregisterWaiter dropped.uniId, .ok ()⟩⟩ :: log) := by
  refine h.of_step (fun entry hentry => .inl (mem_of_mem_erase entry hentry))
    (fun _ _ => ConveyPhase.noConfusion) (fun j pkg hj => ?_) (nomatch hi.symm.trans ·)
    (absurd · Bool.false_ne_true) nofun (fun pkg heq => ?_) fun _ _ => find?_erase_eq_none
  · exact .inl ((ConveyState.channel_settleWaiter hj).resolve_right nofun)
  · cases hi.symm.trans heq
    exact (Table.find?_erase ..).trans (if_pos rfl)

theorem receive (h : Registered E role s phase log) {pkg : Package}
    (hi : phase i = .awaiting) (hsent : s.channel i = .sent pkg) :
    Registered E role s (Function.update phase i .done)
      (⟨i, s, ⟨.awaitResponse, .ok (.package pkg)⟩⟩ :: log) := by
  refine h.of_step (fun _ => .inl) (fun _ _ => ConveyPhase.noConfusion) (fun _ _ => .inl)
    (fun _ => rfl) (fun _ => ⟨(nomatch hi.symm.trans ·), rfl, fun pkg' heq => ?_⟩) nofun
    (fun _ heq => nomatch hi.symm.trans heq) fun _ _ => id
  cases heq
  exact hsent

theorem process {place : Bytes → Place ι} (h : Registered E role s phase log)
    (hplaced : Placed role place s phase log) {pkg resPkg : Package} (hi : phase i = .working pkg)
    (hanswers : pkg.Answers E resPkg) :
    Registered E role s (Function.update phase i (.responding pkg resPkg))
      (⟨i, s, ⟨.process pkg, .ok resPkg⟩⟩ :: log) := by
  refine h.of_step (fun _ => .inl) ?_ (fun _ _ => .inl) (nomatch hi.symm.trans ·)
    (absurd · Bool.false_ne_true) nofun (fun _ heq => nomatch hi.symm.trans heq) fun _ _ => id
  rintro pkg resPkg ⟨rfl, rfl⟩
  exact ⟨(hplaced.lies (.working i) _ hi).1, hanswers, _, List.mem_cons_self, rfl⟩

theorem respond (h : Registered E role s phase log) (hfresh : FreshIds role)
    {pkg resPkg : Package} {a : Except ConveyError Unit} (hi : phase i = .responding pkg resPkg) :
    Registered E role (s.produceService resPkg).2 (Function.update phase i .done)
      (⟨i, s, ⟨.produceService resPkg, a⟩⟩ :: log) := by
  obtain ⟨⟨j, hj⟩, hcomputed⟩ := h.responding i pkg resPkg hi
  refine h.of_step (fun entry hentry => .inl (mem_of_mem_erase entry hentry))
    (fun _ _ => ConveyPhase.noConfusion) (fun k pkg' hk => ?_) (fun _ => rfl)
    (absurd · Bool.false_ne_true) nofun (fun _ heq => nomatch hi.symm.trans heq)
    fun _ _ => find?_erase_eq_none
  rcases ConveyState.channel_settleWaiter hk with hsent | ⟨heq, entry, hentry, rfl⟩
  · exact .inl hsent
  · -- the waiter was registered by the handler of the order
    obtain ⟨order, hrole, hid⟩ := h.waiters entry (Table.mem_of_find? hentry)
    have hkey : order.uniId = pkg.uniId :=
      hid.trans ((Table.key_of_find? hentry).trans hcomputed.1.uniId)
    cases hfresh _ _ _ _ hrole hj hkey
    cases heq
    exact .inr ⟨pkg, hj, hcomputed⟩

theorem step {place : Bytes → Place ι} (h : Registered E role s phase log)
    (hplaced : Placed role place s phase log) (hfresh : FreshIds role)
    (hstep : ConveyStep E i s (role i) (phase i) e q s') :
    Registered E role s' (Function.update phase i q) (⟨i, s, e⟩ :: log) := by
  generalize hrole : role i = r at hstep
  generalize hi : phase i = q₀ at hstep
  have hframe (hwaiters : ∀ entry ∈ s'.waiters.rows, entry ∈ s.waiters.rows)
      (hchannel : ∀ j pkg, s'.channel j = .sent pkg → s.channel j = .sent pkg) (hq₀ : q₀.Settled)
      (hq : q.Settled) (hdone : q₀.Done → q.Done) (hreceipt : isReceipt e = false)
      (hevict : evictedBy e = none) :
      Registered E role s' (Function.update phase i q) (⟨i, s, e⟩ :: log) :=
    h.frame hwaiters hchannel (hi ▸ hq₀) hq (hi ▸ hdone) hreceipt hevict
  cases hstep with
  | register hfind => exact h.register hplaced hrole hi hfind
  | evict => exact h.evict hi
  | unregister => exact h.unregister hi
  | receive hsent => exact h.receive hi hsent
  | process hanswers => exact h.process hplaced hi hanswers
  | respond => exact h.respond hfresh hi
  | @giveUp _ awaited hnot =>
    refine hframe (fun _ => id) (fun _ _ => id) trivial trivial False.elim ?_ rfl
    cases awaited with
    | package pkg => exact absurd rfl (hnot pkg)
    | closed => rfl
    | timeout => rfl
  | withdraw =>
    exact hframe mem_of_mem_erase
      (fun _ _ hj => (ConveyState.channel_settleWaiter hj).resolve_right nofun) trivial trivial
      False.elim rfl rfl
  | expire =>
    exact hframe (fun _ hentry => (List.mem_filter.mp hentry).1)
      (fun _ _ => ConveyState.channel_expireWaiters) trivial trivial False.elim rfl rfl
  | select hq =>
    refine hframe (fun _ => id) (fun _ _ => id) ?_ trivial ?_ rfl rfl
    · rcases hq with rfl | rfl <;> trivial
    · rcases hq with rfl | rfl <;> exact False.elim
  | refuse | finish =>
    exact hframe (fun _ => id) (fun _ _ => id) trivial trivial (fun _ => trivial) rfl rfl
  | _ => exact hframe (fun _ => id) (fun _ _ => id) trivial trivial False.elim rfl rfl

end Registered

/-! ## Runs -/

/-- What holds in every run. -/
structure Conveyed (E : Engine) (role : ι → Role) (s : ConveyState ι) (phase : ι → ConveyPhase)
    (log : List (ConveyEvent ι)) : Prop where
  guarded : Guarded s phase
  placed : ∃ place, Placed role place s phase log
  registered : Registered E role s phase log

namespace Conveyed

theorem env (h : Conveyed E role s phase log) (henv : s.Env s') : Conveyed E role s' phase log := by
  obtain ⟨⟨hexclusive, hle, hroom⟩, ⟨place, hlies, hqueue, hspawned, hunsent, hprocessed, hevicted⟩,
    hwaiters, hresponding, hchannel, hreceived, honce, hnone⟩ := h
  rcases henv with ⟨now, _, rfl⟩ | rfl
  · exact ⟨⟨hexclusive, hle, hroom⟩,
      ⟨place, hlies, hqueue, hspawned, hunsent, hprocessed, hevicted⟩,
      ⟨hwaiters, hresponding, hchannel, hreceived, honce, hnone⟩⟩
  · exact ⟨⟨hexclusive, hle, hroom⟩,
      ⟨place, hlies, hqueue, hspawned, hunsent, hprocessed, hevicted⟩,
      ⟨hwaiters, hresponding, hchannel, hreceived, honce, hnone⟩⟩

theorem step (h : Conveyed E role s phase log) (hfresh : FreshIds role)
    (hstep : ConveyStep E i s (role i) (phase i) e q s') :
    Conveyed E role s' (Function.update phase i q) (⟨i, s, e⟩ :: log) := by
  obtain ⟨place, hplaced⟩ := h.placed
  exact ⟨h.guarded.step hstep, hplaced.step hfresh hstep, h.registered.step hplaced hfresh hstep⟩

theorem start (now : ℕ) : Conveyed E role (.start now) (fun _ => .start) [] where
  guarded := ⟨fun _ => False.elim, Nat.zero_le _, fun _ => False.elim⟩
  placed := by
    refine ⟨fun _ => .unsent, fun p pkg hlies => ?_, List.nodup_nil, List.nodup_nil,
      fun _ _ _ _ => rfl, fun _ => rfl, fun _ ⟨_, he, _⟩ => absurd he List.not_mem_nil⟩
    cases p with
    | queued | spawned => exact absurd hlies List.not_mem_nil
    | held | working => cases hlies
    | unsent | processed | evicted => exact hlies.elim
  registered := ⟨List.forall_mem_nil _, fun _ _ _ => ConveyPhase.noConfusion,
    fun _ _ => Channel.noConfusion, fun _ _ ⟨_, he, _⟩ => absurd he List.not_mem_nil,
    fun _ => Nat.zero_le _, fun _ ⟨_, he, _⟩ => absurd he List.not_mem_nil⟩

end Conveyed

/-- In any run of handlers, porters, workers and cleaners, if the requests have different
    identifiers: the queue never has more orders than it may have; no order is carried out twice;
    a handler receives at most one answer, which has its identifier and was computed from its order;
    and an order that was taken from the full queue is never carried out, and nobody is registered
    to wait for it once it has been seen to. -/
theorem one_request_one_response {c : Conveyance ι} (hfresh : FreshIds role)
    (h : ConveyRun E role c) :
    c.state.orderQueue.length ≤ orderQueueCapacity ∧
    (∀ uniId, timesProcessed uniId c.log ≤ 1) ∧
    (∀ i, timesReceived i c.log ≤ 1) ∧
    (∀ i pkg, Received i pkg c.log → ∃ order, role i = .handler order ∧ pkg.uniId = order.uniId ∧
      ComputedFrom E order pkg c.log) ∧
    ∀ pkg, Evicted pkg c.log → timesProcessed pkg.uniId c.log = 0 ∧
      ((∀ i, c.phase i ≠ .evicting pkg) → c.state.waiters.find? pkg.uniId = none) := by
  have hc : Conveyed E role c.state c.phase c.log :=
    h.invariant .start (fun _ _ _ _ hc => hc.env) fun _ _ _ _ _ _ _ hc => hc.step hfresh
  obtain ⟨place, hplaced⟩ := hc.placed
  refine ⟨hc.guarded.length_le, fun uniId => ?_, fun i => ?_, fun i pkg hi => ?_, fun pkg hpkg => ?_⟩
  · rw [hplaced.processed]
    split <;> decide
  · refine (hc.registered.once i).trans ?_
    split <;> decide
  · obtain ⟨order, hrole, hcomputed⟩ := hc.registered.received i pkg hi
    exact ⟨order, hrole, hcomputed.1.uniId, hcomputed⟩
  · refine ⟨?_, fun hnot => ?_⟩
    · rw [hplaced.processed, hplaced.evicted pkg hpkg]
      rfl
    · exact (hc.registered.evicted pkg hpkg).resolve_right fun ⟨i, hi⟩ => hnot i hi

theorem freshIds_sampleRoles : FreshIds sampleRoles := by
  have horder : ∀ i order, sampleRoles i = .handler order →
      i = 0 ∧ order = writeOrder ∨ i = 1 ∧ order = readOrder
    | 0, _, rfl => .inl ⟨rfl, rfl⟩
    | 1, _, rfl => .inr ⟨rfl, rfl⟩
    | 2, _, h => nomatch h
    | 3, _, h => nomatch h
    | 4, _, h => nomatch h
  intro i j order order' hi hj heq
  rcases horder i order hi with ⟨rfl, rfl⟩ | ⟨rfl, rfl⟩ <;>
    rcases horder j order' hj with ⟨rfl, rfl⟩ | ⟨rfl, rfl⟩
  · rfl
  · exact absurd heq (by decide)
  · exact absurd heq (by decide)
  · rfl

/-- Two workers carry out the orders of two handlers; who ordered last has its answer first. -/
theorem one_request_one_response_answered :
    ∃ c : Conveyance (Fin 5), ConveyRun .plain sampleRoles c ∧
      Received 0 writeAnswer c.log ∧ Received 1 readAnswer c.log ∧
      timesReceived 0 c.log ≤ 1 ∧ timesReceived 1 c.log ≤ 1 ∧
      timesProcessed [1] c.log ≤ 1 ∧ timesProcessed [2] c.log ≤ 1 := by
  have h := sampleBegun.2
  have h := h.act 4 .takeTask (.ok (2, readOrder)) rfl ⟨[], _, [], rfl, rfl, rfl⟩
  have h := h.act 3 (.process writeOrder) (.ok writeAnswer) rfl
    ⟨⟨_, answers_writeAnswer, rfl⟩, rfl⟩
  have h := h.act 4 (.process readOrder) (.ok readAnswer) rfl ⟨⟨_, answers_readAnswer, rfl⟩, rfl⟩
  have h := h.act 4 (.produceService readAnswer) (.ok ()) rfl ⟨rfl, rfl⟩
  have h := h.act 1 .awaitResponse (.ok (.package readAnswer)) rfl ⟨rfl, .inl ⟨_, rfl, rfl⟩⟩
  have h := h.act 3 (.produceService writeAnswer) (.ok ()) rfl ⟨rfl, rfl⟩
  have h := h.act 0 .awaitResponse (.ok (.package writeAnswer)) rfl ⟨rfl, .inl ⟨_, rfl, rfl⟩⟩
  obtain ⟨-, hprocessed, hreceived, -⟩ := one_request_one_response freshIds_sampleRoles h
  exact ⟨_, h, ⟨_, List.mem_of_getElem? (i := 0) rfl, rfl, rfl⟩,
    ⟨_, List.mem_of_getElem? (i := 2) rfl, rfl, rfl⟩, hreceived 0, hreceived 1, hprocessed [1],
    hprocessed [2]⟩

end LiNaStore
