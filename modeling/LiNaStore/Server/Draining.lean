import LiNaStore.Server.Conveyer

/-!
# The porter and its tasks

A porter spawns a task for every order it takes from the queue, as long as it has fewer than it may
have, and joins tasks that are finished. Its tasks are those that have not begun, those a worker is
at, and those that are finished and not joined (`Staffed`). So no more tasks than the limit are
carried out at once (`porter_within_limit`); the semaphore of the porter, which has as many permits
as the limit, always has one for a new task.

Once it shuts down, a porter takes no more orders and ends when it has no tasks. All orders that it
has taken are then carried out and answered (`porter_drains`).
-/

namespace LiNaStore

open Program

variable {ι : Type}

/-! ## What is said of runs -/

/-- The order that a porter takes from the queue. -/
def consumedBy : ((p : ConveyPrim ι) × Except ConveyError p.Res) → Option Package
  | ⟨.consumeOrder, .ok order⟩ => order
  | _ => none

/-- The porter has taken the order from the queue. -/
def Consumed (porter : ι) (order : Package) (log : List (ConveyEvent ι)) : Prop :=
  ∃ e ∈ log, e.process = porter ∧ consumedBy e.call = some order

/-- A worker has carried out the order and sent the answer. -/
def Answered (order : Package) (log : List (ConveyEvent ι)) : Prop :=
  ∃ resPkg, (∃ e ∈ log, e.call = ⟨.process order, .ok resPkg⟩) ∧
    ∃ e ∈ log, ∃ a, e.call = ⟨.produceService resPkg, a⟩

/-- The workers that are at a task of the porter. -/
def atWork [DecidableEq ι] (porter : ι) : List (ConveyEvent ι) → List ι
  | [] => []
  | ⟨i, _, ⟨.takeTask, .ok task⟩⟩ :: log =>
    if task.1 = porter then i :: atWork porter log else atWork porter log
  | ⟨i, _, ⟨.finish porter', _⟩⟩ :: log =>
    if porter' = porter then (atWork porter log).erase i else atWork porter log
  | _ :: log => atWork porter log

/-- How often the porter has counted its tasks: as often as its loop has gone round. -/
def timesCounted [DecidableEq ι] (porter : ι) (log : List (ConveyEvent ι)) : ℕ :=
  log.countP fun e => e.process = porter ∧ e.call.1 matches .taskCount

/-! ## What porters and workers know -/

/-- What a porter knows of itself, and for whom a worker works. -/
structure Duty (ι : Type) where
  shuttingDown : Bool
  /-- The number of its tasks, if it has not changed since they were counted. -/
  counted : Option ℕ
  rounds : ℕ
  /-- The porter whose task a worker is at. -/
  porter : Option ι

def Duty.new : Duty ι := ⟨false, none, 0, none⟩

/-- What porters and workers do: a porter takes no order when it shuts down, and spawns a task only
    if it has counted room for it, and a worker ends the task it has begun. -/
def duty (role : Role) : Discipline ConveyError (ConveyPrim.Res (ι := ι)) (Duty ι) where
  allowed d p := match role, p with
    | .porter _ _, .consumeOrder => d.shuttingDown = false
    | .porter limit _, .spawn _ => ∃ n < limit, d.counted = some n
    | .worker, .takeTask => d.porter = none
    | .worker, .finish porter => d.porter = some porter
    | _, _ => True
  next d p a := match p, a with
    | .taskCount, .ok n => { d with counted := some n, rounds := d.rounds + 1 }
    | .spawn _, _ => { d with counted := none }
    | .select .., .ok selected => { d with
        shuttingDown := d.shuttingDown || selected = .shutdown
        counted := none }
    | .isShutdown, .ok isShutdown => { d with shuttingDown := d.shuttingDown || isShutdown }
    | .takeTask, .ok task => { d with porter := some task.1 }
    | .finish _, _ => { d with porter := none }
    | _, _ => d

/-- A porter ends when it shuts down and has counted no tasks, if its rounds are not used up. -/
def Role.Ends (role : Role) (r : Except ConveyError Unit) (d : Duty ι) : Prop :=
  match role with
  | .porter _ rounds => r = .ok () → d.rounds < rounds → d.shuttingDown = true ∧ d.counted = some 0
  | _ => True

theorem Role.ends_error (role : Role) (e : ConveyError) (d : Duty ι) : role.Ends (.error e) d := by
  cases role with
  | porter =>
    intro hok
    cases hok
  | _ => trivial

variable {limit rounds : ℕ}

theorem duty_awaitWork {n workers : ℕ} {shuttingDown : Bool} {d : Duty ι}
    {next : Bool → ConveyProg ι Unit} (hdown : d.shuttingDown = shuttingDown)
    (hcounted : d.counted = some workers) (hrounds : d.rounds + n = rounds)
    (hnext : ∀ b d', d'.shuttingDown = b → d'.rounds + n = rounds →
      (next b).Keeps (duty (.porter limit rounds)) (Role.Ends (.porter limit rounds)) d') :
    (awaitWork limit shuttingDown workers next).Keeps (duty (.porter limit rounds))
      (Role.Ends (.porter limit rounds)) d := by
  subst hdown
  rw [awaitWork]
  split
  · next hdone =>
    rw [Bool.and_eq_true, decide_eq_true_eq] at hdone
    exact .pure fun _ _ => ⟨hdone.1, hdone.2 ▸ hcounted⟩
  · refine .perform_bind trivial (fun _ => Role.ends_error ..) fun selected => ?_
    exact .perform_bind trivial (fun _ => Role.ends_error ..) fun isShutdown => hnext _ _ rfl hrounds

theorem duty_porterLoop (n : ℕ) {d : Duty ι} {shuttingDown : Bool}
    (hdown : d.shuttingDown = shuttingDown) (hrounds : d.rounds + n = rounds) :
    (porterLoop limit n shuttingDown : ConveyProg ι Unit).Keeps (duty (.porter limit rounds))
      (Role.Ends (.porter limit rounds)) d := by
  induction n generalizing d shuttingDown with
  | zero => exact .pure fun _ hlt => absurd hlt (by omega)
  | succ n ih =>
    have hround : d.rounds + 1 + n = rounds := by omega
    refine .perform_bind trivial (fun _ => Role.ends_error ..) fun workers => ?_
    split
    · next hroom =>
      rw [Bool.and_eq_true, Bool.not_eq_true', decide_eq_true_eq] at hroom
      refine .perform_bind (hdown.trans hroom.1) (fun _ => Role.ends_error ..) fun order => ?_
      cases order with
      | some pkg =>
        exact .perform_bind ⟨workers, hroom.2, rfl⟩ (fun _ => Role.ends_error ..) fun _ =>
          ih (hdown.trans hroom.1) hround
      | none => exact duty_awaitWork (hdown.trans hroom.1) rfl hround fun _ _ => ih
    · exact duty_awaitWork hdown rfl hround fun _ _ => ih

theorem duty_program (role : Role) :
    (role.program : ConveyProg ι Unit).Keeps (duty role) (Role.Ends role) .new := by
  cases role with
  | handler order => exact (Keeps.of_allowed (fun _ _ => trivial) _).mono fun _ _ _ => trivial
  | cleaner => exact (Keeps.of_allowed (fun _ _ => trivial) _).mono fun _ _ _ => trivial
  | worker =>
    refine .perform_bind rfl (fun _ => trivial) fun ⟨porter, pkg⟩ => ?_
    refine .perform_bind trivial (fun _ => trivial) fun resPkg => ?_
    exact .bind (.ignore (.perform trivial fun _ => .perform rfl fun _ => trivial))
  | porter limit rounds =>
    exact .perform_bind trivial (fun _ => Role.ends_error ..) fun _ =>
      duty_porterLoop rounds rfl (Nat.zero_add rounds)

/-! ## The tasks of a porter -/

variable [DecidableEq ι] {E : Engine} {role : ι → Role} {i j : ι} {s s' : ConveyState ι} {r : Role}
  {phase : ι → ConveyPhase} {q q' : ConveyPhase} {d : ι → Duty ι} {log : List (ConveyEvent ι)}
  {e : (p : ConveyPrim ι) × Except ConveyError p.Res}

/-- The tasks of a porter have not begun, or a worker is at them, or they are finished. -/
structure Staffed (role : ι → Role) (s : ConveyState ι) (d : ι → Duty ι)
    (log : List (ConveyEvent ι)) : Prop where
  counted : ∀ i n, (d i).counted = some n → s.tasks i = n
  le_limit : ∀ i limit rounds, role i = .porter limit rounds → s.tasks i ≤ limit
  tasks_eq : ∀ i, s.tasks i =
    s.spawned.countP (·.1 = i) + (atWork i log).length + s.finished i
  nodup : ∀ i, (atWork i log).Nodup
  mem_atWork : ∀ i j, j ∈ atWork i log ↔ (d j).porter = some i
  down : ∀ i, (d i).shuttingDown = true → s.shutdown = true
  rounds_eq : ∀ i, (d i).rounds = timesCounted i log

/-- The tasks do not change, nor does who is at them. -/
structure Duty.Still (e : (p : ConveyPrim ι) × Except ConveyError p.Res) (s s' : ConveyState ι) :
    Prop where
  tasks : s'.tasks = s.tasks
  spawned : s'.spawned = s.spawned
  finished : s'.finished = s.finished
  shutdown : s'.shutdown = s.shutdown
  atWork : ∀ (i : ι) log j, atWork j (⟨i, s, e⟩ :: log) = LiNaStore.atWork j log

namespace Staffed

theorem timesCounted_cons (j : ι) : timesCounted j (⟨i, s, e⟩ :: log) =
    timesCounted j log + if i = j ∧ (e.1 matches .taskCount) then 1 else 0 := by
  rw [timesCounted, List.countP_cons, timesCounted]
  simp

/-- A step after which the process knows `d'`. -/
theorem of_step (h : Staffed role s d log) {d' : Duty ι}
    (hcounted : ∀ n, d'.counted = some n → s'.tasks i = n)
    (htasks : ∀ j, j ≠ i → s'.tasks j = s.tasks j)
    (hlimit : ∀ limit rounds, role i = .porter limit rounds → s'.tasks i ≤ limit)
    (heq : ∀ j, s'.tasks j =
      s'.spawned.countP (·.1 = j) + (atWork j (⟨i, s, e⟩ :: log)).length + s'.finished j)
    (hnodup : ∀ j, (atWork j (⟨i, s, e⟩ :: log)).Nodup)
    (hself : ∀ j, i ∈ atWork j (⟨i, s, e⟩ :: log) ↔ d'.porter = some j)
    (hother : ∀ j k, k ≠ i → (k ∈ atWork j (⟨i, s, e⟩ :: log) ↔ k ∈ atWork j log))
    (hdown : d'.shuttingDown = true → s.shutdown = true) (hshutdown : s'.shutdown = s.shutdown)
    (hrounds : d'.rounds = (d i).rounds + if e.1 matches .taskCount then 1 else 0) :
    Staffed role s' (Function.update d i d') (⟨i, s, e⟩ :: log) where
  counted := by
    refine (Function.forall_update_iff d fun j dj => ∀ n, dj.counted = some n →
      s'.tasks j = n).mpr
      ⟨hcounted, fun j hj n hn => ?_⟩
    rw [htasks j hj]
    exact h.counted j n hn
  le_limit j limit rounds hrole := by
    by_cases hj : j = i
    · exact hj ▸ hlimit limit rounds (hj ▸ hrole)
    · rw [htasks j hj]
      exact h.le_limit j limit rounds hrole
  tasks_eq := heq
  nodup := hnodup
  mem_atWork j := (Function.forall_update_iff d fun k dk => k ∈ atWork j _ ↔ dk.porter = some j).mpr
    ⟨hself j, fun k hk => (hother j k hk).trans (h.mem_atWork j k)⟩
  down := by
    rw [hshutdown]
    exact (Function.forall_update_iff d fun _ dj => dj.shuttingDown = true → _).mpr
      ⟨hdown, fun j _ => h.down j⟩
  rounds_eq := by
    refine (Function.forall_update_iff d fun j dj => dj.rounds = timesCounted j _).mpr
      ⟨?_, fun j hj => ?_⟩
    · rw [timesCounted_cons, hrounds, h.rounds_eq i]
      simp
    · rw [timesCounted_cons, if_neg fun h => hj h.1.symm, h.rounds_eq j, Nat.add_zero]

/-- A step that leaves the tasks as they are. -/
theorem still (h : Staffed role s d log) {d' : Duty ι} (hstill : Duty.Still e s s')
    (hcounted : ∀ n, d'.counted = some n → s.tasks i = n) (hporter : d'.porter = (d i).porter)
    (hdown : d'.shuttingDown = true → s.shutdown = true)
    (hrounds : d'.rounds = (d i).rounds + if e.1 matches .taskCount then 1 else 0) :
    Staffed role s' (Function.update d i d') (⟨i, s, e⟩ :: log) := by
  refine h.of_step ?_ (fun _ _ => by rw [hstill.tasks]) ?_ (fun j => ?_) (fun j => ?_) (fun j => ?_)
    (fun j k _ => ?_) hdown hstill.shutdown hrounds
  · rwa [hstill.tasks]
  · rw [hstill.tasks]
    exact h.le_limit i
  · rw [hstill.tasks, hstill.spawned, hstill.finished, hstill.atWork]
    exact h.tasks_eq j
  · rw [hstill.atWork]
    exact h.nodup j
  · rw [hstill.atWork, hporter]
    exact h.mem_atWork j i
  · rw [hstill.atWork]

theorem spawn (h : Staffed role s d log) {pkg : Package} (hrole : role i = .porter limit rounds)
    (hallowed : (duty (role i)).allowed (d i) (.spawn pkg)) :
    Staffed role { s with
        spawned := s.spawned ++ [(i, pkg)]
        tasks := Function.update s.tasks i (s.tasks i + 1) }
      (Function.update d i { d i with counted := none }) (⟨i, s, ⟨.spawn pkg, .ok ()⟩⟩ :: log) := by
  rw [hrole] at hallowed
  obtain ⟨n, hlt, hcounted⟩ := hallowed
  refine h.of_step nofun (fun _ hj => Function.update_of_ne hj ..) (fun limit' rounds' hrole' => ?_)
    (fun j => ?_) h.nodup (fun j => h.mem_atWork j i) (fun _ _ _ => Iff.rfl) (h.down i) rfl rfl
  · cases hrole.symm.trans hrole'
    dsimp only
    rw [Function.update_self, h.counted i n hcounted]
    exact hlt
  · have htasks := h.tasks_eq j
    change Function.update s.tasks i (s.tasks i + 1) j =
      (s.spawned ++ [(i, pkg)]).countP (·.1 = j) + (atWork j log).length + s.finished j
    rw [List.countP_append, List.countP_singleton]
    by_cases hj : j = i
    · subst hj
      rw [Function.update_self, if_pos (decide_eq_true rfl)]
      omega
    · rw [Function.update_of_ne hj, if_neg (by simpa using Ne.symm hj)]
      omega

theorem takeTask (h : Staffed role s d log) {porter : ι} {pkg : Package}
    {before after : List (ι × Package)} (hspawned : s.spawned = before ++ (porter, pkg) :: after)
    (hfree : (d i).porter = none) :
    Staffed role { s with spawned := before ++ after }
      (Function.update d i { d i with porter := some porter })
      (⟨i, s, ⟨.takeTask, .ok (porter, pkg)⟩⟩ :: log) := by
  have hnot (j : ι) : i ∉ atWork j log := fun hmem => by
    cases hfree.symm.trans ((h.mem_atWork j i).mp hmem)
  have hwork (j : ι) : atWork j (⟨i, s, ⟨.takeTask, .ok (porter, pkg)⟩⟩ :: log) =
      if porter = j then i :: atWork j log else atWork j log := rfl
  refine h.of_step (h.counted i) (fun _ _ => rfl) (h.le_limit i) (fun j => ?_) (fun j => ?_)
    (fun j => ?_) (fun j k hk => ?_) (h.down i) rfl rfl
  · have htasks := h.tasks_eq j
    rw [hspawned, List.countP_append, List.countP_cons] at htasks
    dsimp only
    rw [hwork, List.countP_append]
    by_cases hj : porter = j
    · rw [if_pos (decide_eq_true hj)] at htasks
      rw [if_pos hj, List.length_cons]
      omega
    · rw [if_neg (by simpa using hj)] at htasks
      rw [if_neg hj]
      omega
  · rw [hwork]
    split
    · exact List.nodup_cons.mpr ⟨hnot j, h.nodup j⟩
    · exact h.nodup j
  · rw [hwork]
    split
    · next hj => exact iff_of_true List.mem_cons_self (by rw [hj])
    · next hj => exact iff_of_false (hnot j) fun heq => hj (Option.some.inj heq)
  · rw [hwork]
    split
    · rw [List.mem_cons, or_iff_right hk]
    · exact Iff.rfl

theorem finish (h : Staffed role s d log) {porter : ι} (hporter : (d i).porter = some porter) :
    Staffed role { s with finished := Function.update s.finished porter (s.finished porter + 1) }
      (Function.update d i { d i with porter := none })
      (⟨i, s, ⟨.finish porter, .ok ()⟩⟩ :: log) := by
  have hmem : i ∈ atWork porter log := (h.mem_atWork porter i).mpr hporter
  have hwork (j : ι) : atWork j (⟨i, s, ⟨.finish porter, .ok ()⟩⟩ :: log) =
      if porter = j then (atWork j log).erase i else atWork j log := rfl
  refine h.of_step (h.counted i) (fun _ _ => rfl) (h.le_limit i) (fun j => ?_) (fun j => ?_)
    (fun j => ?_) (fun j k hk => ?_) (h.down i) rfl rfl
  · have htasks := h.tasks_eq j
    dsimp only
    rw [hwork]
    by_cases hj : porter = j
    · subst hj
      have hlen := List.length_erase_of_mem hmem
      have hpos := List.length_pos_of_mem hmem
      rw [if_pos rfl, Function.update_self]
      omega
    · rw [if_neg hj, Function.update_of_ne (Ne.symm hj)]
      exact htasks
  · rw [hwork]
    split
    · exact (h.nodup j).erase i
    · exact h.nodup j
  · rw [hwork]
    refine iff_of_false ?_ (Option.some_ne_none j).symm
    split
    · exact (h.nodup j).not_mem_erase
    · next hj =>
      rw [h.mem_atWork, hporter]
      exact fun heq => hj (Option.some.inj heq)
  · rw [hwork]
    split
    · exact List.mem_erase_of_ne hk
    · exact Iff.rfl

theorem select (h : Staffed role s d log) {shutdown changed joined : Bool}
    {a : Except ConveyError Selected} (hact : s.Act E i (.select shutdown changed joined) a s') :
    Staffed role s'
      (Function.update d i ((duty (role i)).next (d i) (.select shutdown changed joined) a))
      (⟨i, s, ⟨.select shutdown changed joined, a⟩⟩ :: log) := by
  have hdown (selected : Selected) (hsel : selected = .shutdown → s.shutdown = true)
      (h' : ((d i).shuttingDown || decide (selected = .shutdown)) = true) : s.shutdown = true := by
    rw [Bool.or_eq_true, decide_eq_true_eq] at h'
    exact h'.elim (h.down i) hsel
  obtain ⟨_, hs, rfl, rfl⟩ | ⟨_, _, rfl, rfl⟩ | ⟨_, hpos, rfl, rfl⟩ := hact
  · exact h.still ⟨rfl, rfl, rfl, rfl, fun _ _ _ => rfl⟩ nofun rfl (hdown .shutdown fun _ => hs) rfl
  · exact h.still ⟨rfl, rfl, rfl, rfl, fun _ _ _ => rfl⟩ nofun rfl (hdown .changed nofun) rfl
  · refine h.of_step nofun (fun _ hj => Function.update_of_ne hj ..) (fun limit rounds hrole => ?_)
      (fun j => ?_) h.nodup (fun j => h.mem_atWork j i) (fun _ _ _ => Iff.rfl) (hdown .joined nofun)
      rfl rfl
    · have := h.le_limit i limit rounds hrole
      dsimp only
      rw [Function.update_self]
      omega
    · have htasks := h.tasks_eq j
      change Function.update s.tasks i (s.tasks i - 1) j = s.spawned.countP (·.1 = j) +
        (atWork j log).length + Function.update s.finished i (s.finished i - 1) j
      by_cases hj : j = i
      · subst hj
        rw [Function.update_self, Function.update_self]
        omega
      · rw [Function.update_of_ne hj, Function.update_of_ne hj]
        exact htasks

theorem step (h : Staffed role s d log) (hstep : ConveyStep E i s (role i) (phase i) e q s')
    (hact : s.Act E i e.1 e.2 s') (hallowed : (duty (role i)).allowed (d i) e.1) :
    Staffed role s' (Function.update d i ((duty (role i)).next (d i) e.1 e.2))
      (⟨i, s, e⟩ :: log) := by
  have hstill (hs : Duty.Still e s s') (hnext : (duty (role i)).next (d i) e.1 e.2 = d i)
      (hcount : (e.1 matches .taskCount) = false) :
      Staffed role s' (Function.update d i ((duty (role i)).next (d i) e.1 e.2))
        (⟨i, s, e⟩ :: log) := by
    rw [hnext]
    exact h.still hs (h.counted i) rfl (h.down i) (by rw [hcount]; rfl)
  generalize hrole : role i = r at hstep hallowed hstill ⊢
  generalize phase i = q₀ at hstep
  cases hstep with
  | taskCount =>
    exact h.still ⟨rfl, rfl, rfl, rfl, fun _ _ _ => rfl⟩ (fun _ => Option.some.inj) rfl (h.down i) rfl
  | isShutdown =>
    refine h.still ⟨rfl, rfl, rfl, rfl, fun _ _ _ => rfl⟩ (h.counted i) rfl (fun h' => ?_) rfl
    exact (Bool.or_eq_true _ _ ▸ h').elim (h.down i) id
  | spawn => exact h.spawn hrole (hrole ▸ hallowed)
  | takeTask hspawned => exact h.takeTask hspawned hallowed
  | finish => exact h.finish hallowed
  | select => exact hrole ▸ h.select hact
  | _ => exact hstill ⟨rfl, rfl, rfl, rfl, fun _ _ _ => rfl⟩ rfl rfl

end Staffed

/-! ## The orders of a porter -/

/-- A worker carries out the order, or has done so and is to send the answer. -/
def ConveyPhase.At (order : Package) : ConveyPhase → Prop
  | working pkg | responding pkg _ => pkg = order
  | _ => False

/-- An order that a porter has taken is with it, or spawned as a task of it, or a worker is at it
    for the porter, or it has been answered. -/
structure Tracked (s : ConveyState ι) (phase : ι → ConveyPhase) (d : ι → Duty ι)
    (log : List (ConveyEvent ι)) : Prop where
  holding : ∀ i order, phase i = .holding order → (d i).shuttingDown = false
  responding : ∀ i order resPkg, phase i = .responding order resPkg →
    ∃ e ∈ log, e.call = ⟨.process order, .ok resPkg⟩
  consumed : ∀ i order, Consumed i order log → phase i = .holding order ∨ (i, order) ∈ s.spawned ∨
    (∃ j, (d j).porter = some i ∧ (phase j).At order) ∨ Answered order log

omit [DecidableEq ι] in
theorem Answered.cons {order : Package} (h : Answered order log) (e : ConveyEvent ι) :
    Answered order (e :: log) := by
  obtain ⟨resPkg, ⟨e₁, he₁, hcall₁⟩, e₂, he₂, a, hcall₂⟩ := h
  exact ⟨resPkg, ⟨e₁, List.mem_cons_of_mem _ he₁, hcall₁⟩,
    e₂, List.mem_cons_of_mem _ he₂, a, hcall₂⟩

namespace ConveyStep

/-- What a porter holds it spawns. -/
theorem of_holding {order : Package} (h : ConveyStep E i s r (.holding order) e q s') :
    (i, order) ∈ s'.spawned := by
  cases h with
  | spawn => exact List.mem_append_right _ (List.mem_singleton_self _)
  | select hq => rcases hq with hq | hq <;> cases hq

/-- A task that was spawned stays until a worker takes it. -/
theorem mem_spawned {order : Package} (h : ConveyStep E i s r q e q' s')
    (hmem : (j, order) ∈ s.spawned) :
    (j, order) ∈ s'.spawned ∨ e = ⟨.takeTask, .ok (j, order)⟩ ∧ q' = .working order := by
  cases h with
  | spawn => exact .inl (List.mem_append_left _ hmem)
  | takeTask hspawned =>
    rw [hspawned, List.mem_append, List.mem_cons] at hmem
    rcases hmem with hmem | heq | hmem
    · exact .inl (List.mem_append_left _ hmem)
    · cases heq
      exact .inr ⟨rfl, rfl⟩
    · exact .inl (List.mem_append_right _ hmem)
  | _ => exact .inl hmem

/-- A worker carries out its order, and then sends the answer. -/
theorem of_at {order : Package} (h : ConveyStep E i s r q e q' s') (hq : q.At order) :
    (∃ resPkg, e = ⟨.process order, .ok resPkg⟩ ∧ q' = .responding order resPkg) ∨
      ∃ resPkg a, q = .responding order resPkg ∧ e = ⟨.produceService resPkg, a⟩ := by
  cases h with
  | process =>
    cases hq
    exact .inl ⟨_, rfl, rfl⟩
  | respond =>
    cases hq
    exact .inr ⟨_, _, rfl, rfl⟩
  | select hselect => rcases hselect with rfl | rfl <;> exact hq.elim
  | _ => exact hq.elim

/-- How an order comes to be with a porter, and an answer with a worker. -/
theorem hand_cases (h : ConveyStep E i s r q e q' s') :
    (consumedBy e = none ∨ (consumedBy e).map ConveyPhase.holding = some q') ∧
      (∀ order, q' = .holding order → (∃ limit rounds, r = .porter limit rounds) ∧
        e.1 = .consumeOrder) ∧
      ∀ order resPkg, q' = .responding order resPkg → e = ⟨.process order, .ok resPkg⟩ := by
  cases h with
  | consume => exact ⟨.inr rfl, fun _ _ => ⟨⟨_, _, rfl⟩, rfl⟩, fun _ _ => ConveyPhase.noConfusion⟩
  | process =>
    refine ⟨.inl rfl, fun _ => ConveyPhase.noConfusion, fun order resPkg heq => ?_⟩
    cases heq
    rfl
  | _ => exact ⟨.inl rfl, fun _ => ConveyPhase.noConfusion, fun _ _ => ConveyPhase.noConfusion⟩

end ConveyStep

theorem Tracked.step (h : Tracked s phase d log)
    (hstep : ConveyStep E i s (role i) (phase i) e q s')
    (hallowed : (duty (role i)).allowed (d i) e.1) :
    Tracked s' (Function.update phase i q)
      (Function.update d i ((duty (role i)).next (d i) e.1 e.2)) (⟨i, s, e⟩ :: log) := by
  obtain ⟨hhold, hholding, hresponding⟩ := hstep.hand_cases
  refine ⟨fun j order hj => ?_, fun j order resPkg hj => ?_, fun j order hj => ?_⟩
  · by_cases hji : j = i
    · subst hji
      rw [Function.update_self] at hj ⊢
      obtain ⟨⟨limit, rounds, hrole⟩, hcall⟩ := hholding order hj
      obtain ⟨p, a⟩ := e
      cases hcall
      rw [hrole] at hallowed
      exact hallowed
    · rw [Function.update_of_ne hji] at hj ⊢
      exact h.holding j order hj
  · by_cases hji : j = i
    · subst hji
      rw [Function.update_self] at hj
      exact ⟨_, List.mem_cons_self, hresponding order resPkg hj⟩
    · rw [Function.update_of_ne hji] at hj
      obtain ⟨e', he', hcall⟩ := h.responding j order resPkg hj
      exact ⟨e', List.mem_cons_of_mem _ he', hcall⟩
  · obtain ⟨e', he', hprocess, hcall⟩ := hj
    rcases List.mem_cons.mp he' with rfl | he'
    · cases hprocess
      rw [show consumedBy e = some order from hcall] at hhold
      exact .inl (by rw [Function.update_self]; exact (Option.some.inj (hhold.resolve_left nofun)).symm)
    · rcases h.consumed j order ⟨e', he', hprocess, hcall⟩ with hholds | hspawned | ⟨k, hk, hat⟩ | hans
      · by_cases hji : j = i
        · subst hji
          rw [hholds] at hstep
          exact .inr (.inl hstep.of_holding)
        · exact .inl (by rwa [Function.update_of_ne hji])
      · rcases hstep.mem_spawned hspawned with hspawned | ⟨rfl, rfl⟩
        · exact .inr (.inl hspawned)
        · exact .inr (.inr (.inl ⟨i, by rw [Function.update_self]; rfl,
            by rw [Function.update_self]; rfl⟩))
      · by_cases hki : k = i
        · subst hki
          rcases hstep.of_at hat with ⟨resPkg, rfl, rfl⟩ | ⟨resPkg, a, hphase, rfl⟩
          · exact .inr (.inr (.inl ⟨k, by rw [Function.update_self]; exact hk,
              by rw [Function.update_self]; rfl⟩))
          · obtain ⟨e₁, he₁, hcall₁⟩ := h.responding k order resPkg hphase
            exact .inr (.inr (.inr ⟨resPkg, ⟨e₁, List.mem_cons_of_mem _ he₁, hcall₁⟩,
              _, List.mem_cons_self, a, rfl⟩))
        · exact .inr (.inr (.inl ⟨k, by rwa [Function.update_of_ne hki],
            by rwa [Function.update_of_ne hki]⟩))
      · exact .inr (.inr (.inr (hans.cons _)))

/-! ## Runs -/

/-- In any run, each porter and worker knows what it should, and the orders are where they are. -/
theorem ConveyRun.staffed {c : Conveyance ι} (h : ConveyRun E role c) :
    ∃ d, (Staffed role c.state d c.log ∧ Tracked c.state c.phase d c.log) ∧
      ∀ i, (c.programs i).Keeps (duty (role i)) (role i).Ends (d i) := by
  refine h.invariant_alongside duty .new duty_program
    (I := fun s phase d log => Staffed role s d log ∧ Tracked s phase d log) (fun now => ?_)
    (fun s s' phase d log ⟨hstaffed, htracked⟩ henv => ?_)
    fun s phase d log i e q s' ⟨hstaffed, htracked⟩ hstep hact hallowed =>
      ⟨hstaffed.step hstep hact hallowed, htracked.step hstep hallowed⟩
  · refine ⟨⟨nofun, fun _ _ _ _ => Nat.zero_le _, fun _ => rfl, fun _ => List.nodup_nil,
      fun _ _ => iff_of_false List.not_mem_nil nofun, nofun, fun _ => rfl⟩,
      fun _ _ _ => rfl, fun _ _ _ => ConveyPhase.noConfusion,
      fun _ _ ⟨_, he, _⟩ => absurd he List.not_mem_nil⟩
  · obtain ⟨hcounted, hlimit, heq, hnodup, hmem, hdown, hrounds⟩ := hstaffed
    obtain ⟨hholding, hresponding, hconsumed⟩ := htracked
    rcases henv with ⟨now, _, rfl⟩ | rfl
    · exact ⟨⟨hcounted, hlimit, heq, hnodup, hmem, hdown, hrounds⟩,
        hholding, hresponding, hconsumed⟩
    · exact ⟨⟨hcounted, hlimit, heq, hnodup, hmem, fun _ _ => rfl, hrounds⟩,
        hholding, hresponding, hconsumed⟩

/-- In any run the tasks of a porter that workers are at, and those that are still to begin, are not
    more than its limit. -/
theorem porter_within_limit {c : Conveyance ι} (h : ConveyRun E role c)
    (hrole : role i = .porter limit rounds) :
    (atWork i c.log).length + c.state.spawned.countP (·.1 = i) ≤ limit := by
  obtain ⟨d, ⟨hstaffed, -⟩, -⟩ := h.staffed
  have hle := hstaffed.le_limit i limit rounds hrole
  have heq := hstaffed.tasks_eq i
  omega

/-- Two tasks are spawned, and one of them has begun. -/
theorem porter_within_limit_spawned :
    ∃ c : Conveyance (Fin 5), ConveyRun .plain sampleRoles c ∧
      c.state.spawned = [(2, readOrder)] ∧ atWork 2 c.log = [3] ∧
      (atWork 2 c.log).length + c.state.spawned.countP (·.1 = 2) ≤ 2 := by
  exact ⟨_, sampleBegun.2, rfl, rfl, porter_within_limit (i := 2) sampleBegun.2 rfl⟩

/-- A porter that has ended before its rounds were used up has been told to shut down, and every
    order that it took from the queue has been carried out and answered. -/
theorem porter_drains {c : Conveyance ι} (h : ConveyRun E role c)
    (hrole : role i = .porter limit rounds) (hends : c.programs i = .ret (.ok ()))
    (hrounds : timesCounted i c.log < rounds) :
    c.state.shutdown = true ∧ ∀ order, Consumed i order c.log → Answered order c.log := by
  obtain ⟨d, ⟨hstaffed, htracked⟩, hkeeps⟩ := h.staffed
  have hend := hkeeps i
  rw [hends, hrole] at hend
  obtain ⟨hdown, hcounted⟩ := hend rfl (hstaffed.rounds_eq i ▸ hrounds)
  refine ⟨hstaffed.down i hdown, fun order hconsumed => ?_⟩
  have hnone := (hstaffed.counted i 0 hcounted).symm.trans (hstaffed.tasks_eq i)
  rcases htracked.consumed i order hconsumed with hholds | hspawned | ⟨j, hj, -⟩ | hans
  · cases (htracked.holding i order hholds).symm.trans hdown
  · have hpos : 0 < c.state.spawned.countP (·.1 = i) :=
      List.countP_pos_iff.mpr ⟨_, hspawned, decide_eq_true rfl⟩
    omega
  · have := List.length_pos_of_mem ((hstaffed.mem_atWork i j).mpr hj)
    omega
  · exact hans

/-- The porter is told to shut down while one task has begun and the other has not. -/
theorem porter_drains_answered :
    ∃ c : Conveyance (Fin 5), ConveyRun .plain sampleRoles c ∧
      Consumed 2 writeOrder c.log ∧ Answered writeOrder c.log ∧
      Consumed 2 readOrder c.log ∧ Answered readOrder c.log := by
  have h := sampleBegun.2
  have h := h.env (.inr rfl)
  have h := h.act 2 .taskCount (.ok 2) rfl ⟨rfl, rfl⟩
  have h := h.act 2 (.select true false true) (.ok .shutdown) rfl (.inl ⟨rfl, rfl, rfl, rfl⟩)
  have h := h.act 2 .isShutdown (.ok true) rfl ⟨rfl, rfl⟩
  have h := h.act 2 .taskCount (.ok 2) rfl ⟨rfl, rfl⟩
  have h := h.act 3 (.process writeOrder) (.ok writeAnswer) rfl
    ⟨⟨_, answers_writeAnswer, rfl⟩, rfl⟩
  have h := h.act 3 (.produceService writeAnswer) (.ok ()) rfl ⟨rfl, rfl⟩
  have h := h.act 3 (.finish 2) (.ok ()) rfl ⟨rfl, rfl⟩
  have h := h.act 2 (.select false false true) (.ok .joined) rfl
    (.inr (.inr ⟨rfl, Nat.one_pos, rfl, rfl⟩))
  have h := h.act 2 .isShutdown (.ok true) rfl ⟨rfl, rfl⟩
  have h := h.act 2 .taskCount (.ok 1) rfl ⟨rfl, rfl⟩
  have h := h.act 4 .takeTask (.ok (2, readOrder)) rfl ⟨[], _, [], rfl, rfl, rfl⟩
  have h := h.act 4 (.process readOrder) (.ok readAnswer) rfl ⟨⟨_, answers_readAnswer, rfl⟩, rfl⟩
  have h := h.act 4 (.produceService readAnswer) (.ok ()) rfl ⟨rfl, rfl⟩
  have h := h.act 4 (.finish 2) (.ok ()) rfl ⟨rfl, rfl⟩
  have h := h.act 2 (.select false false true) (.ok .joined) rfl
    (.inr (.inr ⟨rfl, Nat.one_pos, rfl, rfl⟩))
  have h := h.act 2 .isShutdown (.ok true) rfl ⟨rfl, rfl⟩
  have h := h.act 2 .taskCount (.ok 0) rfl ⟨rfl, rfl⟩
  obtain ⟨-, hanswered⟩ := porter_drains (i := 2) h rfl rfl (by decide)
  refine ⟨_, h, ?write, hanswered _ ?write, ?read, hanswered _ ?read⟩
  case write => exact ⟨_, List.mem_of_getElem? (i := 22) rfl, rfl, rfl⟩
  case read => exact ⟨_, List.mem_of_getElem? (i := 19) rfl, rfl, rfl⟩

end LiNaStore
