import LiNaStore.Library.Interleave
import LiNaStore.Server.Worker

/-!
# The conveyer

The front ends put their orders on a queue and wait for the answers. The porter takes the orders
from the queue and spawns a worker for each, which carries it out and sends the answer to who waits
for it. From time to time waiters that have become too old are removed.

All of this happens at once. The queue and the waiters have a lock each. Handlers, porters, workers
and cleaners are programs over the sections in which a lock is held (`ConveyPrim`), and what these
do to the state (`ConveyState`) is said by `ConveyState.Act`. Only the section in which an order is
put on the queue takes the other lock too, and so it is one of several steps (`produceOrder`).

How far a process is, is recorded (`ConveyPhase`), and every process goes its way in order
(`conveyOrder`, `Role.ordered_program`). So a process takes one of the steps `ConveyStep`
(`conveyStep`), and what each of these preserves holds all along (`ConveyRun.invariant`). Where more
has to be known of a process, another discipline is followed too (`ConveyRun.invariant_alongside`).
-/

namespace LiNaStore

open Program

/-! ## The state -/

def orderQueueCapacity : ℕ := 32

/-- How long a waiter may wait, in nanoseconds. -/
def waitersTtl : ℕ := 20000000000

/-- The channel of an answer, as its receiver finds it. -/
inductive Channel
  | empty
  | sent (pkg : Package)
  /-- The sender is gone. -/
  | closed
  deriving DecidableEq, Repr

/-- A waiter: the sender of a channel whose receiver the process `sender` has. -/
structure WaiterEntry (ι : Type) where
  uniId : Bytes
  sender : ι
  createdAt : ℕ

/-- The queue and the waiters, with what else the processes share. -/
structure ConveyState (ι : Type) where
  orderQueue : List Package
  /-- Who holds the lock of the queue. -/
  holder : Option ι
  waiters : Table (WaiterEntry.uniId (ι := ι))
  channel : ι → Channel
  /-- How often the notifier has sent. -/
  version : ℕ
  /-- What each receiver of the notifier has seen; the others have not subscribed. -/
  seen : ι → Option ℕ
  /-- The tasks that were spawned and have not begun, with who spawned them. -/
  spawned : List (ι × Package)
  /-- The number of tasks each porter has not joined. -/
  tasks : ι → ℕ
  /-- The number of those that are finished. -/
  finished : ι → ℕ
  shutdown : Bool
  /-- The time, in nanoseconds. -/
  now : ℕ

namespace ConveyState

variable {ι : Type}

/-- Nothing has happened yet. -/
def start (now : ℕ) : ConveyState ι where
  orderQueue := []
  holder := none
  waiters := .empty
  channel := fun _ => .empty
  version := 0
  seen := fun _ => none
  spawned := []
  tasks := fun _ => 0
  finished := fun _ => 0
  shutdown := false
  now := now

/-- Take the first order from the queue. -/
def popFront (s : ConveyState ι) : Option Package × ConveyState ι :=
  (s.orderQueue.head?, { s with orderQueue := s.orderQueue.tail })

def removeOrder (s : ConveyState ι) (uniId : Bytes) : Bool × ConveyState ι :=
  let orderQueue := s.orderQueue.filter fun pkg => pkg.uniId ≠ uniId
  (orderQueue.length ≠ s.orderQueue.length, { s with orderQueue })

variable [DecidableEq ι]

def registerWaiter (s : ConveyState ι) (i : ι) (uniId : Bytes) : Bool × ConveyState ι :=
  match s.waiters.find? uniId with
  | some _ => (false, s)
  | none => (true, { s with
      waiters := s.waiters.insert ⟨uniId, i, s.now⟩
      channel := Function.update s.channel i .empty })

/-- Remove a waiter, whose channel is then as given. -/
def settleWaiter (s : ConveyState ι) (uniId : Bytes) (channel : Channel) : ConveyState ι :=
  { s with
    waiters := s.waiters.erase uniId
    channel := match s.waiters.find? uniId with
      | some entry => Function.update s.channel entry.sender channel
      | none => s.channel }

/-- Without its sender a channel is closed. -/
def unregisterWaiter (s : ConveyState ι) (uniId : Bytes) : ConveyState ι :=
  s.settleWaiter uniId .closed

/-- Send an answer to who waits for it. -/
def produceService (s : ConveyState ι) (order : Package) : Bool × ConveyState ι :=
  ((s.waiters.find? order.uniId).isSome, s.settleWaiter order.uniId (.sent order))

/-- Remove the waiters that have expired at the instant `now`. -/
def expireWaiters (s : ConveyState ι) (now : ℕ) : List Bytes × ConveyState ι :=
  let isExpired (entry : WaiterEntry ι) : Bool := now - entry.createdAt > waitersTtl
  let expired := s.waiters.rows.filter isExpired
  (expired.map WaiterEntry.uniId, { s with
    waiters := s.waiters.filter fun entry => !isExpired entry
    channel := fun i => if i ∈ expired.map WaiterEntry.sender then .closed else s.channel i })

theorem channel_settleWaiter {s : ConveyState ι} {uniId : Bytes} {channel : Channel} {i : ι}
    {pkg : Package} (h : (s.settleWaiter uniId channel).channel i = .sent pkg) :
    s.channel i = .sent pkg ∨
      channel = .sent pkg ∧ ∃ entry, s.waiters.find? uniId = some entry ∧ entry.sender = i := by
  rw [settleWaiter] at h
  cases hfind : s.waiters.find? uniId with
  | none => exact .inl (by simpa only [hfind] using h)
  | some entry =>
    simp only [hfind] at h
    by_cases hi : entry.sender = i
    · rw [← hi, Function.update_self] at h
      exact .inr ⟨h, entry, rfl, hi⟩
    · rw [Function.update_of_ne (Ne.symm hi)] at h
      exact .inl h

theorem channel_expireWaiters {s : ConveyState ι} {now : ℕ} {i : ι} {pkg : Package}
    (h : (s.expireWaiters now).2.channel i = .sent pkg) : s.channel i = .sent pkg := by
  simp only [expireWaiters] at h
  split at h
  · exact Channel.noConfusion h
  · exact h

end ConveyState

/-! ## Programs -/

/-- How waiting for an answer ends. -/
inductive Awaited
  | package (pkg : Package)
  | closed
  | timeout
  deriving DecidableEq, Repr

/-- Which branch of the porter's `select!` is taken. -/
inductive Selected
  | shutdown
  | changed
  | joined
  deriving DecidableEq, Repr

/-- The answer that nobody waits for a response. -/
inductive ConveyError
  | noWaiter
  deriving DecidableEq, Repr

/-- What the processes do: the sections in which they hold a lock, and what they wait for. -/
inductive ConveyPrim (ι : Type)
  | registerWaiter (uniId : Bytes)
  | unregisterWaiter (uniId : Bytes)
  | lockQueue
  | queueLen
  | popFront
  | pushBack (order : Package)
  | unlockQueue
  /-- Send to the notifier. -/
  | notify (queueLen : ℕ)
  /-- Wait for the answer, but not for longer than ten seconds. -/
  | awaitResponse
  | removeOrder (uniId : Bytes)
  | consumeOrder
  | instant
  | expireWaiters (now : ℕ)
  /-- Subscribe to the notifier. -/
  | subscribe
  /-- The number of tasks that have not been joined. -/
  | taskCount
  | spawn (pkg : Package)
  /-- Wait for one of the branches that are enabled. -/
  | select (shutdown changed joined : Bool)
  | isShutdown
  /-- Begin a task that was spawned. -/
  | takeTask
  | process (pkg : Package)
  | produceService (order : Package)
  /-- End a task of a porter. -/
  | finish (porter : ι)

abbrev ConveyPrim.Res {ι : Type} : ConveyPrim ι → Type
  | registerWaiter _ | removeOrder _ | isShutdown => Bool
  | queueLen | instant | taskCount => ℕ
  | popFront | consumeOrder => Option Package
  | awaitResponse => Awaited
  | expireWaiters _ => List Bytes
  | select .. => Selected
  | takeTask => ι × Package
  | process _ => Package
  | unregisterWaiter _ | lockQueue | pushBack _ | unlockQueue | notify _ | subscribe | spawn _
  | produceService _ | finish _ => Unit

abbrev ConveyProg (ι : Type) := Program ConveyError (ConveyPrim.Res (ι := ι))

section

variable {ι : Type}

/-- The program of one primitive. -/
abbrev convey (p : ConveyPrim ι) : ConveyProg ι p.Res := perform p

/-- Make room on a full queue. The lock of the waiters is taken under the lock of the queue. -/
def dropOldest : ConveyProg ι Unit := do
  if (← convey .queueLen) ≥ orderQueueCapacity then
    match ← convey .popFront with
    | some dropped => convey (.unregisterWaiter dropped.uniId)
    | none => pure ()

def produceOrder (order : Package) : ConveyProg ι Unit := do
  convey .lockQueue
  dropOldest
  convey (.pushBack order)
  let queueLen ← convey .queueLen
  convey .unlockQueue
  convey (.notify queueLen)

/-- How a front end has an order carried out. -/
def giveOrder (order : Package) : ConveyProg ι Unit := do
  if ← convey (.registerWaiter order.uniId) then
    produceOrder order
    match ← convey .awaitResponse with
    | .package _ => pure ()
    | .closed | .timeout =>
      convey (.unregisterWaiter order.uniId)
      (convey (.removeOrder order.uniId)).ignore

/-- A task: carry out an order and send the answer. -/
def task : ConveyProg ι Unit := do
  let (porter, pkg) ← convey .takeTask
  let resPkg ← convey (.process pkg)
  (convey (.produceService resPkg)).ignore
  convey (.finish porter)

def cleanupExpiredWaiters : ConveyProg ι Unit := do
  let now ← convey .instant
  let expired ← convey (.expireWaiters now)
  forEach (fun uniId => (convey (.removeOrder uniId)).ignore) expired

/-- The porter has nothing to spawn: it waits, and then goes on with `next`, unless all is over. -/
def awaitWork (concurrencyLimit : ℕ) (shuttingDown : Bool) (workers : ℕ)
    (next : Bool → ConveyProg ι Unit) : ConveyProg ι Unit :=
  if shuttingDown && workers = 0 then pure ()
  else do
    let selected ← convey (.select (!shuttingDown)
      (!shuttingDown && workers < concurrencyLimit) (workers ≠ 0))
    let isShutdown ← convey .isShutdown
    next (shuttingDown || selected = .shutdown || isShutdown)

/-- The loop of the porter, for as many rounds as are given. Spawning a task is a round of its own,
    as it is followed by the same test that a round begins with. -/
def porterLoop (concurrencyLimit : ℕ) : ℕ → Bool → ConveyProg ι Unit
  | 0, _ => pure ()
  | rounds + 1, shuttingDown => do
    let workers ← convey .taskCount
    if !shuttingDown && workers < concurrencyLimit then
      match ← convey .consumeOrder with
      | some pkg =>
        convey (.spawn pkg)
        porterLoop concurrencyLimit rounds false
      | none => awaitWork concurrencyLimit false workers (porterLoop concurrencyLimit rounds)
    else awaitWork concurrencyLimit shuttingDown workers (porterLoop concurrencyLimit rounds)

def porter (concurrencyLimit rounds : ℕ) : ConveyProg ι Unit := do
  convey .subscribe
  porterLoop concurrencyLimit rounds false

/-- What the processes are. -/
inductive Role
  | handler (order : Package)
  | worker
  | cleaner
  | porter (concurrencyLimit rounds : ℕ)

def Role.program : Role → ConveyProg ι Unit
  | handler order => giveOrder order
  | worker => task
  | cleaner => cleanupExpiredWaiters
  | porter concurrencyLimit rounds => LiNaStore.porter concurrencyLimit rounds

end

/-! ## What the primitives do -/

/-- `resPkg` is the answer of a worker that carries out `pkg` on some store. -/
def Package.Answers (E : Engine) (pkg resPkg : Package) : Prop :=
  ∃ d s, ((processPackage E d pkg).run Prim.step s).1 = .ok resPkg

/-- An answer has the identifier of its order. -/
theorem Package.Answers.uniId {E : Engine} {pkg resPkg : Package} (h : pkg.Answers E resPkg) :
    resPkg.uniId = pkg.uniId := by
  obtain ⟨d, s, h⟩ := h
  unfold processPackage at h
  dsimp only at h
  split at h
  · cases h
    rfl
  · split at h
    · cases h
      rfl
    · split at h
      case h_4 =>
        cases h
        rfl
      all_goals
        rw [run_bind, run_attempt] at h
        dsimp only at h
        split at h <;> cases h <;> rfl

namespace ConveyState

variable {ι : Type} [DecidableEq ι]

/-- What a primitive called by the process `i` answers and makes of the state. A section that
    needs the lock of the queue waits for it, and `select!` waits for one of its branches. -/
def Act (E : Engine) (i : ι) (s : ConveyState ι) :
    (p : ConveyPrim ι) → Except ConveyError p.Res → ConveyState ι → Prop
  | .registerWaiter uniId, a, s' =>
    a = .ok (s.registerWaiter i uniId).1 ∧ s' = (s.registerWaiter i uniId).2
  | .unregisterWaiter uniId, a, s' => a = .ok () ∧ s' = s.unregisterWaiter uniId
  | .lockQueue, a, s' => s.holder = none ∧ a = .ok () ∧ s' = { s with holder := some i }
  | .queueLen, a, s' => a = .ok s.orderQueue.length ∧ s' = s
  | .popFront, a, s' => a = .ok s.popFront.1 ∧ s' = s.popFront.2
  | .pushBack order, a, s' => a = .ok () ∧ s' = { s with orderQueue := s.orderQueue ++ [order] }
  | .unlockQueue, a, s' => a = .ok () ∧ s' = { s with holder := none }
  -- without a receiver the value is not sent
  | .notify _, a, s' => a = .ok () ∧
    ((∃ j, s.seen j ≠ none) ∧ s' = { s with version := s.version + 1 } ∨
      (∀ j, s.seen j = none) ∧ s' = s)
  | .awaitResponse, a, s' => s' = s ∧
    ((∃ pkg, s.channel i = .sent pkg ∧ a = .ok (.package pkg)) ∨
      s.channel i = .closed ∧ a = .ok .closed ∨ a = .ok .timeout)
  | .removeOrder uniId, a, s' =>
    s.holder = none ∧ a = .ok (s.removeOrder uniId).1 ∧ s' = (s.removeOrder uniId).2
  | .consumeOrder, a, s' => s.holder = none ∧ a = .ok s.popFront.1 ∧ s' = s.popFront.2
  | .instant, a, s' => a = .ok s.now ∧ s' = s
  | .expireWaiters now, a, s' => a = .ok (s.expireWaiters now).1 ∧ s' = (s.expireWaiters now).2
  | .subscribe, a, s' =>
    a = .ok () ∧ s' = { s with seen := Function.update s.seen i (some s.version) }
  | .taskCount, a, s' => a = .ok (s.tasks i) ∧ s' = s
  | .spawn pkg, a, s' => a = .ok () ∧ s' = { s with
      spawned := s.spawned ++ [(i, pkg)]
      tasks := Function.update s.tasks i (s.tasks i + 1) }
  | .select shutdown changed joined, a, s' =>
    shutdown ∧ s.shutdown ∧ a = .ok .shutdown ∧ s' = s ∨
      changed ∧ s.seen i ≠ some s.version ∧ a = .ok .changed ∧
        s' = { s with seen := Function.update s.seen i (some s.version) } ∨
      joined ∧ 0 < s.finished i ∧ a = .ok .joined ∧ s' = { s with
        tasks := Function.update s.tasks i (s.tasks i - 1)
        finished := Function.update s.finished i (s.finished i - 1) }
  | .isShutdown, a, s' => a = .ok s.shutdown ∧ s' = s
  -- the tasks may begin in any order
  | .takeTask, a, s' => ∃ before task after, s.spawned = before ++ task :: after ∧ a = .ok task ∧
    s' = { s with spawned := before ++ after }
  | .process pkg, a, s' => (∃ resPkg, pkg.Answers E resPkg ∧ a = .ok resPkg) ∧ s' = s
  | .produceService order, a, s' =>
    a = (if (s.produceService order).1 then .ok () else .error .noWaiter) ∧
      s' = (s.produceService order).2
  | .finish porter, a, s' => a = .ok () ∧
    s' = { s with finished := Function.update s.finished porter (s.finished porter + 1) }

/-- Time passes, and the server may be told to shut down. -/
def Env (s s' : ConveyState ι) : Prop :=
  (∃ now, s.now ≤ now ∧ s' = { s with now }) ∨ s' = { s with shutdown := true }

def system (E : Engine) :
    Interleave.System ι (ConveyState ι) ConveyError (ConveyPrim.Res (ι := ι)) where
  act i s p a s' := s.Act E i p a s'
  env := Env

end ConveyState

/-! ## How far a process is -/

inductive ConveyPhase
  | start
  /-- A handler has registered as a waiter. -/
  | registered
  /-- It has the lock of the queue. -/
  | locked
  | full
  /-- It has taken an order from the full queue and is to remove its waiter. -/
  | evicting (dropped : Package)
  | roomy
  /-- It has put its order on the queue. -/
  | pushed
  /-- It has given the lock back and is to notify. -/
  | unlocked
  | awaiting
  | givingUp
  /-- It removes orders. -/
  | removing
  /-- A porter runs. -/
  | running
  /-- A porter has found the queue empty. -/
  | drained
  /-- A porter is to spawn a task. -/
  | holding (pkg : Package)
  /-- A worker carries out an order. -/
  | working (pkg : Package)
  | responding (pkg resPkg : Package)
  | done
  deriving DecidableEq, Repr

/-- The order of the steps of a process. -/
def conveyOrder {ι : Type} (role : Role) :
    Discipline ConveyError (ConveyPrim.Res (ι := ι)) ConveyPhase where
  allowed q p := match role, q, p with
    | .handler order, .start, .registerWaiter uniId => uniId = order.uniId
    | .handler _, .registered, .lockQueue => True
    | .handler _, .locked, .queueLen => True
    | .handler _, .full, .popFront => True
    | .handler _, .evicting dropped, .unregisterWaiter uniId => uniId = dropped.uniId
    | .handler order, .roomy, .pushBack order' => order' = order
    | .handler _, .pushed, .queueLen => True
    | .handler _, .pushed, .unlockQueue => True
    | .handler _, .unlocked, .notify _ => True
    | .handler _, .awaiting, .awaitResponse => True
    | .handler _, .givingUp, .unregisterWaiter _ => True
    | .handler _, .removing, .removeOrder _ => True
    | .worker, .start, .takeTask => True
    | .worker, .working pkg, .process pkg' => pkg' = pkg
    | .worker, .responding _ resPkg, .produceService order => order = resPkg
    | .worker, .done, .finish _ => True
    | .cleaner, .start, .instant => True
    | .cleaner, .start, .expireWaiters _ => True
    | .cleaner, .removing, .removeOrder _ => True
    | .porter .., .start, .subscribe => True
    | .porter .., .running, .taskCount => True
    | .porter .., .running, .consumeOrder => True
    | .porter .., .running, .select _ changed _ => changed = false
    | .porter .., .running, .isShutdown => True
    | .porter .., .holding pkg, .spawn pkg' => pkg' = pkg
    | .porter .., .drained, .select .. => True
    | _, _, _ => False
  next
    | .start, .registerWaiter _, .ok true => .registered
    | .start, .registerWaiter _, _ => .done
    | .registered, .lockQueue, _ => .locked
    | .locked, .queueLen, .ok n => if n ≥ orderQueueCapacity then .full else .roomy
    | .full, .popFront, .ok (some dropped) => .evicting dropped
    | .full, .popFront, _ => .roomy
    | .evicting _, .unregisterWaiter _, _ => .roomy
    | .roomy, .pushBack _, _ => .pushed
    | .pushed, .unlockQueue, _ => .unlocked
    | .unlocked, .notify _, _ => .awaiting
    | .awaiting, .awaitResponse, .ok (.package _) => .done
    | .awaiting, .awaitResponse, _ => .givingUp
    | .givingUp, .unregisterWaiter _, _ => .removing
    | .start, .takeTask, .ok (_, pkg) => .working pkg
    | .working pkg, .process _, .ok resPkg => .responding pkg resPkg
    | .responding .., .produceService _, _ => .done
    | .start, .expireWaiters _, _ => .removing
    | .start, .subscribe, _ => .running
    | .running, .consumeOrder, .ok (some pkg) => .holding pkg
    | .running, .consumeOrder, _ => .drained
    | .holding _, .spawn _, _ => .running
    | .drained, .select .., _ => .running
    | q, _, _ => q

section

variable {ι : Type} {order : Package} {concurrencyLimit : ℕ}

theorem ordered_dropOldest :
    (dropOldest : ConveyProg ι Unit).Keeps (conveyOrder (.handler order))
      (fun r q => r = .ok () → q = .roomy) .locked := by
  refine .perform_bind trivial (fun _ => nofun) fun n => ?_
  dsimp only [conveyOrder]
  split
  · refine .perform_bind trivial (fun _ => nofun) fun dropped => ?_
    cases dropped with
    | none => exact .pure fun _ => rfl
    | some dropped => exact .perform rfl fun _ _ => rfl
  · exact .pure fun _ => rfl

theorem ordered_produceOrder (order : Package) :
    (produceOrder order : ConveyProg ι Unit).Keeps (conveyOrder (.handler order))
      (fun r q => r = .ok () → q = .awaiting) .registered := by
  refine .perform_bind trivial (fun _ => nofun) fun _ => ?_
  refine .bind (ordered_dropOldest.mono fun r q hq => ?_)
  cases r with
  | error e => exact nofun
  | ok _ =>
    rw [hq rfl]
    refine .perform_bind rfl (fun _ => nofun) fun _ => ?_
    refine .perform_bind trivial (fun _ => nofun) fun queueLen => ?_
    refine .perform_bind trivial (fun _ => nofun) fun _ => ?_
    exact .perform trivial fun _ _ => rfl

theorem ordered_giveOrder (order : Package) :
    (giveOrder order : ConveyProg ι Unit).Keeps (conveyOrder (.handler order)) (fun _ _ => True)
      .start := by
  refine .perform_bind rfl (fun _ => trivial) fun registered => ?_
  cases registered with
  | false => exact .pure trivial
  | true =>
    refine .bind ((ordered_produceOrder order).mono fun r q hq => ?_)
    cases r with
    | error e => trivial
    | ok _ =>
      rw [hq rfl]
      have hgivingUp : (do
            convey (.unregisterWaiter order.uniId)
            (convey (.removeOrder order.uniId)).ignore : ConveyProg ι Unit).Keeps
          (conveyOrder (.handler order)) (fun _ _ => True) .givingUp :=
        .perform_bind trivial (fun _ => trivial) fun _ => .ignore (.perform trivial fun _ => trivial)
      refine .perform_bind trivial (fun _ => trivial) fun awaited => ?_
      cases awaited with
      | package pkg => exact .pure trivial
      | closed => exact hgivingUp
      | timeout => exact hgivingUp

theorem ordered_task :
    (task : ConveyProg ι Unit).Keeps (conveyOrder .worker) (fun _ _ => True) .start := by
  refine .perform_bind trivial (fun _ => trivial) fun ⟨porter, pkg⟩ => ?_
  refine .perform_bind rfl (fun _ => trivial) fun resPkg => ?_
  exact .bind (.ignore (.perform rfl fun _ => .perform trivial fun _ => trivial))

theorem ordered_cleanupExpiredWaiters :
    (cleanupExpiredWaiters : ConveyProg ι Unit).Keeps (conveyOrder .cleaner) (fun _ _ => True)
      .start := by
  refine .perform_bind trivial (fun _ => trivial) fun now => ?_
  refine .perform_bind trivial (fun _ => trivial) fun expired => ?_
  change Keeps _ _ _ ConveyPhase.removing
  induction expired with
  | nil => exact .pure trivial
  | cons uniId expired ih => exact .bind (.ignore (.perform trivial fun _ => ih))

theorem ordered_awaitWork {rounds workers : ℕ} {shuttingDown : Bool} {q : ConveyPhase}
    {next : Bool → ConveyProg ι Unit}
    (hq : q = .drained ∨ q = .running ∧ (!shuttingDown && workers < concurrencyLimit) = false)
    (hnext : ∀ b, (next b).Keeps (conveyOrder (.porter concurrencyLimit rounds)) (fun _ _ => True)
      .running) :
    (awaitWork concurrencyLimit shuttingDown workers next).Keeps
      (conveyOrder (.porter concurrencyLimit rounds)) (fun _ _ => True) q := by
  rw [awaitWork]
  split
  · exact .pure trivial
  · rcases hq with rfl | ⟨rfl, hchanged⟩
    · exact .perform_bind trivial (fun _ => trivial) fun _ =>
        .perform_bind trivial (fun _ => trivial) fun _ => hnext _
    · exact .perform_bind hchanged (fun _ => trivial) fun _ =>
        .perform_bind trivial (fun _ => trivial) fun _ => hnext _

theorem ordered_porterLoop (rounds n : ℕ) (shuttingDown : Bool) :
    (porterLoop concurrencyLimit n shuttingDown : ConveyProg ι Unit).Keeps
      (conveyOrder (.porter concurrencyLimit rounds)) (fun _ _ => True) .running := by
  induction n generalizing shuttingDown with
  | zero => exact .pure trivial
  | succ n ih =>
    refine .perform_bind trivial (fun _ => trivial) fun workers => ?_
    split
    · refine .perform_bind trivial (fun _ => trivial) fun order => ?_
      cases order with
      | some pkg => exact .perform_bind rfl (fun _ => trivial) fun _ => ih false
      | none => exact ordered_awaitWork (.inl rfl) ih
    · next hfull => exact ordered_awaitWork (.inr ⟨rfl, Bool.eq_false_of_not_eq_true hfull⟩) ih

/-- Every process goes its way in order. -/
theorem Role.ordered_program (role : Role) :
    (role.program : ConveyProg ι Unit).Keeps (conveyOrder role) (fun _ _ => True) .start := by
  cases role with
  | handler order => exact ordered_giveOrder order
  | worker => exact ordered_task
  | cleaner => exact ordered_cleanupExpiredWaiters
  | porter concurrencyLimit rounds =>
    exact .perform_bind trivial (fun _ => trivial) fun _ => ordered_porterLoop rounds rounds false

end

/-- Only a porter that has found the queue empty waits for orders. -/
theorem drained_of_allowed {ι : Type} {role : Role} {q : ConveyPhase} {shutdown joined : Bool}
    (h : (conveyOrder (ι := ι) role).allowed q (.select shutdown true joined)) : q = .drained := by
  cases role with
  | porter limit rounds =>
    cases q with
    | drained => rfl
    | running => cases h
    | _ => exact h.elim
  | handler | worker | cleaner => cases q <;> exact h.elim

/-! ## Steps -/

section

variable {ι : Type} [DecidableEq ι]

/-- The steps of a process: its role, how far it is, what it calls, how far it is then, and the
    state. -/
inductive ConveyStep (E : Engine) (i : ι) (s : ConveyState ι) : Role → ConveyPhase →
    ((p : ConveyPrim ι) × Except ConveyError p.Res) → ConveyPhase → ConveyState ι → Prop
  | register {order : Package} : s.waiters.find? order.uniId = none →
      ConveyStep E i s (.handler order) .start ⟨.registerWaiter order.uniId, .ok true⟩ .registered
        { s with
          waiters := s.waiters.insert ⟨order.uniId, i, s.now⟩
          channel := Function.update s.channel i .empty }
  | refuse {order : Package} :
      ConveyStep E i s (.handler order) .start ⟨.registerWaiter order.uniId, .ok false⟩ .done s
  | lock {order : Package} : s.holder = none →
      ConveyStep E i s (.handler order) .registered ⟨.lockQueue, .ok ()⟩ .locked
        { s with holder := some i }
  | full {order : Package} : orderQueueCapacity ≤ s.orderQueue.length →
      ConveyStep E i s (.handler order) .locked ⟨.queueLen, .ok s.orderQueue.length⟩ .full s
  | roomy {order : Package} : s.orderQueue.length < orderQueueCapacity →
      ConveyStep E i s (.handler order) .locked ⟨.queueLen, .ok s.orderQueue.length⟩ .roomy s
  | evict {order dropped : Package} {rest : List Package} : s.orderQueue = dropped :: rest →
      ConveyStep E i s (.handler order) .full ⟨.popFront, .ok (some dropped)⟩ (.evicting dropped)
        { s with orderQueue := rest }
  | evictNone {order : Package} : s.orderQueue = [] →
      ConveyStep E i s (.handler order) .full ⟨.popFront, .ok none⟩ .roomy { s with orderQueue := [] }
  | unregister {order dropped : Package} :
      ConveyStep E i s (.handler order) (.evicting dropped)
        ⟨.unregisterWaiter dropped.uniId, .ok ()⟩ .roomy (s.unregisterWaiter dropped.uniId)
  | push {order : Package} :
      ConveyStep E i s (.handler order) .roomy ⟨.pushBack order, .ok ()⟩ .pushed
        { s with orderQueue := s.orderQueue ++ [order] }
  | count {order : Package} :
      ConveyStep E i s (.handler order) .pushed ⟨.queueLen, .ok s.orderQueue.length⟩ .pushed s
  | unlock {order : Package} :
      ConveyStep E i s (.handler order) .pushed ⟨.unlockQueue, .ok ()⟩ .unlocked
        { s with holder := none }
  | notify {order : Package} {n version : ℕ} : s.version ≤ version →
      ((∃ j, s.seen j ≠ none) → s.version < version) →
      ConveyStep E i s (.handler order) .unlocked ⟨.notify n, .ok ()⟩ .awaiting { s with version }
  | receive {order pkg : Package} : s.channel i = .sent pkg →
      ConveyStep E i s (.handler order) .awaiting ⟨.awaitResponse, .ok (.package pkg)⟩ .done s
  | giveUp {order : Package} {awaited : Awaited} : (∀ pkg, awaited ≠ .package pkg) →
      ConveyStep E i s (.handler order) .awaiting ⟨.awaitResponse, .ok awaited⟩ .givingUp s
  | withdraw {order : Package} {uniId : Bytes} :
      ConveyStep E i s (.handler order) .givingUp ⟨.unregisterWaiter uniId, .ok ()⟩ .removing
        (s.unregisterWaiter uniId)
  | remove {role : Role} {uniId : Bytes} : s.holder = none →
      ConveyStep E i s role .removing ⟨.removeOrder uniId, .ok (s.removeOrder uniId).1⟩ .removing
        (s.removeOrder uniId).2
  | takeTask {before after : List (ι × Package)} {porter : ι} {pkg : Package} :
      s.spawned = before ++ (porter, pkg) :: after →
      ConveyStep E i s .worker .start ⟨.takeTask, .ok (porter, pkg)⟩ (.working pkg)
        { s with spawned := before ++ after }
  | process {pkg resPkg : Package} : pkg.Answers E resPkg →
      ConveyStep E i s .worker (.working pkg) ⟨.process pkg, .ok resPkg⟩ (.responding pkg resPkg) s
  | respond {pkg resPkg : Package} {a : Except ConveyError Unit} :
      ConveyStep E i s .worker (.responding pkg resPkg) ⟨.produceService resPkg, a⟩ .done
        (s.produceService resPkg).2
  | finish {porter : ι} :
      ConveyStep E i s .worker .done ⟨.finish porter, .ok ()⟩ .done
        { s with finished := Function.update s.finished porter (s.finished porter + 1) }
  | instant : ConveyStep E i s .cleaner .start ⟨.instant, .ok s.now⟩ .start s
  | expire {now : ℕ} :
      ConveyStep E i s .cleaner .start ⟨.expireWaiters now, .ok (s.expireWaiters now).1⟩ .removing
        (s.expireWaiters now).2
  | subscribe {limit rounds : ℕ} :
      ConveyStep E i s (.porter limit rounds) .start ⟨.subscribe, .ok ()⟩ .running
        { s with seen := Function.update s.seen i (some s.version) }
  | taskCount {limit rounds : ℕ} :
      ConveyStep E i s (.porter limit rounds) .running ⟨.taskCount, .ok (s.tasks i)⟩ .running s
  | isShutdown {limit rounds : ℕ} :
      ConveyStep E i s (.porter limit rounds) .running ⟨.isShutdown, .ok s.shutdown⟩ .running s
  | consume {limit rounds : ℕ} {pkg : Package} {rest : List Package} : s.holder = none →
      s.orderQueue = pkg :: rest →
      ConveyStep E i s (.porter limit rounds) .running ⟨.consumeOrder, .ok (some pkg)⟩
        (.holding pkg) { s with orderQueue := rest }
  | drain {limit rounds : ℕ} : s.holder = none → s.orderQueue = [] →
      ConveyStep E i s (.porter limit rounds) .running ⟨.consumeOrder, .ok none⟩ .drained
        { s with orderQueue := [] }
  | spawn {limit rounds : ℕ} {pkg : Package} :
      ConveyStep E i s (.porter limit rounds) (.holding pkg) ⟨.spawn pkg, .ok ()⟩ .running
        { s with
          spawned := s.spawned ++ [(i, pkg)]
          tasks := Function.update s.tasks i (s.tasks i + 1) }
  | select {limit rounds : ℕ} {q : ConveyPhase} {shutdown changed joined : Bool}
      {selected : Selected} {seen : ι → Option ℕ} {tasks finished : ι → ℕ} :
      q = .running ∨ q = .drained → (∀ j, j ≠ i → seen j = s.seen j) →
      seen i = s.seen i ∨ seen i = some s.version →
      ConveyStep E i s (.porter limit rounds) q
        ⟨.select shutdown changed joined, .ok selected⟩ .running { s with seen, tasks, finished }

theorem ConveyStep.ofSelect {E : Engine} {i : ι} {s s' : ConveyState ι} {q : ConveyPhase}
    {limit rounds : ℕ} {shutdown changed joined : Bool} {a : Except ConveyError Selected}
    (hq : q = .running ∨ q = .drained) (hact : s.Act E i (.select shutdown changed joined) a s') :
    ConveyStep E i s (.porter limit rounds) q ⟨.select shutdown changed joined, a⟩ .running s' := by
  obtain ⟨_, _, rfl, rfl⟩ | ⟨_, _, rfl, rfl⟩ | ⟨_, _, rfl, rfl⟩ := hact
  · exact .select hq (fun _ _ => rfl) (.inl rfl)
  · exact .select hq (fun _ hj => Function.update_of_ne hj _ _) (.inr (Function.update_self ..))
  · exact .select hq (fun _ _ => rfl) (.inl rfl)

/-- A process that goes its way in order takes one of the steps. -/
theorem conveyStep {E : Engine} {role : Role} {i : ι} {s s' : ConveyState ι} {q : ConveyPhase}
    {p : ConveyPrim ι} {a : Except ConveyError p.Res} (hallowed : (conveyOrder role).allowed q p)
    (hact : s.Act E i p a s') :
    ConveyStep E i s role q ⟨p, a⟩ ((conveyOrder role).next q p a) s' := by
  dsimp only [conveyOrder] at hallowed
  split at hallowed
  · subst hallowed
    obtain ⟨rfl, rfl⟩ := hact
    unfold ConveyState.registerWaiter
    cases hfind : s.waiters.find? _ with
    | none => exact .register hfind
    | some entry => exact .refuse
  · obtain ⟨hholder, rfl, rfl⟩ := hact
    exact .lock hholder
  · obtain ⟨rfl, rfl⟩ := hact
    dsimp only [conveyOrder]
    split
    · next hfull => exact .full hfull
    · next hroom => exact .roomy (Nat.lt_of_not_le hroom)
  · obtain ⟨rfl, rfl⟩ := hact
    unfold ConveyState.popFront
    cases hqueue : s.orderQueue with
    | nil => exact .evictNone hqueue
    | cons dropped rest => exact .evict hqueue
  · subst hallowed
    obtain ⟨rfl, rfl⟩ := hact
    exact .unregister
  · subst hallowed
    obtain ⟨rfl, rfl⟩ := hact
    exact .push
  · obtain ⟨rfl, rfl⟩ := hact
    exact .count
  · obtain ⟨rfl, rfl⟩ := hact
    exact .unlock
  · obtain ⟨rfl, ⟨_, rfl⟩ | ⟨hnone, rfl⟩⟩ := hact
    · exact .notify (Nat.le_succ _) fun _ => Nat.lt_succ_self _
    · exact .notify (Nat.le_refl _) fun ⟨j, hj⟩ => absurd (hnone j) hj
  · obtain ⟨rfl, ⟨pkg, hsent, rfl⟩ | ⟨_, rfl⟩ | rfl⟩ := hact
    · exact .receive hsent
    · exact .giveUp nofun
    · exact .giveUp nofun
  · obtain ⟨rfl, rfl⟩ := hact
    exact .withdraw
  · obtain ⟨hholder, rfl, rfl⟩ := hact
    exact .remove hholder
  · obtain ⟨before, ⟨porter, pkg⟩, after, hspawned, rfl, rfl⟩ := hact
    exact .takeTask hspawned
  · subst hallowed
    obtain ⟨⟨resPkg, hanswers, rfl⟩, rfl⟩ := hact
    exact .process hanswers
  · subst hallowed
    obtain ⟨-, rfl⟩ := hact
    exact .respond
  · obtain ⟨rfl, rfl⟩ := hact
    exact .finish
  · obtain ⟨rfl, rfl⟩ := hact
    exact .instant
  · obtain ⟨rfl, rfl⟩ := hact
    exact .expire
  · obtain ⟨hholder, rfl, rfl⟩ := hact
    exact .remove hholder
  · obtain ⟨rfl, rfl⟩ := hact
    exact .subscribe
  · obtain ⟨rfl, rfl⟩ := hact
    exact .taskCount
  · obtain ⟨hholder, rfl, rfl⟩ := hact
    unfold ConveyState.popFront
    cases hqueue : s.orderQueue with
    | nil => exact .drain hholder hqueue
    | cons pkg rest => exact .consume hholder hqueue
  · exact .ofSelect (.inl rfl) hact
  · obtain ⟨rfl, rfl⟩ := hact
    exact .isShutdown
  · subst hallowed
    obtain ⟨rfl, rfl⟩ := hact
    exact .spawn
  · exact .ofSelect (.inr rfl) hact
  · exact hallowed.elim

/-! ## Runs -/

abbrev ConveyEvent (ι : Type) :=
  Interleave.Event ι (ConveyState ι) ConveyError (ConveyPrim.Res (ι := ι))

/-- The processes, with how far each is. -/
abbrev Conveyance (ι : Type) :=
  Interleave.Config ι (ConveyState ι) ConveyError (ConveyPrim.Res (ι := ι)) Unit ConveyPhase

/-- The runs of processes with the given roles, one primitive at a time and in any order. -/
def ConveyRun (E : Engine) (role : ι → Role) (c : Conveyance ι) : Prop :=
  ∃ now, Interleave.Run (ConveyState.system E) (fun i => conveyOrder (role i)) (fun _ _ _ => True)
    ⟨.start now, fun i => (role i).program, fun _ => .start, []⟩ c

namespace ConveyRun

variable {E : Engine} {role : ι → Role} {c : Conveyance ι}

theorem keeps (h : ConveyRun E role c) (i : ι) :
    (c.programs i).Keeps (conveyOrder (role i)) (fun _ _ => True) (c.phase i) := by
  obtain ⟨now, hrun⟩ := h
  exact hrun.keeps (fun i => (role i).ordered_program) i

/-- A run goes on with a call that is answered. -/
theorem act {s : ConveyState ι} (h : ConveyRun E role c) (i : ι) (p : ConveyPrim ι)
    {k : Except ConveyError p.Res → ConveyProg ι Unit} (a : Except ConveyError p.Res)
    (hcall : c.programs i = .call p k) (hact : c.state.Act E i p a s) :
    ConveyRun E role (c.act (fun i => conveyOrder (role i)) i p a (k a) s) := by
  obtain ⟨now, hrun⟩ := h
  exact ⟨now, hrun.act i p a hcall hact trivial⟩

/-- Time passes, or the server is told to shut down. -/
theorem env {s : ConveyState ι} (h : ConveyRun E role c) (henv : c.state.Env s) :
    ConveyRun E role { c with state := s } := by
  obtain ⟨now, hrun⟩ := h
  exact ⟨now, hrun.env s henv⟩

/-- What every step preserves holds all along. -/
theorem invariant {I : ConveyState ι → (ι → ConveyPhase) → List (ConveyEvent ι) → Prop}
    (hstart : ∀ now, I (.start now) (fun _ => .start) [])
    (henv : ∀ s s' phase log, I s phase log → s.Env s' → I s' phase log)
    (hstep : ∀ s phase log i e q s', I s phase log →
      ConveyStep E i s (role i) (phase i) e q s' →
      I s' (Function.update phase i q) (⟨i, s, e⟩ :: log))
    (h : ConveyRun E role c) : I c.state c.phase c.log := by
  obtain ⟨now, hrun⟩ := h
  exact hrun.invariant (I := fun c => I c.state c.phase c.log)
    (fun i => (role i).ordered_program) (hstart now) (fun c s hc hs => henv _ s _ _ hc hs)
    fun c i p a rest s hc hallowed hs _ => hstep _ _ _ i _ _ s hc (conveyStep hallowed hs)

/-- The same where another discipline is followed too: what every step that it allows preserves
    holds all along, and each process is where that discipline says. -/
theorem invariant_alongside {Q : Type}
    (D : Role → Discipline ConveyError (ConveyPrim.Res (ι := ι)) Q) (q : Q)
    {post : Role → Except ConveyError Unit → Q → Prop}
    (hD : ∀ role, (role.program : ConveyProg ι Unit).Keeps (D role) (post role) q)
    {I : ConveyState ι → (ι → ConveyPhase) → (ι → Q) → List (ConveyEvent ι) → Prop}
    (hstart : ∀ now, I (.start now) (fun _ => .start) (fun _ => q) [])
    (henv : ∀ s s' phase extra log, I s phase extra log → s.Env s' → I s' phase extra log)
    (hstep : ∀ s phase extra log i e q s', I s phase extra log →
      ConveyStep E i s (role i) (phase i) e q s' → s.Act E i e.1 e.2 s' →
      (D (role i)).allowed (extra i) e.1 →
      I s' (Function.update phase i q)
        (Function.update extra i ((D (role i)).next (extra i) e.1 e.2)) (⟨i, s, e⟩ :: log))
    (h : ConveyRun E role c) :
    ∃ extra, I c.state c.phase extra c.log ∧
      ∀ i, (c.programs i).Keeps (D (role i)) (post (role i)) (extra i) := by
  obtain ⟨now, hrun⟩ := h
  obtain ⟨extra, hrun⟩ := hrun.alongside (fun i => D (role i)) fun _ => q
  have hkeeps (i : ι) : ((role i).program : ConveyProg ι Unit).Keeps
      ((conveyOrder (role i)).prod (D (role i))) (fun _ _ => True) (.start, q) :=
    ((role i).ordered_program.prod (hD (role i))).mono fun _ _ _ => trivial
  refine ⟨extra, hrun.invariant
    (I := fun c => I c.state (fun i => (c.phase i).1) (fun i => (c.phase i).2) c.log)
    hkeeps (hstart now) (fun c s hc hs => henv _ s _ _ _ hc hs)
    fun c i p a rest s hc hallowed hs _ => ?_, fun i => ?_⟩
  · have hnext := hstep _ _ _ _ i ⟨p, a⟩ _ s hc (conveyStep hallowed.1 hs) hs hallowed.2
    change I s (Prod.fst ∘ Function.update c.phase i _) (Prod.snd ∘ Function.update c.phase i _) _
    rw [Function.comp_update, Function.comp_update]
    exact hnext
  · exact .snd (fun _ _ h => h.2) (hrun.keeps_at ((role i).ordered_program.prod (hD (role i))))

end ConveyRun

end

/-! ## A run -/

/-- The order to write a file. -/
def writeOrder : Package :=
  { Package.new [1] with behavior := .putFile, content := ⟨0, [97], [1]⟩ }

/-- The order to read it. -/
def readOrder : Package := { Package.new [2] with behavior := .getFile, content := ⟨0, [97], []⟩ }

def writeAnswer : Package := { Package.new [1] with status := .success, content := ⟨0, [97], []⟩ }

def readAnswer : Package := { Package.new [2] with status := .success, content := ⟨0, [97], [1]⟩ }

theorem answers_writeAnswer : writeOrder.Answers .plain writeAnswer := ⟨.sample 0, .empty, rfl⟩

theorem answers_readAnswer : readOrder.Answers .plain readAnswer :=
  ⟨.sample 1, ((processPackage .plain (.sample 0) writeOrder).run Prim.step .empty).2, rfl⟩

/-- Two handlers, a porter and two workers. -/
def sampleRoles : Fin 5 → Role
  | 0 => .handler writeOrder
  | 1 => .handler readOrder
  | 2 => .porter 2 8
  | 3 => .worker
  | 4 => .worker

/-- The porter waits for orders, and then both handlers put theirs on the queue. -/
def sampleOrdered : {c : Conveyance (Fin 5) // ConveyRun .plain sampleRoles c} := by
  have h : ConveyRun .plain sampleRoles _ := ⟨0, .refl⟩
  have h := h.act 2 .subscribe (.ok ()) rfl ⟨rfl, rfl⟩
  have h := h.act 2 .taskCount (.ok 0) rfl ⟨rfl, rfl⟩
  have h := h.act 2 .consumeOrder (.ok none) rfl ⟨rfl, rfl, rfl⟩
  have h := h.act 0 (.registerWaiter [1]) (.ok true) rfl ⟨rfl, rfl⟩
  have h := h.act 1 (.registerWaiter [2]) (.ok true) rfl ⟨rfl, rfl⟩
  have h := h.act 0 .lockQueue (.ok ()) rfl ⟨rfl, rfl, rfl⟩
  have h := h.act 0 .queueLen (.ok 0) rfl ⟨rfl, rfl⟩
  have h := h.act 0 (.pushBack writeOrder) (.ok ()) rfl ⟨rfl, rfl⟩
  have h := h.act 0 .queueLen (.ok 1) rfl ⟨rfl, rfl⟩
  have h := h.act 0 .unlockQueue (.ok ()) rfl ⟨rfl, rfl⟩
  have h := h.act 1 .lockQueue (.ok ()) rfl ⟨rfl, rfl, rfl⟩
  have h := h.act 0 (.notify 1) (.ok ()) rfl ⟨rfl, .inl ⟨⟨2, nofun⟩, rfl⟩⟩
  have h := h.act 1 .queueLen (.ok 1) rfl ⟨rfl, rfl⟩
  have h := h.act 1 (.pushBack readOrder) (.ok ()) rfl ⟨rfl, rfl⟩
  have h := h.act 1 .queueLen (.ok 2) rfl ⟨rfl, rfl⟩
  have h := h.act 1 .unlockQueue (.ok ()) rfl ⟨rfl, rfl⟩
  have h := h.act 1 (.notify 2) (.ok ()) rfl ⟨rfl, .inl ⟨⟨2, nofun⟩, rfl⟩⟩
  exact ⟨_, h⟩

/-- The porter takes both orders and spawns a task for each. -/
def sampleSpawned : {c : Conveyance (Fin 5) // ConveyRun .plain sampleRoles c} := by
  have h := sampleOrdered.2
  have h := h.act 2 (.select true true false) (.ok .changed) rfl
    (.inr (.inl ⟨rfl, nofun, rfl, rfl⟩))
  have h := h.act 2 .isShutdown (.ok false) rfl ⟨rfl, rfl⟩
  have h := h.act 2 .taskCount (.ok 0) rfl ⟨rfl, rfl⟩
  have h := h.act 2 .consumeOrder (.ok (some writeOrder)) rfl ⟨rfl, rfl, rfl⟩
  have h := h.act 2 (.spawn writeOrder) (.ok ()) rfl ⟨rfl, rfl⟩
  have h := h.act 2 .taskCount (.ok 1) rfl ⟨rfl, rfl⟩
  have h := h.act 2 .consumeOrder (.ok (some readOrder)) rfl ⟨rfl, rfl, rfl⟩
  have h := h.act 2 (.spawn readOrder) (.ok ()) rfl ⟨rfl, rfl⟩
  exact ⟨_, h⟩

/-- A worker begins with one of the tasks. -/
def sampleBegun : {c : Conveyance (Fin 5) // ConveyRun .plain sampleRoles c} :=
  ⟨_, sampleSpawned.2.act 3 .takeTask (.ok (2, writeOrder)) rfl ⟨[], _, [_], rfl, rfl, rfl⟩⟩

end LiNaStore
