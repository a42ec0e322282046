import LiNaStore.Base.Linearizable
import LiNaStore.Server.Queue

/-!
# Orders on one store

The workers of a server carry out their orders at once, on one store and under its lock. Here the
conveyer and the store run together (`Kitchen`): a worker that begins a task calls the store for its
order, the call goes on one primitive at a time as the lock permits, and the worker gets the answer
once the call has returned. The calls are known by the handlers whose orders they carry out.

Forgetting the store, this is a run of the conveyer (`KitchenRun.convey`), and forgetting the
conveyer, it is an execution of calls of the store (`Kitchen.Cooked`). Together they are
linearizable: the handlers receive what their orders give one after the other, in an order in which
whoever had its answer when another registered comes first (`orders_linearizable`).
-/

namespace LiNaStore

open Program

/-! ## The call of an order -/

namespace Package

/-- The answer to an order before it is known how it went. -/
def blank (pkg : Package) : Package :=
  { Package.new pkg.uniId with content := ⟨pkg.content.flags, pkg.content.identifier, []⟩ }

/-- What an order asks of the store, if it has a name; the worker draws `d`. -/
def request (d : Draws) (pkg : Package) : Option Request :=
  let identifierBytes := (splitNul pkg.content.identifier).1
  if identifierBytes = [] then none
  else match fromUtf8 identifierBytes with
    | none => none
    | some identifier =>
      match pkg.behavior with
      | .putFile => some (.put d identifier pkg.content.data (flagSet pkg.content.flags .cover)
          (flagSet pkg.content.flags .compress))
      | .getFile => some (.get identifier)
      | .deleteFile => some (.delete identifier false)
      | .none => none

/-- The answer to an order that asks nothing of the store. -/
def refusal (pkg : Package) : Package :=
  let identifierBytes := (splitNul pkg.content.identifier).1
  if identifierBytes = [] then { pkg.blank with status := .fileNameInvalid }
  else match fromUtf8 identifierBytes with
    | none => { pkg.blank with status := .fileNameInvalid }
    | some _ => { pkg.blank with status := .internalError }

/-- The answer made of what the store answers. -/
def respond (pkg : Package) : Except StoreError Answer → Package
  | .ok (.bytes data) =>
    { pkg.blank with status := .success, content := { pkg.blank.content with data } }
  | .ok _ => { pkg.blank with status := .success }
  | .error _ => { pkg.blank with
      status := match pkg.behavior with
        | .putFile => .storeFailed
        | _ => .fileNotFound }

/-- The type of what a call has when it releases the lock of the store. -/
def Mid : Option Request → Type
  | some r => r.Mid
  | none => Unit

/-- The call of the store for an order. -/
def job (E : Engine) (pkg : Package) : (r : Option Request) → Lock.Job Prim.step (Mid r) Package
  | some r => (r.job E).map fun a => .ok (pkg.respond a)
  | none => .refuse (.ok pkg.refusal)

theorem run_job_some (E : Engine) (pkg : Package) (r : Request) (s : Store) :
    (pkg.job E (some r)).run s =
      (.ok (pkg.respond ((r.program E).run Prim.step s).1), ((r.program E).run Prim.step s).2) := by
  refine (Lock.Job.run_map (fun a => .ok (pkg.respond a)) (r.job E) s).trans ?_
  rw [Request.run_job]

/-- The call is what a worker does with the order. -/
theorem run_job (E : Engine) (d : Draws) (pkg : Package) (s : Store) :
    (pkg.job E (pkg.request d)).run s = (processPackage E d pkg).run Prim.step s := by
  rw [processPackage]
  dsimp only
  by_cases hnil : (splitNul pkg.content.identifier).1 = []
  · rw [if_pos hnil, show pkg.request d = none from if_pos hnil, job, refusal, if_pos hnil]
    rfl
  · rw [if_neg hnil]
    cases hname : fromUtf8 (splitNul pkg.content.identifier).1 with
    | none =>
      rw [show pkg.request d = none by rw [request, if_neg hnil, hname], job, refusal, if_neg hnil,
        hname]
      rfl
    | some identifier =>
      cases hb : pkg.behavior with
      | none =>
        rw [show pkg.request d = none by rw [request, if_neg hnil, hname]; simp only [hb], job,
          refusal, if_neg hnil, hname]
        rfl
      | putFile =>
        rw [show pkg.request d = some (.put d identifier pkg.content.data
            (flagSet pkg.content.flags .cover) (flagSet pkg.content.flags .compress)) by
          rw [request, if_neg hnil, hname]; simp only [hb], run_job_some, Request.program,
          Request.run_map, run_bind, run_attempt]
        cases ((StoreManager.putBinaryData E d identifier pkg.content.data
            (flagSet pkg.content.flags .cover) (flagSet pkg.content.flags .compress)).run
            Prim.step s).1 with
        | error e => simp only [Except.map, respond, hb]; rfl
        | ok a => rfl
      | getFile =>
        rw [show pkg.request d = some (.get identifier) by
          rw [request, if_neg hnil, hname]; simp only [hb], run_job_some, Request.program,
          Request.run_map, run_bind, run_attempt]
        cases ((StoreManager.getBinaryData E identifier).run Prim.step s).1 with
        | error e => simp only [Except.map, respond, hb]; rfl
        | ok a => rfl
      | deleteFile =>
        rw [show pkg.request d = some (.delete identifier false) by
          rw [request, if_neg hnil, hname]; simp only [hb], run_job_some, Request.program,
          Request.run_map, run_bind, run_attempt]
        cases ((StoreManager.delete identifier false).run Prim.step s).1 with
        | error e => simp only [Except.map, respond, hb]; rfl
        | ok a => rfl

end Package

/-- The order of a handler. -/
def Role.order : Role → Package
  | handler order => order
  | _ => .new []

/-! ## Orders one after the other -/

section

variable {ι : Type} (E : Engine) (draws : ι → Draws) (role : ι → Role)

/-- The orders of handlers, carried out one after the other: the answers, and the store after
    them. -/
def serveAll : List ι → Store → List (ι × Except StoreError Package) × Store
  | [], s => ([], s)
  | i :: served, s =>
    let done := (processPackage E (draws i) (role i).order).run Prim.step s
    let rest := serveAll served done.2
    ((i, done.1) :: rest.1, rest.2)

/-- What a call for the order of a handler asks of the store. -/
abbrev Role.asks (i : ι) : Option Request := (role i).order.request (draws i)

/-- The call for the order of a handler. -/
def jobs (i : ι) : Lock.Job Prim.step (Package.Mid (Role.asks draws role i)) Package :=
  (role i).order.job E (Role.asks draws role i)

theorem sequential_jobs (served : List ι) (s : Store) :
    Lock.sequential (jobs E draws role) served s = serveAll E draws role served s := by
  induction served generalizing s with
  | nil => rfl
  | cons i served ih =>
    simp only [Lock.sequential, serveAll, jobs, Package.run_job]
    rw [← ih]

end

/-! ## The conveyer and the store -/

/-- The conveyer, the calls of the store, and what has happened to them. -/
structure Kitchen {ι : Type} (draws : ι → Draws) (role : ι → Role) where
  convey : ConveyState ι
  calls : Lock.Config Store StoreError Prim.Res
    (fun i => Package.Mid (Role.asks draws role i)) Package
  trace : List (Lock.Event ι)

namespace Kitchen

variable {ι : Type} [DecidableEq ι] (E : Engine) {draws : ι → Draws} {role : ι → Role}

/-- What a primitive answers and makes of the state. Who begins a task calls the store for its
    order, and has carried it out when that call has returned. -/
def Act (i : ι) (s : Kitchen draws role) :
    (p : ConveyPrim ι) → Except ConveyError p.Res → Kitchen draws role → Prop
  | .takeTask, a, s' => s.convey.Act E i .takeTask a s'.convey ∧
    ∃ porter order j, a = .ok (porter, order) ∧ role j = .handler order ∧
      Lock.Step (jobs E draws role) s.calls (.invoke j) s'.calls ∧ s'.trace = s.trace ++ [.invoke j]
  | .process order, a, s' => s' = s ∧
    ∃ j resPkg, role j = .handler order ∧ s.calls.phase j = .returned (.ok resPkg) ∧ a = .ok resPkg
  | p, a, s' => s.convey.Act E i p a s'.convey ∧ s'.calls = s.calls ∧ s'.trace = s.trace

/-- What happens by itself to the conveyer does, and calls of the store go on. -/
def Env (s s' : Kitchen draws role) : Prop :=
  s.convey.Env s'.convey ∧ s'.calls = s.calls ∧ s'.trace = s.trace ∨
    s'.convey = s.convey ∧ ∃ e, (∀ j, e ≠ .invoke j) ∧
      Lock.Step (jobs E draws role) s.calls e s'.calls ∧ s'.trace = s.trace ++ [e]

def system (draws : ι → Draws) (role : ι → Role) :
    Interleave.System ι (Kitchen draws role) ConveyError (ConveyPrim.Res (ι := ι)) where
  act i s p a s' := s.Act E i p a s'
  env s s' := s.Env E s'

end Kitchen

section

variable {ι : Type} [DecidableEq ι] {E : Engine} {draws : ι → Draws} {role : ι → Role} {i j : ι}
  {s s' : Kitchen draws role} {store : Store} {e : (p : ConveyPrim ι) × Except ConveyError p.Res}

abbrev KitchenConfig (draws : ι → Draws) (role : ι → Role) :=
  Interleave.Config ι (Kitchen draws role) ConveyError (ConveyPrim.Res (ι := ι)) Unit ConveyPhase

/-- The runs of a server on a store. -/
def KitchenRun (E : Engine) (store : Store) (c : KitchenConfig draws role) : Prop :=
  ∃ now, Interleave.Run (Kitchen.system E draws role) (fun i => conveyOrder (role i))
    (fun _ _ _ => True)
    ⟨⟨.start now, .init store, []⟩, fun i => (role i).program, fun _ => .start, []⟩ c

/-! ## What is said of runs -/

/-- The primitive calls the store, or waits for its answer. -/
def ConveyPrim.callsStore : ConveyPrim ι → Bool
  | takeTask | process _ => true
  | _ => false

/-- The order of a task that is begun. -/
def takenBy : ((p : ConveyPrim ι) × Except ConveyError p.Res) → Option Package
  | ⟨.takeTask, .ok task⟩ => some task.2
  | _ => none

/-- The order that is carried out, with its answer. -/
def processedBy : ((p : ConveyPrim ι) × Except ConveyError p.Res) → Option (Package × Package)
  | ⟨.process order, .ok resPkg⟩ => some (order, resPkg)
  | _ => none

/-- A handler registers to wait for its answer. -/
def isRegistration : ((p : ConveyPrim ι) × Except ConveyError p.Res) → Bool
  | ⟨.registerWaiter _, .ok registered⟩ => registered
  | _ => false

omit [DecidableEq ι] in
theorem exists_of_isReceipt (he : isReceipt e) :
    ∃ pkg, e = ⟨.awaitResponse, .ok (.package pkg)⟩ := by
  unfold isReceipt at he
  split at he
  · exact ⟨_, rfl⟩
  · cases he

omit [DecidableEq ι] in
theorem unsent_of_allowed {r : Role} {q : ConveyPhase} (he : isRegistration e)
    (h : (conveyOrder r).allowed q e.1) : q.Unsent := by
  obtain ⟨p, a⟩ := e
  cases p with
  | registerWaiter uniId =>
    cases r with
    | handler order =>
      cases q with
      | start => trivial
      | _ => exact h.elim
    | worker | cleaner | porter => cases q <;> exact h.elim
  | _ => cases he

namespace Kitchen

/-- Who begins a task calls the store for its order. -/
theorem act_takeTask {porter : ι} {order : Package} (before after : List (ι × Package))
    (hspawned : s.convey.spawned = before ++ (porter, order) :: after)
    (hrole : role j = .handler order) (hidle : s.calls.phase j = .idle) :
    s.Act E i .takeTask (.ok (porter, order))
      ⟨{ s.convey with spawned := before ++ after }, s.calls.set j .waiting,
        s.trace ++ [.invoke j]⟩ :=
  ⟨⟨before, _, after, hspawned, rfl, rfl⟩, porter, order, j, rfl, hrole, .invoke hidle, rfl⟩

theorem act_of_callsStore {p : ConveyPrim ι} {a : Except ConveyError p.Res} {convey : ConveyState ι}
    (hp : p.callsStore = false) (hact : s.convey.Act E i p a convey) :
    s.Act E i p a ⟨convey, s.calls, s.trace⟩ := by
  cases p with
  | takeTask | process => cases hp
  | _ => exact ⟨hact, rfl, rfl⟩

/-- A primitive calls the store, or gets the answer of a call, or has nothing to do with it. -/
theorem Act.cases (h : s.Act E i e.1 e.2 s') :
    (∃ j order, takenBy e = some order ∧ processedBy e = none ∧ role j = .handler order ∧
      s.convey.Act E i e.1 e.2 s'.convey ∧
      Lock.Step (jobs E draws role) s.calls (.invoke j) s'.calls ∧
      s'.trace = s.trace ++ [.invoke j]) ∨
    (∃ j order resPkg, e = ⟨.process order, .ok resPkg⟩ ∧ s' = s ∧ role j = .handler order ∧
      s.calls.phase j = .returned (.ok resPkg)) ∨
    takenBy e = none ∧ processedBy e = none ∧ s.convey.Act E i e.1 e.2 s'.convey ∧
      s'.calls = s.calls ∧ s'.trace = s.trace := by
  obtain ⟨p, a⟩ := e
  cases p with
  | takeTask =>
    obtain ⟨hact, porter, order, j, rfl, hrole, hstep, htrace⟩ := h
    exact .inl ⟨j, order, rfl, rfl, hrole, hact, hstep, htrace⟩
  | process order =>
    obtain ⟨hs, j, resPkg, hrole, hreturned, rfl⟩ := h
    exact .inr (.inl ⟨j, order, resPkg, rfl, hs, hrole, hreturned⟩)
  | _ => exact .inr (.inr ⟨rfl, rfl, h⟩)

/-! ## Forgetting the conveyer -/

/-- The calls of the store are an execution of them. -/
def Cooked (E : Engine) (store : Store) (s : Kitchen draws role) : Prop :=
  Lock.Execution (jobs E draws role) store s.trace s.calls

theorem Cooked.act (h : s.Cooked E store) (hact : s.Act E i e.1 e.2 s') : s'.Cooked E store := by
  rcases hact.cases with ⟨j, order, -, -, -, -, hstep, htrace⟩ | ⟨_, _, _, -, rfl, -, -⟩ |
    ⟨-, -, -, hcalls, htrace⟩
  · rw [Cooked, htrace]
    exact h.step hstep
  · exact h
  · rw [Cooked, htrace, hcalls]
    exact h

theorem Cooked.env (h : s.Cooked E store) (henv : s.Env E s') : s'.Cooked E store := by
  rcases henv with ⟨-, hcalls, htrace⟩ | ⟨-, e, -, hstep, htrace⟩
  · rw [Cooked, htrace, hcalls]
    exact h
  · rw [Cooked, htrace]
    exact h.step hstep

/-- A call that has returned gave the answer of a worker. -/
theorem Cooked.answers (h : s.Cooked E store) {order resPkg : Package}
    (hrole : role j = .handler order) (hj : s.calls.phase j = .returned (.ok resPkg)) :
    order.Answers E resPkg := by
  have hmem := Lock.Execution.mem_sequential h hj
  rw [sequential_jobs] at hmem
  generalize Lock.Execution.order s.trace = served at hmem
  generalize store = s₀ at hmem
  induction served generalizing s₀ with
  | nil => cases hmem
  | cons k served ih =>
    rcases List.mem_cons.mp hmem with heq | hmem
    · obtain ⟨rfl, hanswer⟩ := Prod.mk.inj heq
      rw [hrole] at hanswer
      exact ⟨draws j, s₀, hanswer.symm⟩
    · exact ih _ hmem

/-- What a primitive does to the conveyer. -/
theorem Cooked.act_convey (h : s.Cooked E store) (hact : s.Act E i e.1 e.2 s') :
    s.convey.Act E i e.1 e.2 s'.convey := by
  rcases hact.cases with ⟨_, _, -, -, -, hact, -⟩ |
    ⟨j, order, resPkg, rfl, rfl, hrole, hreturned⟩ | ⟨-, -, hact, -⟩
  · exact hact
  · exact ⟨⟨resPkg, h.answers hrole hreturned, rfl⟩, rfl⟩
  · exact hact

end Kitchen

/-! ## Forgetting the store -/

namespace KitchenRun

variable {c : KitchenConfig draws role}

theorem convey (h : KitchenRun E store c) :
    c.state.Cooked E store ∧ ConveyRun E role (c.map Kitchen.convey) := by
  obtain ⟨now, hrun⟩ := h
  have hstart : (⟨.start now, .init store, []⟩ : Kitchen draws role).Cooked E store := .init
  have hproject := Interleave.Run.project (S := Kitchen.system E draws role)
    (T := ConveyState.system E) Kitchen.convey hstart
    (fun _ _ hs henv => ⟨hs.env henv, henv.elim (fun h => .inr h.1) fun h => .inl h.1⟩)
    (fun _ _ p a _ hs hact => ⟨hs.act (e := ⟨p, a⟩) hact, hs.act_convey (e := ⟨p, a⟩) hact⟩) hrun
  exact ⟨hproject.1, now, hproject.2⟩

end KitchenRun

end

/-! ## Tasks that are begun -/

section

variable {ι : Type} [DecidableEq ι] {E : Engine} {role : ι → Role} {i : ι} {s s' : ConveyState ι}
  {r : Role} {phase : ι → ConveyPhase} {q q' : ConveyPhase} {log : List (ConveyEvent ι)}
  {order : Package} {e : (p : ConveyPrim ι) × Except ConveyError p.Res}

/-- A task with the order was begun. -/
def Taken (order : Package) (log : List (ConveyEvent ι)) : Prop :=
  ∃ e ∈ log, takenBy e.call = some order

namespace ConveyStep

theorem holding_cases (h : ConveyStep E i s r q e q' s') (hq : q' = .holding order) :
    poppedBy e = some order := by
  cases h with
  | consume =>
    cases hq
    rfl
  | _ => exact ConveyPhase.noConfusion hq

theorem spawned_cases (h : ConveyStep E i s r q e q' s') {t : ι × Package} (ht : t ∈ s'.spawned) :
    t ∈ s.spawned ∨ q = .holding t.2 := by
  cases h with
  | spawn =>
    rcases List.mem_append.mp ht with ht | ht
    · exact .inl ht
    · cases List.mem_singleton.mp ht
      exact .inr rfl
  | takeTask hspawned =>
    rw [hspawned]
    exact .inl (List.perm_middle.symm.subset (List.mem_cons_of_mem _ ht))
  | _ => exact .inl ht

theorem taken_cases (h : ConveyStep E i s r q e q' s') (he : takenBy e = some order) :
    (∃ porter, (porter, order) ∈ s.spawned) ∧ q' = .working order := by
  cases h with
  | takeTask hspawned =>
    cases he
    exact ⟨⟨_, hspawned ▸ List.mem_append_right _ List.mem_cons_self⟩, rfl⟩
  | _ => cases he

/-- Who is to carry out an order does. -/
theorem working_cases (h : ConveyStep E i s r q e q' s') (hq : q = .working order) :
    isProcessing order.uniId e = true := by
  cases h with
  | process =>
    cases hq
    exact decide_eq_true rfl
  | select hor => rcases hor with rfl | rfl <;> exact ConveyPhase.noConfusion hq
  | _ => exact ConveyPhase.noConfusion hq

theorem pushed_cases (h : ConveyStep E i s r q e q' s') (he : pushedBy e = some order) :
    r = .handler order ∧ ¬q'.Unsent := by
  cases h with
  | push =>
    cases he
    exact ⟨rfl, id⟩
  | _ => cases he

theorem unsent_cases (h : ConveyStep E i s r q e q' s') (hq : q'.Unsent) : q.Unsent := by
  cases h with
  | register | lock | full | roomy | evict | evictNone | unregister | instant => trivial
  | _ => exact hq.elim

end ConveyStep

/-- A task is only begun for an order that was taken from the queue, and then is with a worker or
    has been carried out. -/
structure Launched (role : ι → Role) (s : ConveyState ι) (phase : ι → ConveyPhase)
    (log : List (ConveyEvent ι)) : Prop where
  lined : Lined s log
  holding : ∀ i order, phase i = .holding order → order ∈ popped log
  spawned : ∀ t ∈ s.spawned, t.2 ∈ popped log
  taken : ∀ order, Taken order log → order ∈ popped log ∧
    ((∃ k, phase k = .working order) ∨ 0 < timesProcessed order.uniId log)
  unsent : ∀ i order, role i = .handler order → (phase i).Unsent → order ∉ pushed log

theorem Launched.step (h : Launched role s phase log) (hfresh : FreshIds role)
    (hstep : ConveyStep E i s (role i) (phase i) e q s') :
    Launched role s' (Function.update phase i q) (⟨i, s, e⟩ :: log) := by
  have hpopped {order : Package} (hmem : order ∈ popped log) :
      order ∈ popped (⟨i, s, e⟩ :: log) := by
    rw [popped_cons]
    exact List.mem_append_left _ hmem
  refine ⟨h.lined.step hstep,
    (Function.forall_update_iff phase fun _ q => ∀ order, q = .holding order →
      order ∈ popped (⟨i, s, e⟩ :: log)).mpr
      ⟨fun order hq => ?_, fun j _ order hj => hpopped (h.holding j order hj)⟩,
    fun t ht => ?_, fun order htaken => ?_,
    (Function.forall_update_iff phase fun j q => ∀ order, role j = .handler order → q.Unsent →
      order ∉ pushed (⟨i, s, e⟩ :: log)).mpr ⟨fun order hrole hq hmem => ?_, fun j hj order hrole hq hmem => ?_⟩⟩
  · rw [popped_cons, hstep.holding_cases hq]
    exact List.mem_append_right _ List.mem_cons_self
  · rcases hstep.spawned_cases ht with ht | hi
    · exact hpopped (h.spawned t ht)
    · exact hpopped (h.holding i _ hi)
  · obtain ⟨e', he', hcall⟩ := htaken
    rcases List.mem_cons.mp he' with rfl | he'
    · obtain ⟨⟨porter, hmem⟩, hq⟩ := hstep.taken_cases hcall
      exact ⟨hpopped (h.spawned _ hmem), .inl ⟨i, (Function.update_self ..).trans hq⟩⟩
    · obtain ⟨hmem, hor⟩ := h.taken order ⟨e', he', hcall⟩
      refine ⟨hpopped hmem, ?_⟩
      rw [timesProcessed_cons]
      rcases hor with ⟨k, hk⟩ | hlt
      · by_cases hki : k = i
        · rw [hstep.working_cases (hki ▸ hk), if_pos rfl]
          exact .inr (Nat.succ_pos _)
        · exact .inl ⟨k, (Function.update_of_ne hki ..).trans hk⟩
      · exact .inr (Nat.add_pos_left hlt _)
  · rw [pushed_cons] at hmem
    rcases List.mem_append.mp hmem with hmem | hmem
    · exact h.unsent i order hrole (hstep.unsent_cases hq) hmem
    · exact (hstep.pushed_cases (Option.mem_toList.mp hmem)).2 hq
  · rw [pushed_cons] at hmem
    rcases List.mem_append.mp hmem with hmem | hmem
    · exact h.unsent j order hrole hq hmem
    · have hi := (hstep.pushed_cases (Option.mem_toList.mp hmem)).1
      exact hj (hfresh j i _ _ hrole hi rfl)

omit [DecidableEq ι] in
theorem Launched.env (h : Launched role s phase log) (henv : s.Env s') :
    Launched role s' phase log := by
  obtain ⟨⟨hsublist, hexact⟩, hholding, hspawned, htaken, hunsent⟩ := h
  rcases henv with ⟨now, _, rfl⟩ | rfl
  · exact ⟨⟨hsublist, hexact⟩, hholding, hspawned, htaken, hunsent⟩
  · exact ⟨⟨hsublist, hexact⟩, hholding, hspawned, htaken, hunsent⟩

theorem ConveyRun.launched {c : Conveyance ι} (hfresh : FreshIds role) (h : ConveyRun E role c) :
    Launched role c.state c.phase c.log :=
  h.invariant (fun _ => ⟨⟨.refl _, fun _ => rfl⟩, fun _ _ => ConveyPhase.noConfusion,
      fun _ ht => absurd ht List.not_mem_nil, fun _ ⟨_, he, _⟩ => absurd he List.not_mem_nil,
      fun _ _ _ _ => List.not_mem_nil⟩)
    (fun _ _ _ _ hs => hs.env) fun _ _ _ _ _ _ _ hs => hs.step hfresh

theorem ConveyRun.conveyed {c : Conveyance ι} (hfresh : FreshIds role) (h : ConveyRun E role c) :
    Conveyed E role c.state c.phase c.log :=
  h.invariant .start (fun _ _ _ _ hc => hc.env) fun _ _ _ _ _ _ _ hc => hc.step hfresh

/-- An order whose task has begun was put on the queue and has not been taken from it to make
    room. -/
theorem ConveyRun.not_evicted {c : Conveyance ι} (hfresh : FreshIds role) (h : ConveyRun E role c)
    (htaken : Taken order c.log) : order ∈ pushed c.log ∧ ¬Evicted order c.log := by
  obtain ⟨hpopped, hor⟩ := (h.launched hfresh).taken order htaken
  refine ⟨(h.launched hfresh).lined.sublist.subset (List.mem_append_left _ hpopped),
    fun hevicted => ?_⟩
  obtain ⟨place, hplaced⟩ := (h.conveyed hfresh).placed
  have hplace := hplaced.evicted order hevicted
  rcases hor with ⟨k, hk⟩ | hlt
  · cases hplace.symm.trans (hplaced.lies (.working k) order hk).2
  · rw [hplaced.processed, hplace] at hlt
    exact Nat.lt_irrefl 0 hlt

end

/-! ## The calls of the store and what has happened -/

section

variable {ι : Type} [DecidableEq ι] {E : Engine} {draws : ι → Draws} {role : ι → Role} {i j : ι}
  {s s' : Kitchen draws role} {store : Store} {e : (p : ConveyPrim ι) × Except ConveyError p.Res}

abbrev KitchenEvent (draws : ι → Draws) (role : ι → Role) :=
  Interleave.Event ι (Kitchen draws role) ConveyError (ConveyPrim.Res (ι := ι))

/-- The calls of the store are those of tasks that were begun, and those whose answers were got have
    returned. -/
structure Called (s : Kitchen draws role) (log : List (KitchenEvent draws role)) : Prop where
  taken : ∀ j, s.calls.phase j ≠ .idle → ∃ order, role j = .handler order ∧
    ∃ e ∈ log, takenBy e.call = some order
  returned : ∀ e ∈ log, ∀ order resPkg, processedBy e.call = some (order, resPkg) →
    ∃ j, role j = .handler order ∧ s.calls.phase j = .returned (.ok resPkg)
  trace : ∀ e ∈ log, e.state.trace <+: s.trace

variable {log : List (KitchenEvent draws role)}

/-- What a step of the calls keeps. -/
theorem Called.of_step {event : Lock.Event ι} (h : Called s log)
    (hstep : Lock.Step (jobs E draws role) s.calls event s'.calls)
    (htrace : s'.trace = s.trace ++ [event])
    (htaken : ∀ j, event = .invoke j → ∃ order, role j = .handler order ∧
      ∃ e ∈ log, takenBy e.call = some order) : Called s' log where
  taken j hj := by
    obtain ⟨k, ph, hphase, -, hor⟩ := hstep.phase_eq
    by_cases hjk : j = k
    · subst hjk
      rcases hor with ⟨hinvoke, -⟩ | ⟨hne, -⟩
      · exact htaken j hinvoke
      · exact h.taken j hne
    · rw [hphase, Function.update_of_ne hjk] at hj
      exact h.taken j hj
  returned e he order resPkg hcall := by
    obtain ⟨j, hrole, hj⟩ := h.returned e he order resPkg hcall
    exact ⟨j, hrole, hstep.phase_returned hj⟩
  trace e he := by
    rw [htrace]
    exact (h.trace e he).trans (List.prefix_append _ _)

theorem Called.env (h : Called s log) (henv : s.Env E s') : Called s' log := by
  rcases henv with ⟨-, hcalls, htrace⟩ | ⟨-, event, hnot, hstep, htrace⟩
  · obtain ⟨htaken, hreturned, hprefix⟩ := h
    exact ⟨by rwa [hcalls], by rwa [hcalls], by rwa [htrace]⟩
  · exact h.of_step hstep htrace fun j heq => absurd heq (hnot j)

theorem Called.act (h : Called s log) (hact : s.Act E i e.1 e.2 s') :
    Called s' (⟨i, s, e⟩ :: log) := by
  have hcons (hprocess : processedBy e = none) : Called s (⟨i, s, e⟩ :: log) := by
    refine ⟨fun j hj => ?_, List.forall_mem_cons.mpr ⟨fun order resPkg hcall => ?_, h.returned⟩,
      List.forall_mem_cons.mpr ⟨List.prefix_refl _, h.trace⟩⟩
    · obtain ⟨order, hrole, e', he', hcall⟩ := h.taken j hj
      exact ⟨order, hrole, e', List.mem_cons_of_mem _ he', hcall⟩
    · cases hprocess.symm.trans hcall
  rcases hact.cases with ⟨j, order, htaken, hprocess, hrole, -, hstep, htrace⟩ |
    ⟨j, order, resPkg, rfl, rfl, hrole, hreturned⟩ | ⟨-, hprocess, -, hcalls, htrace⟩
  · refine (hcons hprocess).of_step hstep htrace fun k heq => ?_
    cases heq
    exact ⟨order, hrole, _, List.mem_cons_self, htaken⟩
  · refine ⟨fun k hk => ?_, List.forall_mem_cons.mpr ⟨fun order' resPkg' hcall => ?_, h.returned⟩,
      List.forall_mem_cons.mpr ⟨List.prefix_refl _, h.trace⟩⟩
    · obtain ⟨order', hrole', e', he', hcall⟩ := h.taken k hk
      exact ⟨order', hrole', e', List.mem_cons_of_mem _ he', hcall⟩
    · cases hcall
      exact ⟨j, hrole, hreturned⟩
  · obtain ⟨htaken, hreturned, hprefix⟩ := hcons hprocess
    exact ⟨by rwa [hcalls], by rwa [hcalls], by rwa [htrace]⟩

namespace KitchenRun

variable {c : KitchenConfig draws role}

theorem called (h : KitchenRun E store c) : Called c.state c.log := by
  obtain ⟨now, hrun⟩ := h
  refine hrun.invariant (I := fun c => Called c.state c.log) (fun i => (role i).ordered_program)
    ⟨fun _ hidle => absurd rfl hidle, fun _ he => absurd he List.not_mem_nil,
      fun _ he => absurd he List.not_mem_nil⟩ (fun _ _ hc henv => hc.env henv)
    fun _ i p a _ _ hc _ hact _ => hc.act (e := ⟨p, a⟩) hact

/-- A run goes on with a call that is answered. -/
theorem act (h : KitchenRun E store c) (i : ι) (p : ConveyPrim ι)
    {k : Except ConveyError p.Res → ConveyProg ι Unit} (a : Except ConveyError p.Res)
    (hcall : c.programs i = .call p k) (hact : c.state.Act E i p a s) :
    KitchenRun E store (c.act (fun i => conveyOrder (role i)) i p a (k a) s) := by
  obtain ⟨now, hrun⟩ := h
  exact ⟨now, hrun.act i p a hcall hact trivial⟩

/-- The same for a primitive that has nothing to do with the store. -/
theorem move {s : ConveyState ι} (h : KitchenRun E store c) (i : ι) (p : ConveyPrim ι)
    {k : Except ConveyError p.Res → ConveyProg ι Unit} (a : Except ConveyError p.Res)
    (hcall : c.programs i = .call p k) (hp : p.callsStore = false)
    (hact : c.state.convey.Act E i p a s) :
    KitchenRun E store (c.act (fun i => conveyOrder (role i)) i p a (k a)
      ⟨s, c.state.calls, c.state.trace⟩) :=
  h.act i p a hcall (Kitchen.act_of_callsStore hp hact)

variable (draws) in
/-- A run of the conveyer in which no task has begun is one of the server, on any store. -/
theorem ofConvey {c : Conveyance ι} (h : ConveyRun E role c)
    (hlog : ∀ e ∈ c.log, e.call.1.callsStore = false) (store : Store) :
    KitchenRun E store (c.map fun s => (⟨s, .init store, []⟩ : Kitchen draws role)) := by
  obtain ⟨now, hrun⟩ := h
  refine ⟨now, ?_⟩
  induction hrun with
  | refl => exact .refl
  | env s _ henv ih => exact (ih hlog).env _ (.inl ⟨henv, rfl, rfl⟩)
  | @act c i p k a s _ hcall hact _ ih =>
    obtain ⟨hp, hlog⟩ := List.forall_mem_cons.mp hlog
    exact (ih hlog).act i p a hcall
      (Kitchen.act_of_callsStore (s := ⟨c.state, .init store, []⟩) hp hact) trivial

/-- A call of the store goes on. -/
theorem call (h : KitchenRun E store c) {event : Lock.Event ι}
    {calls : Lock.Config Store StoreError Prim.Res
      (fun i => Package.Mid (Role.asks draws role i)) Package}
    (hstep : Lock.Step (jobs E draws role) c.state.calls event calls)
    (hnot : ∀ j, event ≠ .invoke j) :
    KitchenRun E store { c with state := ⟨c.state.convey, calls, c.state.trace ++ [event]⟩ } := by
  obtain ⟨now, hrun⟩ := h
  exact ⟨now, hrun.env _ (.inr ⟨rfl, event, hnot, hstep, rfl⟩)⟩

/-- A call that has the lock does all it has to. -/
theorem carryOut (h : KitchenRun E store c) {i : ι}
    {p : Program StoreError Prim.Res (Package.Mid (Role.asks draws role i))}
    (hi : c.state.calls.phase i = .inside p) :
    ∃ trace, KitchenRun E store { c with state := ⟨c.state.convey,
      { c.state.calls.set i (.inside (.ret (p.run Prim.step c.state.calls.state).1)) with
        state := (p.run Prim.step c.state.calls.state).2 }, trace⟩ } := by
  refine Lock.Step.carryOut (jobs E draws role) (P := fun calls => ∃ trace,
    KitchenRun E store { c with state := ⟨c.state.convey, calls, trace⟩ }) ?_ ⟨_, h⟩ hi
  rintro calls calls' ⟨trace, hrun⟩ hstep
  exact ⟨_, hrun.call hstep nofun⟩

/-- The run up to an event of its log. -/
theorem before (h : KitchenRun E store c) {t t' : List (KitchenEvent draws role)}
    {e : KitchenEvent draws role} (ht : c.log = t ++ e :: t') :
    ∃ c' : KitchenConfig draws role, KitchenRun E store c' ∧ c'.log = t' ∧ c'.state = e.state ∧
      (conveyOrder (role e.process)).allowed (c'.phase e.process) e.call.1 := by
  obtain ⟨now, hrun⟩ := h
  obtain ⟨c', hrun', hc'⟩ := hrun.before (fun i => (role i).ordered_program) rfl ht
  exact ⟨c', ⟨now, hrun'⟩, hc'⟩

/-- The call of a handler that has received its answer has returned it. -/
theorem returned_of_received (h : KitchenRun E store c) (hfresh : FreshIds role) {pkg : Package}
    (hreceived : Received i pkg (c.map Kitchen.convey).log) :
    c.state.calls.phase i = .returned (.ok pkg) := by
  obtain ⟨order, hrole, -, e, he, hcall⟩ :=
    (h.convey.2.conveyed hfresh).registered.received i pkg hreceived
  obtain ⟨e', he', rfl⟩ := List.mem_map.mp he
  have hprocess : processedBy e'.call = some (order, pkg) := congrArg processedBy hcall
  obtain ⟨j, hj, hreturned⟩ := h.called.returned e' he' order pkg hprocess
  cases hfresh i j order order hrole hj rfl
  exact hreturned

/-- A call is that of an order whose task was begun. -/
theorem taken (h : KitchenRun E store c) (hi : c.state.calls.phase i ≠ .idle) :
    ∃ order, role i = .handler order ∧ Taken order (c.map Kitchen.convey).log := by
  obtain ⟨order, hrole, e, he, hcall⟩ := h.called.taken i hi
  exact ⟨order, hrole, _, List.mem_map_of_mem he, hcall⟩

/-- The call of a handler that is about to register has not been made. -/
theorem idle_of_unsent (h : KitchenRun E store c) (hfresh : FreshIds role)
    (hi : (c.phase i).Unsent) : c.state.calls.phase i = .idle := by
  by_contra hidle
  obtain ⟨order, hrole, htaken⟩ := h.taken hidle
  have hpushed := (h.convey.2.not_evicted hfresh htaken).1
  exact (h.convey.2.launched hfresh).unsent i order hrole hi hpushed

/-- Whoever had its answer when another registered was served before it. -/
theorem real_time (h : KitchenRun E store c) (hfresh : FreshIds role)
    {e e' : KitchenEvent draws role} (hsublist : [e', e].Sublist c.log)
    (hreceipt : isReceipt e.call) (hregistration : isRegistration e'.call)
    (hserved : e'.process ∈ Lock.Execution.order c.state.trace) :
    [e.process, e'.process].Sublist (Lock.Execution.order c.state.trace) := by
  obtain ⟨r₁, r₂, hlog, hr₁, hr₂⟩ := List.cons_sublist_iff.mp hsublist
  obtain ⟨t, t', rfl⟩ := List.append_of_mem hr₁
  rw [List.append_assoc, List.cons_append] at hlog
  obtain ⟨v, hv⟩ := h.called.trace e' (hsublist.subset List.mem_cons_self)
  -- the run up to the registration
  obtain ⟨c', h', hlog', hstate, hallowed⟩ := h.before hlog
  have hbegun : (c'.state.calls.phase e.process).Begun := by
    have he : e ∈ c'.log := hlog' ▸ List.mem_append_right _ (List.singleton_sublist.mp hr₂)
    obtain ⟨pkg, hcall⟩ := exists_of_isReceipt hreceipt
    rw [h'.returned_of_received (i := e.process) hfresh ⟨_, List.mem_map_of_mem he, rfl, hcall⟩]
    trivial
  have hidle : ¬(c'.state.calls.phase e'.process).Begun := by
    rw [h'.idle_of_unsent hfresh (unsent_of_allowed hregistration hallowed)]
    exact id
  rw [← hv, ← hstate] at hserved ⊢
  exact h'.convey.1.sublist_order hbegun hidle hserved

end KitchenRun

/-- In any run of a server on a store, if the requests have different identifiers, the orders that
    have taken effect did so one after the other: there is an order of the handlers served such
    that, carrying out their orders in it on the store as it was at the start, each handler that has
    received an answer is given just this answer; a handler that had its answer when another
    registered comes before it; the store is the one after all of them once no call is under way,
    and then all calls have taken effect. No order that was taken from the full queue is among
    them. -/
theorem orders_linearizable {c : KitchenConfig draws role} (hfresh : FreshIds role)
    (h : KitchenRun E store c) :
    ∃ served : List ι, served.Nodup ∧
      (∀ i ∈ served, ∃ order, role i = .handler order ∧
        ¬Evicted order (c.map Kitchen.convey).log) ∧
      (∀ i pkg, Received i pkg (c.map Kitchen.convey).log →
        (i, .ok pkg) ∈ (serveAll E draws role served store).1) ∧
      (∀ e e', [e', e].Sublist c.log → isReceipt e.call → isRegistration e'.call →
        e'.process ∈ served → [e.process, e'.process].Sublist served) ∧
      ((∀ i, c.state.calls.phase i = .idle ∨ ∃ r, c.state.calls.phase i = .returned r) →
        c.state.calls.state = (serveAll E draws role served store).2 ∧
        ∀ i, c.state.calls.phase i ≠ .idle → i ∈ served) := by
  obtain ⟨hcooked, hrun⟩ := h.convey
  have hlin := Lock.Execution.linearized hcooked
  refine ⟨Lock.Execution.order c.state.trace, hlin.nodup, fun i hi => ?_, fun i pkg hi => ?_,
    fun e e' hsublist hreceipt hregistration => h.real_time hfresh hsublist hreceipt hregistration,
    fun hdone => ?_⟩
  · have hbegun := (hlin.begun i).mpr hi
    obtain ⟨order, hrole, htaken⟩ := h.taken (i := i) fun hidle => by
      rw [hidle] at hbegun
      exact hbegun
    exact ⟨order, hrole, (hrun.not_evicted hfresh htaken).2⟩
  · rw [← sequential_jobs]
    exact hcooked.mem_sequential (h.returned_of_received hfresh hi)
  · obtain ⟨hstate, hmem⟩ := hcooked.state_eq hdone
    rw [← sequential_jobs]
    exact ⟨hstate, fun i hi => hmem i ((hcooked.invoke_mem_iff i).mpr hi)⟩

end

/-- A file is written by the order of one handler and read by that of another. Their tasks have both
    begun before one of them has the lock of the store. -/
theorem orders_linearizable_served :
    ∃ c : KitchenConfig (fun i => .sample i.val) sampleRoles, KitchenRun .plain .empty c ∧
      ∃ served : List (Fin 5),
        (0, .ok writeAnswer) ∈
          (serveAll .plain (fun i => .sample i.val) sampleRoles served .empty).1 ∧
        (1, .ok readAnswer) ∈
          (serveAll .plain (fun i => .sample i.val) sampleRoles served .empty).1 ∧
        c.state.calls.state =
          (serveAll .plain (fun i => .sample i.val) sampleRoles served .empty).2 := by
  have h := KitchenRun.ofConvey (fun i => .sample i.val) sampleSpawned.2 (by decide) .empty
  have h := h.act 3 .takeTask (.ok (2, writeOrder)) rfl
    (Kitchen.act_takeTask (j := 0) [] [_] rfl rfl rfl)
  have h := h.act 4 .takeTask (.ok (2, readOrder)) rfl
    (Kitchen.act_takeTask (j := 1) [] [] rfl rfl rfl)
  -- the store is written
  obtain ⟨_, h⟩ := (h.call (.acquireWrite (i := 0) rfl rfl rfl rfl) nofun).carryOut (i := 0) rfl
  have h := h.call (.releaseWrite (i := 0) rfl rfl) nofun
  -- and read, before the first call has returned
  have h := h.call (.acquireRead (i := 1) rfl rfl rfl) nofun
  obtain ⟨_, h⟩ := (h.call (.ret (i := 0) rfl) nofun).carryOut (i := 1) rfl
  have h := h.call (.releaseRead (i := 1) rfl List.mem_cons_self) nofun
  have h := h.call (.ret (i := 1) rfl) nofun
  have h := h.act 3 (.process writeOrder) (.ok writeAnswer) rfl ⟨rfl, 0, _, rfl, rfl, rfl⟩
  have h := h.act 4 (.process readOrder) (.ok readAnswer) rfl ⟨rfl, 1, _, rfl, rfl, rfl⟩
  have h := h.move 4 (.produceService readAnswer) (.ok ()) rfl rfl ⟨rfl, rfl⟩
  have h := h.move 3 (.produceService writeAnswer) (.ok ()) rfl rfl ⟨rfl, rfl⟩
  have h := h.move 1 .awaitResponse (.ok (.package readAnswer)) rfl rfl ⟨rfl, .inl ⟨_, rfl, rfl⟩⟩
  have h := h.move 0 .awaitResponse (.ok (.package writeAnswer)) rfl rfl ⟨rfl, .inl ⟨_, rfl, rfl⟩⟩
  obtain ⟨served, -, -, hreceived, -, hdone⟩ := orders_linearizable freshIds_sampleRoles h
  refine ⟨_, h, served, hreceived 0 _ ⟨_, List.mem_of_getElem? (i := 0) rfl, rfl, rfl⟩,
    hreceived 1 _ ⟨_, List.mem_of_getElem? (i := 1) rfl, rfl, rfl⟩, (hdone fun i => ?_).1⟩
  match i with
  | 0 => exact .inr ⟨_, rfl⟩
  | 1 => exact .inr ⟨_, rfl⟩
  | 2 => exact .inl rfl
  | 3 => exact .inl rfl
  | 4 => exact .inl rfl

end LiNaStore
