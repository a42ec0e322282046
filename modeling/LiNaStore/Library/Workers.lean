import LiNaStore.Library.Program
import Mathlib.Logic.Function.Basic

/-!
# Workers on one state

Workers that share a state and do jobs, each one job at a time. A job is a program; the primitive
calls of the jobs that are under way come in any order (`Workers.Run`).

Jobs about different parts of the state do not disturb each other. What a part is, is said by a
*locality* of the primitives (`Locality`). A region has a view, which is the state with nothing
else in it. A primitive within a region does to the view what it does to the state, and it leaves
the views of the regions apart from this one as they are. So if the jobs under way keep to regions
that are apart, each of them does what it would do alone, on the view it found when it began
(`Workers.Local`).
-/

namespace LiNaStore

variable {ι σ κ ε Op α R : Type} {Res : Op → Type}

/-- A job under way: the state in which it began, and what is left of it. -/
structure Workers.Job (σ κ ε : Type) {Op : Type} (Res : Op → Type) (α : Type) where
  task : κ
  start : σ
  rest : Program ε Res α

/-- The shared state, the job each worker has under way, and the jobs that are done with their
    results, the last first. -/
structure Workers (ι σ κ ε : Type) {Op : Type} (Res : Op → Type) (α : Type) where
  state : σ
  running : ι → Option (Workers.Job σ κ ε Res α)
  log : List (κ × Except ε α)

namespace Workers

/-- No worker has a job. -/
def Idle (w : Workers ι σ κ ε Res α) : Prop := ∀ i, w.running i = none

variable [DecidableEq ι]

/-- The runs from `start`, in which every job is begun where `Begins` allows it. -/
inductive Run (step : (o : Op) → σ → Except ε (Res o) × σ) (job : κ → Program ε Res α)
    (Begins : Workers ι σ κ ε Res α → ι → κ → Prop) (start : σ) : Workers ι σ κ ε Res α → Prop
  | init : Run step job Begins start ⟨start, fun _ => none, []⟩
  | begins {w : Workers ι σ κ ε Res α} (i : ι) (c : κ) : Run step job Begins start w →
      w.running i = none → Begins w i c →
      Run step job Begins start
        { w with running := Function.update w.running i (some ⟨c, w.state, job c⟩) }
  | act {w : Workers ι σ κ ε Res α} (i : ι) {c : κ} {s : σ} {o : Op}
      {k : Except ε (Res o) → Program ε Res α} : Run step job Begins start w →
      w.running i = some ⟨c, s, .call o k⟩ →
      Run step job Begins start
        { w with
          state := (step o w.state).2
          running := Function.update w.running i (some ⟨c, s, k (step o w.state).1⟩) }
  | ends {w : Workers ι σ κ ε Res α} (i : ι) {c : κ} {s : σ} {r : Except ε α} :
      Run step job Begins start w → w.running i = some ⟨c, s, .ret r⟩ →
      Run step job Begins start
        { w with running := Function.update w.running i none, log := (c, r) :: w.log }

variable {step : (o : Op) → σ → Except ε (Res o) × σ} {job : κ → Program ε Res α}
  {Begins : Workers ι σ κ ε Res α → ι → κ → Prop} {start : σ} {w : Workers ι σ κ ε Res α} {i : ι}

/-- A worker can do the rest of its job without another one coming between. -/
theorem Run.finish {c : κ} {s : σ} {p : Program ε Res α}
    (h : Run step job Begins start w) (hi : w.running i = some ⟨c, s, p⟩) :
    Run step job Begins start
      { state := (p.run step w.state).2
        running := Function.update w.running i none
        log := (c, (p.run step w.state).1) :: w.log } := by
  induction p generalizing w with
  | ret r => exact h.ends i hi
  | call o k ih =>
    have hnext := ih _ (h.act i hi) (Function.update_self ..)
    rwa [Function.update_idem] at hnext

/-- A worker can do a job from its beginning to its end. -/
theorem Run.whole {c : κ} (h : Run step job Begins start w) (hi : w.running i = none)
    (hc : Begins w i c) :
    Run step job Begins start
      { state := ((job c).run step w.state).2
        running := w.running
        log := (c, ((job c).run step w.state).1) :: w.log } := by
  have hend := (h.begins i c hi hc).finish (i := i) (Function.update_self ..)
  rwa [Function.update_idem, ← hi, Function.update_eq_self] at hend

end Workers

/-! ## Regions of the state -/

/-- Regions of a state, and which primitives keep to them. -/
structure Locality (step : (o : Op) → σ → Except ε (Res o) × σ) (R : Type) where
  /-- The state with nothing in it but the region. -/
  view : R → σ → σ
  /-- Two regions have nothing in common. -/
  Apart : R → R → Prop
  /-- Nothing in the region points out of it. -/
  Closed : R → σ → Prop
  /-- A primitive is about the region, when it is called in a view. -/
  Within : R → Op → σ → Prop
  /-- It does to the view what it does to the state. -/
  step_view : ∀ {r : R} {o : Op} {s : σ}, Closed r s → Within r o (view r s) →
    step o (view r s) = ((step o s).1, view r (step o s).2)
  closed_step : ∀ {r : R} {o : Op} {s : σ}, Closed r s → Within r o (view r s) →
    Closed r (step o s).2
  /-- It does nothing to the views of regions apart. -/
  frame : ∀ {r r' : R} {o : Op} {s : σ}, Closed r s → Within r o (view r s) → Apart r r' →
    Closed r' s → view r' (step o s).2 = view r' s ∧ Closed r' (step o s).2

namespace Workers

section

variable (region : κ → σ → R) (w : Workers ι σ κ ε Res α) (i : ι) {c : κ} {s : σ}

/-- The regions of the jobs under way, as they were when the jobs began. -/
def regions : ι → Option R := fun i => (w.running i).map fun j => region j.task j.start

variable {region w i} in
theorem regions_eq_some {j : Job σ κ ε Res α} (hi : w.running i = some j) :
    w.regions region i = some (region j.task j.start) := by
  rw [regions, hi]
  rfl

variable [DecidableEq ι]

theorem regions_begins {p : Program ε Res α} :
    regions region { w with running := Function.update w.running i (some ⟨c, s, p⟩) } =
      Function.update (w.regions region) i (some (region c s)) :=
  Function.comp_update (Option.map _) ..

variable {w i} in
theorem regions_act {p p' : Program ε Res α} {state : σ} (hi : w.running i = some ⟨c, s, p⟩) :
    regions region { w with state, running := Function.update w.running i (some ⟨c, s, p'⟩) } =
      w.regions region := by
  refine (Function.comp_update (Option.map _) ..).trans (Function.update_eq_self_iff.2 ?_)
  rw [Function.comp_apply, hi]
  rfl

theorem regions_ends (log : List (κ × Except ε α)) :
    regions region { w with running := Function.update w.running i none, log } =
      Function.update (w.regions region) i none :=
  Function.comp_update (Option.map _) ..

end

variable {step : (o : Op) → σ → Except ε (Res o) × σ} (L : Locality step R)
  (job : κ → Program ε Res α) (region : κ → σ → R)

/-- The job does what it would do alone, in the state in which its region is what it was when the
    job began. -/
structure Job.Alone (j : Job σ κ ε Res α) (s : σ) : Prop where
  closed : L.Closed (region j.task j.start) s
  along : j.rest.Along step (L.Within (region j.task j.start)) (L.view (region j.task j.start) s)
  run_eq : j.rest.run step (L.view (region j.task j.start) s) =
    (job j.task).run step (L.view (region j.task j.start) j.start)

/-- The jobs under way keep to regions that are apart. -/
structure Local (w : Workers ι σ κ ε Res α) : Prop where
  alone : ∀ i j, w.running i = some j → j.Alone L job region w.state
  apart : ∀ i i' r r', i ≠ i' → w.regions region i = some r → w.regions region i' = some r' →
    L.Apart r r'

variable {L job region} {w : Workers ι σ κ ε Res α} {i : ι} {c : κ} {s s' : σ}

/-- A job that is done has done what it does alone. -/
theorem Job.Alone.result {r : Except ε α} (h : Job.Alone L job region ⟨c, s, .ret r⟩ s') :
    (job c).run step (L.view (region c s) s) = (r, L.view (region c s) s') :=
  h.run_eq.symm

theorem Job.Alone.act {o : Op} {k : Except ε (Res o) → Program ε Res α}
    (h : Job.Alone L job region ⟨c, s, .call o k⟩ s') :
    Job.Alone L job region ⟨c, s, k (step o s').1⟩ (step o s').2 := by
  obtain ⟨hclosed, ⟨hwithin, halong⟩, hrun⟩ := h
  have hstep := L.step_view hclosed hwithin
  refine ⟨L.closed_step hclosed hwithin, ?_, ?_⟩
  · rw [hstep] at halong
    exact halong
  · rw [Program.run, hstep] at hrun
    exact hrun

variable [DecidableEq ι]

theorem Local.begins (h : Local L job region w) (hclosed : L.Closed (region c w.state) w.state)
    (halong : (job c).Along step (L.Within (region c w.state)) (L.view (region c w.state) w.state))
    (hapart : ∀ i' r, w.regions region i' = some r →
      L.Apart (region c w.state) r ∧ L.Apart r (region c w.state)) :
    Local L job region
      { w with running := Function.update w.running i (some ⟨c, w.state, job c⟩) } := by
  constructor
  · refine (Function.forall_update_iff w.running fun _ x => ∀ j, x = some j →
      j.Alone L job region w.state).mpr ⟨?_, fun i' _ => h.alone i'⟩
    rintro j ⟨⟩
    exact ⟨hclosed, halong, rfl⟩
  · intro i₁ i₂ r₁ r₂ hne h₁ h₂
    rw [regions_begins] at h₁ h₂
    by_cases hi₁ : i₁ = i
    · subst hi₁
      rw [Function.update_self] at h₁
      rw [Function.update_of_ne hne.symm] at h₂
      exact Option.some.inj h₁ ▸ (hapart i₂ r₂ h₂).1
    · rw [Function.update_of_ne hi₁] at h₁
      by_cases hi₂ : i₂ = i
      · subst hi₂
        rw [Function.update_self] at h₂
        exact Option.some.inj h₂ ▸ (hapart i₁ r₁ h₁).2
      · rw [Function.update_of_ne hi₂] at h₂
        exact h.apart i₁ i₂ r₁ r₂ hne h₁ h₂

theorem Local.act {o : Op} {k : Except ε (Res o) → Program ε Res α} (h : Local L job region w)
    (hi : w.running i = some ⟨c, s, .call o k⟩) :
    Local L job region
      { w with
        state := (step o w.state).2
        running := Function.update w.running i (some ⟨c, s, k (step o w.state).1⟩) } := by
  have hactor := h.alone i _ hi
  constructor
  · refine (Function.forall_update_iff w.running fun _ x => ∀ j, x = some j →
      j.Alone L job region (step o w.state).2).mpr ⟨?_, fun i' hne j hj => ?_⟩
    · rintro j ⟨⟩
      exact hactor.act
    · -- the other jobs do not see the step
      obtain ⟨hclosed, halong, hrun⟩ := h.alone i' j hj
      obtain ⟨hview, hclosed'⟩ := L.frame hactor.closed hactor.along.1
        (h.apart i i' _ _ hne.symm (regions_eq_some hi) (regions_eq_some hj)) hclosed
      exact ⟨hclosed', by rwa [hview], by rwa [hview]⟩
  · rw [regions_act region hi]
    exact h.apart

theorem Local.ends (h : Local L job region w) (log : List (κ × Except ε α)) :
    Local L job region { w with running := Function.update w.running i none, log } := by
  constructor
  · exact (Function.forall_update_iff w.running fun _ x => ∀ j, x = some j →
      j.Alone L job region w.state).mpr ⟨nofun, fun i' _ => h.alone i'⟩
  · have hregion {i' : ι} {r : R} (hr : Function.update (w.regions region) i none i' = some r) :
        w.regions region i' = some r := by
      by_cases hi' : i' = i
      · rw [hi', Function.update_self] at hr
        cases hr
      · rwa [Function.update_of_ne hi'] at hr
    rw [regions_ends]
    exact fun i₁ i₂ r₁ r₂ hne h₁ h₂ => h.apart i₁ i₂ r₁ r₂ hne (hregion h₁) (hregion h₂)

end Workers

end LiNaStore
