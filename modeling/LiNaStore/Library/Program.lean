import Mathlib.Data.Nat.Notation
import Mathlib.Logic.Basic

/-!
# Programs of primitive calls

A *program* is a tree of calls to primitive operations `Op`, each answering with
a value of its own type or with an error, ended by a result or an error
(`Program`). Nothing is said about what the primitives do: that is the job of a
*handler*, giving the answer of every primitive on a state and the state it
leaves.

One program has several readings, all over the same handler:

* `Program.run`: the whole program, to its result and its final state
  (`Program.issued`: the primitives it calls on the way);
* `Program.after n`: the state after the first `n` primitive calls, as a crash
  at that point leaves it (`Program.Visits`: after some number of calls);
* `Program.Faulted`: the runs in which exactly one primitive call fails, without
  effect, and the program goes on with the error;
* `Program.ReadOnly`: the programs that never change the state;
* `Program.Along`: what holds of every primitive in the state it is called in.

Each comes with its rule for sequencing (`run_bind`, `visits_bind`,
`faulted_bind`) and for the handling of errors (`run_attempt`,
`faulted_attempt`), so that a program is reasoned about one piece at a time.
`Program.Performs` puts the first three together: what a program does from a
state when nothing goes wrong, a condition on the states a crash can leave and
one on the states a fault can leave, with one rule for each way to build a
program.
-/

namespace LiNaStore

/-- Programs calling the primitives `Op`, with errors `ε`. -/
inductive Program (ε : Type) {Op : Type} (Res : Op → Type) (α : Type)
  /-- The program is over, with a result or an error. -/
  | ret (r : Except ε α)
  /-- Call the primitive `o` and go on with its answer. -/
  | call (o : Op) (k : Except ε (Res o) → Program ε Res α)

namespace Program

variable {ε Op σ α β : Type} {Res : Op → Type}

/-- Sequencing: an error of the first program is the error of the whole. -/
def bind : Program ε Res α → (α → Program ε Res β) → Program ε Res β
  | ret (.ok a), f => f a
  | ret (.error e), _ => ret (.error e)
  | call o k, f => call o fun r => (k r).bind f

instance : Monad (Program ε Res) where
  pure a := ret (.ok a)
  bind := bind

/-- Failing with `e`. -/
def fail (e : ε) : Program ε Res α := ret (.error e)

/-- Calling one primitive, its error being the error of the program. -/
def perform (o : Op) : Program ε Res (Res o) := call o ret

/-- Running a program and returning its error as a value. -/
def attempt : Program ε Res α → Program ε Res (Except ε α)
  | ret r => ret (.ok r)
  | call o k => call o fun r => (k r).attempt

/-- Running a program and forgetting its result and its error. -/
def ignore (p : Program ε Res α) : Program ε Res Unit := p.attempt.bind fun _ => pure ()

/-- Running `p`, and if it fails, running `undo` before failing with the error
    of `p`. -/
def orUndo (p : Program ε Res α) (undo : Program ε Res Unit) : Program ε Res α :=
  p.attempt.bind fun
    | .ok a => pure a
    | .error e => undo.ignore.bind fun _ => fail e

/-- The program ending with the given result or error. -/
def ofExcept (r : Except ε α) : Program ε Res α := ret r

/-- Running `p` and changing its error. -/
def mapError (g : ε → ε) (p : Program ε Res α) : Program ε Res α :=
  p.attempt.bind fun
    | .ok a => pure a
    | .error e => fail (g e)

/-- Running a program on each element of a list, in order, until one fails. -/
def forEach (f : α → Program ε Res Unit) : List α → Program ε Res Unit
  | [] => pure ()
  | a :: l => (f a).bind fun _ => forEach f l

variable (step : (o : Op) → σ → Except ε (Res o) × σ)

/-! ## Runs -/

/-- The run of a program: its result and its final state. -/
def run : Program ε Res α → σ → Except ε α × σ
  | ret r, s => (r, s)
  | call o k, s => run (k (step o s).1) (step o s).2

@[simp] theorem run_ret (r : Except ε α) (s : σ) :
    (ret r : Program ε Res α).run step s = (r, s) := rfl

@[simp] theorem run_call (o : Op) (k : Except ε (Res o) → Program ε Res α) (s : σ) :
    (call o k).run step s = (k (step o s).1).run step (step o s).2 := rfl

@[simp] theorem run_pure (a : α) (s : σ) :
    (pure a : Program ε Res α).run step s = (.ok a, s) := rfl

@[simp] theorem run_fail (e : ε) (s : σ) :
    (fail e : Program ε Res α).run step s = (.error e, s) := rfl

@[simp] theorem run_ofExcept (r : Except ε α) (s : σ) :
    (ofExcept r : Program ε Res α).run step s = (r, s) := rfl

@[simp] theorem run_perform (o : Op) (s : σ) :
    (perform o : Program ε Res (Res o)).run step s = step o s := rfl

/-- The rule of sequencing: the second program runs on the result and from the
    state of the first. -/
theorem run_bind' (p : Program ε Res α) (f : α → Program ε Res β) (s : σ) :
    (p.bind f).run step s = match p.run step s with
      | (.ok a, s') => (f a).run step s'
      | (.error e, s') => (.error e, s') := by
  induction p generalizing s with
  | ret r => cases r <;> rfl
  | call o k ih => exact ih _ _

@[simp] theorem run_bind (p : Program ε Res α) (f : α → Program ε Res β) (s : σ) :
    (p >>= f).run step s = match p.run step s with
      | (.ok a, s') => (f a).run step s'
      | (.error e, s') => (.error e, s') :=
  run_bind' step p f s

@[simp] theorem run_attempt (p : Program ε Res α) (s : σ) :
    p.attempt.run step s = (.ok (p.run step s).1, (p.run step s).2) := by
  induction p generalizing s with
  | ret r => rfl
  | call o k ih => exact ih _ _

@[simp] theorem run_ignore (p : Program ε Res α) (s : σ) :
    p.ignore.run step s = (.ok (), (p.run step s).2) := by
  rw [ignore, run_bind', run_attempt]
  rfl

theorem run_ignore_bind (p : Program ε Res α) (f : Unit → Program ε Res β) (s : σ) :
    (p.ignore >>= f).run step s = (f ()).run step (p.run step s).2 := by
  rw [run_bind, run_ignore]

@[simp] theorem run_mapError (g : ε → ε) (p : Program ε Res α) (s : σ) :
    (p.mapError g).run step s = ((p.run step s).1.mapError g, (p.run step s).2) := by
  rw [mapError, run_bind', run_attempt]
  rcases p.run step s with ⟨a | a, s'⟩ <;> rfl

@[simp] theorem run_forEach_nil (f : α → Program ε Res Unit) (s : σ) :
    (forEach f []).run step s = (.ok (), s) := rfl

theorem run_forEach_cons (f : α → Program ε Res Unit) (a : α) (l : List α) (s : σ) :
    (forEach f (a :: l)).run step s = match (f a).run step s with
      | (.ok _, s') => (forEach f l).run step s'
      | (.error e, s') => (.error e, s') := by
  rw [forEach, run_bind']
  rcases (f a).run step s with ⟨_ | _, s'⟩ <;> rfl

theorem run_orUndo (p : Program ε Res α) (undo : Program ε Res Unit) (s : σ) :
    (p.orUndo undo).run step s = match p.run step s with
      | (.ok a, s') => (.ok a, s')
      | (.error e, s') => (.error e, (undo.run step s').2) := by
  rw [orUndo, run_bind', run_attempt]
  rcases p.run step s with ⟨a | a, s'⟩
  · simp only [run_bind', run_ignore, run_fail]
  · rfl

/-- The rule of loops. Each round relates the states before and after it by `R` and
    establishes `P` of its element, and what was established stays: then so does the
    loop, for all elements. -/
theorem run_forEach {R : σ → σ → Prop} (hrefl : ∀ s, R s s)
    (htrans : ∀ {s t u}, R s t → R t u → R s u) {P : α → σ → Prop}
    (hP : ∀ {a s t}, R s t → P a s → P a t) {f : α → Program ε Res Unit} {l : List α}
    (hf : ∀ a ∈ l, ∀ s, ∃ s', (f a).run step s = (.ok (), s') ∧ R s s' ∧ P a s') (s : σ) :
    ∃ s', (forEach f l).run step s = (.ok (), s') ∧ R s s' ∧ ∀ a ∈ l, P a s' := by
  induction l generalizing s with
  | nil => exact ⟨s, rfl, hrefl s, fun _ h => absurd h List.not_mem_nil⟩
  | cons a l ih =>
    obtain ⟨s₁, h₁, hR₁, hP₁⟩ := hf a List.mem_cons_self s
    obtain ⟨s₂, h₂, hR₂, hP₂⟩ := ih (fun b hb => hf b (List.mem_cons_of_mem _ hb)) s₁
    refine ⟨s₂, ?_, htrans hR₁ hR₂, fun b hb => ?_⟩
    · rw [run_forEach_cons, h₁]
      exact h₂
    · rcases List.mem_cons.1 hb with rfl | hb
      · exact hP hR₂ hP₁
      · exact hP₂ b hb

/-- A loop whose rounds change nothing. -/
theorem run_forEach_of_forall {f : α → Program ε Res Unit} {l : List α} {s : σ}
    (h : ∀ a ∈ l, (f a).run step s = (.ok (), s)) : (forEach f l).run step s = (.ok (), s) := by
  induction l with
  | nil => rfl
  | cons a l ih =>
    rw [run_forEach_cons, h a List.mem_cons_self]
    exact ih fun b hb => h b (List.mem_cons_of_mem _ hb)

/-- The primitives a run calls, in order. -/
def issued : Program ε Res α → σ → List Op
  | ret _, _ => []
  | call o k, s => o :: issued (k (step o s).1) (step o s).2

theorem issued_bind (p : Program ε Res α) (f : α → Program ε Res β) (s : σ) :
    (p >>= f).issued step s = p.issued step s ++ match p.run step s with
      | (.ok a, s') => (f a).issued step s'
      | (.error _, _) => [] := by
  change (p.bind f).issued step s = _
  induction p generalizing s with
  | ret r => cases r <;> rfl
  | call o k ih => exact congrArg (List.cons o) (ih _ _)

/-! ## Crashes -/

/-- The state after the first `n` primitive calls of a program. -/
def after : ℕ → Program ε Res α → σ → σ
  | 0, _, s => s
  | _ + 1, ret _, s => s
  | n + 1, call o k, s => after n (k (step o s).1) (step o s).2

/-- `s'` is a state between two primitive calls of `p`, run from `s`. -/
def Visits (p : Program ε Res α) (s s' : σ) : Prop := ∃ n, p.after step n s = s'

variable {step}

theorem visits_start (p : Program ε Res α) (s : σ) : p.Visits step s s := ⟨0, by cases p <;> rfl⟩

theorem visits_ret {r : Except ε α} {s s' : σ} :
    (ret r : Program ε Res α).Visits step s s' ↔ s' = s := by
  constructor
  · rintro ⟨n, rfl⟩
    cases n <;> rfl
  · rintro rfl
    exact visits_start _ _

theorem visits_call {o : Op} {k : Except ε (Res o) → Program ε Res α} {s s' : σ} :
    (call o k).Visits step s s' ↔ s' = s ∨ (k (step o s).1).Visits step (step o s).2 s' := by
  constructor
  · rintro ⟨n, rfl⟩
    cases n with
    | zero => exact .inl rfl
    | succ n => exact .inr ⟨n, rfl⟩
  · rintro (rfl | ⟨n, rfl⟩)
    · exact visits_start _ _
    · exact ⟨n + 1, rfl⟩

/-- The final state of a run is the last one visited. -/
theorem visits_run (p : Program ε Res α) (s : σ) : p.Visits step s (p.run step s).2 := by
  induction p generalizing s with
  | ret r => exact visits_start _ _
  | call o k ih => exact visits_call.2 (.inr (ih _ _))

/-- A sequence visits what its first program visits and, if that one succeeds,
    what the second visits from its final state. -/
theorem visits_bind {p : Program ε Res α} {f : α → Program ε Res β} {s s' : σ}
    (h : (p.bind f).Visits step s s') :
    p.Visits step s s' ∨ ∃ a, (p.run step s).1 = .ok a ∧ (f a).Visits step (p.run step s).2 s' := by
  induction p generalizing s with
  | ret r =>
    cases r with
    | ok a => exact .inr ⟨a, rfl, h⟩
    | error e => exact .inl (visits_ret.2 (visits_ret.1 h))
  | call o k ih =>
    rcases visits_call.1 h with rfl | h
    · exact .inl (visits_start _ _)
    · exact (ih _ h).imp (fun h => visits_call.2 (.inr h)) id

/-- What the second program of a sequence visits, the first having succeeded. -/
theorem visits_bind_right {p : Program ε Res α} {f : α → Program ε Res β} {s s₁ s' : σ} {a : α}
    (hp : p.run step s = (.ok a, s₁)) (h : (f a).Visits step s₁ s') :
    (p >>= f).Visits step s s' := by
  induction p generalizing s with
  | ret r =>
    obtain ⟨rfl, rfl⟩ := Prod.mk.inj hp
    exact h
  | call o k ih => exact visits_call.2 (.inr (ih _ hp))

theorem visits_attempt {p : Program ε Res α} {s s' : σ} :
    p.attempt.Visits step s s' ↔ p.Visits step s s' := by
  induction p generalizing s with
  | ret r => rw [attempt, visits_ret, visits_ret]
  | call o k ih => rw [attempt, visits_call, visits_call, ih]

theorem after_perform_bind {o : Op} {f : Res o → Program ε Res α} {s s₁ : σ} {a : Res o}
    (h : step o s = (.ok a, s₁)) (n : ℕ) :
    (perform o >>= f).after step (n + 1) s = (f a).after step n s₁ := by
  change (bind (ret (step o s).1) f).after step n (step o s).2 = _
  rw [h]
  rfl

theorem after_perform_orUndo {o : Op} {undo : Program ε Res Unit} {s s₁ : σ} {a : Res o}
    (h : step o s = (.ok a, s₁)) (n : ℕ) :
    ((perform o).orUndo undo).after step (n + 1) s = s₁ := by
  change (bind (ret (.ok (step o s).1)) _).after step n (step o s).2 = _
  rw [h]
  cases n <;> rfl

/-- What a program undoing its errors visits: when it succeeds, nothing but what
    it visits itself. -/
theorem visits_orUndo {p : Program ε Res α} {undo : Program ε Res Unit} {s s' : σ} {a : α}
    (hp : (p.run step s).1 = .ok a) (h : (p.orUndo undo).Visits step s s') :
    p.Visits step s s' := by
  rcases visits_bind h with h | ⟨r, hr, h⟩
  · exact visits_attempt.1 h
  · rw [run_attempt] at hr h
    cases hr
    rw [hp] at h
    rw [visits_ret.1 h]
    exact visits_run _ _

variable (step)

/-! ## Faults -/

/-- The runs in which exactly one primitive call fails: the call changes nothing
    and answers with some error, and the program goes on from there. -/
inductive Faulted : Program ε Res α → σ → Except ε α → σ → Prop
  | here {o : Op} {k : Except ε (Res o) → Program ε Res α} {s : σ} (e : ε) :
      Faulted (call o k) s ((k (.error e)).run step s).1 ((k (.error e)).run step s).2
  | later {o : Op} {k : Except ε (Res o) → Program ε Res α} {s s' : σ} {r : Except ε α} :
      Faulted (k (step o s).1) (step o s).2 r s' → Faulted (call o k) s r s'

/-- The run in which the `n`-th primitive call fails with `e`, if there are so many. -/
def faultAt : ℕ → ε → Program ε Res α → σ → Option (Except ε α × σ)
  | _, _, ret _, _ => none
  | 0, e, call _ k, s => some ((k (.error e)).run step s)
  | n + 1, e, call o k, s => faultAt n e (k (step o s).1) (step o s).2

variable {step}

theorem faulted_of_faultAt {n : ℕ} {e : ε} {p : Program ε Res α} {s s' : σ} {r : Except ε α}
    (h : p.faultAt step n e s = some (r, s')) : Faulted step p s r s' := by
  induction p generalizing n s with
  | ret q => cases n <;> cases h
  | call o k ih =>
    cases n with
    | zero =>
      have hrun := Option.some.inj h
      have hfault : Faulted step (call o k) s _ _ := .here e
      rwa [hrun] at hfault
    | succ n => exact .later (ih _ h)

theorem not_faulted_ret {r r' : Except ε α} {s s' : σ} :
    ¬Faulted step (ret r : Program ε Res α) s r' s' := nofun

/-- A faulted call of one primitive fails and changes nothing. -/
theorem faulted_perform {o : Op} {s s' : σ} {r : Except ε (Res o)}
    (h : Faulted step (perform o : Program ε Res (Res o)) s r s') :
    (∃ e, r = .error e) ∧ s' = s := by
  cases h with
  | here e => exact ⟨⟨e, rfl⟩, rfl⟩
  | later h => exact absurd h not_faulted_ret

/-- A fault of a sequence is a fault of its first program, the second then
    running on as usual, or of the second, the first having succeeded. -/
theorem faulted_bind {p : Program ε Res α} {f : α → Program ε Res β} {s s' : σ} {r : Except ε β}
    (h : Faulted step (p.bind f) s r s') :
    (∃ r₁ s₁, Faulted step p s r₁ s₁ ∧
      match r₁ with
      | .ok a => (f a).run step s₁ = (r, s')
      | .error e => r = .error e ∧ s' = s₁) ∨
    ∃ a, (p.run step s).1 = .ok a ∧ Faulted step (f a) (p.run step s).2 r s' := by
  induction p generalizing s with
  | ret q =>
    cases q with
    | ok a => exact .inr ⟨a, rfl, h⟩
    | error e => exact absurd h not_faulted_ret
  | call o k ih =>
    cases h with
    | here e =>
      refine .inl ⟨_, _, .here e, ?_⟩
      rw [run_bind']
      rcases (k (.error e)).run step s with ⟨r₁ | r₁, s₁⟩
      · exact ⟨rfl, rfl⟩
      · rfl
    | later h =>
      rcases ih _ h with ⟨r₁, s₁, h₁, h₂⟩ | h
      · exact .inl ⟨r₁, s₁, .later h₁, h₂⟩
      · exact .inr h

theorem faulted_attempt {p : Program ε Res α} {s s' : σ} {r : Except ε (Except ε α)}
    (h : Faulted step p.attempt s r s') : ∃ r₁, r = .ok r₁ ∧ Faulted step p s r₁ s' := by
  induction p generalizing s with
  | ret q => exact absurd h not_faulted_ret
  | call o k ih =>
    cases h with
    | here e => simp only [run_attempt]; exact ⟨_, rfl, .here e⟩
    | later h =>
      obtain ⟨r₁, rfl, hk⟩ := ih _ h
      exact ⟨r₁, rfl, .later hk⟩

/-- A program undoing its errors, run with a fault and failing, where the program
    without faults succeeds: the fault made the program fail, and the undoing
    went through. -/
theorem faulted_orUndo {p : Program ε Res α} {undo : Program ε Res Unit} {s s' : σ}
    {r : Except ε α} {a : α} (hp : (p.run step s).1 = .ok a)
    (h : Faulted step (p.orUndo undo) s r s') :
    (∃ a', r = .ok a' ∧ Faulted step p s (.ok a') s') ∨
    ∃ e s₁, r = .error e ∧ Faulted step p s (.error e) s₁ ∧ s' = (undo.run step s₁).2 := by
  rcases faulted_bind h with ⟨r₁, s₁, h₁, h₂⟩ | ⟨q, hq, h⟩
  · obtain ⟨r₂, rfl, hf⟩ := faulted_attempt h₁
    cases r₂ with
    | ok a' =>
      obtain ⟨rfl, rfl⟩ := Prod.mk.inj h₂
      exact .inl ⟨a', rfl, hf⟩
    | error e =>
      simp only [run_bind', run_ignore, run_fail, Prod.mk.injEq] at h₂
      obtain ⟨rfl, rfl⟩ := h₂
      exact .inr ⟨e, s₁, rfl, hf, rfl⟩
  · rw [run_attempt] at hq
    cases hq
    rw [hp] at h
    exact absurd h not_faulted_ret

variable (step)

/-! ## What a program does -/

/-- Every primitive the program calls, run from `s`, succeeds. -/
def Clean : Program ε Res α → σ → Prop
  | ret _, _ => True
  | call o k, s => (∃ a, (step o s).1 = .ok a) ∧ Clean (k (step o s).1) (step o s).2

/-- The program, from `s`, ends with `a` in `s₁`, all primitives it calls
    succeeding; a crash of it leaves a state satisfying `Q`; a fault makes it fail,
    in a state satisfying `F`. -/
structure Performs (p : Program ε Res α) (s : σ) (a : α) (s₁ : σ) (Q F : σ → Prop) : Prop where
  run_eq : p.run step s = (.ok a, s₁)
  clean : p.Clean step s
  crash : ∀ {s'}, p.Visits step s s' → Q s'
  fault : ∀ {r s'}, p.Faulted step s r s' → ∃ e, r = .error e ∧ F s'

namespace Performs

variable {step}
variable {p : Program ε Res α} {s s₁ s₂ : σ} {a : α} {b : β} {Q Q' F F' : σ → Prop}

theorem clean_attempt (h : p.Clean step s) : p.attempt.Clean step s := by
  induction p generalizing s with
  | ret r => trivial
  | call o k ih => exact ⟨h.1, ih _ h.2⟩

theorem clean_bind {f : α → Program ε Res β} (hp : p.Clean step s) (hrun : p.run step s = (.ok a, s₁))
    (hf : (f a).Clean step s₁) : (p.bind f).Clean step s := by
  induction p generalizing s with
  | ret r =>
    obtain ⟨rfl, rfl⟩ := Prod.mk.inj hrun
    exact hf
  | call o k ih => exact ⟨hp.1, ih _ hp.2 hrun⟩

theorem mono (h : p.Performs step s a s₁ Q F) (hQ : ∀ t, Q t → Q' t) (hF : ∀ t, F t → F' t) :
    p.Performs step s a s₁ Q' F' where
  run_eq := h.run_eq
  clean := h.clean
  crash hv := hQ _ (h.crash hv)
  fault hf := by
    obtain ⟨e, he, hF'⟩ := h.fault hf
    exact ⟨e, he, hF _ hF'⟩

theorem pure (hQ : Q s) : (pure a : Program ε Res α).Performs step s a s Q F where
  run_eq := rfl
  clean := trivial
  crash hv := visits_ret.1 hv ▸ hQ
  fault hf := absurd hf not_faulted_ret

/-- A primitive that succeeds. -/
theorem perform {o : Op} {a : Res o} (h : step o s = (.ok a, s₁)) (hs : Q s) (hs₁ : Q s₁)
    (hF : F s) : (perform o : Program ε Res (Res o)).Performs step s a s₁ Q F where
  run_eq := h
  clean := ⟨⟨a, by rw [h]⟩, trivial⟩
  crash hv := by
    rcases visits_call.1 hv with rfl | hv
    · exact hs
    · rw [visits_ret.1 hv, h]
      exact hs₁
  fault hf := by
    obtain ⟨he, rfl⟩ := faulted_perform hf
    obtain ⟨e, he⟩ := he
    exact ⟨e, he, hF⟩

/-- A sequence: a crash or a fault is one of either program. -/
theorem bind {f : α → Program ε Res β} (hp : p.Performs step s a s₁ Q F)
    (hf : (f a).Performs step s₁ b s₂ Q F) : (p >>= f).Performs step s b s₂ Q F where
  run_eq := by
    rw [run_bind, hp.run_eq]
    exact hf.run_eq
  clean := clean_bind hp.clean hp.run_eq hf.clean
  crash hv := by
    rcases visits_bind hv with hv | ⟨a', ha', hv⟩
    · exact hp.crash hv
    · rw [hp.run_eq] at ha' hv
      cases ha'
      exact hf.crash hv
  fault hflt := by
    rcases faulted_bind hflt with ⟨r₁, t, h₁, h₂⟩ | ⟨a', ha', h'⟩
    · obtain ⟨e, rfl, hF⟩ := hp.fault h₁
      obtain ⟨rfl, rfl⟩ := h₂
      exact ⟨e, rfl, hF⟩
    · rw [hp.run_eq] at ha' h'
      cases ha'
      exact hf.fault h'

/-- A program undoing its faults: what they leave is undone. -/
theorem orUndo {undo : Program ε Res Unit} (hp : p.Performs step s a s₁ Q F)
    (hundo : ∀ t, F t → F' (undo.run step t).2) :
    (p.orUndo undo).Performs step s a s₁ Q F' where
  run_eq := by rw [run_orUndo, hp.run_eq]
  clean := by
    have hrun : p.attempt.run step s = (.ok (.ok a), s₁) := by rw [run_attempt, hp.run_eq]
    exact clean_bind (clean_attempt hp.clean) hrun trivial
  crash hv := hp.crash (visits_orUndo (by rw [hp.run_eq]) hv)
  fault hf := by
    rcases faulted_orUndo (by rw [hp.run_eq]) hf with ⟨a', rfl, hp'⟩ | ⟨e, t, rfl, hp', rfl⟩
    · obtain ⟨e, he, _⟩ := hp.fault hp'
      cases he
    · obtain ⟨e', _, hF⟩ := hp.fault hp'
      exact ⟨e, rfl, hundo t hF⟩

end Performs

/-! ## Which primitives a program calls -/

/-- Every primitive the program may call, whatever the answers are, satisfies `P`. -/
def Calls (P : Op → Prop) : Program ε Res α → Prop
  | ret _ => True
  | call o k => P o ∧ ∀ r, Calls P (k r)

/-- The program never changes the state. -/
def ReadOnly (p : Program ε Res α) : Prop := p.Calls fun o => ∀ s, (step o s).2 = s

variable {step}
variable {P : Op → Prop}

theorem Calls.bind {p : Program ε Res α} {f : α → Program ε Res β} (hp : p.Calls P)
    (hf : ∀ a, (f a).Calls P) : (p.bind f).Calls P := by
  induction p with
  | ret r =>
    cases r with
    | ok a => exact hf a
    | error e => trivial
  | call o k ih => exact ⟨hp.1, fun r => ih r (hp.2 r)⟩

theorem Calls.perform {o : Op} (h : P o) : (perform o : Program ε Res (Res o)).Calls P :=
  ⟨h, fun _ => trivial⟩

theorem Calls.attempt {p : Program ε Res α} (hp : p.Calls P) : p.attempt.Calls P := by
  induction p with
  | ret r => trivial
  | call o k ih => exact ⟨hp.1, fun r => ih r (hp.2 r)⟩

theorem Calls.ignore {p : Program ε Res α} (hp : p.Calls P) : p.ignore.Calls P :=
  hp.attempt.bind fun _ => trivial

/-- The rule of invariants: what every primitive keeps, the program keeps. -/
theorem Calls.run_invariant {p : Program ε Res α} (hp : p.Calls P) {I : σ → Prop}
    (hstep : ∀ o, P o → ∀ s, I s → I (step o s).2) {s : σ} (hs : I s) : I (p.run step s).2 := by
  induction p generalizing s with
  | ret r => exact hs
  | call o k ih => exact ih _ (hp.2 _) (hstep o hp.1 s hs)

/-- Running a program that only reads leaves the state as it is. -/
theorem ReadOnly.run_eq {p : Program ε Res α} (hp : p.ReadOnly step) (s : σ) :
    (p.run step s).2 = s :=
  Calls.run_invariant hp (fun _ ho t ht => (ho t).trans ht) rfl

/-! ## What holds along a run -/

variable (step) in
/-- Every primitive the program calls, run from `s`, satisfies `P` in the state it is called in. -/
def Along (P : Op → σ → Prop) : Program ε Res α → σ → Prop
  | ret _, _ => True
  | call o k, s => P o s ∧ Along P (k (step o s).1) (step o s).2

namespace Along

variable {P : Op → σ → Prop} {s s₁ : σ}

theorem perform {o : Op} (h : P o s) : (perform o : Program ε Res (Res o)).Along step P s :=
  ⟨h, trivial⟩

/-- The rule of sequencing, where it is known how the first program ends. -/
theorem bind {p : Program ε Res α} {f : α → Program ε Res β} {a : α} (hp : p.Along step P s)
    (hrun : p.run step s = (.ok a, s₁)) (hf : (f a).Along step P s₁) :
    (p >>= f).Along step P s := by
  induction p generalizing s with
  | ret r =>
    obtain ⟨rfl, rfl⟩ := Prod.mk.inj hrun
    exact hf
  | call o k ih => exact ⟨hp.1, ih _ hp.2 hrun⟩

/-- A primitive that succeeds, and what comes after it. -/
theorem perform_bind {o : Op} {f : Res o → Program ε Res α} {a : Res o} (h : P o s)
    (hstep : step o s = (.ok a, s₁)) (hf : (f a).Along step P s₁) :
    (Program.perform o >>= f).Along step P s :=
  bind (perform h) hstep hf

theorem attempt {p : Program ε Res α} (hp : p.Along step P s) : p.attempt.Along step P s := by
  induction p generalizing s with
  | ret r => trivial
  | call o k ih => exact ⟨hp.1, ih _ hp.2⟩

/-- What succeeds is not undone. -/
theorem orUndo {p : Program ε Res α} {undo : Program ε Res Unit} {a : α} (hp : p.Along step P s)
    (hrun : p.run step s = (.ok a, s₁)) : (p.orUndo undo).Along step P s := by
  have hattempt : p.attempt.run step s = (.ok (.ok a), s₁) := by rw [run_attempt, hrun]
  exact bind hp.attempt hattempt trivial

theorem orUndo_bind {p : Program ε Res α} {undo : Program ε Res Unit} {f : α → Program ε Res β}
    {a : α} (hp : p.Along step P s) (hrun : p.run step s = (.ok a, s₁))
    (hf : (f a).Along step P s₁) : (p.orUndo undo >>= f).Along step P s := by
  refine bind (hp.orUndo hrun) ?_ hf
  rw [run_orUndo, hrun]

end Along

/-! ## What a program returns -/

/-- What the program returns, whatever the answers are, satisfies `P`. -/
def Returns (P : α → Prop) : Program ε Res α → Prop
  | ret r => ∀ a, r = .ok a → P a
  | call _ k => ∀ r, Returns P (k r)

namespace Returns

variable {P : α → Prop}

theorem pure {a : α} (h : P a) : (pure a : Program ε Res α).Returns P := by
  rintro _ ⟨rfl⟩
  exact h

/-- The rule of sequencing, where nothing need be known of the first program. -/
theorem bind {f : β → Program ε Res α} (p : Program ε Res β) (hf : ∀ b, (f b).Returns P) :
    (p >>= f).Returns P := by
  induction p with
  | ret r =>
    cases r with
    | ok b => exact hf b
    | error e => exact fun _ h => by cases h
  | call o k ih => exact ih

theorem run {p : Program ε Res α} (hp : p.Returns P) {s s' : σ} {a : α}
    (h : p.run step s = (.ok a, s')) : P a := by
  induction p generalizing s with
  | ret r => exact hp a (congrArg Prod.fst h)
  | call o k ih => exact ih _ (hp _) h

end Returns

end Program

end LiNaStore
