import LiNaStore.Library.Discipline
import Mathlib.Logic.Function.Basic

/-!
# Programs side by side

Processes that share a state each run a program of their own. A step of the whole is a call of one
process, or a change of the state that no process makes, and the steps come in any order
(`Interleave.Run`). How a call is answered depends on the state and on who calls, and need not be
determined by them; a call that has no answer waits (`Interleave.System`).

A discipline for each process says how far its program is. If the programs keep to the disciplines
at the start, they do so all along (`Interleave.Run.keeps`). So what is preserved by every call
that the disciplines allow, and by the changes no process makes, holds all along, whatever the
programs are (`Interleave.Run.invariant`). A run is followed with other disciplines too where more
has to be known of the programs (`Interleave.Run.alongside`).
-/

namespace LiNaStore.Interleave

variable {ι σ ε Op α Q : Type} {Res : Op → Type}

/-- What the calls of a process answer and make of the state, and how it changes by itself. -/
structure System (ι σ ε : Type) {Op : Type} (Res : Op → Type) where
  act : ι → σ → (o : Op) → Except ε (Res o) → σ → Prop
  env : σ → σ → Prop

/-- A call with its answer: who made it, and in which state. -/
structure Event (ι σ ε : Type) {Op : Type} (Res : Op → Type) where
  process : ι
  state : σ
  call : (o : Op) × Except ε (Res o)

/-- A state and what is left of each process to do. It is recorded how far each process is, and
    what has happened, the last first. -/
structure Config (ι σ ε : Type) {Op : Type} (Res : Op → Type) (α Q : Type) where
  state : σ
  programs : ι → Program ε Res α
  phase : ι → Q
  log : List (Event ι σ ε Res)

/-- What an event shows of the state it was in. -/
def Event.map {τ : Type} (f : σ → τ) (e : Event ι σ ε Res) : Event ι τ ε Res :=
  ⟨e.process, f e.state, e.call⟩

/-- What is seen of the state. -/
def Config.map {τ : Type} (f : σ → τ) (c : Config ι σ ε Res α Q) : Config ι τ ε Res α Q :=
  ⟨f c.state, c.programs, c.phase, c.log.map (Event.map f)⟩

section

variable [DecidableEq ι]

/-- After a call of the process `i`. -/
def Config.act (c : Config ι σ ε Res α Q) (D : ι → Discipline ε Res Q) (i : ι) (o : Op)
    (a : Except ε (Res o)) (rest : Program ε Res α) (s : σ) : Config ι σ ε Res α Q where
  state := s
  programs := Function.update c.programs i rest
  phase := Function.update c.phase i ((D i).next (c.phase i) o a)
  log := ⟨i, c.state, ⟨o, a⟩⟩ :: c.log

/-- The runs from `start`, in which every call is made where `P` allows it. -/
inductive Run (S : System ι σ ε Res) (D : ι → Discipline ε Res Q)
    (P : Config ι σ ε Res α Q → ι → (o : Op) × Except ε (Res o) → Prop)
    (start : Config ι σ ε Res α Q) : Config ι σ ε Res α Q → Prop
  | refl : Run S D P start start
  | env {c : Config ι σ ε Res α Q} (s : σ) : Run S D P start c → S.env c.state s →
      Run S D P start { c with state := s }
  | act {c : Config ι σ ε Res α Q} (i : ι) (o : Op) {k : Except ε (Res o) → Program ε Res α}
      (a : Except ε (Res o)) {s : σ} : Run S D P start c → c.programs i = .call o k →
      S.act i c.state o a s → P c i ⟨o, a⟩ → Run S D P start (c.act D i o a (k a) s)

namespace Run

variable {S : System ι σ ε Res} {D : ι → Discipline ε Res Q}
  {P : Config ι σ ε Res α Q → ι → (o : Op) × Except ε (Res o) → Prop}
  {start c : Config ι σ ε Res α Q} {post : Except ε α → Q → Prop}

/-- A process is where its phase says. -/
theorem keeps_at (h : Run S D P start c) {i : ι}
    (hstart : (start.programs i).Keeps (D i) post (start.phase i)) :
    (c.programs i).Keeps (D i) post (c.phase i) := by
  induction h with
  | refl => exact hstart
  | env s _ _ ih => exact ih
  | act j o a _ hcall _ _ ih =>
    by_cases hij : i = j
    · subst hij
      rw [hcall] at ih
      simp only [Config.act, Function.update_self]
      exact ih.2 a
    · simp only [Config.act, Function.update_of_ne hij]
      exact ih

/-- Each process is where its phase says. -/
theorem keeps (h : Run S D P start c)
    (hstart : ∀ i, (start.programs i).Keeps (D i) post (start.phase i)) (i : ι) :
    (c.programs i).Keeps (D i) post (c.phase i) :=
  h.keeps_at (hstart i)

/-- What every allowed call preserves, and every change no process makes. -/
theorem invariant {I : Config ι σ ε Res α Q → Prop}
    (hkeeps : ∀ i, (start.programs i).Keeps (D i) post (start.phase i)) (hstart : I start)
    (henv : ∀ c s, I c → S.env c.state s → I { c with state := s })
    (hact : ∀ c i o a rest s, I c → (D i).allowed (c.phase i) o → S.act i c.state o a s →
      P c i ⟨o, a⟩ → I (c.act D i o a rest s))
    (h : Run S D P start c) : I c := by
  induction h with
  | refl => exact hstart
  | env s _ hs ih => exact henv _ s ih hs
  | act i o a hrun hcall hs hP ih =>
    have hi := hrun.keeps hkeeps i
    rw [hcall] at hi
    exact hact _ i o a _ _ ih hi.1 hs hP

/-- The run up to an event of its log. -/
theorem before (h : Run S D P start c)
    (hstart : ∀ i, (start.programs i).Keeps (D i) post (start.phase i)) (hlog : start.log = [])
    {t t' : List (Event ι σ ε Res)} {e : Event ι σ ε Res} (ht : c.log = t ++ e :: t') :
    ∃ c', Run S D P start c' ∧ c'.log = t' ∧ c'.state = e.state ∧
      (D e.process).allowed (c'.phase e.process) e.call.1 := by
  induction h generalizing t with
  | refl =>
    rw [hlog] at ht
    exact absurd ht.symm (List.append_ne_nil_of_right_ne_nil _ (List.cons_ne_nil _ _))
  | env s _ _ ih => exact ih ht
  | @act c i o k a s hrun hcall _ _ ih =>
    cases t with
    | nil =>
      obtain ⟨rfl, rfl⟩ := List.cons.inj ht
      have hi := hrun.keeps hstart i
      rw [hcall] at hi
      exact ⟨c, hrun, rfl, rfl, hi.1⟩
    | cons e' t => exact ih (List.cons.inj ht).2

/-- The same run, in which another discipline is followed as well. -/
theorem alongside {Q' : Type} (D' : ι → Discipline ε Res Q') (phase' : ι → Q')
    (h : Run S D (fun _ _ _ => True) start c) :
    ∃ phase : ι → Q', Run S (fun i => (D i).prod (D' i)) (fun _ _ _ => True)
      ⟨start.state, start.programs, fun i => (start.phase i, phase' i), start.log⟩
      ⟨c.state, c.programs, fun i => (c.phase i, phase i), c.log⟩ := by
  induction h with
  | refl => exact ⟨phase', .refl⟩
  | env s _ hs ih =>
    obtain ⟨phase, hrun⟩ := ih
    exact ⟨phase, hrun.env s hs⟩
  | @act c i o k a s _ hcall hs _ ih =>
    obtain ⟨phase, hrun⟩ := ih
    refine ⟨Function.update phase i ((D' i).next (phase i) o a), ?_⟩
    have hact := hrun.act i o a hcall hs trivial
    have hphase : Function.update (fun i => (c.phase i, phase i)) i
        (((D i).prod (D' i)).next (c.phase i, phase i) o a) =
        fun j => (Function.update c.phase i ((D i).next (c.phase i) o a) j,
          Function.update phase i ((D' i).next (phase i) o a) j) := by
      funext j
      by_cases hj : j = i
      · subst hj
        simp only [Function.update_self]
        rfl
      · simp only [Function.update_of_ne hj]
    rw [Config.act, hphase] at hact
    exact hact

/-- A run of a system that does what another does, seen through `f`, and more: it is one of the
    other system, as long as the invariant `J` holds. -/
theorem project {τ : Type} {T : System ι τ ε Res} (f : σ → τ) {J : σ → Prop} (hJ : J start.state)
    (henv : ∀ s s', J s → S.env s s' → J s' ∧ (f s' = f s ∨ T.env (f s) (f s')))
    (hact : ∀ i s o a s', J s → S.act i s o a s' → J s' ∧ T.act i (f s) o a (f s'))
    (h : Run S D (fun _ _ _ => True) start c) :
    J c.state ∧ Run T D (fun _ _ _ => True) (start.map f) (c.map f) := by
  induction h with
  | refl => exact ⟨hJ, .refl⟩
  | @env c s _ hs ih =>
    obtain ⟨hc, hrun⟩ := ih
    obtain ⟨hnext, heq | hs'⟩ := henv _ _ hc hs
    · refine ⟨hnext, ?_⟩
      rwa [show Config.map f { c with state := s } = c.map f from congrArg (fun t : τ =>
        (⟨t, c.programs, c.phase, c.log.map (Event.map f)⟩ : Config ι τ ε Res α Q)) heq]
    · exact ⟨hnext, hrun.env _ hs'⟩
  | act i o a _ hcall hs _ ih =>
    obtain ⟨hc, hrun⟩ := ih
    obtain ⟨hnext, hs'⟩ := hact i _ o a _ hc hs
    exact ⟨hnext, hrun.act i o a hcall hs' trivial⟩

end Run

end

end LiNaStore.Interleave
