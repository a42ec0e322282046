import LiNaStore.Library.Program

/-!
# Programs that keep to a discipline

A *discipline* says which primitives may be called in which state, and how a call and its answer
change the state (`Discipline`). The states are not those the primitives work on: they record as
much of what was called and answered as is needed to say what may come next.

A program *keeps* to a discipline if it does so whatever the primitives answer (`Program.Keeps`).
That is shown by following the program, with one rule for each way to build it. What follows from
it is said of *traces*, the primitives a program calls with the answers it gets, up to any point
(`Program.Trace`): every primitive of a trace is one that may be called in the state the part of
the trace before it leads to (`Program.Keeps.allowed_of_trace`).
-/

namespace LiNaStore

variable {ε Op Op' α β Q : Type} {Res : Op → Type} {Res' : Op' → Type}

/-- Which primitives may be called in which state, and what comes after them. -/
structure Discipline (ε : Type) {Op : Type} (Res : Op → Type) (Q : Type) where
  allowed : Q → Op → Prop
  next : Q → (o : Op) → Except ε (Res o) → Q

namespace Program

/-! ## Other primitives -/

/-- A program over some of the primitives of another set. -/
def embed (f : Op → Op') : Program ε (fun o => Res' (f o)) α → Program ε Res' α
  | ret r => ret r
  | call o k => call (f o) fun a => (k a).embed f

/-! ## Traces -/

/-- A program, the calls it has made with their answers, and what is left of it. -/
inductive Trace : Program ε Res α → List ((o : Op) × Except ε (Res o)) → Program ε Res α → Prop
  | refl (p : Program ε Res α) : Trace p [] p
  | call {o : Op} {k : Except ε (Res o) → Program ε Res α} {p : Program ε Res α}
      {t : List ((o : Op) × Except ε (Res o))} (a : Except ε (Res o)) :
      Trace (k a) t p → Trace (call o k) (⟨o, a⟩ :: t) p

/-! ## Keeping to a discipline -/

/-- From the state `q` on, the program calls only what it may call, and ends in a state that goes
    with its result. -/
def Keeps (D : Discipline ε Res Q) (post : Except ε α → Q → Prop) : Program ε Res α → Q → Prop
  | ret r, q => post r q
  | call o k, q => D.allowed q o ∧ ∀ a, (k a).Keeps D post (D.next q o a)

namespace Keeps

variable {D : Discipline ε Res Q} {post post' : Except ε α → Q → Prop} {p : Program ε Res α} {q : Q}

theorem pure {a : α} (h : post (.ok a) q) : Keeps D post (pure a) q := h

theorem perform {o : Op} {post : Except ε (Res o) → Q → Prop} (ho : D.allowed q o)
    (h : ∀ a, post a (D.next q o a)) : (perform o).Keeps D post q := ⟨ho, h⟩

theorem mono (hp : p.Keeps D post q) (h : ∀ r q, post r q → post' r q) : p.Keeps D post' q := by
  induction p generalizing q with
  | ret r => exact h r q hp
  | call o k ih => exact ⟨hp.1, fun a => ih a (hp.2 a)⟩

/-- The rule of sequencing: the second program goes on where the first ends. -/
theorem bind {f : α → Program ε Res β} {post : Except ε β → Q → Prop}
    (hp : p.Keeps D (fun
      | .ok a, q => (f a).Keeps D post q
      | .error e, q => post (.error e) q) q) : (p >>= f).Keeps D post q := by
  induction p generalizing q with
  | ret r =>
    cases r with
    | ok a => exact hp
    | error e => exact hp
  | call o k ih => exact ⟨hp.1, fun a => ih a (hp.2 a)⟩

theorem attempt {post : Except ε (Except ε α) → Q → Prop}
    (hp : p.Keeps D (fun r => post (.ok r)) q) : p.attempt.Keeps D post q := by
  induction p generalizing q with
  | ret r => exact hp
  | call o k ih => exact ⟨hp.1, fun a => ih a (hp.2 a)⟩

theorem ignore {post : Except ε Unit → Q → Prop} (hp : p.Keeps D (fun _ => post (.ok ())) q) :
    p.ignore.Keeps D post q :=
  bind (attempt hp)

/-- Calling one primitive and going on with its answer. -/
theorem perform_bind {o : Op} {f : Res o → Program ε Res β} {post : Except ε β → Q → Prop}
    (ho : D.allowed q o) (herror : ∀ e, post (.error e) (D.next q o (.error e)))
    (hok : ∀ a, (f a).Keeps D post (D.next q o (.ok a))) :
    (Program.perform o >>= f).Keeps D post q := by
  refine bind (perform ho fun a => ?_)
  cases a with
  | error e => exact herror e
  | ok a => exact hok a

/-- Calling one primitive and returning, whatever it answers. -/
theorem perform_pure {o : Op} {b : β} {post : Except ε β → Q → Prop} (ho : D.allowed q o)
    (herror : ∀ e, post (.error e) (D.next q o (.error e)))
    (hok : ∀ a, post (.ok b) (D.next q o (.ok a))) :
    (Program.perform o >>= fun _ => Pure.pure b).Keeps D post q :=
  perform_bind ho herror fun a => .pure (hok a)

/-- Primitives that may be called and change nothing, called in any order. -/
theorem of_inert (h : ∀ o, D.allowed q o ∧ ∀ a, D.next q o a = q) (p : Program ε Res α) :
    p.Keeps D (fun _ q' => q' = q) q := by
  induction p with
  | ret r => rfl
  | call o k ih => exact ⟨(h o).1, fun a => by rw [(h o).2 a]; exact ih a⟩

/-- Where everything may be called. -/
theorem of_allowed (h : ∀ q o, D.allowed q o) (p : Program ε Res α) :
    p.Keeps D (fun _ _ => True) q := by
  induction p generalizing q with
  | ret r => trivial
  | call o k ih => exact ⟨h q o, fun a => ih a⟩

/-- A program that calls only what may always be called. -/
theorem of_calls {P : Op → Prop} (h : ∀ o, P o → ∀ q, D.allowed q o) (hp : p.Calls P) :
    p.Keeps D (fun _ _ => True) q := by
  induction p generalizing q with
  | ret r => trivial
  | call o k ih => exact ⟨h o hp.1 q, fun a => ih a (hp.2 a)⟩

/-- A program over some of the primitives keeps to what the discipline says of those. -/
theorem embed {D : Discipline ε Res' Q} {f : Op → Op'} {p : Program ε (fun o => Res' (f o)) α}
    (hp : p.Keeps ⟨fun q o => D.allowed q (f o), fun q o => D.next q (f o)⟩ post q) :
    (p.embed f).Keeps D post q := by
  induction p generalizing q with
  | ret r => exact hp
  | call o k ih => exact ⟨hp.1, fun a => ih a (hp.2 a)⟩

end Keeps

end Program

namespace Discipline

variable (D : Discipline ε Res Q)

/-- The state after a trace. -/
def after (q : Q) (t : List ((o : Op) × Except ε (Res o))) : Q :=
  t.foldl (fun q e => D.next q e.1 e.2) q

theorem after_append (q : Q) (t t' : List ((o : Op) × Except ε (Res o))) :
    D.after q (t ++ t') = D.after (D.after q t) t' :=
  List.foldl_append

/-- Two disciplines at once. -/
def prod {Q' : Type} (D' : Discipline ε Res Q') : Discipline ε Res (Q × Q') where
  allowed q o := D.allowed q.1 o ∧ D'.allowed q.2 o
  next q o a := (D.next q.1 o a, D'.next q.2 o a)

end Discipline

namespace Program.Keeps

variable {D : Discipline ε Res Q} {post : Except ε α → Q → Prop} {p p' : Program ε Res α} {q : Q}

/-- A program that keeps to two disciplines keeps to both at once. -/
theorem prod {Q' : Type} {D' : Discipline ε Res Q'} {post' : Except ε α → Q' → Prop} {q' : Q'}
    (hp : p.Keeps D post q) (hp' : p.Keeps D' post' q') :
    p.Keeps (D.prod D') (fun r q => post r q.1 ∧ post' r q.2) (q, q') := by
  induction p generalizing q q' with
  | ret r => exact ⟨hp, hp'⟩
  | call o k ih => exact ⟨⟨hp.1, hp'.1⟩, fun a => ih a (hp.2 a) (hp'.2 a)⟩

theorem snd {Q' : Type} {D' : Discipline ε Res Q'} {post : Except ε α → Q × Q' → Prop}
    {post' : Except ε α → Q' → Prop} {q : Q × Q'} (h : ∀ r q, post r q → post' r q.2)
    (hp : p.Keeps (D.prod D') post q) : p.Keeps D' post' q.2 := by
  induction p generalizing q with
  | ret r => exact h r q hp
  | call o k ih => exact ⟨hp.1.2, fun a => ih a (hp.2 a)⟩

/-- A primitive of a trace is one that may be called. -/
theorem allowed_of_trace {t t' : List ((o : Op) × Except ε (Res o))} {o : Op}
    {a : Except ε (Res o)} (hp : p.Keeps D post q) (ht : p.Trace (t ++ ⟨o, a⟩ :: t') p') :
    D.allowed (D.after q t) o := by
  induction t generalizing p q with
  | nil =>
    cases ht
    exact hp.1
  | cons e t ih =>
    cases ht with
    | call a h => exact ih (hp.2 a) h

end Program.Keeps

end LiNaStore
