import LiNaStore.Base.Run
import LiNaStore.Library.Lock

/-!
# Concurrent calls

Reads, writes, deletions and lists of one store run concurrently under its lock:
reads and lists take it as readers, writes and deletions as writers. Hashing,
compressing and decompressing are done outside of it, on what the call was given or
has read (`Request.job`).

Every execution is linearizable (`store_linearizable`). So a read sees a state between
two calls, with the row and the payload of one version; and in the end the sources
count their links, whatever writes shared a source at the same time.
-/

namespace LiNaStore

open Program Store StoreManager

/-! ## Calls and their parts -/

/-- A call of an operation of the store. -/
inductive Request
  | get (fileName : String)
  | put (d : Draws) (fileName : String) (input : Bytes) (cover compressed : Bool)
  | delete (pattern : String) (useRegx : Bool)
  | list (pattern : String) (n : ℕ) (isext useRegex : Bool)

/-- What a call returns. -/
inductive Answer
  | bytes (content : Bytes)
  | done
  | links (links : List Link)

/-- A read only reads. -/
theorem readStored_readOnly (fileName : String) : (readStored fileName).ReadOnly Prim.step := by
  refine Calls.bind (Calls.perform fun _ => rfl) fun links => ?_
  split
  · refine Calls.bind (Calls.perform fun _ => rfl) fun source => ?_
    split
    · refine Calls.bind (Calls.perform fun s => ?_) fun _ => trivial
      rw [Prim.step]
      split <;> rfl
    · trivial
  · trivial

namespace Request

/-- The whole of a call, as a program. -/
def program (E : Engine) : Request → Prog Answer
  | get fileName => do return .bytes (← getBinaryData E fileName)
  | put d fileName input cover compressed => do
    putBinaryData E d fileName input cover compressed
    return .done
  | delete pattern useRegx => do
    StoreManager.delete pattern useRegx
    return .done
  | list pattern n isext useRegex => do return .links (← StoreManager.list pattern n isext useRegex)

/-- The type of what a call has when it releases the lock. -/
def Mid : Request → Type
  | get _ => Stored
  | put .. => Unit
  | delete .. => Unit
  | list .. => List Link

/-- The parts of a call: whether it takes the lock and how, what it does under it, and
    what it makes of the result afterwards. -/
def job (E : Engine) : (r : Request) → Lock.Job Prim.step r.Mid Answer
  | get fileName =>
    if fileName = "" then .refuse (.error .noFilename)
    else .reading (readStored fileName) (readStored_readOnly fileName)
      fun r => (r >>= E.verify).map .bytes
  | put d fileName input cover compressed =>
    if fileName = "" then .refuse (.error .noFilename)
    else match E.encodeContent compressed input with
      | .error err => .refuse (.error err)
      | .ok newStorageBytes =>
        .writing (putBinaryDataLocked d fileName cover compressed (E.hash256 input) input.length
          newStorageBytes (pathExtension fileName)) (Except.map fun _ => .done)
  | delete pattern useRegx =>
    if pattern = "" then .refuse (.error .noFilesRequested)
    else .writing (do
      let links ← listLocked pattern 0 false useRegx
      forEach deleteLink links) (Except.map fun _ => .done)
  | list pattern n isext useRegex =>
    .reading (listLocked pattern n isext useRegex) (listLocked_readOnly pattern n isext useRegex)
      (Except.map .links)

theorem run_map {γ β : Type} (p : Prog γ) (f : γ → β) (s : Store) :
    (p >>= fun a => pure (f a)).run Prim.step s =
      ((p.run Prim.step s).1.map f, (p.run Prim.step s).2) := by
  rw [run_bind]
  rcases p.run Prim.step s with ⟨a | a, s'⟩ <;> rfl

/-- The parts make up the call. -/
theorem run_job (E : Engine) (r : Request) (s : Store) :
    (r.job E).run s = (r.program E).run Prim.step s := by
  cases r with
  | get fileName =>
    rw [job, program, run_map, run_getBinaryData, Store.get]
    split
    · rfl
    · change (Except.map Answer.bytes (((readStored fileName).run Prim.step s).1 >>= E.verify),
        ((readStored fileName).run Prim.step s).2) = _
      rw [run_readStored]
  | put d fileName input cover compressed =>
    rw [job, program, run_map, putBinaryData]
    split
    · rfl
    · cases E.encodeContent compressed input with
      | error err => rfl
      | ok newStorageBytes => rfl
  | delete pattern useRegx =>
    rw [job, program, run_map, StoreManager.delete]
    split <;> rfl
  | list pattern n isext useRegex =>
    rw [job, program, run_map]
    rfl

end Request

/-- Calls run one after the other: their answers, and the state after them. -/
def runAll {ι : Type} (E : Engine) (calls : ι → Request) :
    List ι → Store → List (ι × Except StoreError Answer) × Store
  | [], s => ([], s)
  | i :: order, s =>
    let rest := runAll E calls order (((calls i).program E).run Prim.step s).2
    ((i, (((calls i).program E).run Prim.step s).1) :: rest.1, rest.2)

theorem sequential_job {ι : Type} (E : Engine) (calls : ι → Request) (order : List ι) (s : Store) :
    Lock.sequential (fun i => (calls i).job E) order s = runAll E calls order s := by
  induction order generalizing s with
  | nil => rfl
  | cons i order ih =>
    simp only [Lock.sequential, runAll, Request.run_job]
    rw [ih]

/-! ## Drawing different identifiers -/

/-- What a call draws. -/
def Call.draws : Call → Option Draws
  | put d .. => some d
  | _ => none

/-- The call as one that changes the store. -/
def Request.call : Request → Option Call
  | put d fileName input cover compressed => some (.put d fileName input cover compressed)
  | delete pattern useRegx => some (.delete pattern useRegx)
  | _ => none

/-- What a call draws. -/
def Request.draws (r : Request) : Option Draws := r.call >>= Call.draws

theorem Request.state_run (E : Engine) (r : Request) (s : Store) :
    ((r.program E).run Prim.step s).2 = match r.call with
      | some c => ((c.program E).run Prim.step s).2
      | none => s := by
  cases r with
  | get fileName => rw [program, run_map, run_getBinaryData]; rfl
  | put => rw [program, run_map]; rfl
  | delete => rw [program, run_map]; rfl
  | list => rw [program, run_map, StoreManager.list, run_listLocked]; rfl

/-- Two draws are different. -/
structure Draws.Distinct (d d' : Draws) : Prop where
  sourceId : d.sourceId ≠ d'.sourceId
  linkId : d.linkId ≠ d'.linkId

namespace Draws.Fresh

variable {s : Store} {d : Draws}

theorem release (h : d.Fresh s) (src : Source) : d.Fresh (s.release src) := by
  refine ⟨?_, by rw [links_release]; exact h.linkId⟩
  rw [Store.release]
  split
  · rw [Store.source, setSource_sources, Table.find?_update, show s.sources.find? d.sourceId = none
      from h.sourceId]
    rfl
  · rw [source_eraseSource, source_eraseFile, h.sourceId, ite_self]

theorem eraseLink (h : d.Fresh s) (linkId : String) : d.Fresh (s.eraseLink linkId) :=
  ⟨h.sourceId, by rw [eraseLink_links, Table.find?_erase, h.linkId, ite_self]⟩

theorem delete (h : d.Fresh s) (l : Link) : d.Fresh (s.delete l) := by
  rw [Store.delete]
  split
  · exact (h.eraseLink l.id).release _
  · exact h

theorem deleteAll (h : d.Fresh s) (links : List Link) : d.Fresh (s.deleteAll links) := by
  induction links generalizing s with
  | nil => exact h
  | cons l links ih => exact ih (h.delete l)

theorem addSource (h : d.Fresh s) {id : SourceId} (hid : s.source id = none) (hne : d.sourceId ≠ id)
    (c : Stored) : d.Fresh (s.addSource id c) :=
  ⟨by rw [source_addSource hid, if_neg hne, h.sourceId], h.linkId⟩

theorem insertLink (h : d.Fresh s) {l : Link} (hl : s.links.find? l.id = none)
    (hne : d.linkId ≠ l.id) : d.Fresh (s.insertLink l) :=
  ⟨h.sourceId, by rw [insertLink_links, Table.find?_insert hl, if_neg hne, h.linkId]⟩

theorem repoint (h : d.Fresh s) (linkId : String) (id : SourceId) : d.Fresh (s.repoint linkId id) :=
  ⟨h.sourceId, by rw [repoint_links, Table.find?_update, h.linkId]; rfl⟩

theorem setFile (h : d.Fresh s) (p : Path) (bytes : Bytes) : d.Fresh (s.setFile p bytes) :=
  ⟨h.sourceId, h.linkId⟩

theorem setSource (h : d.Fresh s) (src : Source) : d.Fresh (s.setSource src) := by
  refine ⟨?_, h.linkId⟩
  rw [Store.source, setSource_sources, Table.find?_update, show s.sources.find? d.sourceId = none
    from h.sourceId]
  rfl

/-- What a write draws does not take what others have drawn. -/
theorem put (h : d.Fresh s) {d' : Draws} (hfresh : d'.Fresh s) (hne : d.Distinct d')
    {s' : Store} {fileName ext : String} {cover : Bool} {c : Stored}
    (heff : PutEffect s d' fileName ext cover c s') : d.Fresh s' := by
  cases heff with
  | replace =>
    exact ((h.addSource hfresh.sourceId hne.sourceId c).repoint _ _).release _
  | overwrite => exact (h.setFile _ _).setSource _
  | keep => exact h
  | share => exact (h.insertLink hfresh.linkId hne.linkId).setSource _
  | create =>
    exact (h.addSource hfresh.sourceId hne.sourceId c).insertLink hfresh.linkId hne.linkId

end Draws.Fresh

/-- A call that does not draw what another has drawn leaves it new. -/
theorem Call.Effect.fresh {E : Engine} {s s' : Store} {c : Call} (h : c.Effect E s s') {d : Draws}
    (hd : d.Fresh s) (hne : ∀ d', c.draws = some d' → d.Distinct d') : d.Fresh s' := by
  cases h with
  | refused => exact hd
  | put _ hfresh heff => exact hd.put hfresh (hne _ rfl) heff
  | delete => exact hd.deleteAll _
  | setFileMode => exact ⟨hd.sourceId, by rw [setMode_links, Table.find?_update, hd.linkId]; rfl⟩

/-- Calls whose draws are new and different from one another, one after the other, are
    a run. -/
theorem reachable_runAll {ι : Type} {E : Engine} {calls : ι → Request} {order : List ι} {s : Store}
    (hs : Reachable E Set.univ s) (hnodup : order.Nodup)
    (hfresh : ∀ i ∈ order, ∀ d, (calls i).draws = some d → d.Fresh s)
    (hne : ∀ i j d d', i ≠ j → (calls i).draws = some d → (calls j).draws = some d' → d.Distinct d') :
    Reachable E Set.univ (runAll E calls order s).2 := by
  induction order generalizing s with
  | nil => exact hs
  | cons i order ih =>
    obtain ⟨hi, hnodup⟩ := List.nodup_cons.1 hnodup
    rw [runAll, Request.state_run]
    cases hcall : (calls i).call with
    | none => exact ih hs hnodup fun j hj => hfresh j (List.mem_cons_of_mem i hj)
    | some c =>
      have hdraws : c.draws = (calls i).draws := by rw [Request.draws, hcall]; rfl
      have hc : c.Fresh s := by
        cases c with
        | put d => exact hfresh i List.mem_cons_self d hdraws.symm
        | delete => trivial
        | setFileMode => trivial
      have hwithin : c.Within Set.univ := by cases c <;> trivial
      refine ih (hs.call c hc hwithin) hnodup fun j hj d hd => ?_
      refine (c.run_effect E hs.sound hc).2.2.fresh (hfresh j (List.mem_cons_of_mem i hj) d hd) ?_
      intro d' hd'
      exact hne j i d d' (fun heq => hi (heq ▸ hj)) hd (hdraws ▸ hd')

/-! ## Linearizability -/

/-- Any number of calls on one store, interleaved one primitive at a time as its lock
    permits: there is an order of the calls that have taken effect in which, running one
    after the other, each that has returned gives the answer it gave, and such that a call
    that had returned when another was invoked is before it. When no call is under way,
    these are all calls invoked and the state is the one after them; and if the calls drew
    different identifiers, the sources count their links. -/
theorem store_linearizable {ι : Type} [DecidableEq ι] {E : Engine} {calls : ι → Request} {s : Store}
    {trace : List (Lock.Event ι)}
    {c : Lock.Config Store StoreError Prim.Res (fun i => (calls i).Mid) Answer}
    (h : Lock.Execution (fun i => (calls i).job E) s trace c) :
    ∃ order : List ι, order.Nodup ∧ (∀ i ∈ order, .invoke i ∈ trace) ∧
      (∀ i r, c.phase i = .returned r → (i, r) ∈ (runAll E calls order s).1) ∧
      (∀ u v i j e, trace = u ++ .invoke j :: v → e ∈ u → e.Returns i → j ∈ order →
        [i, j].Sublist order) ∧
      ((∀ i, c.phase i = .idle ∨ ∃ r, c.phase i = .returned r) →
        c.state = (runAll E calls order s).2 ∧ (∀ i, .invoke i ∈ trace → i ∈ order) ∧
        (Reachable E Set.univ s → (∀ i d, (calls i).draws = some d → d.Fresh s) →
          (∀ i j d d', i ≠ j → (calls i).draws = some d → (calls j).draws = some d' →
            d.Distinct d') →
          ∀ src ∈ c.state.sources.rows, src.count = c.state.refs src.id)) := by
  have hlin := h.linearized
  refine ⟨Lock.Execution.order trace, hlin.nodup, fun i hi => ?_, fun i r hr => ?_, ?_, fun hdone => ?_⟩
  · refine (h.invoke_mem_iff i).2 fun hidle => ?_
    have hbegun := (hlin.begun i).2 hi
    rw [hidle] at hbegun
    exact hbegun
  · rw [← sequential_job]
    exact h.mem_sequential hr
  · rintro u v i j e rfl he hi hj
    exact h.real_time he hi hj
  · obtain ⟨hstate, hall⟩ := h.state_eq hdone
    rw [sequential_job] at hstate
    refine ⟨hstate, hall, fun hs hfresh hne src hsrc => ?_⟩
    have hreach := reachable_runAll hs hlin.nodup (fun i _ => hfresh i) hne
    rw [← hstate] at hreach
    exact hreach.sound.count_eq (source_of_mem hsrc)

/-- Two writes of one content under different names, the second invoked before the first
    returns. -/
theorem store_linearizable_shared :
    let calls : Fin 2 → Request := fun i => if i = 0 then .put (.sample 1) "b" [1] false false
      else .put (.sample 2) "c" [1] true true
    ∃ s c, Reachable .plain Set.univ s ∧
      (∃ trace, Lock.Execution (fun i => (calls i).job .plain) s trace c) ∧
      c.state.links.rows.length = 3 ∧
      ∀ src ∈ c.state.sources.rows, src.count = c.state.refs src.id := by
  intro calls
  have hs : Reachable .plain Set.univ _ :=
    .call (.put (.sample 0) "a" [1] false false) .empty ⟨rfl, rfl⟩ trivial
  have h₀ : Lock.Execution (fun i => (calls i).job .plain) _ _ _ :=
    .step (.step (.init (s := ((Call.put (.sample 0) "a" [1] false false).program .plain
      |>.run Prim.step .empty).2)) (.invoke (i := 0) rfl)) (.invoke (i := 1) rfl)
  obtain ⟨_, h₁⟩ := (h₀.step (.acquireWrite (i := 0) rfl rfl rfl rfl)).carryOut (i := 0) rfl
  have h₁ := h₁.step (.releaseWrite (i := 0) rfl rfl)
  obtain ⟨_, h₂⟩ := (h₁.step (.acquireWrite (i := 1) rfl rfl rfl rfl)).carryOut (i := 1) rfl
  have h₂ := h₂.step (.releaseWrite (i := 1) rfl rfl)
  have h := (h₂.step (.ret (i := 1) rfl)).step (.ret (i := 0) rfl)
  obtain ⟨order, _, _, _, _, hend⟩ := store_linearizable h
  refine ⟨_, _, hs, ⟨_, h⟩, rfl, (hend ?_).2.2 hs ?_ ?_⟩
  · exact Fin.forall_fin_two.2 ⟨.inr ⟨_, rfl⟩, .inr ⟨_, rfl⟩⟩
  · refine Fin.forall_fin_two.2 ⟨?_, ?_⟩
    · rintro d ⟨⟩
      exact ⟨rfl, rfl⟩
    · rintro d ⟨⟩
      exact ⟨rfl, rfl⟩
  · refine Fin.forall_fin_two.2 ⟨Fin.forall_fin_two.2 ⟨?_, ?_⟩, Fin.forall_fin_two.2 ⟨?_, ?_⟩⟩
    · exact fun _ _ hne => absurd rfl hne
    · rintro d d' _ ⟨⟩ ⟨⟩
      exact ⟨by decide, by decide⟩
    · rintro d d' _ ⟨⟩ ⟨⟩
      exact ⟨by decide, by decide⟩
    · exact fun _ _ hne => absurd rfl hne

end LiNaStore
