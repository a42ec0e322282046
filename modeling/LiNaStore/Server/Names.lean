import LiNaStore.Server.ReadYourWrites

/-!
# The names of objects

The front ends give an object a name of their own, the text of a UUID, and in every run
all names in the mapper are such (`ServerRun.named`). The response to a read has that
name, and not the identifier of the request (`exists_response_of_read`).
-/

namespace LiNaStore

open Program

/-- All names in the mapper are texts of UUIDs. -/
def Server.Named (sv : Server) : Prop := ∀ name ∈ sv.mapper.names, ∃ u : Uuid, name = u.text

/-- A primitive that does not register a name other than the text of a UUID. -/
def ServerPrim.Names : ServerPrim → Prop
  | register _ _ internalName => ∃ u : Uuid, internalName = u.text
  | _ => True

variable {C : Cipher} {authRequired : Bool} {E : Engine} {D : Set Bytes} {d : FrontDraws}

/-! ## What the front ends register -/

/-- Such a primitive keeps the names. -/
theorem named_step (p : ServerPrim) (hp : p.Names) (sv : Server) (h : sv.Named) :
    (ServerPrim.step E p sv).2.Named := by
  cases p with
  | register bucket key internalName =>
    intro name hname
    rcases BucketMapper.mem_names_register hname with hname | rfl
    · exact h name hname
    · exact hp
  | deleteMapping bucket key =>
    exact fun name hname => h name (BucketMapper.mem_names_delete hname)
  | _ => exact h

/-- Asking for one thing and going on without asking. -/
theorem calls_ask {α : Type} {p : ServerPrim} (hp : p.Names)
    {f : Except ServerError p.Res → ServerProg α} (hf : ∀ r, (f r).Calls ServerPrim.Names) :
    ((ask p).attempt >>= f).Calls ServerPrim.Names :=
  (Calls.attempt (Calls.perform hp)).bind hf

theorem calls_receiveData (message : LiNaProtocol) :
    (receiveData C authRequired message).Calls ServerPrim.Names := by
  refine Calls.bind ?_ fun r => by cases r <;> trivial
  unfold validateToken
  split_ifs
  · split
    · exact calls_ask (by trivial) fun r => by split <;> trivial
    · trivial
  · trivial

/-- Only a write registers a name. -/
theorem calls_resolvedIdentifier (op : Op) (bucket key : String) :
    (resolvedIdentifier op d bucket key).Calls ServerPrim.Names := by
  unfold resolvedIdentifier
  split
  · exact (Calls.ignore (Calls.perform ⟨d.internalName, rfl⟩)).bind fun _ => trivial
  · exact calls_ask (by trivial) fun r => by split <;> trivial

theorem calls_serve (message : LiNaProtocol) :
    (serve C authRequired d message).Calls ServerPrim.Names := by
  refine (calls_receiveData message).bind fun r => ?_
  cases r with
  | error status => trivial
  | ok fileData =>
    refine (calls_resolvedIdentifier message.op _ _).bind fun r => ?_
    cases r with
    | error status => trivial
    | ok identifier => exact calls_ask (by trivial) fun r => by cases r <;> trivial

theorem calls_processThroughQueue (behavior : Behavior) (identifier : String) (data : Bytes) :
    (processThroughQueue d behavior identifier data).Calls ServerPrim.Names :=
  calls_ask (by trivial) fun r => by cases r <;> trivial

/-- Going on with the name of an object. -/
theorem calls_resolveName (bucket key : String) {f : Option String → ServerProg HttpResponse}
    (hnone : (f none).Calls ServerPrim.Names)
    (hsome : ∀ name, (f (some name)).Calls ServerPrim.Names) :
    (resolveName bucket key >>= f).Calls ServerPrim.Names := by
  refine Calls.bind (calls_ask (by trivial) fun r => by cases r <;> trivial) fun name => ?_
  cases name with
  | none => exact hnone
  | some name => exact hsome name

theorem calls_getObject (bucket key : String) :
    (getObject d bucket key).Calls ServerPrim.Names :=
  calls_resolveName bucket key trivial fun _ =>
    (calls_processThroughQueue _ _ _).bind fun r => by split <;> trivial

theorem calls_headObject (bucket key : String) :
    (headObject d bucket key).Calls ServerPrim.Names :=
  calls_resolveName bucket key trivial fun _ =>
    (calls_processThroughQueue _ _ _).bind fun r => by cases r <;> trivial

theorem calls_putObject (bucket key : String) (body : Option Bytes) :
    (putObject d bucket key body).Calls ServerPrim.Names := by
  cases body with
  | none => trivial
  | some bodyBytes =>
    refine (Calls.ignore (Calls.perform ⟨d.internalName, rfl⟩)).bind fun _ => ?_
    exact (calls_processThroughQueue _ _ _).bind fun r => by cases r <;> trivial

theorem calls_deleteObject (bucket key : String) :
    (deleteObject d bucket key).Calls ServerPrim.Names := by
  refine calls_resolveName bucket key trivial fun _ => ?_
  refine (Calls.ignore (Calls.perform trivial)).bind fun _ => ?_
  exact (calls_processThroughQueue _ _ _).bind fun _ => trivial

theorem calls_listObjects (bucket query : String) :
    (listObjects bucket query).Calls ServerPrim.Names :=
  calls_ask (by trivial) fun r => by cases r <;> trivial

theorem calls_handleS3 (method : Method) (uri : String) (body : Option Bytes) :
    (handleS3 d method uri body).Calls ServerPrim.Names := by
  unfold handleS3
  dsimp only
  split
  · split
    · exact calls_ask (by trivial) fun r => by cases r <;> trivial
    · exact calls_listObjects _ _
    · exact calls_getObject _ _
  · split
    · trivial
    · exact calls_headObject _ _
    · trivial
  · split
    · trivial
    · exact calls_putObject _ _ _
    · trivial
  · split
    · exact calls_deleteObject _ _
    · trivial
  · trivial

theorem calls_program (r : FrontRequest) :
    (r.program C authRequired d).Calls ServerPrim.Names := by
  cases r with
  | advanced message hop => exact (calls_serve message).bind fun _ => trivial
  | s3 method uri body => exact (calls_handleS3 method uri body).bind fun _ => trivial

/-! ## Runs -/

/-- In every run the names in the mapper are texts of UUIDs. -/
theorem ServerRun.named {P : Server → FrontRequest → Prop} {sv : Server} {m : Objects}
    (h : ServerRun C E D authRequired P sv m) : sv.Named := by
  induction h with
  | start sessions => exact fun _ h => absurd h List.not_mem_nil
  | sessions sessions _ ih => exact ih
  | request r d reply _ _ _ _ hrun ih =>
    have hcalls : (r.program C authRequired d).Calls ServerPrim.Names := calls_program r
    have hnamed := hcalls.run_invariant (fun p hp sv => named_step (E := E) p hp sv) ih
    rwa [hrun] at hnamed

/-- The reply to a read of an object with a name. -/
theorem run_serve_read {sv : Server} {message : LiNaProtocol} {data : Bytes} {u : Uuid}
    (hread : message.op = .read) (hreceived : sv.received C authRequired message = .ok data)
    (hresolve : sv.mapper.resolve message.address.1 message.address.2 = some u.text) :
    (serve C authRequired d message).run (ServerPrim.step E) sv =
      (.ok ⟨response (match sv.store.contents E u.text with
        | some content => (orderPkg d message (utf8 u.text) data).answer .success content
        | none => (orderPkg d message (utf8 u.text) data).answer .fileNotFound []), true⟩, sv) := by
  have hop : message.op ≠ .write := by
    rw [hread]
    decide
  have hbehavior : (orderPkg d message (utf8 u.text) data).behavior = .getFile := by
    rw [orderPkg, hread]
    rfl
  have hresolved := run_resolvedIdentifier E sv d hop message.address.1 message.address.2
  rw [hresolve] at hresolved
  exact (run_serve_ok hreceived hresolved).trans
    (run_placeOrder (step_order_get d.worker _ sv hbehavior (identifier_orderPkg ..)))

/-- The reply to a read of an object without a name. -/
theorem run_serve_unnamed {sv : Server} {message : LiNaProtocol} {data : Bytes}
    (hread : message.op = .read) (hreceived : sv.received C authRequired message = .ok data)
    (hresolve : sv.mapper.resolve message.address.1 message.address.2 = none) :
    (serve C authRequired d message).run (ServerPrim.step E) sv =
      (.ok (refuse .fileNotFound), sv) := by
  have hop : message.op ≠ .write := by
    rw [hread]
    decide
  have hresolved := run_resolvedIdentifier E sv d hop message.address.1 message.address.2
  rw [hresolve] at hresolved
  exact run_serve_ok hreceived hresolved

/-- A read that succeeds is answered with the name of the object. -/
theorem exists_response_of_read {sv sv' : Server} {message : LiNaProtocol} {reply : Reply}
    (h : sv.Named) (hread : message.op = .read)
    (hrun : (serve C authRequired d message).run (ServerPrim.step E) sv = (.ok reply, sv'))
    (hsuccess : reply.message.status = .success) :
    ∃ (u : Uuid) (pkg : Package) (data : Bytes), pkg.content.identifier = utf8 u.text ∧
      reply.message = response (pkg.answer .success data) := by
  cases hreceived : sv.received C authRequired message with
  | error status =>
    rw [run_serve_error hreceived] at hrun
    cases hrun
    exact absurd hsuccess (received_ne_success hreceived)
  | ok fileData =>
    cases hname : sv.mapper.resolve message.address.1 message.address.2 with
    | none =>
      rw [run_serve_unnamed hread hreceived hname] at hrun
      cases hrun
      cases hsuccess
    | some name =>
      obtain ⟨u, rfl⟩ := h name (BucketMapper.mem_names_of_resolve hname)
      have hreply := run_serve_read (E := E) (d := d) hread hreceived hname
      obtain rfl : _ = reply := Except.ok.inj (Prod.mk.inj (hreply.symm.trans hrun)).1
      cases hdata : sv.store.contents E u.text with
      | none =>
        rw [hdata] at hsuccess
        cases hsuccess
      | some data => exact ⟨u, orderPkg d message (utf8 u.text) fileData, data, rfl, rfl⟩

end LiNaStore
