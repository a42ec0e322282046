import LiNaStore.Server.Http
import LiNaStore.Server.Mappings

/-!
# What the front ends are

A read returns what was written only as long as no object is written twice. What the three front
ends are in all runs is another map, of places for objects (`Shelf`). A place is *free* if the
mapper has no name for its object, and *full* if there is data under that name; it is *vacant* if
there is a name and no data:

* a write fills a free place, and is acknowledged without a trace at any other;
* a deletion of the advanced protocol vacates a place and keeps the name, so that no write is seen
  there any more;
* a deletion over S3 frees the place, and makes it writable again;
* a read returns the data of a full place. At the others there is nothing, except that plain HTTP
  shows a vacant place as an empty file.

Every request of every run is answered so, and leaves the shelf so (`front_ends_refine_shelf`).
Hence data that was once there to be read stays so, whatever anyone requests, until somebody
deletes that very object (`written_once`).
-/

namespace LiNaStore

open Program

/-! ## The shelf -/

/-- The place of an object. -/
inductive Slot
  | free
  | vacant
  | full (data : Bytes)
  deriving DecidableEq, Repr

/-- The places of all objects, by bucket and key. -/
abbrev Shelf := String × String → Slot

/-- What a request is about. -/
inductive Command
  /-- Nothing that is kept on the shelf. -/
  | pass
  | write (a : String × String) (data : Bytes)
  | read (a : String × String)
  /-- Delete an object and keep its name. -/
  | vacate (a : String × String)
  /-- Delete an object and its name. -/
  | clear (a : String × String)
  deriving DecidableEq, Repr

/-- What a message of the advanced protocol is about: nothing, unless it is received. -/
def LiNaProtocol.command (message : LiNaProtocol) : Except Status Bytes → Command
  | .error _ => .pass
  | .ok data => match message.op with
    | .write => .write message.address data
    | .read => .read message.address
    | .delete => .vacate message.address
    | .auth | .none => .pass

/-- What a request over S3 for an object is about. -/
def Method.command (body : Option Bytes) (a : String × String) : Method → Command
  | .get => .read a
  | .put => (body.map (Command.write a)).getD .pass
  | .delete => .clear a
  | .head | .other => .pass

/-- The shelf after a command. -/
def Shelf.after (shelf : Shelf) : Command → Shelf
  | .pass | .read _ => shelf
  | .write a data => if shelf a = .free then Function.update shelf a (.full data) else shelf
  | .vacate a => if shelf a = .free then shelf else Function.update shelf a .vacant
  | .clear a => Function.update shelf a .free

/-- A command that removes the data of an object. -/
def Command.Deletes (a : String × String) : Command → Prop
  | .vacate a' | .clear a' => a' = a
  | .pass | .write .. | .read _ => False

/-- A place that is not free is changed by deletions only. -/
theorem Shelf.after_eq {shelf : Shelf} {a : String × String} {command : Command}
    (ha : shelf a ≠ .free) (h : ¬command.Deletes a) : shelf.after command a = shelf a := by
  cases command with
  | pass | read => rfl
  | write a' data =>
    rw [Shelf.after]
    split
    · next hfree =>
      refine Function.update_of_ne ?_ ..
      rintro rfl
      exact ha hfree
    · rfl
  | vacate a' =>
    rw [Shelf.after]
    split
    · rfl
    · exact Function.update_of_ne (Ne.symm h) ..
  | clear a' => exact Function.update_of_ne (Ne.symm h) ..

/-! ## Requests of all front ends -/

/-- A request to one of the front ends. -/
inductive Visit
  | front (r : FrontRequest)
  | http (method : Method) (uri : String)

/-- What the peer gets to see. -/
inductive Seen
  | front (reply : FrontReply)
  | http (response : HttpResponse)

/-- The data is there to be read. -/
def Seen.Carries (data : Bytes) : Seen → Prop
  | .front (.advanced reply) =>
    reply.message.status = .success ∧ reply.message.payload.data = data
  | .front (.s3 response) | .http response => response.status = 200 ∧ response.body = data

/-- There is nothing to be read, at a place that has a name or not. -/
def Seen.Lacks (named : Bool) : Seen → Prop
  | .front (.advanced reply) =>
    reply.message.status = .fileNotFound ∧ reply.message.payload.data = []
  | .front (.s3 response) => response.status = 404
  -- plain HTTP does not look at the status of an answer
  | .http response =>
    if named then response.status = 200 ∧ response.body = [] else response.status = 404

/-- The object a request over HTTP reads. -/
def httpRead (method : Method) (uri : String) : Option (String × String) :=
  if method = .get ∧ httpPath uri ≠ "" then httpAddress uri else none

namespace Visit

def program (C : Cipher) (authRequired : Bool) (d : FrontDraws) : Visit → ServerProg Seen
  | front r => do return .front (← r.program C authRequired d)
  | http method uri => do return .http (← handleHttp d method uri)

/-- What a request is about. -/
def command (C : Cipher) (authRequired : Bool) (sv : Server) : Visit → Command
  | front (.advanced message _) => message.command (sv.received C authRequired message)
  | front (.s3 method uri body) => ((s3Address uri).map (method.command body)).getD .pass
  | http method uri => ((httpRead method uri).map Command.read).getD .pass

/-- What is to be seen of a request, given what it is about and the shelf it finds. -/
def Shows (shelf : Shelf) : Command → Seen → Prop
  | .read a, seen => match shelf a with
    | .full data => seen.Carries data
    | .vacant => seen.Lacks true
    | .free => seen.Lacks false
  -- a write is acknowledged, whether or not it leaves a trace
  | .write .., .front reply => reply.acknowledged = true
  | .vacate a, .front reply => reply.acknowledged = true ↔ shelf a ≠ .free
  | .clear _, .front reply => reply.acknowledged = true
  | _, _ => True

end Visit

/-! ## The shelf of a server -/

namespace Server

/-- What a server has of an object. -/
def shelf (E : Engine) (sv : Server) : Shelf := fun a =>
  match sv.mapper.resolve a.1 a.2 with
  | none => .free
  | some name => match sv.store.contents E name with
    | none => .vacant
    | some data => .full data

/-- The store is in order, and the names of the mapper are those that front ends draw. -/
structure Kept (E : Engine) (D : Set Bytes) (sv : Server) : Prop where
  consistent : sv.store.Consistent E D
  named : sv.Named

variable {E : Engine} {D : Set Bytes} {sv : Server} {store : Store} {a : String × String}
  {name : String}

theorem shelf_of_none (h : sv.mapper.resolve a.1 a.2 = none) : sv.shelf E a = .free := by
  rw [shelf, h]

theorem shelf_of_some (h : sv.mapper.resolve a.1 a.2 = some name) :
    sv.shelf E a = match sv.store.contents E name with
      | none => .vacant
      | some data => .full data := by
  rw [shelf, h]

theorem shelf_eq_free_iff : sv.shelf E a = .free ↔ sv.mapper.resolve a.1 a.2 = none := by
  refine ⟨fun h => ?_, shelf_of_none⟩
  rw [shelf] at h
  split at h
  · assumption
  · split at h <;> cases h

/-- The shelf after a write: the name that was drawn is registered only at a free place. -/
theorem shelf_write {u : Uuid} {data : Bytes} (hnew : u.text ∉ sv.mapper.names)
    (hstore : store.contents E = (sv.store.contents E).put u.text data) :
    ({ sv with mapper := sv.mapper.register a.1 a.2 u.text, store } : Server).shelf E =
      (sv.shelf E).after (.write a data) := by
  have hother {a' : String × String}
      (hresolve : (sv.mapper.register a.1 a.2 u.text).resolve a'.1 a'.2 =
        sv.mapper.resolve a'.1 a'.2) :
      ({ sv with mapper := sv.mapper.register a.1 a.2 u.text, store } : Server).shelf E a' =
        sv.shelf E a' := by
    rw [shelf, shelf, hresolve, hstore]
    cases hname : sv.mapper.resolve a'.1 a'.2 with
    | none => rfl
    | some name =>
      have hne : name ≠ u.text := fun heq => hnew (heq ▸ BucketMapper.mem_names_of_resolve hname)
      simp only [Contents.put, Function.update_of_ne hne]
  funext a'
  rw [Shelf.after]
  by_cases hfree : sv.shelf E a = .free
  · rw [if_pos hfree]
    by_cases ha : a' = a
    · subst ha
      have hresolve := (BucketMapper.resolve_register hnew a'.1 a'.2).trans
        (if_pos ⟨rfl, shelf_eq_free_iff.mp hfree⟩)
      rw [Function.update_self, shelf, hresolve, hstore]
      simp only [Contents.put, Function.update_self]
    · rw [Function.update_of_ne ha]
      exact hother ((BucketMapper.resolve_register hnew a'.1 a'.2).trans (if_neg fun h => ha h.1))
  · rw [if_neg hfree]
    exact hother ((BucketMapper.resolve_register hnew a'.1 a'.2).trans
      (if_neg fun h => hfree (shelf_eq_free_iff.mpr h.2)))

/-- The shelf after the content of a name is deleted. -/
theorem shelf_delete (hresolve : sv.mapper.resolve a.1 a.2 = some name)
    (hstore : store.contents E = (sv.store.contents E).delete name false) :
    ({ sv with store } : Server).shelf E = (sv.shelf E).after (.vacate a) := by
  have hfree : sv.shelf E a ≠ .free := fun h => by
    rw [shelf_eq_free_iff.mp h] at hresolve
    cases hresolve
  funext a'
  rw [Shelf.after, if_neg hfree]
  by_cases ha : a' = a
  · subst ha
    rw [Function.update_self, shelf, hresolve, hstore]
    simp only [Holds.delete_eq, if_true]
  · rw [Function.update_of_ne ha, shelf, shelf, hstore]
    cases hname : sv.mapper.resolve a'.1 a'.2 with
    | none => rfl
    | some name' =>
      have hne : name' ≠ name := fun heq => ha (BucketMapper.resolve_inj hresolve (heq ▸ hname))
      simp only [Holds.delete_eq, if_neg hne]

/-- The shelf after a name is taken out of the mapper. -/
theorem shelf_forget (sv : Server) (a : String × String) :
    ({ sv with mapper := sv.mapper.delete a.1 a.2 } : Server).shelf E =
      (sv.shelf E).after (.clear a) := by
  funext a'
  rw [Shelf.after, shelf, BucketMapper.resolve_delete]
  by_cases ha : a' = a
  · subst ha
    rw [if_pos rfl, Function.update_self]
  · rw [if_neg ha, Function.update_of_ne ha, shelf]

end Server

/-! ## One request -/

section

variable {C : Cipher} {authRequired : Bool} {E : Engine} {D : Set Bytes} {sv sv' : Server}
  {d : FrontDraws} {message : LiNaProtocol} {data : Bytes}

/-- An order to write, on a store that is in order. -/
theorem order_put_consistent {u : Uuid} (dw : Draws) (pkg : Package) (sv : Server) (hE : E.Lossless)
    (hD : Set.InjOn E.hash256 D) (h : sv.store.Consistent E D) (hfresh : dw.Fresh sv.store)
    (hdata : pkg.content.data ∈ D) (hbehavior : pkg.behavior = .putFile)
    (hid : pkg.content.identifier = utf8 u.text) :
    ∃ store, ServerPrim.step E (.order dw pkg) sv =
        (.ok (pkg.answer .success []), { sv with store }) ∧ store.Consistent E D ∧
      store.contents E = (sv.store.contents E).put u.text pkg.content.data := by
  obtain ⟨extra, hs⟩ := h.sound
  refine ⟨_, step_order_put_eq hs hfresh hbehavior hid, h.run hE (pkg.put dw u.text) hfresh hdata, ?_⟩
  rw [h.contents_run hE hD (pkg.put dw u.text) hfresh hdata, Package.put, Call.apply,
    if_neg u.text_ne_empty]

/-- An order to delete, on a store that is in order. -/
theorem order_delete_consistent {u : Uuid} (dw : Draws) (pkg : Package) (sv : Server)
    (hE : E.Lossless) (hD : Set.InjOn E.hash256 D) (h : sv.store.Consistent E D)
    (hbehavior : pkg.behavior = .deleteFile) (hid : pkg.content.identifier = utf8 u.text) :
    ∃ store, ServerPrim.step E (.order dw pkg) sv =
        (.ok (pkg.answer .success []), { sv with store }) ∧ store.Consistent E D ∧
      store.contents E = (sv.store.contents E).delete u.text false := by
  obtain ⟨extra, hs⟩ := h.sound
  refine ⟨_, step_order_delete_eq hs hbehavior hid, h.run hE (.delete u.text false) trivial trivial, ?_⟩
  rw [h.contents_run hE hD (.delete u.text false) trivial trivial, Call.apply,
    if_neg u.text_ne_empty]

/-- A request is answered and leaves the shelf as it should. -/
def Visit.Refines (C : Cipher) (authRequired : Bool) (E : Engine) (D : Set Bytes) (sv : Server)
    (d : FrontDraws) (v : Visit) : Prop :=
  ∃ seen sv', (v.program C authRequired d).run (ServerPrim.step E) sv = (.ok seen, sv') ∧
    sv'.Kept E D ∧ sv'.shelf E = (sv.shelf E).after (v.command C authRequired sv) ∧
    Visit.Shows (sv.shelf E) (v.command C authRequired sv) seen

/-- The mapper after a name was registered. -/
theorem Server.Named.register (h : sv.Named) (bucket key : String) (u : Uuid) (store : Store) :
    ({ sv with mapper := sv.mapper.register bucket key u.text, store } : Server).Named := by
  intro name hname
  rcases BucketMapper.mem_names_register hname with hname | rfl
  · exact h name hname
  · exact ⟨u, rfl⟩

/-- A message that is answered, with what it is about. -/
theorem Visit.refines_advanced {hop : message.op ≠ .auth} {command : Command} {reply : Reply}
    (hcommand : (Visit.front (.advanced message hop)).command C authRequired sv = command)
    (hrun : (serve C authRequired d message).run (ServerPrim.step E) sv = (.ok reply, sv'))
    (hkept : sv'.Kept E D) (hshelf : sv'.shelf E = (sv.shelf E).after command)
    (hshows : Visit.Shows (sv.shelf E) command (.front (.advanced reply))) :
    (Visit.front (.advanced message hop)).Refines C authRequired E D sv d := by
  rw [← hcommand] at hshelf hshows
  refine ⟨_, sv', ?_, hkept, hshelf, hshows⟩
  rw [Visit.program, FrontRequest.program, run_bind, run_bind, hrun]
  rfl

/-- A message about an object without a name: there is nothing to read or to delete. -/
theorem Visit.refines_free {hop : message.op ≠ .auth}
    (hreceived : sv.received C authRequired message = .ok data) (hwrite : message.op ≠ .write)
    (h : sv.Kept E D) (hresolve : sv.mapper.resolve message.address.1 message.address.2 = none)
    (hrun : (serve C authRequired d message).run (ServerPrim.step E) sv =
      (.ok (refuse .fileNotFound), sv)) :
    (Visit.front (.advanced message hop)).Refines C authRequired E D sv d := by
  have hfree : sv.shelf E message.address = .free := Server.shelf_of_none hresolve
  have hcommand := congrArg message.command hreceived
  rw [LiNaProtocol.command] at hcommand
  cases hmop : message.op with
  | write => exact absurd hmop hwrite
  | auth => exact absurd hmop hop
  | none =>
    rw [hmop] at hcommand
    exact Visit.refines_advanced hcommand hrun h rfl trivial
  | read =>
    rw [hmop] at hcommand
    refine Visit.refines_advanced hcommand hrun h rfl ?_
    rw [Visit.Shows, hfree]
    exact ⟨rfl, rfl⟩
  | delete =>
    rw [hmop] at hcommand
    exact Visit.refines_advanced hcommand hrun h (if_pos hfree).symm
      (iff_of_false Bool.false_ne_true (not_not_intro hfree))

/-- A message about an object with a name, other than a write. -/
theorem Visit.refines_named {hop : message.op ≠ .auth} {u : Uuid} (hE : E.Lossless)
    (hD : Set.InjOn E.hash256 D) (hreceived : sv.received C authRequired message = .ok data)
    (hwrite : message.op ≠ .write) (h : sv.Kept E D)
    (hresolve : sv.mapper.resolve message.address.1 message.address.2 = some u.text)
    (hrun : ∀ {sv' pkg}, ServerPrim.step E (.order d.worker (orderPkg d message (utf8 u.text) data))
        sv = (.ok pkg, sv') → (serve C authRequired d message).run (ServerPrim.step E) sv =
      (.ok ⟨response pkg, true⟩, sv')) :
    (Visit.front (.advanced message hop)).Refines C authRequired E D sv d := by
  have hcommand := congrArg message.command hreceived
  rw [LiNaProtocol.command] at hcommand
  have hbehavior : (orderPkg d message (utf8 u.text) data).behavior = message.op.behavior := rfl
  have hid := identifier_orderPkg d message (utf8 u.text) data
  cases hmop : message.op with
  | write => exact absurd hmop hwrite
  | auth => exact absurd hmop hop
  | none =>
    rw [hmop] at hbehavior hcommand
    exact Visit.refines_advanced hcommand (hrun (step_order_none _ _ sv hbehavior hid)) h rfl trivial
  | read =>
    rw [hmop] at hbehavior hcommand
    refine Visit.refines_advanced hcommand (hrun (step_order_get _ _ sv hbehavior hid)) h rfl ?_
    rw [Visit.Shows, Server.shelf_of_some hresolve]
    cases sv.store.contents E u.text <;> exact ⟨rfl, rfl⟩
  | delete =>
    rw [hmop] at hbehavior hcommand
    obtain ⟨store, hstep, hcons, hstore⟩ :=
      order_delete_consistent d.worker _ sv hE hD h.consistent hbehavior hid
    refine Visit.refines_advanced hcommand (hrun hstep) ⟨hcons, h.named⟩
      (Server.shelf_delete hresolve hstore) (iff_of_true rfl fun hfree => ?_)
    rw [Server.shelf_eq_free_iff.mp hfree] at hresolve
    cases hresolve

/-- A message of the advanced protocol. -/
theorem FrontRequest.refines_advanced (hE : E.Lossless) (hD : Set.InjOn E.hash256 D)
    (h : sv.Kept E D) (hfresh : d.Fresh sv) (hop : message.op ≠ .auth)
    (hwithin : ∀ a data, message.command (sv.received C authRequired message) =
      .write a data → data ∈ D) :
    (Visit.front (.advanced message hop)).Refines C authRequired E D sv d := by
  rcases hreceived : sv.received C authRequired message with status | data
  · exact Visit.refines_advanced (congrArg message.command hreceived) (run_serve_error hreceived) h
      rfl trivial
  rw [hreceived] at hwithin
  by_cases hwrite : message.op = .write
  · have hcommand : message.command (.ok data) = .write message.address data := by
      rw [LiNaProtocol.command, hwrite]
    let name := utf8 d.internalName.text
    have hbehavior : (orderPkg d message name data).behavior = .putFile := by
      rw [orderPkg, hwrite]
      rfl
    let sv₁ : Server := { sv with
      mapper := sv.mapper.register message.address.1 message.address.2 d.internalName.text }
    obtain ⟨store, hstep, hcons, hstore⟩ := order_put_consistent d.worker (orderPkg d message name data)
      sv₁ hE hD h.consistent hfresh.worker (hwithin _ _ hcommand) hbehavior (identifier_orderPkg ..)
    have hresolved : (resolvedIdentifier message.op d message.address.1 message.address.2).run
        (ServerPrim.step E) sv = (.ok (.ok name), sv₁) := by
      rw [hwrite]
      rfl
    exact Visit.refines_advanced ((congrArg message.command hreceived).trans hcommand)
      ((run_serve_ok hreceived hresolved).trans (run_placeOrder hstep))
      ⟨hcons, h.named.register message.address.1 message.address.2 d.internalName store⟩
      (Server.shelf_write hfresh.internalName hstore) rfl
  · have hresolved := run_resolvedIdentifier E sv d hwrite message.address.1 message.address.2
    cases hresolve : sv.mapper.resolve message.address.1 message.address.2 with
    | none =>
      rw [hresolve] at hresolved
      exact Visit.refines_free hreceived hwrite h hresolve (run_serve_ok hreceived hresolved)
    | some name =>
      obtain ⟨u, rfl⟩ := h.named name (BucketMapper.mem_names_of_resolve hresolve)
      rw [hresolve] at hresolved
      refine Visit.refines_named hE hD hreceived hwrite h hresolve fun hstep => ?_
      exact (run_serve_ok hreceived hresolved).trans (run_placeOrder hstep)

/-- A request over S3 that is answered, with what it is about. -/
theorem Visit.refines_s3 {method : Method} {uri : String} {body : Option Bytes} {command : Command}
    {response : HttpResponse}
    (hcommand : (Visit.front (.s3 method uri body)).command C authRequired sv = command)
    (hrun : (handleS3 d method uri body).run (ServerPrim.step E) sv = (.ok response, sv'))
    (hkept : sv'.Kept E D) (hshelf : sv'.shelf E = (sv.shelf E).after command)
    (hshows : Visit.Shows (sv.shelf E) command (.front (.s3 response))) :
    (Visit.front (.s3 method uri body)).Refines C authRequired E D sv d := by
  rw [← hcommand] at hshelf hshows
  refine ⟨_, sv', ?_, hkept, hshelf, hshows⟩
  rw [Visit.program, FrontRequest.program, run_bind, run_bind, hrun]
  rfl

theorem run_getObject_shelf (h : sv.Kept E D) (bucket key : String) :
    ∃ response, (getObject d bucket key).run (ServerPrim.step E) sv = (.ok response, sv) ∧
      Visit.Shows (sv.shelf E) (.read (bucket, key)) (.front (.s3 response)) := by
  refine ⟨_, run_getObject_eq h.named bucket key, ?_⟩
  rw [Visit.Shows]
  cases hresolve : sv.mapper.resolve bucket key with
  | none =>
    rw [Server.shelf_of_none hresolve]
    rfl
  | some name =>
    rw [Server.shelf_of_some hresolve, Option.bind_some]
    cases sv.store.contents E name with
    | none => rfl
    | some data => exact ⟨rfl, rfl⟩

theorem run_putObject_shelf (hE : E.Lossless) (hD : Set.InjOn E.hash256 D) (h : sv.Kept E D)
    (hfresh : d.Fresh sv) (hdata : data ∈ D) (bucket key : String) :
    ∃ response sv', (putObject d bucket key (some data)).run (ServerPrim.step E) sv =
        (.ok response, sv') ∧ (FrontReply.s3 response).acknowledged = true ∧ sv'.Kept E D ∧
      sv'.shelf E = (sv.shelf E).after (.write (bucket, key) data) := by
  let name := d.internalName.text
  let sv₁ : Server := { sv with mapper := sv.mapper.register bucket key name }
  obtain ⟨store, hstep, hcons, hstore⟩ := order_put_consistent d.worker (queuePkg d .putFile name data)
    sv₁ hE hD h.consistent hfresh.worker hdata rfl (identifier_queuePkg ..)
  have hregister : ((ask (.register bucket key name)).run (ServerPrim.step E) sv).2 = sv₁ := rfl
  refine ⟨⟨200, [etag d], []⟩, { sv₁ with store }, ?_, rfl,
    ⟨hcons, h.named.register bucket key d.internalName store⟩,
    Server.shelf_write (a := (bucket, key)) hfresh.internalName hstore⟩
  rw [putObject, run_ignore_bind, hregister, run_bind, run_processThroughQueue hstep]
  rfl

theorem run_deleteObject_shelf (hE : E.Lossless) (hD : Set.InjOn E.hash256 D) (h : sv.Kept E D)
    (bucket key : String) :
    ∃ sv', (deleteObject d bucket key).run (ServerPrim.step E) sv =
        (.ok (buildEmptyResponse 204), sv') ∧ sv'.Kept E D ∧
      sv'.shelf E = (sv.shelf E).after (.clear (bucket, key)) := by
  rw [deleteObject, run_bind, run_resolveName]
  dsimp only
  cases hresolve : sv.mapper.resolve bucket key with
  | none =>
    refine ⟨sv, rfl, h, ?_⟩
    rw [Shelf.after, ← Server.shelf_of_none (E := E) (a := (bucket, key)) hresolve,
      Function.update_eq_self]
  | some name =>
    obtain ⟨u, rfl⟩ := h.named name (BucketMapper.mem_names_of_resolve hresolve)
    let sv₁ : Server := { sv with mapper := sv.mapper.delete bucket key }
    obtain ⟨store, hstep, hcons, hstore⟩ := order_delete_consistent d.worker
      (queuePkg d .deleteFile u.text []) sv₁ hE hD h.consistent rfl (identifier_queuePkg ..)
    refine ⟨{ sv₁ with store }, ?_,
      ⟨hcons, fun name hname => h.named name (BucketMapper.mem_names_delete hname)⟩, ?_⟩
    · have hdelete : ((ask (.deleteMapping bucket key)).run (ServerPrim.step E) sv).2 = sv₁ := rfl
      dsimp only
      rw [run_ignore_bind, hdelete, run_bind, run_processThroughQueue hstep]
      rfl
    · -- without its name the place is free, whatever was there
      have hvacate := Server.shelf_delete (a := (bucket, key)) hresolve hstore
      have hclear : ({ sv₁ with store } : Server).shelf E =
          (({ sv with store } : Server).shelf E).after (.clear (bucket, key)) :=
        Server.shelf_forget { sv with store } (bucket, key)
      refine hclear.trans ?_
      rw [hvacate, Shelf.after, Shelf.after, Shelf.after]
      split
      · rfl
      · exact Function.update_idem ..

/-- A request over S3. -/
theorem FrontRequest.refines_s3 (hE : E.Lossless) (hD : Set.InjOn E.hash256 D) (h : sv.Kept E D)
    (hfresh : d.Fresh sv) (method : Method) (uri : String) (body : Option Bytes)
    (hwithin : ∀ a data, (Visit.front (.s3 method uri body)).command C authRequired sv =
      .write a data → data ∈ D) :
    (Visit.front (.s3 method uri body)).Refines C authRequired E D sv d := by
  have hcommand : (Visit.front (.s3 method uri body)).command C authRequired sv =
      ((s3Address uri).map (method.command body)).getD .pass := rfl
  rcases haddress : s3Address uri with _ | ⟨bucket, key⟩
  · rw [haddress] at hcommand
    obtain ⟨response, hrun⟩ := run_handleS3_elsewhere E sv d method body haddress
    exact Visit.refines_s3 hcommand hrun h rfl trivial
  rw [haddress] at hcommand
  have hprogram := handleS3_object d method body haddress
  cases method with
  | get =>
    obtain ⟨response, hrun, hshows⟩ := run_getObject_shelf (d := d) h bucket key
    exact Visit.refines_s3 hcommand (by rw [hprogram]; exact hrun) h rfl hshows
  | head =>
    obtain ⟨response, hrun⟩ := run_headObject (E := E) (d := d) h.named bucket key
    exact Visit.refines_s3 hcommand (by rw [hprogram]; exact hrun) h rfl trivial
  | put =>
    cases body with
    | none => exact Visit.refines_s3 hcommand (by rw [hprogram]; rfl) h rfl trivial
    | some data =>
      obtain ⟨response, sv', hrun, hack, hkept, hshelf⟩ := run_putObject_shelf hE hD h hfresh
        (hwithin _ _ hcommand) bucket key
      exact Visit.refines_s3 hcommand (by rw [hprogram]; exact hrun) hkept hshelf hack
  | delete =>
    obtain ⟨sv', hrun, hkept, hshelf⟩ := run_deleteObject_shelf (d := d) hE hD h bucket key
    have hack : (FrontReply.s3 (buildEmptyResponse 204)).acknowledged = true := rfl
    exact Visit.refines_s3 hcommand (by rw [hprogram]; exact hrun) hkept hshelf hack
  | other => exact Visit.refines_s3 hcommand (by rw [hprogram]; rfl) h rfl trivial

/-- A request over plain HTTP. -/
theorem Visit.refines_http (h : sv.Kept E D) (method : Method) (uri : String) :
    (Visit.http method uri).Refines C authRequired E D sv d := by
  have hanswered {command : Command} (response : HttpResponse)
      (hcommand : (Visit.http method uri).command C authRequired sv = command)
      (hrun : (handleHttp d method uri).run (ServerPrim.step E) sv = (.ok response, sv))
      (hshelf : sv.shelf E = (sv.shelf E).after command)
      (hshows : Visit.Shows (sv.shelf E) command (.http response)) :
      (Visit.http method uri).Refines C authRequired E D sv d := by
    rw [← hcommand] at hshelf hshows
    refine ⟨.http response, sv, ?_, h, hshelf, hshows⟩
    rw [Visit.program, run_bind, hrun]
    rfl
  by_cases hget : method = .get ∧ httpPath uri ≠ ""
  · obtain ⟨rfl, hpath⟩ := hget
    have hcommand : (Visit.http .get uri).command C authRequired sv =
        ((httpAddress uri).map Command.read).getD .pass := by
      rw [Visit.command, httpRead, if_pos ⟨rfl, hpath⟩]
    rcases haddress : httpAddress uri with _ | ⟨bucket, key⟩
    · rw [haddress] at hcommand
      rw [httpAddress] at haddress
      refine hanswered (Http.plainResponse 400 "Invalid URL") hcommand ?_ rfl trivial
      rw [handleHttp, if_neg (not_not_intro rfl), if_neg hpath, haddress]
      rfl
    · rw [haddress] at hcommand
      obtain ⟨response, hrun, hresponse⟩ := run_handleHttp (E := E) (d := d) h.named hpath haddress
      refine hanswered response hcommand hrun rfl ?_
      change Visit.Shows (sv.shelf E) (.read (bucket, key)) (.http response)
      rw [Visit.Shows]
      cases hresolve : sv.mapper.resolve bucket key with
      | none =>
        rw [hresolve] at hresponse
        rw [Server.shelf_of_none hresolve]
        exact hresponse
      | some name =>
        rw [hresolve] at hresponse
        obtain ⟨hstatus, hbody, -⟩ := hresponse
        rw [Server.shelf_of_some hresolve]
        cases hcontents : sv.store.contents E name with
        | none => exact ⟨hstatus, by rw [hbody, hcontents]; rfl⟩
        | some data => exact ⟨hstatus, by rw [hbody, hcontents]; rfl⟩
  · have hcommand : (Visit.http method uri).command C authRequired sv = .pass := by
      rw [Visit.command, httpRead, if_neg hget]
      rfl
    by_cases hmethod : method = .get
    · have hpath : httpPath uri = "" := not_not.mp fun hne => hget ⟨hmethod, hne⟩
      refine hanswered (Http.plainResponse 200 "LiNastore is running") hcommand ?_ rfl trivial
      rw [handleHttp, if_neg (not_not_intro hmethod), if_pos hpath]
      rfl
    · refine hanswered (Http.plainResponse 405 "Method Not Allowed") hcommand ?_ rfl trivial
      rw [handleHttp, if_pos hmethod]
      rfl

/-- Every request is answered as the shelf says. -/
theorem Visit.refines (hE : E.Lossless) (hD : Set.InjOn E.hash256 D) (h : sv.Kept E D)
    (hfresh : d.Fresh sv) (v : Visit)
    (hwithin : ∀ a data, v.command C authRequired sv = .write a data → data ∈ D) :
    v.Refines C authRequired E D sv d := by
  cases v with
  | front r =>
    cases r with
    | advanced message hop => exact FrontRequest.refines_advanced hE hD h hfresh hop hwithin
    | s3 method uri body => exact FrontRequest.refines_s3 hE hD h hfresh method uri body hwithin
  | http method uri => exact Visit.refines_http h method uri

end

/-! ## Runs -/

/-- The states of runs of requests to all front ends, with what the shelf has become. -/
inductive ShelfRun (C : Cipher) (E : Engine) (D : Set Bytes) (authRequired : Bool) :
    Server → Shelf → Prop
  /-- All places are free. -/
  | start (sessions : String → Int → Option String) :
      ShelfRun C E D authRequired (.start sessions) fun _ => .free
  /-- Sessions begin and end. -/
  | sessions {sv : Server} {shelf : Shelf} (sessions : String → Int → Option String) :
      ShelfRun C E D authRequired sv shelf →
      ShelfRun C E D authRequired { sv with sessions } shelf
  /-- A request is handled. -/
  | visit {sv sv' : Server} {shelf : Shelf} (v : Visit) (d : FrontDraws) (seen : Seen) :
      ShelfRun C E D authRequired sv shelf → d.Fresh sv →
      (∀ a data, v.command C authRequired sv = .write a data → data ∈ D) →
      (v.program C authRequired d).run (ServerPrim.step E) sv = (.ok seen, sv') →
      ShelfRun C E D authRequired sv' (shelf.after (v.command C authRequired sv))

/-- The states that requests about commands that satisfy `P` lead to from `start`. -/
inductive Following (C : Cipher) (E : Engine) (D : Set Bytes) (authRequired : Bool)
    (P : Command → Prop) (start : Server) : Server → Prop
  | refl : Following C E D authRequired P start start
  | sessions {sv : Server} (sessions : String → Int → Option String) :
      Following C E D authRequired P start sv →
      Following C E D authRequired P start { sv with sessions }
  | visit {sv sv' : Server} (v : Visit) (d : FrontDraws) (seen : Seen) :
      Following C E D authRequired P start sv → d.Fresh sv →
      (∀ a data, v.command C authRequired sv = .write a data → data ∈ D) →
      P (v.command C authRequired sv) →
      (v.program C authRequired d).run (ServerPrim.step E) sv = (.ok seen, sv') →
      Following C E D authRequired P start sv'

section

variable {C : Cipher} {authRequired : Bool} {E : Engine} {D : Set Bytes} {sv sv' : Server}
  {shelf : Shelf} {a : String × String} {data : Bytes}

/-- The server has what the shelf says. -/
theorem ShelfRun.kept (hE : E.Lossless) (hD : Set.InjOn E.hash256 D)
    (h : ShelfRun C E D authRequired sv shelf) : sv.Kept E D ∧ sv.shelf E = shelf := by
  induction h with
  | start sessions =>
    exact ⟨⟨Reachable.empty.consistent hE, fun _ h => absurd h List.not_mem_nil⟩, rfl⟩
  | sessions sessions _ ih => exact ⟨⟨ih.1.consistent, ih.1.named⟩, ih.2⟩
  | visit v d seen _ hfresh hwithin hrun ih =>
    obtain ⟨hkept, rfl⟩ := ih
    obtain ⟨seen', sv', hrun', hkept', hshelf, -⟩ := v.refines hE hD hkept hfresh hwithin
    rw [hrun] at hrun'
    cases hrun'
    exact ⟨hkept', hshelf⟩

/-- What was not free stays as it is, if nothing is deleted there. -/
theorem Following.shelf_eq (hE : E.Lossless) (hD : Set.InjOn E.hash256 D) (hkept : sv.Kept E D)
    (ha : sv.shelf E a ≠ .free)
    (h : Following C E D authRequired (fun command => ¬command.Deletes a) sv sv') :
    sv'.Kept E D ∧ sv'.shelf E a = sv.shelf E a := by
  induction h with
  | refl => exact ⟨hkept, rfl⟩
  | sessions sessions _ ih => exact ⟨⟨ih.1.consistent, ih.1.named⟩, ih.2⟩
  | visit v d seen _ hfresh hwithin hdeletes hrun ih =>
    obtain ⟨seen', sv', hrun', hkept', hshelf, -⟩ := v.refines hE hD ih.1 hfresh hwithin
    rw [hrun] at hrun'
    cases hrun'
    refine ⟨hkept', ?_⟩
    rw [hshelf, Shelf.after_eq (ih.2 ▸ ha) hdeletes, ih.2]

end

variable {C : Cipher} {authRequired : Bool} {E : Engine} {D : Set Bytes} {sv sv' : Server}
  {shelf : Shelf}

/-- In every run of requests to the three front ends, whoever makes them, the server has what the
    shelf says; and every further request is answered, shows what the shelf says of what it is
    about, and leaves the server with what the shelf says after it. -/
theorem front_ends_refine_shelf (hE : E.Lossless) (hD : Set.InjOn E.hash256 D)
    (h : ShelfRun C E D authRequired sv shelf) :
    sv.shelf E = shelf ∧
    ∀ (v : Visit) (d : FrontDraws), d.Fresh sv →
      (∀ a data, v.command C authRequired sv = .write a data → data ∈ D) →
      ∃ seen sv', (v.program C authRequired d).run (ServerPrim.step E) sv = (.ok seen, sv') ∧
        sv'.shelf E = shelf.after (v.command C authRequired sv) ∧
        Visit.Shows shelf (v.command C authRequired sv) seen := by
  obtain ⟨hkept, rfl⟩ := h.kept hE hD
  refine ⟨rfl, fun v d hfresh hwithin => ?_⟩
  obtain ⟨seen, sv', hrun, -, hshelf, hshows⟩ := v.refines hE hD hkept hfresh hwithin
  exact ⟨seen, sv', hrun, hshelf, hshows⟩

/-- An object is written twice. -/
theorem front_ends_refine_shelf_twice :
    ∃ sv shelf, ShelfRun .rejecting .plain {[1], [2]} false sv shelf ∧
      shelf ("default", "a") = .full [1] ∧ sv.shelf .plain = shelf := by
  have h : ShelfRun .rejecting .plain {[1], [2]} false _ _ :=
    .visit (.front (.s3 .put "/default/a" (some [2]))) (.sample 1) _
      (.visit (.front (.s3 .put "/default/a" (some [1]))) (.sample 0) _ (.start fun _ _ => none)
        ⟨by decide, rfl, rfl⟩ (fun _ _ h => by cases h; exact .inl rfl) rfl)
      ⟨by decide, rfl, rfl⟩ (fun _ _ h => by cases h; exact .inr rfl) rfl
  exact ⟨_, _, h, rfl, (front_ends_refine_shelf Engine.lossless_plain injOn_hash256_plain h).1⟩

/-- Data that is there to be read stays so, whatever anyone requests of the front ends, until this
    object is deleted: every read of it, by any of the front ends, returns the data. -/
theorem written_once (hE : E.Lossless) (hD : Set.InjOn E.hash256 D)
    (h : ShelfRun C E D authRequired sv shelf) {a : String × String} {data : Bytes}
    (hdata : shelf a = .full data)
    (hlater : Following C E D authRequired (fun command => ¬command.Deletes a) sv sv')
    (v : Visit) (d : FrontDraws) (hfresh : d.Fresh sv')
    (hread : v.command C authRequired sv' = .read a) :
    ∃ seen sv'', (v.program C authRequired d).run (ServerPrim.step E) sv' = (.ok seen, sv'') ∧
      seen.Carries data := by
  obtain ⟨hkept, rfl⟩ := h.kept hE hD
  obtain ⟨hkept', heq⟩ := hlater.shelf_eq hE hD hkept (by rw [hdata]; exact nofun)
  have hwithin (a' : String × String) (data' : Bytes)
      (h : v.command C authRequired sv' = .write a' data') : data' ∈ D := by
    rw [hread] at h
    cases h
  obtain ⟨seen, sv'', hrun, -, -, hshows⟩ := v.refines hE hD hkept' hfresh hwithin
  refine ⟨seen, sv'', hrun, ?_⟩
  rw [hread, Visit.Shows, heq, hdata] at hshows
  exact hshows

/-- The second write is acknowledged, and the first is read. -/
theorem written_once_twice :
    ∃ sv seen sv'', ((Visit.http .get "/default/a").program .rejecting false (.sample 2)).run
        (ServerPrim.step .plain) sv = (.ok seen, sv'') ∧ seen.Carries [1] :=
  ⟨_, written_once Engine.lossless_plain (injOn_hash256_plain (D := {[1], [2]}))
    (.visit (.front (.s3 .put "/default/a" (some [1]))) (.sample 0) _ (.start fun _ _ => none)
      ⟨by decide, rfl, rfl⟩ (fun _ _ h => by cases h; exact .inl rfl) rfl) rfl
    (.visit (.front (.s3 .put "/default/a" (some [2]))) (.sample 1) _ .refl
      ⟨by decide, rfl, rfl⟩ (fun _ _ h => by cases h; exact .inr rfl) id rfl)
    (.http .get "/default/a") (.sample 2) ⟨by decide, rfl, rfl⟩ rfl⟩

end LiNaStore
