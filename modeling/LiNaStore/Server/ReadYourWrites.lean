import LiNaStore.Server.Objects

/-!
# Reading what was written

Requests of both front ends, handled one after another (`ServerRun`), against the map of
objects that the acknowledged ones make (`Objects.after`). A read is to return what the
map has.
-/

namespace LiNaStore

open Program

/-! ## Requests and what they mean -/

/-- A request to a front end; a handshake is not about objects. -/
inductive FrontRequest
  | advanced (message : LiNaProtocol) (hop : message.op ≠ .auth)
  | s3 (method : Method) (uri : String) (body : Option Bytes)

/-- What a front end replies. -/
inductive FrontReply
  | advanced (reply : Reply)
  | s3 (response : HttpResponse)
  deriving DecidableEq, Repr

namespace FrontReply

/-- The request was carried out. -/
def acknowledged : FrontReply → Bool
  | advanced reply => reply.message.status = .success
  | s3 response => 200 ≤ response.status ∧ response.status < 300

/-- The reply to a read: the data of the object, or that there is none. -/
def Answers : FrontReply → Option Bytes → Prop
  | advanced reply, some data => reply.message.status = .success ∧ reply.message.payload.data = data
  | advanced reply, none => reply.message.status = .fileNotFound
  | s3 response, some data => response.status = 200 ∧ response.body = data
  | s3 response, none => response.status = 404

end FrontReply

/-- The object that the identifier of a message is for. -/
def LiNaProtocol.address (message : LiNaProtocol) : String × String :=
  splitIdentifier message.payload.identifier

/-- The object that the path of a request is for. -/
def s3Address (uri : String) : Option (String × String) :=
  match parseS3Path (splitUri uri).1 with
  | (some bucket, some key) => some (bucket, key)
  | _ => none

/-- The data that is sent in a payload: behind a token and a zero byte, sealed unless it is
    empty, if a token is required; raw data otherwise. -/
def sentData (C : Cipher) (authRequired : Bool) (payload : Bytes) : Option Bytes :=
  if authRequired then
    match splitNul payload with
    | (token, some fileData) => (fromUtf8 token).bind fun token =>
      if fileData = [] then some [] else (decryptWithToken C token fileData).toOption
    | (_, none) => none
  else some payload

namespace FrontRequest

def program (C : Cipher) (authRequired : Bool) (d : FrontDraws) :
    FrontRequest → ServerProg FrontReply
  | advanced message _ => do return .advanced (← serve C authRequired d message)
  | s3 method uri body => do return .s3 (← handleS3 d method uri body)

/-- The object a request is to write, and the data. -/
def written (C : Cipher) (authRequired : Bool) : FrontRequest → Option ((String × String) × Bytes)
  | advanced message _ =>
    if message.op = .write then
      (sentData C authRequired message.payload.data).map (message.address, ·)
    else none
  | s3 .put uri (some body) => (s3Address uri).map (·, body)
  | s3 .. => none

/-- The object a request is to delete. -/
def deleted : FrontRequest → Option (String × String)
  | advanced message _ => if message.op = .delete then some message.address else none
  | s3 .delete uri _ => s3Address uri
  | s3 .. => none

/-- The object a request is to read. -/
def read : FrontRequest → Option (String × String)
  | advanced message _ => if message.op = .read then some message.address else none
  | s3 .get uri _ => s3Address uri
  | s3 .. => none

/-- The request has the token of a session, if one is required. -/
def Authorized (authRequired : Bool) (sv : Server) : FrontRequest → Prop
  | advanced message _ => authRequired = true → ∃ token,
      (splitPayload message.op message.payload.data).1 = some token ∧
        (sv.sessions token 60).isSome
  | s3 .. => True

/-- A request that, if it is authorized, does not write an object for which the mapper has a name,
    and is no raw upload with a zero byte. -/
def Fits (C : Cipher) (authRequired : Bool) (sv : Server) (r : FrontRequest) : Prop :=
  r.Authorized authRequired sv →
    (∀ a data, r.written C authRequired = some (a, data) → sv.mapper.resolve a.1 a.2 = none) ∧
    ∀ message hop, r = .advanced message hop → message.op = .write → authRequired = false →
      0 ∉ message.payload.data

end FrontRequest

/-- The map after a request: an acknowledged write sets an object, and an acknowledged
    deletion removes it. -/
def Objects.after (C : Cipher) (authRequired : Bool) (m : Objects) (r : FrontRequest)
    (reply : FrontReply) : Objects :=
  if reply.acknowledged then
    match r.written C authRequired, r.deleted with
    | some (a, data), _ => Function.update m a (some data)
    | none, some a => Function.update m a none
    | none, none => m
  else m

/-- What a front end draws is new. -/
structure FrontDraws.Fresh (d : FrontDraws) (sv : Server) : Prop where
  internalName : d.internalName.text ∉ sv.mapper.names
  worker : d.worker.Fresh sv.store

/-- The states and the maps of runs in which every request satisfies `P`. -/
inductive ServerRun (C : Cipher) (E : Engine) (D : Set Bytes) (authRequired : Bool)
    (P : Server → FrontRequest → Prop) : Server → Objects → Prop
  /-- There are no objects. -/
  | start (sessions : String → Int → Option String) :
      ServerRun C E D authRequired P (.start sessions) fun _ => none
  /-- Sessions begin and end. -/
  | sessions {sv : Server} {m : Objects} (sessions : String → Int → Option String) :
      ServerRun C E D authRequired P sv m →
      ServerRun C E D authRequired P { sv with sessions } m
  /-- A request is handled. -/
  | request {sv sv' : Server} {m : Objects} (r : FrontRequest) (d : FrontDraws)
      (reply : FrontReply) : ServerRun C E D authRequired P sv m → d.Fresh sv →
      (∀ a data, r.written C authRequired = some (a, data) → data ∈ D) → P sv r →
      (r.program C authRequired d).run (ServerPrim.step E) sv = (.ok reply, sv') →
      ServerRun C E D authRequired P sv' (m.after C authRequired r reply)

/-! ## The payload of a request -/

section Payload

variable {C : Cipher} {authRequired : Bool} {E : Engine} {sv : Server} {message : LiNaProtocol}

/-- What `receiveData` gives. -/
def Server.received (C : Cipher) (authRequired : Bool) (sv : Server) (message : LiNaProtocol) :
    Except Status Bytes :=
  let payload := splitPayload message.op message.payload.data
  if authRequired then
    match payload.1 with
    | some token =>
      if (sv.sessions token 60).isSome then openFileData C true (some token) payload.2
      else .error .unauthorized
    | none => .error .unauthorized
  else openFileData C false payload.1 payload.2

/-- All that receiving asks for is a session. -/
theorem run_receiveData {step : (p : ServerPrim) → Server → Except ServerError p.Res × Server}
    (hstep : ∀ token, step (.validateSession token 60) sv = (.ok (sv.sessions token 60), sv)) :
    (receiveData C authRequired message).run step sv =
      (.ok (sv.received C authRequired message), sv) := by
  rw [receiveData, Server.received, run_bind]
  cases authRequired with
  | false => rfl
  | true =>
    cases (splitPayload message.op message.payload.data).1 with
    | none => rfl
    | some token =>
      rw [validateToken, if_pos rfl, run_bind, run_attempt, run_perform, hstep]
      dsimp only
      cases sv.sessions token 60 <;> rfl

theorem openFileData_ne_success {token : Option String} {fileData : Bytes} {status : Status}
    (h : openFileData C authRequired token fileData = .error status) : status ≠ .success := by
  unfold openFileData at h
  split at h
  · split at h
    · split at h
      · cases h
      · split at h
        · cases h
          decide
        · cases h
    · cases h
  · cases h

/-- With a token required, data that is not empty is opened. -/
theorem toOption_of_openFileData {token : String} {fileData data : Bytes}
    (h : openFileData C true (some token) fileData = .ok data) :
    (if fileData = [] then some [] else (decryptWithToken C token fileData).toOption) =
      some data := by
  rw [openFileData] at h
  by_cases hnil : fileData = []
  · rw [if_neg (not_not_intro hnil)] at h
    cases h
    rw [if_pos hnil, hnil]
  rw [if_pos hnil] at h
  rw [if_neg hnil]
  cases hopen : decryptWithToken C token fileData with
  | error e =>
    rw [hopen] at h
    cases h
  | ok decrypted =>
    rw [hopen] at h
    cases h
    rfl

/-- A request that is not to be served is not acknowledged. -/
theorem received_ne_success {status : Status}
    (h : sv.received C authRequired message = .error status) : status ≠ .success := by
  unfold Server.received at h
  dsimp only at h
  split_ifs at h
  · split at h
    · split_ifs at h
      · exact openFileData_ne_success h
      · cases h
        decide
    · cases h
      decide
  · exact openFileData_ne_success h

/-- What is received of a write is what was sent, unless it is a raw upload with a zero
    byte. -/
theorem sentData_of_received {data : Bytes} (hop : message.op = .write)
    (hzero : authRequired = false → 0 ∉ message.payload.data)
    (h : sv.received C authRequired message = .ok data) :
    sentData C authRequired message.payload.data = some data := by
  rw [Server.received, hop] at h
  cases authRequired with
  | false =>
    rcases splitPayload_write message.payload.data with ⟨-, hsplit⟩ | ⟨hmem, -⟩
    · rw [hsplit] at h
      cases h
      rfl
    · exact absurd hmem (hzero rfl)
  | true =>
    rcases splitNul_cases message.payload.data with hnone | ⟨token, fileData, htoken, hpayload⟩
    · rcases splitPayload_write message.payload.data with ⟨-, hsplit⟩ | ⟨hmem, -⟩
      · rw [hsplit] at h
        cases h
      · exact absurd hmem hnone
    · have hsplit : splitPayload .write message.payload.data = (fromUtf8 token, fileData) := by
        rw [splitPayload, hpayload, if_pos ⟨rfl, by simp⟩, splitNul_append htoken]
      rw [sentData, if_pos rfl, hpayload, splitNul_append htoken]
      rw [hsplit] at h
      dsimp only at h ⊢
      cases hutf8 : fromUtf8 token with
      | none =>
        rw [hutf8] at h
        cases h
      | some token =>
        rw [hutf8, if_pos rfl] at h
        dsimp only at h
        split at h
        · exact toOption_of_openFileData h
        · cases h

/-- A request with the token of a session is served, if there is nothing to open. -/
theorem exists_received {hop : message.op ≠ .auth} (hwrite : message.op ≠ .write)
    (h : (FrontRequest.advanced message hop).Authorized authRequired sv) :
    ∃ data, sv.received C authRequired message = .ok data := by
  have hdata : (splitPayload message.op message.payload.data).2 = [] := by
    rw [splitPayload, if_neg fun h => hwrite h.1]
    split <;> rfl
  rw [Server.received]
  cases authRequired with
  | false =>
    obtain ⟨data, hopen, -⟩ := exists_openFileData C (splitPayload message.op message.payload.data).1
      (splitPayload message.op message.payload.data).2
    exact ⟨data, hopen⟩
  | true =>
    obtain ⟨token, htoken, hvalid⟩ := h rfl
    rw [if_pos rfl, htoken, hdata]
    exact ⟨[], if_pos hvalid⟩

theorem authorized_of_received {message : LiNaProtocol} (hop : message.op ≠ .auth) {data : Bytes}
    (h : sv.received C authRequired message = .ok data) :
    (FrontRequest.advanced message hop).Authorized authRequired sv := by
  intro hrequired
  rw [Server.received, if_pos hrequired] at h
  rcases htoken : (splitPayload message.op message.payload.data).1 with _ | token
  · rw [htoken] at h
    cases h
  · rw [htoken] at h
    dsimp only at h
    split_ifs at h with hvalid
    exact ⟨token, rfl, hvalid⟩

end Payload

/-! ## One request -/

section Requests

variable {C : Cipher} {authRequired : Bool} {E : Engine} {D : Set Bytes} {m : Objects}
  {sv sv' : Server} {d : FrontDraws} {message : LiNaProtocol} {data : Bytes}

/-- A request is replied to, the objects of the server are those of the map after it, and
    a read returns what the map has. -/
def FrontRequest.Handled (C : Cipher) (authRequired : Bool) (E : Engine) (D : Set Bytes)
    (m : Objects) (sv : Server) (d : FrontDraws) (r : FrontRequest) : Prop :=
  ∃ reply sv', (r.program C authRequired d).run (ServerPrim.step E) sv = (.ok reply, sv') ∧
    sv'.Holds E D (m.after C authRequired r reply) ∧
    ∀ a, r.read = some a → r.Authorized authRequired sv → reply.Answers (m a)

theorem after_of_not_acknowledged {r : FrontRequest} {reply : FrontReply}
    (h : reply.acknowledged = false) : m.after C authRequired r reply = m := by
  rw [Objects.after, h]
  rfl

theorem after_of_none {r : FrontRequest} (reply : FrontReply)
    (hwritten : r.written C authRequired = none) (hdeleted : r.deleted = none) :
    m.after C authRequired r reply = m := by
  rw [Objects.after, hwritten, hdeleted]
  exact ite_self m

theorem run_serve_error {status : Status}
    (h : sv.received C authRequired message = .error status) :
    (serve C authRequired d message).run (ServerPrim.step E) sv = (.ok (refuse status), sv) := by
  rw [serve, run_bind, run_receiveData fun _ => rfl, h]
  rfl

theorem run_serve_ok {r : Except Status Bytes} (h : sv.received C authRequired message = .ok data)
    (hresolved : (resolvedIdentifier message.op d message.address.1 message.address.2).run
      (ServerPrim.step E) sv = (.ok r, sv')) :
    (serve C authRequired d message).run (ServerPrim.step E) sv =
      match r with
      | .ok identifier => (placeOrder d message identifier data).run (ServerPrim.step E) sv'
      | .error status => (.ok (refuse status), sv') := by
  rw [LiNaProtocol.address] at hresolved
  rw [serve, run_bind, run_receiveData fun _ => rfl, h]
  dsimp only
  rw [run_bind, hresolved]
  cases r <;> rfl

theorem run_resolvedIdentifier (E : Engine) (sv : Server) (d : FrontDraws) {op : Op}
    (hop : op ≠ .write) (bucket key : String) :
    (resolvedIdentifier op d bucket key).run (ServerPrim.step E) sv =
      (.ok (match sv.mapper.resolve bucket key with
        | some name => .ok (utf8 name)
        | none => .error .fileNotFound), sv) := by
  unfold resolvedIdentifier
  split
  · exact absurd rfl hop
  · rw [run_bind, run_attempt, run_perform, ServerPrim.step, ServerPrim.stepWith]
    dsimp only
    cases sv.mapper.resolve bucket key <;> rfl

theorem run_placeOrder {identifier : Bytes} {pkg : Package}
    (h : ServerPrim.step E (.order d.worker (orderPkg d message identifier data)) sv =
      (.ok pkg, sv')) :
    (placeOrder d message identifier data).run (ServerPrim.step E) sv =
      (.ok ⟨response pkg, true⟩, sv') := by
  rw [placeOrder, run_bind, run_attempt, run_perform, h]
  rfl

/-- A request that is refused changes nothing. -/
theorem handled_refused {hop : message.op ≠ .auth} (h : sv.Holds E D m) {status : Status}
    (hstatus : status ≠ .success)
    (hrun : (serve C authRequired d message).run (ServerPrim.step E) sv = (.ok (refuse status), sv))
    (hread : message.op = .read → (FrontRequest.advanced message hop).Authorized authRequired sv →
      status = .fileNotFound ∧ m message.address = none) :
    (FrontRequest.advanced message hop).Handled C authRequired E D m sv d := by
  refine ⟨.advanced (refuse status), sv, ?_, ?_, fun a ha hauth => ?_⟩
  · rw [FrontRequest.program, run_bind, hrun]
    rfl
  · have hack : (FrontReply.advanced (refuse status)).acknowledged = false :=
      decide_eq_false hstatus
    rw [after_of_not_acknowledged hack]
    exact h
  · rw [FrontRequest.read] at ha
    split_ifs at ha with hop'
    cases ha
    obtain ⟨rfl, hnone⟩ := hread hop' hauth
    rw [hnone]
    rfl

/-- A request whose order was answered with a package. -/
theorem handled_answered {hop : message.op ≠ .auth} {pkg : Package}
    (hrun : (serve C authRequired d message).run (ServerPrim.step E) sv =
      (.ok ⟨response pkg, true⟩, sv'))
    (hholds : sv'.Holds E D (m.after C authRequired (.advanced message hop)
      (.advanced ⟨response pkg, true⟩)))
    (hread : message.op = .read →
      (FrontReply.advanced ⟨response pkg, true⟩).Answers (m message.address)) :
    (FrontRequest.advanced message hop).Handled C authRequired E D m sv d := by
  refine ⟨.advanced ⟨response pkg, true⟩, sv', ?_, hholds, fun a ha _ => ?_⟩
  · rw [FrontRequest.program, run_bind, hrun]
    rfl
  · rw [FrontRequest.read] at ha
    split_ifs at ha with hop'
    cases ha
    exact hread hop'

/-- A write to an object without a name. -/
theorem handled_write {hop : message.op ≠ .auth} (hE : E.Lossless) (hD : Set.InjOn E.hash256 D)
    (h : sv.Holds E D m) (hfresh : d.Fresh sv) (hwrite : message.op = .write)
    (hwithin : ∀ data, sentData C authRequired message.payload.data = some data → data ∈ D)
    (hfits : (FrontRequest.advanced message hop).Fits C authRequired sv)
    (hreceived : sv.received C authRequired message = .ok data) :
    (FrontRequest.advanced message hop).Handled C authRequired E D m sv d := by
  obtain ⟨hnew, hzero⟩ := hfits (authorized_of_received hop hreceived)
  have hsent := sentData_of_received hwrite (hzero message hop rfl hwrite) hreceived
  have hwritten : (FrontRequest.advanced message hop).written C authRequired =
      some (message.address, data) := by
    rw [FrontRequest.written, if_pos hwrite, hsent]
    rfl
  have hfree := hnew message.address data hwritten
  let name := utf8 d.internalName.text
  let sv₁ : Server :=
    { sv with mapper := sv.mapper.register message.address.1 message.address.2 d.internalName.text }
  have hbehavior : (orderPkg d message name data).behavior = .putFile := by
    rw [orderPkg, hwrite]
    rfl
  obtain ⟨store, hstep, hreach, hstore⟩ := step_order_put d.worker (orderPkg d message name data)
    sv₁ hE hD h.reachable hfresh.worker (hwithin data hsent) hbehavior
    (identifier_orderPkg ..)
  have hresolved : (resolvedIdentifier message.op d message.address.1 message.address.2).run
      (ServerPrim.step E) sv = (.ok (.ok name), sv₁) := by
    rw [hwrite]
    rfl
  refine handled_answered ((run_serve_ok hreceived hresolved).trans (run_placeOrder hstep)) ?_
    fun hread => ?_
  · have hafter : m.after C authRequired (.advanced message hop)
        (.advanced ⟨response ((orderPkg d message name data).answer .success []), true⟩) =
        Function.update m message.address (some data) := by
      rw [Objects.after, hwritten]
      rfl
    rw [hafter]
    exact h.write hfresh.internalName hfree hreach hstore
  · rw [hwrite] at hread
    cases hread

/-- A request about an object with a name, other than a write. -/
theorem handled_named {hop : message.op ≠ .auth} (hE : E.Lossless) (hD : Set.InjOn E.hash256 D)
    (h : sv.Holds E D m) (hwrite : message.op ≠ .write) {u : Uuid}
    (hresolve : sv.mapper.resolve message.address.1 message.address.2 = some u.text)
    (hreceived : sv.received C authRequired message = .ok data) :
    (FrontRequest.advanced message hop).Handled C authRequired E D m sv d := by
  let order := orderPkg d message (utf8 u.text) data
  have hresolved := run_resolvedIdentifier E sv d hwrite message.address.1 message.address.2
  rw [hresolve] at hresolved
  have hserve {sv' : Server} {pkg : Package}
      (hstep : ServerPrim.step E (.order d.worker order) sv = (.ok pkg, sv')) :=
    (run_serve_ok hreceived hresolved).trans (run_placeOrder hstep)
  have hwritten : (FrontRequest.advanced message hop).written C authRequired = none :=
    if_neg hwrite
  have hobject := h.objects message.address
  rw [hresolve, Option.bind_some] at hobject
  have hbehavior : order.behavior = message.op.behavior := rfl
  have hid : order.content.identifier = utf8 u.text := identifier_orderPkg ..
  cases hmop : message.op with
  | write => exact absurd hmop hwrite
  | auth => exact absurd hmop hop
  | read =>
    rw [hmop] at hbehavior
    refine handled_answered (hserve (step_order_get d.worker order sv hbehavior hid)) ?_ fun _ => ?_
    · rw [after_of_none _ hwritten (by rw [FrontRequest.deleted, hmop]; rfl)]
      exact h
    · rw [hobject]
      cases sv.store.contents E u.text with
      | none => rfl
      | some data => exact ⟨rfl, rfl⟩
  | delete =>
    rw [hmop] at hbehavior
    obtain ⟨store, hstep, hreach, hstore⟩ :=
      step_order_delete d.worker order sv hE hD h.reachable hbehavior hid
    refine handled_answered (hserve hstep) ?_ fun hread => ?_
    · have hafter : m.after C authRequired (.advanced message hop)
          (.advanced ⟨response (order.answer .success []), true⟩) =
          Function.update m message.address none := by
        rw [Objects.after, hwritten, FrontRequest.deleted, if_pos hmop]
        rfl
      rw [hafter]
      exact h.delete hresolve hreach hstore
    · rw [hmop] at hread
      cases hread
  | none =>
    rw [hmop] at hbehavior
    refine handled_answered (hserve (step_order_none d.worker order sv hbehavior hid)) ?_
      fun hread => ?_
    · rw [after_of_none _ hwritten (by rw [FrontRequest.deleted, hmop]; rfl)]
      exact h
    · rw [hmop] at hread
      cases hread

/-- A request of the advanced protocol. -/
theorem handled_advanced {hop : message.op ≠ .auth} (hE : E.Lossless)
    (hD : Set.InjOn E.hash256 D) (h : sv.Holds E D m) (hfresh : d.Fresh sv)
    (hwithin : message.op = .write →
      ∀ data, sentData C authRequired message.payload.data = some data → data ∈ D)
    (hfits : (FrontRequest.advanced message hop).Fits C authRequired sv) :
    (FrontRequest.advanced message hop).Handled C authRequired E D m sv d := by
  cases hreceived : sv.received C authRequired message with
  | error status =>
    refine handled_refused h (received_ne_success hreceived) (run_serve_error hreceived)
      fun hread hauth => ?_
    obtain ⟨data, hdata⟩ := exists_received (C := C) (by rw [hread]; decide) hauth
    rw [hreceived] at hdata
    cases hdata
  | ok data =>
    by_cases hwrite : message.op = .write
    · exact handled_write hE hD h hfresh hwrite (hwithin hwrite) hfits hreceived
    cases hresolve : sv.mapper.resolve message.address.1 message.address.2 with
    | some name =>
      obtain ⟨u, rfl⟩ := h.named name (BucketMapper.mem_names_of_resolve hresolve)
      exact handled_named hE hD h hwrite hresolve hreceived
    | none =>
      have hresolved := run_resolvedIdentifier E sv d hwrite message.address.1 message.address.2
      rw [hresolve] at hresolved
      refine handled_refused h (by decide) (run_serve_ok hreceived hresolved) fun _ _ => ⟨rfl, ?_⟩
      rw [h.objects, hresolve, Option.bind_none]

/-! ## S3 -/

variable {method : Method} {uri : String} {body : Option Bytes} {bucket key : String}

theorem run_processThroughQueue {behavior : Behavior} {name : String} {pkg : Package}
    (h : ServerPrim.step E (.order d.worker (queuePkg d behavior name data)) sv = (.ok pkg, sv')) :
    (processThroughQueue d behavior name data).run (ServerPrim.step E) sv =
      (.ok (if pkg.status = .success then .ok pkg else .error pkg.status), sv') := by
  rw [processThroughQueue, run_bind, run_attempt, run_perform, h]
  rfl

theorem run_resolveName (E : Engine) (sv : Server) (bucket key : String) :
    (resolveName bucket key).run (ServerPrim.step E) sv =
      (.ok (sv.mapper.resolve bucket key), sv) := rfl

/-- A request over HTTP that was responded to. -/
theorem handled_s3 {response : HttpResponse}
    (hrun : (handleS3 d method uri body).run (ServerPrim.step E) sv = (.ok response, sv'))
    (hholds : sv'.Holds E D (m.after C authRequired (.s3 method uri body) (.s3 response)))
    (hread : ∀ a, (FrontRequest.s3 method uri body).read = some a →
      (FrontReply.s3 response).Answers (m a)) :
    (FrontRequest.s3 method uri body).Handled C authRequired E D m sv d := by
  refine ⟨.s3 response, sv', ?_, hholds, fun a ha _ => hread a ha⟩
  rw [FrontRequest.program, run_bind, hrun]
  rfl

/-- The response to a read. -/
theorem run_getObject_eq (hnamed : ∀ name ∈ sv.mapper.names, ∃ u : Uuid, name = u.text)
    (bucket key : String) :
    (getObject d bucket key).run (ServerPrim.step E) sv =
      (.ok (match (sv.mapper.resolve bucket key).bind (sv.store.contents E) with
        | some data => objectResponse d key data data
        | none => noSuchKey key), sv) := by
  rw [getObject, run_bind, run_resolveName]
  dsimp only
  cases hresolve : sv.mapper.resolve bucket key with
  | none => rfl
  | some name =>
    obtain ⟨u, rfl⟩ := hnamed name (BucketMapper.mem_names_of_resolve hresolve)
    have hstep := step_order_get (E := E) d.worker (queuePkg d .getFile u.text []) sv rfl
      (identifier_queuePkg ..)
    rw [Option.bind_some, run_bind, run_processThroughQueue hstep]
    cases sv.store.contents E u.text <;> rfl

theorem run_getObject (h : sv.Holds E D m) (bucket key : String) :
    ∃ response, (getObject d bucket key).run (ServerPrim.step E) sv = (.ok response, sv) ∧
      (FrontReply.s3 response).Answers (m (bucket, key)) := by
  refine ⟨_, run_getObject_eq h.named bucket key, ?_⟩
  rw [h.objects]
  cases (sv.mapper.resolve bucket key).bind (sv.store.contents E) with
  | none => rfl
  | some data => exact ⟨rfl, rfl⟩

theorem run_headObject (hnamed : ∀ name ∈ sv.mapper.names, ∃ u : Uuid, name = u.text)
    (bucket key : String) :
    ∃ response, (headObject d bucket key).run (ServerPrim.step E) sv = (.ok response, sv) := by
  rw [headObject, run_bind, run_resolveName]
  dsimp only
  cases hresolve : sv.mapper.resolve bucket key with
  | none => exact ⟨_, rfl⟩
  | some name =>
    obtain ⟨u, rfl⟩ := hnamed name (BucketMapper.mem_names_of_resolve hresolve)
    have hstep := step_order_get (E := E) d.worker (queuePkg d .getFile u.text []) sv rfl
      (identifier_queuePkg ..)
    rw [run_bind, run_processThroughQueue hstep]
    cases sv.store.contents E u.text with
    | none => exact ⟨_, rfl⟩
    | some data => exact ⟨_, rfl⟩

theorem run_putObject (hE : E.Lossless) (hD : Set.InjOn E.hash256 D) (h : sv.Holds E D m)
    (hfresh : d.Fresh sv) (hdata : data ∈ D) (bucket key : String)
    (hfree : sv.mapper.resolve bucket key = none) :
    ∃ response sv', (putObject d bucket key (some data)).run (ServerPrim.step E) sv =
        (.ok response, sv') ∧
      (FrontReply.s3 response).acknowledged = true ∧
      sv'.Holds E D (Function.update m (bucket, key) (some data)) := by
  let name := d.internalName.text
  let sv₁ : Server := { sv with mapper := sv.mapper.register bucket key name }
  obtain ⟨store, hstep, hreach, hstore⟩ := step_order_put d.worker
    (queuePkg d .putFile name data) sv₁ hE hD h.reachable hfresh.worker hdata rfl
    (identifier_queuePkg ..)
  refine ⟨⟨200, [etag d], []⟩, { sv₁ with store }, ?_, rfl,
    h.write hfresh.internalName hfree hreach hstore⟩
  have hregister : ((ask (.register bucket key name)).run (ServerPrim.step E) sv).2 = sv₁ := rfl
  rw [putObject, run_ignore_bind, hregister, run_bind, run_processThroughQueue hstep]
  rfl

theorem run_deleteObject (hE : E.Lossless) (hD : Set.InjOn E.hash256 D) (h : sv.Holds E D m)
    (bucket key : String) :
    ∃ sv', (deleteObject d bucket key).run (ServerPrim.step E) sv =
        (.ok (buildEmptyResponse 204), sv') ∧
      sv'.Holds E D (Function.update m (bucket, key) none) := by
  rw [deleteObject, run_bind, run_resolveName]
  dsimp only
  cases hresolve : sv.mapper.resolve bucket key with
  | none =>
    refine ⟨sv, rfl, ?_⟩
    have hnone : m (bucket, key) = none := by rw [h.objects, hresolve, Option.bind_none]
    rw [← hnone, Function.update_eq_self]
    exact h
  | some name =>
    obtain ⟨u, rfl⟩ := h.named name (BucketMapper.mem_names_of_resolve hresolve)
    let sv₁ : Server := { sv with mapper := sv.mapper.delete bucket key }
    obtain ⟨store, hstep, hreach, hstore⟩ := step_order_delete d.worker
      (queuePkg d .deleteFile u.text []) sv₁ hE hD h.reachable rfl (identifier_queuePkg ..)
    refine ⟨{ sv₁ with store }, ?_, ?_⟩
    · have hdelete : ((ask (.deleteMapping bucket key)).run (ServerPrim.step E) sv).2 = sv₁ := rfl
      dsimp only
      rw [run_ignore_bind, hdelete, run_bind, run_processThroughQueue hstep]
      rfl
    · exact (h.delete (a := (bucket, key)) hresolve hreach hstore).forget
        (a := (bucket, key)) (Function.update_self ..)

/-- A request over HTTP that is not about an object, or asks only for its headers. -/
theorem handled_quiet {response : HttpResponse} (h : sv.Holds E D m)
    (hrun : (handleS3 d method uri body).run (ServerPrim.step E) sv = (.ok response, sv))
    (hwritten : (FrontRequest.s3 method uri body).written C authRequired = none)
    (hdeleted : (FrontRequest.s3 method uri body).deleted = none)
    (hread : (FrontRequest.s3 method uri body).read = none) :
    (FrontRequest.s3 method uri body).Handled C authRequired E D m sv d := by
  refine handled_s3 hrun ?_ fun a ha => ?_
  · rw [after_of_none _ hwritten hdeleted]
    exact h
  · rw [hread] at ha
    cases ha

/-- A request over HTTP whose path is not one of an object changes nothing. -/
theorem run_handleS3_elsewhere (E : Engine) (sv : Server) (d : FrontDraws) (method : Method)
    (body : Option Bytes) (haddress : s3Address uri = none) :
    ∃ response, (handleS3 d method uri body).run (ServerPrim.step E) sv = (.ok response, sv) := by
  delta s3Address at haddress
  rw [handleS3]
  dsimp only
  generalize parseS3Path (splitUri uri).1 = parsed at haddress
  rcases parsed with ⟨_ | bucket, _ | key⟩
  · cases method <;> exact ⟨_, rfl⟩
  · cases method <;> exact ⟨_, rfl⟩
  · cases method <;> exact ⟨_, rfl⟩
  · cases haddress

theorem written_elsewhere (haddress : s3Address uri = none) :
    (FrontRequest.s3 method uri body).written C authRequired = none := by
  unfold FrontRequest.written
  split <;> simp_all

/-- A request over HTTP whose path is not one of an object. -/
theorem handled_elsewhere (h : sv.Holds E D m) (haddress : s3Address uri = none) :
    (FrontRequest.s3 method uri body).Handled C authRequired E D m sv d := by
  have hdeleted : (FrontRequest.s3 method uri body).deleted = none := by
    unfold FrontRequest.deleted
    split <;> simp_all
  have hread : (FrontRequest.s3 method uri body).read = none := by
    unfold FrontRequest.read
    split <;> simp_all
  obtain ⟨response, hrun⟩ := run_handleS3_elsewhere E sv d method body haddress
  exact handled_quiet h hrun (written_elsewhere haddress) hdeleted hread

theorem handleS3_object (d : FrontDraws) (method : Method) (body : Option Bytes)
    (h : s3Address uri = some (bucket, key)) :
    handleS3 d method uri body = match method with
      | .get => getObject d bucket key
      | .head => headObject d bucket key
      | .put => putObject d bucket key body
      | .delete => deleteObject d bucket key
      | .other => pure (buildResponse 405 (s3ErrorXml "MethodNotAllowed"
          "The specified method is not allowed against this resource." (splitUri uri).1)
          "application/xml") := by
  have hparse : parseS3Path (splitUri uri).1 = (some bucket, some key) := by
    delta s3Address at h
    split at h
    · next heq =>
      cases h
      exact heq
    · cases h
  cases method <;> simp only [handleS3, hparse]

/-- A request over HTTP. -/
theorem handled_handleS3 (hE : E.Lossless) (hD : Set.InjOn E.hash256 D) (h : sv.Holds E D m)
    (hfresh : d.Fresh sv)
    (hwithin : ∀ a data, (FrontRequest.s3 method uri body).written C authRequired = some (a, data) →
      data ∈ D)
    (hfits : (FrontRequest.s3 method uri body).Fits C authRequired sv) :
    (FrontRequest.s3 method uri body).Handled C authRequired E D m sv d := by
  rcases haddress : s3Address uri with _ | ⟨bucket, key⟩
  · exact handled_elsewhere h haddress
  have hprogram := handleS3_object d method body haddress
  cases method with
  | get =>
    obtain ⟨response, hrun, hanswer⟩ := run_getObject (d := d) h bucket key
    refine handled_s3 (by rw [hprogram]; exact hrun) ?_ fun a ha => ?_
    · rw [after_of_none _ rfl rfl]
      exact h
    · rw [FrontRequest.read, haddress] at ha
      cases ha
      exact hanswer
  | head =>
    obtain ⟨response, hrun⟩ := run_headObject (d := d) h.named bucket key
    exact handled_quiet h (by rw [hprogram]; exact hrun) rfl rfl rfl
  | put =>
    cases body with
    | none => exact handled_quiet h (by rw [hprogram]; rfl) rfl rfl rfl
    | some data =>
      have hwritten : (FrontRequest.s3 .put uri (some data)).written C authRequired =
          some ((bucket, key), data) := by
        rw [FrontRequest.written, haddress]
        rfl
      obtain ⟨response, sv', hrun, hack, hholds⟩ := run_putObject hE hD h hfresh
        (hwithin _ _ hwritten) bucket key ((hfits trivial).1 _ _ hwritten)
      refine handled_s3 (by rw [hprogram]; exact hrun) ?_ nofun
      rw [Objects.after, if_pos hack, hwritten]
      exact hholds
  | delete =>
    obtain ⟨sv', hrun, hholds⟩ := run_deleteObject (d := d) hE hD h bucket key
    refine handled_s3 (by rw [hprogram]; exact hrun) ?_ nofun
    have hdeleted : (FrontRequest.s3 .delete uri body).deleted = some (bucket, key) := haddress
    have hack : (FrontReply.s3 (buildEmptyResponse 204)).acknowledged = true := rfl
    rw [Objects.after, if_pos hack, hdeleted]
    exact hholds
  | other => exact handled_quiet h (by rw [hprogram]; rfl) rfl rfl rfl

/-- Every request that fits is handled as the map says. -/
theorem FrontRequest.handled (hE : E.Lossless) (hD : Set.InjOn E.hash256 D) (h : sv.Holds E D m)
    (hfresh : d.Fresh sv) (r : FrontRequest)
    (hwithin : ∀ a data, r.written C authRequired = some (a, data) → data ∈ D)
    (hfits : r.Fits C authRequired sv) : r.Handled C authRequired E D m sv d := by
  cases r with
  | advanced message hop =>
    refine handled_advanced hE hD h hfresh (fun hwrite data hdata => ?_) hfits
    refine hwithin message.address data ?_
    rw [FrontRequest.written, if_pos hwrite, hdata]
    rfl
  | s3 method uri body => exact handled_handleS3 hE hD h hfresh hwithin hfits

end Requests

/-! ## Runs -/

variable {C : Cipher} {authRequired : Bool} {E : Engine} {D : Set Bytes} {sv : Server} {m : Objects}

/-- In a run of requests that fit the objects of the server are those of the map. -/
theorem ServerRun.holds (hE : E.Lossless) (hD : Set.InjOn E.hash256 D)
    (h : ServerRun C E D authRequired (fun sv r => r.Fits C authRequired sv) sv m) :
    sv.Holds E D m := by
  induction h with
  | start sessions => exact ⟨.empty, fun _ h => absurd h List.not_mem_nil, fun _ => rfl⟩
  | sessions sessions _ ih => exact ⟨ih.reachable, ih.named, ih.objects⟩
  | request r d reply _ hfresh hwithin hfits hrun ih =>
    obtain ⟨reply', sv', hrun', hholds, -⟩ := r.handled hE hD ih hfresh hwithin hfits
    rw [hrun] at hrun'
    cases hrun'
    exact hholds

/-- A read writes nothing. -/
theorem FrontRequest.fits_of_read {r : FrontRequest} {a : String × String} (h : r.read = some a) :
    r.written C authRequired = none ∧ r.Fits C authRequired sv := by
  have hop (message : LiNaProtocol) (hop : message.op ≠ .auth) (heq : r = .advanced message hop) :
      message.op ≠ .write := fun hwrite => by
    rw [heq, FrontRequest.read, hwrite] at h
    cases h
  have hwritten : r.written C authRequired = none := by
    cases r with
    | advanced message hop' => exact if_neg (hop message hop' rfl)
    | s3 method uri body =>
      cases method with
      | get => rfl
      | _ => cases h
  refine ⟨hwritten, fun _ => ⟨fun a data h => ?_, fun message hop' heq hwrite => ?_⟩⟩
  · rw [hwritten] at h
    cases h
  · exact absurd hwrite (hop message hop' heq)

/-- In a run in which every authorized write is to an object without a name in the mapper, and no
    raw upload has a zero byte, every read returns the data of the last acknowledged write of the
    object that was not deleted since, or that there is none. -/
theorem read_your_writes (hE : E.Lossless) (hD : Set.InjOn E.hash256 D)
    (h : ServerRun C E D authRequired (fun sv r => r.Fits C authRequired sv) sv m)
    (r : FrontRequest) (d : FrontDraws) (hfresh : d.Fresh sv) (a : String × String)
    (hread : r.read = some a) (hauth : r.Authorized authRequired sv) :
    ∃ reply sv', (r.program C authRequired d).run (ServerPrim.step E) sv = (.ok reply, sv') ∧
      reply.Answers (m a) := by
  obtain ⟨hwritten, hfits⟩ : r.written C authRequired = none ∧ r.Fits C authRequired sv :=
    FrontRequest.fits_of_read hread
  obtain ⟨reply, sv', hrun, -, hanswer⟩ := r.handled hE hD (h.holds hE hD) hfresh
    (fun _ _ hw => by rw [hwritten] at hw; cases hw) hfits
  exact ⟨reply, sv', hrun, hanswer a hread hauth⟩

/-- A read of the object `a` by a client without a token. -/
def rawDownload : LiNaProtocol :=
  LiNaProtocol.withChecksum ⟨FlagType.read.bits, .none, ⟨1, [0x61], 0, 0, []⟩⟩

/-- A read of the object `a` with the token `t`. -/
def tokenDownload : LiNaProtocol :=
  LiNaProtocol.withChecksum ⟨FlagType.read.bits, .none, ⟨1, [0x61], 1, 0, [0x74]⟩⟩

/-- A write over HTTP, after which one in the advanced protocol is refused, as it has no token, is
    read in the advanced protocol. -/
theorem read_your_writes_across :
    ∃ sv m, ServerRun .rejecting .plain {[1], [2]} true (fun sv r => r.Fits .rejecting true sv) sv m ∧
      m ("default", "a") = some [1] ∧
      ∃ reply sv', ((FrontRequest.advanced tokenDownload (by decide)).program .rejecting true
          (.sample 1)).run (ServerPrim.step .plain) sv = (.ok reply, sv') ∧
        reply.Answers (m ("default", "a")) := by
  have hput : ServerRun .rejecting .plain {[1], [2]} true (fun sv r => r.Fits .rejecting true sv)
      _ _ :=
    .request (.s3 .put "/default/a" (some [1])) (.sample 0) _ (.start fun _ _ => some "user")
      ⟨by decide, rfl, rfl⟩ (fun _ _ h => by cases h; exact .inl rfl)
      (fun _ => ⟨fun _ _ h => by cases h; rfl, nofun⟩) rfl
  have hsent :
      FrontRequest.written .rejecting true (.advanced (rawUpload [2]) (by decide)) = none := by
    decide
  have hnot (sv : Server) :
      ¬(FrontRequest.advanced (rawUpload [2]) (by decide)).Authorized true sv := fun hauth => by
    obtain ⟨token, htoken, -⟩ := hauth rfl
    cases htoken
  have hrefused := hput.request (.advanced (rawUpload [2]) (by decide)) (.sample 1) _
    ⟨by decide, rfl, rfl⟩ (fun a data h => by rw [hsent] at h; cases h)
    (fun hauth => absurd hauth (hnot _)) rfl
  exact ⟨_, _, hrefused, rfl, read_your_writes Engine.lossless_plain injOn_hash256_plain hrefused
    (.advanced tokenDownload (by decide)) (.sample 1) ⟨by decide, rfl, rfl⟩ ("default", "a")
    (by decide) fun _ => ⟨"t", by decide, rfl⟩⟩

/-- A second write is acknowledged, and the first one is still read. -/
theorem second_write_lost :
    ∃ sv m, ServerRun .rejecting .plain {[1], [2]} false (fun _ _ => True) sv m ∧
      m ("default", "a") = some [2] ∧
      ∃ reply sv', ((FrontRequest.advanced rawDownload (by decide)).program .rejecting false
          (.sample 2)).run (ServerPrim.step .plain) sv = (.ok reply, sv') ∧
        reply.Answers (some [1]) ∧ ¬ reply.Answers (m ("default", "a")) := by
  have h : ServerRun .rejecting .plain {[1], [2]} false (fun _ _ => True) _ _ :=
    .request (.advanced (rawUpload [2]) (by decide)) (.sample 1) _
      (.request (.advanced (rawUpload [1]) (by decide)) (.sample 0) _ (.start fun _ _ => none)
        ⟨by decide, rfl, rfl⟩ (fun _ _ h => by cases h; exact .inl rfl) trivial rfl)
      ⟨by decide, rfl, rfl⟩ (fun _ _ h => by cases h; exact .inr rfl) trivial rfl
  refine ⟨_, _, h, rfl, _, _, rfl, ⟨rfl, rfl⟩, ?_⟩
  rintro ⟨-, hdata⟩
  exact absurd hdata (by decide)

end LiNaStore
