import LiNaStore.Library.Discipline
import LiNaStore.Server.Auth
import LiNaStore.Server.Waitress

/-!
# A connection of the advanced front end

A connection is served by a loop: read a message, handle it, write the response, and go on with
the next message unless the connection is to be closed (`waitress`). A message is a handshake
(`authenticate`) or a request for a file (`serve`). The loop is a program over what it can do to
the rest of the server (`FrontPrim`), and nothing is assumed here about the answers it gets: the
messages may be any, and so may the sessions, the mappings, the store and the limit of handshakes.

With a password set, an order is given and a name registered only for a message that carries a
token of its own, for which the manager of sessions has named a user since the message was read;
what a write stores is the data of the message, opened with that token
(`served_only_with_token`).
-/

namespace LiNaStore

open Program

/-- The address of a peer. -/
inductive IpAddr
  | v4 (bits : UInt32)
  | v6 (bits : BitVec 128)
  deriving DecidableEq, Repr

/-- What a connection can do. -/
inductive FrontPrim
  /-- Read the next message; there is none if the client is gone, or what it sent cannot be
      read. -/
  | receive
  | send (message : LiNaProtocol)
  /-- Ask whether an address may try a handshake. -/
  | checkRate (ip : IpAddr)
  | recordFailure (ip : IpAddr)
  | recordSuccess (ip : IpAddr)
  | handleHandshake (username password : String)
  | server (p : ServerPrim)

/-- What a primitive answers. -/
abbrev FrontPrim.Res : FrontPrim → Type
  | receive => Option LiNaProtocol
  | send _ => Unit
  | checkRate _ => Bool
  | recordFailure _ => Unit
  | recordSuccess _ => Unit
  | handleHandshake .. => Except HandshakeStatus (String × ℤ)
  | server p => p.Res

/-- Programs of a connection. -/
abbrev FrontProg := Program ServerError FrontPrim.Res

/-- The program of one primitive. -/
abbrev front (p : FrontPrim) : FrontProg p.Res := perform p

/-! ## Handshakes -/

def extractUsername (identifier : Bytes) : String := fromUtf8Lossy (splitNul identifier).1

def extractPassword (data : Bytes) : String := fromUtf8Lossy (splitNul data).1

/-- The response to a handshake that succeeded. -/
def handshakeResponse (token : String) (expiresAt : ℤ) : LiNaProtocol :=
  let data := HandshakeStatus.success.code :: utf8 token ++ 0 :: utf8 (toString expiresAt)
  LiNaProtocol.withChecksum { LiNaProtocol.new with
    status := .success
    payload := { LiNaProtocol.new.payload with data, dlen := .ofNat data.length } }

/-- The status of the response to a handshake that failed. -/
def HandshakeStatus.respStatus : HandshakeStatus → Status
  | invalidPassword => .unauthorized
  | authDisabled => .badRequest
  | internalError => .internalError
  | success => .internalError

/-- A failed handshake closes the connection. -/
def refuseHandshake (status : Status) (code : HandshakeStatus) : Reply :=
  ⟨errorResponse status (some code.code), false⟩

/-- Handle a handshake of a peer. Wrong passwords count against its address, and so do missing
    names, for which no password is verified. -/
def authenticate (peerIp : IpAddr) (message : LiNaProtocol) : FrontProg Reply := do
  match ← front (.checkRate peerIp) with
  | false => return refuseHandshake .unauthorized .invalidPassword
  | true =>
    let username := extractUsername message.payload.identifier
    let password := extractPassword message.payload.data
    if username = "" then
      front (.recordFailure peerIp)
      return refuseHandshake .badRequest .internalError
    else
      match ← front (.handleHandshake username password) with
      | .ok (token, expiresAt) =>
        front (.recordSuccess peerIp)
        return ⟨handshakeResponse token expiresAt, true⟩
      | .error .invalidPassword =>
        front (.recordFailure peerIp)
        return refuseHandshake HandshakeStatus.invalidPassword.respStatus .invalidPassword
      | .error status => return refuseHandshake status.respStatus status

/-! ## The loop -/

/-- Handle a message. -/
def handleMessage (C : Cipher) (authRequired : Bool) (peerIp : IpAddr) (d : FrontDraws)
    (message : LiNaProtocol) : FrontProg Reply :=
  if message.op = .auth then authenticate peerIp message
  else (serve C authRequired d message).embed .server

/-- Serve a connection, for as many messages as there are draws. -/
def waitress (C : Cipher) (authRequired : Bool) (peerIp : IpAddr) : List FrontDraws → FrontProg Unit
  | [] => pure ()
  | d :: ds => do
    match ← front .receive with
    | none => return ()
    | some message =>
      let reply ← handleMessage C authRequired peerIp d message
      (front (.send reply.message)).ignore
      if reply.goesOn then waitress C authRequired peerIp ds else return ()

/-! ## The gate -/

/-- The token is in the payload of the message. -/
def LiNaProtocol.Carries (message : LiNaProtocol) (token : String) : Prop :=
  fromUtf8 (splitNul message.payload.data).1 = some token

/-- The data is what stands behind the token in the payload of the message, opened with the token,
    or nothing if nothing stands there. -/
def LiNaProtocol.Opens (C : Cipher) (message : LiNaProtocol) (token : String) (data : Bytes) : Prop :=
  ∃ sealedData, (splitNul message.payload.data).2 = some sealedData ∧
    (sealedData = [] ∧ data = [] ∨ decryptWithToken C token sealedData = .ok data)

/-- The message that is handled, and the token that was last found valid for it, with the grace
    period. -/
structure GateState where
  message : Option LiNaProtocol
  validated : Option (String × ℤ)

/-- The message was found to carry a valid token. -/
structure GateState.Open (q : GateState) (message : LiNaProtocol) (token : String) : Prop where
  message_eq : q.message = some message
  validated_eq : q.validated = some (token, 60)
  carries : message.Carries token

/-- What may be called with a password set. -/
def gate (C : Cipher) : Discipline ServerError FrontPrim.Res GateState where
  allowed
    | q, .server (.order _ pkg) => ∃ message token, q.Open message token ∧
      (message.op = .write → message.Opens C token pkg.content.data)
    | q, .server (.register ..) => ∃ message token, q.Open message token
    | _, _ => True
  next
    | _, .receive, .ok message => ⟨message, none⟩
    | _, .receive, .error _ => ⟨none, none⟩
    | q, .server (.validateSession token grace), .ok (some _) =>
      { q with validated := some (token, grace) }
    | q, _, _ => q

/-- What may be asked of the server. -/
def serverGate (C : Cipher) : Discipline ServerError ServerPrim.Res GateState :=
  ⟨fun q p => (gate C).allowed q (.server p), fun q p => (gate C).next q (.server p)⟩

section

variable {C : Cipher} {message : LiNaProtocol} {token : String} {d : FrontDraws} {q : GateState}

theorem carries_of_splitPayload {op : Op} (h : (splitPayload op message.payload.data).1 = some token) :
    message.Carries token := by
  rw [LiNaProtocol.Carries]
  rw [splitPayload] at h
  split_ifs at h
  · rcases hsplit : splitNul message.payload.data with ⟨front, rest | fileData⟩
    · rw [hsplit] at h
      cases h
    · rw [hsplit] at h
      exact h
  · exact h

/-- With a token in it, a write has a zero byte, and what follows is the data. -/
theorem sealed_of_splitPayload (h : (splitPayload .write message.payload.data).1 = some token) :
    (splitNul message.payload.data).2 = some (splitPayload .write message.payload.data).2 := by
  rw [splitPayload] at h ⊢
  split_ifs at h ⊢ with hwrite hnil
  · rcases hsplit : splitNul message.payload.data with ⟨front, rest | fileData⟩
    · rw [hsplit] at h
      cases h
    · rfl
  · exact absurd ⟨rfl, hnil⟩ hwrite

theorem opens_of_openFileData {data : Bytes}
    (hsplit : (splitPayload .write message.payload.data).1 = some token)
    (hopen : openFileData C true (some token) (splitPayload .write message.payload.data).2 = .ok data) :
    message.Opens C token data := by
  refine ⟨_, sealed_of_splitPayload hsplit, ?_⟩
  by_cases hnil : (splitPayload .write message.payload.data).2 = []
  · rw [openFileData, if_neg (not_not_intro hnil)] at hopen
    exact .inl ⟨hnil, (Except.ok.inj hopen).symm.trans hnil⟩
  · rw [openFileData, if_pos hnil] at hopen
    cases hdecrypt : decryptWithToken C token (splitPayload .write message.payload.data).2 with
    | error e =>
      rw [hdecrypt] at hopen
      cases hopen
    | ok decrypted =>
      rw [hdecrypt] at hopen
      cases hopen
      exact .inr rfl

/-- The token a request is served with is its own, and has been found valid. -/
theorem keeps_validateToken (hq : q.message = some message) :
    (validateToken true (splitPayload message.op message.payload.data).1).Keeps (serverGate C)
      (fun r q => ∀ validToken, r = .ok (.ok validToken) → ∃ token, validToken = some token ∧
        (splitPayload message.op message.payload.data).1 = some token ∧ q.Open message token) q := by
  unfold validateToken
  rw [if_pos rfl]
  cases hsplit : (splitPayload message.op message.payload.data).1 with
  | none => exact .pure nofun
  | some token =>
    refine .bind (.attempt (.perform trivial fun a => ?_))
    rcases a with e | (_ | user)
    · exact .pure nofun
    · exact .pure nofun
    · refine .pure fun validToken h => ?_
      cases h
      exact ⟨token, rfl, rfl, hq, rfl, carries_of_splitPayload hsplit⟩

theorem keeps_receiveData (hq : q.message = some message) :
    (receiveData C true message).Keeps (serverGate C)
      (fun r q => ∀ fileData, r = .ok (.ok fileData) → ∃ token, q.Open message token ∧
        (message.op = .write → message.Opens C token fileData)) q := by
  refine .bind ((keeps_validateToken hq).mono fun r q' hr => ?_)
  rcases r with e | (status | validToken)
  · exact nofun
  · exact .pure nofun
  · obtain ⟨token, rfl, hsplit, hopen⟩ := hr validToken rfl
    refine .pure fun fileData hdata => ⟨token, hopen, fun hwrite => ?_⟩
    rw [hwrite] at hsplit hdata
    exact opens_of_openFileData hsplit (Except.ok.inj hdata)

/-- Once the token has been found valid, the name may be registered. -/
theorem keeps_resolvedIdentifier (hq : q.Open message token) (bucket key : String) :
    (resolvedIdentifier message.op d bucket key).Keeps (serverGate C) (fun _ q' => q' = q) q := by
  unfold resolvedIdentifier
  split
  · exact .bind (.ignore (.perform ⟨message, token, hq⟩ fun _ => .pure rfl))
  · refine .bind (.attempt (.perform trivial fun a => ?_))
    dsimp only
    split <;> exact .pure rfl

theorem keeps_serve (hq : q.message = some message) :
    (serve C true d message).Keeps (serverGate C) (fun _ _ => True) q := by
  refine .bind ((keeps_receiveData hq).mono fun r q' hr => ?_)
  rcases r with e | (status | fileData)
  · trivial
  · exact .pure trivial
  · obtain ⟨token, hopen, hdata⟩ := hr fileData rfl
    refine .bind ((keeps_resolvedIdentifier hopen _ _).mono fun r q'' hr => ?_)
    subst hr
    rcases r with e | (status | identifier)
    · trivial
    · exact .pure trivial
    · refine .bind (.attempt (.perform ⟨message, token, hopen, hdata⟩ fun a => ?_))
      dsimp only
      split <;> exact .pure trivial

/-- A handshake asks nothing of the part of the server behind the gate. -/
theorem calls_authenticate (peerIp : IpAddr) (message : LiNaProtocol) :
    (authenticate peerIp message).Calls fun p => ∀ q, p ≠ .server q := by
  refine .bind (.perform fun _ => FrontPrim.noConfusion) fun a => ?_
  cases a with
  | false => trivial
  | true =>
    dsimp only
    split
    · exact .bind (.perform fun _ => FrontPrim.noConfusion) fun _ => trivial
    · refine .bind (.perform fun _ => FrontPrim.noConfusion) fun a => ?_
      rcases a with status | ⟨token, expiresAt⟩
      · cases status with
        | invalidPassword => exact .bind (.perform fun _ => FrontPrim.noConfusion) fun _ => trivial
        | success | authDisabled | internalError => trivial
      · exact .bind (.perform fun _ => FrontPrim.noConfusion) fun _ => trivial

theorem gate_allowed_of_ne_server {p : FrontPrim} (h : ∀ q, p ≠ .server q) (q : GateState) :
    (gate C).allowed q p := by
  cases p with
  | server p => exact absurd rfl (h p)
  | receive | send | checkRate | recordFailure | recordSuccess | handleHandshake => trivial

/-- A connection keeps to the gate, message after message. -/
theorem keeps_waitress (C : Cipher) (peerIp : IpAddr) (ds : List FrontDraws) (q : GateState) :
    (waitress C true peerIp ds).Keeps (gate C) (fun _ _ => True) q := by
  induction ds generalizing q with
  | nil => exact .pure trivial
  | cons d ds ih =>
    refine .bind (.perform trivial fun a => ?_)
    rcases a with e | (_ | message)
    · trivial
    · exact .pure trivial
    · have hhandle : (handleMessage C true peerIp d message).Keeps (gate C) (fun _ _ => True)
          ⟨some message, none⟩ := by
        rw [handleMessage]
        split
        · exact .of_calls (fun _ => gate_allowed_of_ne_server) (calls_authenticate peerIp message)
        · exact .embed (keeps_serve rfl)
      refine .bind (hhandle.mono fun r q' _ => ?_)
      rcases r with e | reply
      · trivial
      · refine .bind (.ignore (.perform trivial fun _ => ?_))
        dsimp only
        split
        · exact ih _
        · exact .pure trivial

end

/-! ## What passes the gate -/

/-- The primitives that serve a message. -/
def ServerPrim.Serves : ServerPrim → Prop
  | order .. | register .. => True
  | _ => False

/-- What a call changes of the state of the gate. -/
theorem gate_next_cases (C : Cipher) (q : GateState) (e : (p : FrontPrim) × Except ServerError p.Res) :
    (∃ a, e = ⟨.receive, a⟩ ∧ (gate C).next q e.1 e.2 = ⟨a.toOption.join, none⟩) ∨
    e.1 ≠ .receive ∧
      ((∃ token grace user, e = ⟨.server (.validateSession token grace), .ok (some user)⟩ ∧
        (gate C).next q e.1 e.2 = { q with validated := some (token, grace) }) ∨
      (gate C).next q e.1 e.2 = q) := by
  obtain ⟨p, a⟩ := e
  cases p with
  | receive =>
    cases a with
    | error e => exact .inl ⟨_, rfl, rfl⟩
    | ok message => exact .inl ⟨_, rfl, rfl⟩
  | server p =>
    cases p with
    | validateSession token grace =>
      rcases a with e | (_ | user)
      · exact .inr ⟨nofun, .inr rfl⟩
      · exact .inr ⟨nofun, .inr rfl⟩
      · exact .inr ⟨nofun, .inl ⟨token, grace, user, rfl, rfl⟩⟩
    | resolve | register | deleteMapping | listBuckets | listBucket | order =>
      exact .inr ⟨nofun, .inr rfl⟩
  | send | checkRate | recordFailure | recordSuccess | handleHandshake =>
    exact .inr ⟨nofun, .inr rfl⟩

/-- The state of the gate is what the trace says: the message is the last one that was received,
    and the token was found valid since. -/
theorem gate_after (C : Cipher) (t : List ((p : FrontPrim) × Except ServerError p.Res))
    {message : LiNaProtocol} (hmessage : ((gate C).after ⟨none, none⟩ t).message = some message) :
    ∃ earlier mid, t = earlier ++ ⟨.receive, .ok (some message)⟩ :: mid ∧
      (∀ e ∈ mid, e.1 ≠ FrontPrim.receive) ∧
      ∀ token grace, ((gate C).after ⟨none, none⟩ t).validated = some (token, grace) →
        ∃ user, ⟨.server (.validateSession token grace), .ok (some user)⟩ ∈ mid := by
  induction t using List.reverseRecOn with
  | nil => cases hmessage
  | append_singleton t e ih =>
    rw [Discipline.after_append] at hmessage ⊢
    change ((gate C).next ((gate C).after ⟨none, none⟩ t) e.1 e.2).message = _ at hmessage
    change ∃ earlier mid, _ ∧ _ ∧ ∀ token grace,
      ((gate C).next ((gate C).after ⟨none, none⟩ t) e.1 e.2).validated = _ → _
    rcases gate_next_cases C ((gate C).after ⟨none, none⟩ t) e with
      ⟨a, rfl, hnext⟩ | ⟨hne, ⟨token, grace, user, rfl, hnext⟩ | hnext⟩
    · rw [hnext] at hmessage ⊢
      rcases a with e | (_ | message')
      · cases hmessage
      · cases hmessage
      · cases hmessage
        exact ⟨t, [], rfl, fun _ he => absurd he List.not_mem_nil,
          fun _ _ h => (Option.some_ne_none _ h.symm).elim⟩
    · rw [hnext] at hmessage ⊢
      obtain ⟨earlier, mid, rfl, hmid, hvalid⟩ := ih hmessage
      refine ⟨earlier, mid ++ [_], List.append_assoc .., ?_, fun token' grace' h => ?_⟩
      · exact List.forall_mem_append.mpr ⟨hmid, List.forall_mem_singleton.mpr hne⟩
      · cases h
        exact ⟨user, List.mem_append_right _ (List.mem_singleton_self _)⟩
    · rw [hnext] at hmessage ⊢
      obtain ⟨earlier, mid, rfl, hmid, hvalid⟩ := ih hmessage
      refine ⟨earlier, mid ++ [e], List.append_assoc .., ?_, fun token grace h => ?_⟩
      · exact List.forall_mem_append.mpr ⟨hmid, List.forall_mem_singleton.mpr hne⟩
      · obtain ⟨user, huser⟩ := hvalid token grace h
        exact ⟨user, List.mem_append_left _ huser⟩

theorem gate_allowed_serves {C : Cipher} {q : GateState} {p : ServerPrim} (hp : p.Serves)
    (h : (gate C).allowed q (.server p)) :
    ∃ message token, q.Open message token ∧ ∀ d pkg, p = .order d pkg → message.op = .write →
      message.Opens C token pkg.content.data := by
  cases p with
  | order d pkg =>
    obtain ⟨message, token, hopen, hdata⟩ := h
    exact ⟨message, token, hopen, fun d' pkg' heq => by cases heq; exact hdata⟩
  | register bucket key internalName =>
    obtain ⟨message, token, hopen⟩ := h
    exact ⟨message, token, hopen, nofun⟩
  | validateSession | resolve | deleteMapping | listBuckets | listBucket => exact hp.elim

/-- With a password set, and whatever a peer sends and the rest of the server answers: if a
    connection gives an order or registers a name, then the message it has read last carries a
    token for which a user was named since; and the data of an order to write is what stands
    behind the token in that message, opened with the token, or nothing. -/
theorem served_only_with_token (C : Cipher) (peerIp : IpAddr) (ds : List FrontDraws)
    {rest : FrontProg Unit} {before after : List ((p : FrontPrim) × Except ServerError p.Res)}
    {p : ServerPrim} {a : Except ServerError p.Res} (hp : p.Serves)
    (htrace : (waitress C true peerIp ds).Trace (before ++ ⟨.server p, a⟩ :: after) rest) :
    ∃ earlier message mid token user, before = earlier ++ ⟨.receive, .ok (some message)⟩ :: mid ∧
      (∀ e ∈ mid, e.1 ≠ .receive) ∧ message.Carries token ∧
      ⟨.server (.validateSession token 60), .ok (some user)⟩ ∈ mid ∧
      ∀ d pkg, p = .order d pkg → message.op = .write →
        message.Opens C token pkg.content.data := by
  have hallowed := (keeps_waitress C peerIp ds ⟨none, none⟩).allowed_of_trace htrace
  obtain ⟨message, token, hopen, hdata⟩ := gate_allowed_serves hp hallowed
  obtain ⟨earlier, mid, hbefore, hmid, hvalid⟩ := gate_after C before hopen.message_eq
  obtain ⟨user, huser⟩ := hvalid token 60 hopen.validated_eq
  exact ⟨earlier, message, mid, token, user, hbefore, hmid, hopen.carries, huser, hdata⟩

/-- A write of one byte with the token `t`, sealed with a nonce and a tag of zeros. -/
def sealedUpload : LiNaProtocol :=
  LiNaProtocol.withChecksum ⟨FlagType.write.bits, .none,
    ⟨1, [0x61], 31, 0, 0x74 :: 0 :: (List.replicate 28 0 ++ [1])⟩⟩

/-- The write is received, its token found valid, its data opened, its name registered and the order
    given. -/
theorem served_only_with_token_sealed :
    ∃ before d pkg rest, (waitress .tagging true (.v4 0) [.sample 0]).Trace
        (before ++ ⟨.server (.order d pkg), .error .timeout⟩ :: []) rest ∧ pkg.content.data = [1] ∧
      ∃ earlier message mid token user, before = earlier ++ ⟨.receive, .ok (some message)⟩ :: mid ∧
        (∀ e ∈ mid, e.1 ≠ .receive) ∧ message.Carries token ∧
        ⟨.server (.validateSession token 60), .ok (some user)⟩ ∈ mid ∧
        ∀ d' pkg', ServerPrim.order d pkg = .order d' pkg' → message.op = .write →
          message.Opens .tagging token pkg'.content.data := by
  let before : List ((p : FrontPrim) × Except ServerError p.Res) :=
    [⟨.receive, .ok (some sealedUpload)⟩, ⟨.server (.validateSession "t" 60), .ok (some "user")⟩,
      ⟨.server (.register "default" "a" (Uuid.const 3).text), .ok ()⟩]
  have htrace : (waitress .tagging true (.v4 0) [.sample 0]).Trace
      (before ++ ⟨.server (.order (.sample 0)
        (orderPkg (.sample 0) sealedUpload (utf8 (Uuid.const 3).text) [1])), .error .timeout⟩ :: []) _ :=
    .call _ (.call _ (.call _ (.call _ (.refl _))))
  exact ⟨before, _, _, _, htrace, rfl,
    served_only_with_token .tagging (.v4 0) [.sample 0] trivial htrace⟩

end LiNaStore
