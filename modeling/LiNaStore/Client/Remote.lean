import LiNaStore.Client.Reporting
import LiNaStore.Client.Requests
import LiNaStore.Server.Shelf

/-!
# Clients of one server

A call of a client goes a long way: the client writes a request, the server reads it in whatever
pieces it arrives, lets it in, serves it and writes a response, and the client reads this in
whatever pieces it arrives. If the server understands the client and lets the request in, then on
the server the call is the command that the client means (`ClientCall.command_message`).

So what one client uploads to a free place can be downloaded from there by every client, after
whatever anyone else has requested, until the object is deleted: the other client gets exactly this
data if and only if it decodes responses with such an identifier and such data
(`uploaded_downloaded_iff`).
-/

namespace LiNaStore

open ClientReader Program

/-! ## Calls -/

/-- What is sealed with a token is opened with it. -/
def Cipher.Opens (C : Cipher) (encrypt : Encryption) : Prop :=
  ∀ token data sealed, encrypt (utf8 token) data = .ok sealed →
    decryptWithToken C token sealed = .ok data

/-- A call of a client that takes its request, with the payload that it makes. The server reads
    payloads of up to `maxPayloadSize` bytes. -/
structure ClientCall (maxPayloadSize : ℕ) where
  client : Client
  target : Target
  encrypt : Encryption
  routine : Routine
  request : ClientRequest
  payload : Bytes
  /-- A C++ client has been compiled without checksum instructions. -/
  target_eq : client = .cpp → target = .software
  length_identifier : (client.identifier request).length ≤ 255
  payload_eq : client.payload encrypt request routine = .ok payload
  accepts : client.Accepts request payload routine
  length_payload : payload.length ≤ maxPayloadSize
  /-- The flags that the caller has chosen for an upload are those of a write. -/
  op_upload : routine = .upload → Op.fromFlags (client.flags request .upload) = .write

/-- Without a token the payload is the data of an upload, and empty otherwise. -/
theorem Client.payload_of_none {r : ClientRequest} (h : r.sessionToken = none) (encrypt : Encryption)
    (client : Client) (routine : Routine) :
    client.payload encrypt r routine = .ok (if routine = .upload then r.data else []) := by
  have htoken : r.token = [] := by
    rw [ClientRequest.token, h]
    rfl
  have hcstr : C.cstr [] = [] := rfl
  cases client <;> cases routine <;>
  simp only [Client.payload, Python.payload, C.payload, Cpp.payload, Java.payload, uploadPayload,
    htoken, hcstr, ne_eq, not_true_eq_false, if_false] <;> rfl

namespace ClientCall

variable {maxPayloadSize : ℕ} (call : ClientCall maxPayloadSize)

/-- The identifier in the request. -/
def identifier : Bytes := call.client.identifier call.request

/-- The object that the call is about. -/
def address : String × String := splitIdentifier call.identifier

/-- What the client means. -/
def command : Command := match call.routine with
  | .upload => .write call.address call.request.data
  | .download => .read call.address
  | .delete => .vacate call.address

/-- The server lets the request in. Without a token it does so if none is asked for, and then takes
    data for what it is if there is no zero byte in it; otherwise the token is that of a session. -/
def Admitted (C : Cipher) (authRequired : Bool) (sv : Server) : Prop :=
  match call.request.sessionToken with
  | none => authRequired = false ∧ (call.routine = .upload → 0 ∉ call.request.data)
  | some token => (token ≠ "" ∧ 0 ∉ utf8 token) ∧ C.Opens call.encrypt ∧
      (authRequired = true → (sv.sessions token 60).isSome)

/-- The server reads the request, in whatever pieces it arrives, and serves it. -/
def Served (C : Cipher) (authRequired : Bool) (E : Engine) (d : FrontDraws) (sv : Server)
    (reply : Reply) (sv' : Server) : Prop :=
  ∃ bytes message,
    call.client.request call.target call.encrypt call.request call.routine = .ok bytes ∧
    (∀ (grow : Growth) (pieces : Stream), pieces.flatten = bytes → ∃ rest,
      LiNaProtocol.new.parseProtocolMessage grow maxPayloadSize pieces = .ok (message, rest)) ∧
    (serve C authRequired d message).run (ServerPrim.step E) sv = (.ok reply, sv')

/-! ## What the server reads -/

/-- The request as it is meant. -/
def frame : Frame :=
  ⟨call.client.flags call.request call.routine, call.identifier, call.payload,
    Nat.lt_succ_of_le call.length_identifier⟩

theorem address_message : call.frame.message.address = call.address := rfl

theorem op_message :
    call.frame.message.op = match call.routine with
      | .upload => .write
      | .download => .read
      | .delete => .delete := by
  have hop : call.frame.message.op =
      Op.fromFlags (call.client.flags call.request call.routine) := rfl
  rw [hop]
  cases hroutine : call.routine with
  | upload => exact call.op_upload hroutine
  | download => cases call.client <;> exact (by decide : Op.fromFlags 0x40 = .read)
  | delete => cases call.client <;> exact (by decide : Op.fromFlags 0xC0 = .delete)

theorem op_ne_auth : call.frame.message.op ≠ .auth := by
  rw [op_message]
  cases call.routine <;> decide

theorem served_of_run {C : Cipher} {authRequired : Bool} {E : Engine} {d : FrontDraws}
    {sv sv' : Server} {reply : Reply} (hmax : maxPayloadSize < 2 ^ 32)
    (h : (serve C authRequired d call.frame.message).run (ServerPrim.step E) sv =
      (.ok reply, sv')) : call.Served C authRequired E d sv reply sv' := by
  refine ⟨call.frame.bytes, call.frame.message, ?_, fun grow pieces hpieces => ?_, h⟩
  · exact (Client.writes_frame call.target_eq call.encrypt call.request call.routine _).mpr
      ⟨Nat.lt_succ_of_le call.length_identifier, call.payload, call.payload_eq, call.accepts, rfl⟩
  · exact call.frame.exists_parse_alone grow hmax call.length_payload hpieces

/-! ## What the server receives -/

theorem payload_of_none (h : call.request.sessionToken = none) :
    call.payload = if call.routine = .upload then call.request.data else [] :=
  Except.ok.inj (call.payload_eq.symm.trans (Client.payload_of_none h ..))

variable {C : Cipher} {authRequired : Bool} {sv : Server} {call : ClientCall maxPayloadSize}

/-- What is sealed is opened, whether or not a token is asked for. -/
theorem openFileData_sealed {encrypt : Encryption} {token : String} {data sealed : Bytes}
    (h : C.Opens encrypt) (hsealed : encrypt (utf8 token) data = .ok sealed) :
    openFileData C authRequired (some token) sealed = .ok data := by
  have hopen := h token data sealed hsealed
  have hne : sealed ≠ [] := by
    rintro rfl
    exact absurd (length_decryptWithToken hopen) (Nat.not_lt_zero _)
  simp only [openFileData, if_pos hne, hopen]

/-- The payload of a request that has been let in: for an upload, its data is received. -/
theorem received_message (h : call.Admitted C authRequired sv) :
    ∃ data, sv.received C authRequired call.frame.message = .ok data ∧
      (call.routine = .upload → data = call.request.data) := by
  have hdata : call.frame.message.payload.data = call.payload := rfl
  have hop := call.op_message
  rw [Admitted] at h
  rw [Server.received, hdata]
  cases htoken : call.request.sessionToken with
  | none =>
    rw [htoken] at h
    obtain ⟨rfl, hzero⟩ := h
    rw [call.payload_of_none htoken]
    by_cases hroutine : call.routine = .upload
    · rw [hroutine] at hop
      rcases splitPayload_write call.request.data with ⟨-, hsplit⟩ | ⟨hmem, -⟩
      · refine ⟨call.request.data, ?_, fun _ => rfl⟩
        rw [if_pos hroutine, hop, hsplit]
        rfl
      · exact absurd hmem (hzero hroutine)
    · rw [if_neg hroutine]
      obtain ⟨data, hopen, -⟩ := exists_openFileData C
        (splitPayload call.frame.message.op []).1 (splitPayload call.frame.message.op []).2
      exact ⟨data, hopen, fun hupload => absurd hupload hroutine⟩
  | some token =>
    rw [htoken] at h
    obtain ⟨⟨hne, hnul⟩, hopens, hsession⟩ := h
    -- with a token, what comes behind it is opened
    have hreceived {fileData data : Bytes}
        (hsplit : splitPayload call.frame.message.op call.payload = (some token, fileData))
        (hopen : openFileData C authRequired (some token) fileData = .ok data) :
        sv.received C authRequired call.frame.message = .ok data := by
      rw [Server.received, hdata, hsplit]
      cases authRequired with
      | false => exact hopen
      | true => exact (if_pos (hsession rfl)).trans hopen
    rcases LiNaStore.payload_eq htoken hne hnul call.payload_eq with
      ⟨hroutine, sealed, hsealed, hpayload⟩ | ⟨hroutine, hpayload⟩
    · refine ⟨call.request.data, hreceived ?_ (openFileData_sealed hopens hsealed), fun _ => rfl⟩
      rw [hroutine] at hop
      rw [hop, hpayload, splitPayload_sealed hnul]
    · have hwrite : call.frame.message.op ≠ .write := by
        rw [hop]
        cases hcases : call.routine with
        | upload => exact absurd hcases hroutine
        | download => decide
        | delete => decide
      exact ⟨[], hreceived (splitPayload_token hwrite hne hnul hpayload) rfl,
        fun hupload => absurd hupload hroutine⟩

/-- On the server a request that is let in is about what the client means. -/
theorem command_message (h : call.Admitted C authRequired sv) :
    (Visit.front (.advanced call.frame.message call.op_ne_auth)).command C authRequired sv =
      call.command := by
  obtain ⟨data, hreceived, hdata⟩ := received_message h
  rw [Visit.command, hreceived, LiNaProtocol.command, command, op_message, address_message]
  cases hroutine : call.routine with
  | upload => rw [hdata hroutine]
  | download => rfl
  | delete => rfl

end ClientCall

/-! ## Uploads and downloads -/

section

variable {C : Cipher} {authRequired : Bool} {E : Engine} {D : Set Bytes} {sv sv' : Server}
  {d : FrontDraws} {maxPayloadSize : ℕ}

/-- A call that is let in is served, and does on the shelf what the client means. -/
theorem ClientCall.exists_served (hE : E.Lossless) (hD : Set.InjOn E.hash256 D)
    (hmax : maxPayloadSize < 2 ^ 32) (hkept : sv.Kept E D) (hfresh : d.Fresh sv)
    (call : ClientCall maxPayloadSize) (hadmitted : call.Admitted C authRequired sv)
    (hwithin : call.routine = .upload → call.request.data ∈ D) :
    ∃ reply sv', call.Served C authRequired E d sv reply sv' ∧ sv'.Kept E D ∧
      (serve C authRequired d call.frame.message).run (ServerPrim.step E) sv = (.ok reply, sv') ∧
      sv'.shelf E = (sv.shelf E).after call.command ∧
      Visit.Shows (sv.shelf E) call.command (.front (.advanced reply)) := by
  let v : Visit := .front (.advanced call.frame.message call.op_ne_auth)
  have hcommand : v.command C authRequired sv = call.command := call.command_message hadmitted
  have hwritten (a : String × String) (data : Bytes)
      (hwrite : v.command C authRequired sv = .write a data) : data ∈ D := by
    rw [hcommand, command] at hwrite
    split at hwrite
    · next hroutine =>
      cases hwrite
      exact hwithin hroutine
    · cases hwrite
    · cases hwrite
  obtain ⟨seen, sv', hrun, hkept', hshelf, hshows⟩ := v.refines hE hD hkept hfresh hwritten
  rw [hcommand] at hshelf hshows
  obtain ⟨reply, rfl, hserve⟩ : ∃ reply, seen = .front (.advanced reply) ∧
      (serve C authRequired d call.frame.message).run (ServerPrim.step E) sv = (.ok reply, sv') := by
    rw [Visit.program, FrontRequest.program, run_bind, run_bind] at hrun
    rcases hserve : (serve C authRequired d call.frame.message).run (ServerPrim.step E) sv with
      ⟨e | reply, sv₁⟩
    · rw [hserve] at hrun
      cases hrun
    · rw [hserve] at hrun
      cases hrun
      exact ⟨reply, rfl, rfl⟩
  exact ⟨reply, sv', call.served_of_run hmax hserve, hkept', hserve, hshelf, hshows⟩

/-- The server reads one message only in the bytes of a request. -/
theorem ClientCall.Served.run {call : ClientCall maxPayloadSize} {reply : Reply}
    (hmax : maxPayloadSize < 2 ^ 32) (h : call.Served C authRequired E d sv reply sv') :
    (serve C authRequired d call.frame.message).run (ServerPrim.step E) sv = (.ok reply, sv') := by
  obtain ⟨bytes, message, hrequest, hparse, hrun⟩ := h
  obtain ⟨_, payload, hpayload, -, rfl⟩ :=
    (Client.writes_frame call.target_eq call.encrypt call.request call.routine _).mp hrequest
  obtain rfl : call.payload = payload := Except.ok.inj (call.payload_eq.symm.trans hpayload)
  have hpieces : ([call.frame.bytes] : Stream).flatten = call.frame.bytes := List.append_nil _
  obtain ⟨rest, hread⟩ := hparse .doubling _ hpieces
  obtain ⟨rest', hframe⟩ := call.frame.exists_parse_alone .doubling hmax call.length_payload hpieces
  rw [hframe] at hread
  cases hread
  exact hrun

/-- A client uploads data to a free place, at any time of any run of the server, and later a client
    downloads from there, while in between anything may have been requested of any front end but to
    delete this object. The upload is answered with success. The download is answered, and the
    client gets exactly the data that was uploaded if and only if it decodes responses to requests
    with such an identifier and with such data, in the pieces in which this one arrives. -/
theorem uploaded_downloaded_iff {sv₁ sv₂ : Server} {shelf : Shelf} {reply : Reply}
    (up down : ClientCall maxPayloadSize) (d d' : FrontDraws) (hE : E.Lossless)
    (hD : Set.InjOn E.hash256 D) (hmax : maxPayloadSize < 2 ^ 32)
    (h : ShelfRun C E D authRequired sv shelf) (hup : up.routine = .upload)
    (hadmitted : up.Admitted C authRequired sv) (hdata : up.request.data ∈ D)
    (hfree : shelf up.address = .free) (hfresh : d.Fresh sv)
    (hserved : up.Served C authRequired E d sv reply sv₁)
    (hlater : Following C E D authRequired (fun command => ¬command.Deletes up.address) sv₁ sv₂)
    (hdown : down.routine = .download) (haddress : down.address = up.address)
    (hadmitted' : down.Admitted C authRequired sv₂) (hfresh' : d'.Fresh sv₂) :
    reply.message.status = .success ∧
    ∃ reply' sv₃, down.Served C authRequired E d' sv₂ reply' sv₃ ∧
      ∀ (fileName : String) (s : Stream), s.flatten = reply'.message.serializeProtocolMessage →
        (Decodes (down.client.download fileName down.identifier) s up.request.data ↔
          down.client.DecodesWhen down.identifier up.request.data s) := by
  obtain ⟨hkept, rfl⟩ := h.kept hE hD
  obtain ⟨reply₀, sv₀, -, hkept₁, hrun, hshelf, hshows⟩ :=
    up.exists_served hE hD hmax hkept hfresh hadmitted fun _ => hdata
  rw [hserved.run hmax] at hrun
  cases hrun
  have hwrite : up.command = .write up.address up.request.data := by rw [ClientCall.command, hup]
  rw [hwrite] at hshelf hshows
  -- the place is full from now on
  have hfull : sv₁.shelf E up.address = .full up.request.data := by
    rw [hshelf, Shelf.after, if_pos hfree, Function.update_self]
  obtain ⟨hkept₂, hstays⟩ := hlater.shelf_eq hE hD hkept₁ (by rw [hfull]; exact Slot.noConfusion)
  obtain ⟨reply', sv₃, hserved', -, hrun', -, hshows'⟩ :=
    down.exists_served hE hD hmax hkept₂ hfresh' hadmitted' fun hupload => by
      rw [hdown] at hupload
      cases hupload
  have hread : down.command = .read down.address := by rw [ClientCall.command, hdown]
  rw [hread, Visit.Shows, haddress, hstays, hfull] at hshows'
  obtain ⟨hsuccess, hcarried⟩ := hshows'
  refine ⟨of_decide_eq_true hshows, reply', sv₃, hserved', fun fileName s hs => ?_⟩
  have hop : down.frame.message.op = .read := by rw [down.op_message, hdown]
  obtain ⟨u, pkg, data, hname, hreply⟩ := exists_response_of_read hkept₂.named hop hrun' hsuccess
  have hresponse := readResponse_response data hname
  rw [← hreply] at hresponse
  rw [← hcarried]
  exact decodes_iff hresponse hs down.length_identifier down.client

end

/-- What `Cipher.tagging` opens: a nonce, a tag and the data. -/
def tagged : Encryption := fun _ data => .ok (List.replicate 28 0 ++ data)

theorem opens_tagging : Cipher.tagging.Opens tagged := by
  intro token data sealed h
  cases h
  have hlong : ¬(List.replicate 28 (0 : UInt8) ++ data).length < nonceSize := by
    rw [List.length_append, List.length_replicate, nonceSize]
    omega
  have hrest : (List.replicate 28 (0 : UInt8) ++ data).drop nonceSize =
      List.replicate 16 0 ++ data := rfl
  have hopen (key nonce : Bytes) :
      Cipher.tagging.decrypt key nonce (List.replicate 16 0 ++ data) = .ok data := by
    have htag : ¬(List.replicate 16 (0 : UInt8) ++ data).length < 16 := by
      rw [List.length_append, List.length_replicate]
      omega
    simp only [Cipher.tagging, if_neg htag]
    rfl
  rw [decryptWithToken, if_neg hlong, hrest, hopen]
  rfl

/-- A request about an object whose key is 36 letters, with a token. -/
def tokenRequest : ClientRequest := ⟨List.replicate 36 0x61, [], [1], 0x80, some "t"⟩

def javaUpload : ClientCall 1000 where
  client := .java
  target := .software
  encrypt := tagged
  routine := .upload
  request := tokenRequest
  payload := utf8 "t" ++ 0 :: (List.replicate 28 0 ++ [1])
  target_eq := nofun
  length_identifier := by decide
  payload_eq := rfl
  accepts := ⟨by decide, by decide⟩
  length_payload := by decide
  op_upload _ := by decide

def pythonDownload : ClientCall 1000 where
  client := .python
  target := .software
  encrypt := tagged
  routine := .download
  request := tokenRequest
  payload := utf8 "t" ++ [0]
  target_eq := nofun
  length_identifier := by decide
  payload_eq := rfl
  accepts := (by decide : (utf8 "t" ++ [0]).length < 2 ^ 32)
  length_payload := by decide
  op_upload := nofun

/-- What the Java client uploads with the token of a session is downloaded by the Python client. -/
theorem uploaded_downloaded_iff_python :
    ∃ sv₂ reply' sv₃, pythonDownload.Served .tagging true .plain (.sample 1) sv₂ reply' sv₃ ∧
      Decodes (Client.python.download "a" pythonDownload.identifier)
        [reply'.message.serializeProtocolMessage] [1] := by
  have hadmitted {sv : Server} (call : ClientCall 1000) (hrequest : call.request = tokenRequest)
      (hencrypt : call.encrypt = tagged) (h : (sv.sessions "t" 60).isSome) :
      call.Admitted .tagging true sv := by
    rw [ClientCall.Admitted, hrequest, hencrypt]
    exact ⟨⟨by decide, by decide⟩, opens_tagging, fun _ => h⟩
  obtain ⟨-, reply', sv₃, hserved, hdecodes⟩ :=
    uploaded_downloaded_iff javaUpload pythonDownload (.sample 0) (.sample 1) Engine.lossless_plain
      injOn_hash256_plain (by decide) (.start fun _ _ => some "user") rfl
      (hadmitted javaUpload rfl rfl rfl) (Set.mem_univ _) rfl ⟨by decide, rfl, rfl⟩
      (javaUpload.served_of_run (by decide) rfl) .refl rfl rfl
      (hadmitted pythonDownload rfl rfl rfl) ⟨by decide, rfl, rfl⟩
  exact ⟨_, reply', sv₃, hserved, (hdecodes "a" _ (List.append_nil _)).mpr ⟨by decide, by decide⟩⟩

end LiNaStore
