import LiNaStore.Server.Worker

/-!
# The advanced front end

What a connection of the advanced protocol does with a request for a file (`serve`), once
it has been read. The payload of a write is taken for a token, a zero byte and sealed
data if it has a zero byte, and for raw data if it has none. Without a password set, a
token is not asked for but still used: the data is opened with it, and left as it is if
that fails.

So without a password a write is stored as it was sent if and only if there is no zero
byte in it (`raw_upload_verbatim_iff`).
-/

namespace LiNaStore

open Program

/-! ## Sealed data -/

/-- SHA-256 and AES-256-GCM; opening gives what was sealed without its tag of 16 bytes, or
    the text of an error. -/
structure Cipher where
  sha256 : Bytes → Bytes
  decrypt : (key nonce ciphertext : Bytes) → Except String Bytes
  length_decrypt : ∀ {key nonce ciphertext data}, decrypt key nonce ciphertext = .ok data →
    data.length + 16 = ciphertext.length

/-- The cipher under which nothing has been sealed. -/
def Cipher.rejecting : Cipher := ⟨id, fun _ _ _ => .error "aead::Error", nofun⟩

/-- A cipher that puts a tag of zeros before the data. -/
def Cipher.tagging : Cipher where
  sha256 := id
  decrypt _ _ ciphertext :=
    if ciphertext.length < 16 then .error "aead::Error" else .ok (ciphertext.drop 16)
  length_decrypt h := by
    split at h
    · cases h
    · cases h
      rw [List.length_drop]
      omega

def nonceSize : ℕ := 12

/-- Open data that was sealed with the hash of a token, behind its nonce. -/
def decryptWithToken (C : Cipher) (token : String) (encryptedData : Bytes) :
    Except String Bytes :=
  if encryptedData.length < nonceSize then .error "Encrypted data is too short"
  else (C.decrypt (C.sha256 (utf8 token)) (encryptedData.take nonceSize)
    (encryptedData.drop nonceSize)).mapError ("Decryption failed: " ++ ·)

theorem length_decryptWithToken {C : Cipher} {token : String} {encryptedData data : Bytes}
    (h : decryptWithToken C token encryptedData = .ok data) :
    data.length < encryptedData.length := by
  unfold decryptWithToken at h
  split at h
  · cases h
  · cases hopen : C.decrypt (C.sha256 (utf8 token)) (encryptedData.take nonceSize)
        (encryptedData.drop nonceSize) with
    | error e =>
      rw [hopen] at h
      cases h
    | ok data' =>
      rw [hopen] at h
      cases h
      have := C.length_decrypt hopen
      rw [List.length_drop] at this
      omega

/-! ## Responses -/

/-- The response to a request that was not carried out. -/
def errorResponse (status : Status) (code : Option UInt8) : LiNaProtocol :=
  let response := { LiNaProtocol.new with status }
  let payload := { response.payload with ilen := .ofNat response.payload.identifier.length }
  LiNaProtocol.withChecksum { response with
    payload := match code with
      | some code => { payload with data := [code], dlen := 1 }
      | none => { payload with dlen := 0 } }

/-- The response with what a worker answered. -/
def response (pkg : Package) : LiNaProtocol :=
  LiNaProtocol.withChecksum { LiNaProtocol.new with
    status := pkg.status
    payload := ⟨.ofNat pkg.content.identifier.length, pkg.content.identifier,
      .ofNat pkg.content.data.length, 0, pkg.content.data⟩ }

/-- A response, and whether the connection stays open for the next request. -/
structure Reply where
  message : LiNaProtocol
  goesOn : Bool
  deriving DecidableEq, Repr

/-- Report a status and close the connection. -/
def refuse (status : Status) : Reply := ⟨errorResponse status none, false⟩

/-! ## A request -/

/-- The token and the file data in a payload. -/
def splitPayload (op : Op) (data : Bytes) : Option String × Bytes :=
  if op = .write ∧ data ≠ [] then
    match splitNul data with
    | (token, some fileData) => (fromUtf8 token, fileData)
    | (_, none) => (none, data)
  else if data ≠ [] then (fromUtf8 (splitNul data).1, [])
  else (none, [])

/-- The token the request is served with, if it is. -/
def validateToken (authRequired : Bool) (sessionToken : Option String) :
    ServerProg (Except Status (Option String)) :=
  if authRequired then
    match sessionToken with
    | some token => do
      match ← (ask (.validateSession token 60)).attempt with
      | .ok (some _) => return .ok (some token)
      | _ => return .error .unauthorized
    | none => return .error .unauthorized
  else return .ok sessionToken

/-- The data of the file. What cannot be opened is taken as it is, unless a token is
    required. -/
def openFileData (C : Cipher) (authRequired : Bool) (validToken : Option String)
    (fileData : Bytes) : Except Status Bytes :=
  match validToken with
  | some token =>
    if fileData ≠ [] then
      match decryptWithToken C token fileData with
      | .ok decrypted => .ok decrypted
      | .error _ => if authRequired then .error .badRequest else .ok fileData
    else .ok fileData
  | none => .ok fileData

/-- The bucket and the key in an identifier. -/
def splitIdentifier (idBytes : Bytes) : String × String :=
  match splitNul idBytes with
  | (bucket, some key) => (fromUtf8Lossy bucket, fromUtf8Lossy key)
  | (key, none) => (defaultBucket, fromUtf8Lossy key)

def Op.behavior : Op → Behavior
  | delete => .deleteFile
  | write => .putFile
  | read => .getFile
  | auth | none => .none

/-- What a front end draws for a request: the id of the order, the name of a new object, a
    tag for the response, and what the worker draws. -/
structure FrontDraws where
  uniId : Uuid
  internalName : Uuid
  etag : Uuid
  worker : Draws

/-- Draws for three requests, all different. -/
def FrontDraws.sample (i : ℕ) : FrontDraws :=
  ⟨.const (.ofNat i), .const (.ofNat (i + 3)), .const (.ofNat (i + 6)), .sample i⟩

/-- The name of the object: a new one for a write, whether or not it gets registered. -/
def resolvedIdentifier (op : Op) (d : FrontDraws) (bucket key : String) :
    ServerProg (Except Status Bytes) :=
  match op with
  | .write => do
    (ask (.register bucket key d.internalName.text)).ignore
    return .ok (utf8 d.internalName.text)
  | _ => do
    match ← (ask (.resolve bucket key)).attempt with
    | .ok (some internal) => return .ok (utf8 internal)
    | .error .mapperUnavailable => return .error .internalError
    | _ => return .error .fileNotFound

/-- The data of the file in a request, if the request is to be served. -/
def receiveData (C : Cipher) (authRequired : Bool) (message : LiNaProtocol) :
    ServerProg (Except Status Bytes) := do
  let payload := splitPayload message.op message.payload.data
  match ← validateToken authRequired payload.1 with
  | .error status => return .error status
  | .ok validToken => return openFileData C authRequired validToken payload.2

/-- The order for a request. -/
def orderPkg (d : FrontDraws) (message : LiNaProtocol) (identifier fileData : Bytes) : Package :=
  { Package.newWithId d.uniId.bytes with
    behavior := message.op.behavior
    content := ⟨message.flags, identifier, fileData⟩ }

theorem identifier_orderPkg (d : FrontDraws) (message : LiNaProtocol)
    (identifier fileData : Bytes) :
    (orderPkg d message identifier fileData).content.identifier = identifier := rfl

/-- Give the order for a request and wait for the answer. -/
def placeOrder (d : FrontDraws) (message : LiNaProtocol) (identifier fileData : Bytes) :
    ServerProg Reply := do
  match ← (ask (.order d.worker (orderPkg d message identifier fileData))).attempt with
  | .ok pkg => return ⟨response pkg, true⟩
  -- an order that was taken but not answered leaves the connection open
  | .error e => return ⟨errorResponse .internalError none, e = .channelClosed ∨ e = .timeout⟩

/-- Serve a request that is not a handshake. -/
def serve (C : Cipher) (authRequired : Bool) (d : FrontDraws) (message : LiNaProtocol) :
    ServerProg Reply := do
  match ← receiveData C authRequired message with
  | .error status => return refuse status
  | .ok fileData =>
    let address := splitIdentifier message.payload.identifier
    match ← resolvedIdentifier message.op d address.1 address.2 with
    | .error status => return refuse status
    | .ok identifier => placeOrder d message identifier fileData

/-! ## Raw uploads -/

/-- The packages handed to the queue. -/
def orders (prims : List ServerPrim) : List Package :=
  prims.filterMap fun
    | .order _ pkg => some pkg
    | _ => none

/-- Without a password nothing is refused, and opening takes nothing but from the data. -/
theorem exists_openFileData (C : Cipher) (token : Option String) (fileData : Bytes) :
    ∃ data, openFileData C false token fileData = .ok data ∧ data.length ≤ fileData.length ∧
      (token = none → data = fileData) := by
  cases token with
  | none => exact ⟨fileData, rfl, Nat.le_refl _, fun _ => rfl⟩
  | some token =>
    rw [openFileData]
    by_cases hnil : fileData = []
    · exact ⟨fileData, if_neg (not_not_intro hnil), Nat.le_refl _, nofun⟩
    rw [if_pos hnil]
    cases hopen : decryptWithToken C token fileData with
    | error e => exact ⟨fileData, rfl, Nat.le_refl _, nofun⟩
    | ok data => exact ⟨data, rfl, Nat.le_of_lt (length_decryptWithToken hopen), nofun⟩

/-- A write without a zero byte is raw data; otherwise what follows the first one is taken
    for the data. -/
theorem splitPayload_write (data : Bytes) :
    (0 ∉ data ∧ splitPayload .write data = (none, data)) ∨
      0 ∈ data ∧ (splitPayload .write data).2.length < data.length := by
  rcases splitNul_cases data with h | ⟨token, rest, htoken, rfl⟩
  · refine .inl ⟨h, ?_⟩
    rw [splitPayload, splitNul_of_notMem h]
    by_cases hnil : data = []
    · rw [if_neg fun h => h.2 hnil, if_neg (not_not_intro hnil), hnil]
    · rw [if_pos ⟨rfl, hnil⟩]
  · refine .inr ⟨by simp, ?_⟩
    rw [splitPayload, if_pos ⟨rfl, by simp⟩, splitNul_append htoken]
    simp only [List.length_append, List.length_cons]
    omega

theorem issued_placeOrder {σ : Type}
    (step : (p : ServerPrim) → σ → Except ServerError p.Res × σ) (s : σ) (d : FrontDraws)
    (message : LiNaProtocol) (identifier fileData : Bytes) :
    (placeOrder d message identifier fileData).issued step s =
      [.order d.worker (orderPkg d message identifier fileData)] := by
  rw [placeOrder, issued_bind, run_attempt, run_perform]
  rcases step (.order d.worker (orderPkg d message identifier fileData)) s with ⟨e | pkg, s'⟩ <;>
  rfl

/-- Without a password every write hands one package to the queue, whatever the primitives
    answer. Its data is the payload if and only if there is no zero byte in the payload. -/
theorem raw_upload_verbatim_iff {σ : Type}
    (step : (p : ServerPrim) → σ → Except ServerError p.Res × σ) (s : σ) (C : Cipher)
    (d : FrontDraws) (message : LiNaProtocol) (hop : message.op = .write) :
    ∃ pkg, orders ((serve C false d message).issued step s) = [pkg] ∧
      pkg.behavior = .putFile ∧
      (pkg.content.data = message.payload.data ↔ 0 ∉ message.payload.data) := by
  obtain ⟨data, hopen, hle, hnone⟩ := exists_openFileData C
    (splitPayload .write message.payload.data).1 (splitPayload .write message.payload.data).2
  have hreceive : receiveData C false message = pure (.ok data) := by
    rw [← hopen, ← hop]
    rfl
  have hserve : orders ((serve C false d message).issued step s) =
      [orderPkg d message (utf8 d.internalName.text) data] := by
    rw [serve, hreceive]
    change orders ((resolvedIdentifier message.op d _ _ >>= fun _ => _).issued step s) = _
    rw [hop, issued_bind]
    exact congrArg orders (congrArg (List.cons _) (issued_placeOrder step _ d message _ _))
  refine ⟨_, hserve, by rw [orderPkg, hop]; rfl, ?_⟩
  rcases splitPayload_write message.payload.data with ⟨hzero, hsplit⟩ | ⟨hzero, hlt⟩
  · rw [hsplit] at hnone
    exact iff_of_true (hnone rfl) hzero
  · refine iff_of_false (fun h => ?_) (not_not_intro hzero)
    have hlen : data.length = message.payload.data.length := congrArg List.length h
    omega

/-- A write of data under the name `a` by a client without a token. -/
def rawUpload (data : Bytes) : LiNaProtocol :=
  LiNaProtocol.withChecksum ⟨FlagType.write.bits, .none, ⟨1, [0x61], .ofNat data.length, 0, data⟩⟩

theorem raw_upload_verbatim_short :
    ∃ pkg, orders ((serve .rejecting false (.sample 0) (rawUpload [1, 2])).issued
        (ServerPrim.step .plain) (.start fun _ _ => none)) = [pkg] ∧
      pkg.behavior = .putFile ∧
      (pkg.content.data = (rawUpload [1, 2]).payload.data ↔ 0 ∉ (rawUpload [1, 2]).payload.data) :=
  raw_upload_verbatim_iff _ _ _ _ _ rfl

/-- What stands before a zero byte is lost. -/
theorem raw_upload_cut :
    (rawUpload [1, 0, 2]).op = .write ∧ (rawUpload [1, 0, 2]).payload.data = [1, 0, 2] ∧
      (orders ((serve .rejecting false (.sample 0) (rawUpload [1, 0, 2])).issued
        (ServerPrim.step .plain) (.start fun _ _ => none))).map (·.content.data) = [[2]] := by
  decide +kernel

end LiNaStore
