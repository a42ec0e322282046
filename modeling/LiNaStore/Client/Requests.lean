import LiNaStore.Client.Checksums
import LiNaStore.Client.Responses
import LiNaStore.Server.Framing
import LiNaStore.Server.Waitress

/-!
# How the clients write requests

What the four clients send for an upload, a download or a deletion, up to the bytes on the
connection. Each has its own code for the lengths and the checksum: the C and the C++
client come with a table for CRC-32, the Java client counts with signed bytes, and the
Python client ends the token of a download or a deletion with a zero byte, which the others
do not.

The C++ client uses the checksum instructions of the processor where the compiler offers
them. These compute CRC-32C, and the server computes CRC-32. So the server understands what
a client writes if and only if this is not a C++ client that was compiled for such a
processor, or the two checksums of the request happen to be equal (`request_understood_iff`).
-/

namespace LiNaStore

/-- What a client is asked for. Names are given as the bytes they have in a request. -/
structure ClientRequest where
  name : Bytes
  bucket : Bytes
  data : Bytes
  flags : UInt8
  sessionToken : Option String
  deriving DecidableEq

/-- Why a request is not written. -/
inductive RequestError
  /-- An error was raised. -/
  | raised (kind : ErrorKind) (message : String)
  /-- A result was returned that says no. -/
  | result (message : String)
  /-- The payload is longer than a length can say. -/
  | overflow
  deriving DecidableEq, Repr

/-- Sealing data with a token: the nonce that was drawn and the ciphertext, or the error
    with which it fails. -/
abbrev Encryption := (token data : Bytes) → Except RequestError Bytes

def linaNameMaxLength : ℕ := 255

/-- The identifier for a name in a bucket. -/
def buildIdentifier (fileName bucket : Bytes) : Bytes :=
  if bucket ≠ [] then bucket ++ 0 :: fileName else fileName

/-- The bytes of the token; a token that is missing is treated as an empty one. -/
def ClientRequest.token (r : ClientRequest) : Bytes := utf8 (r.sessionToken.getD "")

/-- The payload of an upload: the token, a zero byte and the sealed data, or the data alone. -/
def uploadPayload (encrypt : Encryption) (token data : Bytes) : Except RequestError Bytes :=
  if token ≠ [] then do return token ++ 0 :: (← encrypt token data) else return data

/-- The parts of a request in the order in which they are sent. -/
def sendParts (flags ilen : UInt8) (identifier dlen checksum payload : Bytes) : Bytes :=
  [flags] ++ [ilen] ++ identifier ++ dlen ++ checksum ++ payload

/-! ## Python -/

namespace Python

def payload (encrypt : Encryption) (r : ClientRequest) : Routine → Except RequestError Bytes
  | .upload => uploadPayload encrypt r.token r.data
  | _ => return if r.token ≠ [] then r.token ++ [0] else []

/-- Write a request with the given flags and payload. A length that does not fit into four
    bytes raises an error. -/
def request (flags : UInt8) (r : ClientRequest) (payload : Except RequestError Bytes) :
    Except RequestError Bytes := do
  let data ← payload
  let identifier := buildIdentifier r.name r.bucket
  if identifier.length > linaNameMaxLength then
    throw (.raised .protocol ("File name too long: " ++ toString identifier.length ++ " > " ++
      toString linaNameMaxLength))
  else if data.length ≥ 2 ^ 32 then throw .overflow
  else
    let ilen := UInt8.ofNat identifier.length
    let dlen := leBytes 4 data.length
    let checksum := leBytes 4 (crc32 ([ilen] ++ identifier ++ dlen ++ data)).toNat
    return sendParts flags ilen identifier dlen checksum data

def uploadRequest (encrypt : Encryption) (r : ClientRequest) : Except RequestError Bytes :=
  request 0x80 r (payload encrypt r .upload)

def downloadRequest (encrypt : Encryption) (r : ClientRequest) : Except RequestError Bytes :=
  request 0x40 r (payload encrypt r .download)

def deleteRequest (encrypt : Encryption) (r : ClientRequest) : Except RequestError Bytes :=
  request 0xC0 r (payload encrypt r .delete)

end Python

/-! ## C -/

namespace C

/-- A string ends before its first zero byte. -/
def cstr (bytes : Bytes) : Bytes := (splitNul bytes).1

def u32ToLe (value : UInt32) : Bytes :=
  [(value &&& 0xFF).toUInt8, ((value >>> 8) &&& 0xFF).toUInt8,
    ((value >>> 16) &&& 0xFF).toUInt8, ((value >>> 24) &&& 0xFF).toUInt8]

def payload (encrypt : Encryption) (r : ClientRequest) : Routine → Except RequestError Bytes
  | .upload => uploadPayload encrypt (cstr r.token) r.data
  | _ => return cstr r.token

/-- Write a request with the given flags and payload. The length of the payload is cut to
    32 bits. -/
def request (flags : UInt8) (r : ClientRequest) (payload : Except RequestError Bytes) :
    Except RequestError Bytes := do
  let identifier := buildIdentifier (cstr r.name) (cstr r.bucket)
  if identifier.length > 255 then
    throw (.result ("Identifier too long: " ++ toString identifier.length ++ " > 255"))
  else
    let ilen := UInt8.ofNat identifier.length
    let payload ← payload
    let dlenBuf := u32ToLe (.ofNat payload.length)
    let crc32 := Crc32.init
    let crc32 := crc32.update [ilen]
    let crc32 := crc32.update identifier
    let crc32 := crc32.update dlenBuf
    let crc32 := crc32.update payload
    let (checksum, _) := crc32.finalize
    return sendParts flags ilen identifier dlenBuf (u32ToLe checksum.toUInt32) payload

def uploadRequest (encrypt : Encryption) (r : ClientRequest) : Except RequestError Bytes :=
  request r.flags r (payload encrypt r .upload)

def downloadRequest (encrypt : Encryption) (r : ClientRequest) : Except RequestError Bytes :=
  request 0x40 r (payload encrypt r .download)

def deleteRequest (encrypt : Encryption) (r : ClientRequest) : Except RequestError Bytes :=
  request 0xC0 r (payload encrypt r .delete)

end C

/-! ## C++ -/

namespace Cpp

def writeLe32 (value : UInt32) : Bytes := C.u32ToLe value

def payload (encrypt : Encryption) (r : ClientRequest) : Routine → Except RequestError Bytes
  | .upload => uploadPayload encrypt r.token r.data
  | _ => return r.token

/-- Write a request with the given flags and payload. -/
def request (target : Target) (flags : UInt8) (r : ClientRequest)
    (payload : Except RequestError Bytes) : Except RequestError Bytes := do
  if r.name = [] then throw (.raised .client "File name cannot be empty")
  else
    let identifier := buildIdentifier r.name r.bucket
    if identifier.length > linaNameMaxLength then
      throw (.raised .client "File identifier exceeds maximum length")
    else
      let ilen := UInt8.ofNat identifier.length
      let payloadData ← payload
      let dlenBuf := writeLe32 (.ofNat payloadData.length)
      let (crc32, statics) := Crc32.new .start
      let crc32 := crc32.update target statics [ilen]
      let crc32 := crc32.update target statics identifier
      let crc32 := crc32.update target statics dlenBuf
      let crc32 := crc32.update target statics payloadData
      let (checksum, _) := crc32.finalize
      return sendParts flags ilen identifier dlenBuf (writeLe32 checksum) payloadData

/-- An upload checks for data, after the name. -/
def uploadRequest (target : Target) (encrypt : Encryption) (r : ClientRequest) :
    Except RequestError Bytes :=
  if r.name ≠ [] ∧ r.data = [] then throw (.raised .client "File data cannot be empty")
  else request target r.flags r (payload encrypt r .upload)

def downloadRequest (target : Target) (encrypt : Encryption) (r : ClientRequest) :
    Except RequestError Bytes :=
  request target 0x40 r (payload encrypt r .download)

def deleteRequest (target : Target) (encrypt : Encryption) (r : ClientRequest) :
    Except RequestError Bytes :=
  request target 0xC0 r (payload encrypt r .delete)

end Cpp

/-! ## Java -/

namespace Java

/-- The byte that is written, or taken into a checksum, for a number: its low eight bits. -/
def lowByte (n : Int) : UInt8 := .ofNat (n % 256).toNat

def payload (encrypt : Encryption) (r : ClientRequest) : Routine → Except RequestError Bytes
  | .upload => uploadPayload encrypt r.token r.data
  | _ => return r.token

/-- Write a request with the given flags and payload. There are no arrays of more than
    `2 ^ 31 - 1` bytes. -/
def request (flags : UInt8) (r : ClientRequest) (payload : Except RequestError Bytes) :
    Except RequestError Bytes := do
  if r.name = [] then throw (.raised .protocol "File name cannot be null or empty")
  else
    let flagByte := signedByte flags
    let identifier := buildIdentifier r.name r.bucket
    if identifier.length > linaNameMaxLength then
      throw (.raised .protocol
        ("File identifier is too long: " ++ toString identifier.length ++ " bytes"))
    else
      let ilen := signedByte (.ofNat identifier.length)
      let payloadData ← payload
      if payloadData.length ≥ 2 ^ 31 then throw .overflow
      else
        let dlenBuffer := leBytes 4 payloadData.length
        let checksum := crc32 ([lowByte ilen] ++ identifier ++ dlenBuffer ++ payloadData)
        return sendParts (lowByte flagByte) (lowByte ilen) identifier dlenBuffer
          (leBytes 4 checksum.toNat) payloadData

def uploadRequest (encrypt : Encryption) (r : ClientRequest) : Except RequestError Bytes :=
  request r.flags r (payload encrypt r .upload)

def downloadRequest (encrypt : Encryption) (r : ClientRequest) : Except RequestError Bytes :=
  request 0x40 r (payload encrypt r .download)

def deleteRequest (encrypt : Encryption) (r : ClientRequest) : Except RequestError Bytes :=
  request 0xC0 r (payload encrypt r .delete)

end Java

/-! ## All clients -/

namespace Client

/-- The bytes a client sends. -/
def request (target : Target) (encrypt : Encryption) (r : ClientRequest) :
    Client → Routine → Except RequestError Bytes
  | python, .upload => Python.uploadRequest encrypt r
  | python, .download => Python.downloadRequest encrypt r
  | python, .delete => Python.deleteRequest encrypt r
  | c, .upload => C.uploadRequest encrypt r
  | c, .download => C.downloadRequest encrypt r
  | c, .delete => C.deleteRequest encrypt r
  | cpp, .upload => Cpp.uploadRequest target encrypt r
  | cpp, .download => Cpp.downloadRequest target encrypt r
  | cpp, .delete => Cpp.deleteRequest target encrypt r
  | java, .upload => Java.uploadRequest encrypt r
  | java, .download => Java.downloadRequest encrypt r
  | java, .delete => Java.deleteRequest encrypt r

/-- The payload a client sends. -/
def payload (encrypt : Encryption) (r : ClientRequest) :
    Client → Routine → Except RequestError Bytes
  | python => Python.payload encrypt r
  | c => C.payload encrypt r
  | cpp => Cpp.payload encrypt r
  | java => Java.payload encrypt r

/-- The flags a client means. An upload with the Python client has no flags to choose. -/
def flags (r : ClientRequest) : Client → Routine → UInt8
  | _, .download => 0x40
  | _, .delete => 0xC0
  | python, .upload => 0x80
  | _, .upload => r.flags

/-- The identifier a client means. -/
def identifier (r : ClientRequest) : Client → Bytes
  | c => buildIdentifier (C.cstr r.name) (C.cstr r.bucket)
  | _ => buildIdentifier r.name r.bucket

/-- The checksum a client computes. -/
def checksum (target : Target) (message : Bytes) : Client → UInt32
  | cpp => (Cpp.Crc32.new .start).1.checksum target (.built 0) [message]
  | _ => crc32 message

/-- What a client asks of a request besides a short identifier. -/
def Accepts (r : ClientRequest) (payload : Bytes) : Client → Routine → Prop
  | python, _ => payload.length < 2 ^ 32
  | c, _ => True
  | cpp, routine => r.name ≠ [] ∧ (routine = .upload → r.data ≠ [])
  | java, _ => r.name ≠ [] ∧ payload.length < 2 ^ 31

end Client

/-- A token is not empty and has no zero byte. -/
def ClientRequest.TokenOk (r : ClientRequest) : Prop :=
  ∀ token, r.sessionToken = some token → token ≠ "" ∧ 0 ∉ utf8 token

/-- The server reads the request, in whatever pieces it comes, as a message with the flags
    and the identifier of the client and a right checksum. It finds the token that was put
    into it, and in a write what was sealed with the token. -/
def Understood (encrypt : Encryption) (client : Client) (routine : Routine) (r : ClientRequest)
    (maxPayloadSize : ℕ) (bytes : Bytes) : Prop :=
  ∀ (grow : Growth) (pieces : Stream), pieces.flatten = bytes →
    ∃ message rest,
      LiNaProtocol.new.parseProtocolMessage grow maxPayloadSize pieces = .ok (message, rest) ∧
      message.flags = client.flags r routine ∧
      message.payload.identifier = client.identifier r ∧ message.verify = true ∧
      ∀ token, r.sessionToken = some token →
        (splitPayload message.op message.payload.data).1 = some token ∧
        (message.op = .write →
          encrypt (utf8 token) r.data = .ok (splitPayload message.op message.payload.data).2)

/-! ## The checksums -/

theorem toUInt8_shiftRight (value k : UInt32) (hk : k.toNat < 32) :
    (value >>> k).toUInt8 = UInt8.ofNat (value.toNat / 2 ^ k.toNat) := by
  rw [← UInt8.toNat_inj, UInt32.toNat_toUInt8, UInt32.toNat_shiftRight, UInt8.toNat_ofNat',
    Nat.mod_eq_of_lt hk, Nat.shiftRight_eq_div_pow]

theorem C.u32ToLe_eq (value : UInt32) : C.u32ToLe value = leBytes 4 value.toNat := by
  simp only [C.u32ToLe, toUInt8_and_mask, leBytes, Nat.div_div_eq_div_mul]
  rw [toUInt8_shiftRight _ 8 (by decide), toUInt8_shiftRight _ 16 (by decide),
    toUInt8_shiftRight _ 24 (by decide), ← UInt8.ofNat_uInt32ToNat]
  rfl

theorem Java.lowByte_signedByte (b : UInt8) : Java.lowByte (signedByte b) = b := by
  have hb := b.toNat_lt
  have hmod : (signedByte b % 256).toNat = b.toNat := by
    rw [signedByte]
    split <;> omega
  rw [Java.lowByte, hmod, UInt8.ofNat_toNat]

/-! ## The requests -/

section

variable {flags : UInt8} {identifier data bytes : Bytes} {r : ClientRequest}
  {payload : Except RequestError Bytes}

/-- What the checksum of a request is taken of. -/
def checkedBytes (identifier data : Bytes) : Bytes :=
  [.ofNat identifier.length] ++ identifier ++ leBytes 4 (UInt32.ofNat data.length).toNat ++ data

/-- The request with a checksum. -/
def sentMessage (flags : UInt8) (identifier data : Bytes) (checksum : UInt32) : LiNaProtocol :=
  ⟨flags, .none, ⟨.ofNat identifier.length, identifier, .ofNat data.length, checksum, data⟩⟩

/-- The parts of a request make it up. -/
theorem sendParts_eq_requestBytes (flags : UInt8) (identifier data : Bytes) (checksum : UInt32) :
    sendParts flags (.ofNat identifier.length) identifier
        (leBytes 4 (UInt32.ofNat data.length).toNat) (leBytes 4 checksum.toNat) data =
      (sentMessage flags identifier data checksum).requestBytes := by
  simp only [sendParts, LiNaProtocol.requestBytes, LiNaProtocol.requestHeader, sentMessage,
    List.append_assoc]

/-- Bytes are written if and only if the identifier is short, there is a payload, and the
    client takes it; they are then the request with the checksum the client computes. -/
def Writes (checksum : Bytes → UInt32) (written payload : Except RequestError Bytes) (flags : UInt8)
    (identifier : Bytes) (Takes : Bytes → Prop) : Prop :=
  ∀ bytes, written = .ok bytes ↔ identifier.length < 256 ∧ ∃ data, payload = .ok data ∧
    Takes data ∧ bytes =
      (sentMessage flags identifier data (checksum (checkedBytes identifier data))).requestBytes

variable {checksum : Bytes → UInt32}

theorem Writes.of_error {e : RequestError} {written : Except RequestError Bytes}
    {Takes : Bytes → Prop} (hwritten : written = .error e)
    (h : identifier.length < 256 → ∀ data, payload = .ok data → ¬ Takes data) :
    Writes checksum written payload flags identifier Takes := by
  intro bytes
  rw [hwritten]
  exact iff_of_false nofun fun ⟨hid, data, hpayload, htakes, _⟩ => h hid data hpayload htakes

theorem Writes.of_ok {written : Except RequestError Bytes} {Takes : Bytes → Prop}
    (hid : identifier.length < 256) (htakes : Takes data)
    (hwritten : written = .ok (sentMessage flags identifier data
      (checksum (checkedBytes identifier data))).requestBytes) :
    Writes checksum written (.ok data) flags identifier Takes := by
  intro bytes
  rw [hwritten]
  constructor
  · rintro ⟨⟩
    exact ⟨hid, data, rfl, htakes, rfl⟩
  · rintro ⟨_, _, ⟨⟩, _, rfl⟩
    rfl

theorem Writes.congr {written : Except RequestError Bytes} {Takes Takes' : Bytes → Prop}
    (h : Writes checksum written payload flags identifier Takes)
    (hiff : ∀ data, Takes data ↔ Takes' data) :
    Writes checksum written payload flags identifier Takes' := by
  simpa only [Writes, hiff] using h

theorem Python.writes_request (flags : UInt8) (r : ClientRequest)
    (payload : Except RequestError Bytes) :
    Writes crc32 (Python.request flags r payload) payload flags (buildIdentifier r.name r.bucket)
      (·.length < 2 ^ 32) := by
  rcases payload with e | data
  · exact .of_error rfl nofun
  by_cases hid : (buildIdentifier r.name r.bucket).length > linaNameMaxLength
  · exact .of_error (if_pos hid) fun h => absurd hid (not_lt.mpr (Nat.le_of_lt_succ h))
  by_cases hlen : data.length ≥ 2 ^ 32
  · exact .of_error ((if_neg hid).trans (if_pos hlen)) fun _ _ h => by
      cases h
      exact not_lt.mpr hlen
  · refine .of_ok (Nat.lt_succ_of_le (not_lt.mp hid)) (not_le.mp hlen) ?_
    refine (if_neg hid).trans ((if_neg hlen).trans ?_)
    rw [← sendParts_eq_requestBytes, checkedBytes, UInt32.toNat_ofNat_of_lt' (not_le.mp hlen)]
    rfl

theorem C.checksum_parts (ilen : UInt8) (identifier dlenBuf payload : Bytes) :
    ((((C.Crc32.init.update [ilen]).update identifier).update dlenBuf).update
        payload).finalize.1.toUInt32 = crc32 ([ilen] ++ identifier ++ dlenBuf ++ payload) := by
  have h := C.Crc32.finalize_message [[ilen], identifier, dlenBuf, payload]
  simp only [List.foldl_cons, List.foldl_nil] at h
  rw [h, UInt32.toUInt32_toUInt64]
  simp only [List.flatten_cons, List.flatten_nil, List.append_nil, List.append_assoc]

theorem C.writes_request (flags : UInt8) (r : ClientRequest)
    (payload : Except RequestError Bytes) :
    Writes crc32 (C.request flags r payload) payload flags
      (buildIdentifier (C.cstr r.name) (C.cstr r.bucket)) fun _ => True := by
  by_cases hid : (buildIdentifier (C.cstr r.name) (C.cstr r.bucket)).length > 255
  · exact .of_error (if_pos hid) fun h => absurd hid (not_lt.mpr (Nat.le_of_lt_succ h))
  rcases payload with e | data
  · exact .of_error (if_neg hid) nofun
  · refine .of_ok (Nat.lt_succ_of_le (not_lt.mp hid)) trivial ((if_neg hid).trans ?_)
    rw [← sendParts_eq_requestBytes, checkedBytes, ← C.checksum_parts, ← C.u32ToLe_eq,
      ← C.u32ToLe_eq]
    rfl

theorem Cpp.checksum_parts (target : Target) (ilen : UInt8) (identifier dlenBuf payload : Bytes) :
    ((((((Cpp.Crc32.new .start).1.update target (.built 0) [ilen]).update target (.built 0)
        identifier).update target (.built 0) dlenBuf).update target (.built 0) payload).finalize).1 =
      Client.cpp.checksum target ([ilen] ++ identifier ++ dlenBuf ++ payload) := by
  refine (Cpp.Crc32.checksum_flatten target 0 (Cpp.Crc32.new .start).1
    [[ilen], identifier, dlenBuf, payload]).trans ?_
  simp only [List.flatten_cons, List.flatten_nil, List.append_nil, List.append_assoc]
  rfl

theorem Cpp.writes_request (target : Target) (flags : UInt8) (r : ClientRequest)
    (payload : Except RequestError Bytes) :
    Writes (Client.cpp.checksum target) (Cpp.request target flags r payload) payload flags
      (buildIdentifier r.name r.bucket) fun _ => r.name ≠ [] := by
  by_cases hname : r.name = []
  · exact .of_error (if_pos hname) fun _ _ _ h => h hname
  by_cases hid : (buildIdentifier r.name r.bucket).length > linaNameMaxLength
  · exact .of_error ((if_neg hname).trans (if_pos hid)) fun h =>
      absurd hid (not_lt.mpr (Nat.le_of_lt_succ h))
  rcases payload with e | data
  · exact .of_error ((if_neg hname).trans (if_neg hid)) nofun
  · refine .of_ok (Nat.lt_succ_of_le (not_lt.mp hid)) hname ?_
    refine (if_neg hname).trans ((if_neg hid).trans ?_)
    rw [← sendParts_eq_requestBytes, checkedBytes, ← Cpp.checksum_parts, ← C.u32ToLe_eq,
      ← C.u32ToLe_eq]
    rfl

theorem Java.writes_request (flags : UInt8) (r : ClientRequest)
    (payload : Except RequestError Bytes) :
    Writes crc32 (Java.request flags r payload) payload flags (buildIdentifier r.name r.bucket)
      fun data => r.name ≠ [] ∧ data.length < 2 ^ 31 := by
  by_cases hname : r.name = []
  · exact .of_error (if_pos hname) fun _ _ _ h => h.1 hname
  by_cases hid : (buildIdentifier r.name r.bucket).length > linaNameMaxLength
  · exact .of_error ((if_neg hname).trans (if_pos hid)) fun h =>
      absurd hid (not_lt.mpr (Nat.le_of_lt_succ h))
  rcases payload with e | data
  · exact .of_error ((if_neg hname).trans (if_neg hid)) nofun
  by_cases hlen : data.length ≥ 2 ^ 31
  · refine .of_error ((if_neg hname).trans ((if_neg hid).trans (if_pos hlen))) fun _ _ h => ?_
    cases h
    exact fun h => not_lt.mpr hlen h.2
  · have hlt : data.length < 2 ^ 32 := lt_trans (not_le.mp hlen) (by decide)
    refine .of_ok (Nat.lt_succ_of_le (not_lt.mp hid)) ⟨hname, not_le.mp hlen⟩ ?_
    refine (if_neg hname).trans ((if_neg hid).trans ((if_neg hlen).trans ?_))
    rw [Java.lowByte_signedByte, Java.lowByte_signedByte, ← sendParts_eq_requestBytes, checkedBytes,
      UInt32.toNat_ofNat_of_lt' hlt]
    rfl

theorem Client.writes_request (client : Client) (target : Target) (encrypt : Encryption)
    (r : ClientRequest) (routine : Routine) :
    Writes (client.checksum target) (client.request target encrypt r routine)
      (client.payload encrypt r routine) (client.flags r routine) (client.identifier r)
      (client.Accepts r · routine) := by
  rcases client
  case python => rcases routine <;> exact Python.writes_request _ r _
  case c => rcases routine <;> exact C.writes_request _ r _
  case java => rcases routine <;> exact Java.writes_request _ r _
  case cpp =>
    rcases routine
    case upload =>
      by_cases hdata : r.name ≠ [] ∧ r.data = []
      · exact .of_error (if_pos hdata) fun _ _ _ h => h.2 rfl hdata.2
      · rw [Client.request, Cpp.uploadRequest, if_neg hdata]
        refine (Cpp.writes_request target _ r _).congr fun _ => ?_
        exact ⟨fun h => ⟨h, fun _ hnil => hdata ⟨h, hnil⟩⟩, And.left⟩
    case download =>
      exact (Cpp.writes_request target _ r _).congr fun _ => (and_iff_left nofun).symm
    case delete =>
      exact (Cpp.writes_request target _ r _).congr fun _ => (and_iff_left nofun).symm

/-- The checksum of a client is that of the server if and only if it is not computed with
    instructions or happens to be the same. -/
theorem Client.checksum_eq_iff (client : Client) (target : Target) (message : Bytes) :
    client.checksum target message = crc32 message ↔
      (client = .cpp → target = .software ∨ SmallRemainder 0xFFFFFFFF message) := by
  rcases client
  case cpp =>
    have h := Cpp.Crc32.checksum_eq_iff target 0 ⟨0xFFFFFFFF⟩ [message]
    rw [List.flatten_singleton, ← crc32_eq_not] at h
    rw [imp_iff_right rfl]
    exact h
  all_goals exact iff_of_true rfl nofun

/-- Without checksum instructions, a client writes bytes the server takes for a request. -/
theorem Client.writes_frame {client : Client} {target : Target}
    (htarget : client = .cpp → target = .software) (encrypt : Encryption) (r : ClientRequest)
    (routine : Routine) (bytes : Bytes) :
    client.request target encrypt r routine = .ok bytes ↔
      ∃ (hid : (client.identifier r).length < 256) (data : Bytes),
        client.payload encrypt r routine = .ok data ∧ client.Accepts r data routine ∧
        bytes = (Frame.mk (client.flags r routine) (client.identifier r) data hid).bytes := by
  have hchecksum : client.checksum target = crc32 :=
    funext fun message => (client.checksum_eq_iff target message).mpr fun h => .inl (htarget h)
  have h := client.writes_request target encrypt r routine bytes
  rw [hchecksum] at h
  exact h.trans exists_prop.symm

end

/-! ## The payload -/

section

variable {encrypt : Encryption} {r : ClientRequest} {token : String} {client : Client}
  {routine : Routine} {data : Bytes}

theorem utf8_ne_nil (h : token ≠ "") : utf8 token ≠ [] :=
  fun hnil => h (utf8_injective hnil)

/-- What a token is followed by in a payload. -/
theorem payload_eq (htoken : r.sessionToken = some token) (hne : token ≠ "")
    (hnul : 0 ∉ utf8 token) (h : client.payload encrypt r routine = .ok data) :
    (routine = .upload ∧ ∃ sealed, encrypt (utf8 token) r.data = .ok sealed ∧
        data = utf8 token ++ 0 :: sealed) ∨
      routine ≠ .upload ∧ (data = utf8 token ∨ data = utf8 token ++ [0]) := by
  have hbytes : r.token = utf8 token := by rw [ClientRequest.token, htoken, Option.getD_some]
  have hcstr : C.cstr (utf8 token) = utf8 token := by rw [C.cstr, splitNul_of_notMem hnul]
  by_cases hroutine : routine = .upload
  · have hupload : uploadPayload encrypt (utf8 token) r.data = .ok data := by
      subst hroutine
      rcases client <;> simpa only [Client.payload, Python.payload, C.payload, Cpp.payload,
        Java.payload, hbytes, hcstr] using h
    rw [uploadPayload, if_pos (utf8_ne_nil hne)] at hupload
    rcases hsealed : encrypt (utf8 token) r.data with e | sealed
    · rw [hsealed] at hupload
      cases hupload
    · rw [hsealed] at hupload
      cases hupload
      exact .inl ⟨hroutine, sealed, rfl, rfl⟩
  · refine .inr ⟨hroutine, ?_⟩
    rcases client <;> rcases routine <;> first | exact absurd rfl hroutine | skip
    all_goals
      simp only [Client.payload, Python.payload, C.payload, Cpp.payload,
        Java.payload, hbytes, hcstr, if_pos (utf8_ne_nil hne)] at h
      cases h
      simp

theorem splitPayload_sealed (hnul : 0 ∉ utf8 token) (sealed : Bytes) :
    splitPayload .write (utf8 token ++ 0 :: sealed) = (some token, sealed) := by
  rw [splitPayload, if_pos ⟨rfl, by simp⟩, splitNul_append hnul]
  simp only [fromUtf8_utf8]

theorem splitPayload_token {op : Op} {tail : Bytes} (hop : op ≠ .write) (hne : token ≠ "")
    (hnul : 0 ∉ utf8 token)
    (hdata : data = utf8 token ∨ data = utf8 token ++ 0 :: tail) :
    splitPayload op data = (some token, []) := by
  have hsplit : (splitNul data).1 = utf8 token ∧ data ≠ [] := by
    rcases hdata with rfl | rfl
    · exact ⟨by rw [splitNul_of_notMem hnul], utf8_ne_nil hne⟩
    · exact ⟨by rw [splitNul_append hnul], by simp⟩
  rw [splitPayload, if_neg fun h => hop h.1, if_pos hsplit.2, hsplit.1, fromUtf8_utf8]

end

/-! ## What the server makes of it -/

section

variable {encrypt : Encryption} {client : Client} {routine : Routine} {r : ClientRequest}
  {data : Bytes} {maxPayloadSize : ℕ} (hid : (client.identifier r).length < 256)
  (hmax : maxPayloadSize < 2 ^ 32) (htoken : r.TokenOk)
  (hpayload : client.payload encrypt r routine = .ok data) (hdata : data.length ≤ maxPayloadSize)

include hmax htoken hpayload hdata

/-- The request for a payload the client made is understood. -/
theorem understood_bytes :
    Understood encrypt client routine r maxPayloadSize
      (Frame.mk (client.flags r routine) (client.identifier r) data hid).bytes := by
  intro grow pieces hpieces
  obtain ⟨rest, hparse⟩ := Frame.exists_parse_alone _ grow hmax hdata hpieces
  refine ⟨_, rest, hparse, rfl, rfl, decide_eq_true rfl, fun token hsome => ?_⟩
  obtain ⟨hne, hnul⟩ := htoken token hsome
  show (splitPayload (Op.fromFlags (client.flags r routine)) data).1 = some token ∧
    (Op.fromFlags (client.flags r routine) = .write → encrypt (utf8 token) r.data =
      .ok (splitPayload (Op.fromFlags (client.flags r routine)) data).2)
  rcases payload_eq hsome hne hnul hpayload with ⟨-, sealed, hsealed, rfl⟩ | ⟨hroutine, hdata'⟩
  · by_cases hop : Op.fromFlags (client.flags r routine) = .write
    · rw [hop, splitPayload_sealed hnul]
      exact ⟨rfl, fun _ => hsealed⟩
    · rw [splitPayload_token hop hne hnul (.inr rfl)]
      exact ⟨rfl, (absurd · hop)⟩
  · have hop : Op.fromFlags (client.flags r routine) ≠ .write := by
      rcases routine
      case upload => exact absurd rfl hroutine
      case download => cases client <;> exact (by decide : Op.fromFlags 0x40 ≠ .write)
      case delete => cases client <;> exact (by decide : Op.fromFlags 0xC0 ≠ .write)
    rw [splitPayload_token hop hne hnul hdata']
    exact ⟨rfl, (absurd · hop)⟩

include hid

/-- A request is understood if and only if its checksum is right. -/
theorem understood_iff (checksum : UInt32) :
    Understood encrypt client routine r maxPayloadSize
        (sentMessage (client.flags r routine) (client.identifier r) data checksum).requestBytes ↔
      checksum = crc32 (checkedBytes (client.identifier r) data) := by
  constructor
  · intro h
    have hsent : (sentMessage (client.flags r routine) (client.identifier r) data checksum).Sent :=
      ⟨rfl, UInt8.toNat_ofNat_of_lt' hid, UInt32.toNat_ofNat_of_lt' (hdata.trans_lt hmax)⟩
    obtain ⟨message, rest, hparse, -⟩ := h .doubling [_] List.flatten_singleton
    obtain ⟨rest', hparse'⟩ := hsent.exists_parse_alone .doubling hmax hdata List.flatten_singleton
    rw [hparse] at hparse'
    split_ifs at hparse' with hverify
    exact of_decide_eq_true hverify
  · rintro rfl
    exact understood_bytes hid hmax htoken hpayload hdata

/-- A request the client accepts is written; it is understood if and only if the checksum of the
    client is right for it. -/
theorem exists_request_understood_iff (target : Target) (haccepts : client.Accepts r data routine) :
    ∃ bytes, client.request target encrypt r routine = .ok bytes ∧
      (Understood encrypt client routine r maxPayloadSize bytes ↔
        (client = .cpp → target = .software ∨
          SmallRemainder 0xFFFFFFFF (checkedBytes (client.identifier r) data))) := by
  refine ⟨_, (client.writes_request target encrypt r routine _).mpr
    ⟨hid, data, hpayload, haccepts, rfl⟩, ?_⟩
  rw [understood_iff hid hmax htoken hpayload hdata, Client.checksum_eq_iff]

end

/-- An encryption that changes nothing. -/
def plainEncryption : Encryption := fun _ data => .ok data

/-- A request for the file `a`, without a token. -/
def sampleRequest : ClientRequest := ⟨[0x61], [], [1], 0x80, none⟩

/-- With the checksum of another polynomial a request is refused. -/
theorem not_understood_of_instructions {target : Target} (h : target ≠ .software)
    (routine : Routine) :
    ∃ bytes, Client.cpp.request target plainEncryption sampleRequest routine = .ok bytes ∧
      ¬ Understood plainEncryption .cpp routine sampleRequest 0x4000000 bytes := by
  have hrefused : ∃ bytes,
      Client.cpp.request target plainEncryption sampleRequest routine = .ok bytes ∧
        LiNaProtocol.new.parseProtocolMessage .doubling 0x4000000 [bytes] =
          .error (.other "Invalid checksum") := by
    rcases target <;> rcases routine <;>
    first | exact absurd rfl h | exact ⟨_, rfl, by decide +kernel⟩
  obtain ⟨bytes, hbytes, hparse⟩ := hrefused
  refine ⟨bytes, hbytes, fun hunderstood => ?_⟩
  obtain ⟨message, rest, hparse', -⟩ := hunderstood .doubling [bytes] (List.append_nil bytes)
  exact nomatch hparse.symm.trans hparse'

/-- What a client writes for a request it accepts, with a token that is not empty and has no
    zero byte and a payload of at most `maxPayloadSize` bytes, is understood by the server if
    and only if this is not a C++ client with checksum instructions, or the bytes of which the
    checksum is taken have the same one with and without instructions. All such requests of a
    client are understood if and only if it is not a C++ client with checksum instructions. -/
theorem request_understood_iff (client : Client) (target : Target) (routine : Routine) :
    (∀ (encrypt : Encryption) (r : ClientRequest) (payload : Bytes) (maxPayloadSize : ℕ),
        (client.identifier r).length ≤ 255 → r.TokenOk →
        client.payload encrypt r routine = .ok payload → client.Accepts r payload routine →
        maxPayloadSize < 2 ^ 32 → payload.length ≤ maxPayloadSize →
        ∃ bytes, client.request target encrypt r routine = .ok bytes ∧
          (Understood encrypt client routine r maxPayloadSize bytes ↔
            (client = .cpp → target = .software ∨
              SmallRemainder 0xFFFFFFFF (checkedBytes (client.identifier r) payload)))) ∧
    ((∀ (encrypt : Encryption) (r : ClientRequest) (payload : Bytes) (maxPayloadSize : ℕ),
        (client.identifier r).length ≤ 255 → r.TokenOk →
        client.payload encrypt r routine = .ok payload → client.Accepts r payload routine →
        maxPayloadSize < 2 ^ 32 → payload.length ≤ maxPayloadSize →
        ∃ bytes, client.request target encrypt r routine = .ok bytes ∧
          Understood encrypt client routine r maxPayloadSize bytes) ↔
      (client = .cpp → target = .software)) := by
  refine ⟨?_, ?_, ?_⟩
  · intro encrypt r payload maxPayloadSize hid htoken hpayload haccepts hmax hlen
    exact exists_request_understood_iff (Nat.lt_succ_of_le hid) hmax htoken hpayload hlen target
      haccepts
  · rintro h rfl
    by_contra htarget
    obtain ⟨bytes, hbytes, hnot⟩ := not_understood_of_instructions htarget routine
    have hpayload : ∃ payload, Client.cpp.payload plainEncryption sampleRequest routine =
        .ok payload ∧ payload.length ≤ 0x4000000 := by
      cases routine <;> exact ⟨_, rfl, by decide⟩
    obtain ⟨payload, hpayload, hlen⟩ := hpayload
    obtain ⟨bytes', hbytes', hunderstood⟩ := h _ sampleRequest payload 0x4000000 (by decide) nofun
      hpayload ⟨by decide, fun _ => by decide⟩ (by decide) hlen
    obtain rfl := Except.ok.inj (hbytes.symm.trans hbytes')
    exact hnot hunderstood
  · intro htarget encrypt r payload maxPayloadSize hid htoken hpayload haccepts hmax hlen
    obtain ⟨bytes, hbytes, hiff⟩ := exists_request_understood_iff (Nat.lt_succ_of_le hid) hmax htoken
      hpayload hlen target haccepts
    exact ⟨bytes, hbytes, hiff.mpr fun hcpp => .inl (htarget hcpp)⟩

/-- A C++ client compiled for SSE 4.2 asks for the file `a`, without a token: what it sends is
    not understood. -/
theorem download_sse42_not_understood :
    (Client.cpp.identifier sampleRequest).length = 1 ∧ sampleRequest.sessionToken = none ∧
      Client.cpp.payload plainEncryption sampleRequest .download = .ok [] ∧
      Client.cpp.Accepts sampleRequest [] .download ∧
      ∃ bytes, Client.cpp.request .sse42 plainEncryption sampleRequest .download = .ok bytes ∧
        LiNaProtocol.new.parseProtocolMessage .doubling 0x4000000 [bytes] =
          .error (.other "Invalid checksum") ∧
        ¬ Understood plainEncryption .cpp .download sampleRequest 0x4000000 bytes := by
  refine ⟨rfl, rfl, rfl, ⟨by decide, nofun⟩, ?_⟩
  obtain ⟨bytes, hbytes, hnot⟩ :=
    not_understood_of_instructions (show Target.sse42 ≠ .software from nofun) .download
  refine ⟨bytes, hbytes, ?_, hnot⟩
  obtain rfl := Except.ok.inj hbytes
  decide +kernel

end LiNaStore
