import LiNaStore.Client.Decoding
import LiNaStore.Client.Tokens
import LiNaStore.Library.Decimal
import LiNaStore.Server.Connection

/-!
# How the clients read the response to a handshake

The response to a handshake has no identifier. Its data is a status, the token, a zero byte and the
time of expiry in decimal. All clients go through the same steps: they read the header, then the
data, look for the zero byte from the second byte on, and read the number behind it
(`HandshakeSteps.run`). They differ in how often they read, in the numbers they take the length for,
in what stands for a zero byte that is not there and in the library that reads the number.

What a client makes of the response of the server to a handshake that succeeded is the token and
the time of expiry, and these are kept, as long as the response is not too long for the client and
the time is not negative, as those of the server are; the C and the C++ client have no other numbers
(`handshake_decoded_iff`).
-/

namespace LiNaStore

open ClientReader

/-- What the standard libraries do where it depends on the version or is of no concern here. -/
structure Runtimes where
  /-- The limit of Python on the digits of a number, which cannot be set to less than 640. -/
  maxStrDigits : Option ℕ
  le_maxStrDigits : ∀ limit ∈ maxStrDigits, 640 ≤ limit
  /-- The function `int` of Python, for texts with characters beyond ASCII. -/
  int : String → Option ℤ
  /-- How Java decodes bytes, which do not have to be UTF-8. -/
  decode : Bytes → String
  decode_utf8 : ∀ text, decode (utf8 text) = text
  /-- The function `parseLong` of Java, for texts with characters beyond ASCII. -/
  parseLong : String → Option Int64

/-- Errors of the standard libraries that a client lets through. -/
inductive LibraryError
  | unicodeDecode
  | numberFormat
  deriving DecidableEq, Repr

/-! ## The common steps -/

/-- The message for a code; the codes without a message of their own have a common one. -/
def authMessage (code : ℤ) (other : String) : String :=
  if code = 1 then "Invalid password"
  else if code = 2 then "Authentication disabled"
  else if code = 127 then "Internal server error"
  else other

/-- The place of the first zero byte from the second byte on, or `missing`. -/
def nullPos (missing : ℤ) (data : Bytes) : ℤ :=
  match firstOf 0 (data.drop 1) with
  | some i => i + 1
  | none => missing

/-- Where the clients differ. -/
structure HandshakeSteps (α : Type) where
  /-- Read the header. -/
  header : ClientReader Bytes
  /-- The length of the data, as it is found in the header. -/
  dlen : Bytes → ℤ
  errorData : ℕ → ClientReader Bytes
  responseData : ℕ → ClientReader Bytes
  raise : String → ClientError
  /-- The number that is shown for a status, and that for a code. -/
  status : UInt8 → ℤ
  errorCode : UInt8 → ℤ
  handshakeStatus : UInt8 → ℤ
  /-- What stands for a zero byte that is not there. -/
  missing : ℤ
  /-- Make a session of the bytes of the token and of the time of expiry. -/
  accept : Bytes → Bytes → Except ClientError α

namespace HandshakeSteps

variable {α : Type}

/-- What is made of the data. -/
def session (h : HandshakeSteps α) (responseData : Bytes) : Except ClientError α :=
  let handshakeStatus := responseData.headD 0
  if handshakeStatus = 0 then
    let pos := nullPos h.missing responseData
    -- a place that was found is not the first, so that 0 can stand for none as well as -1
    if pos = h.missing then .error (h.raise "Invalid auth response: missing null terminator")
    else h.accept ((responseData.take pos.toNat).drop 1) (responseData.drop (pos.toNat + 1))
  else
    .error (h.raise (authMessage (h.handshakeStatus handshakeStatus)
      ("Handshake failed with status: " ++ toString (h.handshakeStatus handshakeStatus))))

def run (h : HandshakeSteps α) : ClientReader α := do
  let header ← h.header
  let status := header.headD 0
  let dlen := h.dlen header
  if status ≠ 0 then
    if dlen > 0 then do
      let errorData ← h.errorData dlen.toNat
      -- only the first byte is looked at, and it is shown as a number of its own kind
      let errorCode := h.errorCode (errorData.headD 0)
      throw (h.raise (authMessage errorCode
        ("Authentication failed with error code: " ++ toString errorCode)))
    else throw (h.raise ("Authentication failed with status: " ++ toString (h.status status)))
  else if dlen > 0 then do
    let responseData ← h.responseData dlen.toNat
    StateT.lift (h.session responseData)
  else throw (h.raise "Empty auth response received")

end HandshakeSteps

/-- All characters of the text are ASCII characters. -/
def isAscii (text : String) : Bool := text.toList.all fun c => c.toNat < 128

/-! ## Python -/

namespace Python

/-- The number in a text. -/
def int (R : Runtimes) (text : String) : Option ℤ :=
  if isAscii text then Decimal.parseInt R.maxStrDigits text.toList else R.int text

def incompleteHeader (received : ℕ) : ClientError :=
  .raised .protocol ("Incomplete header received: " ++ toString received ++ " < " ++
    toString headerBaseLength)

/-- The header is read at once. -/
def recvHeader : ClientReader Bytes := do
  let header ← recv (incompleteHeader 0) headerBaseLength
  if header.length < headerBaseLength then throw (incompleteHeader header.length)
  else return header

def acceptSession (R : Runtimes) (self : LiNaStoreClient) (token expiresAt : Bytes) :
    Except LibraryError ((String × ℤ) × LiNaStoreClient) :=
  match fromUtf8 token, fromUtf8 expiresAt with
  | some token, some expiresAtStr =>
    match int R expiresAtStr with
    | some expiresAt => .ok ((token, expiresAt),
      { self with sessionToken := some token, tokenExpiresAt := some expiresAt })
    | none => .error .numberFormat
  | _, _ => .error .unicodeDecode

def handshakeSteps (R : Runtimes) (self : LiNaStoreClient) :
    HandshakeSteps (Except LibraryError ((String × ℤ) × LiNaStoreClient)) where
  header := recvHeader
  dlen header := le32At header (2 + (header.getD 1 0).toNat)
  errorData := recvAll
  responseData := recvAll
  raise := .raised .protocol
  status code := code.toNat
  errorCode code := code.toNat
  handshakeStatus code := code.toNat
  missing := -1
  accept token expiresAt := .ok (acceptSession R self token expiresAt)

def linaHandshake (R : Runtimes) (self : LiNaStoreClient) :
    ClientReader (Except LibraryError ((String × ℤ) × LiNaStoreClient)) :=
  (handshakeSteps R self).run

end Python

/-- Bytes as the characters with these numbers; the functions of C look at ASCII only. -/
def characters (bytes : Bytes) : List Char := bytes.map fun b => .ofNat b.toNat

/-! ## C -/

namespace C

/-- Read data into a block with room for a zero byte behind it. The size of the block is a number of
    32 bits. -/
def recvBlock (closed : String) (dlen : ℕ) : ClientReader Bytes :=
  if (dlen + 1) % 2 ^ 32 < dlen then throw .outOfBounds
  else recvAll (.result (some closed)) dlen

def acceptSession (client : LiNaClient) (token expiresAt : Bytes) :
    (Bytes × UInt64) × LiNaClient :=
  let expiresAt := Decimal.strtoull (characters expiresAt)
  ((token, expiresAt), { client with sessionToken := some token, tokenExpiresAt := expiresAt })

/-- The code of an error is a signed byte. -/
def handshakeSteps (client : LiNaClient) : HandshakeSteps ((Bytes × UInt64) × LiNaClient) where
  header := recvAll (.result (some "Connection closed while receiving response header"))
    headerBaseLength
  dlen header := le32At header 2
  errorData := recvBlock "Connection closed while receiving error data"
  responseData := recvBlock "Connection closed while receiving response data"
  raise message := .result (some message)
  status code := code.toNat
  errorCode := signedByte
  handshakeStatus code := code.toNat
  missing := 0
  accept token expiresAt := .ok (acceptSession client token expiresAt)

def linaHandshake (client : LiNaClient) : ClientReader ((Bytes × UInt64) × LiNaClient) :=
  (handshakeSteps client).run

end C

/-! ## C++ -/

namespace Cpp

/-- A number that cannot be read is an error that is caught. -/
def acceptSession (self : LiNaClient) (token expiresAt : Bytes) :
    Except ClientError ((Bytes × UInt64) × LiNaClient) :=
  match Decimal.stoull (characters expiresAt) with
  | some expiresAt => .ok ((token, expiresAt),
    { self with sessionToken := token, tokenExpiresAt := expiresAt })
  | none => .error (.result (some "Unknown error during handshake"))

def handshakeSteps (self : LiNaClient) : HandshakeSteps ((Bytes × UInt64) × LiNaClient) where
  header := checkRecv headerBaseLength "handshake response header"
  dlen header := le32At header 2
  errorData dlen := checkRecv dlen "error data"
  responseData dlen := checkRecv dlen "handshake response data"
  raise message := .result (some message)
  status code := code.toNat
  errorCode code := code.toNat
  handshakeStatus code := code.toNat
  missing := 0
  accept := acceptSession self

/-- Errors that are raised become results. -/
def caught : ClientError → ClientError
  | .raised _ message => .result (some message)
  | e => e

def linaHandshake (self : LiNaClient) : ClientReader ((Bytes × UInt64) × LiNaClient) :=
  fun s => ((handshakeSteps self).run s).mapError caught

end Cpp

/-! ## Java -/

namespace Java

/-- The number in a text. -/
def parseLong (R : Runtimes) (text : String) : Option Int64 :=
  if isAscii text then Decimal.parseLong text.toList else R.parseLong text

def acceptSession (R : Runtimes) (self : LiNaStoreClient) (token expiresAt : Bytes) :
    Except LibraryError ((String × Int64) × LiNaStoreClient) :=
  match parseLong R (R.decode expiresAt) with
  | some expiresAt => .ok ((R.decode token, expiresAt),
    { self with sessionToken := some (R.decode token), tokenExpiresAt := expiresAt })
  | none => .error .numberFormat

/-- The length is a signed number, and so are the status of a header and that of a handshake. -/
def handshakeSteps (R : Runtimes) (self : LiNaStoreClient) :
    HandshakeSteps (Except LibraryError ((String × Int64) × LiNaStoreClient)) where
  header := recvAll
    (.raised .connection "Connection closed while reading authentication response") headerBaseLength
  dlen header := signedInt (le32At header 2)
  errorData := recvAll (.raised .connection "Connection closed while reading error data")
  responseData := recvAll (.raised .connection "Connection closed while reading response data")
  raise := .raised .protocol
  status := signedByte
  errorCode code := code.toNat
  handshakeStatus := signedByte
  missing := -1
  accept token expiresAt := .ok (acceptSession R self token expiresAt)

def linaHandshake (R : Runtimes) (self : LiNaStoreClient) :
    ClientReader (Except LibraryError ((String × Int64) × LiNaStoreClient)) :=
  (handshakeSteps R self).run

end Java

/-! ## All clients -/

/-- A client, with what it keeps of handshakes. -/
inductive ClientState
  | python (self : Python.LiNaStoreClient)
  | c (client : C.LiNaClient)
  | cpp (self : Cpp.LiNaClient)
  | java (self : Java.LiNaStoreClient)

/-- What a handshake returns, with texts as bytes and numbers as integers, and the client after
    it. -/
structure OpenedSession where
  token : Bytes
  expiresAt : ℤ
  client : ClientState

namespace ClientState

/-- The token and the time of expiry that the client keeps. -/
def kept : ClientState → Option Bytes × Option ℤ
  | python self => (self.sessionToken.map utf8, self.tokenExpiresAt)
  | c client => (client.sessionToken, some client.tokenExpiresAt.toNat)
  | cpp self => (some self.sessionToken, some self.tokenExpiresAt.toNat)
  | java self => (self.sessionToken.map utf8, some self.tokenExpiresAt.toInt)

def handshake (R : Runtimes) : ClientState → ClientReader (Except LibraryError OpenedSession)
  | python self => do
    let result ← Python.linaHandshake R self
    return result.map fun ((token, expiresAt), self') => ⟨utf8 token, expiresAt, python self'⟩
  | c client => do
    let ((token, expiresAt), client') ← C.linaHandshake client
    return .ok ⟨token, expiresAt.toNat, c client'⟩
  | cpp self => do
    let ((token, expiresAt), self') ← Cpp.linaHandshake self
    return .ok ⟨token, expiresAt.toNat, cpp self'⟩
  | java self => do
    let result ← Java.linaHandshake R self
    return result.map fun ((token, expiresAt), self') =>
      ⟨utf8 token, expiresAt.toInt, java self'⟩

end ClientState

/-! ## The response of the server -/

/-- The data of the response to a handshake that succeeded. -/
def handshakeData (token : String) (expiresAt : ℤ) : Bytes :=
  HandshakeStatus.success.code :: utf8 token ++ 0 :: utf8 (toString expiresAt)

/-- The size of the data. -/
def handshakeSize (token : String) (expiresAt : ℤ) : ℕ :=
  (utf8 token).length + (utf8 (toString expiresAt)).length + 2

theorem nullPos_append (missing : ℤ) (status : UInt8) {front : Bytes} (h : 0 ∉ front)
    (back : Bytes) : nullPos missing (status :: front ++ 0 :: back) = front.length + 1 := by
  rw [nullPos, List.cons_append, List.drop_one, List.tail_cons, firstOf_append h]

theorem nullPos_missing (missing : ℤ) (status : UInt8) {front : Bytes} (h : 0 ∉ front) :
    nullPos missing (status :: front) = missing := by
  rw [nullPos, List.drop_one, List.tail_cons, firstOf_of_notMem h]

theorem ClientReader.lift_apply {α : Type} (x : Except ClientError α) (s : Stream) :
    (StateT.lift x : ClientReader α) s = x.map (·, s) := by
  cases x <;> rfl

namespace HandshakeSteps

variable {α : Type} {h : HandshakeSteps α} {token : String} {expiresAt : ℤ}

theorem session_of_headD {data : Bytes} (hstatus : data.headD 0 = 0) :
    h.session data =
      if nullPos h.missing data = h.missing then
        .error (h.raise "Invalid auth response: missing null terminator")
      else h.accept ((data.take (nullPos h.missing data).toNat).drop 1)
        (data.drop ((nullPos h.missing data).toNat + 1)) :=
  if_pos hstatus

/-- The whole data is accepted. -/
theorem session_data (hmissing : h.missing ≤ 0) (htoken : '\x00' ∉ token.toList) :
    h.session (handshakeData token expiresAt) =
      h.accept (utf8 token) (utf8 (toString expiresAt)) := by
  have hnul : 0 ∉ utf8 token := fun h => htoken (zero_mem_utf8_iff.mp h)
  have hpos := nullPos_append h.missing HandshakeStatus.success.code hnul
    (utf8 (toString expiresAt))
  rw [session_of_headD rfl, handshakeData, hpos, if_neg (by omega),
    show ((utf8 token).length + 1 : ℤ).toNat = (utf8 token).length + 1 by omega]
  simp

/-- A part of the data that ends before the zero byte is not. -/
theorem session_take (htoken : '\x00' ∉ token.toList) {n : ℕ} (hpos : 0 < n)
    (hle : n ≤ (utf8 token).length + 1) :
    h.session ((handshakeData token expiresAt).take n) =
      .error (h.raise "Invalid auth response: missing null terminator") := by
  have hnul : 0 ∉ utf8 token := fun h => htoken (zero_mem_utf8_iff.mp h)
  obtain ⟨n, rfl⟩ : ∃ k, n = k + 1 := ⟨n - 1, by omega⟩
  have htake : (handshakeData token expiresAt).take (n + 1) =
      HandshakeStatus.success.code :: (utf8 token).take n := by
    rw [handshakeData, List.cons_append, List.take_succ_cons,
      List.take_append_of_le_length (by omega)]
  rw [htake, session_of_headD rfl,
    nullPos_missing _ _ fun h => hnul (List.mem_of_mem_take h), if_pos rfl]

/-- What a response without a bad status is answered with, behind its header. -/
theorem run_of_header {header : Bytes} {s s' : Stream} (hheader : h.header s = .ok (header, s'))
    (hstatus : header.headD 0 = 0) :
    h.run s =
      if h.dlen header > 0 then
        (h.responseData (h.dlen header).toNat >>= fun data => StateT.lift (h.session data)) s'
      else .error (h.raise "Empty auth response received") := by
  rw [run, bind_ok hheader, if_neg (not_not_intro hstatus)]
  split_ifs <;> rfl

/-- What a response with a bad status is answered with, behind its header. -/
theorem run_of_status {header : Bytes} {s s' : Stream} (hheader : h.header s = .ok (header, s'))
    (hstatus : header.headD 0 ≠ 0) :
    h.run s =
      if h.dlen header > 0 then
        (h.errorData (h.dlen header).toNat >>= fun errorData =>
          throw (h.raise (authMessage (h.errorCode (errorData.headD 0))
            ("Authentication failed with error code: " ++
              toString (h.errorCode (errorData.headD 0)))))) s'
      else .error (h.raise ("Authentication failed with status: " ++
        toString (h.status (header.headD 0)))) := by
  rw [run, bind_ok hheader, if_pos hstatus]
  split_ifs <;> rfl

/-- A client that reads a response that was delivered whole, of less than `bound` bytes of data. -/
structure Whole (h : HandshakeSteps α) (bound : ℕ) : Prop where
  bound_le : bound ≤ 2 ^ 32
  missing_le : h.missing ≤ 0
  header : ∀ front back : Bytes, front.length = headerBaseLength →
    h.header [front ++ back] = .ok (front, [back])
  dlen : ∀ header : Bytes, header.getD 1 0 = 0 → le32At header 2 < bound →
    h.dlen header = le32At header 2
  data : ∀ (data : Bytes) (n : ℕ), 0 < n → n ≤ data.length → n < bound →
    ∃ rest, h.responseData n [data] = .ok (data.take n, rest)
  refuse : ∀ header data : Bytes, header.getD 1 0 = 0 → bound ≤ le32At header 2 →
    h.dlen header ≤ 0 ∨ ∃ e, h.responseData (h.dlen header).toNat [data] = .error e

theorem length_handshakeData (token : String) (expiresAt : ℤ) :
    (handshakeData token expiresAt).length = handshakeSize token expiresAt := by
  rw [handshakeData, handshakeSize, List.length_append, List.length_cons, List.length_cons]
  omega

/-- The response of the server is its data behind a header. -/
theorem exists_header (token : String) (expiresAt : ℤ) :
    ∃ header : Bytes, (handshakeResponse token expiresAt).serializeProtocolMessage =
        header ++ handshakeData token expiresAt ∧ header.length = headerBaseLength ∧
      header.headD 0 = 0 ∧ header.getD 1 0 = 0 ∧
      le32At header 2 = handshakeSize token expiresAt % 2 ^ 32 := by
  have hp := parsed_header (handshakeResponse token expiresAt) []
  rw [List.append_nil] at hp
  refine ⟨(handshakeResponse token expiresAt).header, serialize_eq _, length_header _, hp.status,
    hp.ilen, hp.dlen.trans ?_⟩
  rw [← length_handshakeData]
  exact UInt32.toNat_ofNat'

/-- What is made of the response: if it is short enough, what is made of the token and the time, and
    an error otherwise. -/
theorem Whole.run_response {bound : ℕ} (hw : h.Whole bound) (htoken : '\x00' ∉ token.toList)
    (hlength : (utf8 (toString expiresAt)).length < 2 ^ 32) :
    (handshakeSize token expiresAt < bound → ∃ rest,
      h.run [(handshakeResponse token expiresAt).serializeProtocolMessage] =
        (h.accept (utf8 token) (utf8 (toString expiresAt))).map (·, rest)) ∧
    (bound ≤ handshakeSize token expiresAt → ∃ e,
      h.run [(handshakeResponse token expiresAt).serializeProtocolMessage] = .error e) := by
  obtain ⟨header, hbytes, hheader, hstatus, hilen, hdlen⟩ := exists_header token expiresAt
  have hdata := length_handshakeData token expiresAt
  have hbound := hw.bound_le
  have hsize : 0 < handshakeSize token expiresAt := Nat.succ_pos _
  rw [hbytes, run_of_header (hw.header _ _ hheader) hstatus]
  refine ⟨fun hlt => ?_, fun hge => ?_⟩
  · have hmod : handshakeSize token expiresAt % 2 ^ 32 = handshakeSize token expiresAt :=
      Nat.mod_eq_of_lt (by omega)
    obtain ⟨rest, hread⟩ := hw.data _ _ hsize hdata.ge hlt
    refine ⟨rest, ?_⟩
    rw [hw.dlen header hilen (by omega), hdlen, hmod, if_pos (by omega), Int.toNat_natCast,
      bind_ok hread, ← hdata, List.take_length, session_data hw.missing_le htoken, lift_apply]
  · by_cases hshort : le32At header 2 < bound
    · -- the length has wrapped, and the data is read up to a place before the zero byte
      rw [hw.dlen header hilen hshort, hdlen, Int.toNat_natCast]
      split_ifs with hpos
      · obtain ⟨rest, hread⟩ := hw.data (handshakeData token expiresAt)
          (handshakeSize token expiresAt % 2 ^ 32) (by omega) (by omega) (by omega)
        rw [bind_ok hread, session_take htoken (by omega) (by rw [handshakeSize] at *; omega)]
        exact ⟨_, rfl⟩
      · exact ⟨_, rfl⟩
    · rcases hw.refuse header (handshakeData token expiresAt) hilen (not_lt.mp hshort) with
        hneg | ⟨e, hread⟩
      · rw [if_neg (not_lt.mpr hneg)]
        exact ⟨_, rfl⟩
      · split_ifs
        · exact ⟨e, bind_error hread⟩
        · exact ⟨_, rfl⟩

end HandshakeSteps

/-! ## What the clients make of it -/

theorem ClientReader.recvAll_singleton (closed : ClientError) {n : ℕ} {bytes : Bytes}
    (h : n ≤ bytes.length) :
    ClientReader.recvAll closed n [bytes] = .ok (bytes.take n, [bytes.drop n]) := by
  rw [ClientReader.recvAll, Stream.readExact_singleton h]

theorem ClientReader.recv_singleton (closed : ClientError) (n : ℕ) {bytes : Bytes}
    (h : bytes ≠ []) : recv closed n [bytes] = .ok (bytes.take n, [bytes.drop n]) := by
  rw [recv, Stream.read_singleton n h]

theorem Cpp.checkRecv_singleton (context : String) {n : ℕ} {bytes : Bytes} (hpos : 0 < n)
    (h : n ≤ bytes.length) :
    checkRecv n context [bytes] = .ok (bytes.take n, [bytes.drop n]) := by
  have hne : bytes ≠ [] := List.ne_nil_of_length_pos (by omega)
  rw [checkRecv, bind_ok (recv_singleton _ n hne), List.length_take, Nat.min_eq_left h,
    Nat.sub_self, List.replicate_zero, List.append_nil]
  rfl

theorem ClientReader.recvAll_front (closed : ClientError) {n : ℕ} {front : Bytes}
    (h : front.length = n) (back : Bytes) :
    ClientReader.recvAll closed n [front ++ back] = .ok (front, [back]) := by
  rw [recvAll_singleton _ (by rw [List.length_append]; omega), List.take_left' h,
    List.drop_left' h]

theorem Python.whole_handshakeSteps (R : Runtimes) (self : LiNaStoreClient) :
    (handshakeSteps R self).Whole (2 ^ 32) where
  bound_le := Nat.le_refl _
  missing_le := show (-1 : ℤ) ≤ 0 by decide
  header front back hlength := by
    have hne : front ++ back ≠ [] := List.ne_nil_of_length_pos (by
      rw [List.length_append, hlength]
      exact Nat.add_pos_left (by decide) _)
    change recvHeader [front ++ back] = _
    rw [recvHeader, bind_ok (recv_singleton _ _ hne), List.take_left' hlength,
      List.drop_left' hlength, if_neg (by omega)]
    rfl
  dlen header hilen _ := by
    change (le32At header (2 + (header.getD 1 0).toNat) : ℤ) = _
    rw [hilen]
    rfl
  data data n _ hle _ := ⟨_, recvAll_singleton _ hle⟩
  refuse header _ _ hge := absurd (le32At_lt header 2) (not_lt.mpr hge)

theorem C.whole_handshakeSteps (client : LiNaClient) :
    (handshakeSteps client).Whole (2 ^ 32 - 1) where
  bound_le := by decide
  missing_le := Int.le_refl 0
  header _ back hlength := recvAll_front _ hlength back
  dlen _ _ _ := rfl
  data data n _ hle hlt := by
    refine ⟨[data.drop n], ?_⟩
    change recvBlock _ n [data] = _
    rw [recvBlock, if_neg (by omega)]
    exact recvAll_singleton _ hle
  refuse header data _ hge := by
    have hlt := le32At_lt header 2
    refine .inr ⟨.outOfBounds, ?_⟩
    change recvBlock _ (Int.toNat (le32At header 2)) [data] = _
    rw [Int.toNat_natCast, recvBlock, if_pos (by omega)]
    rfl

theorem Cpp.whole_handshakeSteps (self : LiNaClient) : (handshakeSteps self).Whole (2 ^ 32) where
  bound_le := Nat.le_refl _
  missing_le := Int.le_refl 0
  header front back hlength := by
    have hle : headerBaseLength ≤ (front ++ back).length := by
      rw [List.length_append]
      omega
    change checkRecv headerBaseLength _ [front ++ back] = _
    rw [checkRecv_singleton _ (by decide) hle, List.take_left' hlength, List.drop_left' hlength]
  dlen _ _ _ := rfl
  data _ _ hpos hle _ := ⟨_, checkRecv_singleton _ hpos hle⟩
  refuse header _ _ hge := absurd (le32At_lt header 2) (not_lt.mpr hge)

theorem Java.whole_handshakeSteps (R : Runtimes) (self : LiNaStoreClient) :
    (handshakeSteps R self).Whole (2 ^ 31) where
  bound_le := by decide
  missing_le := show (-1 : ℤ) ≤ 0 by decide
  header _ back hlength := recvAll_front _ hlength back
  dlen _ _ hlt := if_pos hlt
  data _ _ _ hle _ := ⟨_, recvAll_singleton _ hle⟩
  refuse header _ _ hge := by
    have hlt := le32At_lt header 2
    refine .inl ?_
    change signedInt (le32At header 2) ≤ 0
    rw [signedInt, if_neg (not_lt.mpr hge)]
    omega

/-! The time is read back, in the numbers of the client. -/

theorem isAscii_toString (n : ℤ) : isAscii (toString n) = true :=
  List.all_eq_true.mpr fun _ hc => decide_eq_true (Decimal.toNat_lt_of_mem hc)

theorem utf8_toString (n : ℤ) :
    utf8 (toString n) = (toString n).toList.map fun c => UInt8.ofNat c.toNat := by
  rw [← utf8_ofList_ascii fun c hc => Decimal.toNat_lt_of_mem hc, String.ofList_toList]

theorem characters_toString (n : ℤ) : characters (utf8 (toString n)) = (toString n).toList := by
  rw [characters, utf8_toString, List.map_map]
  refine (List.map_congr_left fun c hc => ?_).trans (List.map_id _)
  have hlt := Decimal.toNat_lt_of_mem hc
  rw [Function.comp_apply, toNat_ofNat_of_lt (by omega), Char.ofNat_toNat, id]

namespace Cpp

variable {self : LiNaClient} {s : Stream}

theorem acceptSession_eq {expiresAt : Bytes} {m : UInt64}
    (h : Decimal.stoull (characters expiresAt) = some m) (self : LiNaClient) (token : Bytes) :
    acceptSession self token expiresAt =
      .ok ((token, m), { self with sessionToken := token, tokenExpiresAt := m }) := by
  rw [acceptSession, h]

theorem exists_linaHandshake_ok {x : Except ClientError ((Bytes × UInt64) × LiNaClient)}
    {a : (Bytes × UInt64) × LiNaClient}
    (h : ∃ rest, (handshakeSteps self).run s = x.map (·, rest)) (hx : x = .ok a) :
    ∃ rest, linaHandshake self s = .ok (a, rest) := by
  obtain ⟨rest, hrun⟩ := h
  refine ⟨rest, ?_⟩
  rw [linaHandshake, hrun, hx]
  rfl

theorem exists_linaHandshake_error (h : ∃ e, (handshakeSteps self).run s = .error e) :
    ∃ e, linaHandshake self s = .error e := by
  obtain ⟨e, hrun⟩ := h
  refine ⟨caught e, ?_⟩
  rw [linaHandshake, hrun]
  rfl

end Cpp

section

variable {expiresAt : ℤ} (hmin : -2 ^ 63 ≤ expiresAt) (hmax : expiresAt < 2 ^ 63)

include hmin hmax

theorem length_utf8_toString_lt : (utf8 (toString expiresAt)).length < 2 ^ 32 := by
  rw [utf8_toString, List.length_map]
  exact (Decimal.length_toString_le (by omega)).trans_lt (by decide)

theorem Python.acceptSession_eq (R : Runtimes) (self : LiNaStoreClient) (token : String) :
    acceptSession R self (utf8 token) (utf8 (toString expiresAt)) = .ok ((token, expiresAt),
      { self with sessionToken := some token, tokenExpiresAt := some expiresAt }) := by
  have hint : int R (toString expiresAt) = some expiresAt := by
    rw [int, if_pos (isAscii_toString _)]
    refine Decimal.parseInt_toString fun limit hlimit => ?_
    have hle := R.le_maxStrDigits limit hlimit
    have hpow : 10 ^ 19 ≤ 10 ^ limit := Nat.pow_le_pow_right (by decide) (by omega)
    exact ⟨by omega, by omega⟩
  rw [acceptSession, fromUtf8_utf8, fromUtf8_utf8]
  dsimp only
  rw [hint]

theorem exists_scan_characters :
    ∃ m, Decimal.scan (characters (utf8 (toString expiresAt))) = .number m ∧
      ((m.toNat : ℤ) = expiresAt ↔ 0 ≤ expiresAt) := by
  rw [characters_toString]
  exact Decimal.exists_scan_toString hmin hmax

theorem Java.acceptSession_eq (R : Runtimes) (self : LiNaStoreClient) (token : String) :
    acceptSession R self (utf8 token) (utf8 (toString expiresAt)) =
      .ok ((token, .ofInt expiresAt),
        { self with sessionToken := some token, tokenExpiresAt := .ofInt expiresAt }) := by
  have hparse : parseLong R (toString expiresAt) = some (.ofInt expiresAt) := by
    rw [parseLong, if_pos (isAscii_toString _)]
    exact Decimal.parseLong_toString hmin hmax
  rw [acceptSession, R.decode_utf8, R.decode_utf8, hparse]

end

namespace ClientState

/-- The response, delivered whole, is decoded to the token and the time, and these are what the
    client returns and keeps. -/
def Decodes (R : Runtimes) (client : ClientState) (token : String) (expiresAt : ℤ) : Prop :=
  ∃ session rest,
    client.handshake R [(handshakeResponse token expiresAt).serializeProtocolMessage] =
      .ok (.ok session, rest) ∧
    session.token = utf8 token ∧ session.expiresAt = expiresAt ∧
    session.client.kept = (some (utf8 token), some expiresAt)

/-- The client has room for less than so many bytes of data. -/
def room : ClientState → ℕ
  | python _ => 2 ^ 32
  | c _ => 2 ^ 32 - 1
  | cpp _ => 2 ^ 32
  | java _ => 2 ^ 31

/-- The client has a number for the time. -/
def HasNumber (expiresAt : ℤ) : ClientState → Prop
  | python _ => True
  | c _ => 0 ≤ expiresAt
  | cpp _ => 0 ≤ expiresAt
  | java _ => True

/-- A client that makes `a` of a short response and nothing of a long one decodes the response if
    it is short and `a` has the token and the time. -/
theorem decodes_iff {R : Runtimes} {client : ClientState} {token : String} {expiresAt : ℤ}
    {α : Type} {r : ClientReader α} {f : α → Except LibraryError OpenedSession} {a : α} {bound : ℕ}
    (hhandshake : client.handshake R = r >>= fun a => pure (f a))
    (hshort : handshakeSize token expiresAt < bound → ∃ rest,
      r [(handshakeResponse token expiresAt).serializeProtocolMessage] = .ok (a, rest))
    (hlong : bound ≤ handshakeSize token expiresAt → ∃ e,
      r [(handshakeResponse token expiresAt).serializeProtocolMessage] = .error e) :
    client.Decodes R token expiresAt ↔ handshakeSize token expiresAt < bound ∧
      ∃ session, f a = .ok session ∧ session.token = utf8 token ∧ session.expiresAt = expiresAt ∧
        session.client.kept = (some (utf8 token), some expiresAt) := by
  rw [Decodes, hhandshake]
  rcases Nat.lt_or_ge (handshakeSize token expiresAt) bound with hlt | hge
  · obtain ⟨rest, hrun⟩ := hshort hlt
    rw [bind_ok hrun]
    constructor
    · rintro ⟨session, rest', heq, hsession⟩
      cases hf : f a with
      | ok _ =>
        rw [hf] at heq
        cases heq
        exact ⟨hlt, session, rfl, hsession⟩
      | error _ =>
        rw [hf] at heq
        cases heq
    · rintro ⟨-, session, hf, hsession⟩
      refine ⟨session, rest, ?_, hsession⟩
      rw [hf]
      rfl
  · obtain ⟨e, hrun⟩ := hlong hge
    rw [bind_error hrun]
    exact iff_of_false nofun fun h => Nat.not_lt_of_le hge h.1

/-- Of a session that is kept as it is returned, the time is to be compared. -/
theorem exists_opened_iff {token : Bytes} {number expiresAt : ℤ} {client : ClientState}
    (hkept : client.kept = (some token, some number)) :
    (∃ session : OpenedSession,
        (Except.ok ⟨token, number, client⟩ : Except LibraryError OpenedSession) = .ok session ∧
        session.token = token ∧ session.expiresAt = expiresAt ∧
        session.client.kept = (some token, some expiresAt)) ↔ number = expiresAt := by
  constructor
  · rintro ⟨_, ⟨⟩, -, heq, -⟩
    exact heq
  · rintro rfl
    exact ⟨_, rfl, rfl, rfl, hkept⟩

end ClientState

/-- For every token without a zero character and every time of 64 bits: the response to a handshake
    that succeeded, delivered whole, is decoded to these and they are kept, if and only if the
    client has room for the data and a number for the time. -/
theorem handshake_decoded_iff (R : Runtimes) (client : ClientState) {token : String}
    (htoken : '\x00' ∉ token.toList) {expiresAt : ℤ} (hmin : -2 ^ 63 ≤ expiresAt)
    (hmax : expiresAt < 2 ^ 63) :
    client.Decodes R token expiresAt ↔
      handshakeSize token expiresAt < client.room ∧ client.HasNumber expiresAt := by
  have hlength := length_utf8_toString_lt hmin hmax
  obtain ⟨m, hscan, hm⟩ := exists_scan_characters hmin hmax
  cases client with
  | python self =>
    obtain ⟨hshort, hlong⟩ := (Python.whole_handshakeSteps R self).run_response htoken hlength
    rw [ClientState.decodes_iff rfl hshort hlong, Python.acceptSession_eq hmin hmax]
    exact and_congr_right fun _ => iff_of_true ⟨_, rfl, rfl, rfl, rfl⟩ trivial
  | c client =>
    have hnumber : Decimal.strtoull (characters (utf8 (toString expiresAt))) = m := by
      rw [Decimal.strtoull, hscan]
    obtain ⟨hshort, hlong⟩ := (C.whole_handshakeSteps client).run_response htoken hlength
    rw [ClientState.decodes_iff rfl hshort hlong, C.acceptSession, hnumber]
    exact and_congr_right fun _ => (ClientState.exists_opened_iff rfl).trans hm
  | cpp self =>
    have hnumber : Decimal.stoull (characters (utf8 (toString expiresAt))) = some m := by
      rw [Decimal.stoull, hscan]
    obtain ⟨hshort, hlong⟩ := (Cpp.whole_handshakeSteps self).run_response htoken hlength
    have haccept := Cpp.acceptSession_eq hnumber self (utf8 token)
    rw [ClientState.decodes_iff rfl (fun hlt => Cpp.exists_linaHandshake_ok (hshort hlt) haccept)
      fun hge => Cpp.exists_linaHandshake_error (hlong hge)]
    exact and_congr_right fun _ => (ClientState.exists_opened_iff rfl).trans hm
  | java self =>
    obtain ⟨hshort, hlong⟩ := (Java.whole_handshakeSteps R self).run_response htoken hlength
    rw [ClientState.decodes_iff rfl hshort hlong, Java.acceptSession_eq hmin hmax]
    have hnumber := Int64.toInt_ofInt_of_le hmin hmax
    exact and_congr_right fun _ =>
      iff_of_true ((ClientState.exists_opened_iff rfl).mpr hnumber) trivial

/-- Libraries that read no numbers beyond ASCII. -/
def Runtimes.sample : Runtimes where
  maxStrDigits := some 4300
  le_maxStrDigits limit h := by
    cases h
    decide
  int _ := none
  decode := fromUtf8Lossy
  decode_utf8 := fromUtf8Lossy_utf8
  parseLong _ := none

/-- Clients without a token. -/
theorem handshake_decoded_iff_new :
    (ClientState.python ⟨none, none, 300⟩).Decodes .sample "2f9c" 1700000000 ∧
    (ClientState.c ⟨none, 0, 300⟩).Decodes .sample "2f9c" 1700000000 ∧
    (ClientState.cpp ⟨[], 0, 300⟩).Decodes .sample "2f9c" 1700000000 ∧
    (ClientState.java ⟨none, 0, 300⟩).Decodes .sample "2f9c" 1700000000 := by
  have htoken : '\x00' ∉ "2f9c".toList := by decide
  have hsize : handshakeSize "2f9c" 1700000000 = 16 := by decide
  have hdecoded (client : ClientState) :=
    handshake_decoded_iff .sample client htoken (by decide : -2 ^ 63 ≤ (1700000000 : ℤ)) (by decide)
  rw [hsize] at hdecoded
  have hnumber : (0 : ℤ) ≤ 1700000000 := by decide
  exact ⟨(hdecoded _).mpr ⟨by decide, trivial⟩, (hdecoded _).mpr ⟨by decide, hnumber⟩,
    (hdecoded _).mpr ⟨by decide, hnumber⟩, (hdecoded _).mpr ⟨by decide, trivial⟩⟩

/-- A token of the given length. -/
def longToken (n : ℕ) : String := .ofList (List.replicate n 'a')

theorem length_utf8_longToken (n : ℕ) : (utf8 (longToken n)).length = n := by
  have hascii : ∀ c ∈ List.replicate n 'a', c.toNat < 128 := fun c hc => by
    rw [List.eq_of_mem_replicate hc]
    decide
  rw [longToken, utf8_ofList_ascii hascii, List.length_map, List.length_replicate]

/-- A token of 2 GiB is too long for the Java client. -/
theorem handshake_not_decoded :
    ¬(ClientState.java ⟨none, 0, 300⟩).Decodes .sample (longToken (2 ^ 31)) 1700000000 := by
  have htoken : '\x00' ∉ (longToken (2 ^ 31)).toList := fun h => by
    rw [longToken, String.toList_ofList] at h
    exact absurd (List.eq_of_mem_replicate h) (by decide)
  have hlong : 2 ^ 31 ≤ handshakeSize (longToken (2 ^ 31)) 1700000000 := by
    rw [handshakeSize, length_utf8_longToken]
    omega
  have hlength : (utf8 (toString (1700000000 : ℤ))).length < 2 ^ 32 := by decide
  obtain ⟨hshort, hlong'⟩ :=
    (Java.whole_handshakeSteps .sample ⟨none, 0, 300⟩).run_response htoken hlength
  rw [ClientState.decodes_iff rfl hshort hlong']
  exact fun h => absurd h.1 (not_lt.mpr hlong)

end LiNaStore
