import LiNaStore.Library.Crc32
import LiNaStore.Library.Stream

/-!
# How the clients read responses

What the four clients do between sending a request for a file and returning. Each reads a
header whose length it takes from the identifier it sent, not from the one in the
response, and a download then reads the data behind it.

A read at the end of the stream is a read from a closed connection. The Python and the
Java client, and downloads of the C client, read on until a buffer is full; the C++ client,
and uploads and deletions of the C client, read once and go on with what there is. The C++
client is taken as it is compiled for a processor without checksum instructions.
-/

namespace LiNaStore

/-- The kinds of errors the clients raise. -/
inductive ErrorKind
  | connection
  | protocol
  | checksum
  | client
  deriving DecidableEq, Repr

/-- Why a call did not succeed. -/
inductive ClientError
  /-- An error was raised. -/
  | raised (kind : ErrorKind) (message : String)
  /-- A result was returned that says no, with its message if it was given one. -/
  | result (message : Option String)
  /-- A size was negative, or an index was outside of a buffer. -/
  | outOfBounds
  deriving DecidableEq, Repr

/-- The message the caller gets. -/
def ClientError.message : ClientError → Option String
  | raised _ message => some message
  | result message => message
  | outOfBounds => none

/-- What reads a response. -/
abbrev ClientReader := StateT Stream (Except ClientError)

namespace ClientReader

/-- Read exactly `n` bytes. -/
def recvAll (closed : ClientError) (n : ℕ) : ClientReader Bytes := fun s =>
  match s.readExact n with
  | some got => .ok got
  | none => .error closed

/-- Read once, at most `n` bytes. -/
def recv (closed : ClientError) (n : ℕ) : ClientReader Bytes := fun s =>
  match s.read n with
  | some got => .ok got
  | none => .error closed

end ClientReader

open ClientReader

/-- The length of a header without its identifier. -/
def headerBaseLength : ℕ := 10

/-- A byte as a signed number. -/
def signedByte (b : UInt8) : Int := if b.toNat < 128 then b.toNat else (b.toNat : Int) - 256

/-- The number in the four bytes of `bytes` from the `i`-th on, as far as there are. -/
def le32At (bytes : Bytes) (i : ℕ) : ℕ := leNat ((bytes.drop i).take 4)

/-- The checksum of a response with the fields a client found. -/
def responseChecksum (ilen : UInt8) (identifier : Bytes) (dlen : ℕ) (data : Bytes) : ℕ :=
  (crc32 (ilen :: identifier ++ leBytes 4 dlen ++ data)).toNat

/-! ## Python -/

namespace Python

def recvAll (size : ℕ) : ClientReader Bytes :=
  ClientReader.recvAll (.raised .connection "Connection closed while receiving data") size

def verifyChecksum (identifier : Bytes) (length : ℕ) (data : Bytes) (checksum : ℕ) : Bool :=
  responseChecksum (.ofNat identifier.length) identifier length data = checksum

def errorMessage (code : Int) (fileName : String) : String :=
  "Server returned error code: " ++ toString code ++ " for file: " ++ fileName

/-- The end of an upload or a deletion. -/
def finish (fileName : String) (identifier : Bytes) : ClientReader Unit := do
  let resp ← recvAll (headerBaseLength + identifier.length)
  if resp.headD 0 ≠ 0 then
    throw (.raised .protocol (errorMessage (resp.headD 0).toNat fileName))
  else return

/-- The end of a download; a slice beyond the end of the header is empty. -/
def linaDownloadFile (fileName : String) (identifier : Bytes) : ClientReader Bytes := do
  let header ← recvAll (headerBaseLength + identifier.length)
  let flags := header.headD 0
  let ilenRecv := (header.getD 1 0).toNat
  let identifierRecv := (header.drop 2).take ilenRecv
  let length := le32At header (2 + ilenRecv)
  let checksum := le32At header (2 + ilenRecv + 4)
  if flags ≠ 0 then throw (.raised .protocol (errorMessage flags.toNat fileName))
  else do
    let data ← recvAll length
    if data.length < length then
      throw (.raised .protocol ("Incomplete data received: " ++ toString data.length ++ " < " ++
        toString length))
    else if verifyChecksum identifierRecv length data checksum then return data
    else throw (.raised .checksum ("Checksum verification failed for file: " ++ fileName))

end Python

/-! ## C

The messages for what goes wrong after the connection was made are written, and not put
into the result. -/

namespace C

/-- A number of bytes, as it is stored in `sock_status`. -/
def sockStatus (received : ℕ) : Int := signedByte (.ofNat received)

/-- The end of an upload or a deletion. -/
def finish (identifier : Bytes) : ClientReader Unit := do
  let headerBuf ← recv (.result none) (headerBaseLength + identifier.length)
  if sockStatus headerBuf.length ≤ 0 then throw (.result none)
  else if headerBuf.headD 0 ≠ 0 then throw (.result none)
  else return

/-- The end of a download. A block of `dlen + 1` bytes is allocated for the data and the
    zero behind it, and `dlen + 1` is a number of 32 bits. -/
def linaDownloadFile (identifier : Bytes) : ClientReader Bytes := do
  let headerLen := headerBaseLength + identifier.length
  let headerBuf ← recvAll (.result none) headerLen
  if headerBuf.headD 0 ≠ 0 then throw (.result none)
  else do
    let ilenRecv := headerBuf.getD 1 0
    let dlenOffset := 2 + ilenRecv.toNat
    if headerLen < dlenOffset + 8 then throw (.result none)
    else do
      let dlen := le32At headerBuf dlenOffset
      let checksumRecv := le32At headerBuf (dlenOffset + 4)
      if (dlen + 1) % 2 ^ 32 < dlen then throw .outOfBounds
      else do
        let dataRecv ← if dlen > 0 then recvAll (.result none) dlen else pure []
        let identifierRecv := (headerBuf.drop 2).take ilenRecv.toNat
        if responseChecksum ilenRecv identifierRecv dlen dataRecv ≠ checksumRecv then
          throw (.result none)
        else return dataRecv

end C

/-! ## C++ -/

namespace Cpp

/-- Read once into a buffer of zeros. -/
def checkRecv (len : ℕ) (context : String) : ClientReader Bytes := do
  let received ← recv (.raised .client ("Connection closed while receiving " ++ context)) len
  return received ++ List.replicate (len - received.length) 0

def errorMessage (code : Int) (fileName : String) : String :=
  "Server returned error code: " ++ toString code ++ " for file: " ++ fileName

/-- The end of an upload or a deletion. -/
def finish (fileName : String) (identifier : Bytes) : ClientReader Unit := do
  let headerBuf ← checkRecv (headerBaseLength + identifier.length) "response header"
  if headerBuf.headD 0 ≠ 0 then
    throw (.raised .client (errorMessage (signedByte (headerBuf.headD 0)) fileName))
  else return

/-- The end of a download. Nothing checks that the header has all of its fields. -/
def linaDownloadFile (fileName : String) (identifier : Bytes) : ClientReader Bytes := do
  let headerBuf ← checkRecv (headerBaseLength + identifier.length) "response header"
  if headerBuf.headD 0 ≠ 0 then
    throw (.raised .client (errorMessage (signedByte (headerBuf.headD 0)) fileName))
  else do
    let ilenRecv := headerBuf.getD 1 0
    let p := 2 + ilenRecv.toNat
    if headerBuf.length < p + 4 then throw .outOfBounds
    else do
      let dlenRecv := le32At headerBuf p
      if dlenRecv > 0 then do
        let dataRecv ← checkRecv dlenRecv "response body"
        if headerBuf.length < p + 8 then throw .outOfBounds
        else do
          let identifierRecv := (headerBuf.drop 2).take ilenRecv.toNat
          if responseChecksum ilenRecv identifierRecv dlenRecv dataRecv ≠
              le32At headerBuf (p + 4) then
            throw (.raised .client ("CRC32 checksum mismatch for file: " ++ fileName))
          else return dataRecv
      else return []

end Cpp

/-! ## Java

Bytes are signed: the length of an identifier as well. -/

namespace Java

/-- A number of 32 bits as a signed one. -/
def signedInt (n : ℕ) : Int := if n < 2 ^ 31 then n else (n : Int) - 2 ^ 32

def headerLen (identifier : Bytes) : Int :=
  headerBaseLength + signedByte (.ofNat identifier.length)

/-- Read a header; a buffer cannot have a negative size. -/
def readHeader (closed : String) (identifier : Bytes) : ClientReader Bytes :=
  if headerLen identifier < 0 then throw .outOfBounds
  else recvAll (.raised .connection closed) (headerLen identifier).toNat

/-- The end of an upload or a deletion. -/
def finish (closed intro fileName : String) (identifier : Bytes) : ClientReader Unit := do
  let response ← readHeader (closed ++ fileName) identifier
  match response with
  | [] => throw .outOfBounds
  | status :: _ =>
    if status ≠ 0 then
      throw (.raised .protocol (intro ++ toString (signedByte status) ++ " for file: " ++ fileName))
    else return

def linaUploadFile (fileName : String) (identifier : Bytes) : ClientReader Unit :=
  finish "Connection closed while reading response for file: " "Server returned error: " fileName
    identifier

def linaDeleteFile (fileName : String) (identifier : Bytes) : ClientReader Unit :=
  finish "Connection closed while reading delete response for file: "
    "Server returned error code: " fileName identifier

/-- What a download makes of a header without an error. -/
def readData (fileName : String) (header : Bytes) : ClientReader Bytes := do
  let ilenRecv := signedByte (header.getD 1 0)
  let p := 2 + ilenRecv.toNat
  if header.length < 2 ∨ ilenRecv < 0 ∨ header.length < p + 8 then throw .outOfBounds
  else do
    let identifierRecv := (header.drop 2).take ilenRecv.toNat
    let dataLength := signedInt (le32At header p)
    if dataLength < 0 then
      throw (.raised .protocol ("Invalid data length received: " ++ toString dataLength))
    else do
      let data ← recvAll (.raised .connection
        ("Connection closed while reading data for file: " ++ fileName)) dataLength.toNat
      let expected := responseChecksum (header.getD 1 0) identifierRecv dataLength.toNat data
      let received := le32At header (p + 4)
      if expected ≠ received then
        throw (.raised .checksum ("Checksum verification failed for file: " ++ fileName ++
          " (expected: " ++ toString expected ++ ", received: " ++ toString received ++ ")"))
      else return data

/-- The end of a download. -/
def linaDownloadFile (fileName : String) (identifier : Bytes) : ClientReader Bytes := do
  let header ← readHeader ("Connection closed while reading header for file: " ++ fileName)
    identifier
  match header with
  | [] => throw .outOfBounds
  | status :: _ =>
    if status ≠ 0 then
      throw (.raised .protocol ("Server returned error code: " ++ toString (signedByte status) ++
        " for file: " ++ fileName))
    else readData fileName header

end Java

/-! ## All clients -/

inductive Client
  | python
  | c
  | cpp
  | java
  deriving DecidableEq, Repr

inductive Routine
  | upload
  | download
  | delete
  deriving DecidableEq, Repr

namespace Client

/-- The end of a download, for a file with the given identifier. -/
def download (fileName : String) (identifier : Bytes) : Client → ClientReader Bytes
  | python => Python.linaDownloadFile fileName identifier
  | c => C.linaDownloadFile identifier
  | cpp => Cpp.linaDownloadFile fileName identifier
  | java => Java.linaDownloadFile fileName identifier

/-- The end of a call, without what it returns. -/
def finish (fileName : String) (identifier : Bytes) : Client → Routine → ClientReader Unit
  | client, .download => do let _ ← client.download fileName identifier
  | python, _ => Python.finish fileName identifier
  | c, _ => C.finish identifier
  | cpp, _ => Cpp.finish fileName identifier
  | java, .upload => Java.linaUploadFile fileName identifier
  | java, .delete => Java.linaDeleteFile fileName identifier

/-- The message with which a call reports a status of the server. -/
def errorMessage (fileName : String) (code : Int) : Client → Routine → String
  | c, _ => "Server returned error code: " ++ toString code
  | java, .upload => "Server returned error: " ++ toString code ++ " for file: " ++ fileName
  | _, _ => "Server returned error code: " ++ toString code ++ " for file: " ++ fileName

end Client

end LiNaStore
