import LiNaStore.Library.Crc32

/-!
# Messages

The messages of the advanced protocol and the packages the server works on. A request
and a response have the same payload: an identifier and data, each with its length, and
a checksum over both. A request begins with its flags and a response with its status.

What comes back from the bytes of a request is shown with the reader of requests.
-/

namespace LiNaStore

/-! ## Flags and operations -/

/-- The bits of the flags. -/
inductive FlagType
  | delete
  | write
  | auth
  | read
  | cover
  | compress
  | none
  deriving DecidableEq, Repr

def FlagType.bits : FlagType → UInt8
  | delete => 0xC0
  | write => 0x80
  | auth => 0x60
  | read => 0x40
  | cover => 0x02
  | compress => 0x01
  | none => 0x00

/-- The operation a request asks for. -/
inductive Op
  | none
  | read
  | write
  | delete
  | auth
  deriving DecidableEq, Repr

def Op.opMask : UInt8 := 0b11100000

def Op.opShift : UInt8 := 5

/-- The operation in the three top bits of the flags. -/
def Op.fromFlags (flags : UInt8) : Op :=
  match (flags &&& Op.opMask) >>> Op.opShift with
  | 0b010 => .read
  | 0b011 => .auth
  | 0b100 => .write
  | 0b110 => .delete
  | _ => .none

/-! ## Messages -/

/-- How a request went. -/
inductive Status
  | success
  | fileNotFound
  | storeFailed
  | fileNameInvalid
  | unauthorized
  | badRequest
  | internalError
  | none
  deriving DecidableEq, Repr

def Status.code : Status → UInt8
  | success => 0
  | fileNotFound => 1
  | storeFailed => 2
  | fileNameInvalid => 3
  | unauthorized => 4
  | badRequest => 5
  | internalError => 127
  | none => 255

structure PayLoad where
  ilen : UInt8
  identifier : Bytes
  dlen : UInt32
  checksum : UInt32
  data : Bytes
  deriving DecidableEq, Repr

/-- A request or a response; the status is only for responses. -/
structure LiNaProtocol where
  flags : UInt8
  status : Status
  payload : PayLoad
  deriving DecidableEq, Repr

namespace LiNaProtocol

def new : LiNaProtocol :=
  ⟨FlagType.none.bits, .none, ⟨0, [], 0, 0, []⟩⟩

def op (self : LiNaProtocol) : Op := Op.fromFlags self.flags

def calculateChecksum (self : LiNaProtocol) : UInt32 :=
  crc32 (self.payload.ilen :: self.payload.identifier ++
    leBytes 4 self.payload.dlen.toNat ++ self.payload.data)

/-- The message with its checksum. -/
def withChecksum (self : LiNaProtocol) : LiNaProtocol :=
  { self with payload := { self.payload with checksum := self.calculateChecksum } }

def verify (self : LiNaProtocol) : Bool := self.payload.checksum = self.calculateChecksum

/-- The bytes of a response: status, length of the identifier, identifier, length of the
    data, checksum, data. -/
def serializeProtocolMessage (self : LiNaProtocol) : Bytes :=
  [self.status.code, self.payload.ilen] ++ self.payload.identifier ++
    leBytes 4 self.payload.dlen.toNat ++ leBytes 4 self.payload.checksum.toNat ++
    self.payload.data

end LiNaProtocol

/-! ## Packages -/

/-- What a worker is to do. -/
inductive Behavior
  | getFile
  | putFile
  | deleteFile
  | none
  deriving DecidableEq, Repr

structure Content where
  flags : UInt8
  identifier : Bytes
  data : Bytes
  deriving DecidableEq, Repr

/-- An order to a worker, or its answer; `uniId` says which answer is for which order. -/
structure Package where
  status : Status
  uniId : Bytes
  behavior : Behavior
  content : Content
  deriving DecidableEq, Repr

def Package.new (uniId : Bytes) : Package := ⟨.none, uniId, .none, ⟨0x40, [], []⟩⟩

def Package.newWithId (uniId : Bytes) : Package := ⟨.none, uniId, .none, ⟨0, [], []⟩⟩

end LiNaStore
