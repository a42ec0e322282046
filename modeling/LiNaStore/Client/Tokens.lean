import LiNaStore.Library.Utf8

/-!
# The tokens of the clients

What the four clients keep of a handshake, and how they tell whether the token is still good.
A token is to be renewed some seconds before it expires, so it is taken to be expired from
`now + refreshBuffer = expiresAt` on. All clients subtract the buffer from the time of expiry, each
in its own arithmetic:

* the Python client in integers without a bound, so that its answer is always right;
* the C and the C++ client in unsigned numbers of 64 bits, where a buffer that is longer than the
  time of expiry wraps around to the far future;
* the Java client in signed numbers of 64 bits, which only wrap at their ends.

Which answers are right is said by `Clocked.InRange`, and `token_expired_iff` that no others are.
-/

namespace LiNaStore

namespace Python

/-- What the client keeps of a handshake. -/
structure LiNaStoreClient where
  sessionToken : Option String
  tokenExpiresAt : Option ℤ
  refreshBuffer : ℤ
  deriving DecidableEq, Repr

/-- `currentTime` is the time in whole seconds. -/
def LiNaStoreClient.isTokenExpired (self : LiNaStoreClient) (currentTime : ℤ) : Bool :=
  match self.tokenExpiresAt with
  | none => true
  | some tokenExpiresAt => currentTime ≥ tokenExpiresAt - self.refreshBuffer

end Python

/-- The test of the C and of the C++ client; the time is a signed number of 64 bits. -/
def tokenExpired (tokenExpiresAt : UInt64) (refreshBuffer : UInt32) (currentTime : Int64) : Bool :=
  if tokenExpiresAt = 0 then true
  else currentTime.toUInt64 ≥ tokenExpiresAt - refreshBuffer.toUInt64

namespace C

structure LiNaClient where
  /-- The bytes before the zero, or the null pointer. -/
  sessionToken : Option Bytes
  tokenExpiresAt : UInt64
  refreshBuffer : UInt32
  deriving DecidableEq

/-- There may be no client to ask. -/
def isTokenExpired (client : Option LiNaClient) (currentTime : Int64) : Bool :=
  match client with
  | none => true
  | some client => tokenExpired client.tokenExpiresAt client.refreshBuffer currentTime

end C

namespace Cpp

structure LiNaClient where
  sessionToken : Bytes
  tokenExpiresAt : UInt64
  refreshBuffer : UInt32
  deriving DecidableEq

def LiNaClient.linaIsTokenExpired (self : LiNaClient) (currentTime : Int64) : Bool :=
  tokenExpired self.tokenExpiresAt self.refreshBuffer currentTime

end Cpp

namespace Java

structure LiNaStoreClient where
  sessionToken : Option String
  tokenExpiresAt : Int64
  refreshBuffer : Int32
  deriving DecidableEq

/-- The clock counts milliseconds. -/
def LiNaStoreClient.isTokenExpired (self : LiNaStoreClient) (currentTimeMillis : Int64) : Bool :=
  if self.tokenExpiresAt = 0 then true
  else currentTimeMillis / 1000 ≥ self.tokenExpiresAt - self.refreshBuffer.toInt64

end Java

/-! ## All clients -/

/-- A client, with what its clock shows. -/
inductive Clocked
  | python (client : Python.LiNaStoreClient) (currentTime : ℤ)
  | c (client : C.LiNaClient) (currentTime : Int64)
  | cpp (client : Cpp.LiNaClient) (currentTime : Int64)
  | java (client : Java.LiNaStoreClient) (currentTimeMillis : Int64)

namespace Clocked

def isTokenExpired : Clocked → Bool
  | python client currentTime => client.isTokenExpired currentTime
  | c client currentTime => C.isTokenExpired (some client) currentTime
  | cpp client currentTime => client.linaIsTokenExpired currentTime
  | java client currentTimeMillis => client.isTokenExpired currentTimeMillis

/-- The time in seconds; a number of milliseconds is rounded towards zero. -/
def now : Clocked → ℤ
  | python _ currentTime => currentTime
  | c _ currentTime => currentTime.toInt
  | cpp _ currentTime => currentTime.toInt
  | java _ currentTimeMillis => currentTimeMillis.toInt.tdiv 1000

def refreshBuffer : Clocked → ℤ
  | python client _ => client.refreshBuffer
  | c client _ => client.refreshBuffer.toNat
  | cpp client _ => client.refreshBuffer.toNat
  | java client _ => client.refreshBuffer.toInt

/-- When the token expires, if there is one. -/
def expiresAt : Clocked → Option ℤ
  | python client _ => client.tokenExpiresAt
  | c client _ => if client.tokenExpiresAt = 0 then none else some client.tokenExpiresAt.toNat
  | cpp client _ => if client.tokenExpiresAt = 0 then none else some client.tokenExpiresAt.toNat
  | java client _ => if client.tokenExpiresAt = 0 then none else some client.tokenExpiresAt.toInt

/-- In unsigned numbers: the buffer is not longer than the time of expiry; or the clock is before
    1970, which is taken for the far future, and the difference is as well or comes still later. -/
def UnsignedInRange (now buffer expiresAt : ℤ) : Prop :=
  0 ≤ now ∧ buffer ≤ expiresAt ∨
    now < 0 ∧ (expiresAt < buffer ∨ now + 2 ^ 64 < expiresAt - buffer)

/-- In signed numbers: the difference is one. -/
def SignedInRange (buffer expiresAt : ℤ) : Prop :=
  -2 ^ 63 ≤ expiresAt - buffer ∧ expiresAt - buffer < 2 ^ 63

/-- The numbers are such that the client subtracts as one does with integers. -/
def InRange (clocked : Clocked) (expiresAt : ℤ) : Prop :=
  match clocked with
  | python _ _ => True
  | c _ _ | cpp _ _ => UnsignedInRange clocked.now clocked.refreshBuffer expiresAt
  | java _ _ => SignedInRange clocked.refreshBuffer expiresAt

end Clocked

/-! ## The answers -/

/-- A signed number, taken as an unsigned one. -/
theorem toNat_toUInt64 (t : Int64) : (t.toUInt64.toNat : ℤ) = t.toInt % 2 ^ 64 := by
  have hlt : t.toBitVec.toNat < 2 ^ 64 := t.toBitVec.isLt
  change (t.toBitVec.toNat : ℤ) = t.toBitVec.toInt % 2 ^ 64
  rw [BitVec.toInt_eq_toNat_cond]
  split_ifs <;> omega

/-- Where nothing wraps the test is the one in integers, and elsewhere it is wrong. -/
theorem tokenExpired_iff {expiresAt : UInt64} (h : expiresAt ≠ 0) (buffer : UInt32)
    (now : Int64) :
    (tokenExpired expiresAt buffer now = true ↔ now.toInt + buffer.toNat ≥ expiresAt.toNat) ↔
      Clocked.UnsignedInRange now.toInt buffer.toNat expiresAt.toNat := by
  have hnow := toNat_toUInt64 now
  have hsub := UInt64.toNat_sub expiresAt buffer.toUInt64
  rw [UInt32.toNat_toUInt64] at hsub
  have hbuffer : buffer.toNat < 2 ^ 32 := buffer.toNat_lt
  have hexpires : expiresAt.toNat < 2 ^ 64 := expiresAt.toNat_lt
  have hle := now.le_toInt
  have hlt := now.toInt_lt
  rw [tokenExpired, if_neg h, decide_eq_true_iff, ge_iff_le, UInt64.le_iff_toNat_le,
    Clocked.UnsignedInRange]
  omega

namespace Java

theorem isTokenExpired_iff {client : LiNaStoreClient} (h : client.tokenExpiresAt ≠ 0)
    (millis : Int64) :
    (client.isTokenExpired millis = true ↔
        millis.toInt.tdiv 1000 + client.refreshBuffer.toInt ≥ client.tokenExpiresAt.toInt) ↔
      Clocked.SignedInRange client.refreshBuffer.toInt client.tokenExpiresAt.toInt := by
  have hle := millis.le_toInt
  have hlt := millis.toInt_lt
  -- a time in seconds is far from the ends
  have hseconds : -2 ^ 54 ≤ millis.toInt.tdiv 1000 ∧ millis.toInt.tdiv 1000 ≤ 2 ^ 54 := by
    rw [Int.tdiv_eq_ediv, show Int.sign 1000 = 1 from rfl]
    split_ifs <;> omega
  have hnow : (millis / 1000).toInt = millis.toInt.tdiv 1000 := by
    rw [Int64.toInt_div, show (1000 : Int64).toInt = 1000 from rfl]
    exact Int.bmod_eq_of_le (by omega) (by omega)
  have hsub := Int64.toInt_sub client.tokenExpiresAt client.refreshBuffer.toInt64
  rw [Int32.toInt_toInt64, Int.bmod_def] at hsub
  have hexpires := client.tokenExpiresAt.le_toInt
  have hexpires' := client.tokenExpiresAt.toInt_lt
  have hbuffer := client.refreshBuffer.le_toInt
  have hbuffer' := client.refreshBuffer.toInt_lt
  rw [LiNaStoreClient.isTokenExpired, if_neg h, decide_eq_true_iff, ge_iff_le,
    Int64.le_iff_toInt_le, hnow, Clocked.SignedInRange]
  omega

end Java

/-- A client with a token tells that it is expired exactly from the time on that leaves no more than
    the buffer, if and only if its numbers are in range. -/
theorem token_expired_iff (clocked : Clocked) {expiresAt : ℤ}
    (h : clocked.expiresAt = some expiresAt) :
    (clocked.isTokenExpired = true ↔ clocked.now + clocked.refreshBuffer ≥ expiresAt) ↔
      clocked.InRange expiresAt := by
  cases clocked with
  | python client currentTime =>
    refine iff_of_true ?_ trivial
    change client.isTokenExpired currentTime = true ↔ _
    rw [Python.LiNaStoreClient.isTokenExpired, show client.tokenExpiresAt = _ from h,
      decide_eq_true_iff]
    exact sub_le_iff_le_add
  | c client currentTime =>
    obtain ⟨hne, ⟨⟩⟩ := Option.ite_none_left_eq_some.mp h
    exact tokenExpired_iff hne client.refreshBuffer currentTime
  | cpp client currentTime =>
    obtain ⟨hne, ⟨⟩⟩ := Option.ite_none_left_eq_some.mp h
    exact tokenExpired_iff hne client.refreshBuffer currentTime
  | java client currentTimeMillis =>
    obtain ⟨hne, ⟨⟩⟩ := Option.ite_none_left_eq_some.mp h
    exact Java.isTokenExpired_iff hne currentTimeMillis

/-- A token that is good for a day, five minutes before the end of it. -/
theorem token_expired_iff_soon :
    (Clocked.c ⟨some [97], 1700086400, 300⟩ 1700086100).isTokenExpired = true :=
  ((token_expired_iff (.c ⟨some [97], 1700086400, 300⟩ 1700086100) rfl).mpr
    (.inl ⟨by decide, by decide⟩)).mpr (by decide)

/-- A token that expired long ago, earlier than its buffer is long, is taken to be good by the C and
    the C++ client. -/
theorem token_expired_wraps :
    (Clocked.c ⟨some [97], 100, 300⟩ 1700000000).isTokenExpired = false ∧
    (Clocked.cpp ⟨[97], 100, 300⟩ 1700000000).isTokenExpired = false ∧
    (1700000000 : ℤ) + 300 ≥ 100 ∧
    (Clocked.java ⟨some "a", 100, 300⟩ 1700000000000).isTokenExpired = true ∧
    (Clocked.python ⟨some "a", some 100, 300⟩ 1700000000).isTokenExpired = true := by
  decide

end LiNaStore
