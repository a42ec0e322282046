import LiNaStore.Library.CrcPolynomial

/-!
# The checksums of the C and the C++ client

Both clients look CRC-32 up in a table that they build themselves: the C client for every
context, with a loop that ends when an 8-bit index is back at 0, and the C++ client once for
all objects. A context takes in a message piece by piece and is ready for the next one when
the checksum is read. Whatever the messages and their pieces are, the checksums are CRC-32
bit by bit (`table_checksums_exact`).

With the checksum instructions of a processor the C++ client takes the same pieces in, but
modulo another polynomial. The two checksums are then equal if and only if the message has a
small remainder modulo the product of both polynomials (`hardware_agrees_iff`).
-/

namespace LiNaStore

/-! ## A context for message after message -/

section

variable {σ α : Type*}

/-- The checksums of messages that are taken in one after the other, each in pieces, and
    what the context is after the last one. -/
def checksums (update : σ → Bytes → σ) (finalize : σ → α × σ) :
    σ → List (List Bytes) → List α × σ
  | s, [] => ([], s)
  | s, message :: messages =>
    let (checksum, s) := finalize (message.foldl update s)
    let (rest, s) := checksums update finalize s messages
    (checksum :: rest, s)

/-- A context that is itself again after every message gives each one its own checksum. -/
theorem checksums_eq {update : σ → Bytes → σ} {finalize : σ → α × σ} {s : σ} {f : Bytes → α}
    (h : ∀ message : List Bytes, finalize (message.foldl update s) = (f message.flatten, s))
    (messages : List (List Bytes)) :
    checksums update finalize s messages = (messages.map fun m => f m.flatten, s) := by
  induction messages with
  | nil => rfl
  | cons message messages ih =>
    simp only [checksums, h, ih, List.map_cons]

/-- Taking in piece by piece is taking in everything. -/
theorem foldl_update_eq (put : UInt32 → σ) {update : σ → Bytes → σ}
    {step : UInt32 → UInt8 → UInt32}
    (h : ∀ crc data, update (put crc) data = put (data.foldl step crc)) (crc : UInt32)
    (message : List Bytes) :
    message.foldl update (put crc) = put (message.flatten.foldl step crc) := by
  induction message generalizing crc with
  | nil => rfl
  | cons data message ih =>
    rw [List.foldl_cons, h, ih, List.flatten_cons, List.foldl_append]

end

theorem toUInt8_and_mask (a : UInt32) : (a &&& 0xFF).toUInt8 = a.toUInt8 := by
  rw [UInt32.toUInt8_and]
  exact UInt8.and_neg_one

theorem crc32_eq_not (bytes : Bytes) : crc32 bytes = ~~~bytes.foldl crcByte 0xFFFFFFFF := by
  rw [← UInt32.xor_neg_one]
  rfl

/-! ## C -/

namespace C

theorem toNat_add_one {index : UInt8} (h : ¬ index + 1 = 0) :
    (index + 1).toNat = index.toNat + 1 := by
  have hlt := index.toNat_lt
  have hne : (index + 1).toNat ≠ 0 := fun h0 => h (UInt8.toNat_inj.mp h0)
  rw [UInt8.toNat_add] at hne ⊢
  change (index.toNat + 1) % 2 ^ 8 ≠ 0 at hne
  change (index.toNat + 1) % 2 ^ 8 = index.toNat + 1
  omega

/-- A context. -/
structure Crc32 where
  value : UInt32
  table : UInt8 → UInt32

/-- The loop that builds the table. It ends when the index overflows. -/
def fillTable (index : UInt8) (table : UInt8 → UInt32) : UInt8 → UInt32 :=
  let table := Function.update table index index.toUInt32
  let table :=
    Nat.iterate (fun table => Function.update table index (crcShift (table index))) 8 table
  if index + 1 = 0 then table else fillTable (index + 1) table
termination_by 256 - index.toNat
decreasing_by
  have hnext := toNat_add_one ‹_›
  have hlt := index.toNat_lt
  omega

namespace Crc32

def init : Crc32 := ⟨0xFFFFFFFF, fillTable 0 fun _ => 0⟩

def update (crc32 : Crc32) (data : Bytes) : Crc32 :=
  data.foldl (fun crc32 byte =>
    { crc32 with
      value := (crc32.value >>> 8) ^^^
        crc32.table ((crc32.value &&& 0xFF) ^^^ byte.toUInt32).toUInt8 }) crc32

def finalize (crc32 : Crc32) : UInt64 × Crc32 :=
  let result := ~~~crc32.value
  (result.toUInt64, { crc32 with value := 0xFFFFFFFF })

end Crc32

/-- Writing one entry again and again is writing it once. -/
theorem iterate_update (f : UInt32 → UInt32) (k : ℕ) (table : UInt8 → UInt32) (index : UInt8)
    (a : UInt32) :
    (fun table => Function.update table index (f (table index)))^[k]
        (Function.update table index a) = Function.update table index (f^[k] a) := by
  induction k generalizing a with
  | zero => rfl
  | succ k ih =>
    rw [Function.iterate_succ_apply, Function.iterate_succ_apply, Function.update_self,
      Function.update_idem, ih]

/-- Each turn of the loop fills one entry. -/
theorem fillTable_eq (index : UInt8) (table : UInt8 → UInt32) :
    fillTable index table =
      if index + 1 = 0 then Function.update table index (crcTable index)
      else fillTable (index + 1) (Function.update table index (crcTable index)) := by
  rw [fillTable, iterate_update, ← crcTable]

/-- From an index on, the entries are those of the table for CRC-32. -/
theorem fillTable_apply (index : UInt8) (table : UInt8 → UInt32) (i : UInt8) :
    fillTable index table i = if index.toNat ≤ i.toNat then crcTable i else table i := by
  have hi := i.toNat_lt
  -- on how far the index is from its overflow
  induction hk : 255 - index.toNat generalizing index table with
  | zero =>
    have hlast : index.toNat = 255 := by
      have hlt := index.toNat_lt
      omega
    have hover : index + 1 = 0 := by
      rw [UInt8.toNat_inj.mp (hlast.trans (show 255 = (255 : UInt8).toNat from rfl))]
      rfl
    rw [fillTable_eq, if_pos hover, Function.update_apply]
    by_cases heq : i = index
    · rw [if_pos heq, heq, if_pos le_rfl]
    · have hne : i.toNat ≠ index.toNat := mt UInt8.toNat_inj.mp heq
      rw [if_neg heq, if_neg (by omega)]
  | succ k ih =>
    have hmore : ¬ index + 1 = 0 := by
      intro h0
      have hnat := congrArg UInt8.toNat h0
      rw [UInt8.toNat_add] at hnat
      change (index.toNat + 1) % 2 ^ 8 = 0 at hnat
      omega
    have hnext := toNat_add_one hmore
    rw [fillTable_eq, if_neg hmore, ih _ _ (by omega), hnext, Function.update_apply]
    rcases lt_trichotomy index.toNat i.toNat with h | h | h
    · rw [if_pos (Nat.succ_le_of_lt h), if_pos h.le]
    · rw [if_neg (by omega), if_pos (UInt8.toNat_inj.mp h.symm), if_pos h.le,
        UInt8.toNat_inj.mp h]
    · have hne : i ≠ index := fun heq => h.ne (congrArg UInt8.toNat heq)
      rw [if_neg (by omega), if_neg hne, if_neg (by omega)]

theorem Crc32.table_init : Crc32.init.table = crcTable := by
  funext i
  change fillTable 0 (fun _ => 0) i = crcTable i
  rw [fillTable_apply]
  exact if_pos (Nat.zero_le _)

/-- A context with the right table computes CRC-32. -/
theorem Crc32.update_eq (value : UInt32) (data : Bytes) :
    Crc32.update ⟨value, crcTable⟩ data = ⟨data.foldl crcByte value, crcTable⟩ := by
  induction data generalizing value with
  | nil => rfl
  | cons b data ih =>
    have hbyte : (value >>> 8) ^^^ crcTable ((value &&& 0xFF) ^^^ b.toUInt32).toUInt8 =
        crcByte value b := by
      rw [crcByte_eq_crcTable, UInt32.toUInt8_xor, toUInt8_and_mask, UInt8.toUInt8_toUInt32]
    rw [List.foldl_cons, ← hbyte]
    exact ih _

/-- A message gives its checksum, and the context is new again. -/
theorem Crc32.finalize_message (message : List Bytes) :
    (message.foldl Crc32.update Crc32.init).finalize =
      ((crc32 message.flatten).toUInt64, Crc32.init) := by
  have hinit : Crc32.init = ⟨0xFFFFFFFF, crcTable⟩ := by
    rw [← table_init]
    rfl
  have hfold := foldl_update_eq (Crc32.mk · crcTable) update_eq 0xFFFFFFFF message
  rw [hinit, hfold, crc32_eq_not]
  rfl

end C

/-! ## C++ -/

/-- What a C++ client was compiled for: a processor without checksum instructions, one with
    those of SSE 4.2, or one with those of ARM. -/
inductive Target
  | software
  | sse42
  | armCrc
  deriving DecidableEq, Repr

namespace Cpp

/-- The part of the data that is processed in blocks of eight bytes. -/
def blocksOfEight (data : Bytes) : Bytes := data.take (data.length / 8 * 8)

def remaining (data : Bytes) : Bytes := data.drop (data.length / 8 * 8)

def crc32Hw (data : Bytes) (crc : UInt32) : UInt32 :=
  (remaining data).foldl (fun crc byte => crc32cBytes crc [byte])
    ((chunks 8 (blocksOfEight data)).foldl crc32cBytes crc)

/-- There is an instruction for four bytes here as well. -/
def crc32Arm (data : Bytes) (crc : UInt32) : UInt32 :=
  let crc := (chunks 8 (blocksOfEight data)).foldl crc32cBytes crc
  let ptr := remaining data
  if data.length % 8 ≥ 4 then
    (ptr.drop 4).foldl (fun crc byte => crc32cBytes crc [byte]) (crc32cBytes crc (ptr.take 4))
  else ptr.foldl (fun crc byte => crc32cBytes crc [byte]) crc

/-- What all objects share. -/
structure Statics where
  table : UInt8 → UInt32
  tableInitialized : Bool

def Statics.start : Statics := ⟨fun _ => 0, false⟩

def initTable (table : UInt8 → UInt32) : UInt8 → UInt32 :=
  (List.range 256).foldl (fun table i =>
    Function.update table (UInt8.ofNat i) (Nat.iterate crcShift 8 (UInt32.ofNat i))) table

/-- One byte of the software fallback, with the table there is. -/
def stepWith (table : UInt8 → UInt32) (crc : UInt32) (byte : UInt8) : UInt32 :=
  table ((crc ^^^ byte.toUInt32) &&& 0xFF).toUInt8 ^^^ (crc >>> 8)

/-- The loop for eight bytes at a time: the checksum, and where it stops. -/
def unrolled (table : UInt8 → UInt32) (data : Bytes) (ptr : ℕ) (crc : UInt32) : UInt32 × ℕ :=
  if h : ptr + 8 ≤ data.length then
    let crc := stepWith table crc data[ptr]
    let crc := stepWith table crc data[ptr + 1]
    let crc := stepWith table crc data[ptr + 2]
    let crc := stepWith table crc data[ptr + 3]
    let crc := stepWith table crc data[ptr + 4]
    let crc := stepWith table crc data[ptr + 5]
    let crc := stepWith table crc data[ptr + 6]
    let crc := stepWith table crc data[ptr + 7]
    unrolled table data (ptr + 8) crc
  else (crc, ptr)
termination_by data.length - ptr

/-- The loop for the remaining bytes. -/
def tail (table : UInt8 → UInt32) (data : Bytes) (ptr : ℕ) (crc : UInt32) : UInt32 :=
  if h : ptr < data.length then tail table data (ptr + 1) (stepWith table crc data[ptr])
  else crc
termination_by data.length - ptr

/-- An object. -/
structure Crc32 where
  crc : UInt32

namespace Crc32

/-- The constructor. The first object builds the table. -/
def new (statics : Statics) : Crc32 × Statics :=
  (⟨0xFFFFFFFF⟩,
    if statics.tableInitialized then statics else ⟨initTable statics.table, true⟩)

def update (target : Target) (statics : Statics) (self : Crc32) (data : Bytes) : Crc32 :=
  if data = [] then self
  else match target with
    | .sse42 => ⟨crc32Hw data self.crc⟩
    | .armCrc => ⟨crc32Arm data self.crc⟩
    | .software =>
      let (crc, ptr) := unrolled statics.table data 0 self.crc
      ⟨tail statics.table data ptr crc⟩

def finalize (self : Crc32) : UInt32 × Crc32 :=
  let result := ~~~self.crc
  (result, ⟨0xFFFFFFFF⟩)

/-- The checksum of a message that is taken in piece by piece. -/
def checksum (target : Target) (statics : Statics) (self : Crc32) (message : List Bytes) :
    UInt32 :=
  (message.foldl (update target statics) self).finalize.1

end Crc32

/-- What objects share after the first one and `n` more were made. -/
def Statics.built (n : ℕ) : Statics := (fun statics => (Crc32.new statics).2)^[n + 1] .start

/-! ### The table -/

theorem foldl_update_range_apply (table : UInt8 → UInt32) (index : UInt8) {n : ℕ}
    (hn : n ≤ 256) :
    (List.range n).foldl (fun table i =>
        Function.update table (UInt8.ofNat i) (crcShift^[8] (UInt32.ofNat i))) table index =
      if index.toNat < n then crcTable index else table index := by
  induction n with
  | zero => rfl
  | succ n ih =>
    have hnat : (UInt8.ofNat n).toNat = n := UInt8.toNat_ofNat_of_lt hn
    rw [List.range_succ, List.foldl_append, List.foldl_cons, List.foldl_nil,
      Function.update_apply, ih (by omega)]
    by_cases hi : index = UInt8.ofNat n
    · have hentry : UInt32.ofNat n = index.toUInt32 := by
        rw [hi, ← UInt32.toNat_inj, UInt8.toNat_toUInt32, hnat]
        exact UInt32.toNat_ofNat_of_lt (Nat.lt_of_lt_of_le hn (by decide))
      rw [if_pos hi, if_pos (by rw [hi, hnat]; exact Nat.lt_succ_self n), hentry, crcTable]
    · have hne : index.toNat ≠ n := fun h => hi (UInt8.toNat_inj.mp (h.trans hnat.symm))
      rw [if_neg hi]
      by_cases hlt : index.toNat < n
      · rw [if_pos hlt, if_pos (by omega)]
      · rw [if_neg hlt, if_neg (by omega)]

theorem initTable_eq (table : UInt8 → UInt32) : initTable table = crcTable := by
  funext index
  rw [initTable, foldl_update_range_apply table index le_rfl, if_pos index.toNat_lt]

/-- The first object builds the table, and later ones find it. -/
theorem Statics.built_eq (n : ℕ) : Statics.built n = ⟨crcTable, true⟩ := by
  induction n with
  | zero =>
    rw [built, Function.iterate_one]
    exact congrArg (Statics.mk · true) (initTable_eq _)
  | succ n ih =>
    rw [built] at ih
    rw [built, Function.iterate_succ_apply', ih]
    rfl

/-! ### The loops -/

section

variable {table : UInt8 → UInt32} {data : Bytes}

theorem drop_eq_eight {ptr : ℕ} (h : ptr + 8 ≤ data.length) :
    data.drop ptr = data[ptr] :: data[ptr + 1] :: data[ptr + 2] :: data[ptr + 3] ::
      data[ptr + 4] :: data[ptr + 5] :: data[ptr + 6] :: data[ptr + 7] ::
      data.drop (ptr + 8) := by
  rw [List.drop_eq_getElem_cons, List.drop_eq_getElem_cons, List.drop_eq_getElem_cons,
    List.drop_eq_getElem_cons, List.drop_eq_getElem_cons, List.drop_eq_getElem_cons,
    List.drop_eq_getElem_cons, List.drop_eq_getElem_cons]

/-- What the unrolled loop leaves is what the bytes before its end have done. -/
theorem foldl_drop_unrolled (ptr : ℕ) (crc : UInt32) :
    (data.drop (unrolled table data ptr crc).2).foldl (stepWith table)
        (unrolled table data ptr crc).1 =
      (data.drop ptr).foldl (stepWith table) crc := by
  fun_induction unrolled table data ptr crc with
  | case1 ptr crc h _ _ _ _ _ _ _ _ ih =>
    rw [ih, drop_eq_eight h]
    simp only [List.foldl_cons]
    rfl
  | case2 ptr crc h => rfl

theorem tail_eq (ptr : ℕ) (crc : UInt32) :
    tail table data ptr crc = (data.drop ptr).foldl (stepWith table) crc := by
  fun_induction tail table data ptr crc with
  | case1 ptr crc h ih =>
    rw [ih, List.drop_eq_getElem_cons h]
    rfl
  | case2 ptr crc h =>
    rw [List.drop_eq_nil_of_le (not_lt.mp h)]
    rfl

end

theorem stepWith_crcTable : stepWith crcTable = crcByte := by
  funext crc byte
  rw [crcByte_eq_crcTable, stepWith, toUInt8_and_mask, UInt32.toUInt8_xor,
    UInt8.toUInt8_toUInt32, UInt32.xor_comm]

/-! ### The objects -/

theorem Crc32.update_software (n : ℕ) (crc : UInt32) (data : Bytes) :
    Crc32.update .software (.built n) ⟨crc⟩ data = ⟨data.foldl crcByte crc⟩ := by
  rw [update]
  split
  case isTrue h => rw [h, List.foldl_nil]
  case isFalse h =>
    simp only [tail_eq, foldl_drop_unrolled, List.drop_zero]
    rw [Statics.built_eq, stepWith_crcTable]

theorem foldl_crc32cBytes (pieces : List Bytes) (crc : UInt32) :
    pieces.foldl crc32cBytes crc = crc32cBytes crc pieces.flatten :=
  (List.foldl_flatten ..).symm

theorem foldl_crc32cBytes_singleton (bytes : Bytes) (crc : UInt32) :
    bytes.foldl (fun crc byte => crc32cBytes crc [byte]) crc = crc32cBytes crc bytes := rfl

theorem crc32cBytes_append (crc : UInt32) (front back : Bytes) :
    crc32cBytes (crc32cBytes crc front) back = crc32cBytes crc (front ++ back) :=
  (List.foldl_append ..).symm

theorem crc32Hw_eq (data : Bytes) (crc : UInt32) : crc32Hw data crc = crc32cBytes crc data := by
  rw [crc32Hw, foldl_crc32cBytes_singleton, foldl_crc32cBytes, flatten_chunks (by decide),
    crc32cBytes_append, blocksOfEight, remaining, List.take_append_drop]

theorem crc32Arm_eq (data : Bytes) (crc : UInt32) :
    crc32Arm data crc = crc32cBytes crc data := by
  have hall : crc32cBytes crc (blocksOfEight data ++ remaining data) = crc32cBytes crc data := by
    rw [blocksOfEight, remaining, List.take_append_drop]
  simp only [crc32Arm, foldl_crc32cBytes_singleton, foldl_crc32cBytes,
    flatten_chunks (show 0 < 8 by decide), crc32cBytes_append, List.append_assoc,
    List.take_append_drop, hall, ite_self]

/-- With instructions for checksums, another polynomial is used. -/
theorem Crc32.update_hardware {target : Target} (htarget : target ≠ .software)
    (statics : Statics) (crc : UInt32) (data : Bytes) :
    Crc32.update target statics ⟨crc⟩ data =
      ⟨data.foldl (fun crc b => crc32cBytes crc [b]) crc⟩ := by
  unfold update
  split
  case isTrue h => rw [h, List.foldl_nil]
  case isFalse h =>
    cases target with
    | software => exact absurd rfl htarget
    | sse42 => exact congrArg Crc32.mk (crc32Hw_eq data crc)
    | armCrc => exact congrArg Crc32.mk (crc32Arm_eq data crc)

theorem Crc32.finalize_message (n : ℕ) (crc : UInt32) (message : List Bytes) :
    (message.foldl (update .software (.built n)) ⟨crc⟩).finalize =
      (~~~message.flatten.foldl crcByte crc, ⟨0xFFFFFFFF⟩) := by
  rw [foldl_update_eq Crc32.mk (update_software n)]
  rfl

theorem Crc32.checksum_software (n : ℕ) (self : Crc32) (message : List Bytes) :
    self.checksum .software (.built n) message = ~~~message.flatten.foldl crcByte self.crc := by
  rw [checksum, finalize_message n self.crc message]

theorem Crc32.checksum_hardware {target : Target} (htarget : target ≠ .software)
    (statics : Statics) (self : Crc32) (message : List Bytes) :
    self.checksum target statics message = ~~~crc32cBytes self.crc message.flatten := by
  have hfold := foldl_update_eq Crc32.mk (update_hardware htarget statics) self.crc message
  rw [checksum, hfold]
  rfl

/-- The checksum does not depend on the pieces. -/
theorem Crc32.checksum_flatten (target : Target) (n : ℕ) (self : Crc32) (message : List Bytes) :
    self.checksum target (.built n) message =
      self.checksum target (.built n) [message.flatten] := by
  by_cases htarget : target = .software
  · rw [htarget, checksum_software, checksum_software, List.flatten_singleton]
  · rw [checksum_hardware htarget, checksum_hardware htarget, List.flatten_singleton]

end Cpp

/-! ## CRC-32 -/

/-- Whatever the messages are and in which pieces they are taken in, the C client and the
    software fallback of the C++ client compute CRC-32, and the context is new after each. -/
theorem table_checksums_exact (messages : List (List Bytes)) (n : ℕ) :
    checksums C.Crc32.update C.Crc32.finalize C.Crc32.init messages =
      (messages.map fun message => (crc32 message.flatten).toUInt64, C.Crc32.init) ∧
    ∀ statics, checksums (Cpp.Crc32.update .software (.built n)) Cpp.Crc32.finalize
        (Cpp.Crc32.new statics).1 messages =
      (messages.map fun message => crc32 message.flatten, (Cpp.Crc32.new statics).1) := by
  refine ⟨checksums_eq (f := fun bytes => (crc32 bytes).toUInt64) C.Crc32.finalize_message
    messages, ?_⟩
  intro statics
  refine checksums_eq (f := crc32) ?_ messages
  intro message
  rw [crc32_eq_not]
  exact Cpp.Crc32.finalize_message n 0xFFFFFFFF message

/-! ## CRC-32 and CRC-32C -/

open CrcRegister

theorem isCoprime_generators : IsCoprime (generator 0xEDB88320) (generator 0x82F63B78) := by
  -- the factor of the difference, found with the Euclidean algorithm
  have htimes : times 0xEDB88320 (0xEDB88320 ^^^ 0x82F63B78)
      [false, true, true, true, false, true, true, true, false, false, false, true, true, true,
        true, true, false, true, true, true, false, true, false, false, true, false, true, true,
        false, true, true, true] = 0x80000000 := by
    decide +kernel
  exact isCoprime_generator htimes

/-- The remainder of the message modulo the product of both polynomials is already one modulo
    each of them. -/
def SmallRemainder (crc : UInt32) (bytes : Bytes) : Prop :=
  (message crc bytes %ₘ (generator 0xEDB88320 * generator 0x82F63B78)).degree < (32 : ℕ)

theorem crc32cBytes_eq_iff (crc : UInt32) (bytes : Bytes) :
    crc32cBytes crc bytes = bytes.foldl crcByte crc ↔ SmallRemainder crc bytes :=
  eq_comm.trans (takeIn_eq_iff isCoprime_generators crc bytes)

/-- The checksum is that of the server if and only if it is computed without instructions, or the
    message has a small remainder. -/
theorem Cpp.Crc32.checksum_eq_iff (target : Target) (n : ℕ) (self : Cpp.Crc32)
    (message : List Bytes) :
    self.checksum target (.built n) message = ~~~message.flatten.foldl crcByte self.crc ↔
      target = .software ∨ SmallRemainder self.crc message.flatten := by
  by_cases htarget : target = .software
  · rw [htarget, checksum_software]
    exact iff_of_true rfl (Or.inl rfl)
  · rw [checksum_hardware htarget, UInt32.not_inj, crc32cBytes_eq_iff, or_iff_right htarget]

/-- A C++ client with checksum instructions has the checksum of the software fallback, which
    is that of the server, if and only if the message has a small remainder. -/
theorem hardware_agrees_iff (target : Target) (n : ℕ) (self : Cpp.Crc32)
    (message : List Bytes) :
    (self.checksum target (.built n) message = self.checksum .software (.built n) message ↔
      target = .software ∨ SmallRemainder self.crc message.flatten) ∧
    ∀ statics, (Cpp.Crc32.new statics).1.checksum target (.built n) message =
        crc32 message.flatten ↔
      target = .software ∨ SmallRemainder 0xFFFFFFFF message.flatten := by
  refine ⟨?_, ?_⟩
  · rw [Cpp.Crc32.checksum_software]
    exact Cpp.Crc32.checksum_eq_iff target n self message
  · intro statics
    rw [crc32_eq_not]
    exact Cpp.Crc32.checksum_eq_iff target n ⟨0xFFFFFFFF⟩ message

/-- The nine digits have different checksums. -/
theorem hardware_differs :
    (Cpp.Crc32.new .start).1.checksum .sse42 (.built 0)
        [[0x31, 0x32, 0x33, 0x34, 0x35, 0x36, 0x37, 0x38, 0x39]] = 0xE3069283 ∧
    (Cpp.Crc32.new .start).1.checksum .armCrc (.built 0)
        [[0x31, 0x32, 0x33, 0x34, 0x35, 0x36, 0x37, 0x38, 0x39]] = 0xE3069283 ∧
    (Cpp.Crc32.new .start).1.checksum .software (.built 0)
        [[0x31, 0x32, 0x33, 0x34, 0x35, 0x36, 0x37, 0x38, 0x39]] = 0xCBF43926 ∧
    crc32 [0x31, 0x32, 0x33, 0x34, 0x35, 0x36, 0x37, 0x38, 0x39] = 0xCBF43926 := by
  rw [Cpp.Crc32.checksum_hardware (by decide), Cpp.Crc32.checksum_hardware (by decide),
    Cpp.Crc32.checksum_software]
  decide +kernel

end LiNaStore
