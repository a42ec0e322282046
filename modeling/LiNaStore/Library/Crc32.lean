import LiNaStore.Library.Bytes

/-!
# CRC-32

The checksum with the reflected polynomial `0xEDB88320`, one bit at a time. As shifting is
linear, the eight shifts for a byte can be looked up in a table of 256 numbers
(`crcByte_eq_crcTable`).

CRC-32C is the same with another polynomial. It is what the instructions of processors
compute that have one for checksums.
-/

namespace LiNaStore

/-- Shift one bit out. -/
def crcShift (crc : UInt32) : UInt32 :=
  if crc &&& 1 = 1 then (crc >>> 1) ^^^ 0xEDB88320 else crc >>> 1

/-- Take one byte in. -/
def crcByte (crc : UInt32) (b : UInt8) : UInt32 :=
  Nat.iterate crcShift 8 (crc ^^^ b.toUInt32)

/-- The checksum of bytes. -/
def crc32 (bytes : Bytes) : UInt32 := bytes.foldl crcByte 0xFFFFFFFF ^^^ 0xFFFFFFFF

example : crc32 [0x31, 0x32, 0x33, 0x34, 0x35, 0x36, 0x37, 0x38, 0x39] = 0xCBF43926 := by
  decide +kernel

/-! ## CRC-32C -/

/-- Shift one bit out. -/
def crc32cShift (crc : UInt32) : UInt32 :=
  if crc &&& 1 = 1 then (crc >>> 1) ^^^ 0x82F63B78 else crc >>> 1

/-- Take bytes in, as one instruction for all of them or one for each. -/
def crc32cBytes (crc : UInt32) (bytes : Bytes) : UInt32 :=
  bytes.foldl (fun crc b => Nat.iterate crc32cShift 8 (crc ^^^ b.toUInt32)) crc

example : crc32cBytes 0xFFFFFFFF [0x31, 0x32, 0x33, 0x34, 0x35, 0x36, 0x37, 0x38, 0x39] ^^^
    0xFFFFFFFF = 0xE3069283 := by
  decide +kernel

/-! ## Shifting is linear -/

theorem and_one_eq_one_iff (a : UInt32) : a &&& 1 = 1 ↔ a.toNat % 2 = 1 := by
  rw [← UInt32.toNat_inj, UInt32.toNat_and]
  exact (congrArg (· = 1) (Nat.and_one_is_mod a.toNat)).to_iff

theorem xor_and_one_iff (a b : UInt32) :
    (a ^^^ b) &&& 1 = 1 ↔ ¬ (a &&& 1 = 1 ↔ b &&& 1 = 1) := by
  have hmod : (a ^^^ b).toNat % 2 = (a.toNat % 2) ^^^ (b.toNat % 2) := by
    rw [UInt32.toNat_xor]
    exact Nat.xor_mod_two_pow (n := 1)
  simp only [and_one_eq_one_iff, hmod]
  rcases Nat.mod_two_eq_zero_or_one a.toNat with ha | ha <;>
  rcases Nat.mod_two_eq_zero_or_one b.toNat with hb | hb <;> simp [ha, hb]

theorem crcShift_xor (a b : UInt32) : crcShift (a ^^^ b) = crcShift a ^^^ crcShift b := by
  simp only [crcShift, xor_and_one_iff, UInt32.shiftRight_xor]
  by_cases ha : a &&& 1 = 1 <;> by_cases hb : b &&& 1 = 1
  · -- the polynomial is added twice
    have hself (x : UInt32) : x ^^^ (0xEDB88320 ^^^ 0xEDB88320) = x := by simp
    simp only [ha, hb, not_true, if_true, if_false, iff_self]
    rw [← hself (a >>> 1 ^^^ b >>> 1)]
    ac_rfl
  · simp only [ha, hb, iff_false, not_true, not_false_iff, if_true, if_false]
    ac_rfl
  · simp only [ha, hb, iff_true, not_false_iff, if_true, if_false]
    ac_rfl
  · simp only [ha, hb, not_true, iff_self, if_false]

theorem iterate_crcShift_xor (k : ℕ) (a b : UInt32) :
    crcShift^[k] (a ^^^ b) = crcShift^[k] a ^^^ crcShift^[k] b := by
  induction k generalizing a b with
  | zero => rfl
  | succ k ih =>
    rw [Function.iterate_succ_apply, crcShift_xor, ih]
    rfl

/-- A number with `k` zeros at its end loses them in `k` shifts, and nothing is added. -/
theorem iterate_crcShift_of_dvd (k : ℕ) {m : ℕ} {a : UInt32} (h : a.toNat = 2 ^ k * m) :
    (crcShift^[k] a).toNat = m := by
  induction k generalizing a with
  | zero => rwa [pow_zero, one_mul] at h
  | succ k ih =>
    have heven : ¬ a &&& 1 = 1 := by
      rw [and_one_eq_one_iff, h, pow_succ, mul_right_comm, Nat.mul_mod_left]
      exact Nat.zero_ne_one
    have hshift : (crcShift a).toNat = a.toNat / 2 := by
      rw [crcShift, if_neg heven]
      rfl
    refine ih ?_
    rw [hshift, h, pow_succ, mul_right_comm, Nat.mul_div_cancel _ Nat.two_pos]

/-! ## The table -/

/-- What a byte becomes in eight shifts. -/
def crcTable (index : UInt8) : UInt32 := Nat.iterate crcShift 8 index.toUInt32

/-- A number is its lowest byte and the bytes above it. -/
theorem eq_low_xor_high (a : UInt32) : a = a.toUInt8.toUInt32 ^^^ (a >>> 8 <<< 8) := by
  have h8 : BitVec.toNat (UInt32.toBitVec 8 % 32) = 8 := rfl
  apply UInt32.toBitVec_inj.mp
  apply BitVec.eq_of_getLsbD_eq
  intro i hi
  rw [UInt32.toBitVec_xor, UInt8.toBitVec_toUInt32, UInt32.toBitVec_toUInt8,
    UInt32.toBitVec_shiftLeft, UInt32.toBitVec_shiftRight]
  simp only [BitVec.getLsbD_xor, BitVec.getLsbD_setWidth, BitVec.shiftLeft_eq',
    BitVec.ushiftRight_eq', h8, BitVec.getLsbD_shiftLeft, BitVec.getLsbD_ushiftRight]
  by_cases h : i < 8
  · simp [h, hi]
  · simp [h, hi, Nat.add_sub_cancel' (not_lt.mp h)]

theorem toNat_shiftRight_eight (a : UInt32) : (a >>> 8).toNat = a.toNat / 2 ^ 8 := by
  rw [UInt32.toNat_shiftRight]
  exact Nat.shiftRight_eq_div_pow a.toNat 8

/-- The bytes above the lowest one are moved down by eight shifts. -/
theorem iterate_crcShift_high (a : UInt32) : crcShift^[8] (a >>> 8 <<< 8) = a >>> 8 := by
  have hhigh : (a >>> 8 <<< 8).toNat = 2 ^ 8 * (a >>> 8).toNat := by
    have hlt := a.toNat_lt
    rw [UInt32.toNat_shiftLeft, toNat_shiftRight_eight]
    show (a.toNat / 2 ^ 8) <<< 8 % 2 ^ 32 = _
    rw [Nat.shiftLeft_eq]
    omega
  exact UInt32.toNat_inj.mp (iterate_crcShift_of_dvd 8 hhigh)

/-- A byte is taken in with one look into the table. -/
theorem crcByte_eq_crcTable (crc : UInt32) (b : UInt8) :
    crcByte crc b = (crc >>> 8) ^^^ crcTable (crc.toUInt8 ^^^ b) := by
  have hlow : (crc ^^^ b.toUInt32).toUInt8 = crc.toUInt8 ^^^ b := by
    rw [UInt32.toUInt8_xor, UInt8.toUInt8_toUInt32]
  have hhigh : (crc ^^^ b.toUInt32) >>> 8 = crc >>> 8 := by
    have hzero : b.toUInt32 >>> 8 = 0 := by
      rw [← UInt32.toNat_inj, toNat_shiftRight_eight, UInt8.toNat_toUInt32]
      exact Nat.div_eq_of_lt b.toNat_lt
    rw [UInt32.shiftRight_xor, hzero, UInt32.xor_zero]
  rw [crcByte, eq_low_xor_high (crc ^^^ b.toUInt32), iterate_crcShift_xor, iterate_crcShift_high,
    hlow, hhigh, crcTable, UInt32.xor_comm]

end LiNaStore
