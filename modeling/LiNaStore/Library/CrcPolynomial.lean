import LiNaStore.Library.Crc32
import Mathlib.Algebra.CharP.Two
import Mathlib.Algebra.Field.ZMod
import Mathlib.Algebra.Polynomial.FieldDivision
import Mathlib.Data.ZMod.Basic
import Mathlib.Tactic.LinearCombination

/-!
# Checksum registers as polynomials

A register of 32 bits is a polynomial over the field with two elements, of degree less than
32: its lowest bit is the highest coefficient. To shift one bit out is to multiply by `X`
and to reduce modulo a generator, so a register into which bytes were taken holds the
remainder of the message (`holds_takeIn`).

Two registers with coprime generators therefore agree on a message if and only if its
remainder modulo the product of the generators has degree less than 32 (`takeIn_eq_iff`).
That generators are coprime can be computed (`isCoprime_generator`).
-/

namespace LiNaStore.CrcRegister

open Polynomial

/-! ## Bits -/

def bit (a : UInt32) (i : ℕ) : ZMod 2 := (a.toNat.testBit i).toNat

theorem bit_xor (a b : UInt32) (i : ℕ) : bit (a ^^^ b) i = bit a i + bit b i := by
  simp only [bit, UInt32.toNat_xor, Nat.testBit_xor]
  cases a.toNat.testBit i <;> cases b.toNat.testBit i <;> rfl

theorem bit_shiftRight_one (a : UInt32) (i : ℕ) : bit (a >>> 1) i = bit a (i + 1) := by
  have hshift : (a >>> 1).toNat = a.toNat >>> 1 := UInt32.toNat_shiftRight a 1
  rw [bit, bit, hshift, Nat.testBit_shiftRight, Nat.add_comm]

theorem bit_of_le (a : UInt32) {i : ℕ} (h : 32 ≤ i) : bit a i = 0 := by
  have hlt : a.toNat < 2 ^ i := a.toNat_lt.trans_le (Nat.pow_le_pow_right Nat.two_pos h)
  rw [bit, Nat.testBit_lt_two_pow hlt]
  rfl

theorem bit_zero (a : UInt32) : bit a 0 = if a &&& 1 = 1 then 1 else 0 := by
  simp only [bit, and_one_eq_one_iff, Nat.testBit_zero]
  split <;> simp [*]

theorem eq_of_bit_eq {a b : UInt32} (h : ∀ i, bit a i = bit b i) : a = b := by
  apply UInt32.toNat_inj.mp
  apply Nat.eq_of_testBit_eq
  intro i
  have hi := h i
  simp only [bit] at hi
  revert hi
  cases a.toNat.testBit i <;> cases b.toNat.testBit i <;> decide

/-! ## The polynomial of a register -/

noncomputable def poly (a : UInt32) : (ZMod 2)[X] :=
  ∑ k ∈ Finset.range 32, C (bit a (31 - k)) * X ^ k

theorem coeff_poly (a : UInt32) (k : ℕ) :
    (poly a).coeff k = if k < 32 then bit a (31 - k) else 0 := by
  simp only [poly, finsetSum_coeff, coeff_C_mul_X_pow, Finset.sum_ite_eq, Finset.mem_range]

theorem degree_poly_lt (a : UInt32) : (poly a).degree < (32 : ℕ) := by
  rw [degree_lt_iff_coeff_zero]
  intro k hk
  rw [coeff_poly, if_neg (not_lt.mpr hk)]

theorem poly_injective : Function.Injective poly := by
  intro a b h
  apply eq_of_bit_eq
  intro i
  by_cases hi : i < 32
  · have hcoeff := congrArg (coeff · (31 - i)) h
    simp only [coeff_poly] at hcoeff
    rwa [if_pos (by omega), if_pos (by omega), Nat.sub_sub_self (by omega)] at hcoeff
  · rw [bit_of_le a (not_lt.mp hi), bit_of_le b (not_lt.mp hi)]

theorem poly_xor (a b : UInt32) : poly (a ^^^ b) = poly a + poly b := by
  simp only [poly, bit_xor, C_add, add_mul, Finset.sum_add_distrib]

theorem poly_zero : poly 0 = 0 := by
  have h := poly_xor 0 0
  rwa [UInt32.xor_self, left_eq_add] at h

theorem poly_one : poly 0x80000000 = 1 := by
  have htop : (0x80000000 : UInt32).toNat = 2 ^ 31 := rfl
  ext k
  rw [coeff_poly, coeff_one, bit, htop, Nat.testBit_two_pow]
  by_cases hk : k = 0
  · simp [hk]
  · rw [if_neg hk, decide_eq_false (by omega)]
    exact ite_self 0

/-! ## Shifting -/

/-- Shift one bit out, for the generator whose lower coefficients are those of `c`. -/
def shift (c a : UInt32) : UInt32 := if a &&& 1 = 1 then (a >>> 1) ^^^ c else a >>> 1

noncomputable def generator (c : UInt32) : (ZMod 2)[X] := X ^ 32 + poly c

theorem monic_generator (c : UInt32) : (generator c).Monic :=
  monic_X_pow_add (degree_poly_lt c)

theorem degree_generator (c : UInt32) : (generator c).degree = (32 : ℕ) := by
  have hlt : (poly c).degree < (X ^ 32 : (ZMod 2)[X]).degree := by
    rw [degree_X_pow]
    exact degree_poly_lt c
  rw [generator, degree_add_eq_left_of_degree_lt hlt, degree_X_pow]

/-- The bit that leaves at the low end is the coefficient that gets too high. -/
theorem poly_shiftRight_one (a : UInt32) :
    poly (a >>> 1) = X * poly a + C (bit a 0) * X ^ 32 := by
  ext k
  rw [coeff_add, coeff_C_mul_X_pow, coeff_poly]
  cases k with
  | zero => rw [coeff_X_mul_zero, bit_shiftRight_one, bit_of_le a (by decide)]; rfl
  | succ k =>
    rw [coeff_X_mul, coeff_poly, bit_shiftRight_one]
    rcases lt_trichotomy k 31 with hk | rfl | hk
    · rw [if_pos (by omega), if_pos (by omega), if_neg (by omega), add_zero]
      congr 1
      omega
    · exact (CharTwo.add_self_eq_zero (bit a 0)).symm
    · rw [if_neg (by omega), if_neg (by omega), if_neg (by omega), add_zero]

theorem poly_shift (c a : UInt32) :
    poly (shift c a) = X * poly a + C (bit a 0) * generator c := by
  rw [shift, generator, mul_add, ← add_assoc, ← poly_shiftRight_one, bit_zero]
  split
  · rw [poly_xor, C_1, one_mul]
  · rw [C_0, zero_mul, add_zero]

/-! ## What a register holds -/

/-- The register holds the remainder of a polynomial. -/
def Holds (c a : UInt32) (f : (ZMod 2)[X]) : Prop := generator c ∣ f - poly a

section

variable {c a : UInt32} {f : (ZMod 2)[X]}

theorem Holds.refl (c a : UInt32) : Holds c a (poly a) := by
  rw [Holds, sub_self]
  exact dvd_zero _

theorem Holds.xor (h : Holds c a f) (b : UInt32) : Holds c (a ^^^ b) (f + poly b) := by
  rwa [Holds, poly_xor, add_sub_add_right_eq_sub]

theorem Holds.shift (h : Holds c a f) : Holds c (shift c a) (X * f) := by
  have hsplit : X * f - poly (CrcRegister.shift c a) =
      X * (f - poly a) - C (bit a 0) * generator c := by
    rw [poly_shift]
    ring
  rw [Holds, hsplit]
  exact dvd_sub (h.mul_left X) (dvd_mul_left _ _)

theorem Holds.iterate_shift (h : Holds c a f) (k : ℕ) :
    Holds c ((CrcRegister.shift c)^[k] a) (X ^ k * f) := by
  induction k with
  | zero => rwa [pow_zero, one_mul]
  | succ k ih =>
    rw [Function.iterate_succ_apply', pow_succ', mul_assoc]
    exact ih.shift

theorem Holds.eq_modByMonic (h : Holds c a f) : poly a = f %ₘ generator c := by
  have hdegree : (poly a).degree < (generator c).degree := by
    rw [degree_generator]
    exact degree_poly_lt a
  rw [modByMonic_eq_of_dvd_sub (monic_generator c) h,
    (modByMonic_eq_self_iff (monic_generator c)).mpr hdegree]

end

/-! ## Messages -/

/-- Take bytes in. -/
def takeIn (c : UInt32) (crc : UInt32) (bytes : Bytes) : UInt32 :=
  bytes.foldl (fun crc b => (shift c)^[8] (crc ^^^ b.toUInt32)) crc

/-- The message that follows a first polynomial: each byte is added to the eight highest of 32
    coefficients, and room is made for the next one. -/
noncomputable def follow (f : (ZMod 2)[X]) (bytes : Bytes) : (ZMod 2)[X] :=
  bytes.foldl (fun f b => X ^ 8 * (f + poly b.toUInt32)) f

/-- The polynomial of a message, with what the register holds in front. -/
noncomputable def message (crc : UInt32) (bytes : Bytes) : (ZMod 2)[X] :=
  follow (poly crc) bytes

theorem Holds.takeIn {c a : UInt32} {f : (ZMod 2)[X]} (h : Holds c a f) (bytes : Bytes) :
    Holds c (takeIn c a bytes) (follow f bytes) := by
  induction bytes generalizing a f with
  | nil => exact h
  | cons b bytes ih => exact ih ((h.xor b.toUInt32).iterate_shift 8)

theorem holds_takeIn (c crc : UInt32) (bytes : Bytes) :
    Holds c (takeIn c crc bytes) (message crc bytes) :=
  (Holds.refl c crc).takeIn bytes

/-! ## Two generators -/

section

variable {g h : (ZMod 2)[X]} {n : ℕ}

/-- The remainders modulo two coprime polynomials are the same if and only if the remainder
    modulo their product is small enough to be both. -/
theorem modByMonic_eq_iff (hg : g.Monic) (hh : h.Monic) (hdg : g.degree = n)
    (hdh : h.degree = n) (hcoprime : IsCoprime g h) (f : (ZMod 2)[X]) :
    f %ₘ g = f %ₘ h ↔ (f %ₘ (g * h)).degree < n := by
  constructor
  · intro heq
    have hsmall : (f %ₘ g).degree < n := hdg ▸ degree_modByMonic_lt f hg
    have hdvd : g * h ∣ f - f %ₘ g := by
      refine hcoprime.mul_dvd (dvd_sub_comm.mp (dvd_modByMonic_sub f g)) ?_
      rw [heq]
      exact dvd_sub_comm.mp (dvd_modByMonic_sub f h)
    have hself : (f %ₘ g) %ₘ (g * h) = f %ₘ g := by
      refine (modByMonic_eq_self_iff (hg.mul hh)).mpr (hsmall.trans_le ?_)
      rw [hh.degree_mul, hdg, hdh]
      exact_mod_cast Nat.le_add_left n n
    rwa [modByMonic_eq_of_dvd_sub (hg.mul hh) hdvd, hself]
  · intro hsmall
    have hrem (p : (ZMod 2)[X]) (hp : p.Monic) (hdp : p.degree = n) (hdvd : p ∣ g * h) :
        f %ₘ p = f %ₘ (g * h) := by
      have hsub : p ∣ f - f %ₘ (g * h) :=
        hdvd.trans (dvd_sub_comm.mp (dvd_modByMonic_sub f (g * h)))
      rw [modByMonic_eq_of_dvd_sub hp hsub]
      exact (modByMonic_eq_self_iff hp).mpr (hdp ▸ hsmall)
    rw [hrem g hg hdg (dvd_mul_right g h), hrem h hh hdh (dvd_mul_left h g)]

end

theorem takeIn_eq_iff {c c' : UInt32} (hcoprime : IsCoprime (generator c) (generator c'))
    (crc : UInt32) (bytes : Bytes) :
    takeIn c crc bytes = takeIn c' crc bytes ↔
      (message crc bytes %ₘ (generator c * generator c')).degree < (32 : ℕ) := by
  rw [← poly_injective.eq_iff, (holds_takeIn c crc bytes).eq_modByMonic,
    (holds_takeIn c' crc bytes).eq_modByMonic]
  exact modByMonic_eq_iff (monic_generator c) (monic_generator c') (degree_generator c)
    (degree_generator c') hcoprime _

/-! ## Coprime generators -/

/-- A multiple of `d`, modulo the generator: the other factor is given by its coefficients,
    the highest one first. -/
def times (c d : UInt32) (bits : List Bool) : UInt32 :=
  bits.foldl (fun a b => shift c a ^^^ if b then d else 0) 0

theorem exists_holds_times (c d : UInt32) (bits : List Bool) :
    ∃ f, Holds c (times c d bits) (f * poly d) := by
  have hfold : ∀ (bits : List Bool) (a : UInt32) (f : (ZMod 2)[X]), Holds c a (f * poly d) →
      ∃ f', Holds c (bits.foldl (fun a b => shift c a ^^^ if b then d else 0) a)
        (f' * poly d) := by
    intro bits
    induction bits with
    | nil => exact fun a f h => ⟨f, h⟩
    | cons b bits ih =>
      intro a f h
      refine ih _ (X * f + if b then 1 else 0) ?_
      have hstep := h.shift.xor (if b then d else 0)
      have hfactor : X * (f * poly d) + poly (if b then d else 0) =
          (X * f + if b then 1 else 0) * poly d := by
        split
        · ring
        · rw [poly_zero]
          ring
      rwa [hfactor] at hstep
  refine hfold bits 0 0 ?_
  rw [zero_mul, ← poly_zero]
  exact Holds.refl c 0

/-- Generators are coprime if some multiple of their difference is 1 modulo the first. -/
theorem isCoprime_generator {c c' : UInt32} {bits : List Bool}
    (h : times c (c ^^^ c') bits = 0x80000000) : IsCoprime (generator c) (generator c') := by
  obtain ⟨f, q, hq⟩ := exists_holds_times c (c ^^^ c') bits
  rw [h, poly_one] at hq
  have hdiff : poly (c ^^^ c') = generator c' - generator c := by
    rw [poly_xor, generator, generator, CharTwo.sub_eq_add, add_add_add_comm,
      CharTwo.add_self_eq_zero, zero_add, add_comm]
  refine ⟨-q - f, f, ?_⟩
  rw [hdiff] at hq
  linear_combination hq

end LiNaStore.CrcRegister
