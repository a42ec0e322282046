import Mathlib.Tactic.Ring
import Mathlib.Tactic.SplitIfs

/-!
# Byte strings

Byte strings as lists of bytes, the little-endian representation of numbers on a
fixed number of bytes (`leBytes`, read back by `leNat`), the cutting of a byte string
at its first zero byte (`splitNul`), and of a list into chunks of equal length, but
for the last one (`chunks`).
-/

namespace LiNaStore

/-- Byte strings. -/
abbrev Bytes := List UInt8

/-! ## Little-endian numbers -/

/-- The number `n` on `w` bytes, least significant first; what does not fit is
    cut off. -/
def leBytes : ℕ → ℕ → Bytes
  | 0, _ => []
  | w + 1, n => UInt8.ofNat n :: leBytes w (n / 256)

/-- The number a byte string represents, least significant byte first. -/
def leNat : Bytes → ℕ
  | [] => 0
  | b :: bs => b.toNat + 256 * leNat bs

@[simp] theorem length_leBytes (w n : ℕ) : (leBytes w n).length = w := by
  induction w generalizing n with
  | zero => rfl
  | succ w ih => rw [leBytes, List.length_cons, ih]

/-- Reading back a number on `w` bytes gives it modulo `256 ^ w`. -/
theorem leNat_leBytes (w n : ℕ) : leNat (leBytes w n) = n % 256 ^ w := by
  induction w generalizing n with
  | zero => rw [leBytes, leNat, pow_zero, Nat.mod_one]
  | succ w ih =>
    rw [leBytes, leNat, ih, UInt8.toNat_ofNat', show (2 : ℕ) ^ 8 = 256 from rfl,
      Nat.pow_succ' (m := 256), Nat.mod_mul]

theorem leNat_leBytes_of_lt {w n : ℕ} (h : n < 256 ^ w) : leNat (leBytes w n) = n := by
  rw [leNat_leBytes, Nat.mod_eq_of_lt h]

theorem leNat_lt (bs : Bytes) : leNat bs < 256 ^ bs.length := by
  induction bs with
  | nil => exact Nat.one_pos
  | cons b bs ih =>
    have hb := b.toNat_lt
    rw [leNat, List.length_cons, pow_succ]
    omega

theorem leNat_eq_zero_iff {bs : Bytes} : leNat bs = 0 ↔ ∀ b ∈ bs, b = 0 := by
  induction bs with
  | nil => exact iff_of_true rfl fun b hb => absurd hb List.not_mem_nil
  | cons b bs ih =>
    rw [leNat, List.forall_mem_cons, ← ih, ← UInt8.toNat_inj]
    change _ ↔ b.toNat = 0 ∧ _
    omega

/-! ## The first zero byte -/

/-- The bytes before the first zero byte, and those after it if there is one. -/
def splitNul : Bytes → Bytes × Option Bytes
  | [] => ([], none)
  | b :: bs => if b = 0 then ([], some bs) else ((splitNul bs).1.cons b, (splitNul bs).2)

theorem splitNul_of_notMem {bs : Bytes} (h : 0 ∉ bs) : splitNul bs = (bs, none) := by
  induction bs with
  | nil => rfl
  | cons b bs ih =>
    obtain ⟨hb, hbs⟩ := not_or.mp (mt List.mem_cons.mpr h)
    rw [splitNul, if_neg (Ne.symm hb), ih hbs]

theorem splitNul_append {front rest : Bytes} (h : 0 ∉ front) :
    splitNul (front ++ 0 :: rest) = (front, some rest) := by
  induction front with
  | nil => rfl
  | cons b front ih =>
    obtain ⟨hb, hfront⟩ := not_or.mp (mt List.mem_cons.mpr h)
    rw [List.cons_append, splitNul, if_neg (Ne.symm hb), ih hfront]

/-- Bytes either have no zero byte or are cut at the first one. -/
theorem splitNul_cases (bs : Bytes) :
    0 ∉ bs ∨ ∃ front rest, 0 ∉ front ∧ bs = front ++ 0 :: rest := by
  induction bs with
  | nil => exact .inl List.not_mem_nil
  | cons b bs ih =>
    by_cases hb : b = 0
    · exact .inr ⟨[], bs, List.not_mem_nil, by rw [hb, List.nil_append]⟩
    rcases ih with h | ⟨front, rest, h, rfl⟩
    · exact .inl (List.not_mem_cons_of_ne_of_not_mem (Ne.symm hb) h)
    · exact .inr ⟨b :: front, rest, List.not_mem_cons_of_ne_of_not_mem (Ne.symm hb) h, rfl⟩

/-! ## Chunks -/

variable {α : Type}

/-- The consecutive chunks of `n` elements of a list, the last one possibly
    shorter. -/
def chunks (n : ℕ) (xs : List α) : List (List α) :=
  (List.range ((xs.length + n - 1) / n)).map fun i => (xs.drop (i * n)).take n

theorem length_le_of_mem_chunks {n : ℕ} {xs c : List α} (h : c ∈ chunks n xs) : c.length ≤ n := by
  obtain ⟨i, _, rfl⟩ := List.mem_map.1 h
  exact List.length_take_le _ _

/-- The first `k` chunks make up the first `k * n` elements. -/
theorem flatten_range_chunks (n k : ℕ) (xs : List α) :
    ((List.range k).map fun i => (xs.drop (i * n)).take n).flatten = xs.take (k * n) := by
  induction k with
  | zero => simp
  | succ k ih =>
    rw [List.range_succ, List.map_append, List.flatten_append, ih, Nat.add_mul, Nat.one_mul,
      List.take_add]
    simp

/-- The chunks of a list make it up. -/
theorem flatten_chunks {n : ℕ} (hn : 0 < n) (xs : List α) : (chunks n xs).flatten = xs := by
  rw [chunks, flatten_range_chunks]
  apply List.take_of_length_le
  have h := Nat.lt_div_mul_add (a := xs.length + n - 1) hn
  omega

end LiNaStore
