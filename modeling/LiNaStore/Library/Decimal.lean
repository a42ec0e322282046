import LiNaStore.Library.Text
import Mathlib.Data.List.DropRight

/-!
# Numbers in decimal

A number is written as its digits, behind a minus sign if it is negative (`toList_toString_int`).
The standard libraries of programming languages read such a text and many others, and do not
agree on which:

* `parseInt`, in the way of Python: spaces around the number are skipped, single underscores may
  stand between digits, and the number may be as large as a limit on its digits allows;
* `strtoull` and `stoull`, in the way of C and C++: spaces in front are skipped, what follows the
  digits is not looked at, a minus sign wraps around in 64 bits, and of a number that is too large
  the first makes the largest number and the second an error;
* `parseLong`, in the way of Java: a sign and digits only, within 64 bits;
* `parseUnsigned`, in the way of Rust: digits only, possibly behind a plus sign, within the bits of
  an unsigned type.

Each reads back what was written, as far as the number fits (`parseInt_toString`,
`scan_toString`, `parseLong_toString`, `parseUnsigned_toString`).
-/

namespace LiNaStore.Decimal

/-- The number with the given digits. -/
def value (digits : List Char) : ℕ := Nat.ofDigitChars 10 digits 0

def signed (negative : Bool) (n : ℕ) : ℤ := if negative then -n else n

/-- Take a sign off the front: whether it is a minus, and what follows. -/
def takeSign : List Char → Bool × List Char
  | '-' :: cs => (true, cs)
  | '+' :: cs => (false, cs)
  | cs => (false, cs)

/-- What follows a plus sign, if there is one. -/
def takePlus : List Char → List Char
  | '+' :: cs => cs
  | cs => cs

def isSpace (c : Char) : Bool := c = ' ' ∨ '\t' ≤ c ∧ c ≤ '\r'

/-! ## Readers -/

/-- Digits with single underscores between them, without the underscores; one may come next only
    if there was a digit. -/
def plainDigits (afterDigit : Bool) : List Char → Option (List Char)
  | [] => if afterDigit then some [] else none
  | c :: cs =>
    if c.isDigit then (plainDigits true cs).map (c :: ·)
    else if c = '_' ∧ afterDigit then plainDigits false cs
    else none

def parseInt (maxDigits : Option ℕ) (text : List Char) : Option ℤ :=
  let (negative, rest) := takeSign ((text.dropWhile isSpace).rdropWhile isSpace)
  match plainDigits false rest with
  | none => none
  | some digits =>
    if ∃ limit ∈ maxDigits, limit < digits.length then none
    else some (signed negative (value digits))

/-- What is found at the front of a text. -/
inductive Scanned
  | nothing
  | outOfRange
  | number (n : UInt64)
  deriving DecidableEq

def scan (text : List Char) : Scanned :=
  let (negative, rest) := takeSign (text.dropWhile isSpace)
  let digits := rest.takeWhile Char.isDigit
  if digits = [] then .nothing
  else if 2 ^ 64 ≤ value digits then .outOfRange
  else .number (if negative then -.ofNat (value digits) else .ofNat (value digits))

def strtoull (text : List Char) : UInt64 :=
  match scan text with
  | .nothing => 0
  | .outOfRange => 0xFFFFFFFFFFFFFFFF
  | .number n => n

def stoull (text : List Char) : Option UInt64 :=
  match scan text with
  | .number n => some n
  | _ => none

def parseLong (text : List Char) : Option Int64 :=
  let (negative, rest) := takeSign text
  if rest = [] ∨ ¬rest.all Char.isDigit then none
  else if -2 ^ 63 ≤ signed negative (value rest) ∧ signed negative (value rest) < 2 ^ 63 then
    some (.ofInt (signed negative (value rest)))
  else none

def parseUnsigned (bits : ℕ) (text : List Char) : Option ℕ :=
  let digits := takePlus text
  if digits = [] ∨ ¬digits.all Char.isDigit then none
  else if value digits < 2 ^ bits then some (value digits)
  else none

/-! ## What is written -/

theorem toList_toString_int (n : ℤ) :
    (toString n).toList = (if n < 0 then ['-'] else []) ++ Nat.toDigits 10 n.natAbs := by
  rw [Int.toString_eq_repr, Int.repr_eq_if]
  by_cases h : 0 ≤ n
  · rw [if_pos h, if_neg (not_lt.mpr h), Nat.toList_repr, List.nil_append,
      show n.toNat = n.natAbs by omega]
  · rw [if_neg h, if_pos (not_le.mp h), String.toList_append, Nat.toList_repr,
      show (-n).toNat = n.natAbs by omega]
    rfl

theorem value_toDigits (n : ℕ) : value (Nat.toDigits 10 n) = n := Nat.ofDigitChars_ten_toDigits

theorem signed_natAbs (n : ℤ) : signed (decide (n < 0)) n.natAbs = n := by
  rw [signed]
  split_ifs with h <;> rw [decide_eq_true_iff] at h <;> omega

theorem isDigit_of_mem {n : ℕ} {c : Char} (h : c ∈ Nat.toDigits 10 n) : c.isDigit = true :=
  Nat.isDigit_of_mem_toDigits (by decide) (by decide) h

theorem takeSign_of_isDigit {c : Char} (h : c.isDigit = true) (cs : List Char) :
    takeSign (c :: cs) = (false, c :: cs) := by
  rw [takeSign.eq_3]
  · rintro cs' ⟨⟩
    cases h
  · rintro cs' ⟨⟩
    cases h

theorem takeSign_toString (n : ℤ) :
    takeSign (toString n).toList = (decide (n < 0), Nat.toDigits 10 n.natAbs) := by
  rw [toList_toString_int]
  split_ifs with h
  · rw [decide_eq_true h]
    rfl
  · rw [decide_eq_false h, List.nil_append]
    rcases hdigits : Nat.toDigits 10 n.natAbs with _ | ⟨c, cs⟩
    · rfl
    · exact takeSign_of_isDigit (isDigit_of_mem (hdigits ▸ List.mem_cons_self)) cs

theorem not_isSpace_of_isDigit {c : Char} (h : c.isDigit = true) : ¬isSpace c := by
  rw [isSpace, decide_eq_true_iff]
  rintro (rfl | ⟨-, hle⟩)
  · cases h
  · rw [Char.isDigit, Bool.and_eq_true, decide_eq_true_iff] at h
    have hge : (48 : UInt32) ≤ c.val := h.1
    have hle' : c.val ≤ 13 := hle
    exact absurd (UInt32.le_trans hge hle') (by decide)

theorem minus_or_isDigit_of_mem {n : ℤ} {c : Char} (h : c ∈ (toString n).toList) :
    c = '-' ∨ c.isDigit = true := by
  rw [toList_toString_int, List.mem_append] at h
  rcases h with h | h
  · split_ifs at h
    · exact .inl (List.mem_singleton.mp h)
    · cases h
  · exact .inr (isDigit_of_mem h)

theorem not_isSpace_of_mem {n : ℤ} {c : Char} (h : c ∈ (toString n).toList) : ¬isSpace c := by
  rcases minus_or_isDigit_of_mem h with rfl | hdigit
  · decide
  · exact not_isSpace_of_isDigit hdigit

theorem toNat_lt_of_mem {n : ℤ} {c : Char} (h : c ∈ (toString n).toList) : c.toNat < 128 := by
  rcases minus_or_isDigit_of_mem h with rfl | hdigit
  · decide
  · rw [Char.isDigit, Bool.and_eq_true, decide_eq_true_iff, decide_eq_true_iff] at hdigit
    have hle : c.val.toNat ≤ 57 := UInt32.le_iff_toNat_le.mp hdigit.2
    exact hle.trans_lt (by decide)

/-- A number of 64 bits has at most 20 characters. -/
theorem length_toString_le {n : ℤ} (h : n.natAbs < 10 ^ 19) : (toString n).toList.length ≤ 20 := by
  have hdigits := (Nat.length_toDigits_le_iff (by decide) (by decide)).mpr h
  rw [toList_toString_int, List.length_append]
  split_ifs
  · exact Nat.add_le_add (Nat.le_refl 1) hdigits
  · exact Nat.add_le_add (Nat.zero_le 1) hdigits

theorem dropWhile_toString (n : ℤ) :
    (toString n).toList.dropWhile isSpace = (toString n).toList := by
  rw [List.dropWhile_eq_self_iff]
  exact fun h => not_isSpace_of_mem (List.getElem_mem h)

theorem rdropWhile_toString (n : ℤ) :
    (toString n).toList.rdropWhile isSpace = (toString n).toList := by
  rw [List.rdropWhile_eq_self_iff]
  exact fun h => not_isSpace_of_mem (List.getLast_mem h)

theorem plainDigits_of_isDigit {cs : List Char} (h : ∀ c ∈ cs, c.isDigit = true) :
    plainDigits true cs = some cs := by
  induction cs with
  | nil => rfl
  | cons c cs ih =>
    rw [plainDigits, if_pos (h c List.mem_cons_self),
      ih fun c' hc' => h c' (List.mem_cons_of_mem c hc')]
    rfl

theorem plainDigits_toDigits (n : ℕ) :
    plainDigits false (Nat.toDigits 10 n) = some (Nat.toDigits 10 n) := by
  have hdigit (c : Char) (hc : c ∈ Nat.toDigits 10 n) : c.isDigit = true := isDigit_of_mem hc
  rcases hdigits : Nat.toDigits 10 n with _ | ⟨c, cs⟩
  · exact absurd hdigits Nat.toDigits_ne_nil
  · rw [hdigits] at hdigit
    rw [plainDigits, if_pos (hdigit c List.mem_cons_self),
      plainDigits_of_isDigit fun c' hc' => hdigit c' (List.mem_cons_of_mem c hc')]
    rfl

/-! ## Reading back -/

theorem parseInt_toString {maxDigits : Option ℕ} {n : ℤ}
    (h : ∀ limit ∈ maxDigits, 0 < limit ∧ n.natAbs < 10 ^ limit) :
    parseInt maxDigits (toString n).toList = some n := by
  have hfits : ¬∃ limit ∈ maxDigits, limit < (Nat.toDigits 10 n.natAbs).length := by
    rintro ⟨limit, hmem, hlt⟩
    obtain ⟨hpos, hbound⟩ := h limit hmem
    exact absurd ((Nat.length_toDigits_le_iff (by decide) hpos).mpr hbound) (by omega)
  rw [parseInt, dropWhile_toString, rdropWhile_toString, takeSign_toString]
  dsimp only
  rw [plainDigits_toDigits]
  dsimp only
  rw [if_neg hfits, value_toDigits, signed_natAbs]

theorem scan_toString {n : ℤ} (h : n.natAbs < 2 ^ 64) :
    scan (toString n).toList =
      .number (if n < 0 then -.ofNat n.natAbs else .ofNat n.natAbs) := by
  have hdigits : (Nat.toDigits 10 n.natAbs).takeWhile Char.isDigit = Nat.toDigits 10 n.natAbs :=
    List.takeWhile_eq_self_iff.mpr fun c hc => isDigit_of_mem hc
  rw [scan, dropWhile_toString, takeSign_toString]
  dsimp only
  rw [hdigits, if_neg Nat.toDigits_ne_nil, value_toDigits, if_neg (not_le.mpr h)]
  simp only [decide_eq_true_iff]

/-- What is scanned is the number that was written, unless that was negative. -/
theorem exists_scan_toString {n : ℤ} (hmin : -2 ^ 63 ≤ n) (hmax : n < 2 ^ 63) :
    ∃ m, scan (toString n).toList = .number m ∧ ((m.toNat : ℤ) = n ↔ 0 ≤ n) := by
  refine ⟨_, scan_toString (by omega), ?_⟩
  split_ifs with h
  · exact iff_of_false (by omega) (by omega)
  · refine iff_of_true ?_ (by omega)
    rw [UInt64.toNat_ofNat_of_lt' (show n.natAbs < 2 ^ 64 by omega)]
    omega

theorem parseLong_toString {n : ℤ} (hmin : -2 ^ 63 ≤ n) (hmax : n < 2 ^ 63) :
    parseLong (toString n).toList = some (.ofInt n) := by
  have hall : (Nat.toDigits 10 n.natAbs).all Char.isDigit = true :=
    List.all_eq_true.mpr fun c hc => isDigit_of_mem hc
  rw [parseLong, takeSign_toString]
  dsimp only
  rw [if_neg (not_or.mpr ⟨Nat.toDigits_ne_nil, not_not_intro hall⟩), value_toDigits, signed_natAbs,
    if_pos ⟨hmin, hmax⟩]

theorem parseUnsigned_toString (bits n : ℕ) :
    parseUnsigned bits (toString n).toList = if n < 2 ^ bits then some n else none := by
  have hdigit (c : Char) (hc : c ∈ Nat.toDigits 10 n) : c.isDigit = true := isDigit_of_mem hc
  have hvalue := value_toDigits n
  rw [toList_toString]
  rcases hdigits : Nat.toDigits 10 n with _ | ⟨c, cs⟩
  · exact absurd hdigits Nat.toDigits_ne_nil
  · rw [hdigits] at hdigit hvalue
    have hplus : takePlus (c :: cs) = c :: cs := takePlus.eq_2 _ fun cs' heq => by
      cases heq
      cases hdigit '+' List.mem_cons_self
    have hall : (c :: cs).all Char.isDigit = true := List.all_eq_true.mpr hdigit
    rw [parseUnsigned, hplus, if_neg (not_or.mpr ⟨List.cons_ne_nil c cs, not_not_intro hall⟩), hvalue]

end LiNaStore.Decimal
