import LiNaStore.Library.Utf8

/-!
# Texts

Cutting a text at its front (`stripFront`) and at a character (`splitOnChar`), searching in it from
both ends (`firstOf`, `lastOf`, `firstRun`), and the decimal digits of a number.
-/

namespace LiNaStore

/-- What is left of a text after something it begins with. -/
def stripFront (front text : String) : Option String :=
  if front.toList <+: text.toList then some (.ofList (text.toList.drop front.length)) else none

def splitOnChar (c : Char) (text : String) : List String :=
  (text.toList.splitOn c).map String.ofList

theorem stripFront_append (front rest : String) : stripFront front (front ++ rest) = some rest := by
  have hfront : front.toList <+: (front ++ rest).toList := by
    rw [String.toList_append]
    exact List.prefix_append _ _
  rw [stripFront, if_pos hfront, String.toList_append, ← String.length_toList, List.drop_left,
    String.ofList_toList]

theorem stripFront_eq_some_iff {front text rest : String} :
    stripFront front text = some rest ↔ text = front ++ rest := by
  constructor
  · intro h
    rw [stripFront] at h
    split_ifs at h with hfront
    obtain ⟨tail, htail⟩ := hfront
    cases h
    rw [← String.toList_inj, String.toList_append, String.toList_ofList, ← htail,
      ← String.length_toList, List.drop_left]
  · rintro rfl
    exact stripFront_append front rest

/-! ## Searching -/

section

variable {α : Type} [DecidableEq α]

/-- The position of the first `a`. -/
def firstOf (a : α) (l : List α) : Option ℕ := l.findIdx? (· = a)

/-- The position of the last `a`. -/
def lastOf (a : α) (l : List α) : Option ℕ := (firstOf a l.reverse).map (l.length - 1 - ·)

/-- The position of the first run of elements that are those of `pattern`. -/
def firstRun (pattern : List α) : List α → Option ℕ
  | [] => if pattern = [] then some 0 else none
  | a :: l => if pattern <+: a :: l then some 0 else (firstRun pattern l).map (· + 1)

theorem firstOf_of_notMem {a : α} {l : List α} (h : a ∉ l) : firstOf a l = none := by
  rw [firstOf, List.findIdx?_eq_none_iff]
  exact fun b hb => decide_eq_false fun heq => h (heq ▸ hb)

theorem firstOf_append {a : α} {front : List α} (h : a ∉ front) (back : List α) :
    firstOf a (front ++ a :: back) = some front.length := by
  have hfront := firstOf_of_notMem h
  rw [firstOf] at hfront
  rw [firstOf, List.findIdx?_append, hfront, List.findIdx?_cons, decide_eq_true rfl]
  simp

theorem lastOf_append {a : α} {back : List α} (h : a ∉ back) (front : List α) :
    lastOf a (front ++ a :: back) = some front.length := by
  have hreverse : (front ++ a :: back).reverse = back.reverse ++ a :: front.reverse := by simp
  rw [lastOf, hreverse, firstOf_append fun hmem => h (List.mem_reverse.mp hmem), Option.map_some,
    List.length_append, List.length_cons, List.length_reverse]
  congr 1
  omega

omit [DecidableEq α] in
/-- A list with an `a` in it has a last one. -/
theorem exists_last {a : α} {l : List α} (h : a ∈ l) :
    ∃ front back, l = front ++ a :: back ∧ a ∉ back := by
  obtain ⟨back, front, heq, hback⟩ := List.eq_append_cons_of_mem (List.mem_reverse.mpr h)
  refine ⟨front.reverse, back.reverse, ?_, fun hmem => hback (List.mem_reverse.mp hmem)⟩
  rw [← List.reverse_reverse l, heq]
  simp

theorem firstRun_append {a : α} {front : List α} (h : a ∉ front) (pattern back : List α) :
    firstRun (a :: pattern) (front ++ (a :: pattern ++ back)) = some front.length := by
  induction front with
  | nil => exact if_pos (List.prefix_append _ _)
  | cons b front ih =>
    have hne : ¬a :: pattern <+: b :: (front ++ (a :: pattern ++ back)) := fun hfront =>
      h (List.mem_cons.mpr (.inl (List.cons_prefix_cons.mp hfront).1))
    rw [List.cons_append, firstRun, if_neg hne, ih fun hmem => h (List.mem_cons_of_mem b hmem),
      Option.map_some, List.length_cons]

end

/-! ## Numbers -/

theorem toList_toString (n : ℕ) : (toString n).toList = Nat.toDigits 10 n := Nat.toList_repr

theorem notMem_toDigits {c : Char} (hc : c.isDigit = false) (n : ℕ) : c ∉ Nat.toDigits 10 n := by
  intro h
  rw [Nat.isDigit_of_mem_toDigits (by decide) (by decide) h] at hc
  cases hc

theorem toList_toString_inj {m n : ℕ} (h : (toString m).toList = (toString n).toList) : m = n := by
  rw [toList_toString, toList_toString] at h
  rw [← Nat.ofDigitChars_ten_toDigits (n := m), h, Nat.ofDigitChars_ten_toDigits]

end LiNaStore
