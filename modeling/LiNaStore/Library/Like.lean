import Mathlib.Data.List.Basic
import Mathlib.Data.List.Infix
import Mathlib.Tactic.SplitIfs

/-!
# Pattern matching

Two ways to read a pattern. `like` is the operator of SQL: a percent sign stands for any text, an
underscore for any character, and letters of ASCII stand for both cases. `glob` is what a shell
makes of a star, every other character standing for itself alone.

With its stars replaced by percent signs (`starsToPercents`) a pattern matches what it matches as
a glob (`like_of_glob`), and in general more: exactly if it has an underscore, a percent sign or a
letter there is a text that it matches by `like` alone (`exists_loose_iff`). A pattern that ends
with a percent sign and has nothing of the kind before it matches the texts that begin with it
(`like_of_isPrefix`).
-/

namespace LiNaStore

/-- Two characters are equal up to the case of ASCII letters. -/
def sameLetter (c d : Char) : Bool := c.toLower = d.toLower

/-- The SQL pattern matching LIKE: a percent sign stands for any text, an underscore for
    any character, any other character for itself in either case. -/
def like : List Char → List Char → Bool
  | [], text => text.isEmpty
  | '%' :: pattern, text => text.tails.any (like pattern)
  | '_' :: _, [] => false
  | '_' :: pattern, _ :: text => like pattern text
  | _ :: _, [] => false
  | c :: pattern, d :: text => sameLetter c d && like pattern text

/-- What a shell matches: a star stands for any text, any other character for itself. -/
def glob : List Char → List Char → Bool
  | [], text => text.isEmpty
  | '*' :: pattern, text => text.tails.any (glob pattern)
  | _ :: _, [] => false
  | c :: pattern, d :: text => c = d && glob pattern text

/-- The pattern with its stars replaced. -/
def starsToPercents (pattern : List Char) : List Char :=
  pattern.map fun c => if c = '*' then '%' else c

/-- A text that the pattern matches by `like`, but not as a glob. -/
def Loose (pattern text : List Char) : Prop :=
  like (starsToPercents pattern) text = true ∧ glob pattern text = false

instance (pattern text : List Char) : Decidable (Loose pattern text) := instDecidableAnd

/-! ## One character at a time -/

section Like

variable {pattern text : List Char} {c d : Char}

theorem like_percent :
    like ('%' :: pattern) text = true ↔ ∃ rest, rest <:+ text ∧ like pattern rest = true := by
  have hany : like ('%' :: pattern) text = text.tails.any (like pattern) := rfl
  rw [hany, List.any_eq_true]
  simp only [List.mem_tails]

theorem like_underscore : like ('_' :: pattern) (d :: text) = like pattern text := rfl

theorem like_cons (hpercent : c ≠ '%') (hunderscore : c ≠ '_') :
    like (c :: pattern) (d :: text) = (sameLetter c d && like pattern text) := by
  rw [like]
  · exact hpercent
  · exact hunderscore

theorem like_cons_nil (hpercent : c ≠ '%') : like (c :: pattern) [] = false := by
  by_cases hunderscore : c = '_'
  · rw [hunderscore]
    rfl
  · rw [like]
    · exact hpercent
    · exact hunderscore

theorem glob_star :
    glob ('*' :: pattern) text = true ↔ ∃ rest, rest <:+ text ∧ glob pattern rest = true := by
  have hany : glob ('*' :: pattern) text = text.tails.any (glob pattern) := rfl
  rw [hany, List.any_eq_true]
  simp only [List.mem_tails]

theorem glob_cons (hstar : c ≠ '*') :
    glob (c :: pattern) text = true ↔ ∃ rest, text = c :: rest ∧ glob pattern rest = true := by
  cases text with
  | nil =>
    rw [glob]
    · simp
    · exact hstar
  | cons d text =>
    rw [glob]
    · simp only [Bool.and_eq_true, decide_eq_true_eq, List.cons.injEq]
      constructor
      · rintro ⟨rfl, h⟩
        exact ⟨text, ⟨rfl, rfl⟩, h⟩
      · rintro ⟨rest, ⟨rfl, rfl⟩, h⟩
        exact ⟨rfl, h⟩
    · exact hstar

theorem starsToPercents_cons (hstar : c ≠ '*') :
    starsToPercents (c :: pattern) = c :: starsToPercents pattern := by
  rw [starsToPercents, List.map_cons, if_neg hstar]
  rfl

theorem starsToPercents_star : starsToPercents ('*' :: pattern) = '%' :: starsToPercents pattern :=
  rfl

theorem sameLetter_self (c : Char) : sameLetter c c = true := decide_eq_true rfl

end Like

/-! ## Letters -/

/-- A fact about the letters of ASCII is one about 128 numbers. -/
theorem forall_of_isAlpha {P : Char → Prop} (h : ∀ n : Fin 128, (Char.ofNat n).isAlpha = true →
    P (Char.ofNat n)) {c : Char} (hc : c.isAlpha = true) : P c := by
  have hlt : c.toNat < 128 := by
    unfold Char.isAlpha Char.isUpper Char.isLower at hc
    simp only [Bool.or_eq_true, Bool.and_eq_true,
      decide_eq_true_eq, ge_iff_le, UInt32.le_iff_toNat_le] at hc
    have hZ : 'Z'.val.toNat = 90 := rfl
    have hz : 'z'.val.toNat = 122 := rfl
    have hval : c.val.toNat = c.toNat := rfl
    omega
  have hchar := h ⟨c.toNat, hlt⟩
  rw [Char.ofNat_toNat] at hchar
  exact hchar hc

/-- The letter in the other case. -/
def otherCase (c : Char) : Char := if c.isUpper then c.toLower else c.toUpper

/-- Every letter has another one that differs in case only. -/
theorem otherCase_ne {c : Char} (hc : c.isAlpha = true) : otherCase c ≠ c :=
  forall_of_isAlpha (P := fun c => otherCase c ≠ c) (by decide +kernel) hc

theorem sameLetter_otherCase {c : Char} (hc : c.isAlpha = true) :
    sameLetter c (otherCase c) = true :=
  forall_of_isAlpha (P := fun c => sameLetter c (otherCase c) = true) (by decide +kernel) hc

theorem toLower_of_not_isAlpha {c : Char} (hc : ¬c.isAlpha = true) : c.toLower = c := by
  unfold Char.isAlpha Char.isUpper at hc
  rw [Bool.or_eq_true, not_or] at hc
  exact dif_neg fun h => hc.1 (by simpa using h)

/-- A character that is not a letter is the same as itself alone. -/
theorem eq_of_sameLetter {c d : Char} (hc : ¬c.isAlpha = true) (h : sameLetter c d = true) :
    c = d := by
  have heq : c.toLower = d.toLower := of_decide_eq_true h
  by_cases hd : d.isAlpha = true
  · have hlower : d.toLower.isAlpha = true :=
      forall_of_isAlpha (P := fun d => d.toLower.isAlpha = true) (by decide +kernel) hd
    rw [← heq, toLower_of_not_isAlpha hc] at hlower
    exact absurd hlower hc
  · rwa [toLower_of_not_isAlpha hc, toLower_of_not_isAlpha hd] at heq

/-! ## Stars and percent signs -/

/-- A pattern matches by `like` what it matches as a glob. -/
theorem like_of_glob {pattern text : List Char} (h : glob pattern text = true) :
    like (starsToPercents pattern) text = true := by
  induction pattern generalizing text with
  | nil => exact h
  | cons c pattern ih =>
    by_cases hstar : c = '*'
    · subst hstar
      obtain ⟨rest, hsuffix, hrest⟩ := glob_star.1 h
      rw [starsToPercents_star]
      exact like_percent.2 ⟨rest, hsuffix, ih hrest⟩
    · obtain ⟨rest, rfl, hrest⟩ := (glob_cons hstar).1 h
      rw [starsToPercents_cons hstar]
      by_cases hpercent : c = '%'
      · rw [hpercent]
        exact like_percent.2 ⟨rest, List.suffix_cons _ _, ih hrest⟩
      by_cases hunderscore : c = '_'
      · rw [hunderscore, like_underscore, ih hrest]
      · rw [like_cons hpercent hunderscore, sameLetter_self, ih hrest]
        rfl

/-- A character that `like` gives no other meaning. -/
def Plain (c : Char) : Prop := c ≠ '_' ∧ c ≠ '%' ∧ ¬c.isAlpha = true

instance : DecidablePred Plain := fun _ => instDecidableAnd

/-- A pattern of plain characters and stars matches nothing else. -/
theorem glob_of_like {pattern text : List Char} (hplain : ∀ c ∈ pattern, Plain c)
    (h : like (starsToPercents pattern) text = true) : glob pattern text = true := by
  induction pattern generalizing text with
  | nil => exact h
  | cons c pattern ih =>
    have hrest := fun c hc => hplain c (List.mem_cons_of_mem _ hc)
    obtain ⟨hunderscore, hpercent, halpha⟩ := hplain c List.mem_cons_self
    by_cases hstar : c = '*'
    · subst hstar
      rw [starsToPercents_star] at h
      obtain ⟨rest, hsuffix, hlike⟩ := like_percent.1 h
      exact glob_star.2 ⟨rest, hsuffix, ih hrest hlike⟩
    · rw [starsToPercents_cons hstar] at h
      cases text with
      | nil =>
        rw [like_cons_nil hpercent] at h
        cases h
      | cons d text =>
        rw [like_cons hpercent hunderscore, Bool.and_eq_true] at h
        obtain rfl := eq_of_sameLetter halpha h.1
        exact (glob_cons hstar).2 ⟨text, rfl, ih hrest h.2⟩

/-- What a character is replaced by in a text that `like` accepts. -/
def replacement (c : Char) : List Char :=
  if c = '*' ∨ c = '%' then [] else if c = '_' then ['-'] else
    if c.isAlpha then [otherCase c] else [c]

theorem length_replacement_le (c : Char) : (replacement c).length ≤ 1 := by
  rw [replacement]
  split_ifs <;> simp

theorem plain_of_replacement {c : Char} (h : replacement c = [c]) : Plain c := by
  rw [replacement] at h
  split_ifs at h with hany hunderscore halpha
  · exact absurd ((List.cons.inj h).1.trans hunderscore) (by decide)
  · exact absurd (List.cons.inj h).1 (otherCase_ne halpha)
  · exact ⟨hunderscore, fun hpercent => hany (.inr hpercent), halpha⟩

theorem like_replacement (pattern : List Char) :
    like (starsToPercents pattern) (pattern.flatMap replacement) = true := by
  induction pattern with
  | nil => rfl
  | cons c pattern ih =>
    rw [List.flatMap_cons, replacement]
    split_ifs with hany hunderscore halpha
    · have hcons : starsToPercents (c :: pattern) = '%' :: starsToPercents pattern := by
        rcases hany with rfl | rfl <;> rfl
      rw [hcons]
      exact like_percent.2 ⟨_, List.suffix_rfl, ih⟩
    · rw [hunderscore, starsToPercents_cons (by decide), List.singleton_append, like_underscore, ih]
    · rw [not_or] at hany
      rw [starsToPercents_cons hany.1, List.singleton_append, like_cons hany.2 hunderscore,
        sameLetter_otherCase halpha, ih]
      rfl
    · rw [not_or] at hany
      rw [starsToPercents_cons hany.1, List.singleton_append, like_cons hany.2 hunderscore,
        sameLetter_self, ih]
      rfl

/-- The characters of a glob other than stars are in the text, in order. -/
theorem sublist_of_glob {pattern text : List Char} (h : glob pattern text = true) :
    (pattern.filter (· ≠ '*')).Sublist text := by
  induction pattern generalizing text with
  | nil => exact List.nil_sublist _
  | cons c pattern ih =>
    by_cases hstar : c = '*'
    · subst hstar
      obtain ⟨rest, hsuffix, hrest⟩ := glob_star.1 h
      rw [List.filter_cons_of_neg (by decide)]
      exact (ih hrest).trans hsuffix.sublist
    · obtain ⟨rest, rfl, hrest⟩ := (glob_cons hstar).1 h
      rw [List.filter_cons_of_pos (by simpa using hstar)]
      exact (ih hrest).cons_cons c

theorem length_flatMap_le {f : Char → List Char} (hf : ∀ c, (f c).length ≤ 1) (l : List Char) :
    (l.flatMap f).length ≤ l.length := by
  induction l with
  | nil => exact Nat.le_refl 0
  | cons c l ih =>
    have hc := hf c
    rw [List.flatMap_cons, List.length_append, List.length_cons]
    omega

/-- Replacing characters by at most one each gives the same text only if each is kept. -/
theorem eq_singleton_of_flatMap_eq {f : Char → List Char} (hf : ∀ c, (f c).length ≤ 1)
    {l : List Char} (h : l.flatMap f = l) : ∀ c ∈ l, f c = [c] := by
  induction l with
  | nil => exact fun _ hc => absurd hc List.not_mem_nil
  | cons c l ih =>
    have hlen := length_flatMap_le hf l
    have hc := hf c
    rw [List.flatMap_cons] at h
    obtain ⟨d, hd⟩ : ∃ d, f c = [d] := by
      refine List.length_eq_one_iff.1 ?_
      have := congrArg List.length h
      rw [List.length_append, List.length_cons] at this
      omega
    rw [hd, List.singleton_append] at h
    obtain ⟨rfl, hl⟩ := List.cons.inj h
    intro c' hc'
    rcases List.mem_cons.1 hc' with rfl | hc'
    · exact hd
    · exact ih hl c' hc'

/-- There is a text that a pattern matches by `like` alone unless all its characters are plain. -/
theorem exists_loose_iff {pattern : List Char} :
    (∃ text, Loose pattern text) ↔ ¬∀ c ∈ pattern, Plain c := by
  constructor
  · rintro ⟨text, hlike, hglob⟩ hplain
    rw [glob_of_like hplain hlike] at hglob
    cases hglob
  · intro hplain
    refine ⟨pattern.flatMap replacement, like_replacement pattern, ?_⟩
    -- the text has at most as many characters as the pattern has besides stars
    by_contra hglob
    rw [Bool.not_eq_false] at hglob
    have hfilter : pattern.flatMap replacement =
        (pattern.filter (· ≠ '*')).flatMap replacement := by
      clear hplain hglob
      induction pattern with
      | nil => rfl
      | cons c pattern ih =>
        by_cases hstar : c = '*'
        · subst hstar
          rw [List.flatMap_cons, List.filter_cons_of_neg (by decide), ih]
          rfl
        · rw [List.flatMap_cons, List.filter_cons_of_pos (by simpa using hstar),
            List.flatMap_cons, ih]
    have hsub := sublist_of_glob hglob
    rw [hfilter] at hsub
    have heq := hsub.eq_of_length_le (length_flatMap_le length_replacement_le _)
    refine hplain fun c hc => ?_
    by_cases hstar : c = '*'
    · subst hstar
      decide
    · exact plain_of_replacement (eq_singleton_of_flatMap_eq length_replacement_le heq.symm c
        (List.mem_filter.2 ⟨hc, decide_eq_true hstar⟩))

/-! ## Beginnings -/

/-- A text is matched by its beginning and a percent sign. -/
theorem like_of_isPrefix {front text : List Char} (h : front <+: text) :
    like (front ++ ['%']) text = true := by
  obtain ⟨rest, rfl⟩ := h
  induction front with
  | nil => exact like_percent.2 ⟨[], List.nil_suffix, rfl⟩
  | cons c front ih =>
    rw [List.cons_append, List.cons_append]
    by_cases hpercent : c = '%'
    · rw [hpercent]
      exact like_percent.2 ⟨_, List.suffix_cons _ _, ih⟩
    by_cases hunderscore : c = '_'
    · rw [hunderscore, like_underscore, ih]
    · rw [like_cons hpercent hunderscore, sameLetter_self, ih]
      rfl

end LiNaStore
