import LiNaStore.Library.Bytes

/-!
# Texts as bytes

The UTF-8 form of a text (`utf8`), reading it back (`fromUtf8`), and reading any bytes
as a text by putting a replacement character for what is not UTF-8
(`fromUtf8Lossy`). A sequence that is replaced is as long as the longest start of a
character there is, or else one byte.
-/

namespace LiNaStore

/-- The bytes of a text. -/
def utf8 (s : String) : Bytes := s.toByteArray.data.toList

/-- The text that bytes are the UTF-8 form of, if they are. -/
def fromUtf8 (bytes : Bytes) : Option String := String.fromUTF8? ⟨bytes.toArray⟩

theorem fromUtf8_utf8 (s : String) : fromUtf8 (utf8 s) = some s := by
  rw [fromUtf8, utf8, Array.toArray_toList]
  exact dif_pos s.isValidUTF8

theorem utf8_injective : Function.Injective utf8 := fun s t h =>
  Option.some.inj ((fromUtf8_utf8 s).symm.trans ((congrArg fromUtf8 h).trans (fromUtf8_utf8 t)))

theorem eq_utf8_of_fromUtf8 {bytes : Bytes} {s : String} (h : fromUtf8 bytes = some s) :
    bytes = utf8 s := by
  rw [fromUtf8, String.fromUTF8?] at h
  split_ifs at h with hvalid
  cases h
  rw [utf8, String.fromUTF8]

theorem utf8_append (s t : String) : utf8 (s ++ t) = utf8 s ++ utf8 t := by
  rw [utf8, String.toByteArray_append, ByteArray.data_append, Array.toList_append]
  rfl

theorem utf8_ofList (cs : List Char) :
    utf8 (String.ofList cs) = cs.flatMap String.utf8EncodeChar := by
  rw [utf8, String.toByteArray_ofList, List.utf8Encode, List.data_toByteArray, List.toList_toArray]

theorem utf8EncodeChar_ascii {c : Char} (h : c.toNat < 128) :
    String.utf8EncodeChar c = [UInt8.ofNat c.toNat] :=
  if_pos (Nat.le_of_lt_succ h)

/-- A text of ASCII characters has one byte for each. -/
theorem utf8_ofList_ascii {cs : List Char} (h : ∀ c ∈ cs, c.toNat < 128) :
    utf8 (String.ofList cs) = cs.map fun c => UInt8.ofNat c.toNat := by
  rw [utf8_ofList]
  induction cs with
  | nil => rfl
  | cons c cs ih =>
    obtain ⟨hc, hcs⟩ := List.forall_mem_cons.mp h
    rw [List.flatMap_cons, List.map_cons, utf8EncodeChar_ascii hc, ih hcs]
    rfl

theorem toNat_ofNat_of_lt {n : ℕ} (h : n < 256) : (UInt8.ofNat n).toNat = n := by
  rw [UInt8.toNat_ofNat', Nat.mod_eq_of_lt h]

/-- The only character whose form has a zero byte is the zero character. -/
theorem zero_mem_utf8EncodeChar {c : Char} (h : 0 ∈ String.utf8EncodeChar c) : c = '\x00' := by
  have hbyte {n : ℕ} (hn : n < 256) (hzero : 0 = UInt8.ofNat n) : n = 0 :=
    (toNat_ofNat_of_lt hn).symm.trans (congrArg UInt8.toNat hzero).symm
  have hval : c.val.toNat = 0 := by
    unfold String.utf8EncodeChar at h
    dsimp only at h
    split_ifs at h with h1
    · exact hbyte (by omega) (List.mem_singleton.mp h)
    · simp only [List.mem_cons, List.not_mem_nil, or_false] at h
      rcases h with h | h <;> exact absurd (hbyte (by omega) h) (by omega)
    · simp only [List.mem_cons, List.not_mem_nil, or_false] at h
      rcases h with h | h | h <;> exact absurd (hbyte (by omega) h) (by omega)
    · simp only [List.mem_cons, List.not_mem_nil, or_false] at h
      rcases h with h | h | h | h <;> exact absurd (hbyte (by omega) h) (by omega)
  exact Char.ext (UInt32.toNat_inj.mp hval)

theorem zero_mem_utf8_iff {s : String} : 0 ∈ utf8 s ↔ '\x00' ∈ s.toList := by
  rw [← s.ofList_toList, utf8_ofList, String.toList_ofList, List.mem_flatMap]
  constructor
  · rintro ⟨c, hc, hzero⟩
    rwa [← zero_mem_utf8EncodeChar hzero]
  · exact fun h => ⟨'\x00', h, List.mem_cons_self⟩

/-! ## Replacing what is not UTF-8 -/

/-- Whether a byte is one that continues a character. -/
def isContinuation (b : UInt8) : Bool := 0x80 ≤ b ∧ b ≤ 0xBF

/-- Whether the second byte of a character of three or four bytes may follow the first:
    no character has a longer form than needed, is a surrogate or is too large. -/
def isSecond (first second : UInt8) : Bool :=
  if first = 0xE0 then 0xA0 ≤ second ∧ second ≤ 0xBF
  else if first = 0xED then 0x80 ≤ second ∧ second ≤ 0x9F
  else if first = 0xF0 then 0x90 ≤ second ∧ second ≤ 0xBF
  else if first = 0xF4 then 0x80 ≤ second ∧ second ≤ 0x8F
  else isContinuation second

/-- The number of bytes of the character that bytes begin with, or of the sequence that is
    to be replaced. Beyond the end there are zeros. -/
def sequenceLength (first : UInt8) (rest : Bytes) : ℕ :=
  if 0xC2 ≤ first ∧ first ≤ 0xDF then
    if isContinuation (rest.getD 0 0) then 2 else 1
  else if 0xE0 ≤ first ∧ first ≤ 0xEF then
    if isSecond first (rest.getD 0 0) then if isContinuation (rest.getD 1 0) then 3 else 2 else 1
  else if 0xF0 ≤ first ∧ first ≤ 0xF4 then
    if isSecond first (rest.getD 0 0) then
      if isContinuation (rest.getD 1 0) then if isContinuation (rest.getD 2 0) then 4 else 3 else 2
    else 1
  else 1

/-- The text of at most `fuel` sequences. -/
def replaceInvalid : ℕ → Bytes → String
  | 0, _ => ""
  | _, [] => ""
  | fuel + 1, first :: rest =>
    let n := sequenceLength first rest
    (fromUtf8 ((first :: rest).take n)).getD "�" ++ replaceInvalid fuel ((first :: rest).drop n)

/-- The text of bytes, with replacements for what is not UTF-8. -/
def fromUtf8Lossy (bytes : Bytes) : String :=
  (fromUtf8 bytes).getD (replaceInvalid bytes.length bytes)

/-- A character is one sequence, whatever follows it. -/
theorem sequenceLength_utf8EncodeChar {c : Char} {first : UInt8} {rest : Bytes}
    (h : String.utf8EncodeChar c = first :: rest) (more : Bytes) :
    sequenceLength first (rest ++ more) = rest.length + 1 := by
  have hvalid := c.valid
  rw [UInt32.isValidChar, Nat.isValidChar] at hvalid
  unfold String.utf8EncodeChar at h
  dsimp only at h
  generalize c.val.toNat = v at h hvalid
  split_ifs at h with h1 h2 h3
  · have ha := toNat_ofNat_of_lt (n := v) (by omega)
    obtain ⟨rfl, rfl⟩ := List.cons.inj h
    simp only [sequenceLength, UInt8.le_iff_toNat_le, ha, UInt8.reduceToNat]
    split_ifs <;> first | rfl | omega
  · have ha := toNat_ofNat_of_lt (n := v / 64 % 32 + 192) (by omega)
    have hb := toNat_ofNat_of_lt (n := v % 64 + 128) (by omega)
    obtain ⟨rfl, rfl⟩ := List.cons.inj h
    simp only [sequenceLength, isContinuation, UInt8.le_iff_toNat_le, ha, hb, UInt8.reduceToNat,
      List.cons_append, List.getD_cons_zero, decide_eq_true_eq]
    rw [if_pos (by omega), if_pos (by omega)]
    rfl
  · have ha := toNat_ofNat_of_lt (n := v / 4096 % 16 + 224) (by omega)
    have hb := toNat_ofNat_of_lt (n := v / 64 % 64 + 128) (by omega)
    have hc := toNat_ofNat_of_lt (n := v % 64 + 128) (by omega)
    obtain ⟨rfl, rfl⟩ := List.cons.inj h
    simp only [sequenceLength, isContinuation, isSecond, UInt8.le_iff_toNat_le, ha, hb, hc, UInt8.reduceToNat,
      List.cons_append, List.getD_cons_zero, List.getD_cons_succ, decide_eq_true_eq, ← UInt8.toNat_inj]
    rw [if_neg (by omega), if_pos (by omega), if_pos, if_pos (by omega)]
    · rfl
    · split_ifs <;> simp only [decide_eq_true_eq] <;> omega
  · have ha := toNat_ofNat_of_lt (n := v / 262144 % 8 + 240) (by omega)
    have hb := toNat_ofNat_of_lt (n := v / 4096 % 64 + 128) (by omega)
    have hc := toNat_ofNat_of_lt (n := v / 64 % 64 + 128) (by omega)
    have hd := toNat_ofNat_of_lt (n := v % 64 + 128) (by omega)
    obtain ⟨rfl, rfl⟩ := List.cons.inj h
    simp only [sequenceLength, isContinuation, isSecond, UInt8.le_iff_toNat_le, ha, hb, hc, hd,
      UInt8.reduceToNat, List.cons_append, List.getD_cons_zero, List.getD_cons_succ,
      decide_eq_true_eq, ← UInt8.toNat_inj]
    rw [if_neg (by omega), if_neg (by omega), if_pos (by omega), if_pos, if_pos (by omega),
      if_pos (by omega)]
    · rfl
    · split_ifs <;> simp only [decide_eq_true_eq] <;> omega

theorem sequenceLength_pos (first : UInt8) (rest : Bytes) : 0 < sequenceLength first rest := by
  unfold sequenceLength
  split_ifs <;> decide

/-- More sequences than there are bytes do not occur. -/
theorem replaceInvalid_congr {m n : ℕ} {bytes : Bytes} (hm : bytes.length ≤ m)
    (hn : bytes.length ≤ n) : replaceInvalid m bytes = replaceInvalid n bytes := by
  induction m generalizing n bytes with
  | zero =>
    obtain rfl := List.eq_nil_of_length_eq_zero (Nat.le_zero.mp hm)
    cases n <;> rfl
  | succ m ih =>
    cases bytes with
    | nil => cases n <;> rfl
    | cons first rest =>
      obtain ⟨n, rfl⟩ := Nat.exists_eq_succ_of_ne_zero (Nat.ne_of_gt (Nat.zero_lt_of_lt hn))
      have hpos := sequenceLength_pos first rest
      rw [List.length_cons] at hm hn
      rw [replaceInvalid, replaceInvalid, ih (n := n)]
      all_goals
        rw [List.length_drop, List.length_cons]
        omega

theorem replaceInvalid_cons (first : UInt8) (rest : Bytes) :
    replaceInvalid (first :: rest).length (first :: rest) =
      (fromUtf8 ((first :: rest).take (sequenceLength first rest))).getD "�" ++
        replaceInvalid ((first :: rest).drop (sequenceLength first rest)).length
          ((first :: rest).drop (sequenceLength first rest)) := by
  have hpos := sequenceLength_pos first rest
  rw [List.length_cons, replaceInvalid]
  refine congrArg _ (replaceInvalid_congr ?_ (Nat.le_refl _))
  rw [List.length_drop, List.length_cons]
  omega

theorem replaceInvalid_utf8_append (s : String) (bytes : Bytes) :
    replaceInvalid (utf8 s ++ bytes).length (utf8 s ++ bytes) =
      s ++ replaceInvalid bytes.length bytes := by
  obtain ⟨cs, rfl⟩ : ∃ cs, s = String.ofList cs := ⟨s.toList, s.ofList_toList.symm⟩
  induction cs with
  | nil => exact String.empty_append.symm
  | cons c cs ih =>
    obtain ⟨first, rest, hchar⟩ : ∃ first rest, String.utf8EncodeChar c = first :: rest := by
      refine List.exists_cons_of_length_pos ?_
      rw [String.length_utf8EncodeChar]
      exact c.utf8Size_pos
    have hsplit : utf8 (String.ofList (c :: cs)) ++ bytes =
        first :: (rest ++ (utf8 (String.ofList cs) ++ bytes)) := by
      rw [utf8_ofList, utf8_ofList, List.flatMap_cons, hchar]
      simp
    have htext : utf8 (String.ofList [c]) = first :: rest := by
      rw [utf8_ofList, List.flatMap_singleton, hchar]
    have hlist : String.ofList ([c] ++ cs) = String.ofList [c] ++ String.ofList cs :=
      String.ofList_append
    rw [hsplit, replaceInvalid_cons, sequenceLength_utf8EncodeChar hchar, ← List.cons_append,
      ← List.length_cons (a := first), List.take_left, List.drop_left, ← htext, fromUtf8_utf8,
      Option.getD_some, ih, ← String.append_assoc, ← hlist, List.singleton_append]

/-- The text of any bytes is put together from sequences. -/
theorem fromUtf8Lossy_eq (bytes : Bytes) :
    fromUtf8Lossy bytes = replaceInvalid bytes.length bytes := by
  rw [fromUtf8Lossy]
  rcases h : fromUtf8 bytes with _ | s
  · rfl
  · have happend := replaceInvalid_utf8_append s []
    rw [List.append_nil, ← eq_utf8_of_fromUtf8 h] at happend
    rw [happend, Option.getD_some]
    exact String.append_empty.symm

theorem fromUtf8Lossy_utf8_append (s : String) (bytes : Bytes) :
    fromUtf8Lossy (utf8 s ++ bytes) = s ++ fromUtf8Lossy bytes := by
  rw [fromUtf8Lossy_eq, fromUtf8Lossy_eq, replaceInvalid_utf8_append]

theorem fromUtf8Lossy_cons (first : UInt8) (rest : Bytes) :
    fromUtf8Lossy (first :: rest) =
      (fromUtf8 ((first :: rest).take (sequenceLength first rest))).getD "�" ++
        fromUtf8Lossy ((first :: rest).drop (sequenceLength first rest)) := by
  rw [fromUtf8Lossy_eq, fromUtf8Lossy_eq, replaceInvalid_cons]

/-- Bytes none of which was replaced are the form of their text. -/
theorem eq_utf8_of_notMem {bytes : Bytes} (h : '�' ∉ (fromUtf8Lossy bytes).toList) :
    bytes = utf8 (fromUtf8Lossy bytes) := by
  induction hlen : bytes.length using Nat.strong_induction_on generalizing bytes with
  | _ n ih =>
    cases bytes with
    | nil => rfl
    | cons first rest =>
      have hpos := sequenceLength_pos first rest
      rw [fromUtf8Lossy_cons, String.toList_append, List.mem_append, not_or] at h
      rcases htext : fromUtf8 ((first :: rest).take (sequenceLength first rest)) with _ | s
      · rw [htext] at h
        exact absurd (List.mem_singleton.mpr rfl) h.1
      · have hrest := ih _ (by rw [← hlen, List.length_drop, List.length_cons]; omega) h.2 rfl
        rw [fromUtf8Lossy_cons, utf8_append, ← hrest, htext, Option.getD_some,
          ← eq_utf8_of_fromUtf8 htext, List.take_append_drop]

/-- Two bytes that are in no character. -/
theorem fromUtf8Lossy_invalid_cons {b : UInt8} (hb : b = 0xFE ∨ b = 0xFF) (more : Bytes) :
    fromUtf8Lossy (b :: more) = "�" ++ fromUtf8Lossy more := by
  have hone : sequenceLength b more = 1 := by rcases hb with rfl | rfl <;> rfl
  have hnone : fromUtf8 [b] = none := by rcases hb with rfl | rfl <;> decide
  rw [fromUtf8Lossy_cons, hone, List.take_succ_cons, List.take_zero, hnone, List.drop_succ_cons,
    List.drop_zero, Option.getD_none]

/-- A replacement character can stand for a byte that was replaced. -/
theorem exists_fromUtf8Lossy_text {s : String} (h : '�' ∈ s.toList) (more : Bytes) :
    ∃ bytes, bytes ≠ utf8 s ++ more ∧ fromUtf8Lossy bytes = fromUtf8Lossy (utf8 s ++ more) ∧
      bytes.length ≤ (utf8 s ++ more).length ∧ (0 ∈ bytes → 0 ∈ utf8 s ++ more) := by
  obtain ⟨l, l', hl⟩ := List.append_of_mem h
  have hs : utf8 s = utf8 (.ofList l) ++ (0xEF :: 0xBF :: 0xBD :: utf8 (.ofList l')) := by
    rw [← s.ofList_toList, hl, utf8_ofList, utf8_ofList, utf8_ofList, List.flatMap_append,
      List.flatMap_cons]
    rfl
  have hs' : s = .ofList l ++ ("�" ++ .ofList l') := by
    have hchar : String.ofList (['�'] ++ l') = "�" ++ .ofList l' := String.ofList_append
    rw [← s.ofList_toList, hl, String.ofList_append, ← hchar, List.singleton_append]
  refine ⟨utf8 (.ofList l) ++ 0xFF :: (utf8 (.ofList l') ++ more), ?_, ?_, ?_, ?_⟩
  · intro heq
    have hlength := congrArg List.length heq
    simp only [hs, List.length_append, List.length_cons] at hlength
    omega
  · rw [fromUtf8Lossy_utf8_append, fromUtf8Lossy_invalid_cons (.inr rfl),
      fromUtf8Lossy_utf8_append, fromUtf8Lossy_utf8_append, hs', String.append_assoc,
      String.append_assoc]
  · simp only [hs, List.length_append, List.length_cons]
    omega
  · intro hzero
    rw [hs]
    simp only [List.mem_append, List.mem_cons] at hzero ⊢
    rcases hzero with hzero | hzero | hzero | hzero
    · exact .inl (.inl hzero)
    · cases hzero
    · exact .inl (.inr (.inr (.inr (.inr hzero))))
    · exact .inr hzero

/-- If there is a replacement character in the text of bytes, other bytes have that text as
    well. -/
theorem exists_fromUtf8Lossy_eq {bytes : Bytes} (h : '�' ∈ (fromUtf8Lossy bytes).toList) :
    ∃ bytes', bytes' ≠ bytes ∧ fromUtf8Lossy bytes' = fromUtf8Lossy bytes ∧
      bytes'.length ≤ bytes.length ∧ (0 ∈ bytes' → 0 ∈ bytes) := by
  induction hlen : bytes.length using Nat.strong_induction_on generalizing bytes with
  | _ n ih =>
    subst hlen
    cases bytes with
    | nil => exact absurd h List.not_mem_nil
    | cons first rest =>
      have hpos := sequenceLength_pos first rest
      have hcons := fromUtf8Lossy_cons first rest
      generalize sequenceLength first rest = k at hpos hcons
      have hdrop : ((first :: rest).drop k).length + 1 ≤ (first :: rest).length := by
        rw [List.length_drop, List.length_cons]
        omega
      rcases htext : fromUtf8 ((first :: rest).take k) with _ | s
      · -- the first sequence is replaced: put another byte for it
        rw [htext, Option.getD_none] at hcons
        obtain ⟨b, hb, hne⟩ : ∃ b : UInt8, (b = 0xFE ∨ b = 0xFF) ∧
            b :: (first :: rest).drop k ≠ first :: rest := by
          by_cases hff : first = 0xFF
          · exact ⟨0xFE, .inl rfl, fun h => absurd ((List.cons.inj h).1.trans hff) (by decide)⟩
          · exact ⟨0xFF, .inr rfl, fun h => hff (List.cons.inj h).1.symm⟩
        refine ⟨b :: (first :: rest).drop k, hne, ?_, hdrop, fun hzero => ?_⟩
        · rw [fromUtf8Lossy_invalid_cons hb, hcons]
        · rcases List.mem_cons.mp hzero with rfl | hzero
          · exact absurd hb (by decide)
          · exact List.mem_of_mem_drop hzero
      · have hbytes : first :: rest = utf8 s ++ (first :: rest).drop k := by
          rw [← eq_utf8_of_fromUtf8 htext, List.take_append_drop]
        generalize (first :: rest).drop k = more at hbytes hdrop hcons
        rw [hbytes] at hdrop h ⊢
        by_cases hmem : '�' ∈ s.toList
        · exact exists_fromUtf8Lossy_text hmem more
        · rw [fromUtf8Lossy_utf8_append, String.toList_append, List.mem_append,
            or_iff_right hmem] at h
          obtain ⟨more', hne, htexts, hle, hzero⟩ := ih more.length
            (by rw [hbytes]; omega) h rfl
          refine ⟨utf8 s ++ more', fun h => hne (List.append_cancel_left h), ?_, ?_, ?_⟩
          · rw [fromUtf8Lossy_utf8_append, fromUtf8Lossy_utf8_append, htexts]
          · rw [List.length_append, List.length_append]
            omega
          · exact fun h => List.mem_append.mpr ((List.mem_append.mp h).imp_right hzero)

theorem fromUtf8Lossy_utf8 (s : String) : fromUtf8Lossy (utf8 s) = s := by
  rw [fromUtf8Lossy, fromUtf8_utf8, Option.getD_some]

example : fromUtf8Lossy [0x61, 0xE2, 0x82, 0xFF, 0x62] = "a��b" := by decide

end LiNaStore
