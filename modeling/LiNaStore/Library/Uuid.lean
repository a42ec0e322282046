import LiNaStore.Library.Utf8

/-!
# UUIDs

Sixteen bytes and their text: two digits for each byte, in groups of four, two, two, two
and six bytes with a hyphen between them. The text is never empty and has no zero byte.
-/

namespace LiNaStore

/-- The two digits of a byte. -/
def hexDigits (b : UInt8) : List Char := [Nat.digitChar (b.toNat / 16), Nat.digitChar (b.toNat % 16)]

/-- Sixteen bytes. -/
structure Uuid where
  bytes : Bytes
  length_bytes : bytes.length = 16
  deriving DecidableEq

namespace Uuid

/-- The digits of `n` bytes from the `i`-th on. -/
def group (u : Uuid) (i n : ℕ) : List Char := ((u.bytes.drop i).take n).flatMap hexDigits

/-- The characters of the text. -/
def chars (u : Uuid) : List Char :=
  u.group 0 4 ++ '-' :: u.group 4 2 ++ '-' :: u.group 6 2 ++ '-' :: u.group 8 2 ++
    '-' :: u.group 10 6

/-- The text. -/
def text (u : Uuid) : String := String.ofList u.chars

/-- The UUID that is `b` throughout. -/
def const (b : UInt8) : Uuid := ⟨List.replicate 16 b, List.length_replicate⟩

variable (u : Uuid)

theorem length_group {i n : ℕ} (h : i + n ≤ 16) : (u.group i n).length = 2 * n := by
  have htwo : ∀ b ∈ (u.bytes.drop i).take n, (hexDigits b).length = 2 := fun _ _ => rfl
  rw [group, List.length_flatMap, List.map_congr_left htwo, List.map_const', List.sum_replicate_nat,
    List.length_take, List.length_drop, u.length_bytes]
  omega

theorem length_chars : u.chars.length = 36 := by
  simp only [chars, List.length_append, List.length_cons, u.length_group (i := 0) (n := 4) (by decide),
    u.length_group (i := 4) (n := 2) (by decide), u.length_group (i := 6) (n := 2) (by decide),
    u.length_group (i := 8) (n := 2) (by decide), u.length_group (i := 10) (n := 6) (by decide)]

theorem digitChar_ascii : ∀ n < 16, 0 < (Nat.digitChar n).toNat ∧ (Nat.digitChar n).toNat < 128 := by
  decide

theorem group_ascii {i n : ℕ} {c : Char} (h : c ∈ u.group i n) : 0 < c.toNat ∧ c.toNat < 128 := by
  obtain ⟨b, -, hc⟩ := List.mem_flatMap.mp h
  have hb := b.toNat_lt
  rcases List.mem_cons.mp hc with rfl | hc
  · exact digitChar_ascii _ (by omega)
  · obtain rfl := List.mem_singleton.mp hc
    exact digitChar_ascii _ (by omega)

theorem chars_ascii {c : Char} (h : c ∈ u.chars) : 0 < c.toNat ∧ c.toNat < 128 := by
  simp only [chars, List.mem_append, List.mem_cons] at h
  rcases h with (((h | rfl | h) | rfl | h) | rfl | h) | rfl | h
  all_goals first
    | exact u.group_ascii h
    | decide

theorem utf8_text : utf8 u.text = u.chars.map fun c => UInt8.ofNat c.toNat :=
  utf8_ofList_ascii fun _ hc => (u.chars_ascii hc).2

/-- The text has 36 bytes. -/
theorem length_utf8_text : (utf8 u.text).length = 36 := by
  rw [utf8_text, List.length_map, length_chars]

/-- The text has no zero byte. -/
theorem zero_notMem_utf8_text : 0 ∉ utf8 u.text := by
  rw [utf8_text]
  intro h
  obtain ⟨c, hc, hzero⟩ := List.mem_map.mp h
  obtain ⟨hpos, hlt⟩ := u.chars_ascii hc
  have := congrArg UInt8.toNat hzero
  rw [UInt8.toNat_ofNat_of_lt' (Nat.lt_trans hlt (by decide)), UInt8.toNat_zero] at this
  omega

theorem text_ne_empty : u.text ≠ "" := by
  intro h
  have := u.length_utf8_text
  rw [h] at this
  exact absurd this (by decide)

end Uuid

end LiNaStore
