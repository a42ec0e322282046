import LiNaStore.Library.Bytes
import Mathlib.Data.List.Basic

/-!
# Reading from a connection

What comes over a connection is a byte string that arrives in pieces (`Stream`). A read
gives at most as many bytes as it asks for, and never bytes of two pieces
(`Stream.read`). Reading on until there are enough bytes (`Stream.readUntil`) may give
more than enough, if the reads may ask for more: how much they ask for is given by the
capacity of the buffer they read into, which grows when it is full.

A buffer ends up with exactly what was wanted if and only if a piece ends there or the
buffer is full there (`exists_fill`). With a buffer of exactly the wanted size that is
always so (`exists_readExact`).
-/

namespace LiNaStore

/-- The pieces of a byte string that are still to be read. -/
abbrev Stream := List Bytes

namespace Stream

/-- One read, of at most `limit` bytes; `none` at the end. -/
def read (limit : ℕ) : Stream → Option (Bytes × Stream)
  | [] => none
  | piece :: rest =>
    if piece = [] then read limit rest
    else some (piece.take limit, piece.drop limit :: rest)

/-- The first piece that is not empty. -/
def first : Stream → Bytes
  | [] => []
  | piece :: rest => if piece = [] then first rest else piece

/-- Read until there are enough bytes in the buffer, asking for as many as the buffer has
    room for. -/
def readUntil (cap : ℕ → ℕ) (enough : ℕ) : ℕ → Bytes → Stream → Option (Bytes × Stream)
  | 0, _, _ => none
  | fuel + 1, buf, s =>
    if enough ≤ buf.length then some (buf, s)
    else match read (cap buf.length - buf.length) s with
      | none => none
      | some (chunk, s') => readUntil cap enough fuel (buf ++ chunk) s'

/-- Read until the buffer has enough bytes; a read gives one byte at least. -/
def fill (cap : ℕ → ℕ) (enough : ℕ) (s : Stream) : Option (Bytes × Stream) :=
  readUntil cap enough (enough + 1) [] s

/-- Read exactly `n` bytes. -/
def readExact (n : ℕ) (s : Stream) : Option (Bytes × Stream) := fill (fun _ => n) n s

/-- A piece ends after the first `n` bytes. -/
def Boundary (s : Stream) (n : ℕ) : Prop := ∃ k, (s.take k).flatten.length = n

/-- `taken` has been read off the front of `s`, and `s'` is left: the same bytes, with the
    same ends of pieces. -/
structure Took (s : Stream) (taken : Bytes) (s' : Stream) : Prop where
  flatten : s.flatten = taken ++ s'.flatten
  boundary : ∀ n, 0 < n → (Boundary s' n ↔ Boundary s (taken.length + n))

/-- A buffer that has room for what is still wanted, and whose capacity stays as it is
    until it is full. -/
structure Roomy (cap : ℕ → ℕ) (enough : ℕ) : Prop where
  lt_cap : ∀ q, q < enough → q < cap q
  cap_eq : ∀ q r, q ≤ r → r < cap q → cap r = cap q

/-- From `p` bytes on, the reads come to stand at `enough`: they are there, or a piece ends
    there, or the buffer is full there. -/
def Stops (cap : ℕ → ℕ) (enough : ℕ) (s : Stream) (p : ℕ) : Prop :=
  p = enough ∨ Boundary s (enough - p) ∨ ∃ q, p ≤ q ∧ q < enough ∧ cap q = enough

variable {s s' s'' : Stream} {taken more : Bytes} {cap : ℕ → ℕ} {enough : ℕ}

/-! ## What was read and what is left -/

theorem Took.refl (s : Stream) : Took s [] s :=
  ⟨rfl, fun n _ => by rw [List.length_nil, Nat.zero_add]⟩

theorem Took.trans (h : Took s taken s') (h' : Took s' more s'') :
    Took s (taken ++ more) s'' := by
  refine ⟨?_, fun n hn => ?_⟩
  · rw [h.flatten, h'.flatten, List.append_assoc]
  · rw [h'.boundary n hn, h.boundary _ (by omega), List.length_append, Nat.add_assoc]

theorem Took.flatten_eq {bytes : Bytes} (h : Took s taken s')
    (hs : s.flatten = taken ++ bytes) : s'.flatten = bytes :=
  List.append_cancel_left (h.flatten.symm.trans hs)

theorem boundary_cons {piece : Bytes} {n : ℕ} (hn : 0 < n) :
    Boundary (piece :: s) n ↔ ∃ m, n = piece.length + m ∧ Boundary s m := by
  constructor
  · rintro ⟨k, hk⟩
    cases k with
    | zero =>
      rw [List.take_zero, List.flatten_nil, List.length_nil] at hk
      omega
    | succ k =>
      rw [List.take_succ_cons, List.flatten_cons, List.length_append] at hk
      exact ⟨_, hk.symm, k, rfl⟩
  · rintro ⟨m, rfl, k, rfl⟩
    exact ⟨k + 1, by rw [List.take_succ_cons, List.flatten_cons, List.length_append]⟩

theorem boundary_nil_cons {n : ℕ} (hn : 0 < n) :
    Boundary ([] :: s) n ↔ Boundary s n := by
  rw [boundary_cons hn]
  simp only [List.length_nil, Nat.zero_add, exists_eq_left']

/-- Cutting the front off the first piece moves the ends of the pieces with it. -/
theorem took_drop (piece : Bytes) (limit : ℕ) (s : Stream) :
    Took (piece :: s) (piece.take limit) (piece.drop limit :: s) := by
  refine ⟨?_, fun n hn => ?_⟩
  · rw [List.flatten_cons, List.flatten_cons, ← List.append_assoc, List.take_append_drop]
  · rw [boundary_cons hn, boundary_cons (by omega)]
    have hlen := congrArg List.length (List.take_append_drop limit piece)
    rw [List.length_append] at hlen
    constructor <;> rintro ⟨m, hm, hb⟩ <;> exact ⟨m, by omega, hb⟩

/-! ## One read -/

/-- What a read gives: something, no more than asked for, and all that was asked for
    unless a piece ends there; no piece ends within it. -/
theorem exists_read {limit : ℕ} (hlimit : 0 < limit) :
    ∀ {s : Stream}, 0 < s.flatten.length → ∃ chunk s',
      read limit s = some (chunk, s') ∧ Took s chunk s' ∧ 0 < chunk.length ∧
      chunk.length ≤ limit ∧ (chunk.length = limit ∨ Boundary s chunk.length) ∧
      ∀ n, 0 < n → n < chunk.length → ¬ Boundary s n
  | [], h => absurd h (by simp)
  | [] :: s, h => by
    -- an empty piece is skipped
    obtain ⟨chunk, s', hread, htook, hpos, hle, hend, hin⟩ :=
      exists_read hlimit (s := s) (by simpa using h)
    refine ⟨chunk, s', by rw [read, if_pos rfl, hread], ⟨htook.flatten, fun n hn => ?_⟩,
      hpos, hle, ?_, fun n hn hlt hb => hin n hn hlt ((boundary_nil_cons hn).mp hb)⟩
    · rw [htook.boundary n hn, boundary_nil_cons (by omega)]
    · rwa [boundary_nil_cons hpos]
  | (b :: bs) :: s, _ => by
    refine ⟨_, _, by rw [read, if_neg (List.cons_ne_nil b bs)], took_drop _ _ _, ?_, ?_, ?_, ?_⟩
    · rw [List.length_take, List.length_cons]
      omega
    · rw [List.length_take]
      omega
    · rw [List.length_take]
      rcases Nat.le_total limit (b :: bs).length with hle | hle
      · exact .inl (Nat.min_eq_left hle)
      · rw [Nat.min_eq_right hle]
        exact .inr ((boundary_cons (Nat.succ_pos _)).mpr ⟨0, rfl, 0, rfl⟩)
    · intro n hn hlt hb
      obtain ⟨m, hm, -⟩ := (boundary_cons hn).mp hb
      rw [List.length_take] at hlt
      omega

/-! ## Reading until there is enough -/

/-- A read that stays below does not change whether the reads come to stand there. -/
theorem stops_took {p : ℕ} (hroom : Roomy cap enough) (htook : Took s taken s')
    (hpos : 0 < taken.length) (hle : taken.length ≤ cap p - p)
    (hend : taken.length = cap p - p ∨ Boundary s taken.length)
    (hunder : p + taken.length ≤ enough) :
    Stops cap enough s' (p + taken.length) ↔ Stops cap enough s p := by
  rcases Nat.eq_or_lt_of_le hunder with heq | hlt
  · refine iff_of_true (.inl heq) (.inr ?_)
    rcases hend with hfull | hb
    · exact .inr ⟨p, Nat.le_refl p, by omega, by omega⟩
    · exact .inl (by rwa [← heq, Nat.add_sub_cancel_left])
  have hb := htook.boundary (enough - (p + taken.length)) (by omega)
  rw [show taken.length + (enough - (p + taken.length)) = enough - p by omega] at hb
  constructor
  · rintro (heq | hb' | ⟨q, hq, hq', hcap⟩)
    · omega
    · exact .inr (.inl (hb.mp hb'))
    · exact .inr (.inr ⟨q, by omega, hq', hcap⟩)
  · rintro (heq | hb' | ⟨q, hq, hq', hcap⟩)
    · omega
    · exact .inr (.inl (hb.mpr hb'))
    · -- below the read's end the capacity is what it was at `p`
      rcases Nat.lt_or_ge q (p + taken.length) with hlt' | hge
      · have hq₀ := hroom.cap_eq p q hq (by omega)
        have hr₀ := hroom.cap_eq p (p + taken.length) (by omega) (by omega)
        exact .inr (.inr ⟨p + taken.length, Nat.le_refl _, hlt, by omega⟩)
      · exact .inr (.inr ⟨q, hge, hq', hcap⟩)

/-- A read that goes past the end did not come to stand there. -/
theorem not_stops_of_lt {p : ℕ} (hroom : Roomy cap enough)
    (hle : taken.length ≤ cap p - p)
    (hin : ∀ n, 0 < n → n < taken.length → ¬ Boundary s n) (hp : p < enough)
    (hover : enough < p + taken.length) : ¬ Stops cap enough s p := by
  rintro (heq | hb | ⟨q, hq, hlt, hcap⟩)
  · omega
  · exact hin _ (by omega) (by omega) hb
  · have := hroom.cap_eq p q hq (by omega)
    omega

/-- Reading on from `buf` gives a buffer with enough bytes; it has exactly enough if and
    only if the reads come to stand there. -/
theorem exists_readUntil (hroom : Roomy cap enough) (fuel : ℕ) (buf : Bytes) (s : Stream)
    (hfuel : enough < buf.length + fuel) (hbuf : buf.length ≤ enough)
    (hs : enough ≤ buf.length + s.flatten.length) :
    ∃ taken s', readUntil cap enough fuel buf s = some (buf ++ taken, s') ∧ Took s taken s' ∧
      enough ≤ buf.length + taken.length ∧
      (buf.length + taken.length = enough ↔ Stops cap enough s buf.length) := by
  induction fuel generalizing buf s with
  | zero => omega
  | succ fuel ih =>
    rw [readUntil]
    by_cases hlt : enough ≤ buf.length
    · have heq : buf.length = enough := Nat.le_antisymm hbuf hlt
      refine ⟨[], s, by rw [if_pos hlt, List.append_nil], .refl s, hlt, ?_⟩
      exact iff_of_true heq (.inl heq)
    have hlimit : 0 < cap buf.length - buf.length :=
      Nat.sub_pos_of_lt (hroom.lt_cap _ (Nat.lt_of_not_le hlt))
    obtain ⟨chunk, s', hread, htook, hpos, hle, hend, hin⟩ :=
      exists_read hlimit (s := s) (by omega)
    rw [if_neg hlt, hread]
    have hlen : (buf ++ chunk).length = buf.length + chunk.length := List.length_append
    rcases Nat.lt_or_ge enough (buf.length + chunk.length) with hover | hunder
    · refine ⟨chunk, s', ?_, htook, Nat.le_of_lt hover, iff_of_false (Nat.ne_of_gt hover)
        (not_stops_of_lt hroom hle hin (Nat.lt_of_not_le hlt) hover)⟩
      cases fuel with
      | zero => omega
      | succ fuel => exact if_pos (by rw [hlen]; exact Nat.le_of_lt hover)
    · have hflat : s.flatten.length = chunk.length + s'.flatten.length := by
        rw [htook.flatten, List.length_append]
      obtain ⟨more, s'', hrun, htook', hge, hiff⟩ :=
        ih (buf ++ chunk) s' (by omega) (by omega) (by omega)
      rw [List.append_assoc] at hrun
      refine ⟨chunk ++ more, s'', hrun, htook.trans htook', ?_, ?_⟩
      · rw [List.length_append]
        omega
      · rw [List.length_append, ← Nat.add_assoc, ← hlen, hiff, hlen]
        exact stops_took hroom htook hpos hle hend hunder

/-- Filling a buffer gives enough bytes, and exactly enough if and only if the reads come
    to stand there. -/
theorem exists_fill (hroom : Roomy cap enough) (hs : enough ≤ s.flatten.length) :
    ∃ taken s', fill cap enough s = some (taken, s') ∧ Took s taken s' ∧
      enough ≤ taken.length ∧ (taken.length = enough ↔ Stops cap enough s 0) := by
  obtain ⟨taken, s', hrun, htook, hge, hiff⟩ :=
    exists_readUntil hroom (enough + 1) [] s (by simp) (Nat.zero_le _) (by simpa using hs)
  rw [List.length_nil, Nat.zero_add] at hge hiff
  exact ⟨taken, s', hrun, htook, hge, hiff⟩

/-- A buffer that is exactly large enough is full at the end. -/
theorem stops_const (n : ℕ) (s : Stream) : Stops (fun _ => n) n s 0 := by
  rcases Nat.eq_zero_or_pos n with rfl | hn
  · exact .inl rfl
  · exact .inr (.inr ⟨0, Nat.le_refl 0, hn, rfl⟩)

/-- An exact read gives what is in front, however it is cut. -/
theorem exists_readExact {front rest : Bytes} (hs : s.flatten = front ++ rest) :
    ∃ s', readExact front.length s = some (front, s') ∧ Took s front s' := by
  have hroom : Roomy (fun _ => front.length) front.length := ⟨fun _ h => h, fun _ _ _ _ => rfl⟩
  obtain ⟨taken, s', hrun, htook, -, hiff⟩ :=
    exists_fill hroom (s := s) (by rw [hs, List.length_append]; omega)
  have hlen := hiff.mpr (stops_const _ _)
  obtain rfl : taken = front :=
    (List.append_inj (htook.flatten.symm.trans hs) hlen).1
  exact ⟨s', hrun, htook⟩

/-! ## Running out of bytes -/

theorem flatten_of_read {limit : ℕ} {chunk : Bytes} (h : read limit s = some (chunk, s')) :
    s.flatten = chunk ++ s'.flatten := by
  induction s with
  | nil => cases h
  | cons piece s ih =>
    rw [read] at h
    split_ifs at h with hnil
    · rw [hnil, List.flatten_cons, List.nil_append]
      exact ih h
    · cases h
      exact (took_drop piece limit s).flatten

/-- A read gives the first piece, as far as it asks for it. -/
theorem exists_read_first (limit : ℕ) (h : s.flatten ≠ []) :
    ∃ s', read limit s = some (s.first.take limit, s') ∧
      s.flatten = s.first.take limit ++ s'.flatten := by
  induction s with
  | nil => exact absurd rfl h
  | cons piece s ih =>
    rw [read, first]
    split_ifs with hnil
    · subst hnil
      exact ih h
    · exact ⟨_, rfl, (took_drop piece limit s).flatten⟩

theorem first_ne_nil (h : s.flatten ≠ []) : s.first ≠ [] := by
  induction s with
  | nil => exact absurd rfl h
  | cons piece s ih =>
    rw [first]
    split_ifs with hnil
    · subst hnil
      exact ih h
    · exact hnil

theorem read_eq_none (limit : ℕ) (h : s.flatten = []) : read limit s = none := by
  induction s with
  | nil => rfl
  | cons piece s ih =>
    obtain ⟨hpiece, hrest⟩ := List.append_eq_nil_iff.mp h
    rw [read, if_pos hpiece]
    exact ih hrest

theorem flatten_of_readUntil {fuel : ℕ} {buf buf' : Bytes}
    (h : readUntil cap enough fuel buf s = some (buf', s')) :
    buf ++ s.flatten = buf' ++ s'.flatten ∧ enough ≤ buf'.length := by
  induction fuel generalizing buf s with
  | zero => cases h
  | succ fuel ih =>
    rw [readUntil] at h
    split_ifs at h with hbuf
    · cases h
      exact ⟨rfl, hbuf⟩
    · split at h
      · cases h
      · next chunk s₁ hread =>
        obtain ⟨hflat, hlen⟩ := ih h
        rw [flatten_of_read hread, ← List.append_assoc]
        exact ⟨hflat, hlen⟩

/-- An exact read gives the next `n` bytes if there are so many, and fails otherwise. -/
theorem readExact_cases (n : ℕ) (s : Stream) :
    (n ≤ s.flatten.length ∧ ∃ s', readExact n s = some (s.flatten.take n, s') ∧
      s'.flatten = s.flatten.drop n) ∨
    s.flatten.length < n ∧ readExact n s = none := by
  rcases Nat.lt_or_ge s.flatten.length n with hlt | hle
  · refine .inr ⟨hlt, ?_⟩
    rcases hread : readExact n s with _ | ⟨buf, s'⟩
    · rfl
    · obtain ⟨hflat, hlen⟩ := flatten_of_readUntil hread
      have := congrArg List.length hflat
      rw [List.nil_append, List.length_append] at this
      omega
  · have hs := (List.take_append_drop n s.flatten).symm
    obtain ⟨s', hread, htook⟩ := exists_readExact hs
    rw [List.length_take, Nat.min_eq_left hle] at hread
    exact .inl ⟨hle, s', hread, htook.flatten_eq hs⟩

/-! ## One piece -/

theorem read_singleton (limit : ℕ) {bytes : Bytes} (h : bytes ≠ []) :
    read limit [bytes] = some (bytes.take limit, [bytes.drop limit]) := by
  rw [read, if_neg h]

theorem readExact_singleton {n : ℕ} {bytes : Bytes} (h : n ≤ bytes.length) :
    readExact n [bytes] = some (bytes.take n, [bytes.drop n]) := by
  cases n with
  | zero => rfl
  | succ n =>
    have hne : bytes ≠ [] := List.ne_nil_of_length_pos (by omega)
    have hlength : n + 1 ≤ ([] ++ bytes.take (n + 1)).length := by
      rw [List.nil_append, List.length_take]
      omega
    rw [readExact, fill, readUntil, List.length_nil, if_neg (Nat.not_succ_le_zero n),
      Nat.sub_zero, read_singleton _ hne]
    dsimp only
    rw [readUntil, if_pos hlength, List.nil_append]

end Stream

end LiNaStore
