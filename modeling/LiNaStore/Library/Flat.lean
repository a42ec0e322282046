import Mathlib.Data.List.Basic
import Mathlib.Data.List.GetD
import Mathlib.Order.Lattice

/-!
# Arrays that grow

A flat file is an array that a write beyond its end makes longer, the gap being filled with a
default. Its operations are given here twice. Position by position, as what they are for:
`Flat.truncate`, `Flat.writeAt` and `Flat.slice` say what stands at each index. And as a
program has them on a vector: resizing it (`Flat.resize`), copying over a part of it that is
there (`Flat.copyAt`), taking a range (`Flat.range`). The two agree (`resize_eq_truncate`,
`copyAt_resize_eq_writeAt`, `range_eq_slice`).
-/

namespace LiNaStore.Flat

variable {α : Type*}

/-! ## Position by position -/

/-- The array of length `n` with the same elements, and the default beyond its end. -/
def truncate (zero : α) (a : List α) (n : ℕ) : List α := (List.range n).map fun i => a.getD i zero

/-- The array with `data` from `offset` on. -/
def writeAt (zero : α) (a : List α) (offset : ℕ) (data : List α) : List α :=
  (List.range (max a.length (offset + data.length))).map fun i =>
    if offset ≤ i ∧ i < offset + data.length then data.getD (i - offset) zero else a.getD i zero

/-- The elements from `offset` on, `size` of them or as many as there are. -/
def slice (zero : α) (a : List α) (offset size : ℕ) : List α :=
  (List.range (min size (a.length - offset))).map fun i => a.getD (offset + i) zero

/-! ## On a vector -/

/-- Cut a vector, or fill it up. -/
def resize (zero : α) (a : List α) (n : ℕ) : List α := a.take n ++ List.replicate (n - a.length) zero

/-- Copy `data` over the elements from `offset` on, which are there. -/
def copyAt (a : List α) (offset : ℕ) (data : List α) : List α :=
  a.take offset ++ data ++ a.drop (offset + data.length)

/-- The elements from `start` to `stop`. -/
def range (a : List α) (start stop : ℕ) : List α := (a.take stop).drop start

variable (zero : α) (a data : List α) (offset n size : ℕ)

@[simp] theorem length_resize : (resize zero a n).length = n := by
  rw [resize, List.length_append, List.length_take, List.length_replicate]
  omega

@[simp] theorem length_slice : (slice zero a offset size).length = min size (a.length - offset) := by
  rw [slice, List.length_map, List.length_range]

theorem getElem?_map_range (f : ℕ → α) (i : ℕ) :
    ((List.range n).map f)[i]? = if i < n then some (f i) else none := by
  rw [List.getElem?_map]
  split_ifs with hi
  · rw [List.getElem?_range hi, Option.map_some]
  · rw [List.getElem?_eq_none (by rw [List.length_range]; omega), Option.map_none]

theorem getElem?_resize (i : ℕ) :
    (resize zero a n)[i]? = if i < n then some (a.getD i zero) else none := by
  rw [resize, List.getElem?_append, List.length_take, List.getElem?_take, List.getElem?_replicate,
    List.getD_eq_getElem?_getD]
  by_cases hi : i < a.length
  · rw [List.getElem?_eq_getElem hi]
    split_ifs <;> first | rfl | omega
  · rw [List.getElem?_eq_none (not_lt.mp hi)]
    split_ifs <;> first | rfl | omega

theorem resize_eq_truncate : resize zero a n = truncate zero a n := by
  refine List.ext_getElem? fun i => ?_
  rw [getElem?_resize, truncate, getElem?_map_range]

/-- Writing is resizing the vector if it is too short, then copying. -/
theorem copyAt_resize_eq_writeAt :
    copyAt (if offset + data.length > a.length then resize zero a (offset + data.length) else a)
      offset data = writeAt zero a offset data := by
  have hresize : (if offset + data.length > a.length then resize zero a (offset + data.length)
      else a) = resize zero a (max a.length (offset + data.length)) := by
    split_ifs with hlt
    · rw [max_eq_right (by omega)]
    · rw [max_eq_left (by omega), resize, List.take_length, Nat.sub_self, List.replicate_zero,
        List.append_nil]
  rw [hresize]
  refine List.ext_getElem? fun i => ?_
  rw [copyAt, writeAt, getElem?_map_range, List.getElem?_append, List.getElem?_append,
    List.length_append, List.length_take, length_resize, min_eq_left (by omega), List.getElem?_take, List.getElem?_drop, getElem?_resize,
    getElem?_resize]
  by_cases hbefore : i < offset
  · -- before the part that is written
    rw [if_pos (by omega), if_pos hbefore, if_pos hbefore, if_pos (by omega), if_pos (by omega),
      if_neg (by omega)]
  by_cases hinside : i < offset + data.length
  · have hlt : i - offset < data.length := by omega
    rw [if_pos (by omega), if_neg hbefore, if_pos (by omega),
      if_pos ⟨not_lt.mp hbefore, hinside⟩, List.getElem?_eq_getElem hlt, List.getD_eq_getElem _ _ hlt]
  · -- behind it
    rw [if_neg (by omega), show offset + data.length + (i - (offset + data.length)) = i by omega,
      if_neg (c := offset ≤ i ∧ i < offset + data.length) fun h => hinside h.2]

theorem range_eq_slice :
    (if offset ≥ a.length then [] else range a offset (min (offset + size) a.length)) =
      slice zero a offset size := by
  refine List.ext_getElem? fun i => ?_
  rw [slice, getElem?_map_range]
  split_ifs with hoff hi hi
  · omega
  · rfl
  · rw [range, List.getElem?_drop, List.getElem?_take, if_pos (by omega),
      List.getD_eq_getElem _ _ (by omega), List.getElem?_eq_getElem (by omega)]
  · rw [range, List.getElem?_drop, List.getElem?_take]
    split_ifs
    · exact List.getElem?_eq_none (by omega)
    · rfl

end LiNaStore.Flat
