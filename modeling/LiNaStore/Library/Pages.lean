import Mathlib.Data.List.Basic
import Mathlib.Data.List.Infix
import Mathlib.Tactic.Common

/-!
# Reading a list page by page

A list is delivered in pages: a page holds entries from a given position on, as many as fit into it
(`Pages.fill`). Every entry comes with the position after it, and the reader goes on at that of the
last entry of a page, until a page is empty (`Pages.Delivers`). If every entry fits into a page, then
this ends, and delivers the list as it is (`delivers_iff`).
-/

namespace LiNaStore.Pages

variable {α : Type}

/-- The entries that fit into what is left of a page, up to the first that does not. -/
def fill (size : α → ℕ) (capacity : ℕ) : ℕ → List α → List α
  | _, [] => []
  | used, a :: as =>
    if used + size a > capacity then [] else a :: fill size capacity (used + size a) as

/-- What a reader gets who starts at a position. -/
inductive Delivers (page : ℕ → List α) (next : α → ℕ) : ℕ → List α → Prop
  | done {offset : ℕ} : page offset = [] → Delivers page next offset []
  | more {offset : ℕ} {last : α} {rest : List α} : (page offset).getLast? = some last →
      Delivers page next (next last) rest → Delivers page next offset (page offset ++ rest)

theorem fill_isPrefix (size : α → ℕ) (capacity used : ℕ) (as : List α) :
    fill size capacity used as <+: as := by
  induction as generalizing used with
  | nil => exact List.prefix_rfl
  | cons a as ih =>
    rw [fill]
    split_ifs
    · exact List.nil_prefix
    · exact List.prefix_cons_inj a |>.2 (ih _)

/-- A page is empty only if nothing is left. -/
theorem fill_eq_nil_iff {size : α → ℕ} {capacity : ℕ} {as : List α} (h : ∀ a ∈ as, size a ≤ capacity) :
    fill size capacity 0 as = [] ↔ as = [] := by
  cases as with
  | nil => exact iff_of_true rfl rfl
  | cons a as =>
    rw [fill, Nat.zero_add, if_neg (Nat.not_lt.2 (h a List.mem_cons_self))]
    exact iff_of_false (List.cons_ne_nil _ _) (List.cons_ne_nil _ _)

variable {size : α → ℕ} {capacity : ℕ} {next : α → ℕ} {entries : List α}

/-- The last entry of a page leads to the entries after the page. -/
theorem drop_next (hnext : ∀ i a, entries[i]? = some a → next a = i + 1) {offset : ℕ} {last : α}
    (hlast : (fill size capacity 0 (entries.drop offset)).getLast? = some last) :
    entries.drop offset = fill size capacity 0 (entries.drop offset) ++ entries.drop (next last) ∧
      offset < next last ∧ next last ≤ entries.length := by
  obtain ⟨rest, hrest⟩ := fill_isPrefix size capacity 0 (entries.drop offset)
  generalize fill size capacity 0 (entries.drop offset) = page at hlast hrest
  obtain ⟨init, rfl⟩ := List.getLast?_eq_some_iff.1 hlast
  have hget : entries[offset + init.length]? = some last := by
    rw [← List.getElem?_drop, ← hrest]
    simp
  have hposition := hnext _ _ hget
  have hdrop : entries.drop (next last) = rest := by
    rw [hposition, Nat.add_assoc, ← List.drop_drop, ← hrest]
    exact List.drop_left' (by simp)
  refine ⟨by rw [hdrop, hrest], by omega, ?_⟩
  have hlt := (List.getElem?_eq_some_iff.1 hget).1
  omega

/-- If every entry fits into a page and tells the position after it, the whole list is delivered,
    and nothing else. -/
theorem delivers_iff (hsize : ∀ a ∈ entries, size a ≤ capacity)
    (hnext : ∀ i a, entries[i]? = some a → next a = i + 1) {offset : ℕ} {delivered : List α} :
    Delivers (fun offset => fill size capacity 0 (entries.drop offset)) next offset delivered ↔
      delivered = entries.drop offset := by
  have hempty (offset : ℕ) : fill size capacity 0 (entries.drop offset) = [] ↔
      entries.drop offset = [] :=
    fill_eq_nil_iff fun a ha => hsize a (List.mem_of_mem_drop ha)
  constructor
  · intro h
    induction h with
    | done hnil => exact ((hempty _).1 hnil).symm
    | more hlast _ ih => rw [ih, ← (drop_next hnext hlast).1]
  · rintro rfl
    -- on the number of entries that are left
    induction hleft : entries.length - offset using Nat.strong_induction_on generalizing offset with
    | _ left ih =>
      cases hlast : (fill size capacity 0 (entries.drop offset)).getLast? with
      | none =>
        have hnil := List.getLast?_eq_none_iff.1 hlast
        rw [(hempty offset).1 hnil]
        exact .done hnil
      | some last =>
        obtain ⟨hdrop, hlt, hle⟩ := drop_next hnext hlast
        rw [hdrop]
        exact .more hlast (ih _ (by omega) rfl)

end LiNaStore.Pages
