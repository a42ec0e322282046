import Mathlib.Data.List.Nodup

/-!
# Tables with a primary key

A *table* is a list of rows, in the order they were inserted, no two of which
have the same key. The key constraint is part of the type, so that it never has
to be proved again: inserting a row whose key is taken leaves the table as it is
(`Table.insert`), updating rows may not change their keys (`Table.update`).

A table is read in two ways, by its keys (`Table.find?`) and by its rows, and
the operations have a rule for each: `find?_insert`, `find?_erase`,
`find?_filter`, `find?_update`, `find?_set`, and `mem_insert`, `mem_erase`, `mem_update`. The
rows satisfying a predicate are counted by `countP_insert`, `countP_erase` and
`countP_update`, and taken out by `filter_insert`, `filter_erase`, `filter_update` and
`filter_set`.

A second column may be declared unique too (`UniqueTable`); inserting a row then
fails if one of the two values is taken.
-/

namespace LiNaStore

variable {κ ρ : Type} {key : ρ → κ}

/-- A table of rows `ρ` with the primary key `key`. -/
@[ext] structure Table (key : ρ → κ) where
  /-- The rows, oldest first. -/
  rows : List ρ
  /-- No two rows have the same key. -/
  nodup_keys : (rows.map key).Nodup

namespace Table

variable [DecidableEq κ]

/-- The table with no rows. -/
def empty : Table key := ⟨[], List.nodup_nil⟩

/-- The row with the key `k`. -/
def find? (t : Table key) (k : κ) : Option ρ := t.rows.find? fun r => key r = k

omit [DecidableEq κ] in
theorem eq_of_key_eq (t : Table key) {r r' : ρ} (hr : r ∈ t.rows) (hr' : r' ∈ t.rows)
    (h : key r = key r') : r = r' :=
  List.inj_on_of_nodup_map t.nodup_keys hr hr' h

theorem find?_eq_some_iff {t : Table key} {k : κ} {r : ρ} :
    t.find? k = some r ↔ r ∈ t.rows ∧ key r = k := by
  constructor
  · intro h
    exact ⟨List.mem_of_find?_eq_some h, by simpa using List.find?_some h⟩
  · rintro ⟨hr, rfl⟩
    cases h : t.find? (key r) with
    | none => simpa using List.find?_eq_none.1 h r hr
    | some r' =>
      have hk : key r' = key r := by simpa using List.find?_some h
      rw [t.eq_of_key_eq (List.mem_of_find?_eq_some h) hr hk]

theorem find?_eq_none_iff {t : Table key} {k : κ} : t.find? k = none ↔ ∀ r ∈ t.rows, key r ≠ k := by
  rw [find?, List.find?_eq_none]
  simp

/-- A row is found by its key. -/
theorem find?_key {t : Table key} {r : ρ} (hr : r ∈ t.rows) : t.find? (key r) = some r :=
  find?_eq_some_iff.2 ⟨hr, rfl⟩

theorem mem_of_find? {t : Table key} {k : κ} {r : ρ} (h : t.find? k = some r) : r ∈ t.rows :=
  (find?_eq_some_iff.1 h).1

theorem key_of_find? {t : Table key} {k : κ} {r : ρ} (h : t.find? k = some r) : key r = k :=
  (find?_eq_some_iff.1 h).2

omit [DecidableEq κ] in
/-- A row of a table, and the others, with other keys. -/
theorem exists_split (t : Table key) {r : ρ} (hr : r ∈ t.rows) :
    ∃ A B, t.rows = A ++ r :: B ∧ ∀ r' ∈ A ++ B, key r' ≠ key r := by
  obtain ⟨A, B, h⟩ := List.append_of_mem hr
  refine ⟨A, B, h, fun r' hr' hk => ?_⟩
  have hnd := t.nodup_keys
  rw [h, List.map_append, List.map_cons, List.nodup_middle, List.nodup_cons,
    ← List.map_append] at hnd
  exact hnd.1 (List.mem_map.2 ⟨r', hr', hk⟩)

omit [DecidableEq κ] in
@[simp] theorem rows_empty : (empty : Table key).rows = [] := rfl

@[simp] theorem find?_empty (k : κ) : (empty : Table key).find? k = none := rfl

/-! ## Inserting -/

/-- Insert a row after the others, if its key is free. -/
def insert (t : Table key) (r : ρ) : Table key :=
  if h : ∃ r' ∈ t.rows, key r' = key r then t else
    ⟨t.rows ++ [r], by
      rw [List.map_append, List.map_cons, List.map_nil, ← List.concat_eq_append]
      exact t.nodup_keys.concat fun hk => h (List.mem_map.1 hk)⟩

theorem rows_insert {t : Table key} {r : ρ} (h : t.find? (key r) = none) :
    (t.insert r).rows = t.rows ++ [r] := by
  have hk : ¬∃ r' ∈ t.rows, key r' = key r := fun ⟨r', hr', hk⟩ => find?_eq_none_iff.1 h r' hr' hk
  simp [insert, hk]

theorem mem_insert {t : Table key} {r r' : ρ} (h : t.find? (key r) = none) :
    r' ∈ (t.insert r).rows ↔ r' ∈ t.rows ∨ r' = r := by
  rw [rows_insert h, List.mem_append, List.mem_singleton]

theorem find?_insert {t : Table key} {r : ρ} (h : t.find? (key r) = none) (k : κ) :
    (t.insert r).find? k = if k = key r then some r else t.find? k := by
  split
  · next hk => exact find?_eq_some_iff.2 ⟨(mem_insert h).2 (.inr rfl), hk.symm⟩
  · next hk =>
    ext r'
    rw [find?_eq_some_iff, find?_eq_some_iff, mem_insert h]
    constructor
    · rintro ⟨hr | rfl, rfl⟩
      · exact ⟨hr, rfl⟩
      · exact absurd rfl hk
    · exact fun ⟨hr, hk⟩ => ⟨.inl hr, hk⟩

theorem countP_insert {t : Table key} {r : ρ} (h : t.find? (key r) = none) (p : ρ → Bool) :
    (t.insert r).rows.countP p = t.rows.countP p + if p r then 1 else 0 := by
  rw [rows_insert h, List.countP_append, List.countP_singleton]

/-! ## Erasing -/

/-- Erase the row with the key `k`. -/
def erase (t : Table key) (k : κ) : Table key :=
  ⟨t.rows.filter fun r => key r ≠ k, t.nodup_keys.sublist (List.filter_sublist.map _)⟩

theorem mem_erase {t : Table key} {k : κ} {r : ρ} :
    r ∈ (t.erase k).rows ↔ r ∈ t.rows ∧ key r ≠ k := by
  simp [erase]

theorem find?_erase (t : Table key) (k k' : κ) :
    (t.erase k).find? k' = if k' = k then none else t.find? k' := by
  split
  · next hk => exact find?_eq_none_iff.2 fun r hr => hk ▸ (mem_erase.1 hr).2
  · next hk =>
    ext r
    rw [find?_eq_some_iff, find?_eq_some_iff, mem_erase]
    constructor
    · exact fun ⟨⟨hr, _⟩, hk⟩ => ⟨hr, hk⟩
    · rintro ⟨hr, rfl⟩
      exact ⟨⟨hr, hk⟩, rfl⟩

theorem countP_erase {t : Table key} {k : κ} {r : ρ} (h : t.find? k = some r) (p : ρ → Bool) :
    ((t.erase k).rows.countP p + if p r then 1 else 0) = t.rows.countP p := by
  obtain ⟨A, B, hAB, hne⟩ := t.exists_split (mem_of_find? h)
  have hk := key_of_find? h
  have hrows : (t.erase k).rows = A ++ B := by
    have hid : (A ++ B).filter (fun r' => key r' ≠ k) = A ++ B :=
      List.filter_eq_self.2 fun r' hr' => by simpa [← hk] using hne r' hr'
    rw [← hid]
    simp [erase, hAB, hk]
  rw [hrows, hAB, List.countP_append, List.countP_append, List.countP_cons, Nat.add_assoc]

theorem erase_of_find?_eq_none {t : Table key} {k : κ} (h : t.find? k = none) : t.erase k = t := by
  ext1
  exact List.filter_eq_self.2 fun r hr => by simpa using find?_eq_none_iff.1 h r hr

/-- Erasing what was inserted. -/
theorem erase_insert {t : Table key} {r : ρ} (h : t.find? (key r) = none) :
    (t.insert r).erase (key r) = t := by
  ext1
  change (t.insert r).rows.filter _ = _
  rw [rows_insert h, List.filter_append]
  have := congrArg rows (erase_of_find?_eq_none h)
  simpa [erase] using this

/-! ## Filtering -/

/-- Keep the rows satisfying `p`. -/
def filter (t : Table key) (p : ρ → Bool) : Table key :=
  ⟨t.rows.filter p, t.nodup_keys.sublist (List.filter_sublist.map _)⟩

theorem find?_filter (t : Table key) (p : ρ → Bool) (k : κ) :
    (t.filter p).find? k = (t.find? k).filter p := by
  ext r
  rw [find?_eq_some_iff, Option.filter_eq_some_iff, find?_eq_some_iff]
  change r ∈ t.rows.filter p ∧ key r = k ↔ _
  rw [List.mem_filter]
  exact and_right_comm

/-! ## Updating -/

/-- Apply `f` to the rows satisfying `p`; their keys stay. -/
def update (t : Table key) (p : ρ → Bool) (f : ρ → ρ) (hf : ∀ r, key (f r) = key r) : Table key :=
  ⟨t.rows.map fun r => if p r then f r else r, by
    have : key ∘ (fun r => if p r then f r else r) = key := by
      funext r
      rw [Function.comp_apply]
      split
      · exact hf r
      · rfl
    rw [List.map_map, this]
    exact t.nodup_keys⟩

variable {p : ρ → Bool} {f : ρ → ρ} {hf : ∀ r, key (f r) = key r}

omit [DecidableEq κ] in
theorem mem_update {t : Table key} {r : ρ} :
    r ∈ (t.update p f hf).rows ↔ ∃ r' ∈ t.rows, (if p r' then f r' else r') = r := by
  simp only [update, List.mem_map]

theorem find?_update (t : Table key) (k : κ) :
    (t.update p f hf).find? k = (t.find? k).map fun r => if p r then f r else r := by
  have hkey : ∀ r, key (if p r then f r else r) = key r := fun r => by split <;> simp [hf]
  simp only [find?, update, List.find?_map, Function.comp_def, hkey]

/-- Updating one row moves it in or out of the rows satisfying `q`. -/
theorem countP_update {t : Table key} {k : κ} {r : ρ} (h : t.find? k = some r) (q : ρ → Bool) :
    ((t.update (fun r => key r = k) f hf).rows.countP q + if q r then 1 else 0) =
      t.rows.countP q + if q (f r) then 1 else 0 := by
  obtain ⟨A, B, hAB, hne⟩ := t.exists_split (mem_of_find? h)
  have hk := key_of_find? h
  have hid : ∀ C : List ρ, (∀ r' ∈ C, key r' ≠ key r) →
      C.map (fun r' => if decide (key r' = k) = true then f r' else r') = C := by
    intro C hC
    rw [List.map_congr_left (g := id) fun r' hr' => by simp [← hk, hC r' hr'], List.map_id]
  have hrows : (t.update (fun r => key r = k) f hf).rows = A ++ f r :: B := by
    change t.rows.map _ = _
    rw [hAB, List.map_append, List.map_cons, hid A fun r' hr' => hne r' (List.mem_append_left _ hr'),
      hid B fun r' hr' => hne r' (List.mem_append_right _ hr')]
    simp [hk]
  rw [hrows, hAB, List.countP_append, List.countP_append, List.countP_cons, List.countP_cons]
  omega

/-- Erasing a row that was updated. -/
theorem erase_update {t : Table key} {k : κ} :
    (t.update (fun r => key r = k) f hf).erase k = t.erase k := by
  ext1
  change (t.rows.map _).filter _ = t.rows.filter _
  induction t.rows with
  | nil => rfl
  | cons r l ih =>
    rw [List.map_cons, List.filter_cons, List.filter_cons, ih]
    by_cases hk : key r = k
    · simp [hk, hf]
    · simp [hk]

/-! What a filter keeps of a table that is changed: the change, or nothing of it. -/

section

variable {t : Table key} {p q : ρ → Bool} {f : ρ → ρ} {hf : ∀ r, key (f r) = key r}

theorem filter_insert {r : ρ} (h : t.find? (key r) = none) (hp : p r = true) :
    (t.insert r).filter p = (t.filter p).insert r := by
  have h' : (t.filter p).find? (key r) = none := by rw [find?_filter, h]; rfl
  ext1
  change (t.insert r).rows.filter p = _
  rw [rows_insert h, rows_insert h', List.filter_append, List.filter_cons_of_pos hp, List.filter_nil]
  rfl

theorem filter_insert_of_not {r : ρ} (h : t.find? (key r) = none) (hp : ¬p r = true) :
    (t.insert r).filter p = t.filter p := by
  ext1
  change (t.insert r).rows.filter p = t.rows.filter p
  rw [rows_insert h, List.filter_append, List.filter_cons_of_neg hp, List.filter_nil,
    List.append_nil]

theorem filter_erase (t : Table key) (p : ρ → Bool) (k : κ) :
    (t.erase k).filter p = (t.filter p).erase k := by
  ext1
  exact List.filter_comm ..

theorem filter_erase_of_not {k : κ} (h : ∀ r ∈ t.rows, key r = k → ¬p r = true) :
    (t.erase k).filter p = t.filter p := by
  rw [filter_erase]
  refine erase_of_find?_eq_none (find?_eq_none_iff.2 fun r hr hk => ?_)
  exact h r (List.mem_filter.1 hr).1 hk (List.mem_filter.1 hr).2

omit [DecidableEq κ] in
theorem filter_update (h : ∀ r ∈ t.rows, q r = true → p (f r) = p r) :
    (t.update q f hf).filter p = (t.filter p).update q f hf := by
  ext1
  change (t.rows.map _).filter p = (t.rows.filter p).map _
  rw [List.filter_map]
  congr 1
  refine List.filter_congr fun r hr => ?_
  rw [Function.comp_apply]
  split
  · next hq => exact h r hr hq
  · rfl

omit [DecidableEq κ] in
theorem filter_update_of_not (h : ∀ r ∈ t.rows, q r = true → ¬p r = true ∧ ¬p (f r) = true) :
    (t.update q f hf).filter p = t.filter p := by
  rw [filter_update fun r hr hq => by
    rw [Bool.eq_false_iff.2 (h r hr hq).1, Bool.eq_false_iff.2 (h r hr hq).2]]
  ext1
  change (t.rows.filter p).map _ = t.rows.filter p
  refine (List.map_congr_left fun r hr => ?_).trans (List.map_id _)
  obtain ⟨hr, hp⟩ := List.mem_filter.1 hr
  exact if_neg fun hq => (h r hr hq).1 hp

end

/-! ## Setting -/

/-- Put a row at its key, in place of the row there, or after the others. -/
def set (t : Table key) (r : ρ) : Table key :=
  if (t.find? (key r)).isSome then
    ⟨t.rows.map fun r' => if key r' = key r then r else r', by
      have : key ∘ (fun r' => if key r' = key r then r else r') = key := by
        funext r'
        rw [Function.comp_apply]
        split
        · next h => exact h.symm
        · rfl
      rw [List.map_map, this]
      exact t.nodup_keys⟩
  else t.insert r

theorem find?_set (t : Table key) (r : ρ) (k : κ) :
    (t.set r).find? k = if k = key r then some r else t.find? k := by
  rw [set]
  split
  · next h =>
    obtain ⟨r₀, h₀⟩ := Option.isSome_iff_exists.1 h
    ext r'
    rw [find?_eq_some_iff, List.mem_map]
    split
    · next hk =>
      constructor
      · rintro ⟨⟨r₁, _, rfl⟩, hr⟩
        split_ifs with h₁
        · rfl
        · rw [if_neg h₁] at hr
          exact absurd (hr.trans hk) h₁
      · rintro ⟨rfl⟩
        exact ⟨⟨r₀, mem_of_find? h₀, if_pos (key_of_find? h₀)⟩, hk.symm⟩
    · next hk =>
      rw [find?_eq_some_iff]
      constructor
      · rintro ⟨⟨r₁, h₁, rfl⟩, rfl⟩
        split_ifs at hk ⊢ with hk₁
        · exact absurd rfl hk
        · exact ⟨h₁, rfl⟩
      · rintro ⟨hr, rfl⟩
        exact ⟨⟨r', hr, if_neg hk⟩, rfl⟩
  · next h => exact find?_insert (Option.not_isSome_iff_eq_none.1 h) k

/-- Erasing what was set where nothing was. -/
theorem erase_set {t : Table key} {r : ρ} (h : t.find? (key r) = none) :
    (t.set r).erase (key r) = t := by
  rw [set, h]
  exact erase_insert h

/-- What a filter by keys keeps of a table in which a row was set. -/
theorem filter_set {t : Table key} {r : ρ} {p : κ → Bool} (hp : p (key r) = true) :
    (t.set r).filter (fun r' => p (key r')) = (t.filter fun r' => p (key r')).set r := by
  rw [set, set, find?_filter]
  cases h : t.find? (key r) with
  | none => exact filter_insert h hp
  | some r₀ =>
    have hp₀ : p (key r₀) = true := by rwa [key_of_find? h]
    simp only [Option.isSome_some, if_true, Option.filter_some, hp₀]
    ext1
    change (t.rows.map _).filter _ = (t.rows.filter _).map _
    rw [List.filter_map]
    congr 1
    refine List.filter_congr fun r' _ => ?_
    rw [Function.comp_apply]
    split
    · next hk => rw [hk]
    · rfl

theorem filter_set_of_not {t : Table key} {r : ρ} {p : κ → Bool} (hp : ¬p (key r) = true) :
    (t.set r).filter (fun r' => p (key r')) = t.filter fun r' => p (key r') := by
  rw [set]
  cases h : t.find? (key r) with
  | none => exact filter_insert_of_not h hp
  | some r₀ =>
    simp only [Option.isSome_some, if_true]
    ext1
    change (t.rows.map _).filter _ = t.rows.filter _
    rw [List.filter_map, List.filter_congr (q := fun r' => p (key r')) fun r' _ => by
      rw [Function.comp_apply]
      split
      · next hk => rw [hk]
      · rfl]
    refine (List.map_congr_left fun r' hr' => ?_).trans (List.map_id _)
    refine if_neg fun hk => hp ?_
    rw [← hk]
    exact (List.mem_filter.1 hr').2

end Table

/-! ## A second unique column -/

/-- A table where the values of the column `other` are different too. -/
structure UniqueTable {κ' : Type} (key : ρ → κ) (other : ρ → κ') extends Table key where
  nodup_other : (rows.map other).Nodup

namespace UniqueTable

variable {κ' : Type} {other : ρ → κ'}

/-- The table with no rows. -/
def empty : UniqueTable key other := ⟨.empty, List.nodup_nil⟩

/-- Insert a row after the others, if both its values are free. -/
def insert? [DecidableEq κ] [DecidableEq κ'] (t : UniqueTable key other) (r : ρ) :
    Option (UniqueTable key other) :=
  if h : key r ∉ t.rows.map key ∧ other r ∉ t.rows.map other then
    some
      { rows := t.rows ++ [r]
        nodup_keys := by
          rw [List.map_append, List.map_cons, List.map_nil, ← List.concat_eq_append]
          exact t.nodup_keys.concat h.1
        nodup_other := by
          rw [List.map_append, List.map_cons, List.map_nil, ← List.concat_eq_append]
          exact t.nodup_other.concat h.2 }
  else none

theorem rows_of_insert? [DecidableEq κ] [DecidableEq κ'] {t t' : UniqueTable key other} {r : ρ}
    (h : t.insert? r = some t') : t'.rows = t.rows ++ [r] := by
  rw [insert?] at h
  split_ifs at h
  cases h
  rfl

/-- Keep the rows satisfying `p`. -/
def filter (t : UniqueTable key other) (p : ρ → Bool) : UniqueTable key other where
  toTable := t.toTable.filter p
  nodup_other := t.nodup_other.sublist (List.filter_sublist.map _)

end UniqueTable

end LiNaStore
