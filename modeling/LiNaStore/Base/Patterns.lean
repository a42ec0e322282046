import LiNaStore.Base.Contents

/-!
# Patterns

`list` and `delete` take patterns with stars. They replace the stars by percent signs and leave the
rest to the operator `LIKE` of the database, for which underscores and percent signs are wildcards
and the case of letters does not matter; the pattern of a single star is a case of its own, where
the limit of `list` counts.

Whether the links a pattern stands for are those that it matches as a glob (`GlobExact`) depends on
the links: there must not be one that `LIKE` alone matches, nor more than the limit for a single
star (`glob_exact_iff`).
-/

namespace LiNaStore

open Program Store

/-- The calls with a pattern are about the links whose names match it as a glob: they are those
    listed, and those deleted, and all others stay as they are. -/
structure GlobExact (s : Store) (pattern : String) (n : ℕ) : Prop where
  list : ∃ links, (StoreManager.list pattern n false true).run Prim.step s = (.ok links, s) ∧
    links.Nodup ∧ ∀ l, l ∈ links ↔ l ∈ s.links.rows ∧ glob pattern.toList l.name.toList = true
  delete : ∃ s', (StoreManager.delete pattern true).run Prim.step s = (.ok (), s') ∧
    (∀ l, l ∈ s'.links.rows ↔ l ∈ s.links.rows ∧ glob pattern.toList l.name.toList = false) ∧
    ∀ name : String, glob pattern.toList name.toList = false → s'.read name = s.read name

section

variable {s : Store} {extra : SourceId → ℕ} {pattern : String}

theorem nameMatches_eq_like (hstar : '*' ∈ pattern.toList) (name : String) :
    nameMatches pattern true name = like (starsToPercents pattern.toList) name.toList := by
  rw [nameMatches]
  split_ifs with hall
  · have hpattern : pattern = "*" := hall.1.resolve_left fun h => by
      rw [h] at hstar
      exact absurd hstar (by decide)
    subst hpattern
    exact (like_percent.2 ⟨[], List.nil_suffix, rfl⟩).symm
  · rfl
  · next hnot => exact absurd ⟨hstar, rfl⟩ hnot

theorem ne_empty_of_star (hstar : '*' ∈ pattern.toList) : pattern ≠ "" := by
  rintro rfl
  exact absurd hstar (by decide)

/-- The links listed are those that `LIKE` matches, but for the limit. -/
theorem mem_listed_iff (hstar : '*' ∈ pattern.toList) (hne : pattern ≠ "*") (n : ℕ) (l : Link) :
    l ∈ s.listed pattern n false true ↔
      l ∈ s.links.rows ∧ like (starsToPercents pattern.toList) l.name.toList = true := by
  rw [listed, if_neg Bool.false_ne_true, if_neg fun h => h.1.elim (ne_empty_of_star hstar) hne,
    if_pos ⟨hstar, rfl⟩, List.mem_filter]
  rfl

theorem glob_single_star (text : List Char) : glob "*".toList text = true :=
  glob_star.2 ⟨[], List.nil_suffix, rfl⟩

/-- A single star lists all links if and only if there are not more than the limit. -/
theorem forall_mem_listed_star_iff (n : ℕ) :
    (∀ l, l ∈ s.listed "*" n false true ↔ l ∈ s.links.rows) ↔
      n = 0 ∨ s.links.rows.length ≤ n := by
  have hlisted : s.listed "*" n false true =
      if n = 0 then s.links.rows else s.links.rows.take n := rfl
  rw [hlisted]
  split_ifs with hn
  · simp [hn]
  · constructor
    · intro h
      have hsub : s.links.rows ⊆ s.links.rows.take n := fun l hl => (h l).2 hl
      have hlen := (List.Nodup.of_map _ s.links.nodup_keys).length_le_of_subset hsub
      rw [List.length_take] at hlen
      exact .inr (by omega)
    · rintro (h | h) l
      · exact absurd h hn
      · rw [List.take_of_length_le h]

/-- No link is matched by `LIKE` alone if and only if the links matched are those of the glob. -/
theorem forall_like_iff :
    (∀ l, (l ∈ s.links.rows ∧ like (starsToPercents pattern.toList) l.name.toList = true) ↔
      (l ∈ s.links.rows ∧ glob pattern.toList l.name.toList = true)) ↔
    ∀ l ∈ s.links.rows, ¬Loose pattern.toList l.name.toList := by
  constructor
  · rintro h l hl ⟨hlike, hglob⟩
    rw [((h l).1 ⟨hl, hlike⟩).2] at hglob
    cases hglob
  · intro h l
    refine and_congr_right fun hl => ⟨fun hlike => ?_, like_of_glob⟩
    by_contra hglob
    exact h l hl ⟨hlike, Bool.not_eq_true _ ▸ hglob⟩

end

/-- The calls with a pattern that has a star are about the links whose names it matches as a glob
    if and only if `LIKE` matches no other of the names there are, and there are not more links
    than the limit if the pattern is a single star. There is a name that only `LIKE` matches for
    every pattern with an underscore, a percent sign or a letter, and for no other. -/
theorem glob_exact_iff {s : Store} {extra : SourceId → ℕ} (hs : s.Sound extra) {pattern : String}
    (hstar : '*' ∈ pattern.toList) (n : ℕ) :
    (GlobExact s pattern n ↔ (pattern = "*" → n = 0 ∨ s.links.rows.length ≤ n) ∧
      ∀ l ∈ s.links.rows, ¬Loose pattern.toList l.name.toList) ∧
    ((∃ name : String, Loose pattern.toList name.toList) ↔
      ∃ c ∈ pattern.toList, c = '_' ∨ c = '%' ∨ c.isAlpha = true) := by
  have hlist : (StoreManager.list pattern n false true).run Prim.step s =
      (.ok (s.listed pattern n false true), s) := StoreManager.run_listLocked pattern n false true s
  have hdelete := (StoreManager.performs_delete hs (ne_empty_of_star hstar) true).run_eq
  have hrows (l : Link) : l ∈ (s.deleteAll (s.listed pattern 0 false true)).links.rows ↔
      l ∈ s.links.rows ∧ ¬like (starsToPercents pattern.toList) l.name.toList = true := by
    rw [hs.mem_links_deleteAll listed_subset nodup_listed, s.listed_eq_filter, List.mem_filter,
      nameMatches_eq_like hstar, not_and]
    exact ⟨fun h => ⟨h.1, h.2 h.1⟩, fun h => ⟨h.1, fun _ => h.2⟩⟩
  refine ⟨⟨fun h => ?_, fun h => ?_⟩, ?_⟩
  · obtain ⟨links, hrun, -, hmem⟩ := h.list
    obtain rfl : s.listed pattern n false true = links :=
      Except.ok.inj (congrArg Prod.fst (hlist.symm.trans hrun))
    by_cases hpattern : pattern = "*"
    · subst hpattern
      refine ⟨fun _ => (forall_mem_listed_star_iff n).1 fun l => ?_, fun l _ hloose => ?_⟩
      · rw [hmem, glob_single_star, and_iff_left rfl]
      · rw [Loose, glob_single_star] at hloose
        exact absurd hloose.2 (by decide)
    · refine ⟨fun heq => absurd heq hpattern, forall_like_iff.1 fun l => ?_⟩
      rw [← hmem, mem_listed_iff hstar hpattern]
  · have hlike := forall_like_iff.2 h.2
    refine ⟨⟨_, hlist, nodup_listed, fun l => ?_⟩, ⟨_, hdelete, fun l => ?_, fun name hname => ?_⟩⟩
    · by_cases hpattern : pattern = "*"
      · subst hpattern
        rw [(forall_mem_listed_star_iff n).2 (h.1 rfl), glob_single_star, and_iff_left rfl]
      · rw [mem_listed_iff hstar hpattern, hlike]
    · rw [hrows]
      refine and_congr_right fun hl => ?_
      have hiff := hlike l
      rw [and_iff_right hl, and_iff_right hl] at hiff
      rw [hiff, Bool.not_eq_true]
    · rw [hs.read_deleteAll_listed, nameMatches_eq_like hstar]
      split_ifs with hmatch
      · -- no link has the name
        refine (read_of_linkNamed_eq_none (linkNamed_eq_none_iff.2 fun l hl heq => ?_)).symm
        exact h.2 l hl (heq ▸ ⟨hmatch, hname⟩)
      · rfl
  · have hany : (∃ name : String, Loose pattern.toList name.toList) ↔
        ∃ text, Loose pattern.toList text :=
      ⟨fun ⟨name, h⟩ => ⟨_, h⟩, fun ⟨text, h⟩ => ⟨.ofList text, by rwa [String.toList_ofList]⟩⟩
    rw [hany, exists_loose_iff]
    simp only [Plain]
    push Not
    refine exists_congr fun c => and_congr_right fun _ => ?_
    by_cases hunderscore : c = '_'
    · simp [hunderscore]
    · by_cases hpercent : c = '%' <;> simp [hunderscore, hpercent]

/-- The store with the files `ab` and `aB`. -/
def Store.twoCases : Store :=
  (((Call.put (.sample 1) "aB" [2] false false).program .plain).run Prim.step
    (((Call.put (.sample 0) "ab" [1] false false).program .plain).run Prim.step .empty).2).2

theorem Store.reachable_twoCases : Reachable .plain {[1], [2]} Store.twoCases :=
  .call (.put (.sample 1) "aB" [2] false false)
    (.call (.put (.sample 0) "ab" [1] false false) .empty ⟨rfl, rfl⟩ (.inl rfl)) ⟨rfl, rfl⟩ (.inr rfl)

/-- A pattern that no name matches in another case. -/
theorem glob_exact_iff_fits : GlobExact .twoCases "a*" 0 :=
  have hstar : '*' ∈ "a*".toList := by decide
  (glob_exact_iff Store.reachable_twoCases.sound hstar 0).1.2
    ⟨fun h => absurd h (by decide), by decide⟩

/-- Deleting `*b` deletes `aB` too. -/
theorem glob_ignores_case : ¬GlobExact .twoCases "*b" 0 ∧
    ∃ s', (StoreManager.delete "*b" true).run Prim.step .twoCases = (.ok (), s') ∧
      s'.links.rows = [] ∧ glob "*b".toList "aB".toList = false := by
  have hpattern : "*b" ≠ "" := by decide
  have hdelete := (StoreManager.performs_delete Store.reachable_twoCases.sound hpattern true).run_eq
  refine ⟨fun h => ?_, _, hdelete, rfl, by decide⟩
  obtain ⟨s', hrun, hmem, -⟩ := h.delete
  cases hdelete.symm.trans hrun
  exact absurd ((hmem ⟨"link-b", "aB", "", (Draws.sample 1).sourceId, 420⟩).2
    ⟨by decide, by decide⟩) List.not_mem_nil

end LiNaStore
