import LiNaStore.Base.Recovery

/-!
# What reconciling leaves

`reconcile_orphans` goes through the directories `linadata/<a>/<b>` with names of the lengths that
directories of payloads have, and reconciles the files in them with the sources. What it is for is
said in one go by `Store.ReconciledIn`, for any kind of directories: in those, the files with names
in UTF-8 are the sources that had a payload or a tombstone there, with the content of the tombstone
if there was one, and nothing else has changed.

* `StoreManager.run_reconcileOrphans_of_tidy`: there is nothing left to do in a second run;
* `reconcile_exact_iff`: after the first run the files are reconciled in the directories whose
  names have four and two *bytes*, whatever the files were and in whatever order they were listed.
  The directories of payloads have four and two *characters*. That comes to the same, but for
  names that are not in ASCII, where the code looks into directories it means to skip, and skips
  others.
-/

namespace LiNaStore

open Program

/-- A directory with two names, of four and of two characters. -/
def IsLayoutInChars (dir : Path) : Prop :=
  ∃ a b : String, a.length = 4 ∧ b.length = 2 ∧ dir = [.str a, .str b]

namespace Store

/-- The identifiers of the sources, as names. -/
def sourceNames (s : Store) : List String := (s.sources.rows.map Source.id).map SourceId.val

/-- The state `s'` is `s` with the files in the directories `P` reconciled with the sources. -/
structure ReconciledIn (P : Path → Prop) (s s' : Store) : Prop where
  links : s'.links = s.links
  sources : s'.sources = s.sources
  dirs : s'.dirs = s.dirs
  inside : ∀ dir, P dir → ∀ name, s'.file (dir ++ [.str name]) =
    if name ∈ s.sourceNames then s.latest dir name else none
  outside : ∀ p, (∀ dir name, P dir → p ≠ dir ++ [.str name]) → s'.file p = s.file p

/-- A directory has no files with names in UTF-8 but those of sources. -/
def OnlySources (s : Store) (dir : Path) : Prop :=
  ∀ name, (s.file (dir ++ [.str name])).isSome → name ∈ s.sourceNames

variable {s s' : Store} {dir : Path}

theorem not_mem_sourceNames_of_dot {name : String} (h : '.' ∈ name.toList) :
    name ∉ s.sourceNames := by
  intro hmem
  obtain ⟨id, _, rfl⟩ := List.mem_map.1 hmem
  exact id.not_mem_dot h

theorem append_deleting_not_mem (name : String) : name ++ ".deleting" ∉ s.sourceNames := by
  refine not_mem_sourceNames_of_dot ?_
  rw [String.toList_append]
  exact List.mem_append_right _ (by decide)

/-- Where there are only files of sources, nothing is to be reconciled. -/
theorem OnlySources.reconciled_eq (h : s.OnlySources dir) (name : String) :
    (if name ∈ s.sourceNames then s.latest dir name else none) = s.file (dir ++ [.str name]) := by
  have hnone {name : String} (hname : name ∉ s.sourceNames) :
      s.file (dir ++ [.str name]) = none :=
    Option.not_isSome_iff_eq_none.1 fun hsome => hname (h name hsome)
  split_ifs with hname
  · rw [latest, hnone (append_deleting_not_mem name)]
    rfl
  · exact (hnone hname).symm

/-- A file in a directory `dir` is not in one of the directories `P`, if `dir` is none of them. -/
theorem leaf_ne {P : Path → Prop} (hdir : ¬P dir) (name : String) :
    ∀ dir' name', P dir' → dir ++ [.str name] ≠ dir' ++ [OsName.str name'] :=
  fun _ _ hP h => hdir ((leaf_inj.1 h).1 ▸ hP)

/-- Reconciling the directories `P` is reconciling the directories `Q` if and only if there is
    nothing to reconcile in those that are not both. -/
theorem ReconciledIn.iff_onlySources {P Q : Path → Prop} (h : s.ReconciledIn P s') :
    s.ReconciledIn Q s' ↔ ∀ dir, (P dir ↔ ¬Q dir) → s.OnlySources dir := by
  constructor
  · intro hQ dir hdir name hsome
    have hfile : s.file (dir ++ [.str name]) =
        if name ∈ s.sourceNames then s.latest dir name else none := by
      by_cases hP : P dir
      · rw [← h.inside dir hP, hQ.outside _ (leaf_ne (hdir.1 hP) name)]
      · rw [← hQ.inside dir (not_not.1 fun hQdir => hP (hdir.2 hQdir)),
          h.outside _ (leaf_ne hP name)]
    by_contra hname
    rw [hfile, if_neg hname] at hsome
    cases hsome
  · intro honly
    refine ⟨h.links, h.sources, h.dirs, fun dir hQ name => ?_, fun p hp => ?_⟩
    · by_cases hP : P dir
      · exact h.inside dir hP name
      · -- not looked into: what is there is of sources already
        rw [h.outside _ (leaf_ne hP name)]
        exact ((honly dir (iff_of_false hP (not_not_intro hQ))).reconciled_eq name).symm
    · by_cases hP : ∃ dir name, P dir ∧ p = dir ++ [.str name]
      · obtain ⟨dir, name, hP, rfl⟩ := hP
        have hQ : ¬Q dir := fun hQ => hp dir name hQ rfl
        rw [h.inside dir hP, (honly dir (iff_of_true hP hQ)).reconciled_eq]
      · push Not at hP
        exact h.outside p hP

theorem isSome_of_mem_entries {name : OsName} (h : (name, false) ∈ s.entries dir) :
    (s.file (dir ++ [name])).isSome := by
  rw [entries, List.mem_dedup, List.mem_filterMap] at h
  obtain ⟨f, hf, hname⟩ := h
  refine isSome_file.2 ⟨f, hf, ?_⟩
  split_ifs at hname with hdir
  obtain ⟨rest, hrest⟩ := hdir
  rw [← hrest, List.drop_left] at hname
  rcases rest with _ | ⟨_, _ | ⟨_, _⟩⟩
  · cases hname
  · cases hname
    exact hrest.symm
  · cases hname

end Store

/-! ## The second run -/

namespace StoreManager

open Store

variable {s : Store} {dir : Path} {listing : Listing}

/-- A file of a source stays. -/
theorem reconcileLeaf_of_mem {knownIds : List SourceId} {name : String}
    (h : name ∈ knownIds.map SourceId.val) :
    reconcileLeaf knownIds dir (.str name, false) = pure () := by
  obtain ⟨id, _, rfl⟩ := List.mem_map.1 h
  have htmp : ¬".tmp-".toList <:+: id.val.toList := fun htmp =>
    id.not_mem_dot (List.IsInfix.subset htmp (by decide))
  have hstrip : stripSuffix id.val ".deleting" = none := by
    cases hstrip : stripSuffix id.val ".deleting" with
    | none => rfl
    | some stem => exact absurd (stripSuffix_eq_some hstrip) (id.val_ne_append stem)
  unfold reconcileLeaf
  simp only [if_neg htmp, hstrip, if_pos h]

theorem run_leaves_of_tidy (h : Tidy (s.sources.rows.map Source.id) dir s) :
    (forEntries listing dir (reconcileLeaf (s.sources.rows.map Source.id) dir)).run Prim.step s =
      (.ok (), s) := by
  rw [run_forEntries]
  refine run_forEach_of_forall Prim.step fun entry hentry => ?_
  obtain ⟨name | bytes, isDir⟩ := entry
  · cases isDir with
    | true => rfl
    | false =>
      have hsome := isSome_of_mem_entries ((listing.perm _ _).mem_iff.1 hentry)
      have hname : name ∈ (s.sources.rows.map Source.id).map SourceId.val := by
        by_contra hname
        rw [h name hname] at hsome
        cases hsome
      rw [reconcileLeaf_of_mem hname, run_pure]
  · rfl

theorem run_descend_of_forall {length : ℕ} {body : Path → Prog Unit}
    (h : ∀ name : String, name.utf8ByteSize = length →
      (body (dir ++ [.str name])).run Prim.step s = (.ok (), s)) (entry : OsName × Bool) :
    (descend length body dir entry).run Prim.step s = (.ok (), s) := by
  obtain ⟨name | bytes, isDir⟩ := entry
  · cases isDir with
    | false => rfl
    | true =>
      rw [descend]
      split_ifs with hname
      · exact h name hname
      · rfl
  · rfl

/-- Reconciling changes nothing where only files of sources are. -/
theorem run_reconcileOrphans_of_tidy
    (h : ∀ dir, IsLayout dir → Tidy (s.sources.rows.map Source.id) dir s) :
    (reconcileOrphans listing).run Prim.step s = (.ok (), s) := by
  change (forEach _ (listing.order [] (s.entries []))).run Prim.step s = (.ok (), s)
  refine run_forEach_of_forall Prim.step fun top _ => run_descend_of_forall (fun a ha => ?_) top
  rw [run_forEntries]
  refine run_forEach_of_forall Prim.step fun mid _ => run_descend_of_forall (fun b hb => ?_) mid
  exact run_leaves_of_tidy (h _ ⟨a, b, ha, hb, rfl⟩)

/-- The first run. -/
theorem run_reconcileOrphans_reconciled (listing : Listing) (s : Store) :
    ∃ s', (reconcileOrphans listing).run Prim.step s = (.ok (), s') ∧
      s.ReconciledIn IsLayout s' ∧
      ∀ dir, IsLayout dir → Tidy (s'.sources.rows.map Source.id) dir s' := by
  obtain ⟨s', hrun, hrec, htidy⟩ := run_reconcileOrphans listing s
  refine ⟨s', hrun, ⟨hrec.links, hrec.sources, hrec.dirs, fun dir hdir name => ?_, hrec.outside⟩,
    hrec.sources ▸ htidy⟩
  split_ifs with hname
  · -- there are no tombstones any more
    obtain ⟨id, hid, rfl⟩ := List.mem_map.1 hname
    have hlatest := hrec.known dir id hid
    rw [latest, htidy dir hdir _ (append_deleting_not_mem id.val)] at hlatest
    exact hlatest
  · exact htidy dir hdir name hname

end StoreManager

/-- Reconciling, in whatever order files are listed, leaves in the directories with names of four
    and two bytes the files of sources that had a payload or a tombstone, with the content of the
    tombstone if there was one, and changes nothing else; a second time it changes nothing. The
    same holds for the directories with names of four and two characters if and only if those for
    which the two differ had no files with names in UTF-8 but those of sources. -/
theorem reconcile_exact_iff (listing listing' : Listing) (s : Store) :
    ∃ s', (StoreManager.reconcileOrphans listing).run Prim.step s = (.ok (), s') ∧
      s.ReconciledIn IsLayout s' ∧
      (StoreManager.reconcileOrphans listing').run Prim.step s' = (.ok (), s') ∧
      (s.ReconciledIn IsLayoutInChars s' ↔
        ∀ dir, (IsLayout dir ↔ ¬IsLayoutInChars dir) → s.OnlySources dir) := by
  obtain ⟨s', hrun, hrec, htidy⟩ := StoreManager.run_reconcileOrphans_reconciled listing s
  exact ⟨s', hrun, hrec, StoreManager.run_reconcileOrphans_of_tidy htidy, hrec.iff_onlySources⟩

/-- A directory named by two letters that take two bytes each is taken for one of payloads: the
    file in it is removed, though the directory does not have the layout. -/
theorem reconcile_chews_accented : ∃ s', (StoreManager.reconcileOrphans .byAge).run Prim.step
      (Store.empty.setFile [.str "éé", .str "ab", .str "x"] [1]) = (.ok (), s') ∧
    ¬IsLayoutInChars [.str "éé", .str "ab"] ∧ s'.file [.str "éé", .str "ab", .str "x"] = none ∧
    ¬(Store.empty.setFile [.str "éé", .str "ab", .str "x"] [1]).ReconciledIn IsLayoutInChars s' := by
  have hchars : ¬IsLayoutInChars [.str "éé", .str "ab"] := by
    rintro ⟨a, b, ha, _, hdir⟩
    cases hdir
    exact absurd ha (by decide)
  have hbytes : IsLayout [.str "éé", .str "ab"] := ⟨"éé", "ab", rfl, rfl, rfl⟩
  obtain ⟨s', hrun, hrec, -⟩ := StoreManager.run_reconcileOrphans_reconciled .byAge
    (Store.empty.setFile [.str "éé", .str "ab", .str "x"] [1])
  refine ⟨s', hrun, hchars, hrec.inside _ hbytes "x", fun h => ?_⟩
  exact absurd (hrec.iff_onlySources.1 h _ (iff_of_true hbytes hchars) "x" rfl) List.not_mem_nil

end LiNaStore
