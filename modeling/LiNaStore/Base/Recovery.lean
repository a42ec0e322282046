import LiNaStore.Base.Effect
import Mathlib.Data.List.Dedup
import Mathlib.Data.String.Basic

/-!
# Recovery

Opening a store reconciles its files with its rows: payloads of no source,
temporary files and the tombstones of no source are removed, the tombstones of
sources get their names back. What this comes to is said for each path at once
(`Store.reconciled`), for any files there may be and whatever the order in which
directories are listed (`run_new`): the rows stay as they are, and in a directory
payloads are in, the files left are those of sources, with the content of the
tombstone if there is one (`Store.Reopened`).

The loop over the files of a directory is followed by a relation between the
states before and after (`Reconciles`), which every removal and every renaming
respects.
-/

namespace LiNaStore

open Program

/-- A directory that payloads are in: two names, of four bytes and of two. -/
def IsLayout (dir : Path) : Prop :=
  ∃ a b : String, a.utf8ByteSize = 4 ∧ b.utf8ByteSize = 2 ∧ dir = [.str a, .str b]

/-- Letters and digits are single bytes. -/
theorem utf8Size_of_alphanum {c : Char} (h : c.isAlphanum = true) : c.utf8Size = 1 := by
  unfold Char.isAlphanum Char.isAlpha Char.isUpper Char.isLower Char.isDigit at h
  simp only [Bool.or_eq_true, Bool.and_eq_true, decide_eq_true_eq, ge_iff_le, UInt32.le_iff_toNat_le] at h
  have hZ : 'Z'.val.toNat = 90 := rfl
  have hz : 'z'.val.toNat = 122 := rfl
  have h9 : '9'.val.toNat = 57 := rfl
  have hle : c.val ≤ 127 := by
    rw [UInt32.le_iff_toNat_le, show (127 : UInt32).toNat = 127 from rfl]
    omega
  exact if_pos hle

theorem utf8Len_of_alphanum {cs : List Char} (h : ∀ c ∈ cs, c.isAlphanum = true) :
    String.utf8Len cs = cs.length := by
  induction cs with
  | nil => rfl
  | cons c cs ih =>
    have hc : c.utf8Size = 1 := utf8Size_of_alphanum (h c List.mem_cons_self)
    rw [String.utf8Len_cons, ih fun c' hc' => h c' (List.mem_cons_of_mem _ hc'), hc,
      List.length_cons]

theorem SourceId.isLayout_sourceDir (id : SourceId) : IsLayout id.sourceDir := by
  have hlen : id.val.toList.length = 22 := by rw [String.length_toList, id.length_val]
  refine ⟨_, _, ?_, ?_, rfl⟩
  · rw [String.utf8ByteSize_ofList, utf8Len_of_alphanum fun c hc =>
      id.alphanum_val c (List.mem_of_mem_take hc), List.length_take, hlen]
    rfl
  · rw [String.utf8ByteSize_ofList, utf8Len_of_alphanum fun c hc =>
      id.alphanum_val c (List.mem_of_mem_drop (List.mem_of_mem_take hc)), List.length_take,
      List.length_drop, hlen]
    rfl

/-! ## Names -/

theorem stripSuffix_eq_some {name suffix stem : String}
    (h : StoreManager.stripSuffix name suffix = some stem) : name = stem ++ suffix := by
  rw [StoreManager.stripSuffix] at h
  split_ifs at h with hs
  cases h
  obtain ⟨t, ht⟩ := hs
  rw [← String.toList_inj, String.toList_append, String.toList_ofList, ← ht]
  congr 1
  have hlen : name.length - suffix.length = t.length := by
    rw [← String.length_toList, ← String.length_toList, ← ht, List.length_append]
    omega
  rw [hlen, List.take_left]

theorem stripSuffix_append (stem suffix : String) :
    StoreManager.stripSuffix (stem ++ suffix) suffix = some stem := by
  rw [StoreManager.stripSuffix, if_pos]
  · congr 1
    rw [← String.toList_inj, String.toList_ofList, String.toList_append, String.length_append,
      Nat.add_sub_cancel, ← String.length_toList, List.take_left]
  · exact ⟨stem.toList, by rw [String.toList_append]⟩

theorem leaf_inj {dir dir' : Path} {name name' : String} :
    dir ++ [OsName.str name] = dir' ++ [.str name'] ↔ dir = dir' ∧ name = name' := by
  constructor
  · intro h
    obtain ⟨h₁, h₂⟩ := List.append_inj' h rfl
    exact ⟨h₁, by simpa using h₂⟩
  · rintro ⟨rfl, rfl⟩
    rfl

theorem SourceId.val_ne_append (id : SourceId) (stem : String) : id.val ≠ stem ++ ".deleting" := by
  intro h
  refine id.not_mem_dot ?_
  rw [h, String.toList_append]
  exact List.mem_append_right _ (by decide)

theorem append_deleting_inj {a b : String} : a ++ ".deleting" = b ++ ".deleting" ↔ a = b := by
  rw [← String.toList_inj, String.toList_append, String.toList_append, List.append_left_inj,
    String.toList_inj]

/-- The paths that a source has files at. -/
inductive SourceId.Owns (id : SourceId) : Path → Prop
  | payload : Owns id id.sourcePath
  | tombstone : Owns id id.tombstonePath
  | tmp (tmpId : String) : Owns id (id.tmpPath tmpId)

/-- Files of sources are in directories of their own. -/
theorem SourceId.Owns.eq_pathWith {id : SourceId} {p : Path} (h : id.Owns p) :
    ∃ suffix, p = id.pathWith suffix := by
  rcases h with _ | _ | tmpId
  · exact ⟨"", id.sourcePath_eq⟩
  · exact ⟨".deleting", rfl⟩
  · exact ⟨".tmp-" ++ tmpId, rfl⟩

/-- A file of a source named after another is one of that other. -/
theorem SourceId.Owns.dir_eq {id id' : SourceId} {dir : Path} {suffix : String}
    (h : id'.Owns (dir ++ [.str (id.val ++ suffix)])) : dir = id.sourceDir := by
  obtain ⟨suffix', heq⟩ := h.eq_pathWith
  obtain ⟨hdir, hname⟩ := leaf_inj.1 heq
  rw [hdir, (SourceId.val_append_inj.1 hname).1]

namespace Store

variable {s s' s'' : Store} {knownIds : List SourceId} {dir : Path}

theorem isSome_file {p : Path} : (s.file p).isSome ↔ ∃ f ∈ s.files.rows, f.path = p := by
  rw [file, Option.isSome_map, Option.isSome_iff_exists]
  simp only [Table.find?_eq_some_iff]

/-- A file in a directory is listed. -/
theorem mem_entries_file {name : OsName} (h : (s.file (dir ++ [name])).isSome) :
    (name, false) ∈ s.entries dir := by
  obtain ⟨f, hf, hp⟩ := isSome_file.1 h
  rw [entries, List.mem_dedup, List.mem_filterMap]
  refine ⟨f, hf, ?_⟩
  rw [hp, if_pos (List.prefix_append _ _), List.drop_left]

/-- A directory with a file in it is listed. -/
theorem mem_entries_dir {name name' : OsName} {rest : Path}
    (h : (s.file (dir ++ name :: name' :: rest)).isSome) : (name, true) ∈ s.entries dir := by
  obtain ⟨f, hf, hp⟩ := isSome_file.1 h
  rw [entries, List.mem_dedup, List.mem_filterMap]
  refine ⟨f, hf, ?_⟩
  rw [hp, if_pos (List.prefix_append _ _), List.drop_left]

/-! ## Reconciling -/

/-- The content of a source as far as its directory tells: that of the tombstone,
    or else of the payload. -/
def latest (s : Store) (dir : Path) (name : String) : Option Bytes :=
  s.file (dir ++ [.str (name ++ ".deleting")]) <|> s.file (dir ++ [.str name])

/-- What reconciling may change: no rows, no files outside of the directories of
    payloads, no content of a known source, and of the other files nothing but
    that they go. -/
structure Reconciles (knownIds : List SourceId) (s s' : Store) : Prop where
  links : s'.links = s.links
  sources : s'.sources = s.sources
  dirs : s'.dirs = s.dirs
  outside : ∀ p, (∀ dir name, IsLayout dir → p ≠ dir ++ [.str name]) → s'.file p = s.file p
  known : ∀ dir, ∀ id ∈ knownIds, s'.latest dir id.val = s.latest dir id.val
  unknown : ∀ dir name, name ∉ knownIds.map SourceId.val →
    s'.file (dir ++ [.str name]) = none ∨ s'.file (dir ++ [.str name]) = s.file (dir ++ [.str name])

namespace Reconciles

theorem refl (knownIds : List SourceId) (s : Store) : Reconciles knownIds s s :=
  ⟨rfl, rfl, rfl, fun _ _ => rfl, fun _ _ _ => rfl, fun _ _ _ => .inr rfl⟩

theorem trans (h : Reconciles knownIds s s') (h' : Reconciles knownIds s' s'') :
    Reconciles knownIds s s'' where
  links := h'.links.trans h.links
  sources := h'.sources.trans h.sources
  dirs := h'.dirs.trans h.dirs
  outside p hp := (h'.outside p hp).trans (h.outside p hp)
  known dir id hid := (h'.known dir id hid).trans (h.known dir id hid)
  unknown dir name hname := by
    rcases h'.unknown dir name hname with h₁ | h₁
    · exact .inl h₁
    · rw [h₁]
      exact h.unknown dir name hname

/-- What is not known and not there stays so. -/
theorem file_eq_none (h : Reconciles knownIds s s') {name : String}
    (hname : name ∉ knownIds.map SourceId.val) (hfile : s.file (dir ++ [.str name]) = none) :
    s'.file (dir ++ [.str name]) = none := by
  rcases h.unknown dir name hname with h₁ | h₁
  · exact h₁
  · rw [h₁, hfile]

/-- Removing what is neither known nor the tombstone of a known source. -/
theorem eraseFile (hdir : IsLayout dir) {name : String} (hname : name ∉ knownIds.map SourceId.val)
    (htomb : ∀ id ∈ knownIds, name ≠ id.val ++ ".deleting") :
    Reconciles knownIds s (s.eraseFile (dir ++ [.str name])) where
  links := rfl
  sources := rfl
  dirs := rfl
  outside p hp := by rw [file_eraseFile, if_neg (hp dir name hdir)]
  known dir' id hid := by
    have h₁ : dir' ++ [.str (id.val ++ ".deleting")] ≠ dir ++ [.str name] := fun h =>
      htomb id hid (leaf_inj.1 h).2.symm
    have h₂ : dir' ++ [.str id.val] ≠ dir ++ [.str name] := fun h =>
      hname ((leaf_inj.1 h).2 ▸ List.mem_map_of_mem hid)
    rw [latest, file_eraseFile, if_neg h₁, file_eraseFile, if_neg h₂]
    rfl
  unknown dir' name' _ := by
    rw [file_eraseFile]
    split
    · exact .inl rfl
    · exact .inr rfl

/-- Renaming the tombstone of a known source. -/
theorem rename (hdir : IsLayout dir) {id : SourceId} (hid : id ∈ knownIds) {bytes : Bytes}
    (hbytes : s.file (dir ++ [.str (id.val ++ ".deleting")]) = some bytes) :
    Reconciles knownIds s ((s.eraseFile (dir ++ [.str (id.val ++ ".deleting")])).setFile
      (dir ++ [.str id.val]) bytes) where
  links := rfl
  sources := rfl
  dirs := rfl
  outside p hp := by
    rw [file_setFile, if_neg (hp dir _ hdir), file_eraseFile, if_neg (hp dir _ hdir)]
  known dir' id' _ := by
    have h₁ : dir' ++ [.str (id'.val ++ ".deleting")] ≠ dir ++ [.str id.val] := fun h =>
      id.val_ne_append _ (leaf_inj.1 h).2.symm
    have h₂ : dir' ++ [.str id'.val] ≠ dir ++ [.str (id.val ++ ".deleting")] := fun h =>
      id'.val_ne_append _ (leaf_inj.1 h).2
    rw [latest, latest, file_setFile, if_neg h₁, file_eraseFile, file_setFile, file_eraseFile,
      if_neg h₂]
    by_cases h : dir' = dir ∧ id'.val = id.val
    · rw [h.1, h.2, if_pos rfl, if_pos rfl, hbytes]
      rfl
    · rw [if_neg fun he => h ?_, if_neg fun he => h (leaf_inj.1 he)]
      exact ⟨(leaf_inj.1 he).1, append_deleting_inj.1 (leaf_inj.1 he).2⟩
  unknown dir' name' hname' := by
    rw [file_setFile, if_neg, file_eraseFile]
    · split
      · exact .inl rfl
      · exact .inr rfl
    · exact fun h => hname' ((leaf_inj.1 h).2 ▸ List.mem_map_of_mem hid)

end Reconciles

end Store

/-! ## The loops -/

namespace StoreManager

open Store

variable {s : Store} {knownIds : List SourceId} {dir : Path} {listing : Listing}

theorem run_ignore_removeFile (p : Path) (s : Store) :
    (exec (.removeFile p)).ignore.run Prim.step s = (.ok (), s.eraseFile p) := by
  rw [run_ignore, run_perform]
  cases h : s.file p with
  | none =>
    rw [Store.eraseFile, Table.erase_of_find?_eq_none (find?_files_eq_none h)]
    simp only [Prim.step, h]
  | some bytes => rw [Prim.step_removeFile h]

/-- A directory has no file but of known sources. -/
def Tidy (knownIds : List SourceId) (dir : Path) (s : Store) : Prop :=
  ∀ name ∉ knownIds.map SourceId.val, s.file (dir ++ [.str name]) = none

theorem Tidy.reconciles {s' : Store} (h : Tidy knownIds dir s) (hs : Reconciles knownIds s s') :
    Tidy knownIds dir s' :=
  fun name hname => hs.file_eq_none hname (h name hname)

/-- One file: it stays only if it is of a known source. -/
theorem run_reconcileLeaf (hdir : IsLayout dir) (entry : OsName × Bool) (s : Store) :
    ∃ s', (reconcileLeaf knownIds dir entry).run Prim.step s = (.ok (), s') ∧
      Reconciles knownIds s s' ∧ ∀ name, entry = (.str name, false) →
        name ∉ knownIds.map SourceId.val → s'.file (dir ++ [.str name]) = none := by
  have hremove {name : String} (hname : name ∉ knownIds.map SourceId.val)
      (htomb : ∀ id ∈ knownIds, name ≠ id.val ++ ".deleting") :
      ∃ s', (exec (.removeFile (dir ++ [.str name]))).ignore.run Prim.step s = (.ok (), s') ∧
        Reconciles knownIds s s' ∧ ∀ name', (OsName.str name, false) = (.str name', false) →
          name' ∉ knownIds.map SourceId.val → s'.file (dir ++ [.str name']) = none := by
    refine ⟨_, run_ignore_removeFile _ s, .eraseFile hdir hname htomb, ?_⟩
    rintro name' ⟨rfl⟩ _
    rw [file_eraseFile, if_pos rfl]
  have hdot {name : String} (h : '.' ∈ name.toList) : name ∉ knownIds.map SourceId.val := by
    rintro hmem
    obtain ⟨id, _, rfl⟩ := List.mem_map.1 hmem
    exact id.not_mem_dot h
  unfold reconcileLeaf
  split
  · next name =>
    by_cases htmp : ".tmp-".toList <:+: name.toList
    · rw [if_pos htmp]
      refine hremove (hdot (List.IsInfix.subset htmp (by decide))) fun id _ h => ?_
      exact not_infix_tombstone id (h ▸ htmp)
    · rw [if_neg htmp]
      cases hstrip : stripSuffix name ".deleting" with
      | some stem =>
        obtain rfl := stripSuffix_eq_some hstrip
        have hname : stem ++ ".deleting" ∉ knownIds.map SourceId.val := hdot (by
          rw [String.toList_append]
          exact List.mem_append_right _ (by decide))
        by_cases hstem : stem ∈ knownIds.map SourceId.val
        · obtain ⟨id, hid, rfl⟩ := List.mem_map.1 hstem
          simp only [if_pos hstem]
          cases hbytes : s.file (dir ++ [.str (id.val ++ ".deleting")]) with
          | none =>
            refine ⟨s, ?_, .refl _ _, ?_⟩
            · rw [run_ignore, run_perform]
              simp only [Prim.step, hbytes]
            · rintro name ⟨rfl⟩ _
              exact hbytes
          | some bytes =>
            refine ⟨_, ?_, .rename hdir hid hbytes, ?_⟩
            · rw [run_ignore, run_perform, Prim.step_rename hbytes]
            · rintro name ⟨rfl⟩ _
              rw [file_setFile, if_neg, file_eraseFile, if_pos rfl]
              exact fun h => id.val_ne_append _ (leaf_inj.1 h).2.symm
        · simp only [if_neg hstem]
          refine hremove hname fun id hid h => hstem ?_
          rw [append_deleting_inj.1 h]
          exact List.mem_map_of_mem hid
      | none =>
        by_cases hname : name ∈ knownIds.map SourceId.val
        · simp only [if_pos hname]
          exact ⟨s, rfl, .refl _ _, by rintro name' ⟨rfl⟩ hnot; exact absurd hname hnot⟩
        · simp only [if_neg hname]
          refine hremove hname fun id _ h => ?_
          rw [h, stripSuffix_append] at hstrip
          cases hstrip
  · next hnot => exact ⟨s, rfl, .refl _ _, fun name h => absurd h (hnot name)⟩

theorem run_forEntries (body : OsName × Bool → Prog Unit) (s : Store) :
    (forEntries listing dir body).run Prim.step s =
      (forEach body (listing.order dir (s.entries dir))).run Prim.step s := by
  rw [forEntries, run_bind, run_attempt]
  rfl

/-- All files of a directory. -/
theorem run_leaves (hdir : IsLayout dir) (s : Store) :
    ∃ s', (forEntries listing dir (reconcileLeaf knownIds dir)).run Prim.step s = (.ok (), s') ∧
      Reconciles knownIds s s' ∧ Tidy knownIds dir s' := by
  obtain ⟨s', hrun, hrec, hall⟩ := run_forEach (P := fun entry t => ∀ name,
      entry = (OsName.str name, false) → name ∉ knownIds.map SourceId.val →
        t.file (dir ++ [.str name]) = none)
    Prim.step (Reconciles.refl knownIds) Reconciles.trans
    (fun hR h name hentry hname => hR.file_eq_none hname (h name hentry hname))
    (l := listing.order dir (s.entries dir)) (fun entry _ => run_reconcileLeaf hdir entry) s
  refine ⟨s', by rw [run_forEntries, hrun], hrec, fun name hname => ?_⟩
  cases hfile : s.file (dir ++ [.str name]) with
  | none => exact hrec.file_eq_none hname hfile
  | some bytes =>
    have hmem : (OsName.str name, false) ∈ s.entries dir := mem_entries_file (by rw [hfile]; rfl)
    exact hall _ ((listing.perm _ _).mem_iff.2 hmem) name rfl hname

/-- Going into the directories listed. -/
theorem run_forEach_descend (dir : Path) (length : ℕ) (body : Path → Prog Unit)
    {P : String → Store → Prop}
    (hP : ∀ {name s s'}, Reconciles knownIds s s' → P name s → P name s')
    (hbody : ∀ name : String, name.utf8ByteSize = length → ∀ s, ∃ s',
      (body (dir ++ [.str name])).run Prim.step s = (.ok (), s') ∧ Reconciles knownIds s s' ∧
        P name s')
    (entries : List (OsName × Bool)) (s : Store) :
    ∃ s', (forEach (descend length body dir) entries).run Prim.step s = (.ok (), s') ∧
      Reconciles knownIds s s' ∧
      ∀ name : String, name.utf8ByteSize = length → (.str name, true) ∈ entries → P name s' := by
  have hstep : ∀ entry ∈ entries, ∀ t, ∃ t', (descend length body dir entry).run Prim.step t =
      (.ok (), t') ∧ Reconciles knownIds t t' ∧ ∀ name : String, entry = (.str name, true) →
        name.utf8ByteSize = length → P name t' := by
    rintro ⟨name | bytes, isDir⟩ _ t
    · cases isDir with
      | false => exact ⟨t, rfl, .refl _ _, nofun⟩
      | true =>
        rw [descend]
        by_cases hlen : name.utf8ByteSize = length
        · rw [if_pos hlen]
          obtain ⟨t', hrun, hrec, hPt⟩ := hbody name hlen t
          exact ⟨t', hrun, hrec, by rintro name' ⟨rfl⟩ _; exact hPt⟩
        · rw [if_neg hlen]
          exact ⟨t, rfl, .refl _ _, by rintro name' ⟨rfl⟩ h; exact absurd h hlen⟩
    · exact ⟨t, rfl, .refl _ _, nofun⟩
  obtain ⟨s', hrun, hrec, hall⟩ := run_forEach Prim.step (Reconciles.refl knownIds) Reconciles.trans
    (fun hR h name hentry hlen => hP hR (h name hentry hlen)) hstep s
  exact ⟨s', hrun, hrec, fun name hlen hmem => hall _ hmem name rfl hlen⟩

/-- The directories of payloads below a directory with a name of four bytes. -/
theorem run_mids {a : String} (ha : a.utf8ByteSize = 4) (s : Store) :
    ∃ s', (forEntries listing [.str a] (descend 2 (fun dir =>
        forEntries listing dir (reconcileLeaf knownIds dir)) [.str a])).run Prim.step s = (.ok (), s') ∧
      Reconciles knownIds s s' ∧
      ∀ b : String, b.utf8ByteSize = 2 → Tidy knownIds [.str a, .str b] s' := by
  obtain ⟨s', hrun, hrec, hall⟩ := run_forEach_descend [.str a] 2
    (fun dir => forEntries listing dir (reconcileLeaf knownIds dir))
    (P := fun b t => Tidy knownIds [.str a, .str b] t) (fun hR h => h.reconciles hR)
    (fun b hb t => run_leaves ⟨a, b, ha, hb, rfl⟩ t)
    (listing.order [.str a] (s.entries [.str a])) s
  refine ⟨s', by rw [run_forEntries, hrun], hrec, fun b hb => ?_⟩
  by_cases htidy : Tidy knownIds [.str a, .str b] s
  · exact htidy.reconciles hrec
  · -- there is a file in the directory, which is thus listed
    rw [Tidy] at htidy
    push Not at htidy
    obtain ⟨leaf, _, hfile⟩ := htidy
    have hsome : (s.file ([.str a] ++ .str b :: .str leaf :: [])).isSome :=
      Option.isSome_iff_ne_none.2 hfile
    exact hall b hb ((listing.perm _ _).mem_iff.2 (mem_entries_dir hsome))

/-- Reconciling leaves the rows, and in the directories of payloads no file but of
    known sources. -/
theorem run_reconcileOrphans (listing : Listing) (s : Store) :
    ∃ s', (reconcileOrphans listing).run Prim.step s = (.ok (), s') ∧
      Reconciles (s.sources.rows.map Source.id) s s' ∧
      ∀ dir, IsLayout dir → Tidy (s.sources.rows.map Source.id) dir s' := by
  obtain ⟨s', hrun, hrec, hall⟩ := run_forEach_descend [] 4
    (fun top => forEntries listing top (descend 2 (fun dir =>
      forEntries listing dir (reconcileLeaf (s.sources.rows.map Source.id) dir)) top))
    (P := fun a t => ∀ b : String, b.utf8ByteSize = 2 →
      Tidy (s.sources.rows.map Source.id) [.str a, .str b] t)
    (fun hR h b hb => (h b hb).reconciles hR)
    (fun a ha t => run_mids ha t) (listing.order [] (s.entries [])) s
  refine ⟨s', hrun, hrec, ?_⟩
  rintro dir ⟨a, b, ha, hb, rfl⟩
  by_cases htidy : Tidy (s.sources.rows.map Source.id) [.str a, .str b] s
  · exact htidy.reconciles hrec
  · rw [Tidy] at htidy
    push Not at htidy
    obtain ⟨leaf, _, hfile⟩ := htidy
    have hsome : (s.file ([] ++ .str a :: .str b :: [.str leaf])).isSome :=
      Option.isSome_iff_ne_none.2 hfile
    exact hall a ha ((listing.perm _ _).mem_iff.2 (mem_entries_dir hsome)) b hb

/-- Making the directories of the links changes no other table and no file. -/
theorem run_syncDirsFromLinks (s : Store) :
    ∃ s', syncDirsFromLinks.run Prim.step s = (.ok (), s') ∧ s'.links = s.links ∧
      s'.sources = s.sources ∧ s'.files = s.files := by
  let R (s s' : Store) : Prop := s'.links = s.links ∧ s'.sources = s.sources ∧ s'.files = s.files
  have hrefl : ∀ s, R s s := fun _ => ⟨rfl, rfl, rfl⟩
  have htrans : ∀ {s t u}, R s t → R t u → R s u := fun h h' =>
    ⟨h'.1.trans h.1, h'.2.1.trans h.2.1, h'.2.2.trans h.2.2⟩
  have hinsert : ∀ (path parent : String) (t : Store),
      ∃ t', (exec (.insertDir path parent)).ignore.run Prim.step t = (.ok (), t') ∧ R t t' ∧ True := by
    intro path parent t
    refine ⟨_, run_ignore _ _ _, ?_, trivial⟩
    rw [run_perform, Prim.step]
    split
    · exact hrefl t
    · exact ⟨rfl, rfl, rfl⟩
  have hlink : ∀ (link : Link) (t : Store),
      ∃ t', (syncDirsFromLink link).run Prim.step t = (.ok (), t') ∧ R t t' ∧ True := by
    intro link t
    obtain ⟨t', hrun, hR, _⟩ := run_forEach (P := fun _ _ => True) Prim.step hrefl htrans
      (fun _ _ => trivial) (fun (dir : String × String) _ t => hinsert dir.1 dir.2 t) t
    exact ⟨t', hrun, hR, trivial⟩
  obtain ⟨s', hrun, hR, _⟩ := run_forEach (P := fun _ _ => True) Prim.step hrefl htrans
    (fun _ _ => trivial) (fun (link : Link) (_ : link ∈ s.listed "*" 0 false true) t => hlink link t) s
  refine ⟨s', ?_, hR⟩
  rw [syncDirsFromLinks, run_bind, run_listLocked]
  exact hrun

end StoreManager

/-! ## Opening a store -/

namespace Store

/-- What is at a path after the files have been reconciled. -/
def reconciled (s : Store) (p : Path) : Option Bytes :=
  match p with
  | [.str a, .str b, .str name] =>
    if a.utf8ByteSize = 4 ∧ b.utf8ByteSize = 2 then
      if name ∈ (s.sources.rows.map Source.id).map SourceId.val then s.latest [.str a, .str b] name
      else none
    else s.file p
  | _ => s.file p

theorem reconciled_leaf {s : Store} {dir : Path} (hdir : IsLayout dir) (name : String) :
    s.reconciled (dir ++ [.str name]) =
      if name ∈ (s.sources.rows.map Source.id).map SourceId.val then s.latest dir name else none := by
  obtain ⟨a, b, ha, hb, rfl⟩ := hdir
  exact if_pos ⟨ha, hb⟩

theorem mem_sourceIds {s : Store} {id : SourceId} :
    id.val ∈ (s.sources.rows.map Source.id).map SourceId.val ↔ (s.source id).isSome := by
  rw [Option.isSome_iff_exists]
  constructor
  · intro h
    obtain ⟨id', hid', hval⟩ := List.mem_map.1 h
    obtain ⟨src, hsrc, rfl⟩ := List.mem_map.1 hid'
    rw [← SourceId.ext_val hval]
    exact ⟨src, source_of_mem hsrc⟩
  · rintro ⟨src, hsrc⟩
    rw [← id_of_source hsrc]
    exact List.mem_map_of_mem (List.mem_map_of_mem (mem_of_source hsrc))

/-- The payload of a source is its tombstone, if there is one. -/
theorem reconciled_sourcePath (s : Store) (id : SourceId) :
    s.reconciled id.sourcePath = if (s.source id).isSome then
      s.file id.tombstonePath <|> s.file id.sourcePath else none := by
  have h := reconciled_leaf (s := s) id.isLayout_sourceDir id.val
  simp only [mem_sourceIds] at h
  exact h

/-- If the files there are belong to sources, those left are the payloads of known
    ones. -/
theorem sourcePath_of_reconciled {s : Store} (hs : ∀ p, (s.file p).isSome → ∃ id, SourceId.Owns id p)
    {p : Path} (h : (s.reconciled p).isSome) : ∃ id, (s.source id).isSome ∧ p = id.sourcePath := by
  unfold reconciled at h
  split at h
  · next a b name =>
    split at h
    · next hlen =>
      split at h
      · next hname =>
        obtain ⟨id, hid, rfl⟩ := List.mem_map.1 hname
        refine ⟨id, mem_sourceIds.1 hname, ?_⟩
        have hdir : ([.str a, .str b] : Path) = id.sourceDir := by
          by_cases htomb : (s.file ([.str a, .str b] ++ [.str (id.val ++ ".deleting")])).isSome
          · obtain ⟨_, howns⟩ := hs _ htomb
            exact howns.dir_eq
          · rw [latest, Option.not_isSome_iff_eq_none.1 htomb] at h
            obtain ⟨_, howns⟩ := hs _ h
            rw [← String.append_empty (s := id.val)] at howns
            exact SourceId.Owns.dir_eq howns
        exact congrArg (· ++ [.str id.val]) hdir
      · cases h
    · next hlen =>
      obtain ⟨id, howns⟩ := hs _ h
      obtain ⟨suffix, heq⟩ := howns.eq_pathWith
      obtain ⟨a', b', ha, hb, hdir⟩ := id.isLayout_sourceDir
      rw [SourceId.pathWith, hdir] at heq
      cases heq
      exact absurd ⟨ha, hb⟩ hlen
  · next hnot =>
    obtain ⟨id, howns⟩ := hs _ h
    obtain ⟨suffix, rfl⟩ := howns.eq_pathWith
    exact absurd rfl (hnot _ _ _)

/-- The state `s'` is `s` after it has been opened: the links and the sources stay as
    they are, the files are reconciled with them. -/
structure Reopened (s s' : Store) : Prop where
  links : s'.links = s.links
  sources : s'.sources = s.sources
  file : ∀ p, s'.file p = s.reconciled p

end Store

namespace StoreManager

open Store

/-- Opening a store succeeds, in whatever order the files are listed. -/
theorem run_new (listing : Listing) (s : Store) :
    ∃ s', (new listing).run Prim.step s = (.ok (), s') ∧ s.Reopened s' := by
  obtain ⟨s₁, hrun₁, hrec, htidy⟩ := run_reconcileOrphans listing s
  obtain ⟨s₂, hrun₂, hlinks, hsources, hfiles⟩ := run_syncDirsFromLinks s₁
  refine ⟨s₂, ?_, hlinks.trans hrec.links, hsources.trans hrec.sources, fun p => ?_⟩
  · rw [new, run_bind, run_mapError, hrun₁]
    change (syncDirsFromLinks.mapError _).run Prim.step s₁ = _
    rw [run_mapError, hrun₂]
    rfl
  · have hfile : s₂.file p = s₁.file p := by rw [Store.file, hfiles, Store.file]
    have hout : (∀ dir name, IsLayout dir → p ≠ dir ++ [.str name]) → s₁.file p = s.file p :=
      hrec.outside p
    rw [hfile]
    unfold reconciled
    split
    · next a b name =>
      split
      · next hlen =>
        have hdir : IsLayout [.str a, .str b] := ⟨a, b, hlen.1, hlen.2, rfl⟩
        split
        · next hname =>
          -- the tombstone has become the payload
          obtain ⟨id, hid, rfl⟩ := List.mem_map.1 hname
          have htomb := htidy _ hdir (id.val ++ ".deleting") fun hmem => by
            obtain ⟨id', _, hid'⟩ := List.mem_map.1 hmem
            exact id'.val_ne_append _ hid'
          have hlatest := hrec.known [.str a, .str b] id hid
          rw [latest, htomb] at hlatest
          exact hlatest
        · next hname => exact htidy _ hdir name hname
      · next hlen =>
        refine hout ?_
        rintro dir name' ⟨a', b', ha, hb, rfl⟩ heq
        cases heq
        exact hlen ⟨ha, hb⟩
    · next hnot =>
      refine hout ?_
      rintro dir name' ⟨a', b', ha, hb, rfl⟩ rfl
      exact hnot a' b' name' rfl

end StoreManager

end LiNaStore
