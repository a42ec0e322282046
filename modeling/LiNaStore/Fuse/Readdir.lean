import LiNaStore.Fuse.Tree
import LiNaStore.Library.Pages
import LiNaStore.Library.Text

/-!
# Listing a directory

A directory is listed from two tables, that of the directories, by the parent of each, and that of
the links, by their names, a name that occurs in both once (`LinaFs.entriesOf`). The list is made
anew for each request, and what fits into the reply is delivered, from the offset of the request on
(`LinaFs.readdir`).

If the tables are a tree, then reading a directory page by page delivers `.` and `..` and then each
of its children once, whatever the size of the replies, as long as each entry fits into one
(`readdir_complete`).
-/

namespace LiNaStore

open Program Store Slash

/-- An entry of a reply, with the offset after it. -/
structure DirReply where
  ino : UInt64
  offset : ℕ
  kind : FileType
  name : String
  deriving DecidableEq

namespace LinaFs

/-- The name of a direct child of a directory. -/
def directChildName (full front : String) : Option String :=
  match if front = "" then some full else stripFront (front ++ "/") full with
  | some stripped => if '/' ∈ stripped.toList then none else some stripped
  | none => none

variable (M : Mount)

/-- The entries of the directories. -/
def dirEntries (front : String) (childDirs : List DirEntry) : List (UInt64 × FileType × String) :=
  childDirs.filterMap fun dir =>
    (directChildName dir.path front).map fun leaf => (M.dirIno dir.path, .directory, leaf)

/-- The entries of the files, but for the names that are there. -/
def fileEntries (front : String) : List String → List Link → List (UInt64 × FileType × String)
  | _, [] => []
  | seen, link :: links =>
    match directChildName link.name front with
    | some leaf =>
      if leaf ∈ seen then fileEntries front seen links
      else (M.fileIno (fullPath front leaf), kindFromMode link.mode, leaf) ::
        fileEntries front (leaf :: seen) links
    | none => fileEntries front seen links

/-- All entries of a directory. -/
def entriesOf (ino : UInt64) (front : String) (childDirs : List DirEntry) (files : List Link) :
    List (UInt64 × FileType × String) :=
  (ino, .directory, ".") :: (rootIno, .directory, "..") :: (dirEntries M front childDirs ++
    fileEntries M front (childDirs.filterMap fun dir => directChildName dir.path front) files)

/-- The entries with their offsets. -/
def numbered (entries : List (UInt64 × FileType × String)) : List DirReply :=
  entries.zipIdx.map fun e => ⟨e.1.1, e.2 + 1, e.1.2.1, e.1.2.2⟩

/-- How many bytes of a reply an entry takes, `entrySize` of its name, is a matter of the protocol
    with the kernel. -/
def readdir (entrySize : String → ℕ) (capacity : ℕ) (ino : UInt64) (offset : ℕ) :
    FsProg (List DirReply) := do
  let front ← parentPath M ino
  let childDirs := unwrapOrDefault (← invoke (.store (.listChildDirs front)))
  let files ← allFiles
  return Pages.fill (fun r => entrySize r.name) capacity 0
    ((numbered (entriesOf M ino front childDirs files)).drop offset)

end LinaFs

/-! ## Children -/

/-- A name of a file or directory that lies directly in a directory. -/
def Store.IsChild (s : Store) (front leaf : String) : Prop :=
  Component leaf ∧ (HasDir s.dirs (child front leaf) ∨ s.Linked (child front leaf))

namespace LinaFs

theorem directChildName_eq_some_iff {full front leaf : String} :
    directChildName full front = some leaf ↔ full = child front leaf ∧ '/' ∉ leaf.toList := by
  have hstripped {stripped : String} : (if '/' ∈ stripped.toList then none else some stripped) =
      some leaf ↔ stripped = leaf ∧ '/' ∉ leaf.toList := by
    split_ifs with hslash
    · refine iff_of_false (fun h => by cases h) ?_
      rintro ⟨rfl, hslash'⟩
      exact hslash' hslash
    · refine ⟨?_, fun h => congrArg some h.1⟩
      rintro ⟨rfl⟩
      exact ⟨rfl, hslash⟩
  rw [directChildName, child]
  split_ifs with hfront
  · exact hstripped
  · cases hrest : stripFront (front ++ "/") full with
    | none =>
      refine iff_of_false (fun h => by cases h) fun h => ?_
      rw [stripFront_eq_some_iff.2 h.1] at hrest
      cases hrest
    | some rest =>
      rw [stripFront_eq_some_iff] at hrest
      dsimp only
      rw [hstripped, hrest, String.append_right_inj]

/-- What lies directly in a directory, in a table of proper paths. -/
theorem directChildName_iff_of_proper {full front leaf : String} (hproper : Proper full) :
    directChildName full front = some leaf ↔ full = child front leaf ∧ Component leaf := by
  rw [directChildName_eq_some_iff]
  refine and_congr_right fun hfull => ⟨fun hslash => ⟨?_, hslash⟩, Component.slash_notMem⟩
  rintro rfl
  rw [hfull, child] at hproper
  split_ifs at hproper with hfront
  · exact hproper.ne_empty rfl
  · rw [Proper, toList_append_slash, List.splitOn_append_cons_self] at hproper
    exact hproper [] (List.mem_append_right _ (List.mem_singleton_self _)) rfl

section Entries

variable (M : Mount) (front : String)

theorem names_dirEntries (childDirs : List DirEntry) :
    (dirEntries M front childDirs).map (·.2.2) =
      childDirs.filterMap fun dir => directChildName dir.path front := by
  rw [dirEntries, List.map_filterMap]
  simp only [Option.map_map, Function.comp_def, Option.map_id_fun', id_eq]

theorem mem_fileEntries {leaf : String} (seen : List String) (links : List Link) :
    leaf ∈ (fileEntries M front seen links).map (·.2.2) ↔
      leaf ∉ seen ∧ ∃ link ∈ links, directChildName link.name front = some leaf := by
  induction links generalizing seen with
  | nil => simp [fileEntries]
  | cons link links ih =>
    simp only [fileEntries, List.mem_cons, exists_eq_or_imp]
    cases hleaf : directChildName link.name front with
    | none => simpa using ih seen
    | some leaf' =>
      dsimp only
      rw [Option.some.injEq]
      split_ifs with hseen
      · rw [ih]
        refine and_congr_right fun hleaf => (or_iff_right ?_).symm
        rintro rfl
        exact hleaf hseen
      · rw [List.map_cons, List.mem_cons, ih, List.mem_cons, not_or]
        constructor
        · rintro (rfl | ⟨⟨-, hleaf⟩, hlinks⟩)
          · exact ⟨hseen, .inl rfl⟩
          · exact ⟨hleaf, .inr hlinks⟩
        · rintro ⟨hleaf, rfl | hlinks⟩
          · exact .inl rfl
          · by_cases heq : leaf = leaf'
            · exact .inl heq
            · exact .inr ⟨⟨heq, hleaf⟩, hlinks⟩

theorem nodup_fileEntries (seen : List String) (links : List Link) :
    ((fileEntries M front seen links).map (·.2.2)).Nodup := by
  induction links generalizing seen with
  | nil => exact List.nodup_nil
  | cons link links ih =>
    rw [fileEntries]
    split
    · split_ifs with hseen
      · exact ih seen
      · rw [List.map_cons, List.nodup_cons, mem_fileEntries]
        exact ⟨fun h => h.1 List.mem_cons_self, ih _⟩
    · exact ih seen

end Entries

section Listed

variable {M : Mount} {s : Store} {front : String} (htree : s.TreeFormed)

/-- The names of the entries after the first two. -/
def childNames (M : Mount) (s : Store) (front : String) : List String :=
  let childDirs := Prim.byPath (s.dirs.rows.filter (·.parent = front))
  (dirEntries M front childDirs ++ fileEntries M front
    (childDirs.filterMap fun dir => directChildName dir.path front) s.links.rows).map (·.2.2)

include htree

/-- The names of the directories that the table gives. -/
theorem mem_childDirs {leaf : String} :
    leaf ∈ (Prim.byPath (s.dirs.rows.filter (·.parent = front))).filterMap
        (fun dir => directChildName dir.path front) ↔
      Component leaf ∧ HasDir s.dirs (child front leaf) := by
  simp only [List.mem_filterMap, Prim.byPath, (List.mergeSort_perm _ _).mem_iff, List.mem_filter,
    decide_eq_true_eq]
  constructor
  · rintro ⟨dir, ⟨hdir, -⟩, hleaf⟩
    obtain ⟨hpath, hcomponent⟩ := (directChildName_iff_of_proper (htree.dirs.proper dir hdir)).1 hleaf
    exact ⟨hcomponent, dir, hdir, hpath⟩
  · rintro ⟨hcomponent, dir, hdir, hpath⟩
    refine ⟨dir, ⟨hdir, ?_⟩, (directChildName_iff_of_proper (htree.dirs.proper dir hdir)).2
      ⟨hpath, hcomponent⟩⟩
    rw [htree.dirs.parent_eq dir hdir, hpath, parentOf_child front hcomponent.slash_notMem]

omit htree in
theorem nodup_childDirs :
    ((Prim.byPath (s.dirs.rows.filter (·.parent = front))).filterMap
      fun dir => directChildName dir.path front).Nodup := by
  have hpaths : ((Prim.byPath (s.dirs.rows.filter (·.parent = front))).map DirEntry.path).Nodup :=
    ((List.mergeSort_perm _ _).map _).nodup_iff.2
      (s.dirs.nodup_keys.sublist (List.filter_sublist.map _))
  have hnames := hpaths.filterMap (f := fun path => directChildName path front) ?_
  · rwa [List.filterMap_map] at hnames
  · intro path path' leaf hleaf hleaf'
    rw [(directChildName_eq_some_iff.1 hleaf).1, (directChildName_eq_some_iff.1 hleaf').1]

theorem mem_childNames {leaf : String} : leaf ∈ childNames M s front ↔ s.IsChild front leaf := by
  simp only [childNames, List.map_append, List.mem_append, names_dirEntries, mem_fileEntries,
    mem_childDirs htree]
  have hlink : (∃ link ∈ s.links.rows, directChildName link.name front = some leaf) ↔
      Component leaf ∧ s.Linked (child front leaf) := by
    constructor
    · rintro ⟨link, hlink, hleaf⟩
      obtain ⟨hname, hcomponent⟩ := (directChildName_iff_of_proper (htree.proper link hlink)).1 hleaf
      exact ⟨hcomponent, link, hlink, hname⟩
    · rintro ⟨hcomponent, link, hlink, hname⟩
      exact ⟨link, hlink, (directChildName_iff_of_proper (htree.proper link hlink)).2
        ⟨hname, hcomponent⟩⟩
  rw [hlink, IsChild]
  tauto

omit htree in
theorem nodup_childNames : (childNames M s front).Nodup := by
  rw [childNames, List.map_append, List.nodup_append, names_dirEntries]
  refine ⟨nodup_childDirs, nodup_fileEntries M front _ _, fun leaf hleaf leaf' hleaf' heq => ?_⟩
  rw [mem_fileEntries] at hleaf'
  exact hleaf'.1 (heq ▸ hleaf)

end Listed

theorem names_numbered (entries : List (UInt64 × FileType × String)) :
    (numbered entries).map DirReply.name = entries.map (·.2.2) := by
  rw [numbered, List.map_map]
  exact (List.map_map (f := Prod.fst) (g := fun e : UInt64 × FileType × String => e.2.2)).symm.trans
    (congrArg (List.map _) (List.zipIdx_map_fst _ _))

theorem offset_numbered (entries : List (UInt64 × FileType × String)) (i : ℕ) (r : DirReply)
    (h : (numbered entries)[i]? = some r) : r.offset = i + 1 := by
  rw [numbered, List.getElem?_map, List.getElem?_zipIdx, Option.map_map, Option.map_eq_some_iff] at h
  obtain ⟨e, -, rfl⟩ := h
  exact congrArg (· + 1) (Nat.zero_add i)

theorem run_readdir (E : Engine) {M : Mount} {fs : LinaFs} {ino : UInt64} {front : String}
    (hino : fs.store.parentPath M ino = .ok front) (entrySize : String → ℕ) (capacity offset : ℕ) :
    (readdir M entrySize capacity ino offset).run (FsPrim.step (StoreCall.serve E)) fs =
      (.ok (Pages.fill (fun r => entrySize r.name) capacity 0 ((numbered (entriesOf M ino front
        (Prim.byPath (fs.store.dirs.rows.filter (·.parent = front))) fs.store.links.rows)).drop
          offset)), fs) := by
  rw [readdir, run_bind, run_parentPath, hino]
  rfl

end LinaFs

/-- A directory of a tree is read page by page, the state staying as it is, with replies into which
    any of its entries fits: what is delivered is `.` and `..`, and then each child once. -/
theorem readdir_complete (E : Engine) (M : Mount) {fs : LinaFs} (htree : fs.store.TreeFormed)
    {ino : UInt64} {front : String} (hino : fs.store.parentPath M ino = .ok front)
    {entrySize : String → ℕ} {capacity : ℕ}
    (hcapacity : ∀ leaf, leaf = "." ∨ leaf = ".." ∨ fs.store.IsChild front leaf →
      entrySize leaf ≤ capacity) :
    ∃ page : ℕ → List DirReply,
      (∀ offset, (LinaFs.readdir M entrySize capacity ino offset).run
        (FsPrim.step (StoreCall.serve E)) fs = (.ok (page offset), fs)) ∧
      ∃ entries, (∀ delivered, Pages.Delivers page DirReply.offset 0 delivered ↔ delivered = entries) ∧
        ∃ names, entries.map DirReply.name = "." :: ".." :: names ∧ names.Nodup ∧
          (∀ leaf, leaf ∈ names ↔ fs.store.IsChild front leaf) ∧
          ((entries.map DirReply.name).Nodup ↔
            ¬fs.store.IsChild front "." ∧ ¬fs.store.IsChild front "..") := by
  have hnames : (LinaFs.numbered (LinaFs.entriesOf M ino front
      (Prim.byPath (fs.store.dirs.rows.filter (·.parent = front))) fs.store.links.rows)).map
        DirReply.name = "." :: ".." :: LinaFs.childNames M fs.store front := by
    rw [LinaFs.names_numbered]
    rfl
  refine ⟨_, LinaFs.run_readdir E hino entrySize capacity, _, fun delivered => Pages.delivers_iff
    (fun r hr => hcapacity r.name ?_) (LinaFs.offset_numbered _), LinaFs.childNames M fs.store front,
    hnames, LinaFs.nodup_childNames, fun leaf => LinaFs.mem_childNames htree, ?_⟩
  · rw [← LinaFs.mem_childNames htree, ← List.mem_cons, ← List.mem_cons, ← hnames]
    exact List.mem_map_of_mem hr
  · rw [List.drop_zero, hnames, List.nodup_cons, List.nodup_cons, List.mem_cons, not_or,
      LinaFs.mem_childNames htree, LinaFs.mem_childNames htree,
      and_iff_left LinaFs.nodup_childNames, and_iff_right (by decide : ¬"." = "..")]

/-- A header of 24 bytes and the name, filled up to a multiple of 8. -/
def paddedSize (name : String) : ℕ := (24 + (utf8 name).length + 7) / 8 * 8

/-- The root of a store with one file, with replies into which one entry fits. -/
theorem readdir_complete_root :
    ∃ page : ℕ → List DirReply,
      (∀ offset, (LinaFs.readdir .sample paddedSize 32 rootIno offset).run
        (FsPrim.step (StoreCall.serve .plain)) ⟨.sample, fun _ => none⟩ =
          (.ok (page offset), ⟨.sample, fun _ => none⟩)) ∧
      ∃ entries, Pages.Delivers page DirReply.offset 0 entries ∧ "a" ∈ entries.map DirReply.name := by
  have htree : (LinaFs.mk .sample fun _ => none).store.TreeFormed := by
    refine ⟨.empty, fun l hl path hbelow => ?_, fun l hl => ?_⟩
    · rw [(Store.linked_sample_iff l.name).1 (linked_of_mem hl)] at hbelow
      exact absurd hbelow (not_below_of_notMem (by decide))
    · rw [(Store.linked_sample_iff l.name).1 (linked_of_mem hl)]
      decide
  have hino : (LinaFs.mk .sample fun _ => none).store.parentPath .sample rootIno = .ok "" := rfl
  have hchild (leaf : String) : Store.sample.IsChild "" leaf → leaf = "a" := by
    rintro ⟨-, ⟨dir, hdir, -⟩ | hname⟩
    · exact absurd hdir List.not_mem_nil
    · exact (Store.linked_sample_iff leaf).1 hname
  have hcapacity : ∀ leaf, leaf = "." ∨ leaf = ".." ∨ Store.sample.IsChild "" leaf →
      paddedSize leaf ≤ 32 := by
    rintro leaf (rfl | rfl | hleaf)
    · decide
    · decide
    · rw [hchild leaf hleaf]
      decide
  obtain ⟨page, hrun, entries, hdelivers, names, hnames, -, hmem, -⟩ :=
    readdir_complete .plain .sample htree hino hcapacity
  refine ⟨page, hrun, entries, (hdelivers entries).2 rfl, ?_⟩
  rw [hnames]
  exact List.mem_cons_of_mem _ (List.mem_cons_of_mem _ ((hmem "a").2
    ⟨⟨by decide, by decide⟩, .inr ((Store.linked_sample_iff "a").2 rfl)⟩))

end LiNaStore
