import LiNaStore.Base.Store
import LiNaStore.Library.Chase

/-!
# Directories, files and symlinks

The part of a file system that tidying works on: directories, regular files with the time they were
created at, and symlinks, each a path that is looked up from the directory of the link
(`Disk.locate`). What is in a directory is below one, which is part of the type (`Disk`); so every
path on the way to what is there is that of a directory (`Disk.node_of_append`).

Opening a path follows the symlinks to a regular file (`Disk.file?`). This is told by the links
alone (`Disk.file?_eq_some_iff`), and everything about contents is proved about them. Links to
directories are not modelled: such a link leads nowhere.
-/

namespace LiNaStore

/-- A component of a path. -/
inductive PathComponent
  | rootDir
  | curDir
  | parentDir
  | normal (name : OsName)
  deriving DecidableEq, Repr

/-- The path a component leads to from another one. -/
def PathComponent.enter (path : Path) : PathComponent → Path
  | rootDir => []
  | curDir => path
  | parentDir => path.dropLast
  | normal name => path ++ [name]

/-- The components of an absolute path. -/
def absolute (path : Path) : List PathComponent := .rootDir :: path.map .normal

/-- A regular file. -/
structure RegularFile where
  bytes : Bytes
  /-- The time it was created at. -/
  created : ℤ
  deriving DecidableEq, Repr

/-- What is at a path. -/
inductive Node
  | file (file : RegularFile)
  | symlink (target : List PathComponent)
  | dir
  deriving DecidableEq, Repr

/-- A path and what is there. -/
structure DiskEntry where
  path : Path
  node : Node

/-- A file system, without its root. -/
structure Disk where
  entries : Table DiskEntry.path
  /-- Everything is in the root or in another directory. -/
  parent : ∀ entry ∈ entries.rows, entry.path ≠ [] ∧ (entry.path.dropLast = [] ∨
    ∃ dir ∈ entries.rows, dir.path = entry.path.dropLast ∧ dir.node = .dir)

namespace Disk

variable {D D' : Disk} {path path' : Path} {target : List PathComponent} {file : RegularFile}

/-- What is at a path. -/
def node (D : Disk) (path : Path) : Option Node :=
  if path = [] then some .dir else (D.entries.find? path).map DiskEntry.node

/-- There is something at the path, and it is not a directory. -/
def IsLeaf (D : Disk) (path : Path) : Prop := (D.node path).isSome ∧ D.node path ≠ some .dir

instance (D : Disk) (path : Path) : Decidable (D.IsLeaf path) := instDecidableAnd

theorem node_nil (D : Disk) : D.node [] = some .dir := rfl

theorem IsLeaf.ne_nil (h : D.IsLeaf path) : path ≠ [] := by
  rintro rfl
  exact h.2 D.node_nil

theorem node_of_ne_nil (h : path ≠ []) : D.node path = (D.entries.find? path).map DiskEntry.node :=
  if_neg h

theorem node_eq_dir_iff : D.node path = some .dir ↔
    path = [] ∨ ∃ dir ∈ D.entries.rows, dir.path = path ∧ dir.node = .dir := by
  rw [node]
  split_ifs with hpath
  · exact iff_of_true rfl (.inl hpath)
  · rw [or_iff_right hpath, Option.map_eq_some_iff]
    simp only [Table.find?_eq_some_iff, and_assoc]

/-- Everything is in a directory. -/
theorem node_dropLast (hpath : path ≠ []) (h : (D.node path).isSome) :
    D.node path.dropLast = some .dir := by
  rw [node_of_ne_nil hpath, Option.isSome_map] at h
  obtain ⟨entry, hentry⟩ := Option.isSome_iff_exists.mp h
  obtain ⟨hmem, rfl⟩ := Table.find?_eq_some_iff.mp hentry
  exact node_eq_dir_iff.mpr (D.parent entry hmem).2

/-- Every path on the way to what is there is that of a directory. -/
theorem node_of_append {rest : Path} (hrest : rest ≠ []) (h : (D.node (path ++ rest)).isSome) :
    D.node path = some .dir := by
  induction rest using List.reverseRecOn with
  | nil => exact absurd rfl hrest
  | append_singleton rest name ih =>
    have hdir : D.node (path ++ rest) = some .dir := by
      rw [← List.append_assoc] at h
      have hdir := D.node_dropLast (List.append_ne_nil_of_right_ne_nil _ (List.cons_ne_nil _ _)) h
      rwa [List.dropLast_concat] at hdir
    by_cases hnil : rest = []
    · rwa [hnil, List.append_nil] at hdir
    · exact ih hnil (by rw [hdir]; rfl)

/-! ## Changes -/

/-- The file system without a file or a symlink. -/
def erase (D : Disk) (path : Path) (h : D.IsLeaf path) : Disk where
  entries := D.entries.erase path
  parent entry hentry := by
    obtain ⟨hmem, _⟩ := Table.mem_erase.mp hentry
    refine ⟨(D.parent entry hmem).1, (D.parent entry hmem).2.imp_right ?_⟩
    rintro ⟨dir, hdir, hpath, hnode⟩
    refine ⟨dir, Table.mem_erase.mpr ⟨hdir, ?_⟩, hpath, hnode⟩
    -- what is erased is no directory
    rintro rfl
    exact h.2 (node_eq_dir_iff.mpr (.inr ⟨dir, hdir, rfl, hnode⟩))

/-- A path is free, in a directory. -/
def IsFree (D : Disk) (path : Path) : Prop :=
  path ≠ [] ∧ D.node path.dropLast = some .dir ∧ D.node path = none

instance (D : Disk) (path : Path) : Decidable (D.IsFree path) := instDecidableAnd

/-- The file system with one more symlink. -/
def addLink (D : Disk) (target : List PathComponent) (path : Path) (h : D.IsFree path) : Disk where
  entries := D.entries.insert ⟨path, .symlink target⟩
  parent entry hentry := by
    have hfree : D.entries.find? path = none := by
      have hnone := h.2.2
      rwa [node_of_ne_nil h.1, Option.map_eq_none_iff] at hnone
    have hmem {entry : DiskEntry} : entry ∈ (D.entries.insert ⟨path, .symlink target⟩).rows ↔
        entry ∈ D.entries.rows ∨ entry = ⟨path, .symlink target⟩ := Table.mem_insert hfree
    have hdirs {path' : Path} (hdir : D.node path' = some .dir) : path' = [] ∨
        ∃ dir ∈ (D.entries.insert ⟨path, .symlink target⟩).rows, dir.path = path' ∧ dir.node = .dir :=
      (node_eq_dir_iff.mp hdir).imp_right fun ⟨dir, hdir, hpath⟩ => ⟨dir, hmem.mpr (.inl hdir), hpath⟩
    rcases hmem.mp hentry with hentry | rfl
    · exact ⟨(D.parent entry hentry).1, hdirs (node_eq_dir_iff.mpr (D.parent entry hentry).2)⟩
    · exact ⟨h.1, hdirs h.2.1⟩

theorem node_erase (h : D.IsLeaf path) (path' : Path) :
    (D.erase path h).node path' = if path' = path then none else D.node path' := by
  by_cases hnil : path' = []
  · rw [hnil, if_neg h.ne_nil.symm]
    rfl
  · rw [node_of_ne_nil hnil, erase, Table.find?_erase, node_of_ne_nil hnil]
    split_ifs <;> rfl

theorem node_addLink (h : D.IsFree path) (path' : Path) : (D.addLink target path h).node path' =
    if path' = path then some (.symlink target) else D.node path' := by
  have hfree : D.entries.find? path = none := by
    have hnone := h.2.2
    rwa [node_of_ne_nil h.1, Option.map_eq_none_iff] at hnone
  by_cases hnil : path' = []
  · rw [hnil, if_neg h.1.symm]
    rfl
  · rw [node_of_ne_nil hnil, addLink, Table.find?_insert hfree, node_of_ne_nil hnil]
    split_ifs <;> rfl

/-! ## Looking up paths -/

/-- Look up a path from another one, component by component. -/
def locate (D : Disk) : Path → List PathComponent → Option Path
  | path, [] => some path
  | path, component :: components =>
    if D.node path = some .dir then D.locate (component.enter path) components else none

theorem locate_append (path : Path) (components components' : List PathComponent) :
    D.locate path (components ++ components') =
      (D.locate path components).bind (D.locate · components') := by
  induction components generalizing path with
  | nil => rfl
  | cons component components ih =>
    rw [List.cons_append, locate, locate]
    split_ifs
    · exact ih _
    · rfl

/-- Down to something that is there. -/
theorem locate_down {names : Path} (h : (D.node (path ++ names)).isSome) :
    D.locate path (names.map .normal) = some (path ++ names) := by
  induction names generalizing path with
  | nil => rw [List.append_nil]; rfl
  | cons name names ih =>
    rw [List.map_cons, locate, if_pos (node_of_append (List.cons_ne_nil _ _) h)]
    have happend : path ++ name :: names = PathComponent.enter path (.normal name) ++ names := by
      rw [PathComponent.enter, List.append_assoc, List.singleton_append]
    rw [happend] at h ⊢
    exact ih h

/-- Up from a directory. -/
theorem locate_up {names : Path} (h : D.node (path ++ names) = some .dir) :
    D.locate (path ++ names) (names.map fun _ => .parentDir) = some path := by
  induction names using List.reverseRecOn with
  | nil => rw [List.append_nil]; rfl
  | append_singleton names name ih =>
    have hparent : D.node (path ++ names) = some .dir := by
      rw [← List.append_assoc] at h
      exact node_of_append (List.cons_ne_nil _ _) (by rw [h]; rfl)
    rw [List.map_append, List.map_singleton, ← List.singleton_append]
    have hswap : (names.map fun _ => PathComponent.parentDir) ++ [.parentDir] =
        .parentDir :: names.map fun _ => PathComponent.parentDir := by
      rw [List.map_const', ← List.replicate_succ', List.replicate_succ]
    rw [List.singleton_append, hswap, locate, if_pos h, PathComponent.enter, ← List.append_assoc,
      List.dropLast_concat]
    exact ih hparent

/-- Looking up depends on the directories only. -/
theorem locate_congr (h : ∀ path, D'.node path = some .dir ↔ D.node path = some .dir) (path : Path)
    (components : List PathComponent) : D'.locate path components = D.locate path components := by
  induction components generalizing path with
  | nil => rfl
  | cons component components ih =>
    rw [locate, locate, ih]
    simp only [h]

/-! ## Following symlinks -/

/-- What a path is linked to, or the file that is there. -/
def next (D : Disk) (path : Path) : Option (Path ⊕ RegularFile) :=
  match D.node path with
  | some (.file file) => some (.inr file)
  | some (.symlink target) => (D.locate path.dropLast target).map .inl
  | some .dir | none => none

/-- The file a path leads to. -/
def file? (D : Disk) (path : Path) : Option RegularFile :=
  Chase.follow D.next (D.entries.rows.map DiskEntry.path).length path

/-- The bytes read from a path. -/
def read (D : Disk) (path : Path) : Option Bytes := (D.file? path).map RegularFile.bytes

/-- A path leads to a file. -/
abbrev Leads (D : Disk) (path : Path) (file : RegularFile) : Prop := Chase.Leads D.next path file

theorem isLeaf_of_next (h : (D.next path).isSome) : D.IsLeaf path := by
  rw [next] at h
  split at h
  · next heq => exact ⟨by rw [heq]; rfl, by rw [heq]; nofun⟩
  · next heq => exact ⟨by rw [heq]; rfl, by rw [heq]; nofun⟩
  · cases h
  · cases h

theorem Leads.isLeaf (h : D.Leads path file) : D.IsLeaf path := isLeaf_of_next h.isSome

theorem file?_eq_some_iff : D.file? path = some file ↔ D.Leads path file := by
  refine Chase.follow_eq_some_iff fun path h => ?_
  have hleaf := isLeaf_of_next h
  have hsome := hleaf.1
  rw [node_of_ne_nil hleaf.ne_nil, Option.isSome_map] at hsome
  obtain ⟨entry, hentry⟩ := Option.isSome_iff_exists.mp hsome
  obtain ⟨hmem, rfl⟩ := Table.find?_eq_some_iff.mp hentry
  exact List.mem_map_of_mem hmem

theorem read_eq_some_iff {bytes : Bytes} :
    D.read path = some bytes ↔ ∃ file, D.Leads path file ∧ file.bytes = bytes := by
  simp only [read, Option.map_eq_some_iff, file?_eq_some_iff]

/-- Of the files that paths lead to, each is at some path. -/
theorem Leads.exists_node (h : D.Leads path file) : ∃ path', D.node path' = some (.file file) := by
  induction h with
  | @stop path file hstop =>
    refine ⟨path, ?_⟩
    rw [next] at hstop
    split at hstop
    · next heq => rw [heq, ← Sum.inr.inj (Option.some.inj hstop)]
    · obtain ⟨_, _, hinl⟩ := Option.map_eq_some_iff.mp hstop
      cases hinl
    · cases hstop
    · cases hstop
  | step _ _ ih => exact ih

end Disk

end LiNaStore
