import LiNaStore.Base.Undercount
import LiNaStore.Fuse.Files
import LiNaStore.Fuse.Names
import LiNaStore.Library.Slash

/-!
# The tree of directories

Files and directories are in different tables of the store, and what relates them is their paths.
The tables are a tree (`Store.TreeFormed`) if a directory has the parent its path says, and
everything a file or a directory lies below is a directory. Opening a store makes the directories
above the names of its links (`StoreManager.run_new_tree`), a request about names keeps the tables a
tree (`FsRequest.Effect.treeFormed`), and so they are one in every state of a mounted store, where
making the directories above the names again changes nothing (`tree_formed`).

The names a request comes with are components of paths: neither empty nor with a slash. This is what
the kernel promises, and all that is asked of requests.
-/

namespace LiNaStore

open Program Store Slash

/-! ## Trees -/

/-- There is a directory with a path. -/
def HasDir (dirs : Table DirEntry.path) (path : String) : Prop := ∃ dir ∈ dirs.rows, dir.path = path

/-- The directories are a tree. -/
structure DirTree (dirs : Table DirEntry.path) : Prop where
  /-- The parent is the path without its last component. -/
  parent_eq : ∀ dir ∈ dirs.rows, dir.parent = parentOf dir.path
  /-- The parent is the root or a directory. -/
  hasDir_parent : ∀ dir ∈ dirs.rows, dir.parent = "" ∨ HasDir dirs dir.parent
  /-- What a directory lies below is a directory. -/
  above : ∀ dir ∈ dirs.rows, ∀ path, Below dir.path path → HasDir dirs path
  proper : ∀ dir ∈ dirs.rows, Proper dir.path

/-- The directories are a tree, with the files in it. -/
structure Store.TreeFormed (s : Store) : Prop where
  dirs : DirTree s.dirs
  /-- What a file lies below is a directory. -/
  above : ∀ l ∈ s.links.rows, ∀ path, Below l.name path → HasDir s.dirs path
  proper : ∀ l ∈ s.links.rows, Proper l.name

theorem hasDir_iff {dirs : Table DirEntry.path} {path : String} :
    HasDir dirs path ↔ (dirs.find? path).isSome := by
  rw [Option.isSome_iff_exists]
  constructor
  · rintro ⟨dir, hdir, rfl⟩
    exact ⟨dir, Table.find?_key hdir⟩
  · rintro ⟨dir, hdir⟩
    exact ⟨dir, Table.mem_of_find? hdir, Table.key_of_find? hdir⟩

namespace DirTree

variable {dirs dirs' : Table DirEntry.path} {path parent part : String} {mode : UInt32}

theorem empty : DirTree .empty := ⟨nofun, nofun, nofun, nofun⟩

/-- What a path in a directory lies below is a directory. -/
theorem hasDir_of_below_child (h : DirTree dirs) (hparent : parent = "" ∨ HasDir dirs parent)
    (hpart : Component part) (hbelow : Below (child parent part) path) : HasDir dirs path := by
  obtain ⟨hne, heq | hbelow⟩ := (below_child_iff hpart.slash_notMem).mp hbelow
  · rw [heq]
    exact hparent.resolve_left hne
  · obtain ⟨dir, hdir, rfl⟩ := hparent.resolve_left hne
    exact h.above dir hdir path hbelow

theorem proper_child (h : DirTree dirs) (hparent : parent = "" ∨ HasDir dirs parent)
    (hpart : Component part) : Proper (child parent part) := by
  refine Slash.proper_child (hparent.imp_right ?_) hpart
  rintro ⟨dir, hdir, rfl⟩
  exact h.proper dir hdir

/-- A directory is added in one that there is. -/
theorem insert (h : DirTree dirs) (hparent : parent = "" ∨ HasDir dirs parent)
    (hpart : Component part)
    (hmem : ∀ dir, dir ∈ dirs'.rows ↔ dir ∈ dirs.rows ∨ dir = ⟨child parent part, parent, mode⟩) :
    DirTree dirs' := by
  have hmono {path : String} : HasDir dirs path → HasDir dirs' path := by
    rintro ⟨dir, hdir, hpath⟩
    exact ⟨dir, (hmem dir).mpr (.inl hdir), hpath⟩
  constructor
  · intro dir hdir
    rcases (hmem dir).mp hdir with hdir | rfl
    · exact h.parent_eq dir hdir
    · exact (parentOf_child parent hpart.slash_notMem).symm
  · intro dir hdir
    rcases (hmem dir).mp hdir with hdir | rfl
    · exact (h.hasDir_parent dir hdir).imp_right hmono
    · exact hparent.imp_right hmono
  · intro dir hdir path hbelow
    rcases (hmem dir).mp hdir with hdir | rfl
    · exact hmono (h.above dir hdir path hbelow)
    · exact hmono (h.hasDir_of_below_child hparent hpart hbelow)
  · intro dir hdir
    rcases (hmem dir).mp hdir with hdir | rfl
    · exact h.proper dir hdir
    · exact h.proper_child hparent hpart

/-- Nothing lies below a path that is no directory's parent: of the directories on the way up from
    there, the last has it as its parent. -/
theorem not_below (h : DirTree dirs) (hunused : ∀ dir ∈ dirs.rows, dir.parent ≠ path) :
    ∀ dir ∈ dirs.rows, ¬Below dir.path path := by
  intro dir hdir hbelow
  obtain ⟨part, hpart, hway⟩ := hbelow.exists_child
  have hchild : HasDir dirs (path ++ "/" ++ part) := by
    rcases hway with heq | hbelow
    · exact ⟨dir, hdir, heq⟩
    · exact h.above dir hdir _ hbelow
  obtain ⟨dir', hdir', heq⟩ := hchild
  refine hunused dir' hdir' ?_
  rw [h.parent_eq dir' hdir', heq, parentOf_append path hpart]

/-- A directory without directories in it is removed. -/
theorem erase (h : DirTree dirs) (hunused : ∀ dir ∈ dirs.rows, dir.parent ≠ path) :
    DirTree (dirs.erase path) := by
  have hkept {path' : String} (hne : path' ≠ path) : HasDir dirs path' →
      HasDir (dirs.erase path) path' := by
    rintro ⟨dir, hdir, rfl⟩
    exact ⟨dir, Table.mem_erase.mpr ⟨hdir, hne⟩, rfl⟩
  constructor
  · intro dir hdir
    exact h.parent_eq dir (Table.mem_erase.mp hdir).1
  · intro dir hdir
    have hdir := (Table.mem_erase.mp hdir).1
    exact (h.hasDir_parent dir hdir).imp_right (hkept (hunused dir hdir))
  · intro dir hdir path' hbelow
    have hbefore := (Table.mem_erase.mp hdir).1
    refine hkept (fun heq => ?_) (h.above dir hbefore path' hbelow)
    exact h.not_below hunused dir hbefore (heq ▸ hbelow)
  · intro dir hdir
    exact h.proper dir (Table.mem_erase.mp hdir).1

end DirTree

/-! ## Making the directories above the names -/

namespace StoreManager

variable {s : Store}

/-- The directories of a chain are made, in a directory that there is. -/
theorem run_dirChain {parts : List String} (hparts : ∀ part ∈ parts, Component part) {acc : String}
    (hs : DirTree s.dirs) (hacc : acc = "" ∨ HasDir s.dirs acc) :
    ∃ s', (forEach (fun dir => (exec (.insertDir dir.1 dir.2)).ignore) (dirChain acc acc parts)).run
        Prim.step s = (.ok (), s') ∧
      DirTree s'.dirs ∧ (∀ path, HasDir s.dirs path → HasDir s'.dirs path) ∧
      (join acc parts = "" ∨ HasDir s'.dirs (join acc parts)) := by
  induction parts generalizing acc s with
  | nil => exact ⟨s, rfl, hs, fun _ h => h, hacc⟩
  | cons part parts ih =>
    obtain ⟨hpart, hparts⟩ := List.forall_mem_cons.mp hparts
    have hchain : dirChain acc acc (part :: parts) =
      (child acc part, acc) :: dirChain (child acc part) (child acc part) parts := rfl
    rw [hchain, run_forEach_cons, run_ignore, run_perform, Prim.step]
    by_cases hdir : (s.dirs.find? (child acc part)).isSome
    · -- the insertion fails, and that is ignored
      rw [if_pos hdir]
      exact ih hparts hs (.inr (hasDir_iff.mpr hdir))
    · have hmem (dir : DirEntry) : dir ∈ (s.dirs.insert ⟨child acc part, acc, 493⟩).rows ↔
          dir ∈ s.dirs.rows ∨ dir = ⟨child acc part, acc, 493⟩ :=
        Table.mem_insert (Option.not_isSome_iff_eq_none.mp hdir)
      have hnew : HasDir (s.dirs.insert ⟨child acc part, acc, 493⟩) (child acc part) :=
        ⟨_, (hmem _).mpr (.inr rfl), rfl⟩
      rw [if_neg hdir]
      obtain ⟨s', hrun, hs', hmono, hjoin⟩ := ih hparts (s := { s with dirs := _ })
        (hs.insert hacc hpart hmem) (.inr hnew)
      refine ⟨s', hrun, hs', ?_, hjoin⟩
      rintro path ⟨dir, hdir, rfl⟩
      exact hmono _ ⟨dir, (hmem dir).mpr (.inl hdir), rfl⟩

/-- The directories above a name are made. -/
theorem run_syncDirsFromLink {link : Link} (hproper : Proper link.name) (hs : DirTree s.dirs) :
    ∃ s', (syncDirsFromLink link).run Prim.step s = (.ok (), s') ∧ DirTree s'.dirs ∧
      (∀ path, HasDir s.dirs path → HasDir s'.dirs path) ∧
      ∀ path, Below link.name path → HasDir s'.dirs path := by
  have hparts (part : String) (hpart : part ∈ (components link.name).dropLast) : Component part :=
    hproper.component_of_mem part (List.mem_of_mem_dropLast hpart)
  obtain ⟨s', hrun, hs', hmono, hjoin⟩ := run_dirChain hparts hs (.inl rfl)
  refine ⟨s', ?_, hs', hmono, fun path hbelow => ?_⟩
  · rw [syncDirsFromLink, List.map_dropLast]
    exact hrun
  · obtain ⟨part, hpart, hname⟩ := hproper.exists_child
    rw [hname] at hbelow
    exact hs'.hasDir_of_below_child hjoin hpart hbelow

theorem run_forEach_syncDirsFromLink {links : List Link} (hproper : ∀ l ∈ links, Proper l.name)
    (hs : DirTree s.dirs) :
    ∃ s', (forEach syncDirsFromLink links).run Prim.step s = (.ok (), s') ∧ DirTree s'.dirs ∧
      (∀ path, HasDir s.dirs path → HasDir s'.dirs path) ∧
      ∀ l ∈ links, ∀ path, Below l.name path → HasDir s'.dirs path := by
  induction links generalizing s with
  | nil => exact ⟨s, rfl, hs, fun _ h => h, nofun⟩
  | cons link links ih =>
    obtain ⟨hlink, hproper⟩ := List.forall_mem_cons.mp hproper
    obtain ⟨s₁, hrun₁, hs₁, hmono₁, habove₁⟩ := run_syncDirsFromLink hlink hs
    obtain ⟨s₂, hrun₂, hs₂, hmono₂, habove₂⟩ := ih hproper hs₁
    refine ⟨s₂, ?_, hs₂, fun path h => hmono₂ path (hmono₁ path h), ?_⟩
    · rw [run_forEach_cons, hrun₁]
      exact hrun₂
    · exact List.forall_mem_cons.mpr ⟨fun path h => hmono₂ path (habove₁ path h), habove₂⟩

/-- Opening a store whose directories are a tree makes it one with its files. -/
theorem run_new_tree (listing : Listing) (hs : DirTree s.dirs)
    (hproper : ∀ l ∈ s.links.rows, Proper l.name) :
    ∃ s', (new listing).run Prim.step s = (.ok (), s') ∧ s.Reopened s' ∧ s'.TreeFormed := by
  obtain ⟨s', hrun, hre⟩ := run_new listing s
  obtain ⟨s₁, hrun₁, hrec, -⟩ := run_reconcileOrphans listing s
  rw [← hrec.dirs] at hs
  rw [← hrec.links] at hproper
  obtain ⟨s₂, hrun₂, hs₂, -, habove⟩ := run_forEach_syncDirsFromLink hproper hs
  have hsync : syncDirsFromLinks.run Prim.step s₁ = (.ok (), s₂) := by
    rw [syncDirsFromLinks, run_bind, run_listLocked]
    exact hrun₂
  -- opening is reconciling and then making the directories
  have heq : s' = s₂ := by
    rw [new, run_bind, run_mapError, hrun₁] at hrun
    change (syncDirsFromLinks.mapError _).run Prim.step s₁ = _ at hrun
    rw [run_mapError, hsync] at hrun
    exact (Prod.mk.inj hrun).2.symm
  subst heq
  have hlinks : s'.links = s₁.links := hre.links.trans hrec.links.symm
  rw [← hlinks] at habove hproper
  exact ⟨s', hrun, hre, hs₂, habove, hproper⟩

/-- In a tree the directories of a chain are there. -/
theorem run_dirChain_of_hasDir {parts : List String} {acc : String}
    (h : ∀ front back, front ≠ [] → parts = front ++ back → HasDir s.dirs (join acc front)) :
    (forEach (fun dir => (exec (.insertDir dir.1 dir.2)).ignore) (dirChain acc acc parts)).run
      Prim.step s = (.ok (), s) := by
  induction parts generalizing acc with
  | nil => rfl
  | cons part parts ih =>
    have hchain : dirChain acc acc (part :: parts) =
      (child acc part, acc) :: dirChain (child acc part) (child acc part) parts := rfl
    have hdir : HasDir s.dirs (child acc part) := h [part] parts (List.cons_ne_nil _ _) rfl
    rw [hchain, run_forEach_cons, run_ignore, run_perform, Prim.step, if_pos (hasDir_iff.mp hdir)]
    refine ih fun front back _ hparts => h (part :: front) back (List.cons_ne_nil _ _) ?_
    rw [hparts, List.cons_append]

/-- In a tree there is no directory left to make. -/
theorem run_syncDirsFromLinks_of_treeFormed (hs : s.TreeFormed) :
    syncDirsFromLinks.run Prim.step s = (.ok (), s) := by
  have hlink {l : Link} (hl : l ∈ s.links.rows) :
      (syncDirsFromLink l).run Prim.step s = (.ok (), s) := by
    have hproper := hs.proper l hl
    rw [syncDirsFromLink, List.map_dropLast]
    refine run_dirChain_of_hasDir fun front back hfront hparts => hs.above l hl _ ?_
    -- the name is the path of the directory and at least the last component
    obtain ⟨part, parts, rfl⟩ := List.exists_cons_of_ne_nil hfront
    have hne : components l.name ≠ [] := by
      intro hnil
      refine hproper.ne_empty ?_
      rw [← hproper.join_components, hnil]
      rfl
    have hjoin : l.name =
        join (join "" (part :: parts)) (back ++ [(components l.name).getLast hne]) := by
      rw [← join_append, ← List.append_assoc]
      rw [show (part :: parts) ++ back = (components l.name).dropLast from hparts.symm,
        List.dropLast_append_getLast, hproper.join_components]
    have hpart : part ∈ components l.name := by
      refine List.mem_of_mem_dropLast ?_
      rw [show (components l.name).dropLast = _ from hparts]
      exact List.mem_cons_self
    rw [hjoin]
    have hne : child "" part ≠ "" := (hproper.component_of_mem part hpart).ne_empty
    exact below_join (join_ne_empty hne parts) (by simp)
  rw [syncDirsFromLinks, run_bind, run_listLocked]
  have hall : ∀ l ∈ s.listed "*" 0 false true, l ∈ s.links.rows := fun _ hl => hl
  dsimp only
  generalize s.listed "*" 0 false true = links at hall
  induction links with
  | nil => rfl
  | cons l links ih =>
    obtain ⟨hl, hall⟩ := List.forall_mem_cons.mp hall
    rw [run_forEach_cons, hlink hl]
    exact ih hall

end StoreManager

/-! ## Requests -/

namespace FsRequest

/-- The names a request comes with. -/
def names : FsRequest → List OsName
  | create _ name _ _ | symlink _ name _ _ | mkdir _ name _ | rmdir _ name | unlink _ name => [name]
  | rename _ name _ newname _ => [name, newname]
  | _ => []

/-- The names that are texts are components of paths. -/
def Named (r : FsRequest) : Prop := ∀ name, .str name ∈ r.names → Component name

end FsRequest

namespace Store

variable {M : Mount} {s : Store} {parent : UInt64} {name : OsName} {parentPath path : String}

theorem hasDir_of_parentPath (h : s.parentPath M parent = .ok parentPath) :
    parentPath = "" ∨ HasDir s.dirs parentPath := by
  rw [Store.parentPath] at h
  split_ifs at h with hroot
  · exact .inl (Except.ok.inj h).symm
  · cases hdir : s.dirAt M parent with
    | none =>
      rw [hdir] at h
      cases h
    | some dir =>
      rw [hdir] at h
      exact .inr ⟨dir, (mem_of_dirAt hdir).1, Except.ok.inj h⟩

theorem toStr_eq_some {name : OsName} {text : String} (h : LinaFs.toStr name = some text) :
    name = .str text := by
  cases name with
  | str text' => exact congrArg OsName.str (Option.some.inj h)
  | _ => cases h

/-- A path that a name stands for is that of the name in a directory. -/
theorem exists_child_of_resolve (h : s.resolve M parent name = .ok (parentPath, path)) :
    (parentPath = "" ∨ HasDir s.dirs parentPath) ∧
      ∃ text, name = .str text ∧ path = child parentPath text := by
  rw [resolve] at h
  cases hparent : s.parentPath M parent with
  | error err =>
    rw [hparent] at h
    cases h
  | ok parentPath' =>
    cases hname : LinaFs.toStr name with
    | none =>
      rw [hparent, hname] at h
      cases h
    | some text =>
      rw [hparent, hname] at h
      cases h
      exact ⟨hasDir_of_parentPath hparent, text, toStr_eq_some hname, rfl⟩

end Store

/-- The new path of a file that is renamed is that of a name in a directory. -/
theorem LinaFs.exists_child_of_renamed {M : Mount} {fs : LinaFs} {parent newparent : UInt64}
    {name newname : OsName} {old new : String}
    (h : LinaFs.renamed M fs parent name newparent newname = .ok (old, new)) :
    ∃ parentPath, (parentPath = "" ∨ HasDir fs.store.dirs parentPath) ∧
      ∃ text, newname = .str text ∧ new = child parentPath text := by
  rw [renamed] at h
  split at h
  · cases h
  · split at h
    · cases h
    · next newParentPath hparent =>
      split at h
      · next newName _ hnew =>
        cases h
        exact ⟨newParentPath, hasDir_of_parentPath hparent, newName, toStr_eq_some hnew, rfl⟩
      · cases h

/-- The files are those there were, and others in directories that there are. -/
theorem Store.TreeFormed.of_linked {s s' : Store} (h : s.TreeFormed) (hdirs : s'.dirs = s.dirs)
    (hlinked : ∀ name, s'.Linked name → s.Linked name ∨ ∃ parent part,
      (parent = "" ∨ HasDir s.dirs parent) ∧ Component part ∧ name = child parent part) :
    s'.TreeFormed := by
  refine ⟨hdirs ▸ h.dirs, fun l hl path hbelow => ?_, fun l hl => ?_⟩
  · rw [hdirs]
    rcases hlinked l.name ⟨l, hl, rfl⟩ with ⟨l₀, hl₀, hname⟩ | ⟨parent, part, hparent, hpart, hname⟩
    · exact h.above l₀ hl₀ path (hname ▸ hbelow)
    · exact h.dirs.hasDir_of_below_child hparent hpart (hname ▸ hbelow)
  · rcases hlinked l.name ⟨l, hl, rfl⟩ with ⟨l₀, hl₀, hname⟩ | ⟨parent, part, hparent, hpart, hname⟩
    · exact hname ▸ h.proper l₀ hl₀
    · exact hname ▸ h.dirs.proper_child hparent hpart

namespace FsRequest.Effect

variable {E : Engine} {M : Mount} {fs fs' : LinaFs} {r : FsRequest} {reply : Except Errno FsReply}
  {extra : SourceId → ℕ}

/-- The store stays sound. -/
theorem sound (h : r.Effect E M fs reply fs') (hs : fs.store.Sound extra)
    (hfresh : r.Fresh fs.store) : ∃ extra', fs'.store.Sound extra' := by
  have hdirs (dirs : Table DirEntry.path) : ({ fs.store with dirs } : Store).Sound extra :=
    ⟨hs.toCounted.congr rfl rfl, hs.files⟩
  cases h with
  | refused _ => exact ⟨extra, hs⟩
  | create _ _ heff | symlink _ _ _ heff =>
    obtain ⟨extra', -, hs'⟩ := heff.sound hs hfresh
    exact ⟨extra', hs'.setMode _ _⟩
  | mkdir _ _ _ | rmdir _ _ _ => exact ⟨extra, hdirs _⟩
  | unlink _ _ => exact ⟨extra, hs.deleteAll listed_subset nodup_listed⟩
  | rename _ _ _ heff =>
    obtain ⟨extra', -, hs'⟩ := heff.sound hs hfresh
    exact ⟨extra', hs'.deleteAll listed_subset nodup_listed⟩

/-- The directories stay a tree with the files in it. -/
theorem treeFormed (h : r.Effect E M fs reply fs') (hs : fs.store.Sound extra)
    (hfresh : r.Fresh fs.store) (hnamed : r.Named) (htree : fs.store.TreeFormed) :
    fs'.store.TreeFormed := by
  cases h with
  | refused _ => exact htree
  | create hresolve _ heff | symlink hresolve _ _ heff =>
    obtain ⟨hparent, text, rfl, rfl⟩ := exists_child_of_resolve hresolve
    refine htree.of_linked heff.dirs fun name hname => ?_
    rw [linked_setMode, heff.linked_iff hfresh] at hname
    exact hname.symm.imp_right fun heq => ⟨_, text, hparent, hnamed text List.mem_cons_self, heq⟩
  | mkdir hresolve _ hmem =>
    obtain ⟨hparent, text, rfl, rfl⟩ := exists_child_of_resolve hresolve
    refine ⟨htree.dirs.insert hparent (hnamed text List.mem_cons_self) hmem,
      fun l hl path hbelow => ?_, htree.proper⟩
    obtain ⟨dir, hdir, hpath⟩ := htree.above l hl path hbelow
    exact ⟨dir, (hmem dir).mpr (.inl hdir), hpath⟩
  | @rmdir parent name parentPath path hresolve hdirs hlinks =>
    -- the request has looked for directories by their parents and for files by their names
    refine ⟨htree.dirs.erase hdirs, fun l hl path' hbelow => ?_, htree.proper⟩
    obtain ⟨dir, hdir, rfl⟩ := htree.above l hl path' hbelow
    refine ⟨dir, Table.mem_erase.mpr ⟨hdir, fun heq => hlinks l hl ?_⟩, rfl⟩
    exact heq ▸ hbelow
  | unlink hresolve hpath =>
    refine htree.of_linked (dirs_deleteAll _ _) fun name hname => .inl ?_
    exact ((hs.linked_delete_iff hpath name).mp hname).1
  | rename hrenamed hget _ heff =>
    obtain ⟨parentPath, hparent, text, rfl, rfl⟩ := LinaFs.exists_child_of_renamed hrenamed
    obtain ⟨extra', -, hs'⟩ := heff.sound hs hfresh
    refine htree.of_linked ((dirs_deleteAll _ _).trans heff.dirs) fun name hname => ?_
    -- of the names after the write, the deletion only takes some away
    obtain ⟨l, hl, rfl⟩ := hname
    have hbefore := (hs'.mem_links_deleteAll listed_subset nodup_listed).1 hl
    rcases (heff.linked_iff hfresh l.name).mp ⟨l, hbefore.1, rfl⟩ with heq | hlinked
    · refine .inr ⟨parentPath, text, hparent, hnamed text ?_, heq⟩
      exact List.mem_cons_of_mem _ List.mem_cons_self
    · exact .inl hlinked

end FsRequest.Effect

/-! ## Runs -/

/-- The states of a mounted store in the runs of requests about names, from `fs₀` on. -/
inductive NameRun (E : Engine) (M : Mount) (fs₀ : LinaFs) : LinaFs → Prop
  | start : NameRun E M fs₀ fs₀
  | step {fs : LinaFs} (r : FsRequest) : NameRun E M fs₀ fs → r.OnNames → r.Named →
      r.Fresh fs.store → NameRun E M fs₀ (r.run E M fs).2

theorem NameRun.treeFormed {E : Engine} {M : Mount} {fs₀ fs : LinaFs} (h : NameRun E M fs₀ fs)
    {extra : SourceId → ℕ} (hs : fs₀.store.Sound extra) (htree : fs₀.store.TreeFormed) :
    fs.store.TreeFormed ∧ ∃ extra', fs.store.Sound extra' := by
  induction h with
  | start => exact ⟨htree, extra, hs⟩
  | step r _ hr hnamed hfresh ih =>
    obtain ⟨htree, extra', hs⟩ := ih
    have heff := FsRequest.run_effect (E := E) (M := M) hs hr hfresh
    exact ⟨heff.treeFormed hs hfresh hnamed htree, heff.sound hs hfresh⟩

/-- A store is opened and mounted, and its directories and files are a tree then and after every
    request about names: the parent of a directory is its path without the last component and, but
    for the root, a directory; what a file lies below is a directory. Making the directories above
    the names again changes nothing.

    Before it is opened the store may be torn, as a crash leaves it, its links may have any proper
    names, and there may be directories already, or none. -/
theorem tree_formed (E : Engine) (M : Mount) (listing : Listing) {s : Store} {extra : SourceId → ℕ}
    (hs : s.Torn extra) (hdirs : DirTree s.dirs) (hproper : ∀ l ∈ s.links.rows, Proper l.name) :
    ∃ fs₀, LinaFs.new listing s = .ok fs₀ ∧ ∀ fs, NameRun E M fs₀ fs →
      (∀ dir ∈ fs.store.dirs.rows, dir.parent = parentOf dir.path ∧
        (dir.parent = "" ∨ HasDir fs.store.dirs dir.parent)) ∧
      (∀ l ∈ fs.store.links.rows, ∀ path, Below l.name path → HasDir fs.store.dirs path) ∧
      StoreManager.syncDirsFromLinks.run Prim.step fs.store = (.ok (), fs.store) := by
  obtain ⟨s', hrun, hre, htree⟩ := StoreManager.run_new_tree listing hdirs hproper
  refine ⟨⟨s', fun _ => none⟩, ?_, fun fs h => ?_⟩
  · rw [LinaFs.new, hrun]
  · obtain ⟨htree, -⟩ := h.treeFormed (hs.sound hre) htree
    exact ⟨fun dir hdir => ⟨htree.dirs.parent_eq dir hdir, htree.dirs.hasDir_parent dir hdir⟩,
      htree.above, StoreManager.run_syncDirsFromLinks_of_treeFormed htree⟩

/-- The store with one file, in a directory. -/
def Store.nested : Store :=
  (((Call.put (.sample 0) "d/a" [1] false false).program .plain).run Prim.step .empty).2

/-- The directory of a file is there when the store has been opened, and it is not removed. -/
theorem tree_formed_nested : ∃ fs₀, LinaFs.new .byAge .nested = .ok fs₀ ∧
    HasDir ((FsRequest.rmdir rootIno (.str "d")).run .plain .sample fs₀).2.store.dirs "d" := by
  have hreachable : Reachable .plain {[1]} Store.nested :=
    .call (.put (.sample 0) "d/a" [1] false false) .empty ⟨rfl, rfl⟩ rfl
  have hdirs : Store.nested.dirs = .empty := rfl
  obtain ⟨l, hlinks, hname⟩ : ∃ l, Store.nested.links.rows = [l] ∧ l.name = "d/a" := ⟨_, rfl, rfl⟩
  obtain ⟨fs₀, hnew, hall⟩ := tree_formed .plain .sample .byAge hreachable.sound.torn
    (hdirs ▸ .empty) (by rw [hlinks, List.forall_mem_singleton, hname]; decide)
  obtain ⟨s', hrun, hre⟩ := StoreManager.run_new .byAge Store.nested
  refine ⟨fs₀, hnew, ?_⟩
  rw [LinaFs.new, hrun] at hnew
  cases hnew
  have hnamed : (FsRequest.rmdir rootIno (.str "d")).Named := by
    intro name hname
    cases List.mem_singleton.mp hname
    exact ⟨by decide, by decide⟩
  refine (hall _ (.step (.rmdir rootIno (.str "d")) .start trivial hnamed trivial)).2.1 l ?_ "d" ?_
  · have hs' : (⟨s', fun _ => none⟩ : LinaFs).store.Sound 0 := hreachable.sound.torn.sound hre
    have heff := FsRequest.run_effect (E := .plain) (M := .sample) (r := .rmdir rootIno (.str "d"))
      hs' trivial trivial
    have hl : l ∈ s'.links.rows := by
      rw [hre.links, hlinks]
      exact List.mem_singleton_self l
    generalize (FsRequest.rmdir rootIno (.str "d")).run .plain .sample ⟨s', fun _ => none⟩ = out at heff
    obtain ⟨reply, fs'⟩ := out
    cases heff <;> exact hl
  · rw [hname]
    exact below_iff.mpr ⟨"a", rfl⟩

end LiNaStore
