import LiNaStore.Fuse.Operations

/-!
# Requests about names

The requests that make, remove and rename files and directories, with the calls of the store
succeeding (`FsRequest.run_effect`). Each does one thing to the tables of the store, or it is
refused and changes nothing; it is refused for no other reason than those of `FsRequest.Refused`.
No such request touches a write buffer.
-/

namespace LiNaStore

open Program Store

/-! ## Writes and deletions -/

namespace StoreCall

variable (E : Engine) {s : Store} {extra : SourceId → ℕ} {d : Draws} {name : String}

theorem serve_putBinaryData (hs : s.Sound extra) (hfresh : d.Fresh s) (hname : name ≠ "")
    (data : Bytes) (cover compressed : Bool) :
    ∃ s', StoreManager.PutEffect s d name (pathExtension name) cover (E.pack compressed data) s' ∧
      serve E (.putBinaryData d name data cover compressed) s = (.ok (), s') := by
  obtain ⟨s', heff, hput⟩ :=
    StoreManager.performs_putBinaryData E hs hfresh hname data cover compressed
  exact ⟨s', heff, hput.run_eq⟩

theorem serve_delete (hs : s.Sound extra) (hname : name ≠ "") :
    serve E (.delete name false) s = (.ok (), s.deleteAll (s.listed name 0 false false)) :=
  (StoreManager.performs_delete hs hname false).run_eq

theorem serve_mkdir (path parent : String) :
    serve E (.mkdir path parent) s =
      if (s.dirs.find? path).isSome then (.error .primaryKey, s)
      else (.ok (), { s with dirs := s.dirs.insert ⟨path, parent, 493⟩ }) := rfl

end StoreCall

/-! ## Effects -/

namespace FsRequest

/-- The request is about names. -/
def OnNames : FsRequest → Prop
  | create .. | symlink .. | mkdir .. | rmdir .. | unlink .. | rename .. => True
  | _ => False

/-- Why a request about names is refused. -/
def Refused (E : Engine) (M : Mount) (fs : LinaFs) : FsRequest → Prop
  | create parent name _ _ | unlink parent name =>
    ∀ parentPath path, fs.store.resolve M parent name = .ok (parentPath, path) → path = ""
  | symlink parent name link _ =>
    ∀ parentPath path, fs.store.resolve M parent name = .ok (parentPath, path) →
      path = "" ∨ LinaFs.toStr link = none
  | mkdir parent name _ =>
    ∀ parentPath path, fs.store.resolve M parent name = .ok (parentPath, path) →
      (fs.store.dirs.find? path).isSome
  | rmdir parent name =>
    ∀ parentPath path, fs.store.resolve M parent name = .ok (parentPath, path) →
      (∃ dir ∈ fs.store.dirs.rows, dir.parent = path) ∨
        ∃ l ∈ fs.store.links.rows, (path ++ "/").toList <+: l.name.toList
  | rename parent name newparent newname _ =>
    ∀ old new, LinaFs.renamed M fs parent name newparent newname = .ok (old, new) →
      (∃ err, fs.store.get E old = .error err) ∨ new = ""
  | _ => False

/-- What a request about names does. -/
inductive Effect (E : Engine) (M : Mount) (fs : LinaFs) :
    FsRequest → Except Errno FsReply → LinaFs → Prop
  | refused {r : FsRequest} {err : Errno} : r.Refused E M fs → Effect E M fs r (.error err) fs
  | create {parent : UInt64} {name : OsName} {mode : UInt32} {d : Draws} {parentPath path : String}
      {attr : FileAttr} {s' : Store} :
      fs.store.resolve M parent name = .ok (parentPath, path) → path ≠ "" →
      StoreManager.PutEffect fs.store d path (pathExtension path) false
        (E.pack M.compressed []) s' →
      Effect E M fs (.create parent name mode d) (.ok (.attr attr))
        { fs with store := s'.setMode path (sIfreg ||| (mode &&& 0o777)) }
  | symlink {parent : UInt64} {name link : OsName} {d : Draws} {parentPath path target : String}
      {attr : FileAttr} {s' : Store} :
      fs.store.resolve M parent name = .ok (parentPath, path) → path ≠ "" →
      LinaFs.toStr link = some target →
      StoreManager.PutEffect fs.store d path (pathExtension path) false
        (E.pack M.compressed (utf8 target)) s' →
      Effect E M fs (.symlink parent name link d) (.ok (.attr attr))
        { fs with store := s'.setMode path modeSymlink }
  | mkdir {parent : UInt64} {name : OsName} {mode : UInt32} {parentPath path : String}
      {attr : FileAttr} {dirs : Table DirEntry.path} :
      fs.store.resolve M parent name = .ok (parentPath, path) → fs.store.dirs.find? path = none →
      (∀ dir, dir ∈ dirs.rows ↔ dir ∈ fs.store.dirs.rows ∨
        dir = ⟨path, parentPath, sIfdir ||| (mode &&& 0o777)⟩) →
      Effect E M fs (.mkdir parent name mode) (.ok (.attr attr))
        { fs with store := { fs.store with dirs } }
  | rmdir {parent : UInt64} {name : OsName} {parentPath path : String} :
      fs.store.resolve M parent name = .ok (parentPath, path) →
      (∀ dir ∈ fs.store.dirs.rows, dir.parent ≠ path) →
      (∀ l ∈ fs.store.links.rows, ¬(path ++ "/").toList <+: l.name.toList) →
      Effect E M fs (.rmdir parent name) (.ok .ok)
        { fs with store := { fs.store with dirs := fs.store.dirs.erase path } }
  | unlink {parent : UInt64} {name : OsName} {parentPath path : String} :
      fs.store.resolve M parent name = .ok (parentPath, path) → path ≠ "" →
      Effect E M fs (.unlink parent name) (.ok .ok)
        { fs with store := fs.store.deleteAll (fs.store.listed path 0 false false) }
  | rename {parent : UInt64} {name : OsName} {newparent : UInt64} {newname : OsName} {d : Draws}
      {old new : String} {data : Bytes} {s' : Store} :
      LinaFs.renamed M fs parent name newparent newname = .ok (old, new) →
      fs.store.get E old = .ok data → new ≠ "" →
      StoreManager.PutEffect fs.store d new (pathExtension new) true
        (E.pack M.compressed data) s' →
      Effect E M fs (.rename parent name newparent newname d) (.ok .ok)
        { fs with store := s'.deleteAll (s'.listed old 0 false false) }

/-- The directories with one more, whose mode has been set. -/
theorem mem_mkdir {dirs : Table DirEntry.path} {path parent : String} {mode : UInt32}
    (hnone : dirs.find? path = none) (dir : DirEntry) :
    dir ∈ ((dirs.insert ⟨path, parent, 493⟩).update (·.path = path) (fun dir => { dir with mode })
        fun _ => rfl).rows ↔ dir ∈ dirs.rows ∨ dir = ⟨path, parent, mode⟩ := by
  have hother {dir : DirEntry} (hdir : dir ∈ dirs.rows) : dir.path ≠ path := by
    rintro rfl
    rw [Table.find?_key hdir] at hnone
    cases hnone
  have hinsert (dir₀ : DirEntry) : dir₀ ∈ (dirs.insert ⟨path, parent, 493⟩).rows ↔
      dir₀ ∈ dirs.rows ∨ dir₀ = ⟨path, parent, 493⟩ := Table.mem_insert hnone
  rw [Table.mem_update]
  simp only [hinsert, decide_eq_true_eq]
  constructor
  · rintro ⟨dir₀, hdir₀ | rfl, rfl⟩
    · rw [if_neg (hother hdir₀)]
      exact .inl hdir₀
    · rw [if_pos rfl]
      exact .inr rfl
  · rintro (hdir | rfl)
    · exact ⟨dir, .inl hdir, if_neg (hother hdir)⟩
    · exact ⟨_, .inr rfl, if_pos rfl⟩

variable {E : Engine} {M : Mount} {fs : LinaFs} {extra : SourceId → ℕ}

theorem run_effect_create (hs : fs.store.Sound extra) {parent : UInt64} {name : OsName}
    {mode : UInt32} {d : Draws} (hfresh : d.Fresh fs.store) :
    Effect E M fs (.create parent name mode d) ((create parent name mode d).run E M fs).1
      ((create parent name mode d).run E M fs).2 := by
  rw [FsRequest.run, program, run_bind, LinaFs.run_create]
  cases hresolve : fs.store.resolve M parent name with
  | error err => exact .refused fun _ _ h => nomatch hresolve.symm.trans h
  | ok paths =>
    obtain ⟨parentPath, path⟩ := paths
    by_cases hpath : path = ""
    · subst hpath
      exact .refused fun _ _ h => by rw [hresolve] at h; cases h; rfl
    · obtain ⟨s', heff, hput⟩ := StoreCall.serve_putBinaryData E hs hfresh hpath [] false M.compressed
      dsimp only
      rw [hput]
      exact .create hresolve hpath heff

theorem run_effect_symlink (hs : fs.store.Sound extra) {parent : UInt64} {name link : OsName}
    {d : Draws} (hfresh : d.Fresh fs.store) :
    Effect E M fs (.symlink parent name link d) ((symlink parent name link d).run E M fs).1
      ((symlink parent name link d).run E M fs).2 := by
  rw [FsRequest.run, program, run_bind, LinaFs.run_symlink]
  cases hresolve : fs.store.resolve M parent name with
  | error err => exact .refused fun _ _ h => nomatch hresolve.symm.trans h
  | ok paths =>
    obtain ⟨parentPath, path⟩ := paths
    cases hlink : LinaFs.toStr link with
    | none => exact .refused fun _ _ _ => .inr hlink
    | some target =>
      by_cases hpath : path = ""
      · subst hpath
        exact .refused fun _ _ h => by rw [hresolve] at h; cases h; exact .inl rfl
      · obtain ⟨s', heff, hput⟩ :=
          StoreCall.serve_putBinaryData E hs hfresh hpath (utf8 target) false M.compressed
        dsimp only
        rw [hput]
        exact .symlink hresolve hpath hlink heff

theorem run_effect_mkdir {parent : UInt64} {name : OsName} {mode : UInt32} :
    Effect E M fs (.mkdir parent name mode) ((mkdir parent name mode).run E M fs).1
      ((mkdir parent name mode).run E M fs).2 := by
  rw [FsRequest.run, program, run_bind, LinaFs.run_mkdir]
  cases hresolve : fs.store.resolve M parent name with
  | error err => exact .refused fun _ _ h => nomatch hresolve.symm.trans h
  | ok paths =>
    obtain ⟨parentPath, path⟩ := paths
    dsimp only
    rw [StoreCall.serve_mkdir]
    by_cases hsome : (fs.store.dirs.find? path).isSome
    · rw [if_pos hsome]
      exact .refused fun _ _ h => by rw [hresolve] at h; cases h; exact hsome
    · have hnone := Option.not_isSome_iff_eq_none.mp hsome
      rw [if_neg hsome]
      exact .mkdir hresolve hnone (mem_mkdir hnone)

theorem run_effect_rmdir {parent : UInt64} {name : OsName} :
    Effect E M fs (.rmdir parent name) ((rmdir parent name).run E M fs).1
      ((rmdir parent name).run E M fs).2 := by
  rw [FsRequest.run, program, run_bind, LinaFs.run_rmdir]
  cases hresolve : fs.store.resolve M parent name with
  | error err => exact .refused fun _ _ h => nomatch hresolve.symm.trans h
  | ok paths =>
    obtain ⟨parentPath, path⟩ := paths
    dsimp only
    split_ifs with hused
    · exact .refused fun _ _ h => by rw [hresolve] at h; cases h; exact hused
    · push Not at hused
      exact .rmdir hresolve hused.1 hused.2

theorem run_effect_unlink (hs : fs.store.Sound extra) {parent : UInt64} {name : OsName} :
    Effect E M fs (.unlink parent name) ((unlink parent name).run E M fs).1
      ((unlink parent name).run E M fs).2 := by
  rw [FsRequest.run, program, run_bind, LinaFs.run_unlink]
  cases hresolve : fs.store.resolve M parent name with
  | error err => exact .refused fun _ _ h => nomatch hresolve.symm.trans h
  | ok paths =>
    obtain ⟨parentPath, path⟩ := paths
    by_cases hpath : path = ""
    · subst hpath
      exact .refused fun _ _ h => by rw [hresolve] at h; cases h; rfl
    · dsimp only
      rw [StoreCall.serve_delete E hs hpath]
      exact .unlink hresolve hpath

theorem run_effect_rename (hs : fs.store.Sound extra) {parent newparent : UInt64}
    {name newname : OsName} {d : Draws} (hfresh : d.Fresh fs.store) :
    Effect E M fs (.rename parent name newparent newname d)
      ((rename parent name newparent newname d).run E M fs).1
      ((rename parent name newparent newname d).run E M fs).2 := by
  rw [FsRequest.run, program, run_bind, LinaFs.run_rename]
  cases hrenamed : LinaFs.renamed M fs parent name newparent newname with
  | error err => exact .refused fun _ _ h => nomatch hrenamed.symm.trans h
  | ok paths =>
    obtain ⟨old, new⟩ := paths
    dsimp only
    cases hget : fs.store.get E old with
    | error err => exact .refused fun _ _ h => by rw [hrenamed] at h; cases h; exact .inl ⟨err, hget⟩
    | ok data =>
      by_cases hnew : new = ""
      · subst hnew
        exact .refused fun _ _ h => by rw [hrenamed] at h; cases h; exact .inr rfl
      · obtain ⟨s', heff, hput⟩ :=
          StoreCall.serve_putBinaryData E hs hfresh hnew data true M.compressed
        obtain ⟨extra', -, hs'⟩ := heff.sound hs hfresh
        have hold : old ≠ "" := by
          rintro rfl
          cases hget
        dsimp only
        rw [hput]
        dsimp only
        rw [StoreCall.serve_delete E hs' hold]
        exact .rename hrenamed hget hnew heff

/-- A request about names, on a sound store. -/
theorem run_effect (hs : fs.store.Sound extra) {r : FsRequest} (hr : r.OnNames)
    (hfresh : r.Fresh fs.store) : r.Effect E M fs (r.run E M fs).1 (r.run E M fs).2 := by
  cases r with
  | create => exact run_effect_create hs hfresh
  | symlink => exact run_effect_symlink hs hfresh
  | mkdir => exact run_effect_mkdir
  | rmdir => exact run_effect_rmdir
  | unlink => exact run_effect_unlink hs
  | rename => exact run_effect_rename hs hfresh
  | _ => exact hr.elim

end FsRequest

end LiNaStore
