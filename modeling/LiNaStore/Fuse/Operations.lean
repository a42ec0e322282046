import LiNaStore.Fuse.LinaFs
import LiNaStore.Base.Contents

/-!
# What the operations of the file system do

Every operation is a short program, and what it does to a state is given here by an equation:
what it replies, what it does to the store, and what it does to the buffers. Looking up a file
or a directory changes nothing (`run_linkAt_bind`, `run_resolve`), so that the equations are about
functions of the state: the link with an inode (`Store.fileAt`), the path of a name
(`Store.resolve`), the content of a file (`LinaFs.bytesAt`).

Those that end with a write to the store are given for every way in which the write may end;
`Call.run_effect` says what it does when it succeeds.
-/

namespace LiNaStore

open Program

/-! ## Looking up -/

namespace Store

/-- The link of the file with an inode. -/
def fileAt (M : Mount) (s : Store) (ino : UInt64) : Option Link :=
  s.links.rows.find? fun link => M.fileIno link.name = ino

/-- The directory with an inode. -/
def dirAt (M : Mount) (s : Store) (ino : UInt64) : Option DirEntry :=
  (Prim.byPath s.dirs.rows).find? fun dir => M.dirIno dir.path = ino

/-- The path of the directory with an inode, which may be the root. -/
def parentPath (M : Mount) (s : Store) (parent : UInt64) : Except Errno String :=
  if parent = rootIno then .ok "" else
    match s.dirAt M parent with
    | some dir => .ok dir.path
    | none => .error .enoent

/-- The path of a directory and that of a name in it. -/
def resolve (M : Mount) (s : Store) (parent : UInt64) (name : OsName) :
    Except Errno (String × String) :=
  match s.parentPath M parent with
  | .error err => .error err
  | .ok parentPath => match LinaFs.toStr name with
    | none => .error .einval
    | some nameStr => .ok (parentPath, LinaFs.fullPath parentPath nameStr)

theorem mem_of_fileAt {M : Mount} {s : Store} {ino : UInt64} {l : Link}
    (h : s.fileAt M ino = some l) : l ∈ s.links.rows ∧ M.fileIno l.name = ino :=
  ⟨List.mem_of_find?_eq_some h, by simpa using List.find?_some h⟩

theorem fileAt_eq_none_iff {M : Mount} {s : Store} {ino : UInt64} :
    s.fileAt M ino = none ↔ ∀ l ∈ s.links.rows, M.fileIno l.name ≠ ino := by
  simp [fileAt]

theorem mem_of_dirAt {M : Mount} {s : Store} {ino : UInt64} {dir : DirEntry}
    (h : s.dirAt M ino = some dir) : dir ∈ s.dirs.rows ∧ M.dirIno dir.path = ino :=
  ⟨(List.mergeSort_perm _ _).mem_iff.mp (List.mem_of_find?_eq_some h),
    by simpa using List.find?_some h⟩

theorem dirAt_eq_none_iff {M : Mount} {s : Store} {ino : UInt64} :
    s.dirAt M ino = none ↔ ∀ dir ∈ s.dirs.rows, M.dirIno dir.path ≠ ino := by
  rw [dirAt, List.find?_eq_none]
  refine ⟨fun h dir hdir => ?_, fun h dir hdir => ?_⟩
  · simpa using h dir ((List.mergeSort_perm _ _).mem_iff.mpr hdir)
  · simpa using h dir ((List.mergeSort_perm _ _).mem_iff.mp hdir)

end Store

/-- The content of the file with an inode: its buffer, or what the store has; `err` if that
    cannot be read. -/
def LinaFs.bytesAt (E : Engine) (M : Mount) (fs : LinaFs) (err : Errno) (ino : UInt64) :
    Except Errno Bytes :=
  match fs.writeBuf ino with
  | some data => .ok data
  | none => match fs.store.fileAt M ino with
    | none => .error .enoent
    | some link => match fs.store.get E link.name with
      | .ok data => .ok data
      | .error _ => .error err

/-! ## Calls of the store -/

/-- The calls of the store succeed, but that writes to it end in the given way. -/
def StoreCall.serveWrite (E : Engine) (outcome : Except StoreError Unit × Store) : Serve
  | .putBinaryData .., _ => outcome
  | c, s => c.serve E s

/-- Only writes to the store may end otherwise than in a call that succeeds. -/
structure Serve.Regular (E : Engine) (serve : Serve) : Prop where
  list : serve (.list "*" 0 false true) = StoreCall.serve E (.list "*" 0 false true)
  getBinaryData : ∀ name, serve (.getBinaryData name) = StoreCall.serve E (.getBinaryData name)

theorem StoreCall.regular_serve (E : Engine) : Serve.Regular E (serve E) := ⟨rfl, fun _ => rfl⟩

namespace StoreCall

variable (E : Engine) (s : Store)

@[simp] theorem serve_list : serve E (.list "*" 0 false true) s = (.ok s.links.rows, s) := rfl

@[simp] theorem serve_getBinaryData (name : String) :
    serve E (.getBinaryData name) s = (s.get E name, s) :=
  StoreManager.run_getBinaryData E name s

@[simp] theorem serve_allDirs : serve E .allDirs s = (.ok (Prim.byPath s.dirs.rows), s) := rfl

@[simp] theorem serve_listChildDirs (parent : String) : serve E (.listChildDirs parent) s =
    (.ok (Prim.byPath (s.dirs.rows.filter (·.parent = parent))), s) := rfl

@[simp] theorem serve_setFileMode (name : String) (mode : UInt32) :
    serve E (.setFileMode name mode) s = (.ok (), s.setMode name mode) := rfl

end StoreCall

namespace LinaFs

variable {E : Engine} {serve : Serve} (M : Mount) (fs : LinaFs) (ino : UInt64)

@[simp] theorem store_setBuffer (data : Option Bytes) : (fs.setBuffer ino data).store = fs.store := rfl

@[simp] theorem writeBuf_setBuffer_self (data : Option Bytes) :
    (fs.setBuffer ino data).writeBuf ino = data := Function.update_self _ _ _

theorem writeBuf_setBuffer_of_ne {ino' : UInt64} (h : ino' ≠ ino) (data : Option Bytes) :
    (fs.setBuffer ino data).writeBuf ino' = fs.writeBuf ino' := Function.update_of_ne h _ _

theorem bytesAt_of_buffer {data : Bytes} (h : fs.writeBuf ino = some data) (err : Errno) :
    fs.bytesAt E M err ino = .ok data := by
  rw [bytesAt, h]

theorem setBuffer_eq_self {data : Option Bytes} (h : fs.writeBuf ino = data) :
    fs.setBuffer ino data = fs := by
  rw [setBuffer, ← h, Function.update_eq_self]

section Primitives

variable {α : Type}

theorem run_store_bind (c : StoreCall) (f : Except StoreError c.Ans → FsProg α) :
    (invoke (.store c) >>= f).run (FsPrim.step serve) fs =
      (f (serve c fs.store).1).run (FsPrim.step serve)
        { fs with store := (serve c fs.store).2 } := rfl

theorem run_buffer_bind (f : Option Bytes → FsProg α) :
    (invoke (.buffer ino) >>= f).run (FsPrim.step serve) fs =
      (f (fs.writeBuf ino)).run (FsPrim.step serve) fs := rfl

theorem run_removeBuffer_bind (f : Option Bytes → FsProg α) :
    (invoke (.removeBuffer ino) >>= f).run (FsPrim.step serve) fs =
      (f (fs.writeBuf ino)).run (FsPrim.step serve) (fs.setBuffer ino none) := rfl

theorem run_insertBuffer_bind (data : Bytes) (f : Unit → FsProg α) :
    (invoke (.insertBuffer ino data) >>= f).run (FsPrim.step serve) fs =
      (f ()).run (FsPrim.step serve) (fs.setBuffer ino (some data)) := rfl

end Primitives

section Regular

variable (h : serve.Regular E)

include h

theorem run_allFiles : allFiles.run (FsPrim.step serve) fs = (.ok fs.store.links.rows, fs) := by
  rw [allFiles, run_store_bind, h.list]
  rfl

theorem run_linkAt_bind {α : Type} (f : Option Link → FsProg α) :
    (linkAt M ino >>= f).run (FsPrim.step serve) fs =
      (f (fs.store.fileAt M ino)).run (FsPrim.step serve) fs := by
  rw [linkAt, run_bind, run_bind, run_allFiles fs h]
  rfl

theorem run_get_bind {α : Type} (name : String) (f : Except StoreError Bytes → FsProg α) :
    (invoke (.store (.getBinaryData name)) >>= f).run (FsPrim.step serve) fs =
      (f (fs.store.get E name)).run (FsPrim.step serve) fs := by
  rw [run_store_bind, h.getBinaryData, StoreCall.serve_getBinaryData]

/-! ## Contents -/

theorem run_content (err : Errno) : (content M err ino).run (FsPrim.step serve) fs =
    (fs.bytesAt E M err ino, fs) := by
  rw [content, run_buffer_bind, bytesAt]
  cases fs.writeBuf ino with
  | some data => rfl
  | none =>
    dsimp only
    rw [run_linkAt_bind M fs ino h]
    cases fs.store.fileAt M ino with
    | none => rfl
    | some link =>
      dsimp only
      rw [run_get_bind fs h]
      cases fs.store.get E link.name <;> rfl

theorem run_read (offset : UInt64) (size : UInt32) :
    (read M ino offset size).run (FsPrim.step serve) fs =
      ((fs.bytesAt E M .eio ino).map (Flat.slice 0 · offset.toNat size.toNat), fs) := by
  rw [read, run_bind, run_content M fs ino h]
  cases fs.bytesAt E M .eio ino with
  | error err => rfl
  | ok content =>
    dsimp only
    rw [run_pure, chunk, Flat.range_eq_slice 0]
    rfl

theorem run_write (offset : UInt64) (data : Bytes) :
    (write M ino offset data).run (FsPrim.step serve) fs =
      match fs.bytesAt E M .enoent ino with
      | .ok content =>
        (.ok (.ofNat data.length), fs.setBuffer ino (some (Flat.writeAt 0 content offset.toNat data)))
      | .error err => (.error err, fs) := by
  rw [write, run_bind, run_content M fs ino h]
  cases fs.bytesAt E M .enoent ino with
  | error err => rfl
  | ok content =>
    dsimp only
    rw [Flat.copyAt_resize_eq_writeAt, run_insertBuffer_bind, run_pure]

/-- A buffer is removed before it is known whether its bytes can be stored. -/
theorem run_writeBack (d : Draws) : (writeBack M ino d).run (FsPrim.step serve) fs =
    match fs.writeBuf ino with
    | none => (.ok (), fs)
    | some data => match fs.store.fileAt M ino with
      | none => (.error .enoent, fs.setBuffer ino none)
      | some link =>
        ((serve (.putBinaryData d link.name data true M.compressed) fs.store).1.mapError
            fun _ => .eio,
          { fs.setBuffer ino none with
            store := (serve (.putBinaryData d link.name data true M.compressed) fs.store).2 }) := by
  rw [writeBack, run_removeBuffer_bind]
  cases hbuf : fs.writeBuf ino with
  | none => rw [setBuffer_eq_self fs ino hbuf, run_pure]
  | some data =>
    dsimp only
    rw [run_linkAt_bind M _ ino h, store_setBuffer]
    cases fs.store.fileAt M ino with
    | none => rfl
    | some link =>
      dsimp only
      rw [putBinaryData, run_store_bind, store_setBuffer]
      cases (serve (.putBinaryData d link.name data true M.compressed) fs.store).1 <;> rfl

end Regular

variable (E) (d : Draws)

/-- A file gets another length in its buffer, if it has one, and in the store. -/
theorem run_setattrSize {l : Link} (hfile : fs.store.fileAt M ino = some l) (newSize : FileSize) :
    (setattrSize M ino l.name (some newSize) d).run (FsPrim.step (StoreCall.serve E)) fs =
      match fs.bytesAt E M .eio ino with
      | .error err => (.error err, fs)
      | .ok content =>
        let data := Flat.truncate 0 content newSize.val.toNat
        let fs' := fs.setBuffer ino ((fs.writeBuf ino).map fun _ => data)
        match StoreCall.serve E (.putBinaryData d l.name data true M.compressed) fs.store with
        | (.ok _, s) => (.ok (), { fs' with store := s })
        | (.error _, s) => (.error .eio, { fs' with store := s }) := by
  have h := StoreCall.regular_serve E
  dsimp only [setattrSize]
  rw [run_bind, truncated, run_buffer_bind, bytesAt, hfile]
  cases hbuf : fs.writeBuf ino with
  | some data =>
    dsimp only
    rw [run_insertBuffer_bind, run_pure, Flat.resize_eq_truncate]
    dsimp only
    rw [putBinaryData, run_store_bind, store_setBuffer]
    rcases StoreCall.serve E (.putBinaryData d l.name (Flat.truncate 0 data newSize.val.toNat) true
      M.compressed) fs.store with ⟨_ | _, s⟩ <;> rfl
  | none =>
    dsimp only
    rw [run_get_bind fs h]
    cases fs.store.get E l.name with
    | error err => rfl
    | ok content =>
      dsimp only
      rw [run_pure, Flat.resize_eq_truncate, Option.map_none, setBuffer_eq_self fs ino hbuf]
      dsimp only
      rw [putBinaryData, run_store_bind]
      rcases StoreCall.serve E (.putBinaryData d l.name (Flat.truncate 0 content newSize.val.toNat)
        true M.compressed) fs.store with ⟨_ | _, s⟩ <;> rfl

theorem run_setattrMode (name : String) (fileMode : UInt32) (mode : Option UInt32) :
    ∃ newMode fs', (setattrMode name fileMode mode).run (FsPrim.step (StoreCall.serve E)) fs =
        (.ok newMode, fs') ∧
      (fs' = fs ∨ fs' = { fs with store := fs.store.setMode name newMode }) := by
  cases mode with
  | none => exact ⟨_, _, rfl, .inl rfl⟩
  | some m => exact ⟨_, _, rfl, .inr rfl⟩

theorem run_dataLen {l : Link} (hfile : fs.store.fileAt M ino = some l) :
    (dataLen ino l.name).run (FsPrim.step (StoreCall.serve E)) fs =
      (.ok (match fs.bytesAt E M .eio ino with
        | .ok content => content.length
        | .error _ => 0), fs) := by
  rw [dataLen, run_buffer_bind, bytesAt, hfile]
  cases fs.writeBuf ino with
  | some data => rfl
  | none =>
    dsimp only
    rw [run_get_bind fs (StoreCall.regular_serve E)]
    cases fs.store.get E l.name <;> rfl

theorem run_setattr_file {l : Link} (hroot : ino ≠ rootIno) (hdir : fs.store.dirAt M ino = none)
    (hfile : fs.store.fileAt M ino = some l) (mode : Option UInt32) (size : Option FileSize) :
    (setattr M ino mode size d).run (FsPrim.step (StoreCall.serve E)) fs =
      (setattrFile M ino l.name mode size d).run (FsPrim.step (StoreCall.serve E)) fs := by
  have hfind : (unwrapOrDefault (StoreCall.serve E .allDirs fs.store).1).find?
      (fun dir => M.dirIno dir.path = ino) = none := hdir
  rw [setattr, if_neg hroot, run_store_bind]
  dsimp only
  rw [hfind]
  dsimp only
  rw [run_linkAt_bind M _ ino (StoreCall.regular_serve E)]
  dsimp only [StoreCall.serve_allDirs]
  rw [hfile]

/-! ## Names -/

section Names

variable (parent : UInt64) (name : OsName)

theorem run_resolveDirPath : (resolveDirPath M parent).run (FsPrim.step (StoreCall.serve E)) fs =
    (.ok ((fs.store.dirAt M parent).map DirEntry.path), fs) := rfl

theorem run_parentPath : (parentPath M parent).run (FsPrim.step (StoreCall.serve E)) fs =
    (fs.store.parentPath M parent, fs) := by
  rw [parentPath, Store.parentPath]
  split_ifs with hroot
  · rfl
  · rw [run_bind, run_resolveDirPath]
    cases fs.store.dirAt M parent <;> rfl

theorem run_resolve : (resolve M parent name).run (FsPrim.step (StoreCall.serve E)) fs =
    (fs.store.resolve M parent name, fs) := by
  rw [resolve, run_bind, run_parentPath, Store.resolve]
  cases fs.store.parentPath M parent with
  | error err => rfl
  | ok parentPath => cases name <;> rfl

theorem run_makeFile (fullPath : String) (data : Bytes) (mode : UInt32) :
    (makeFile M d fullPath data mode).run (FsPrim.step (StoreCall.serve E)) fs =
      match StoreCall.serve E (.putBinaryData d fullPath data false M.compressed) fs.store with
      | (.ok _, s) => (.ok (), { fs with store := s.setMode fullPath mode })
      | (.error _, s) => (.error .eio, { fs with store := s }) := by
  rw [makeFile, putBinaryData, run_store_bind]
  rcases StoreCall.serve E (.putBinaryData d fullPath data false M.compressed) fs.store with
    ⟨_ | _, s⟩ <;> rfl

theorem run_create (mode : UInt32) :
    (create M parent name mode d).run (FsPrim.step (StoreCall.serve E)) fs =
      match fs.store.resolve M parent name with
      | .error err => (.error err, fs)
      | .ok (_, path) =>
        let fileMode := sIfreg ||| (mode &&& 0o777)
        match StoreCall.serve E (.putBinaryData d path [] false M.compressed) fs.store with
        | (.ok _, s) =>
          (.ok (makeAttr (M.fileIno path) 0 (kindFromMode fileMode) (permFromMode fileMode)),
            { fs with store := s.setMode path fileMode })
        | (.error _, s) => (.error .eio, { fs with store := s }) := by
  rw [create, run_bind, run_resolve]
  cases fs.store.resolve M parent name with
  | error err => rfl
  | ok paths =>
    dsimp only
    rw [run_bind, run_makeFile]
    rcases StoreCall.serve E (.putBinaryData d paths.2 [] false M.compressed) fs.store with
      ⟨_ | _, s⟩ <;> rfl

theorem run_symlink (link : OsName) :
    (symlink M parent name link d).run (FsPrim.step (StoreCall.serve E)) fs =
      match fs.store.resolve M parent name with
      | .error err => (.error err, fs)
      | .ok (_, path) => match toStr link with
        | none => (.error .einval, fs)
        | some target =>
          match StoreCall.serve E (.putBinaryData d path (utf8 target) false M.compressed) fs.store with
          | (.ok _, s) =>
            (.ok (makeAttr (M.fileIno path) (utf8 target).length .symlink 0o777),
              { fs with store := s.setMode path modeSymlink })
          | (.error _, s) => (.error .eio, { fs with store := s }) := by
  rw [symlink, run_bind, run_resolve]
  cases fs.store.resolve M parent name with
  | error err => rfl
  | ok paths =>
    cases link with
    | other bytes => rfl
    | str target =>
      dsimp only [toStr]
      rw [run_bind, run_makeFile]
      rcases StoreCall.serve E (.putBinaryData d paths.2 (utf8 target) false M.compressed) fs.store
        with ⟨_ | _, s⟩ <;> rfl

theorem run_mkdir (mode : UInt32) :
    (mkdir M parent name mode).run (FsPrim.step (StoreCall.serve E)) fs =
      match fs.store.resolve M parent name with
      | .error err => (.error err, fs)
      | .ok (parentPath, path) =>
        let dirMode := sIfdir ||| (mode &&& 0o777)
        match StoreCall.serve E (.mkdir path parentPath) fs.store with
        | (.ok _, s) =>
          (.ok (makeAttr (M.dirIno path) 0 .directory (permFromMode dirMode)),
            { fs with store := (StoreCall.serve E (.setDirMode path dirMode) s).2 })
        | (.error _, s) => (.error .eio, { fs with store := s }) := by
  rw [mkdir, run_bind, run_resolve]
  cases fs.store.resolve M parent name with
  | error err => rfl
  | ok paths =>
    dsimp only
    rw [run_store_bind]
    rcases StoreCall.serve E (.mkdir paths.2 paths.1) fs.store with ⟨_ | _, s⟩ <;> rfl

/-- A directory is removed if no directory has it as its parent and no name starts with its path
    and a slash. -/
theorem run_rmdir : (rmdir M parent name).run (FsPrim.step (StoreCall.serve E)) fs =
    match fs.store.resolve M parent name with
    | .error err => (.error err, fs)
    | .ok (_, path) =>
      if (∃ dir ∈ fs.store.dirs.rows, dir.parent = path) ∨
          ∃ l ∈ fs.store.links.rows, (path ++ "/").toList <+: l.name.toList then
        (.error .enotempty, fs)
      else (.ok (), { fs with store := { fs.store with dirs := fs.store.dirs.erase path } }) := by
  rw [rmdir, run_bind, run_resolve]
  cases fs.store.resolve M parent name with
  | error err => rfl
  | ok paths =>
    obtain ⟨_, path⟩ := paths
    have hchild : (unwrapOrDefault
        (StoreCall.serve E (.listChildDirs path) fs.store).1).isEmpty = true ↔
        ¬∃ dir ∈ fs.store.dirs.rows, dir.parent = path := by
      rw [StoreCall.serve_listChildDirs, unwrapOrDefault, Prim.byPath, List.isEmpty_iff,
        ← List.length_eq_zero_iff, List.length_mergeSort, List.length_eq_zero_iff,
        List.filter_eq_nil_iff]
      simp
    dsimp only
    rw [run_store_bind]
    by_cases hdirs : ∃ dir ∈ fs.store.dirs.rows, dir.parent = path
    · rw [if_pos (mt hchild.mp (not_not_intro hdirs)), if_pos (.inl hdirs)]
      rfl
    rw [if_neg (not_not_intro (hchild.mpr hdirs)), run_bind,
      run_allFiles _ (StoreCall.regular_serve E)]
    dsimp only [StoreCall.serve_listChildDirs]
    have hany : (fs.store.links.rows.any fun link =>
        (path ++ "/").toList.isPrefixOf link.name.toList) = true ↔
        ∃ l ∈ fs.store.links.rows, (path ++ "/").toList <+: l.name.toList := by
      rw [List.any_eq_true]
      simp only [List.isPrefixOf_iff_prefix]
    by_cases hlinks : ∃ l ∈ fs.store.links.rows, (path ++ "/").toList <+: l.name.toList
    · rw [if_pos (hany.mpr hlinks), if_pos (.inr hlinks), run_fail]
    · rw [if_neg fun h => hlinks (hany.mp h), if_neg fun h => h.elim hdirs hlinks, run_store_bind]
      rfl

theorem run_unlink : (unlink M parent name).run (FsPrim.step (StoreCall.serve E)) fs =
    match fs.store.resolve M parent name with
    | .error err => (.error err, fs)
    | .ok (_, path) => match StoreCall.serve E (.delete path false) fs.store with
      | (.ok _, s) => (.ok (), { fs with store := s })
      | (.error _, s) => (.error .enoent, { fs with store := s }) := by
  rw [unlink, run_bind, run_resolve]
  cases fs.store.resolve M parent name with
  | error err => rfl
  | ok paths =>
    dsimp only
    rw [run_store_bind]
    rcases StoreCall.serve E (.delete paths.2 false) fs.store with ⟨_ | _, s⟩ <;> rfl

end Names

/-- The paths of a renaming. -/
def renamed (parent : UInt64) (name : OsName) (newparent : UInt64) (newname : OsName) :
    Except Errno (String × String) :=
  match fs.store.parentPath M parent with
  | .error err => .error err
  | .ok oldParentPath => match fs.store.parentPath M newparent with
    | .error err => .error err
    | .ok newParentPath => match toStr name, toStr newname with
      | some oldName, some newName =>
        .ok (fullPath oldParentPath oldName, fullPath newParentPath newName)
      | _, _ => .error .einval

theorem run_rename (parent : UInt64) (name : OsName) (newparent : UInt64) (newname : OsName) :
    (rename M parent name newparent newname d).run (FsPrim.step (StoreCall.serve E)) fs =
      match renamed M fs parent name newparent newname with
      | .error err => (.error err, fs)
      | .ok (old, new) => match fs.store.get E old with
        | .error _ => (.error .enoent, fs)
        | .ok data =>
          match StoreCall.serve E (.putBinaryData d new data true M.compressed) fs.store with
          | (.error _, s) => (.error .eio, { fs with store := s })
          | (.ok _, s) =>
            (.ok (), { fs with store := (StoreCall.serve E (.delete old false) s).2 }) := by
  rw [rename, run_bind, run_parentPath, renamed]
  cases fs.store.parentPath M parent with
  | error err => rfl
  | ok oldParentPath =>
    dsimp only
    rw [run_bind, run_parentPath]
    cases fs.store.parentPath M newparent with
    | error err => rfl
    | ok newParentPath =>
      cases name with
      | other bytes => rfl
      | str oldName =>
        cases newname with
        | other bytes => rfl
        | str newName =>
          dsimp only [toStr]
          rw [run_get_bind fs (StoreCall.regular_serve E)]
          cases fs.store.get E (fullPath oldParentPath oldName) with
          | error err => rfl
          | ok data =>
            dsimp only
            rw [putBinaryData, run_store_bind]
            rcases StoreCall.serve E (.putBinaryData d (fullPath newParentPath newName) data true
              M.compressed) fs.store with ⟨_ | _, s⟩ <;> rfl

end LinaFs

end LiNaStore
