import LiNaStore.Fuse.Buffers

/-!
# The size of a file

Four requests report the size of a file: looking it up in a directory (`LinaFs.lookup`), asking for
its attributes (`LinaFs.getattr`), changing them, and seeking to its end (`LinaFs.lseek`). The first
two measure the content in the store, the others the content that is read, which may be in a write
buffer. They agree exactly if a write buffer has the length of what is stored (`sizes_agree_iff`).
-/

namespace LiNaStore

open Program Store

/-! ## Requests that change nothing -/

namespace LinaFs

variable (M : Mount)

/-- A file is looked for before a directory. -/
def lookup (parent : UInt64) (name : OsName) : FsProg FileAttr := do
  let (_, fullPath) ← resolve M parent name
  match ← invoke (.store (.getBinaryData fullPath)) with
  | .ok data =>
    let files ← allFiles
    let mode := ((files.find? fun link => link.name = fullPath).map Link.mode).getD modeFile
    return makeAttr (M.fileIno fullPath) data.length (kindFromMode mode) (permFromMode mode)
  | .error _ =>
    match ← invoke (.store (.isDir fullPath)) with
    | .ok true => return makeAttr (M.dirIno fullPath) 0 .directory 0o755
    | _ => fail .enoent

def getattr (ino : UInt64) : FsProg FileAttr := do
  if ino = rootIno then return makeAttr rootIno 0 .directory 0o755
  else
    match ← linkAt M ino with
    | some link =>
      match ← invoke (.store (.getBinaryData link.name)) with
      | .ok data => return makeAttr ino data.length (kindFromMode link.mode) (permFromMode link.mode)
      | .error _ => fail .eio
    | none =>
      let dirs := unwrapOrDefault (← invoke (.store .allDirs))
      let some dir := dirs.find? fun dir => M.dirIno dir.path = ino | fail .enoent
      return makeAttr ino 0 .directory dir.mode.toUInt16

def seekEnd : Int32 := 2

def seekData : Int32 := 3

def seekHole : Int32 := 4

/-- There are no holes in a file. Other seeks are left to the kernel. -/
def lseek (ino : UInt64) (offset : Int64) (whence : Int32) : FsProg Int64 := do
  let size ←
    match ← linkAt M ino with
    | some link => dataLen ino link.name
    | none => pure 0
  let fileSize := Int64.ofNat size
  if whence = seekEnd then return max (fileSize + offset) 0
  -- an offset beyond the end is answered as well
  else if whence = seekData then return max offset 0
  else if whence = seekHole then return fileSize
  else return 0

end LinaFs

/-! ## What they report -/

namespace LinaFs

variable {E : Engine} {M : Mount} {fs : LinaFs} {name : String} {data : Bytes}

/-- A file is found by its name with what the store has. -/
theorem run_lookup {parent : UInt64} {osName : OsName} {parentPath : String}
    (hpath : fs.store.resolve M parent osName = .ok (parentPath, name))
    (hget : fs.store.get E name = .ok data) :
    ∃ attr, (lookup M parent osName).run (FsPrim.step (StoreCall.serve E)) fs = (.ok attr, fs) ∧
      attr.size = data.length := by
  rw [lookup, run_bind, run_resolve, hpath]
  dsimp only
  rw [run_get_bind fs (StoreCall.regular_serve E), hget]
  dsimp only
  rw [run_bind, run_allFiles fs (StoreCall.regular_serve E)]
  exact ⟨_, rfl, rfl⟩

theorem run_getattr (hino : M.Tells fs.store) (hname : fs.store.Linked name)
    (hget : fs.store.get E name = .ok data) :
    ∃ attr, (getattr M (M.fileIno name)).run (FsPrim.step (StoreCall.serve E)) fs = (.ok attr, fs) ∧
      attr.size = data.length := by
  obtain ⟨l, hfile, rfl⟩ := hino.fileAt hname
  rw [getattr, if_neg (M.fileIno_ne_rootIno l.name), run_linkAt_bind M _ _ (StoreCall.regular_serve E),
    hfile]
  dsimp only
  rw [run_get_bind fs (StoreCall.regular_serve E), hget]
  exact ⟨_, rfl, rfl⟩

theorem run_lseek_end (hino : M.Tells fs.store) (hname : fs.store.Linked name) {content : Bytes}
    (hcontent : fs.bytesAt E M .eio (M.fileIno name) = .ok content) (hlength : content.length < 2 ^ 63) :
    ∃ offset, (lseek M (M.fileIno name) 0 seekEnd).run (FsPrim.step (StoreCall.serve E)) fs =
      (.ok offset, fs) ∧ offset.toInt = content.length := by
  obtain ⟨l, hfile, rfl⟩ := hino.fileAt hname
  rw [lseek, run_linkAt_bind M _ _ (StoreCall.regular_serve E), hfile]
  dsimp only
  rw [run_bind, run_dataLen E M fs _ hfile, hcontent]
  refine ⟨_, rfl, ?_⟩
  have hsize : (Int64.ofNat content.length).toInt = content.length := Int64.toInt_ofNat_of_lt hlength
  dsimp only
  rw [Int64.add_zero]
  change (if Int64.ofNat content.length ≤ 0 then 0 else Int64.ofNat content.length).toInt = _
  split_ifs with hle
  · rw [Int64.le_iff_toInt_le, hsize] at hle
    exact (le_antisymm hle (Int.natCast_nonneg _)).symm
  · exact hsize

/-- The size after a change of the attributes is that of the content, if it is not changed. -/
theorem run_setattr_sized (hino : M.Distinct fs.store) (hname : fs.store.Linked name) {content : Bytes}
    (hcontent : fs.bytesAt E M .eio (M.fileIno name) = .ok content) (mode : Option UInt32) (d : Draws) :
    ∃ attr fs', (setattr M (M.fileIno name) mode none d).run (FsPrim.step (StoreCall.serve E)) fs =
      (.ok attr, fs') ∧ attr.size = content.length := by
  obtain ⟨l, hfile, rfl⟩ := hino.files.fileAt hname
  obtain ⟨newMode, fs', hrun, hfs'⟩ := run_setattrMode E fs l.name l.mode mode
  have hlength : ∃ l', fs'.store.fileAt M (M.fileIno l.name) = some l' ∧ l'.name = l.name ∧
      fs'.bytesAt E M .eio (M.fileIno l.name) = .ok content := by
    rcases hfs' with rfl | rfl
    · exact ⟨l, hfile, rfl, hcontent⟩
    · have hlinked := linked_setMode (s := fs.store) l.name newMode
      have hino' := (hino.congr hlinked rfl).files
      obtain ⟨l', hfile', hname'⟩ := hino'.fileAt ((hlinked _).2 hname)
      refine ⟨l', hfile', hname', ?_⟩
      rw [hino'.bytesAt ((hlinked _).2 hname), get_setMode, ← hcontent, hino.files.bytesAt hname]
  obtain ⟨l', hfile', hname', hcontent'⟩ := hlength
  have hlen := run_dataLen E M fs' _ hfile'
  rw [hname', hcontent'] at hlen
  refine ⟨makeAttr (M.fileIno l.name) content.length (kindFromMode newMode) (permFromMode newMode), fs',
    ?_, rfl⟩
  rw [run_setattr_file E M fs _ d (M.fileIno_ne_rootIno l.name) (hino.dirAt hname) hfile,
    setattrFile, run_bind]
  change run _ (linkAt M _ >>= _) fs = _
  rw [run_linkAt_bind M fs _ (StoreCall.regular_serve E), hfile]
  dsimp only [Option.elim]
  rw [run_bind, hrun]
  dsimp only
  rw [run_bind, hlen]
  rfl

/-- The content that is read. -/
theorem run_read_request {content : Bytes}
    (hcontent : fs.bytesAt E M .eio (M.fileIno name) = .ok content) (offset : UInt64)
    (size : UInt32) : (FsRequest.read (M.fileIno name) offset size).run E M fs =
      (.ok (.data (Flat.slice 0 content offset.toNat size.toNat)), fs) := by
  rw [FsRequest.run, FsRequest.program, run_bind, run_read M fs _ (StoreCall.regular_serve E), hcontent]
  rfl

variable (E M) in
/-- A file is read as `content`, and all requests report its length. -/
structure SizesAgree (fs : LinaFs) (name : String) (content : Bytes) : Prop where
  read : ∀ offset size, (FsRequest.read (M.fileIno name) offset size).run E M fs =
    (.ok (.data (Flat.slice 0 content offset.toNat size.toNat)), fs)
  lookup : ∀ parent osName parentPath, fs.store.resolve M parent osName = .ok (parentPath, name) →
    ∃ attr, (LinaFs.lookup M parent osName).run (FsPrim.step (StoreCall.serve E)) fs = (.ok attr, fs) ∧
      attr.size = content.length
  getattr : ∃ attr, (LinaFs.getattr M (M.fileIno name)).run (FsPrim.step (StoreCall.serve E)) fs =
    (.ok attr, fs) ∧ attr.size = content.length
  setattr : ∀ mode d, ∃ attr fs', (FsRequest.setattr (M.fileIno name) mode none d).run E M fs =
    (.ok (.attr attr), fs') ∧ attr.size = content.length
  lseek : ∃ offset, (LinaFs.lseek M (M.fileIno name) 0 seekEnd).run (FsPrim.step (StoreCall.serve E)) fs =
    (.ok offset, fs) ∧ offset.toInt = content.length

end LinaFs

/-- The requests agree on the size of a file exactly if what has been written to it and not saved
    is as long as what the store has. A vector has less than `2 ^ 63` bytes. -/
theorem sizes_agree_iff {E : Engine} {M : Mount} {fs : LinaFs} (hino : M.Distinct fs.store)
    {name : String} (hname : fs.store.Linked name) {data : Bytes}
    (hget : fs.store.get E name = .ok data)
    (hlength : ((fs.writeBuf (M.fileIno name)).getD data).length < 2 ^ 63) :
    (∃ content, fs.SizesAgree E M name content) ↔
      ∀ buffer, fs.writeBuf (M.fileIno name) = some buffer → buffer.length = data.length := by
  have hcontent : fs.bytesAt E M .eio (M.fileIno name) =
      .ok ((fs.writeBuf (M.fileIno name)).getD data) := by
    rw [hino.files.bytesAt hname, hget]
    cases fs.writeBuf (M.fileIno name) <;> rfl
  generalize hserved : (fs.writeBuf (M.fileIno name)).getD data = served at hcontent hlength
  obtain ⟨attr, hgetattr, hsize⟩ := LinaFs.run_getattr hino.files hname hget
  have hbuffer : (∀ buffer, fs.writeBuf (M.fileIno name) = some buffer → buffer.length = data.length) ↔
      served.length = data.length := by
    rw [← hserved]
    cases fs.writeBuf (M.fileIno name) <;> simp
  rw [hbuffer]
  constructor
  · rintro ⟨content, hagree⟩
    obtain ⟨attr', hgetattr', hsize'⟩ := hagree.getattr
    obtain ⟨offset, hlseek, hend⟩ := LinaFs.run_lseek_end hino.files hname hcontent hlength
    obtain ⟨offset', hlseek', hend'⟩ := hagree.lseek
    cases hgetattr.symm.trans hgetattr'
    cases hlseek.symm.trans hlseek'
    rw [hend', Int.natCast_inj] at hend
    rw [← hend, ← hsize', hsize]
  · intro hlen
    refine ⟨served, ?_, fun parent osName parentPath hpath => ?_, ?_, fun mode d => ?_, ?_⟩
    · exact LinaFs.run_read_request hcontent
    · rw [hlen]
      exact LinaFs.run_lookup hpath hget
    · exact ⟨attr, hgetattr, hsize.trans hlen.symm⟩
    · obtain ⟨attr', fs', hrun, hsize'⟩ := LinaFs.run_setattr_sized hino hname hcontent mode d
      refine ⟨attr', fs', ?_, hsize'⟩
      rw [FsRequest.run, FsRequest.program, run_bind, hrun]
      rfl
    · exact LinaFs.run_lseek_end hino.files hname hcontent hlength

/-- A file is overwritten, and not saved: the requests agree on its size, and it is read with the
    new byte. -/
theorem sizes_agree_iff_overwritten :
    LinaFs.sample.writeBuf (Mount.sample.fileIno "a") = some [2] ∧
      LinaFs.sample.store.get .plain "a" = .ok [1] ∧
      ∃ content, LinaFs.sample.SizesAgree .plain .sample "a" content := by
  have hname : Store.sample.Linked "a" := (Store.linked_sample_iff "a").2 rfl
  have hbuffer : LinaFs.sample.writeBuf (Mount.sample.fileIno "a") = some [2] := rfl
  have hget : LinaFs.sample.store.get .plain "a" = .ok [1] := rfl
  refine ⟨hbuffer, hget, (sizes_agree_iff Mount.distinct_sample hname hget ?_).2 fun buffer h => ?_⟩
  · rw [hbuffer]
    decide
  · rw [hbuffer] at h
    cases h
    rfl

/-- A file is written beyond its end: four bytes are read, and its attributes tell of one. -/
theorem sizes_differ :
    ∃ fs attr, FileRun .plain .sample {"a"} ⟨.sample, fun _ => none⟩
        [⟨"a", .write 3 [7] (by decide)⟩] fs ∧
      ((FsRequest.read (Mount.sample.fileIno "a") 0 10).run .plain .sample fs).1 =
        .ok (.data [1, 0, 0, 7]) ∧
      ((LinaFs.getattr .sample (Mount.sample.fileIno "a")).run
        (FsPrim.step (StoreCall.serve .plain)) fs).1 = .ok attr ∧ attr.size = 1 ∧
      ¬∃ content, fs.SizesAgree .plain .sample "a" content := by
  have hrun : FileRun .plain .sample {"a"} ⟨.sample, fun _ => none⟩
      [⟨"a", .write 3 [7] (by decide)⟩] _ := .step ⟨"a", .write 3 [7] (by decide)⟩ .start rfl trivial
  refine ⟨_, _, hrun, rfl, rfl, rfl, ?_⟩
  rintro ⟨content, hagree⟩
  obtain ⟨attr, hgetattr, hsize⟩ := hagree.getattr
  cases hgetattr
  have hread : (.ok (.data [1, 0, 0, 7]) : Except Errno FsReply) =
      .ok (.data (Flat.slice 0 content (UInt64.toNat 0) (UInt32.toNat 10))) :=
    congrArg Prod.fst (hagree.read 0 10)
  have hlength := congrArg List.length (FsReply.data.inj (Except.ok.inj hread))
  rw [Flat.length_slice, ← hsize] at hlength
  exact absurd hlength (by decide)

end LiNaStore
