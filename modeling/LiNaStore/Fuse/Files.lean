import LiNaStore.Base.Cover
import LiNaStore.Fuse.Operations

/-!
# Files as arrays of bytes

What a file is for is to be an array of bytes, that grows when it is written beyond its end and
can be cut or extended (`FileOp.apply`, over the operations of `Flat`). In the file system its
bytes are in a buffer, or in the store, where they may be compressed and the payload may be
shared with other files; they move from one to the other when a file is flushed, synchronised or
released, and a change of its length goes to both.

That none of this shows is the refinement proved here (`files_refine_arrays`): in every state of
a run of such requests on any files, the next request is answered as the array tells, and after
one that saves the file the store has the whole array. What is asked of the inodes is that they
tell the files and directories there are from each other (`Mount.Distinct`); and that the
compression is lossless. No two contents need to have different hashes, as every write to the
store is to a file that is there, and covers.
-/

namespace LiNaStore

open Program Store

/-! ## The arrays -/

/-- A request about the content of a file. -/
inductive FileOp
  | read (offset : UInt64) (size : UInt32)
  | write (offset : UInt64) (data : Bytes) (fits : offset.toNat + data.length < 2 ^ 63)
  | setattr (mode : Option UInt32) (size : Option FileSize) (d : Draws)
  | flush (d : Draws)
  | fsync (d : Draws)
  /-- A release that is not after a flush. -/
  | release (d : Draws)

namespace FileOp

/-- What the request makes of the array. -/
def apply (content : Bytes) : FileOp → Bytes
  | write offset data _ => Flat.writeAt 0 content offset.toNat data
  | setattr _ (some size) _ => Flat.truncate 0 content size.val.toNat
  | _ => content

/-- The reply is the one that the array gives. -/
def Answers (content : Bytes) (reply : Except Errno FsReply) : FileOp → Prop
  | read offset size => reply = .ok (.data (Flat.slice 0 content offset.toNat size.toNat))
  | write _ data _ => reply = .ok (.written (.ofNat data.length))
  | setattr mode size d =>
    ∃ attr, reply = .ok (.attr attr) ∧ attr.size = ((setattr mode size d).apply content).length
  | _ => reply = .ok .ok

/-- The request puts the content into the store. -/
def Saves : FileOp → Prop
  | flush _ | fsync _ | release _ => True
  | _ => False

/-- The request to the file system. -/
def request (ino : UInt64) : FileOp → FsRequest
  | read offset size => .read ino offset size
  | write offset data fits => .write ino offset data fits
  | setattr mode size d => .setattr ino mode size d
  | flush d => .flush ino d
  | fsync d => .fsync ino d
  | release d => .release ino false d

end FileOp

/-- A request, and the name of the file it is about. -/
structure FileRequest where
  name : String
  op : FileOp

namespace FileRequest

/-- What a request makes of the arrays of all files. -/
def apply (arrays : String → Bytes) (r : FileRequest) : String → Bytes :=
  Function.update arrays r.name (r.op.apply (arrays r.name))

/-- The request to the file system. -/
def request (M : Mount) (r : FileRequest) : FsRequest := r.op.request (M.fileIno r.name)

end FileRequest

/-- The states of the runs of requests about the files `F`, with the requests. -/
inductive FileRun (E : Engine) (M : Mount) (F : Set String) (fs : LinaFs) :
    List FileRequest → LinaFs → Prop
  | start : FileRun E M F fs [] fs
  | step {rs : List FileRequest} {fs' : LinaFs} (r : FileRequest) : FileRun E M F fs rs fs' →
      r.name ∈ F → (r.request M).Fresh fs'.store →
      FileRun E M F fs (rs ++ [r]) ((r.request M).run E M fs').2

/-! ## Looking up a file -/

theorem Mount.fileIno_ne_rootIno (M : Mount) (name : String) : M.fileIno name ≠ rootIno := by
  rw [fileIno, unreserved]
  generalize M.hash (hashed name) = ino
  split_ifs with h
  · rcases h with rfl | rfl <;> decide
  · exact fun hroot => h (.inr hroot)

theorem Store.linked_of_mem {s : Store} {l : Link} (hl : l ∈ s.links.rows) : s.Linked l.name :=
  ⟨l, hl, rfl⟩

namespace Mount

variable {E : Engine} {M : Mount} {s s' : Store} {name : String}

/-- The files that there are have different inodes. -/
abbrev Tells (M : Mount) (s : Store) : Prop := Set.InjOn M.fileIno {name | s.Linked name}

theorem Tells.fileAt (h : M.Tells s) (hname : s.Linked name) :
    ∃ l, s.fileAt M (M.fileIno name) = some l ∧ l.name = name := by
  cases hfile : s.fileAt M (M.fileIno name) with
  | none =>
    obtain ⟨l, hl, rfl⟩ := hname
    exact absurd rfl (fileAt_eq_none_iff.mp hfile l hl)
  | some l =>
    obtain ⟨hl, hino⟩ := mem_of_fileAt hfile
    exact ⟨l, rfl, h (linked_of_mem hl) hname hino⟩

/-- The content of a file: its buffer, or what the store has under its name. -/
theorem Tells.bytesAt {fs : LinaFs} (h : M.Tells fs.store) (hname : fs.store.Linked name)
    (err : Errno) :
    fs.bytesAt E M err (M.fileIno name) = match fs.writeBuf (M.fileIno name) with
      | some data => .ok data
      | none => (fs.store.get E name).mapError fun _ => err := by
  obtain ⟨l, hfile, rfl⟩ := h.fileAt hname
  rw [LinaFs.bytesAt, hfile]
  cases fs.writeBuf (M.fileIno l.name) with
  | some data => rfl
  | none =>
    dsimp only
    cases fs.store.get E l.name <;> rfl

/-- The inodes tell the files from each other, and from the directories. -/
structure Distinct (M : Mount) (s : Store) : Prop where
  files : M.Tells s
  dirs : ∀ dir ∈ s.dirs.rows, ∀ name, s.Linked name → M.dirIno dir.path ≠ M.fileIno name

namespace Distinct

theorem dirAt (h : M.Distinct s) (hname : s.Linked name) : s.dirAt M (M.fileIno name) = none :=
  dirAt_eq_none_iff.mpr fun dir hdir => h.dirs dir hdir name hname

theorem congr (h : M.Distinct s) (hlinked : ∀ name, s'.Linked name ↔ s.Linked name)
    (hdirs : s'.dirs = s.dirs) : M.Distinct s' where
  files := fun _ h₁ _ h₂ => h.files ((hlinked _).mp h₁) ((hlinked _).mp h₂)
  dirs := fun dir hdir name hname => h.dirs dir (hdirs ▸ hdir) name ((hlinked name).mp hname)

end Distinct

end Mount

/-- A covering write to a file that is there: it has the content, and the other files have
    theirs. -/
theorem Mount.Distinct.put {E : Engine} {M : Mount} {s : Store} (h : M.Distinct s)
    {extra : SourceId → ℕ} (hs : s.Sound extra) (hE : E.Lossless) {d : Draws} (hfresh : d.Fresh s)
    {name : String} (hname : s.Linked name) (hempty : name ≠ "") (data : Bytes) (compressed : Bool) :
    ∃ s', StoreCall.serve E (.putBinaryData d name data true compressed) s = (.ok (), s') ∧
      (∃ extra', s'.Sound extra') ∧ M.Distinct s' ∧ (∀ name', s'.Linked name' ↔ s.Linked name') ∧
      s'.get E name = .ok data ∧ ∀ name' ≠ name, s'.get E name' = s.get E name' := by
  obtain ⟨s', heff, hput⟩ :=
    StoreManager.performs_putBinaryData E hs hfresh hempty data true compressed
  have hlinked (name' : String) : s'.Linked name' ↔ s.Linked name' := by
    rw [heff.linked_iff hfresh]
    exact or_iff_right_of_imp fun heq => heq ▸ hname
  obtain ⟨extra', -, hs'⟩ := heff.sound hs hfresh
  exact ⟨s', hput.run_eq, ⟨extra', hs'⟩, h.congr hlinked heff.dirs, hlinked,
    (StoreManager.of_putBinaryData_cover hE hname hput.run_eq).1,
    fun name' hne => get_congr (heff.read_of_ne hs hfresh hne)⟩

/-! ## Requests -/

/-- The files `F` are there, and their contents are the arrays. -/
structure LinaFs.Shows (E : Engine) (M : Mount) (F : Set String) (fs : LinaFs)
    (arrays : String → Bytes) : Prop where
  sound : ∃ extra, fs.store.Sound extra
  distinct : M.Distinct fs.store
  linked : ∀ name ∈ F, fs.store.Linked name ∧ name ≠ ""
  content : ∀ name ∈ F, ∀ err, fs.bytesAt E M err (M.fileIno name) = .ok (arrays name)

namespace LinaFs.Shows

variable {E : Engine} {M : Mount} {F : Set String} {fs fs' : LinaFs} {arrays : String → Bytes}
  {name : String} {d : Draws}

/-- Another state shows arrays that differ in one file, if it has the same names and dirs and
    differs in the buffer and the content of that file alone. -/
theorem update (h : fs.Shows E M F arrays) (hname : name ∈ F) {data : Bytes}
    (hsound : ∃ extra, fs'.store.Sound extra) (hdistinct : M.Distinct fs'.store)
    (hlinked : ∀ name', fs'.store.Linked name' ↔ fs.store.Linked name')
    (hself : ∀ err, fs'.bytesAt E M err (M.fileIno name) = .ok data)
    (hbuf : ∀ ino ≠ M.fileIno name, fs'.writeBuf ino = fs.writeBuf ino)
    (hget : ∀ name' ≠ name, fs'.store.get E name' = fs.store.get E name') :
    fs'.Shows E M F (Function.update arrays name data) where
  sound := hsound
  distinct := hdistinct
  linked := fun name' hname' =>
    ⟨(hlinked name').mpr (h.linked name' hname').1, (h.linked name' hname').2⟩
  content := by
    intro name' hname' err
    by_cases heq : name' = name
    · rw [heq, Function.update_self]
      exact hself err
    · have hino : M.fileIno name' ≠ M.fileIno name := fun hino =>
        heq (h.distinct.files (h.linked name' hname').1 (h.linked name hname).1 hino)
      rw [Function.update_of_ne heq, ← h.content name' hname' err,
        hdistinct.files.bytesAt ((hlinked name').mpr (h.linked name' hname').1),
        h.distinct.files.bytesAt (h.linked name' hname').1, hbuf _ hino, hget name' heq]

/-- The content of a file in the store, if it has no buffer. -/
theorem get (h : fs.Shows E M F arrays) (hname : name ∈ F)
    (hbuf : fs.writeBuf (M.fileIno name) = none) : fs.store.get E name = .ok (arrays name) := by
  have hcontent := h.content name hname .eio
  rw [h.distinct.files.bytesAt (h.linked name hname).1, hbuf] at hcontent
  cases hget : fs.store.get E name with
  | error err =>
    rw [hget] at hcontent
    cases hcontent
  | ok data =>
    rw [hget] at hcontent
    exact congrArg Except.ok (Except.ok.inj hcontent)

/-- The buffer of a file, if it has one. -/
theorem buffer (h : fs.Shows E M F arrays) (hname : name ∈ F) {data : Bytes}
    (hbuf : fs.writeBuf (M.fileIno name) = some data) : data = arrays name := by
  have hcontent := h.content name hname .eio
  rw [LinaFs.bytesAt, hbuf] at hcontent
  exact Except.ok.inj hcontent

theorem write (h : fs.Shows E M F arrays) (hname : name ∈ F) (offset : UInt64) (data : Bytes) :
    (LinaFs.write M (M.fileIno name) offset data).run (FsPrim.step (StoreCall.serve E)) fs =
        (.ok (.ofNat data.length),
          fs.setBuffer (M.fileIno name) (some (Flat.writeAt 0 (arrays name) offset.toNat data))) ∧
      (fs.setBuffer (M.fileIno name) (some (Flat.writeAt 0 (arrays name) offset.toNat data))).Shows E M F
        (Function.update arrays name (Flat.writeAt 0 (arrays name) offset.toNat data)) := by
  constructor
  · rw [run_write M fs _ (StoreCall.regular_serve E), h.content name hname]
  · refine h.update hname h.sound h.distinct (fun _ => .rfl) (fun err => ?_) (fun ino hino => ?_)
      fun _ _ => rfl
    · exact bytesAt_of_buffer _ _ _ (writeBuf_setBuffer_self _ _ _) err
    · exact writeBuf_setBuffer_of_ne fs _ hino _

/-- Saving a file leaves it without a buffer, and with its content in the store. -/
theorem writeBack (h : fs.Shows E M F arrays) (hE : E.Lossless) (hname : name ∈ F)
    (hfresh : d.Fresh fs.store) :
    ∃ fs', (LinaFs.writeBack M (M.fileIno name) d).run (FsPrim.step (StoreCall.serve E)) fs =
        (.ok (), fs') ∧
      fs'.Shows E M F arrays ∧ fs'.store.get E name = .ok (arrays name) := by
  obtain ⟨l, hfile, rfl⟩ := h.distinct.files.fileAt (h.linked name hname).1
  rw [run_writeBack M fs _ (StoreCall.regular_serve E)]
  cases hbuf : fs.writeBuf (M.fileIno l.name) with
  | none => exact ⟨fs, rfl, h, h.get hname hbuf⟩
  | some data =>
    obtain rfl := h.buffer hname hbuf
    obtain ⟨extra, hs⟩ := h.sound
    obtain ⟨s', hrun, hsound, hdistinct, hlinked, hself, hget⟩ := h.distinct.put hs hE hfresh
      (h.linked _ hname).1 (h.linked _ hname).2 (arrays l.name) M.compressed
    rw [hfile]
    dsimp only
    rw [hrun]
    refine ⟨_, rfl, ?_, hself⟩
    let fs' : LinaFs := { fs.setBuffer (M.fileIno l.name) none with store := s' }
    have hshows : fs'.Shows E M F (Function.update arrays l.name (arrays l.name)) := by
      refine h.update hname hsound hdistinct hlinked (fun err => ?_)
        (fun ino hino => writeBuf_setBuffer_of_ne fs _ hino _) hget
      have hbuf' : fs'.writeBuf (M.fileIno l.name) = none := writeBuf_setBuffer_self fs _ none
      have hself' : fs'.store.get E l.name = .ok (arrays l.name) := hself
      have htells : M.Tells fs'.store := hdistinct.files
      rw [htells.bytesAt ((hlinked _).mpr (h.linked _ hname).1), hbuf', hself']
      rfl
    rwa [Function.update_eq_self] at hshows

theorem setattrSize (h : fs.Shows E M F arrays) (hE : E.Lossless) (hname : name ∈ F)
    (hfresh : d.Fresh fs.store) (size : Option FileSize) :
    ∃ fs', (LinaFs.setattrSize M (M.fileIno name) name size d).run
        (FsPrim.step (StoreCall.serve E)) fs = (.ok (), fs') ∧
      fs'.Shows E M F
        (Function.update arrays name
          ((size.map fun size => Flat.truncate 0 (arrays name) size.val.toNat).getD
            (arrays name))) := by
  cases size with
  | none =>
    refine ⟨fs, rfl, ?_⟩
    rwa [Option.map_none, Option.getD_none, Function.update_eq_self]
  | some newSize =>
    obtain ⟨l, hfile, rfl⟩ := h.distinct.files.fileAt (h.linked name hname).1
    obtain ⟨extra, hs⟩ := h.sound
    obtain ⟨s', hrun, hsound, hdistinct, hlinked, hself, hget⟩ := h.distinct.put hs hE hfresh
      (h.linked _ hname).1 (h.linked _ hname).2 (Flat.truncate 0 (arrays l.name) newSize.val.toNat)
      M.compressed
    rw [run_setattrSize E M fs _ d hfile, h.content _ hname]
    dsimp only
    rw [hrun]
    refine ⟨_, rfl, h.update hname hsound hdistinct hlinked (fun err => ?_)
      (fun ino hino => writeBuf_setBuffer_of_ne fs _ hino _) hget⟩
    -- the buffer, if there is one, has the new length as well
    rw [hdistinct.files.bytesAt ((hlinked _).mpr (h.linked _ hname).1)]
    dsimp only
    rw [writeBuf_setBuffer_self, hself]
    cases fs.writeBuf (M.fileIno l.name) <;> rfl

/-- The mode of a file is not part of its content. -/
theorem setMode (h : fs.Shows E M F arrays) (name : String) (mode : UInt32) :
    LinaFs.Shows E M F { fs with store := fs.store.setMode name mode } arrays := by
  have hlinked := linked_setMode (s := fs.store) name mode
  have hdistinct := h.distinct.congr hlinked rfl
  obtain ⟨extra, hs⟩ := h.sound
  refine ⟨⟨extra, hs.setMode name mode⟩, hdistinct,
    fun name' hname' => ⟨(hlinked _).mpr (h.linked name' hname').1, (h.linked name' hname').2⟩,
    fun name' hname' err => ?_⟩
  rw [hdistinct.files.bytesAt ((hlinked _).mpr (h.linked name' hname').1), get_setMode,
    ← h.content name' hname' err, h.distinct.files.bytesAt (h.linked name' hname').1]

/-- A change of the attributes: the length that is reported is that of the array. -/
theorem setattr (h : fs.Shows E M F arrays) (hE : E.Lossless) (hname : name ∈ F)
    (hfresh : d.Fresh fs.store) (mode : Option UInt32) (size : Option FileSize) :
    ∃ attr fs', (LinaFs.setattr M (M.fileIno name) mode size d).run
        (FsPrim.step (StoreCall.serve E)) fs = (.ok attr, fs') ∧
      attr.size = ((FileOp.setattr mode size d).apply (arrays name)).length ∧
      fs'.Shows E M F
        (Function.update arrays name ((FileOp.setattr mode size d).apply (arrays name))) := by
  have happly : (FileOp.setattr mode size d).apply (arrays name) =
      (size.map fun size => Flat.truncate 0 (arrays name) size.val.toNat).getD (arrays name) := by
    cases size <;> rfl
  obtain ⟨fs₁, hrun₁, h₁⟩ := h.setattrSize hE hname hfresh size
  rw [← happly] at h₁
  obtain ⟨l, hfile, rfl⟩ := h.distinct.files.fileAt (h.linked name hname).1
  obtain ⟨l₁, hfile₁, hl₁⟩ := h₁.distinct.files.fileAt (h₁.linked _ hname).1
  obtain ⟨newMode, fs₂, hrun₂, hfs₂⟩ := run_setattrMode E fs₁ l.name l₁.mode mode
  have h₂ : fs₂.Shows E M F (Function.update arrays l.name
      ((FileOp.setattr mode size d).apply (arrays l.name))) := by
    rcases hfs₂ with rfl | rfl
    · exact h₁
    · exact h₁.setMode l.name newMode
  obtain ⟨l₂, hfile₂, hl₂⟩ := h₂.distinct.files.fileAt (h₂.linked _ hname).1
  have hlen := run_dataLen E M _ _ hfile₂
  rw [hl₂, h₂.content _ hname, Function.update_self] at hlen
  refine ⟨makeAttr (M.fileIno l.name) ((FileOp.setattr mode size d).apply (arrays l.name)).length
    (kindFromMode newMode) (permFromMode newMode), _, ?_, rfl, h₂⟩
  rw [run_setattr_file E M fs _ d (M.fileIno_ne_rootIno l.name)
    (h.distinct.dirAt (h.linked _ hname).1) hfile, LinaFs.setattrFile, run_bind, hrun₁]
  dsimp only
  rw [run_linkAt_bind M fs₁ _ (StoreCall.regular_serve E), hfile₁]
  dsimp only [Option.elim]
  rw [run_bind, hrun₂]
  dsimp only
  rw [run_bind, hlen]
  rfl

/-- One request: the reply is the one of the array, the state shows what the request makes of the
    arrays, and the store has the array if the request saves it. -/
theorem request (h : fs.Shows E M F arrays) (hE : E.Lossless) {r : FileRequest} (hr : r.name ∈ F)
    (hfresh : (r.request M).Fresh fs.store) :
    ∃ reply fs', (r.request M).run E M fs = (reply, fs') ∧ r.op.Answers (arrays r.name) reply ∧
      fs'.Shows E M F (r.apply arrays) ∧
      (r.op.Saves → fs'.store.get E r.name = .ok (arrays r.name)) := by
  obtain ⟨name, op⟩ := r
  have hsame : Function.update arrays name (arrays name) = arrays := Function.update_eq_self _ _
  have hsave {d : Draws} (hd : d.Fresh fs.store) :
      ∃ fs', (do
          LinaFs.writeBack M (M.fileIno name) d
          return .ok : FsProg FsReply).run (FsPrim.step (StoreCall.serve E)) fs = (.ok .ok, fs') ∧
        fs'.Shows E M F (Function.update arrays name (arrays name)) ∧
        fs'.store.get E name = .ok (arrays name) := by
    obtain ⟨fs', hback, hshows, hget⟩ := h.writeBack hE hr hd
    rw [run_bind, hback, hsame]
    exact ⟨fs', rfl, hshows, hget⟩
  rw [FsRequest.run]
  cases op with
  | read offset size =>
    refine ⟨.ok (.data (Flat.slice 0 (arrays name) offset.toNat size.toNat)), fs, ?_, rfl, ?_,
      fun hsaves => hsaves.elim⟩
    · change (LinaFs.read M _ offset size >>= _).run _ fs = _
      rw [run_bind, run_read M fs _ (StoreCall.regular_serve E), h.content name hr]
      rfl
    · change fs.Shows E M F (Function.update arrays name (arrays name))
      rwa [hsame]
  | write offset data fits =>
    obtain ⟨hrun, hshows⟩ := h.write hr offset data
    refine ⟨.ok (.written (.ofNat data.length)), _, ?_, rfl, hshows, fun hsaves => hsaves.elim⟩
    change (LinaFs.write M _ offset data >>= _).run _ fs = _
    rw [run_bind, hrun]
    rfl
  | setattr mode size d =>
    obtain ⟨attr, fs', hrun, hsize, hshows⟩ := h.setattr hE hr hfresh mode size
    refine ⟨.ok (.attr attr), fs', ?_, ⟨attr, rfl, hsize⟩, hshows, fun hsaves => hsaves.elim⟩
    change (LinaFs.setattr M _ mode size d >>= _).run _ fs = _
    rw [run_bind, hrun]
    rfl
  | flush d =>
    obtain ⟨fs', hrun, hshows, hget⟩ := hsave hfresh
    exact ⟨_, fs', hrun, rfl, hshows, fun _ => hget⟩
  | fsync d =>
    obtain ⟨fs', hrun, hshows, hget⟩ := hsave hfresh
    exact ⟨_, fs', hrun, rfl, hshows, fun _ => hget⟩
  | release d =>
    obtain ⟨fs', hrun, hshows, hget⟩ := hsave hfresh
    exact ⟨_, fs', hrun, rfl, hshows, fun _ => hget⟩

/-- In every state of a run the files show what the requests have made of the arrays. -/
theorem run (h : fs.Shows E M F arrays) (hE : E.Lossless) {rs : List FileRequest}
    (hrun : FileRun E M F fs rs fs') : fs'.Shows E M F (rs.foldl FileRequest.apply arrays) := by
  induction hrun with
  | start => exact h
  | step r _ hr hfresh ih =>
    obtain ⟨reply, fs'', hstep, -, hshows, -⟩ := ih.request hE hr hfresh
    rw [hstep, List.foldl_append]
    exact hshows

end LinaFs.Shows

/-- A run of requests about the contents of files that are there: every next request is answered
    as the array of its file tells, which is what the requests so far have made of it; and after
    one that saves the file, the store has the array. -/
theorem files_refine_arrays {E : Engine} {M : Mount} {F : Set String} {fs fs' : LinaFs}
    {extra : SourceId → ℕ} {arrays : String → Bytes} {rs : List FileRequest} (hE : E.Lossless)
    (hs : fs.store.Sound extra) (hino : M.Distinct fs.store) (hempty : "" ∉ F)
    (hF : ∀ name ∈ F, fs.store.Linked name ∧
      ∀ err, fs.bytesAt E M err (M.fileIno name) = .ok (arrays name))
    (hrun : FileRun E M F fs rs fs') {r : FileRequest} (hr : r.name ∈ F)
    (hfresh : (r.request M).Fresh fs'.store) :
    r.op.Answers (rs.foldl FileRequest.apply arrays r.name) ((r.request M).run E M fs').1 ∧
      (r.op.Saves →
        ((StoreManager.getBinaryData E r.name).run Prim.step
          ((r.request M).run E M fs').2.store).1 =
            .ok (rs.foldl FileRequest.apply arrays r.name)) := by
  have hshows : fs.Shows E M F arrays := ⟨⟨extra, hs⟩, hino,
    fun name hname => ⟨(hF name hname).1, fun heq => hempty (heq ▸ hname)⟩,
    fun name hname => (hF name hname).2⟩
  obtain ⟨reply, fs'', hstep, hreply, -, hsaves⟩ := (hshows.run hE hrun).request hE hr hfresh
  rw [hstep]
  refine ⟨hreply, fun hsave => ?_⟩
  rw [StoreManager.run_getBinaryData]
  exact hsaves hsave

/-- A mount without compression, with a hash that is good enough for a few names. -/
def Mount.sample : Mount := ⟨fun bytes => bytes.foldl (fun h b => h * 31 + b.toUInt64) 7, false⟩

/-- The store with one file, of one byte. -/
def Store.sample : Store :=
  (((Call.put (.sample 0) "a" [1] false false).program .plain).run Prim.step .empty).2

theorem Store.reachable_sample : Reachable .plain {[1], [2]} Store.sample :=
  .call (.put (.sample 0) "a" [1] false false) .empty ⟨rfl, rfl⟩ (.inl rfl)

theorem Store.linked_sample_iff (name : String) : Store.sample.Linked name ↔ name = "a" := by
  constructor
  · rintro ⟨l, hl, rfl⟩
    rw [List.mem_singleton.mp hl]
  · rintro rfl
    exact ⟨_, List.mem_cons_self, rfl⟩

theorem Mount.distinct_sample : Mount.sample.Distinct Store.sample := by
  refine ⟨fun name h name' h' _ => ?_, fun dir hdir => absurd hdir List.not_mem_nil⟩
  rw [(Store.linked_sample_iff name).mp h, (Store.linked_sample_iff name').mp h']

/-- A file is written beyond its end, and flushed. -/
theorem files_refine_arrays_gap :
    ∃ fs', FileRun .plain .sample {"a"} ⟨.sample, fun _ => none⟩
        [⟨"a", .write 3 [7] (by decide)⟩] fs' ∧
      ((StoreManager.getBinaryData .plain "a").run Prim.step
        ((FsRequest.flush (Mount.sample.fileIno "a") (.sample 1)).run .plain .sample fs').2.store).1 =
          .ok [1, 0, 0, 7] := by
  have hrun : FileRun .plain .sample {"a"} ⟨.sample, fun _ => none⟩
      [⟨"a", .write 3 [7] (by decide)⟩] _ :=
    .step ⟨"a", .write 3 [7] (by decide)⟩ .start rfl trivial
  refine ⟨_, hrun, ?_⟩
  have hF : ∀ name ∈ ({"a"} : Set String), Store.sample.Linked name ∧ ∀ err,
      LinaFs.bytesAt .plain .sample ⟨.sample, fun _ => none⟩ err (Mount.sample.fileIno name) =
        .ok ((fun _ => [1] : String → Bytes) name) := by
    rintro _ rfl
    exact ⟨(Store.linked_sample_iff "a").mpr rfl, fun _ => rfl⟩
  exact (files_refine_arrays Engine.lossless_plain Store.reachable_sample.sound
    Mount.distinct_sample (by decide) hF hrun (r := ⟨"a", .flush (.sample 1)⟩) rfl ⟨rfl, rfl⟩).2 trivial

end LiNaStore
