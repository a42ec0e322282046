import LiNaStore.Fuse.Files
import LiNaStore.Fuse.Names

/-!
# Write buffers

A write buffer holds what has been written to a file and is not in the store yet. Two things are to
be hoped of it: that it is not dropped before its bytes are in the store, and that it does not
outlive its file.

Neither is so. Saving a file removes its buffer first, so that the bytes are gone if the store
cannot take them; and a release after a flush removes the buffer without a look at it, be it that
another handle has written in between. A buffer is kept or saved if and only if the write to the
store succeeds, or, on a release after a flush, the store has the bytes already
(`buffer_saved_iff`). This is so in every state: of the store nothing is asked.

Removing or renaming a file leaves its buffer, which then is the content of the next file with its
name. In a run in which a file is removed, renamed or made only when it has no unsaved bytes, every
buffer belongs to a file that is there and was written since its link was made, and a file that is
made is empty; and that is what it takes (`buffers_owned_iff`).
-/

namespace LiNaStore

open Program Store

/-! ## Saving -/

/-- A request that is to save a file. -/
inductive SaveOp
  | flush
  | fsync
  | release (flushCalled : Bool)

/-- The request to the file system. -/
def SaveOp.request (ino : UInt64) (d : Draws) : SaveOp → FsRequest
  | flush => .flush ino d
  | fsync => .fsync ino d
  | release flushCalled => .release ino flushCalled d

/-- Writes to the store may fail, in whatever way and leaving whatever store. -/
structure Serve.MayFail (E : Engine) (serve : Serve) : Prop extends serve.Regular E where
  putBinaryData : ∀ d name data cover compressed s,
    serve (.putBinaryData d name data cover compressed) s =
        StoreCall.serve E (.putBinaryData d name data cover compressed) s ∨
      ∃ err s', serve (.putBinaryData d name data cover compressed) s = (.error err, s')

namespace LinaFs

variable (E : Engine) (M : Mount)

/-- The content the store has for the file with an inode. -/
def stored (fs : LinaFs) (ino : UInt64) : Option Bytes :=
  (fs.store.fileAt M ino).bind fun l => (fs.store.get E l.name).toOption

/-- A buffer that has been removed is in the store, and after an error it is still there. -/
structure Keeps (ino : UInt64) (fs : LinaFs) (reply : Except Errno FsReply) (fs' : LinaFs) : Prop where
  saved : ∀ data, fs.writeBuf ino = some data → fs'.writeBuf ino = none →
    fs'.stored E M ino = some data
  failed : ∀ err, reply = .error err → fs'.writeBuf ino = fs.writeBuf ino

/-- The store takes the buffer of a file, or has its bytes already. -/
def Saved (serve : Serve) (fs : LinaFs) (ino : UInt64) (d : Draws) (data : Bytes) : SaveOp → Prop
  | .release true => fs.stored E M ino = some data
  | _ => ∃ l s', fs.store.fileAt M ino = some l ∧
    serve (.putBinaryData d l.name data true M.compressed) fs.store = (.ok (), s')

variable {E M} {fs : LinaFs} {ino : UInt64}

/-- The names of the links tell which file has an inode. -/
theorem stored_eq {fs' : LinaFs}
    (h : fs'.store.links.rows.map Link.name = fs.store.links.rows.map Link.name) {l : Link}
    (hfile : fs.store.fileAt M ino = some l) :
    fs'.stored E M ino = (fs'.store.get E l.name).toOption := by
  have hname (s : Store) : (s.fileAt M ino).map Link.name =
      (s.links.rows.map Link.name).find? fun name => M.fileIno name = ino := by
    rw [fileAt, List.find?_map]
    rfl
  have hmap := hname fs'.store
  rw [h, ← hname, hfile, Option.map_some, Option.map_eq_some_iff] at hmap
  obtain ⟨l', hfile', hl'⟩ := hmap
  rw [stored, hfile', Option.bind_some, hl']

/-- A buffer is kept or saved by a request that writes it back, if and only if the store takes its
    bytes. -/
theorem keeps_writeBack_iff (hE : E.Lossless) {serve : Serve} (h : serve.MayFail E) (d : Draws) :
    Keeps E M ino fs
        ((do
          writeBack M ino d
          return .ok : FsProg FsReply).run (FsPrim.step serve) fs).1
        ((do
          writeBack M ino d
          return .ok : FsProg FsReply).run (FsPrim.step serve) fs).2 ↔
      ∀ data, fs.writeBuf ino = some data → Saved E M serve fs ino d data .flush := by
  rw [run_bind, run_writeBack M fs ino h.toRegular]
  cases hbuf : fs.writeBuf ino with
  | none =>
    refine iff_of_true ⟨fun data hdata => ?_, fun err herr => ?_⟩ nofun
    · rw [hbuf] at hdata
      cases hdata
    · cases herr
  | some data =>
    -- an error leaves no buffer
    have hlost {fs' : LinaFs} {err : Errno} (hfs' : fs'.writeBuf ino = none) :
        ¬Keeps E M ino fs (.error err) fs' := fun hkeeps => by
      have hfailed := hkeeps.failed err rfl
      rw [hfs', hbuf] at hfailed
      cases hfailed
    cases hfile : fs.store.fileAt M ino with
    | none =>
      refine iff_of_false (hlost (writeBuf_setBuffer_self fs ino none)) fun hsaved => ?_
      obtain ⟨l, s', hl, -⟩ := hsaved data rfl
      rw [hfile] at hl
      cases hl
    | some l =>
      dsimp only
      rcases hput : serve (.putBinaryData d l.name data true M.compressed) fs.store with ⟨_ | _, s'⟩
      · refine iff_of_false (hlost (writeBuf_setBuffer_self fs ino none)) fun hsaved => ?_
        obtain ⟨l', s'', hl, hok⟩ := hsaved data rfl
        rw [hfile] at hl
        cases hl
        rw [hput] at hok
        cases hok
      · refine iff_of_true ⟨fun data' hdata _ => ?_, fun err herr => ?_⟩ fun data' hdata => ?_
        · rw [hbuf] at hdata
          cases hdata
          have hrun : StoreCall.serve E (.putBinaryData d l.name data true M.compressed) fs.store =
              (.ok (), s') := by
            rcases h.putBinaryData d l.name data true M.compressed fs.store with heq | ⟨err, s'', heq⟩
            · rw [← heq, hput]
            · rw [hput] at heq
              cases heq
          obtain ⟨hget, hnames⟩ := StoreManager.of_putBinaryData_cover hE
            (linked_of_mem (mem_of_fileAt hfile).1) hrun
          change LinaFs.stored E M { fs.setBuffer ino none with store := s' } ino = some data
          rw [stored_eq hnames hfile, hget]
          rfl
        · cases herr
        · cases hdata
          exact ⟨l, s', hfile, hput⟩

end LinaFs

/-- A request that is to save a file, in any state and whether or not writes to the store fail: a
    buffer that it removes is in the store, and one is still there after an error, if and only if
    the store takes the bytes of the buffer or, for a release after a flush, has them already. -/
theorem buffer_saved_iff {E : Engine} (hE : E.Lossless) {serve : Serve} (h : serve.MayFail E)
    (M : Mount) (fs : LinaFs) (ino : UInt64) (d : Draws) (op : SaveOp) :
    LinaFs.Keeps E M ino fs (((op.request ino d).program M).run (FsPrim.step serve) fs).1
        (((op.request ino d).program M).run (FsPrim.step serve) fs).2 ↔
      ∀ data, fs.writeBuf ino = some data → LinaFs.Saved E M serve fs ino d data op := by
  cases op with
  | flush => exact LinaFs.keeps_writeBack_iff hE h d
  | fsync => exact LinaFs.keeps_writeBack_iff hE h d
  | release flushCalled =>
    cases flushCalled with
    | false => exact LinaFs.keeps_writeBack_iff hE h d
    | true =>
      have hrun : (((SaveOp.release true).request ino d).program M).run (FsPrim.step serve) fs =
          (.ok .ok, fs.setBuffer ino none) := rfl
      rw [hrun]
      constructor
      · intro hkeeps data hdata
        exact hkeeps.saved data hdata (LinaFs.writeBuf_setBuffer_self fs ino none)
      · intro hsaved
        exact ⟨fun data hdata _ => hsaved data hdata, fun err herr => by cases herr⟩

/-- A file with unsaved bytes. -/
def LinaFs.sample : LinaFs :=
  ((FsRequest.write (Mount.sample.fileIno "a") 0 [2] (by decide)).run .plain .sample
    ⟨.sample, fun _ => none⟩).2

theorem buffer_saved_iff_flush :
    LinaFs.Keeps .plain .sample (Mount.sample.fileIno "a") .sample
      ((FsRequest.flush (Mount.sample.fileIno "a") (.sample 1)).run .plain .sample .sample).1
      ((FsRequest.flush (Mount.sample.fileIno "a") (.sample 1)).run .plain .sample .sample).2 :=
  (buffer_saved_iff Engine.lossless_plain
    ⟨StoreCall.regular_serve .plain, fun _ _ _ _ _ _ => .inl rfl⟩ .sample .sample
    (Mount.sample.fileIno "a") (.sample 1) .flush).mpr fun _ _ => ⟨_, _, rfl, rfl⟩

/-- A file is written, and then released after a flush that was before: its bytes are gone, and
    the store has the old ones. And if it is flushed and the store fails, they are gone as well. -/
theorem unsaved_bytes_dropped :
    FileRun .plain .sample {"a"} ⟨.sample, fun _ => none⟩ [⟨"a", .write 0 [2] (by decide)⟩] .sample ∧
      LinaFs.sample.writeBuf (Mount.sample.fileIno "a") = some [2] ∧
      (∃ fs', (FsRequest.release (Mount.sample.fileIno "a") true (.sample 1)).run .plain .sample
          .sample = (.ok .ok, fs') ∧
        fs'.writeBuf (Mount.sample.fileIno "a") = none ∧ fs'.store.get .plain "a" = .ok [1]) ∧
      ∀ err, ∃ fs', ((FsRequest.flush (Mount.sample.fileIno "a") (.sample 1)).program .sample).run
          (FsPrim.step (StoreCall.serveWrite .plain (.error err, .sample))) .sample =
            (.error .eio, fs') ∧
        fs'.writeBuf (Mount.sample.fileIno "a") = none ∧ fs'.store.get .plain "a" = .ok [1] :=
  ⟨.step ⟨"a", .write 0 [2] (by decide)⟩ .start rfl trivial, rfl, ⟨_, rfl, rfl, rfl⟩,
    fun _ => ⟨_, rfl, rfl, rfl⟩⟩

/-! ## Buffers and files -/

/-- Every buffer is that of a file which is there, and is one of `written`. -/
def LinaFs.Owned (M : Mount) (fs : LinaFs) (written : Set String) : Prop :=
  ∀ ino data, fs.writeBuf ino = some data →
    ∃ name ∈ written, fs.store.Linked name ∧ M.fileIno name = ino

namespace FsRequest

variable (E : Engine) (M : Mount)

/-- The files written since their links were made, after a request. -/
def written (fs : LinaFs) (before : Set String) (r : FsRequest) : Set String :=
  {name | (name ∈ before ∨ ∃ offset data fits n, r = .write (M.fileIno name) offset data fits ∧
      (r.run E M fs).1 = .ok (.written n)) ∧
    fs.store.Linked name ∧ (r.run E M fs).2.store.Linked name}

/-- The file a request makes. -/
def makes (fs : LinaFs) : FsRequest → Option String
  | create parent name _ _ => (fs.store.resolve M parent name).toOption.map Prod.snd
  | _ => none

/-- The file a request removes, or gives another name. -/
def removes (fs : LinaFs) : FsRequest → Option String
  | unlink parent name => (fs.store.resolve M parent name).toOption.map Prod.snd
  | rename parent name newparent newname _ =>
    (LinaFs.renamed M fs parent name newparent newname).toOption.map Prod.fst
  | _ => none

/-- The name a request gives to a file. -/
def gives (fs : LinaFs) : FsRequest → Option String
  | rename parent name newparent newname _ =>
    (LinaFs.renamed M fs parent name newparent newname).toOption.map Prod.snd
  | r => r.makes M fs

/-- A request to make, write, flush, remove or rename a file, about names of `N`, that stores
    contents of `D`. -/
structure Admissible (D : Set Bytes) (N : Set String) (fs : LinaFs) (r : FsRequest) : Prop where
  request : match r with
    | create .. | write .. | flush .. | unlink .. | rename .. => True
    | _ => False
  fresh : r.Fresh fs.store
  within : match r with
    | create .. => [] ∈ D
    | flush ino _ => ∀ data, fs.writeBuf ino = some data → data ∈ D
    | _ => True
  names : ∀ name, r.gives M fs = some name ∨ r.removes M fs = some name → name ∈ N ∧ name ≠ ""

/-- A file that is removed or renamed has no buffer, and a file that is made has none with bytes
    in it. -/
structure Clear (fs : LinaFs) (r : FsRequest) : Prop where
  removed : ∀ name, r.removes M fs = some name → fs.writeBuf (M.fileIno name) = none
  made : ∀ name data, r.makes M fs = some name → fs.writeBuf (M.fileIno name) = some data → data = []

/-- After a request every buffer is owned, and a file that was made is empty. -/
structure KeepsOwned (fs : LinaFs) (before : Set String) (r : FsRequest) : Prop where
  owned : (r.run E M fs).2.Owned M (r.written E M fs before)
  empty : ∀ name, r.makes M fs = some name → ∀ offset size,
    ((FsRequest.read (M.fileIno name) offset size).run E M (r.run E M fs).2).1 = .ok (.data [])

end FsRequest

/-- The states of the runs of such requests on a mounted store, each of which satisfies `P`, with
    the files written since their links were made. -/
inductive BufferRun (E : Engine) (M : Mount) (D : Set Bytes) (N : Set String)
    (P : FsRequest → LinaFs → Prop) : LinaFs → Set String → Prop
  | start {s : Store} : s.Consistent E D → (∀ name, s.Linked name → name ∈ N) →
      BufferRun E M D N P ⟨s, fun _ => none⟩ ∅
  | step {fs : LinaFs} {before : Set String} (r : FsRequest) : BufferRun E M D N P fs before →
      r.Admissible M D N fs → P r fs →
      BufferRun E M D N P (r.run E M fs).2 (r.written E M fs before)

/-! ### What a request changes -/

namespace FsRequest

/-- What an admissible request does to the store, to the names and to the buffers. -/
structure Change (E : Engine) (M : Mount) (D : Set Bytes) (fs : LinaFs) (r : FsRequest)
    (reply : Except Errno FsReply) (fs' : LinaFs) : Prop where
  consistent : fs'.store.Consistent E D
  kept : ∀ name, fs.store.Linked name → r.removes M fs ≠ some name → fs'.store.Linked name
  gone : ∀ name, r.removes M fs = some name → ¬fs'.store.Linked name
  new : ∀ name, fs'.store.Linked name → fs.store.Linked name ∨ r.gives M fs = some name
  /-- A buffer was there before, or is that of a file that has been written. -/
  buffer : ∀ ino, fs'.writeBuf ino ≠ none → fs.writeBuf ino ≠ none ∨
    ∃ l offset data fits n, fs.store.fileAt M ino = some l ∧ r = .write ino offset data fits ∧
      reply = .ok (.written n)
  /-- Requests about names change no buffer. -/
  same : r.OnNames → fs'.writeBuf = fs.writeBuf
  made : ∀ name, r.makes M fs = some name → fs'.store.Linked name ∧ fs'.store.get E name = .ok []

variable {E : Engine} {M : Mount} {D : Set Bytes} {N : Set String} {fs fs' : LinaFs}
  {before : Set String} {r : FsRequest}

theorem toOption_map_eq_some {ε α β : Type} {x : Except ε α} {f : α → β} {b : β} :
    x.toOption.map f = some b ↔ ∃ a, x = .ok a ∧ f a = b := by
  cases x <;> simp [Except.toOption]

/-- Nothing is changed, and nothing was to be made or removed. -/
theorem Change.unchanged (hs : fs.store.Consistent E D) {reply : Except Errno FsReply}
    (hmakes : r.makes M fs = none) (hremoves : ∀ name, r.removes M fs = some name →
      ¬fs.store.Linked name) : r.Change E M D fs reply fs where
  consistent := hs
  kept _ hname _ := hname
  gone := hremoves
  new _ hname := .inl hname
  buffer _ hbuf := .inl hbuf
  same _ := rfl
  made name hname := by rw [hmakes] at hname; cases hname

/-- A request about names that is refused: there was nothing to make, and no link to remove. -/
theorem change_refused (hs : fs.store.Consistent E D) (hr : r.Admissible M D N fs)
    (hrefused : r.Refused E M fs) {reply : Except Errno FsReply} :
    r.Change E M D fs reply fs := by
  cases r with
  | create parent name mode d =>
    refine .unchanged hs ?_ nofun
    cases hresolve : fs.store.resolve M parent name with
    | error err => rw [makes, hresolve]; rfl
    | ok paths =>
      refine absurd (hrefused paths.1 paths.2 hresolve) (hr.names paths.2 (.inl ?_)).2
      exact toOption_map_eq_some.mpr ⟨paths, hresolve, rfl⟩
  | unlink parent name =>
    refine .unchanged hs rfl fun path hpath => ?_
    obtain ⟨paths, hresolve, rfl⟩ := toOption_map_eq_some.mp hpath
    exact absurd (hrefused paths.1 paths.2 hresolve) (hr.names _ (.inr hpath)).2
  | rename parent name newparent newname d =>
    refine .unchanged hs rfl fun old hold hlinked => ?_
    obtain ⟨paths, hrenamed, rfl⟩ := toOption_map_eq_some.mp hold
    rcases hrefused paths.1 paths.2 hrenamed with ⟨err, hget⟩ | hnew
    · obtain ⟨content, hcontent⟩ := hs.exists_get hlinked (hr.names _ (.inr hold)).2
      rw [hcontent] at hget
      cases hget
    · refine (hr.names paths.2 (.inl ?_)).2 hnew
      exact toOption_map_eq_some.mpr ⟨paths, hrenamed, rfl⟩
  | write | flush => exact hrefused.elim
  | _ => exact hr.request.elim

theorem change_create (hE : E.Lossless) (hD : Set.InjOn E.hash256 D)
    (hs : fs.store.Consistent E D) {parent : UInt64} {name : OsName} {mode : UInt32} {d : Draws}
    (hr : (create parent name mode d).Admissible M D N fs) {parentPath path : String}
    (hresolve : fs.store.resolve M parent name = .ok (parentPath, path)) (hpath : path ≠ "")
    {s' : Store} (heff : StoreManager.PutEffect fs.store d path (pathExtension path) false
      (E.pack M.compressed []) s') {reply : Except Errno FsReply} :
    (create parent name mode d).Change E M D fs reply
      { fs with store := s'.setMode path (sIfreg ||| (mode &&& 0o777)) } := by
  obtain ⟨extra, hsound⟩ := hs.sound
  have hpaths : (fs.store.resolve M parent name).toOption.map Prod.snd = some path :=
    toOption_map_eq_some.mpr ⟨_, hresolve, rfl⟩
  have hlinked (name' : String) : (s'.setMode path (sIfreg ||| (mode &&& 0o777))).Linked name' ↔
      name' = path ∨ fs.store.Linked name' := by
    rw [linked_setMode, heff.linked_iff hr.fresh]
  obtain ⟨extra', -, hsound'⟩ := heff.sound hsound hr.fresh
  have hintact' : s'.Intact E D := hs.intact.put hE hr.within hr.fresh heff
  exact {
    consistent := ⟨⟨extra', hsound'.setMode _ _⟩, hintact'⟩
    kept := fun name' hname' _ => (hlinked name').mpr (.inr hname')
    gone := nofun
    new := fun name' hname' => ((hlinked name').mp hname').symm.imp_right
      fun heq : name' = path => heq ▸ hpaths
    buffer := fun _ hbuf => .inl hbuf
    same := fun _ => rfl
    made := fun name' hname' => by
      obtain rfl := Option.some.inj (hpaths.symm.trans hname')
      refine ⟨(hlinked path).mpr (.inl rfl), ?_⟩
      rw [get_setMode]
      exact heff.get_self hE hD hs.intact hsound hr.fresh hr.within hpath }

theorem change_unlink (hs : fs.store.Consistent E D) {parent : UInt64} {name : OsName}
    {parentPath path : String}
    (hresolve : fs.store.resolve M parent name = .ok (parentPath, path)) (hpath : path ≠ "")
    {reply : Except Errno FsReply} :
    (unlink parent name).Change E M D fs reply
      { fs with store := fs.store.deleteAll (fs.store.listed path 0 false false) } := by
  obtain ⟨extra, hsound⟩ := hs.sound
  have hpaths : (fs.store.resolve M parent name).toOption.map Prod.snd = some path :=
    toOption_map_eq_some.mpr ⟨_, hresolve, rfl⟩
  have hlinked := hsound.linked_delete_iff hpath
  exact {
    consistent := ⟨⟨extra, hsound.deleteAll listed_subset nodup_listed⟩,
      hs.intact.deleteAll hsound listed_subset nodup_listed⟩
    kept := fun name' hname' hne =>
      (hlinked name').mpr ⟨hname', fun heq => hne (heq ▸ hpaths)⟩
    gone := fun name' hname' h =>
      ((hlinked name').mp h).2 (Option.some.inj (hname'.symm.trans hpaths))
    new := fun name' hname' => .inl ((hlinked name').mp hname').1
    buffer := fun _ hbuf => .inl hbuf
    same := fun _ => rfl
    made := nofun }

theorem change_rename (hE : E.Lossless) (hs : fs.store.Consistent E D)
    {parent newparent : UInt64} {name newname : OsName} {d : Draws}
    (hr : (rename parent name newparent newname d).Admissible M D N fs) {old new : String}
    (hrenamed : LinaFs.renamed M fs parent name newparent newname = .ok (old, new)) {data : Bytes}
    (hget : fs.store.get E old = .ok data) {s' : Store}
    (heff : StoreManager.PutEffect fs.store d new (pathExtension new) true
      (E.pack M.compressed data) s') {reply : Except Errno FsReply} :
    (rename parent name newparent newname d).Change E M D fs reply
      { fs with store := s'.deleteAll (s'.listed old 0 false false) } := by
  obtain ⟨extra, hsound⟩ := hs.sound
  have hold : (rename parent name newparent newname d).removes M fs = some old :=
    toOption_map_eq_some.mpr ⟨_, hrenamed, rfl⟩
  have hnew : (rename parent name newparent newname d).gives M fs = some new :=
    toOption_map_eq_some.mpr ⟨_, hrenamed, rfl⟩
  obtain ⟨extra', -, hsound'⟩ := heff.sound hsound hr.fresh
  have hintact' := hs.intact.put hE (hs.intact.mem_of_get hget) hr.fresh heff
  have hlinked (name' : String) : (s'.deleteAll (s'.listed old 0 false false)).Linked name' ↔
      (name' = new ∨ fs.store.Linked name') ∧ name' ≠ old := by
    rw [hsound'.linked_delete_iff (hr.names old (.inr hold)).2, heff.linked_iff hr.fresh]
  exact {
    consistent := ⟨⟨extra', hsound'.deleteAll listed_subset nodup_listed⟩,
      hintact'.deleteAll hsound' listed_subset nodup_listed⟩
    kept := fun name' hname' hne =>
      (hlinked name').mpr ⟨.inr hname', fun heq => hne (heq ▸ hold)⟩
    gone := fun name' hname' h =>
      ((hlinked name').mp h).2 (Option.some.inj (hname'.symm.trans hold))
    new := fun name' hname' => ((hlinked name').mp hname').1.symm.imp_right
      fun heq : name' = new => heq ▸ hnew
    buffer := fun _ hbuf => .inl hbuf
    same := fun _ => rfl
    made := nofun }

/-- A request about names. -/
theorem change_of_effect (hE : E.Lossless) (hD : Set.InjOn E.hash256 D)
    (hs : fs.store.Consistent E D) (hr : r.Admissible M D N fs)
    {reply : Except Errno FsReply} (h : r.Effect E M fs reply fs') :
    r.Change E M D fs reply fs' := by
  cases h with
  | refused hrefused => exact change_refused hs hr hrefused
  | create hresolve hpath heff => exact change_create hE hD hs hr hresolve hpath heff
  | symlink => exact hr.request.elim
  | mkdir => exact hr.request.elim
  | rmdir => exact hr.request.elim
  | unlink hresolve hpath => exact change_unlink hs hresolve hpath
  | rename hrenamed hget _ heff => exact change_rename hE hs hr hrenamed hget heff

/-- A write to a file, that may get a buffer by it. -/
theorem change_write (hs : fs.store.Consistent E D) (ino offset : UInt64) (data : Bytes)
    (fits : offset.toNat + data.length < 2 ^ 63) :
    (FsRequest.write ino offset data fits).Change E M D fs
      ((FsRequest.write ino offset data fits).run E M fs).1
      ((FsRequest.write ino offset data fits).run E M fs).2 := by
  rw [FsRequest.run, program, run_bind, LinaFs.run_write M fs ino (StoreCall.regular_serve E)]
  cases hbytes : fs.bytesAt E M .enoent ino with
  | error err => exact .unchanged hs rfl fun _ h => absurd h.symm (Option.some_ne_none _)
  | ok content =>
    refine ⟨hs, fun _ h _ => h, fun _ h => absurd h.symm (Option.some_ne_none _),
      fun _ h => .inl h, fun ino' hbuf => ?_, fun h => h.elim,
      fun _ h => absurd h.symm (Option.some_ne_none _)⟩
    by_cases hino : ino' = ino
    · subst hino
      by_cases hbefore : fs.writeBuf ino' = none
      · refine .inr ?_
        rw [LinaFs.bytesAt, hbefore] at hbytes
        cases hfile : fs.store.fileAt M ino' with
        | none =>
          rw [hfile] at hbytes
          cases hbytes
        | some l => exact ⟨l, offset, data, fits, _, rfl, rfl, rfl⟩
      · exact .inl hbefore
    · dsimp only [run_pure] at hbuf
      rw [LinaFs.writeBuf_setBuffer_of_ne fs ino hino] at hbuf
      exact .inl hbuf

/-- A flush of a file, that has no buffer after it. -/
theorem change_flush (hE : E.Lossless) (hs : fs.store.Consistent E D) {ino : UInt64} {d : Draws}
    (hr : (FsRequest.flush ino d).Admissible M D N fs) :
    (FsRequest.flush ino d).Change E M D fs ((FsRequest.flush ino d).run E M fs).1
      ((FsRequest.flush ino d).run E M fs).2 := by
  obtain ⟨extra, hsound⟩ := hs.sound
  have hbuffer (ino' : UInt64) (hbuf : (fs.setBuffer ino none).writeBuf ino' ≠ none) :
      fs.writeBuf ino' ≠ none := by
    by_cases hino : ino' = ino
    · rw [hino, LinaFs.writeBuf_setBuffer_self] at hbuf
      exact absurd rfl hbuf
    · rwa [LinaFs.writeBuf_setBuffer_of_ne fs ino hino] at hbuf
  -- the buffer is removed, and the names of the files stay
  have hchange {reply : Except Errno FsReply} {s' : Store} (hs' : s'.Consistent E D)
      (hlinked : ∀ name, s'.Linked name ↔ fs.store.Linked name) :
      (FsRequest.flush ino d).Change E M D fs reply { fs.setBuffer ino none with store := s' } :=
    ⟨hs', fun name h _ => (hlinked name).mpr h, nofun, fun name h => .inl ((hlinked name).mp h),
      fun ino' hbuf => .inl (hbuffer ino' hbuf), nofun, nofun⟩
  have hrun : (FsRequest.flush ino d).run E M fs = (do
      LinaFs.writeBack M ino d
      return .ok : FsProg FsReply).run (FsPrim.step (StoreCall.serve E)) fs := rfl
  rw [hrun, run_bind, LinaFs.run_writeBack M fs ino (StoreCall.regular_serve E)]
  cases hbuf : fs.writeBuf ino with
  | none => exact .unchanged hs rfl nofun
  | some data =>
    dsimp only
    cases hfile : fs.store.fileAt M ino with
    | none => exact hchange hs fun _ => .rfl
    | some l =>
      dsimp only
      by_cases hname : l.name = ""
      · have hrefused : StoreCall.serve E (.putBinaryData d l.name data true M.compressed) fs.store =
            (.error .noFilename, fs.store) := by
          rw [hname]
          rfl
        rw [hrefused]
        exact hchange hs fun _ => .rfl
      · obtain ⟨s', heff, hput⟩ :=
          StoreCall.serve_putBinaryData E hsound hr.fresh hname data true M.compressed
        obtain ⟨extra', -, hsound'⟩ := heff.sound hsound hr.fresh
        rw [hput]
        refine hchange ⟨⟨extra', hsound'⟩, hs.intact.put hE (hr.within data hbuf) hr.fresh heff⟩
          fun name => ?_
        rw [heff.linked_iff hr.fresh]
        exact or_iff_right_of_imp fun heq => heq ▸ linked_of_mem (mem_of_fileAt hfile).1

/-- An admissible request. -/
theorem run_change (hE : E.Lossless) (hD : Set.InjOn E.hash256 D) (hs : fs.store.Consistent E D)
    (hr : r.Admissible M D N fs) : r.Change E M D fs (r.run E M fs).1 (r.run E M fs).2 := by
  obtain ⟨extra, hsound⟩ := hs.sound
  cases r with
  | write ino offset data fits => exact change_write hs ino offset data fits
  | flush ino d => exact change_flush hE hs hr
  | create | unlink | rename =>
    exact change_of_effect hE hD hs hr (run_effect hsound trivial hr.fresh)
  | _ => exact hr.request.elim

/-! ### Ownership -/

/-- Buffers stay owned if the files that lose their names have none. -/
theorem Change.owned (h : r.Change E M D fs (r.run E M fs).1 (r.run E M fs).2)
    (howned : fs.Owned M before)
    (hclear : ∀ name, r.removes M fs = some name → fs.writeBuf (M.fileIno name) = none) :
    (r.run E M fs).2.Owned M (r.written E M fs before) := by
  intro ino data hbuf
  rcases h.buffer ino (by rw [hbuf]; exact Option.some_ne_none _) with hbefore | hwrite
  · obtain ⟨data', hdata'⟩ := Option.ne_none_iff_exists'.mp hbefore
    obtain ⟨name, hname, hlinked, rfl⟩ := howned ino data' hdata'
    have hafter := h.kept name hlinked fun hremoves => hbefore (hclear name hremoves)
    exact ⟨name, ⟨.inl hname, hlinked, hafter⟩, hafter, rfl⟩
  · obtain ⟨l, offset, bytes, fits, n, hfile, hr, hreply⟩ := hwrite
    obtain ⟨hl, rfl⟩ := mem_of_fileAt hfile
    have hafter := h.kept l.name (linked_of_mem hl) (by rw [hr]; exact nofun)
    exact ⟨l.name, ⟨.inr ⟨offset, bytes, fits, n, hr, hreply⟩, linked_of_mem hl, hafter⟩, hafter, rfl⟩

/-- The names keep to `N`. -/
theorem Change.names (h : r.Change E M D fs (r.run E M fs).1 (r.run E M fs).2)
    (hr : r.Admissible M D N fs) (hN : ∀ name, fs.store.Linked name → name ∈ N) (name : String)
    (hname : (r.run E M fs).2.store.Linked name) : name ∈ N :=
  (h.new name hname).elim (hN name) fun hgives => (hr.names name (.inl hgives)).1

/-- A request keeps the buffers owned, and a file it makes is empty, if and only if it is about
    files without unsaved bytes. -/
theorem keepsOwned_iff (h : r.Change E M D fs (r.run E M fs).1 (r.run E M fs).2)
    (hr : r.Admissible M D N fs) (hino : Set.InjOn M.fileIno N)
    (hN : ∀ name, fs.store.Linked name → name ∈ N) (howned : fs.Owned M before) :
    r.KeepsOwned E M fs before ↔ r.Clear M fs := by
  have htells : M.Tells (r.run E M fs).2.store := fun name₁ h₁ name₂ h₂ =>
    hino (h.names hr hN name₁ h₁) (h.names hr hN name₂ h₂)
  -- a file that was made is read from its buffer, or is empty
  have hread (name : String) (hmakes : r.makes M fs = some name) (offset : UInt64) (size : UInt32) :
      ((FsRequest.read (M.fileIno name) offset size).run E M (r.run E M fs).2).1 =
        .ok (.data (Flat.slice 0 ((fs.writeBuf (M.fileIno name)).getD []) offset.toNat size.toNat)) := by
    have hsame : (r.run E M fs).2.writeBuf = fs.writeBuf := h.same (by
      cases r with
      | create => trivial
      | _ => cases hmakes)
    obtain ⟨hlinked, hget⟩ := h.made name hmakes
    rw [FsRequest.run, program, run_bind, LinaFs.run_read M _ _ (StoreCall.regular_serve E),
      htells.bytesAt hlinked, hsame, hget]
    cases fs.writeBuf (M.fileIno name) <;> rfl
  constructor
  · intro hkeeps
    constructor
    · intro name hremoves
      by_contra hbuf
      obtain ⟨data, hdata⟩ := Option.ne_none_iff_exists'.mp hbuf
      have hsame : (r.run E M fs).2.writeBuf = fs.writeBuf := h.same (by
        cases r with
        | unlink | rename => trivial
        | _ => cases hremoves)
      obtain ⟨name', -, hlinked, hino'⟩ := hkeeps.owned _ data (by rw [hsame, hdata])
      have heq := hino (h.names hr hN name' hlinked) (hr.names name (.inr hremoves)).1 hino'
      exact h.gone name hremoves (heq ▸ hlinked)
    · intro name data hmakes hdata
      -- a read of one byte tells
      have hempty := hkeeps.empty name hmakes 0 1
      rw [hread name hmakes, hdata, Option.getD_some] at hempty
      have hnil : Flat.slice 0 data 0 1 = [] := by
        injection hempty with hempty
        injection hempty
      have hlength := congrArg List.length hnil
      rw [Flat.length_slice, List.length_nil] at hlength
      exact List.eq_nil_of_length_eq_zero (by omega)
  · intro hclear
    refine ⟨h.owned howned hclear.removed, fun name hmakes offset size => ?_⟩
    rw [hread name hmakes]
    have hnil : (fs.writeBuf (M.fileIno name)).getD [] = [] := by
      cases hbuf : fs.writeBuf (M.fileIno name) with
      | none => rfl
      | some data => exact hclear.made name data hmakes hbuf
    have hslice : Flat.slice (0 : UInt8) [] offset.toNat size.toNat = [] :=
      List.eq_nil_of_length_eq_zero (by rw [Flat.length_slice, List.length_nil]; omega)
    rw [hnil, hslice]

end FsRequest

/-- In a run in which a file is removed or renamed only when it has no buffer, and made only when
    it has none with bytes in it, every buffer is that of a file that is there and was written
    since its link was made. In every state of such a run a request keeps it so, and a file that it
    makes is empty, if and only if it meets the condition. -/
theorem buffers_owned_iff {E : Engine} {M : Mount} {D : Set Bytes} {N : Set String} {fs : LinaFs}
    {before : Set String} (hE : E.Lossless) (hD : Set.InjOn E.hash256 D)
    (hino : Set.InjOn M.fileIno N) (h : BufferRun E M D N (fun r fs => r.Clear M fs) fs before) :
    fs.Owned M before ∧ ∀ r : FsRequest, r.Admissible M D N fs →
      (r.KeepsOwned E M fs before ↔ r.Clear M fs) := by
  have hstate : fs.store.Consistent E D ∧ (∀ name, fs.store.Linked name → name ∈ N) ∧
      fs.Owned M before := by
    induction h with
    | start hs hN => exact ⟨hs, hN, nofun⟩
    | step r _ hr hclear ih =>
      obtain ⟨hs, hN, howned⟩ := ih
      have hchange := FsRequest.run_change hE hD hs hr
      exact ⟨hchange.consistent, hchange.names hr hN, hchange.owned howned hclear.removed⟩
  obtain ⟨hs, hN, howned⟩ := hstate
  exact ⟨howned, fun r hr =>
    FsRequest.keepsOwned_iff (FsRequest.run_change hE hD hs hr) hr hino hN howned⟩

theorem Store.consistent_sample {D : Set Bytes} (hD : [1] ∈ D) :
    Store.sample.Consistent .plain D :=
  (Reachable.call (.put (.sample 0) "a" [1] false false) .empty ⟨rfl, rfl⟩ hD).consistent
    Engine.lossless_plain

/-- A file is written, flushed and renamed; a file with its old name is made, and written. The file
    that was renamed may now be removed, the new one may not. -/
theorem buffers_owned_iff_renamed :
    ∃ fs before, BufferRun .plain .sample {[], [1], [2]} {"a", "b"} (fun r fs => r.Clear .sample fs)
        fs before ∧
      fs.writeBuf (Mount.sample.fileIno "a") = some [1] ∧ fs.store.get .plain "b" = .ok [2] ∧
      fs.Owned .sample before ∧
      (FsRequest.unlink rootIno (.str "b")).KeepsOwned .plain .sample fs before ∧
      ¬(FsRequest.unlink rootIno (.str "a")).KeepsOwned .plain .sample fs before := by
  have hstart : BufferRun .plain .sample {[], [1], [2]} {"a", "b"} (fun r fs => r.Clear .sample fs)
      ⟨.sample, fun _ => none⟩ ∅ :=
    .start (Store.consistent_sample (.inr (.inl rfl)))
      fun name h => .inl ((Store.linked_sample_iff name).mp h)
  have hwrite := hstart.step (.write (Mount.sample.fileIno "a") 0 [2] (by decide))
    ⟨trivial, trivial, trivial, by rintro name (h | h) <;> cases h⟩ ⟨nofun, nofun⟩
  have hflush := hwrite.step (.flush (Mount.sample.fileIno "a") (.sample 1))
    ⟨trivial, ⟨rfl, rfl⟩, fun data h => Option.some.inj h ▸ .inr (.inr rfl),
      by rintro name (h | h) <;> cases h⟩ ⟨nofun, nofun⟩
  have hrename := hflush.step (.rename rootIno (.str "a") rootIno (.str "b") (.sample 1))
    ⟨trivial, ⟨rfl, rfl⟩, trivial, by
      rintro name (h | h) <;> cases h
      · exact ⟨.inr rfl, by decide⟩
      · exact ⟨.inl rfl, by decide⟩⟩
    ⟨fun name h => by cases h; rfl, nofun⟩
  have hcreate := hrename.step (.create rootIno (.str "a") 0o644 (.sample 2))
    ⟨trivial, ⟨rfl, rfl⟩, .inl rfl, by
      rintro name (h | h) <;> cases h
      exact ⟨.inl rfl, by decide⟩⟩
    ⟨nofun, fun name data h hbuf => by cases h; cases hbuf⟩
  have hagain := hcreate.step (.write (Mount.sample.fileIno "a") 0 [1] (by decide))
    ⟨trivial, trivial, trivial, by rintro name (h | h) <;> cases h⟩ ⟨nofun, nofun⟩
  have hino : Set.InjOn Mount.sample.fileIno {"a", "b"} := by
    rintro _ (rfl | rfl) _ (rfl | rfl) heq
    · rfl
    · exact absurd heq (by decide)
    · exact absurd heq (by decide)
    · rfl
  obtain ⟨howned, hiff⟩ :=
    buffers_owned_iff Engine.lossless_plain injOn_hash256_plain hino hagain
  refine ⟨_, _, hagain, rfl, rfl, howned, ?_, ?_⟩
  · refine (hiff (.unlink rootIno (.str "b")) ⟨trivial, trivial, trivial, ?_⟩).mpr
      ⟨fun name h => by cases h; rfl, nofun⟩
    rintro name (h | h) <;> cases h
    exact ⟨.inr rfl, by decide⟩
  · refine fun hkeeps => ?_
    have hclear := (hiff (.unlink rootIno (.str "a")) ⟨trivial, trivial, trivial, ?_⟩).mp hkeeps
    · cases hclear.removed "a" rfl
    · rintro name (h | h) <;> cases h
      exact ⟨.inl rfl, by decide⟩

/-- A file is written and removed: its buffer stays. A new file with its name has the bytes of the
    old one. -/
theorem buffer_outlives_file :
    ∃ fs before attr fs', BufferRun .plain .sample {[], [1], [2]} {"a"} (fun _ _ => True) fs before ∧
      ¬fs.store.Linked "a" ∧ fs.writeBuf (Mount.sample.fileIno "a") = some [2] ∧
      (FsRequest.create rootIno (.str "a") 0o644 (.sample 1)).run .plain .sample fs =
        (.ok (.attr attr), fs') ∧
      ((FsRequest.read (Mount.sample.fileIno "a") 0 1).run .plain .sample fs').1 =
        .ok (.data [2]) := by
  have h : BufferRun .plain .sample {[], [1], [2]} {"a"} (fun _ _ => True) .sample _ :=
    .step (.write (Mount.sample.fileIno "a") 0 [2] (by decide))
      (.start (Store.consistent_sample (.inr (.inl rfl)))
        fun name h => (Store.linked_sample_iff name).mp h)
      ⟨trivial, trivial, trivial, by rintro name (h | h) <;> cases h⟩ trivial
  have h' : BufferRun .plain .sample {[], [1], [2]} {"a"} (fun _ _ => True) _ _ :=
    .step (.unlink rootIno (.str "a")) h
      ⟨trivial, trivial, trivial, by rintro name (h | h) <;> cases h; exact ⟨rfl, by decide⟩⟩ trivial
  refine ⟨_, _, _, _, h', ?_, rfl, rfl, rfl⟩
  rintro ⟨l, hl, -⟩
  exact List.not_mem_nil hl

end LiNaStore
