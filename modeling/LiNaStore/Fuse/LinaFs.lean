import LiNaStore.Base.Recovery
import LiNaStore.Library.Flat
import LiNaStore.Library.Utf8

/-!
# The file system

`LinaFs` shows a store as a file system. The kernel addresses a file by a number, its *inode*,
which the file system takes from a hash of the name of the file (`Mount.fileIno`): it keeps no
table, but looks through all links for one with the inode asked for (`linkAt`). A directory is
a row of its own table, and has an inode as well (`Mount.dirIno`).

What is written to a file goes to its *write buffer*, which is the content of the file from
then on, until it is flushed: then the buffer is removed, and its bytes are put into the store.

The operations are programs of two kinds of primitives (`FsPrim`), calls of the store
(`StoreCall`) and accesses to the buffers; how the calls of the store end is a parameter of what
the primitives do (`FsPrim.step`). Errors of the store are values here, since no operation
passes one on: it answers with an error number (`Errno`).
-/

namespace LiNaStore

open Program

/-! ## Inodes, modes and attributes -/

/-- What a file system is mounted with: the hasher of inodes, a function of the bytes it is fed
    with, and whether contents are stored compressed. -/
structure Mount where
  hash : Bytes → UInt64
  compressed : Bool

/-- The inode of the root. -/
def rootIno : UInt64 := 1

/-- What a string feeds to a hasher. -/
def hashed (text : String) : Bytes := utf8 text ++ [0xff]

/-- The hash, unless it is reserved. -/
def unreserved (ino : UInt64) : UInt64 := if ino = 0 ∨ ino = rootIno then ino ^^^ 0xDEAD else ino

/-- The inode of the file with a name. -/
def Mount.fileIno (M : Mount) (name : String) : UInt64 := unreserved (M.hash (hashed name))

/-- The inode of the directory at a path. -/
def Mount.dirIno (M : Mount) (dirPath : String) : UInt64 :=
  unreserved (M.hash (hashed "d:" ++ hashed dirPath))

inductive FileType
  | regularFile
  | directory
  | symlink
  deriving DecidableEq, Repr

/-- A length that a file can have: the kernel has no offsets beyond, and a vector has not so many
    bytes. -/
structure FileSize where
  val : UInt64
  lt : val.toNat < 2 ^ 63

/-- The attributes of a file, but for those that are the same for all files. -/
structure FileAttr where
  ino : UInt64
  size : ℕ
  blocks : ℕ
  kind : FileType
  perm : UInt16
  nlink : ℕ
  deriving DecidableEq

def makeAttr (ino : UInt64) (size : ℕ) (kind : FileType) (perm : UInt16) : FileAttr :=
  ⟨ino, size, (size + 511) / 512, kind, perm, if kind = .directory then 2 else 1⟩

def sIfmt : UInt32 := 0o170000

def sIfreg : UInt32 := 0o100000

def sIflnk : UInt32 := 0o120000

def sIfdir : UInt32 := 0o040000

def modeFile : UInt32 := sIfreg ||| 0o644

def modeSymlink : UInt32 := sIflnk ||| 0o777

def kindFromMode (mode : UInt32) : FileType :=
  if mode ≥ sIfreg then
    if mode &&& sIfmt = sIflnk then .symlink
    else if mode &&& sIfmt = sIfdir then .directory
    else .regularFile
  else .regularFile

def permFromMode (mode : UInt32) : UInt16 := (mode &&& 0o777).toUInt16

/-! ## Primitives -/

/-- The error numbers of the replies. -/
inductive Errno
  | enoent
  | einval
  | eio
  | enotempty
  deriving DecidableEq, Repr

/-- The calls of the store. -/
inductive StoreCall
  | list (pattern : String) (n : ℕ) (isext useRegex : Bool)
  | getBinaryData (fileName : String)
  | putBinaryData (d : Draws) (fileName : String) (input : Bytes) (cover compressed : Bool)
  | delete (pattern : String) (useRegx : Bool)
  | setFileMode (name : String) (mode : UInt32)
  | isDir (path : String)
  | listChildDirs (parent : String)
  | allDirs
  | mkdir (path parent : String)
  | rmdir (path : String)
  | setDirMode (path : String) (mode : UInt32)

/-- What a call answers. -/
abbrev StoreCall.Ans : StoreCall → Type
  | list .. => List Link
  | getBinaryData .. => Bytes
  | isDir .. => Bool
  | listChildDirs .. | allDirs => List DirEntry
  | _ => Unit

/-- The program of a call. -/
def StoreCall.program (E : Engine) : (c : StoreCall) → Prog c.Ans
  | list pattern n isext useRegex => StoreManager.list pattern n isext useRegex
  | getBinaryData fileName => StoreManager.getBinaryData E fileName
  | putBinaryData d fileName input cover compressed =>
    StoreManager.putBinaryData E d fileName input cover compressed
  | delete pattern useRegx => StoreManager.delete pattern useRegx
  | setFileMode name mode => StoreManager.setFileMode name mode
  | isDir path => StoreManager.isDir path
  | listChildDirs parent => StoreManager.listChildDirs parent
  | allDirs => StoreManager.allDirs
  | mkdir path parent => StoreManager.mkdir path parent
  | rmdir path => StoreManager.rmdir path
  | setDirMode path mode => StoreManager.setDirMode path mode

/-- How calls of the store end. -/
abbrev Serve := (c : StoreCall) → Store → Except StoreError c.Ans × Store

/-- Calls of the store all of whose primitives succeed. -/
def StoreCall.serve (E : Engine) : Serve := fun c s => (c.program E).run Prim.step s

/-- What an operation of the file system can do. -/
inductive FsPrim
  | store (c : StoreCall)
  /-- The buffer of a file. -/
  | buffer (ino : UInt64)
  | insertBuffer (ino : UInt64) (data : Bytes)
  /-- Remove a buffer, and answer with what it was. -/
  | removeBuffer (ino : UInt64)

/-- What a primitive answers. -/
abbrev FsPrim.Res : FsPrim → Type
  | store c => Except StoreError c.Ans
  | buffer .. | removeBuffer .. => Option Bytes
  | insertBuffer .. => Unit

/-- Programs of the file system. -/
abbrev FsProg := Program Errno FsPrim.Res

/-- The program of one primitive. -/
abbrev invoke (p : FsPrim) : FsProg p.Res := perform p

/-- The state of a file system. -/
structure LinaFs where
  store : Store
  writeBuf : UInt64 → Option Bytes

namespace LinaFs

/-- Mount a store, which is opened first. -/
def new (listing : Listing) (s : Store) : Except StoreError LinaFs :=
  match (StoreManager.new listing).run Prim.step s with
  | (.ok (), store) => .ok ⟨store, fun _ => none⟩
  | (.error err, _) => .error err

/-- The file system with another buffer for a file. -/
def setBuffer (fs : LinaFs) (ino : UInt64) (data : Option Bytes) : LinaFs :=
  { fs with writeBuf := Function.update fs.writeBuf ino data }

end LinaFs

/-- What the primitives do, the calls of the store ending as given. -/
def FsPrim.step (serve : Serve) : (p : FsPrim) → LinaFs → Except Errno p.Res × LinaFs
  | store c, fs => (.ok (serve c fs.store).1, { fs with store := (serve c fs.store).2 })
  | buffer ino, fs => (.ok (fs.writeBuf ino), fs)
  | insertBuffer ino data, fs => (.ok (), fs.setBuffer ino (some data))
  | removeBuffer ino, fs => (.ok (fs.writeBuf ino), fs.setBuffer ino none)

/-! ## Operations -/

/-- The list, or an empty one. -/
def unwrapOrDefault {α : Type} : Except StoreError (List α) → List α
  | .ok l => l
  | .error _ => []

namespace LinaFs

def allFiles : FsProg (List Link) := do
  return unwrapOrDefault (← invoke (.store (.list "*" 0 false true)))

variable (M : Mount)

def resolveDirPath (ino : UInt64) : FsProg (Option String) := do
  let dirs := unwrapOrDefault (← invoke (.store .allDirs))
  return (dirs.find? fun dir => M.dirIno dir.path = ino).map DirEntry.path

/-- The first link with an inode. -/
def linkAt (ino : UInt64) : FsProg (Option Link) := do
  return (← allFiles).find? fun link => M.fileIno link.name = ino

/-- The name as text, if it is. -/
def toStr : OsName → Option String
  | .str text => some text
  | .other _ => none

/-- The path of a name in a directory. -/
def fullPath (parentPath name : String) : String :=
  if parentPath = "" then name else parentPath ++ "/" ++ name

/-- The path of the directory with an inode. -/
def parentPath (parent : UInt64) : FsProg String := do
  if parent = rootIno then return ""
  else
    let some path ← resolveDirPath M parent | fail .enoent
    return path

/-- The path of a directory and that of a name in it. -/
def resolve (parent : UInt64) (name : OsName) : FsProg (String × String) := do
  let parentPath ← parentPath M parent
  let some nameStr := toStr name | fail .einval
  return (parentPath, fullPath parentPath nameStr)

/-- Write a content to the store. -/
def putBinaryData (d : Draws) (name : String) (data : Bytes) (cover : Bool) :
    FsProg (Except StoreError Unit) :=
  invoke (.store (.putBinaryData d name data cover M.compressed))

/-! ### Attributes -/

/-- Change the mode of a directory. -/
def setattrDir (dir : DirEntry) (ino : UInt64) (mode : Option UInt32) : FsProg FileAttr := do
  match mode with
  | some m =>
    let newMode := (dir.mode &&& sIfmt) ||| (m &&& 0o777)
    let _ ← invoke (.store (.setDirMode dir.path newMode))
    return makeAttr ino 0 .directory (permFromMode newMode)
  | none => return makeAttr ino 0 .directory (permFromMode dir.mode)

/-- The content of a file with another length. A buffer is changed as well. -/
def truncated (ino : UInt64) (name : String) (newSize : FileSize) : FsProg Bytes := do
  match ← invoke (.buffer ino) with
  | some data =>
    invoke (.insertBuffer ino (Flat.resize 0 data newSize.val.toNat))
    return Flat.resize 0 data newSize.val.toNat
  | none =>
    match ← invoke (.store (.getBinaryData name)) with
    | .ok data => return Flat.resize 0 data newSize.val.toNat
    | .error _ => fail .eio

/-- Change the length of a file. -/
def setattrSize (ino : UInt64) (name : String) (size : Option FileSize) (d : Draws) :
    FsProg Unit := do
  match size with
  | some newSize =>
    let truncated ← truncated ino name newSize
    match ← putBinaryData M d name truncated true with
    | .ok _ => return ()
    | .error _ => fail .eio
  | none => return ()

/-- Change the mode of a file. -/
def setattrMode (name : String) (fileMode : UInt32) (mode : Option UInt32) : FsProg UInt32 := do
  match mode with
  | some m =>
    let newMode := (fileMode &&& sIfmt) ||| (m &&& 0o777)
    let _ ← invoke (.store (.setFileMode name newMode))
    return newMode
  | none => return fileMode

/-- The length of a file: that of its buffer, or of its content in the store. -/
def dataLen (ino : UInt64) (name : String) : FsProg ℕ := do
  match ← invoke (.buffer ino) with
  | some data => return data.length
  | none =>
    match ← invoke (.store (.getBinaryData name)) with
    | .ok data => return data.length
    | .error _ => return 0

/-- Change the attributes of a file. -/
def setattrFile (ino : UInt64) (name : String) (mode : Option UInt32) (size : Option FileSize)
    (d : Draws) : FsProg FileAttr := do
  setattrSize M ino name size d
  let link ← linkAt M ino
  let fileMode ← setattrMode name (link.elim modeFile Link.mode) mode
  let len ← dataLen ino name
  return makeAttr ino len (kindFromMode fileMode) (permFromMode fileMode)

/-- Directories are looked for before files. -/
def setattr (ino : UInt64) (mode : Option UInt32) (size : Option FileSize) (d : Draws) :
    FsProg FileAttr := do
  if ino = rootIno then return makeAttr rootIno 0 .directory (mode.getD 0o755).toUInt16
  else
    let dirs := unwrapOrDefault (← invoke (.store .allDirs))
    match dirs.find? fun dir => M.dirIno dir.path = ino with
    | some dir => setattrDir dir ino mode
    | none =>
      let some file ← linkAt M ino | fail .enoent
      setattrFile M ino file.name mode size d

/-! ### Contents -/

/-- The part of a content that is asked for. -/
def chunk (data : Bytes) (start size : ℕ) : Bytes :=
  if start ≥ data.length then [] else Flat.range data start (min (start + size) data.length)

/-- The content of a file: its buffer, or what the store has; `err` if that cannot be read. -/
def content (err : Errno) (ino : UInt64) : FsProg Bytes := do
  match ← invoke (.buffer ino) with
  | some data => return data
  | none =>
    let some link ← linkAt M ino | fail .enoent
    match ← invoke (.store (.getBinaryData link.name)) with
    | .ok data => return data
    | .error _ => fail err

def read (ino offset : UInt64) (size : UInt32) : FsProg Bytes := do
  return chunk (← content M .eio ino) offset.toNat size.toNat

/-- A file without a buffer gets one, with its content. The sums are those of the code for requests
    of the kernel (`FsRequest.write`): there they are lengths that a vector can have. -/
def write (ino offset : UInt64) (data : Bytes) : FsProg UInt32 := do
  let entry ← content M .enoent ino
  let off := offset.toNat
  let entry :=
    if off + data.length > entry.length then Flat.resize 0 entry (off + data.length)
    else entry
  invoke (.insertBuffer ino (Flat.copyAt entry off data))
  return .ofNat data.length

/-- Remove the buffer of a file and put its bytes into the store. -/
def writeBack (ino : UInt64) (d : Draws) : FsProg Unit := do
  match ← invoke (.removeBuffer ino) with
  | some data =>
    let some link ← linkAt M ino | fail .enoent
    match ← putBinaryData M d link.name data true with
    | .ok _ => return ()
    | .error _ => fail .eio
  | none => return ()

def flush (ino : UInt64) (d : Draws) : FsProg Unit := writeBack M ino d

def fsync (ino : UInt64) (d : Draws) : FsProg Unit := writeBack M ino d

def release (ino : UInt64) (flushCalled : Bool) (d : Draws) : FsProg Unit := do
  if flushCalled then
    let _ ← invoke (.removeBuffer ino)
    return ()
  else writeBack M ino d

/-! ### Names -/

/-- Make a file with a content and a mode. -/
def makeFile (d : Draws) (fullPath : String) (data : Bytes) (mode : UInt32) : FsProg Unit := do
  match ← putBinaryData M d fullPath data false with
  | .ok _ =>
    let _ ← invoke (.store (.setFileMode fullPath mode))
    return ()
  | .error _ => fail .eio

def create (parent : UInt64) (name : OsName) (mode : UInt32) (d : Draws) : FsProg FileAttr := do
  let mode := sIfreg ||| (mode &&& 0o777)
  let (_, fullPath) ← resolve M parent name
  makeFile M d fullPath [] mode
  return makeAttr (M.fileIno fullPath) 0 (kindFromMode mode) (permFromMode mode)

def symlink (parent : UInt64) (name link : OsName) (d : Draws) : FsProg FileAttr := do
  let (_, fullPath) ← resolve M parent name
  let some target := toStr link | fail .einval
  makeFile M d fullPath (utf8 target) modeSymlink
  return makeAttr (M.fileIno fullPath) (utf8 target).length .symlink 0o777

def mkdir (parent : UInt64) (name : OsName) (mode : UInt32) : FsProg FileAttr := do
  let mode := sIfdir ||| (mode &&& 0o777)
  let (parentPath, dirPath) ← resolve M parent name
  match ← invoke (.store (.mkdir dirPath parentPath)) with
  | .ok _ =>
    let _ ← invoke (.store (.setDirMode dirPath mode))
    return makeAttr (M.dirIno dirPath) 0 .directory (permFromMode mode)
  | .error _ => fail .eio

def rmdir (parent : UInt64) (name : OsName) : FsProg Unit := do
  let (_, dirPath) ← resolve M parent name
  let childDirs := unwrapOrDefault (← invoke (.store (.listChildDirs dirPath)))
  if ¬ childDirs.isEmpty then fail .enotempty
  else
    let files ← allFiles
    if files.any fun link => (dirPath ++ "/").toList.isPrefixOf link.name.toList then
      fail .enotempty
    else
      match ← invoke (.store (.rmdir dirPath)) with
      | .ok _ => return ()
      | .error _ => fail .enoent

def unlink (parent : UInt64) (name : OsName) : FsProg Unit := do
  let (_, fullPath) ← resolve M parent name
  match ← invoke (.store (.delete fullPath false)) with
  | .ok _ => return ()
  | .error _ => fail .enoent

/-- Both directories are resolved before the names are looked at. -/
def rename (parent : UInt64) (name : OsName) (newparent : UInt64) (newname : OsName) (d : Draws) :
    FsProg Unit := do
  let oldParentPath ← parentPath M parent
  let newParentPath ← parentPath M newparent
  let some oldName := toStr name | fail .einval
  let some newName := toStr newname | fail .einval
  match ← invoke (.store (.getBinaryData (fullPath oldParentPath oldName))) with
  | .ok data =>
    match ← putBinaryData M d (fullPath newParentPath newName) data true with
    | .ok _ =>
      let _ ← invoke (.store (.delete (fullPath oldParentPath oldName) false))
      return ()
    | .error _ => fail .eio
  | .error _ => fail .enoent

end LinaFs

/-! ## Requests -/

/-- A request of the kernel, with what the store draws for it. What is written ends at an offset
    that the kernel has. -/
inductive FsRequest
  | setattr (ino : UInt64) (mode : Option UInt32) (size : Option FileSize) (d : Draws)
  | read (ino offset : UInt64) (size : UInt32)
  | write (ino offset : UInt64) (data : Bytes) (fits : offset.toNat + data.length < 2 ^ 63)
  | flush (ino : UInt64) (d : Draws)
  | fsync (ino : UInt64) (d : Draws)
  | release (ino : UInt64) (flushCalled : Bool) (d : Draws)
  | create (parent : UInt64) (name : OsName) (mode : UInt32) (d : Draws)
  | symlink (parent : UInt64) (name link : OsName) (d : Draws)
  | mkdir (parent : UInt64) (name : OsName) (mode : UInt32)
  | rmdir (parent : UInt64) (name : OsName)
  | unlink (parent : UInt64) (name : OsName)
  | rename (parent : UInt64) (name : OsName) (newparent : UInt64) (newname : OsName) (d : Draws)

/-- What the reply to a request holds. -/
inductive FsReply
  | ok
  | data (bytes : Bytes)
  | written (n : UInt32)
  | attr (attr : FileAttr)
  deriving DecidableEq

namespace FsRequest

/-- The operation of a request. -/
def program (M : Mount) : FsRequest → FsProg FsReply
  | setattr ino mode size d => do return .attr (← LinaFs.setattr M ino mode size d)
  | read ino offset size => do return .data (← LinaFs.read M ino offset size)
  | write ino offset data _ => do return .written (← LinaFs.write M ino offset data)
  | flush ino d => do
    LinaFs.flush M ino d
    return .ok
  | fsync ino d => do
    LinaFs.fsync M ino d
    return .ok
  | release ino flushCalled d => do
    LinaFs.release M ino flushCalled d
    return .ok
  | create parent name mode d => do return .attr (← LinaFs.create M parent name mode d)
  | symlink parent name link d => do return .attr (← LinaFs.symlink M parent name link d)
  | mkdir parent name mode => do return .attr (← LinaFs.mkdir M parent name mode)
  | rmdir parent name => do
    LinaFs.rmdir M parent name
    return .ok
  | unlink parent name => do
    LinaFs.unlink M parent name
    return .ok
  | rename parent name newparent newname d => do
    LinaFs.rename M parent name newparent newname d
    return .ok

/-- The identifiers drawn for the request are new in a store. -/
def Fresh : FsRequest → Store → Prop
  | setattr _ _ _ d, s | flush _ d, s | fsync _ d, s | release _ _ d, s | create _ _ _ d, s
  | symlink _ _ _ d, s | rename _ _ _ _ d, s => d.Fresh s
  | _, _ => True

/-- The reply to a request, and the state after it, if the calls of the store succeed. -/
def run (E : Engine) (M : Mount) (r : FsRequest) (fs : LinaFs) : Except Errno FsReply × LinaFs :=
  (r.program M).run (FsPrim.step (StoreCall.serve E)) fs

end FsRequest

end LiNaStore
