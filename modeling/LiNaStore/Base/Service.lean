import LiNaStore.Base.Store

/-!
# The operations of a store

The operations of `StoreManager` as programs of primitives. Each is written the
way its source is: in the same order, with the same compensations when a
primitive fails (`Program.orUndo`), so that a run of the program is a run of the
source, a crash cuts it between two primitives and a fault makes one of them
fail.

What an operation draws at random is an argument (`Draws`), and so is the order
in which the file system lists a directory (`Listing`). The work done outside of
the lock, hashing and compressing before it and decompressing after it, is not
part of the locked programs (`putBinaryDataLocked`, `readStored`).
-/

namespace LiNaStore

open Program

/-- What one call of `put_binary_data` draws: the identifiers of a new source, of
    a new link, of a temporary file and of the temporary file of a compensation. -/
structure Draws where
  sourceId : SourceId
  linkId : String
  tmpId : String
  undoTmpId : String

/-- Draws of three calls, all different. -/
def Draws.sample : ℕ → Draws
  | 0 => ⟨⟨"20240101000000aaaaaaaa", by decide, List.all_eq_true.mp (by decide)⟩,
      "link-a", "tmp-a", "undo-a"⟩
  | 1 => ⟨⟨"20240101000000bbbbbbbb", by decide, List.all_eq_true.mp (by decide)⟩,
      "link-b", "tmp-b", "undo-b"⟩
  | _ => ⟨⟨"20240101000000cccccccc", by decide, List.all_eq_true.mp (by decide)⟩,
      "link-c", "tmp-c", "undo-c"⟩

/-- The order in which the file system lists a directory: any. -/
structure Listing where
  /-- The entries of a directory, in order. -/
  order : Path → List (OsName × Bool) → List (OsName × Bool)
  /-- They are its entries. -/
  perm : ∀ dir entries, (order dir entries).Perm entries

/-- The listing in the order the files were created. -/
def Listing.byAge : Listing := ⟨fun _ entries => entries, fun _ _ => .refl _⟩

/-- The bytes a content is stored as. -/
def Engine.encodeContent (E : Engine) (compressed : Bool) (input : Bytes) : Except StoreError Bytes :=
  if compressed then E.compressAll input else .ok input

/-- The content that bytes are the stored form of. -/
def Engine.decodeContent (E : Engine) (compressed : Bool) (size : ℕ) (bytes : Bytes) :
    Except StoreError Bytes :=
  if compressed then E.decompressAll bytes size else .ok bytes

/-- What a read makes of what it took: the content, if its hash is the one of the
    row. -/
def Engine.verify (E : Engine) (st : Stored) : Except StoreError Bytes := do
  let content ← E.decodeContent st.compressed st.size st.bytes
  if E.hash256 content ≠ st.hash256 then .error .integrityCheckFailed else .ok content

namespace StoreManager

/-! ## Files -/

/-- Write a payload: to a temporary file first, which then gets its name. -/
def persistSourceBytes (sourceId : SourceId) (bytes : Bytes) (tmpId : String) : Prog Unit := do
  exec (.createDirAll sourceId.sourceDir)
  exec (.createFile (sourceId.tmpPath tmpId))
  exec (.writeAll (sourceId.tmpPath tmpId) bytes)
  exec (.syncAll (sourceId.tmpPath tmpId))
  (exec (.rename (sourceId.tmpPath tmpId) sourceId.sourcePath)).orUndo
    (exec (.removeFile (sourceId.tmpPath tmpId)))

/-- Remove a payload; it need not be there. -/
def removeSourceFileIfExists (sourceId : SourceId) : Prog Unit := do
  match ← (exec (.removeFile sourceId.sourcePath)).attempt with
  | .ok _ => pure ()
  | .error .noSuchFile => pure ()
  | .error err => fail err

/-! ## Reading -/

/-- The links a pattern stands for. -/
def listLocked (pattern : String) (n : ℕ) (isext useRegex : Bool) : Prog (List Link) :=
  if isext then exec (.getLinksByExt pattern)
  else if (pattern = "" ∨ pattern = "*") ∧ useRegex then exec (.getNLinks n)
  else if '*' ∈ pattern.toList ∧ useRegex then
    exec (.getLinksByName (.ofList (pattern.toList.map fun c => if c = '*' then '%' else c)) true)
  else exec (.getLinksByName pattern false)

/-- List the links a pattern stands for. -/
def list (pattern : String) (n : ℕ) (isext useRegex : Bool) : Prog (List Link) :=
  listLocked pattern n isext useRegex

/-- The part of `get_binary_data` under the lock. -/
def readStored (fileName : String) : Prog Stored := do
  let link :: _ ← exec (.getLinksByName fileName false) | fail .fileNotFound
  let some source ← exec (.getSourceById link.sourceId) | fail .fileNotFound
  let bytes ← exec (.readFile source.id.sourcePath)
  return source.stored bytes

/-- Read the content with a name. -/
def getBinaryData (E : Engine) (fileName : String) : Prog Bytes :=
  if fileName = "" then fail .noFilename else do
    let stored ← readStored fileName
    ofExcept (E.verify stored)

/-! ## Writing -/

/-- Give up one link to a source, which then has `sourceCount` of them: the source
    and its payload go with the last one. The payload is first renamed, so that
    it can come back if the row stays. -/
def releaseSource (link : Link) (source : Source) (sourceCount : ℕ) : Prog Unit :=
  if sourceCount > 0 then
    exec (.updateSource source.id source.hash256 source.compressed source.size sourceCount)
  else do
    exec (.rename link.sourceId.sourcePath link.sourceId.tombstonePath)
    (exec (.deleteSourceById source.id)).orUndo
      (exec (.rename link.sourceId.tombstonePath link.sourceId.sourcePath))
    (exec (.removeFile link.sourceId.tombstonePath)).orUndo do
      (exec (.rename link.sourceId.tombstonePath link.sourceId.sourcePath)).ignore
      exec (.insertSourceWithCount source.id source.hash256 source.compressed source.size
        source.count)

/-- Store a content in a source of its own, make the link point to it and release
    the source it pointed to. The source has this sequence twice, for a covering
    write to a shared source and for a write that does not cover. -/
def replaceSource (d : Draws) (link : Link) (source : Source) (compressed : Bool)
    (newHash256 : String) (newSize : ℕ) (newStorageBytes : Bytes) : Prog Unit := do
  persistSourceBytes d.sourceId newStorageBytes d.tmpId
  (exec (.insertSourceWithCount d.sourceId newHash256 compressed newSize 1)).orUndo
    (removeSourceFileIfExists d.sourceId)
  (exec (.updateLinkSourceId link.id d.sourceId)).orUndo do
    (exec (.deleteSourceById d.sourceId)).ignore
    removeSourceFileIfExists d.sourceId
  if source.count = 0 then fail .sourceCountZero else
    (releaseSource link source (source.count - 1)).orUndo do
      (exec (.updateLinkSourceId link.id source.id)).ignore
      (exec (.deleteSourceById d.sourceId)).ignore
      removeSourceFileIfExists d.sourceId

/-- Store a content in the place of the one of a source only this link points to. -/
def overwriteSource (d : Draws) (link : Link) (source : Source) (compressed : Bool)
    (newHash256 : String) (newSize : ℕ) (newStorageBytes : Bytes) : Prog Unit := do
  let previousStorageBytes ← exec (.readFile link.sourceId.sourcePath)
  persistSourceBytes link.sourceId newStorageBytes d.tmpId
  (exec (.updateSource link.sourceId newHash256 compressed newSize source.count)).orUndo
    (persistSourceBytes link.sourceId previousStorageBytes d.undoTmpId)

/-- Link a new name to a source that has the content already. -/
def linkToSource (d : Draws) (fileName ext : String) (source : Source) : Prog Unit := do
  exec (.insertLinkWithId d.linkId fileName ext source.id 420)
  (exec (.updateSource source.id source.hash256 source.compressed source.size
    (source.count + 1))).orUndo (exec (.deleteLinkById d.linkId))

/-- Store a new content under a new name. -/
def createSource (d : Draws) (fileName ext : String) (compressed : Bool) (newHash256 : String)
    (newSize : ℕ) (newStorageBytes : Bytes) : Prog Unit := do
  persistSourceBytes d.sourceId newStorageBytes d.tmpId
  (exec (.insertSourceWithCount d.sourceId newHash256 compressed newSize 1)).orUndo
    (removeSourceFileIfExists d.sourceId)
  (exec (.insertLinkWithId d.linkId fileName ext d.sourceId 420)).orUndo do
    (exec (.deleteSourceById d.sourceId)).ignore
    removeSourceFileIfExists d.sourceId

/-- The part of `put_binary_data` under the lock. -/
def putBinaryDataLocked (d : Draws) (fileName : String) (cover compressed : Bool)
    (newHash256 : String) (newSize : ℕ) (newStorageBytes : Bytes) (ext : String) : Prog Unit := do
  match ← exec (.getLinksByName fileName false) with
  | link :: _ =>
    let some source ← exec (.getSourceById link.sourceId) | fail .sourceNotFound
    if cover then
      if source.count > 1 then
        replaceSource d link source compressed newHash256 newSize newStorageBytes
      else
        overwriteSource d link source compressed newHash256 newSize newStorageBytes
    else if newHash256 = source.hash256 ∧ source.compressed = compressed then pure ()
    else replaceSource d link source compressed newHash256 newSize newStorageBytes
  | [] =>
    match ← exec (.getSourceByHash256 newHash256) with
    | some source => linkToSource d fileName ext source
    | none => createSource d fileName ext compressed newHash256 newSize newStorageBytes

/-- Write a content under a name. -/
def putBinaryData (E : Engine) (d : Draws) (fileName : String) (input : Bytes)
    (cover compressed : Bool) : Prog Unit :=
  if fileName = "" then fail .noFilename else do
    let newStorageBytes ← ofExcept (E.encodeContent compressed input)
    putBinaryDataLocked d fileName cover compressed (E.hash256 input) input.length newStorageBytes
      (pathExtension fileName)

/-- Delete one link. -/
def deleteLink (link : Link) : Prog Unit := do
  let some source ← exec (.getSourceById link.sourceId) | fail .fileNotFound
  if source.count = 0 then fail .sourceCountZero else
    exec (.deleteLinkById link.id)
    (releaseSource link source (source.count - 1)).orUndo
      (exec (.insertLinkWithId link.id link.name (pathExtension link.name) link.sourceId link.mode))

/-- Delete the links a pattern stands for. -/
def delete (pattern : String) (useRegx : Bool) : Prog Unit :=
  if pattern = "" then fail .noFilesRequested else do
    let links ← listLocked pattern 0 false useRegx
    forEach deleteLink links

/-- Set the mode of a file. -/
def setFileMode (name : String) (mode : UInt32) : Prog Unit := exec (.setLinkMode name mode)

/-! ## Directories -/

/-- Whether a path is a directory. -/
def isDir (path : String) : Prog Bool := do
  let dir ← exec (.getDirByPath path)
  return dir.isSome

/-- The directories in a directory. -/
def listChildDirs (parent : String) : Prog (List DirEntry) := exec (.listDirsByParent parent)

/-- All directories. -/
def allDirs : Prog (List DirEntry) := exec .listAllDirs

/-- Make a directory. -/
def mkdir (path parent : String) : Prog Unit := exec (.insertDir path parent)

/-- Remove a directory. -/
def rmdir (path : String) : Prog Unit := exec (.deleteDir path)

/-- Set the mode of a directory. -/
def setDirMode (path : String) (mode : UInt32) : Prog Unit := exec (.setDirMode path mode)

/-- The directories above a name, each with the one above it. -/
def dirChain (acc prev : String) : List String → List (String × String)
  | [] => []
  | part :: parts =>
    let acc := if acc = "" then part else acc ++ "/" ++ part
    (acc, prev) :: dirChain acc acc parts

/-- Make the directories above the name of a link; those that are there stay. -/
def syncDirsFromLink (link : Link) : Prog Unit :=
  let parts := (link.name.toList.splitOn '/').dropLast.map String.ofList
  forEach (fun (path, parent) => (exec (.insertDir path parent)).ignore) (dirChain "" "" parts)

/-- Make the directories above all names. -/
def syncDirsFromLinks : Prog Unit := do
  let links ← listLocked "*" 0 false true
  forEach syncDirsFromLink links

/-! ## Starting -/

/-- The name without a suffix it has. -/
def stripSuffix (name suffix : String) : Option String :=
  if suffix.toList <:+ name.toList then
    some (.ofList (name.toList.take (name.length - suffix.length)))
  else none

/-- Reconcile one file with the sources of the database. -/
def reconcileLeaf (knownIds : List SourceId) (dir : Path) : OsName × Bool → Prog Unit
  | (.str name, false) =>
    let leafPath := dir ++ [.str name]
    if ".tmp-".toList <:+: name.toList then (exec (.removeFile leafPath)).ignore
    else match stripSuffix name ".deleting" with
      | some stem =>
        if stem ∈ knownIds.map SourceId.val then
          (exec (.rename leafPath (dir ++ [.str stem]))).ignore
        else (exec (.removeFile leafPath)).ignore
      | none =>
        if name ∈ knownIds.map SourceId.val then pure ()
        else (exec (.removeFile leafPath)).ignore
  | _ => pure ()

/-- Go into the directories of `dir` whose names have the given length. -/
def descend (length : ℕ) (body : Path → Prog Unit) (dir : Path) :
    OsName × Bool → Prog Unit
  | (.str name, true) => if name.utf8ByteSize = length then body (dir ++ [.str name]) else pure ()
  | _ => pure ()

/-- Run a program on the entries of a directory, if it can be read. -/
def forEntries (listing : Listing) (dir : Path) (body : OsName × Bool → Prog Unit) : Prog Unit := do
  match ← (exec (.readDir dir)).attempt with
  | .ok entries => forEach body (listing.order dir entries)
  | .error _ => pure ()

/-- Reconcile the files with the sources of the database, at the two levels of
    directories payloads are in: remove what is neither a payload nor the
    tombstone of one, and rename the tombstones of sources that are there. -/
def reconcileOrphans (listing : Listing) : Prog Unit := do
  let knownIds ← exec .listSourceIds
  let leaves dir := forEntries listing dir (reconcileLeaf knownIds dir)
  let mids dir := forEntries listing dir (descend 2 leaves dir)
  match ← (exec (.readDir [])).attempt with
  | .ok top => forEach (descend 4 mids []) (listing.order [] top)
  | .error .noSuchFile => pure ()
  | .error err => fail err

/-- Open a store. -/
def new (listing : Listing) : Prog Unit := do
  (reconcileOrphans listing).mapError .startupReconciliation
  syncDirsFromLinks.mapError .startupDirSync

end StoreManager

end LiNaStore
