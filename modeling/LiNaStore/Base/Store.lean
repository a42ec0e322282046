import LiNaStore.Base.Block
import LiNaStore.Library.Like
import LiNaStore.Library.Program
import LiNaStore.Library.Table
import Mathlib.Data.List.Infix
import Mathlib.Data.List.Sort
import Mathlib.Tactic.Simps.Basic

/-!
# The state of a store and its primitive operations

A store is a database of three tables, the links, the sources and the
directories, and a tree of files. A *link* is a name and the identifier of a
source; a *source* is the description of a content, with the number of links to
it; the content itself is in the *payload* of the source, a file named by the
identifier.

Everything the storage crate does to a store it does by a statement of its data
access object or by a call to the file system: these are its *primitives*
(`Prim`), each atomic, each of them possibly failing. What they do is their
*handler* `Prim.step`: a statement respects the primary keys and the foreign key
from links to sources, a file that is read, renamed or removed has to be there.
-/

namespace LiNaStore

/-! ## Identifiers and paths -/

/-- The identifier of a source: a time on 14 digits and 8 random letters or
    digits, hence 22 letters or digits. -/
structure SourceId where
  /-- The text of the identifier. -/
  val : String
  /-- It has 22 characters. -/
  length_val : val.length = 22
  /-- All are letters or digits; in particular there is no dot. -/
  alphanum_val : ∀ c ∈ val.toList, c.isAlphanum = true
  deriving DecidableEq

/-- A name in a directory: text, or bytes that are not text. -/
inductive OsName
  /-- A name in UTF-8. -/
  | str (s : String)
  /-- A name that is not UTF-8. -/
  | other (bytes : Bytes)
  deriving DecidableEq, Repr

/-- The path of a file: its names below the directory `linadata`. -/
abbrev Path := List OsName

namespace SourceId

/-- The directory of a payload, by the first four and the next two characters. -/
def sourceDir (id : SourceId) : Path :=
  [.str (.ofList (id.val.toList.take 4)), .str (.ofList ((id.val.toList.drop 4).take 2))]

/-- The file in the directory of a payload named by the identifier and a suffix. -/
def pathWith (id : SourceId) (suffix : String) : Path := id.sourceDir ++ [.str (id.val ++ suffix)]

/-- The path of the payload. -/
def sourcePath (id : SourceId) : Path := id.sourceDir ++ [.str id.val]

/-- Where the payload goes before it is removed. -/
def tombstonePath (id : SourceId) : Path := id.pathWith ".deleting"

/-- Where a payload is written before it gets its name. -/
def tmpPath (id : SourceId) (tmpId : String) : Path := id.pathWith (".tmp-" ++ tmpId)

theorem ext_val {id id' : SourceId} (h : id.val = id'.val) : id = id' := by
  cases id
  cases id'
  cases h
  rfl

theorem sourcePath_eq (id : SourceId) : id.sourcePath = id.pathWith "" := by
  rw [pathWith, String.append_empty]
  rfl

/-- Identifiers have one length, so that a name tells its identifier and suffix. -/
theorem val_append_inj {id id' : SourceId} {a b : String} :
    id.val ++ a = id'.val ++ b ↔ id = id' ∧ a = b := by
  refine ⟨fun h => ?_, fun ⟨h₁, h₂⟩ => h₁ ▸ h₂ ▸ rfl⟩
  rw [← String.toList_inj, String.toList_append, String.toList_append] at h
  have hlen : id.val.toList.length = id'.val.toList.length := by
    rw [String.length_toList, String.length_toList, id.length_val, id'.length_val]
  obtain ⟨h₁, h₂⟩ := List.append_inj h hlen
  exact ⟨ext_val (String.toList_inj.1 h₁), String.toList_inj.1 h₂⟩

theorem pathWith_inj {id id' : SourceId} {a b : String} :
    id.pathWith a = id'.pathWith b ↔ id = id' ∧ a = b := by
  refine ⟨fun h => val_append_inj.1 ?_, fun ⟨h₁, h₂⟩ => h₁ ▸ h₂ ▸ rfl⟩
  simpa [pathWith, sourceDir] using congrArg List.getLast? h

@[simp] theorem sourcePath_inj {id id' : SourceId} : id.sourcePath = id'.sourcePath ↔ id = id' := by
  rw [sourcePath_eq, sourcePath_eq, pathWith_inj, and_iff_left rfl]

@[simp] theorem tombstonePath_inj {id id' : SourceId} :
    id.tombstonePath = id'.tombstonePath ↔ id = id' := by
  rw [tombstonePath, tombstonePath, pathWith_inj, and_iff_left rfl]

@[simp] theorem sourcePath_ne_tombstonePath (id id' : SourceId) :
    id.sourcePath ≠ id'.tombstonePath := by
  rw [sourcePath_eq, tombstonePath, Ne, pathWith_inj]
  exact fun h => absurd h.2 (by decide)

theorem tmp_toList (tmpId : String) :
    (".tmp-" ++ tmpId).toList = '.' :: 't' :: 'm' :: 'p' :: '-' :: tmpId.toList := by
  rw [String.toList_append, show ".tmp-".toList = ['.', 't', 'm', 'p', '-'] by decide]
  rfl

@[simp] theorem sourcePath_ne_tmpPath (id id' : SourceId) (tmpId : String) :
    id.sourcePath ≠ id'.tmpPath tmpId := by
  rw [sourcePath_eq, tmpPath, Ne, pathWith_inj]
  rintro ⟨_, h⟩
  have := congrArg String.toList h
  rw [tmp_toList] at this
  exact absurd this (by simp)

@[simp] theorem tombstonePath_ne_tmpPath (id id' : SourceId) (tmpId : String) :
    id.tombstonePath ≠ id'.tmpPath tmpId := by
  rw [tombstonePath, tmpPath, Ne, pathWith_inj]
  rintro ⟨_, h⟩
  have := congrArg String.toList h
  rw [tmp_toList, show ".deleting".toList = '.' :: 'd' :: "eleting".toList by decide] at this
  exact absurd (List.cons.inj (List.cons.inj this).2).1 (by decide)

end SourceId

/-- The extension of a name as a path: what follows the last dot of its last
    component, unless there is none or it is the first character. -/
def pathExtension (name : String) : String :=
  let components := (name.toList.splitOn '/').filter fun part => part ≠ [] ∧ part ≠ ['.']
  match components.getLast? with
  | none => ""
  | some fileName =>
    if fileName = ['.', '.'] then "" else
      let stem := (fileName.reverse.dropWhile (· ≠ '.')).drop 1
      if stem = [] then "" else .ofList (fileName.reverse.takeWhile (· ≠ '.')).reverse

/-! ## Rows and states -/

/-- A row of the table of links. -/
structure Link where
  id : String
  name : String
  ext : String
  sourceId : SourceId
  mode : UInt32
  deriving DecidableEq

/-- A row of the table of sources. Its times are left out: no code reads them. -/
structure Source where
  id : SourceId
  hash256 : String
  compressed : Bool
  size : ℕ
  count : ℕ
  deriving DecidableEq

/-- A row of the table of directories. -/
structure DirEntry where
  path : String
  parent : String
  mode : UInt32
  deriving DecidableEq

/-- What a read takes from a store: the bytes of a content and how to read them. -/
structure Stored where
  compressed : Bool
  size : ℕ
  hash256 : String
  bytes : Bytes
  deriving DecidableEq

/-- The row of a source with a given content and number of links. -/
def Stored.row (c : Stored) (id : SourceId) (count : ℕ) : Source :=
  ⟨id, c.hash256, c.compressed, c.size, count⟩

/-- The row of a source with another count. -/
def Source.withCount (src : Source) (count : ℕ) : Source := { src with count }

@[simp] theorem Source.id_withCount (src : Source) (count : ℕ) : (src.withCount count).id = src.id := rfl

/-- The content of a source with the given bytes. -/
def Source.stored (src : Source) (bytes : Bytes) : Stored :=
  ⟨src.compressed, src.size, src.hash256, bytes⟩

/-- A regular file. -/
structure File where
  path : Path
  bytes : Bytes
  deriving DecidableEq

/-- The state of a store: the tables of its database and its files. -/
structure Store where
  links : Table Link.id
  sources : Table Source.id
  dirs : Table DirEntry.path
  files : Table File.path

namespace Store

/-- The store with nothing in it. -/
def empty : Store := ⟨.empty, .empty, .empty, .empty⟩

/-- The content of the file at a path. -/
def file (s : Store) (p : Path) : Option Bytes := (s.files.find? p).map File.bytes

/-- The links with a name, oldest first. -/
def linksNamed (s : Store) (name : String) : List Link := s.links.rows.filter (·.name = name)

/-- The number of links to a source. -/
def refs (s : Store) (id : SourceId) : ℕ := s.links.rows.countP (·.sourceId = id)

/-- Insert a link. -/
@[simps] def insertLink (s : Store) (l : Link) : Store := { s with links := s.links.insert l }

/-- Erase a link. -/
@[simps] def eraseLink (s : Store) (id : String) : Store := { s with links := s.links.erase id }

/-- Make a link point to a source. -/
@[simps] def repoint (s : Store) (linkId : String) (id : SourceId) : Store :=
  { s with links := s.links.update (·.id = linkId) (fun l => { l with sourceId := id }) fun _ => rfl }

/-- Set the mode of the links with a name. -/
@[simps] def setMode (s : Store) (name : String) (mode : UInt32) : Store :=
  { s with links := s.links.update (·.name = name) (fun l => { l with mode }) fun _ => rfl }

/-- Insert a source. -/
@[simps] def insertSource (s : Store) (src : Source) : Store :=
  { s with sources := s.sources.insert src }

/-- Rewrite the row of a source, all but its identifier. -/
@[simps] def setSource (s : Store) (src : Source) : Store :=
  { s with sources := s.sources.update (·.id = src.id) (fun r => { src with id := r.id }) fun _ => rfl }

/-- Erase a source. -/
@[simps] def eraseSource (s : Store) (id : SourceId) : Store :=
  { s with sources := s.sources.erase id }

/-- Put a file at a path. -/
@[simps] def setFile (s : Store) (p : Path) (bytes : Bytes) : Store :=
  { s with files := s.files.set ⟨p, bytes⟩ }

/-- Append to a file. -/
@[simps] def appendFile (s : Store) (p : Path) (bytes : Bytes) : Store :=
  { s with
    files := s.files.update (·.path = p) (fun f => { f with bytes := f.bytes ++ bytes }) fun _ => rfl }

/-- Remove a file. -/
@[simps] def eraseFile (s : Store) (p : Path) : Store := { s with files := s.files.erase p }

/-! ### What the updates do to the files and to the number of links -/

section Files

variable (s : Store) (p q : Path) (bytes : Bytes)

@[simp] theorem file_setFile :
    (s.setFile p bytes).file q = if q = p then some bytes else s.file q := by
  rw [file, setFile_files, Table.find?_set]
  split <;> rfl

@[simp] theorem file_eraseFile : (s.eraseFile p).file q = if q = p then none else s.file q := by
  rw [file, eraseFile_files, Table.find?_erase]
  split <;> rfl

@[simp] theorem file_appendFile :
    (s.appendFile p bytes).file q = (s.file q).map fun b => if q = p then b ++ bytes else b := by
  rw [file, appendFile_files, Table.find?_update, file]
  cases h : s.files.find? q with
  | none => rfl
  | some f =>
    have hq : f.path = q := Table.key_of_find? h
    simp only [Option.map_some, hq, decide_eq_true_eq]
    split <;> rfl

@[simp] theorem file_insertLink (l : Link) : (s.insertLink l).file q = s.file q := rfl

@[simp] theorem file_eraseLink (id : String) : (s.eraseLink id).file q = s.file q := rfl

@[simp] theorem file_repoint (linkId : String) (id : SourceId) :
    (s.repoint linkId id).file q = s.file q := rfl

@[simp] theorem file_insertSource (src : Source) : (s.insertSource src).file q = s.file q := rfl

@[simp] theorem file_setSource (src : Source) : (s.setSource src).file q = s.file q := rfl

@[simp] theorem file_eraseSource (id : SourceId) : (s.eraseSource id).file q = s.file q := rfl

end Files

section Refs

variable (s : Store) (id : SourceId)

theorem refs_insertLink {l : Link} (h : s.links.find? l.id = none) :
    (s.insertLink l).refs id = s.refs id + if l.sourceId = id then 1 else 0 := by
  simpa [refs] using Table.countP_insert h fun l => l.sourceId = id

theorem refs_eraseLink {l : Link} (h : l ∈ s.links.rows) :
    ((s.eraseLink l.id).refs id + if l.sourceId = id then 1 else 0) = s.refs id := by
  simpa [refs] using Table.countP_erase (Table.find?_key h) fun l => l.sourceId = id

theorem refs_repoint {l : Link} (h : l ∈ s.links.rows) (new : SourceId) :
    ((s.repoint l.id new).refs id + if l.sourceId = id then 1 else 0) =
      s.refs id + if new = id then 1 else 0 := by
  simpa [refs] using Table.countP_update (f := fun l => { l with sourceId := new })
    (Table.find?_key h) fun l => l.sourceId = id

@[simp] theorem refs_insertSource (src : Source) : (s.insertSource src).refs id = s.refs id := rfl

@[simp] theorem refs_setSource (src : Source) : (s.setSource src).refs id = s.refs id := rfl

@[simp] theorem refs_eraseSource (id' : SourceId) : (s.eraseSource id').refs id = s.refs id := rfl

@[simp] theorem refs_setFile (p : Path) (bytes : Bytes) :
    (s.setFile p bytes).refs id = s.refs id := rfl

@[simp] theorem refs_eraseFile (p : Path) : (s.eraseFile p).refs id = s.refs id := rfl

end Refs

theorem mem_repoint {s : Store} {linkId : String} {id : SourceId} {l : Link} :
    l ∈ (s.repoint linkId id).links.rows ↔
      ∃ l₀ ∈ s.links.rows, (if l₀.id = linkId then { l₀ with sourceId := id } else l₀) = l := by
  simp only [repoint_links, Table.mem_update, decide_eq_true_eq]

/-! ### Directories -/

/-- What a directory has, a name and whether it is a directory: the next names
    on the paths of the files below it. -/
def entries (s : Store) (dir : Path) : List (OsName × Bool) :=
  (s.files.rows.filterMap fun f =>
    if dir <+: f.path then
      match f.path.drop dir.length with
      | [] => none
      | [name] => some (name, false)
      | name :: _ => some (name, true)
    else none).dedup

end Store

/-! ## Primitives -/

/-- The statements of the data access object and the calls to the file system. -/
inductive Prim
  | insertLinkWithId (id name ext : String) (sourceId : SourceId) (mode : UInt32)
  | getLinksByName (name : String) (fuzzy : Bool)
  | getLinksByExt (ext : String)
  | getNLinks (n : ℕ)
  | setLinkMode (name : String) (mode : UInt32)
  | deleteLinkById (id : String)
  | insertDir (path parent : String)
  | deleteDir (path : String)
  | getDirByPath (path : String)
  | listDirsByParent (parent : String)
  | listAllDirs
  | setDirMode (path : String) (mode : UInt32)
  | insertSourceWithCount (id : SourceId) (hash256 : String) (compressed : Bool) (size count : ℕ)
  | listSourceIds
  | getSourceById (id : SourceId)
  | getSourceByHash256 (hash256 : String)
  | updateLinkSourceId (linkId : String) (newSourceId : SourceId)
  | updateSource (id : SourceId) (newHash256 : String) (newCompressed : Bool) (newSize newCount : ℕ)
  | deleteSourceById (id : SourceId)
  | createDirAll (dir : Path)
  | createFile (path : Path)
  | writeAll (path : Path) (bytes : Bytes)
  | syncAll (path : Path)
  | rename (source target : Path)
  | removeFile (path : Path)
  | readFile (path : Path)
  | readDir (dir : Path)

namespace Prim

/-- What a primitive answers. -/
abbrev Res : Prim → Type
  | getLinksByName .. | getLinksByExt .. | getNLinks .. => List Link
  | getDirByPath .. => Option DirEntry
  | listDirsByParent .. | listAllDirs => List DirEntry
  | listSourceIds => List SourceId
  | getSourceById .. | getSourceByHash256 .. => Option Source
  | readFile .. => Bytes
  | readDir .. => List (OsName × Bool)
  | _ => Unit

/-- The rows of the directories, by path. -/
def byPath (dirs : List DirEntry) : List DirEntry := dirs.mergeSort fun d d' => d.path ≤ d'.path

/-- What the primitives do. A query answers with rows in the order of their
    insertion, and changes nothing; a statement that would break a key fails, and
    changes nothing. -/
def step : (p : Prim) → Store → Except StoreError p.Res × Store
  | insertLinkWithId id name ext sourceId mode, s =>
    if (s.links.find? id).isSome then (.error .primaryKey, s)
    else if (s.sources.find? sourceId).isNone then (.error .foreignKey, s)
    else (.ok (), s.insertLink { id, name, ext, sourceId, mode })
  | getLinksByName name false, s => (.ok (s.linksNamed name), s)
  | getLinksByName pattern true, s =>
    (.ok (s.links.rows.filter fun l => like pattern.toList l.name.toList), s)
  | getLinksByExt ext, s => (.ok (s.links.rows.filter (·.ext = ext)), s)
  -- no limit for 0; and a limit read as negative, from 2^63 on, is none either
  | getNLinks n, s => (.ok (if n = 0 then s.links.rows else s.links.rows.take n), s)
  | setLinkMode name mode, s => (.ok (), s.setMode name mode)
  | deleteLinkById id, s => (.ok (), s.eraseLink id)
  | insertDir path parent, s =>
    if (s.dirs.find? path).isSome then (.error .primaryKey, s)
    else (.ok (), { s with dirs := s.dirs.insert { path, parent, mode := 493 } })
  | deleteDir path, s => (.ok (), { s with dirs := s.dirs.erase path })
  | getDirByPath path, s => (.ok (s.dirs.find? path), s)
  | listDirsByParent parent, s => (.ok (byPath (s.dirs.rows.filter (·.parent = parent))), s)
  | listAllDirs, s => (.ok (byPath s.dirs.rows), s)
  | setDirMode path mode, s =>
    (.ok (), { s with dirs := s.dirs.update (·.path = path) (fun d => { d with mode }) fun _ => rfl })
  | insertSourceWithCount id hash256 compressed size count, s =>
    if (s.sources.find? id).isSome then (.error .primaryKey, s)
    else (.ok (), s.insertSource { id, hash256, compressed, size, count })
  | listSourceIds, s => (.ok (s.sources.rows.map Source.id), s)
  | getSourceById id, s => (.ok (s.sources.find? id), s)
  | getSourceByHash256 hash256, s => (.ok (s.sources.rows.find? (·.hash256 = hash256)), s)
  | updateLinkSourceId linkId newSourceId, s =>
    if (s.links.find? linkId).isSome ∧ (s.sources.find? newSourceId).isNone then
      (.error .foreignKey, s)
    else (.ok (), s.repoint linkId newSourceId)
  | updateSource id hash256 compressed size count, s =>
    (.ok (), s.setSource { id, hash256, compressed, size, count })
  | deleteSourceById id, s =>
    -- the foreign key restricts deletions
    if (s.sources.find? id).isSome ∧ s.refs id ≠ 0 then (.error .foreignKey, s)
    else (.ok (), s.eraseSource id)
  -- a directory is there as soon as there is a file in it
  | createDirAll _, s => (.ok (), s)
  | createFile path, s => (.ok (), s.setFile path [])
  | writeAll path bytes, s => (.ok (), s.appendFile path bytes)
  | syncAll _, s => (.ok (), s)
  | rename source target, s =>
    match s.file source with
    | some bytes => (.ok (), (s.eraseFile source).setFile target bytes)
    | none => (.error .noSuchFile, s)
  | removeFile path, s =>
    match s.file path with
    | some _ => (.ok (), s.eraseFile path)
    | none => (.error .noSuchFile, s)
  | readFile path, s =>
    match s.file path with
    | some bytes => (.ok bytes, s)
    | none => (.error .noSuchFile, s)
  | readDir dir, s => (.ok (s.entries dir), s)

end Prim

/-- The programs of the storage crate. -/
abbrev Prog := Program StoreError Prim.Res

/-- The program of one primitive. -/
abbrev exec (p : Prim) : Prog p.Res := Program.perform p

end LiNaStore
