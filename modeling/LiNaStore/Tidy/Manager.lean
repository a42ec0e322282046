import LiNaStore.Tidy.Disk
import Mathlib.Data.String.Basic

/-!
# Tidying a directory

`TidyManager` looks for files with the same content below a directory, keeps the oldest or the
newest of them and makes symlinks to it of the others (`TidyManager.tidy`). It walks the directory
(`pathWalk`), notes each file under the hash of its content, with its date (`fileInfoCollector`),
chooses a file of each hash (`findExtremeFile`) and links the others to it, by a path relative to
theirs (`relativePathWithSameRoot`). What has been noted stays in the manager for the next call.

The paths of the calls are absolute. That they all start with the same directory changes nothing
about the relative paths between them. Third parties are parameters: the hash, the format of dates,
and the orders in which directories and the map of hashes are listed (`TidyOrders`).
-/

namespace LiNaStore

open Program

/-! ## State and primitives -/

/-- A file that has been found: its path, and the date it was created at, as a text. -/
structure FileInfo where
  path : Path
  date : String
  deriving DecidableEq, Repr

/-- The files found with a hash. -/
structure FileGroup where
  hash : String
  infos : List FileInfo

/-- A file system and what the manager has noted. -/
structure TidyState where
  disk : Disk
  mapCache : Table FileGroup.hash

/-- The files noted with a hash. -/
def TidyState.infos (st : TidyState) (hash : String) : List FileInfo :=
  ((st.mapCache.find? hash).map FileGroup.infos).getD []

/-- What is in a directory. -/
def Disk.names (D : Disk) (path : Path) : List OsName :=
  (D.entries.rows.filter (·.path.dropLast = path)).filterMap (·.path.getLast?)

/-- The length of the longest path. -/
def Disk.depth (D : Disk) : ℕ := (D.entries.rows.map (·.path.length)).foldr max 0

/-- The orders in which things are listed. -/
structure TidyOrders where
  /-- The names in a directory. -/
  names : Path → List OsName → List OsName
  names_perm : ∀ path l, (names path l).Perm l
  /-- The hashes of the map. -/
  keys : List String → List String
  keys_perm : ∀ l, (keys l).Perm l

/-- The orders in which things were added. -/
def TidyOrders.byAge : TidyOrders := ⟨fun _ l => l, fun _ _ => .rfl, fun l => l, fun _ => .rfl⟩

/-- Errors of the file system. -/
inductive TidyError
  | notFound
  | notADirectory
  | alreadyExists
  deriving DecidableEq, Repr

/-- The calls of the manager, to the file system and to its map. -/
inductive TidyPrim
  | isDir (path : Path)
  | readDir (path : Path)
  | readFile (path : Path)
  | created (path : Path)
  | removeFile (path : Path)
  | createSymlink (target : List PathComponent) (path : Path)
  | push (hash : String) (info : FileInfo)
  | keys
  | get (key : String)

/-- What they answer with. -/
abbrev TidyPrim.Res : TidyPrim → Type
  | isDir _ => Bool
  | readDir _ => List OsName
  | readFile _ => Bytes
  | created _ => ℤ
  | removeFile _ | createSymlink .. | push .. => Unit
  | keys => List String
  | get _ => Option (List FileInfo)

/-- Programs of such calls. -/
abbrev TidyProg := Program TidyError TidyPrim.Res

/-- What the calls do. Reading follows symlinks, removing does not. -/
def TidyPrim.step (orders : TidyOrders) :
    (o : TidyPrim) → TidyState → Except TidyError o.Res × TidyState
  | isDir path, st => (.ok (decide (st.disk.node path = some .dir)), st)
  | readDir path, st =>
    if st.disk.node path = some .dir then (.ok (orders.names path (st.disk.names path)), st)
    else (.error .notADirectory, st)
  | readFile path, st => match st.disk.file? path with
    | some file => (.ok file.bytes, st)
    | none => (.error .notFound, st)
  -- the date of a symlink is that of the file it leads to
  | created path, st => match st.disk.file? path with
    | some file => (.ok file.created, st)
    | none => (.error .notFound, st)
  | removeFile path, st =>
    if h : st.disk.IsLeaf path then (.ok (), { st with disk := st.disk.erase path h })
    else (.error .notFound, st)
  | createSymlink target path, st =>
    if h : st.disk.IsFree path then (.ok (), { st with disk := st.disk.addLink target path h })
    else (.error .alreadyExists, st)
  | push hash info, st =>
    (.ok (), { st with mapCache := st.mapCache.set ⟨hash, st.infos hash ++ [info]⟩ })
  | keys, st => (.ok (orders.keys (st.mapCache.rows.map FileGroup.hash)), st)
  | get key, st => (.ok ((st.mapCache.find? key).map FileGroup.infos), st)

/-! ## The manager -/

namespace TidyManager

/-- One call. -/
def exec (o : TidyPrim) : TidyProg o.Res := perform o

/-- The file at a path, or those in the directory there, which are found by `walk`. -/
def walkEntry (walk : Path → TidyProg (List Path)) (current : Path) : TidyProg (List Path) := do
  let isDir : Bool ← exec (.isDir current)
  if isDir then walk current else pure [current]

/-- The files of the entries of a directory. -/
def walkEntries (walk : Path → TidyProg (List Path)) (path : Path) : List OsName → TidyProg (List Path)
  | [] => pure []
  | name :: names => do
    let found ← walkEntry walk (path ++ [name])
    return found ++ (← walkEntries walk path names)

/-- The files below a directory, down to a depth. -/
def pathWalk : ℕ → Path → TidyProg (List Path)
  | 0, _ => pure []
  | depth + 1, path => do
    let isDir : Bool ← exec (.isDir path)
    if isDir then walkEntries (pathWalk depth) path (← exec (.readDir path)) else pure []

/-- The number of components that two paths have in common. -/
def commonLength : List PathComponent → List PathComponent → ℕ
  | a :: l, b :: l' => if a = b then commonLength l l' + 1 else 0
  | _, _ => 0

/-- Add a component to a path; the root starts it again. -/
def pushComponent (path : List PathComponent) : PathComponent → List PathComponent
  | .rootDir => [.rootDir]
  | component => path ++ [component]

/-- The path to `dst`, seen from the directory of `src`. -/
def relativePathWithSameRoot (src dst : List PathComponent) : List PathComponent :=
  let common := commonLength src dst
  let result :=
    if src.length - common > 1 then (src.drop (common + 1)).map fun _ => .parentDir
    else if src.length - common = 1 then [.curDir]
    else []
  (dst.drop common).foldl pushComponent result

/-- The first of the files that none comes before. -/
def findExtremeFile (compare : String → String → Bool) (first : FileInfo) (rest : List FileInfo) :
    FileInfo :=
  rest.foldl (fun extreme info => if compare info.date extreme.date then info else extreme) first

/-- Which of two dates is preferred: the later one, or the earlier one. -/
def preferred (keepNew : Bool) (a b : String) : Bool := if keepNew then b < a else a < b

/-- Replace a file by a symlink to the one that is kept, unless it has the same date. -/
def replaceFile (target info : FileInfo) : TidyProg Unit :=
  if info.date ≠ target.date ∧ info.path ≠ target.path then do
    match ← (exec (.removeFile info.path)).attempt with
    | .ok _ =>
      exec (.createSymlink (relativePathWithSameRoot (absolute info.path) (absolute target.path))
        info.path)
    -- the failure is printed, and the next file is looked at
    | .error _ => pure ()
  else pure ()

/-- Replace the files with a hash by symlinks to one of them. -/
def tidyGroup (keepNew : Bool) (key : String) : TidyProg Unit := do
  match ← exec (.get key) with
  | some (first :: rest) =>
    forEach (replaceFile (findExtremeFile (preferred keepNew) first rest)) (first :: rest)
  | _ => pure ()

variable (hash256 : Bytes → String) (format : ℤ → String)

/-- Note a file under the hash of its content. -/
def fileInfoCollector (path : Path) : TidyProg Unit := do
  let hashCode := hash256 (← exec (.readFile path))
  let formatedCreatedDate := format (← exec (.created path))
  exec (.push hashCode ⟨path, formatedCreatedDate⟩)

/-- Note the files below a directory; one that cannot be read is skipped. -/
def collect (depth : ℕ) (target : Path) : TidyProg Unit := do
  let paths ← pathWalk depth target
  forEach (fun path => (fileInfoCollector hash256 format path).ignore) paths

/-- Tidy a directory. -/
def tidy (depth : ℕ) (target : Path) (keepNew : Bool) : TidyProg Unit := do
  collect hash256 format depth target
  forEach (tidyGroup keepNew) (← exec .keys)

end TidyManager

/-- A call of `tidy`. -/
structure TidyCall where
  target : Path
  keepNew : Bool
  orders : TidyOrders

namespace TidyCall

variable (hash256 : Bytes → String) (format : ℤ → String) (c : TidyCall) (st : TidyState)

/-- The state when the files below the directory have been noted. -/
def collected : TidyState :=
  ((TidyManager.collect hash256 format st.disk.depth c.target).run (TidyPrim.step c.orders) st).2

/-- The answer to a call, and the state after it. -/
def run : Except TidyError Unit × TidyState :=
  (TidyManager.tidy hash256 format st.disk.depth c.target c.keepNew).run (TidyPrim.step c.orders) st

end TidyCall

end LiNaStore
