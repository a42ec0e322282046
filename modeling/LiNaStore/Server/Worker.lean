import LiNaStore.Base.Service
import LiNaStore.Library.Uuid
import LiNaStore.Server.Protocol

/-!
# Behind the front ends

The front ends know objects by a bucket and a key, and the store knows them by names it
has from the front ends. The mapper keeps which is which (`BucketMapper`), and a worker
carries out an order on the store (`processPackage`).

The front ends are programs over the primitives of this server (`ServerPrim`): asking for
a session, the statements of the mapper, and giving an order and waiting for the answer.
-/

namespace LiNaStore

open Program

/-! ## The mapper -/

/-- A row of `bucket_mappings`. -/
structure Mapping where
  bucket : String
  key : String
  internalName : String
  deriving DecidableEq, Repr

def Mapping.address (m : Mapping) : String × String := (m.bucket, m.key)

/-- The bucket of the objects that are named by a key alone. -/
def defaultBucket : String := "default"

/-- The table `bucket_mappings`: bucket and key are its primary key, and no internal name
    occurs twice. -/
structure BucketMapper where
  rows : Table Mapping.address
  unique : (rows.rows.map Mapping.internalName).Nodup

namespace BucketMapper

def empty : BucketMapper := ⟨.empty, List.nodup_nil⟩

def resolve (m : BucketMapper) (bucket key : String) : Option String :=
  (m.rows.find? (bucket, key)).map Mapping.internalName

/-- The internal names. -/
def names (m : BucketMapper) : List String := m.rows.rows.map Mapping.internalName

/-- Insert a row, or do nothing if one of the two constraints does not allow it. -/
def register (m : BucketMapper) (bucket key internalName : String) : BucketMapper :=
  let row : Mapping := ⟨bucket, key, internalName⟩
  if h : m.rows.find? row.address = none ∧ internalName ∉ m.names then
    ⟨m.rows.insert row, by
      rw [Table.rows_insert h.1, List.map_append, List.map_cons, List.map_nil,
        ← List.concat_eq_append]
      exact m.unique.concat h.2⟩
  else m

def delete (m : BucketMapper) (bucket key : String) : BucketMapper :=
  ⟨m.rows.erase (bucket, key), m.unique.sublist (List.filter_sublist.map _)⟩

/-- The buckets that have objects, in order. -/
def listBuckets (m : BucketMapper) : List String :=
  (m.rows.rows.map Mapping.bucket).dedup.mergeSort fun b b' => b ≤ b'

/-- The keys of a bucket that begin with `front`, as `LIKE` reads it, with their names. -/
def listBucket (m : BucketMapper) (bucket front : String) : List (String × String) :=
  let rows := m.rows.rows.filter fun row =>
    row.bucket = bucket ∧ like (front.toList ++ ['%']) row.key.toList
  (rows.mergeSort fun row row' => row.key ≤ row'.key).map fun row => (row.key, row.internalName)

variable {m : BucketMapper} {bucket key name : String}

/-- Registering a new name: the first one registered for an object stays. -/
theorem resolve_register (hname : name ∉ m.names) (bucket' key' : String) :
    (m.register bucket key name).resolve bucket' key' =
      if (bucket', key') = (bucket, key) ∧ m.resolve bucket key = none then some name
      else m.resolve bucket' key' := by
  rw [register]
  by_cases hnone : m.rows.find? (bucket, key) = none
  · have hresolve : m.resolve bucket key = none := by rw [resolve, hnone, Option.map_none]
    have hfree : m.rows.find? (Mapping.address ⟨bucket, key, name⟩) = none := hnone
    simp only [hfree, hname, not_false_eq_true, and_self, ↓reduceDIte, hresolve, and_true]
    rw [resolve, Table.find?_insert hfree, Mapping.address]
    split <;> rfl
  · have hresolve : m.resolve bucket key ≠ none := mt Option.map_eq_none_iff.mp hnone
    rw [if_neg fun h => hresolve h.2]
    exact congrArg (resolve · bucket' key') (dif_neg fun h => hnone h.1)

theorem resolve_delete (m : BucketMapper) (bucket key bucket' key' : String) :
    (m.delete bucket key).resolve bucket' key' =
      if (bucket', key') = (bucket, key) then none else m.resolve bucket' key' := by
  rw [resolve, delete, Table.find?_erase]
  split <;> rfl

theorem mem_names_of_resolve (h : m.resolve bucket key = some name) : name ∈ m.names := by
  obtain ⟨row, hrow, rfl⟩ := Option.map_eq_some_iff.mp h
  exact List.mem_map_of_mem (Table.mem_of_find? hrow)

theorem mem_names_register {name' : String} (h : name' ∈ (m.register bucket key name).names) :
    name' ∈ m.names ∨ name' = name := by
  unfold register names at h
  dsimp only at h
  split at h
  · next hfree =>
    rw [Table.rows_insert hfree.1, List.map_append, List.mem_append] at h
    exact h.imp_right List.mem_singleton.mp
  · exact .inl h

theorem mem_names_delete {name' : String} (h : name' ∈ (m.delete bucket key).names) :
    name' ∈ m.names :=
  (List.filter_sublist.map _).subset h

/-- Different objects have different names. -/
theorem resolve_inj {bucket' key' : String} (h : m.resolve bucket key = some name)
    (h' : m.resolve bucket' key' = some name) : (bucket', key') = (bucket, key) := by
  obtain ⟨row, hrow, hname⟩ := Option.map_eq_some_iff.mp h
  obtain ⟨row', hrow', hname'⟩ := Option.map_eq_some_iff.mp h'
  have heq : row' = row := List.inj_on_of_nodup_map m.unique (Table.mem_of_find? hrow')
    (Table.mem_of_find? hrow) (hname'.trans hname.symm)
  rw [← Table.key_of_find? hrow, ← Table.key_of_find? hrow', heq]

end BucketMapper

/-! ## The worker -/

def flagSet (flags : UInt8) (bit : FlagType) : Bool := flags &&& bit.bits ≠ 0

/-- Carry out an order. -/
def processPackage (E : Engine) (d : Draws) (pkg : Package) : Prog Package :=
  let resPkg : Package :=
    { Package.new pkg.uniId with content := ⟨pkg.content.flags, pkg.content.identifier, []⟩ }
  let identifierBytes := (splitNul pkg.content.identifier).1
  if identifierBytes = [] then pure { resPkg with status := .fileNameInvalid }
  else match fromUtf8 identifierBytes with
    | none => pure { resPkg with status := .fileNameInvalid }
    | some identifier =>
      match pkg.behavior with
      | .putFile => do
        match ← (StoreManager.putBinaryData E d identifier pkg.content.data
            (flagSet pkg.content.flags .cover) (flagSet pkg.content.flags .compress)).attempt with
        | .ok _ => return { resPkg with status := .success }
        | .error _ => return { resPkg with status := .storeFailed }
      | .getFile => do
        match ← (StoreManager.getBinaryData E identifier).attempt with
        | .ok data =>
          return { resPkg with status := .success, content := { resPkg.content with data } }
        | .error _ => return { resPkg with status := .fileNotFound }
      | .deleteFile => do
        match ← (StoreManager.delete identifier false).attempt with
        | .ok _ => return { resPkg with status := .success }
        | .error _ => return { resPkg with status := .fileNotFound }
      | .none => pure { resPkg with status := .internalError }

/-! ## Primitives -/

/-- Why a primitive of the server failed. -/
inductive ServerError
  | mapperUnavailable
  | database
  | noWaiter
  | orderRefused
  | channelClosed
  | timeout
  deriving DecidableEq, Repr

/-- What a front end can do. -/
inductive ServerPrim
  /-- The user of a session, with a grace period of `grace` seconds. -/
  | validateSession (token : String) (grace : Int)
  | resolve (bucket key : String)
  | register (bucket key internalName : String)
  | deleteMapping (bucket key : String)
  | listBuckets
  | listBucket (bucket front : String)
  /-- Give an order and wait for the answer; the worker draws `d`. -/
  | order (d : Draws) (pkg : Package)

/-- What a primitive answers. -/
abbrev ServerPrim.Res : ServerPrim → Type
  | validateSession .. => Option String
  | resolve .. => Option String
  | register .. => Unit
  | deleteMapping .. => Unit
  | listBuckets => List String
  | listBucket .. => List (String × String)
  | order .. => Package

/-- Programs of a front end. -/
abbrev ServerProg := Program ServerError ServerPrim.Res

/-- The program of one primitive. -/
abbrev ask (p : ServerPrim) : ServerProg p.Res := perform p

/-- The state behind the front ends. -/
structure Server where
  /-- The users of sessions, for a grace period. -/
  sessions : String → Int → Option String
  mapper : BucketMapper
  store : Store

/-- The server before the first request. -/
def Server.start (sessions : String → Int → Option String) : Server := ⟨sessions, .empty, .empty⟩

/-- The primitives; `outcome` says what comes of an order. -/
def ServerPrim.stepWith (outcome : Draws → Package → Store → Except ServerError Package × Store) :
    (p : ServerPrim) → Server → Except ServerError p.Res × Server
  | validateSession token grace, sv => (.ok (sv.sessions token grace), sv)
  | resolve bucket key, sv => (.ok (sv.mapper.resolve bucket key), sv)
  | register bucket key internalName, sv =>
    (.ok (), { sv with mapper := sv.mapper.register bucket key internalName })
  | deleteMapping bucket key, sv => (.ok (), { sv with mapper := sv.mapper.delete bucket key })
  | listBuckets, sv => (.ok sv.mapper.listBuckets, sv)
  | listBucket bucket front, sv => (.ok (sv.mapper.listBucket bucket front), sv)
  | order d pkg, sv =>
    ((outcome d pkg sv.store).1, { sv with store := (outcome d pkg sv.store).2 })

/-- What comes of an order that a worker carries out. A worker answers every order. -/
def processed (E : Engine) (d : Draws) (pkg : Package) (s : Store) :
    Except ServerError Package × Store :=
  (((processPackage E d pkg).run Prim.step s).1.mapError fun _ => .channelClosed,
    ((processPackage E d pkg).run Prim.step s).2)

/-- The primitives when they succeed. -/
def ServerPrim.step (E : Engine) : (p : ServerPrim) → Server → Except ServerError p.Res × Server :=
  ServerPrim.stepWith (processed E)

theorem ServerPrim.step_order (E : Engine) (d : Draws) (pkg : Package) (sv : Server) :
    ServerPrim.step E (.order d pkg) sv =
      ((processed E d pkg sv.store).1, { sv with store := (processed E d pkg sv.store).2 }) := rfl

end LiNaStore
