import LiNaStore.Base.Contents
import LiNaStore.Server.S3

/-!
# Objects

What the front ends are for is to be a map from buckets and keys to data (`Objects`): an
acknowledged write sets the data of an object, and an acknowledged deletion removes it.

A write always draws a new name and registers it, but the mapper keeps the name an object
already has. So a write to an object that has one is acknowledged and not seen; a deletion
of the advanced protocol leaves the name, and one of S3 removes it. In a run in which
every write is to an object without a name, and no raw upload has a zero byte, every read
returns what was last written (`read_your_writes`).
-/

namespace LiNaStore

open Program

/-! ## Orders about named objects -/

section Orders

variable {E : Engine} {D : Set Bytes} {d : Draws} {pkg : Package} {sv : Server} {u : Uuid}

/-- What a worker answers. -/
def Package.answer (pkg : Package) (status : Status) (data : Bytes) : Package :=
  ⟨status, pkg.uniId, .none, ⟨pkg.content.flags, pkg.content.identifier, data⟩⟩

theorem splitNul_text (u : Uuid) : splitNul (utf8 u.text) = (utf8 u.text, none) :=
  splitNul_of_notMem u.zero_notMem_utf8_text

theorem utf8_text_ne_nil (u : Uuid) : utf8 u.text ≠ [] := by
  intro h
  have := u.length_utf8_text
  rw [h] at this
  cases this

/-- What a worker does with an order about a named object. -/
theorem run_processPackage (hid : pkg.content.identifier = utf8 u.text) (s : Store) :
    (processPackage E d pkg).run Prim.step s =
      match pkg.behavior with
      | .putFile =>
        match (StoreManager.putBinaryData E d u.text pkg.content.data
          (flagSet pkg.content.flags .cover) (flagSet pkg.content.flags .compress)).run Prim.step s with
        | (.ok _, s') => (.ok (pkg.answer .success []), s')
        | (.error _, s') => (.ok (pkg.answer .storeFailed []), s')
      | .getFile =>
        match (StoreManager.getBinaryData E u.text).run Prim.step s with
        | (.ok data, s') => (.ok (pkg.answer .success data), s')
        | (.error _, s') => (.ok (pkg.answer .fileNotFound []), s')
      | .deleteFile =>
        match (StoreManager.delete u.text false).run Prim.step s with
        | (.ok _, s') => (.ok (pkg.answer .success []), s')
        | (.error _, s') => (.ok (pkg.answer .fileNotFound []), s')
      | .none => (.ok (pkg.answer .internalError []), s) := by
  unfold processPackage
  simp only [hid, splitNul_text, utf8_text_ne_nil, if_false, fromUtf8_utf8, Package.answer]
  cases pkg.behavior with
  | putFile =>
    simp only [run_bind, run_attempt]
    rcases (StoreManager.putBinaryData E d u.text pkg.content.data _ _).run Prim.step s with
      ⟨_ | _, s'⟩ <;> rfl
  | getFile =>
    simp only [run_bind, run_attempt]
    rcases (StoreManager.getBinaryData E u.text).run Prim.step s with ⟨_ | _, s'⟩ <;> rfl
  | deleteFile =>
    simp only [run_bind, run_attempt]
    rcases (StoreManager.delete u.text false).run Prim.step s with ⟨_ | _, s'⟩ <;> rfl
  | none => rfl

/-- The write that an order is for. -/
def Package.put (pkg : Package) (d : Draws) (name : String) : Call :=
  .put d name pkg.content.data (flagSet pkg.content.flags .cover)
    (flagSet pkg.content.flags .compress)

/-- An order to write is carried out as a write. -/
theorem step_order_put_eq {extra : SourceId → ℕ} (hs : sv.store.Sound extra)
    (hfresh : d.Fresh sv.store) (hbehavior : pkg.behavior = .putFile)
    (hid : pkg.content.identifier = utf8 u.text) :
    ServerPrim.step E (.order d pkg) sv = (.ok (pkg.answer .success []),
      { sv with store := (((pkg.put d u.text).program E).run Prim.step sv.store).2 }) := by
  have hok : (((pkg.put d u.text).program E).run Prim.step sv.store).1 = .ok () := by
    rw [((pkg.put d u.text).run_effect E hs hfresh).2.1, Package.put, Call.refusal,
      if_neg u.text_ne_empty]
  have hrun : (StoreManager.putBinaryData E d u.text pkg.content.data
      (flagSet pkg.content.flags .cover) (flagSet pkg.content.flags .compress)).run Prim.step
      sv.store = (.ok (), (((pkg.put d u.text).program E).run Prim.step sv.store).2) :=
    Prod.ext hok rfl
  rw [ServerPrim.step_order, processed, run_processPackage hid, hbehavior]
  simp only [hrun]
  rfl

/-- An order to write succeeds, and sets the content of the name. -/
theorem step_order_put (d : Draws) (pkg : Package) (sv : Server) (hE : E.Lossless)
    (hD : Set.InjOn E.hash256 D) (h : Reachable E D sv.store)
    (hfresh : d.Fresh sv.store) (hdata : pkg.content.data ∈ D)
    (hbehavior : pkg.behavior = .putFile) (hid : pkg.content.identifier = utf8 u.text) :
    ∃ store, ServerPrim.step E (.order d pkg) sv =
        (.ok (pkg.answer .success []), { sv with store }) ∧
      Reachable E D store ∧
      store.contents E = (sv.store.contents E).put u.text pkg.content.data := by
  refine ⟨_, step_order_put_eq h.sound hfresh hbehavior hid,
    .call (pkg.put d u.text) h hfresh hdata, ?_⟩
  rw [h.contents_run hE hD (pkg.put d u.text) hfresh hdata, Package.put, Call.apply,
    if_neg u.text_ne_empty]

/-- An order to read gives the content of the name. -/
theorem step_order_get (d : Draws) (pkg : Package) (sv : Server)
    (hbehavior : pkg.behavior = .getFile) (hid : pkg.content.identifier = utf8 u.text) :
    ServerPrim.step E (.order d pkg) sv =
      (.ok (match sv.store.contents E u.text with
        | some data => pkg.answer .success data
        | none => pkg.answer .fileNotFound []), sv) := by
  rw [ServerPrim.step_order, processed, run_processPackage hid, hbehavior]
  simp only [StoreManager.run_getBinaryData, Store.contents]
  rcases sv.store.get E u.text with _ | data <;> rfl

/-- Any other order is refused. -/
theorem step_order_none (d : Draws) (pkg : Package) (sv : Server)
    (hbehavior : pkg.behavior = .none) (hid : pkg.content.identifier = utf8 u.text) :
    ServerPrim.step E (.order d pkg) sv = (.ok (pkg.answer .internalError []), sv) := by
  rw [ServerPrim.step_order, processed, run_processPackage hid, hbehavior]
  rfl

/-- An order to delete is carried out as a deletion. -/
theorem step_order_delete_eq {extra : SourceId → ℕ} (hs : sv.store.Sound extra)
    (hbehavior : pkg.behavior = .deleteFile) (hid : pkg.content.identifier = utf8 u.text) :
    ServerPrim.step E (.order d pkg) sv = (.ok (pkg.answer .success []),
      { sv with store := (((Call.delete u.text false).program E).run Prim.step sv.store).2 }) := by
  have hok : (((Call.delete u.text false).program E).run Prim.step sv.store).1 = .ok () := by
    rw [((Call.delete u.text false).run_effect E hs trivial).2.1, Call.refusal,
      if_neg u.text_ne_empty]
  have hrun : (StoreManager.delete u.text false).run Prim.step sv.store =
      (.ok (), (((Call.delete u.text false).program E).run Prim.step sv.store).2) :=
    Prod.ext hok rfl
  rw [ServerPrim.step_order, processed, run_processPackage hid, hbehavior]
  simp only [hrun]
  rfl

/-- An order to delete succeeds, and removes the name. -/
theorem step_order_delete (d : Draws) (pkg : Package) (sv : Server) (hE : E.Lossless)
    (hD : Set.InjOn E.hash256 D) (h : Reachable E D sv.store) (hbehavior : pkg.behavior = .deleteFile)
    (hid : pkg.content.identifier = utf8 u.text) :
    ∃ store, ServerPrim.step E (.order d pkg) sv =
        (.ok (pkg.answer .success []), { sv with store }) ∧
      Reachable E D store ∧
      store.contents E = (sv.store.contents E).delete u.text false := by
  refine ⟨_, step_order_delete_eq h.sound hbehavior hid,
    .call (.delete u.text false) h trivial trivial, ?_⟩
  rw [h.contents_run hE hD (.delete u.text false) trivial trivial, Call.apply,
    if_neg u.text_ne_empty]

end Orders

/-! ## The map -/

/-- The data of objects, by bucket and key. -/
abbrev Objects := String × String → Option Bytes

/-- The objects of a server are `m`: what the store has under the names that the mapper
    has for them. -/
structure Server.Holds (E : Engine) (D : Set Bytes) (m : Objects) (sv : Server) : Prop where
  reachable : Reachable E D sv.store
  named : ∀ name ∈ sv.mapper.names, ∃ u : Uuid, name = u.text
  objects : ∀ a : String × String, m a = (sv.mapper.resolve a.1 a.2).bind (sv.store.contents E)

namespace Server.Holds

variable {E : Engine} {D : Set Bytes} {m : Objects} {sv : Server} {a : String × String}
  {store : Store}

/-- A new object, under a new name. -/
theorem write (h : sv.Holds E D m) {u : Uuid} {data : Bytes} (hnew : u.text ∉ sv.mapper.names)
    (hfree : sv.mapper.resolve a.1 a.2 = none) (hreach : Reachable E D store)
    (hstore : store.contents E = (sv.store.contents E).put u.text data) :
    Server.Holds E D (Function.update m a (some data))
      { sv with mapper := sv.mapper.register a.1 a.2 u.text, store } := by
  refine ⟨hreach, fun name hname => ?_, fun a' => ?_⟩
  · rcases BucketMapper.mem_names_register hname with hname | rfl
    · exact h.named name hname
    · exact ⟨u, rfl⟩
  rw [BucketMapper.resolve_register hnew, hstore]
  by_cases ha : a' = a
  · subst ha
    rw [Function.update_self, if_pos ⟨rfl, hfree⟩, Option.bind_some, Contents.put,
      Function.update_self]
  rw [Function.update_of_ne ha, if_neg fun h => ha h.1, h.objects]
  cases hresolve : sv.mapper.resolve a'.1 a'.2 with
  | none => rfl
  | some name =>
    have hne : name ≠ u.text := fun heq =>
      hnew (heq ▸ BucketMapper.mem_names_of_resolve hresolve)
    rw [Option.bind_some, Option.bind_some, Contents.put, Function.update_of_ne hne]

theorem delete_eq (c : Contents) (name name' : String) :
    c.delete name false name' = if name' = name then none else c name' := by
  simp [Contents.delete, nameMatches]

/-- An object is removed from the store; the mapper may keep its name. -/
theorem delete (h : sv.Holds E D m) {name : String}
    (hresolve : sv.mapper.resolve a.1 a.2 = some name) (hreach : Reachable E D store)
    (hstore : store.contents E = (sv.store.contents E).delete name false) :
    Server.Holds E D (Function.update m a none) { sv with store } := by
  refine ⟨hreach, h.named, fun a' => ?_⟩
  rw [hstore]
  by_cases ha : a' = a
  · subst ha
    rw [Function.update_self, hresolve, Option.bind_some, delete_eq, if_pos rfl]
  rw [Function.update_of_ne ha, h.objects]
  cases hresolve' : sv.mapper.resolve a'.1 a'.2 with
  | none => rfl
  | some name' =>
    have hne : name' ≠ name := fun heq =>
      ha (BucketMapper.resolve_inj hresolve (heq ▸ hresolve'))
    rw [Option.bind_some, Option.bind_some, delete_eq, if_neg hne]

/-- An object that is not there is removed from the mapper. -/
theorem forget (h : sv.Holds E D m) (ha : m a = none) :
    Server.Holds E D m { sv with mapper := sv.mapper.delete a.1 a.2 } := by
  refine ⟨h.reachable, fun name hname => h.named name (BucketMapper.mem_names_delete hname),
    fun a' => ?_⟩
  rw [BucketMapper.resolve_delete]
  split
  · next heq => rw [show a' = a from heq, ha, Option.bind_none]
  · exact h.objects a'

end Server.Holds

end LiNaStore
