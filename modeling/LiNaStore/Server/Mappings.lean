import LiNaStore.Server.Names

/-!
# The mapper and the store

The mapper and the store are two databases, and a request changes first the one and then
the other. A write registers its new name before it gives its order, and does not take the
name back whatever comes of the order: the mapper is as before if and only if the request
is refused before that, or the object has a name already (`write_unseen_iff`).

A write to an object that has a name stores its data under one that is not registered, and
a deletion of the advanced protocol leaves the name. These two are all that goes wrong: in
a run without them the names of the links are exactly the names of the objects, each of one
object (`links_matched`).
-/

namespace LiNaStore

open Program

/-! ## Orders that fail -/

/-- The order is not answered in time, and was not taken. -/
def timedOut (_ : Draws) (_ : Package) (s : Store) : Except ServerError Package × Store :=
  (.error .timeout, s)

/-- Two tables give the same answers. -/
structure BucketMapper.SameView (m m' : BucketMapper) : Prop where
  resolve : ∀ bucket key, m.resolve bucket key = m'.resolve bucket key
  listBucket : ∀ bucket front, m.listBucket bucket front = m'.listBucket bucket front

theorem BucketMapper.register_of_mem {m : BucketMapper} {bucket key name : String}
    (h : m.resolve bucket key ≠ none ∨ name ∈ m.names) : m.register bucket key name = m := by
  refine dif_neg fun hfree => ?_
  rcases h with h | h
  · exact h (Option.map_eq_none_iff.mpr hfree.1)
  · exact hfree.2 h

namespace FrontRequest

/-- A request to write an object. -/
def IsWrite : FrontRequest → Prop
  | advanced message _ => message.op = .write
  | s3 .put uri _ => (s3Address uri).isSome
  | s3 .. => False

/-- A request that is authorized and can be opened, and writes an object without a name under a
    name that no object has. -/
def Records (C : Cipher) (authRequired : Bool) (sv : Server) (d : FrontDraws)
    (r : FrontRequest) : Prop :=
  r.Authorized authRequired sv ∧ ∃ a data, r.written C authRequired = some (a, data) ∧
    sv.mapper.resolve a.1 a.2 = none ∧ d.internalName.text ∉ sv.mapper.names

end FrontRequest

section Writes

variable {C : Cipher} {authRequired : Bool} {sv : Server} {d : FrontDraws} {message : LiNaProtocol}
  {outcome : Draws → Package → Store → Except ServerError Package × Store}

/-- A write is served if and only if it is authorized and what it sends can be opened. -/
theorem exists_received_write_iff (hop : message.op ≠ .auth) (hwrite : message.op = .write) :
    (∃ data, sv.received C authRequired message = .ok data) ↔
      (FrontRequest.advanced message hop).Authorized authRequired sv ∧
        ((FrontRequest.advanced message hop).written C authRequired).isSome := by
  rw [FrontRequest.written, if_pos hwrite, Option.isSome_map, FrontRequest.Authorized,
    Server.received, hwrite]
  cases authRequired with
  | false =>
    obtain ⟨data, hopen, -⟩ := exists_openFileData C (splitPayload .write message.payload.data).1
      (splitPayload .write message.payload.data).2
    exact iff_of_true ⟨data, hopen⟩ ⟨fun h => absurd h Bool.false_ne_true, rfl⟩
  | true =>
    rcases splitNul_cases message.payload.data with hnone | ⟨token, fileData, htoken, hpayload⟩
    · -- without a zero byte there is no token
      rcases splitPayload_write message.payload.data with ⟨-, hsplit⟩ | ⟨hmem, -⟩
      · rw [hsplit]
        refine iff_of_false (by rintro ⟨_, h⟩; cases h) fun h => ?_
        obtain ⟨token, htoken, -⟩ := h.1 rfl
        cases htoken
      · exact absurd hmem hnone
    · have hsplit : splitPayload .write message.payload.data = (fromUtf8 token, fileData) := by
        rw [splitPayload, hpayload, if_pos ⟨rfl, by simp⟩, splitNul_append htoken]
      rw [hsplit, sentData, if_pos rfl, hpayload, splitNul_append htoken]
      dsimp only
      cases fromUtf8 token with
      | none =>
        refine iff_of_false (by rintro ⟨_, h⟩; cases h) fun h => ?_
        obtain ⟨token, htoken, -⟩ := h.1 rfl
        cases htoken
      | some token =>
        simp only [if_true, Option.some.injEq, forall_const, exists_eq_left', Option.bind_some]
        split_ifs with hvalid hnil
        · exact iff_of_true ⟨[], by rw [hnil]; rfl⟩ ⟨hvalid, rfl⟩
        · rw [openFileData, if_pos hnil, and_iff_right hvalid]
          cases decryptWithToken C token fileData with
          | error e => exact iff_of_false (by rintro ⟨_, h⟩; cases h) (by simp [Except.toOption])
          | ok data => exact iff_of_true ⟨data, rfl⟩ rfl
        · exact iff_of_false (by rintro ⟨_, h⟩; cases h) fun h => hvalid h.1
        · exact iff_of_false (by rintro ⟨_, h⟩; cases h) fun h => hvalid h.1

/-- The mapper after a write of the advanced protocol. -/
theorem mapper_run_serve (hwrite : message.op = .write) :
    ((serve C authRequired d message).run (ServerPrim.stepWith outcome) sv).2.mapper =
      match sv.received C authRequired message with
      | .ok _ => sv.mapper.register message.address.1 message.address.2 d.internalName.text
      | .error _ => sv.mapper := by
  rw [serve, run_bind, run_receiveData fun _ => rfl]
  cases sv.received C authRequired message with
  | error status => rfl
  | ok data =>
    let sv₁ : Server := { sv with
      mapper := sv.mapper.register message.address.1 message.address.2 d.internalName.text }
    have hresolved : (resolvedIdentifier message.op d message.address.1 message.address.2).run
        (ServerPrim.stepWith outcome) sv = (.ok (.ok (utf8 d.internalName.text)), sv₁) := by
      rw [hwrite]
      rfl
    rw [LiNaProtocol.address] at hresolved
    dsimp only
    rw [run_bind, hresolved]
    dsimp only
    rw [placeOrder, run_bind, run_attempt, run_perform, ServerPrim.stepWith]
    dsimp only
    cases (outcome d.worker (orderPkg d message (utf8 d.internalName.text) data) sv₁.store).1 <;> rfl

/-- The mapper after a write over HTTP. -/
theorem mapper_run_putObject (bucket key : String) (data : Bytes) :
    ((putObject d bucket key (some data)).run (ServerPrim.stepWith outcome) sv).2.mapper =
      sv.mapper.register bucket key d.internalName.text := by
  let pkg := queuePkg d .putFile d.internalName.text data
  have hqueue (sv₁ : Server) : ∃ r, (processThroughQueue d .putFile d.internalName.text data).run
      (ServerPrim.stepWith outcome) sv₁ =
        (.ok r, { sv₁ with store := (outcome d.worker pkg sv₁.store).2 }) := by
    rw [processThroughQueue, run_bind, run_attempt, run_perform, ServerPrim.stepWith]
    dsimp only
    cases (outcome d.worker (queuePkg d .putFile d.internalName.text data) sv₁.store).1 <;>
    exact ⟨_, rfl⟩
  obtain ⟨r, hr⟩ := hqueue { sv with mapper := sv.mapper.register bucket key d.internalName.text }
  have hregister : ((ask (.register bucket key d.internalName.text)).run
      (ServerPrim.stepWith outcome) sv).2 =
      { sv with mapper := sv.mapper.register bucket key d.internalName.text } := rfl
  rw [putObject, run_ignore_bind, hregister, run_bind, hr]
  cases r <;> rfl

/-- What follows the handling of a request does not change the state. -/
theorem state_run_return {α β σ : Type}
    {step : (p : ServerPrim) → σ → Except ServerError p.Res × σ} (p : ServerProg α) (f : α → β)
    (s : σ) : ((do return f (← p)).run step s).2 = (p.run step s).2 := by
  rw [run_bind]
  rcases p.run step s with ⟨_ | _, s'⟩ <;> rfl

/-- The mapper after a write: if the request got so far, its name was registered, whatever came
    of the order. -/
theorem mapper_run_program {r : FrontRequest} (hwrite : r.IsWrite) {sv' : Server}
    (hrun : ((r.program C authRequired d).run (ServerPrim.stepWith outcome) sv).2 = sv') :
    (∃ a data, r.Authorized authRequired sv ∧ r.written C authRequired = some (a, data) ∧
      sv'.mapper = sv.mapper.register a.1 a.2 d.internalName.text) ∨
    ¬(r.Authorized authRequired sv ∧ (r.written C authRequired).isSome) ∧
      sv'.mapper = sv.mapper := by
  subst hrun
  cases r with
  | advanced message hop =>
    change message.op = .write at hwrite
    rw [FrontRequest.program, state_run_return, mapper_run_serve hwrite]
    rcases hreceived : sv.received C authRequired message with status | data
    · refine .inr ⟨fun h => ?_, rfl⟩
      obtain ⟨data, hdata⟩ := (exists_received_write_iff hop hwrite).mpr h
      rw [hreceived] at hdata
      cases hdata
    · obtain ⟨hauth, hsome⟩ := (exists_received_write_iff hop hwrite).mp ⟨data, hreceived⟩
      obtain ⟨⟨a, sent⟩, hwritten⟩ := Option.isSome_iff_exists.mp hsome
      refine .inl ⟨a, sent, hauth, hwritten, ?_⟩
      rw [FrontRequest.written, if_pos hwrite, Option.map_eq_some_iff] at hwritten
      obtain ⟨_, -, heq⟩ := hwritten
      cases heq
      rfl
  | s3 method uri body =>
    cases method with
    | put =>
      obtain ⟨⟨bucket, key⟩, haddress⟩ := Option.isSome_iff_exists.mp hwrite
      rw [FrontRequest.program, state_run_return, handleS3_object d .put body haddress]
      cases body with
      | none => exact .inr ⟨fun h => Bool.false_ne_true h.2, rfl⟩
      | some data =>
        refine .inl ⟨(bucket, key), data, trivial, ?_, mapper_run_putObject bucket key data⟩
        rw [FrontRequest.written, haddress]
        rfl
    | _ => exact hwrite.elim

/-- Whatever comes of the order of a write, the mapper answers as before if and only if the write
    is refused before it, or finds a name; and then the table is as before. -/
theorem write_unseen_iff {r : FrontRequest} (hwrite : r.IsWrite) (d : FrontDraws)
    (outcome : Draws → Package → Store → Except ServerError Package × Store) {sv sv' : Server}
    (hrun : ((r.program C authRequired d).run (ServerPrim.stepWith outcome) sv).2 = sv') :
    (sv'.mapper.SameView sv.mapper ↔ ¬ r.Records C authRequired sv d) ∧
      (¬ r.Records C authRequired sv d → sv'.mapper = sv.mapper) := by
  have hsame (heq : sv'.mapper = sv.mapper) : sv'.mapper.SameView sv.mapper := by
    rw [heq]
    exact ⟨fun _ _ => rfl, fun _ _ => rfl⟩
  rcases mapper_run_program hwrite hrun with ⟨a, data, hauth, hwritten, hmapper⟩ | ⟨hnot, hmapper⟩
  · by_cases hnew : sv.mapper.resolve a.1 a.2 = none ∧ d.internalName.text ∉ sv.mapper.names
    · -- the new name is found
      have hrecords : r.Records C authRequired sv d := ⟨hauth, a, data, hwritten, hnew⟩
      refine ⟨iff_of_false (fun hview => ?_) (not_not_intro hrecords), (absurd hrecords ·)⟩
      have hresolve := hview.resolve a.1 a.2
      rw [hmapper, BucketMapper.resolve_register hnew.2, if_pos ⟨rfl, hnew.1⟩, hnew.1] at hresolve
      cases hresolve
    · have heq : sv'.mapper = sv.mapper := by
        rw [hmapper]
        refine BucketMapper.register_of_mem ?_
        rwa [← not_not (a := _ ∈ _), ne_eq, ← not_and_or]
      refine ⟨iff_of_true (hsame heq) ?_, fun _ => heq⟩
      rintro ⟨-, a', data', hwritten', hnew'⟩
      rw [hwritten] at hwritten'
      cases hwritten'
      exact hnew hnew'
  · refine ⟨iff_of_true (hsame hmapper) ?_, fun _ => hmapper⟩
    rintro ⟨hauth, a, data, hwritten, -⟩
    exact hnot ⟨hauth, by rw [hwritten]; rfl⟩

end Writes

/-- The server after one raw upload. -/
def Server.uploaded : Server :=
  ((serve .rejecting false (.sample 0) (rawUpload [1])).run (ServerPrim.step .plain)
    (.start fun _ _ => none)).2

/-- A second write to the object, that times out, leaves the mapper. -/
theorem write_unseen_second :
    Server.uploaded.mapper.resolve "default" "a" ≠ none ∧
      ((FrontRequest.program .rejecting false (.sample 1) (.s3 .put "/default/a" (some [2]))).run
        (ServerPrim.stepWith timedOut) Server.uploaded).2.mapper.SameView
          Server.uploaded.mapper := by
  have hfound : Server.uploaded.mapper.resolve "default" "a" ≠ none := by decide
  have hwrite : (FrontRequest.s3 .put "/default/a" (some [2])).IsWrite := rfl
  refine ⟨hfound, (write_unseen_iff hwrite (.sample 1) timedOut rfl).1.mpr ?_⟩
  rintro ⟨-, a, data, hwritten, hnone, -⟩
  cases hwritten
  exact hfound hnone

/-- A first write to an object times out. It is not acknowledged, but the object has a name. -/
theorem timed_out_write_seen :
    ∃ reply sv', (FrontRequest.program .rejecting false (.sample 0)
        (.advanced (rawUpload [1]) (by decide))).run (ServerPrim.stepWith timedOut)
        (.start fun _ _ => none) = (.ok reply, sv') ∧
      reply.acknowledged = false ∧
      (Server.start fun _ _ => none).mapper.resolve "default" "a" = none ∧
      sv'.mapper.resolve "default" "a" ≠ none ∧
      ¬ sv'.mapper.SameView (Server.start fun _ _ => none).mapper := by
  refine ⟨_, _, rfl, by decide, rfl, by decide, fun hview => ?_⟩
  exact absurd (hview.resolve "default" "a") (by decide)

/-! ## Links and names -/

/-- The names of the links are the names in the mapper. -/
def Server.Matched (sv : Server) : Prop := ∀ name, sv.store.Linked name ↔ name ∈ sv.mapper.names

/-- A request that, if it is authorized, neither writes an object that has a name nor, in the
    advanced protocol, deletes one. -/
def FrontRequest.Pairs (C : Cipher) (authRequired : Bool) (sv : Server) (r : FrontRequest) : Prop :=
  r.Authorized authRequired sv →
    (∀ a data, r.written C authRequired = some (a, data) → sv.mapper.resolve a.1 a.2 = none) ∧
    ∀ message hop, r = .advanced message hop → message.op = .delete →
      sv.mapper.resolve message.address.1 message.address.2 = none

namespace BucketMapper

variable {m : BucketMapper} {bucket key name : String}

theorem mem_names_iff : name ∈ m.names ↔ ∃ a : String × String, m.resolve a.1 a.2 = some name := by
  constructor
  · intro h
    obtain ⟨row, hrow, rfl⟩ := List.mem_map.mp h
    refine ⟨row.address, ?_⟩
    rw [resolve, show (row.address.1, row.address.2) = row.address from rfl, Table.find?_key hrow]
    rfl
  · rintro ⟨a, ha⟩
    exact mem_names_of_resolve ha

theorem mem_names_register_iff (hfree : m.resolve bucket key = none) (hname : name ∉ m.names)
    (name' : String) :
    name' ∈ (m.register bucket key name).names ↔ name' = name ∨ name' ∈ m.names := by
  simp only [mem_names_iff, resolve_register hname]
  constructor
  · rintro ⟨a, ha⟩
    split_ifs at ha
    · exact .inl (Option.some.inj ha).symm
    · exact .inr ⟨a, ha⟩
  · rintro (rfl | ⟨a, ha⟩)
    · exact ⟨(bucket, key), if_pos ⟨rfl, hfree⟩⟩
    · refine ⟨a, ?_⟩
      rw [if_neg, ha]
      rintro ⟨h, -⟩
      cases h
      rw [hfree] at ha
      cases ha

theorem mem_names_delete_iff (h : m.resolve bucket key = some name) (name' : String) :
    name' ∈ (m.delete bucket key).names ↔ name' ∈ m.names ∧ name' ≠ name := by
  simp only [mem_names_iff, resolve_delete]
  constructor
  · rintro ⟨a, ha⟩
    split_ifs at ha with heq
    refine ⟨⟨a, ha⟩, fun hname => heq ?_⟩
    exact resolve_inj h (hname ▸ ha)
  · rintro ⟨⟨a, ha⟩, hne⟩
    refine ⟨a, ?_⟩
    rw [if_neg, ha]
    intro heq
    cases heq
    rw [h] at ha
    exact hne (Option.some.inj ha).symm

end BucketMapper

/-- What a request does to the names of both. -/
inductive FrontRequest.Effect (C : Cipher) (authRequired : Bool) (E : Engine) (sv : Server)
    (d : FrontDraws) : FrontRequest → Server → Prop
  /-- Nothing: it is refused, reads, or is about an object that is not there. -/
  | quiet {r : FrontRequest} : r.Pairs C authRequired sv → Effect C authRequired E sv d r sv
  /-- A write stores a new name, and tries to register it. -/
  | write {r : FrontRequest} {a : String × String} {data : Bytes} {store : Store} :
      r.Authorized authRequired sv → r.written C authRequired = some (a, data) → r.deleted = none →
      Reachable E Set.univ store →
      (∀ name, store.Linked name ↔ name = d.internalName.text ∨ sv.store.Linked name) →
      (∀ name ≠ d.internalName.text, store.contents E name = sv.store.contents E name) →
      Effect C authRequired E sv d r
        { sv with mapper := sv.mapper.register a.1 a.2 d.internalName.text, store }
  /-- A deletion of the advanced protocol. -/
  | delete {message : LiNaProtocol} {hop : message.op ≠ .auth} {name : String} {store : Store} :
      (FrontRequest.advanced message hop).Authorized authRequired sv → message.op = .delete →
      sv.mapper.resolve message.address.1 message.address.2 = some name →
      Reachable E Set.univ store →
      (∀ name', store.Linked name' ↔ sv.store.Linked name' ∧ name' ≠ name) →
      Effect C authRequired E sv d (.advanced message hop) { sv with store }
  /-- A deletion over HTTP. -/
  | forget {uri : String} {body : Option Bytes} {a : String × String} {name : String}
      {store : Store} : sv.mapper.resolve a.1 a.2 = some name → Reachable E Set.univ store →
      (∀ name', store.Linked name' ↔ sv.store.Linked name' ∧ name' ≠ name) →
      Effect C authRequired E sv d (.s3 .delete uri body)
        { sv with mapper := sv.mapper.delete a.1 a.2, store }

section Matched

variable {C : Cipher} {authRequired : Bool} {E : Engine} {sv sv' : Server} {d : FrontDraws}

/-- The store after an order to write. -/
theorem linked_put {s : Store} {pkg : Package} (h : Reachable E Set.univ s)
    (hfresh : d.worker.Fresh s) (name : String) :
    (((pkg.put d.worker d.internalName.text).program E).run Prim.step s).2.Linked name ↔
      name = d.internalName.text ∨ s.Linked name := by
  have heffect := ((pkg.put d.worker d.internalName.text).run_effect E h.sound hfresh).2.2
  exact (heffect.linked_iff h.sound name).trans
    (or_congr_left (and_iff_right d.internalName.text_ne_empty))

/-- The other names keep their contents. -/
theorem contents_put {s : Store} {pkg : Package} (h : Reachable E Set.univ s)
    (hfresh : d.worker.Fresh s) {name : String} (hname : name ≠ d.internalName.text) :
    (((pkg.put d.worker d.internalName.text).program E).run Prim.step s).2.contents E name =
      s.contents E name := by
  have heffect := ((pkg.put d.worker d.internalName.text).run_effect E h.sound hfresh).2.2
  generalize (((pkg.put d.worker d.internalName.text).program E).run Prim.step s).2 = s' at heffect
  cases heffect with
  | refused _ => rfl
  | put _ _ heff =>
    exact congrArg Except.toOption (Store.get_congr (heff.read_of_ne h.sound hfresh hname))

/-- The store after an order to delete. -/
theorem linked_delete {s : Store} {u : Uuid} (h : Reachable E Set.univ s) (name : String) :
    (((Call.delete u.text false).program E).run Prim.step s).2.Linked name ↔
      s.Linked name ∧ name ≠ u.text := by
  have heffect := ((Call.delete u.text false).run_effect E h.sound trivial).2.2
  rw [heffect.linked_iff h.sound name]
  refine and_congr_right fun _ => not_congr ?_
  rw [and_iff_right u.text_ne_empty]
  simp [nameMatches]

/-- A request of the advanced protocol that does not write, and does not delete an object. -/
theorem pairs_advanced {message : LiNaProtocol} {hop : message.op ≠ .auth}
    (hwrite : message.op ≠ .write) (hdelete : message.op = .delete →
      sv.mapper.resolve message.address.1 message.address.2 = none) :
    (FrontRequest.advanced message hop).Pairs C authRequired sv := by
  refine fun _ => ⟨fun a data hwritten => ?_, ?_⟩
  · rw [FrontRequest.written, if_neg hwrite] at hwritten
    cases hwritten
  · rintro _ _ ⟨⟩ hop
    exact hdelete hop

/-- A request of the advanced protocol that is refused. -/
theorem pairs_of_received_error {message : LiNaProtocol} {hop : message.op ≠ .auth} {status : Status}
    (h : sv.received C authRequired message = .error status) :
    (FrontRequest.advanced message hop).Pairs C authRequired sv := by
  intro hauth
  have hnot (hdata : ∃ data, sv.received C authRequired message = .ok data) : False := by
    obtain ⟨data, hdata⟩ := hdata
    rw [h] at hdata
    cases hdata
  constructor
  · intro a data hwritten
    by_cases hwrite : message.op = .write
    · refine (hnot ((exists_received_write_iff hop hwrite).mpr ⟨hauth, ?_⟩)).elim
      rw [hwritten]
      rfl
    · rw [FrontRequest.written, if_neg hwrite] at hwritten
      cases hwritten
  · rintro _ _ ⟨⟩ hdelete
    refine (hnot (exists_received ?_ hauth)).elim
    rw [hdelete]
    decide

/-- A request of the advanced protocol has one of these effects. -/
theorem exists_effect_serve {message : LiNaProtocol} (hop : message.op ≠ .auth)
    (h : Reachable E Set.univ sv.store) (hnamed : sv.Named) (hfresh : d.Fresh sv) :
    ∃ reply sv', (serve C authRequired d message).run (ServerPrim.step E) sv = (.ok reply, sv') ∧
      FrontRequest.Effect C authRequired E sv d (.advanced message hop) sv' := by
  rcases hreceived : sv.received C authRequired message with status | data
  · exact ⟨_, sv, run_serve_error hreceived, .quiet (pairs_of_received_error hreceived)⟩
  have hauth := authorized_of_received hop hreceived
  by_cases hwrite : message.op = .write
  · let name := utf8 d.internalName.text
    let sv₁ : Server := { sv with
      mapper := sv.mapper.register message.address.1 message.address.2 d.internalName.text }
    have hresolved : (resolvedIdentifier message.op d message.address.1 message.address.2).run
        (ServerPrim.step E) sv = (.ok (.ok name), sv₁) := by
      rw [hwrite]
      rfl
    have hbehavior : (orderPkg d message name data).behavior = .putFile := by
      rw [orderPkg, hwrite]
      rfl
    have hstep : ServerPrim.step E (.order d.worker (orderPkg d message name data)) sv₁ = _ :=
      step_order_put_eq h.sound hfresh.worker hbehavior (identifier_orderPkg ..)
    have hwritten := ((exists_received_write_iff hop hwrite).mp ⟨data, hreceived⟩).2
    obtain ⟨⟨a, sent⟩, hwritten⟩ := Option.isSome_iff_exists.mp hwritten
    obtain rfl : message.address = a := by
      rw [FrontRequest.written, if_pos hwrite, Option.map_eq_some_iff] at hwritten
      obtain ⟨_, -, heq⟩ := hwritten
      exact (Prod.mk.inj heq).1
    refine ⟨_, _, (run_serve_ok hreceived hresolved).trans (run_placeOrder hstep),
      .write hauth hwritten ?_ (.call _ h hfresh.worker trivial) (linked_put h hfresh.worker)
        fun _ => contents_put h hfresh.worker⟩
    exact if_neg (by rw [hwrite]; decide)
  have hresolved := run_resolvedIdentifier E sv d hwrite message.address.1 message.address.2
  rcases hresolve : sv.mapper.resolve message.address.1 message.address.2 with _ | name
  · rw [hresolve] at hresolved
    exact ⟨_, sv, run_serve_ok hreceived hresolved, .quiet (pairs_advanced hwrite fun _ => hresolve)⟩
  · obtain ⟨u, rfl⟩ := hnamed name (BucketMapper.mem_names_of_resolve hresolve)
    rw [hresolve] at hresolved
    have hserve {sv' : Server} {pkg : Package} (hstep : ServerPrim.step E (.order d.worker
        (orderPkg d message (utf8 u.text) data)) sv = (.ok pkg, sv')) :=
      (run_serve_ok hreceived hresolved).trans (run_placeOrder hstep)
    have hbehavior : (orderPkg d message (utf8 u.text) data).behavior = message.op.behavior := rfl
    have hid := identifier_orderPkg d message (utf8 u.text) data
    cases hmop : message.op with
    | write => exact absurd hmop hwrite
    | auth => exact absurd hmop hop
    | read =>
      rw [hmop] at hbehavior
      refine ⟨_, _, hserve (step_order_get _ _ sv hbehavior hid), .quiet (pairs_advanced hwrite ?_)⟩
      rw [hmop]
      intro h
      cases h
    | none =>
      rw [hmop] at hbehavior
      refine ⟨_, _, hserve (step_order_none _ _ sv hbehavior hid), .quiet (pairs_advanced hwrite ?_)⟩
      rw [hmop]
      intro h
      cases h
    | delete =>
      rw [hmop] at hbehavior
      exact ⟨_, _, hserve (step_order_delete_eq h.sound hbehavior hid), .delete hauth hmop hresolve
        (.call (.delete u.text false) h trivial trivial) (linked_delete h)⟩

/-- A request over HTTP that neither writes nor deletes. -/
theorem pairs_s3 {method : Method} {uri : String} {body : Option Bytes}
    (hwritten : (FrontRequest.s3 method uri body).written C authRequired = none) :
    (FrontRequest.s3 method uri body).Pairs C authRequired sv := by
  refine fun _ => ⟨fun a data h => ?_, nofun⟩
  rw [hwritten] at h
  cases h

/-- A request over HTTP has one of these effects. -/
theorem exists_effect_handleS3 {method : Method} {uri : String} {body : Option Bytes}
    (h : Reachable E Set.univ sv.store) (hnamed : sv.Named) (hfresh : d.Fresh sv) :
    ∃ response sv', (handleS3 d method uri body).run (ServerPrim.step E) sv = (.ok response, sv') ∧
      FrontRequest.Effect C authRequired E sv d (.s3 method uri body) sv' := by
  rcases haddress : s3Address uri with _ | ⟨bucket, key⟩
  · obtain ⟨response, hrun⟩ := run_handleS3_elsewhere E sv d method body haddress
    exact ⟨response, sv, hrun, .quiet (pairs_s3 (written_elsewhere haddress))⟩
  rw [handleS3_object d method body haddress]
  cases method with
  | get => exact ⟨_, sv, run_getObject_eq hnamed bucket key, .quiet (pairs_s3 rfl)⟩
  | head =>
    obtain ⟨response, hrun⟩ := run_headObject (E := E) (d := d) hnamed bucket key
    exact ⟨response, sv, hrun, .quiet (pairs_s3 rfl)⟩
  | put =>
    cases body with
    | none => exact ⟨_, sv, rfl, .quiet (pairs_s3 rfl)⟩
    | some data =>
      let name := d.internalName.text
      let sv₁ : Server := { sv with mapper := sv.mapper.register bucket key name }
      have hstep : ServerPrim.step E (.order d.worker (queuePkg d .putFile name data)) sv₁ = _ :=
        step_order_put_eq h.sound hfresh.worker rfl (identifier_queuePkg ..)
      have hregister : ((ask (.register bucket key name)).run (ServerPrim.step E) sv).2 = sv₁ := rfl
      have hwritten : (FrontRequest.s3 .put uri (some data)).written C authRequired =
          some ((bucket, key), data) := by
        rw [FrontRequest.written, haddress]
        rfl
      refine ⟨⟨200, [etag d], []⟩, _, ?_, .write trivial hwritten rfl
        (.call ((queuePkg d .putFile name data).put d.worker name) h hfresh.worker trivial)
        (linked_put h hfresh.worker) fun _ => contents_put h hfresh.worker⟩
      dsimp only
      rw [putObject, run_ignore_bind, hregister, run_bind, run_processThroughQueue hstep]
      rfl
  | delete =>
    dsimp only
    rw [deleteObject, run_bind, run_resolveName]
    dsimp only
    rcases hresolve : sv.mapper.resolve bucket key with _ | name
    · exact ⟨_, sv, rfl, .quiet (pairs_s3 rfl)⟩
    · obtain ⟨u, rfl⟩ := hnamed name (BucketMapper.mem_names_of_resolve hresolve)
      let sv₁ : Server := { sv with mapper := sv.mapper.delete bucket key }
      have hstep : ServerPrim.step E (.order d.worker (queuePkg d .deleteFile u.text [])) sv₁ = _ :=
        step_order_delete_eq h.sound rfl (identifier_queuePkg ..)
      have hdelete : ((ask (.deleteMapping bucket key)).run (ServerPrim.step E) sv).2 = sv₁ := rfl
      refine ⟨buildEmptyResponse 204, _, ?_, .forget (a := (bucket, key)) hresolve
        (.call (.delete u.text false) h trivial trivial) (linked_delete h)⟩
      rw [run_ignore_bind, hdelete, run_bind, run_processThroughQueue hstep]
      rfl
  | other => exact ⟨_, sv, rfl, .quiet (pairs_s3 rfl)⟩

/-- Every request is replied to, and has one of these effects. -/
theorem FrontRequest.exists_effect (r : FrontRequest) (h : Reachable E Set.univ sv.store)
    (hnamed : sv.Named) (hfresh : d.Fresh sv) :
    ∃ reply sv', (r.program C authRequired d).run (ServerPrim.step E) sv = (.ok reply, sv') ∧
      r.Effect C authRequired E sv d sv' := by
  cases r with
  | advanced message hop =>
    obtain ⟨reply, sv', hrun, heffect⟩ := exists_effect_serve hop h hnamed hfresh
    refine ⟨.advanced reply, sv', ?_, heffect⟩
    rw [FrontRequest.program, run_bind, hrun]
    rfl
  | s3 method uri body =>
    obtain ⟨response, sv', hrun, heffect⟩ := exists_effect_handleS3 h hnamed hfresh
    refine ⟨.s3 response, sv', ?_, heffect⟩
    rw [FrontRequest.program, run_bind, hrun]
    rfl

theorem FrontRequest.Effect.reachable {r : FrontRequest}
    (heffect : r.Effect C authRequired E sv d sv') (h : Reachable E Set.univ sv.store) :
    Reachable E Set.univ sv'.store := by
  cases heffect with
  | quiet _ => exact h
  | write _ _ _ hreach _ _ => exact hreach
  | delete _ _ _ hreach _ => exact hreach
  | forget _ hreach _ => exact hreach

/-- From a state where links and names match they still do if and only if the request pairs
    them. -/
theorem FrontRequest.Effect.matched_iff {r : FrontRequest}
    (heffect : r.Effect C authRequired E sv d sv') (h : sv.Matched)
    (hnew : d.internalName.text ∉ sv.mapper.names) :
    sv'.Matched ↔ r.Pairs C authRequired sv := by
  cases heffect with
  | quiet hpairs => exact iff_of_true h hpairs
  | @write r a data store hauth hwritten hdeleted _ hlinked _ =>
    by_cases hfree : sv.mapper.resolve a.1 a.2 = none
    · refine iff_of_true (fun name => ?_) fun _ => ⟨fun a' data' hwritten' => ?_, ?_⟩
      · dsimp only
        rw [hlinked, h, BucketMapper.mem_names_register_iff hfree hnew]
      · rw [hwritten] at hwritten'
        cases hwritten'
        exact hfree
      · rintro message hop rfl hdelete
        rw [FrontRequest.deleted, if_pos hdelete] at hdeleted
        cases hdeleted
    · -- the new name is stored, and the mapper keeps the old one
      refine iff_of_false (fun hmatched => hnew ?_) fun hpairs =>
        hfree ((hpairs hauth).1 a data hwritten)
      have hname := (hmatched d.internalName.text).mp ((hlinked _).mpr (.inl rfl))
      rwa [BucketMapper.register_of_mem (.inl hfree)] at hname
  | @delete message hop name store hauth hdelete hresolve _ hlinked =>
    -- the name is left in the mapper
    refine iff_of_false (fun hmatched => ?_) fun hpairs => ?_
    · have hname := (hmatched name).mpr (BucketMapper.mem_names_of_resolve hresolve)
      exact ((hlinked name).mp hname).2 rfl
    · rw [(hpairs hauth).2 message hop rfl hdelete] at hresolve
      cases hresolve
  | forget hresolve _ hlinked =>
    refine iff_of_true (fun name => ?_) (pairs_s3 rfl)
    dsimp only
    rw [hlinked, h, BucketMapper.mem_names_delete_iff hresolve]

/-- The stores of runs of requests are those of runs of calls. -/
theorem ServerRun.reachable {P : Server → FrontRequest → Prop} {m : Objects}
    (h : ServerRun C E Set.univ authRequired P sv m) : Reachable E Set.univ sv.store := by
  induction h with
  | start sessions => exact .empty
  | sessions sessions _ ih => exact ih
  | request r d reply hprev hfresh _ _ hrun ih =>
    obtain ⟨reply', sv', hrun', heffect⟩ := r.exists_effect (C := C) ih hprev.named hfresh
    rw [hrun] at hrun'
    cases hrun'
    exact heffect.reachable ih

/-- A run keeps links and names matched if all its requests pair them. -/
theorem ServerRun.matched {m : Objects} (h : ServerRun C E Set.univ authRequired
    (fun sv r => r.Pairs C authRequired sv) sv m) : sv.Matched := by
  induction h with
  | start sessions =>
    refine fun name => iff_of_false ?_ List.not_mem_nil
    rintro ⟨l, hl, -⟩
    exact List.not_mem_nil hl
  | sessions sessions _ ih => exact ih
  | request r d reply hprev hfresh _ hpairs hrun ih =>
    obtain ⟨reply', sv', hrun', heffect⟩ :=
      r.exists_effect (C := C) hprev.reachable hprev.named hfresh
    rw [hrun] at hrun'
    cases hrun'
    exact (heffect.matched_iff ih hfresh.internalName).mpr hpairs

end Matched

/-- In a run in which no authorized request writes an object that has a name, or deletes one in the
    advanced protocol, the names of the links are the names in the mapper, and each is the name of
    exactly one object. From such a state, a request leaves them so if and only if it is not one of
    those. -/
theorem links_matched {C : Cipher} {authRequired : Bool} {E : Engine} {sv : Server} {m : Objects}
    (h : ServerRun C E Set.univ authRequired (fun sv r => r.Pairs C authRequired sv) sv m) :
    sv.Matched ∧
    (∀ name, sv.store.Linked name ↔
      ∃! a : String × String, sv.mapper.resolve a.1 a.2 = some name) ∧
    ∀ (r : FrontRequest) (d : FrontDraws) (reply : FrontReply) (sv' : Server), d.Fresh sv →
      (r.program C authRequired d).run (ServerPrim.step E) sv = (.ok reply, sv') →
      (sv'.Matched ↔ r.Pairs C authRequired sv) := by
  have hmatched := h.matched
  refine ⟨hmatched, fun name => ?_, fun r d reply sv' hfresh hrun => ?_⟩
  · rw [hmatched, BucketMapper.mem_names_iff]
    refine ⟨fun ⟨a, ha⟩ => ⟨a, ha, fun a' ha' => BucketMapper.resolve_inj ha ha'⟩, ?_⟩
    exact fun h => h.exists
  · obtain ⟨reply', sv'', hrun', heffect⟩ := r.exists_effect (C := C) h.reachable h.named hfresh
    rw [hrun] at hrun'
    cases hrun'
    exact heffect.matched_iff hmatched hfresh.internalName

/-- A write over HTTP to an object without a name. -/
theorem links_matched_first :
    ∃ sv m, ServerRun .rejecting .plain Set.univ false
        (fun sv r => r.Pairs .rejecting false sv) sv m ∧
      sv.mapper.names ≠ [] ∧ sv.Matched := by
  have h : ServerRun .rejecting .plain Set.univ false (fun sv r => r.Pairs .rejecting false sv) _ _ :=
    .request (.s3 .put "/default/a" (some [1])) (.sample 0) _ (.start fun _ _ => none)
      ⟨by decide, rfl, rfl⟩ (fun _ _ _ => trivial) (fun _ => ⟨fun _ _ _ => rfl, nofun⟩) rfl
  exact ⟨_, _, h, by decide, (links_matched h).1⟩

/-- Two acknowledged writes of an object leave a link whose name no object has. -/
theorem second_write_orphaned :
    ∃ sv m, ServerRun .rejecting .plain Set.univ false (fun _ _ => True) sv m ∧
      m ("default", "a") = some [2] ∧
      (∃ name, sv.store.Linked name ∧ name ∉ sv.mapper.names) ∧ ¬ sv.Matched := by
  have h : ServerRun .rejecting .plain Set.univ false (fun _ _ => True) _ _ :=
    .request (.advanced (rawUpload [2]) (by decide)) (.sample 1) _
      (.request (.advanced (rawUpload [1]) (by decide)) (.sample 0) _ (.start fun _ _ => none)
        ⟨by decide, rfl, rfl⟩ (fun _ _ _ => trivial) trivial rfl)
      ⟨by decide, rfl, rfl⟩ (fun _ _ _ => trivial) trivial rfl
  refine ⟨_, _, h, rfl, ⟨(FrontDraws.sample 1).internalName.text, ?_, by decide⟩, fun hmatched => ?_⟩
  · exact Store.linked_iff.mpr (by decide)
  · have hname := (hmatched (FrontDraws.sample 1).internalName.text).mp
      (Store.linked_iff.mpr (by decide))
    exact absurd hname (by decide)

end LiNaStore
