import LiNaStore.Server.Mappings

/-!
# Identifiers

A client of the advanced protocol names an object by bytes: a key alone, or a bucket, a
zero byte and a key. The server makes texts of both, with a replacement character for what
is not UTF-8, and so different bytes can come to name the same object.

An identifier shares its object with no other, but for the one that leaves out or gives the
default bucket, if and only if it is UTF-8 and has no replacement character of its own; and
then a write under it changes the reply to no read under another one
(`identifier_distinct_iff`). What clients build of a bucket and a name is always taken
apart as it was put together.
-/

namespace LiNaStore

open Program

/-- The two identifiers of an object in the default bucket. -/
def Aliases (a b : Bytes) : Prop :=
  (0 ∉ a ∧ b = utf8 defaultBucket ++ 0 :: a) ∨ (0 ∉ b ∧ a = utf8 defaultBucket ++ 0 :: b)

/-- An identifier that is UTF-8 and has no replacement character. -/
def Legible (a : Bytes) : Prop := ∃ text, a = utf8 text ∧ '�' ∉ text.toList

/-! ## Taking identifiers apart -/

theorem splitIdentifier_of_notMem {a : Bytes} (h : 0 ∉ a) :
    splitIdentifier a = (defaultBucket, fromUtf8Lossy a) := by
  rw [splitIdentifier, splitNul_of_notMem h]

theorem splitIdentifier_append {bucket : Bytes} (h : 0 ∉ bucket) (key : Bytes) :
    splitIdentifier (bucket ++ 0 :: key) = (fromUtf8Lossy bucket, fromUtf8Lossy key) := by
  rw [splitIdentifier, splitNul_append h]

/-- What clients build is taken apart again. -/
theorem splitIdentifier_utf8 {bucket : String} (h : '\x00' ∉ bucket.toList) (name : String) :
    splitIdentifier (utf8 bucket ++ 0 :: utf8 name) = (bucket, name) := by
  rw [splitIdentifier_append (mt zero_mem_utf8_iff.mp h), fromUtf8Lossy_utf8, fromUtf8Lossy_utf8]

theorem legible_utf8 {text : String} (h : '�' ∉ text.toList) : Legible (utf8 text) := ⟨text, rfl, h⟩

/-- Bytes are legible if nothing of them is replaced. -/
theorem legible_iff {a : Bytes} : Legible a ↔ '�' ∉ (fromUtf8Lossy a).toList := by
  constructor
  · rintro ⟨text, rfl, htext⟩
    rwa [fromUtf8Lossy_utf8]
  · intro h
    exact ⟨fromUtf8Lossy a, eq_utf8_of_notMem h, h⟩

theorem Legible.eq_of_lossy {a b : Bytes} (ha : Legible a)
    (h : fromUtf8Lossy b = fromUtf8Lossy a) : b = a := by
  have hb : Legible b := by
    rw [legible_iff, h]
    exact legible_iff.mp ha
  rw [eq_utf8_of_notMem (legible_iff.mp hb), h, ← eq_utf8_of_notMem (legible_iff.mp ha)]

/-- An identifier with a bucket is legible if its parts are. -/
theorem legible_append_iff {bucket key : Bytes} (h : 0 ∉ bucket) :
    Legible (bucket ++ 0 :: key) ↔ Legible bucket ∧ Legible key := by
  have hjoin (l l' : List Char) : utf8 (.ofList (l ++ '\x00' :: l')) =
      utf8 (.ofList l) ++ 0 :: utf8 (.ofList l') := by
    rw [utf8_ofList, utf8_ofList, utf8_ofList, List.flatMap_append, List.flatMap_cons]
    rfl
  constructor
  · rintro ⟨text, heq, htext⟩
    -- the first zero byte is the first zero character
    have hzero : '\x00' ∈ text.toList := by
      rw [← zero_mem_utf8_iff, ← heq]
      simp
    obtain ⟨l, l', hl, hnot⟩ := List.eq_append_cons_of_mem hzero
    have hnot' : 0 ∉ utf8 (.ofList l) := by
      rwa [zero_mem_utf8_iff, String.toList_ofList]
    rw [hl, List.mem_append, List.mem_cons, not_or, not_or] at htext
    have hsplit : splitNul (bucket ++ 0 :: key) =
        splitNul (utf8 (.ofList l) ++ 0 :: utf8 (.ofList l')) := by
      rw [heq, ← hjoin, ← hl, String.ofList_toList]
    rw [splitNul_append h, splitNul_append hnot'] at hsplit
    cases hsplit
    refine ⟨legible_utf8 ?_, legible_utf8 ?_⟩
    · rw [String.toList_ofList]
      exact htext.1
    · rw [String.toList_ofList]
      exact htext.2.2
  · rintro ⟨⟨s, rfl, hs⟩, ⟨t, rfl, ht⟩⟩
    refine ⟨.ofList (s.toList ++ '\x00' :: t.toList), ?_, ?_⟩
    · rw [hjoin, String.ofList_toList, String.ofList_toList]
    · rw [String.toList_ofList, List.mem_append, List.mem_cons, not_or, not_or]
      exact ⟨hs, by decide, ht⟩

/-- The bytes of a text that another one has as well. -/
theorem exists_of_not_legible {a : Bytes} (h : ¬ Legible a) :
    ∃ b, b ≠ a ∧ fromUtf8Lossy b = fromUtf8Lossy a ∧ b.length ≤ a.length ∧ (0 ∈ b → 0 ∈ a) := by
  rw [legible_iff, not_not] at h
  exact exists_fromUtf8Lossy_eq h

/-- A legible identifier shares its object with its alias alone. -/
theorem Legible.eq_or_aliases {a b : Bytes} (ha : Legible a)
    (h : splitIdentifier b = splitIdentifier a) : b = a ∨ Aliases a b := by
  have hdefault : Legible (utf8 defaultBucket) := legible_utf8 (by decide)
  rcases splitNul_cases a with hza | ⟨bucket, key, hbucket, rfl⟩
  · rw [splitIdentifier_of_notMem hza] at h
    rcases splitNul_cases b with hzb | ⟨bucket', key', hbucket', rfl⟩
    · rw [splitIdentifier_of_notMem hzb] at h
      exact .inl (ha.eq_of_lossy (Prod.mk.inj h).2)
    · rw [splitIdentifier_append hbucket'] at h
      obtain rfl := ha.eq_of_lossy (Prod.mk.inj h).2
      obtain rfl := hdefault.eq_of_lossy ((Prod.mk.inj h).1.trans (fromUtf8Lossy_utf8 _).symm)
      exact .inr (.inl ⟨hza, rfl⟩)
  · obtain ⟨hb, hk⟩ := (legible_append_iff hbucket).mp ha
    rw [splitIdentifier_append hbucket] at h
    rcases splitNul_cases b with hzb | ⟨bucket', key', hbucket', rfl⟩
    · rw [splitIdentifier_of_notMem hzb] at h
      obtain rfl := hk.eq_of_lossy (Prod.mk.inj h).2
      obtain rfl := hb.eq_of_lossy ((fromUtf8Lossy_utf8 _).trans (Prod.mk.inj h).1)
      exact .inr (.inr ⟨hzb, rfl⟩)
    · rw [splitIdentifier_append hbucket'] at h
      rw [hb.eq_of_lossy (Prod.mk.inj h).1, hk.eq_of_lossy (Prod.mk.inj h).2]
      exact .inl rfl

/-- An identifier that is not legible shares its object with another one. -/
theorem exists_splitIdentifier_eq {a : Bytes} (h : ¬ Legible a) :
    ∃ b, b.length ≤ a.length ∧ splitIdentifier b = splitIdentifier a ∧ b ≠ a ∧ ¬ Aliases a b := by
  rcases splitNul_cases a with hza | ⟨bucket, key, hbucket, rfl⟩
  · obtain ⟨b, hne, htext, hle, hzero⟩ := exists_of_not_legible h
    have hzb : 0 ∉ b := mt hzero hza
    refine ⟨b, hle, ?_, hne, ?_⟩
    · rw [splitIdentifier_of_notMem hza, splitIdentifier_of_notMem hzb, htext]
    · rintro (⟨-, rfl⟩ | ⟨-, rfl⟩)
      · exact hzb (by simp)
      · exact hza (by simp)
  · have hnot {b : Bytes} (hzb : 0 ∈ b) : ¬ Aliases (bucket ++ 0 :: key) b := by
      rintro (⟨hza, -⟩ | ⟨hzb', -⟩)
      · exact hza (by simp)
      · exact hzb' hzb
    rw [legible_append_iff hbucket, not_and_or] at h
    rcases h with h | h
    · obtain ⟨bucket', hne, htext, hle, hzero⟩ := exists_of_not_legible h
      refine ⟨bucket' ++ 0 :: key, ?_, ?_, fun h => hne (List.append_cancel_right h), hnot (by simp)⟩
      · rw [List.length_append, List.length_append]
        exact Nat.add_le_add_right hle _
      · rw [splitIdentifier_append hbucket, splitIdentifier_append (mt hzero hbucket), htext]
    · obtain ⟨key', hne, htext, hle, -⟩ := exists_of_not_legible h
      refine ⟨bucket ++ 0 :: key', ?_, ?_, fun h => hne ?_, hnot (by simp)⟩
      · rw [List.length_append, List.length_append]
        exact Nat.add_le_add_left (Nat.succ_le_succ hle) _
      · rw [splitIdentifier_append hbucket, splitIdentifier_append hbucket, htext]
      · exact (List.cons.inj (List.append_cancel_left h)).2

/-! ## Reads and writes -/

section

variable {C : Cipher} {E : Engine} {authRequired : Bool} {sv sv' : Server}

/-- A read replies the same in two states that have the same sessions, the same name for its object
    and the same content under that name. -/
theorem run_serve_read_congr {message : LiNaProtocol} (d : FrontDraws) (hread : message.op = .read)
    (hnamed : sv.Named) (hsessions : sv'.sessions = sv.sessions)
    (hresolve : sv'.mapper.resolve message.address.1 message.address.2 =
      sv.mapper.resolve message.address.1 message.address.2)
    (hcontents : ∀ name ∈ sv.mapper.names, sv'.store.contents E name = sv.store.contents E name) :
    ((serve C authRequired d message).run (ServerPrim.step E) sv').1 =
      ((serve C authRequired d message).run (ServerPrim.step E) sv).1 := by
  have hreceived : sv'.received C authRequired message = sv.received C authRequired message := by
    rw [Server.received, Server.received, hsessions]
  rcases h : sv.received C authRequired message with status | data
  · rw [run_serve_error h, run_serve_error (hreceived.trans h)]
  rcases hname : sv.mapper.resolve message.address.1 message.address.2 with _ | name
  · rw [run_serve_unnamed hread h hname,
      run_serve_unnamed hread (hreceived.trans h) (hresolve.trans hname)]
  · have hmem := BucketMapper.mem_names_of_resolve hname
    obtain ⟨u, rfl⟩ := hnamed name hmem
    rw [run_serve_read hread h hname,
      run_serve_read hread (hreceived.trans h) (hresolve.trans hname), hcontents _ hmem]

/-- A write changes the reply to no read of another object. -/
theorem run_serve_read_of_ne {m : Objects}
    (h : ServerRun C E Set.univ authRequired (fun _ _ => True) sv m) {w r : LiNaProtocol}
    {d d' : FrontDraws} (hfresh : d.Fresh sv) (hwrite : w.op = .write) (hread : r.op = .read)
    (hne : r.address ≠ w.address) :
    ((serve C authRequired d' r).run (ServerPrim.step E)
        ((serve C authRequired d w).run (ServerPrim.step E) sv).2).1 =
      ((serve C authRequired d' r).run (ServerPrim.step E) sv).1 := by
  have hop : w.op ≠ .auth := by
    rw [hwrite]
    decide
  obtain ⟨reply, sv', hrun, heffect⟩ :=
    exists_effect_serve (C := C) hop h.reachable h.named hfresh
  rw [hrun]
  cases heffect with
  | quiet _ => rfl
  | @write r' a data store _ hwritten _ _ _ hcontents =>
    obtain rfl : w.address = a := by
      rw [FrontRequest.written, if_pos hwrite, Option.map_eq_some_iff] at hwritten
      obtain ⟨_, -, heq⟩ := hwritten
      exact (Prod.mk.inj heq).1
    refine run_serve_read_congr d' hread h.named rfl ?_ fun name hname => hcontents name ?_
    · rw [BucketMapper.resolve_register hfresh.internalName, if_neg fun h => hne h.1]
    · rintro rfl
      exact hfresh.internalName hname
  | delete _ hdelete _ _ _ =>
    rw [hwrite] at hdelete
    cases hdelete

end

/-- An identifier of at most 255 bytes shares its object with no other, but for its alias, if and
    only if it is legible; and then no write under it changes the reply to a read under another
    identifier that is not its alias. What is built of a bucket and a name is taken apart again. -/
theorem identifier_distinct_iff (C : Cipher) (E : Engine) (authRequired : Bool) (a : Bytes)
    (ha : a.length ≤ 255) :
    ((∀ b : Bytes, b.length ≤ 255 → splitIdentifier b = splitIdentifier a →
      b = a ∨ Aliases a b) ↔ Legible a) ∧
    (Legible a → ∀ (sv : Server) (m : Objects) (w r : LiNaProtocol) (d d' : FrontDraws),
      ServerRun C E Set.univ authRequired (fun _ _ => True) sv m → d.Fresh sv →
      w.op = .write → w.payload.identifier = a → r.op = .read →
      r.payload.identifier ≠ a → ¬ Aliases a r.payload.identifier →
      ((serve C authRequired d' r).run (ServerPrim.step E)
          ((serve C authRequired d w).run (ServerPrim.step E) sv).2).1 =
        ((serve C authRequired d' r).run (ServerPrim.step E) sv).1) ∧
    ∀ bucket name : String, bucket ≠ "" → '\x00' ∉ bucket.toList →
      splitIdentifier (utf8 bucket ++ 0 :: utf8 name) = (bucket, name) := by
  refine ⟨⟨fun h => ?_, fun hlegible b _ => hlegible.eq_or_aliases⟩, ?_, fun _ name _ hzero =>
    splitIdentifier_utf8 hzero name⟩
  · by_contra hlegible
    obtain ⟨b, hle, hsame, hne, hnot⟩ := exists_splitIdentifier_eq hlegible
    exact (h b (hle.trans ha) hsame).elim hne hnot
  · rintro hlegible sv m w r d d' hrun hfresh hwrite rfl hread hne hnot
    refine run_serve_read_of_ne hrun hfresh hwrite hread fun haddress => ?_
    exact (hlegible.eq_or_aliases haddress).elim hne hnot

theorem identifier_distinct_ascii :
    ([0x61] : Bytes).length ≤ 255 ∧
      ∀ b : Bytes, b.length ≤ 255 → splitIdentifier b = splitIdentifier [0x61] →
        b = [0x61] ∨ Aliases [0x61] b :=
  ⟨by decide, (identifier_distinct_iff .rejecting .plain false [0x61] (by decide)).1.mpr
    ⟨"a", by decide, by decide⟩⟩

/-- A request about the object of one byte. -/
def byteRequest (op : FlagType) (b : UInt8) (data : Bytes) : LiNaProtocol :=
  LiNaProtocol.withChecksum ⟨op.bits, .none, ⟨1, [b], .ofNat data.length, 0, data⟩⟩

/-- Two bytes that are in no text name one object: what is written under one is read under the
    other. -/
theorem identifiers_collide :
    ([0xFE] : Bytes) ≠ [0xFF] ∧ ¬ Aliases [0xFF] [0xFE] ∧
      splitIdentifier [0xFE] = splitIdentifier [0xFF] ∧
      ∃ sv reply reply', ((serve .rejecting false (.sample 0) (byteRequest .write 0xFF [1])).run
          (ServerPrim.step .plain) (.start fun _ _ => none)).2 = sv ∧
        ((serve .rejecting false (.sample 1) (byteRequest .read 0xFE [])).run
          (ServerPrim.step .plain) (.start fun _ _ => none)).1 = .ok reply ∧
        reply.message.status = .fileNotFound ∧
        ((serve .rejecting false (.sample 1) (byteRequest .read 0xFE [])).run
          (ServerPrim.step .plain) sv).1 = .ok reply' ∧
        reply'.message.status = .success ∧ reply'.message.payload.data = [1] := by
  refine ⟨by decide, ?_, by decide, _, _, _, rfl, rfl, by decide, rfl, by decide, by decide⟩
  rintro (⟨-, h⟩ | ⟨-, h⟩)
  · exact absurd h (by decide)
  · exact absurd h (by decide)

end LiNaStore
