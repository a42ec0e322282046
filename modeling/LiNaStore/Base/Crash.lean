import LiNaStore.Base.Contents
import LiNaStore.Base.Recovery

/-!
# Crashes of a write

A crash of a write leaves one of the stages of it (`PutStage`), and opening the
store again reconciles the files. What is then read depends on the rows the crash
left and on the payloads, tombstones taken for them (`Reopened.readSource`):
all stages but one read either as before the write or as after it
(`PutStage.read_reopened`).

The one is that of a covering write to a source of one link: the payload has been
overwritten, the row not yet. Its name then reads as the new bytes under the old
row, and a crash there is harmless only if these bytes are another form of the old
content (`put_crash_atomic_iff`).
-/

namespace LiNaStore

open Program Store StoreManager

/-! ## Reading a reopened store -/

namespace Store.Reopened

variable {t s' : Store}

theorem linkNamed (h : t.Reopened s') (name : String) : s'.linkNamed name = t.linkNamed name := by
  rw [Store.linkNamed, linksNamed, h.links]
  rfl

theorem source (h : t.Reopened s') (id : SourceId) : s'.source id = t.source id := by
  rw [Store.source, h.sources]
  rfl

/-- A source without a tombstone is read as it was. -/
theorem readSource (h : t.Reopened s') {id : SourceId} (htomb : t.file id.tombstonePath = none) :
    s'.readSource id = t.readSource id := by
  rw [Store.readSource, Store.readSource, h.source, h.file, reconciled_sourcePath, htomb]
  cases t.source id with
  | none => rfl
  | some src => rfl

/-- Without tombstones all is read as it was. -/
theorem read (h : t.Reopened s') (htomb : ∀ id : SourceId, t.file id.tombstonePath = none)
    (name : String) : s'.read name = t.read name :=
  read_congr (by rw [h.linkNamed]) fun _ _ => h.readSource (htomb _)

end Store.Reopened

namespace StoreManager

variable {s s' t u : Store} {extra : SourceId → ℕ} {d : Draws} {fileName ext : String}
  {cover : Bool} {c : Stored}

/-- While a source is being released, the sources that stay are read as before. -/
theorem ReleaseStage.readSource_reopened {src : Source} (h : ReleaseStage u src t)
    (hre : t.Reopened s') (hsrc : u.source src.id = some src)
    (htomb : ∀ id : SourceId, u.file id.tombstonePath = none) {id : SourceId}
    (hid : ¬(id = src.id ∧ ¬1 < src.count)) : s'.readSource id = u.readSource id := by
  have hne : src.count = 1 → id ≠ src.id := fun hone heq => hid ⟨heq, by omega⟩
  cases h with
  | start => exact hre.readSource (htomb id)
  | @renamed bytes hone hfile =>
    -- the tombstone is that of the source being released
    have hpath : id.tombstonePath ≠ src.id.tombstonePath := by simpa using hne hone
    have hpath' : id.sourcePath ≠ src.id.sourcePath := by simpa using hne hone
    rw [hre.readSource]
    · refine readSource_congr ?_ rfl
      rw [file_setFile, if_neg (SourceId.sourcePath_ne_tombstonePath _ _), file_eraseFile,
        if_neg hpath']
    · rw [file_setFile, if_neg hpath, file_eraseFile, htomb, ite_self]
  | @erased bytes hone hfile =>
    have hpath : id.tombstonePath ≠ src.id.tombstonePath := by simpa using hne hone
    have hpath' : id.sourcePath ≠ src.id.sourcePath := by simpa using hne hone
    rw [hre.readSource]
    · refine readSource_congr ?_ ?_
      · rw [file_eraseSource, file_setFile, if_neg (SourceId.sourcePath_ne_tombstonePath _ _),
          file_eraseFile, if_neg hpath']
      · rw [source_eraseSource, if_neg (hne hone)]
        rfl
    · rw [file_eraseSource, file_setFile, if_neg hpath, file_eraseFile, htomb, ite_self]
  | done =>
    rw [hre.readSource, readSource_release hsrc, if_neg hid]
    rw [Store.release]
    split
    · exact htomb id
    · rw [file_eraseSource, file_eraseFile, htomb, ite_self]

/-- While the source a name linked to is being released, all names read as when it is
    released. -/
theorem read_releasing (hs : s.Sound extra) (hfresh : d.Fresh s) {l : Link} {src : Source}
    (hl : s.linkNamed fileName = some l) (hsrc : s.source l.sourceId = some src)
    (ht : ReleaseStage ((s.addSource d.sourceId c).repoint l.id d.sourceId) src t)
    (hre : t.Reopened s') (name : String) :
    s'.read name =
      (((s.addSource d.sourceId c).repoint l.id d.sourceId).release src).read name := by
  obtain ⟨hmem, rfl⟩ := mem_of_linkNamed hl
  have hid := id_of_source hsrc
  have hnew := sourceId_ne_of_fresh hs.toCounted hfresh hl
  generalize hu : (s.addSource d.sourceId c).repoint l.id d.sourceId = u at ht
  have hsrc' : u.source src.id = some src := by
    rw [← hu, source_repoint, source_addSource hfresh.sourceId, hid, if_neg hnew, hsrc]
  have htomb : ∀ id : SourceId, u.file id.tombstonePath = none := by
    intro id
    rw [← hu, file_repoint, file_addSource, if_neg (SourceId.sourcePath_ne_tombstonePath _ _).symm,
      hs.file_tombstonePath]
  have hlinks : t.links = u.links := by
    cases ht with
    | start => rfl
    | renamed => rfl
    | erased => rfl
    | done => exact links_release u src
  have hlink : ∀ v : Store, v.links = u.links → v.linkNamed name = u.linkNamed name := by
    intro v hv
    rw [Store.linkNamed, linksNamed, hv]
    rfl
  refine read_congr ?_ fun l' hl' => ?_
  · rw [hre.linkNamed, hlink t hlinks, hlink _ (links_release u src)]
  · rw [hlink _ (links_release u src), ← hu] at hl'
    have hl'' : (s.linkNamed name).map _ = some l' := (linkNamed_repoint (s := s) _ _ _) ▸ hl'
    obtain ⟨l₀, hl₀, heq⟩ := Option.map_eq_some_iff.1 hl''
    -- the name links to the new source, or to another than the one released
    have hother : ¬(l'.sourceId = src.id ∧ ¬1 < src.count) := by
      rw [← heq, hid]
      split
      · exact fun h => hnew h.1.symm
      · next hne =>
        refine hs.sourceId_ne hmem hsrc hl₀ fun hname => hne ?_
        rw [hname, hl] at hl₀
        cases hl₀
        rfl
    rw [ht.readSource_reopened hre hsrc' htomb hother, readSource_release hsrc', if_neg hother]

/-- A write that crashed and was not to overwrite a payload reads, when the store is
    open again, as if it had not begun or as if it had ended. -/
theorem PutStage.read_reopened (h : PutStage s d fileName ext cover c t) (hs : s.Sound extra)
    (hfresh : d.Fresh s) (hre : t.Reopened s') :
    (∀ name, s'.read name = s.read name) ∨
    (∃ s₁, PutEffect s d fileName ext cover c s₁ ∧ ∀ name, s'.read name = s₁.read name) ∨
    ∃ l src, s.linkNamed fileName = some l ∧ s.source l.sourceId = some src ∧ cover = true ∧
      src.count = 1 ∧ t = s.setFile l.sourceId.sourcePath c.bytes := by
  have htomb := hs.file_tombstonePath
  have hset : ∀ id id' : SourceId,
      (s.setFile id.sourcePath c.bytes).file id'.tombstonePath = none := by
    intro id id'
    rw [file_setFile, if_neg (SourceId.sourcePath_ne_tombstonePath _ _).symm, htomb]
  cases h with
  | start => exact .inl (hre.read htomb)
  | tmp ht =>
    refine .inl fun name => ?_
    rw [hre.read fun id => by rw [ht.file _ (SourceId.tombstonePath_ne_tmpPath _ _ _), htomb]]
    refine read_congr ?_ fun l _ => readSource_congr ?_ ?_
    · rw [Store.linkNamed, linksNamed, ht.links]
      rfl
    · rw [ht.file _ (SourceId.sourcePath_ne_tmpPath _ _ _)]
    · rw [Store.source, ht.sources]
      rfl
  | stored =>
    refine .inl fun name => ?_
    rw [hre.read (hset _)]
    refine read_congr rfl fun l hl => readSource_congr ?_ rfl
    rw [file_setFile, if_neg (by simpa using sourceId_ne_of_fresh hs.toCounted hfresh hl)]
  | added =>
    refine .inl fun name => ?_
    rw [hre.read (hset _)]
    refine read_congr rfl fun l hl => ?_
    rw [readSource_addSource hfresh.sourceId, if_neg (sourceId_ne_of_fresh hs.toCounted hfresh hl)]
  | releasing hl hsrc hcond ht =>
    exact .inr (.inl ⟨_, .replace hl hsrc hcond, read_releasing hs hfresh hl hsrc ht hre⟩)
  | overwriting hl hsrc hcover hone => exact .inr (.inr ⟨_, _, hl, hsrc, hcover, hone, rfl⟩)
  | overwritten hl hsrc hcover hone =>
    exact .inr (.inl ⟨_, .overwrite hl hsrc hcover hone, hre.read (hset _)⟩)
  | linking hl hsrc =>
    refine .inr (.inl ⟨_, .share hl hsrc, fun name => ?_⟩)
    rw [hre.read htomb]
    exact read_congr rfl fun l _ => (readSource_setSource_withCount (s := s.insertLink _)
      (source_of_find? hsrc).1 _ _).symm
  | linked hl hsrc => exact .inr (.inl ⟨_, .share hl hsrc, hre.read htomb⟩)
  | created hl hnone => exact .inr (.inl ⟨_, .create hl hnone, hre.read (hset _)⟩)

/-- A covering write to a source of one link visits the state where the payload has
    been overwritten and the row has not. -/
theorem visits_overwriting (E : Engine) (hs : s.Sound extra) (d : Draws) (hname : fileName ≠ "")
    {l : Link} {src : Source} (hl : s.linkNamed fileName = some l)
    (hsrc : s.source l.sourceId = some src) (hone : src.count = 1) (input : Bytes)
    (compressed : Bool) :
    (putBinaryData E d fileName input true compressed).Visits Prim.step s
      (s.setFile l.sourceId.sourcePath (E.pack compressed input).bytes) := by
  obtain ⟨bytes, hbytes⟩ := hs.exists_file hsrc
  obtain ⟨rest, hlinks⟩ := List.head?_eq_some_iff.1 hl
  rw [putBinaryData_eq E d hname]
  refine visits_bind_right (a := l :: rest) (by rw [run_perform, Prim.step, hlinks]) ?_
  have hsource : (exec (.getSourceById l.sourceId)).run Prim.step s = (.ok (some src), s) := by
    rw [run_perform, Prim.step, show s.sources.find? l.sourceId = some src from hsrc]
  refine visits_bind_right hsource ?_
  simp only [if_pos, if_neg (show ¬src.count > 1 by omega)]
  refine visits_bind_right (a := bytes) (by rw [run_perform, Prim.step_readFile hbytes]) ?_
  exact visits_bind_right (run_persistSourceBytes (hs.file_tmpPath _ _) _) (visits_start _ _)

/-- Reopened after such a crash, the store reads the new bytes under the old row, and
    all other names as before. -/
theorem read_overwriting (hs : s.Sound extra) {l : Link} {src : Source}
    (hl : s.linkNamed fileName = some l) (hsrc : s.source l.sourceId = some src)
    (hone : src.count = 1) {bytes : Bytes}
    (hre : (s.setFile l.sourceId.sourcePath bytes).Reopened s') :
    s'.read fileName = .ok (src.stored bytes) ∧ ∀ name ≠ fileName, s'.read name = s.read name := by
  obtain ⟨hmem, rfl⟩ := mem_of_linkNamed hl
  have htomb : ∀ id : SourceId,
      (s.setFile l.sourceId.sourcePath bytes).file id.tombstonePath = none := by
    intro id
    rw [file_setFile, if_neg (SourceId.sourcePath_ne_tombstonePath _ _).symm, hs.file_tombstonePath]
  constructor
  · have hlink : (s.setFile l.sourceId.sourcePath bytes).linkNamed l.name = some l := hl
    rw [hre.read htomb, read_of_linkNamed hlink]
    exact readSource_eq_ok hsrc (by rw [file_setFile, if_pos rfl])
  · intro name hname
    rw [hre.read htomb]
    refine read_congr rfl fun l' hl' => readSource_congr ?_ rfl
    have hne : l'.sourceId ≠ l.sourceId := fun h => hs.sourceId_ne hmem hsrc hl' hname ⟨h, by omega⟩
    rw [file_setFile, if_neg (by simpa using hne)]

end StoreManager

/-! ## The bytes of another content -/

/-- The bytes `input` is stored as are also a form of `old`, read as the row says. -/
def Engine.StoredAlike (E : Engine) (compressed : Bool) (input : Bytes) (src : Source) (old : Bytes) :
    Prop :=
  if compressed = src.compressed then input = old
  else if compressed then E.compressAll input = .ok old
  else E.decompressAll input src.size = .ok old

theorem Engine.storedAlike_iff {E : Engine} (hE : E.Lossless) {compressed : Bool} {input old : Bytes}
    {src : Source} :
    E.StoredAlike compressed input src old ↔
      E.decodeContent src.compressed src.size (E.pack compressed input).bytes = .ok old := by
  rw [StoredAlike]
  split
  · next heq => rw [← heq, E.decodeContent_pack hE, Except.ok.injEq]
  · next hne =>
    have hbytes := E.encodeContent_eq compressed input
    rw [encodeContent] at hbytes
    rw [decodeContent]
    cases compressed with
    | true =>
      rw [if_pos rfl] at hbytes
      rw [if_pos rfl, hbytes, if_neg fun h => hne h.symm]
    | false =>
      rw [if_neg Bool.false_ne_true, Except.ok.injEq] at hbytes
      rw [if_neg Bool.false_ne_true, ← hbytes, if_pos (by simpa using hne)]

/-! ## Atomicity -/

/-- A write is atomic under crashes, in that at every crash point the store opened again
    reads its name as before or as the new content and all other names as before, if
    and only if it does not overwrite the payload of the source in place, or the new
    payload is a form of the old content too. -/
theorem put_crash_atomic_iff {E : Engine} {D : Set Bytes} {s : Store} {d : Draws} {input : Bytes}
    (hE : E.Lossless) (hD : Set.InjOn E.hash256 D) (hs : s.Consistent E D) (hfresh : d.Fresh s)
    (hinput : input ∈ D) (fileName : String) (cover compressed : Bool) (listing : Listing) :
    (∀ t, (putBinaryData E d fileName input cover compressed).Visits Prim.step s t →
      ∃ s', (new listing).run Prim.step t = (.ok (), s') ∧
        (((getBinaryData E fileName).run Prim.step s').1 =
            ((getBinaryData E fileName).run Prim.step s).1 ∨
          ((getBinaryData E fileName).run Prim.step s').1 = .ok input) ∧
        ∀ name ≠ fileName, ((getBinaryData E name).run Prim.step s').1 =
          ((getBinaryData E name).run Prim.step s).1) ↔
    ∀ l src old, cover = true → s.linkNamed fileName = some l → s.source l.sourceId = some src →
      src.count = 1 → ((getBinaryData E fileName).run Prim.step s).1 = .ok old →
      E.StoredAlike compressed input src old := by
  obtain ⟨extra, hsound⟩ := hs.sound
  simp only [run_getBinaryData, Engine.storedAlike_iff hE]
  have hold : ∀ {l src old}, s.linkNamed fileName = some l → s.source l.sourceId = some src →
      s.get E fileName = .ok old → fileName ≠ "" ∧ old ∈ D ∧ E.hash256 old = src.hash256 := by
    intro l src old hl hsrc hget
    have hname : fileName ≠ "" := by
      rintro rfl
      cases hget
    obtain ⟨content, hcontent, hget', hhash⟩ := hs.exists_get_of_link hname hl hsrc
    cases hget'.symm.trans hget
    exact ⟨hname, hcontent, hhash⟩
  constructor
  · -- the crash after the payload has been overwritten
    intro hatomic l src old hcover hl hsrc hone hget
    obtain ⟨hname, holdD, hhash⟩ := hold hl hsrc hget
    subst hcover
    obtain ⟨s', hrun, hself, _⟩ := hatomic _
      (visits_overwriting E hsound d hname hl hsrc hone input compressed)
    obtain ⟨_, hrun', hre⟩ := run_new listing
      (s.setFile l.sourceId.sourcePath (E.pack compressed input).bytes)
    cases hrun.symm.trans hrun'
    have hget' : s'.get E fileName = E.verify (src.stored (E.pack compressed input).bytes) := by
      rw [Store.get, if_neg hname, (read_overwriting hsound hl hsrc hone hre).1]
      rfl
    rw [hget', hget] at hself
    rcases hself with hself | hself
    · exact (Engine.verify_eq_ok_iff.1 hself).1
    · -- the new content has the hash of the old one, and is the same
      obtain ⟨hdec, hhash'⟩ := Engine.verify_eq_ok_iff.1 hself
      exact hdec.trans (congrArg Except.ok (hD hinput holdD (hhash'.trans hhash.symm)))
  · intro hcond t hvisit
    obtain ⟨s', hrun, hre⟩ := run_new listing t
    refine ⟨s', hrun, ?_⟩
    by_cases hname : fileName = ""
    · -- the write is refused
      rw [putBinaryData, if_pos hname] at hvisit
      rw [visits_ret.1 hvisit] at hre
      have hread := hre.read hsound.file_tombstonePath
      exact ⟨.inl (get_congr (hread _)), fun name _ => get_congr (hread name)⟩
    · obtain ⟨_, _, hput⟩ := performs_putBinaryData E hsound hfresh hname input cover compressed
      rcases (hput.crash hvisit).read_reopened hsound hfresh hre with
        hread | ⟨s₁, heff, hread⟩ | ⟨l, src, hl, hsrc, hcover, hone, rfl⟩
      · exact ⟨.inl (get_congr (hread _)), fun name _ => get_congr (hread name)⟩
      · refine ⟨.inr ?_, fun name hne => get_congr ?_⟩
        · rw [get_congr (hread _)]
          exact heff.get_self hE hD hs.intact hsound hfresh hinput hname
        · rw [hread, heff.read_of_ne hsound hfresh hne]
      · obtain ⟨hself, hothers⟩ := read_overwriting hsound hl hsrc hone hre
        refine ⟨.inl ?_, fun name hne => get_congr (hothers name hne)⟩
        obtain ⟨old, -, hget, hhash⟩ := hs.exists_get_of_link hname hl hsrc
        rw [hget, Store.get, if_neg hname, hself]
        exact Engine.verify_eq_ok_iff.2 ⟨hcond l src old hcover hl hsrc hone hget, hhash⟩

/-- A write that does not cover, with a crash at any point. -/
theorem put_crash_atomic_uncovered :
    ∃ s, Reachable .plain {[1], [2]} s ∧ s.links.rows.length = 1 ∧
      ∀ t, (putBinaryData .plain (.sample 1) "a" [2] false true).Visits Prim.step s t →
        ∃ s', (new .byAge).run Prim.step t = (.ok (), s') ∧
          (((getBinaryData .plain "a").run Prim.step s').1 =
              ((getBinaryData .plain "a").run Prim.step s).1 ∨
            ((getBinaryData .plain "a").run Prim.step s').1 = .ok [2]) ∧
          ∀ name ≠ "a", ((getBinaryData .plain name).run Prim.step s').1 =
            ((getBinaryData .plain name).run Prim.step s).1 := by
  have h : Reachable .plain {[1], [2]} _ :=
    .call (.put (.sample 0) "a" [1] false false) .empty ⟨rfl, rfl⟩ (.inl rfl)
  refine ⟨_, h, by decide, (put_crash_atomic_iff (d := .sample 1) Engine.lossless_plain
    injOn_hash256_plain (h.consistent Engine.lossless_plain) ⟨rfl, rfl⟩ (.inr rfl) "a" false true
    .byAge).2 ?_⟩
  exact fun _ _ _ hcover => absurd hcover Bool.false_ne_true

/-- A covering write of another content, with a crash after the payload has been
    overwritten: its name cannot be read any more. -/
theorem put_crash_torn :
    ∃ s t s', Reachable .plain {[1], [2]} s ∧ (Draws.sample 1).Fresh s ∧
      (putBinaryData .plain (.sample 1) "a" [2] true false).Visits Prim.step s t ∧
      (new .byAge).run Prim.step t = (.ok (), s') ∧
      ((getBinaryData .plain "a").run Prim.step s).1 = .ok [1] ∧
      ((getBinaryData .plain "a").run Prim.step s').1 = .error .integrityCheckFailed := by
  have h : Reachable .plain {[1], [2]} _ :=
    .call (.put (.sample 0) "a" [1] false false) .empty ⟨rfl, rfl⟩ (.inl rfl)
  exact ⟨_, _, _, h, ⟨rfl, rfl⟩, ⟨8, rfl⟩, rfl, rfl, rfl⟩

end LiNaStore
