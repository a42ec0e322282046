import LiNaStore.Base.Invariant
import LiNaStore.Base.Same

/-!
# What the operations do

What `putBinaryData` and `delete` do to a sound store, in one go for all the uses
the rest makes of it: the state they leave when every primitive succeeds, the
states a crash can leave and the states a fault can leave (`Program.Performs`).

A write takes one of five ways, the constructors of `PutEffect`; a crash leaves
one of the stages of `PutStage`. A fault leaves the state as it was, up to
sameness (`Store.Same`).
-/

namespace LiNaStore

open Program

/-- The identifiers drawn are new in a state. -/
structure Draws.Fresh (d : Draws) (s : Store) : Prop where
  sourceId : s.source d.sourceId = none
  linkId : s.links.find? d.linkId = none

/-! ## Primitives that succeed -/

namespace Prim

variable {s : Store}

theorem step_insertLinkWithId {l : Link} (hl : s.links.find? l.id = none)
    (hsrc : (s.source l.sourceId).isSome) :
    step (.insertLinkWithId l.id l.name l.ext l.sourceId l.mode) s = (.ok (), s.insertLink l) := by
  have hsrc' : (s.sources.find? l.sourceId).isNone = false := by
    rwa [← Option.not_isSome, Bool.not_eq_false']
  simp [step, hl, hsrc']

theorem step_insertSourceWithCount {src : Source} (h : s.source src.id = none) :
    step (.insertSourceWithCount src.id src.hash256 src.compressed src.size src.count) s =
      (.ok (), s.insertSource src) := by
  have h' : s.sources.find? src.id = none := h
  simp [step, h']

theorem step_updateLinkSourceId {linkId : String} {id : SourceId} (h : (s.source id).isSome) :
    step (.updateLinkSourceId linkId id) s = (.ok (), s.repoint linkId id) := by
  have h' : (s.sources.find? id).isNone = false := by rwa [← Option.not_isSome, Bool.not_eq_false']
  simp [step, h']

theorem step_deleteSourceById {id : SourceId} (h : s.refs id = 0) :
    step (.deleteSourceById id) s = (.ok (), s.eraseSource id) := by
  simp [step, h]

theorem step_rename {p q : Path} {bytes : Bytes} (h : s.file p = some bytes) :
    step (.rename p q) s = (.ok (), (s.eraseFile p).setFile q bytes) := by
  simp only [step, h]

theorem step_removeFile {p : Path} {bytes : Bytes} (h : s.file p = some bytes) :
    step (.removeFile p) s = (.ok (), s.eraseFile p) := by
  simp only [step, h]

theorem step_readFile {p : Path} {bytes : Bytes} (h : s.file p = some bytes) :
    step (.readFile p) s = (.ok bytes, s) := by
  simp only [step, h]

end Prim

namespace Store

variable {s : Store}

theorem find?_files_eq_none {p : Path} (h : s.file p = none) : s.files.find? p = none := by
  rwa [file, Option.map_eq_none_iff] at h

/-- Erasing a file that was set where there was none. -/
theorem eraseFile_setFile {p : Path} (h : s.file p = none) (bytes : Bytes) :
    (s.setFile p bytes).eraseFile p = s := by
  rw [eraseFile, setFile_files, Table.erase_set (r := ⟨p, bytes⟩) (find?_files_eq_none h)]
  rfl

theorem eraseFile_appendFile (p : Path) (bytes : Bytes) :
    (s.appendFile p bytes).eraseFile p = s.eraseFile p := by
  rw [eraseFile, appendFile_files, Table.erase_update]
  rfl

/-- The temporary file is not there yet, or has been written in part. -/
theorem sameExcept_setFile (p : Path) (bytes : Bytes) : s.SameExcept p (s.setFile p bytes) :=
  ⟨rfl, rfl, rfl, fun q hq => by rw [file_setFile, if_neg hq]⟩

theorem SameExcept.appendFile {t : Store} {p : Path} (h : s.SameExcept p t) (bytes : Bytes) :
    s.SameExcept p (t.appendFile p bytes) where
  links := h.links
  sources := h.sources
  dirs := h.dirs
  file q hq := by
    rw [file_appendFile, h.file q hq]
    cases s.file q with
    | none => rfl
    | some b => rw [Option.map_some, if_neg hq]

theorem SameExcept.eraseFile {t : Store} {p : Path} (h : s.SameExcept p t) :
    s.SameExcept p (t.eraseFile p) :=
  ⟨h.links, h.sources, h.dirs, fun q hq => by rw [file_eraseFile, if_neg hq, h.file q hq]⟩

/-- A source is there with its payload and, if it counts one link, without it. -/
structure Releasable (s : Store) (src : Source) : Prop where
  source : s.source src.id = some src
  count_pos : 1 ≤ src.count
  refs : src.count = 1 → s.refs src.id = 0
  file : ∃ bytes, s.file src.id.sourcePath = some bytes
  tombstone : s.file src.id.tombstonePath = none

section

variable {extra : SourceId → ℕ} {l : Link} {src : Source}

/-- The source of a link that has been erased. -/
theorem Sound.releasable_eraseLink (hs : s.Sound extra) (hl : l ∈ s.links.rows)
    (hsrc : s.source l.sourceId = some src) : (s.eraseLink l.id).Releasable src := by
  have hid := id_of_source hsrc
  refine ⟨by rw [hid]; exact hsrc, hs.count_pos hsrc, fun hone => ?_, ?_, hs.file_tombstonePath _⟩
  · have hcount := hs.count_eq hsrc
    have hrefs := s.refs_eraseLink src.id hl
    rw [if_pos hid.symm, hid] at hrefs
    rw [hid]
    omega
  · rw [hid]
    exact hs.exists_file hsrc

/-- The source a link pointed to, before it was made to point to a new one. -/
theorem Sound.releasable_redirect (hs : s.Sound extra) (hl : l ∈ s.links.rows)
    (hsrc : s.source l.sourceId = some src) {id : SourceId} (hfresh : s.source id = none)
    (c : Stored) : ((s.addSource id c).repoint l.id id).Releasable src := by
  have hid := id_of_source hsrc
  have hne : id ≠ l.sourceId := fun h => by rw [h, hsrc] at hfresh; cases hfresh
  have hfile : ∀ p ≠ id.sourcePath, ((s.addSource id c).repoint l.id id).file p = s.file p := by
    intro p hp
    rw [file_repoint, file_addSource, if_neg hp]
  refine ⟨?_, hs.count_pos hsrc, fun hone => ?_, ?_, ?_⟩
  · rw [source_repoint, source_addSource hfresh, hid, if_neg hne.symm, hsrc]
  · have hcount := hs.count_eq hsrc
    have hrefs := (s.addSource id c).refs_repoint src.id hl id
    rw [if_pos hid.symm, if_neg (hid ▸ hne), hid] at hrefs
    rw [hid]
    have hadd : (s.addSource id c).refs l.sourceId = s.refs l.sourceId := rfl
    omega
  · rw [hfile _ (by simpa [hid] using hne.symm), hid]
    exact hs.exists_file hsrc
  · rw [hfile _ (SourceId.sourcePath_ne_tombstonePath _ _).symm, hs.file_tombstonePath]

end

end Store

namespace StoreManager

open Store

variable {s : Store} {Q F : Store → Prop}

/-! ## Payloads -/

/-- Writing a payload. A crash or a fault leaves the state but for the temporary
    file. -/
theorem performs_persistSourceBytes {id : SourceId} {bytes : Bytes} {tmpId : String}
    (htmp : s.file (id.tmpPath tmpId) = none)
    (hQ : ∀ t, s.SameExcept (id.tmpPath tmpId) t → Q t) (hQ₁ : Q (s.setFile id.sourcePath bytes))
    (hF : ∀ t, s.SameExcept (id.tmpPath tmpId) t → F t) :
    (persistSourceBytes id bytes tmpId).Performs Prim.step s () (s.setFile id.sourcePath bytes)
      Q F := by
  have h₀ := SameExcept.refl (id.tmpPath tmpId) s
  have h₁ := s.sameExcept_setFile (id.tmpPath tmpId) []
  have h₂ := h₁.appendFile bytes
  refine .bind (.perform rfl (hQ _ h₀) (hQ _ h₀) (hF _ h₀)) ?_
  refine .bind (.perform rfl (hQ _ h₀) (hQ _ h₁) (hF _ h₀)) ?_
  refine .bind (.perform rfl (hQ _ h₁) (hQ _ h₂) (hF _ h₁)) ?_
  refine .bind (.perform rfl (hQ _ h₂) (hQ _ h₂) (hF _ h₂)) ?_
  have hbytes : ((s.setFile (id.tmpPath tmpId) []).appendFile (id.tmpPath tmpId) bytes).file
      (id.tmpPath tmpId) = some bytes := by
    rw [file_appendFile, file_setFile, if_pos rfl, Option.map_some, if_pos rfl, List.nil_append]
  have hstep := Prim.step_rename (q := id.sourcePath) hbytes
  rw [eraseFile_appendFile, eraseFile_setFile htmp] at hstep
  refine .orUndo (F := (· = _)) (.perform hstep (hQ _ h₂) hQ₁ rfl) ?_
  rintro t rfl
  rw [run_perform, Prim.step_removeFile hbytes]
  exact hF _ h₂.eraseFile

theorem run_persistSourceBytes {id : SourceId} {tmpId : String}
    (htmp : s.file (id.tmpPath tmpId) = none) (bytes : Bytes) :
    (persistSourceBytes id bytes tmpId).run Prim.step s = (.ok (), s.setFile id.sourcePath bytes) :=
  (performs_persistSourceBytes (Q := fun _ => True) (F := fun _ => True) htmp (fun _ _ => trivial)
    trivial fun _ _ => trivial).run_eq

/-- Removing a payload, whether it is there or not. -/
theorem run_removeSourceFileIfExists (id : SourceId) (s : Store) :
    (removeSourceFileIfExists id).run Prim.step s = (.ok (), s.eraseFile id.sourcePath) := by
  rw [removeSourceFileIfExists, run_bind, run_attempt, run_perform]
  cases h : s.file id.sourcePath with
  | none =>
    have herase : s.eraseFile id.sourcePath = s := by
      rw [eraseFile, Table.erase_of_find?_eq_none (find?_files_eq_none h)]
    rw [herase]
    simp only [Prim.step, h, run_pure]
  | some bytes => simp only [Prim.step_removeFile h, run_pure]

/-! ## Releasing a source -/

/-- The states between the primitives of `releaseSource`. -/
inductive ReleaseStage (s : Store) (src : Source) : Store → Prop
  /-- Nothing has been done. -/
  | start : ReleaseStage s src s
  /-- The payload has become a tombstone. -/
  | renamed {bytes : Bytes} : src.count = 1 → s.file src.id.sourcePath = some bytes →
      ReleaseStage s src ((s.eraseFile src.id.sourcePath).setFile src.id.tombstonePath bytes)
  /-- The row is gone too. -/
  | erased {bytes : Bytes} : src.count = 1 → s.file src.id.sourcePath = some bytes →
      ReleaseStage s src
        (((s.eraseFile src.id.sourcePath).setFile src.id.tombstonePath bytes).eraseSource src.id)
  /-- All has been done. -/
  | done : ReleaseStage s src (s.release src)

/-- Renaming the tombstone back. -/
theorem same_rename_back {p q : Path} {bytes : Bytes} (hp : s.file p = some bytes)
    (hq : s.file q = none) :
    s.Same ((((s.eraseFile p).setFile q bytes).eraseFile q).setFile p bytes) := by
  have hq' : (s.eraseFile p).file q = none := by
    rw [file_eraseFile]
    split
    · rfl
    · exact hq
  rw [eraseFile_setFile hq']
  refine ⟨fun _ => rfl, fun _ => rfl, rfl, fun p' _ => ?_⟩
  rw [file_setFile, file_eraseFile]
  split
  · next h => rw [h, hp]
  · rfl

/-- Releasing a source, from which the last link has gone if it counts one. -/
theorem performs_releaseSource {link : Link} {src : Source} (hlink : link.sourceId = src.id)
    (hs : s.Releasable src) :
    (releaseSource link src (src.count - 1)).Performs Prim.step s () (s.release src)
      (ReleaseStage s src) s.Same := by
  obtain ⟨hsrc, hpos, hrefs, ⟨bytes, hfile⟩, htomb⟩ := hs
  rw [releaseSource, hlink]
  split
  · next hgt =>
    have hrelease : s.release src = s.setSource (src.withCount (src.count - 1)) := by
      rw [release, if_pos (by omega)]
    refine .perform ?_ .start .done (.refl s)
    rw [hrelease]
    rfl
  · next hle =>
    have hone : src.count = 1 := by omega
    have hrelease : s.release src = (s.eraseFile src.id.sourcePath).eraseSource src.id := by
      rw [release, if_neg (by omega)]
    have htomb' : (s.eraseFile src.id.sourcePath).file src.id.tombstonePath = none := by
      rw [file_eraseFile, htomb, ite_self]
    have hback := same_rename_back hfile htomb
    generalize hs₁ : (s.eraseFile src.id.sourcePath).setFile src.id.tombstonePath bytes = s₁ at hback
    have hfile₁ : s₁.file src.id.tombstonePath = some bytes := by
      rw [← hs₁, file_setFile, if_pos rfl]
    have hfile₂ : (s₁.eraseSource src.id).file src.id.tombstonePath = some bytes := hfile₁
    have hrefs₁ : s₁.refs src.id = 0 := by rw [← hs₁]; exact hrefs hone
    have hrenamed : ReleaseStage s src s₁ := hs₁ ▸ .renamed hone hfile
    have herased : ReleaseStage s src (s₁.eraseSource src.id) := hs₁ ▸ .erased hone hfile
    have hdone : (s₁.eraseSource src.id).eraseFile src.id.tombstonePath = s.release src := by
      rw [hrelease, ← hs₁]
      exact congrArg (·.eraseSource src.id) (eraseFile_setFile htomb' bytes)
    refine .bind (.perform (by rw [Prim.step_rename hfile, hs₁]) .start hrenamed (.refl s)) ?_
    refine .bind (.orUndo (F := (· = s₁)) (.perform (Prim.step_deleteSourceById hrefs₁) hrenamed
      herased rfl) ?_) ?_
    · rintro t rfl
      rw [run_perform, Prim.step_rename hfile₁]
      exact hback
    · refine .orUndo (F := (· = s₁.eraseSource src.id)) (.perform ?_ herased .done rfl) ?_
      · rw [Prim.step_removeFile hfile₂, hdone]
      · rintro t rfl
        have hsrc' : s₁.source src.id = some src := by rw [← hs₁]; exact hsrc
        rw [run_ignore_bind, run_perform, run_perform, Prim.step_rename hfile₂,
          Prim.step_insertSourceWithCount (by
            rw [source_setFile, source_eraseFile, source_eraseSource, if_pos rfl])]
        refine hback.trans ⟨fun _ => rfl, fun id => ?_, rfl, fun _ _ => rfl⟩
        rw [source_insertSource src (by
          rw [source_setFile, source_eraseFile, source_eraseSource, if_pos rfl])]
        simp only [source_setFile, source_eraseFile, source_eraseSource]
        split
        · next heq => rw [heq, hsrc']
        · rfl

/-! ## Writing -/

/-- The states between the primitives of a write of the content `c`. -/
inductive PutStage (s : Store) (d : Draws) (fileName ext : String) (cover : Bool) (c : Stored) :
    Store → Prop
  /-- Nothing has been done. -/
  | start : PutStage s d fileName ext cover c s
  /-- A temporary file may be there. -/
  | tmp {id : SourceId} {t : Store} :
      s.SameExcept (id.tmpPath d.tmpId) t → PutStage s d fileName ext cover c t
  /-- The payload of a new source is there. -/
  | stored : PutStage s d fileName ext cover c (s.setFile d.sourceId.sourcePath c.bytes)
  /-- The new source is there. -/
  | added : PutStage s d fileName ext cover c (s.addSource d.sourceId c)
  /-- The link points to the new source, and the one it pointed to is being
      released. -/
  | releasing {l : Link} {src : Source} {t : Store} :
      s.linkNamed fileName = some l → s.source l.sourceId = some src →
      (if cover then src.count > 1 else ¬(c.hash256 = src.hash256 ∧ src.compressed = c.compressed)) →
      ReleaseStage ((s.addSource d.sourceId c).repoint l.id d.sourceId) src t →
      PutStage s d fileName ext cover c t
  /-- The payload of the source has been overwritten, its row not yet. -/
  | overwriting {l : Link} {src : Source} :
      s.linkNamed fileName = some l → s.source l.sourceId = some src → cover = true →
      src.count = 1 → PutStage s d fileName ext cover c (s.setFile l.sourceId.sourcePath c.bytes)
  /-- The row has been overwritten too. -/
  | overwritten {l : Link} {src : Source} :
      s.linkNamed fileName = some l → s.source l.sourceId = some src → cover = true →
      src.count = 1 → PutStage s d fileName ext cover c
        ((s.setFile l.sourceId.sourcePath c.bytes).setSource (c.row l.sourceId src.count))
  /-- The name links to a source with the same content, which does not count it
      yet. -/
  | linking {src : Source} :
      s.linkNamed fileName = none → s.sources.rows.find? (·.hash256 = c.hash256) = some src →
      PutStage s d fileName ext cover c (s.insertLink ⟨d.linkId, fileName, ext, src.id, 420⟩)
  /-- The source counts the link. -/
  | linked {src : Source} :
      s.linkNamed fileName = none → s.sources.rows.find? (·.hash256 = c.hash256) = some src →
      PutStage s d fileName ext cover c
        ((s.insertLink ⟨d.linkId, fileName, ext, src.id, 420⟩).setSource
          (src.withCount (src.count + 1)))
  /-- The name links to the new source. -/
  | created :
      s.linkNamed fileName = none → s.sources.rows.find? (·.hash256 = c.hash256) = none →
      PutStage s d fileName ext cover c
        ((s.addSource d.sourceId c).insertLink ⟨d.linkId, fileName, ext, d.sourceId, 420⟩)

/-- What a write of the content `c` does. -/
inductive PutEffect (s : Store) (d : Draws) (fileName ext : String) (cover : Bool) (c : Stored) :
    Store → Prop
  /-- The content goes to a source of its own: a covering write to a shared source,
      or another content that does not cover. -/
  | replace {l : Link} {src : Source} :
      s.linkNamed fileName = some l → s.source l.sourceId = some src →
      (if cover then src.count > 1 else ¬(c.hash256 = src.hash256 ∧ src.compressed = c.compressed)) →
      PutEffect s d fileName ext cover c
        (((s.addSource d.sourceId c).repoint l.id d.sourceId).release src)
  /-- A covering write to a source of one link overwrites it. -/
  | overwrite {l : Link} {src : Source} :
      s.linkNamed fileName = some l → s.source l.sourceId = some src → cover = true →
      src.count = 1 → PutEffect s d fileName ext cover c
        ((s.setFile l.sourceId.sourcePath c.bytes).setSource (c.row l.sourceId src.count))
  /-- The name has the content already. -/
  | keep {l : Link} {src : Source} :
      s.linkNamed fileName = some l → s.source l.sourceId = some src → cover = false →
      c.hash256 = src.hash256 → src.compressed = c.compressed →
      PutEffect s d fileName ext cover c s
  /-- A new name for a content that is there. -/
  | share {src : Source} :
      s.linkNamed fileName = none → s.sources.rows.find? (·.hash256 = c.hash256) = some src →
      PutEffect s d fileName ext cover c
        ((s.insertLink ⟨d.linkId, fileName, ext, src.id, 420⟩).setSource
          (src.withCount (src.count + 1)))
  /-- A new name for a new content. -/
  | create :
      s.linkNamed fileName = none → s.sources.rows.find? (·.hash256 = c.hash256) = none →
      PutEffect s d fileName ext cover c
        ((s.addSource d.sourceId c).insertLink ⟨d.linkId, fileName, ext, d.sourceId, 420⟩)

variable {extra : SourceId → ℕ} {d : Draws} {fileName ext : String} {cover : Bool} {c : Stored}

/-- Taking a new source back. -/
theorem same_undo_addSource {t : Store} {id : SourceId} (hsrc : s.source id = none)
    (hfile : s.file id.sourcePath = none) (hrefs : s.refs id = 0) (ht : (s.addSource id c).Same t) :
    s.Same ((do
      (exec (.deleteSourceById id)).ignore
      removeSourceFileIfExists id : Prog Unit).run Prim.step t).2 := by
  rw [run_ignore_bind, run_removeSourceFileIfExists, run_perform,
    Prim.step_deleteSourceById (by rw [ht.refs]; exact hrefs)]
  have h : s.Same (((s.addSource id c).eraseSource id).eraseFile id.sourcePath) := by
    refine ⟨fun _ => rfl, fun id' => ?_, rfl, fun p _ => ?_⟩
    · rw [source_eraseFile, source_eraseSource, source_addSource hsrc]
      split_ifs with h
      · rw [h, hsrc]
      · rfl
    · rw [file_eraseFile, file_eraseSource, file_addSource]
      split_ifs with h
      · rw [h, hfile]
      · rfl
  exact h.trans ((ht.eraseSource id).eraseFile id.sourcePath)

/-- Making a link point back to its source. -/
theorem same_repoint_back {l : Link} (hl : l ∈ s.links.rows) (id : SourceId) :
    s.Same ((s.repoint l.id id).repoint l.id l.sourceId) := by
  refine ⟨fun k => ?_, fun _ => rfl, rfl, fun _ _ => rfl⟩
  rw [repoint_links, repoint_links, Table.find?_update, Table.find?_update]
  cases h : s.links.find? k with
  | none => rfl
  | some l' =>
    simp only [Option.map_some, decide_eq_true_eq, Option.some.injEq]
    by_cases hid : l'.id = l.id
    · rw [s.links.eq_of_key_eq (Table.mem_of_find? h) hl hid, if_pos rfl, if_pos rfl]
    · rw [if_neg hid, if_neg hid]

/-- A new source, with what takes it back. -/
theorem performs_insertSource (hs : s.Sound extra) (hfresh : s.source d.sourceId = none)
    (hstored : Q (s.setFile d.sourceId.sourcePath c.bytes)) (hadded : Q (s.addSource d.sourceId c)) :
    ((exec (.insertSourceWithCount d.sourceId c.hash256 c.compressed c.size 1)).orUndo
      (removeSourceFileIfExists d.sourceId)).Performs Prim.step
        (s.setFile d.sourceId.sourcePath c.bytes) () (s.addSource d.sourceId c) Q s.Same := by
  have hstep := Prim.step_insertSourceWithCount (s := s.setFile d.sourceId.sourcePath c.bytes)
    (show s.source (c.row d.sourceId 1).id = none from hfresh)
  refine .orUndo (F := (· = _)) (.perform hstep hstored hadded rfl) ?_
  rintro t rfl
  rw [run_removeSourceFileIfExists, eraseFile_setFile (hs.file_sourcePath_eq_none hfresh)]
  exact .refl s

theorem performs_replaceSource {l : Link} {src : Source} (hs : s.Sound extra)
    (hfresh : s.source d.sourceId = none) (hl : s.linkNamed fileName = some l)
    (hsrc : s.source l.sourceId = some src)
    (hcond : if cover then src.count > 1
      else ¬(c.hash256 = src.hash256 ∧ src.compressed = c.compressed)) :
    (replaceSource d l src c.compressed c.hash256 c.size c.bytes).Performs Prim.step s ()
      (((s.addSource d.sourceId c).repoint l.id d.sourceId).release src)
      (PutStage s d fileName ext cover c) s.Same := by
  have hmem := (mem_of_linkNamed hl).1
  have hid := id_of_source hsrc
  have hpos := hs.count_pos hsrc
  have hfile := hs.file_sourcePath_eq_none hfresh
  have hrefs := hs.refs_eq_zero hfresh
  have hrel := hs.releasable_redirect hmem hsrc hfresh c
  generalize hs₁ : (s.addSource d.sourceId c).repoint l.id d.sourceId = s₁ at hrel
  have hstage : ∀ {t}, ReleaseStage s₁ src t → PutStage s d fileName ext cover c t :=
    fun ht => .releasing hl hsrc hcond (hs₁ ▸ ht)
  refine .bind (performs_persistSourceBytes (hs.file_tmpPath _ _) (fun _ => .tmp) .stored
    fun _ ht => ht.same (isTmp_tmpPath _ _)) ?_
  refine .bind (performs_insertSource hs hfresh .stored .added) ?_
  have hrepoint : Prim.step (.updateLinkSourceId l.id d.sourceId) (s.addSource d.sourceId c) =
      (.ok (), s₁) := by
    rw [← hs₁, Prim.step_updateLinkSourceId (by rw [source_addSource hfresh, if_pos rfl]; rfl)]
  refine .bind (.orUndo (F := (· = s.addSource d.sourceId c)) (.perform hrepoint .added
    (hstage .start) rfl) ?_) ?_
  · rintro t rfl
    exact same_undo_addSource hfresh hfile hrefs (.refl _)
  · rw [if_neg (by omega)]
    refine .orUndo ((performs_releaseSource hid.symm hrel).mono (fun _ => hstage) fun _ h => h) ?_
    intro t ht
    have hsome : (t.source src.id).isSome := by rw [ht.source, hrel.source]; rfl
    rw [run_ignore_bind, run_perform, Prim.step_updateLinkSourceId hsome]
    refine same_undo_addSource hfresh hfile hrefs (c := c) (Same.trans ?_ (ht.repoint l.id src.id))
    rw [← hs₁, hid]
    exact same_repoint_back (s := s.addSource d.sourceId c) hmem d.sourceId

theorem performs_overwriteSource {l : Link} {src : Source} (hs : s.Sound extra)
    (hl : s.linkNamed fileName = some l) (hsrc : s.source l.sourceId = some src)
    (hcover : cover = true) (hone : src.count = 1) :
    (overwriteSource d l src c.compressed c.hash256 c.size c.bytes).Performs Prim.step s ()
      ((s.setFile l.sourceId.sourcePath c.bytes).setSource (c.row l.sourceId src.count))
      (PutStage s d fileName ext cover c) s.Same := by
  obtain ⟨bytes, hbytes⟩ := hs.exists_file hsrc
  refine .bind (.perform (Prim.step_readFile hbytes) .start .start (.refl s)) ?_
  refine .bind (performs_persistSourceBytes (hs.file_tmpPath _ _) (fun _ => .tmp)
    (.overwriting hl hsrc hcover hone) fun _ ht => ht.same (isTmp_tmpPath _ _)) ?_
  refine .orUndo (F := (· = s.setFile l.sourceId.sourcePath c.bytes)) (.perform rfl
    (.overwriting hl hsrc hcover hone) (.overwritten hl hsrc hcover hone) rfl) ?_
  rintro t rfl
  have htmp : (s.setFile l.sourceId.sourcePath c.bytes).file (l.sourceId.tmpPath d.undoTmpId) =
      none := by
    rw [file_setFile, if_neg (SourceId.sourcePath_ne_tmpPath _ _ _).symm, hs.file_tmpPath]
  rw [run_persistSourceBytes htmp bytes]
  refine ⟨fun _ => rfl, fun _ => rfl, rfl, fun p _ => ?_⟩
  rw [file_setFile, file_setFile]
  split_ifs with h
  · rw [h, hbytes]
  · rfl

/-- The first source with a hash. -/
theorem source_of_find? {hash256 : String} {src : Source}
    (h : s.sources.rows.find? (·.hash256 = hash256) = some src) :
    s.source src.id = some src ∧ src.hash256 = hash256 :=
  ⟨source_of_mem (List.mem_of_find?_eq_some h), by simpa using List.find?_some h⟩

theorem performs_linkToSource {src : Source} (hfresh : s.links.find? d.linkId = none)
    (hl : s.linkNamed fileName = none)
    (hsrc : s.sources.rows.find? (·.hash256 = c.hash256) = some src) :
    (linkToSource d fileName ext src).Performs Prim.step s ()
      ((s.insertLink ⟨d.linkId, fileName, ext, src.id, 420⟩).setSource
        (src.withCount (src.count + 1)))
      (PutStage s d fileName ext cover c) s.Same := by
  have hsome : (s.source src.id).isSome := by rw [(source_of_find? hsrc).1]; rfl
  refine .bind (.perform (Prim.step_insertLinkWithId
    (l := ⟨d.linkId, fileName, ext, src.id, 420⟩) hfresh hsome) .start (.linking hl hsrc)
    (.refl s)) ?_
  refine .orUndo (F := (· = s.insertLink ⟨d.linkId, fileName, ext, src.id, 420⟩)) (.perform rfl
    (.linking hl hsrc) (.linked hl hsrc) rfl) ?_
  rintro t rfl
  have hback : (s.links.insert ⟨d.linkId, fileName, ext, src.id, 420⟩).erase d.linkId = s.links :=
    Table.erase_insert (r := (⟨d.linkId, fileName, ext, src.id, 420⟩ : Link)) hfresh
  exact ⟨fun id => congrArg (Table.find? · id) hback, fun _ => rfl, rfl, fun _ _ => rfl⟩

theorem performs_createSource (hs : s.Sound extra) (hfresh : d.Fresh s)
    (hl : s.linkNamed fileName = none)
    (hnone : s.sources.rows.find? (·.hash256 = c.hash256) = none) :
    (createSource d fileName ext c.compressed c.hash256 c.size c.bytes).Performs Prim.step s ()
      ((s.addSource d.sourceId c).insertLink ⟨d.linkId, fileName, ext, d.sourceId, 420⟩)
      (PutStage s d fileName ext cover c) s.Same := by
  have hsome : ((s.addSource d.sourceId c).source d.sourceId).isSome := by
    rw [source_addSource hfresh.sourceId, if_pos rfl]; rfl
  refine .bind (performs_persistSourceBytes (hs.file_tmpPath _ _) (fun _ => .tmp) .stored
    fun _ ht => ht.same (isTmp_tmpPath _ _)) ?_
  refine .bind (performs_insertSource hs hfresh.sourceId .stored .added) ?_
  refine .orUndo (F := (· = s.addSource d.sourceId c)) (.perform (Prim.step_insertLinkWithId
    (l := ⟨d.linkId, fileName, ext, d.sourceId, 420⟩) hfresh.linkId hsome) .added
    (.created hl hnone) rfl) ?_
  rintro t rfl
  exact same_undo_addSource hfresh.sourceId (hs.file_sourcePath_eq_none hfresh.sourceId)
    (hs.refs_eq_zero hfresh.sourceId) (.refl _)

/-- A write to a sound store succeeds and has one of the five effects; a crash leaves
    one of the stages, a fault the state as it was. -/
theorem performs_putBinaryDataLocked (hs : s.Sound extra) (hfresh : d.Fresh s) :
    ∃ s', PutEffect s d fileName ext cover c s' ∧
      (putBinaryDataLocked d fileName cover c.compressed c.hash256 c.size c.bytes ext).Performs
        Prim.step s () s' (PutStage s d fileName ext cover c) s.Same := by
  have hquery {p : Prim} {a : p.Res} (h : p.step s = (.ok a, s)) :
      (exec p).Performs Prim.step s a s (PutStage s d fileName ext cover c) s.Same :=
    .perform h .start .start (.refl s)
  cases hnamed : s.linksNamed fileName with
  | nil =>
    have hl : s.linkNamed fileName = none := by rw [linkNamed, hnamed]; rfl
    have hlinks := hquery (p := .getLinksByName fileName false) (a := []) (by rw [Prim.step, hnamed])
    cases hsrc : s.sources.rows.find? (·.hash256 = c.hash256) with
    | none =>
      exact ⟨_, .create hl hsrc, .bind hlinks <|
        .bind (hquery (p := .getSourceByHash256 _) (a := none) (by rw [Prim.step, hsrc])) <|
        performs_createSource hs hfresh hl hsrc⟩
    | some src =>
      exact ⟨_, .share hl hsrc, .bind hlinks <|
        .bind (hquery (p := .getSourceByHash256 _) (a := some src) (by rw [Prim.step, hsrc])) <|
        performs_linkToSource hfresh.linkId hl hsrc⟩
  | cons l rest =>
    have hl : s.linkNamed fileName = some l := by rw [linkNamed, hnamed]; rfl
    obtain ⟨src, hsrc⟩ := hs.exists_source (mem_of_linkNamed hl).1
    have hlinks := hquery (p := .getLinksByName fileName false) (a := l :: rest)
      (by rw [Prim.step, hnamed])
    have hsource := hquery (p := .getSourceById l.sourceId) (a := some src) (by
      rw [Prim.step, show s.sources.find? l.sourceId = some src from hsrc])
    have hpos := hs.count_pos hsrc
    by_cases hcover : cover = true
    · by_cases hcount : src.count > 1
      · have hcond : if cover then src.count > 1
            else ¬(c.hash256 = src.hash256 ∧ src.compressed = c.compressed) := by rwa [if_pos hcover]
        refine ⟨_, .replace hl hsrc hcond, .bind hlinks <| .bind hsource ?_⟩
        simp only [if_pos hcover, if_pos hcount]
        exact performs_replaceSource hs hfresh.sourceId hl hsrc hcond
      · have hone : src.count = 1 := by omega
        refine ⟨_, .overwrite hl hsrc hcover hone, .bind hlinks <| .bind hsource ?_⟩
        simp only [if_pos hcover, if_neg hcount]
        exact performs_overwriteSource hs hl hsrc hcover hone
    · by_cases hsame : c.hash256 = src.hash256 ∧ src.compressed = c.compressed
      · refine ⟨s, .keep hl hsrc (Bool.eq_false_iff.2 hcover) hsame.1 hsame.2,
          .bind hlinks <| .bind hsource ?_⟩
        simp only [if_neg hcover, if_pos hsame]
        exact .pure .start
      · have hcond : if cover then src.count > 1
            else ¬(c.hash256 = src.hash256 ∧ src.compressed = c.compressed) := by rwa [if_neg hcover]
        refine ⟨_, .replace hl hsrc hcond, .bind hlinks <| .bind hsource ?_⟩
        simp only [if_neg hcover, if_neg hsame]
        exact performs_replaceSource hs hfresh.sourceId hl hsrc hcond

end StoreManager

/-! ## Contents -/

namespace Engine

variable (E : Engine)

/-- A content as it is stored. -/
def pack (compressed : Bool) (input : Bytes) : Stored where
  compressed := compressed
  size := input.length
  hash256 := E.hash256 input
  bytes := (E.encodeContent compressed input).toOption.getD []

/-- Every content can be stored. -/
theorem encodeContent_eq (compressed : Bool) (input : Bytes) :
    E.encodeContent compressed input = .ok (E.pack compressed input).bytes := by
  have hbytes : ∃ bytes, E.encodeContent compressed input = .ok bytes := by
    rw [encodeContent]
    split
    · exact ⟨_, compressAll_eq input⟩
    · exact ⟨input, rfl⟩
  obtain ⟨bytes, hbytes⟩ := hbytes
  rw [pack]
  simp only [hbytes]
  rfl

theorem decodeContent_pack (hE : E.Lossless) (compressed : Bool) (size : ℕ) (input : Bytes) :
    E.decodeContent compressed size (E.pack compressed input).bytes = .ok input := by
  have h := E.encodeContent_eq compressed input
  rw [encodeContent] at h
  rw [decodeContent]
  cases compressed with
  | false =>
    rw [if_neg Bool.false_ne_true] at h ⊢
    exact h.symm
  | true =>
    rw [if_pos rfl] at h ⊢
    obtain ⟨output, hout, hdec⟩ := decompressAll_compressAll hE input
    rw [hout] at h
    cases h
    exact hdec size

/-- A content is read back from what it is stored as. -/
theorem verify_pack (hE : E.Lossless) (compressed : Bool) (input : Bytes) :
    E.verify (E.pack compressed input) = .ok input := by
  rw [verify, show (E.pack compressed input).compressed = compressed from rfl,
    E.decodeContent_pack hE]
  exact if_neg (not_not_intro rfl)

end Engine

namespace StoreManager

open Store

variable {s : Store} {extra : SourceId → ℕ} {d : Draws}

/-- Outside of the lock, a write only packs the content. -/
theorem putBinaryData_eq (E : Engine) (d : Draws) {fileName : String} (hname : fileName ≠ "")
    (input : Bytes) (cover compressed : Bool) :
    putBinaryData E d fileName input cover compressed =
      let c := E.pack compressed input
      putBinaryDataLocked d fileName cover c.compressed c.hash256 c.size c.bytes
        (pathExtension fileName) := by
  rw [putBinaryData, if_neg hname, E.encodeContent_eq]
  rfl

theorem performs_putBinaryData (E : Engine) (hs : s.Sound extra) (hfresh : d.Fresh s)
    {fileName : String} (hname : fileName ≠ "") (input : Bytes) (cover compressed : Bool) :
    ∃ s', PutEffect s d fileName (pathExtension fileName) cover (E.pack compressed input) s' ∧
      (putBinaryData E d fileName input cover compressed).Performs Prim.step s () s'
        (PutStage s d fileName (pathExtension fileName) cover (E.pack compressed input)) s.Same := by
  rw [putBinaryData_eq E d hname]
  exact performs_putBinaryDataLocked hs hfresh

/-! ## Deleting -/

/-- The states between the primitives of the deletion of links. -/
inductive DeleteStage (s : Store) (links : List Link) : Store → Prop
  /-- Some links have been deleted. -/
  | between {a b : List Link} : links = a ++ b → DeleteStage s links (s.deleteAll a)
  /-- One more is gone, and its source is being released. -/
  | releasing {a b : List Link} {l : Link} {src : Source} {t : Store} :
      links = a ++ l :: b → (s.deleteAll a).source l.sourceId = some src →
      ReleaseStage ((s.deleteAll a).eraseLink l.id) src t → DeleteStage s links t

theorem DeleteStage.cons {l : Link} {links : List Link} {t : Store}
    (h : DeleteStage (s.delete l) links t) : DeleteStage s (l :: links) t := by
  cases h with
  | between h => exact .between (a := l :: _) (congrArg (l :: ·) h)
  | releasing h hsrc ht => exact .releasing (a := l :: _) (congrArg (l :: ·) h) hsrc ht

/-- Deleting one link. A fault leaves the state as it was if the extension of the
    link is that of its name, from which it is computed again. -/
theorem performs_deleteLink (hs : s.Sound extra) {l : Link} (hl : l ∈ s.links.rows)
    (links : List Link) :
    (deleteLink l).Performs Prim.step s () (s.delete l) (DeleteStage s (l :: links))
      fun t => l.ext = pathExtension l.name → s.Same t := by
  obtain ⟨src, hsrc⟩ := hs.exists_source hl
  have hid := id_of_source hsrc
  have hpos := hs.count_pos hsrc
  have hstart : DeleteStage s (l :: links) s := .between (a := []) rfl
  have hstage : ∀ {t}, ReleaseStage (s.eraseLink l.id) src t → DeleteStage s (l :: links) t :=
    .releasing (a := []) rfl hsrc
  rw [delete_eq hsrc]
  refine .bind (.perform (a := some src) ?_ hstart hstart fun _ => .refl s) ?_
  · rw [Prim.step, show s.sources.find? l.sourceId = some src from hsrc]
  · simp only [if_neg (show ¬src.count = 0 by omega)]
    refine .bind (.perform rfl hstart (hstage .start) fun _ => .refl s) ?_
    refine .orUndo ((performs_releaseSource hid.symm (hs.releasable_eraseLink hl hsrc)).mono
      (fun _ => hstage) fun _ h => h) ?_
    intro t ht hext
    have hgone : (s.eraseLink l.id).links.find? l.id = none := by
      rw [eraseLink_links, Table.find?_erase, if_pos rfl]
    have hsome : (t.source l.sourceId).isSome := by
      rw [ht.source]
      exact Option.isSome_iff_exists.2 ⟨src, hsrc⟩
    rw [run_perform, ← hext, Prim.step_insertLinkWithId ((ht.link _).trans hgone) hsome]
    refine Same.trans ?_ (ht.insertLink hgone)
    refine ⟨fun id => ?_, fun _ => rfl, rfl, fun _ _ => rfl⟩
    rw [insertLink_links, Table.find?_insert hgone, eraseLink_links, Table.find?_erase]
    split
    · next h => rw [h, Table.find?_key hl]
    · rfl

theorem mem_links_delete (hs : s.Sound extra) {l l' : Link} (hl : l ∈ s.links.rows) :
    l' ∈ (s.delete l).links.rows ↔ l' ∈ s.links.rows ∧ l' ≠ l := by
  obtain ⟨src, hsrc⟩ := hs.exists_source hl
  rw [delete_eq hsrc, links_release, eraseLink_links, Table.mem_erase]
  refine and_congr_right fun hl' => not_congr ⟨fun h => s.links.eq_of_key_eq hl' hl h, ?_⟩
  exact congrArg Link.id

/-- The links still to be deleted are there after the first is. -/
theorem mem_links_delete_of_cons (hs : s.Sound extra) {l : Link} {links : List Link}
    (hl : ∀ l' ∈ l :: links, l' ∈ s.links.rows) (hnodup : (l :: links).Nodup) :
    ∀ l' ∈ links, l' ∈ (s.delete l).links.rows := fun l' hl' =>
  (mem_links_delete hs (hl l List.mem_cons_self)).2 ⟨hl l' (List.mem_cons_of_mem _ hl'), fun heq =>
    (List.nodup_cons.1 hnodup).1 (heq ▸ hl')⟩

/-- Deleting links, one after the other. A fault leaves a state where some of them
    are deleted and the others are not. -/
theorem performs_deleteLinks (hs : s.Sound extra) {links : List Link}
    (hl : ∀ l ∈ links, l ∈ s.links.rows) (hnodup : links.Nodup) :
    (forEach deleteLink links).Performs Prim.step s () (s.deleteAll links) (DeleteStage s links)
      fun t => (∀ l ∈ links, l.ext = pathExtension l.name) →
        ∃ k ≤ links.length, (s.deleteAll (links.take k)).Same t := by
  induction links generalizing s with
  | nil => exact .pure (.between (a := []) (b := []) rfl)
  | cons l links ih =>
    have hmem := hl l List.mem_cons_self
    have hs' := hs.delete hmem
    have hl' := mem_links_delete_of_cons hs hl hnodup
    refine .bind ((performs_deleteLink hs hmem links).mono (fun _ h => h) ?_)
      ((ih hs' hl' (List.nodup_cons.1 hnodup).2).mono (fun _ => .cons) ?_)
    · exact fun t h hext => ⟨0, Nat.zero_le _, h (hext l List.mem_cons_self)⟩
    · intro t h hext
      obtain ⟨k, hk, ht⟩ := h fun l' hl' => hext l' (List.mem_cons_of_mem _ hl')
      exact ⟨k + 1, Nat.succ_le_succ hk, ht⟩

end StoreManager

/-- The links a pattern stands for. -/
def Store.listed (s : Store) (pattern : String) (n : ℕ) (isext useRegex : Bool) : List Link :=
  if isext then s.links.rows.filter (·.ext = pattern)
  else if (pattern = "" ∨ pattern = "*") ∧ useRegex then
    if n = 0 then s.links.rows else s.links.rows.take n
  else if '*' ∈ pattern.toList ∧ useRegex then
    s.links.rows.filter fun l =>
      like (pattern.toList.map fun c => if c = '*' then '%' else c) l.name.toList
  else s.linksNamed pattern

theorem Store.listed_sublist (s : Store) (pattern : String) (n : ℕ) (isext useRegex : Bool) :
    (s.listed pattern n isext useRegex).Sublist s.links.rows := by
  rw [listed]
  split_ifs
  · exact List.filter_sublist
  · exact .refl _
  · exact List.take_sublist _ _
  · exact List.filter_sublist
  · exact List.filter_sublist

theorem Store.listed_subset {s : Store} {pattern : String} {n : ℕ} {isext useRegex : Bool} :
    ∀ l ∈ s.listed pattern n isext useRegex, l ∈ s.links.rows :=
  fun _ hl => (s.listed_sublist pattern n isext useRegex).subset hl

theorem Store.nodup_listed {s : Store} {pattern : String} {n : ℕ} {isext useRegex : Bool} :
    (s.listed pattern n isext useRegex).Nodup :=
  (List.Nodup.of_map _ s.links.nodup_keys).sublist (s.listed_sublist pattern n isext useRegex)

namespace StoreManager

open Store

variable {s : Store} {extra : SourceId → ℕ}

/-- Listing only reads. -/
theorem listLocked_readOnly (pattern : String) (n : ℕ) (isext useRegex : Bool) :
    (listLocked pattern n isext useRegex).ReadOnly Prim.step := by
  rw [listLocked]
  split_ifs <;> exact Calls.perform fun _ => rfl

theorem run_listLocked (pattern : String) (n : ℕ) (isext useRegex : Bool) (s : Store) :
    (listLocked pattern n isext useRegex).run Prim.step s =
      (.ok (s.listed pattern n isext useRegex), s) := by
  rw [listLocked, listed]
  split_ifs with h₁ h₂ h₃ h₄
  · rfl
  · rw [run_perform, Prim.step, if_pos h₃]
  · rw [run_perform, Prim.step, if_neg h₃]
  · rw [run_perform, Prim.step, String.toList_ofList]
  · rfl

theorem performs_listLocked {Q F : Store → Prop} (pattern : String) (n : ℕ) (isext useRegex : Bool)
    (hQ : Q s) (hF : F s) :
    (listLocked pattern n isext useRegex).Performs Prim.step s (s.listed pattern n isext useRegex) s
      Q F := by
  have hrun := run_listLocked pattern n isext useRegex s
  rw [listLocked] at hrun ⊢
  split_ifs at hrun ⊢ <;> exact .perform hrun hQ hQ hF

theorem performs_delete (hs : s.Sound extra) {pattern : String} (hpattern : pattern ≠ "")
    (useRegx : Bool) :
    (delete pattern useRegx).Performs Prim.step s ()
      (s.deleteAll (s.listed pattern 0 false useRegx))
      (DeleteStage s (s.listed pattern 0 false useRegx))
      fun t => (∀ l ∈ s.listed pattern 0 false useRegx, l.ext = pathExtension l.name) →
        ∃ k ≤ (s.listed pattern 0 false useRegx).length,
          (s.deleteAll ((s.listed pattern 0 false useRegx).take k)).Same t := by
  rw [delete, if_neg hpattern]
  refine .bind (performs_listLocked pattern 0 false useRegx ?_ ?_)
    (performs_deleteLinks hs listed_subset nodup_listed)
  · exact .between (a := []) rfl
  · exact fun _ => ⟨0, Nat.zero_le _, .refl s⟩

end StoreManager

end LiNaStore
