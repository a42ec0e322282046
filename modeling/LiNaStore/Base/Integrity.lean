import LiNaStore.Base.Contents

/-!
# Reading from damaged files

Between two calls anything may happen to the files: they may be changed, exchanged, cut or
removed. The rows stay what they are, and so a store with damaged files still has the rows of
a store with the right files, the one it would be without the damage (`Store.withFiles`).

A write and a deletion do to the rows what they do on that store, or fail and leave them
(`run_putBinaryData_withFiles`, `run_delete_withFiles`). So the hash of a name is that of the
last content that was written under it, and a read that returns something returns that
content (`read_intact`).
-/

namespace LiNaStore

open Program Store

/-- The rows of a store, with other files. -/
@[simps] def Store.withFiles (s : Store) (files : Table File.path) : Store := { s with files }

theorem Store.withFiles_withFiles (s : Store) (files files' : Table File.path) :
    (s.withFiles files).withFiles files' = s.withFiles files' := rfl

theorem Store.source_withFiles (s : Store) (files : Table File.path) (id : SourceId) :
    (s.withFiles files).source id = s.source id := rfl

theorem Store.linksNamed_withFiles (s : Store) (files : Table File.path) (name : String) :
    (s.withFiles files).linksNamed name = s.linksNamed name := rfl

theorem Store.eraseLink_withFiles (s : Store) (files : Table File.path) (id : String) :
    (s.withFiles files).eraseLink id = (s.eraseLink id).withFiles files := rfl

/-- A link that was erased and is there again, with the extension of its name. -/
def Store.reinsert (s : Store) (l : Link) : Store :=
  (s.eraseLink l.id).insertLink { l with ext := pathExtension l.name }

namespace StoreManager

variable {s : Store} {extra : SourceId → ℕ} {d : Draws} {fileName ext : String} {cover : Bool}
  {c : Stored} {files : Table File.path}

/-! ## Writing -/

/-- Writing a payload succeeds, and changes no rows. -/
theorem run_persistSourceBytes_withFiles (s : Store) (id : SourceId) (bytes : Bytes)
    (tmpId : String) : ∃ files, (persistSourceBytes id bytes tmpId).run Prim.step s =
      (.ok (), s.withFiles files) := by
  have hfile : ((s.setFile (id.tmpPath tmpId) []).appendFile (id.tmpPath tmpId) bytes).file
      (id.tmpPath tmpId) = some bytes := by
    rw [file_appendFile, file_setFile, if_pos rfl, Option.map_some, if_pos rfl, List.nil_append]
  have hrename := Prim.step_rename (q := id.sourcePath) hfile
  refine ⟨((((s.setFile (id.tmpPath tmpId) []).appendFile (id.tmpPath tmpId) bytes).eraseFile
    (id.tmpPath tmpId)).setFile id.sourcePath bytes).files, ?_⟩
  rw [persistSourceBytes]
  simp only [run_bind, run_perform, Prim.step, run_orUndo] at hrename ⊢
  rw [hrename]
  rfl

/-- Releasing a source does to the rows what it does with the right files, or fails because
    the payload is gone, and changes nothing. -/
theorem run_releaseSource_withFiles {link : Link} {src : Source} (hlink : link.sourceId = src.id)
    (hpos : 1 ≤ src.count) (hrefs : src.count = 1 → s.refs src.id = 0)
    (files : Table File.path) :
    (∃ files', (releaseSource link src (src.count - 1)).run Prim.step (s.withFiles files) =
      (.ok (), (s.release src).withFiles files')) ∨
    ∃ e, (releaseSource link src (src.count - 1)).run Prim.step (s.withFiles files) =
      (.error e, s.withFiles files) := by
  rw [releaseSource, hlink]
  by_cases hcount : 1 < src.count
  · refine .inl ⟨files, ?_⟩
    rw [if_pos (by omega), release, if_pos hcount]
    rfl
  rw [if_neg (by omega), release, if_neg hcount]
  cases hfile : (s.withFiles files).file src.id.sourcePath with
  | none =>
    refine .inr ⟨.noSuchFile, ?_⟩
    rw [run_bind, run_perform, Prim.step, hfile]
  | some bytes =>
    -- the renamed payload is there to be removed
    let t := ((s.withFiles files).eraseFile src.id.sourcePath).setFile src.id.tombstonePath bytes
    have hrefs' : t.refs src.id = 0 := hrefs (by omega)
    have htomb : (t.eraseSource src.id).file src.id.tombstonePath = some bytes := by
      rw [file_eraseSource, file_setFile, if_pos rfl]
    refine .inl ⟨(t.eraseFile src.id.tombstonePath).files, ?_⟩
    rw [run_bind, run_perform, Prim.step_rename hfile]
    dsimp only
    rw [run_bind, run_orUndo, run_perform, Prim.step_deleteSourceById hrefs']
    dsimp only
    rw [run_orUndo, run_perform, Prim.step_removeFile htomb]
    rfl

/-- Making a link point back to its source. -/
theorem repoint_repoint {l : Link} (hl : l ∈ s.links.rows) (id : SourceId) :
    (s.repoint l.id id).repoint l.id l.sourceId = s := by
  have hlinks : ((s.links.update (·.id = l.id) (fun l => { l with sourceId := id })
      fun _ => rfl).update (·.id = l.id) (fun l' => { l' with sourceId := l.sourceId })
        fun _ => rfl) = s.links := by
    refine Table.ext ?_
    change (s.links.rows.map _).map _ = s.links.rows
    rw [List.map_map]
    refine (List.map_congr_left fun l' hl' => ?_).trans (List.map_id _)
    by_cases hid : l'.id = l.id
    · rw [s.links.eq_of_key_eq hl' hl hid]
      simp
    · simp [hid]
  rw [repoint, repoint_links, hlinks]
  rfl

/-- Taking a new source back. -/
theorem eraseSource_insertSource (src : Source) (h : s.source src.id = none) :
    (s.insertSource src).eraseSource src.id = s := by
  rw [eraseSource, insertSource_sources, Table.erase_insert h]
  rfl

theorem step_insertRow {id : SourceId} (h : s.source id = none) (files : Table File.path) :
    Prim.step (.insertSourceWithCount id c.hash256 c.compressed c.size 1) (s.withFiles files) =
      (.ok (), (s.insertSource (c.row id 1)).withFiles files) :=
  Prim.step_insertSourceWithCount (show (s.withFiles files).source (c.row id 1).id = none from h)

theorem source_insertSource_row {id : SourceId} (h : s.source id = none) (id' : SourceId) :
    (s.insertSource (c.row id 1)).source id' =
      if id' = id then some (c.row id 1) else s.source id' :=
  source_insertSource (c.row id 1) h id'

/-- After its link has been made to point elsewhere, a source that counts one link has none. -/
theorem refs_redirect (hs : s.Counted extra) {l : Link} {src : Source} (hl : l ∈ s.links.rows)
    (hsrc : s.source l.sourceId = some src) {new : SourceId} (hne : new ≠ l.sourceId)
    (hone : src.count = 1) : (s.repoint l.id new).refs src.id = 0 := by
  have hcount := hs.count_eq hsrc
  have hrefs := s.refs_repoint l.sourceId hl new
  rw [if_pos rfl, if_neg hne] at hrefs
  rw [id_of_source hsrc]
  omega

theorem run_replaceSource_withFiles (hs : s.Counted extra) (hfresh : s.source d.sourceId = none)
    {l : Link} {src : Source} (hl : l ∈ s.links.rows) (hsrc : s.source l.sourceId = some src)
    (files : Table File.path) :
    (∃ files', (replaceSource d l src c.compressed c.hash256 c.size c.bytes).run Prim.step
      (s.withFiles files) =
        (.ok (), (((s.addSource d.sourceId c).repoint l.id d.sourceId).release src).withFiles
          files')) ∨
    ∃ e files', (replaceSource d l src c.compressed c.hash256 c.size c.bytes).run Prim.step
      (s.withFiles files) = (.error e, s.withFiles files') := by
  have hid := id_of_source hsrc
  have hpos := hs.count_pos hsrc
  have hne : d.sourceId ≠ l.sourceId := fun h => by rw [h, hsrc] at hfresh; cases hfresh
  obtain ⟨files₁, hpersist⟩ := run_persistSourceBytes_withFiles (s.withFiles files) d.sourceId
    c.bytes d.tmpId
  let s₁ := s.insertSource (c.row d.sourceId 1)
  let s₂ := s₁.repoint l.id d.sourceId
  have hinsert := step_insertRow (c := c) hfresh files₁
  have hsource₁ := source_insertSource_row (c := c) hfresh
  have hupdate : Prim.step (.updateLinkSourceId l.id d.sourceId) (s₁.withFiles files₁) =
      (.ok (), s₂.withFiles files₁) :=
    Prim.step_updateLinkSourceId (s := s₁.withFiles files₁) (by
      rw [source_withFiles, hsource₁, if_pos rfl]
      rfl)
  have hrefs : src.count = 1 → s₂.refs src.id = 0 := refs_redirect hs hl hsrc hne
  rw [replaceSource, run_bind, hpersist]
  dsimp only
  rw [withFiles_withFiles, run_bind, run_orUndo, run_perform, hinsert]
  dsimp only
  rw [run_bind, run_orUndo, run_perform, hupdate]
  dsimp only
  rw [if_neg (by omega), run_orUndo]
  rcases run_releaseSource_withFiles (s := s₂) hid.symm hpos hrefs files₁ with
    ⟨files₂, hrelease⟩ | ⟨e, hrelease⟩
  · refine .inl ⟨files₂, ?_⟩
    rw [hrelease]
    dsimp only
    rw [release, release]
    split <;> rfl
  · -- the link points back, and the new source goes
    have hback : Prim.step (.updateLinkSourceId l.id src.id) (s₂.withFiles files₁) =
        (.ok (), s₁.withFiles files₁) := by
      rw [Prim.step_updateLinkSourceId (s := s₂.withFiles files₁) (by
        rw [source_withFiles, source_repoint, hsource₁, hid, if_neg hne.symm, hsrc]
        rfl), hid]
      exact congrArg (fun t : Store => (Except.ok (), t.withFiles files₁))
        (repoint_repoint (s := s₁) hl d.sourceId)
    have hgone : Prim.step (.deleteSourceById d.sourceId) (s₁.withFiles files₁) =
        (.ok (), s.withFiles files₁) := by
      rw [Prim.step_deleteSourceById (s := s₁.withFiles files₁) (hs.refs_eq_zero hfresh)]
      exact congrArg (fun t : Store => (Except.ok (), t.withFiles files₁))
        (eraseSource_insertSource (c.row d.sourceId 1) hfresh)
    refine .inr ⟨e, ((s.withFiles files₁).eraseFile d.sourceId.sourcePath).files, ?_⟩
    rw [hrelease]
    dsimp only
    rw [run_ignore_bind, run_perform, hback, run_ignore_bind, run_perform, hgone,
      run_removeSourceFileIfExists]
    rfl

/-- Overwriting fails if the payload that would be overwritten is gone. -/
theorem run_overwriteSource_withFiles (s : Store) (l : Link) (src : Source)
    (files : Table File.path) :
    (∃ files', (overwriteSource d l src c.compressed c.hash256 c.size c.bytes).run Prim.step
      (s.withFiles files) =
        (.ok (), ((s.setFile l.sourceId.sourcePath c.bytes).setSource
          (c.row l.sourceId src.count)).withFiles files')) ∨
    ∃ e, (overwriteSource d l src c.compressed c.hash256 c.size c.bytes).run Prim.step
      (s.withFiles files) = (.error e, s.withFiles files) := by
  rw [overwriteSource, run_bind, run_perform]
  cases hfile : (s.withFiles files).file l.sourceId.sourcePath with
  | none =>
    refine .inr ⟨.noSuchFile, ?_⟩
    rw [Prim.step, hfile]
  | some bytes =>
    obtain ⟨files₁, hpersist⟩ := run_persistSourceBytes_withFiles (s.withFiles files) l.sourceId
      c.bytes d.tmpId
    refine .inl ⟨files₁, ?_⟩
    rw [Prim.step_readFile hfile]
    dsimp only
    rw [run_bind, hpersist]
    rfl

theorem run_createSource_withFiles (hfresh : d.Fresh s) (fileName ext : String) (c : Stored)
    (files : Table File.path) :
    ∃ files', (createSource d fileName ext c.compressed c.hash256 c.size c.bytes).run Prim.step
      (s.withFiles files) =
        (.ok (), ((s.addSource d.sourceId c).insertLink
          ⟨d.linkId, fileName, ext, d.sourceId, 420⟩).withFiles files') := by
  obtain ⟨files₁, hpersist⟩ := run_persistSourceBytes_withFiles (s.withFiles files) d.sourceId
    c.bytes d.tmpId
  let s₁ := s.insertSource (c.row d.sourceId 1)
  have hinsert := step_insertRow (c := c) hfresh.sourceId files₁
  have hsome : ((s₁.withFiles files₁).source d.sourceId).isSome := by
    rw [source_withFiles, source_insertSource_row hfresh.sourceId, if_pos rfl]
    rfl
  refine ⟨files₁, ?_⟩
  rw [createSource, run_bind, hpersist]
  dsimp only
  rw [withFiles_withFiles, run_bind, run_orUndo, run_perform, hinsert]
  dsimp only
  rw [run_orUndo, run_perform, Prim.step_insertLinkWithId (s := s₁.withFiles files₁)
    (l := ⟨d.linkId, fileName, ext, d.sourceId, 420⟩) hfresh.linkId hsome]
  rfl

/-- A write has the effect on the rows it has with the right files, or fails and leaves the
    rows as they were. -/
theorem run_putBinaryDataLocked_withFiles (hs : s.Counted extra) (hfresh : d.Fresh s)
    (files : Table File.path) :
    (∃ s' files', PutEffect s d fileName ext cover c s' ∧
      (putBinaryDataLocked d fileName cover c.compressed c.hash256 c.size c.bytes ext).run Prim.step
        (s.withFiles files) = (.ok (), s'.withFiles files')) ∨
    ∃ e files', (putBinaryDataLocked d fileName cover c.compressed c.hash256 c.size c.bytes ext).run
      Prim.step (s.withFiles files) = (.error e, s.withFiles files') := by
  rw [putBinaryDataLocked, run_bind, run_perform, Prim.step, linksNamed_withFiles]
  cases hnamed : s.linksNamed fileName with
  | nil =>
    have hl : s.linkNamed fileName = none := by rw [linkNamed, hnamed]; rfl
    dsimp only
    rw [run_bind, run_perform, Prim.step, withFiles_sources]
    cases hsrc : s.sources.rows.find? (·.hash256 = c.hash256) with
    | none =>
      obtain ⟨files', hrun⟩ := run_createSource_withFiles hfresh fileName ext c files
      exact .inl ⟨_, files', .create hl hsrc, hrun⟩
    | some src =>
      have hlink := @performs_linkToSource (s.withFiles files) d fileName ext cover c src
        hfresh.linkId hl hsrc
      exact .inl ⟨_, files, .share hl hsrc, hlink.run_eq⟩
  | cons l rest =>
    have hl : s.linkNamed fileName = some l := by rw [linkNamed, hnamed]; rfl
    have hmem := (mem_of_linkNamed hl).1
    obtain ⟨src, hsrc⟩ := hs.exists_source hmem
    have hreplace (hcond : if cover then src.count > 1
        else ¬(c.hash256 = src.hash256 ∧ src.compressed = c.compressed)) :
        (∃ s' files', PutEffect s d fileName ext cover c s' ∧
          (replaceSource d l src c.compressed c.hash256 c.size c.bytes).run Prim.step
            (s.withFiles files) = (.ok (), s'.withFiles files')) ∨
        ∃ e files', (replaceSource d l src c.compressed c.hash256 c.size c.bytes).run Prim.step
          (s.withFiles files) = (.error e, s.withFiles files') := by
      rcases run_replaceSource_withFiles hs hfresh.sourceId hmem hsrc files with
        ⟨files', hrun⟩ | hrun
      · exact .inl ⟨_, files', .replace hl hsrc hcond, hrun⟩
      · exact .inr hrun
    dsimp only
    rw [run_bind, run_perform, Prim.step, withFiles_sources,
      show s.sources.find? l.sourceId = some src from hsrc]
    dsimp only
    by_cases hcover : cover = true
    · rw [if_pos hcover]
      by_cases hcount : src.count > 1
      · rw [if_pos hcount]
        exact hreplace (by rwa [if_pos hcover])
      · have hone : src.count = 1 := by
          have := hs.count_pos hsrc
          omega
        rw [if_neg hcount]
        rcases run_overwriteSource_withFiles (d := d) (c := c) s l src files with
          ⟨files', hrun⟩ | ⟨e, hrun⟩
        · exact .inl ⟨_, files', .overwrite hl hsrc hcover hone, hrun⟩
        · exact .inr ⟨e, files, hrun⟩
    · rw [if_neg hcover]
      by_cases hsame : c.hash256 = src.hash256 ∧ src.compressed = c.compressed
      · rw [if_pos hsame]
        exact .inl ⟨s, files, .keep hl hsrc (Bool.eq_false_iff.2 hcover) hsame.1 hsame.2, rfl⟩
      · rw [if_neg hsame]
        exact hreplace (by rwa [if_neg hcover])

/-! ## Deleting -/

/-- Deleting a link releases its source or, if the payload is gone, fails and inserts the link
    again. -/
theorem run_deleteLink_withFiles (hs : s.Counted extra) {l : Link} (hl : l ∈ s.links.rows)
    (files : Table File.path) :
    (∃ files', (deleteLink l).run Prim.step (s.withFiles files) =
      (.ok (), (s.delete l).withFiles files')) ∨
    ∃ e, (deleteLink l).run Prim.step (s.withFiles files) =
      (.error e, (s.reinsert l).withFiles files) := by
  obtain ⟨src, hsrc⟩ := hs.exists_source hl
  have hid := id_of_source hsrc
  have hpos := hs.count_pos hsrc
  have hrefs : src.count = 1 → (s.eraseLink l.id).refs src.id = 0 := by
    intro hone
    have hcount := hs.count_eq hsrc
    have herase := s.refs_eraseLink src.id hl
    rw [if_pos hid.symm, hid] at herase
    rw [hid]
    omega
  rw [deleteLink, run_bind, run_perform, Prim.step, withFiles_sources,
    show s.sources.find? l.sourceId = some src from hsrc]
  dsimp only
  rw [if_neg (by omega), run_bind, run_perform, Prim.step]
  dsimp only
  rw [run_orUndo, eraseLink_withFiles]
  rcases run_releaseSource_withFiles (s := s.eraseLink l.id) hid.symm hpos hrefs files with
    ⟨files', hrelease⟩ | ⟨e, hrelease⟩
  · refine .inl ⟨files', ?_⟩
    rw [delete_eq hsrc, hrelease]
  · refine .inr ⟨e, ?_⟩
    have hgone : (s.eraseLink l.id).links.find? l.id = none := by
      rw [eraseLink_links, Table.find?_erase, if_pos rfl]
    rw [hrelease]
    dsimp only
    rw [run_perform, Prim.step_insertLinkWithId (s := (s.eraseLink l.id).withFiles files)
      (l := { l with ext := pathExtension l.name }) hgone (hs.source_of_link l hl)]
    rfl

end StoreManager

namespace Store

variable {s : Store} {extra : SourceId → ℕ}

theorem linkNamed_reinsert (hs : s.UniqueNames) {l : Link} (hl : l ∈ s.links.rows) (name : String) :
    (s.reinsert l).linkNamed name =
      if name = l.name then some { l with ext := pathExtension l.name } else s.linkNamed name := by
  have hgone : (s.eraseLink l.id).links.find? l.id = none := by
    rw [eraseLink_links, Table.find?_erase, if_pos rfl]
  rw [reinsert, linkNamed_insertLink (l := { l with ext := pathExtension l.name }) hgone
    (by rw [linkNamed_eraseLink hs hl, if_pos rfl]), linkNamed_eraseLink hs hl]
  split <;> rfl

/-- Inserting a link again changes nothing of what is read. -/
theorem read_reinsert (hs : s.UniqueNames) {l : Link} (hl : l ∈ s.links.rows) (name : String) :
    (s.reinsert l).read name = s.read name := by
  refine read_congr ?_ fun _ _ => rfl
  rw [linkNamed_reinsert hs hl]
  split
  · next h => rw [h, hs.linkNamed hl]; rfl
  · rfl

theorem Sound.reinsert (hs : s.Sound extra) {l : Link} (hl : l ∈ s.links.rows) :
    (s.reinsert l).Sound extra := by
  have hgone : (s.eraseLink l.id).links.find? l.id = none := by
    rw [eraseLink_links, Table.find?_erase, if_pos rfl]
  have h := (hs.toCounted.eraseLink hl).insertLink (l := { l with ext := pathExtension l.name })
    (n := extra l.sourceId) hgone (by rw [linkNamed_eraseLink hs.unique_names hl, if_pos rfl])
    (hs.source_of_link l hl) (Function.update_self ..)
  rw [Function.update_idem, Function.update_eq_self] at h
  exact hs.of_counted h (fun _ => rfl) fun _ => rfl

end Store

namespace StoreManager

/-- Deleting links removes names, or stops at one whose payload is gone: in either case the
    names that are left are read as before. -/
theorem run_deleteLinks_withFiles {s : Store} (hs : s.Sound 0) {links : List Link}
    (hl : ∀ l ∈ links, l ∈ s.links.rows) (hnodup : links.Nodup) (files : Table File.path) :
    ∃ (s' : Store) (files' : Table File.path),
      ((forEach deleteLink links).run Prim.step (s.withFiles files)).2 = s'.withFiles files' ∧
      s'.Sound 0 ∧ ∀ name st, s'.read name = .ok st → s.read name = .ok st := by
  induction links generalizing s files with
  | nil => exact ⟨s, files, rfl, hs, fun _ _ h => h⟩
  | cons l links ih =>
    have hmem := hl l List.mem_cons_self
    rw [run_forEach_cons]
    rcases run_deleteLink_withFiles hs.toCounted hmem files with ⟨files₁, hrun⟩ | ⟨e, hrun⟩
    · obtain ⟨s', files', hrest, hs', hread⟩ := ih (hs.delete hmem)
        (mem_links_delete_of_cons hs hl hnodup) (List.nodup_cons.1 hnodup).2 files₁
      refine ⟨s', files', by rw [hrun]; exact hrest, hs', fun name st h => ?_⟩
      have hst := hread name st h
      rw [hs.read_delete hmem] at hst
      split_ifs at hst
      exact hst
    · refine ⟨s.reinsert l, files, by rw [hrun], hs.reinsert hmem, fun name st h => ?_⟩
      rwa [read_reinsert hs.unique_names hmem] at h

theorem run_delete_withFiles {s : Store} (hs : s.Sound 0) (pattern : String) (useRegx : Bool)
    (files : Table File.path) :
    ∃ (s' : Store) (files' : Table File.path),
      ((delete pattern useRegx).run Prim.step (s.withFiles files)).2 = s'.withFiles files' ∧
      s'.Sound 0 ∧ ∀ name st, s'.read name = .ok st → s.read name = .ok st := by
  rw [delete]
  split
  · exact ⟨s, files, rfl, hs, fun _ _ h => h⟩
  · rw [run_bind, run_listLocked]
    exact run_deleteLinks_withFiles hs listed_subset nodup_listed files

theorem run_putBinaryData_withFiles (E : Engine) {s : Store} {d : Draws} (hs : s.Sound 0)
    (hfresh : d.Fresh s) (fileName : String) (input : Bytes) (cover compressed : Bool)
    (files : Table File.path) :
    (∃ s' files',
      PutEffect s d fileName (pathExtension fileName) cover (E.pack compressed input) s' ∧
      (putBinaryData E d fileName input cover compressed).run Prim.step (s.withFiles files) =
        (.ok (), s'.withFiles files')) ∨
    ∃ e files', (putBinaryData E d fileName input cover compressed).run Prim.step
      (s.withFiles files) = (.error e, s.withFiles files') := by
  by_cases hname : fileName = ""
  · exact .inr ⟨.noFilename, files, by rw [putBinaryData, if_pos hname]; rfl⟩
  · rw [putBinaryData_eq E d hname]
    exact run_putBinaryDataLocked_withFiles hs.toCounted hfresh files

end StoreManager

/-! ## Runs with damage -/

open StoreManager

/-- The runs of writes and deletions where the files may become any others between two of
    them. Of each name, the content that was last written under it with success is kept. -/
inductive DamagedRun (E : Engine) : Store → Contents → Prop
  /-- A new store. -/
  | empty : DamagedRun E .empty fun _ => none
  /-- The files become others. -/
  | damage {s : Store} {last : Contents} (files : Table File.path) :
      DamagedRun E s last → DamagedRun E (s.withFiles files) last
  /-- A write succeeds. -/
  | put {s s' : Store} {last : Contents} (d : Draws) (fileName : String) (input : Bytes)
      (cover compressed : Bool) : DamagedRun E s last → d.Fresh s →
      (putBinaryData E d fileName input cover compressed).run Prim.step s = (.ok (), s') →
      DamagedRun E s' (last.put fileName input)
  /-- A write fails. -/
  | putError {s s' : Store} {last : Contents} {e : StoreError} (d : Draws) (fileName : String)
      (input : Bytes) (cover compressed : Bool) : DamagedRun E s last → d.Fresh s →
      (putBinaryData E d fileName input cover compressed).run Prim.step s = (.error e, s') →
      DamagedRun E s' last
  /-- A deletion, which may succeed or fail. -/
  | delete {s : Store} {last : Contents} (pattern : String) (useRegx : Bool) :
      DamagedRun E s last →
      DamagedRun E ((StoreManager.delete pattern useRegx).run Prim.step s).2 last

/-- The hashes of a sound store are those of the contents that were written last. -/
structure Store.Hashes (E : Engine) (last : Contents) (s : Store) : Prop where
  sound : s.Sound 0
  hash256 : ∀ name st, s.read name = .ok st → ∃ data, last name = some data ∧
    E.hash256 data = st.hash256

namespace Store.Hashes

variable {E : Engine} {last : Contents} {s s' : Store}

theorem put (hs : s.Hashes E last) {d : Draws} {fileName ext : String} {cover compressed : Bool}
    {input : Bytes} (hfresh : d.Fresh s)
    (h : PutEffect s d fileName ext cover (E.pack compressed input) s') :
    s'.Hashes E (last.put fileName input) where
  sound := by
    obtain ⟨extra, hle, hs'⟩ := h.sound hs.sound hfresh
    exact (le_antisymm hle fun _ => Nat.zero_le _) ▸ hs'
  hash256 name st hst := by
    by_cases hname : name = fileName
    · subst hname
      refine ⟨input, Function.update_self .., ?_⟩
      -- the name has the content, or it shares a source of the same hash
      rcases h.read_self hfresh with hself | ⟨src, hsrc, hhash, hself⟩
      · rw [hself] at hst
        cases hst
        rfl
      · obtain ⟨bytes, hbytes⟩ := hs.sound.exists_file hsrc
        rw [hself, readSource_eq_ok hsrc hbytes] at hst
        cases hst
        exact hhash.symm
    · rw [h.read_of_ne hs.sound hfresh hname] at hst
      obtain ⟨data, hlast, hdata⟩ := hs.hash256 name st hst
      exact ⟨data, (Function.update_of_ne hname ..).trans hlast, hdata⟩

end Store.Hashes

/-- Whatever happens to the files, the rows are those of a store whose hashes are right. -/
theorem DamagedRun.hashes {E : Engine} {s : Store} {last : Contents} (h : DamagedRun E s last) :
    ∃ (t : Store) (files : Table File.path), s = t.withFiles files ∧ t.Hashes E last := by
  induction h with
  | empty => exact ⟨.empty, .empty, rfl, sound_empty, fun _ _ h => by cases h⟩
  | damage files _ ih =>
    obtain ⟨t, _, rfl, ht⟩ := ih
    exact ⟨t, files, rfl, ht⟩
  | put d fileName input cover compressed _ hfresh hrun ih =>
    obtain ⟨t, files, rfl, ht⟩ := ih
    have hfresh' : d.Fresh t := ⟨hfresh.sourceId, hfresh.linkId⟩
    rcases run_putBinaryData_withFiles E ht.sound hfresh' fileName input cover compressed files with
      ⟨t', files', heff, hok⟩ | ⟨_, _, herror⟩
    · rw [hok] at hrun
      cases hrun
      exact ⟨t', files', rfl, ht.put hfresh' heff⟩
    · rw [herror] at hrun
      cases hrun
  | putError d fileName input cover compressed _ hfresh hrun ih =>
    obtain ⟨t, files, rfl, ht⟩ := ih
    have hfresh' : d.Fresh t := ⟨hfresh.sourceId, hfresh.linkId⟩
    rcases run_putBinaryData_withFiles E ht.sound hfresh' fileName input cover compressed files with
      ⟨_, _, _, hok⟩ | ⟨_, files', herror⟩
    · rw [hok] at hrun
      cases hrun
    · rw [herror] at hrun
      cases hrun
      exact ⟨t, files', rfl, ht⟩
  | delete pattern useRegx _ ih =>
    obtain ⟨t, files, rfl, ht⟩ := ih
    obtain ⟨t', files', hrun, hs', hread⟩ := run_delete_withFiles ht.sound pattern useRegx files
    exact ⟨t', files', hrun, hs', fun name st h => ht.hash256 name st (hread name st h)⟩

/-- What is read from damaged files has the hash of what is read from the right ones. -/
theorem Store.Sound.read_withFiles {s : Store} {extra : SourceId → ℕ} (hs : s.Sound extra)
    {files : Table File.path} {name : String} {st : Stored}
    (h : (s.withFiles files).read name = .ok st) :
    ∃ st', s.read name = .ok st' ∧ st'.hash256 = st.hash256 := by
  cases hl : s.linkNamed name with
  | none =>
    rw [read_of_linkNamed_eq_none (s := s.withFiles files) hl] at h
    cases h
  | some l =>
    obtain ⟨src, hsrc⟩ := hs.exists_source (mem_of_linkNamed hl).1
    obtain ⟨bytes, hbytes⟩ := hs.exists_file hsrc
    refine ⟨src.stored bytes, by rw [read_of_linkNamed hl, readSource_eq_ok hsrc hbytes], ?_⟩
    rw [read_of_linkNamed (s := s.withFiles files) hl, readSource, source_withFiles, hsrc] at h
    cases hfile : (s.withFiles files).file l.sourceId.sourcePath with
    | none => rw [hfile] at h; cases h
    | some bytes' => rw [hfile] at h; cases h; rfl

/-- Whatever happens to the files between the calls of a run, reading a name returns the
    content that was last written under it, or an error. -/
theorem read_intact {E : Engine} {s : Store} {last : Contents} (hE : Function.Injective E.hash256)
    (h : DamagedRun E s last) (name : String) (data : Bytes)
    (hread : ((getBinaryData E name).run Prim.step s).1 = .ok data) : last name = some data := by
  obtain ⟨t, files, rfl, ht⟩ := h.hashes
  rw [run_getBinaryData, Store.get] at hread
  dsimp only at hread
  split_ifs at hread
  cases hst : (t.withFiles files).read name with
  | error e => rw [hst] at hread; cases hread
  | ok st =>
    have hverify : E.verify st = .ok data := by rw [hst] at hread; exact hread
    obtain ⟨st', hst', hhash⟩ := ht.sound.read_withFiles hst
    obtain ⟨data', hlast, hdata'⟩ := ht.hash256 name st' hst'
    have heq : E.hash256 data' = E.hash256 data :=
      hdata'.trans (hhash.trans (Engine.verify_eq_ok_iff.1 hverify).2.symm)
    rw [hlast, hE heq]

theorem Engine.injective_hash256_plain : Function.Injective Engine.plain.hash256 := by
  intro c c' h
  have hchar : Function.Injective Char.ofUInt8 := fun a b hab =>
    UInt8.toNat_inj.1 (congrArg Char.toNat hab)
  exact hchar.list_map (String.ofList_inj.1 h)

/-- Two names, the second of which has lost its payload to the first: the first is read, the
    second is not. -/
theorem read_intact_exchanged :
    ∃ s last, DamagedRun .plain s last ∧
      ((getBinaryData .plain "b").run Prim.step s).1 = .error .integrityCheckFailed ∧
      ((getBinaryData .plain "a").run Prim.step s).1 = .ok [1] ∧ last "a" = some [1] := by
  have h : DamagedRun .plain _ _ := .damage
    ⟨[⟨(Draws.sample 0).sourceId.sourcePath, [1]⟩, ⟨(Draws.sample 1).sourceId.sourcePath, [1]⟩],
      by decide⟩
    (.put (.sample 1) "b" [2] true false
      (.put (.sample 0) "a" [1] true false .empty ⟨rfl, rfl⟩ rfl) ⟨rfl, rfl⟩ rfl)
  exact ⟨_, _, h, rfl, rfl, read_intact Engine.injective_hash256_plain h "a" [1] rfl⟩

end LiNaStore
