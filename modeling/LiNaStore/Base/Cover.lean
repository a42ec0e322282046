import LiNaStore.Base.Contents

/-!
# Covering writes in any store

A covering write to a name that has a link never shares a payload: it overwrites the source of the
link or, if others link to it, gives the link a source of its own. So that if it succeeds its name
has the content, whatever the store is like otherwise (`of_putBinaryData_cover`): sources may be
miscounted, payloads missing, temporary files left over from writes that failed.
-/

namespace LiNaStore.StoreManager

open Program Store

variable {s s' : Store} {d : Draws} {l : Link} {src : Source} {c : Stored}

/-- Writing a payload succeeds, and changes no row. -/
theorem exists_run_persistSourceBytes (id : SourceId) (bytes : Bytes) (tmpId : String) (s : Store) :
    ∃ s₁, (persistSourceBytes id bytes tmpId).run Prim.step s = (.ok (), s₁) ∧
      s₁.links = s.links ∧ s₁.sources = s.sources ∧ s₁.file id.sourcePath = some bytes := by
  have hbytes : ((s.setFile (id.tmpPath tmpId) []).appendFile (id.tmpPath tmpId) bytes).file
      (id.tmpPath tmpId) = some bytes := by
    rw [file_appendFile, file_setFile, if_pos rfl, Option.map_some, if_pos rfl, List.nil_append]
  let s₁ := (s.setFile (id.tmpPath tmpId) []).appendFile (id.tmpPath tmpId) bytes
  refine ⟨(s₁.eraseFile (id.tmpPath tmpId)).setFile id.sourcePath bytes, ?_, rfl, rfl, ?_⟩
  · simp only [persistSourceBytes, run_bind, run_perform, run_orUndo, Prim.step, hbytes]
    rfl
  · rw [file_setFile, if_pos rfl]

/-- A link that has got a source of its own is read as the content. -/
theorem of_replaceSource_ok (hsrc : s.source l.sourceId = some src) (hcount : 1 < src.count)
    (h : (replaceSource d l src c.compressed c.hash256 c.size c.bytes).run Prim.step s =
      (.ok (), s')) :
    s'.links = (s.repoint l.id d.sourceId).links ∧ s'.readSource d.sourceId = .ok c := by
  obtain ⟨s₁, hrun₁, hlinks₁, hsources₁, hfile₁⟩ :=
    exists_run_persistSourceBytes d.sourceId c.bytes d.tmpId s
  have hid := id_of_source hsrc
  have hsource₁ (id : SourceId) : s₁.source id = s.source id := by
    rw [Store.source, hsources₁]
    rfl
  rw [replaceSource, run_bind, hrun₁] at h
  dsimp only at h
  rw [run_bind, run_orUndo, run_perform] at h
  by_cases hfresh : s₁.source d.sourceId = none
  · let s₂ := s₁.insertSource (c.row d.sourceId 1)
    have hinsert : Prim.step (.insertSourceWithCount d.sourceId c.hash256 c.compressed c.size 1) s₁ =
        (.ok (), s₂) :=
      Prim.step_insertSourceWithCount (show s₁.source (c.row d.sourceId 1).id = none from hfresh)
    have hsource₂ (id : SourceId) :
        s₂.source id = if id = d.sourceId then some (c.row d.sourceId 1) else s₁.source id :=
      source_insertSource (c.row d.sourceId 1) hfresh id
    have hrepoint : Prim.step (.updateLinkSourceId l.id d.sourceId) s₂ =
        (.ok (), s₂.repoint l.id d.sourceId) :=
      Prim.step_updateLinkSourceId (by rw [hsource₂, if_pos rfl]; rfl)
    rw [hinsert] at h
    dsimp only at h
    rw [run_bind, run_orUndo, run_perform, hrepoint] at h
    dsimp only at h
    rw [if_neg (by omega), run_orUndo, releaseSource, if_pos (by omega), run_perform] at h
    have hs' : (s₂.repoint l.id d.sourceId).setSource (src.withCount (src.count - 1)) = s' :=
      congrArg Prod.snd h
    have hne : l.sourceId ≠ d.sourceId := fun heq => by
      rw [hsource₁, ← heq, hsrc] at hfresh
      cases hfresh
    have hsrc₂ : (s₂.repoint l.id d.sourceId).source src.id = some src := by
      rw [source_repoint, hsource₂, hid, if_neg hne, hsource₁, hsrc]
    rw [← hs', readSource_setSource_withCount hsrc₂]
    refine ⟨?_, readSource_eq_ok (?_ : _ = some (c.row d.sourceId 1)) hfile₁⟩
    · rw [setSource_links, repoint_links, repoint_links, insertSource_links, hlinks₁]
    · rw [source_repoint, hsource₂, if_pos rfl]
  · -- the identifier drawn is that of another source
    have hsome : (s₁.sources.find? d.sourceId).isSome := Option.isSome_iff_ne_none.mpr hfresh
    rw [Prim.step, if_pos hsome] at h
    cases h

/-- A link whose source has been overwritten is read as the content. -/
theorem of_overwriteSource_ok (hsrc : s.source l.sourceId = some src)
    (h : (overwriteSource d l src c.compressed c.hash256 c.size c.bytes).run Prim.step s =
      (.ok (), s')) :
    s'.links = s.links ∧ s'.readSource l.sourceId = .ok c := by
  obtain ⟨s₁, hrun₁, hlinks₁, hsources₁, hfile₁⟩ :=
    exists_run_persistSourceBytes l.sourceId c.bytes d.tmpId s
  rw [overwriteSource, run_bind, run_perform] at h
  cases hfile : s.file l.sourceId.sourcePath with
  | none =>
    simp only [Prim.step, hfile] at h
    cases h
  | some bytes =>
    rw [Prim.step_readFile hfile] at h
    dsimp only at h
    rw [run_bind, hrun₁] at h
    have hs' : s₁.setSource (c.row l.sourceId src.count) = s' := congrArg Prod.snd h
    have hsome : (s₁.source (c.row l.sourceId src.count).id).isSome := by
      rw [Store.source, hsources₁]
      exact Option.isSome_iff_exists.mpr ⟨src, hsrc⟩
    rw [← hs']
    refine ⟨hlinks₁, readSource_eq_ok (?_ : _ = some (c.row l.sourceId src.count)) hfile₁⟩
    rw [source_setSource hsome]
    exact if_pos rfl

/-- A covering write to a name that has a link, if it succeeds: the name has the content, and the
    names of the links are what they were. -/
theorem of_putBinaryData_cover {E : Engine} (hE : E.Lossless) {fileName : String} {input : Bytes}
    {compressed : Bool} (hlinked : s.Linked fileName)
    (h : (putBinaryData E d fileName input true compressed).run Prim.step s = (.ok (), s')) :
    s'.get E fileName = .ok input ∧
      s'.links.rows.map Link.name = s.links.rows.map Link.name := by
  obtain ⟨l, hl⟩ := Option.isSome_iff_exists.mp (linked_iff.mp hlinked)
  have hname : fileName ≠ "" := by
    rintro rfl
    cases h
  obtain ⟨links, hnamed⟩ : ∃ links, s.linksNamed fileName = l :: links := by
    rw [linkNamed] at hl
    exact List.head?_eq_some_iff.mp hl
  rw [putBinaryData_eq E d hname] at h
  dsimp only at h
  rw [putBinaryDataLocked, run_bind, run_perform, Prim.step, hnamed] at h
  dsimp only at h
  rw [run_bind, run_perform, Prim.step] at h
  rw [Store.get, if_neg hname]
  cases hsrc : s.source l.sourceId with
  | none =>
    rw [show s.sources.find? l.sourceId = none from hsrc] at h
    cases h
  | some src =>
    rw [show s.sources.find? l.sourceId = some src from hsrc] at h
    dsimp only at h
    rw [if_pos rfl] at h
    by_cases hcount : src.count > 1
    · rw [if_pos hcount] at h
      obtain ⟨hlinks, hread⟩ := of_replaceSource_ok hsrc hcount h
      have hlink : s'.linkNamed fileName = some { l with sourceId := d.sourceId } := by
        rw [linkNamed, linksNamed, hlinks]
        refine (linkNamed_repoint l.id d.sourceId fileName).trans ?_
        rw [hl, Option.map_some, if_pos rfl]
      refine ⟨?_, ?_⟩
      · rw [read_of_linkNamed hlink, hread]
        exact E.verify_pack hE compressed input
      · rw [hlinks, repoint_links, Table.update, List.map_map]
        refine List.map_congr_left fun l' _ => ?_
        rw [Function.comp_apply]
        split <;> rfl
    · rw [if_neg hcount] at h
      obtain ⟨hlinks, hread⟩ := of_overwriteSource_ok hsrc h
      have hlink : s'.linkNamed fileName = some l := by
        rw [linkNamed, linksNamed, hlinks]
        exact hl
      rw [read_of_linkNamed hlink, hread, hlinks]
      exact ⟨E.verify_pack hE compressed input, rfl⟩

end LiNaStore.StoreManager
