import LiNaStore.Fuse.Buffers

/-!
# Renaming a file

Renaming is to move a file: what was read under the old name is read under the new one, with the
same mode, and every other file is as it was (`LinaFs.Moved`). The file system reads the old file
from the store, writes its content under the new name, and removes the old one; of buffers and modes
it knows nothing. The new name so keeps a buffer and a mode that it had before, or gets the mode
of a new file, and a file that is renamed to itself is removed. It is moved exactly if none of this
makes a difference (`rename_moves_iff`).
-/

namespace LiNaStore

open Program Store

/-! ## Modes of links -/

/-- The mode of a file after a write: that it had, or that of a new file. -/
theorem StoreManager.PutEffect.mode {s s' : Store} {d : Draws} {fileName ext : String} {cover : Bool}
    {c : Stored} (h : PutEffect s d fileName ext cover c s') (hfresh : d.Fresh s) (name : String) :
    (s'.linkNamed name).map Link.mode =
      if name = fileName then some ((s.linkNamed fileName).elim 420 Link.mode)
      else (s.linkNamed name).map Link.mode := by
  have hfound {l : Link} (hl : s.linkNamed fileName = some l) :
      (s.linkNamed name).map Link.mode =
        if name = fileName then some ((s.linkNamed fileName).elim 420 Link.mode)
        else (s.linkNamed name).map Link.mode := by
    split_ifs with hname
    · rw [hname, hl]
      rfl
    · rfl
  cases h with
  | replace hl _ _ =>
    have hrelease (t : Store) (src : Source) : (t.release src).linkNamed name = t.linkNamed name := by
      rw [release]
      split <;> rfl
    rw [hrelease, linkNamed_repoint, Option.map_map, ← hfound hl]
    refine Option.map_congr fun l _ => ?_
    rw [Function.comp_apply]
    split <;> rfl
  | overwrite hl _ _ _ => exact hfound hl
  | keep hl _ _ _ _ => exact hfound hl
  | share hl _ =>
    rw [linkNamed_setSource, linkNamed_insertLink hfresh.linkId hl, hl]
    split_ifs <;> rfl
  | create hl _ =>
    have hfree : (s.addSource d.sourceId c).links.find? d.linkId = none := hfresh.linkId
    rw [linkNamed_insertLink (l := ⟨d.linkId, fileName, ext, d.sourceId, 420⟩) hfree hl, hl]
    split_ifs <;> rfl

/-- The links after the deletion of a name. -/
theorem Store.Sound.linkNamed_delete {s : Store} {extra : SourceId → ℕ} (hs : s.Sound extra)
    {fileName : String} (hname : fileName ≠ "") (name : String) :
    (s.deleteAll (s.listed fileName 0 false false)).linkNamed name =
      if name = fileName then none else s.linkNamed name := by
  split_ifs with heq
  · refine Option.not_isSome_iff_eq_none.1 fun h => ?_
    exact ((hs.linked_delete_iff hname name).1 (linked_iff.2 h)).2 heq
  cases hl : s.linkNamed name with
  | none =>
    refine Option.not_isSome_iff_eq_none.1 fun h => ?_
    have hlinked := linked_iff.1 ((hs.linked_delete_iff hname name).1 (linked_iff.2 h)).1
    rw [hl] at hlinked
    cases hlinked
  | some l =>
    obtain ⟨hmem, rfl⟩ := mem_of_linkNamed hl
    refine (hs.deleteAll listed_subset nodup_listed).unique_names.linkNamed ?_
    refine (hs.mem_links_deleteAll listed_subset nodup_listed).2 ⟨hmem, fun hlisted => ?_⟩
    rw [s.listed_eq_filter] at hlisted
    exact heq (by simpa [nameMatches] using (List.mem_filter.1 hlisted).2)

/-! ## Files by name -/

namespace LinaFs

section Shown

variable {α : Type} (E : Engine) (M : Mount) (look : UInt32 → α)

/-- What there is under a name: the content that is read, and what `look` takes of the mode. -/
def shown (fs : LinaFs) (name : String) : Option (Except Errno Bytes × α) :=
  ((fs.store.linkNamed name).map Link.mode).map fun mode =>
    (fs.bytesAt E M .eio (M.fileIno name), look mode)

/-- A file has been moved. -/
structure Moved (fs : LinaFs) (old new : String) (fs' : LinaFs) : Prop where
  moved : fs'.shown E M look new = fs.shown E M look old
  gone : old ≠ new → fs'.shown E M look old = none
  same : old = new → fs' = fs
  others : ∀ name, name ≠ old → name ≠ new → fs'.shown E M look name = fs.shown E M look name
  dirs : fs'.store.dirs = fs.store.dirs

end Shown

variable {α : Type} {E : Engine} {M : Mount} (look : UInt32 → α) {fs fs' : LinaFs} {name : String}

theorem shown_eq_none (h : ¬fs.store.Linked name) : fs.shown E M look name = none := by
  rw [linked_iff, Option.not_isSome_iff_eq_none] at h
  rw [shown, h, Option.map_none, Option.map_none]

/-- A file that the store has a content for is shown with its buffer, or with that content. -/
theorem shown_eq_some (hino : M.Tells fs.store) {mode : UInt32}
    (hmode : (fs.store.linkNamed name).map Link.mode = some mode)
    {data : Bytes} (hget : fs.store.get E name = .ok data) :
    fs.shown E M look name = some (.ok ((fs.writeBuf (M.fileIno name)).getD data), look mode) := by
  have hlinked : fs.store.Linked name := by
    rw [linked_iff, ← Option.isSome_map (f := Link.mode), hmode]
    rfl
  rw [shown, hmode, Option.map_some, hino.bytesAt hlinked, hget]
  cases fs.writeBuf (M.fileIno name) <;> rfl

/-- A file is shown alike if its buffer, its mode and its content in the store are the same. -/
theorem shown_congr (hino : M.Tells fs.store) (hino' : M.Tells fs'.store)
    (hbuf : fs'.writeBuf = fs.writeBuf)
    (hmode : (fs'.store.linkNamed name).map Link.mode = (fs.store.linkNamed name).map Link.mode)
    (hget : fs'.store.get E name = fs.store.get E name) :
    fs'.shown E M look name = fs.shown E M look name := by
  have hlinked : fs'.store.Linked name ↔ fs.store.Linked name := by
    rw [linked_iff, linked_iff, ← Option.isSome_map, hmode, Option.isSome_map]
  by_cases h : fs.store.Linked name
  · rw [shown, shown, hmode, hino.bytesAt h, hino'.bytesAt (hlinked.2 h), hbuf, hget]
  · rw [shown_eq_none look h, shown_eq_none look (mt hlinked.1 h)]

end LinaFs

/-- What there is under a name after a file has been written under a new name and the old one
    removed. -/
theorem LinaFs.shown_renamed {E : Engine} (hE : E.Lossless) {D : Set Bytes}
    (hD : Set.InjOn E.hash256 D) {M : Mount} {fs : LinaFs} (hs : fs.store.Consistent E D) {d : Draws}
    (hfresh : d.Fresh fs.store) {old new : String}
    (hino : Set.InjOn M.fileIno {path | path = new ∨ fs.store.Linked path}) {data : Bytes}
    (hget : fs.store.get E old = .ok data) (hnew : new ≠ "") {s' : Store}
    (heff : StoreManager.PutEffect fs.store d new (pathExtension new) true
      (E.pack M.compressed data) s') {α : Type} (look : UInt32 → α) (path : String) :
    shown E M look { fs with store := s'.deleteAll (s'.listed old 0 false false) } path =
      if path = old then none
      else if path = new then
        some (.ok ((fs.writeBuf (M.fileIno new)).getD data),
          look ((fs.store.linkNamed new).elim 420 Link.mode))
      else fs.shown E M look path := by
  obtain ⟨extra, hsound⟩ := hs.sound
  obtain ⟨extra', -, hsound'⟩ := heff.sound hsound hfresh
  have hold : old ≠ "" := by
    rintro rfl
    cases hget
  have hlinked (path : String) : (s'.deleteAll (s'.listed old 0 false false)).Linked path ↔
      (path = new ∨ fs.store.Linked path) ∧ path ≠ old := by
    rw [hsound'.linked_delete_iff hold, heff.linked_iff hfresh]
  have htells : M.Tells fs.store := hino.mono fun path => .inr
  have htells' : M.Tells (s'.deleteAll (s'.listed old 0 false false)) :=
    hino.mono fun path hpath => ((hlinked path).1 hpath).1
  split_ifs with hpath hpath'
  · exact shown_eq_none look fun h => ((hlinked path).1 h).2 hpath
  all_goals
    -- the deletion leaves this file alone
    have hread : (s'.deleteAll (s'.listed old 0 false false)).get E path = s'.get E path := by
      refine get_congr ?_
      rw [hsound'.read_deleteAll_listed, if_neg (by simpa [nameMatches] using hpath)]
    have hlink := hsound'.linkNamed_delete hold path
    have hmode := heff.mode hfresh path
    rw [if_neg hpath] at hlink
  · rw [if_pos hpath', ← hlink] at hmode
    subst hpath'
    exact shown_eq_some look htells' hmode (hread.trans
      (heff.get_self hE hD hs.intact hsound hfresh (hs.intact.mem_of_get hget) hnew))
  · rw [if_neg hpath', ← hlink] at hmode
    exact shown_congr look htells htells' rfl hmode
      (hread.trans (get_congr (heff.read_of_ne hsound hfresh hpath')))

/-- A file is moved by a request to rename it exactly if the names are different, what was written
    to the two and not saved makes no difference, and the mode the new name has, or that of a new
    file, looks the same. -/
theorem rename_moves_iff {E : Engine} (hE : E.Lossless) {D : Set Bytes} (hD : Set.InjOn E.hash256 D)
    {M : Mount} {fs fs' : LinaFs} (hs : fs.store.Consistent E D) {parent newparent : UInt64}
    {name newname : OsName} {d : Draws} (hfresh : d.Fresh fs.store) {old new : String}
    (hpaths : LinaFs.renamed M fs parent name newparent newname = .ok (old, new))
    (hlinked : fs.store.Linked old)
    (hino : Set.InjOn M.fileIno {path | path = new ∨ fs.store.Linked path})
    (hrun : (FsRequest.rename parent name newparent newname d).run E M fs = (.ok .ok, fs'))
    {α : Type} (look : UInt32 → α) :
    ∃ l data, fs.store.linkNamed old = some l ∧ fs.store.get E old = .ok data ∧
      (fs.Moved E M look old new fs' ↔ old ≠ new ∧
        (fs.writeBuf (M.fileIno new)).getD data = (fs.writeBuf (M.fileIno old)).getD data ∧
        look ((fs.store.linkNamed new).elim 420 Link.mode) = look l.mode) := by
  obtain ⟨extra, hsound⟩ := hs.sound
  obtain ⟨l, hl⟩ := Option.isSome_iff_exists.1 (linked_iff.1 hlinked)
  have heffect := FsRequest.run_effect (E := E) (M := M) hsound
    (r := .rename parent name newparent newname d) trivial hfresh
  rw [hrun] at heffect
  cases heffect with
  | @rename _ _ _ _ _ old' new' data s' hpaths' hget hnew heff =>
    cases hpaths.symm.trans hpaths'
    refine ⟨l, data, hl, hget, ?_⟩
    have hbefore := LinaFs.shown_eq_some look (hino.mono fun path => .inr)
      (congrArg (Option.map Link.mode) hl) hget
    have hafter := LinaFs.shown_renamed hE hD hs hfresh hino hget hnew heff look
    constructor
    · rintro ⟨hmoved, -⟩
      rw [hbefore, hafter] at hmoved
      have hne : new ≠ old := by
        rintro rfl
        rw [if_pos rfl] at hmoved
        cases hmoved
      rw [if_neg hne, if_pos rfl] at hmoved
      simp only [Option.some.injEq, Prod.mk.injEq, Except.ok.injEq] at hmoved
      exact ⟨hne.symm, hmoved⟩
    · rintro ⟨hne, hbytes, hlook⟩
      refine ⟨?_, fun _ => ?_, fun heq => absurd heq hne, fun path hold hnew => ?_, ?_⟩
      · rw [hbefore, hafter, if_neg hne.symm, if_pos rfl, hbytes, hlook]
      · rw [hafter, if_pos rfl]
      · rw [hafter, if_neg hold, if_neg hnew]
      · exact (dirs_deleteAll _ _).trans heff.dirs

/-- A file without unsaved bytes, and with the mode of a new one, is moved. -/
theorem rename_moves_iff_saved :
    ∃ fs', (FsRequest.rename rootIno (.str "a") rootIno (.str "b") (.sample 1)).run .plain .sample
        ⟨.sample, fun _ => none⟩ = (.ok .ok, fs') ∧
      LinaFs.Moved .plain .sample id ⟨.sample, fun _ => none⟩ "a" "b" fs' := by
  have hino : Set.InjOn Mount.sample.fileIno {path | path = "b" ∨ Store.sample.Linked path} := by
    simp only [Store.linked_sample_iff]
    rintro _ (rfl | rfl) _ (rfl | rfl) h
    · rfl
    · exact absurd h (by decide)
    · exact absurd h (by decide)
    · rfl
  have hfresh : (Draws.sample 1).Fresh Store.sample := ⟨rfl, rfl⟩
  have hpaths : LinaFs.renamed .sample ⟨.sample, fun _ => none⟩ rootIno (.str "a") rootIno (.str "b") =
      .ok ("a", "b") := rfl
  obtain ⟨l, data, hl, -, hiff⟩ := rename_moves_iff Engine.lossless_plain injOn_hash256_plain
    (Store.reachable_sample.consistent Engine.lossless_plain) hfresh hpaths
    ((Store.linked_sample_iff "a").2 rfl) hino rfl id
  cases hl
  exact ⟨_, rfl, hiff.2 ⟨by decide, rfl, rfl⟩⟩

/-- A symbolic link. -/
def LinaFs.withSymlink : LinaFs :=
  ((FsRequest.symlink rootIno (.str "s") (.str "a") (.sample 1)).run .plain .sample
    ⟨.sample, fun _ => none⟩).2

/-- Renaming `a`, which has unsaved bytes, to `b` brings the old bytes back; renaming it to itself
    removes it; and a symbolic link becomes a file with a mode of its own. -/
theorem rename_loses :
    (∃ fs', (FsRequest.rename rootIno (.str "a") rootIno (.str "b") (.sample 1)).run .plain .sample
        .sample = (.ok .ok, fs') ∧
      ((FsRequest.read (Mount.sample.fileIno "a") 0 1).run .plain .sample .sample).1 =
        .ok (.data [2]) ∧
      ((FsRequest.read (Mount.sample.fileIno "b") 0 1).run .plain .sample fs').1 = .ok (.data [1]) ∧
      ¬LinaFs.Moved .plain .sample id .sample "a" "b" fs') ∧
    (∃ fs', (FsRequest.rename rootIno (.str "a") rootIno (.str "a") (.sample 1)).run .plain .sample
        .sample = (.ok .ok, fs') ∧ fs'.store.linkNamed "a" = none ∧
      ¬LinaFs.Moved .plain .sample id .sample "a" "a" fs') ∧
    ∃ fs', (FsRequest.rename rootIno (.str "s") rootIno (.str "t") (.sample 2)).run .plain .sample
        .withSymlink = (.ok .ok, fs') ∧
      (LinaFs.withSymlink.store.linkNamed "s").map (kindFromMode ∘ Link.mode) = some .symlink ∧
      (fs'.store.linkNamed "t").map (kindFromMode ∘ Link.mode) = some .regularFile ∧
      ¬LinaFs.Moved .plain .sample kindFromMode .withSymlink "s" "t" fs' := by
  refine ⟨⟨_, rfl, rfl, rfl, fun h => ?_⟩, ⟨_, rfl, rfl, fun h => ?_⟩, _, rfl, rfl, rfl, fun h => ?_⟩
  · exact absurd h.moved (by decide)
  · exact absurd h.moved (by decide)
  · exact absurd h.moved (by decide)

end LiNaStore
