import LiNaStore.Base.Run
import Mathlib.Data.Set.Function

/-!
# The store as a map

What a store is for is to be a map from names to contents (`Contents`): a write
sets the content of a name, a deletion removes the names matching a pattern, and
nothing else changes. The names of a store share sources, whose contents may be
stored compressed or not; that this never shows is the refinement proved here
(`Reachable.contents_run`): the contents of a state of a run, after one more
call, are what the call makes of the map.

Two things are asked of the engine: that it is lossless, and that no two of the
contents written have the same hash.

The way there says which sources and which names an update changes the reading of
(`PutEffect.read_of_ne`, `Sound.read_delete`); these hold for every sound store,
also after crashes.
-/

namespace LiNaStore

open Program Store StoreManager

/-! ## The map -/

/-- The contents of names. -/
abbrev Contents := String → Option Bytes

/-- Whether a pattern stands for a name. -/
def nameMatches (pattern : String) (useRegex : Bool) (name : String) : Bool :=
  if (pattern = "" ∨ pattern = "*") ∧ useRegex then true
  else if '*' ∈ pattern.toList ∧ useRegex then
    like (pattern.toList.map fun c => if c = '*' then '%' else c) name.toList
  else name = pattern

namespace Contents

/-- Write a content under a name. -/
def put (m : Contents) (name : String) (content : Bytes) : Contents :=
  Function.update m name (some content)

/-- Delete the names a pattern stands for. -/
def delete (m : Contents) (pattern : String) (useRegex : Bool) : Contents :=
  fun name => if nameMatches pattern useRegex name then none else m name

end Contents

/-- What a call makes of the map: nothing if an argument is empty. -/
def Call.apply (m : Contents) : Call → Contents
  | put _ fileName input _ _ => if fileName = "" then m else m.put fileName input
  | delete pattern useRegx => if pattern = "" then m else m.delete pattern useRegx
  | setFileMode .. => m

/-- The contents of a store. -/
def Store.contents (E : Engine) (s : Store) : Contents := fun name => (s.get E name).toOption

/-! ## Reading sources -/

namespace Store

variable {s : Store} {extra : SourceId → ℕ}

theorem readSource_addSource {id : SourceId} (h : s.source id = none) (c : Stored) (id' : SourceId) :
    (s.addSource id c).readSource id' = if id' = id then .ok c else s.readSource id' := by
  by_cases hid : id' = id
  · subst hid
    rw [if_pos rfl, readSource, source_addSource h, if_pos rfl, file_addSource, if_pos rfl]
    rfl
  · rw [if_neg hid]
    refine readSource_congr ?_ ?_
    · rw [file_addSource, if_neg (by simpa using hid)]
    · rw [source_addSource h, if_neg hid]

/-- The count of a source does not matter for reading. -/
theorem readSource_setSource_withCount {src : Source} (h : s.source src.id = some src) (n : ℕ)
    (id : SourceId) : (s.setSource (src.withCount n)).readSource id = s.readSource id := by
  refine readSource_congr rfl ?_
  rw [source_setSource (by rw [Source.id_withCount, h]; rfl), Source.id_withCount]
  split
  · next hid => rw [hid, h]; rfl
  · rfl

/-- Releasing a source: with the last link it is gone, and nothing else changes. -/
theorem readSource_release {src : Source} (h : s.source src.id = some src) (id : SourceId) :
    (s.release src).readSource id =
      if id = src.id ∧ ¬1 < src.count then .error .fileNotFound else s.readSource id := by
  rw [release]
  by_cases hcount : 1 < src.count
  · rw [if_pos hcount, if_neg fun h => h.2 hcount]
    exact readSource_setSource_withCount h _ id
  · rw [if_neg hcount]
    by_cases hid : id = src.id
    · rw [if_pos ⟨hid, hcount⟩, readSource, source_eraseSource, if_pos hid]
    · rw [if_neg fun h => hid h.1]
      refine readSource_congr ?_ ?_
      · rw [file_eraseSource, file_eraseFile, if_neg (by simpa using hid)]
      · rw [source_eraseSource, if_neg hid, source_eraseFile]

/-- A link made to point to a new source, the one it pointed to being released. -/
theorem readSource_replace {l : Link} {src : Source} {new : SourceId} (hfresh : s.source new = none)
    (hsrc : s.source l.sourceId = some src) (c : Stored) (id : SourceId) :
    (((s.addSource new c).repoint l.id new).release src).readSource id =
      if id = l.sourceId ∧ ¬1 < src.count then .error .fileNotFound
      else if id = new then .ok c else s.readSource id := by
  have hid := id_of_source hsrc
  have hne : l.sourceId ≠ new := fun h => by rw [h, hfresh] at hsrc; cases hsrc
  have hsrc' : ((s.addSource new c).repoint l.id new).source src.id = some src := by
    rw [source_repoint, source_addSource hfresh, hid, if_neg hne, hsrc]
  rw [readSource_release hsrc', hid]
  exact congrArg (ite _ _) (readSource_addSource hfresh c id)

theorem readSource_overwrite {id : SourceId} {src : Source} (h : s.source id = some src) (c : Stored)
    (n : ℕ) (id' : SourceId) :
    ((s.setFile id.sourcePath c.bytes).setSource (c.row id n)).readSource id' =
      if id' = id then .ok c else s.readSource id' := by
  have hsource : ∀ id', ((s.setFile id.sourcePath c.bytes).setSource (c.row id n)).source id' =
      if id' = id then some (c.row id n) else s.source id' :=
    source_setSource (by rw [source_setFile]; exact Option.isSome_iff_exists.2 ⟨src, h⟩)
  by_cases hid : id' = id
  · subst hid
    rw [if_pos rfl, readSource, hsource, if_pos rfl, file_setSource, file_setFile, if_pos rfl]
    rfl
  · rw [if_neg hid]
    refine readSource_congr ?_ ?_
    · rw [file_setSource, file_setFile, if_neg (by simpa using hid)]
    · rw [hsource, if_neg hid]

/-! ## Reading names -/

/-- A source that counts one link has one. -/
theorem Counted.eq_of_sourceId (hs : s.Counted extra) {src : Source} {l l' : Link}
    (hl : l ∈ s.links.rows) (hl' : l' ∈ s.links.rows) (hsrc : s.source l.sourceId = some src)
    (hone : ¬1 < src.count) (hid : l'.sourceId = l.sourceId) : l' = l := by
  have hcount := hs.count_eq hsrc
  have hrefs := s.refs_eraseLink l.sourceId hl
  rw [if_pos rfl] at hrefs
  have hzero : (s.eraseLink l.id).refs l.sourceId = 0 := by omega
  by_contra hne
  have hmem : l' ∈ (s.eraseLink l.id).links.rows :=
    Table.mem_erase.2 ⟨hl', fun h => hne (s.links.eq_of_key_eq hl' hl h)⟩
  exact List.countP_eq_zero.1 hzero l' hmem (decide_eq_true hid)

/-- Another name of a sound store links to another source, if this one counts one
    link. -/
theorem Counted.sourceId_ne (hs : s.Counted extra) {src : Source} {l l' : Link} {name : String}
    (hl : l ∈ s.links.rows) (hsrc : s.source l.sourceId = some src)
    (hl' : s.linkNamed name = some l') (hname : name ≠ l.name) :
    ¬(l'.sourceId = l.sourceId ∧ ¬1 < src.count) := by
  rintro ⟨hid, hcount⟩
  obtain ⟨hmem, rfl⟩ := mem_of_linkNamed hl'
  exact hname (congrArg Link.name (hs.eq_of_sourceId hl hmem hsrc hcount hid))

/-- After deleting a link its name is not found, and the others are read as before. -/
theorem Sound.read_delete (hs : s.Sound extra) {l : Link} (hl : l ∈ s.links.rows) (name : String) :
    (s.delete l).read name = if name = l.name then .error .fileNotFound else s.read name := by
  obtain ⟨src, hsrc⟩ := hs.exists_source hl
  have hid := id_of_source hsrc
  have hlink : (s.delete l).linkNamed name = if name = l.name then none else s.linkNamed name := by
    rw [← linkNamed_eraseLink hs.unique_names hl, delete_eq hsrc, linkNamed, linksNamed, links_release]
    rfl
  by_cases hname : name = l.name
  · rw [if_pos hname] at hlink ⊢
    exact read_of_linkNamed_eq_none hlink
  · rw [if_neg hname] at hlink ⊢
    refine read_congr (by rw [hlink]) fun l' hl' => ?_
    have hother := hs.sourceId_ne hl hsrc hl' hname
    rw [delete_eq hsrc, readSource_release (by rw [hid]; exact hsrc), hid, if_neg hother]
    rfl

/-- After deleting links their names are not found, and the others are read as
    before. -/
theorem Sound.read_deleteAll (hs : s.Sound extra) {links : List Link}
    (hl : ∀ l ∈ links, l ∈ s.links.rows) (hnodup : links.Nodup) (name : String) :
    (s.deleteAll links).read name =
      if name ∈ links.map Link.name then .error .fileNotFound else s.read name := by
  induction links generalizing s with
  | nil => rfl
  | cons l links ih =>
    have hmem := hl l List.mem_cons_self
    change ((s.delete l).deleteAll links).read name = _
    rw [ih (hs.delete hmem) (mem_links_delete_of_cons hs hl hnodup) (List.nodup_cons.1 hnodup).2,
      hs.read_delete hmem, List.map_cons]
    by_cases h₁ : name ∈ links.map Link.name
    · rw [if_pos h₁, if_pos (List.mem_cons_of_mem _ h₁)]
    · by_cases h₂ : name = l.name
      · rw [if_neg h₁, if_pos h₂, if_pos (List.mem_cons.2 (.inl h₂))]
      · rw [if_neg h₁, if_neg h₂, if_neg fun h => (List.mem_cons.1 h).elim h₂ h₁]

end Store

/-! ## Writing -/

namespace StoreManager

open Store

variable {s s' : Store} {extra : SourceId → ℕ} {d : Draws} {fileName ext : String} {cover : Bool}
  {c : Stored}

/-- The names of a store do not link to the source a write adds. -/
theorem sourceId_ne_of_fresh (hs : s.Counted extra) (hfresh : d.Fresh s) {name : String} {l : Link}
    (hl : s.linkNamed name = some l) : l.sourceId ≠ d.sourceId := by
  intro heq
  obtain ⟨src, hsrc⟩ := hs.exists_source (mem_of_linkNamed hl).1
  rw [heq, hfresh.sourceId] at hsrc
  cases hsrc

/-! What a name is read as once a write has brought its content into place. -/

theorem read_replace (hfresh : d.Fresh s) {l : Link} {src : Source}
    (hl : s.linkNamed fileName = some l) (hsrc : s.source l.sourceId = some src) :
    (((s.addSource d.sourceId c).repoint l.id d.sourceId).release src).read fileName = .ok c := by
  have hne : d.sourceId ≠ l.sourceId := fun h => by
    rw [← h, hfresh.sourceId] at hsrc
    cases hsrc
  have hlink : (((s.addSource d.sourceId c).repoint l.id d.sourceId).release src).linkNamed
      fileName = some { l with sourceId := d.sourceId } := by
    have : (s.repoint l.id d.sourceId).linkNamed fileName =
        some { l with sourceId := d.sourceId } := by
      rw [linkNamed_repoint, hl, Option.map_some, if_pos rfl]
    rw [linkNamed, linksNamed, links_release]
    exact this
  rw [read_of_linkNamed hlink, readSource_replace hfresh.sourceId hsrc, if_neg fun h => hne h.1,
    if_pos rfl]

theorem read_overwrite {l : Link} {src : Source} (hl : s.linkNamed fileName = some l)
    (hsrc : s.source l.sourceId = some src) :
    ((s.setFile l.sourceId.sourcePath c.bytes).setSource (c.row l.sourceId src.count)).read
      fileName = .ok c := by
  have hlink : ((s.setFile l.sourceId.sourcePath c.bytes).setSource
      (c.row l.sourceId src.count)).linkNamed fileName = some l := hl
  rw [read_of_linkNamed hlink, readSource_overwrite hsrc, if_pos rfl]

theorem read_share (hfresh : d.Fresh s) {src : Source} (hl : s.linkNamed fileName = none)
    (hsrc : s.source src.id = some src) :
    ((s.insertLink ⟨d.linkId, fileName, ext, src.id, 420⟩).setSource
      (src.withCount (src.count + 1))).read fileName = s.readSource src.id := by
  have hlink := linkNamed_insertLink (l := ⟨d.linkId, fileName, ext, src.id, 420⟩) hfresh.linkId hl
    fileName
  rw [if_pos rfl, ← linkNamed_setSource (src.withCount (src.count + 1))] at hlink
  rw [read_of_linkNamed hlink]
  exact readSource_setSource_withCount (s := s.insertLink _) hsrc _ _

theorem read_create (hfresh : d.Fresh s) (hl : s.linkNamed fileName = none) :
    ((s.addSource d.sourceId c).insertLink ⟨d.linkId, fileName, ext, d.sourceId, 420⟩).read
      fileName = .ok c := by
  have hlink := linkNamed_insertLink (s := s.addSource d.sourceId c)
    (l := ⟨d.linkId, fileName, ext, d.sourceId, 420⟩) hfresh.linkId hl fileName
  rw [if_pos rfl] at hlink
  rw [read_of_linkNamed hlink]
  change (s.addSource d.sourceId c).readSource d.sourceId = _
  rw [readSource_addSource hfresh.sourceId, if_pos rfl]

namespace PutEffect

/-- After a write, what a source is read as is the content or what it was read as. -/
theorem readSource (h : PutEffect s d fileName ext cover c s') (hfresh : d.Fresh s) {id : SourceId}
    {st : Stored} (hst : s'.readSource id = .ok st) : st = c ∨ s.readSource id = .ok st := by
  have hok : ∀ {st : Stored}, (.ok c : Except StoreError Stored) = .ok st → st = c := by
    rintro st ⟨rfl⟩
    rfl
  cases h with
  | replace hl hsrc _ =>
    rw [readSource_replace hfresh.sourceId hsrc] at hst
    split_ifs at hst
    · exact .inl (hok hst)
    · exact .inr hst
  | overwrite hl hsrc _ _ =>
    rw [readSource_overwrite hsrc] at hst
    split_ifs at hst
    · exact .inl (hok hst)
    · exact .inr hst
  | keep => exact .inr hst
  | share hl hsrc =>
    rw [readSource_setSource_withCount (s := s.insertLink _) (source_of_find? hsrc).1] at hst
    exact .inr hst
  | create hl _ =>
    change (s.addSource d.sourceId c).readSource id = .ok st at hst
    rw [readSource_addSource hfresh.sourceId] at hst
    split_ifs at hst
    · exact .inl (hok hst)
    · exact .inr hst

/-- A write changes the reading of no other name. -/
theorem read_of_ne (h : PutEffect s d fileName ext cover c s') (hs : s.Sound extra)
    (hfresh : d.Fresh s) {name : String} (hname : name ≠ fileName) : s'.read name = s.read name := by
  have hnew : ∀ l, s.linkNamed name = some l → l.sourceId ≠ d.sourceId := fun _ =>
    sourceId_ne_of_fresh hs.toCounted hfresh
  cases h with
  | @replace l src hl hsrc _ =>
    obtain ⟨hmem, rfl⟩ := mem_of_linkNamed hl
    refine read_congr ?_ fun l' hl' => ?_
    · have hlink : (((s.addSource d.sourceId c).repoint l.id d.sourceId).release src).linkNamed name =
          (s.repoint l.id d.sourceId).linkNamed name := by
        rw [linkNamed, linksNamed, links_release]
        rfl
      rw [hlink, linkNamed_repoint, Option.map_map]
      refine Option.map_congr fun l' hl' => ?_
      obtain ⟨hmem', rfl⟩ := mem_of_linkNamed hl'
      have hid : l'.id ≠ l.id := fun h => hname (by rw [s.links.eq_of_key_eq hmem' hmem h])
      rw [Function.comp_apply, if_neg hid]
    · rw [readSource_replace hfresh.sourceId hsrc, if_neg (hs.sourceId_ne hmem hsrc hl' hname),
        if_neg (hnew l' hl')]
  | @overwrite l src hl hsrc _ hone =>
    obtain ⟨hmem, rfl⟩ := mem_of_linkNamed hl
    refine read_congr rfl fun l' hl' => ?_
    have hne : l'.sourceId ≠ l.sourceId := fun h =>
      hs.sourceId_ne hmem hsrc hl' hname ⟨h, by omega⟩
    rw [readSource_overwrite hsrc, if_neg hne]
  | keep => rfl
  | share hl hsrc =>
    refine read_congr ?_ fun l' _ => ?_
    · rw [linkNamed_setSource, linkNamed_insertLink hfresh.linkId hl, if_neg hname]
    · exact readSource_setSource_withCount (s := s.insertLink _) (source_of_find? hsrc).1 _ _
  | create hl _ =>
    refine read_congr ?_ fun l' hl' => ?_
    · rw [linkNamed_insertLink (s := s.addSource d.sourceId c)
        (l := ⟨d.linkId, fileName, ext, d.sourceId, 420⟩) hfresh.linkId hl, if_neg hname]
      rfl
    · change (s.addSource d.sourceId c).readSource l'.sourceId = _
      rw [readSource_addSource hfresh.sourceId, if_neg (hnew l' hl')]

/-- A write makes its name read as the content, or as a source with the same hash. -/
theorem read_self (h : PutEffect s d fileName ext cover c s') (hfresh : d.Fresh s) :
    s'.read fileName = .ok c ∨ ∃ src, s.source src.id = some src ∧ src.hash256 = c.hash256 ∧
      s'.read fileName = s.readSource src.id := by
  cases h with
  | replace hl hsrc _ => exact .inl (read_replace hfresh hl hsrc)
  | overwrite hl hsrc _ _ => exact .inl (read_overwrite hl hsrc)
  | @keep l src hl hsrc _ hhash _ =>
    have hid := id_of_source hsrc
    exact .inr ⟨src, by rw [hid]; exact hsrc, hhash.symm, by rw [read_of_linkNamed hl, hid]⟩
  | @share src hl hsrc =>
    obtain ⟨hsrc, hhash⟩ := source_of_find? hsrc
    exact .inr ⟨src, hsrc, hhash, read_share hfresh hl hsrc⟩
  | create hl _ => exact .inl (read_create hfresh hl)

end PutEffect

end StoreManager

/-! ## Contents -/

/-- A read gives a content that the bytes are a form of and that has the hash. -/
theorem Engine.verify_eq_ok_iff {E : Engine} {st : Stored} {content : Bytes} :
    E.verify st = .ok content ↔
      E.decodeContent st.compressed st.size st.bytes = .ok content ∧ E.hash256 content = st.hash256 := by
  rw [Engine.verify]
  cases E.decodeContent st.compressed st.size st.bytes with
  | error err => exact iff_of_false (fun h => by cases h) fun h => by cases h.1
  | ok content' =>
    change (if E.hash256 content' ≠ st.hash256 then _ else _) = _ ↔ _
    constructor
    · intro h
      split_ifs at h with hhash
      cases h
      exact ⟨rfl, not_not.1 hhash⟩
    · rintro ⟨⟨rfl⟩, hhash⟩
      exact if_neg (not_not_intro hhash)

/-- All that sources are read as is `P`. -/
def Store.AllRead (P : Stored → Prop) (s : Store) : Prop := ∀ id st, s.readSource id = .ok st → P st

namespace Store.AllRead

variable {P : Stored → Prop} {s s' : Store} {extra : SourceId → ℕ}

theorem put (hs : s.AllRead P) {d : Draws} {fileName ext : String} {cover : Bool} {c : Stored}
    (hc : P c) (hfresh : d.Fresh s) (h : PutEffect s d fileName ext cover c s') : s'.AllRead P := by
  intro id st hst
  rcases h.readSource hfresh hst with rfl | hst
  · exact hc
  · exact hs id st hst

theorem delete (hs : s.AllRead P) (hsound : s.Sound extra) {l : Link} (hl : l ∈ s.links.rows) :
    (s.delete l).AllRead P := by
  intro id st hst
  obtain ⟨src, hsrc⟩ := hsound.exists_source hl
  rw [delete_eq hsrc, readSource_release (by rw [id_of_source hsrc]; exact hsrc)] at hst
  split_ifs at hst
  exact hs id st hst

theorem deleteAll (hs : s.AllRead P) (hsound : s.Sound extra) {links : List Link}
    (hl : ∀ l ∈ links, l ∈ s.links.rows) (hnodup : links.Nodup) :
    (s.deleteAll links).AllRead P := by
  induction links generalizing s with
  | nil => exact hs
  | cons l links ih =>
    have hmem := hl l List.mem_cons_self
    exact ih (hs.delete hsound hmem) (hsound.delete hmem) (mem_links_delete_of_cons hsound hl hnodup)
      (List.nodup_cons.1 hnodup).2

end Store.AllRead

/-- Every source is read as a content of `D`. -/
def Store.Intact (E : Engine) (D : Set Bytes) (s : Store) : Prop :=
  ∀ id st, s.readSource id = .ok st → ∃ content ∈ D, E.verify st = .ok content

namespace Store.Intact

variable {E : Engine} {D : Set Bytes} {s s' : Store} {extra : SourceId → ℕ}

theorem put (hs : s.Intact E D) (hE : E.Lossless) {d : Draws} {fileName ext : String}
    {cover compressed : Bool} {input : Bytes} (hinput : input ∈ D) (hfresh : d.Fresh s)
    (h : PutEffect s d fileName ext cover (E.pack compressed input) s') : s'.Intact E D :=
  AllRead.put hs ⟨input, hinput, E.verify_pack hE compressed input⟩ hfresh h

theorem deleteAll (hs : s.Intact E D) (hsound : s.Sound extra) {links : List Link}
    (hl : ∀ l ∈ links, l ∈ s.links.rows) (hnodup : links.Nodup) :
    (s.deleteAll links).Intact E D :=
  AllRead.deleteAll hs hsound hl hnodup

/-- What a name is read as is a content of `D`. -/
theorem mem_of_get (hs : s.Intact E D) {name : String} {content : Bytes}
    (h : s.get E name = .ok content) : content ∈ D := by
  rw [Store.get] at h
  split_ifs at h with hname
  cases hread : s.read name with
  | error err =>
    rw [hread] at h
    cases h
  | ok st =>
    rw [hread] at h
    rw [Store.read] at hread
    split at hread
    · cases hread
    · obtain ⟨content', hcontent, hverify⟩ := hs _ _ hread
      rw [Except.ok.inj (hverify.symm.trans h)] at hcontent
      exact hcontent

/-- A source with the hash of a content of `D` is read as that content. -/
theorem verify_of_hash (hs : s.Intact E D) (hsound : s.Sound extra) (hD : Set.InjOn E.hash256 D)
    {input : Bytes} (hinput : input ∈ D) {src : Source} (hsrc : s.source src.id = some src)
    (hhash : src.hash256 = E.hash256 input) : s.readSource src.id >>= E.verify = .ok input := by
  obtain ⟨bytes, hbytes⟩ := hsound.exists_file hsrc
  have hread := readSource_eq_ok hsrc hbytes
  obtain ⟨content, hcontent, hverify⟩ := hs _ _ hread
  have heq : content = input := hD hcontent hinput
    ((Engine.verify_eq_ok_iff.1 hverify).2.trans hhash)
  rw [hread]
  exact heq ▸ hverify

end Store.Intact

/-- The rows are counted, the files are the payloads, and every source is read as a
    content of `D`. -/
structure Store.Consistent (E : Engine) (D : Set Bytes) (s : Store) : Prop where
  sound : ∃ extra, s.Sound extra
  intact : s.Intact E D

/-- A name with a link has a content, with the hash of its source. -/
theorem Store.Consistent.exists_get_of_link {E : Engine} {D : Set Bytes} {s : Store}
    (hs : s.Consistent E D) {name : String} (hname : name ≠ "") {l : Link} {src : Source}
    (hl : s.linkNamed name = some l) (hsrc : s.source l.sourceId = some src) :
    ∃ content ∈ D, s.get E name = .ok content ∧ E.hash256 content = src.hash256 := by
  obtain ⟨extra, hsound⟩ := hs.sound
  obtain ⟨bytes, hbytes⟩ := hsound.exists_file hsrc
  have hread := readSource_eq_ok hsrc hbytes
  obtain ⟨content, hcontent, hverify⟩ := hs.intact _ _ hread
  refine ⟨content, hcontent, ?_, (Engine.verify_eq_ok_iff.1 hverify).2⟩
  rw [Store.get, if_neg hname, read_of_linkNamed hl, hread]
  exact hverify

/-- Every name that has a link can be read. -/
theorem Store.Consistent.exists_get {E : Engine} {D : Set Bytes} {s : Store} (hs : s.Consistent E D)
    {name : String} (hlinked : s.Linked name) (hname : name ≠ "") :
    ∃ content, s.get E name = .ok content := by
  obtain ⟨extra, hsound⟩ := hs.sound
  obtain ⟨l, hl⟩ := Option.isSome_iff_exists.mp (Store.linked_iff.mp hlinked)
  obtain ⟨src, hsrc⟩ := hsound.exists_source (mem_of_linkNamed hl).1
  obtain ⟨content, -, hget, -⟩ := hs.exists_get_of_link hname hl hsrc
  exact ⟨content, hget⟩

/-- After a write its name has the content. -/
theorem StoreManager.PutEffect.get_self {E : Engine} {D : Set Bytes} {s s' : Store}
    {extra : SourceId → ℕ} {d : Draws} {fileName ext : String} {cover compressed : Bool}
    {input : Bytes} (h : PutEffect s d fileName ext cover (E.pack compressed input) s')
    (hE : E.Lossless) (hD : Set.InjOn E.hash256 D) (hs : s.Intact E D) (hsound : s.Sound extra)
    (hfresh : d.Fresh s) (hinput : input ∈ D) (hname : fileName ≠ "") :
    s'.get E fileName = .ok input := by
  rw [Store.get, if_neg hname]
  rcases h.read_self hfresh with hread | ⟨src, hsrc, hhash, hread⟩
  · rw [hread]
    exact E.verify_pack hE compressed input
  · rw [hread]
    exact hs.verify_of_hash hsound hD hinput hsrc hhash

theorem Store.get_congr {E : Engine} {s s' : Store} {name : String} (h : s'.read name = s.read name) :
    s'.get E name = s.get E name := by
  rw [Store.get, Store.get, h]

/-- The mode of a file does not matter for reading. -/
theorem Store.get_setMode (E : Engine) (s : Store) (name : String) (mode : UInt32) (name' : String) :
    (s.setMode name mode).get E name' = s.get E name' := by
  refine get_congr (read_congr ?_ fun _ _ => rfl)
  rw [linkNamed_setMode, Option.map_map]
  refine Option.map_congr fun l _ => ?_
  rw [Function.comp_apply]
  split <;> rfl

/-- The links a deletion is about are those whose names match. -/
theorem Store.listed_eq_filter (s : Store) (pattern : String) (useRegex : Bool) :
    s.listed pattern 0 false useRegex =
      s.links.rows.filter fun l => nameMatches pattern useRegex l.name := by
  rw [Store.listed, if_neg Bool.false_ne_true]
  simp only [nameMatches]
  split_ifs
  · exact (List.filter_eq_self.2 fun _ _ => rfl).symm
  · rfl
  · rfl

/-- After a deletion, the names matching the pattern are not found, and the others
    are read as before. -/
theorem Store.Sound.read_deleteAll_listed {s : Store} {extra : SourceId → ℕ} (hs : s.Sound extra)
    (pattern : String) (useRegex : Bool) (name : String) :
    (s.deleteAll (s.listed pattern 0 false useRegex)).read name =
      if nameMatches pattern useRegex name then .error .fileNotFound else s.read name := by
  rw [hs.read_deleteAll listed_subset nodup_listed, s.listed_eq_filter]
  by_cases hmatch : nameMatches pattern useRegex name = true
  · rw [if_pos hmatch]
    by_cases hmem : name ∈ (s.links.rows.filter fun l => nameMatches pattern useRegex l.name).map
        Link.name
    · rw [if_pos hmem]
    · -- the name matches, but there is no link with it
      rw [if_neg hmem]
      refine read_of_linkNamed_eq_none (linkNamed_eq_none_iff.2 fun l hl hname => hmem ?_)
      exact List.mem_map.2 ⟨l, List.mem_filter.2 ⟨hl, by rwa [hname]⟩, hname⟩
  · rw [if_neg hmatch, if_neg]
    intro hmem
    obtain ⟨l, hl, rfl⟩ := List.mem_map.1 hmem
    exact hmatch (List.mem_filter.1 hl).2

/-- The names that have a link after a call. -/
theorem Call.Effect.linked_iff {E : Engine} {s s' : Store} {extra : SourceId → ℕ} {c : Call}
    (h : c.Effect E s s') (hs : s.Sound extra) (name : String) :
    s'.Linked name ↔ match c with
      | .put _ fileName .. => (fileName ≠ "" ∧ name = fileName) ∨ s.Linked name
      | .delete pattern useRegx =>
        s.Linked name ∧ ¬(pattern ≠ "" ∧ nameMatches pattern useRegx name)
      | .setFileMode .. => s.Linked name := by
  cases h with
  | @refused c hrefusal =>
    cases c with
    | put d fileName input cover compressed =>
      have hempty : fileName = "" := by
        rw [Call.refusal] at hrefusal
        split_ifs at hrefusal with hempty
        · exact hempty
        · cases hrefusal
      simp [hempty]
    | delete pattern useRegx =>
      have hempty : pattern = "" := by
        rw [Call.refusal] at hrefusal
        split_ifs at hrefusal with hempty
        · exact hempty
        · cases hrefusal
      simp [hempty]
    | setFileMode name mode => cases hrefusal
  | put hname hfresh heff =>
    dsimp only
    rw [heff.linked_iff hfresh, and_iff_right hname]
  | @delete pattern useRegx hpattern =>
    have hmem (l : Link) : l ∈ (s.deleteAll (s.listed pattern 0 false useRegx)).links.rows ↔
        l ∈ s.links.rows ∧ ¬ nameMatches pattern useRegx l.name := by
      rw [hs.mem_links_deleteAll listed_subset nodup_listed, s.listed_eq_filter, List.mem_filter,
        not_and]
      exact ⟨fun h => ⟨h.1, h.2 h.1⟩, fun h => ⟨h.1, fun _ => h.2⟩⟩
    constructor
    · rintro ⟨l, hl, rfl⟩
      exact ⟨⟨l, ((hmem l).mp hl).1, rfl⟩, fun h => ((hmem l).mp hl).2 h.2⟩
    · rintro ⟨⟨l, hl, rfl⟩, hmatch⟩
      exact ⟨l, (hmem l).mpr ⟨hl, fun h => hmatch ⟨hpattern, h⟩⟩, rfl⟩
  | @setFileMode name' mode => exact linked_setMode name' mode name

/-- After the deletion of a name it has no link, and the others have theirs. -/
theorem Store.Sound.linked_delete_iff {s : Store} {extra : SourceId → ℕ} (hs : s.Sound extra)
    {fileName : String} (hname : fileName ≠ "") (name : String) :
    (s.deleteAll (s.listed fileName 0 false false)).Linked name ↔ s.Linked name ∧ name ≠ fileName := by
  have heff : (Call.delete fileName false).Effect .plain s _ := .delete hname
  rw [heff.linked_iff hs]
  simp [hname, nameMatches]

namespace Store.Consistent

variable {E : Engine} {D : Set Bytes} {s : Store}

/-- A call leaves a store consistent. -/
theorem run (hE : E.Lossless) (h : s.Consistent E D) (c : Call) (hfresh : c.Fresh s)
    (hwithin : c.Within D) : ((c.program E).run Prim.step s).2.Consistent E D := by
  obtain ⟨extra, hs⟩ := h.sound
  generalize ((c.program E).run Prim.step s).2 = s', (c.run_effect E hs hfresh).2.2 = heff
  obtain ⟨extra', -, hs'⟩ := heff.sound hs
  refine ⟨⟨extra', hs'⟩, ?_⟩
  cases heff with
  | refused _ => exact h.intact
  | put _ hfresh heff => exact h.intact.put hE hwithin hfresh heff
  | delete _ => exact h.intact.deleteAll hs listed_subset nodup_listed
  | setFileMode => exact h.intact

/-- A call makes of the contents of a consistent store what it makes of the map. -/
theorem contents_run (hE : E.Lossless) (hD : Set.InjOn E.hash256 D) (h : s.Consistent E D) (c : Call)
    (hfresh : c.Fresh s) (hwithin : c.Within D) :
    ((c.program E).run Prim.step s).2.contents E = c.apply (s.contents E) := by
  obtain ⟨extra, hs⟩ := h.sound
  generalize ((c.program E).run Prim.step s).2 = s', (c.run_effect E hs hfresh).2.2 = heff
  cases heff with
  | refused hc =>
    cases c with
    | put d fileName input cover compressed =>
      rw [Call.refusal] at hc
      rw [Call.apply, if_pos]
      by_contra hname
      rw [if_neg hname] at hc
      cases hc
    | delete pattern useRegx =>
      rw [Call.refusal] at hc
      rw [Call.apply, if_pos]
      by_contra hpattern
      rw [if_neg hpattern] at hc
      cases hc
    | setFileMode name mode => cases hc
  | @put d fileName input cover compressed s' hname hfresh heff =>
    rw [Call.apply, if_neg hname]
    funext name
    rw [Contents.put, Function.update_apply, contents, contents]
    split
    · next heq =>
      rw [heq, heff.get_self hE hD h.intact hs hfresh hwithin hname]
      rfl
    · next hne => rw [get_congr (heff.read_of_ne hs hfresh hne)]
  | @delete pattern useRegx hpattern =>
    rw [Call.apply, if_neg hpattern]
    funext name
    rw [Contents.delete, contents, contents, Store.get, Store.get, hs.read_deleteAll_listed]
    split_ifs <;> rfl
  | @setFileMode name mode =>
    funext name'
    rw [Call.apply, contents, contents, get_setMode]

end Store.Consistent

namespace Reachable

variable {E : Engine} {D : Set Bytes} {s : Store}

/-- What holds of contents of `D` in any form holds of all that sources are read as. -/
theorem allRead {P : Stored → Prop} (hP : ∀ compressed, ∀ input ∈ D, P (E.pack compressed input))
    (h : Reachable E D s) : s.AllRead P := by
  induction h with
  | empty => exact fun _ _ h => by cases h
  | @call s c hreach hfresh hwithin ih =>
    have hs := hreach.sound
    generalize ((c.program E).run Prim.step s).2 = s', (c.run_effect E hs hfresh).2.2 = heff
    cases heff with
    | refused _ => exact ih
    | put _ hfresh heff => exact ih.put (hP _ _ hwithin) hfresh heff
    | delete _ => exact ih.deleteAll hs listed_subset nodup_listed
    | setFileMode => exact ih

theorem intact (hE : E.Lossless) (h : Reachable E D s) : s.Intact E D :=
  h.allRead fun compressed input hinput => ⟨input, hinput, E.verify_pack hE compressed input⟩

theorem consistent (hE : E.Lossless) (h : Reachable E D s) : s.Consistent E D :=
  ⟨⟨0, h.sound⟩, h.intact hE⟩

/-- A call makes of the contents of a state of a run what it makes of the map. -/
theorem contents_run (hE : E.Lossless) (hD : Set.InjOn E.hash256 D) (h : Reachable E D s) (c : Call)
    (hfresh : c.Fresh s) (hwithin : c.Within D) :
    ((c.program E).run Prim.step s).2.contents E = c.apply (s.contents E) :=
  (h.consistent hE).contents_run hE hD c hfresh hwithin

end Reachable

/-- In every state of a run, after a write that succeeds its name has the content
    and the other names read as before; after the deletion of a name, if it
    succeeds, the name is not found and the other names read as before. -/
theorem store_refines_map {E : Engine} {D : Set Bytes} {s s' : Store} (hE : E.Lossless)
    (hD : Set.InjOn E.hash256 D) (h : Reachable E D s) :
    (∀ (d : Draws) (fileName : String) (input : Bytes) (cover compressed : Bool), d.Fresh s →
      input ∈ D → fileName ≠ "" →
      (putBinaryData E d fileName input cover compressed).run Prim.step s = (.ok (), s') →
      ((getBinaryData E fileName).run Prim.step s').1 = .ok input ∧
      ∀ name ≠ fileName, ((getBinaryData E name).run Prim.step s').1 =
        ((getBinaryData E name).run Prim.step s).1) ∧
    ∀ fileName : String,
      (delete fileName false).run Prim.step s = (.ok (), s') →
      (∃ err, ((getBinaryData E fileName).run Prim.step s').1 = .error err) ∧
      ∀ name ≠ fileName, ((getBinaryData E name).run Prim.step s').1 =
        ((getBinaryData E name).run Prim.step s).1 := by
  have hs := h.sound
  simp only [run_getBinaryData]
  constructor
  · intro d fileName input cover compressed hfresh hinput hname hrun
    obtain ⟨s₁, heff, hput⟩ := performs_putBinaryData E hs hfresh hname input cover compressed
    rw [hput.run_eq] at hrun
    cases hrun
    exact ⟨heff.get_self hE hD (h.intact hE) hs hfresh hinput hname,
      fun name hne => get_congr (heff.read_of_ne hs hfresh hne)⟩
  · intro fileName hrun
    by_cases hname : fileName = ""
    · rw [StoreManager.delete, if_pos hname] at hrun
      cases hrun
    · rw [(performs_delete hs hname false).run_eq] at hrun
      cases hrun
      have hmatch : ∀ name, nameMatches fileName false name = decide (name = fileName) := by
        intro name
        simp [nameMatches]
      refine ⟨⟨.fileNotFound, ?_⟩, fun name hne => get_congr ?_⟩
      · rw [Store.get, if_neg hname, hs.read_deleteAll_listed, hmatch, decide_eq_true rfl]
        rfl
      · rw [hs.read_deleteAll_listed, hmatch, decide_eq_false hne]
        rfl

theorem injOn_hash256_plain {D : Set Bytes} : Set.InjOn Engine.plain.hash256 D := by
  intro c₁ _ c₂ _ heq
  have hbyte : Function.Injective Char.ofUInt8 := fun a b h =>
    UInt8.toUInt32_inj.mp (congrArg Char.val h)
  exact List.map_injective_iff.mpr hbyte (String.ofList_injective heq)

/-- Two names sharing a source, one of which is written again. -/
theorem store_refines_map_shared :
    ∃ s s', Reachable .plain {[1], [2]} s ∧
      (putBinaryData .plain (.sample 2) "a" [2] true true).run Prim.step s = (.ok (), s') ∧
      ((getBinaryData .plain "b").run Prim.step s').1 =
        ((getBinaryData .plain "b").run Prim.step s).1 := by
  have h : Reachable .plain {[1], [2]} _ :=
    .call (.put (.sample 1) "b" [1] false false)
      (.call (.put (.sample 0) "a" [1] false true) .empty ⟨rfl, rfl⟩ (.inl rfl)) ⟨rfl, rfl⟩ (.inl rfl)
  refine ⟨_, _, h, rfl, ?_⟩
  exact ((store_refines_map Engine.lossless_plain injOn_hash256_plain h).1 (.sample 2) "a" [2] true true
    ⟨rfl, rfl⟩ (.inr rfl) (by decide) rfl).2 "b" (by decide)

end LiNaStore
