import LiNaStore.Base.Linearizable
import LiNaStore.Base.Parts
import LiNaStore.Library.Workers
import Mathlib.Data.Set.Lattice
import Mathlib.Order.CompletePartialOrder

/-!
# Footprints

What a call is about is its *footprint* (`Footprint`): names, sources, the identifiers drawn for
links and the hashes of contents. It is *closed* in a store if all that belongs to its names and
hashes is in the part of the store that its sources make up.

A primitive that keeps to a footprint (`Footprint.Within`) does to the part what it does to the
store (`Footprint.Within.step`), and nothing to the parts of footprints apart from it
(`Footprint.Change.frame`). So footprints are the regions of a locality of the primitives
(`Footprint.locality`).
-/

namespace LiNaStore

open Store

/-- What a call is about. -/
structure Footprint where
  names : Set String
  sources : Set SourceId
  linkIds : Set String
  hashes : Set String

namespace Footprint

/-- Two footprints have no name, no source, no drawn identifier and no hash in common. -/
structure Apart (r r' : Footprint) : Prop where
  names : Disjoint r.names r'.names
  sources : Disjoint r.sources r'.sources
  linkIds : Disjoint r.linkIds r'.linkIds
  hashes : Disjoint r.hashes r'.hashes

theorem Apart.symm {r r' : Footprint} (h : r.Apart r') : r'.Apart r :=
  ⟨h.names.symm, h.sources.symm, h.linkIds.symm, h.hashes.symm⟩

/-- The links with the names are those to the sources; a link with a drawn identifier is one of
    them, and a source with one of the hashes is one of the sources. -/
structure Closed (r : Footprint) (s : Store) : Prop where
  links : ∀ l ∈ s.links.rows, l.name ∈ r.names ↔ l.sourceId ∈ r.sources
  linkIds : ∀ l ∈ s.links.rows, l.id ∈ r.linkIds → l.sourceId ∈ r.sources
  hashes : ∀ src ∈ s.sources.rows, src.hash256 ∈ r.hashes → src.id ∈ r.sources

/-- A path is one of the files of the sources. -/
def Owns (r : Footprint) (p : Path) : Prop := ∃ id ∈ r.sources, id.Owns p

/-- A primitive keeps to the footprint, when it is called in the part of a store. It does not
    take a hash that the footprint does not have, and it erases no link that is not there. -/
def Within (r : Footprint) : Prim → Store → Prop
  | .insertLinkWithId id name _ sourceId _, _ =>
    id ∈ r.linkIds ∧ name ∈ r.names ∧ sourceId ∈ r.sources
  | .getLinksByName name false, _ => name ∈ r.names
  | .getLinksByName pattern true, _ =>
    ∀ name : String, like pattern.toList name.toList → name ∈ r.names
  | .getNLinks _, _ => ∀ name, name ∈ r.names
  | .setLinkMode name _, _ => name ∈ r.names
  | .deleteLinkById id, s => ∃ l ∈ s.links.rows, l.id = id
  | .updateLinkSourceId id new, s => (∃ l ∈ s.links.rows, l.id = id) ∧ new ∈ r.sources
  | .insertSourceWithCount id hash256 .., _ => id ∈ r.sources ∧ hash256 ∈ r.hashes
  | .getSourceById id, _ => id ∈ r.sources
  | .getSourceByHash256 hash256, _ => hash256 ∈ r.hashes
  | .updateSource id hash256 .., s => id ∈ r.sources ∧
    (hash256 ∈ r.hashes ∨ ∃ src, s.source id = some src ∧ src.hash256 = hash256)
  | .deleteSourceById id, _ => id ∈ r.sources
  | .createDirAll _, _ | .syncAll _, _ => True
  | .createFile p, _ | .writeAll p _, _ | .removeFile p, _ | .readFile p, _ => r.Owns p
  | .rename p q, _ => r.Owns p ∧ r.Owns q
  | _, _ => False

/-! ## What a primitive may change -/

/-- The changes a primitive makes that keeps to the footprint. -/
inductive Change (r : Footprint) (s : Store) : Store → Prop
  | refl : Change r s s
  | insertLink {l : Link} : s.links.find? l.id = none → l.id ∈ r.linkIds → l.name ∈ r.names →
      l.sourceId ∈ r.sources → Change r s (s.insertLink l)
  | eraseLink {l : Link} : l ∈ s.links.rows → l.sourceId ∈ r.sources →
      Change r s (s.eraseLink l.id)
  | repoint {l : Link} {new : SourceId} : l ∈ s.links.rows → l.sourceId ∈ r.sources →
      new ∈ r.sources → Change r s (s.repoint l.id new)
  | setMode {name : String} {mode : UInt32} : name ∈ r.names → Change r s (s.setMode name mode)
  | insertSource {src : Source} : s.source src.id = none → src.id ∈ r.sources →
      src.hash256 ∈ r.hashes → Change r s (s.insertSource src)
  | setSource {src : Source} : src.id ∈ r.sources →
      (src.hash256 ∈ r.hashes ∨ ∃ old, s.source src.id = some old ∧ old.hash256 = src.hash256) →
      Change r s (s.setSource src)
  | eraseSource {id : SourceId} : id ∈ r.sources → Change r s (s.eraseSource id)
  | setFile {p : Path} {bytes : Bytes} : r.Owns p → Change r s (s.setFile p bytes)
  | appendFile {p : Path} {bytes : Bytes} : r.Owns p → Change r s (s.appendFile p bytes)
  | eraseFile {p : Path} : r.Owns p → Change r s (s.eraseFile p)
  | rename {p q : Path} {bytes : Bytes} : r.Owns p → r.Owns q →
      Change r s ((s.eraseFile p).setFile q bytes)

variable {r r' : Footprint} {s t : Store}

theorem Closed.congr (h : r.Closed s) (hlinks : t.links = s.links) (hsources : t.sources = s.sources) :
    r.Closed t :=
  ⟨hlinks ▸ h.links, hlinks ▸ h.linkIds, hsources ▸ h.hashes⟩

/-- Links that come, go and change as the footprint `q` allows leave `r` closed. -/
theorem Closed.of_links (h : r.Closed s) (hsources : t.sources = s.sources)
    (hlinks : ∀ l ∈ t.links.rows, l ∈ s.links.rows ∨
      (l.name ∈ r.names ↔ l.sourceId ∈ r.sources) ∧ (l.id ∈ r.linkIds → l.sourceId ∈ r.sources)) :
    r.Closed t where
  links l hl := (hlinks l hl).elim (h.links l) And.left
  linkIds l hl := (hlinks l hl).elim (h.linkIds l) And.right
  hashes := hsources ▸ h.hashes

/-- The footprint stays closed. -/
theorem Change.closed (h : r.Change s t) (hr : r.Closed s) : r.Closed t := by
  cases h with
  | refl => exact hr
  | @insertLink l hnew hid hname hsource =>
    refine hr.of_links rfl fun l' hl' => ?_
    refine ((Table.mem_insert hnew).1 hl').imp_right ?_
    rintro rfl
    exact ⟨iff_of_true hname hsource, fun _ => hsource⟩
  | eraseLink => exact hr.of_links rfl fun l' hl' => .inl (Table.mem_erase.1 hl').1
  | @repoint l new hl hsource hnew =>
    refine hr.of_links rfl fun l' hl' => ?_
    obtain ⟨l₀, hl₀, rfl⟩ := mem_repoint.1 hl'
    split
    · next hid =>
      rw [s.links.eq_of_key_eq hl₀ hl hid]
      exact .inr ⟨iff_of_true ((hr.links l hl).2 hsource) hnew, fun _ => hnew⟩
    · exact .inl hl₀
  | @setMode name mode _ =>
    refine hr.of_links rfl fun l' hl' => .inr ?_
    obtain ⟨l₀, hl₀, rfl⟩ := mem_setMode.1 hl'
    split
    · exact ⟨hr.links l₀ hl₀, hr.linkIds l₀ hl₀⟩
    · exact ⟨hr.links l₀ hl₀, hr.linkIds l₀ hl₀⟩
  | @insertSource src hnew hid _ =>
    refine ⟨hr.links, hr.linkIds, fun src' hsrc' hhash => ?_⟩
    rcases (Table.mem_insert hnew).1 hsrc' with hsrc' | rfl
    · exact hr.hashes src' hsrc' hhash
    · exact hid
  | @setSource src hid _ =>
    refine ⟨hr.links, hr.linkIds, fun src' hsrc' hhash => ?_⟩
    rcases eq_or_mem_of_mem_setSource hsrc' with rfl | hsrc'
    · exact hid
    · exact hr.hashes src' hsrc' hhash
  | eraseSource =>
    exact ⟨hr.links, hr.linkIds, fun src' hsrc' => hr.hashes src' (Table.mem_erase.1 hsrc').1⟩
  | setFile | appendFile | eraseFile | rename => exact hr.congr rfl rfl

theorem Apart.notMem_sources (h : r.Apart r') {id : SourceId} (hid : id ∈ r.sources) :
    id ∉ r'.sources :=
  Set.disjoint_left.1 h.sources hid

theorem Apart.notMem_names (h : r.Apart r') {name : String} (hname : name ∈ r.names) :
    name ∉ r'.names :=
  Set.disjoint_left.1 h.names hname

/-- A file of a source is not one of the sources of a footprint apart. -/
theorem Apart.not_owns (h : r.Apart r') {p : Path} (hp : r.Owns p) : ¬r'.Owns p := by
  obtain ⟨id, hid, hp⟩ := hp
  rintro ⟨id', hid', hp'⟩
  exact h.notMem_sources hid (hp.unique hp' ▸ hid')

/-- The part of a footprint apart is as it was, and the footprint is closed as it was. -/
theorem Change.frame (h : r.Change s t) (hr : r.Closed s) (hapart : r.Apart r')
    (hr' : r'.Closed s) : t.only r'.sources = s.only r'.sources ∧ r'.Closed t := by
  cases h with
  | refl => exact ⟨rfl, hr'⟩
  | @insertLink l hnew hid hname hsource =>
    have hnot := hapart.notMem_sources hsource
    refine ⟨only_insertLink_of_notMem hnew hnot, hr'.of_links rfl fun l' hl' => ?_⟩
    refine ((Table.mem_insert hnew).1 hl').imp_right ?_
    rintro rfl
    exact ⟨iff_of_false (hapart.notMem_names hname) hnot,
      fun hid' => absurd hid' (Set.disjoint_left.1 hapart.linkIds hid)⟩
  | @eraseLink l hl hsource =>
    refine ⟨only_eraseLink_of_notMem fun l' hl' hid => ?_, hr'.of_links rfl fun l' hl' => ?_⟩
    · rw [s.links.eq_of_key_eq hl' hl hid]
      exact hapart.notMem_sources hsource
    · exact .inl (Table.mem_erase.1 hl').1
  | @repoint l new hl hsource hnew =>
    have hnot := hapart.notMem_sources hsource
    refine ⟨only_repoint_of_notMem (fun l' hl' hid => ?_) (hapart.notMem_sources hnew),
      hr'.of_links rfl fun l' hl' => ?_⟩
    · rw [s.links.eq_of_key_eq hl' hl hid]
      exact hnot
    · obtain ⟨l₀, hl₀, rfl⟩ := mem_repoint.1 hl'
      split
      · next hid =>
        rw [s.links.eq_of_key_eq hl₀ hl hid]
        have hname := hapart.notMem_names ((hr.links l hl).2 hsource)
        exact .inr ⟨iff_of_false hname (hapart.notMem_sources hnew),
          fun hid' => absurd (hr'.linkIds l hl hid') hnot⟩
      · exact .inl hl₀
  | @setMode name mode hname =>
    refine ⟨only_setMode_of_notMem fun l hl heq => ?_, ?_⟩
    · exact hapart.notMem_sources ((hr.links l hl).1 (heq ▸ hname))
    · refine hr'.of_links rfl fun l' hl' => .inr ?_
      obtain ⟨l₀, hl₀, rfl⟩ := mem_setMode.1 hl'
      split
      · exact ⟨hr'.links l₀ hl₀, hr'.linkIds l₀ hl₀⟩
      · exact ⟨hr'.links l₀ hl₀, hr'.linkIds l₀ hl₀⟩
  | @insertSource src hnew hid hhash =>
    refine ⟨only_insertSource_of_notMem hnew (hapart.notMem_sources hid), hr'.links, hr'.linkIds,
      fun src' hsrc' hhash' => ?_⟩
    rcases (Table.mem_insert hnew).1 hsrc' with hsrc' | rfl
    · exact hr'.hashes src' hsrc' hhash'
    · exact absurd hhash' (Set.disjoint_left.1 hapart.hashes hhash)
  | @setSource src hid hhash =>
    refine ⟨only_setSource_of_notMem (hapart.notMem_sources hid), hr'.links, hr'.linkIds,
      fun src' hsrc' hhash' => ?_⟩
    rcases eq_or_mem_of_mem_setSource hsrc' with rfl | hsrc'
    · -- the hash is new, and not one of the other footprint, or it is the one the source had
      rcases hhash with hhash | ⟨old, hold, hhash⟩
      · exact absurd hhash' (Set.disjoint_left.1 hapart.hashes hhash)
      · have hmem := hr'.hashes old (mem_of_source hold) (hhash ▸ hhash')
        rwa [id_of_source hold] at hmem
    · exact hr'.hashes src' hsrc' hhash'
  | eraseSource hid =>
    exact ⟨only_eraseSource_of_notMem (hapart.notMem_sources hid), hr'.links, hr'.linkIds,
      fun src' hsrc' => hr'.hashes src' (Table.mem_erase.1 hsrc').1⟩
  | setFile hp => exact ⟨only_setFile_of_not (hapart.not_owns hp), hr'.congr rfl rfl⟩
  | appendFile hp => exact ⟨only_appendFile_of_not (hapart.not_owns hp), hr'.congr rfl rfl⟩
  | eraseFile hp => exact ⟨only_eraseFile_of_not (hapart.not_owns hp), hr'.congr rfl rfl⟩
  | rename hp hq =>
    refine ⟨?_, hr'.congr rfl rfl⟩
    rw [only_setFile_of_not (hapart.not_owns hq), only_eraseFile_of_not (hapart.not_owns hp)]

/-! ## The part of a footprint -/

/-- A primitive that keeps to the footprint does to the part what it does to the store. -/
theorem Within.step {o : Prim} (h : r.Within o (s.only r.sources)) (hr : r.Closed s) :
    o.step (s.only r.sources) = ((o.step s).1, (o.step s).2.only r.sources) ∧
      r.Change s (o.step s).2 := by
  cases o with
  | insertLinkWithId id name ext sourceId mode =>
    obtain ⟨hid, hname, hsource⟩ := h
    have hlink : (s.only r.sources).links.find? id = s.links.find? id :=
      find?_links_only fun l hl heq => hr.linkIds l hl (heq ▸ hid)
    have hsrc : (s.only r.sources).sources.find? sourceId = s.sources.find? sourceId :=
      source_only hsource
    rw [Prim.step, Prim.step, hlink, hsrc]
    split_ifs with htaken hnone
    · exact ⟨rfl, .refl⟩
    · exact ⟨rfl, .refl⟩
    · have hnew : s.links.find? id = none := Option.not_isSome_iff_eq_none.1 htaken
      exact ⟨by rw [only_insertLink hnew hsource], .insertLink hnew hid hname hsource⟩
  | getLinksByName name fuzzy =>
    cases fuzzy with
    | false =>
      rw [Prim.step, linksNamed_only fun l hl hname => (hr.links l hl).1 (hname ▸ h)]
      exact ⟨rfl, .refl⟩
    | true =>
      rw [Prim.step, filter_links_only fun l hl hlike => (hr.links l hl).1 (h l.name hlike)]
      exact ⟨rfl, .refl⟩
  | getNLinks n =>
    have hrows : (s.only r.sources).links.rows = s.links.rows := by
      have hall := filter_links_only (s := s) (p := fun _ => true) fun l hl _ =>
        (hr.links l hl).1 (h l.name)
      rwa [List.filter_true, List.filter_true] at hall
    rw [Prim.step, hrows]
    exact ⟨rfl, .refl⟩
  | setLinkMode name mode => exact ⟨by rw [Prim.step, ← only_setMode]; rfl, .setMode h⟩
  | deleteLinkById id =>
    obtain ⟨l, hl, rfl⟩ := h
    obtain ⟨hl, hsource⟩ := mem_links_only.1 hl
    exact ⟨by rw [Prim.step, ← only_eraseLink]; rfl, .eraseLink hl hsource⟩
  | updateLinkSourceId linkId new =>
    obtain ⟨⟨l, hl, rfl⟩, hnew⟩ := h
    obtain ⟨hl, hsource⟩ := mem_links_only.1 hl
    have hunique : ∀ l' ∈ s.links.rows, l'.id = l.id → l'.sourceId ∈ r.sources :=
      fun l' hl' hid => s.links.eq_of_key_eq hl' hl hid ▸ hsource
    have hsrc : (s.only r.sources).sources.find? new = s.sources.find? new := source_only hnew
    rw [Prim.step, Prim.step, find?_links_only hunique, hsrc]
    split_ifs
    · exact ⟨rfl, .refl⟩
    · exact ⟨by rw [only_repoint hunique hnew], .repoint hl hsource hnew⟩
  | insertSourceWithCount id hash256 compressed size count =>
    have hsrc : (s.only r.sources).sources.find? id = s.sources.find? id := source_only h.1
    rw [Prim.step, Prim.step, hsrc]
    split_ifs with htaken
    · exact ⟨rfl, .refl⟩
    · have hnew : s.source id = none := Option.not_isSome_iff_eq_none.1 htaken
      exact ⟨by rw [only_insertSource hnew h.1], .insertSource hnew h.1 h.2⟩
  | getSourceById id =>
    have hsrc : (s.only r.sources).sources.find? id = s.sources.find? id := source_only h
    rw [Prim.step, hsrc]
    exact ⟨rfl, .refl⟩
  | getSourceByHash256 hash256 =>
    have hfind := find?_sources_only (p := (·.hash256 = hash256)) fun src hsrc hhash =>
      hr.hashes src hsrc (of_decide_eq_true hhash ▸ h)
    rw [Prim.step, hfind]
    exact ⟨rfl, .refl⟩
  | updateSource id hash256 compressed size count =>
    refine ⟨by rw [Prim.step, ← only_setSource]; rfl, .setSource h.1 (h.2.imp_right ?_)⟩
    rw [source_only h.1]
    exact fun h => h
  | deleteSourceById id =>
    have hsrc : (s.only r.sources).sources.find? id = s.sources.find? id := source_only h
    rw [Prim.step, Prim.step, hsrc, refs_only h]
    split_ifs
    · exact ⟨rfl, .refl⟩
    · exact ⟨by rw [only_eraseSource], .eraseSource h⟩
  | createDirAll dir => exact ⟨rfl, .refl⟩
  | createFile p => exact ⟨by rw [Prim.step, ← only_setFile h]; rfl, .setFile h⟩
  | writeAll p bytes => exact ⟨by rw [Prim.step, ← only_appendFile]; rfl, .appendFile h⟩
  | syncAll p => exact ⟨rfl, .refl⟩
  | rename p q =>
    obtain ⟨hp, hq⟩ := h
    obtain ⟨id, hid, hown⟩ := id hp
    rw [Prim.step, Prim.step, file_only hid hown]
    cases s.file p with
    | none => exact ⟨rfl, .refl⟩
    | some bytes => exact ⟨by rw [only_setFile hq, only_eraseFile], .rename hp hq⟩
  | removeFile p =>
    obtain ⟨id, hid, hown⟩ := id h
    rw [Prim.step, Prim.step, file_only hid hown]
    cases s.file p with
    | none => exact ⟨rfl, .refl⟩
    | some bytes => exact ⟨by rw [only_eraseFile], .eraseFile h⟩
  | readFile p =>
    obtain ⟨id, hid, hown⟩ := h
    rw [Prim.step, Prim.step, file_only hid hown]
    cases s.file p with
    | none => exact ⟨rfl, .refl⟩
    | some bytes => exact ⟨rfl, .refl⟩
  | getLinksByExt | insertDir | deleteDir | getDirByPath | listDirsByParent | listAllDirs
  | setDirMode | listSourceIds | readDir => exact h.elim

/-- Footprints are the regions of a locality of the primitives. -/
noncomputable def locality : Locality Prim.step Footprint where
  view r s := s.only r.sources
  Apart := Apart
  Closed := Closed
  Within := Within
  step_view hr h := (h.step hr).1
  closed_step hr h := (h.step hr).2.closed hr
  frame hr h := (h.step hr).2.frame hr

end Footprint

/-! ## Programs that keep to a footprint -/

namespace StoreManager

open Program

variable {r : Footprint} {s : Store} {extra : SourceId → ℕ} {d : Draws} {c : Stored}

theorem along_persistSourceBytes {id : SourceId} (hid : id ∈ r.sources) {tmpId : String}
    (bytes : Bytes) : (persistSourceBytes id bytes tmpId).Along Prim.step r.Within s := by
  have htmp : r.Owns (id.tmpPath tmpId) := ⟨id, hid, .tmp tmpId⟩
  refine .perform_bind trivial rfl ?_
  refine .perform_bind htmp rfl ?_
  refine .perform_bind htmp rfl ?_
  refine .perform_bind trivial rfl ?_
  have hbytes : ((s.setFile (id.tmpPath tmpId) []).appendFile (id.tmpPath tmpId) bytes).file
      (id.tmpPath tmpId) = some bytes := by
    rw [file_appendFile, file_setFile, if_pos rfl, Option.map_some, if_pos rfl, List.nil_append]
  exact .orUndo (.perform ⟨htmp, id, hid, .payload⟩) (Prim.step_rename hbytes)

theorem along_releaseSource {link : Link} {src : Source} (hlink : link.sourceId = src.id)
    (hid : src.id ∈ r.sources) (hs : s.Releasable src) :
    (releaseSource link src (src.count - 1)).Along Prim.step r.Within s := by
  have hpayload : r.Owns src.id.sourcePath := ⟨_, hid, .payload⟩
  have htomb : r.Owns src.id.tombstonePath := ⟨_, hid, .tombstone⟩
  obtain ⟨hsrc, hpos, hrefs, ⟨bytes, hfile⟩, _⟩ := hs
  rw [releaseSource, hlink]
  split
  · exact .perform ⟨hid, .inr ⟨src, hsrc, rfl⟩⟩
  · next hle =>
    have hrenamed : ((s.eraseFile src.id.sourcePath).setFile src.id.tombstonePath bytes).refs
        src.id = 0 := hrefs (by omega)
    have hmoved : (((s.eraseFile src.id.sourcePath).setFile src.id.tombstonePath
        bytes).eraseSource src.id).file src.id.tombstonePath = some bytes := by
      rw [file_eraseSource, file_setFile, if_pos rfl]
    refine .perform_bind ⟨hpayload, htomb⟩ (Prim.step_rename hfile) ?_
    refine .orUndo_bind (.perform hid) (Prim.step_deleteSourceById hrenamed) ?_
    exact .orUndo (.perform htomb) (Prim.step_removeFile hmoved)

theorem along_replaceSource {l : Link} {src : Source} (hs : s.Sound extra)
    (hfresh : s.source d.sourceId = none) (hl : l ∈ s.links.rows)
    (hsrc : s.source l.sourceId = some src) (hnew : d.sourceId ∈ r.sources)
    (hhash : c.hash256 ∈ r.hashes) (hid : l.sourceId ∈ r.sources) :
    (replaceSource d l src c.compressed c.hash256 c.size c.bytes).Along Prim.step r.Within s := by
  have hsrcId := id_of_source hsrc
  have hpos := hs.count_pos hsrc
  have hrel := hs.releasable_redirect hl hsrc hfresh c
  have hinsert := Prim.step_insertSourceWithCount (s := s.setFile d.sourceId.sourcePath c.bytes)
    (show s.source (c.row d.sourceId 1).id = none from hfresh)
  have hrepoint : Prim.step (.updateLinkSourceId l.id d.sourceId) (s.addSource d.sourceId c) = _ :=
    Prim.step_updateLinkSourceId (by rw [source_addSource hfresh, if_pos rfl]; rfl)
  refine .bind (along_persistSourceBytes hnew c.bytes)
    (run_persistSourceBytes (hs.file_tmpPath _ _) c.bytes) ?_
  refine .orUndo_bind (.perform ⟨hnew, hhash⟩) hinsert ?_
  refine .orUndo_bind (.perform ⟨⟨l, hl, rfl⟩, hnew⟩) hrepoint ?_
  rw [if_neg (by omega)]
  exact .orUndo (along_releaseSource hsrcId.symm (hsrcId ▸ hid) hrel)
    (performs_releaseSource hsrcId.symm hrel).run_eq

theorem along_overwriteSource {l : Link} {src : Source} (hs : s.Sound extra)
    (hsrc : s.source l.sourceId = some src) (hhash : c.hash256 ∈ r.hashes)
    (hid : l.sourceId ∈ r.sources) :
    (overwriteSource d l src c.compressed c.hash256 c.size c.bytes).Along Prim.step r.Within s := by
  obtain ⟨bytes, hbytes⟩ := hs.exists_file hsrc
  refine .perform_bind ⟨_, hid, .payload⟩ (Prim.step_readFile hbytes) ?_
  refine .bind (along_persistSourceBytes hid c.bytes)
    (run_persistSourceBytes (hs.file_tmpPath _ _) c.bytes) ?_
  exact .orUndo (.perform ⟨hid, .inl hhash⟩) rfl

theorem along_linkToSource {fileName ext : String} {src : Source}
    (hfresh : s.links.find? d.linkId = none) (hsrc : s.source src.id = some src)
    (hlinkId : d.linkId ∈ r.linkIds) (hname : fileName ∈ r.names) (hid : src.id ∈ r.sources) :
    (linkToSource d fileName ext src).Along Prim.step r.Within s := by
  have hinsert := Prim.step_insertLinkWithId (l := ⟨d.linkId, fileName, ext, src.id, 420⟩) hfresh
    (by rw [hsrc]; rfl)
  refine .perform_bind ⟨hlinkId, hname, hid⟩ hinsert ?_
  exact .orUndo (.perform ⟨hid, .inr ⟨src, hsrc, rfl⟩⟩) rfl

theorem along_createSource {fileName ext : String} (hs : s.Sound extra) (hfresh : d.Fresh s)
    (hlinkId : d.linkId ∈ r.linkIds) (hname : fileName ∈ r.names) (hnew : d.sourceId ∈ r.sources)
    (hhash : c.hash256 ∈ r.hashes) :
    (createSource d fileName ext c.compressed c.hash256 c.size c.bytes).Along Prim.step r.Within
      s := by
  have hinsert := Prim.step_insertSourceWithCount (s := s.setFile d.sourceId.sourcePath c.bytes)
    (show s.source (c.row d.sourceId 1).id = none from hfresh.sourceId)
  have hlink := Prim.step_insertLinkWithId (s := s.addSource d.sourceId c)
    (l := ⟨d.linkId, fileName, ext, d.sourceId, 420⟩) hfresh.linkId
    (by rw [source_addSource hfresh.sourceId, if_pos rfl]; rfl)
  refine .bind (along_persistSourceBytes hnew c.bytes)
    (run_persistSourceBytes (hs.file_tmpPath _ _) c.bytes) ?_
  refine .orUndo_bind (.perform ⟨hnew, hhash⟩) hinsert ?_
  exact .orUndo (.perform ⟨hlinkId, hname, hnew⟩) hlink

/-- A write keeps to a footprint that has its name, its hash and what it draws, on a store all of
    which is in the footprint. -/
theorem along_putBinaryDataLocked {fileName ext : String} {cover : Bool} (hs : s.Sound extra)
    (hfresh : d.Fresh s) (hsources : ∀ src ∈ s.sources.rows, src.id ∈ r.sources)
    (hname : fileName ∈ r.names) (hhash : c.hash256 ∈ r.hashes) (hlinkId : d.linkId ∈ r.linkIds)
    (hnew : d.sourceId ∈ r.sources) :
    (putBinaryDataLocked d fileName cover c.compressed c.hash256 c.size c.bytes ext).Along Prim.step
      r.Within s := by
  cases hnamed : s.linksNamed fileName with
  | nil =>
    refine .perform_bind (a := []) hname (by rw [Prim.step, hnamed]) ?_
    cases hsrc : s.sources.rows.find? (·.hash256 = c.hash256) with
    | none =>
      refine .perform_bind (a := none) hhash (by rw [Prim.step, hsrc]) ?_
      exact along_createSource hs hfresh hlinkId hname hnew hhash
    | some src =>
      refine .perform_bind (a := some src) hhash (by rw [Prim.step, hsrc]) ?_
      have hmem := source_of_find? hsrc
      exact along_linkToSource hfresh.linkId hmem.1 hlinkId hname
        (hsources src (mem_of_source hmem.1))
  | cons l rest =>
    have hl : l ∈ s.links.rows := (mem_linksNamed.1 (hnamed ▸ List.mem_cons_self)).1
    obtain ⟨src, hsrc⟩ := hs.exists_source hl
    have hid : l.sourceId ∈ r.sources := id_of_source hsrc ▸ hsources src (mem_of_source hsrc)
    refine .perform_bind (a := l :: rest) hname (by rw [Prim.step, hnamed]) ?_
    refine .perform_bind (a := some src) hid
      (by rw [Prim.step, show s.sources.find? l.sourceId = some src from hsrc]) ?_
    dsimp only
    split_ifs
    · exact along_replaceSource hs hfresh.sourceId hl hsrc hnew hhash hid
    · exact along_overwriteSource hs hsrc hhash hid
    · trivial
    · exact along_replaceSource hs hfresh.sourceId hl hsrc hnew hhash hid

theorem along_deleteLink {l : Link} (hs : s.Sound extra) (hl : l ∈ s.links.rows)
    (hid : l.sourceId ∈ r.sources) : (deleteLink l).Along Prim.step r.Within s := by
  obtain ⟨src, hsrc⟩ := hs.exists_source hl
  have hsrcId := id_of_source hsrc
  have hpos := hs.count_pos hsrc
  have hrel := hs.releasable_eraseLink hl hsrc
  refine .perform_bind (a := some src) hid
    (by rw [Prim.step, show s.sources.find? l.sourceId = some src from hsrc]) ?_
  simp only [if_neg (show ¬src.count = 0 by omega)]
  refine .perform_bind ⟨l, hl, rfl⟩ rfl ?_
  exact .orUndo (along_releaseSource hsrcId.symm (hsrcId ▸ hid) hrel)
    (performs_releaseSource hsrcId.symm hrel).run_eq

theorem along_deleteLinks {links : List Link} (hs : s.Sound extra)
    (hl : ∀ l ∈ links, l ∈ s.links.rows) (hnodup : links.Nodup)
    (hid : ∀ l ∈ links, l.sourceId ∈ r.sources) :
    (forEach deleteLink links).Along Prim.step r.Within s := by
  induction links generalizing s with
  | nil => trivial
  | cons l links ih =>
    have hmem := hl l List.mem_cons_self
    refine .bind (along_deleteLink hs hmem (hid l List.mem_cons_self))
      (performs_deleteLink hs hmem links).run_eq ?_
    exact ih (hs.delete hmem) (mem_links_delete_of_cons hs hl hnodup) (List.nodup_cons.1 hnodup).2
      fun l' hl' => hid l' (List.mem_cons_of_mem _ hl')

/-- A listing keeps to a footprint that has the names it matches. -/
theorem along_listLocked {pattern : String} {useRegex : Bool}
    (h : ∀ name, nameMatches pattern useRegex name → name ∈ r.names) :
    (listLocked pattern 0 false useRegex).Along Prim.step r.Within s := by
  rw [listLocked, if_neg Bool.false_ne_true]
  split_ifs with hall hlike
  · refine .perform fun name => h name ?_
    rw [nameMatches, if_pos hall]
  · refine .perform fun name hname => h name ?_
    rwa [nameMatches, if_neg hall, if_pos hlike, ← String.toList_ofList (l := pattern.toList.map _)]
  · refine .perform (h pattern ?_)
    rw [nameMatches, if_neg hall, if_neg hlike]
    exact decide_eq_true rfl

end StoreManager

/-! ## The footprint of a call -/

namespace Call

/-- The names a call is about. -/
def names : Call → Set String
  | put _ fileName .. => {fileName}
  | delete pattern useRegx => {name | pattern ≠ "" ∧ nameMatches pattern useRegx name}
  | setFileMode name _ => {name}

/-- The hash a call looks up and brings. -/
def hashes (E : Engine) : Call → Set String
  | put _ _ input .. => {E.hash256 input}
  | _ => ∅

/-- The sources a call is about: those of its names, those with the hash of its content, and the
    one it draws. -/
def sources (E : Engine) (c : Call) (s : Store) : Set SourceId :=
  {id | (∃ l ∈ s.links.rows, l.name ∈ c.names ∧ l.sourceId = id) ∨
    (∃ src ∈ s.sources.rows, src.hash256 ∈ c.hashes E ∧ src.id = id) ∨
    ∃ d, c.draws = some d ∧ d.sourceId = id}

/-- What a call is about, when it begins in `s`: its names and its hash, with their sources and all
    the names of these, and what it draws. -/
def footprint (E : Engine) (c : Call) (s : Store) : Footprint where
  names := {name | name ∈ c.names ∨ ∃ l ∈ s.links.rows, l.sourceId ∈ c.sources E s ∧ l.name = name}
  sources := c.sources E s
  linkIds := {id | ∃ d, c.draws = some d ∧ d.linkId = id}
  hashes := c.hashes E

variable {E : Engine} {c : Call} {s : Store}

theorem Fresh.draws (h : c.Fresh s) {d : Draws} (hd : c.draws = some d) : d.Fresh s := by
  cases c with
  | put => exact Option.some.inj hd ▸ h
  | delete => cases hd
  | setFileMode => cases hd

/-- What is new in a store is new in its parts. -/
theorem Fresh.only (h : c.Fresh s) (S : Set SourceId) : c.Fresh (s.only S) := by
  cases c with
  | put d fileName input cover compressed =>
    refine ⟨?_, ?_⟩
    · rw [Store.source, Store.only, Table.find?_filter, show s.sources.find? d.sourceId = none
        from h.sourceId]
      rfl
    · rw [Store.only, Table.find?_filter, h.linkId]
      rfl
  | delete => trivial
  | setFileMode => trivial

/-- The footprint of a call is closed where it begins, if the links to its sources have names of
    their own. -/
theorem closed_footprint (hfresh : c.Fresh s)
    (hunique : ∀ l ∈ s.links.rows, ∀ l' ∈ s.links.rows, l.sourceId ∈ c.sources E s →
      l.name = l'.name → l = l') : (c.footprint E s).Closed s where
  links l hl := by
    constructor
    · rintro (hname | ⟨l', hl', hsource, hname⟩)
      · exact .inl ⟨l, hl, hname, rfl⟩
      · exact hunique l' hl' l hl hsource hname ▸ hsource
    · exact fun hsource => .inr ⟨l, hl, hsource, rfl⟩
  linkIds l hl := by
    rintro ⟨d, hd, hid⟩
    exact absurd hid.symm (Table.find?_eq_none_iff.1 (hfresh.draws hd).linkId l hl)
  hashes src hsrc hhash := .inr (.inl ⟨src, hsrc, hhash, rfl⟩)

/-- Calls that begin in one store are apart if they have no name, no source, no hash and no draw in
    common: the other names of their sources are then different too. -/
theorem apart_footprint {c' : Call} (hunique : s.UniqueNames) (hnames : Disjoint c.names c'.names)
    (hsources : Disjoint (c.sources E s) (c'.sources E s))
    (hhashes : Disjoint (c.hashes E) (c'.hashes E))
    (hdraws : ∀ d d', c.draws = some d → c'.draws = some d' → d.Distinct d') :
    (c.footprint E s).Apart (c'.footprint E s) where
  names := by
    refine Set.disjoint_left.2 ?_
    rintro name (hname | ⟨l, hl, hid, rfl⟩) (hname' | ⟨l', hl', hid', heq⟩)
    · exact Set.disjoint_left.1 hnames hname hname'
    · exact Set.disjoint_left.1 hsources (.inl ⟨l', hl', heq ▸ hname, rfl⟩) hid'
    · exact Set.disjoint_left.1 hsources hid (.inl ⟨l, hl, hname', rfl⟩)
    · exact Set.disjoint_left.1 hsources hid (hunique l' hl' l hl heq ▸ hid')
  sources := hsources
  linkIds := by
    refine Set.disjoint_left.2 ?_
    rintro id ⟨d, hd, rfl⟩ ⟨d', hd', heq⟩
    exact (hdraws d d' hd hd').linkId heq.symm
  hashes := hhashes

/-- A call keeps to its footprint. -/
theorem along_program {extra : SourceId → ℕ} (hs : (s.only (c.sources E s)).Sound extra)
    (hfresh : c.Fresh (s.only (c.sources E s))) :
    (c.program E).Along Prim.step (c.footprint E s).Within (s.only (c.sources E s)) := by
  cases c with
  | put d fileName input cover compressed =>
    rw [program]
    by_cases hname : fileName = ""
    · rw [StoreManager.putBinaryData, if_pos hname]
      trivial
    · rw [StoreManager.putBinaryData_eq E d hname]
      exact StoreManager.along_putBinaryDataLocked hs hfresh
        (fun src hsrc => (mem_sources_only.1 hsrc).2) (.inl rfl) rfl ⟨d, rfl, rfl⟩
        (.inr (.inr ⟨d, rfl, rfl⟩))
  | delete pattern useRegx =>
    rw [program, StoreManager.delete]
    split_ifs with hpattern
    · trivial
    · refine .bind (StoreManager.along_listLocked fun name hname => .inl ⟨hpattern, hname⟩)
        (StoreManager.run_listLocked ..) ?_
      exact StoreManager.along_deleteLinks hs listed_subset nodup_listed fun l hl =>
        (mem_links_only.1 (listed_subset l hl)).2
  | setFileMode name mode => exact .perform (.inl rfl)

end Call

end LiNaStore
