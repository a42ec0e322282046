import LiNaStore.Base.View

/-!
# The invariant of a store

The rows of a store are *counted* when every link points to a source, every
source counts its links, and no two links have one name (`Store.Counted`). The
count of a source may exceed the number of its links, by an amount `extra` that
is `0` in a store that was never interrupted: between the primitives of an
operation, and after a crash, it is not, and following it through the single
updates (`Counted.eraseLink`, `Counted.repoint`, `Counted.setSource`, ...) is what
the proofs about operations, crashes and faults have in common.

A store is *sound* when moreover its files are the payloads of its sources
(`Store.Sound`).
-/

namespace LiNaStore

namespace Store

/-- Every link points to a source; the count of a source is positive, and exceeds
    the number of its links by `extra`; no two links have one name. -/
structure Counted (extra : SourceId → ℕ) (s : Store) : Prop where
  source_of_link : ∀ l ∈ s.links.rows, (s.source l.sourceId).isSome
  count_eq : ∀ {id src}, s.source id = some src → src.count = s.refs id + extra id
  count_pos : ∀ {id src}, s.source id = some src → 1 ≤ src.count
  unique_names : s.UniqueNames

/-- The rows are counted and the files are the payloads of the sources. -/
structure Sound (extra : SourceId → ℕ) (s : Store) : Prop extends Counted extra s where
  files : ∀ p, (s.file p).isSome ↔ ∃ id, (s.source id).isSome ∧ p = id.sourcePath

/-! ## Updates made of several -/

/-- A new source with its payload, not linked to yet. -/
def addSource (s : Store) (id : SourceId) (c : Stored) : Store :=
  (s.setFile id.sourcePath c.bytes).insertSource (c.row id 1)

/-- Giving up one link to a source: count one less or, with the last one, erase the
    source and its payload. -/
def release (s : Store) (src : Source) : Store :=
  if src.count > 1 then s.setSource (src.withCount (src.count - 1))
  else (s.eraseFile src.id.sourcePath).eraseSource src.id

/-- Deleting a link. -/
def delete (s : Store) (l : Link) : Store :=
  match s.source l.sourceId with
  | some src => (s.eraseLink l.id).release src
  | none => s

/-- Deleting links, one after the other. -/
def deleteAll (s : Store) (links : List Link) : Store := links.foldl delete s

theorem delete_eq {s : Store} {l : Link} {src : Source} (h : s.source l.sourceId = some src) :
    s.delete l = (s.eraseLink l.id).release src := by
  rw [delete, h]

@[simp] theorem links_release (s : Store) (src : Source) : (s.release src).links = s.links := by
  rw [release]
  split <;> rfl

@[simp] theorem links_addSource (s : Store) (id : SourceId) (c : Stored) :
    (s.addSource id c).links = s.links := rfl

theorem file_addSource (s : Store) (id : SourceId) (c : Stored) (p : Path) :
    (s.addSource id c).file p = if p = id.sourcePath then some c.bytes else s.file p := by
  rw [addSource, file_insertSource, file_setFile]

theorem source_addSource {s : Store} {id : SourceId} (h : s.source id = none) (c : Stored)
    (id' : SourceId) :
    (s.addSource id c).source id' = if id' = id then some (c.row id 1) else s.source id' :=
  source_insertSource (c.row id 1) h id'

/-! ## Names -/

namespace UniqueNames

variable {s : Store}

/-- A link with a new name keeps the names unique. -/
theorem insertLink (hs : s.UniqueNames) {l : Link} (hfresh : s.links.find? l.id = none)
    (hname : s.linkNamed l.name = none) : (s.insertLink l).UniqueNames := by
  intro l₁ h₁ l₂ h₂ heq
  rcases (Table.mem_insert hfresh).1 h₁ with h₁' | rfl <;>
    rcases (Table.mem_insert hfresh).1 h₂ with h₂' | rfl
  · exact hs l₁ h₁' l₂ h₂' heq
  · exact absurd heq (linkNamed_eq_none_iff.1 hname l₁ h₁')
  · exact absurd heq.symm (linkNamed_eq_none_iff.1 hname l₂ h₂')
  · rfl

theorem repoint (hs : s.UniqueNames) (linkId : String) (id : SourceId) :
    (s.repoint linkId id).UniqueNames := by
  intro l₁ h₁ l₂ h₂ heq
  obtain ⟨l₁, h₁', rfl⟩ := mem_repoint.1 h₁
  obtain ⟨l₂, h₂', rfl⟩ := mem_repoint.1 h₂
  have hname : l₁.name = l₂.name := by
    split_ifs at heq <;> exact heq
  rw [hs l₁ h₁' l₂ h₂' hname]

end UniqueNames

/-! ## Counting -/

namespace Counted

variable {extra : SourceId → ℕ} {s : Store}

/-- Rows are counted alike in two states with the same rows. -/
theorem congr {s' : Store} (hs : s.Counted extra) (hlinks : s'.links = s.links)
    (hsources : s'.sources = s.sources) : s'.Counted extra := by
  obtain ⟨links', sources', dirs', files'⟩ := s'
  cases hlinks
  cases hsources
  exact ⟨hs.source_of_link, hs.count_eq, hs.count_pos, hs.unique_names⟩

theorem exists_source (hs : s.Counted extra) {l : Link} (hl : l ∈ s.links.rows) :
    ∃ src, s.source l.sourceId = some src :=
  Option.isSome_iff_exists.1 (hs.source_of_link l hl)

/-- There are no links to what is no source. -/
theorem refs_eq_zero (hs : s.Counted extra) {id : SourceId} (h : s.source id = none) :
    s.refs id = 0 := by
  rw [refs, List.countP_eq_zero]
  intro l hl hid
  obtain ⟨src, hsrc⟩ := hs.exists_source hl
  rw [of_decide_eq_true hid, h] at hsrc
  cases hsrc

/-- A new source counts one link more than it has. -/
theorem insertSource (hs : s.Counted extra) {id : SourceId} (h : s.source id = none) (c : Stored) :
    (s.insertSource (c.row id 1)).Counted (Function.update extra id 1) where
  source_of_link l hl := by
    rw [source_insertSource (c.row id 1) h]
    split
    · rfl
    · exact hs.source_of_link l hl
  count_eq {id'} src hsrc := by
    rw [source_insertSource (c.row id 1) h] at hsrc
    rw [Function.update_apply, refs_insertSource]
    split_ifs at hsrc ⊢ with hid hid' hid'
    · cases hsrc
      rw [show id' = id from hid, hs.refs_eq_zero h]
      rfl
    · exact absurd hid hid'
    · exact absurd hid' hid
    · exact hs.count_eq hsrc
  count_pos {id'} src hsrc := by
    rw [source_insertSource (c.row id 1) h] at hsrc
    split_ifs at hsrc with hid
    · cases hsrc
      exact Nat.le_refl 1
    · exact hs.count_pos hsrc
  unique_names := hs.unique_names

/-- Erasing a link leaves its source counting one link more. -/
theorem eraseLink (hs : s.Counted extra) {l : Link} (hl : l ∈ s.links.rows) :
    (s.eraseLink l.id).Counted (Function.update extra l.sourceId (extra l.sourceId + 1)) where
  source_of_link l' hl' := hs.source_of_link l' (Table.mem_erase.1 hl').1
  count_eq {id} src hsrc := by
    have hcount := hs.count_eq hsrc
    have hrefs := s.refs_eraseLink id hl
    rw [Function.update_apply]
    split_ifs at hrefs ⊢ with hid hid' hid'
    · subst hid'; omega
    · exact absurd hid.symm hid'
    · exact absurd hid'.symm hid
    · omega
  count_pos hsrc := hs.count_pos hsrc
  unique_names l₁ h₁ l₂ h₂ := hs.unique_names l₁ (Table.mem_erase.1 h₁).1 l₂ (Table.mem_erase.1 h₂).1

/-- Inserting a link to a source that counts one link more than it has. -/
theorem insertLink (hs : s.Counted extra) {l : Link} (hfresh : s.links.find? l.id = none)
    (hname : s.linkNamed l.name = none) (hsrc : (s.source l.sourceId).isSome) {n : ℕ}
    (hextra : extra l.sourceId = n + 1) :
    (s.insertLink l).Counted (Function.update extra l.sourceId n) where
  source_of_link l' hl' := by
    rcases (Table.mem_insert hfresh).1 hl' with hl' | rfl
    · exact hs.source_of_link l' hl'
    · exact hsrc
  count_eq {id} src hsrc := by
    have hcount := hs.count_eq hsrc
    rw [s.refs_insertLink id hfresh, Function.update_apply]
    split_ifs with hid hid' hid'
    · subst hid; omega
    · exact absurd hid.symm hid'
    · exact absurd hid'.symm hid
    · omega
  count_pos hsrc := hs.count_pos hsrc
  unique_names := hs.unique_names.insertLink hfresh hname

/-- Making a link point to another source, which counted one link more than it had:
    now the one it pointed to does. -/
theorem repoint (hs : s.Counted extra) {l : Link} (hl : l ∈ s.links.rows) {id : SourceId}
    (hsrc : (s.source id).isSome) (hne : id ≠ l.sourceId) {n : ℕ} (hextra : extra id = n + 1) :
    (s.repoint l.id id).Counted
      (Function.update (Function.update extra l.sourceId (extra l.sourceId + 1)) id n) where
  source_of_link l' hl' := by
    obtain ⟨l₀, hl₀, rfl⟩ := mem_repoint.1 hl'
    split
    · exact hsrc
    · exact hs.source_of_link l₀ hl₀
  count_eq {id'} src hsrc' := by
    have hcount := hs.count_eq hsrc'
    have hrefs := s.refs_repoint id' hl id
    rw [Function.update_apply, Function.update_apply]
    by_cases h₁ : id' = id
    · subst h₁
      rw [if_neg (Ne.symm hne), if_pos rfl] at hrefs
      rw [if_pos rfl]
      omega
    · rw [if_neg (Ne.symm h₁)] at hrefs
      rw [if_neg h₁]
      by_cases h₂ : id' = l.sourceId
      · subst h₂
        rw [if_pos rfl] at hrefs ⊢
        omega
      · rw [if_neg (Ne.symm h₂)] at hrefs
        rw [if_neg h₂]
        omega
  count_pos hsrc' := hs.count_pos hsrc'
  unique_names := hs.unique_names.repoint l.id id

/-- Setting the row of a source, with a positive count that exceeds the number of
    its links by `n`. -/
theorem setSource (hs : s.Counted extra) {src : Source} (hsrc : (s.source src.id).isSome) {n : ℕ}
    (hpos : 1 ≤ src.count) (hcount : src.count = s.refs src.id + n) :
    (s.setSource src).Counted (Function.update extra src.id n) where
  source_of_link l hl := by
    rw [source_setSource hsrc]
    split
    · rfl
    · exact hs.source_of_link l hl
  count_eq {id} r hr := by
    rw [source_setSource hsrc] at hr
    rw [refs_setSource, Function.update_apply]
    by_cases hid : id = src.id
    · rw [if_pos hid] at hr ⊢
      cases hr
      rw [hid, hcount]
    · rw [if_neg hid] at hr ⊢
      exact hs.count_eq hr
  count_pos {id} r hr := by
    rw [source_setSource hsrc] at hr
    split at hr
    · cases hr
      exact hpos
    · exact hs.count_pos hr
  unique_names := hs.unique_names

/-- Erasing a source without links; what it counted does not matter any more. -/
theorem eraseSource (hs : s.Counted extra) {id : SourceId} (h : s.refs id = 0) (n : ℕ) :
    (s.eraseSource id).Counted (Function.update extra id n) where
  source_of_link l hl := by
    have hne : l.sourceId ≠ id := fun hid =>
      List.countP_eq_zero.1 h l hl (decide_eq_true hid)
    rw [source_eraseSource, if_neg hne]
    exact hs.source_of_link l hl
  count_eq {id'} src hsrc := by
    rw [source_eraseSource] at hsrc
    by_cases hid : id' = id
    · rw [if_pos hid] at hsrc
      cases hsrc
    · rw [if_neg hid] at hsrc
      rw [Function.update_of_ne hid]
      exact hs.count_eq hsrc
  count_pos {id'} src hsrc := by
    rw [source_eraseSource] at hsrc
    split at hsrc
    · cases hsrc
    · exact hs.count_pos hsrc
  unique_names := hs.unique_names

/-- Releasing a source that counts one link more than it has. -/
theorem release (hs : s.Counted extra) {src : Source} (hsrc : s.source src.id = some src) {n : ℕ}
    (hextra : extra src.id = n + 1) :
    (s.release src).Counted (Function.update extra src.id n) := by
  have hcount := hs.count_eq hsrc
  rw [Store.release]
  split
  · next hgt =>
    have hsome : (s.source src.id).isSome := by rw [hsrc]; rfl
    exact setSource hs (show (s.source (src.withCount (src.count - 1)).id).isSome from hsome)
      (show 1 ≤ src.count - 1 by omega) (show src.count - 1 = s.refs src.id + n by omega)
  · have hpos := hs.count_pos hsrc
    have hrefs : s.refs src.id = 0 := by omega
    have hs' : (s.eraseFile src.id.sourcePath).Counted extra := hs.congr rfl rfl
    exact hs'.eraseSource hrefs n

end Counted

/-! ## Soundness -/

namespace Sound

variable {extra : SourceId → ℕ} {s : Store}

theorem exists_file (hs : s.Sound extra) {id : SourceId} {src : Source}
    (h : s.source id = some src) : ∃ bytes, s.file id.sourcePath = some bytes :=
  Option.isSome_iff_exists.1 ((hs.files _).2 ⟨id, by rw [h]; rfl, rfl⟩)

/-- A path that is no payload has no file. -/
theorem file_eq_none (hs : s.Sound extra) {p : Path}
    (h : ∀ id, (s.source id).isSome → p ≠ id.sourcePath) : s.file p = none := by
  by_contra hp
  obtain ⟨id, hid, hpath⟩ := (hs.files p).1 (Option.isSome_iff_ne_none.2 hp)
  exact h id hid hpath

theorem file_sourcePath_eq_none (hs : s.Sound extra) {id : SourceId} (h : s.source id = none) :
    s.file id.sourcePath = none := by
  refine hs.file_eq_none fun id' hid' hpath => ?_
  rw [← SourceId.sourcePath_inj.1 hpath, h] at hid'
  cases hid'

theorem file_tombstonePath (hs : s.Sound extra) (id : SourceId) : s.file id.tombstonePath = none :=
  hs.file_eq_none fun id' _ => (SourceId.sourcePath_ne_tombstonePath id' id).symm

theorem file_tmpPath (hs : s.Sound extra) (id : SourceId) (tmpId : String) :
    s.file (id.tmpPath tmpId) = none :=
  hs.file_eq_none fun id' _ => (SourceId.sourcePath_ne_tmpPath id' id tmpId).symm

/-- Updating rows, with the same identifiers of sources, keeps the files right. -/
theorem of_counted {s' : Store} {extra' : SourceId → ℕ} (hs : s.Sound extra)
    (hs' : s'.Counted extra') (hfile : ∀ p, (s'.file p).isSome = (s.file p).isSome)
    (hsource : ∀ id, (s'.source id).isSome = (s.source id).isSome) : s'.Sound extra' where
  toCounted := hs'
  files p := by simp only [hfile, hsource, hs.files]

theorem addSource (hs : s.Sound extra) {id : SourceId} (h : s.source id = none) (c : Stored) :
    (s.addSource id c).Sound (Function.update extra id 1) where
  toCounted := by
    have hs' : (s.setFile id.sourcePath c.bytes).Counted extra := hs.toCounted.congr rfl rfl
    exact hs'.insertSource h c
  files p := by
    simp only [source_addSource h, file_addSource]
    constructor
    · intro hp
      split at hp
      · next heq => exact ⟨id, by rw [if_pos rfl]; rfl, heq⟩
      · obtain ⟨id', hid', rfl⟩ := (hs.files p).1 hp
        refine ⟨id', ?_, rfl⟩
        split
        · rfl
        · exact hid'
    · rintro ⟨id', hid', rfl⟩
      simp only [SourceId.sourcePath_inj]
      split_ifs at hid' ⊢ with heq
      · rfl
      · exact (hs.files _).2 ⟨id', hid', rfl⟩

theorem release (hs : s.Sound extra) {src : Source} (hsrc : s.source src.id = some src) {n : ℕ}
    (hextra : extra src.id = n + 1) : (s.release src).Sound (Function.update extra src.id n) := by
  have hcounted := hs.toCounted.release hsrc hextra
  rw [Store.release] at hcounted ⊢
  split_ifs at hcounted ⊢
  · refine hs.of_counted hcounted (fun p => rfl) fun id => ?_
    rw [source_setSource (by rw [Source.id_withCount, hsrc]; rfl)]
    split
    · next heq => rw [show id = src.id from heq, hsrc]; rfl
    · rfl
  · refine ⟨hcounted, fun p => ?_⟩
    simp only [file_eraseSource, file_eraseFile, source_eraseSource, source_eraseFile]
    constructor
    · intro hp
      split at hp
      · cases hp
      · next hne =>
        obtain ⟨id, hid, rfl⟩ := (hs.files p).1 hp
        refine ⟨id, ?_, rfl⟩
        rwa [if_neg fun heq => hne (by rw [heq])]
    · rintro ⟨id, hid, rfl⟩
      simp only [SourceId.sourcePath_inj]
      split_ifs at hid ⊢
      · cases hid
      · exact (hs.files _).2 ⟨id, hid, rfl⟩

theorem eraseLink (hs : s.Sound extra) {l : Link} (hl : l ∈ s.links.rows) :
    (s.eraseLink l.id).Sound (Function.update extra l.sourceId (extra l.sourceId + 1)) :=
  hs.of_counted (hs.toCounted.eraseLink hl) (fun _ => rfl) fun _ => rfl

/-- Deleting a link. -/
theorem delete (hs : s.Sound extra) {l : Link} (hl : l ∈ s.links.rows) :
    (s.delete l).Sound extra := by
  obtain ⟨src, hsrc⟩ := hs.exists_source hl
  have hid := id_of_source hsrc
  have hs' := hs.eraseLink hl
  have hsrc' : (s.eraseLink l.id).source src.id = some src := by rw [hid]; exact hsrc
  have h := hs'.release hsrc' (n := extra l.sourceId) (by rw [hid, Function.update_self])
  rw [hid, Function.update_idem, Function.update_eq_self] at h
  rwa [delete_eq hsrc]

/-- Making a link point to a new source. -/
theorem redirect (hs : s.Sound extra) {l : Link} {src : Source} {id : SourceId}
    (hl : l ∈ s.links.rows) (hsrc : s.source l.sourceId = some src) (hfresh : s.source id = none)
    (c : Stored) :
    ((s.addSource id c).repoint l.id id).Sound
      (Function.update (Function.update extra id 0) l.sourceId (extra l.sourceId + 1)) := by
  have hne : id ≠ l.sourceId := fun heq => by rw [heq, hsrc] at hfresh; cases hfresh
  have hadd := hs.addSource hfresh c
  have hsome : ((s.addSource id c).source id).isSome := by
    rw [source_addSource hfresh, if_pos rfl]; rfl
  have h := hadd.toCounted.repoint (l := l) (n := 0) hl hsome hne (Function.update_self ..)
  rw [Function.update_of_ne hne.symm, Function.update_comm hne.symm, Function.update_idem] at h
  exact hadd.of_counted h (fun _ => rfl) fun _ => rfl

/-- Making a link point to a new source and releasing the one it pointed to. -/
theorem replace (hs : s.Sound extra) {l : Link} {src : Source} {id : SourceId}
    (hl : l ∈ s.links.rows) (hsrc : s.source l.sourceId = some src) (hfresh : s.source id = none)
    (c : Stored) :
    (((s.addSource id c).repoint l.id id).release src).Sound (Function.update extra id 0) := by
  have hne : id ≠ l.sourceId := fun heq => by rw [heq, hsrc] at hfresh; cases hfresh
  have hid := id_of_source hsrc
  have hsrc' : ((s.addSource id c).repoint l.id id).source src.id = some src := by
    rw [source_repoint, source_addSource hfresh, hid, if_neg hne.symm, hsrc]
  have h := (hs.redirect hl hsrc hfresh c).release hsrc' (n := extra l.sourceId) (by
    rw [hid, Function.update_self])
  -- what the two sources count beyond their links is as it was
  rw [hid, Function.update_idem, ← Function.update_of_ne hne.symm 0 extra,
    Function.update_eq_self] at h
  exact h

/-- Writing over the payload of a source, and rewriting its row but for the count. -/
theorem overwrite (hs : s.Sound extra) {id : SourceId} {src : Source}
    (hsrc : s.source id = some src) (c : Stored) :
    ((s.setFile id.sourcePath c.bytes).setSource (c.row id src.count)).Sound extra := by
  have hs' : (s.setFile id.sourcePath c.bytes).Sound extra :=
    hs.of_counted (hs.toCounted.congr rfl rfl) (fun p => by
      rw [file_setFile]
      split
      · next heq => rw [heq, (hs.files _).2 ⟨id, by rw [hsrc]; rfl, rfl⟩]; rfl
      · rfl) fun _ => rfl
  have hsome : ((s.setFile id.sourcePath c.bytes).source (c.row id src.count).id).isSome := by
    rw [source_setFile]
    exact Option.isSome_iff_exists.2 ⟨src, hsrc⟩
  have h := hs'.toCounted.setSource (n := extra id) hsome
    (show 1 ≤ src.count from hs.count_pos hsrc)
    (show src.count = s.refs id + extra id from hs.count_eq hsrc)
  rw [show (c.row id src.count).id = id from rfl, Function.update_eq_self] at h
  refine hs'.of_counted h (fun _ => rfl) fun id' => ?_
  rw [source_setSource hsome]
  split
  · next heq => rw [heq, hsome]; rfl
  · rfl

/-- A new link to a source, counted. -/
theorem share (hs : s.Sound extra) {l : Link} {src : Source} (hfresh : s.links.find? l.id = none)
    (hname : s.linkNamed l.name = none) (hsrc : s.source l.sourceId = some src) :
    ((s.insertLink l).setSource (src.withCount (src.count + 1))).Sound extra := by
  have hid : (src.withCount (src.count + 1)).id = l.sourceId := by
    rw [Source.id_withCount, id_of_source hsrc]
  have hsome : (s.source (src.withCount (src.count + 1)).id).isSome := by rw [hid, hsrc]; rfl
  have hcount := hs.count_eq hsrc
  -- the two updates commute, and counted first, the link is one the source has room for
  have hset := hs.toCounted.setSource (n := extra l.sourceId + 1) hsome
    (show 1 ≤ src.count + 1 by omega)
    (show src.count + 1 = s.refs _ + (extra l.sourceId + 1) by rw [hid]; omega)
  have hsome' : ((s.setSource (src.withCount (src.count + 1))).source l.sourceId).isSome := by
    rw [source_setSource hsome, if_pos hid.symm]; rfl
  have h := hset.insertLink (l := l) (n := extra l.sourceId) hfresh hname hsome' (by
    rw [hid, Function.update_self])
  rw [hid, Function.update_idem, Function.update_eq_self] at h
  refine hs.of_counted h (fun _ => rfl) fun id' => ?_
  change ((s.setSource (src.withCount (src.count + 1))).source id').isSome = _
  rw [source_setSource hsome]
  split
  · next heq => rw [heq, hsome]; rfl
  · rfl

/-- A new source with a new link to it. -/
theorem create (hs : s.Sound extra) {l : Link} (hfresh : s.links.find? l.id = none)
    (hname : s.linkNamed l.name = none) (hsrc : s.source l.sourceId = none) (c : Stored) :
    ((s.addSource l.sourceId c).insertLink l).Sound (Function.update extra l.sourceId 0) := by
  have hadd := hs.addSource hsrc c
  have hsome : ((s.addSource l.sourceId c).source l.sourceId).isSome := by
    rw [source_addSource hsrc, if_pos rfl]; rfl
  have h := hadd.toCounted.insertLink (l := l) (n := 0) hfresh hname hsome (Function.update_self ..)
  rw [Function.update_idem] at h
  exact hadd.of_counted h (fun _ => rfl) fun _ => rfl

end Sound

end Store

end LiNaStore
