import LiNaStore.Base.Contents
import LiNaStore.Base.Recovery

/-!
# Parts of a store

A store falls into parts: some of its sources, with the links to them and with their files
(`Store.only`). An update about these sources does to the part what it does to the store, and an
update about others does nothing to it.

A part is sound if its sources are counted and have their files (`Store.sound_only_iff`), whatever
the others do; and a name is read in a part as it is in the store, if its links are
(`Store.contents_only`).
-/

namespace LiNaStore

open Store

/-- A path is that of a file of one source at most. -/
theorem SourceId.Owns.unique {id id' : SourceId} {p : Path} (h : id.Owns p) (h' : id'.Owns p) :
    id = id' := by
  obtain ⟨suffix, rfl⟩ := h.eq_pathWith
  obtain ⟨suffix', heq⟩ := h'.eq_pathWith
  exact (pathWith_inj.1 heq).1

/-! ## Some sources of a store -/

namespace Store

open scoped Classical

/-- The part of a store that is about some sources: the links to them, their rows and their
    files. -/
noncomputable def only (s : Store) (S : Set SourceId) : Store where
  links := s.links.filter fun l => l.sourceId ∈ S
  sources := s.sources.filter fun src => src.id ∈ S
  dirs := s.dirs
  files := s.files.filter fun f => ∃ id ∈ S, id.Owns f.path

variable {s : Store} {S : Set SourceId}

theorem mem_links_only {l : Link} :
    l ∈ (s.only S).links.rows ↔ l ∈ s.links.rows ∧ l.sourceId ∈ S := by
  change l ∈ s.links.rows.filter _ ↔ _
  rw [List.mem_filter, decide_eq_true_iff]

theorem mem_sources_only {src : Source} :
    src ∈ (s.only S).sources.rows ↔ src ∈ s.sources.rows ∧ src.id ∈ S := by
  change src ∈ s.sources.rows.filter _ ↔ _
  rw [List.mem_filter, decide_eq_true_iff]

theorem source_only {id : SourceId} (h : id ∈ S) : (s.only S).source id = s.source id := by
  rw [source, only, Table.find?_filter, source]
  cases hsrc : s.sources.find? id with
  | none => rfl
  | some src =>
    rw [Option.filter_some, if_pos]
    rw [decide_eq_true_iff, Table.key_of_find? hsrc]
    exact h

theorem source_only_of_notMem {id : SourceId} (h : id ∉ S) : (s.only S).source id = none := by
  rw [source, Table.find?_eq_none_iff]
  rintro src hsrc rfl
  exact h (mem_sources_only.1 hsrc).2

theorem file_only {id : SourceId} (h : id ∈ S) {p : Path} (hp : id.Owns p) :
    (s.only S).file p = s.file p := by
  rw [file, only, Table.find?_filter, file]
  cases hfile : s.files.find? p with
  | none => rfl
  | some f =>
    rw [Option.filter_some, if_pos]
    rw [decide_eq_true_iff, Table.key_of_find? hfile]
    exact ⟨id, h, hp⟩

theorem file_only_of_not {p : Path} (h : ¬∃ id ∈ S, id.Owns p) : (s.only S).file p = none := by
  rw [file, only, Table.find?_filter]
  cases hfile : s.files.find? p with
  | none => rfl
  | some f =>
    rw [Option.filter_some, if_neg]
    · rfl
    · rw [decide_eq_true_iff, Table.key_of_find? hfile]
      exact h

theorem refs_only {id : SourceId} (h : id ∈ S) : (s.only S).refs id = s.refs id := by
  rw [refs, only, Table.filter, List.countP_filter, refs]
  refine List.countP_congr fun l _ => ?_
  simp only [Bool.and_eq_true, decide_eq_true_eq, and_iff_left_iff_imp]
  exact fun hl => hl ▸ h

/-- A query for links, if all that it finds are to the sources. -/
theorem filter_links_only {p : Link → Bool}
    (h : ∀ l ∈ s.links.rows, p l = true → l.sourceId ∈ S) :
    (s.only S).links.rows.filter p = s.links.rows.filter p := by
  rw [only, Table.filter, List.filter_filter]
  refine List.filter_congr fun l hl => ?_
  rw [Bool.and_eq_left_iff_imp]
  exact fun hp => decide_eq_true (h l hl hp)

theorem linksNamed_only {name : String}
    (h : ∀ l ∈ s.links.rows, l.name = name → l.sourceId ∈ S) :
    (s.only S).linksNamed name = s.linksNamed name :=
  filter_links_only fun l hl hname => h l hl (of_decide_eq_true hname)

/-- A query for a source, if all that it may find are among the sources. -/
theorem find?_sources_only {p : Source → Bool}
    (h : ∀ src ∈ s.sources.rows, p src = true → src.id ∈ S) :
    (s.only S).sources.rows.find? p = s.sources.rows.find? p := by
  change (s.sources.rows.filter _).find? p = _
  rw [List.find?_filter]
  refine List.find?_congr fun src hsrc => ?_
  rw [Bool.eq_iff_iff, decide_eq_true_iff]
  exact and_iff_right_of_imp fun hp => decide_eq_true (h src hsrc hp)

/-- A link with a drawn identifier is among those to the sources, or there is none. -/
theorem find?_links_only {id : String}
    (h : ∀ l ∈ s.links.rows, l.id = id → l.sourceId ∈ S) :
    (s.only S).links.find? id = s.links.find? id := by
  rw [only, Table.find?_filter]
  cases hl : s.links.find? id with
  | none => rfl
  | some l =>
    rw [Option.filter_some, if_pos]
    rw [decide_eq_true_iff]
    exact h l (Table.mem_of_find? hl) (Table.key_of_find? hl)

/-! ### What holds of a part -/

/-- The links to some sources are to sources that are there, which count them; the names of these
    links are different; and the files of these sources are their payloads. -/
structure SoundOn (s : Store) (S : Set SourceId) : Prop where
  source_of_link : ∀ l ∈ s.links.rows, l.sourceId ∈ S → (s.source l.sourceId).isSome
  count_eq : ∀ {id src}, id ∈ S → s.source id = some src → src.count = s.refs id
  count_pos : ∀ {id src}, id ∈ S → s.source id = some src → 1 ≤ src.count
  unique_names : ∀ l ∈ s.links.rows, ∀ l' ∈ s.links.rows, l.sourceId ∈ S → l'.sourceId ∈ S →
    l.name = l'.name → l = l'
  files : ∀ {id p}, id ∈ S → id.Owns p →
    ((s.file p).isSome ↔ (s.source id).isSome ∧ p = id.sourcePath)

namespace SoundOn

variable {T : Set SourceId}

theorem mono (hs : s.SoundOn S) (h : T ⊆ S) : s.SoundOn T where
  source_of_link l hl hid := hs.source_of_link l hl (h hid)
  count_eq hid := hs.count_eq (h hid)
  count_pos hid := hs.count_pos (h hid)
  unique_names l hl l' hl' hid hid' := hs.unique_names l hl l' hl' (h hid) (h hid')
  files hid := hs.files (h hid)

/-- Two parts together are sound if no name is in both. -/
theorem union (hs : s.SoundOn S) (ht : s.SoundOn T)
    (h : ∀ l ∈ s.links.rows, ∀ l' ∈ s.links.rows, l.name = l'.name →
      (l.sourceId ∈ S ↔ l'.sourceId ∈ S)) : s.SoundOn (S ∪ T) where
  source_of_link l hl := Or.rec (hs.source_of_link l hl) (ht.source_of_link l hl)
  count_eq := Or.rec hs.count_eq ht.count_eq
  count_pos := Or.rec hs.count_pos ht.count_pos
  unique_names l hl l' hl' hid hid' hname := by
    by_cases hS : l.sourceId ∈ S
    · exact hs.unique_names l hl l' hl' hS ((h l hl l' hl' hname).1 hS) hname
    · have hS' := (not_congr (h l hl l' hl' hname)).1 hS
      exact ht.unique_names l hl l' hl' (hid.resolve_left hS) (hid'.resolve_left hS') hname
  files := Or.rec hs.files ht.files

end SoundOn

theorem isSome_source_only {id : SourceId} :
    ((s.only S).source id).isSome ↔ id ∈ S ∧ (s.source id).isSome := by
  by_cases hid : id ∈ S
  · rw [source_only hid, and_iff_right hid]
  · rw [source_only_of_notMem hid]
    exact iff_of_false Bool.false_ne_true fun h => hid h.1

theorem sound_only_iff : (s.only S).Sound 0 ↔ s.SoundOn S := by
  have hsource {id : SourceId} {src : Source} :
      (s.only S).source id = some src ↔ id ∈ S ∧ s.source id = some src := by
    by_cases hid : id ∈ S
    · rw [source_only hid, and_iff_right hid]
    · rw [source_only_of_notMem hid]
      exact iff_of_false nofun fun h => hid h.1
  constructor
  · intro hs
    refine ⟨fun l hl hid => ?_, fun hid hsrc => ?_, fun hid hsrc => ?_, ?_, fun hid hp => ?_⟩
    · exact (isSome_source_only.1 (hs.source_of_link l (mem_links_only.2 ⟨hl, hid⟩))).2
    · rw [hs.count_eq (hsource.2 ⟨hid, hsrc⟩), refs_only hid]
      rfl
    · exact hs.count_pos (hsource.2 ⟨hid, hsrc⟩)
    · exact fun l hl l' hl' hid hid' =>
        hs.unique_names l (mem_links_only.2 ⟨hl, hid⟩) l' (mem_links_only.2 ⟨hl', hid'⟩)
    · rw [← file_only hid hp, hs.files]
      constructor
      · rintro ⟨id', hid', rfl⟩
        obtain rfl := hp.unique .payload
        exact ⟨(isSome_source_only.1 hid').2, rfl⟩
      · rintro ⟨hsome, rfl⟩
        exact ⟨_, isSome_source_only.2 ⟨hid, hsome⟩, rfl⟩
  · intro hs
    refine ⟨⟨fun l hl => ?_, fun hsrc => ?_, fun hsrc => ?_, fun l hl l' hl' => ?_⟩, fun p => ?_⟩
    · obtain ⟨hl, hid⟩ := mem_links_only.1 hl
      exact isSome_source_only.2 ⟨hid, hs.source_of_link l hl hid⟩
    · obtain ⟨hid, hsrc⟩ := hsource.1 hsrc
      rw [hs.count_eq hid hsrc, refs_only hid]
      rfl
    · obtain ⟨hid, hsrc⟩ := hsource.1 hsrc
      exact hs.count_pos hid hsrc
    · obtain ⟨hl, hid⟩ := mem_links_only.1 hl
      obtain ⟨hl', hid'⟩ := mem_links_only.1 hl'
      exact hs.unique_names l hl l' hl' hid hid'
    · by_cases hp : ∃ id ∈ S, id.Owns p
      · obtain ⟨id, hid, hp⟩ := hp
        rw [file_only hid hp, hs.files hid hp]
        constructor
        · rintro ⟨hsome, rfl⟩
          exact ⟨id, isSome_source_only.2 ⟨hid, hsome⟩, rfl⟩
        · rintro ⟨id', hid', rfl⟩
          obtain rfl := hp.unique .payload
          exact ⟨(isSome_source_only.1 hid').2, rfl⟩
      · rw [file_only_of_not hp]
        refine iff_of_false Bool.false_ne_true ?_
        rintro ⟨id, hid, rfl⟩
        exact hp ⟨id, (isSome_source_only.1 hid).1, .payload⟩

theorem readSource_only {id : SourceId} (h : id ∈ S) :
    (s.only S).readSource id = s.readSource id :=
  readSource_congr (file_only h .payload) (by rw [source_only h])

/-- Every source of a part is read as a content of `D`. -/
theorem intact_only_iff {E : Engine} {D : Set Bytes} :
    (s.only S).Intact E D ↔
      ∀ id ∈ S, ∀ st, s.readSource id = .ok st → ∃ content ∈ D, E.verify st = .ok content := by
  constructor
  · intro h id hid st hst
    exact h id st ((readSource_only hid).trans hst)
  · intro h id st hst
    by_cases hid : id ∈ S
    · exact h id hid st ((readSource_only hid).symm.trans hst)
    · rw [readSource, source_only_of_notMem hid] at hst
      cases hst

theorem contents_only (E : Engine) {name : String}
    (h : ∀ l ∈ s.links.rows, l.name = name → l.sourceId ∈ S) :
    (s.only S).contents E name = s.contents E name := by
  have hlink : (s.only S).linkNamed name = s.linkNamed name := by
    rw [linkNamed, linksNamed_only h, linkNamed]
  refine congrArg Except.toOption (get_congr (read_congr (by rw [hlink]) fun l hl => ?_))
  exact readSource_only (h l (mem_of_linkNamed hl).1 (mem_of_linkNamed hl).2)

/-! ### What an update does to a part -/

section Links

variable {l : Link} {id : String}

theorem only_insertLink (hnew : s.links.find? l.id = none) (h : l.sourceId ∈ S) :
    (s.insertLink l).only S = (s.only S).insertLink l :=
  congrArg (fun links => { s.only S with links })
    (Table.filter_insert (p := fun l => l.sourceId ∈ S) hnew (decide_eq_true h))

theorem only_insertLink_of_notMem (hnew : s.links.find? l.id = none) (h : l.sourceId ∉ S) :
    (s.insertLink l).only S = s.only S :=
  congrArg (fun links => { s.only S with links })
    (Table.filter_insert_of_not (p := fun l => l.sourceId ∈ S) hnew (mt of_decide_eq_true h))

theorem only_eraseLink : (s.eraseLink id).only S = (s.only S).eraseLink id :=
  congrArg (fun links => { s.only S with links }) (Table.filter_erase ..)

theorem only_eraseLink_of_notMem (h : ∀ l ∈ s.links.rows, l.id = id → l.sourceId ∉ S) :
    (s.eraseLink id).only S = s.only S :=
  congrArg (fun links => { s.only S with links })
    (Table.filter_erase_of_not (p := fun l => l.sourceId ∈ S) fun l hl hid =>
      mt of_decide_eq_true (h l hl hid))

theorem only_repoint {new : SourceId} (h : ∀ l ∈ s.links.rows, l.id = id → l.sourceId ∈ S)
    (hnew : new ∈ S) : (s.repoint id new).only S = (s.only S).repoint id new := by
  refine congrArg (fun links => { s.only S with links })
    (Table.filter_update (p := fun l => l.sourceId ∈ S) fun l hl hid => ?_)
  rw [decide_eq_true hnew, decide_eq_true (h l hl (of_decide_eq_true hid))]

theorem only_repoint_of_notMem {new : SourceId}
    (h : ∀ l ∈ s.links.rows, l.id = id → l.sourceId ∉ S) (hnew : new ∉ S) :
    (s.repoint id new).only S = s.only S := by
  rw [only, repoint_links, Table.filter_update_of_not]
  · rfl
  · intro l hl hid
    exact ⟨mt of_decide_eq_true (h l hl (of_decide_eq_true hid)), mt of_decide_eq_true hnew⟩

theorem only_setMode {name : String} {mode : UInt32} :
    (s.setMode name mode).only S = (s.only S).setMode name mode := by
  refine congrArg (fun links => { s.only S with links })
    (Table.filter_update (p := fun l => l.sourceId ∈ S) fun _ _ _ => ?_)
  rfl

theorem only_setMode_of_notMem {name : String} {mode : UInt32}
    (h : ∀ l ∈ s.links.rows, l.name = name → l.sourceId ∉ S) :
    (s.setMode name mode).only S = s.only S := by
  rw [only, setMode_links, Table.filter_update_of_not]
  · rfl
  · intro l hl hname
    have hnot := mt of_decide_eq_true (h l hl (of_decide_eq_true hname))
    exact ⟨hnot, hnot⟩

end Links

section Sources

variable {src : Source} {id : SourceId}

theorem only_insertSource (hnew : s.source src.id = none) (h : src.id ∈ S) :
    (s.insertSource src).only S = (s.only S).insertSource src :=
  congrArg (fun sources => { s.only S with sources })
    (Table.filter_insert (p := fun src => src.id ∈ S) hnew (decide_eq_true h))

theorem only_insertSource_of_notMem (hnew : s.source src.id = none) (h : src.id ∉ S) :
    (s.insertSource src).only S = s.only S :=
  congrArg (fun sources => { s.only S with sources })
    (Table.filter_insert_of_not (p := fun src => src.id ∈ S) hnew (mt of_decide_eq_true h))

theorem eq_or_mem_of_mem_setSource {src' : Source} (h : src' ∈ (s.setSource src).sources.rows) :
    src' = src ∨ src' ∈ s.sources.rows := by
  simp only [setSource_sources, Table.mem_update, decide_eq_true_eq] at h
  obtain ⟨src₀, hsrc₀, rfl⟩ := h
  split
  · next hid => exact .inl (by rw [hid])
  · exact .inr hsrc₀

theorem only_setSource : (s.setSource src).only S = (s.only S).setSource src := by
  refine congrArg (fun sources => { s.only S with sources })
    (Table.filter_update (p := fun src => src.id ∈ S) fun r _ hid => ?_)
  rw [of_decide_eq_true hid]

theorem only_setSource_of_notMem (h : src.id ∉ S) : (s.setSource src).only S = s.only S := by
  rw [only, setSource_sources, Table.filter_update_of_not]
  · rfl
  · intro r _ hid
    have hnot : ¬decide (r.id ∈ S) = true := mt of_decide_eq_true (of_decide_eq_true hid ▸ h)
    exact ⟨hnot, hnot⟩

theorem only_eraseSource : (s.eraseSource id).only S = (s.only S).eraseSource id :=
  congrArg (fun sources => { s.only S with sources }) (Table.filter_erase ..)

theorem only_eraseSource_of_notMem (h : id ∉ S) : (s.eraseSource id).only S = s.only S :=
  congrArg (fun sources => { s.only S with sources })
    (Table.filter_erase_of_not (p := fun src => src.id ∈ S) fun _ _ hid =>
      mt of_decide_eq_true (hid ▸ h))

end Sources

section Files

variable {p : Path} {bytes : Bytes}

theorem only_setFile (h : ∃ id ∈ S, id.Owns p) :
    (s.setFile p bytes).only S = (s.only S).setFile p bytes :=
  congrArg (fun files => { s.only S with files })
    (Table.filter_set (p := fun path => ∃ id ∈ S, id.Owns path) (r := (⟨p, bytes⟩ : File))
      (decide_eq_true h))

theorem only_setFile_of_not (h : ¬∃ id ∈ S, id.Owns p) :
    (s.setFile p bytes).only S = s.only S :=
  congrArg (fun files => { s.only S with files })
    (Table.filter_set_of_not (p := fun path => ∃ id ∈ S, id.Owns path) (r := (⟨p, bytes⟩ : File))
      (mt of_decide_eq_true h))

theorem only_appendFile : (s.appendFile p bytes).only S = (s.only S).appendFile p bytes := by
  refine congrArg (fun files => { s.only S with files })
    (Table.filter_update (p := fun f => ∃ id ∈ S, id.Owns f.path) fun _ _ _ => ?_)
  rfl

theorem only_appendFile_of_not (h : ¬∃ id ∈ S, id.Owns p) :
    (s.appendFile p bytes).only S = s.only S := by
  rw [only, appendFile_files, Table.filter_update_of_not]
  · rfl
  · intro f _ hp
    have hnot : ¬decide (∃ id ∈ S, id.Owns f.path) = true :=
      mt of_decide_eq_true (of_decide_eq_true hp ▸ h)
    exact ⟨hnot, hnot⟩

theorem only_eraseFile : (s.eraseFile p).only S = (s.only S).eraseFile p :=
  congrArg (fun files => { s.only S with files }) (Table.filter_erase ..)

theorem only_eraseFile_of_not (h : ¬∃ id ∈ S, id.Owns p) :
    (s.eraseFile p).only S = s.only S :=
  congrArg (fun files => { s.only S with files })
    (Table.filter_erase_of_not (p := fun f => ∃ id ∈ S, id.Owns f.path) fun _ _ hp =>
      mt of_decide_eq_true (hp ▸ h))

end Files

end Store

end LiNaStore
