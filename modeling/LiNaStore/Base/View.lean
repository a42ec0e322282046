import LiNaStore.Base.Service

/-!
# What is read from a store

A read follows a name to its link, the link to its source and the source to its
payload. `Store.read` is that path as a function of the state, and the program
`getBinaryData` computes it and checks what it finds (`run_getBinaryData`).

The rest says how each update of a state changes what is found: the link with a
name (`linkNamed_insertLink`, `linkNamed_eraseLink`, `linkNamed_repoint`), the
row of a source (`source_insertSource`, `source_setSource`, `source_eraseSource`)
and hence what a source is read as (`readSource_congr`).
-/

namespace LiNaStore

open Program

namespace Store

/-- The row of a source. -/
def source (s : Store) (id : SourceId) : Option Source := s.sources.find? id

/-- The link with a name; the oldest, if there are several. -/
def linkNamed (s : Store) (name : String) : Option Link := (s.linksNamed name).head?

/-- What a source is read as. -/
def readSource (s : Store) (id : SourceId) : Except StoreError Stored :=
  match s.source id with
  | none => .error .fileNotFound
  | some src => match s.file id.sourcePath with
    | none => .error .noSuchFile
    | some bytes => .ok (src.stored bytes)

/-- What a name is read as. -/
def read (s : Store) (name : String) : Except StoreError Stored :=
  match s.linkNamed name with
  | none => .error .fileNotFound
  | some l => s.readSource l.sourceId

/-- The content with a name. -/
def get (E : Engine) (s : Store) (name : String) : Except StoreError Bytes :=
  if name = "" then .error .noFilename else s.read name >>= E.verify

variable {s s' : Store}

theorem id_of_source {id : SourceId} {src : Source} (h : s.source id = some src) : src.id = id :=
  Table.key_of_find? h

theorem mem_of_source {id : SourceId} {src : Source} (h : s.source id = some src) :
    src ∈ s.sources.rows :=
  Table.mem_of_find? h

theorem source_of_mem {src : Source} (h : src ∈ s.sources.rows) : s.source src.id = some src :=
  Table.find?_key h

theorem mem_linksNamed {name : String} {l : Link} :
    l ∈ s.linksNamed name ↔ l ∈ s.links.rows ∧ l.name = name := by
  simp [linksNamed]

theorem mem_of_linkNamed {name : String} {l : Link} (h : s.linkNamed name = some l) :
    l ∈ s.links.rows ∧ l.name = name :=
  mem_linksNamed.1 (List.mem_of_mem_head? h)

theorem linkNamed_eq_none_iff {name : String} :
    s.linkNamed name = none ↔ ∀ l ∈ s.links.rows, l.name ≠ name := by
  rw [linkNamed, List.head?_eq_none_iff, List.eq_nil_iff_forall_not_mem]
  simp only [mem_linksNamed, not_and, ne_eq]

/-- A source is read alike in two states with the same row, up to the number of
    links, and the same payload. -/
theorem readSource_congr {id : SourceId} (hfile : s'.file id.sourcePath = s.file id.sourcePath)
    (hsrc : (s'.source id).map (fun src => src.stored []) =
      (s.source id).map fun src => src.stored []) :
    s'.readSource id = s.readSource id := by
  rw [readSource, readSource, hfile]
  cases h : s.source id with
  | none =>
    rw [h, Option.map_none, Option.map_eq_none_iff] at hsrc
    rw [hsrc]
  | some src =>
    rw [h, Option.map_some, Option.map_eq_some_iff] at hsrc
    obtain ⟨src', h', heq⟩ := hsrc
    simp only [Source.stored, Stored.mk.injEq] at heq
    rw [h']
    cases s.file id.sourcePath with
    | none => rfl
    | some bytes => simp only [Source.stored, heq]

theorem readSource_eq_ok {id : SourceId} {src : Source} {bytes : Bytes}
    (hsrc : s.source id = some src) (hfile : s.file id.sourcePath = some bytes) :
    s.readSource id = .ok (src.stored bytes) := by
  rw [readSource, hsrc, hfile]

theorem read_of_linkNamed {name : String} {l : Link} (h : s.linkNamed name = some l) :
    s.read name = s.readSource l.sourceId := by
  rw [read, h]

theorem read_of_linkNamed_eq_none {name : String} (h : s.linkNamed name = none) :
    s.read name = .error .fileNotFound := by
  rw [read, h]

/-- A name is read alike in two states where it links to the same source and that
    source is read alike. -/
theorem read_congr {name : String}
    (hlink : (s'.linkNamed name).map Link.sourceId = (s.linkNamed name).map Link.sourceId)
    (hsrc : ∀ l, s.linkNamed name = some l → s'.readSource l.sourceId = s.readSource l.sourceId) :
    s'.read name = s.read name := by
  cases h : s.linkNamed name with
  | none =>
    rw [h, Option.map_none, Option.map_eq_none_iff] at hlink
    rw [read_of_linkNamed_eq_none h, read_of_linkNamed_eq_none hlink]
  | some l =>
    rw [h, Option.map_some, Option.map_eq_some_iff] at hlink
    obtain ⟨l', h', hid⟩ := hlink
    rw [read_of_linkNamed h, read_of_linkNamed h', hid, hsrc l h]

/-! ## Links -/

theorem linksNamed_insertLink {l : Link} (h : s.links.find? l.id = none) (name : String) :
    (s.insertLink l).linksNamed name =
      s.linksNamed name ++ if l.name = name then [l] else [] := by
  simp only [linksNamed, insertLink_links, Table.rows_insert h, List.filter_append,
    List.filter_singleton, Bool.cond_decide]

/-- A new link is the one with its name if there was none. -/
theorem linkNamed_insertLink {l : Link} (h : s.links.find? l.id = none)
    (hname : s.linkNamed l.name = none) (name : String) :
    (s.insertLink l).linkNamed name = if name = l.name then some l else s.linkNamed name := by
  rw [linkNamed, linksNamed_insertLink h]
  split
  · next heq =>
    subst heq
    rw [if_pos rfl, List.head?_eq_none_iff.1 hname]
    rfl
  · next hne => rw [if_neg (Ne.symm hne), List.append_nil, linkNamed]

/-- The names of two links are different if the links are. -/
def UniqueNames (s : Store) : Prop :=
  ∀ l ∈ s.links.rows, ∀ l' ∈ s.links.rows, l.name = l'.name → l = l'

theorem UniqueNames.linkNamed (hs : s.UniqueNames) {l : Link} (h : l ∈ s.links.rows) :
    s.linkNamed l.name = some l := by
  cases h' : s.linkNamed l.name with
  | none => exact absurd rfl (linkNamed_eq_none_iff.1 h' l h)
  | some l' =>
    obtain ⟨hmem, hname⟩ := mem_of_linkNamed h'
    rw [hs l' hmem l h hname]

theorem linkNamed_eraseLink (hs : s.UniqueNames) {l : Link} (h : l ∈ s.links.rows) (name : String) :
    (s.eraseLink l.id).linkNamed name = if name = l.name then none else s.linkNamed name := by
  split
  · next heq =>
    rw [linkNamed_eq_none_iff]
    intro l' hl' hname
    obtain ⟨hmem, hne⟩ := Table.mem_erase.1 hl'
    exact hne (congrArg Link.id (hs l' hmem l h (hname.trans heq)))
  · next hne =>
    rw [linkNamed, linkNamed, linksNamed, linksNamed, eraseLink_links, Table.erase, List.filter_filter]
    congr 1
    refine List.filter_congr fun l' hl' => ?_
    by_cases hname : l'.name = name
    · have hid : l'.id ≠ l.id := fun hid =>
        hne (by rw [← hname, s.links.eq_of_key_eq hl' h hid])
      simp [hname, hid]
    · simp [hname]

theorem linkNamed_repoint (linkId : String) (id : SourceId) (name : String) :
    (s.repoint linkId id).linkNamed name =
      (s.linkNamed name).map fun l => if l.id = linkId then { l with sourceId := id } else l := by
  rw [linkNamed, linkNamed, linksNamed, linksNamed, repoint_links, Table.update, List.filter_map,
    List.head?_map]
  simp only [decide_eq_true_eq]
  congr 2
  refine List.filter_congr fun l _ => ?_
  rw [Function.comp_apply]
  split <;> rfl

@[simp] theorem linkNamed_setFile (p : Path) (bytes : Bytes) (name : String) :
    (s.setFile p bytes).linkNamed name = s.linkNamed name := rfl

@[simp] theorem linkNamed_eraseFile (p : Path) (name : String) :
    (s.eraseFile p).linkNamed name = s.linkNamed name := rfl

@[simp] theorem linkNamed_insertSource (src : Source) (name : String) :
    (s.insertSource src).linkNamed name = s.linkNamed name := rfl

@[simp] theorem linkNamed_setSource (src : Source) (name : String) :
    (s.setSource src).linkNamed name = s.linkNamed name := rfl

@[simp] theorem linkNamed_eraseSource (id : SourceId) (name : String) :
    (s.eraseSource id).linkNamed name = s.linkNamed name := rfl

/-! ## Sources -/

theorem source_insertSource (src : Source) (h : s.source src.id = none) (id : SourceId) :
    (s.insertSource src).source id = if id = src.id then some src else s.source id :=
  Table.find?_insert h id

theorem source_setSource {src : Source} (h : (s.source src.id).isSome) (id : SourceId) :
    (s.setSource src).source id = if id = src.id then some src else s.source id := by
  rw [source, setSource_sources, Table.find?_update]
  obtain ⟨r, hr⟩ := Option.isSome_iff_exists.1 h
  split
  · next heq =>
    subst heq
    rw [show s.sources.find? src.id = some r from hr, Option.map_some]
    simp [id_of_source hr]
  · next hne =>
    rw [source]
    cases hid : s.sources.find? id with
    | none => rfl
    | some r' => simp [show r'.id ≠ src.id from (id_of_source hid) ▸ hne]

theorem source_eraseSource (id' id : SourceId) :
    (s.eraseSource id').source id = if id = id' then none else s.source id :=
  Table.find?_erase _ _ _

@[simp] theorem source_setFile (p : Path) (bytes : Bytes) (id : SourceId) :
    (s.setFile p bytes).source id = s.source id := rfl

@[simp] theorem source_eraseFile (p : Path) (id : SourceId) :
    (s.eraseFile p).source id = s.source id := rfl

@[simp] theorem source_insertLink (l : Link) (id : SourceId) :
    (s.insertLink l).source id = s.source id := rfl

@[simp] theorem source_eraseLink (linkId : String) (id : SourceId) :
    (s.eraseLink linkId).source id = s.source id := rfl

@[simp] theorem source_repoint (linkId : String) (id' id : SourceId) :
    (s.repoint linkId id').source id = s.source id := rfl

end Store

/-! ## The programs -/

namespace StoreManager

theorem run_readStored (fileName : String) (s : Store) :
    (readStored fileName).run Prim.step s = (s.read fileName, s) := by
  rw [readStored, run_bind, run_perform, Prim.step, Store.read, Store.linkNamed]
  cases s.linksNamed fileName with
  | nil => rfl
  | cons link _ =>
    simp only [List.head?_cons, run_bind, run_perform, Prim.step, Store.readSource]
    cases h : s.sources.find? link.sourceId with
    | none => simp only [Store.source, h, run_fail]
    | some src =>
      have hid : src.id = link.sourceId := Table.key_of_find? h
      simp only [Store.source, h, run_bind, run_perform, Prim.step, hid]
      cases s.file link.sourceId.sourcePath <;> rfl

/-- Reading is what `Store.get` says, and leaves the state as it is. -/
theorem run_getBinaryData (E : Engine) (fileName : String) (s : Store) :
    (getBinaryData E fileName).run Prim.step s = (s.get E fileName, s) := by
  rw [getBinaryData, Store.get]
  split
  · rfl
  · rw [run_bind, run_readStored]
    cases s.read fileName <;> rfl

end StoreManager

end LiNaStore
