import LiNaStore.Base.View

/-!
# States that are the same

Two states are the *same* when they have the same rows, in whatever order, and
the same files except for temporary ones (`Store.Same`). This is what a failed
operation can restore: a row that was deleted and inserted again is now the
last one, and a temporary file may stay.

Every update and every query respects sameness (`Same.insertSource`,
`Same.refs`, ...), so that compensations can be followed up to sameness. A state
differing in one temporary file only (`Store.SameExcept`) is the same.
-/

namespace LiNaStore

/-- The path is that of a temporary file. -/
def IsTmp (p : Path) : Prop :=
  ∃ dir name, p = dir ++ [.str name] ∧ ".tmp-".toList <:+: name.toList

theorem isTmp_tmpPath (id : SourceId) (tmpId : String) : IsTmp (id.tmpPath tmpId) := by
  refine ⟨id.sourceDir, id.val ++ (".tmp-" ++ tmpId), rfl, id.val.toList, tmpId.toList, ?_⟩
  rw [String.toList_append, String.toList_append, List.append_assoc]

theorem SourceId.not_mem_dot (id : SourceId) : '.' ∉ id.val.toList := fun h =>
  absurd (id.alphanum_val _ h) (by decide)

/-- A dot is followed by the same in two texts with no other dots before it. -/
theorem dropWhile_dot {a b : List Char} (h : '.' ∉ a) :
    (a ++ '.' :: b).dropWhile (· ≠ '.') = '.' :: b := by
  rw [List.dropWhile_append_of_pos fun c hc => ?_]
  · simp
  · have : c ≠ '.' := fun hc' => h (hc' ▸ hc)
    simpa using this

/-- The tombstone of a payload is not temporary: its only dot is followed by the
    letter d. -/
theorem not_infix_tombstone (id : SourceId) :
    ¬".tmp-".toList <:+: (id.val ++ ".deleting").toList := by
  rintro ⟨xs, ys, h⟩
  rw [String.toList_append] at h
  have hd : (id.val.toList ++ ".deleting".toList).count '.' = 1 := by
    rw [List.count_append, List.count_eq_zero_of_not_mem id.not_mem_dot]
    decide
  have hx : '.' ∉ xs := by
    rw [← h, List.count_append, List.count_append, show ".tmp-".toList.count '.' = 1 by decide] at hd
    exact List.count_eq_zero.1 (by omega)
  have h₁ := dropWhile_dot (b := "tmp-".toList ++ ys) hx
  have h₂ := dropWhile_dot (b := "deleting".toList) id.not_mem_dot
  rw [show xs ++ '.' :: ("tmp-".toList ++ ys) = xs ++ ".tmp-".toList ++ ys by
      rw [show ".tmp-".toList = '.' :: "tmp-".toList by decide]; simp, h,
    show ".deleting".toList = '.' :: "deleting".toList by decide, h₂] at h₁
  have := congrArg (·.take 2) h₁
  simp only [show "tmp-".toList = 't' :: "mp-".toList by decide,
    show "deleting".toList = 'd' :: "eleting".toList by decide, List.cons_append, List.take_succ_cons,
    List.take_zero] at this
  exact absurd this (by decide)

namespace Store

/-- The states have the same rows and the same files that are not temporary. -/
structure Same (s s' : Store) : Prop where
  link : ∀ id, s'.links.find? id = s.links.find? id
  source : ∀ id, s'.source id = s.source id
  dirs : s'.dirs = s.dirs
  file : ∀ p, ¬IsTmp p → s'.file p = s.file p

/-- The states differ in one file at most. -/
structure SameExcept (p : Path) (s s' : Store) : Prop where
  links : s'.links = s.links
  sources : s'.sources = s.sources
  dirs : s'.dirs = s.dirs
  file : ∀ q ≠ p, s'.file q = s.file q

variable {s s' s'' : Store}

theorem SameExcept.refl (p : Path) (s : Store) : s.SameExcept p s := ⟨rfl, rfl, rfl, fun _ _ => rfl⟩

theorem SameExcept.same {p : Path} (hp : IsTmp p) (h : s.SameExcept p s') : s.Same s' where
  link id := by rw [h.links]
  source id := by rw [Store.source, h.sources]; rfl
  dirs := h.dirs
  file q hq := h.file q fun heq => hq (heq ▸ hp)

namespace Same

theorem refl (s : Store) : s.Same s := ⟨fun _ => rfl, fun _ => rfl, rfl, fun _ _ => rfl⟩

theorem trans (h : s.Same s') (h' : s'.Same s'') : s.Same s'' where
  link id := (h'.link id).trans (h.link id)
  source id := (h'.source id).trans (h.source id)
  dirs := h'.dirs.trans h.dirs
  file p hp := (h'.file p hp).trans (h.file p hp)

theorem mem_links (h : s.Same s') {l : Link} : l ∈ s'.links.rows ↔ l ∈ s.links.rows := by
  constructor
  · intro hl
    have := Table.find?_key hl
    rw [h.link] at this
    exact Table.mem_of_find? this
  · intro hl
    have := Table.find?_key hl
    rw [← h.link] at this
    exact Table.mem_of_find? this

/-- The links of the two states are the same up to their order. -/
theorem links_perm (h : s.Same s') : s'.links.rows.Perm s.links.rows :=
  (List.perm_ext_iff_of_nodup (List.Nodup.of_map _ s'.links.nodup_keys)
    (List.Nodup.of_map _ s.links.nodup_keys)).2 fun _ => h.mem_links

theorem refs (h : s.Same s') (id : SourceId) : s'.refs id = s.refs id :=
  h.links_perm.countP_eq _

theorem insertLink (h : s.Same s') {l : Link} (hl : s.links.find? l.id = none) :
    (s.insertLink l).Same (s'.insertLink l) where
  link id := by
    rw [insertLink_links, insertLink_links, Table.find?_insert hl,
      Table.find?_insert ((h.link _).trans hl), h.link]
  source := h.source
  dirs := h.dirs
  file := h.file

theorem repoint (h : s.Same s') (linkId : String) (id : SourceId) :
    (s.repoint linkId id).Same (s'.repoint linkId id) where
  link id := by
    rw [repoint_links, repoint_links, Table.find?_update, Table.find?_update, h.link]
  source := h.source
  dirs := h.dirs
  file := h.file

theorem eraseSource (h : s.Same s') (id : SourceId) :
    (s.eraseSource id).Same (s'.eraseSource id) where
  link := h.link
  source id' := by rw [source_eraseSource, source_eraseSource, h.source]
  dirs := h.dirs
  file := h.file

theorem eraseFile (h : s.Same s') (p : Path) : (s.eraseFile p).Same (s'.eraseFile p) where
  link := h.link
  source := h.source
  dirs := h.dirs
  file q hq := by rw [file_eraseFile, file_eraseFile, h.file q hq]

end Same

end Store

end LiNaStore
