import LiNaStore.Base.Run

/-!
# One source for a content

A content that is written under a new name goes to the source that has its hash, if there
is one. A write to a name that is there does not look for such a source: it makes a new one,
or writes over the one of the name. So a content may come to be in two sources in the same
form.

A call keeps the sources different if and only if it is not such a write
(`Call.Deduplicates`), and so do the runs of such calls (`sources_distinct`).
-/

namespace LiNaStore

open StoreManager

/-! ## Forms -/

/-- No value is there twice. -/
def Unshared {ι φ : Type} (g : ι → Option φ) : Prop := ∀ i j f, g i = some f → g j = some f → i = j

namespace Unshared

variable {ι φ : Type} {g g' : ι → Option φ} {k : ι} {f : φ}

/-- With fewer values no value is there twice. -/
theorem mono (h : Unshared g) (hle : ∀ i f, g' i = some f → g i = some f) : Unshared g' :=
  fun i j f hi hj => h i j f (hle i f hi) (hle j f hj)

/-- One place gets a value, and the others keep theirs or lose it: the value must not be at
    another place. -/
theorem update_iff (h : Unshared g) (hk : g' k = some f)
    (hle : ∀ i, i ≠ k → ∀ f, g' i = some f → g i = some f) :
    Unshared g' ↔ ∀ i, i ≠ k → g' i ≠ some f := by
  constructor
  · exact fun h' i hi hf => hi (h' i k f hf hk)
  · intro hne i j f' hi hj
    by_cases hik : i = k
    · by_cases hjk : j = k
      · rw [hik, hjk]
      · rw [hik, hk] at hi
        exact absurd (hj.trans hi.symm) (hne j hjk)
    · by_cases hjk : j = k
      · rw [hjk, hk] at hj
        exact absurd (hi.trans hj.symm) (hne i hik)
      · exact h i j f' (hle i hik f' hi) (hle j hjk f' hj)

end Unshared

namespace Store

/-- The hash of a source and whether it is compressed. -/
def form (s : Store) (id : SourceId) : Option (String × Bool) :=
  (s.source id).map fun src => (src.hash256, src.compressed)

variable {s : Store} {extra : SourceId → ℕ}

theorem form_eq_some {id : SourceId} {f : String × Bool} : s.form id = some f ↔
    ∃ src, s.source id = some src ∧ (src.hash256, src.compressed) = f :=
  Option.map_eq_some_iff

/-- No two rows have one hash and one way of storing if and only if no form is there twice. -/
theorem unshared_form_iff : Unshared s.form ↔
    ∀ src ∈ s.sources.rows, ∀ src' ∈ s.sources.rows, src.hash256 = src'.hash256 →
      src.compressed = src'.compressed → src = src' := by
  constructor
  · intro h src hsrc src' hsrc' hhash hcompressed
    refine s.sources.eq_of_key_eq hsrc hsrc' (h src.id src'.id (src.hash256, src.compressed) ?_ ?_)
    · exact form_eq_some.2 ⟨src, source_of_mem hsrc, rfl⟩
    · exact form_eq_some.2 ⟨src', source_of_mem hsrc', by rw [hhash, hcompressed]⟩
  · intro h id id' f hid hid'
    obtain ⟨src, hsrc, hf⟩ := form_eq_some.1 hid
    obtain ⟨src', hsrc', hf'⟩ := form_eq_some.1 hid'
    obtain ⟨hhash, hcompressed⟩ := Prod.mk.inj (hf.trans hf'.symm)
    have heq := h src (mem_of_source hsrc) src' (mem_of_source hsrc') hhash hcompressed
    rw [← id_of_source hsrc, heq, id_of_source hsrc']

theorem form_setSource_withCount {src : Source} (h : s.source src.id = some src) (n : ℕ)
    (id : SourceId) : (s.setSource (src.withCount n)).form id = s.form id := by
  rw [form, source_setSource (by rw [Source.id_withCount, h]; rfl), Source.id_withCount, form]
  split
  · next hid => rw [hid, h]; rfl
  · rfl

theorem form_release {src : Source} (h : s.source src.id = some src) (id : SourceId) :
    (s.release src).form id = if id = src.id ∧ ¬ 1 < src.count then none else s.form id := by
  rw [release]
  by_cases hcount : 1 < src.count
  · rw [if_pos hcount, if_neg fun h => h.2 hcount]
    exact form_setSource_withCount h _ id
  · rw [if_neg hcount, form, source_eraseSource]
    by_cases hid : id = src.id
    · rw [if_pos hid, if_pos ⟨hid, hcount⟩]
      rfl
    · rw [if_neg hid, if_neg fun h => hid h.1]
      rfl

theorem form_addSource {id : SourceId} (h : s.source id = none) (c : Stored) (id' : SourceId) :
    (s.addSource id c).form id' =
      if id' = id then some (c.hash256, c.compressed) else s.form id' := by
  rw [form, source_addSource h]
  split <;> rfl

/-- A link made to point to a new source, the one it pointed to being released. -/
theorem form_replace {l : Link} {src : Source} {new : SourceId} (hfresh : s.source new = none)
    (hsrc : s.source l.sourceId = some src) (c : Stored) (id : SourceId) :
    (((s.addSource new c).repoint l.id new).release src).form id =
      if id = l.sourceId ∧ ¬ 1 < src.count then none
      else if id = new then some (c.hash256, c.compressed) else s.form id := by
  have hid := id_of_source hsrc
  have hne : l.sourceId ≠ new := fun h => by rw [h, hfresh] at hsrc; cases hsrc
  have hsrc' : ((s.addSource new c).repoint l.id new).source src.id = some src := by
    rw [hid]
    exact (source_addSource hfresh c l.sourceId).trans (by rw [if_neg hne, hsrc])
  rw [form_release hsrc', hid]
  exact if_congr Iff.rfl rfl (form_addSource hfresh c id)

theorem form_overwrite {id : SourceId} {src : Source} (h : s.source id = some src) (c : Stored)
    (n : ℕ) (id' : SourceId) :
    ((s.setFile id.sourcePath c.bytes).setSource (c.row id n)).form id' =
      if id' = id then some (c.hash256, c.compressed) else s.form id' := by
  have hsome : ((s.setFile id.sourcePath c.bytes).source (c.row id n).id).isSome :=
    Option.isSome_iff_exists.2 ⟨src, h⟩
  rw [form, source_setSource hsome]
  change Option.map _ (if id' = id then _ else _) = _
  split <;> rfl

/-- Deleting a link adds no form. -/
theorem form_delete_le (l : Link) {id : SourceId} {f : String × Bool}
    (h : (s.delete l).form id = some f) : s.form id = some f := by
  cases hsrc : s.source l.sourceId with
  | none => rwa [delete, hsrc] at h
  | some src =>
    have hsrc' : (s.eraseLink l.id).source src.id = some src := by
      rw [id_of_source hsrc]
      exact hsrc
    rw [delete_eq hsrc, form_release hsrc'] at h
    split_ifs at h
    exact h

theorem form_deleteAll_le {links : List Link} {id : SourceId} {f : String × Bool}
    (h : (s.deleteAll links).form id = some f) : s.form id = some f := by
  induction links generalizing s with
  | nil => exact h
  | cons l links ih => exact form_delete_le l (ih h)

end Store

/-! ## Calls -/

/-- A write to a name that is there is not of a content that a source has in the same form,
    unless that is the source of the name, and no other name shares it if the write covers. -/
def Call.Deduplicates (E : Engine) (s : Store) : Call → Prop
  | put _ fileName input cover compressed => fileName ≠ "" →
      ∀ l, s.linkNamed fileName = some l →
      ∀ src ∈ s.sources.rows, src.hash256 = E.hash256 input → src.compressed = compressed →
        src.id = l.sourceId ∧ (cover = true → src.count = 1)
  | delete .. => True
  | setFileMode .. => True

namespace StoreManager.PutEffect

variable {E : Engine} {s s' : Store} {extra : SourceId → ℕ} {d : Draws} {fileName ext : String}
  {cover : Bool} {c : Stored}

/-- The only source with the form of `c` is that of the link, and it has one link if the
    write covers. -/
def Alone (s : Store) (cover : Bool) (c : Stored) (l : Link) : Prop :=
  ∀ id src, s.source id = some src → src.hash256 = c.hash256 → src.compressed = c.compressed →
    id = l.sourceId ∧ (cover = true → src.count = 1)

theorem form_of_source {id : SourceId} {src : Source} (h : s.source id = some src)
    (hhash : src.hash256 = c.hash256) (hcompressed : src.compressed = c.compressed) :
    s.form id = some (c.hash256, c.compressed) :=
  Store.form_eq_some.2 ⟨src, h, by rw [hhash, hcompressed]⟩

theorem unshared_replace_iff (hs : s.Sound extra) (hfresh : s.source d.sourceId = none)
    (hu : Unshared s.form) {l : Link} {src : Source} (hsrc : s.source l.sourceId = some src)
    (hcond : if cover then src.count > 1
      else ¬(c.hash256 = src.hash256 ∧ src.compressed = c.compressed)) :
    Unshared (((s.addSource d.sourceId c).repoint l.id d.sourceId).release src).form ↔
      Alone s cover c l := by
  have hform := Store.form_replace hfresh hsrc c
  have hne : d.sourceId ≠ l.sourceId := fun h => by rw [h, hsrc] at hfresh; cases hfresh
  rw [hu.update_iff (k := d.sourceId) (f := (c.hash256, c.compressed))]
  · constructor
    · intro hother id src' hsrc' hhash hcompressed
      have hf := form_of_source hsrc' hhash hcompressed
      have hid : id ≠ d.sourceId := fun h => by rw [h, hfresh] at hsrc'; cases hsrc'
      -- another source with the form can only be the one that is gone
      by_cases hgone : id = l.sourceId ∧ ¬ 1 < src.count
      · have hpos := hs.count_pos hsrc
        rw [hgone.1, hsrc] at hsrc'
        cases hsrc'
        exact ⟨hgone.1, fun _ => by omega⟩
      · have hkept := hother id hid
        rw [hform, if_neg hgone, if_neg hid] at hkept
        exact absurd hf hkept
    · intro halone id hid hf
      rw [hform, if_neg hid] at hf
      split_ifs at hf with hgone
      obtain ⟨src', hsrc', hf⟩ := Store.form_eq_some.1 hf
      obtain ⟨hhash, hcompressed⟩ := Prod.mk.inj hf
      obtain ⟨rfl, hcount⟩ := halone id src' hsrc' hhash hcompressed
      rw [hsrc] at hsrc'
      cases hsrc'
      split_ifs at hcond with hcover
      · exact absurd (hcount hcover) (Nat.ne_of_gt hcond)
      · exact hcond ⟨hhash.symm, hcompressed⟩
  · rw [hform, if_neg fun h => hne h.1, if_pos rfl]
  · intro id hid f hf
    rw [hform, if_neg hid] at hf
    split_ifs at hf
    exact hf

theorem unshared_overwrite_iff (hu : Unshared s.form) {l : Link} {src : Source}
    (hsrc : s.source l.sourceId = some src) (hone : src.count = 1) :
    Unshared ((s.setFile l.sourceId.sourcePath c.bytes).setSource
      (c.row l.sourceId src.count)).form ↔ Alone s cover c l := by
  have hform := Store.form_overwrite hsrc c src.count
  rw [hu.update_iff (k := l.sourceId) (f := (c.hash256, c.compressed))]
  · constructor
    · intro hother id src' hsrc' hhash hcompressed
      by_cases hid : id = l.sourceId
      · rw [hid, hsrc] at hsrc'
        cases hsrc'
        exact ⟨hid, fun _ => hone⟩
      · have hkept := hother id hid
        rw [hform, if_neg hid] at hkept
        exact absurd (form_of_source hsrc' hhash hcompressed) hkept
    · intro halone id hid hf
      rw [hform, if_neg hid] at hf
      obtain ⟨src', hsrc', hf⟩ := Store.form_eq_some.1 hf
      obtain ⟨hhash, hcompressed⟩ := Prod.mk.inj hf
      exact hid (halone id src' hsrc' hhash hcompressed).1
  · rw [hform, if_pos rfl]
  · intro id hid f hf
    rwa [hform, if_neg hid] at hf

/-- A write keeps the forms different if and only if it is under a new name, or no source
    that stays has the form of its content. -/
theorem unshared_iff (h : PutEffect s d fileName ext cover c s') (hs : s.Sound extra)
    (hfresh : d.Fresh s) (hu : Unshared s.form) :
    Unshared s'.form ↔ ∀ l, s.linkNamed fileName = some l → Alone s cover c l := by
  have hfound {l : Link} (hl : s.linkNamed fileName = some l) :
      (∀ l, s.linkNamed fileName = some l → Alone s cover c l) ↔ Alone s cover c l := by
    rw [hl]
    exact ⟨fun h => h l rfl, fun h l' hl' => Option.some.inj hl' ▸ h⟩
  cases h with
  | replace hl hsrc hcond =>
    rw [hfound hl]
    exact unshared_replace_iff hs hfresh.sourceId hu hsrc hcond
  | overwrite hl hsrc hcover hone =>
    rw [hfound hl]
    exact unshared_overwrite_iff hu hsrc hone
  | @keep l src hl hsrc hcover hhash hcompressed =>
    rw [hfound hl]
    refine iff_of_true hu fun id src' hsrc' hhash' hcompressed' => ⟨?_, fun h => ?_⟩
    · exact hu id l.sourceId _ (form_of_source hsrc' hhash' hcompressed')
        (form_of_source hsrc hhash.symm hcompressed)
    · rw [hcover] at h
      cases h
  | @share src hl hsrc =>
    refine iff_of_true ?_ fun l hl' => by rw [hl] at hl'; cases hl'
    have hsrc' := (source_of_find? hsrc).1
    exact hu.mono fun id f hf => (Store.form_setSource_withCount hsrc' _ id).symm.trans hf
  | create hl hnew =>
    refine iff_of_true ?_ fun l hl' => by rw [hl] at hl'; cases hl'
    have hform := Store.form_addSource hfresh.sourceId c
    have hkept {id : SourceId} (hid : id ≠ d.sourceId) :
        s.form id = (s.addSource d.sourceId c).form id := ((hform id).trans (if_neg hid)).symm
    refine (hu.update_iff (k := d.sourceId) (f := (c.hash256, c.compressed))
      ((hform d.sourceId).trans (if_pos rfl)) fun id hid f hf => (hkept hid).trans hf).2 ?_
    -- no source has the hash
    intro id hid hf
    obtain ⟨src, hsrc, hf⟩ := Store.form_eq_some.1 ((hkept hid).trans hf)
    have hhash := List.find?_eq_none.1 hnew src (Store.mem_of_source hsrc)
    exact hhash (decide_eq_true (Prod.mk.inj hf).1)

end StoreManager.PutEffect

/-- A call keeps the forms different if and only if it is not a write of a content that
    would be stored again. -/
theorem Call.Effect.unshared_iff {E : Engine} {s s' : Store} {c : Call} {extra : SourceId → ℕ}
    (h : c.Effect E s s') (hs : s.Sound extra) (hu : Unshared s.form) :
    Unshared s'.form ↔ c.Deduplicates E s := by
  cases h with
  | @refused c hc =>
    refine iff_of_true hu ?_
    cases c with
    | put d fileName input cover compressed =>
      rw [refusal] at hc
      split_ifs at hc with hname
      · exact fun hne => absurd hname hne
      · cases hc
    | delete => trivial
    | setFileMode => trivial
  | put hname hfresh heff =>
    rw [heff.unshared_iff hs hfresh hu]
    constructor
    · intro halone _ l hl src hsrc
      exact halone l hl src.id src (Store.source_of_mem hsrc)
    · intro hdedup l hl id src hsrc hhash hcompressed
      obtain rfl := Store.id_of_source hsrc
      exact hdedup hname l hl src (Store.mem_of_source hsrc) hhash hcompressed
  | delete _ => exact iff_of_true (hu.mono fun _ _ => Store.form_deleteAll_le) trivial
  | setFileMode => exact iff_of_true hu trivial

/-! ## Runs -/

/-- The states of the runs of calls that satisfy `P`. -/
inductive RunWhen (E : Engine) (P : Store → Call → Prop) : Store → Prop
  /-- The run has not begun. -/
  | empty : RunWhen E P .empty
  /-- The run goes on with a call. -/
  | call {s : Store} (c : Call) : RunWhen E P s → c.Fresh s → P s c →
      RunWhen E P ((c.program E).run Prim.step s).2

theorem RunWhen.reachable {E : Engine} {P : Store → Call → Prop} {s : Store}
    (h : RunWhen E P s) : Reachable E Set.univ s := by
  induction h with
  | empty => exact .empty
  | call c _ hfresh _ ih =>
    refine .call c ih hfresh ?_
    cases c <;> trivial

theorem RunWhen.unshared {E : Engine} {s : Store}
    (h : RunWhen E (fun s c => c.Deduplicates E s) s) : Unshared s.form := by
  induction h with
  | empty => exact fun i j f hi => by cases hi
  | call c hrun hfresh hdedup ih =>
    have hs := hrun.reachable.sound
    exact ((c.run_effect E hs hfresh).2.2.unshared_iff hs ih).2 hdedup

/-- In a run without writes of contents that would be stored again, no two sources have the
    same hash and the same way of storing; and such a write, and no other call, would make
    two of them. -/
theorem sources_distinct {E : Engine} {s : Store}
    (h : RunWhen E (fun s c => c.Deduplicates E s) s) :
    (∀ src ∈ s.sources.rows, ∀ src' ∈ s.sources.rows, src.hash256 = src'.hash256 →
      src.compressed = src'.compressed → src = src') ∧
    ∀ c : Call, c.Fresh s →
      ((∀ src ∈ ((c.program E).run Prim.step s).2.sources.rows,
        ∀ src' ∈ ((c.program E).run Prim.step s).2.sources.rows, src.hash256 = src'.hash256 →
          src.compressed = src'.compressed → src = src') ↔ c.Deduplicates E s) := by
  have hs := h.reachable.sound
  refine ⟨Store.unshared_form_iff.1 h.unshared, fun c hfresh => ?_⟩
  rw [← Store.unshared_form_iff]
  exact (c.run_effect E hs hfresh).2.2.unshared_iff hs h.unshared

/-- A content under two names. -/
theorem sources_distinct_shared :
    ∃ s, RunWhen .plain (fun s c => c.Deduplicates .plain s) s ∧ s.links.rows.length = 2 ∧
      s.sources.rows.length = 1 ∧
      ∀ src ∈ s.sources.rows, ∀ src' ∈ s.sources.rows, src.hash256 = src'.hash256 →
        src.compressed = src'.compressed → src = src' := by
  have h : RunWhen .plain (fun s c => c.Deduplicates .plain s) _ :=
    .call (.put (.sample 1) "b" [1] false false)
      (.call (.put (.sample 0) "a" [1] false false) .empty ⟨rfl, rfl⟩ fun _ _ h => by cases h)
      ⟨rfl, rfl⟩ fun _ _ h => by cases h
  exact ⟨_, h, by decide, by decide, (sources_distinct h).1⟩

/-- A name is given the content of another one: the content is stored again. -/
theorem sources_repeated :
    ∃ s, Reachable .plain Set.univ s ∧ ∃ src ∈ s.sources.rows, ∃ src' ∈ s.sources.rows,
      src.hash256 = src'.hash256 ∧ src.compressed = src'.compressed ∧ src ≠ src' := by
  have h : Reachable .plain Set.univ _ :=
    .call (.put (.sample 2) "b" [1] false false)
      (.call (.put (.sample 1) "b" [2] false false)
        (.call (.put (.sample 0) "a" [1] false false) .empty ⟨rfl, rfl⟩ trivial) ⟨rfl, rfl⟩ trivial)
      ⟨rfl, rfl⟩ trivial
  exact ⟨_, h, ⟨(Draws.sample 0).sourceId, Engine.plain.hash256 [1], false, 1, 1⟩, by decide,
    ⟨(Draws.sample 2).sourceId, Engine.plain.hash256 [1], false, 1, 1⟩, by decide, rfl, rfl,
    by decide⟩

end LiNaStore
