import LiNaStore.Base.Contents

/-!
# The form that a covering write leaves

A content can be stored as it is or compressed. A covering write to a name that has a link stores
the content in the form it is asked for: over the source of the link, or in a source of its own. A
covering write to a new name does so only if no source has the hash of the content. Otherwise the
name is linked to such a source, whatever its form (`StoreManager.PutEffect.read_cover`); so the
form that was asked for is what the name has if and only if it is that of the source
(`cover_form_iff`).

In a run, all that sources are read as are contents in one of the two forms
(`Reachable.exists_pack`), and a content is told by its hash.
-/

namespace LiNaStore

open StoreManager

variable {E : Engine} {D : Set Bytes} {s s' : Store}

/-- What a source is read as is a content of `D`, packed. -/
theorem Reachable.exists_pack (h : Reachable E D s) {id : SourceId} {st : Stored}
    (hst : s.readSource id = .ok st) : ∃ content ∈ D, st = E.pack st.compressed content :=
  h.allRead (P := fun st => ∃ content ∈ D, st = E.pack st.compressed content)
    (fun _ input hinput => ⟨input, hinput, rfl⟩) id st hst

/-- A source with the hash of a content of `D` is read as that content, in the form of the
    source. -/
theorem Reachable.readSource_of_hash (hD : Set.InjOn E.hash256 D) (h : Reachable E D s)
    {input : Bytes} (hinput : input ∈ D) {src : Source} (hsrc : s.source src.id = some src)
    (hhash : src.hash256 = E.hash256 input) :
    s.readSource src.id = .ok (E.pack src.compressed input) := by
  obtain ⟨bytes, hbytes⟩ := h.sound.exists_file hsrc
  have hread := Store.readSource_eq_ok hsrc hbytes
  obtain ⟨content, hcontent, hpack⟩ := h.exists_pack hread
  have heq : content = input :=
    hD hcontent hinput ((congrArg Stored.hash256 hpack).symm.trans hhash)
  rw [hread, hpack, heq]
  rfl

/-- The form that a covering write gives a name: the one it is asked for, or that of the first
    source with the hash of the content if the name is new. -/
def Store.coveredForm (s : Store) (fileName hash256 : String) (compressed : Bool) : Bool :=
  if (s.linkNamed fileName).isSome then compressed
  else ((s.sources.rows.find? (·.hash256 = hash256)).map Source.compressed).getD compressed

theorem Store.coveredForm_of_link {fileName hash256 : String} {compressed : Bool} {l : Link}
    (hl : s.linkNamed fileName = some l) :
    s.coveredForm fileName hash256 compressed = compressed := by
  rw [Store.coveredForm, hl]
  rfl

theorem Store.coveredForm_of_new {fileName hash256 : String} {compressed : Bool}
    {found : Option Source} (hl : s.linkNamed fileName = none)
    (hfind : s.sources.rows.find? (·.hash256 = hash256) = found) :
    s.coveredForm fileName hash256 compressed = (found.map Source.compressed).getD compressed := by
  rw [Store.coveredForm, hl, hfind]
  rfl

/-- After a covering write, the name has the content in the form `Store.coveredForm`. -/
theorem StoreManager.PutEffect.read_cover (hD : Set.InjOn E.hash256 D) (hs : Reachable E D s)
    {d : Draws} (hfresh : d.Fresh s) {fileName ext : String} {input : Bytes} (hinput : input ∈ D)
    {compressed : Bool} (h : PutEffect s d fileName ext true (E.pack compressed input) s') :
    s'.read fileName =
      .ok (E.pack (s.coveredForm fileName (E.hash256 input) compressed) input) := by
  cases h with
  | replace hl hsrc _ =>
    rw [Store.coveredForm_of_link hl]
    exact read_replace hfresh hl hsrc
  | overwrite hl hsrc _ _ =>
    rw [Store.coveredForm_of_link hl]
    exact read_overwrite hl hsrc
  | keep _ _ hcover => cases hcover
  | @share src hl hfind =>
    obtain ⟨hsrc, hhash⟩ := source_of_find? hfind
    have hform : s.coveredForm fileName (E.hash256 input) compressed = src.compressed :=
      Store.coveredForm_of_new hl hfind
    rw [hform, ← hs.readSource_of_hash hD hinput hsrc hhash]
    exact read_share hfresh hl hsrc
  | create hl hfind =>
    have hform : s.coveredForm fileName (E.hash256 input) compressed = compressed :=
      Store.coveredForm_of_new hl hfind
    rw [hform]
    exact read_create hfresh hl

theorem Store.coveredForm_eq_iff {fileName hash256 : String} {compressed : Bool} :
    s.coveredForm fileName hash256 compressed = compressed ↔
      s.Linked fileName ∨ ∀ src, s.sources.rows.find? (·.hash256 = hash256) = some src →
        src.compressed = compressed := by
  rw [Store.coveredForm, Store.linked_iff]
  split_ifs with hlinked
  · exact iff_of_true rfl (.inl hlinked)
  · rw [or_iff_right hlinked]
    cases s.sources.rows.find? fun src => src.hash256 = hash256 with
    | none => exact iff_of_true rfl nofun
    | some src => exact ⟨fun h _ heq => Option.some.inj heq ▸ h, fun h => h src rfl⟩

/-- The name has a source with the given form and size, and the payload is the content in that
    form. -/
def Store.HasForm (E : Engine) (s : Store) (fileName : String) (input : Bytes)
    (compressed : Bool) : Prop :=
  ∃ l src bytes, s.linkNamed fileName = some l ∧ s.source l.sourceId = some src ∧
    s.file l.sourceId.sourcePath = some bytes ∧ src.compressed = compressed ∧
    src.size = input.length ∧ (if compressed then E.compressAll input else .ok input) = .ok bytes

/-- A name that is read as a content in some form has the content in that form only. -/
theorem Store.hasForm_iff {fileName : String} {input : Bytes} {form compressed : Bool}
    (h : s.read fileName = .ok (E.pack form input)) :
    s.HasForm E fileName input compressed ↔ form = compressed := by
  obtain ⟨l, src, bytes, hl, hsrc, hbytes, hstored⟩ : ∃ l src bytes,
      s.linkNamed fileName = some l ∧ s.source l.sourceId = some src ∧
      s.file l.sourceId.sourcePath = some bytes ∧ src.stored bytes = E.pack form input := by
    rw [Store.read] at h
    split at h
    · cases h
    · next l hl =>
      rw [Store.readSource] at h
      split at h
      · cases h
      · next src hsrc =>
        split at h
        · cases h
        · next bytes hbytes => exact ⟨l, src, bytes, hl, hsrc, hbytes, Except.ok.inj h⟩
  constructor
  · rintro ⟨l', src', -, hl', hsrc', -, rfl, -⟩
    cases hl.symm.trans hl'
    cases hsrc.symm.trans hsrc'
    exact (congrArg Stored.compressed hstored).symm
  · rintro rfl
    refine ⟨l, src, bytes, hl, hsrc, hbytes, congrArg Stored.compressed hstored,
      congrArg Stored.size hstored, ?_⟩
    rw [show bytes = (E.pack form input).bytes from congrArg Stored.bytes hstored]
    exact E.encodeContent_eq form input

/-- A covering write gives its name the content in the form it is asked for if and only if the name
    had a link, or the first source with the hash of the content, if there is one, has that form. -/
theorem cover_form_iff (hD : Set.InjOn E.hash256 D) (hs : Reachable E D s) {d : Draws}
    (hfresh : d.Fresh s) {fileName : String} {input : Bytes} (hinput : input ∈ D)
    {compressed : Bool}
    (hrun : (putBinaryData E d fileName input true compressed).run Prim.step s = (.ok (), s')) :
    s'.HasForm E fileName input compressed ↔
      s.Linked fileName ∨ ∀ src, s.sources.rows.find? (·.hash256 = E.hash256 input) = some src →
        src.compressed = compressed := by
  have hname : fileName ≠ "" := by
    rintro rfl
    cases hrun
  obtain ⟨s₁, heff, hput⟩ := performs_putBinaryData E hs.sound hfresh hname input true compressed
  rw [hput.run_eq] at hrun
  cases hrun
  rw [Store.hasForm_iff (heff.read_cover hD hs hfresh hinput), Store.coveredForm_eq_iff]

/-- A content that is there, written again under its name and compressed. -/
theorem cover_form_iff_linked :
    ∃ s s', Reachable .plain {[1], [2]} s ∧
      (putBinaryData .plain (.sample 1) "a" [1] true true).run Prim.step s = (.ok (), s') ∧
      s'.HasForm .plain "a" [1] true := by
  have h : Reachable .plain {[1], [2]} _ :=
    .call (.put (.sample 0) "a" [1] false false) .empty ⟨rfl, rfl⟩ (.inl rfl)
  refine ⟨_, _, h, rfl, ?_⟩
  exact (cover_form_iff injOn_hash256_plain h (d := .sample 1) ⟨rfl, rfl⟩ (.inl rfl) rfl).mpr
    (.inl (Store.linked_iff.mpr (by decide)))

/-- A content that is there as it is, written compressed under a new name: the name shares what is
    there. -/
theorem cover_form_shared :
    ∃ s s', Reachable .plain {[1], [2]} s ∧
      (putBinaryData .plain (.sample 1) "b" [1] true true).run Prim.step s = (.ok (), s') ∧
      s'.HasForm .plain "b" [1] false ∧ ¬s'.HasForm .plain "b" [1] true := by
  have h : Reachable .plain {[1], [2]} _ :=
    .call (.put (.sample 0) "a" [1] false false) .empty ⟨rfl, rfl⟩ (.inl rfl)
  refine ⟨_, _, h, rfl, ?_⟩
  have hread : (((putBinaryData .plain (.sample 1) "b" [1] true true).run Prim.step
      ((putBinaryData .plain (.sample 0) "a" [1] false false).run Prim.step .empty).2).2).read "b" =
      .ok (Engine.plain.pack false [1]) := by
    decide
  exact ⟨(Store.hasForm_iff hread).mpr rfl, fun h => by cases (Store.hasForm_iff hread).mp h⟩

end LiNaStore
