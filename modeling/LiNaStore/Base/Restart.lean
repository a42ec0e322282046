import LiNaStore.Base.Crash
import LiNaStore.Base.Undercount

/-!
# The map after a crash

A call that was cut short has been made or has not, as far as the contents of a store tell that is
opened again: so it is for a write under a new name (`Consistent.put_crash`) and for the deletion
of a name (`Consistent.delete_crash`). And the store is then as good as before, with one exception
for the write. If it has linked the name to a source that has the content, and the source does not
count the link, then nothing is lost by the crash, but what comes later may lose something. This
shows in the rows that the crash leaves (`Store.Counts`).
-/

namespace LiNaStore

open Program Store StoreManager

/-- No source counts fewer links than it has. -/
def Store.Counts (s : Store) : Prop := ∀ src ∈ s.sources.rows, s.refs src.id ≤ src.count

/-! ## Sources that are read when a store is open again -/

namespace Store.AllRead

variable {P : Stored → Prop} {s s' t u : Store} {extra : SourceId → ℕ}

theorem congr (hs : s.AllRead P) (h : ∀ id, t.readSource id = s.readSource id) : t.AllRead P :=
  fun id st hst => hs id st ((h id).symm.trans hst)

theorem reopened (hre : t.Reopened s') (htomb : ∀ id : SourceId, t.file id.tombstonePath = none)
    (ht : t.AllRead P) : s'.AllRead P := by
  intro id st hst
  rw [hre.readSource (htomb id)] at hst
  exact ht id st hst

/-- A payload that no row is about is not read. -/
theorem setFile {id : SourceId} (hs : s.AllRead P) (hsrc : s.source id = none) (bytes : Bytes) :
    (s.setFile id.sourcePath bytes).AllRead P := by
  intro id' st hst
  by_cases hid : id' = id
  · rw [readSource, source_setFile, hid, hsrc] at hst
    cases hst
  · have hfile : (s.setFile id.sourcePath bytes).file id'.sourcePath = s.file id'.sourcePath := by
      rw [file_setFile, if_neg (by simpa using hid)]
    exact hs id' st ((readSource_congr hfile rfl).symm.trans hst)

theorem addSource {id : SourceId} {c : Stored} (hs : s.AllRead P) (hsrc : s.source id = none)
    (hc : P c) : (s.addSource id c).AllRead P := by
  intro id' st hst
  rw [readSource_addSource hsrc] at hst
  split_ifs at hst
  · cases hst
    exact hc
  · exact hs id' st hst

/-- While a source is being released it is read as it was or not at all. -/
theorem releasing {src : Source} (hu : u.AllRead P) (h : ReleaseStage u src t)
    (hre : t.Reopened s') (hsrc : u.source src.id = some src)
    (htomb : ∀ id : SourceId, u.file id.tombstonePath = none) : s'.AllRead P := by
  intro id st hst
  by_cases hid : id = src.id ∧ ¬1 < src.count
  · obtain ⟨rfl, hcount⟩ := hid
    cases h with
    | start => exact reopened hre htomb hu src.id st hst
    | @renamed bytes _ hfile =>
      -- the tombstone gets its name back
      refine hu src.id st (Eq.trans ?_ hst)
      rw [readSource_eq_ok hsrc hfile]
      refine (readSource_eq_ok (hre.source src.id |>.trans hsrc) ?_).symm
      rw [hre.file, reconciled_sourcePath, source_setFile, source_eraseFile, hsrc, file_setFile,
        if_pos rfl]
      rfl
    | erased =>
      rw [readSource, hre.source, source_eraseSource, if_pos rfl] at hst
      cases hst
    | done =>
      rw [readSource, hre.source, Store.release, if_neg hcount, source_eraseSource, if_pos rfl] at hst
      cases hst
  · rw [h.readSource_reopened hre hsrc htomb hid] at hst
    exact hu id st hst

end Store.AllRead

namespace StoreManager

variable {P : Stored → Prop} {s s' t : Store} {extra : SourceId → ℕ} {d : Draws}
  {fileName ext : String} {cover : Bool} {c : Stored}

/-! ## Writing under a new name -/

theorem PutStage.allRead_reopened (h : PutStage s d fileName ext cover c t) (hs : s.Sound extra)
    (hfresh : d.Fresh s) (hnew : s.linkNamed fileName = none) (hre : t.Reopened s')
    (hread : s.AllRead P) (hc : P c) : s'.AllRead P := by
  have htomb := hs.file_tombstonePath
  have hset (id id' : SourceId) :
      (s.setFile id.sourcePath c.bytes).file id'.tombstonePath = none := by
    rw [file_setFile, if_neg (SourceId.sourcePath_ne_tombstonePath _ _).symm, htomb]
  have hother {l : Link} (hl : s.linkNamed fileName = some l) : False := by
    rw [hnew] at hl
    cases hl
  cases h with
  | start => exact .reopened hre htomb hread
  | tmp ht =>
    refine .reopened hre (fun id => ?_) (hread.congr fun id => ?_)
    · rw [ht.file _ (SourceId.tombstonePath_ne_tmpPath _ _ _), htomb]
    · refine readSource_congr (ht.file _ (SourceId.sourcePath_ne_tmpPath _ _ _)) ?_
      rw [Store.source, ht.sources]
      rfl
  | stored => exact .reopened hre (hset _) (hread.setFile hfresh.sourceId _)
  | added => exact .reopened hre (hset _) (hread.addSource hfresh.sourceId hc)
  | releasing hl => exact (hother hl).elim
  | overwriting hl => exact (hother hl).elim
  | overwritten hl => exact (hother hl).elim
  | linking => exact .reopened hre htomb (hread.congr fun _ => rfl)
  | linked hl hsrc =>
    refine .reopened hre htomb (hread.congr fun id => ?_)
    exact readSource_setSource_withCount (s := s.insertLink _) (source_of_find? hsrc).1 _ _
  | created =>
    exact .reopened hre (hset _) ((hread.addSource hfresh.sourceId hc).congr fun _ => rfl)

/-- The stages in which no source counts too few links are torn. -/
theorem PutStage.torn_of_counts (h : PutStage s d fileName ext cover c t) (hs : s.Sound extra)
    (hfresh : d.Fresh s) (hcounts : t.Counts) : ∃ extra', t.Torn extra' := by
  rcases h.torn hs hfresh with htorn | ⟨src, hl, hsrc, rfl⟩
  · exact htorn
  obtain ⟨hsource, -⟩ := source_of_find? hsrc
  have hcount := hs.count_eq hsource
  have hrefs := hcounts src (mem_of_source hsource)
  rw [s.refs_insertLink _ hfresh.linkId, if_pos rfl] at hrefs
  -- the source has counted a link that was not there
  obtain ⟨n, hn⟩ : ∃ n, extra src.id = n + 1 := ⟨extra src.id - 1, by omega⟩
  exact ⟨_, hs.toCounted.insertLink (l := ⟨d.linkId, fileName, ext, src.id, 420⟩) hfresh.linkId hl
    (by rw [hsource]; rfl) hn, hs.torn.payload, hs.torn.owned⟩

/-! ## Deleting -/

/-- A deletion that crashed reads as the deletion of the first links. -/
theorem DeleteStage.read_reopened {links : List Link} (h : DeleteStage s links t)
    (hs : s.Sound extra) (hl : ∀ l ∈ links, l ∈ s.links.rows) (hnodup : links.Nodup)
    (hre : t.Reopened s') :
    ∃ a, a <+: links ∧ ∀ name, s'.read name = (s.deleteAll a).read name := by
  cases h with
  | @between a b heq =>
    subst heq
    have hsound := hs.deleteAll (fun l hmem => hl l (List.mem_append_left _ hmem))
      (List.nodup_append.mp hnodup).1
    exact ⟨a, List.prefix_append a b, hre.read hsound.file_tombstonePath⟩
  | @releasing a b l src t heq hsrc ht =>
    subst heq
    have hid := id_of_source hsrc
    have hla : ∀ l ∈ a, l ∈ s.links.rows := fun l hmem => hl l (List.mem_append_left _ hmem)
    obtain ⟨ha, -, hdisjoint⟩ := List.nodup_append.mp hnodup
    have hsound := hs.deleteAll hla ha
    have hmem : l ∈ (s.deleteAll a).links.rows := by
      refine (hs.mem_links_deleteAll hla ha).mpr ⟨hl l (by simp), fun hmem => ?_⟩
      exact hdisjoint l hmem l List.mem_cons_self rfl
    have hsrc' : ((s.deleteAll a).eraseLink l.id).source src.id = some src := by
      rw [source_eraseLink, hid, hsrc]
    have hlinks : t.links = ((s.deleteAll a).eraseLink l.id).links := by
      cases ht with
      | start => rfl
      | renamed => rfl
      | erased => rfl
      | done => exact links_release _ src
    refine ⟨a ++ [l], ⟨b, by simp⟩, fun name => ?_⟩
    rw [Store.deleteAll, List.foldl_append]
    change _ = ((s.deleteAll a).delete l).read name
    rw [delete_eq hsrc]
    refine read_congr ?_ fun l' hl' => ?_
    · rw [hre.linkNamed, linkNamed, linksNamed, hlinks, linkNamed, linksNamed, links_release]
    · rw [linkNamed, linksNamed, links_release] at hl'
      have hl'' : ((s.deleteAll a).eraseLink l.id).linkNamed name = some l' := hl'
      rw [linkNamed_eraseLink hsound.unique_names hmem] at hl''
      split_ifs at hl'' with hname
      have hother := hsound.sourceId_ne hmem hsrc hl'' hname
      rw [← hid] at hother
      rw [ht.readSource_reopened hre hsrc' hsound.file_tombstonePath hother,
        readSource_release hsrc', if_neg hother]

theorem DeleteStage.allRead_reopened {links : List Link} (h : DeleteStage s links t)
    (hs : s.Sound extra) (hl : ∀ l ∈ links, l ∈ s.links.rows) (hnodup : links.Nodup)
    (hre : t.Reopened s') (hread : s.AllRead P) : s'.AllRead P := by
  cases h with
  | @between a b heq =>
    subst heq
    have hla : ∀ l ∈ a, l ∈ s.links.rows := fun l hmem => hl l (List.mem_append_left _ hmem)
    have ha := (List.nodup_append.mp hnodup).1
    exact .reopened hre (hs.deleteAll hla ha).file_tombstonePath (hread.deleteAll hs hla ha)
  | @releasing a b l src t heq hsrc ht =>
    subst heq
    have hla : ∀ l ∈ a, l ∈ s.links.rows := fun l hmem => hl l (List.mem_append_left _ hmem)
    have ha := (List.nodup_append.mp hnodup).1
    have hreads : ((s.deleteAll a).eraseLink l.id).AllRead P := hread.deleteAll hs hla ha
    refine hreads.releasing ht hre ?_ (hs.deleteAll hla ha).file_tombstonePath
    rw [source_eraseLink, id_of_source hsrc, hsrc]

end StoreManager

/-! ## Contents -/

namespace Store.Consistent

variable {E : Engine} {D : Set Bytes} {s s' t : Store} {d : Draws} {fileName : String}

/-- A write under a new name that crashed has been made or has not, and the store goes on well if
    no source counts too few links. -/
theorem put_crash (hE : E.Lossless) (hD : Set.InjOn E.hash256 D) (hs : s.Consistent E D)
    (hfresh : d.Fresh s) {input : Bytes} (hinput : input ∈ D) (hname : fileName ≠ "")
    (hnew : s.linkNamed fileName = none) {cover compressed : Bool}
    (hvisit : (putBinaryData E d fileName input cover compressed).Visits Prim.step s t)
    (hre : t.Reopened s') :
    (s'.contents E = s.contents E ∨ s'.contents E = (s.contents E).put fileName input) ∧
      (t.Counts → s'.Consistent E D) := by
  obtain ⟨extra, hsound⟩ := hs.sound
  obtain ⟨_, -, hput⟩ := performs_putBinaryData E hsound hfresh hname input cover compressed
  have hstage := hput.crash hvisit
  refine ⟨?_, fun hcounts => ⟨?_, ?_⟩⟩
  · rcases hstage.read_reopened hsound hfresh hre with
      hread | ⟨s₁, heff, hread⟩ | ⟨l, src, hl, -⟩
    · refine .inl (funext fun name => ?_)
      rw [contents, contents, get_congr (hread name)]
    · refine .inr (funext fun name => ?_)
      rw [Contents.put, Function.update_apply, contents, contents, get_congr (hread name)]
      split
      · next heq =>
        rw [heq, heff.get_self hE hD hs.intact hsound hfresh hinput hname]
        rfl
      · next hne => rw [get_congr (heff.read_of_ne hsound hfresh hne)]
    · rw [hnew] at hl
      cases hl
  · obtain ⟨extra', htorn⟩ := hstage.torn_of_counts hsound hfresh hcounts
    exact ⟨extra', htorn.sound hre⟩
  · exact hstage.allRead_reopened hsound hfresh hnew hre hs.intact
      ⟨input, hinput, E.verify_pack hE compressed input⟩

/-- The deletion of a name that crashed has been made or has not. -/
theorem delete_crash (hs : s.Consistent E D) (hname : fileName ≠ "")
    (hvisit : (StoreManager.delete fileName false).Visits Prim.step s t) (hre : t.Reopened s') :
    (s'.contents E = s.contents E ∨ s'.contents E = (s.contents E).delete fileName false) ∧
      s'.Consistent E D := by
  obtain ⟨extra, hsound⟩ := hs.sound
  have hstage := (performs_delete hsound hname false).crash hvisit
  obtain ⟨extra', htorn⟩ := hstage.torn hsound listed_subset nodup_listed
  refine ⟨?_, ⟨extra', htorn.sound hre⟩,
    hstage.allRead_reopened hsound listed_subset nodup_listed hre hs.intact⟩
  obtain ⟨a, ha, hread⟩ := hstage.read_reopened hsound listed_subset nodup_listed hre
  have hnames : ∀ l ∈ a, l.name = fileName := fun l hl => by
    have hlisted := ha.subset hl
    rw [listed_eq_filter, List.mem_filter] at hlisted
    simpa [nameMatches] using hlisted.2
  have hdeleted (name : String) := hsound.read_deleteAll
    (fun l hl => listed_subset l (ha.subset hl)) (nodup_listed.sublist ha.sublist) name
  cases a with
  | nil => exact .inl (funext fun name => by rw [contents, contents, get_congr (hread name)]; rfl)
  | cons l a =>
    refine .inr (funext fun name => ?_)
    have hmem : name ∈ (l :: a).map Link.name ↔ name = fileName := by
      constructor
      · intro h
        obtain ⟨l', hl', rfl⟩ := List.mem_map.mp h
        exact hnames l' hl'
      · rintro rfl
        exact List.mem_map.mpr ⟨l, List.mem_cons_self, hnames l List.mem_cons_self⟩
    rw [Contents.delete, contents, contents, Store.get, Store.get, hread, hdeleted]
    simp only [hmem, nameMatches, Bool.false_eq_true, and_false, if_false, decide_eq_true_eq]
    split_ifs <;> rfl

end Store.Consistent

end LiNaStore
