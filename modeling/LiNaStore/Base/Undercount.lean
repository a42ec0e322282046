import LiNaStore.Base.Contents
import LiNaStore.Base.Recovery

/-!
# Counts after crashes

A crash may leave a source counting more links than it has, which only means that
it stays for longer than needed. Counting fewer would be worse: the next covering
write takes the source for its own and writes over the content of another name.

Between the primitives of a call the rows are counted with some excess and each
source has its payload or its tombstone (`Store.Torn`), in every stage of every call
(`ReleaseStage.torn`, `PutStage.torn`, `DeleteStage.torn`) but one: a write linking a
new name to a source that has the content inserts the link before it counts it. A
store that is torn is sound after it has been opened (`Torn.sound`), and so counts
never fall short in the runs where no crash is at that point
(`crash_runs_never_undercount`).
-/

namespace LiNaStore

open Program Store StoreManager

/-! ## Torn states -/

/-- The rows are counted, each source has its payload or its tombstone, and there are
    no files but of sources, there or gone. -/
structure Store.Torn (extra : SourceId → ℕ) (s : Store) : Prop extends Counted extra s where
  payload : ∀ {id src}, s.source id = some src →
    (s.file id.tombstonePath).isSome ∨ (s.file id.sourcePath).isSome
  owned : ∀ p, (s.file p).isSome → ∃ id, SourceId.Owns id p

namespace Store

variable {s s' t u : Store} {extra : SourceId → ℕ}

theorem Sound.torn (hs : s.Sound extra) : s.Torn extra where
  toCounted := hs.toCounted
  payload h := .inr ((hs.files _).2 ⟨_, Option.isSome_iff_exists.2 ⟨_, h⟩, rfl⟩)
  owned p hp := by
    obtain ⟨id, _, rfl⟩ := (hs.files p).1 hp
    exact ⟨id, .payload⟩

/-- A torn store is sound when it is open again. -/
theorem Torn.sound (ht : t.Torn extra) (hre : t.Reopened s') : s'.Sound extra where
  toCounted := ht.toCounted.congr hre.links hre.sources
  files p := by
    have hsource : ∀ id, s'.source id = t.source id := by
      intro id
      rw [source, hre.sources]
      rfl
    simp only [hsource, hre.file]
    constructor
    · exact sourcePath_of_reconciled ht.owned
    · rintro ⟨id, hid, rfl⟩
      rw [reconciled_sourcePath, if_pos hid]
      obtain ⟨src, hsrc⟩ := Option.isSome_iff_exists.1 hid
      rcases ht.payload hsrc with h | h
      · obtain ⟨bytes, hbytes⟩ := Option.isSome_iff_exists.1 h
        rw [hbytes]
        rfl
      · cases t.file id.tombstonePath with
        | none => exact h
        | some bytes => rfl

/-- Writing a file of a source. -/
theorem Torn.setFile (ht : t.Torn extra) {p : Path} (hp : ∃ id, SourceId.Owns id p) (bytes : Bytes) :
    (t.setFile p bytes).Torn extra where
  toCounted := ht.toCounted.congr rfl rfl
  payload h := by
    rw [source_setFile] at h
    rw [file_setFile, file_setFile]
    rcases ht.payload h with h | h
    · refine .inl ?_
      split
      · rfl
      · exact h
    · refine .inr ?_
      split
      · rfl
      · exact h
  owned q hq := by
    rw [file_setFile] at hq
    split at hq
    · next heq => exact heq ▸ hp
    · exact ht.owned q hq

end Store

namespace StoreManager

variable {s s' t u : Store} {extra : SourceId → ℕ} {d : Draws} {fileName ext : String}
  {cover : Bool} {c : Stored}

/-- The stages of the release of a source that counts one link more than it has. -/
theorem ReleaseStage.torn {src : Source} (h : ReleaseStage u src t) (hu : u.Sound extra)
    (hsrc : u.source src.id = some src) {n : ℕ} (hextra : extra src.id = n + 1) :
    ∃ extra', t.Torn extra' := by
  have hrenamed {bytes : Bytes} (hfile : u.file src.id.sourcePath = some bytes) :
      ((u.eraseFile src.id.sourcePath).setFile src.id.tombstonePath bytes).Torn extra := by
    refine ⟨hu.toCounted.congr rfl rfl, fun {id} _ hid => ?_, fun p hp => ?_⟩
    · rw [file_setFile, file_setFile, file_eraseFile, file_eraseFile]
      by_cases heq : id = src.id
      · subst heq
        exact .inl (by rw [if_pos rfl]; rfl)
      · refine .inr ?_
        rw [if_neg (SourceId.sourcePath_ne_tombstonePath _ _), if_neg (by simpa using heq)]
        exact (hu.files _).2 ⟨id, Option.isSome_iff_exists.2 ⟨_, hid⟩, rfl⟩
    · rw [file_setFile] at hp
      split at hp
      · next heq => exact ⟨src.id, heq ▸ .tombstone⟩
      · rw [file_eraseFile] at hp
        split at hp
        · cases hp
        · exact hu.torn.owned p hp
  cases h with
  | start => exact ⟨extra, hu.torn⟩
  | renamed _ hfile => exact ⟨extra, hrenamed hfile⟩
  | @erased bytes hone hfile =>
    have hcount := hu.count_eq hsrc
    have htorn := hrenamed hfile
    have hrefs : u.refs src.id = 0 := by omega
    refine ⟨_, htorn.toCounted.eraseSource hrefs 0, fun {id} _ hid => ?_, htorn.owned⟩
    rw [source_eraseSource] at hid
    split_ifs at hid
    exact htorn.payload hid
  | done => exact ⟨_, (hu.release hsrc hextra).torn⟩

/-- The stages of a write are torn, but for a link that its source does not count. -/
theorem PutStage.torn (h : PutStage s d fileName ext cover c t) (hs : s.Sound extra)
    (hfresh : d.Fresh s) :
    (∃ extra', t.Torn extra') ∨ ∃ src, s.linkNamed fileName = none ∧
      s.sources.rows.find? (·.hash256 = c.hash256) = some src ∧
      t = s.insertLink ⟨d.linkId, fileName, ext, src.id, 420⟩ := by
  cases h with
  | start => exact .inl ⟨extra, hs.torn⟩
  | @tmp id t ht =>
    refine .inl ⟨extra, hs.toCounted.congr ht.links ht.sources, fun {id'} src hid' => ?_,
      fun p hp => ?_⟩
    · have hsrc : s.source id' = some src := by rw [← hid', Store.source, ← ht.sources]; rfl
      rw [ht.file _ (SourceId.sourcePath_ne_tmpPath _ _ _)]
      exact .inr ((hs.files _).2 ⟨id', Option.isSome_iff_exists.2 ⟨_, hsrc⟩, rfl⟩)
    · by_cases heq : p = id.tmpPath d.tmpId
      · exact ⟨id, heq ▸ .tmp _⟩
      · rw [ht.file p heq] at hp
        exact hs.torn.owned p hp
  | stored => exact .inl ⟨extra, hs.torn.setFile ⟨_, .payload⟩ _⟩
  | added => exact .inl ⟨_, (hs.addSource hfresh.sourceId c).torn⟩
  | @releasing l src t hl hsrc _ ht =>
    have hid := id_of_source hsrc
    have hmem := (mem_of_linkNamed hl).1
    refine .inl (ht.torn (hs.redirect hmem hsrc hfresh.sourceId c) ?_ (n := extra src.id) ?_)
    · rw [source_repoint, source_addSource hfresh.sourceId, hid,
        if_neg (sourceId_ne_of_fresh hs.toCounted hfresh hl), hsrc]
    · rw [hid, Function.update_self]
  | overwriting => exact .inl ⟨extra, hs.torn.setFile ⟨_, .payload⟩ _⟩
  | overwritten _ hsrc => exact .inl ⟨extra, (hs.overwrite hsrc c).torn⟩
  | linking hl hsrc => exact .inr ⟨_, hl, hsrc, rfl⟩
  | linked hl hsrc =>
    exact .inl ⟨extra, (hs.share hfresh.linkId hl (source_of_find? hsrc).1).torn⟩
  | created hl _ =>
    exact .inl ⟨_, (hs.create (l := ⟨d.linkId, fileName, ext, d.sourceId, 420⟩) hfresh.linkId hl
      hfresh.sourceId c).torn⟩

/-- The stages of a deletion are torn. -/
theorem DeleteStage.torn {links : List Link} (h : DeleteStage s links t) (hs : s.Sound extra)
    (hl : ∀ l ∈ links, l ∈ s.links.rows) (hnodup : links.Nodup) : ∃ extra', t.Torn extra' := by
  cases h with
  | @between a b heq =>
    subst heq
    exact ⟨extra, (hs.deleteAll (fun l hmem => hl l (List.mem_append_left _ hmem))
      (List.nodup_append.1 hnodup).1).torn⟩
  | @releasing a b l src t heq hsrc ht =>
    subst heq
    have hid := id_of_source hsrc
    have hla : ∀ l ∈ a, l ∈ s.links.rows := fun l hmem => hl l (List.mem_append_left _ hmem)
    obtain ⟨ha, _, hdisjoint⟩ := List.nodup_append.1 hnodup
    have hmem : l ∈ (s.deleteAll a).links.rows := by
      refine (hs.mem_links_deleteAll hla ha).2 ⟨hl l (by simp), fun hmem => ?_⟩
      exact hdisjoint l hmem l List.mem_cons_self rfl
    refine ht.torn ((hs.deleteAll hla ha).eraseLink hmem) ?_ (n := extra src.id) ?_
    · rw [source_eraseLink, hid, hsrc]
    · rw [hid, Function.update_self]

/-- The states of a write linking a new name to a source that has the content: the
    link is there after the third primitive, counted after the fourth. -/
theorem after_share (E : Engine) (hfresh : d.Fresh s) (hname : fileName ≠ "") {input : Bytes}
    {src : Source} (hl : s.linkNamed fileName = none)
    (hsrc : s.sources.rows.find? (·.hash256 = E.hash256 input) = some src) (cover compressed : Bool)
    (n : ℕ) :
    let inserted := s.insertLink ⟨d.linkId, fileName, pathExtension fileName, src.id, 420⟩
    (putBinaryData E d fileName input cover compressed).after Prim.step n s =
      if n < 3 then s
      else if n = 3 then inserted
      else inserted.setSource (src.withCount (src.count + 1)) := by
  have hlinks : Prim.step (.getLinksByName fileName false) s = (.ok [], s) := by
    rw [Prim.step, List.head?_eq_none_iff.1 hl]
  have hsource : Prim.step (.getSourceByHash256 (E.hash256 input)) s = (.ok (some src), s) := by
    rw [Prim.step, hsrc]
  have hsome : (s.source src.id).isSome := by rw [(source_of_find? hsrc).1]; rfl
  have hinsert := Prim.step_insertLinkWithId
    (l := ⟨d.linkId, fileName, pathExtension fileName, src.id, 420⟩) hfresh.linkId hsome
  intro inserted
  have hupdate : Prim.step (.updateSource src.id src.hash256 src.compressed src.size (src.count + 1))
      inserted = (.ok (), inserted.setSource (src.withCount (src.count + 1))) := rfl
  rw [putBinaryData_eq E d hname]
  rcases n with _ | _ | _ | _ | n
  · rfl
  · exact after_perform_bind hlinks 0
  · exact (after_perform_bind hlinks 1).trans (after_perform_bind hsource 0)
  · exact (after_perform_bind hlinks 2).trans
      ((after_perform_bind hsource 1).trans (after_perform_bind hinsert 0))
  · refine (after_perform_bind hlinks (n + 3)).trans ?_
    refine (after_perform_bind hsource (n + 2)).trans ?_
    refine (after_perform_bind hinsert (n + 1)).trans ?_
    exact after_perform_orUndo hupdate n

end StoreManager

/-! ## Runs with crashes -/

/-- The call writes a content that a source has under a new name, and is cut short
    between inserting the link and counting it. -/
def Call.Uncounted (E : Engine) (c : Call) (n : ℕ) (s : Store) : Prop :=
  match c with
  | put _ fileName input _ _ => fileName ≠ "" ∧ s.linkNamed fileName = none ∧
      (∃ src ∈ s.sources.rows, src.hash256 = E.hash256 input) ∧ n = 3
  | _ => False

/-- The states of the runs in which calls may be cut short by crashes, when `P` allows it,
    and the store then is opened again. -/
inductive CrashReachable (E : Engine) (P : Call → ℕ → Store → Prop) : Store → Prop
  /-- The run has not begun. -/
  | empty : CrashReachable E P .empty
  /-- The run goes on with a call. -/
  | call {s : Store} (c : Call) : CrashReachable E P s → c.Fresh s →
      CrashReachable E P ((c.program E).run Prim.step s).2
  /-- The run goes on with a call that crashes after `n` primitives. -/
  | crash {s : Store} (c : Call) (n : ℕ) (listing : Listing) : CrashReachable E P s → c.Fresh s →
      P c n s →
      CrashReachable E P ((new listing).run Prim.step ((c.program E).after Prim.step n s)).2

/-- A crash leaves a torn state, but for the one point of a write. -/
theorem Call.torn_after (E : Engine) (c : Call) {s : Store} {extra : SourceId → ℕ}
    (hs : s.Sound extra) (hfresh : c.Fresh s) {n : ℕ} (hcond : ¬c.Uncounted E n s) :
    ∃ extra', ((c.program E).after Prim.step n s).Torn extra' := by
  have hfail (err : StoreError) : (fail err : Prog Unit).after Prim.step n s = s :=
    visits_ret.1 ⟨n, rfl⟩
  cases c with
  | put d fileName input cover compressed =>
    rw [program]
    by_cases hname : fileName = ""
    · rw [putBinaryData, if_pos hname, hfail]
      exact ⟨extra, hs.torn⟩
    · obtain ⟨_, _, hput⟩ := performs_putBinaryData E hs hfresh hname input cover compressed
      rcases (hput.crash ⟨n, rfl⟩).torn hs hfresh with htorn | ⟨src, hl, hsrc, -⟩
      · exact htorn
      · have hn : n ≠ 3 := fun hn => hcond ⟨hname, hl,
          ⟨src, List.mem_of_find?_eq_some hsrc, (source_of_find? hsrc).2⟩, hn⟩
        rw [after_share E hfresh hname hl hsrc, if_neg hn]
        split
        · exact ⟨extra, hs.torn⟩
        · exact ⟨extra, (hs.share hfresh.linkId hl (source_of_find? hsrc).1).torn⟩
  | delete pattern useRegx =>
    rw [program]
    by_cases hpattern : pattern = ""
    · rw [StoreManager.delete, if_pos hpattern, hfail]
      exact ⟨extra, hs.torn⟩
    · exact ((performs_delete hs hpattern useRegx).crash ⟨n, rfl⟩).torn hs listed_subset nodup_listed
  | setFileMode name mode =>
    rcases visits_call.1 ⟨n, rfl⟩ with h | h
    · exact ⟨extra, h ▸ hs.torn⟩
    · exact ⟨extra, visits_ret.1 h ▸ (hs.setMode name mode).torn⟩

namespace CrashReachable

variable {E : Engine} {s : Store}

/-- Every state of a run without a crash at that point is sound. -/
theorem sound (h : CrashReachable E (fun c n s => ¬c.Uncounted E n s) s) : ∃ extra, s.Sound extra := by
  induction h with
  | empty => exact ⟨0, sound_empty⟩
  | call c _ hfresh ih =>
    obtain ⟨extra, hs⟩ := ih
    obtain ⟨extra', _, hs'⟩ := (c.run_effect E hs hfresh).2.2.sound hs
    exact ⟨extra', hs'⟩
  | crash c n listing _ hfresh hcond ih =>
    obtain ⟨extra, hs⟩ := ih
    obtain ⟨extra', htorn⟩ := c.torn_after E hs hfresh hcond
    obtain ⟨s', hrun, hre⟩ := run_new listing ((c.program E).after Prim.step _ _)
    rw [hrun]
    exact ⟨extra', htorn.sound hre⟩

end CrashReachable

theorem Store.Counted.refs_le {s : Store} {extra : SourceId → ℕ} (hs : s.Counted extra) :
    ∀ src ∈ s.sources.rows, s.refs src.id ≤ src.count := by
  intro src hsrc
  rw [hs.count_eq (source_of_mem hsrc)]
  exact Nat.le_add_right _ _

/-- In every run in which no write is cut short between inserting the link to a source
    that has the content and counting it, no source counts fewer links than it has,
    neither in a state between calls nor in one a crash leaves; and a covering write
    changes what is read under no other name. -/
theorem crash_runs_never_undercount {E : Engine} {s : Store}
    (h : CrashReachable E (fun c n s => ¬c.Uncounted E n s) s) :
    (∀ src ∈ s.sources.rows, s.refs src.id ≤ src.count) ∧
    (∀ (c : Call) (n : ℕ), c.Fresh s → ¬c.Uncounted E n s →
      ∀ src ∈ ((c.program E).after Prim.step n s).sources.rows,
        ((c.program E).after Prim.step n s).refs src.id ≤ src.count) ∧
    ∀ (d : Draws) (fileName : String) (input : Bytes) (compressed : Bool), d.Fresh s →
      ∀ name ≠ fileName,
        ((getBinaryData E name).run Prim.step
          ((putBinaryData E d fileName input true compressed).run Prim.step s).2).1 =
        ((getBinaryData E name).run Prim.step s).1 := by
  obtain ⟨extra, hs⟩ := h.sound
  refine ⟨hs.toCounted.refs_le, fun c n hfresh hcond => ?_, ?_⟩
  · obtain ⟨extra', htorn⟩ := c.torn_after E hs hfresh hcond
    exact htorn.toCounted.refs_le
  · intro d fileName input compressed hfresh name hne
    simp only [run_getBinaryData]
    by_cases hname : fileName = ""
    · rw [putBinaryData, if_pos hname]
      rfl
    · obtain ⟨s', heff, hput⟩ := performs_putBinaryData E hs hfresh hname input true compressed
      rw [hput.run_eq]
      exact get_congr (heff.read_of_ne hs hfresh hne)

/-- A run with a crash while the source a name linked to is being released. -/
theorem crash_runs_never_undercount_released :
    ∃ s, CrashReachable .plain (fun c n s => ¬c.Uncounted .plain n s) s ∧
      s.sources.rows.length = 2 ∧ ∀ src ∈ s.sources.rows, s.refs src.id ≤ src.count := by
  have h : CrashReachable .plain (fun c n s => ¬c.Uncounted .plain n s) _ :=
    .crash (.put (.sample 1) "a" [2] false false) 10 .byAge
      (.call (.put (.sample 0) "a" [1] false false) .empty ⟨rfl, rfl⟩) ⟨rfl, rfl⟩
      (fun h => absurd h.2.1 (by decide))
  exact ⟨_, h, by decide, (crash_runs_never_undercount h).1⟩

/-- The second of two names for a content is linked and not counted when the store
    crashes; a covering write to the first then changes what is read under the second. -/
theorem crash_run_undercounts :
    ∃ s, CrashReachable .plain (fun _ _ _ => True) s ∧
      (∃ src ∈ s.sources.rows, src.count < s.refs src.id) ∧
      ((getBinaryData .plain "b").run Prim.step s).1 = .ok [1] ∧
      ((getBinaryData .plain "b").run Prim.step
        ((putBinaryData .plain (.sample 2) "a" [2] true false).run Prim.step s).2).1 = .ok [2] := by
  have h : CrashReachable .plain (fun _ _ _ => True) _ :=
    .crash (.put (.sample 1) "b" [1] false false) 3 .byAge
      (.call (.put (.sample 0) "a" [1] false false) .empty ⟨rfl, rfl⟩) ⟨rfl, rfl⟩ trivial
  exact ⟨_, h, by decide, rfl, rfl⟩

end LiNaStore
