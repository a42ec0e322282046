import LiNaStore.Base.Undercount

/-!
# Faults

A write or a deletion in which one primitive fails undoes what it has done. That
this restores the state, up to the order of rows and to temporary files, was shown
along with what the operations do (`performs_putBinaryData`, `performs_delete`); a
deletion undoes only the link it is at, those before it stay deleted.

One thing is left: a link that was deleted comes back with the extension computed
from its name, which must be the one it had. So a *regular* state is one that is
sound and where links have the extensions of their names (`Store.Regular`). All runs
keep to regular states, crashes included (`CrashReachable.regular`), and from these
failing is atomic (`put_delete_error_atomic`).
-/

namespace LiNaStore

open Program Store StoreManager

/-! ## Extensions -/

namespace Store

/-- Every link has the extension of its name. -/
def ExtNamed (s : Store) : Prop := ∀ l ∈ s.links.rows, l.ext = pathExtension l.name

/-- The rows are counted, the files are the payloads of sources, and links have the
    extensions of their names. -/
structure Regular (s : Store) : Prop where
  sound : ∃ extra, s.Sound extra
  extNamed : s.ExtNamed

namespace ExtNamed

variable {s t : Store}

theorem congr (hs : s.ExtNamed) (h : t.links = s.links) : t.ExtNamed := by
  rw [ExtNamed, h]
  exact hs

theorem insertLink (hs : s.ExtNamed) {l : Link} (hfresh : s.links.find? l.id = none)
    (hl : l.ext = pathExtension l.name) : (s.insertLink l).ExtNamed := by
  intro l' hl'
  rcases (Table.mem_insert hfresh).1 hl' with hl' | rfl
  · exact hs l' hl'
  · exact hl

theorem eraseLink (hs : s.ExtNamed) (linkId : String) : (s.eraseLink linkId).ExtNamed :=
  fun l hl => hs l (Table.mem_erase.1 hl).1

theorem repoint (hs : s.ExtNamed) (linkId : String) (id : SourceId) :
    (s.repoint linkId id).ExtNamed := by
  intro l hl
  obtain ⟨l₀, hl₀, rfl⟩ := mem_repoint.1 hl
  split <;> exact hs l₀ hl₀

theorem setMode (hs : s.ExtNamed) (name : String) (mode : UInt32) :
    (s.setMode name mode).ExtNamed := by
  intro l hl
  obtain ⟨l₀, hl₀, rfl⟩ := mem_setMode.1 hl
  split <;> exact hs l₀ hl₀

theorem deleteAll (hs : s.ExtNamed) (links : List Link) : (s.deleteAll links).ExtNamed := by
  induction links generalizing s with
  | nil => exact hs
  | cons l links ih =>
    refine ih (s := s.delete l) ?_
    rw [Store.delete]
    split
    · exact (hs.eraseLink l.id).congr (links_release _ _)
    · exact hs

end ExtNamed

end Store

namespace StoreManager

variable {s t u : Store} {d : Draws} {fileName : String} {cover : Bool} {c : Stored}

theorem ReleaseStage.extNamed {src : Source} (h : ReleaseStage u src t) (hu : u.ExtNamed) :
    t.ExtNamed := by
  refine hu.congr ?_
  cases h with
  | start => rfl
  | renamed => rfl
  | erased => rfl
  | done => exact links_release u src

theorem PutStage.extNamed (h : PutStage s d fileName (pathExtension fileName) cover c t)
    (hs : s.ExtNamed) (hfresh : d.Fresh s) : t.ExtNamed := by
  cases h with
  | start => exact hs
  | tmp ht => exact hs.congr ht.links
  | stored => exact hs
  | added => exact hs
  | releasing _ _ _ ht =>
    exact ht.extNamed (ExtNamed.repoint (s := s.addSource d.sourceId c) hs _ _)
  | overwriting => exact hs
  | overwritten => exact hs
  | linking => exact hs.insertLink hfresh.linkId rfl
  | linked => exact hs.insertLink hfresh.linkId rfl
  | created => exact ExtNamed.insertLink (s := s.addSource d.sourceId c) hs hfresh.linkId rfl

theorem DeleteStage.extNamed {links : List Link} (h : DeleteStage s links t) (hs : s.ExtNamed) :
    t.ExtNamed := by
  cases h with
  | between => exact hs.deleteAll _
  | releasing _ _ ht => exact ht.extNamed ((hs.deleteAll _).eraseLink _)

end StoreManager

/-- Links keep the extensions of their names at every point of a call. -/
theorem Call.extNamed_of_visits {E : Engine} {c : Call} {s t : Store} (hs : s.Regular)
    (hfresh : c.Fresh s) (h : (c.program E).Visits Prim.step s t) : t.ExtNamed := by
  obtain ⟨extra, hsound⟩ := hs.sound
  cases c with
  | put d fileName input cover compressed =>
    rw [program] at h
    by_cases hname : fileName = ""
    · rw [putBinaryData, if_pos hname] at h
      exact visits_ret.1 h ▸ hs.extNamed
    · obtain ⟨_, _, hput⟩ := performs_putBinaryData E hsound hfresh hname input cover compressed
      exact (hput.crash h).extNamed hs.extNamed hfresh
  | delete pattern useRegx =>
    rw [program] at h
    by_cases hpattern : pattern = ""
    · rw [StoreManager.delete, if_pos hpattern] at h
      exact visits_ret.1 h ▸ hs.extNamed
    · exact ((performs_delete hsound hpattern useRegx).crash h).extNamed hs.extNamed
  | setFileMode name mode =>
    rcases visits_call.1 h with rfl | h
    · exact hs.extNamed
    · exact visits_ret.1 h ▸ hs.extNamed.setMode name mode

/-- Every state of a run without a crash between a link and its count is regular. -/
theorem CrashReachable.regular {E : Engine} {s : Store}
    (h : CrashReachable E (fun c n s => ¬c.Uncounted E n s) s) : s.Regular := by
  refine ⟨h.sound, ?_⟩
  induction h with
  | empty => exact fun l hl => absurd hl List.not_mem_nil
  | call c h hfresh ih => exact c.extNamed_of_visits ⟨h.sound, ih⟩ hfresh (visits_run _ _)
  | crash c n listing h hfresh _ ih =>
    obtain ⟨s', hrun, hre⟩ := run_new listing ((c.program E).after Prim.step n _)
    rw [hrun]
    exact (c.extNamed_of_visits ⟨h.sound, ih⟩ hfresh ⟨n, rfl⟩).congr hre.links

/-! ## Errors -/

/-- A write in which one primitive fails, if it fails, leaves the same rows and the same
    files but for temporary ones. A deletion in which one primitive fails, if it fails,
    leaves the state of the deletion of some of the first links it is about. -/
theorem put_delete_error_atomic {E : Engine} {s : Store} (hs : s.Regular) :
    (∀ (d : Draws) (fileName : String) (input : Bytes) (cover compressed : Bool) (err : StoreError)
      (t : Store), d.Fresh s →
      (putBinaryData E d fileName input cover compressed).Faulted Prim.step s (.error err) t →
      s.Same t) ∧
    ∀ (pattern : String) (useRegx : Bool) (err : StoreError) (t : Store),
      (delete pattern useRegx).Faulted Prim.step s (.error err) t →
      ∃ links k s₁, (listLocked pattern 0 false useRegx).run Prim.step s = (.ok links, s) ∧
        (forEach deleteLink (links.take k)).run Prim.step s = (.ok (), s₁) ∧ s₁.Same t := by
  obtain ⟨extra, hsound⟩ := hs.sound
  constructor
  · intro d fileName input cover compressed err t hfresh hfault
    by_cases hname : fileName = ""
    · rw [putBinaryData, if_pos hname] at hfault
      exact absurd hfault not_faulted_ret
    · obtain ⟨_, _, hput⟩ := performs_putBinaryData E hsound hfresh hname input cover compressed
      obtain ⟨_, _, hsame⟩ := hput.fault hfault
      exact hsame
  · intro pattern useRegx err t hfault
    by_cases hpattern : pattern = ""
    · rw [StoreManager.delete, if_pos hpattern] at hfault
      exact absurd hfault not_faulted_ret
    · obtain ⟨_, _, hdel⟩ := (performs_delete hsound hpattern useRegx).fault hfault
      obtain ⟨k, _, hsame⟩ := hdel fun l hl => hs.extNamed l (listed_subset l hl)
      have hnodup : ((s.listed pattern 0 false useRegx).take k).Nodup :=
        nodup_listed.sublist (List.take_sublist _ _)
      have hfirst := performs_deleteLinks hsound (fun l hl =>
        listed_subset l (List.mem_of_mem_take hl)) hnodup
      exact ⟨_, k, _, run_listLocked pattern 0 false useRegx s, hfirst.run_eq, hsame⟩

/-- The deletion of two names fails at the second one, after its payload was renamed. -/
theorem put_delete_error_atomic_second :
    ∃ s t, s.Regular ∧ s.links.rows.length = 2 ∧
      (delete "*" true).Faulted Prim.step s (.error .noSuchFile) t ∧
      ∃ links k s₁, (listLocked "*" 0 false true).run Prim.step s = (.ok links, s) ∧
        (forEach deleteLink (links.take k)).run Prim.step s = (.ok (), s₁) ∧ s₁.Same t := by
  obtain ⟨s, hs, hlen, t, hfault⟩ : ∃ s : Store, s.Regular ∧ s.links.rows.length = 2 ∧
      ∃ t, (delete "*" true).Faulted Prim.step s (.error .noSuchFile) t := by
    have h : CrashReachable .plain (fun c n s => ¬c.Uncounted .plain n s) _ :=
      .call (.put (.sample 1) "b" [2] false false)
        (.call (.put (.sample 0) "a" [1] false false) .empty ⟨rfl, rfl⟩) ⟨rfl, rfl⟩
    exact ⟨_, h.regular, by decide, _, faulted_of_faultAt (n := 9) (e := .noSuchFile) rfl⟩
  exact ⟨s, t, hs, hlen, hfault, (put_delete_error_atomic (E := .plain) hs).2 _ _ _ _ hfault⟩

end LiNaStore
