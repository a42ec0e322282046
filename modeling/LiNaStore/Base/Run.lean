import LiNaStore.Base.Effect
import Mathlib.Data.Set.Defs

/-!
# Runs of a store

A *run* starts from the empty store and makes calls one after the other, writes,
deletions and changes of mode, each drawing new identifiers (`Reachable`). Every
state of a run is sound and counts its links exactly (`Reachable.sound`), so that
no call of it meets an error but for an empty argument
(`reachable_refcounted`): no primitive fails, no source runs out of links before
its row is erased, and with the last link the last payload is gone.
-/

namespace LiNaStore

open Program Store StoreManager

/-- A call of an operation that changes the store. -/
inductive Call
  | put (d : Draws) (fileName : String) (input : Bytes) (cover compressed : Bool)
  | delete (pattern : String) (useRegx : Bool)
  | setFileMode (name : String) (mode : UInt32)

namespace Call

/-- The program of a call. -/
def program (E : Engine) : Call → Prog Unit
  | put d fileName input cover compressed => putBinaryData E d fileName input cover compressed
  | delete pattern useRegx => StoreManager.delete pattern useRegx
  | setFileMode name mode => StoreManager.setFileMode name mode

/-- The identifiers the call draws are new in a state. -/
def Fresh : Call → Store → Prop
  | put d .., s => d.Fresh s
  | _, _ => True

/-- The content the call writes is one of `D`. -/
def Within (D : Set Bytes) : Call → Prop
  | put _ _ input _ _ => input ∈ D
  | _ => True

/-- The error of a call with an empty argument. -/
def refusal : Call → Option StoreError
  | put _ fileName .. => if fileName = "" then some .noFilename else none
  | delete pattern _ => if pattern = "" then some .noFilesRequested else none
  | setFileMode .. => none

end Call

/-- The states of the runs that write contents of `D`. -/
inductive Reachable (E : Engine) (D : Set Bytes) : Store → Prop
  /-- The run has not begun. -/
  | empty : Reachable E D .empty
  /-- The run goes on with a call. -/
  | call {s : Store} (c : Call) : Reachable E D s → c.Fresh s → c.Within D →
      Reachable E D ((c.program E).run Prim.step s).2

/-! ## Changing the mode -/

namespace Store

variable {s : Store} {extra : SourceId → ℕ}

theorem mem_setMode {name : String} {mode : UInt32} {l : Link} :
    l ∈ (s.setMode name mode).links.rows ↔
      ∃ l₀ ∈ s.links.rows, (if l₀.name = name then { l₀ with mode } else l₀) = l := by
  simp only [setMode_links, Table.mem_update, decide_eq_true_eq]

theorem linkNamed_setMode (name : String) (mode : UInt32) (name' : String) :
    (s.setMode name mode).linkNamed name' =
      (s.linkNamed name').map fun l => if l.name = name then { l with mode } else l := by
  rw [linkNamed, linkNamed, linksNamed, linksNamed, setMode_links, Table.update, List.filter_map,
    List.head?_map]
  simp only [decide_eq_true_eq]
  congr 2
  refine List.filter_congr fun l _ => ?_
  rw [Function.comp_apply]
  split <;> rfl

theorem refs_setMode (name : String) (mode : UInt32) (id : SourceId) :
    (s.setMode name mode).refs id = s.refs id := by
  rw [refs, refs, setMode_links, Table.update, List.countP_map]
  refine List.countP_congr fun l _ => ?_
  rw [Function.comp_apply]
  split <;> rfl

theorem Sound.setMode (hs : s.Sound extra) (name : String) (mode : UInt32) :
    (s.setMode name mode).Sound extra := by
  refine hs.of_counted ⟨?_, ?_, hs.count_pos, ?_⟩ (fun _ => rfl) fun _ => rfl
  · intro l hl
    obtain ⟨l₀, hl₀, rfl⟩ := mem_setMode.1 hl
    have : (if l₀.name = name then { l₀ with mode } else l₀).sourceId = l₀.sourceId := by
      split <;> rfl
    rw [this]
    exact hs.source_of_link l₀ hl₀
  · intro id src hsrc
    rw [refs_setMode]
    exact hs.count_eq hsrc
  · intro l₁ h₁ l₂ h₂ heq
    obtain ⟨l₁, h₁', rfl⟩ := mem_setMode.1 h₁
    obtain ⟨l₂, h₂', rfl⟩ := mem_setMode.1 h₂
    have hname : l₁.name = l₂.name := by split_ifs at heq <;> exact heq
    rw [hs.unique_names l₁ h₁' l₂ h₂' hname]

end Store

/-! ## Calls -/

/-- A write keeps the store sound, whichever way it takes. -/
theorem StoreManager.PutEffect.sound {s s' : Store} {extra : SourceId → ℕ} {d : Draws}
    {fileName ext : String} {cover : Bool} {c : Stored} (h : PutEffect s d fileName ext cover c s')
    (hs : s.Sound extra) (hfresh : d.Fresh s) :
    ∃ extra' ≤ extra, s'.Sound extra' := by
  have hupdate : Function.update extra d.sourceId 0 ≤ extra :=
    update_le_self_iff.2 (Nat.zero_le _)
  cases h with
  | replace hl hsrc _ =>
    exact ⟨_, hupdate, hs.replace (mem_of_linkNamed hl).1 hsrc hfresh.sourceId c⟩
  | overwrite hl hsrc _ _ => exact ⟨extra, le_rfl, hs.overwrite hsrc c⟩
  | keep => exact ⟨extra, le_rfl, hs⟩
  | share hl hsrc =>
    exact ⟨extra, le_rfl, hs.share hfresh.linkId hl (source_of_find? hsrc).1⟩
  | create hl _ =>
    exact ⟨_, hupdate, hs.create (l := ⟨d.linkId, fileName, ext, d.sourceId, 420⟩) hfresh.linkId hl
      hfresh.sourceId c⟩

/-- Deleting links keeps the store sound. -/
theorem Store.Sound.deleteAll {s : Store} {extra : SourceId → ℕ} (hs : s.Sound extra)
    {links : List Link} (hl : ∀ l ∈ links, l ∈ s.links.rows) (hnodup : links.Nodup) :
    (s.deleteAll links).Sound extra := by
  induction links generalizing s with
  | nil => exact hs
  | cons l links ih =>
    exact ih (hs.delete (hl l List.mem_cons_self)) (mem_links_delete_of_cons hs hl hnodup)
      (List.nodup_cons.1 hnodup).2

/-- What a call does. -/
inductive Call.Effect (E : Engine) (s : Store) : Call → Store → Prop
  /-- An argument is empty, and nothing is done. -/
  | refused {c : Call} : c.refusal.isSome → Effect E s c s
  | put {d : Draws} {fileName : String} {input : Bytes} {cover compressed : Bool} {s' : Store} :
      fileName ≠ "" → d.Fresh s →
      PutEffect s d fileName (pathExtension fileName) cover (E.pack compressed input) s' →
      Effect E s (.put d fileName input cover compressed) s'
  | delete {pattern : String} {useRegx : Bool} : pattern ≠ "" →
      Effect E s (.delete pattern useRegx) (s.deleteAll (s.listed pattern 0 false useRegx))
  | setFileMode {name : String} {mode : UInt32} :
      Effect E s (.setFileMode name mode) (s.setMode name mode)

/-- A call on a sound store: all primitives succeed, the result is that there is
    none or that an argument is empty. -/
theorem Call.run_effect (E : Engine) (c : Call) {s : Store} {extra : SourceId → ℕ}
    (hs : s.Sound extra) (hfresh : c.Fresh s) :
    (c.program E).Clean Prim.step s ∧
    ((c.program E).run Prim.step s).1 = (match c.refusal with
      | some err => .error err
      | none => .ok ()) ∧
    c.Effect E s ((c.program E).run Prim.step s).2 := by
  cases c with
  | put d fileName input cover compressed =>
    rw [program, refusal]
    by_cases hname : fileName = ""
    · rw [putBinaryData, if_pos hname, if_pos hname]
      exact ⟨trivial, rfl, .refused (by rw [refusal, if_pos hname]; rfl)⟩
    · obtain ⟨s', heff, hput⟩ := performs_putBinaryData E hs hfresh hname input cover compressed
      rw [hput.run_eq, if_neg hname]
      exact ⟨hput.clean, rfl, .put hname hfresh heff⟩
  | delete pattern useRegx =>
    rw [program, refusal]
    by_cases hpattern : pattern = ""
    · rw [StoreManager.delete, if_pos hpattern, if_pos hpattern]
      exact ⟨trivial, rfl, .refused (by rw [refusal, if_pos hpattern]; rfl)⟩
    · have hdel := performs_delete hs hpattern useRegx
      rw [hdel.run_eq, if_neg hpattern]
      exact ⟨hdel.clean, rfl, .delete hpattern⟩
  | setFileMode name mode => exact ⟨⟨⟨(), rfl⟩, trivial⟩, rfl, .setFileMode⟩

/-- A call keeps the store sound. -/
theorem Call.Effect.sound {E : Engine} {s s' : Store} {c : Call} {extra : SourceId → ℕ}
    (h : c.Effect E s s') (hs : s.Sound extra) : ∃ extra' ≤ extra, s'.Sound extra' := by
  cases h with
  | refused _ => exact ⟨extra, le_rfl, hs⟩
  | put _ hfresh heff => exact heff.sound hs hfresh
  | delete _ =>
    exact ⟨extra, le_rfl, hs.deleteAll listed_subset nodup_listed⟩
  | setFileMode => exact ⟨extra, le_rfl, hs.setMode _ _⟩

/-- In particular it keeps the counts exact. -/
theorem Call.sound_run (E : Engine) (c : Call) {s : Store} (hs : s.Sound 0) (hfresh : c.Fresh s) :
    ((c.program E).run Prim.step s).2.Sound 0 := by
  obtain ⟨extra, hle, hs'⟩ := (c.run_effect E hs hfresh).2.2.sound hs
  exact (le_antisymm hle fun _ => Nat.zero_le _) ▸ hs'

theorem Store.sound_empty : Store.empty.Sound 0 where
  source_of_link l hl := absurd hl (List.not_mem_nil)
  count_eq h := by cases h
  count_pos h := by cases h
  unique_names l hl := absurd hl (List.not_mem_nil)
  files p := by
    constructor
    · intro h
      cases h
    · rintro ⟨id, h, _⟩
      cases h

/-- Deleting links leaves the others. -/
theorem Store.Sound.mem_links_deleteAll {s : Store} {extra : SourceId → ℕ} (hs : s.Sound extra)
    {links : List Link} (hl : ∀ l ∈ links, l ∈ s.links.rows) (hnodup : links.Nodup) {l' : Link} :
    l' ∈ (s.deleteAll links).links.rows ↔ l' ∈ s.links.rows ∧ l' ∉ links := by
  induction links generalizing s with
  | nil => simp [Store.deleteAll]
  | cons l links ih =>
    have hmem := hl l List.mem_cons_self
    change l' ∈ ((s.delete l).deleteAll links).links.rows ↔ _
    rw [ih (hs.delete hmem) (mem_links_delete_of_cons hs hl hnodup) (List.nodup_cons.1 hnodup).2,
      mem_links_delete hs hmem, List.mem_cons, not_or, and_assoc]

/-! ## Names -/

/-- A name has a link. -/
def Store.Linked (s : Store) (name : String) : Prop := ∃ l ∈ s.links.rows, l.name = name

theorem Store.linked_iff {s : Store} {name : String} :
    s.Linked name ↔ (s.linkNamed name).isSome := by
  rw [← not_iff_not, Bool.not_eq_true, Option.isSome_eq_false_iff, Option.isNone_iff_eq_none,
    linkNamed_eq_none_iff, Linked]
  push Not
  rfl

theorem Store.linked_setMode {s : Store} (name : String) (mode : UInt32) (name' : String) :
    (s.setMode name mode).Linked name' ↔ s.Linked name' := by
  rw [linked_iff, linked_iff, linkNamed_setMode, Option.isSome_map]

/-- After a write its name has a link, beside those that had one. -/
theorem StoreManager.PutEffect.linked_iff {s s' : Store} {d : Draws} {fileName ext : String}
    {cover : Bool} {c : Stored} (h : PutEffect s d fileName ext cover c s') (hfresh : d.Fresh s)
    (name : String) : s'.Linked name ↔ name = fileName ∨ s.Linked name := by
  have hlinked {l : Link} (hl : s.linkNamed fileName = some l) :
      (s.linkNamed name).isSome ↔ name = fileName ∨ (s.linkNamed name).isSome := by
    refine ⟨.inr, fun hname => hname.elim (fun heq => ?_) id⟩
    rw [heq, hl]
    rfl
  rw [Store.linked_iff, Store.linked_iff]
  cases h with
  | replace hl _ _ =>
    have hrelease (t : Store) (src : Source) : (t.release src).linkNamed name = t.linkNamed name := by
      rw [release]
      split <;> rfl
    rw [hrelease, linkNamed_repoint, Option.isSome_map]
    exact hlinked hl
  | overwrite hl _ _ _ => exact hlinked hl
  | keep hl _ _ _ _ => exact hlinked hl
  | share hl _ =>
    rw [linkNamed_setSource, linkNamed_insertLink hfresh.linkId hl]
    split_ifs with hname <;> simp [hname]
  | create hl _ =>
    have hfree : (s.addSource d.sourceId c).links.find? d.linkId = none := hfresh.linkId
    rw [linkNamed_insertLink (l := ⟨d.linkId, fileName, ext, d.sourceId, 420⟩) hfree hl]
    split_ifs with hname
    · simp [hname]
    · rw [or_iff_right hname]
      rfl

/-! ## Directories -/

theorem Store.dirs_release (s : Store) (src : Source) : (s.release src).dirs = s.dirs := by
  rw [release]
  split <;> rfl

/-- A write leaves the directories as they are. -/
theorem StoreManager.PutEffect.dirs {s s' : Store} {d : Draws} {fileName ext : String} {cover : Bool}
    {c : Stored} (h : PutEffect s d fileName ext cover c s') : s'.dirs = s.dirs := by
  cases h with
  | replace _ _ _ => exact dirs_release _ _
  | _ => rfl

/-- So does a deletion. -/
theorem Store.dirs_deleteAll (s : Store) (links : List Link) : (s.deleteAll links).dirs = s.dirs := by
  induction links generalizing s with
  | nil => rfl
  | cons l links ih =>
    refine (ih (s.delete l)).trans ?_
    rw [Store.delete]
    split
    · exact dirs_release _ _
    · rfl

/-- Without links there are no sources, and no files. -/
theorem Store.Sound.eq_nil {s : Store} (hs : s.Sound 0) (h : s.links.rows = []) :
    s.sources.rows = [] ∧ s.files.rows = [] := by
  have hsources : s.sources.rows = [] := by
    rw [List.eq_nil_iff_forall_not_mem]
    intro src hsrc
    have hcount := hs.count_eq (source_of_mem hsrc)
    have hpos := hs.count_pos (source_of_mem hsrc)
    rw [Store.refs, h] at hcount
    exact absurd (hcount ▸ hpos) (by simp)
  refine ⟨hsources, List.eq_nil_iff_forall_not_mem.2 fun f hf => ?_⟩
  have hfile : (s.file f.path).isSome := by rw [Store.file, Table.find?_key hf]; rfl
  obtain ⟨id, hid, _⟩ := (hs.files _).1 hfile
  obtain ⟨src, hsrc⟩ := Option.isSome_iff_exists.1 hid
  rw [List.eq_nil_iff_forall_not_mem] at hsources
  exact hsources src (mem_of_source hsrc)

namespace Reachable

variable {E : Engine} {D : Set Bytes} {s : Store}

/-- Every state of a run is sound, each source counting its links exactly. -/
theorem sound (h : Reachable E D s) : s.Sound 0 := by
  induction h with
  | empty => exact sound_empty
  | call c _ hfresh _ ih => exact c.sound_run E ih hfresh

end Reachable

/-- In every state of a run the links point to sources, the sources count their
    links and have one at least, the names of the links are different and the
    files are the payloads of the sources. Hence every primitive of the next call
    succeeds and the call is refused only for an empty argument; and without
    links, as after deleting every name, there are no sources and no files. -/
theorem reachable_refcounted {E : Engine} {s : Store} (h : Reachable E Set.univ s) :
    (∀ l ∈ s.links.rows, ∃ src ∈ s.sources.rows, src.id = l.sourceId) ∧
    (∀ src ∈ s.sources.rows, src.count = s.refs src.id ∧ 1 ≤ src.count) ∧
    (s.links.rows.map Link.name).Nodup ∧
    (∀ p, (s.file p).isSome ↔ ∃ src ∈ s.sources.rows, p = src.id.sourcePath) ∧
    (∀ c : Call, c.Fresh s → (c.program E).Clean Prim.step s ∧
      ((c.program E).run Prim.step s).1 = match c.refusal with
        | some err => .error err
        | none => .ok ()) ∧
    (s.links.rows = [] → s.sources.rows = [] ∧ s.files.rows = []) ∧
    ((delete "*" true).run Prim.step s).2.sources.rows = [] ∧
    ((delete "*" true).run Prim.step s).2.files.rows = [] := by
  have hs := h.sound
  refine ⟨fun l hl => ?_, fun src hsrc => ?_, ?_, fun p => ?_, fun c hc => ?_, hs.eq_nil, ?_⟩
  · obtain ⟨src, hsrc⟩ := hs.exists_source hl
    exact ⟨src, mem_of_source hsrc, id_of_source hsrc⟩
  · exact ⟨hs.count_eq (source_of_mem hsrc), hs.count_pos (source_of_mem hsrc)⟩
  · exact (List.Nodup.of_map _ s.links.nodup_keys).map_on hs.unique_names
  · rw [hs.files]
    constructor
    · rintro ⟨id, hid, rfl⟩
      obtain ⟨src, hsrc⟩ := Option.isSome_iff_exists.1 hid
      exact ⟨src, mem_of_source hsrc, by rw [id_of_source hsrc]⟩
    · rintro ⟨src, hsrc, rfl⟩
      exact ⟨src.id, by rw [source_of_mem hsrc]; rfl, rfl⟩
  · exact ⟨(c.run_effect E hs hc).1, (c.run_effect E hs hc).2.1⟩
  · have hstar := performs_delete hs (show "*" ≠ "" by decide) true
    have hall : s.listed "*" 0 false true = s.links.rows := rfl
    have hnodup : s.links.rows.Nodup := List.Nodup.of_map _ s.links.nodup_keys
    rw [hstar.run_eq, hall]
    refine (hs.deleteAll (fun _ hl => hl) hnodup).eq_nil ?_
    rw [List.eq_nil_iff_forall_not_mem]
    intro l hl
    obtain ⟨hl, hnot⟩ := (hs.mem_links_deleteAll (fun _ hl => hl) hnodup).1 hl
    exact hnot hl

/-- Two names share a source; one of them is written again, the other deleted, and a third one
    shares the new source. -/
theorem reachable_refcounted_shared :
    ∃ s, Reachable .plain Set.univ s ∧ s.links.rows.map Link.name = ["a", "c"] ∧
      s.sources.rows.map Source.count = [2] ∧
      ∀ src ∈ s.sources.rows, src.count = s.refs src.id ∧ 1 ≤ src.count := by
  have h : Reachable .plain Set.univ _ :=
    .call (.put (.sample 0) "a" [1] false true) .empty ⟨rfl, rfl⟩ trivial
  have h := h.call (.put (.sample 1) "b" [1] false false) ⟨rfl, rfl⟩ trivial
  have h := h.call (.put (.sample 2) "a" [2] true false) ⟨rfl, rfl⟩ trivial
  have h := h.call (.delete "b" false) trivial trivial
  have h := h.call (.put (.sample 1) "c" [2] false false) ⟨rfl, rfl⟩ trivial
  exact ⟨_, h, rfl, rfl, (reachable_refcounted h).2.1⟩

end LiNaStore
