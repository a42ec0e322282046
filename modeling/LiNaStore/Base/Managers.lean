import LiNaStore.Base.Footprint

/-!
# Managers on one root

A root directory can be opened by several processes, as by the server and by a mounted file
system. Each has a manager with a lock of its own, so that one call of each manager at most is
writing at a time; but the managers share the database and the files, and nothing keeps their
calls apart. A count is read, changed in memory and written back, so a manager can write back a
count that another has changed in the meantime: two names are added to a source, and it counts
one (`managers_miscount`).

This needs calls that are about one source. If calls that overlap have no name, no source and no
hash in common, every interleaving of their primitives is right (`managers_apart`). For each call
under way keeps to its footprint, and does there what it would do alone; and what is in no
footprint is as the calls that have returned have left it (`Managers.Inv`).
-/

namespace LiNaStore

open Program Store StoreManager

variable {ι : Type} {E : Engine} {D : Set Bytes}

/-- The managers of a root: the store they share, the call each has under way, and the calls that
    have returned, the last first. -/
abbrev Managers (ι : Type) := Workers ι Store Call StoreError Prim.Res Unit

/-- The calls that have returned, the last first, with their results. -/
abbrev CallLog := List (Call × Except StoreError Unit)

namespace Managers

/-- A call draws what is new in the store and what no call under way has drawn, and writes a
    content of `D`. -/
structure Begins (D : Set Bytes) (m : Managers ι) (c : Call) : Prop where
  fresh : c.Fresh m.state
  within : c.Within D
  distinct : ∀ i j d d', m.running i = some j → c.draws = some d → j.task.draws = some d' →
    d.Distinct d'

/-- The call is about no name, no source and no hash that a call under way is about. -/
def Apart (E : Engine) (m : Managers ι) (c : Call) : Prop :=
  ∀ i r, m.regions (Call.footprint E) i = some r → (c.footprint E m.state).Apart r

/-- The runs of managers on a new root, in which every call is begun where `P` allows it. -/
def Run [DecidableEq ι] (E : Engine) (D : Set Bytes) (P : Managers ι → Call → Prop)
    (m : Managers ι) : Prop :=
  Workers.Run Prim.step (Call.program E) (fun m _ c => Begins D m c ∧ P m c) .empty m

/-- The content of the last write under a name, if it succeeded and the name was not deleted
    after it. -/
def lastPut (name : String) : CallLog → Option Bytes
  | [] => none
  | (.put _ fileName input _ _, r) :: log =>
    if fileName = name then r.toOption.map fun _ => input else lastPut name log
  | (.delete pattern useRegx, _) :: log =>
    if pattern ≠ "" ∧ nameMatches pattern useRegx name then none else lastPut name log
  | (.setFileMode .., _) :: log => lastPut name log

/-- Every source counts its links, and every name that was written last is readable with what was
    written. -/
def Right (E : Engine) (m : Managers ι) : Prop :=
  (∀ src ∈ m.state.sources.rows, src.count = m.state.refs src.id) ∧
    ∀ name content, lastPut name m.log = some content → m.state.get E name = .ok content

/-- A call that is not about a name leaves what was written last under it. -/
theorem lastPut_of_cons {c : Call} {r : Except StoreError Unit} {log : CallLog} {name : String}
    (hname : name ∉ c.names) : lastPut name ((c, r) :: log) = lastPut name log := by
  cases c with
  | put d fileName input cover compressed => exact if_neg (Ne.symm hname)
  | delete pattern useRegx => exact if_neg hname
  | setFileMode name' mode => rfl

end Managers

/-! ## What is kept of a store -/

/-- A store is sound, its sources are read as contents of `D`, and each of the names is readable
    with what the log has as its last content. -/
structure Kept (E : Engine) (D : Set Bytes) (log : CallLog) (N : Set String) (t : Store) :
    Prop where
  sound : t.Sound 0
  intact : t.Intact E D
  last : ∀ name ∈ N, ∀ content, Managers.lastPut name log = some content →
    t.contents E name = some content

namespace Kept

variable {log : CallLog} {N N' : Set String} {S S' : Set SourceId} {s t t' : Store} {c : Call}
  {r : Except StoreError Unit}

/-- A smaller part is kept if it has the links with its names. -/
theorem only (h : Kept E D log N (s.only S)) (hS : S' ⊆ S) (hN : N' ⊆ N)
    (hlinks : ∀ l ∈ s.links.rows, l.name ∈ N' → l.sourceId ∈ S') :
    Kept E D log N' (s.only S') where
  sound := sound_only_iff.2 ((sound_only_iff.1 h.sound).mono hS)
  intact := intact_only_iff.2 fun id hid => intact_only_iff.1 h.intact id (hS hid)
  last name hname content hlast := by
    have hnamed : ∀ l ∈ s.links.rows, l.name = name → l.sourceId ∈ S' :=
      fun l hl heq => hlinks l hl (heq ▸ hname)
    rw [contents_only E hnamed, ← contents_only E fun l hl heq => hS (hnamed l hl heq)]
    exact h.last name (hN hname) content hlast

/-- Two parts together are kept if each has the links with its names, and no others. -/
theorem union (h : Kept E D log N (s.only S)) (h' : Kept E D log N' (s.only S'))
    (hlinks : ∀ l ∈ s.links.rows, l.name ∈ N ↔ l.sourceId ∈ S)
    (hlinks' : ∀ l ∈ s.links.rows, l.name ∈ N' → l.sourceId ∈ S') :
    Kept E D log (N ∪ N') (s.only (S ∪ S')) where
  sound := by
    refine sound_only_iff.2 ((sound_only_iff.1 h.sound).union (sound_only_iff.1 h'.sound) ?_)
    intro l hl l' hl' hname
    rw [← hlinks l hl, ← hlinks l' hl', hname]
  intact := by
    refine intact_only_iff.2 fun id hid => ?_
    rcases hid with hid | hid
    · exact intact_only_iff.1 h.intact id hid
    · exact intact_only_iff.1 h'.intact id hid
  last name hname content hlast := by
    rcases hname with hname | hname
    · have hnamed : ∀ l ∈ s.links.rows, l.name = name → l.sourceId ∈ S :=
        fun l hl heq => (hlinks l hl).1 (heq ▸ hname)
      rw [contents_only E fun l hl heq => .inl (hnamed l hl heq), ← contents_only E hnamed]
      exact h.last name hname content hlast
    · have hnamed : ∀ l ∈ s.links.rows, l.name = name → l.sourceId ∈ S' :=
        fun l hl heq => hlinks' l hl (heq ▸ hname)
      rw [contents_only E fun l hl heq => .inr (hnamed l hl heq), ← contents_only E hnamed]
      exact h'.last name hname content hlast

/-- What a call is not about is kept when it returns. -/
theorem skip (h : Kept E D log N t) (hN : Disjoint N c.names) : Kept E D ((c, r) :: log) N t where
  sound := h.sound
  intact := h.intact
  last name hname content hlast := by
    rw [Managers.lastPut_of_cons (Set.disjoint_left.1 hN hname)] at hlast
    exact h.last name hname content hlast

/-- A call that runs alone keeps the store. -/
theorem call (hE : E.Lossless) (hD : Set.InjOn E.hash256 D) (h : Kept E D log N t)
    (hfresh : c.Fresh t) (hwithin : c.Within D)
    (hrun : (c.program E).run Prim.step t = (r, t')) : Kept E D ((c, r) :: log) N t' := by
  have hconsistent : t.Consistent E D := ⟨⟨0, h.sound⟩, h.intact⟩
  have hresult := (c.run_effect E h.sound hfresh).2.1
  have hsound := c.sound_run E h.sound hfresh
  have hintact := (hconsistent.run hE c hfresh hwithin).intact
  have hcontents := hconsistent.contents_run hE hD c hfresh hwithin
  rw [hrun] at hresult hsound hintact hcontents
  change r = _ at hresult
  refine ⟨hsound, hintact, fun name hname content hlast => ?_⟩
  have ih := h.last name hname content
  rw [hcontents]
  cases c with
  | put d fileName input cover compressed =>
    rw [Managers.lastPut, hresult, Call.refusal] at hlast
    by_cases hempty : fileName = ""
    · rw [if_pos hempty] at hlast
      rw [Call.apply, if_pos hempty]
      split at hlast
      · cases hlast
      · exact ih hlast
    · rw [if_neg hempty] at hlast
      rw [Call.apply, if_neg hempty, Contents.put]
      split at hlast
      · next heq =>
        rw [heq, Function.update_self]
        exact hlast
      · next hne => rw [Function.update_of_ne (Ne.symm hne), ih hlast]
  | delete pattern useRegx =>
    rw [Managers.lastPut] at hlast
    rw [Call.apply]
    split at hlast
    · cases hlast
    · next hnot =>
      split
      · exact ih hlast
      · next hpattern => rw [Contents.delete, if_neg fun h => hnot ⟨hpattern, h⟩, ih hlast]
  | setFileMode name mode => exact ih hlast

end Kept

/-! ## Runs in which the calls are apart -/

namespace Managers

variable {m : Managers ι} {i : ι} {c : Call}

/-- What no call under way is about. -/
def rest (E : Engine) (m : Managers ι) : Footprint where
  names := {name | ∀ i r, m.regions (Call.footprint E) i = some r → name ∉ r.names}
  sources := {id | ∀ i r, m.regions (Call.footprint E) i = some r → id ∉ r.sources}
  linkIds := ∅
  hashes := ∅

/-- A call under way drew what was new and writes a content of `D`, and what it is about was kept
    when it began. -/
structure Begun (E : Engine) (D : Set Bytes) (log : CallLog)
    (j : Workers.Job Store Call StoreError Prim.Res Unit) : Prop where
  fresh : j.task.Fresh j.start
  within : j.task.Within D
  kept : Kept E D log (j.task.footprint E j.start).names
    (j.start.only (j.task.footprint E j.start).sources)

/-- The calls under way keep to footprints that are apart, and what they are not about is kept. -/
structure Inv (E : Engine) (D : Set Bytes) (m : Managers ι) : Prop where
  keeps : m.Local Footprint.locality (Call.program E) (Call.footprint E)
  begun : ∀ i j, m.running i = some j → Begun E D m.log j
  rest : Kept E D m.log (m.rest E).names (m.state.only (m.rest E).sources)

/-- What no call is about is closed, since the footprints of the calls are. -/
theorem closed_rest (h : m.Local Footprint.locality (Call.program E) (Call.footprint E)) :
    (m.rest E).Closed m.state where
  links l hl := by
    refine forall₂_congr fun i r => imp_congr_right fun hr => not_congr ?_
    obtain ⟨j, hj, rfl⟩ := Option.map_eq_some_iff.1 hr
    exact (h.alone i j hj).closed.links l hl
  linkIds _ _ hid := hid.elim
  hashes _ _ hhash := hhash.elim

theorem apart_rest {r : Footprint} (hi : m.regions (Call.footprint E) i = some r) :
    r.Apart (m.rest E) where
  names := Set.disjoint_left.2 fun _ hname hrest => hrest i r hi hname
  sources := Set.disjoint_left.2 fun _ hid hrest => hrest i r hi hid
  linkIds := Set.disjoint_empty _
  hashes := Set.disjoint_empty _

namespace Inv

theorem init : Inv E D (⟨.empty, fun _ => none, []⟩ : Managers ι) where
  keeps := ⟨nofun, nofun⟩
  begun := nofun
  rest := ⟨sound_empty, (fun _ _ h => by cases h), fun _ _ _ h => by cases h⟩

variable [DecidableEq ι]

/-- A call begins: what it is about was kept with the rest. -/
theorem begins (h : Inv E D m) (hi : m.running i = none) (hc : Begins D m c)
    (hapart : Apart E m c) :
    Inv E D { m with
      running := Function.update m.running i (some ⟨c, m.state, c.program E⟩) } := by
  have hnames : (c.footprint E m.state).names ⊆ (m.rest E).names :=
    fun name hname i r hr => Set.disjoint_left.1 (hapart i r hr).names hname
  have hsources : (c.footprint E m.state).sources ⊆ (m.rest E).sources :=
    fun id hid i r hr => Set.disjoint_left.1 (hapart i r hr).sources hid
  have hrest := closed_rest h.keeps
  have hclosed : (c.footprint E m.state).Closed m.state := by
    refine Call.closed_footprint hc.fresh fun l hl l' hl' hid hname => ?_
    -- both links are in the rest, where names are unique
    have hid' : l'.sourceId ∈ (m.rest E).sources := by
      rw [← hrest.links l' hl', ← hname, hrest.links l hl]
      exact hsources hid
    exact (sound_only_iff.1 h.rest.sound).unique_names l hl l' hl' (hsources hid) hid' hname
  have hkept : Kept E D m.log (c.footprint E m.state).names
      (m.state.only (c.footprint E m.state).sources) :=
    h.rest.only hsources hnames fun l hl => (hclosed.links l hl).1
  have hkeeps := h.keeps.begins (i := i) hclosed
    (Call.along_program hkept.sound (hc.fresh.only _)) fun i' r hr =>
      ⟨hapart i' r hr, (hapart i' r hr).symm⟩
  refine ⟨hkeeps, ?_, ?_⟩
  · refine (Function.forall_update_iff m.running fun _ x => ∀ j, x = some j →
      Begun E D m.log j).mpr ⟨?_, fun i' _ => h.begun i'⟩
    rintro j ⟨⟩
    exact ⟨hc.fresh, hc.within, hkept⟩
  · -- the rest has become smaller
    have hold {i' : ι} {r : Footprint} (hr : m.regions (Call.footprint E) i' = some r) :
        Function.update (m.regions (Call.footprint E)) i (some (c.footprint E m.state)) i' =
          some r := by
      rw [Function.update_of_ne, hr]
      rintro rfl
      rw [Workers.regions, hi] at hr
      cases hr
    rw [← Workers.regions_begins (p := c.program E)] at hold
    refine h.rest.only (fun id hid i' r hr => hid i' r (hold hr))
      (fun name hname i' r hr => hname i' r (hold hr)) fun l hl => ?_
    exact ((closed_rest hkeeps).links l hl).1

/-- A call goes on: it does not touch the rest. -/
theorem act {s : Store} {o : Prim} {k : Except StoreError o.Res → Prog Unit} (h : Inv E D m)
    (hi : m.running i = some ⟨c, s, .call o k⟩) :
    Inv E D { m with
      state := (o.step m.state).2
      running := Function.update m.running i (some ⟨c, s, k (o.step m.state).1⟩) } := by
  have hactor := h.keeps.alone i _ hi
  refine ⟨h.keeps.act hi, ?_, ?_⟩
  · refine (Function.forall_update_iff m.running fun _ x => ∀ j, x = some j →
      Begun E D m.log j).mpr ⟨?_, fun i' _ => h.begun i'⟩
    rintro j ⟨⟩
    exact ⟨(h.begun i _ hi).fresh, (h.begun i _ hi).within, (h.begun i _ hi).kept⟩
  · have hview : (o.step m.state).2.only (m.rest E).sources = m.state.only (m.rest E).sources :=
      (Footprint.locality.frame hactor.closed hactor.along.1
        (apart_rest (Workers.regions_eq_some hi)) (closed_rest h.keeps)).1
    have hrest : Managers.rest E { m with
        state := (o.step m.state).2
        running := Function.update m.running i (some ⟨c, s, k (o.step m.state).1⟩) } =
        m.rest E := by
      rw [Managers.rest, Workers.regions_act _ hi]
      rfl
    have hkept := h.rest
    rw [← hview] at hkept
    rw [hrest]
    exact hkept

/-- A call returns: what it was about is kept again, and joins the rest. -/
theorem ends (hE : E.Lossless) (hD : Set.InjOn E.hash256 D) {s : Store}
    {r : Except StoreError Unit} (h : Inv E D m) (hi : m.running i = some ⟨c, s, .ret r⟩) :
    Inv E D { m with
      running := Function.update m.running i none
      log := (c, r) :: m.log } := by
  have hregion : m.regions (Call.footprint E) i = some (c.footprint E s) :=
    Workers.regions_eq_some hi
  have hkeeps := h.keeps.ends (i := i) ((c, r) :: m.log)
  have hbegun := h.begun i _ hi
  have halone := h.keeps.alone i _ hi
  have hown : c.names ⊆ (c.footprint E s).names := fun name hname => .inl hname
  have hkept : Kept E D ((c, r) :: m.log) (c.footprint E s).names
      (m.state.only (c.footprint E s).sources) :=
    hbegun.kept.call hE hD (hbegun.fresh.only _) hbegun.within halone.result
  refine ⟨hkeeps, ?_, ?_⟩
  · refine (Function.forall_update_iff m.running fun _ x => ∀ j, x = some j →
      Begun E D ((c, r) :: m.log) j).mpr ⟨nofun, fun i' hne j hj => ?_⟩
    have hj' := h.begun i' j hj
    have hapart := h.keeps.apart i' i _ _ hne (Workers.regions_eq_some hj) hregion
    exact ⟨hj'.fresh, hj'.within, hj'.kept.skip (hapart.names.mono_right hown)⟩
  · have hrest : Kept E D ((c, r) :: m.log) (m.rest E).names (m.state.only (m.rest E).sources) :=
      h.rest.skip ((apart_rest hregion).symm.names.mono_right hown)
    have hclosed := closed_rest h.keeps
    have hunion := hrest.union hkept hclosed.links fun l hl => (halone.closed.links l hl).1
    have hold {i' : ι} {r' : Footprint} (hr' : m.regions (Call.footprint E) i' = some r') :
        r' = c.footprint E s ∨
          Function.update (m.regions (Call.footprint E)) i none i' = some r' := by
      by_cases hi' : i' = i
      · rw [hi', hregion] at hr'
        exact .inl (Option.some.inj hr').symm
      · rw [Function.update_of_ne hi']
        exact .inr hr'
    rw [← Workers.regions_ends _ _ _ ((c, r) :: m.log)] at hold
    refine hunion.only (fun id hid => ?_) (fun name hname => ?_) fun l hl =>
      ((closed_rest hkeeps).links l hl).1
    · by_cases hmem : id ∈ (c.footprint E s).sources
      · exact .inr hmem
      · exact .inl fun i' r' hr' => (hold hr').elim (fun heq => heq ▸ hmem) (hid i' r')
    · by_cases hmem : name ∈ (c.footprint E s).names
      · exact .inr hmem
      · exact .inl fun i' r' hr' => (hold hr').elim (fun heq => heq ▸ hmem) (hname i' r')

end Inv

theorem Run.inv [DecidableEq ι] (hE : E.Lossless) (hD : Set.InjOn E.hash256 D)
    (h : Run E D (Apart E) m) :
    Inv E D m := by
  induction h with
  | init => exact .init
  | begins i c _ hi hc ih => exact ih.begins hi hc.1 hc.2
  | act i _ hi ih => exact ih.act hi
  | ends i _ hi ih => exact ih.ends hE hD hi

end Managers

/-- In every run of managers in which calls that overlap have no name, no source and no hash in
    common, however their primitives are interleaved: once all are idle every source counts its
    links, and every name that was written last is readable with what was written. -/
theorem managers_apart [DecidableEq ι] (hE : E.Lossless) (hD : Set.InjOn E.hash256 D)
    {m : Managers ι} (h : Managers.Run E D (Managers.Apart E) m) (hidle : m.Idle) :
    m.Right E := by
  have hinv := h.inv hE hD
  have hnone {i : ι} {r : Footprint} : m.regions (Call.footprint E) i ≠ some r := by
    rw [Workers.regions, hidle i]
    rintro ⟨⟩
  -- no call is under way, so that the rest is all there is
  have hsources (id : SourceId) : id ∈ (m.rest E).sources := fun i r hr => absurd hr hnone
  have hnames (name : String) : name ∈ (m.rest E).names := fun i r hr => absurd hr hnone
  refine ⟨fun src hsrc => ?_, fun name content hlast => ?_⟩
  · exact (sound_only_iff.1 hinv.rest.sound).count_eq (hsources src.id) (source_of_mem hsrc)
  · have hcontent := hinv.rest.last name (hnames name) content hlast
    rw [contents_only E fun l _ _ => hsources l.sourceId, Store.contents] at hcontent
    rcases hget : m.state.get E name with e | bytes
    · rw [hget] at hcontent
      cases hcontent
    · rw [hget] at hcontent
      rw [Option.some.inj hcontent]

/-- A write of a content under a name. -/
def samplePut (d : Fin 3) (name : String) (content : Bytes) : Call :=
  .put (.sample d) name content false false

/-- The store in which `b` has been written with `[2]` and then `a` with `[1]`. -/
def twoNames : Store :=
  ((samplePut 1 "a" [1]).program .plain |>.run Prim.step
    ((samplePut 0 "b" [2]).program .plain |>.run Prim.step .empty).2).2

/-- A write that adds a name to the source of `b` is apart from the deletion of `a`. -/
theorem apart_twoNames :
    ((samplePut 2 "c" [2]).footprint .plain twoNames).Apart
      ((Call.delete "a" false).footprint .plain twoNames) := by
  have hlinks : twoNames.links.rows = [⟨"link-a", "b", "", (Draws.sample 0).sourceId, 420⟩,
      ⟨"link-b", "a", "", (Draws.sample 1).sourceId, 420⟩] := rfl
  have hsources : twoNames.sources.rows =
      [⟨(Draws.sample 0).sourceId, Engine.plain.hash256 [2], false, 1, 1⟩,
        ⟨(Draws.sample 1).sourceId, Engine.plain.hash256 [1], false, 1, 1⟩] := rfl
  refine Call.apart_footprint ?_ ?_ ?_ (Set.disjoint_empty _) nofun
  · rw [UniqueNames, hlinks]
    decide
  · simp [samplePut, Call.names, nameMatches]
  · have hhash : Engine.plain.hash256 [1] ≠ Engine.plain.hash256 [2] := by decide
    have hput : (samplePut 2 "c" [2]).sources .plain twoNames =
        {(Draws.sample 0).sourceId, (Draws.sample 2).sourceId} := by
      ext id
      simp [samplePut, Call.sources, hlinks, hsources, Call.names, Call.hashes, Call.draws, hhash,
        eq_comm]
    have hdelete : (Call.delete "a" false).sources .plain twoNames =
        {(Draws.sample 1).sourceId} := by
      ext id
      simp [Call.sources, hlinks, Call.names, Call.hashes, Call.draws, nameMatches,
        eq_comm (a := id)]
    rw [hput, hdelete, Set.disjoint_singleton_right]
    decide

/-- Two names are written. Then one manager deletes the second of them while the other adds a name
    to the source of the first, one primitive after the other: each gives up or adds a link between
    the two primitives by which the other does. -/
theorem managers_apart_interleaved :
    ∃ m : Managers (Fin 2), Managers.Run .plain {[1], [2]} (Managers.Apart .plain) m ∧ m.Idle ∧
      m.state.links.rows.map Link.name = ["b", "c"] ∧
      m.state.sources.rows.map Source.count = [2] ∧ m.Right .plain := by
  have h : Managers.Run (ι := Fin 2) .plain {[1], [2]} (Managers.Apart .plain) _ := .init
  have h := h.whole (i := 0) (c := samplePut 0 "b" [2]) rfl ⟨⟨⟨rfl, rfl⟩, Or.inr rfl, nofun⟩, nofun⟩
  have h := h.whole (i := 1) (c := samplePut 1 "a" [1]) rfl ⟨⟨⟨rfl, rfl⟩, Or.inl rfl, nofun⟩, nofun⟩
  have h := h.begins 0 (Call.delete "a" false) rfl ⟨⟨trivial, trivial, nofun⟩, nofun⟩
  have h := h.begins 1 (samplePut 2 "c" [2]) rfl ⟨⟨⟨rfl, rfl⟩, Or.inr rfl,
    Fin.forall_fin_two.mpr ⟨by rintro j d d' ⟨⟩ _ ⟨⟩, nofun⟩⟩,
    Fin.forall_fin_two.mpr ⟨by rintro r ⟨⟩; exact apart_twoNames, nofun⟩⟩
  have h := (((h.act 0 rfl).act 1 rfl).act 0 rfl).act 1 rfl
  have h := (((h.act 0 rfl).act 1 rfl).act 0 rfl).act 1 rfl
  have h := (h.finish (i := 0) rfl).ends 1 rfl
  refine ⟨_, h, ?idle, rfl, rfl,
    managers_apart Engine.lossless_plain injOn_hash256_plain h ?idle⟩
  exact Fin.forall_fin_two.mpr ⟨rfl, rfl⟩

/-! ## Calls about one source -/

/-- One manager writes `[1]` under `a`. Then both write it, under `b` and `c`: both read that the
    source counts one link, and both write back that it counts two. -/
theorem managers_miscount :
    ∃ m : Managers (Fin 2), Managers.Run .plain {[1]} (fun _ _ => True) m ∧ m.Idle ∧
      (∀ r ∈ m.log.map Prod.snd, r = .ok ()) ∧ m.state.sources.rows.map Source.count = [2] ∧
      m.state.links.rows.length = 3 ∧ ¬ m.Right .plain := by
  have h : Managers.Run (ι := Fin 2) .plain {[1]} (fun _ _ => True) _ := .init
  have h := h.whole (i := 0) (c := samplePut 0 "a" [1]) rfl ⟨⟨⟨rfl, rfl⟩, rfl, nofun⟩, trivial⟩
  have h := h.begins 0 (samplePut 1 "b" [1]) rfl ⟨⟨⟨rfl, rfl⟩, rfl, nofun⟩, trivial⟩
  have h := h.begins 1 (samplePut 2 "c" [1]) rfl ⟨⟨⟨rfl, rfl⟩, rfl,
    Fin.forall_fin_two.mpr ⟨by rintro j d d' ⟨⟩ ⟨⟩ ⟨⟩; exact ⟨by decide, by decide⟩, nofun⟩⟩, trivial⟩
  -- both look for the name and for the source, before one of them writes
  have h := (h.act 0 rfl).act 0 rfl
  have h := (h.act 1 rfl).act 1 rfl
  have h := (h.finish (i := 0) rfl).finish (i := 1) rfl
  refine ⟨_, h, Fin.forall_fin_two.mpr ⟨rfl, rfl⟩, ?_, rfl, rfl, fun hright => ?_⟩
  · decide
  · exact absurd (hright.1 _ (.head _)) (by decide)

end LiNaStore
