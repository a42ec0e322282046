import LiNaStore.Tidy.Effect
import Mathlib.Data.Set.Function

/-!
# Tidying and the contents of files

Tidying replaces files by symlinks to a file with the same content, and it is to be hoped that what
is read from a path stays the same. But the manager keeps what it has noted: an entry made in an
earlier call has the date of the file its path led to then, and by now the path may be a symlink to
another file. If such an entry is the one that is chosen, the file it leads to is replaced by a
symlink to it, and nothing leads to the content any more (`tidied_twice`).

After a call all files noted with a hash lead to one with the date of the file that was kept, and
those noted with another date are symlinks to it (`TidyState.Settled`). The next call keeps the
contents if and only if no entry out of date is chosen, that is, if each is beaten by one that is up
to date (`TidyCall.Current`, `tidy_keeps_contents_iff`). It is so if the call prefers the same dates
as the one before (`TidyCall.current_of_settled`); with one preference, contents are kept in any
number of calls (`read_foldl_run`).
-/

namespace LiNaStore

open TidyManager

/-! ## The file that is kept -/

namespace TidyManager

variable {k : Bool} {a b : String}

theorem preferred_irrefl (k : Bool) (a : String) : preferred k a a = false := by
  cases k <;> simp [preferred]

theorem preferred_trans {c : String} (hab : preferred k a b) (hbc : preferred k b c) :
    preferred k a c := by
  cases k
  · simp only [preferred, Bool.false_eq_true, if_false, decide_eq_true_eq] at hab hbc ⊢
    exact hab.trans hbc
  · simp only [preferred, if_true, decide_eq_true_eq] at hab hbc ⊢
    exact hbc.trans hab

theorem not_preferred_of_preferred (hab : preferred k a b) : ¬preferred k b a := by
  intro hba
  have hself := preferred_trans hab hba
  rw [preferred_irrefl] at hself
  cases hself

theorem preferred_of_ne (h : ¬preferred k a b) (hne : a ≠ b) : preferred k b a := by
  cases k
  · simp only [preferred, Bool.false_eq_true, if_false, decide_eq_true_eq, not_lt] at h ⊢
    exact lt_of_le_of_ne h hne.symm
  · simp only [preferred, if_true, decide_eq_true_eq, not_lt] at h ⊢
    exact lt_of_le_of_ne h hne

/-- A file is the first with its date, and its date is preferred to the others. -/
structure Extreme (k : Bool) (infos : List FileInfo) (target : FileInfo) : Prop where
  first : infos.find? (·.date = target.date) = some target
  beats : ∀ info ∈ infos, info.date ≠ target.date → preferred k target.date info.date

theorem Extreme.mem {infos : List FileInfo} {target : FileInfo} (h : Extreme k infos target) :
    target ∈ infos := List.mem_of_find?_eq_some h.first

/-- The choice goes on with one more file. -/
theorem Extreme.concat {infos : List FileInfo} {target : FileInfo} (h : Extreme k infos target)
    (info : FileInfo) : Extreme k (infos ++ [info])
      (if preferred k info.date target.date then info else target) := by
  split_ifs with hbetter
  · have hbeats {info' : FileInfo} (hinfo' : info' ∈ infos) : preferred k info.date info'.date := by
      by_cases heq : info'.date = target.date
      · rwa [heq]
      · exact preferred_trans hbetter (h.beats info' hinfo' heq)
    refine ⟨?_, fun info' hinfo' hne => ?_⟩
    · rw [List.find?_append, List.find?_eq_none.mpr, Option.none_or, List.find?_cons_of_pos]
      · exact decide_eq_true rfl
      · intro info' hinfo' heq
        have hself := hbeats hinfo'
        rw [of_decide_eq_true heq, preferred_irrefl] at hself
        cases hself
    · rcases List.mem_append.mp hinfo' with hinfo' | hinfo'
      · exact hbeats hinfo'
      · exact absurd (congrArg FileInfo.date (List.mem_singleton.mp hinfo')) hne
  · refine ⟨?_, fun info' hinfo' hne => ?_⟩
    · rw [List.find?_append, h.first, Option.some_or]
    · rcases List.mem_append.mp hinfo' with hinfo' | hinfo'
      · exact h.beats info' hinfo' hne
      · rw [List.mem_singleton.mp hinfo'] at hne ⊢
        exact preferred_of_ne hbetter hne

theorem extreme_findExtremeFile (k : Bool) (first : FileInfo) (rest : List FileInfo) :
    Extreme k (first :: rest) (findExtremeFile (preferred k) first rest) := by
  induction rest using List.reverseRecOn with
  | nil =>
    refine ⟨List.find?_cons_of_pos (decide_eq_true rfl), fun info hinfo hne => ?_⟩
    exact absurd (congrArg FileInfo.date (List.mem_singleton.mp hinfo)) hne
  | append_singleton rest info ih =>
    have h := ih.concat info
    rw [findExtremeFile, List.foldl_append, List.foldl_cons, List.foldl_nil]
    exact h

theorem extreme_of_target? {infos : List FileInfo} {target : FileInfo}
    (h : target? k infos = some target) : Extreme k infos target := by
  cases infos with
  | nil => cases h
  | cons first rest =>
    cases h
    exact extreme_findExtremeFile k first rest

theorem exists_target? {infos : List FileInfo} {info : FileInfo} (h : info ∈ infos) :
    ∃ target, target? k infos = some target := by
  cases infos with
  | nil => cases h
  | cons first rest => exact ⟨_, rfl⟩

end TidyManager

/-! ## Groups -/

/-- The date of an entry is that of the file its path leads to. -/
def FileInfo.UpToDate (format : ℤ → String) (D : Disk) (info : FileInfo) : Prop :=
  ∃ file, D.file? info.path = some file ∧ info.date = format file.created

/-- After a call, the entries of a hash lead to files with the date of the one that was kept, and
    those with other dates are symlinks to it. -/
structure SettledGroup (hash256 : Bytes → String) (format : ℤ → String) (k : Bool) (D : Disk)
    (key : String) (infos : List FileInfo) (target : FileInfo) : Prop
    extends Extreme k infos target where
  only : ∀ info ∈ infos, info.path = target.path → info.date = target.date
  leads : ∀ info ∈ infos, ∃ file, D.Leads info.path file ∧ hash256 file.bytes = key ∧
    format file.created = target.date
  linked : ∀ info ∈ infos, info.date ≠ target.date → D.next info.path = some (.inl target.path)

/-- All groups are as a call leaves them. -/
def TidyState.Settled (hash256 : Bytes → String) (format : ℤ → String) (k : Bool) (st : TidyState) :
    Prop :=
  ∀ key, st.infos key = [] ∨ ∃ target, SettledGroup hash256 format k st.disk key (st.infos key) target

/-- The entries of a hash when a call has noted its files: those there were, and new ones that are
    up to date. -/
structure NotedGroup (hash256 : Bytes → String) (format : ℤ → String) (k : Bool) (D : Disk)
    (key : String) (old new : List FileInfo) : Prop where
  settled : old = [] ∨ ∃ target, SettledGroup hash256 format k D key old target
  noted : ∀ info ∈ new, ∃ file, D.Leads info.path file ∧ hash256 file.bytes = key ∧
    info.date = format file.created

namespace NotedGroup

variable {hash256 : Bytes → String} {format : ℤ → String} {k k' : Bool} {D : Disk} {key : String}
  {old new : List FileInfo} {target info : FileInfo} {file : RegularFile}

theorem exists_settled (h : NotedGroup hash256 format k D key old new) (hold : info ∈ old) :
    ∃ target, SettledGroup hash256 format k D key old target := by
  refine h.settled.resolve_left ?_
  rintro rfl
  cases hold

theorem upToDate_of_noted (h : NotedGroup hash256 format k D key old new) (hnew : info ∈ new) :
    info.UpToDate format D := by
  obtain ⟨file, hleads, _, hdate⟩ := h.noted info hnew
  exact ⟨file, Disk.file?_eq_some_iff.mpr hleads, hdate⟩

theorem leads (h : NotedGroup hash256 format k D key old new) (hinfo : info ∈ old ++ new) :
    ∃ file, D.Leads info.path file ∧ hash256 file.bytes = key := by
  rcases List.mem_append.mp hinfo with hold | hnew
  · obtain ⟨target, hsettled⟩ := h.exists_settled hold
    obtain ⟨file, hleads, hkey, _⟩ := hsettled.leads info hold
    exact ⟨file, hleads, hkey⟩
  · obtain ⟨file, hleads, hkey, _⟩ := h.noted info hnew
    exact ⟨file, hleads, hkey⟩

/-- An entry from before the call has the date of the file it leads to, or the target was kept by
    the last call, too, and the entry is linked to it. -/
theorem date_eq_or (h : NotedGroup hash256 format k D key old new)
    (htarget : Extreme k' (old ++ new) target) (hinfo : info ∈ old ++ new)
    (hleads : D.Leads info.path file) (hfile : format file.created = target.date) :
    info.date = target.date ∨
      D.next info.path = some (.inl target.path) ∧ info.path ≠ target.path := by
  rcases List.mem_append.mp hinfo with hold | hnew
  · obtain ⟨target₀, hsettled⟩ := h.exists_settled hold
    obtain ⟨file', hleads', _, hdate⟩ := hsettled.leads info hold
    rw [← hleads.unique hleads', hfile] at hdate
    -- both are the first of the entries with that date
    have heq : target = target₀ := by
      have hfirst := htarget.first
      rw [List.find?_append, hdate, hsettled.first, Option.some_or] at hfirst
      exact (Option.some.inj hfirst).symm
    subst heq
    by_cases hne : info.date = target.date
    · exact .inl hne
    · exact .inr ⟨hsettled.linked info hold hne, fun hpath => hne (hsettled.only info hold hpath)⟩
  · obtain ⟨file', hleads', _, hdate⟩ := h.noted info hnew
    rw [← hleads.unique hleads', hfile] at hdate
    exact .inl hdate

/-- If the target is up to date, then so are the entries with its date. -/
theorem upToDate (h : NotedGroup hash256 format k D key old new)
    (htarget : Extreme k' (old ++ new) target) (hcurrent : target.UpToDate format D)
    (hinfo : info ∈ old ++ new) (hdate : info.date = target.date) : info.UpToDate format D := by
  rcases List.mem_append.mp hinfo with hold | hnew
  · -- the target is the first with its date, so it was there before the call
    have hmem : target ∈ old := by
      have hfirst := htarget.first
      have hsome : (old.find? (·.date = target.date)).isSome :=
        List.find?_isSome.mpr ⟨info, hold, decide_eq_true hdate⟩
      obtain ⟨first, hfirst'⟩ := Option.isSome_iff_exists.mp hsome
      rw [List.find?_append, hfirst', Option.some_or] at hfirst
      rw [← Option.some.inj hfirst]
      exact List.mem_of_find?_eq_some hfirst'
    obtain ⟨target₀, hsettled⟩ := h.exists_settled hold
    obtain ⟨file₀, hfile₀, hdate₀⟩ := hcurrent
    obtain ⟨file₁, hleads₁, _, hdate₁⟩ := hsettled.leads target hmem
    obtain ⟨file, hleads, _, hdate'⟩ := hsettled.leads info hold
    refine ⟨file, Disk.file?_eq_some_iff.mpr hleads, ?_⟩
    rw [hdate, hdate₀, (Disk.file?_eq_some_iff.mp hfile₀).unique hleads₁, hdate₁, hdate']
  · exact h.upToDate_of_noted hnew

/-- If the target is up to date, its path has no other date. -/
theorem only (h : NotedGroup hash256 format k D key old new)
    (htarget : Extreme k' (old ++ new) target) (hcurrent : target.UpToDate format D)
    (hinfo : info ∈ old ++ new) (hpath : info.path = target.path) : info.date = target.date := by
  obtain ⟨file, hfile, hdate⟩ := hcurrent
  have hleads : D.Leads info.path file := hpath ▸ Disk.file?_eq_some_iff.mp hfile
  exact (h.date_eq_or htarget hinfo hleads hdate.symm).resolve_right fun hother => hother.2 hpath

/-- If the target is up to date, entries with other dates are not on the way from it. -/
theorem not_reaches (h : NotedGroup hash256 format k D key old new)
    (htarget : Extreme k' (old ++ new) target) (hcurrent : target.UpToDate format D)
    (hinfo : info ∈ old ++ new) (hdate : info.date ≠ target.date) :
    ¬Chase.Reaches D.next target.path info.path := by
  intro hreaches
  -- an entry on the way leads to the same file; being out of date, it would be linked back
  obtain ⟨file, hfile, hdate'⟩ := hcurrent
  have hleads := Disk.file?_eq_some_iff.mp hfile
  obtain ⟨hstep, _⟩ := (h.date_eq_or htarget hinfo (hleads.of_reaches hreaches)
    hdate'.symm).resolve_left hdate
  exact hleads.not_transGen (.tail' hreaches hstep)

/-- If the target is out of date, it is linked to an entry with another date. -/
theorem linked_of_stale (h : NotedGroup hash256 format k D key old new)
    (htarget : Extreme k' (old ++ new) target) (hstale : ¬target.UpToDate format D) :
    ∃ info ∈ old ++ new, info.date ≠ target.date ∧ info.path ≠ target.path ∧
      D.next target.path = some (.inl info.path) := by
  rcases List.mem_append.mp htarget.mem with hold | hnew
  · obtain ⟨target₀, hsettled⟩ := h.exists_settled hold
    obtain ⟨file, hleads, _, hdate⟩ := hsettled.leads target hold
    have hne : target.date ≠ target₀.date := fun heq =>
      hstale ⟨file, Disk.file?_eq_some_iff.mpr hleads, heq.trans hdate.symm⟩
    exact ⟨target₀, List.mem_append_left _ hsettled.mem, hne.symm,
      fun hpath => hne (hsettled.only target hold hpath.symm), hsettled.linked target hold hne⟩
  · exact absurd (h.upToDate_of_noted hnew) hstale

/-- If the dates are preferred as before, the target is up to date. -/
theorem upToDate_of_extreme (h : NotedGroup hash256 format k D key old new)
    (htarget : Extreme k (old ++ new) target) : target.UpToDate format D := by
  rcases List.mem_append.mp htarget.mem with hold | hnew
  · obtain ⟨target₀, hsettled⟩ := h.exists_settled hold
    obtain ⟨file, hleads, _, hdate⟩ := hsettled.leads target hold
    refine ⟨file, Disk.file?_eq_some_iff.mpr hleads, ?_⟩
    rw [hdate]
    by_contra hne
    exact not_preferred_of_preferred (hsettled.beats target hold hne)
      (htarget.beats target₀ (List.mem_append_left _ hsettled.mem) (Ne.symm hne))
  · exact h.upToDate_of_noted hnew

end NotedGroup

/-! ## A call -/

namespace TidyCall

/-- Every entry of the map that is out of date is beaten by one with the same hash that is up to
    date, or by a file with this hash below the directory of the call. -/
def Current (hash256 : Bytes → String) (format : ℤ → String) (c : TidyCall) (st : TidyState) : Prop :=
  ∀ key, ∀ info ∈ st.infos key, ¬info.UpToDate format st.disk →
    (∃ info' ∈ st.infos key, info'.UpToDate format st.disk ∧
      preferred c.keepNew info'.date info.date) ∨
    ∃ path file, FileBelow st.disk c.target path ∧ st.disk.file? path = some file ∧
      hash256 file.bytes = key ∧ preferred c.keepNew (format file.created) info.date

variable {hash256 : Bytes → String} {format : ℤ → String} {k : Bool} {c : TidyCall} {st : TidyState}
  {key : String} {target info : FileInfo} {path path' : Path} {file : RegularFile}

/-- The entries when the call has noted its files. -/
theorem mem_collected_iff : info ∈ (c.collected hash256 format st).infos key ↔
    info ∈ st.infos key ∨ FileBelow st.disk c.target info.path ∧
      ∃ file, st.disk.file? info.path = some file ∧ hash256 file.bytes = key ∧
        info.date = format file.created := by
  obtain ⟨paths, hpaths, _, _, hinfos⟩ := c.run_collect hash256 format st
  rw [hinfos, List.mem_append]
  refine or_congr_right ?_
  simp only [List.mem_filterMap, found_eq_some_iff, Disk.file?_eq_some_iff, hpaths]
  constructor
  · rintro ⟨path, hbelow, rfl, hfile⟩
    exact ⟨hbelow, hfile⟩
  · rintro ⟨hbelow, hfile⟩
    exact ⟨info.path, hbelow, rfl, hfile⟩

theorem exists_notedGroup (hst : st.Settled hash256 format k) (key : String) : ∃ old new,
    NotedGroup hash256 format k st.disk key old new ∧
      (c.collected hash256 format st).infos key = old ++ new := by
  obtain ⟨paths, _, _, _, hinfos⟩ := c.run_collect hash256 format st
  refine ⟨st.infos key, _, ⟨hst key, fun info hinfo => ?_⟩, hinfos key⟩
  obtain ⟨path, _, hfound⟩ := List.mem_filterMap.mp hinfo
  obtain ⟨rfl, hfile⟩ := (found_eq_some_iff hash256 format).mp hfound
  exact hfile

theorem leads_of_mem (hst : st.Settled hash256 format k)
    (hinfo : info ∈ (c.collected hash256 format st).infos key) :
    ∃ file, st.disk.Leads info.path file ∧ hash256 file.bytes = key := by
  obtain ⟨old, new, hnoted, heq⟩ := exists_notedGroup (c := c) hst key
  rw [heq] at hinfo
  exact hnoted.leads hinfo

/-- A path is moved only in the group of its hash. -/
theorem groupMoves_of_moves (hst : st.Settled hash256 format k)
    (hmoves : c.Moves hash256 format st path path') (hleads : st.disk.Leads path file) :
    GroupMoves c.keepNew ((c.collected hash256 format st).infos (hash256 file.bytes)) path path' := by
  obtain ⟨key, hgroup⟩ := hmoves
  obtain ⟨_, _, _, info, hinfo, rfl, _⟩ := id hgroup
  obtain ⟨file', hleads', rfl⟩ := leads_of_mem hst hinfo
  rwa [hleads.unique hleads']

theorem exists_leads_of_moves (hst : st.Settled hash256 format k)
    (hmoves : c.Moves hash256 format st path path') : ∃ file, st.disk.Leads path file := by
  obtain ⟨key, _, _, _, info, hinfo, rfl, _⟩ := hmoves
  obtain ⟨file, hleads, _⟩ := leads_of_mem hst hinfo
  exact ⟨file, hleads⟩

/-- What a call does to the disk. -/
theorem exists_redirected (hst : st.Settled hash256 format k) (c : TidyCall) :
    ∃ D', c.run hash256 format st = (.ok (), ⟨D', (c.collected hash256 format st).mapCache⟩) ∧
      st.disk.Redirected (c.Moves hash256 format st) D' := by
  refine c.run_eq hash256 format st (fun key info hinfo => ?_)
    fun path target target' hmoves hmoves' => ?_
  · obtain ⟨file, hleads, _⟩ := leads_of_mem hst hinfo
    exact Disk.Leads.isLeaf hleads
  · obtain ⟨file, hleads⟩ := exists_leads_of_moves hst hmoves
    obtain ⟨t, ht, heq, _⟩ := groupMoves_of_moves hst hmoves hleads
    obtain ⟨t', ht', heq', _⟩ := groupMoves_of_moves hst hmoves' hleads
    rw [heq, heq', Option.some.inj (ht.symm.trans ht')]

/-- No entry out of date is chosen. -/
theorem current_iff (hst : st.Settled hash256 format k) : c.Current hash256 format st ↔
    ∀ key target, target? c.keepNew ((c.collected hash256 format st).infos key) = some target →
      target.UpToDate format st.disk := by
  constructor
  · intro hcurrent key target htarget
    have hextreme := extreme_of_target? htarget
    -- nothing that has been noted is preferred to the target
    have hbest {date : String} (hbetter : preferred c.keepNew date target.date)
        (hnoted : ∃ info ∈ (c.collected hash256 format st).infos key, info.date = date) : False := by
      obtain ⟨info, hinfo, rfl⟩ := hnoted
      refine not_preferred_of_preferred hbetter (hextreme.beats info hinfo fun heq => ?_)
      rw [heq, preferred_irrefl] at hbetter
      cases hbetter
    rcases mem_collected_iff.mp hextreme.mem with hold | ⟨_, file, hfile, _, hdate⟩
    · by_contra hstale
      rcases hcurrent key target hold hstale with
        ⟨info, hinfo, _, hbetter⟩ | ⟨path, file, hbelow, hfile, hkey, hbetter⟩
      · exact hbest hbetter ⟨info, mem_collected_iff.mpr (.inl hinfo), rfl⟩
      · exact hbest hbetter ⟨⟨path, format file.created⟩,
          mem_collected_iff.mpr (.inr ⟨hbelow, file, hfile, hkey, rfl⟩), rfl⟩
    · exact ⟨file, hfile, hdate⟩
  · intro h key info hold hstale
    have hinfo : info ∈ (c.collected hash256 format st).infos key :=
      mem_collected_iff.mpr (.inl hold)
    obtain ⟨old, new, hnoted, heq⟩ := exists_notedGroup (c := c) hst key
    obtain ⟨target, htarget⟩ := exists_target? (k := c.keepNew) hinfo
    have hcurrent := h key target htarget
    have hextreme := extreme_of_target? htarget
    have hbetter : preferred c.keepNew target.date info.date := by
      refine hextreme.beats info hinfo fun hdate => hstale ?_
      rw [heq] at hinfo hextreme
      exact hnoted.upToDate hextreme hcurrent hinfo hdate
    rcases mem_collected_iff.mp hextreme.mem with hold' | ⟨hbelow, file, hfile, hkey, hdate⟩
    · exact .inl ⟨target, hold', hcurrent, hbetter⟩
    · exact .inr ⟨target.path, file, hbelow, hfile, hkey, hdate ▸ hbetter⟩

/-- A call that prefers the same dates as the one before chooses no entry out of date. -/
theorem current_of_settled (hst : st.Settled hash256 format c.keepNew) :
    c.Current hash256 format st := by
  refine (current_iff hst).mpr fun key target htarget => ?_
  obtain ⟨old, new, hnoted, heq⟩ := exists_notedGroup (c := c) hst key
  have hextreme := extreme_of_target? htarget
  rw [heq] at hextreme
  exact hnoted.upToDate_of_extreme hextreme

/-! ### Contents that are kept -/

/-- The file that another one is replaced by: itself, or the one kept of those with its hash. -/
def Replaces (hash256 : Bytes → String) (format : ℤ → String) (c : TidyCall) (st : TidyState)
    (file file' : RegularFile) : Prop :=
  file' = file ∨ ∃ target,
    target? c.keepNew ((c.collected hash256 format st).infos (hash256 file.bytes)) = some target ∧
      st.disk.Leads target.path file'

section

variable {D' : Disk} (hst : st.Settled hash256 format k) (hcurrent : c.Current hash256 format st)
  (hD' : st.disk.Redirected (c.Moves hash256 format st) D')

include hst in
theorem isLeaf_of_moves (path path' : Path) (hmoves : c.Moves hash256 format st path path') :
    st.disk.IsLeaf path := by
  obtain ⟨file, hleads⟩ := exists_leads_of_moves hst hmoves
  exact Disk.Leads.isLeaf hleads

include hst hcurrent in
theorem exists_leads_target
    (htarget : target? c.keepNew ((c.collected hash256 format st).infos key) = some target) :
    ∃ file, st.disk.Leads target.path file ∧ hash256 file.bytes = key ∧
      format file.created = target.date := by
  obtain ⟨file, hfile, hdate⟩ := (current_iff hst).mp hcurrent key target htarget
  have hleads := Disk.file?_eq_some_iff.mp hfile
  obtain ⟨file', hleads', hkey⟩ := leads_of_mem hst (extreme_of_target? htarget).mem
  exact ⟨file, hleads, hleads.unique hleads' ▸ hkey, hdate.symm⟩

include hst hcurrent hD' in
/-- The way from a file that is kept stays as it is. -/
theorem leads_target
    (htarget : target? c.keepNew ((c.collected hash256 format st).infos key) = some target)
    (hleads : st.disk.Leads target.path file) : D'.Leads target.path file := by
  obtain ⟨file', hleads', hkey, _⟩ := exists_leads_target hst hcurrent htarget
  obtain ⟨old, new, hnoted, heq⟩ := exists_notedGroup (c := c) hst key
  have hextreme := extreme_of_target? htarget
  refine hleads.congr fun path hreaches => hD'.next_kept (isLeaf_of_moves hst) fun path' hmoves => ?_
  -- a path on the way has the target's hash, so it could be moved in the target's group only
  obtain ⟨target', htarget', _, info, hinfo, rfl, hdate, _⟩ :=
    groupMoves_of_moves hst hmoves (hleads.of_reaches hreaches)
  rw [hleads.unique hleads', hkey] at htarget' hinfo
  rw [← Option.some.inj (htarget.symm.trans htarget')] at hdate
  rw [heq] at hinfo hextreme
  exact hnoted.not_reaches hextreme ((current_iff hst).mp hcurrent key target htarget) hinfo hdate
    hreaches

include hst hcurrent hD' in
/-- What is moved leads to the file it is moved to. -/
theorem leads_moved {infos : List FileInfo}
    (hinfos : (c.collected hash256 format st).infos key = infos)
    (htarget : target? c.keepNew infos = some target) (hleads : st.disk.Leads target.path file)
    (hmoves : TidyManager.Moves target infos path path') :
    D'.next path = some (.inl target.path) ∧ D'.Leads path file := by
  subst hinfos
  obtain ⟨rfl, info, hinfo, rfl, hdate, hne⟩ := hmoves
  have hnext := hD'.next_moved (isLeaf_of_moves hst)
    ⟨key, target, htarget, rfl, info, hinfo, rfl, hdate, hne⟩ (Disk.Leads.isLeaf hleads) hne
  exact ⟨hnext, .step hnext (leads_target hst hcurrent hD' htarget hleads)⟩

include hst hcurrent hD' in
theorem leads_replaced (hleads : st.disk.Leads path file) :
    ∃ file', D'.Leads path file' ∧ c.Replaces hash256 format st file file' := by
  refine hleads.redirect (S := {path | ∃ path', c.Moves hash256 format st path path'})
    (fun _ => .inl rfl) (fun path hpath => ?_) fun path hpath file hleads => ?_
  · exact hD'.next_kept (isLeaf_of_moves hst) (not_exists.mp hpath)
  · obtain ⟨path', hmoves⟩ := hpath
    obtain ⟨target, htarget, hmoves⟩ := groupMoves_of_moves hst hmoves hleads
    obtain ⟨file', hleads', _⟩ := exists_leads_target hst hcurrent htarget
    exact ⟨file', (leads_moved hst hcurrent hD' rfl htarget hleads' hmoves).2,
      .inr ⟨target, htarget, hleads'⟩⟩

include hst hcurrent hD' in
/-- What is read from a path stays the same. -/
theorem read_eq {C : Set Bytes} (hhash : Set.InjOn hash256 C)
    (hC : ∀ path file, st.disk.node path = some (.file file) → file.bytes ∈ C) (path : Path) :
    D'.read path = st.disk.read path := by
  have hmem {path : Path} {file : RegularFile} (hleads : st.disk.Leads path file) : file.bytes ∈ C := by
    obtain ⟨path', hnode⟩ := Disk.Leads.exists_node hleads
    exact hC path' file hnode
  have hkept {file : RegularFile} (hleads : st.disk.Leads path file) :
      ∃ file', D'.Leads path file' ∧ file'.bytes = file.bytes := by
    obtain ⟨file', hleads', rfl | ⟨target, htarget, htarget'⟩⟩ :=
      leads_replaced hst hcurrent hD' hleads
    · exact ⟨file', hleads', rfl⟩
    · refine ⟨file', hleads', hhash (hmem htarget') (hmem hleads) ?_⟩
      obtain ⟨file'', hleads'', hkey, _⟩ := exists_leads_target hst hcurrent htarget
      rw [htarget'.unique hleads'', hkey]
  ext bytes
  rw [Disk.read_eq_some_iff, Disk.read_eq_some_iff]
  constructor
  · rintro ⟨file', hleads', rfl⟩
    obtain ⟨file, hleads⟩ := hleads'.of_redirect
      (S := {path | ∃ path', c.Moves hash256 format st path path'})
      (fun path hpath => hD'.next_kept (isLeaf_of_moves hst) (not_exists.mp hpath))
      fun path ⟨path', hmoves⟩ => exists_leads_of_moves hst hmoves
    obtain ⟨file'', hleads'', hbytes⟩ := hkept hleads
    exact ⟨file, hleads, by rw [hleads'.unique hleads'', hbytes]⟩
  · rintro ⟨file, hleads, rfl⟩
    exact hkept hleads

include hst hcurrent hD' in
theorem settled : TidyState.Settled hash256 format c.keepNew
    ⟨D', (c.collected hash256 format st).mapCache⟩ := by
  intro key
  change (c.collected hash256 format st).infos key = [] ∨ ∃ target, SettledGroup hash256 format
    c.keepNew D' key ((c.collected hash256 format st).infos key) target
  by_cases hnil : (c.collected hash256 format st).infos key = []
  · exact .inl hnil
  · obtain ⟨_, hfirst⟩ := List.exists_mem_of_ne_nil _ hnil
    obtain ⟨target, htarget⟩ := exists_target? (k := c.keepNew) hfirst
    obtain ⟨old, new, hnoted, heq⟩ := exists_notedGroup (c := c) hst key
    obtain ⟨file, hleads, hkey, hdate⟩ := exists_leads_target hst hcurrent htarget
    have hupToDate := (current_iff hst).mp hcurrent key target htarget
    have hextreme := extreme_of_target? htarget
    have hextreme' := hextreme
    rw [heq] at hextreme'
    have honly (info : FileInfo) (hinfo : info ∈ (c.collected hash256 format st).infos key)
        (hpath : info.path = target.path) : info.date = target.date :=
      hnoted.only hextreme' hupToDate (heq ▸ hinfo) hpath
    have hmoved (info : FileInfo) (hinfo : info ∈ (c.collected hash256 format st).infos key)
        (hne : info.date ≠ target.date) :
        D'.next info.path = some (.inl target.path) ∧ D'.Leads info.path file :=
      leads_moved hst hcurrent hD' rfl htarget hleads
        ⟨rfl, info, hinfo, rfl, hne, fun hpath => hne (honly info hinfo hpath)⟩
    refine .inr ⟨target, hextreme, honly, fun info hinfo => ?_, fun info hinfo hne =>
      (hmoved info hinfo hne).1⟩
    by_cases hne : info.date = target.date
    · -- it is not moved, but may lead through a path that is: to the target's file, then
      obtain ⟨file₁, hfile₁, hdate₁⟩ := hnoted.upToDate hextreme' hupToDate (heq ▸ hinfo) hne
      have hleads₁ := Disk.file?_eq_some_iff.mp hfile₁
      obtain ⟨file₂, hleads₂, hkey₂⟩ := leads_of_mem hst hinfo
      rw [← hleads₁.unique hleads₂] at hkey₂
      obtain ⟨file', hleads', rfl | ⟨target', htarget', hleads''⟩⟩ :=
        leads_replaced hst hcurrent hD' hleads₁
      · exact ⟨file', hleads', hkey₂, by rw [← hdate₁, hne]⟩
      · rw [hkey₂] at htarget'
        rw [← Option.some.inj (htarget.symm.trans htarget')] at hleads''
        rw [hleads''.unique hleads] at hleads'
        exact ⟨file, hleads', hkey, hdate⟩
    · exact ⟨file, (hmoved info hinfo hne).2, hkey, hdate⟩

end

/-! ### Contents that are lost -/

/-- If an entry out of date is chosen, its path and the one it is linked to are linked to each
    other. -/
theorem not_leads_of_stale {D' : Disk} (hst : st.Settled hash256 format k)
    (hD' : st.disk.Redirected (c.Moves hash256 format st) D')
    (htarget : target? c.keepNew ((c.collected hash256 format st).infos key) = some target)
    (hstale : ¬target.UpToDate format st.disk) : ¬∃ file, D'.Leads target.path file := by
  obtain ⟨old, new, hnoted, heq⟩ := exists_notedGroup (c := c) hst key
  have hextreme := extreme_of_target? htarget
  obtain ⟨file, hleads, hkey⟩ := leads_of_mem hst hextreme.mem
  rw [heq] at hextreme
  obtain ⟨info, hinfo, hdate, hne, hnext⟩ := hnoted.linked_of_stale hextreme hstale
  rw [← heq] at hinfo
  have hback : D'.next info.path = some (.inl target.path) :=
    hD'.next_moved (isLeaf_of_moves hst) ⟨key, target, htarget, rfl, info, hinfo, rfl, hdate, hne⟩
      (Disk.Leads.isLeaf hleads) hne
  -- the target is not moved: its group is that of its hash, and there it is the target
  have hforth : D'.next target.path = some (.inl info.path) := by
    rw [hD'.next_kept (isLeaf_of_moves hst) fun path' hmoves => ?_, hnext]
    obtain ⟨target', htarget', _, info', _, hpath, _, hne'⟩ := groupMoves_of_moves hst hmoves hleads
    rw [hkey] at htarget'
    rw [← Option.some.inj (htarget.symm.trans htarget')] at hne'
    exact hne' hpath
  rintro ⟨file', hleads'⟩
  exact hleads'.not_transGen (.head hforth (.single hback))

end TidyCall

/-! ## Runs -/

/-- The states of a manager and the file system, when it is called again and again and no entry out
    of date is ever chosen. -/
inductive TidyRun (hash256 : Bytes → String) (format : ℤ → String) (D : Disk) : TidyState → Prop
  | new : TidyRun hash256 format D ⟨D, .empty⟩
  | call {st : TidyState} (c : TidyCall) : TidyRun hash256 format D st →
      c.Current hash256 format st → TidyRun hash256 format D (c.run hash256 format st).2

variable {hash256 : Bytes → String} {format : ℤ → String} {D : Disk} {st : TidyState} {C : Set Bytes}

/-- In such a run the groups are settled, what is read stays the same, and no file is added. -/
theorem TidyRun.settled (h : TidyRun hash256 format D st) (hhash : Set.InjOn hash256 C)
    (hC : ∀ path file, D.node path = some (.file file) → file.bytes ∈ C) :
    (∃ k, st.Settled hash256 format k) ∧ (∀ path, st.disk.read path = D.read path) ∧
      ∀ path file, st.disk.node path = some (.file file) → file.bytes ∈ C := by
  induction h with
  | new => exact ⟨⟨false, fun _ => .inl rfl⟩, fun _ => rfl, hC⟩
  | call c _ hcurrent ih =>
    obtain ⟨⟨k, hst⟩, hread, hfiles⟩ := ih
    obtain ⟨D', hrun, hD'⟩ := TidyCall.exists_redirected hst c
    rw [hrun]
    exact ⟨⟨_, TidyCall.settled hst hcurrent hD'⟩,
      fun path => (TidyCall.read_eq hst hcurrent hD' hhash hfiles path).trans (hread path),
      fun path file hnode => hfiles path file (hD'.node_file hnode)⟩

/-- A manager is called again and again on a file system, with any directories and preferences, and
    no entry out of date has been chosen. Then what is read from a path is what was read at the
    start, and a further call keeps it so if and only if it does not choose an entry out of date,
    either: if each such entry is beaten by one with the same hash that is up to date, or by a file
    the call finds. -/
theorem tidy_keeps_contents_iff (hhash : Set.InjOn hash256 C)
    (hC : ∀ path file, D.node path = some (.file file) → file.bytes ∈ C)
    (h : TidyRun hash256 format D st) (c : TidyCall) :
    (∀ path, st.disk.read path = D.read path) ∧ (c.run hash256 format st).1 = .ok () ∧
      ((∀ path, (c.run hash256 format st).2.disk.read path = D.read path) ↔
        c.Current hash256 format st) := by
  obtain ⟨⟨k, hst⟩, hread, hfiles⟩ := h.settled hhash hC
  obtain ⟨D', hrun, hD'⟩ := TidyCall.exists_redirected hst c
  rw [hrun]
  refine ⟨hread, rfl, fun hsame => (TidyCall.current_iff hst).mpr fun key target htarget => ?_,
    fun hcurrent path => (TidyCall.read_eq hst hcurrent hD' hhash hfiles path).trans (hread path)⟩
  by_contra hstale
  -- the chosen path was read before the call, and leads nowhere after it
  obtain ⟨file, hleads, _⟩ := TidyCall.leads_of_mem hst (extreme_of_target? htarget).mem
  have hbefore : st.disk.read target.path = some file.bytes :=
    Disk.read_eq_some_iff.mpr ⟨file, hleads, rfl⟩
  rw [hread, ← hsame] at hbefore
  obtain ⟨file', hleads', _⟩ := Disk.read_eq_some_iff.mp hbefore
  exact TidyCall.not_leads_of_stale hst hD' htarget hstale ⟨file', hleads'⟩

/-- If all calls prefer the same dates, contents are kept. -/
theorem read_foldl_run (hhash : Set.InjOn hash256 C)
    (hC : ∀ path file, D.node path = some (.file file) → file.bytes ∈ C) {k : Bool}
    {calls : List TidyCall} (hcalls : ∀ c ∈ calls, c.keepNew = k) (path : Path) :
    (calls.foldl (fun st c => (TidyCall.run hash256 format c st).2) ⟨D, .empty⟩).disk.read path =
      D.read path := by
  suffices h : ∀ st : TidyState, st.Settled hash256 format k →
      (∀ path file, st.disk.node path = some (.file file) → file.bytes ∈ C) →
      (calls.foldl (fun st c => (TidyCall.run hash256 format c st).2) st).disk.read path =
        st.disk.read path from h _ (fun _ => .inl rfl) hC
  induction calls with
  | nil => exact fun _ _ _ => rfl
  | cons c calls ih =>
    intro st hst hfiles
    obtain ⟨rfl, hcalls⟩ := List.forall_mem_cons.mp hcalls
    have hcurrent := TidyCall.current_of_settled hst
    obtain ⟨D', hrun, hD'⟩ := TidyCall.exists_redirected hst c
    rw [List.foldl_cons, hrun, ih hcalls _ (TidyCall.settled hst hcurrent hD')
      fun path file hnode => hfiles path file (hD'.node_file hnode)]
    exact TidyCall.read_eq hst hcurrent hD' hhash hfiles path

/-! ## An entry out of date -/

/-- Two files with the same content, one created after the other. -/
def Disk.sample : Disk where
  entries := ⟨[⟨[.str "a"], .file ⟨[1], 1⟩⟩, ⟨[.str "b"], .file ⟨[1], 2⟩⟩], by decide⟩
  parent := by decide

theorem Disk.node_sample {path : Path} {node : Node} (h : Disk.sample.node path = some node) :
    path = [] ∧ node = .dir ∨ path = [.str "a"] ∧ node = .file ⟨[1], 1⟩ ∨
      path = [.str "b"] ∧ node = .file ⟨[1], 2⟩ := by
  rw [Disk.node] at h
  split_ifs at h with hnil
  · cases h
    exact .inl ⟨hnil, rfl⟩
  · obtain ⟨entry, hentry, rfl⟩ := Option.map_eq_some_iff.mp h
    obtain ⟨hmem, rfl⟩ := Table.find?_eq_some_iff.mp hentry
    rcases List.mem_cons.mp hmem with rfl | hmem
    · exact .inr (.inl ⟨rfl, rfl⟩)
    · cases List.mem_singleton.mp hmem
      exact .inr (.inr ⟨rfl, rfl⟩)

/-- A call on the root. -/
def TidyCall.sample (keepNew : Bool) : TidyCall := ⟨[], keepNew, .byAge⟩

/-- A date, written with its last digit. -/
def sampleDate (created : ℤ) : String := if created = 1 then "20240101000001" else "20240101000002"

/-- First the older file is kept, then the newer one is to be: the two are symlinks to each other,
    and the content is lost. -/
theorem tidied_twice :
    let st₁ := ((TidyCall.sample false).run Engine.plain.hash256 sampleDate ⟨.sample, .empty⟩).2
    let st₂ := ((TidyCall.sample true).run Engine.plain.hash256 sampleDate st₁).2
    Disk.sample.read [.str "a"] = some [1] ∧ Disk.sample.read [.str "b"] = some [1] ∧
      st₁.disk.read [.str "a"] = some [1] ∧ st₁.disk.read [.str "b"] = some [1] ∧
      st₂.disk.read [.str "a"] = none ∧ st₂.disk.read [.str "b"] = none := by decide

/-- After the first of these calls contents are as they were, and in the second an entry out of date
    is chosen. -/
theorem tidy_keeps_contents_iff_sample :
    let st₁ := ((TidyCall.sample false).run Engine.plain.hash256 sampleDate ⟨.sample, .empty⟩).2
    (∀ path, st₁.disk.read path = Disk.sample.read path) ∧
      ¬(TidyCall.sample true).Current Engine.plain.hash256 sampleDate st₁ := by
  have hrun : TidyRun Engine.plain.hash256 sampleDate .sample _ :=
    .call (.sample false) .new (TidyCall.current_of_settled fun _ => .inl rfl)
  have hbytes (path : Path) (file : RegularFile)
      (hnode : Disk.sample.node path = some (.file file)) : file.bytes ∈ ({[1]} : Set Bytes) := by
    rcases Disk.node_sample hnode with ⟨-, hdir⟩ | ⟨-, hfile⟩ | ⟨-, hfile⟩
    · cases hdir
    · cases hfile
      rfl
    · cases hfile
      rfl
  obtain ⟨hread, _, hiff⟩ := tidy_keeps_contents_iff (C := {[1]}) (Set.injOn_singleton _ _) hbytes
    hrun (.sample true)
  refine ⟨hread, fun hcurrent => ?_⟩
  have hlost := hiff.mpr hcurrent [.str "a"]
  revert hlost
  decide

end LiNaStore
