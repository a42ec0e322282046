import LiNaStore.Tidy.Contents

/-!
# Tidying and duplicates

Tidying is to leave one file of each content and to make symlinks to it of the others
(`TidyCall.Deduplicated`). But of the files with a content, those are left alone that have the date
of the file that is kept, and dates are written down to the second. A call of a new manager on a
directory with regular files leaves one of each content exactly if one of them has a date that is
preferred to the dates of all others, and has it rightly (`tidy_deduplicates_iff`).
-/

namespace LiNaStore

open TidyManager

namespace TidyCall

/-- A file below the directory of a call, with a content. -/
structure InGroup (c : TidyCall) (D : Disk) (bytes : Bytes) (path : Path) (file : RegularFile) :
    Prop where
  below : FileBelow D c.target path
  node : D.node path = some (.file file)
  bytes : file.bytes = bytes

/-- The time of a file that is kept may be `a` if that of another one is `b`. -/
def Prefers (c : TidyCall) (a b : ℤ) : Prop := if c.keepNew then b ≤ a else a ≤ b

/-- Of the files with a content one is left, with a time that is to be kept, and the others have
    become symlinks to it. -/
def Deduplicated (c : TidyCall) (D D' : Disk) (bytes : Bytes) : Prop :=
  ∃ path file, c.InGroup D bytes path file ∧ D'.node path = some (.file file) ∧
    (∀ path' file', c.InGroup D bytes path' file' → c.Prefers file.created file'.created) ∧
    ∀ path' file', c.InGroup D bytes path' file' → path' ≠ path →
      ∃ target, D'.node path' = some (.symlink target) ∧
        D'.locate path'.dropLast target = some path

/-- Of the files with a content one has a date that is preferred to those of the others, and a time
    that is to be kept. -/
def Singled (c : TidyCall) (format : ℤ → String) (D : Disk) (bytes : Bytes) : Prop :=
  ∃ path file, c.InGroup D bytes path file ∧
    ∀ path' file', c.InGroup D bytes path' file' → path' ≠ path →
      preferred c.keepNew (format file.created) (format file'.created) ∧
        c.Prefers file.created file'.created

section Group

variable {hash256 : Bytes → String} (format : ℤ → String) {c : TidyCall} {D : Disk} {bytes : Bytes}
  {path : Path} {file : RegularFile}

theorem leads_iff_of_node (hnode : D.node path = some (.file file)) (file' : RegularFile) :
    D.Leads path file' ↔ file' = file := by
  have hleads : D.Leads path file := .stop (by rw [Disk.next, hnode])
  refine ⟨fun h => h.unique hleads, ?_⟩
  rintro rfl
  exact hleads

/-- What a new manager notes with the hash of a content are the files with the content. -/
theorem mem_infos_iff (hhash : Set.InjOn hash256 {bytes | ∃ path file, c.InGroup D bytes path file})
    (hfiles : ∀ path, FileBelow D c.target path → ∃ file, D.node path = some (.file file))
    (hgroup : c.InGroup D bytes path file) (info : FileInfo) :
    info ∈ (c.collected hash256 format ⟨D, .empty⟩).infos (hash256 bytes) ↔
      ∃ file', c.InGroup D bytes info.path file' ∧ info.date = format file'.created := by
  obtain ⟨paths, hpaths, -, -, hinfos⟩ := c.run_collect hash256 format ⟨D, .empty⟩
  have hempty : TidyState.infos ⟨D, .empty⟩ (hash256 bytes) = [] := rfl
  rw [hinfos, hempty, List.nil_append, List.mem_filterMap]
  simp only [found_eq_some_iff]
  constructor
  · rintro ⟨path', hpath', rfl, file', hleads, hkey, hdate⟩
    have hbelow := (hpaths _).1 hpath'
    obtain ⟨file'', hnode⟩ := hfiles _ hbelow
    obtain rfl := (leads_iff_of_node hnode file').1 hleads
    refine ⟨file', ⟨hbelow, hnode, ?_⟩, hdate⟩
    exact hhash ⟨_, _, hbelow, hnode, rfl⟩ ⟨_, _, hgroup⟩ hkey
  · rintro ⟨file', hgroup', hdate⟩
    exact ⟨info.path, (hpaths _).2 hgroup'.below, rfl, file',
      (leads_iff_of_node hgroup'.node file').2 rfl, congrArg hash256 hgroup'.bytes, hdate⟩

/-- What becomes of the files with a content: those with the date of the one that is chosen stay, and
    the others, whose dates are beaten, are linked to it. -/
theorem exists_chosen (hhash : Set.InjOn hash256 {bytes | ∃ path file, c.InGroup D bytes path file})
    (hfiles : ∀ path, FileBelow D c.target path → ∃ file, D.node path = some (.file file))
    {D' : Disk} (hD' : D.Redirected (c.Moves hash256 format ⟨D, .empty⟩) D')
    (hgroup : c.InGroup D bytes path file) :
    ∃ chosen file, c.InGroup D bytes chosen file ∧
      ∀ path' file', c.InGroup D bytes path' file' →
        (format file'.created = format file.created ∧ D'.node path' = some (.file file')) ∨
        (path' ≠ chosen ∧ preferred c.keepNew (format file.created) (format file'.created) ∧
          ∃ target, D'.node path' = some (.symlink target) ∧
            D'.locate path'.dropLast target = some chosen) := by
  have hst : TidyState.Settled hash256 format c.keepNew ⟨D, .empty⟩ := fun _ => .inl rfl
  have hmem (info : FileInfo) := mem_infos_iff format hhash hfiles hgroup info
  obtain ⟨chosen, hchosen⟩ := exists_target? (k := c.keepNew)
    ((hmem ⟨path, format file.created⟩).2 ⟨file, hgroup, rfl⟩)
  have hextreme := extreme_of_target? hchosen
  obtain ⟨file₀, hgroup₀, hdate₀⟩ := (hmem chosen).1 hextreme.mem
  refine ⟨chosen.path, file₀, hgroup₀, fun path' file' hgroup' => ?_⟩
  have hleads' : D.Leads path' file' := (leads_iff_of_node hgroup'.node file').2 rfl
  have hinfo := (hmem ⟨path', format file'.created⟩).2 ⟨file', hgroup', rfl⟩
  by_cases hdate : format file'.created = format file₀.created
  · refine .inl ⟨hdate, ?_⟩
    rw [hD'.kept path' fun target hmoves => ?_, hgroup'.node]
    -- the path is noted with this date only, and that is not moved
    obtain ⟨target', htarget', -, info, hinfo', rfl, hne, -⟩ := groupMoves_of_moves hst hmoves hleads'
    rw [hgroup'.bytes] at htarget' hinfo'
    rw [← Option.some.inj (hchosen.symm.trans htarget'), hdate₀] at hne
    obtain ⟨file'', hgroup'', hdate''⟩ := (hmem info).1 hinfo'
    rw [(leads_iff_of_node hgroup'.node file'').1 ((leads_iff_of_node hgroup''.node file'').2 rfl)]
      at hdate''
    exact hne (hdate''.trans hdate)
  · have hne : path' ≠ chosen.path := by
      rintro rfl
      rw [(leads_iff_of_node hgroup₀.node file').1 hleads'] at hdate
      exact hdate rfl
    rw [← hdate₀] at hdate ⊢
    have hmoves : c.Moves hash256 format ⟨D, .empty⟩ path' chosen.path :=
      ⟨_, chosen, hchosen, rfl, _, hinfo, rfl, hdate, hne⟩
    have hnext := hD'.next_moved (isLeaf_of_moves hst) hmoves hgroup₀.below.1 hne
    have hnode := hD'.moved path' chosen.path hmoves
    rw [Disk.next, hnode] at hnext
    obtain ⟨located, hlocate, hinl⟩ := Option.map_eq_some_iff.1 hnext
    cases hinl
    exact .inr ⟨hne, hextreme.beats _ hinfo hdate, _, hnode, hlocate⟩

end Group

end TidyCall

/-- A call of a new manager on a directory with regular files leaves one file of each content, the
    others being symlinks to it, exactly if one file of each content has a date that is preferred to
    the dates of the others, and a time that is to be kept. -/
theorem tidy_deduplicates_iff {hash256 : Bytes → String} (format : ℤ → String) {c : TidyCall} {D : Disk}
    (hhash : Set.InjOn hash256 {bytes | ∃ path file, c.InGroup D bytes path file})
    (hfiles : ∀ path, FileBelow D c.target path → ∃ file, D.node path = some (.file file)) :
    ∃ st', c.run hash256 format ⟨D, .empty⟩ = (.ok (), st') ∧
      ((∀ bytes, (∃ path file, c.InGroup D bytes path file) → c.Deduplicated D st'.disk bytes) ↔
        ∀ bytes, (∃ path file, c.InGroup D bytes path file) → c.Singled format D bytes) := by
  have hst : TidyState.Settled hash256 format c.keepNew ⟨D, .empty⟩ := fun _ => .inl rfl
  obtain ⟨D', hrun, hD'⟩ := TidyCall.exists_redirected hst c
  refine ⟨_, hrun, forall₂_congr fun bytes hgroup => ?_⟩
  obtain ⟨path, file, hgroup⟩ := hgroup
  obtain ⟨chosen, file₀, hgroup₀, hafter⟩ := TidyCall.exists_chosen format hhash hfiles hD' hgroup
  have hkept : D'.node chosen = some (.file file₀) :=
    (hafter chosen file₀ hgroup₀).elim And.right fun h => absurd rfl h.1
  have hfile {path : Path} {file file' : RegularFile} (h : c.InGroup D bytes path file)
      (h' : c.InGroup D bytes path file') : file = file' := by
    have hnode := h.node.symm.trans h'.node
    cases hnode
    rfl
  constructor
  · rintro ⟨left, file₁, hgroup₁, -, hprefers, hlinked⟩
    -- what is left is the file that was chosen, as that is no symlink
    have hleft : left = chosen := by
      by_contra hne
      obtain ⟨target, hnode, -⟩ := hlinked chosen file₀ hgroup₀ (Ne.symm hne)
      rw [hkept] at hnode
      cases hnode
    subst hleft
    obtain rfl := hfile hgroup₀ hgroup₁
    refine ⟨left, file₀, hgroup₀, fun path' file' hgroup' hne => ⟨?_, hprefers path' file' hgroup'⟩⟩
    rcases hafter path' file' hgroup' with ⟨-, hnode⟩ | ⟨-, hpreferred, -⟩
    · obtain ⟨target, hnode', -⟩ := hlinked path' file' hgroup' hne
      rw [hnode] at hnode'
      cases hnode'
    · exact hpreferred
  · rintro ⟨single, file₁, hgroup₁, hsingle⟩
    have hchosen : chosen = single := by
      by_contra hne
      have hpreferred := (hsingle chosen file₀ hgroup₀ hne).1
      rcases hafter single file₁ hgroup₁ with ⟨hdate, -⟩ | ⟨-, hback, -⟩
      · rw [hdate, preferred_irrefl] at hpreferred
        cases hpreferred
      · exact not_preferred_of_preferred hpreferred hback
    subst hchosen
    obtain rfl := hfile hgroup₀ hgroup₁
    refine ⟨chosen, file₀, hgroup₀, hkept, fun path' file' hgroup' => ?_,
      fun path' file' hgroup' hne => ?_⟩
    · by_cases hpath : path' = chosen
      · subst hpath
        obtain rfl := hfile hgroup₀ hgroup'
        rw [TidyCall.Prefers]
        split_ifs <;> exact le_rfl
      · exact (hsingle path' file' hgroup' hpath).2
    · rcases hafter path' file' hgroup' with ⟨hdate, -⟩ | ⟨-, -, hlink⟩
      · have hpreferred := (hsingle path' file' hgroup' hne).1
        rw [hdate, preferred_irrefl] at hpreferred
        cases hpreferred
      · exact hlink

/-- Of two files with different dates the older one is left. -/
theorem tidy_deduplicates_iff_sample :
    ∃ st', (TidyCall.sample false).run Engine.plain.hash256 sampleDate ⟨.sample, .empty⟩ =
      (.ok (), st') ∧ (TidyCall.sample false).Deduplicated .sample st'.disk [1] := by
  have hbytes {bytes : Bytes} {path : Path} {file : RegularFile}
      (h : (TidyCall.sample false).InGroup .sample bytes path file) :
      bytes = [1] ∧ (path = [.str "a"] ∧ file.created = 1 ∨ path = [.str "b"] ∧ file.created = 2) := by
    obtain ⟨-, hnode, rfl⟩ := h
    rcases Disk.node_sample hnode with ⟨-, hdir⟩ | ⟨hpath, hfile⟩ | ⟨hpath, hfile⟩
    · cases hdir
    · cases hfile
      exact ⟨rfl, .inl ⟨hpath, rfl⟩⟩
    · cases hfile
      exact ⟨rfl, .inr ⟨hpath, rfl⟩⟩
  have hgroup : (TidyCall.sample false).InGroup .sample [1] [.str "a"] ⟨[1], 1⟩ :=
    ⟨⟨⟨by decide, by decide⟩, [.str "a"], by decide, rfl⟩, rfl, rfl⟩
  have hhash : Set.InjOn Engine.plain.hash256
      {bytes | ∃ path file, (TidyCall.sample false).InGroup .sample bytes path file} := by
    rintro bytes ⟨path, file, h⟩ bytes' ⟨path', file', h'⟩ -
    rw [(hbytes h).1, (hbytes h').1]
  have hfiles (path : Path) (hbelow : FileBelow Disk.sample (TidyCall.sample false).target path) :
      ∃ file, Disk.sample.node path = some (.file file) := by
    obtain ⟨node, hnode⟩ := Option.isSome_iff_exists.1 hbelow.1.1
    rcases Disk.node_sample hnode with ⟨-, rfl⟩ | ⟨-, rfl⟩ | ⟨-, rfl⟩
    · exact absurd hnode hbelow.1.2
    · exact ⟨_, hnode⟩
    · exact ⟨_, hnode⟩
  obtain ⟨st', hrun, hiff⟩ := tidy_deduplicates_iff sampleDate hhash hfiles
  refine ⟨st', hrun, hiff.2 (fun bytes hmem => ?_) [1] ⟨_, _, hgroup⟩⟩
  obtain ⟨path, file, hmem⟩ := hmem
  rw [(hbytes hmem).1]
  refine ⟨_, _, hgroup, fun path' file' hgroup' hne => ?_⟩
  rcases (hbytes hgroup').2 with ⟨hpath, -⟩ | ⟨-, hcreated⟩
  · exact absurd hpath hne
  · rw [hcreated]
    exact ⟨by decide, (by decide : (1 : ℤ) ≤ 2)⟩

/-- Two files with the same content, created at the same time. -/
def Disk.twins : Disk where
  entries := ⟨[⟨[.str "a"], .file ⟨[1], 1⟩⟩, ⟨[.str "b"], .file ⟨[1], 1⟩⟩], by decide⟩
  parent := by decide

/-- Two files with the same date are both left. -/
theorem twins_stay :
    ∃ st', (TidyCall.sample false).run Engine.plain.hash256 sampleDate ⟨.twins, .empty⟩ =
        (.ok (), st') ∧
      st'.disk.node [.str "a"] = some (.file ⟨[1], 1⟩) ∧
      st'.disk.node [.str "b"] = some (.file ⟨[1], 1⟩) ∧
      ¬(TidyCall.sample false).Deduplicated .twins st'.disk [1] := by
  have ha : ((TidyCall.sample false).run Engine.plain.hash256 sampleDate
      ⟨.twins, .empty⟩).2.disk.node [.str "a"] = some (.file ⟨[1], 1⟩) := by decide
  have hb : ((TidyCall.sample false).run Engine.plain.hash256 sampleDate
      ⟨.twins, .empty⟩).2.disk.node [.str "b"] = some (.file ⟨[1], 1⟩) := by decide
  have hgroup (name : OsName) (h : name = .str "a" ∨ name = .str "b") :
      (TidyCall.sample false).InGroup .twins [1] [name] ⟨[1], 1⟩ := by
    rcases h with rfl | rfl
    · exact ⟨⟨⟨by decide, by decide⟩, _, List.cons_ne_nil _ _, rfl⟩, rfl, rfl⟩
    · exact ⟨⟨⟨by decide, by decide⟩, _, List.cons_ne_nil _ _, rfl⟩, rfl, rfl⟩
  have hok : ((TidyCall.sample false).run Engine.plain.hash256 sampleDate ⟨.twins, .empty⟩).1 =
      .ok () := rfl
  generalize (TidyCall.sample false).run Engine.plain.hash256 sampleDate ⟨.twins, .empty⟩ = out
    at ha hb hok ⊢
  refine ⟨out.2, Prod.ext hok rfl, ha, hb, ?_⟩
  rintro ⟨path, file, -, -, -, hlinked⟩
  by_cases hpath : path = [.str "a"]
  · obtain ⟨target, hnode, -⟩ := hlinked _ _ (hgroup (.str "b") (.inr rfl)) (by rw [hpath]; decide)
    rw [hb] at hnode
    cases hnode
  · obtain ⟨target, hnode, -⟩ := hlinked _ _ (hgroup (.str "a") (.inl rfl)) (Ne.symm hpath)
    rw [ha] at hnode
    cases hnode

end LiNaStore
