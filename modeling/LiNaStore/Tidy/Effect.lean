import LiNaStore.Tidy.Manager
import Mathlib.Data.List.MinMax

/-!
# What tidying does to the disk

A call of `tidy` notes the files it finds, each with the date it has (`TidyCall.run_collect`), and
then replaces files by symlinks (`TidyCall.run_eq`). What becomes of the disk is said node by node
(`Disk.Redirected`), and so by the links between paths (`Disk.Redirected.next_moved`): the relative
path that a symlink is made with leads to the file that is kept (`TidyManager.locate_relativePath`).
Taken by itself, without a disk, it resolves to the path it was made for
(`TidyManager.relativePath_resolves`).
-/

namespace LiNaStore

open Program

namespace TidyManager

/-! ## Relative paths -/

/-- Two paths, none of which is below the other, part at some directory. -/
theorem exists_fork {α : Type} {p q : List α} (hpq : ¬p <+: q) (hqp : ¬q <+: p) :
    ∃ c x ps y qs, x ≠ y ∧ p = c ++ x :: ps ∧ q = c ++ y :: qs := by
  induction p generalizing q with
  | nil => exact absurd q.nil_prefix hpq
  | cons x ps ih =>
    cases q with
    | nil => exact absurd (List.nil_prefix) hqp
    | cons y qs =>
      by_cases hxy : x = y
      · subst hxy
        obtain ⟨c, x', ps', y', qs', hne, rfl, rfl⟩ := ih
          (fun h => hpq (List.cons_prefix_cons.mpr ⟨rfl, h⟩))
          fun h => hqp (List.cons_prefix_cons.mpr ⟨rfl, h⟩)
        exact ⟨x :: c, x', ps', y', qs', hne, rfl, rfl⟩
      · exact ⟨[], x, ps, y, qs, hxy, rfl, rfl⟩

theorem commonLength_append (c : List PathComponent) {x y : PathComponent} (hne : x ≠ y)
    (l l' : List PathComponent) : commonLength (c ++ x :: l) (c ++ y :: l') = c.length := by
  induction c with
  | nil => exact if_neg hne
  | cons a c ih =>
    rw [List.cons_append, List.cons_append, commonLength, if_pos rfl, ih, List.length_cons]

theorem foldl_pushComponent (names : Path) (path : List PathComponent) :
    (names.map PathComponent.normal).foldl pushComponent path = path ++ names.map .normal := by
  induction names generalizing path with
  | nil => rw [List.map_nil, List.append_nil]; rfl
  | cons name names ih =>
    rw [List.map_cons, List.foldl_cons, ih, pushComponent, List.append_assoc, List.singleton_append]
    exact nofun

/-- The relative path between two paths that part at `c`: up to `c`, and down. -/
theorem relativePath_fork (c : List PathComponent) {x y : OsName} (hne : x ≠ y) (ps qs : Path) :
    relativePathWithSameRoot (c ++ (x :: ps).map .normal) (c ++ (y :: qs).map .normal) =
      (if ps = [] then [.curDir] else ps.map fun _ => .parentDir) ++ (y :: qs).map .normal := by
  have hcommon : commonLength (c ++ (x :: ps).map .normal) (c ++ (y :: qs).map .normal) =
      c.length := by
    rw [List.map_cons, List.map_cons]
    exact commonLength_append _ (fun h => hne (PathComponent.normal.inj h)) _ _
  rw [relativePathWithSameRoot, hcommon, List.drop_left, List.drop_append,
    List.drop_of_length_le (Nat.le_succ _), List.nil_append, Nat.add_sub_cancel_left,
    List.length_append, Nat.add_sub_cancel_left, List.map_cons, List.length_cons, List.length_map,
    List.drop_succ_cons, List.drop_zero, List.map_map, foldl_pushComponent]
  cases ps with
  | nil => rfl
  | cons z ps =>
    rw [List.length_cons, if_pos (by omega), if_neg (List.cons_ne_nil _ _)]
    rfl

theorem relativePath_eq (c : Path) {x y : OsName} (hne : x ≠ y) (ps qs : Path) :
    relativePathWithSameRoot (absolute (c ++ x :: ps)) (absolute (c ++ y :: qs)) =
      (if ps = [] then [.curDir] else ps.map fun _ => .parentDir) ++ (y :: qs).map .normal := by
  have habsolute (l : Path) : absolute (c ++ l) = absolute c ++ l.map .normal := by
    rw [absolute, List.map_append, absolute, List.cons_append]
  rw [habsolute, habsolute]
  exact relativePath_fork _ hne _ _

/-! ### Resolving them by their components

What a path means where nothing on the way is a symlink: `.` stays, and `..` takes back the name
before it. -/

/-- The components of a path of names, from the root or from wherever it is seen. -/
def ofNames (rooted : Bool) (names : Path) : List PathComponent :=
  (if rooted then [.rootDir] else []) ++ names.map .normal

/-- Go on from a path by a component. Nothing is above the root, and what is above the start of a
    relative path cannot be named without `..`. -/
def enterLexically (path : List PathComponent) : PathComponent → List PathComponent
  | .rootDir => [.rootDir]
  | .curDir => path
  | .parentDir =>
    match path.getLast? with
    | some (.normal _) => path.dropLast
    | some .rootDir => path
    | _ => path ++ [.parentDir]
  | .normal name => path ++ [.normal name]

/-- The path that `path` is, seen from the directory `base`. -/
def resolveLexically (base path : List PathComponent) : List PathComponent :=
  path.foldl enterLexically base

theorem enterLexically_parentDir (c : List PathComponent) (name : OsName) :
    enterLexically (c ++ [.normal name]) .parentDir = c := by
  rw [enterLexically, List.getLast?_concat]
  exact List.dropLast_concat

theorem resolveLexically_down (c : List PathComponent) (names : Path) :
    resolveLexically c (names.map .normal) = c ++ names.map .normal := by
  induction names generalizing c with
  | nil => rw [List.map_nil, List.append_nil]; rfl
  | cons name names ih =>
    rw [List.map_cons, resolveLexically, List.foldl_cons, ← resolveLexically, ih, enterLexically,
      List.append_assoc, List.singleton_append]

theorem resolveLexically_up (c : List PathComponent) (names : Path) :
    resolveLexically (c ++ names.map .normal) (names.map fun _ => .parentDir) = c := by
  induction names using List.reverseRecOn with
  | nil => rw [List.map_nil, List.append_nil]; rfl
  | append_singleton names name ih =>
    -- the first step up takes back the last name
    have hswap : ((names ++ [name]).map fun _ => PathComponent.parentDir) =
        .parentDir :: names.map fun _ => PathComponent.parentDir := by
      rw [List.map_const', List.map_const', List.length_append, List.length_singleton,
        List.replicate_succ]
    rw [hswap, resolveLexically, List.foldl_cons, List.map_append, List.map_singleton,
      ← List.append_assoc, enterLexically_parentDir]
    exact ih

/-- Seen from the directory of a file, the relative path to another file is that file. -/
theorem relativePath_resolves (rooted : Bool) {src dst : Path} (hne : src ≠ dst)
    (hsrc : src <+: dst → src = dst) (hdst : dst <+: src → dst = src) :
    resolveLexically (ofNames rooted src).dropLast
        (relativePathWithSameRoot (ofNames rooted src) (ofNames rooted dst)) =
      ofNames rooted dst := by
  obtain ⟨c, x, ps, y, qs, hxy, rfl, rfl⟩ :=
    exists_fork (fun h => hne (hsrc h)) fun h => hne (hdst h).symm
  have hsplit (l : Path) : ofNames rooted (c ++ l) = ofNames rooted c ++ l.map .normal := by
    rw [ofNames, List.map_append, ← List.append_assoc, ofNames]
  rw [hsplit, hsplit, relativePath_fork _ hxy, resolveLexically, List.foldl_append,
    ← resolveLexically, ← resolveLexically, List.dropLast_append_of_ne_nil (by simp)]
  have hup : resolveLexically (ofNames rooted c ++ ((x :: ps).map .normal).dropLast)
      (if ps = [] then [.curDir] else ps.map fun _ => .parentDir) = ofNames rooted c := by
    split_ifs with hps
    · subst hps
      rw [List.map_singleton, List.dropLast_singleton, List.append_nil]
      rfl
    · -- as many names are left above as there are steps up
      have hlength : (ps.map fun _ => PathComponent.parentDir) =
          (x :: ps).dropLast.map fun _ => .parentDir := by
        rw [List.map_const', List.map_const', List.length_dropLast, List.length_cons,
          Nat.add_sub_cancel]
      rw [hlength, ← List.map_dropLast]
      exact resolveLexically_up _ _
  rw [hup]
  exact resolveLexically_down _ _

/-- From `/a/b/c.txt` to `/a/d.txt`, and from `b/c.txt` to `b/d.txt`. -/
theorem relativePath_resolves_nested :
    resolveLexically (ofNames true [.str "a", .str "b", .str "c.txt"]).dropLast
        (relativePathWithSameRoot (ofNames true [.str "a", .str "b", .str "c.txt"])
          (ofNames true [.str "a", .str "d.txt"])) = ofNames true [.str "a", .str "d.txt"] ∧
    resolveLexically (ofNames false [.str "b", .str "c.txt"]).dropLast
        (relativePathWithSameRoot (ofNames false [.str "b", .str "c.txt"])
          (ofNames false [.str "b", .str "d.txt"])) = ofNames false [.str "b", .str "d.txt"] :=
  ⟨relativePath_resolves true (by decide) (by decide) (by decide),
    relativePath_resolves false (by decide) (by decide) (by decide)⟩

/-- From the directory of a file, the relative path leads to the other file. -/
theorem locate_relativePath {D : Disk} {path target : Path} (hpath : D.IsLeaf path)
    (htarget : D.IsLeaf target) (hne : path ≠ target) :
    D.locate path.dropLast (relativePathWithSameRoot (absolute path) (absolute target)) =
      some target := by
  have hnot {p q : Path} (hp : D.IsLeaf p) (hq : D.IsLeaf q) (hne : p ≠ q) : ¬p <+: q := by
    rintro ⟨rest, rfl⟩
    refine hp.2 (Disk.node_of_append ?_ hq.1)
    rintro rfl
    exact hne (List.append_nil p).symm
  -- files are in directories, so neither path continues the other
  obtain ⟨c, x, ps, y, qs, hxy, rfl, rfl⟩ :=
    exists_fork (hnot hpath htarget hne) (hnot htarget hpath hne.symm)
  have hdir : D.node (c ++ x :: ps).dropLast = some .dir := D.node_dropLast hpath.ne_nil hpath.1
  have hup : D.locate (c ++ x :: ps).dropLast
      (if ps = [] then [.curDir] else ps.map fun _ => .parentDir) = some c := by
    rw [List.dropLast_append_of_ne_nil (List.cons_ne_nil _ _)] at hdir ⊢
    split_ifs with hps
    · subst hps
      rw [List.dropLast_singleton, List.append_nil] at hdir ⊢
      rw [Disk.locate, if_pos hdir]
      rfl
    · have hlength : (ps.map fun _ => PathComponent.parentDir) =
          (x :: ps).dropLast.map fun _ => .parentDir := by
        rw [List.map_const', List.map_const', List.length_dropLast, List.length_cons,
          Nat.add_sub_cancel]
      rw [hlength]
      exact Disk.locate_up hdir
  rw [relativePath_eq c hxy, Disk.locate_append, hup, Option.bind_some]
  exact Disk.locate_down htarget.1

end TidyManager

/-! ## Replacing files -/

/-- The disk `D'` is `D` with symlinks at the paths that are `Moved`, to the files they are moved
    to. -/
structure Disk.Redirected (D : Disk) (Moved : Path → Path → Prop) (D' : Disk) : Prop where
  moved : ∀ path target, Moved path target → D'.node path =
    some (.symlink (TidyManager.relativePathWithSameRoot (absolute path) (absolute target)))
  kept : ∀ path, (∀ target, ¬Moved path target) → D'.node path = D.node path

namespace Disk.Redirected

variable {D D' : Disk} {Moved : Path → Path → Prop} {path target : Path} {file : RegularFile}

theorem isLeaf (h : D.Redirected Moved D') (hleaf : D.IsLeaf path) : D'.IsLeaf path := by
  by_cases hmoved : ∃ target, Moved path target
  · obtain ⟨target, hmoved⟩ := hmoved
    rw [IsLeaf, h.moved path target hmoved]
    exact ⟨rfl, nofun⟩
  · rw [IsLeaf, h.kept path (not_exists.mp hmoved)]
    exact hleaf

/-- Directories stay where they are. -/
theorem node_eq_dir_iff (h : D.Redirected Moved D')
    (hleaf : ∀ path target, Moved path target → D.IsLeaf path) (path : Path) :
    D'.node path = some .dir ↔ D.node path = some .dir := by
  by_cases hmoved : ∃ target, Moved path target
  · obtain ⟨target, hmoved⟩ := hmoved
    rw [h.moved path target hmoved]
    exact iff_of_false nofun (hleaf path target hmoved).2
  · rw [h.kept path (not_exists.mp hmoved)]

/-- No file is added. -/
theorem node_file (h : D.Redirected Moved D') (hfile : D'.node path = some (.file file)) :
    D.node path = some (.file file) := by
  by_cases hmoved : ∃ target, Moved path target
  · obtain ⟨target, hmoved⟩ := hmoved
    rw [h.moved path target hmoved] at hfile
    cases hfile
  · rwa [h.kept path (not_exists.mp hmoved)] at hfile

/-- A path that is not moved is linked as before. -/
theorem next_kept (h : D.Redirected Moved D')
    (hleaf : ∀ path target, Moved path target → D.IsLeaf path)
    (hpath : ∀ target, ¬Moved path target) : D'.next path = D.next path := by
  rw [Disk.next, Disk.next, h.kept path hpath]
  simp only [Disk.locate_congr (h.node_eq_dir_iff hleaf)]

/-- A path that is moved is linked to the file it is moved to. -/
theorem next_moved (h : D.Redirected Moved D')
    (hleaf : ∀ path target, Moved path target → D.IsLeaf path)
    (hmoved : Moved path target) (htarget : D.IsLeaf target) (hne : path ≠ target) :
    D'.next path = some (.inl target) := by
  rw [Disk.next, h.moved path target hmoved]
  dsimp only
  rw [Disk.locate_congr (h.node_eq_dir_iff hleaf),
    TidyManager.locate_relativePath (hleaf path target hmoved) htarget hne]
  rfl

/-- One after the other, if no path is moved to two files. -/
theorem trans {D₁ D₂ D₃ : Disk} {Moved₁ Moved₂ : Path → Path → Prop} (h₁ : D₁.Redirected Moved₁ D₂)
    (h₂ : D₂.Redirected Moved₂ D₃)
    (hunique : ∀ path target target', Moved₁ path target → Moved₂ path target' → target = target') :
    D₁.Redirected (fun path target => Moved₁ path target ∨ Moved₂ path target) D₃ := by
  refine ⟨fun path target hmoved => ?_, fun path hkept => ?_⟩
  · rcases hmoved with hmoved | hmoved
    · by_cases hmoved₂ : ∃ target', Moved₂ path target'
      · obtain ⟨target', hmoved₂⟩ := hmoved₂
        rw [hunique path target target' hmoved hmoved₂, h₂.moved path target' hmoved₂]
      · rw [h₂.kept path (not_exists.mp hmoved₂), h₁.moved path target hmoved]
    · exact h₂.moved path target hmoved
  · rw [h₂.kept path fun target hmoved => hkept target (.inr hmoved),
      h₁.kept path fun target hmoved => hkept target (.inl hmoved)]

theorem congr {Moved' : Path → Path → Prop} (h : D.Redirected Moved D')
    (hiff : ∀ path target, Moved path target ↔ Moved' path target) : D.Redirected Moved' D' :=
  ⟨fun path target hmoved => h.moved path target ((hiff path target).mpr hmoved),
    fun path hkept => h.kept path fun target hmoved => hkept target ((hiff path target).mp hmoved)⟩

end Disk.Redirected

namespace TidyManager

variable (orders : TidyOrders) {D : Disk} (cache : Table FileGroup.hash)

/-- A path of one of the files is moved to the target. -/
def Moves (target : FileInfo) (infos : List FileInfo) (path path' : Path) : Prop :=
  path' = target.path ∧
    ∃ info ∈ infos, info.path = path ∧ info.date ≠ target.date ∧ info.path ≠ target.path

theorem run_replaceFile (target : FileInfo) {info : FileInfo} (hleaf : D.IsLeaf info.path) :
    ∃ D', (replaceFile target info).run (TidyPrim.step orders) ⟨D, cache⟩ = (.ok (), ⟨D', cache⟩) ∧
      D.Redirected (Moves target [info]) D' := by
  have hmoves (path path' : Path) : Moves target [info] path path' ↔ path' = target.path ∧
      info.path = path ∧ info.date ≠ target.date ∧ info.path ≠ target.path := by
    simp only [Moves, List.mem_singleton, exists_eq_left]
  by_cases hmoved : info.date ≠ target.date ∧ info.path ≠ target.path
  · have hfree : (D.erase info.path hleaf).IsFree info.path := by
      refine ⟨hleaf.ne_nil, ?_, ?_⟩
      · rw [Disk.node_erase, if_neg, D.node_dropLast hleaf.ne_nil hleaf.1]
        intro heq
        have hlength := congrArg List.length heq
        have hpos := List.length_pos_iff.mpr hleaf.ne_nil
        rw [List.length_dropLast] at hlength
        omega
      · rw [Disk.node_erase, if_pos rfl]
    refine ⟨(D.erase info.path hleaf).addLink
      (relativePathWithSameRoot (absolute info.path) (absolute target.path)) info.path hfree, ?_,
      fun path path' h => ?_, fun path h => ?_⟩
    · rw [replaceFile, if_pos hmoved, run_bind, run_attempt, exec, run_perform, TidyPrim.step,
        dif_pos hleaf]
      exact dif_pos hfree
    · obtain ⟨rfl, rfl, _⟩ := (hmoves path path').mp h
      rw [Disk.node_addLink, if_pos rfl]
    · have hne : path ≠ info.path := fun heq => h target.path ((hmoves _ _).mpr ⟨rfl, heq.symm, hmoved⟩)
      rw [Disk.node_addLink, if_neg hne, Disk.node_erase, if_neg hne]
  · refine ⟨D, ?_, fun path path' h => ?_, fun _ _ => rfl⟩
    · rw [replaceFile, if_neg hmoved]
      rfl
    · exact absurd ((hmoves path path').mp h).2.2 hmoved

/-- The files with a hash are replaced one by one. -/
theorem run_replaceFiles (target : FileInfo) {infos : List FileInfo}
    (hleaf : ∀ info ∈ infos, D.IsLeaf info.path) :
    ∃ D', (forEach (replaceFile target) infos).run (TidyPrim.step orders) ⟨D, cache⟩ =
        (.ok (), ⟨D', cache⟩) ∧
      D.Redirected (Moves target infos) D' := by
  induction infos generalizing D with
  | nil => exact ⟨D, rfl, fun _ _ ⟨_, _, h, _⟩ => absurd h List.not_mem_nil, fun _ _ => rfl⟩
  | cons info infos ih =>
    obtain ⟨hinfo, hleaf⟩ := List.forall_mem_cons.mp hleaf
    obtain ⟨D₁, hrun₁, h₁⟩ := run_replaceFile orders cache target hinfo
    obtain ⟨D₂, hrun₂, h₂⟩ := ih fun info' hinfo' => h₁.isLeaf (hleaf info' hinfo')
    refine ⟨D₂, ?_, (h₁.trans h₂ ?_).congr fun path path' => ?_⟩
    · rw [run_forEach_cons, hrun₁]
      exact hrun₂
    · exact fun _ _ _ hmoved hmoved' => hmoved.1.trans hmoved'.1.symm
    · simp only [Moves, List.mem_cons]
      grind

/-- The file of a group that is kept. -/
def target? (keepNew : Bool) : List FileInfo → Option FileInfo
  | [] => none
  | first :: rest => some (findExtremeFile (preferred keepNew) first rest)

/-- A path of one of the files is moved to the one that is kept. -/
def GroupMoves (keepNew : Bool) (infos : List FileInfo) (path path' : Path) : Prop :=
  ∃ target, target? keepNew infos = some target ∧ Moves target infos path path'

theorem run_tidyGroup (keepNew : Bool) {key : String}
    (hleaf : ∀ info ∈ TidyState.infos ⟨D, cache⟩ key, D.IsLeaf info.path) :
    ∃ D', (tidyGroup keepNew key).run (TidyPrim.step orders) ⟨D, cache⟩ = (.ok (), ⟨D', cache⟩) ∧
      D.Redirected (GroupMoves keepNew (TidyState.infos ⟨D, cache⟩ key)) D' := by
  have hget : (exec (.get key)).run (TidyPrim.step orders) ⟨D, cache⟩ =
      (.ok ((cache.find? key).map FileGroup.infos), ⟨D, cache⟩) := rfl
  have hnone (h : TidyState.infos ⟨D, cache⟩ key = []) :
      D.Redirected (GroupMoves keepNew (TidyState.infos ⟨D, cache⟩ key)) D := by
    refine ⟨fun path path' hmoves => ?_, fun _ _ => rfl⟩
    obtain ⟨target, htarget, _⟩ := hmoves
    rw [h] at htarget
    cases htarget
  rw [tidyGroup, run_bind, hget]
  cases hinfos : (cache.find? key).map FileGroup.infos with
  | none => exact ⟨D, rfl, hnone (by rw [TidyState.infos, hinfos]; rfl)⟩
  | some infos =>
    have heq : TidyState.infos ⟨D, cache⟩ key = infos := by rw [TidyState.infos, hinfos]; rfl
    cases infos with
    | nil => exact ⟨D, rfl, hnone heq⟩
    | cons first rest =>
      rw [heq] at hleaf ⊢
      obtain ⟨D', hrun, h⟩ :=
        run_replaceFiles orders cache (findExtremeFile (preferred keepNew) first rest) hleaf
      refine ⟨D', hrun, h.congr fun path path' => ⟨fun hmoves => ⟨_, rfl, hmoves⟩, ?_⟩⟩
      rintro ⟨_, ⟨rfl⟩, hmoves⟩
      exact hmoves

/-- The groups are tidied one by one. A path is to be in one group only. -/
theorem run_tidyGroups (keepNew : Bool) (keys : List String)
    (hleaf : ∀ key, ∀ info ∈ TidyState.infos ⟨D, cache⟩ key, D.IsLeaf info.path)
    (hunique : ∀ key key' path target target',
      GroupMoves keepNew (TidyState.infos ⟨D, cache⟩ key) path target →
      GroupMoves keepNew (TidyState.infos ⟨D, cache⟩ key') path target' → target = target') :
    ∃ D', (forEach (tidyGroup keepNew) keys).run (TidyPrim.step orders) ⟨D, cache⟩ =
        (.ok (), ⟨D', cache⟩) ∧
      D.Redirected (fun path target =>
        ∃ key ∈ keys, GroupMoves keepNew (TidyState.infos ⟨D, cache⟩ key) path target) D' := by
  induction keys generalizing D with
  | nil => exact ⟨D, rfl, fun _ _ ⟨_, h, _⟩ => absurd h List.not_mem_nil, fun _ _ => rfl⟩
  | cons key keys ih =>
    obtain ⟨D₁, hrun₁, h₁⟩ := run_tidyGroup orders cache keepNew (hleaf key)
    obtain ⟨D₂, hrun₂, h₂⟩ := ih (D := D₁)
      (fun key' info hinfo => h₁.isLeaf (hleaf key' info hinfo)) hunique
    refine ⟨D₂, ?_, (h₁.trans h₂ ?_).congr fun path path' => ?_⟩
    · rw [run_forEach_cons, hrun₁]
      exact hrun₂
    · -- a path that is moved again goes to the same file
      rintro path target target' hmoves ⟨key', -, hmoves'⟩
      exact hunique key key' path target target' hmoves hmoves'
    · simp only [List.mem_cons, exists_eq_or_imp]
      rfl

/-! ## Finding files -/

theorem mem_names {D : Disk} {path : Path} {name : OsName} :
    name ∈ D.names path ↔ (D.node (path ++ [name])).isSome := by
  rw [Disk.node_of_ne_nil (List.append_ne_nil_of_right_ne_nil _ (List.cons_ne_nil _ _)),
    Option.isSome_map, Option.isSome_iff_exists, Disk.names, List.mem_filterMap]
  simp only [List.mem_filter, decide_eq_true_eq, Table.find?_eq_some_iff, and_assoc]
  refine exists_congr fun entry => and_congr_right fun _ => ⟨?_, fun h => ?_⟩
  · rintro ⟨hdir, hname⟩
    rw [← hdir, List.dropLast_append_getLast? name hname]
  · rw [h, List.dropLast_concat, List.getLast?_concat]
    exact ⟨rfl, rfl⟩

/-- A path is that of a file below a directory. -/
def FileBelow (D : Disk) (dir path : Path) : Prop := D.IsLeaf path ∧ ∃ rest ≠ [], path = dir ++ rest

theorem run_walkEntry {walk : Path → TidyProg (List Path)} (current : Path) :
    (walkEntry walk current).run (TidyPrim.step orders) ⟨D, cache⟩ =
      if D.node current = some .dir then (walk current).run (TidyPrim.step orders) ⟨D, cache⟩
      else (.ok [current], ⟨D, cache⟩) := by
  have hisDir : (exec (.isDir current)).run (TidyPrim.step orders) ⟨D, cache⟩ =
      (.ok (decide (D.node current = some .dir)), ⟨D, cache⟩) := rfl
  rw [walkEntry, run_bind, hisDir]
  dsimp only
  split_ifs with h₁ h₂ h₂
  · rfl
  · exact absurd (of_decide_eq_true h₁) h₂
  · exact absurd (decide_eq_true h₂) h₁
  · rfl

theorem run_walkEntries (walk : Path → TidyProg (List Path)) {dir : Path} {names : List OsName}
    (hnames : ∀ name ∈ names, (D.node (dir ++ [name])).isSome)
    (hwalk : ∀ name ∈ names, D.node (dir ++ [name]) = some .dir →
      ∃ paths, (walk (dir ++ [name])).run (TidyPrim.step orders) ⟨D, cache⟩ =
          (.ok paths, ⟨D, cache⟩) ∧ ∀ path, path ∈ paths ↔ FileBelow D (dir ++ [name]) path) :
    ∃ paths, (walkEntries walk dir names).run (TidyPrim.step orders) ⟨D, cache⟩ =
        (.ok paths, ⟨D, cache⟩) ∧
      ∀ path, path ∈ paths ↔ D.IsLeaf path ∧ ∃ name ∈ names, ∃ rest, path = dir ++ name :: rest := by
  induction names with
  | nil => exact ⟨[], rfl, fun path => by simp⟩
  | cons name names ih =>
    obtain ⟨hname, hnames⟩ := List.forall_mem_cons.mp hnames
    obtain ⟨hwalk', hwalk⟩ := List.forall_mem_cons.mp hwalk
    obtain ⟨paths, hrun, hpaths⟩ := ih hnames hwalk
    -- the files found at the first name: those below it, or itself
    obtain ⟨found, hrun', hfound⟩ : ∃ found, (walkEntry walk (dir ++ [name])).run
        (TidyPrim.step orders) ⟨D, cache⟩ = (.ok found, ⟨D, cache⟩) ∧
        ∀ path, path ∈ found ↔ D.IsLeaf path ∧ ∃ rest, path = dir ++ [name] ++ rest := by
      rw [run_walkEntry]
      split_ifs with hdir
      · obtain ⟨found, hrun', hfound⟩ := hwalk' hdir
        refine ⟨found, hrun', fun path => (hfound path).trans (and_congr_right fun hleaf => ?_)⟩
        refine exists_congr fun rest => and_iff_right_of_imp ?_
        rintro rfl rfl
        rw [List.append_nil] at hleaf
        exact hleaf.2 hdir
      · refine ⟨[dir ++ [name]], rfl, fun path => List.mem_singleton.trans ⟨?_, ?_⟩⟩
        · rintro rfl
          exact ⟨⟨hname, hdir⟩, [], (List.append_nil _).symm⟩
        · rintro ⟨hleaf, rest, rfl⟩
          by_contra hne
          refine hdir (Disk.node_of_append ?_ hleaf.1)
          rintro rfl
          exact hne (List.append_nil _)
    refine ⟨found ++ paths, ?_, fun path => ?_⟩
    · rw [walkEntries, run_bind, hrun']
      dsimp only
      rw [run_bind, hrun]
      rfl
    · rw [List.mem_append, hfound, hpaths, ← and_or_left]
      simp only [List.mem_cons, exists_eq_or_imp, List.append_assoc, List.singleton_append]

theorem Disk.length_le_depth {path : Path} (h : (D.node path).isSome) : path.length ≤ D.depth := by
  by_cases hnil : path = []
  · rw [hnil]
    exact Nat.zero_le _
  · rw [Disk.node_of_ne_nil hnil, Option.isSome_map] at h
    obtain ⟨entry, hentry⟩ := Option.isSome_iff_exists.mp h
    obtain ⟨hmem, rfl⟩ := Table.find?_eq_some_iff.mp hentry
    exact List.le_max_of_le' 0 (List.mem_map_of_mem hmem) le_rfl

/-- Walking a directory finds the files below it, if the depth is enough. -/
theorem run_pathWalk (depth : ℕ) (dir : Path) (hdepth : D.depth ≤ dir.length + depth) :
    ∃ paths, (pathWalk depth dir).run (TidyPrim.step orders) ⟨D, cache⟩ = (.ok paths, ⟨D, cache⟩) ∧
      ∀ path, path ∈ paths ↔ FileBelow D dir path := by
  induction depth generalizing dir with
  | zero =>
    refine ⟨[], rfl, fun path => iff_of_false List.not_mem_nil ?_⟩
    rintro ⟨hleaf, rest, hrest, rfl⟩
    have hlength := Disk.length_le_depth hleaf.1
    have hpos := List.length_pos_iff.mpr hrest
    rw [List.length_append] at hlength
    omega
  | succ depth ih =>
    have hisDir : (exec (.isDir dir)).run (TidyPrim.step orders) ⟨D, cache⟩ =
        (.ok (decide (D.node dir = some .dir)), ⟨D, cache⟩) := rfl
    rw [pathWalk, run_bind, hisDir]
    dsimp only
    by_cases hdir : D.node dir = some .dir
    · have hread : (exec (.readDir dir)).run (TidyPrim.step orders) ⟨D, cache⟩ =
          (.ok (orders.names dir (D.names dir)), ⟨D, cache⟩) := if_pos hdir
      have hmem (name : OsName) : name ∈ orders.names dir (D.names dir) ↔
          (D.node (dir ++ [name])).isSome :=
        (orders.names_perm _ _).mem_iff.trans mem_names
      obtain ⟨paths, hrun, hpaths⟩ := run_walkEntries orders cache (pathWalk depth)
        (fun name hname => (hmem name).mp hname) fun name hname _ => ih (dir ++ [name]) (by
          rw [List.length_append, List.length_singleton]
          omega)
      refine ⟨paths, ?_, fun path => (hpaths path).trans (and_congr_right fun hleaf => ?_)⟩
      · rw [if_pos (decide_eq_true hdir), run_bind, hread]
        exact hrun
      · constructor
        · rintro ⟨name, _, rest, rfl⟩
          exact ⟨name :: rest, List.cons_ne_nil _ _, rfl⟩
        · rintro ⟨rest, hrest, rfl⟩
          obtain ⟨name, rest, rfl⟩ := List.exists_cons_of_ne_nil hrest
          refine ⟨name, (hmem name).mpr ?_, rest, rfl⟩
          have hsome := hleaf.1
          rw [← List.singleton_append, ← List.append_assoc] at hsome
          by_cases hnil : rest = []
          · rwa [hnil, List.append_nil] at hsome
          · rw [Disk.node_of_append hnil hsome]
            rfl
    · refine ⟨[], ?_, fun path => iff_of_false List.not_mem_nil ?_⟩
      · rw [if_neg fun h => hdir (of_decide_eq_true h)]
        rfl
      · rintro ⟨hleaf, rest, hrest, rfl⟩
        exact hdir (Disk.node_of_append hrest hleaf.1)

/-! ## Noting files -/

variable (hash256 : Bytes → String) (format : ℤ → String)

/-- What is noted about a path under a hash. -/
def found (D : Disk) (key : String) (path : Path) : Option FileInfo :=
  match D.file? path with
  | some file => if hash256 file.bytes = key then some ⟨path, format file.created⟩ else none
  | none => none

theorem found_eq_some_iff {key : String} {path : Path} {info : FileInfo} :
    found hash256 format D key path = some info ↔ info.path = path ∧
      ∃ file, D.Leads path file ∧ hash256 file.bytes = key ∧ info.date = format file.created := by
  rw [found]
  cases hfile : D.file? path with
  | none =>
    refine iff_of_false nofun ?_
    rintro ⟨_, file, hleads, _⟩
    rw [Disk.file?_eq_some_iff.mpr hleads] at hfile
    cases hfile
  | some file =>
    have hleads := Disk.file?_eq_some_iff.mp hfile
    dsimp only
    split_ifs with hkey
    · constructor
      · rintro ⟨⟩
        exact ⟨rfl, file, hleads, hkey, rfl⟩
      · rintro ⟨rfl, file', hleads', _, hdate⟩
        rw [hleads.unique hleads', ← hdate]
    · refine iff_of_false nofun ?_
      rintro ⟨_, file', hleads', hkey', _⟩
      exact hkey (hleads.unique hleads' ▸ hkey')

/-- A file is noted after the others with its hash; a path that leads to none is skipped. -/
theorem run_fileInfoCollector (path : Path) :
    ∃ cache', (fileInfoCollector hash256 format path).ignore.run (TidyPrim.step orders) ⟨D, cache⟩ =
        (.ok (), ⟨D, cache'⟩) ∧
      ∀ key, TidyState.infos ⟨D, cache'⟩ key =
        TidyState.infos ⟨D, cache⟩ key ++ (found hash256 format D key path).toList := by
  have hread : TidyPrim.step orders (.readFile path) ⟨D, cache⟩ = match D.file? path with
    | some file => (.ok file.bytes, ⟨D, cache⟩)
    | none => (.error .notFound, ⟨D, cache⟩) := rfl
  have hcreated : TidyPrim.step orders (.created path) ⟨D, cache⟩ = match D.file? path with
    | some file => (.ok file.created, ⟨D, cache⟩)
    | none => (.error .notFound, ⟨D, cache⟩) := rfl
  rw [run_ignore, fileInfoCollector, run_bind, exec, run_perform, hread]
  cases hfile : D.file? path with
  | none =>
    refine ⟨cache, rfl, fun key => ?_⟩
    rw [found, hfile]
    exact (List.append_nil _).symm
  | some file =>
    rw [hfile] at hcreated
    dsimp only
    rw [run_bind, exec, run_perform, hcreated]
    refine ⟨_, rfl, fun key => ?_⟩
    rw [TidyState.infos, found, hfile, Table.find?_set]
    dsimp only
    by_cases hkey : key = hash256 file.bytes
    · rw [if_pos hkey, if_pos hkey.symm, hkey]
      rfl
    · rw [if_neg hkey, if_neg (Ne.symm hkey)]
      exact (List.append_nil _).symm

theorem run_fileInfoCollectors (paths : List Path) :
    ∃ cache', (forEach (fun path => (fileInfoCollector hash256 format path).ignore) paths).run
        (TidyPrim.step orders) ⟨D, cache⟩ = (.ok (), ⟨D, cache'⟩) ∧
      ∀ key, TidyState.infos ⟨D, cache'⟩ key =
        TidyState.infos ⟨D, cache⟩ key ++ paths.filterMap (found hash256 format D key) := by
  induction paths generalizing cache with
  | nil => exact ⟨cache, rfl, fun key => (List.append_nil _).symm⟩
  | cons path paths ih =>
    obtain ⟨cache₁, hrun₁, h₁⟩ := run_fileInfoCollector orders cache hash256 format (D := D) path
    obtain ⟨cache₂, hrun₂, h₂⟩ := ih cache₁
    refine ⟨cache₂, ?_, fun key => ?_⟩
    · rw [run_forEach_cons, hrun₁]
      exact hrun₂
    · rw [h₂, h₁, List.append_assoc, List.filterMap_cons]
      cases found hash256 format D key path <;> rfl

end TidyManager

/-! ## A call -/

namespace TidyCall

open TidyManager

variable (hash256 : Bytes → String) (format : ℤ → String) (c : TidyCall) (st : TidyState)

/-- A call notes the files below its directory, each with the date it has, and changes nothing on
    the disk by that. -/
theorem run_collect : ∃ paths : List Path,
    (∀ path, path ∈ paths ↔ FileBelow st.disk c.target path) ∧
    (collect hash256 format st.disk.depth c.target).run (TidyPrim.step c.orders) st =
      (.ok (), c.collected hash256 format st) ∧
    (c.collected hash256 format st).disk = st.disk ∧
    ∀ key, (c.collected hash256 format st).infos key =
      st.infos key ++ paths.filterMap (found hash256 format st.disk key) := by
  obtain ⟨D, cache⟩ := st
  obtain ⟨paths, hwalk, hpaths⟩ :=
    run_pathWalk c.orders cache D.depth c.target (Nat.le_add_left D.depth _)
  obtain ⟨cache', hcollect, hinfos⟩ :=
    run_fileInfoCollectors c.orders cache hash256 format (D := D) paths
  have hrun : (collect hash256 format D.depth c.target).run (TidyPrim.step c.orders) ⟨D, cache⟩ =
      (.ok (), ⟨D, cache'⟩) := by
    rw [collect, run_bind, hwalk]
    exact hcollect
  have hcollected : c.collected hash256 format ⟨D, cache⟩ = ⟨D, cache'⟩ := by
    rw [collected, hrun]
  rw [hcollected]
  exact ⟨paths, hpaths, hrun, rfl, hinfos⟩

/-- A path is moved to a file of the same hash by a call. -/
def Moves (path target : Path) : Prop :=
  ∃ key, GroupMoves c.keepNew ((c.collected hash256 format st).infos key) path target

/-- A call replaces files by symlinks, if what has been noted is there and no path is to be moved to
    two files. -/
theorem run_eq
    (hleaf : ∀ key, ∀ info ∈ (c.collected hash256 format st).infos key, st.disk.IsLeaf info.path)
    (hunique : ∀ path target target', c.Moves hash256 format st path target →
      c.Moves hash256 format st path target' → target = target') :
    ∃ D', c.run hash256 format st = (.ok (), ⟨D', (c.collected hash256 format st).mapCache⟩) ∧
      st.disk.Redirected (c.Moves hash256 format st) D' := by
  obtain ⟨_, _, hcollect, hdisk, _⟩ := c.run_collect hash256 format st
  let cache := (c.collected hash256 format st).mapCache
  have hst : c.collected hash256 format st = ⟨st.disk, cache⟩ := by rw [← hdisk]
  have hinfos (key : String) : (c.collected hash256 format st).infos key =
      TidyState.infos ⟨st.disk, cache⟩ key := by rw [hst]
  let keys := c.orders.keys (cache.rows.map FileGroup.hash)
  have hkeys : (TidyManager.exec .keys).run (TidyPrim.step c.orders) ⟨st.disk, cache⟩ =
      (.ok keys, ⟨st.disk, cache⟩) := rfl
  obtain ⟨D', hrun, h⟩ := run_tidyGroups c.orders cache c.keepNew keys (D := st.disk)
    (fun key => hinfos key ▸ hleaf key)
    (fun key key' path target target' hmoves hmoves' => hunique path target target'
      ⟨key, (hinfos key).symm ▸ hmoves⟩ ⟨key', (hinfos key').symm ▸ hmoves'⟩)
  refine ⟨D', ?_, h.congr fun path target => ⟨?_, ?_⟩⟩
  · rw [run, tidy, run_bind, hcollect]
    dsimp only
    rw [run_bind, hst, hkeys]
    exact hrun
  · rintro ⟨key, _, hmoves⟩
    exact ⟨key, (hinfos key).symm ▸ hmoves⟩
  · rintro ⟨key, hmoves⟩
    rw [hinfos] at hmoves
    refine ⟨key, (c.orders.keys_perm _).mem_iff.mpr ?_, hmoves⟩
    -- a group something is moved in is one of the map
    cases hfind : cache.find? key with
    | none =>
      obtain ⟨_, htarget, _⟩ := hmoves
      rw [TidyState.infos, hfind] at htarget
      cases htarget
    | some group =>
      obtain ⟨hmem, rfl⟩ := Table.find?_eq_some_iff.mp hfind
      exact List.mem_map_of_mem hmem

end TidyCall

end LiNaStore
