import Mathlib.Data.List.Basic
import Mathlib.Data.List.Infix
import Mathlib.Tactic.Common

/-!
# Paths with slashes

A path is a text, cut into components by its slashes. It is *proper* if no component is empty
(`Slash.Proper`): then it is a component, or a proper path, a slash and a component
(`Proper.cases`). Three things are said about paths. The path without its last component is
`Slash.parentOf`. A path *lies below* another if it starts with it and a slash (`Slash.Below`);
what a path and one more component lie below, is that path and what it lies below
(`below_append_iff`). And adding the components one by one gives the path again
(`Proper.join_components`).
-/

namespace LiNaStore.Slash

/-- A text that is not empty and has no slash. -/
structure Component (part : String) : Prop where
  ne_empty : part ≠ ""
  slash_notMem : '/' ∉ part.toList

/-- No component of a path is empty. -/
def Proper (path : String) : Prop := ∀ part ∈ path.toList.splitOn '/', part ≠ []

instance (path : String) : Decidable (Proper path) :=
  inferInstanceAs (Decidable (∀ part ∈ path.toList.splitOn '/', part ≠ []))

/-- The path without its last component. -/
def parentOf (path : String) : String := .ofList (['/'].intercalate (path.toList.splitOn '/').dropLast)

/-- The path starts with `above` and a slash. -/
def Below (path above : String) : Prop := (above ++ "/").toList <+: path.toList

/-- The path of a component below another path, which may be the root. -/
def child (path part : String) : String := if path = "" then part else path ++ "/" ++ part

/-- The path with components added to it. -/
def join (path : String) (parts : List String) : String := parts.foldl child path

theorem toList_append_slash (a b : String) : (a ++ "/" ++ b).toList = a.toList ++ '/' :: b.toList := by
  rw [String.toList_append, String.toList_append, List.append_assoc]
  rfl

theorem splitOn_of_notMem {sep : Char} {l : List Char} (h : sep ∉ l) : l.splitOn sep = [l] :=
  List.splitOnP_eq_singleton fun _ hc => beq_eq_false_iff_ne.mpr (ne_of_mem_of_not_mem hc h)

theorem splitOn_append_cons {sep : Char} {l : List Char} (h : sep ∉ l) (rest : List Char) :
    (l ++ sep :: rest).splitOn sep = l :: rest.splitOn sep := by
  rw [List.splitOn_append_cons_self, splitOn_of_notMem h, List.singleton_append]

/-! ## The last component -/

theorem parentOf_of_notMem {part : String} (h : '/' ∉ part.toList) : parentOf part = "" := by
  rw [parentOf, splitOn_of_notMem h]
  rfl

theorem parentOf_append (path : String) {part : String} (h : '/' ∉ part.toList) :
    parentOf (path ++ "/" ++ part) = path := by
  rw [parentOf, toList_append_slash, List.splitOn_append_cons_self, splitOn_of_notMem h,
    List.dropLast_concat, List.intercalate_splitOn, String.ofList_toList]

theorem parentOf_child (path : String) {part : String} (h : '/' ∉ part.toList) :
    parentOf (child path part) = path := by
  rw [child]
  split_ifs with hpath
  · rw [hpath, parentOf_of_notMem h]
  · exact parentOf_append path h

/-- A path has no slash, or a last one. -/
theorem exists_last (path : String) : '/' ∉ path.toList ∨
    ∃ front part : String, '/' ∉ part.toList ∧ path = front ++ "/" ++ part := by
  by_cases h : '/' ∈ path.toList
  · refine .inr ?_
    obtain ⟨back, front, hpath, hback⟩ := List.eq_append_cons_of_mem (List.mem_reverse.mpr h)
    refine ⟨.ofList front.reverse, .ofList back.reverse, ?_, ?_⟩
    · rwa [String.toList_ofList, List.mem_reverse]
    · rw [← String.toList_inj, toList_append_slash, String.toList_ofList, String.toList_ofList,
        ← List.reverse_inj, hpath]
      simp
  · exact .inl h

/-- A proper path is a component, or a proper path, a slash and a component. -/
theorem Proper.cases {path : String} (h : Proper path) : Component path ∨
    ∃ front part, Proper front ∧ Component part ∧ path = front ++ "/" ++ part := by
  have hne {part : String} (hpart : part.toList ≠ []) : part ≠ "" := by
    rintro rfl
    exact hpart rfl
  rcases exists_last path with hslash | ⟨front, part, hslash, rfl⟩
  · refine .inl ⟨hne (h _ ?_), hslash⟩
    rw [splitOn_of_notMem hslash]
    exact List.mem_singleton_self _
  · rw [Proper, toList_append_slash, List.splitOn_append_cons_self,
      splitOn_of_notMem hslash] at h
    refine .inr ⟨front, part, fun c hc => h c (List.mem_append_left _ hc), ⟨hne (h _ ?_), hslash⟩, rfl⟩
    exact List.mem_append_right _ (List.mem_singleton_self _)

/-- The rule of induction for proper paths. -/
theorem Proper.induction {P : String → Prop} (component : ∀ part, Component part → P part)
    (append : ∀ front part, Proper front → Component part → P front → P (front ++ "/" ++ part))
    {path : String} (h : Proper path) : P path := by
  induction hlength : path.length using Nat.strong_induction_on generalizing path with
  | _ n ih =>
    rcases h.cases with hpart | ⟨front, part, hfront, hpart, rfl⟩
    · exact component path hpart
    · refine append front part hfront hpart (ih front.length ?_ hfront rfl)
      rw [← hlength, String.length_append, String.length_append]
      change _ < _ + 1 + _
      omega

theorem Component.proper {part : String} (h : Component part) : Proper part := by
  intro c hc
  rw [splitOn_of_notMem h.slash_notMem, List.mem_singleton] at hc
  rw [hc]
  exact fun hnil => h.ne_empty (String.toList_inj.mp hnil)

theorem Proper.ne_empty {path : String} (h : Proper path) : path ≠ "" := by
  rintro rfl
  exact h [] List.mem_cons_self rfl

theorem proper_child {path part : String} (h : path = "" ∨ Proper path) (hpart : Component part) :
    Proper (child path part) := by
  rw [child]
  split_ifs with hpath
  · exact hpart.proper
  · rw [Proper, toList_append_slash, List.splitOn_append_cons_self]
    exact List.forall_mem_append.mpr ⟨h.resolve_left hpath, hpart.proper⟩

/-! ## What a path lies below -/

theorem not_below_of_notMem {path above : String} (h : '/' ∉ path.toList) : ¬Below path above := by
  intro hbelow
  refine h (hbelow.mem ?_)
  rw [String.toList_append]
  exact List.mem_append_right _ (List.mem_singleton_self _)

theorem below_iff {path above : String} : Below path above ↔ ∃ rest, path = above ++ "/" ++ rest := by
  constructor
  · rintro ⟨rest, hrest⟩
    refine ⟨.ofList rest, ?_⟩
    rw [← String.toList_inj, ← hrest, String.toList_append (t := String.ofList rest),
      String.toList_ofList]
  · rintro ⟨rest, rfl⟩
    rw [Below, String.toList_append (t := rest)]
    exact List.prefix_append _ _

/-- A path with one more component lies below that path, and what it lies below. -/
theorem below_append_iff {path part above : String} (h : '/' ∉ part.toList) :
    Below (path ++ "/" ++ part) above ↔ above = path ∨ Below path above := by
  constructor
  · intro hbelow
    obtain ⟨rest, hrest⟩ := below_iff.mp hbelow
    rw [← String.toList_inj, toList_append_slash, toList_append_slash,
      List.append_eq_append_iff] at hrest
    -- the slash after `above` is the last one, or one before it
    rcases hrest with ⟨between, habove, hpart⟩ | ⟨between, hpath, hrest⟩
    · cases between with
      | nil =>
        rw [List.append_nil, String.toList_inj] at habove
        exact .inl habove
      | cons c between =>
        refine absurd ?_ h
        rw [(List.cons.inj hpart).2]
        exact List.mem_append_right _ List.mem_cons_self
    · cases between with
      | nil =>
        rw [List.append_nil, String.toList_inj] at hpath
        exact .inl hpath.symm
      | cons c between =>
        refine .inr ⟨between, ?_⟩
        rw [hpath, ← (List.cons.inj hrest).1, String.toList_append, List.append_assoc]
        rfl
  · rintro (rfl | hbelow)
    · exact below_iff.mpr ⟨part, rfl⟩
    · refine hbelow.trans ?_
      rw [toList_append_slash]
      exact List.prefix_append _ _

theorem below_child_iff {path part above : String} (h : '/' ∉ part.toList) :
    Below (child path part) above ↔ path ≠ "" ∧ (above = path ∨ Below path above) := by
  rw [child]
  split_ifs with hpath
  · exact iff_of_false (not_below_of_notMem h) fun hne => hne.1 hpath
  · rw [below_append_iff h, and_iff_right hpath]

/-- The way from a path down to one below it begins with one component. -/
theorem Below.exists_child {path above : String} (h : Below path above) :
    ∃ part : String, '/' ∉ part.toList ∧
      (path = above ++ "/" ++ part ∨ Below path (above ++ "/" ++ part)) := by
  obtain ⟨rest, rfl⟩ := below_iff.mp h
  by_cases hslash : '/' ∈ rest.toList
  · obtain ⟨part, rest', hrest, hpart⟩ := List.eq_append_cons_of_mem hslash
    refine ⟨.ofList part, by rwa [String.toList_ofList], .inr (below_iff.mpr ⟨.ofList rest', ?_⟩)⟩
    rw [← String.toList_inj, toList_append_slash, toList_append_slash, toList_append_slash, hrest]
    simp
  · exact ⟨rest, hslash, .inl rfl⟩

/-! ## Adding components -/

theorem join_append (path : String) (parts parts' : List String) :
    join path (parts ++ parts') = join (join path parts) parts' := List.foldl_append

theorem append_slash_ne_empty (a b : String) : a ++ "/" ++ b ≠ "" := by
  intro hempty
  have hnil := congrArg String.toList hempty
  rw [toList_append_slash, String.toList_empty, List.append_eq_nil_iff] at hnil
  cases hnil.2

theorem join_ne_empty {path : String} (h : path ≠ "") (parts : List String) : join path parts ≠ "" := by
  induction parts generalizing path with
  | nil => exact h
  | cons part parts ih =>
    have hchild : child path part ≠ "" := by
      rw [child, if_neg h]
      exact append_slash_ne_empty path part
    exact ih hchild

/-- A path with more components starts with that path. -/
theorem prefix_join {path : String} (h : path ≠ "") (parts : List String) :
    path.toList <+: (join path parts).toList := by
  induction parts generalizing path with
  | nil => exact List.prefix_rfl
  | cons part parts ih =>
    have hchild : child path part = path ++ "/" ++ part := if_neg h
    have hfirst : path.toList <+: (child path part).toList := by
      rw [hchild, toList_append_slash]
      exact List.prefix_append _ _
    exact hfirst.trans (ih (hchild ▸ append_slash_ne_empty path part))

/-- A path with more components lies below that path. -/
theorem below_join {path : String} (h : path ≠ "") {parts : List String} (hparts : parts ≠ []) :
    Below (join path parts) path := by
  obtain ⟨part, parts, rfl⟩ := List.exists_cons_of_ne_nil hparts
  have hchild : child path part = path ++ "/" ++ part := if_neg h
  have hbelow : Below (child path part) path := below_iff.mpr ⟨part, hchild⟩
  exact hbelow.trans (prefix_join (hchild ▸ append_slash_ne_empty path part) parts)

/-- The components of a path. -/
def components (path : String) : List String := (path.toList.splitOn '/').map String.ofList

theorem components_of_notMem {path : String} (h : '/' ∉ path.toList) : components path = [path] := by
  rw [components, splitOn_of_notMem h, List.map_singleton, String.ofList_toList]

theorem components_append (path : String) {part : String} (h : '/' ∉ part.toList) :
    components (path ++ "/" ++ part) = components path ++ [part] := by
  rw [components, toList_append_slash, List.splitOn_append_cons_self, splitOn_of_notMem h,
    List.map_append, List.map_singleton, String.ofList_toList]
  rfl

/-- Adding the components of a proper path one by one gives the path. -/
theorem Proper.join_components {path : String} (h : Proper path) : join "" (components path) = path := by
  refine Proper.induction (P := fun path => join "" (components path) = path) (fun part hpart => ?_)
    (fun front part hfront hpart ih => ?_) h
  · rw [components_of_notMem hpart.slash_notMem]
    rfl
  · rw [components_append front hpart.slash_notMem, join_append, ih]
    exact if_neg hfront.ne_empty

theorem Proper.component_of_mem {path : String} (h : Proper path) :
    ∀ part ∈ components path, Component part := by
  refine Proper.induction (P := fun path => ∀ part ∈ components path, Component part)
    (fun part hpart => ?_) (fun front part hfront hpart ih => ?_) h
  · rw [components_of_notMem hpart.slash_notMem]
    exact List.forall_mem_singleton.mpr hpart
  · rw [components_append front hpart.slash_notMem]
    exact List.forall_mem_append.mpr ⟨ih, List.forall_mem_singleton.mpr hpart⟩

/-- A proper path is its last component below the others. -/
theorem Proper.exists_child {path : String} (h : Proper path) :
    ∃ part, Component part ∧ path = child (join "" (components path).dropLast) part := by
  rcases h.cases with hpart | ⟨front, part, hfront, hpart, rfl⟩
  · refine ⟨path, hpart, ?_⟩
    rw [components_of_notMem hpart.slash_notMem]
    rfl
  · refine ⟨part, hpart, ?_⟩
    rw [components_append front hpart.slash_notMem, List.dropLast_concat, hfront.join_components]
    exact (if_neg hfront.ne_empty).symm

end LiNaStore.Slash
