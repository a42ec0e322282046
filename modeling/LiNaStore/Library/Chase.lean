import Mathlib.Data.List.Nodup
import Mathlib.Data.List.Perm.Subperm
import Mathlib.Logic.Relation

/-!
# Following links

Keys are linked to keys, or to values; a link may also lead nowhere. Following the links from a key
either comes to a value (`Chase.Leads`), and then to one only, or it never does: the links end, or
they go round in a circle. As a key that leads to a value is on no circle
(`Leads.not_transGen`), finitely many keys are followed with as many steps as there are keys
(`follow_eq_some_iff`).

When some of the links are changed, what was led to from elsewhere is led to still, up to a relation
that holds between what the changed keys led to and what they lead to now (`Leads.redirect`).
-/

namespace LiNaStore.Chase

variable {κ α : Type}

/-- The value that the links lead to from a key, in fewer than so many steps. -/
def follow (next : κ → Option (κ ⊕ α)) : ℕ → κ → Option α
  | 0, _ => none
  | n + 1, k => match next k with
    | some (.inl k') => follow next n k'
    | some (.inr a) => some a
    | none => none

/-- One key is linked to another. -/
def Step (next : κ → Option (κ ⊕ α)) (k k' : κ) : Prop := next k = some (.inl k')

/-- Following the links from one key comes to another. -/
abbrev Reaches (next : κ → Option (κ ⊕ α)) : κ → κ → Prop := Relation.ReflTransGen (Step next)

/-- Following the links from a key comes to a value. -/
inductive Leads (next : κ → Option (κ ⊕ α)) : κ → α → Prop
  | stop {k : κ} {a : α} : next k = some (.inr a) → Leads next k a
  | step {k k' : κ} {a : α} : next k = some (.inl k') → Leads next k' a → Leads next k a

variable {next next' : κ → Option (κ ⊕ α)} {k k' : κ} {a b : α}

theorem Step.unique {k₁ k₂ : κ} (h₁ : Step next k k₁) (h₂ : Step next k k₂) : k₁ = k₂ :=
  Sum.inl.inj (Option.some.inj (h₁.symm.trans h₂))

namespace Leads

theorem isSome (h : Leads next k a) : (next k).isSome := by
  cases h with
  | stop h | step h _ => rw [h]; rfl

/-- What a key leads to, the key it is linked to leads to. -/
theorem of_step (h : Leads next k a) (hstep : Step next k k') : Leads next k' a := by
  cases h with
  | stop hstop => cases hstop.symm.trans hstep
  | step hstep' h => exact Step.unique hstep' hstep ▸ h

theorem of_reaches (h : Leads next k a) (hreaches : Reaches next k k') : Leads next k' a := by
  induction hreaches with
  | refl => exact h
  | tail _ hstep ih => exact ih.of_step hstep

theorem unique (ha : Leads next k a) (hb : Leads next k b) : a = b := by
  induction ha with
  | stop hstop =>
    cases hb with
    | stop hstop' => exact Sum.inr.inj (Option.some.inj (hstop.symm.trans hstop'))
    | step hstep _ => cases hstop.symm.trans hstep
  | step hstep _ ih => exact ih (hb.of_step hstep)

/-- A key that leads to a value is on no circle. -/
theorem not_transGen (h : Leads next k a) : ¬Relation.TransGen (Step next) k k := by
  induction h with
  | stop hstop =>
    intro hcircle
    obtain ⟨_, hstep, _⟩ := Relation.TransGen.head'_iff.mp hcircle
    cases hstop.symm.trans hstep
  | step hstep _ ih =>
    intro hcircle
    -- the circle through `k` goes through the key it is linked to
    obtain ⟨_, hstep', hback⟩ := Relation.TransGen.head'_iff.mp hcircle
    rw [← Step.unique hstep hstep'] at hback
    exact ih (.tail' hback hstep)

/-- If no link on the way has changed, the key leads to the same value. -/
theorem congr (h : Leads next k a) (hsame : ∀ k', Reaches next k k' → next' k' = next k') :
    Leads next' k a := by
  induction h with
  | stop hstop => exact .stop ((hsame _ .refl).trans hstop)
  | step hstep _ ih =>
    exact .step ((hsame _ .refl).trans hstep) (ih fun k' hk' => hsame k' (.head hstep hk'))

/-- If the keys whose links have changed lead to related values, then so do all. -/
theorem redirect {S : Set κ} {R : α → α → Prop} (hrefl : ∀ a, R a a)
    (hkept : ∀ k ∉ S, next' k = next k)
    (hchanged : ∀ k ∈ S, ∀ a, Leads next k a → ∃ b, Leads next' k b ∧ R a b)
    (h : Leads next k a) : ∃ b, Leads next' k b ∧ R a b := by
  induction h with
  | @stop k a hstop =>
    by_cases hk : k ∈ S
    · exact hchanged k hk a (.stop hstop)
    · exact ⟨a, .stop ((hkept k hk).trans hstop), hrefl a⟩
  | @step k k' a hstep hleads ih =>
    by_cases hk : k ∈ S
    · exact hchanged k hk a (.step hstep hleads)
    · obtain ⟨b, hb, hab⟩ := ih
      exact ⟨b, .step ((hkept k hk).trans hstep) hb, hab⟩

/-- If the keys whose links have changed led to values, then so did all that do now. -/
theorem of_redirect {S : Set κ} (hkept : ∀ k ∉ S, next' k = next k)
    (hchanged : ∀ k ∈ S, ∃ a, Leads next k a) (h : Leads next' k b) : ∃ a, Leads next k a := by
  induction h with
  | @stop k a hstop =>
    by_cases hk : k ∈ S
    · exact hchanged k hk
    · exact ⟨a, .stop ((hkept k hk).symm.trans hstop)⟩
  | @step k k' a hstep _ ih =>
    by_cases hk : k ∈ S
    · exact hchanged k hk
    · obtain ⟨a, ha⟩ := ih
      exact ⟨a, .step ((hkept k hk).symm.trans hstep) ha⟩

end Leads

/-! ## Counting steps -/

theorem follow_mono {n m : ℕ} (h : follow next n k = some a) (hle : n ≤ m) :
    follow next m k = some a := by
  induction n generalizing k m with
  | zero => cases h
  | succ n ih =>
    obtain ⟨m, rfl⟩ : ∃ m', m = m' + 1 := ⟨m - 1, by omega⟩
    rw [follow] at h ⊢
    split at h
    · exact ih h (by omega)
    · exact h
    · cases h

theorem leads_of_follow {n : ℕ} (h : follow next n k = some a) : Leads next k a := by
  induction n generalizing k with
  | zero => cases h
  | succ n ih =>
    rw [follow] at h
    split at h
    · next hstep => exact .step hstep (ih h)
    · next hstop => exact .stop (Option.some.inj h ▸ hstop)
    · cases h

/-- The keys on the way to a value are different, and there are as many as there are steps. -/
theorem Leads.exists_way (h : Leads next k a) : ∃ way : List κ, way.Nodup ∧
    (∀ k' ∈ way, Reaches next k k' ∧ (next k').isSome) ∧ follow next way.length k = some a := by
  induction h with
  | @stop k a hstop =>
    refine ⟨[k], List.nodup_singleton k, ?_, ?_⟩
    · rw [List.forall_mem_singleton, hstop]
      exact ⟨.refl, rfl⟩
    · rw [List.length_singleton, follow, hstop]
  | @step k k' a hstep hleads ih =>
    obtain ⟨way, hnodup, hway, hfollow⟩ := ih
    refine ⟨k :: way, List.nodup_cons.mpr ⟨fun hk => ?_, hnodup⟩, ?_, ?_⟩
    · exact (Leads.step hstep hleads).not_transGen (.head' hstep (hway k hk).1)
    · rw [List.forall_mem_cons, hstep]
      exact ⟨⟨.refl, rfl⟩, fun k'' hk'' => ⟨.head hstep (hway k'' hk'').1, (hway k'' hk'').2⟩⟩
    · rw [List.length_cons, follow, hstep]
      exact hfollow

/-- As many steps as there are keys are enough. -/
theorem follow_eq_some_iff {keys : List κ} (hkeys : ∀ k, (next k).isSome → k ∈ keys) :
    follow next keys.length k = some a ↔ Leads next k a := by
  refine ⟨leads_of_follow, fun h => ?_⟩
  obtain ⟨way, hnodup, hway, hfollow⟩ := h.exists_way
  have hsubset : way ⊆ keys := fun k' hk' => hkeys k' (hway k' hk').2
  exact follow_mono hfollow (hnodup.subperm hsubset).length_le

end LiNaStore.Chase
