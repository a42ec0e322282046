import LiNaStore.Server.RateLimiter

/-!
# What the limiter answers

The limiter forgets failures at three places: those of an address when it is asked about the
address and when the address fails again, and those of all addresses when there are too many of
them (`HandshakeRateLimiter.sweep`). None of it shows in what is left in the window: after any
calls (`HandshakeRateLimiter.after`), the instants of an address that are in the window are those
of its failures since its last success (`HandshakeRateLimiter.length_retain_after`).

So an address is let through exactly when these are fewer than the limit, with one exception: an
address without an entry is let through even if the limit is 0 (`limiter_exact_iff`), where an
address with an empty entry is not (`limiter_forgetful`).
-/

namespace LiNaStore

/-- A call of the limiter. -/
inductive LimiterCall
  | check (ip : IpAddr)
  | recordFailure (ip : IpAddr)
  | recordSuccess (ip : IpAddr)
  deriving DecidableEq, Repr

/-- A call with the time it is made at. -/
structure TimedCall where
  now : ℕ
  call : LimiterCall
  deriving DecidableEq, Repr

/-- The call is the report of a failure. -/
def TimedCall.isFailure (c : TimedCall) : Bool :=
  match c.call with
  | .recordFailure _ => true
  | _ => false

namespace HandshakeRateLimiter

variable (self : HandshakeRateLimiter)

/-- What the limiter knows after a call. -/
def apply (guard : Table Failures.ip) (c : TimedCall) : Table Failures.ip :=
  match c.call with
  | .check ip => (self.check c.now ip guard).2
  | .recordFailure ip => self.recordFailure c.now ip guard
  | .recordSuccess ip => recordSuccess ip guard

/-- What the limiter knows after the calls of a history. -/
def after (history : List TimedCall) : Table Failures.ip := history.foldl self.apply .empty

/-- The number of failures of an address since its last success that are in the window. -/
def recentFailures (history : List TimedCall) (now : ℕ) (ip : IpAddr) : ℕ :=
  (history.reverse.takeWhile fun c => c.call ≠ .recordSuccess ip).countP fun c =>
    c.call = .recordFailure ip ∧ now - c.now < self.window

variable {self} {now now' : ℕ} {guard : Table Failures.ip}

/-! ## One call -/

/-- What is in the window later is in the window now. -/
theorem retain_retain (h : now ≤ now') (instants : List ℕ) :
    self.retain now' (self.retain now instants) = self.retain now' instants := by
  rw [retain, retain, retain, List.filter_filter]
  refine List.filter_congr fun t _ => ?_
  rw [← Bool.decide_and, decide_eq_decide]
  omega

theorem retain_append (instants instants' : List ℕ) :
    self.retain now (instants ++ instants') =
      self.retain now instants ++ self.retain now instants' :=
  List.filter_append _ _

theorem retain_check (h : now ≤ now') (ip' ip : IpAddr) :
    self.retain now' (instantsOf (self.check now ip' guard).2 ip) =
      self.retain now' (instantsOf guard ip) := by
  rw [check]
  cases hfind : guard.find? ip' with
  | none => rfl
  | some entries =>
    rw [instantsOf_set]
    split
    · next heq =>
      rw [retain_retain h, show ip = ip' from heq, instantsOf, hfind]
      rfl
    · rfl

theorem retain_recordFailure (h : now ≤ now') (ip' ip : IpAddr) :
    self.retain now' (instantsOf (self.recordFailure now ip' guard) ip) =
      self.retain now' (instantsOf guard ip) ++
        if ip = ip' then self.retain now' [now] else [] := by
  have hset : self.retain now' (instantsOf
      (guard.set ⟨ip', self.retain now (instantsOf guard ip') ++ [now]⟩) ip) =
      self.retain now' (instantsOf guard ip) ++
        if ip = ip' then self.retain now' [now] else [] := by
    rw [instantsOf_set]
    split
    · next heq =>
      cases show ip = ip' from heq
      rw [retain_append, retain_retain h]
    · rw [List.append_nil]
  rw [recordFailure]
  split
  · rw [instantsOf_sweep, retain_retain h]
    exact hset
  · exact hset

theorem instantsOf_recordSuccess (ip' ip : IpAddr) :
    instantsOf (recordSuccess ip' guard) ip = if ip = ip' then [] else instantsOf guard ip := by
  rw [instantsOf, recordSuccess, Table.find?_erase]
  split <;> rfl

/-- A call and the count of the failures that are in the window. -/
theorem length_retain_apply {c : TimedCall} (h : c.now ≤ now) (ip : IpAddr) :
    (self.retain now (instantsOf (self.apply guard c) ip)).length =
      if c.call = .recordSuccess ip then 0
      else (self.retain now (instantsOf guard ip)).length +
        if c.call = .recordFailure ip ∧ now - c.now < self.window then 1 else 0 := by
  rcases c with ⟨then_, ip' | ip' | ip'⟩
  · rw [if_neg LimiterCall.noConfusion, if_neg fun h => LimiterCall.noConfusion h.1, Nat.add_zero]
    exact congrArg List.length (retain_check h ip' ip)
  · rw [if_neg LimiterCall.noConfusion]
    refine (congrArg List.length (retain_recordFailure h ip' ip)).trans ?_
    rw [List.length_append]
    by_cases heq : ip = ip'
    · subst heq
      by_cases hwindow : now - then_ < self.window
      · simp [retain, hwindow]
      · simp [retain, hwindow]
    · simp [heq, Ne.symm heq]
  · change (self.retain now (instantsOf (recordSuccess ip' guard) ip)).length = _
    rw [instantsOf_recordSuccess]
    by_cases heq : ip = ip'
    · subst heq
      rw [if_pos rfl, if_pos rfl]
      rfl
    · simp [heq, Ne.symm heq]

/-! ## Any calls -/

theorem recentFailures_concat (history : List TimedCall) (c : TimedCall) (now : ℕ) (ip : IpAddr) :
    self.recentFailures (history ++ [c]) now ip =
      if c.call = .recordSuccess ip then 0
      else self.recentFailures history now ip +
        if c.call = .recordFailure ip ∧ now - c.now < self.window then 1 else 0 := by
  rw [recentFailures, List.reverse_concat, List.takeWhile_cons]
  by_cases h : c.call = .recordSuccess ip
  · simp [h]
  · simp [h, List.countP_cons, recentFailures]

theorem after_concat (history : List TimedCall) (c : TimedCall) :
    self.after (history ++ [c]) = self.apply (self.after history) c := by
  rw [after, List.foldl_append]
  rfl

/-- What is kept of an address, as far as it is in the window, are its failures since its last
    success. -/
theorem length_retain_after {history : List TimedCall} (h : ∀ c ∈ history, c.now ≤ now)
    (ip : IpAddr) :
    (self.retain now (instantsOf (self.after history) ip)).length =
      self.recentFailures history now ip := by
  -- by induction from the end: each call changes what is kept and what is counted alike
  induction history using List.reverseRecOn with
  | nil => rfl
  | append_singleton history c ih =>
    have hc : c.now ≤ now := h c (List.mem_append_right _ (List.mem_singleton_self c))
    rw [after_concat, recentFailures_concat, length_retain_apply hc,
      ih fun c' hc' => h c' (List.mem_append_left _ hc')]

theorem recentFailures_le (history : List TimedCall) (now : ℕ) (ip : IpAddr) :
    self.recentFailures history now ip ≤ history.countP TimedCall.isFailure := by
  rw [recentFailures, ← List.countP_reverse (l := history)]
  refine (List.countP_mono_left fun c _ hc => ?_).trans
    (List.Sublist.countP_le (List.takeWhile_sublist _))
  have hcall : c.call = .recordFailure ip := (of_decide_eq_true hc).1
  rw [TimedCall.isFailure, hcall]

/-- What the limiter answers, by what it keeps. -/
theorem check_eq_true_iff {ip : IpAddr}
    (h : (self.retain now (instantsOf guard ip)).length < 2 ^ 32) :
    (self.check now ip guard).1 = true ↔
      (self.retain now (instantsOf guard ip)).length < self.maxFailures.toNat ∨
        guard.find? ip = none := by
  rw [check]
  cases hfind : guard.find? ip with
  | none => exact iff_of_true rfl (.inr rfl)
  | some entries =>
    have hinstants : instantsOf guard ip = entries.instants := by
      rw [instantsOf, hfind]
      rfl
    rw [hinstants] at h ⊢
    rw [decide_eq_true_iff, UInt32.lt_iff_toNat_lt, UInt32.toNat_ofNat', Nat.mod_eq_of_lt h]
    exact ⟨.inl, fun h => h.resolve_right (Option.some_ne_none entries)⟩

/-- A failure that leaves too many addresses leaves only such with failures in the window. -/
theorem mem_rows_recordFailure {ip : IpAddr} {entries : Failures}
    (h : self.gcThreshold < (self.recordFailure now ip guard).rows.length)
    (hmem : entries ∈ (self.recordFailure now ip guard).rows) :
    entries.instants ≠ [] ∧ ∀ t ∈ entries.instants, now - t < self.window := by
  rw [recordFailure] at h hmem
  split at hmem
  · obtain ⟨hupdate, hne⟩ := List.mem_filter.mp hmem
    obtain ⟨entries', -, rfl⟩ := Table.mem_update.mp hupdate
    refine ⟨of_decide_eq_true hne, fun t ht => ?_⟩
    exact of_decide_eq_true (List.mem_filter.mp ht).2
  · next hle => exact absurd (by rwa [if_neg hle] at h) hle

end HandshakeRateLimiter

open HandshakeRateLimiter

/-- After any calls, the limiter lets an address through exactly when its failures since its last
    success that are in the window are fewer than the limit, if and only if the limit is not 0 or
    it has an entry for the address. A failure that leaves more addresses than the threshold
    leaves only such that have failures in the window. -/
theorem limiter_exact_iff (L : HandshakeRateLimiter) {history : List TimedCall} {now : ℕ}
    (htime : ∀ c ∈ history, c.now ≤ now) (hcount : history.countP TimedCall.isFailure < 2 ^ 32)
    (ip : IpAddr) :
    (((L.check now ip (L.after history)).1 = true ↔
        L.recentFailures history now ip < L.maxFailures.toNat) ↔
      L.maxFailures ≠ 0 ∨ ((L.after history).find? ip).isSome) ∧
    (L.gcThreshold < (L.recordFailure now ip (L.after history)).rows.length →
      ∀ entries ∈ (L.recordFailure now ip (L.after history)).rows,
        entries.instants ≠ [] ∧ ∀ t ∈ entries.instants, now - t < L.window) := by
  refine ⟨?_, fun h entries => mem_rows_recordFailure h⟩
  have hrecent : (L.retain now (instantsOf (L.after history) ip)).length =
      L.recentFailures history now ip := length_retain_after htime ip
  rw [check_eq_true_iff (hrecent.trans_lt ((recentFailures_le _ _ _).trans_lt hcount)), hrecent,
    or_iff_left_iff_imp]
  cases hfind : (L.after history).find? ip with
  | some entries =>
    exact iff_of_true (fun h => absurd h (Option.some_ne_none entries)) (.inr rfl)
  | none =>
    -- nothing is kept of the address, so no failure counts
    have hzero : L.recentFailures history now ip = 0 := by
      rw [← hrecent, instantsOf, hfind]
      rfl
    have hpos : 0 < L.maxFailures.toNat ↔ L.maxFailures ≠ 0 := by
      rw [Nat.pos_iff_ne_zero, ne_eq, ne_eq, ← UInt32.toNat_inj]
      rfl
    rw [hzero, hpos]
    exact ⟨fun h => .inl (h rfl), fun h _ => h.resolve_right Bool.false_ne_true⟩

/-- An address that failed three times, the first time long ago. -/
def threeFailures : List TimedCall :=
  [⟨10, .recordFailure (.v4 1)⟩, ⟨50, .recordFailure (.v4 1)⟩, ⟨90, .recordFailure (.v4 1)⟩]

theorem limiter_exact_iff_blocks :
    (HandshakeRateLimiter.check ⟨60, 3, 1024⟩ 100 (.v4 1) (after ⟨60, 3, 1024⟩ threeFailures)).1 =
        true ↔
      recentFailures ⟨60, 3, 1024⟩ threeFailures 100 (.v4 1) < (3 : UInt32).toNat :=
  (limiter_exact_iff ⟨60, 3, 1024⟩ (by decide) (by decide) (.v4 1)).1.mpr (.inl (by decide))

/-- A limit of 0, with a window of 60 and room for one address. -/
def zeroLimit : HandshakeRateLimiter := ⟨60, 0, 1⟩

/-- An address is let through before its first failure; once its only failure is out of the window
    it is not, and after a failure of another address it is again. No failure counts in any of the
    three cases. -/
theorem limiter_forgetful :
    (zeroLimit.check 100 (.v4 1) (zeroLimit.after [])).1 = true ∧
      zeroLimit.recentFailures [] 100 (.v4 1) = 0 ∧
    (zeroLimit.check 100 (.v4 1) (zeroLimit.after [⟨0, .recordFailure (.v4 1)⟩])).1 = false ∧
      zeroLimit.recentFailures [⟨0, .recordFailure (.v4 1)⟩] 100 (.v4 1) = 0 ∧
    (zeroLimit.check 100 (.v4 1) (zeroLimit.after
        [⟨0, .recordFailure (.v4 1)⟩, ⟨100, .recordFailure (.v4 2)⟩])).1 = true ∧
      zeroLimit.recentFailures [⟨0, .recordFailure (.v4 1)⟩, ⟨100, .recordFailure (.v4 2)⟩]
        100 (.v4 1) = 0 := by
  decide

end LiNaStore
