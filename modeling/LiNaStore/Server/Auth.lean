import LiNaStore.Library.Program
import LiNaStore.Library.Table
import LiNaStore.Library.Uuid
import Mathlib.Data.Int.ConditionallyCompleteOrder
import Mathlib.Order.ConditionallyCompleteLattice.Basic

/-!
# Sessions

A client that knows the password gets a token, which stands for a session of one hour. The
sessions are rows of a database (`AuthState`): a handshake inserts one, a cleanup deletes those
that are over, and a request asks whether its token has one that is not.

A request allows for a grace period `g`, in seconds. It is added to the time of the request and
not to the end of the session, so that it shortens the session: a token issued at `t` is accepted
at `now` if and only if `now + g < t + 3600` (`SessionRun.accepts_iff`), however often the
sessions were cleaned up. That is what a grace period after the end would give if and only if
`now` is not within `g` seconds of the end of the session (`session_lifetime_iff`).
-/

namespace LiNaStore

open Program

/-! ## The database -/

/-- A row of `users`. -/
structure User where
  id : String
  username : String
  passwordHash : String
  createdAt : ℤ
  updatedAt : ℤ
  deriving DecidableEq, Repr

/-- A row of `sessions`. -/
structure SessionRow where
  id : String
  token : String
  userId : String
  expiresAt : ℤ
  createdAt : ℤ
  deriving DecidableEq, Repr

/-- The database, and how often the clock has been read. -/
structure AuthState where
  users : UniqueTable User.id User.username
  sessions : UniqueTable SessionRow.id SessionRow.token
  reads : ℕ

inductive AuthError
  | database
  deriving DecidableEq, Repr

/-- What the manager of sessions can do. -/
inductive AuthPrim
  /-- Read the clock, in seconds. -/
  | systemTime
  | getUserIdByUsername (username : String)
  | insertUser (row : User)
  | insertSession (row : SessionRow)
  | getUserIdByToken (token : String) (now : ℤ)
  | deleteExpiredSessions (now : ℤ)

/-- What a primitive answers. -/
abbrev AuthPrim.Res : AuthPrim → Type
  | systemTime => ℤ
  | getUserIdByUsername .. => Option String
  | insertUser .. => Unit
  | insertSession .. => Unit
  | getUserIdByToken .. => Option String
  | deleteExpiredSessions .. => ℕ

/-- Programs of the manager of sessions. -/
abbrev AuthProg := Program AuthError AuthPrim.Res

/-- The program of one primitive. -/
abbrev query (p : AuthPrim) : AuthProg p.Res := perform p

/-- The primitives of a database that works; the `i`-th reading of the clock is `clock i`.
    An insertion fails if a value that is to be unique is taken, or if the user of a session
    is not there. -/
def AuthPrim.step (clock : ℕ → ℤ) :
    (p : AuthPrim) → AuthState → Except AuthError p.Res × AuthState
  | systemTime, s => (.ok (clock s.reads), { s with reads := s.reads + 1 })
  | getUserIdByUsername username, s =>
    (.ok ((s.users.rows.find? (·.username = username)).map User.id), s)
  | insertUser row, s =>
    match s.users.insert? row with
    | some users => (.ok (), { s with users })
    | none => (.error .database, s)
  | insertSession row, s =>
    if (s.users.find? row.userId).isSome then
      match s.sessions.insert? row with
      | some sessions => (.ok (), { s with sessions })
      | none => (.error .database, s)
    else (.error .database, s)
  | getUserIdByToken token now, s =>
    (.ok ((s.sessions.rows.find? fun row => row.token = token ∧ row.expiresAt > now).map
      SessionRow.userId), s)
  | deleteExpiredSessions now, s =>
    (.ok (s.sessions.rows.countP fun row => row.expiresAt < now),
      { s with sessions := s.sessions.filter fun row => ¬row.expiresAt < now })

/-- Inserting a session, or failing to. -/
theorem AuthPrim.step_insertSession (clock : ℕ → ℤ) (row : SessionRow) (s : AuthState) :
    (∃ sessions, AuthPrim.step clock (.insertSession row) s = (.ok (), { s with sessions }) ∧
      sessions.rows = s.sessions.rows ++ [row]) ∨
    AuthPrim.step clock (.insertSession row) s = (.error .database, s) := by
  rw [AuthPrim.step]
  split
  · cases hinsert : s.sessions.insert? row with
    | none => exact .inr rfl
    | some sessions => exact .inl ⟨sessions, rfl, UniqueTable.rows_of_insert? hinsert⟩
  · exact .inr rfl

/-! ## The manager -/

/-- Argon2: a hash of a password, unless there is an error, and its verification. -/
structure Argon2 where
  hashPassword : (salt : Bytes) → (password : String) → Option String
  verifyPassword : (password phc : String) → Bool

/-- How a handshake went. -/
inductive HandshakeStatus
  | success
  | invalidPassword
  | authDisabled
  | internalError
  deriving DecidableEq, Repr

def HandshakeStatus.code : HandshakeStatus → UInt8
  | success => 0
  | invalidPassword => 1
  | authDisabled => 2
  | internalError => 127

/-- What is known of a session after a handshake. -/
structure Session where
  token : String
  userId : String
  expiresAt : ℤ
  deriving DecidableEq, Repr

/-- A session that begins at `now`. -/
def Session.new (token userId : String) (now : ℤ) : Session := ⟨token, userId, now + 3600⟩

/-- What a handshake draws: a token, the id of the session and, for a new user, an id and the
    salt of the hash of the password. -/
structure HandshakeDraws where
  token : Uuid
  sessionId : Uuid
  userId : Uuid
  salt : Bytes

/-- Draws for three handshakes, all different. -/
def HandshakeDraws.sample (i : ℕ) : HandshakeDraws :=
  ⟨.const (.ofNat i), .const (.ofNat (i + 3)), .const (.ofNat (i + 6)), []⟩

structure AuthManager where
  /-- There is a database. -/
  dbConn : Bool
  authRequired : Bool
  /-- The hash of the password. -/
  passwordPhc : Option String

namespace AuthManager

variable (A : Argon2) (self : AuthManager)

def isPasswordEnabled : Bool := self.authRequired

def verifyPassword (password : String) : Bool :=
  match self.passwordPhc with
  | some phc => A.verifyPassword password phc
  | none => false

/-- Begin a session. -/
def createSession (d : HandshakeDraws) (userId : String) : AuthProg Session := do
  let now ← query .systemTime
  let session := Session.new d.token.text userId now
  if self.dbConn then
    let now ← query .systemTime
    query (.insertSession
      ⟨d.sessionId.text, session.token, session.userId, session.expiresAt, now⟩)
    return session
  else return session

/-- The user a token stands for. -/
def validateSession (token : String) (gracePeriodSeconds : ℤ) : AuthProg (Option String) :=
  if !self.authRequired then return some "anonymous"
  else if self.dbConn then do
    let now ← query .systemTime
    let nowWithGrace := now + gracePeriodSeconds
    match ← (query (.getUserIdByToken token nowWithGrace)).attempt with
    | .ok userId => return userId
    | .error _ => return none
  else return none

/-- Delete the sessions that are over. -/
def cleanupExpiredSessions : AuthProg Unit :=
  if self.dbConn then do
    let now ← query .systemTime
    (query (.deleteExpiredSessions now)).ignore
  else return ()

/-- The id of a user, who is inserted if need be. -/
def ensureUser (d : HandshakeDraws) (username password : String) :
    AuthProg (Except HandshakeStatus String) := do
  let now ← query .systemTime
  match ← (query (.getUserIdByUsername username)).attempt with
  | .ok (some id) => return .ok id
  | .ok none =>
    match A.hashPassword d.salt password with
    | none => return .error .internalError
    | some userPhc =>
      match ← (query (.insertUser ⟨d.userId.text, username, userPhc, now, now⟩)).attempt with
      | .ok _ => return .ok d.userId.text
      | .error _ => return .error .internalError
  | .error _ => return .error .internalError

/-- Begin a session and return its token and its end. -/
def issueToken (d : HandshakeDraws) (userId : String) :
    AuthProg (Except HandshakeStatus (String × ℤ)) := do
  match ← (self.createSession d userId).attempt with
  | .ok session => return .ok (session.token, session.expiresAt)
  | .error _ => return .error .internalError

/-- Verify a password and begin a session. -/
def handleHandshake (d : HandshakeDraws) (username password : String) :
    AuthProg (Except HandshakeStatus (String × ℤ)) :=
  if !self.isPasswordEnabled then return .error .authDisabled
  else if self.verifyPassword A password then
    if self.dbConn then do
      match ← ensureUser A d username password with
      | .ok userId => self.issueToken d userId
      | .error status => return .error status
    else self.issueToken d username
  else return .error .invalidPassword

/-! ## What the programs do -/

variable {A self} {clock : ℕ → ℤ} {s : AuthState}

/-- Finding a user, or inserting one, does not change the sessions. -/
theorem run_ensureUser (clock : ℕ → ℤ) (s : AuthState) (A : Argon2) (d : HandshakeDraws)
    (username password : String) :
    ∃ r users, (ensureUser A d username password).run (AuthPrim.step clock) s =
      (.ok r, { s with users, reads := s.reads + 1 }) := by
  rw [ensureUser, run_bind, run_perform, AuthPrim.step]
  dsimp only
  rw [run_bind, run_attempt, run_perform, AuthPrim.step]
  dsimp only
  cases (s.users.rows.find? (·.username = username)).map User.id with
  | some id => exact ⟨.ok id, s.users, rfl⟩
  | none =>
    dsimp only
    cases A.hashPassword d.salt password with
    | none => exact ⟨.error .internalError, s.users, rfl⟩
    | some userPhc =>
      dsimp only
      rw [run_bind, run_attempt, run_perform, AuthPrim.step]
      dsimp only
      cases s.users.insert? ⟨d.userId.text, username, userPhc, clock s.reads, clock s.reads⟩ with
      | none => exact ⟨.error .internalError, s.users, rfl⟩
      | some users => exact ⟨.ok d.userId.text, users, rfl⟩

/-- A session that begins ends an hour after the first of the two readings of the clock. -/
theorem run_issueToken (clock : ℕ → ℤ) (s : AuthState) (hdb : self.dbConn = true)
    (d : HandshakeDraws) (userId : String) :
    (∃ (sessions : UniqueTable SessionRow.id SessionRow.token) (row : SessionRow),
      (self.issueToken d userId).run (AuthPrim.step clock) s =
        (.ok (.ok (d.token.text, clock s.reads + 3600)),
          { s with sessions, reads := s.reads + 2 }) ∧
      sessions.rows = s.sessions.rows ++ [row] ∧ row.token = d.token.text ∧
      row.expiresAt = clock s.reads + 3600) ∨
    (self.issueToken d userId).run (AuthPrim.step clock) s =
      (.ok (.error .internalError), { s with reads := s.reads + 2 }) := by
  rw [issueToken, run_bind, run_attempt, createSession, run_bind, run_perform, AuthPrim.step]
  dsimp only
  rw [if_pos hdb, run_bind, run_perform, AuthPrim.step]
  dsimp only
  rw [run_bind, run_perform]
  rcases AuthPrim.step_insertSession clock
    ⟨d.sessionId.text, d.token.text, userId, clock s.reads + 3600, clock (s.reads + 1)⟩
    { s with reads := s.reads + 2 } with ⟨sessions, hstep, hrows⟩ | hstep
  · refine .inl ⟨sessions, _, ?_, hrows, rfl, rfl⟩
    rw [Session.new, hstep]
    rfl
  · refine .inr ?_
    rw [Session.new, hstep]
    rfl

/-- A handshake that succeeds inserts a session that ends an hour after its second reading of the
    clock; one that fails changes no session. -/
theorem run_handleHandshake (hdb : self.dbConn = true) (A : Argon2) (d : HandshakeDraws)
    (username password : String) :
    (∃ (s' : AuthState) (row : SessionRow),
      (self.handleHandshake A d username password).run (AuthPrim.step clock) s =
        (.ok (.ok (d.token.text, clock (s.reads + 1) + 3600)), s') ∧
      s'.sessions.rows = s.sessions.rows ++ [row] ∧ row.token = d.token.text ∧
      row.expiresAt = clock (s.reads + 1) + 3600 ∧ s.reads ≤ s'.reads) ∨
    ∃ (status : HandshakeStatus) (s' : AuthState),
      (self.handleHandshake A d username password).run (AuthPrim.step clock) s =
        (.ok (.error status), s') ∧ s'.sessions = s.sessions ∧ s.reads ≤ s'.reads := by
  rw [handleHandshake]
  cases self.isPasswordEnabled with
  | false => exact .inr ⟨.authDisabled, s, rfl, rfl, Nat.le_refl _⟩
  | true =>
    cases self.verifyPassword A password with
    | false => exact .inr ⟨.invalidPassword, s, rfl, rfl, Nat.le_refl _⟩
    | true =>
      simp only [Bool.not_true, Bool.false_eq_true, if_false, if_true, if_pos hdb]
      obtain ⟨r, users, huser⟩ := run_ensureUser clock s A d username password
      rw [run_bind, huser]
      cases r with
      | error status => exact .inr ⟨status, _, rfl, rfl, Nat.le_succ _⟩
      | ok userId =>
        dsimp only
        rcases run_issueToken clock { s with users, reads := s.reads + 1 } hdb d userId with
          ⟨sessions, row, hrun, hrows, htoken, hexpires⟩ | hrun
        · exact .inl ⟨_, row, hrun, hrows, htoken, hexpires, by dsimp only; omega⟩
        · exact .inr ⟨.internalError, _, hrun, rfl, by dsimp only; omega⟩

theorem run_cleanupExpiredSessions (hdb : self.dbConn = true) :
    (self.cleanupExpiredSessions.run (AuthPrim.step clock) s).2 =
      { s with
        sessions := s.sessions.filter fun row => ¬row.expiresAt < clock s.reads
        reads := s.reads + 1 } := by
  rw [cleanupExpiredSessions, if_pos hdb]
  rfl

/-- A token is accepted if it has a session that ends more than the grace period from now. -/
theorem run_validateSession (hauth : self.authRequired = true) (hdb : self.dbConn = true)
    (token : String) (g : ℤ) :
    (self.validateSession token g).run (AuthPrim.step clock) s =
      (.ok ((s.sessions.rows.find? fun row =>
        row.token = token ∧ row.expiresAt > clock s.reads + g).map SessionRow.userId),
        { s with reads := s.reads + 1 }) := by
  rw [validateSession, hauth, if_neg (by decide), if_pos hdb]
  rfl

end AuthManager

/-! ## Runs -/

/-- The runs of a manager of sessions, from a database without sessions. The tokens that were
    issued are kept, with the time their sessions begin: the second reading of the clock by the
    handshake. A token that is drawn is new. -/
inductive SessionRun (A : Argon2) (m : AuthManager) (clock : ℕ → ℤ) :
    AuthState → List (String × ℤ) → Prop
  /-- No session has begun. -/
  | start (users : UniqueTable User.id User.username) : SessionRun A m clock ⟨users, .empty, 0⟩ []
  /-- A handshake succeeds. -/
  | handshake {s s' : AuthState} {issued : List (String × ℤ)} {token : String} {expiresAt : ℤ}
      (d : HandshakeDraws) (username password : String) : SessionRun A m clock s issued →
      d.token.text ∉ issued.map Prod.fst →
      (m.handleHandshake A d username password).run (AuthPrim.step clock) s =
        (.ok (.ok (token, expiresAt)), s') →
      SessionRun A m clock s' ((token, clock (s.reads + 1)) :: issued)
  /-- A handshake fails. -/
  | handshakeError {s s' : AuthState} {issued : List (String × ℤ)} {status : HandshakeStatus}
      (d : HandshakeDraws) (username password : String) : SessionRun A m clock s issued →
      (m.handleHandshake A d username password).run (AuthPrim.step clock) s =
        (.ok (.error status), s') →
      SessionRun A m clock s' issued
  | cleanup {s : AuthState} {issued : List (String × ℤ)} : SessionRun A m clock s issued →
      SessionRun A m clock (m.cleanupExpiredSessions.run (AuthPrim.step clock) s).2 issued
  | validate {s : AuthState} {issued : List (String × ℤ)} (token : String) (g : ℤ) :
      SessionRun A m clock s issued →
      SessionRun A m clock ((m.validateSession token g).run (AuthPrim.step clock) s).2 issued

/-- The sessions are those of the tokens that were issued, but for some that have been over at
    an earlier reading of the clock. -/
structure AuthState.Tracks (clock : ℕ → ℤ) (issued : List (String × ℤ)) (s : AuthState) : Prop where
  nodup : (issued.map Prod.fst).Nodup
  issued_of_row : ∀ row ∈ s.sessions.rows, ∃ t, (row.token, t) ∈ issued ∧ row.expiresAt = t + 3600
  row_of_issued : ∀ token t, (token, t) ∈ issued →
    (∃ row ∈ s.sessions.rows, row.token = token ∧ row.expiresAt = t + 3600) ∨
      ∃ i < s.reads, t + 3600 < clock i

namespace AuthState.Tracks

variable {clock : ℕ → ℤ} {issued : List (String × ℤ)} {s s' : AuthState}

/-- Reading the clock. -/
theorem of_sessions_eq (h : s.Tracks clock issued) (hsessions : s'.sessions = s.sessions)
    (hreads : s.reads ≤ s'.reads) : s'.Tracks clock issued where
  nodup := h.nodup
  issued_of_row := by rw [hsessions]; exact h.issued_of_row
  row_of_issued token t ht := by
    rw [hsessions]
    exact (h.row_of_issued token t ht).imp_right fun ⟨i, hi, hover⟩ =>
      ⟨i, Nat.lt_of_lt_of_le hi hreads, hover⟩

theorem issue (h : s.Tracks clock issued) {row : SessionRow} {t : ℤ}
    (hrows : s'.sessions.rows = s.sessions.rows ++ [row]) (hexpires : row.expiresAt = t + 3600)
    (hnew : row.token ∉ issued.map Prod.fst) (hreads : s.reads ≤ s'.reads) :
    s'.Tracks clock ((row.token, t) :: issued) where
  nodup := List.nodup_cons.mpr ⟨hnew, h.nodup⟩
  issued_of_row row' hrow' := by
    rw [hrows, List.mem_append, List.mem_singleton] at hrow'
    rcases hrow' with hrow' | rfl
    · obtain ⟨t', ht', hexpires'⟩ := h.issued_of_row row' hrow'
      exact ⟨t', List.mem_cons_of_mem _ ht', hexpires'⟩
    · exact ⟨t, List.mem_cons_self, hexpires⟩
  row_of_issued token t' ht' := by
    rw [hrows]
    rcases List.mem_cons.mp ht' with heq | ht'
    · cases heq
      exact .inl ⟨row, List.mem_append_right _ (List.mem_singleton_self row), rfl, hexpires⟩
    · exact (h.row_of_issued token t' ht').imp
        (fun ⟨row', hrow', heq⟩ => ⟨row', List.mem_append_left _ hrow', heq⟩)
        fun ⟨i, hi, hover⟩ => ⟨i, Nat.lt_of_lt_of_le hi hreads, hover⟩

/-- Cleaning up deletes sessions that are over now. -/
theorem cleanup (h : s.Tracks clock issued) : Tracks clock issued
    { s with
      sessions := s.sessions.filter fun row => ¬row.expiresAt < clock s.reads
      reads := s.reads + 1 } where
  nodup := h.nodup
  issued_of_row row hrow := h.issued_of_row row (List.mem_filter.mp hrow).1
  row_of_issued token t ht := by
    rcases h.row_of_issued token t ht with ⟨row, hrow, htoken, hexpires⟩ | ⟨i, hi, hover⟩
    · by_cases hover : row.expiresAt < clock s.reads
      · exact .inr ⟨s.reads, Nat.lt_succ_self _, hexpires ▸ hover⟩
      · exact .inl ⟨row, List.mem_filter.mpr ⟨hrow, decide_eq_true hover⟩, htoken, hexpires⟩
    · exact .inr ⟨i, Nat.lt_succ_of_lt hi, hover⟩

end AuthState.Tracks

namespace SessionRun

variable {A : Argon2} {m : AuthManager} {clock : ℕ → ℤ} {s : AuthState}
  {issued : List (String × ℤ)}

theorem tracks (hauth : m.authRequired = true) (hdb : m.dbConn = true)
    (h : SessionRun A m clock s issued) : s.Tracks clock issued := by
  induction h with
  | start users => exact ⟨List.nodup_nil, nofun, nofun⟩
  | handshake d username password _ hnew hrun ih =>
    rcases AuthManager.run_handleHandshake hdb A d username password with
      ⟨_, row, hok, hrows, htoken, hexpires, hreads⟩ | ⟨_, _, herror, _⟩
    · rw [hok] at hrun
      cases hrun
      rw [← htoken] at hnew ⊢
      exact ih.issue hrows hexpires hnew hreads
    · rw [herror] at hrun
      cases hrun
  | handshakeError d username password _ hrun ih =>
    rcases AuthManager.run_handleHandshake hdb A d username password with
      ⟨_, _, hok, _⟩ | ⟨_, _, herror, hsessions, hreads⟩
    · rw [hok] at hrun
      cases hrun
    · rw [herror] at hrun
      cases hrun
      exact ih.of_sessions_eq hsessions hreads
  | cleanup _ ih =>
    rw [AuthManager.run_cleanupExpiredSessions hdb]
    exact ih.cleanup
  | validate token g _ ih =>
    rw [AuthManager.run_validateSession hauth hdb]
    exact ih.of_sessions_eq rfl (Nat.le_succ _)

/-- A token is accepted if and only if it was issued less than an hour minus the grace period
    ago. -/
theorem accepts_iff (hclock : Monotone clock) (hauth : m.authRequired = true)
    (hdb : m.dbConn = true) (h : SessionRun A m clock s issued) (token : String) {g : ℤ}
    (hg : 0 ≤ g) :
    (∃ user, ((m.validateSession token g).run (AuthPrim.step clock) s).1 = .ok (some user)) ↔
      ∃ t, (token, t) ∈ issued ∧ clock s.reads + g < t + 3600 := by
  have htracks := h.tracks hauth hdb
  rw [AuthManager.run_validateSession hauth hdb]
  constructor
  · rintro ⟨user, huser⟩
    obtain ⟨row, hfind, _⟩ := Option.map_eq_some_iff.mp (Except.ok.inj huser)
    have hrow := List.mem_of_find?_eq_some hfind
    have hmatch := List.find?_some hfind
    obtain ⟨htoken, hexpires⟩ := of_decide_eq_true hmatch
    obtain ⟨t, ht, heq⟩ := htracks.issued_of_row row hrow
    exact ⟨t, htoken ▸ ht, heq ▸ hexpires⟩
  · rintro ⟨t, ht, hlt⟩
    rcases htracks.row_of_issued token t ht with ⟨row, hrow, htoken, hexpires⟩ | ⟨i, hi, hover⟩
    · have hsome : (s.sessions.rows.find? fun row =>
          row.token = token ∧ row.expiresAt > clock s.reads + g).isSome :=
        List.find?_isSome.mpr ⟨row, hrow, decide_eq_true ⟨htoken, by omega⟩⟩
      obtain ⟨row', hrow'⟩ := Option.isSome_iff_exists.mp hsome
      exact ⟨row'.userId, by rw [hrow']; rfl⟩
    · -- a session that was cleaned up had been over before
      have := hclock hi.le
      omega

end SessionRun

/-- A token is accepted exactly as a grace period after the end of its session would have it, if
    and only if the request does not come within the grace period before or after the end. -/
theorem session_lifetime_iff {A : Argon2} {m : AuthManager} {clock : ℕ → ℤ} {s : AuthState}
    {issued : List (String × ℤ)} (hclock : Monotone clock) (hauth : m.authRequired = true)
    (hdb : m.dbConn = true) (h : SessionRun A m clock s issued) (token : String) (g : ℤ)
    (hg : 0 ≤ g) :
    ((∃ user, ((m.validateSession token g).run (AuthPrim.step clock) s).1 = .ok (some user)) ↔
      ∃ t, (token, t) ∈ issued ∧ clock s.reads < t + 3600 + g) ↔
    ∀ t, (token, t) ∈ issued → clock s.reads < t + 3600 - g ∨ t + 3600 + g ≤ clock s.reads := by
  rw [h.accepts_iff hclock hauth hdb token hg]
  constructor
  · intro hiff t ht
    by_cases hlt : clock s.reads < t + 3600 + g
    · obtain ⟨t', ht', hlt'⟩ := hiff.mpr ⟨t, ht, hlt⟩
      -- a token is issued once
      have heq : (token, t') = (token, t) :=
        List.inj_on_of_nodup_map (h.tracks hauth hdb).nodup ht' ht rfl
      cases heq
      omega
    · omega
  · intro hoff
    constructor
    · rintro ⟨t, ht, hlt⟩
      exact ⟨t, ht, by omega⟩
    · rintro ⟨t, ht, hlt⟩
      have := hoff t ht
      exact ⟨t, ht, by omega⟩

/-- A manager with the password `password`, whose hash is the password itself. -/
def AuthManager.sample : AuthManager := ⟨true, true, some "password"⟩

/-- A hash that hides nothing. -/
def Argon2.plain : Argon2 := ⟨fun _ password => some password, fun password phc => password = phc⟩

/-- A token that is used half an hour after it was issued. -/
theorem session_lifetime_early :
    ∃ s issued, SessionRun .plain .sample (fun i => 600 * i) s issued ∧
      ((Uuid.const 0).text, 600) ∈ issued ∧
      ((∃ user, ((AuthManager.sample.validateSession (Uuid.const 0).text 60).run
        (AuthPrim.step fun i => 600 * i) s).1 = .ok (some user)) ↔
        ∃ t, ((Uuid.const 0).text, t) ∈ issued ∧ 600 * (s.reads : ℤ) < t + 3600 + 60) := by
  have h : SessionRun .plain .sample (fun i => 600 * i) _ _ :=
    .cleanup (.handshake (.sample 0) "user" "password" (.start .empty) List.not_mem_nil rfl)
  refine ⟨_, _, h, List.mem_singleton.mpr rfl, (session_lifetime_iff ?_ rfl rfl h _ 60
    (by decide)).mpr ?_⟩
  · intro i j hij
    dsimp only
    omega
  · intro t ht
    cases List.mem_singleton.mp ht
    exact .inl (by decide)

/-- Near the end of the session the grace period makes the difference, and makes it the wrong way:
    the token is accepted without it and rejected with it. -/
theorem session_lifetime_late :
    ∃ s issued, SessionRun .plain .sample (fun i => if i < 3 then 0 else 3550) s issued ∧
      (∃ user, ((AuthManager.sample.validateSession (Uuid.const 0).text 0).run
        (AuthPrim.step fun i => if i < 3 then 0 else 3550) s).1 = .ok (some user)) ∧
      ¬((∃ user, ((AuthManager.sample.validateSession (Uuid.const 0).text 60).run
        (AuthPrim.step fun i => if i < 3 then 0 else 3550) s).1 = .ok (some user)) ↔
        ∃ t, ((Uuid.const 0).text, t) ∈ issued ∧ (3550 : ℤ) < t + 3600 + 60) := by
  refine ⟨_, _, .handshake (.sample 0) "user" "password" (.start .empty) List.not_mem_nil rfl,
    ⟨(Uuid.const 6).text, rfl⟩, fun h => ?_⟩
  obtain ⟨user, huser⟩ := h.mpr ⟨0, List.mem_singleton.mpr rfl, by decide⟩
  cases huser

end LiNaStore
