import LiNaStore.Library.Decimal
import LiNaStore.Server.Framing

/-!
# The configuration

The server takes its configuration from environment variables (`EnvVar.initializeFrom`). What cannot
be read is noted, and a configuration with such notes is refused before the server runs, as is one
without room for a payload or with authentication but no password (`EnvVar.validate`); what is
left are the configurations of servers that run (`Configuration`).

* The size of payloads is configured with 64 bits and compared with 32 of them: the limit is kept
  if it is below `2 ^ 32`, and for the payloads that are not above what is left of it
  (`payload_limit_iff`).
* The address of the database is logged without its password (`maskDbUrl`), which is found between
  the last colon before the first at sign and that sign. So all of it is left out if it has no
  colon, and there is a user before it (`mask_complete_iff`).
-/

namespace LiNaStore

/-! ## Reading the environment -/

/-- The environment variables that are set, to text. -/
abbrev Environment := String → Option String

/-- The characters that are white space. -/
def isWhiteSpace (c : Char) : Bool :=
  let n := c.toNat
  (0x09 ≤ n ∧ n ≤ 0x0D) ∨ n = 0x20 ∨ n = 0x85 ∨ n = 0xA0 ∨ n = 0x1680 ∨
    (0x2000 ≤ n ∧ n ≤ 0x200A) ∨ n = 0x2028 ∨ n = 0x2029 ∨ n = 0x202F ∨ n = 0x205F ∨ n = 0x3000

/-- The text without white space at its ends. -/
def trim (text : String) : String :=
  .ofList ((text.toList.dropWhile isWhiteSpace).reverse.dropWhile isWhiteSpace).reverse

def parseUsize (text : String) : Option UInt64 :=
  (Decimal.parseUnsigned 64 text.toList).map .ofNat

def parseTruthy (raw : String) : Option Bool :=
  let value := (trim raw).toLower
  if value ∈ ["1", "true", "yes", "on"] then some true
  else if value ∈ ["", "0", "false", "no", "off"] then some false
  else none

/-- The address of a database with its password replaced. Positions are counted in characters; the
    comparison only asks whether something stands between the two. -/
def maskDbUrl (url : String) : String :=
  match firstOf '@' url.toList with
  | none => url
  | some atPos =>
    -- a colon in the password hides those before it
    match lastOf ':' (url.toList.take atPos) with
    | none => url
    | some colonPos =>
      match firstRun "://".toList url.toList with
      | none => url
      | some protocolEnd =>
        if colonPos > protocolEnd + 3 then
          String.ofList (url.toList.take (colonPos + 1)) ++ "***" ++
            String.ofList (url.toList.drop atPos)
        else url

structure EnvVar where
  ipAddress : String
  advancedPort : String
  httpPort : String
  s3Port : String
  maxPayloadSize : UInt64
  authRequired : Bool
  adminUsername : String
  adminPassword : Option String
  dbUrl : String
  /-- What could not be read. -/
  initErrors : List String
  deriving DecidableEq, Repr

namespace EnvVar

/-- A variable, or else its default; that it is not set is logged. -/
def orDefault (env : Environment) (name default : String) : String × List String :=
  match env name with
  | some value => (value, [])
  | none => (default, [name ++ " not set, using default"])

def readAdminPasswordFromEnv (env : Environment) : Option String :=
  (env "LINASTORE_ADMIN_PASSWORD").filter fun v => trim v ≠ ""

/-- The size of payloads, what could not be read of it, and what is logged. -/
def readMaxPayloadSize (debug : String → String) (env : Environment) :
    UInt64 × List String × List String :=
  match env "LINASTORE_MAX_PAYLOAD_SIZE" with
  | some raw =>
    match parseUsize (trim raw) with
    | some v => (v, [], [])
    -- a placeholder, which is refused together with the note
    | none => (0x4000000, ["LINASTORE_MAX_PAYLOAD_SIZE is not a valid usize: " ++ debug raw], [])
  | none => (0x4000000, [], ["LINASTORE_MAX_PAYLOAD_SIZE not set, using default"])

/-- Whether authentication is required, and what could not be read of it. -/
def readAuthRequired (debug : String → String) (env : Environment) : Bool × List String :=
  match env "LINASTORE_AUTH_REQUIRED" with
  | some raw =>
    match parseTruthy raw with
    | some v => (v, [])
    | none => (false, ["LINASTORE_AUTH_REQUIRED has unrecognized value " ++ debug raw ++
        " (expected 1/true/yes/on or 0/false/no/off)"])
  | none => (false, [])

/-- The configuration from the environment, and what is logged; `debug` is how the standard library
    shows a text in quotes. -/
def initializeFrom (debug : String → String) (env : Environment) : EnvVar × List String :=
  let (ipAddress, log₁) := orDefault env "LINASTORE_IP" "127.0.0.1"
  let (httpPort, log₂) := orDefault env "LINASTORE_HTTP_PORT" "8086"
  let (advancedPort, log₃) := orDefault env "LINASTORE_ADVANCED_PORT" "8096"
  let (s3Port, log₄) := orDefault env "LINASTORE_S3_PORT" "8087"
  let (maxPayloadSize, errors₁, log₅) := readMaxPayloadSize debug env
  let (authRequired, errors₂) := readAuthRequired debug env
  let (dbUrl, log₆) := orDefault env "LINASTORE_DB_URL" "sqlite://./linadata/meta.db"
  let (adminUsername, adminPassword, log₇) :=
    if authRequired then
      (((env "LINASTORE_ADMIN_USER").filter (· ≠ "")).getD "admin", readAdminPasswordFromEnv env,
        ["Password protection is enabled for advanced service"])
    else ("", none, ["Password protection is disabled - advanced service is open"])
  ({ ipAddress, advancedPort, httpPort, s3Port, maxPayloadSize, authRequired, adminUsername,
     adminPassword, dbUrl, initErrors := errors₁ ++ errors₂ },
    log₁ ++ log₂ ++ log₃ ++ log₄ ++ log₅ ++ log₆ ++ log₇ ++ ["Database URL: " ++ maskDbUrl dbUrl])

def validate (self : EnvVar) : Except String Unit :=
  if self.initErrors ≠ [] then
    .error ("Invalid LINASTORE_* environment configuration:\n  - " ++
      "\n  - ".intercalate self.initErrors)
  else if self.maxPayloadSize = 0 then
    .error "LINASTORE_MAX_PAYLOAD_SIZE must be greater than 0."
  else if self.authRequired ∧ self.adminPassword = none then
    .error ("Authentication is enabled, but no admin password was provided. " ++
      "Set LINASTORE_ADMIN_PASSWORD.")
  else .ok ()

theorem validate_eq_ok_iff {self : EnvVar} : self.validate = .ok () ↔
    self.initErrors = [] ∧ self.maxPayloadSize ≠ 0 ∧
      (self.authRequired = true → self.adminPassword ≠ none) := by
  rw [validate]
  split_ifs with herrors hsize hpassword
  · exact iff_of_false nofun fun h => herrors h.1
  · exact iff_of_false nofun fun h => h.2.1 hsize
  · exact iff_of_false nofun fun h => h.2.2 hpassword.1 hpassword.2
  · exact iff_of_true rfl ⟨not_not.mp herrors, hsize, fun h h' => hpassword ⟨h, h'⟩⟩

/-- The server runs with the defaults. -/
theorem validate_default (debug : String → String) :
    (initializeFrom debug fun _ => none).1.validate = .ok () :=
  validate_eq_ok_iff.mpr ⟨rfl, show (0x4000000 : UInt64) ≠ 0 by decide, nofun⟩

/-- The address of the database is in what is logged only as far as it is not masked. -/
theorem log_initializeFrom {debug : String → String} {env env' : Environment} {url url' : String}
    (henv : ∀ name, name ≠ "LINASTORE_DB_URL" → env name = env' name)
    (hurl : env "LINASTORE_DB_URL" = some url) (hurl' : env' "LINASTORE_DB_URL" = some url')
    (hmask : maskDbUrl url = maskDbUrl url') :
    (initializeFrom debug env).2 = (initializeFrom debug env').2 := by
  have hsize : readMaxPayloadSize debug env = readMaxPayloadSize debug env' := by
    rw [readMaxPayloadSize, readMaxPayloadSize, henv _ (by decide)]
  have hauth : readAuthRequired debug env = readAuthRequired debug env' := by
    rw [readAuthRequired, readAuthRequired, henv _ (by decide)]
  have hdefault (name default : String) (hname : name ≠ "LINASTORE_DB_URL") :
      orDefault env name default = orDefault env' name default := by
    rw [orDefault, orDefault, henv name hname]
  have hset {env : Environment} {url : String} (hurl : env "LINASTORE_DB_URL" = some url) :
      orDefault env "LINASTORE_DB_URL" "sqlite://./linadata/meta.db" = (url, []) := by
    rw [orDefault, hurl]
  unfold initializeFrom
  rw [hsize, hauth, hdefault _ _ (by decide), hdefault _ _ (by decide), hdefault _ _ (by decide),
    hdefault _ _ (by decide), hset hurl, hset hurl']
  dsimp only
  rw [hmask]
  split <;> rfl

end EnvVar

/-- The configuration of a server that runs. -/
structure Configuration extends EnvVar where
  valid : toEnvVar.validate = .ok ()

/-! ## The limit of payloads -/

namespace Reader

variable {α β : Type} {e : ProtocolReadError}

/-- The reader never fails in this way. -/
def Avoids (e : ProtocolReadError) (r : Reader α) : Prop := ∀ s, r s ≠ .error e

theorem Avoids.pure (a : α) : Avoids e (Pure.pure a : Reader α) := fun _ h => by cases h

theorem Avoids.throw {e' : ProtocolReadError} (h : e' ≠ e) : Avoids e (throw e' : Reader α) :=
  fun _ heq => h (Except.error.inj heq)

theorem Avoids.bind {x : Reader α} {f : α → Reader β} (hx : Avoids e x)
    (hf : ∀ a, Avoids e (f a)) : Avoids e (x >>= f) := by
  intro s h
  change (x s >>= fun p => f p.1 p.2) = _ at h
  cases hxs : x s with
  | error e' =>
    rw [hxs] at h
    cases h
    exact hx s hxs
  | ok p =>
    rw [hxs] at h
    exact hf p.1 p.2 h

theorem Avoids.ofRead (h : e ≠ .disconnected) (r : Stream → Option (α × Stream)) :
    Avoids e (ofRead r) := by
  intro s hs
  rw [Reader.ofRead] at hs
  split at hs
  · cases hs
  · exact h (Except.error.inj hs).symm

theorem Avoids.readU32Le (h : e ≠ .disconnected) : Avoids e readU32Le :=
  (Avoids.ofRead h _).bind fun _ => .pure _

end Reader

/-- What is left to do once the length of a request was accepted. -/
def readAccepted (grow : Growth) (flags : UInt8) (identifier : Bytes) (dlen : UInt32) :
    Reader LiNaProtocol := do
  let checksum ← Reader.readU32Le
  let data ← if dlen > 0 then Reader.readData grow dlen.toNat else pure LiNaProtocol.new.payload.data
  let message := { LiNaProtocol.new with
    flags, payload := ⟨.ofNat identifier.length, identifier, dlen, checksum, data⟩ }
  if message.verify then return message else throw (.other "Invalid checksum")

theorem avoids_readAccepted (grow : Growth) (flags : UInt8) (identifier : Bytes) (dlen : UInt32) :
    (readAccepted grow flags identifier dlen).Avoids (.other "Payload too large") := by
  have hconclude (message : LiNaProtocol) : Reader.Avoids (.other "Payload too large")
      (if message.verify then pure message else throw (.other "Invalid checksum")) := by
    split
    · exact .pure _
    · exact .throw (by decide)
  have hne : ProtocolReadError.other "Payload too large" ≠ .disconnected := by decide
  refine .bind (.readU32Le hne) fun checksum => ?_
  dsimp only
  split
  · exact .bind (.ofRead hne _) fun data => hconclude _
  · exact .bind (.pure _) fun data => hconclude _

/-- Once the length of a request was read, the limit decides. -/
theorem goesOn_limit (grow : Growth) (maxPayloadSize : ℕ) (flags : UInt8) {identifier : Bytes}
    (hid : identifier.length < 256) (dlen : UInt32) :
    Reader.GoesOn (LiNaProtocol.new.parseProtocolMessage grow maxPayloadSize)
      ([flags] ++ ([.ofNat identifier.length] ++ (identifier ++ leBytes 4 dlen.toNat)))
      (if dlen > UInt32.ofNat maxPayloadSize then throw (.other "Payload too large")
        else readAccepted grow flags identifier dlen) := by
  have hilen : (UInt8.ofNat identifier.length).toNat = identifier.length :=
    UInt8.toNat_ofNat_of_lt' hid
  rw [LiNaProtocol.parseProtocolMessage]
  refine (Reader.goesOn_readU8 _ _).trans ((Reader.goesOn_readU8 _ _).trans ?_)
  rw [hilen]
  exact (Reader.goesOn_readExact _ _).trans (Reader.goesOn_readU32Le _ _)

/-- A request is found too large exactly when its length is above the limit in 32 bits. -/
theorem parse_tooLarge_iff (grow : Growth) (maxPayloadSize : ℕ) {flags : UInt8}
    {identifier : Bytes} (hid : identifier.length < 256) {dlen : UInt32} {s : Stream} {rest : Bytes}
    (hs : s.flatten =
      [flags] ++ ([.ofNat identifier.length] ++ (identifier ++ leBytes 4 dlen.toNat)) ++ rest) :
    LiNaProtocol.new.parseProtocolMessage grow maxPayloadSize s =
        .error (.other "Payload too large") ↔
      maxPayloadSize % 2 ^ 32 < dlen.toNat := by
  obtain ⟨s', -, hparse⟩ := goesOn_limit grow maxPayloadSize flags hid dlen hs
  have hlimit : dlen > UInt32.ofNat maxPayloadSize ↔ maxPayloadSize % 2 ^ 32 < dlen.toNat := by
    rw [gt_iff_lt, UInt32.lt_iff_toNat_lt, UInt32.toNat_ofNat']
  rw [hparse, ← hlimit]
  split_ifs with h
  · exact iff_of_true rfl h
  · exact iff_of_false (avoids_readAccepted grow flags identifier dlen s') h

/-- A request is found too large exactly when its length is above the limit that is configured, if
    and only if the limit has 32 bits or the length is not above the last 32 bits of it. -/
theorem payload_limit_iff (config : Configuration) (grow : Growth) {flags : UInt8}
    {identifier : Bytes} (hid : identifier.length < 256) {dlen : UInt32} {s : Stream} {rest : Bytes}
    (hs : s.flatten =
      [flags] ++ ([.ofNat identifier.length] ++ (identifier ++ leBytes 4 dlen.toNat)) ++ rest) :
    (LiNaProtocol.new.parseProtocolMessage grow config.maxPayloadSize.toNat s =
        .error (.other "Payload too large") ↔ dlen.toNat > config.maxPayloadSize.toNat) ↔
      config.maxPayloadSize.toNat < 2 ^ 32 ∨
        dlen.toNat ≤ config.maxPayloadSize.toNat % 2 ^ 32 := by
  rw [parse_tooLarge_iff grow _ hid hs]
  have hdlen : dlen.toNat < 2 ^ 32 := dlen.toNat_lt
  omega

/-- The configuration without any variables, with a given limit. -/
def Configuration.withLimit (maxPayloadSize : UInt64) (h : maxPayloadSize ≠ 0) : Configuration where
  ipAddress := "127.0.0.1"
  advancedPort := "8096"
  httpPort := "8086"
  s3Port := "8087"
  maxPayloadSize := maxPayloadSize
  authRequired := false
  adminUsername := ""
  adminPassword := none
  dbUrl := "sqlite://./linadata/meta.db"
  initErrors := []
  valid := EnvVar.validate_eq_ok_iff.mpr ⟨rfl, h, nofun⟩

/-- A limit of 64 MiB, and a request of a little more. -/
theorem payload_limit_iff_refused :
    LiNaProtocol.new.parseProtocolMessage .doubling
        (Configuration.withLimit 0x4000000 (by decide)).maxPayloadSize.toNat
        [[0x80, 1, 97], [1, 0, 0, 4]] = .error (.other "Payload too large") := by
  have hs : ([[0x80, 1, 97], [1, 0, 0, 4]] : Stream).flatten =
      [0x80] ++ ([.ofNat [(97 : UInt8)].length] ++ ([97] ++ leBytes 4 (0x4000001 : UInt32).toNat)) ++
        [] := rfl
  exact ((payload_limit_iff (.withLimit 0x4000000 (by decide)) .doubling (by decide) hs).mpr
    (.inl (by decide))).mpr (by decide)

/-- A limit of 4 GiB, and a request of one byte. -/
theorem payload_limit_wraps :
    LiNaProtocol.new.parseProtocolMessage .doubling
        (Configuration.withLimit 0x100000000 (by decide)).maxPayloadSize.toNat
        [[0x80, 1, 97, 1, 0, 0, 0]] = .error (.other "Payload too large") ∧
      1 ≤ (Configuration.withLimit 0x100000000 (by decide)).maxPayloadSize.toNat := by
  have hs : ([[0x80, 1, 97, 1, 0, 0, 0]] : Stream).flatten =
      [0x80] ++ ([.ofNat [(97 : UInt8)].length] ++ ([97] ++ leBytes 4 (1 : UInt32).toNat)) ++ [] :=
    rfl
  exact ⟨(parse_tooLarge_iff .doubling _ (by decide) hs).mpr (by decide), by decide⟩

/-! ## The address of the database -/

/-- The address of a database, without the password of its user. -/
structure DbUrl where
  scheme : String
  user : String
  /-- The host and the path. -/
  rest : String
  notMem_scheme : ∀ c ∈ [':', '@'], c ∉ scheme.toList
  notMem_user : ∀ c ∈ [':', '@', '/'], c ∉ user.toList

/-- A password that can stand in an address. -/
structure Password where
  text : String
  notMem_text : ∀ c ∈ ['@', '/'], c ∉ text.toList

namespace DbUrl

variable (self : DbUrl)

/-- The address with something in the place of the password. -/
def withPassword (password : String) : String :=
  self.scheme ++ "://" ++ self.user ++ ":" ++ password ++ "@" ++ self.rest

/-- The address that may be shown. -/
def masked : String := self.withPassword "***"

theorem toList_withPassword (password : String) :
    (self.withPassword password).toList = self.scheme.toList ++ ("://".toList ++
      (self.user.toList ++ ':' :: (password.toList ++ '@' :: self.rest.toList))) := by
  simp [withPassword]

theorem withPassword_inj {password password' : String} :
    self.withPassword password = self.withPassword password' ↔ password = password' := by
  refine ⟨fun h => ?_, fun h => h ▸ rfl⟩
  rw [← String.toList_inj, toList_withPassword, toList_withPassword] at h
  have htail := List.append_cancel_left (List.append_cancel_left (List.append_cancel_left h))
  exact String.toList_inj.mp (List.append_cancel_right (List.cons.inj htail).2)

end DbUrl

/-- What comes before the password is told by the last colon before the first at sign. -/
theorem maskDbUrl_cut {url : String} {scheme tail front back rest : List Char}
    (hscheme : ':' ∉ scheme) (hprotocol : url.toList = scheme ++ ("://".toList ++ tail))
    (hcut : url.toList = (front ++ ':' :: back) ++ '@' :: rest) (hat : '@' ∉ front ++ ':' :: back)
    (hback : ':' ∉ back) :
    maskDbUrl url = if front.length > scheme.length + 3
      then .ofList (front ++ ':' :: "***@".toList ++ rest) else url := by
  have hfirst : firstOf '@' url.toList = some (front ++ ':' :: back).length := by
    rw [hcut]
    exact firstOf_append hat rest
  have hlast : lastOf ':' (url.toList.take (front ++ ':' :: back).length) = some front.length := by
    rw [hcut, List.take_left]
    exact lastOf_append hback front
  have hrun : firstRun "://".toList url.toList = some scheme.length := by
    rw [hprotocol]
    exact firstRun_append hscheme "//".toList tail
  rw [maskDbUrl, hfirst]
  dsimp only
  rw [hlast]
  dsimp only
  rw [hrun]
  dsimp only
  split_ifs
  · have hleft : url.toList.take (front.length + 1) = front ++ [':'] := by
      rw [hcut, List.append_assoc, List.take_length_add_append, List.cons_append,
        List.take_succ_cons, List.take_zero]
    rw [hleft, hcut, List.drop_left, ← String.toList_inj]
    simp
  · rfl

namespace DbUrl

variable (self : DbUrl) (password : Password)

/-- What stands before the password and the colon. -/
def front : List Char := self.scheme.toList ++ ("://".toList ++ self.user.toList)

theorem length_front_gt_iff :
    self.front.length > self.scheme.toList.length + 3 ↔ self.user ≠ "" := by
  rw [ne_eq, ← String.toList_eq_nil_iff, ← List.length_eq_zero_iff, front, List.length_append,
    List.length_append, show "://".toList.length = 3 from rfl]
  omega

theorem notMem_front : '@' ∉ self.front := by
  intro h
  rcases List.mem_append.mp h with h | h
  · exact self.notMem_scheme '@' (by decide) h
  · rcases List.mem_append.mp h with h | h
    · exact absurd h (by decide)
    · exact self.notMem_user '@' (by decide) h

/-- The address is cut at the last colon of the password, or before the password. -/
theorem mask_eq {more back : List Char}
    (hpassword : self.front ++ ':' :: password.text.toList = self.front ++ more ++ ':' :: back)
    (hback : ':' ∉ back) :
    maskDbUrl (self.withPassword password.text) =
      if (self.front ++ more).length > self.scheme.toList.length + 3
        then .ofList (self.front ++ more ++ ':' :: "***@".toList ++ self.rest.toList)
        else self.withPassword password.text := by
  have hcut : (self.withPassword password.text).toList =
      (self.front ++ more ++ ':' :: back) ++ '@' :: self.rest.toList := by
    rw [← hpassword, toList_withPassword, front]
    simp
  refine maskDbUrl_cut (self.notMem_scheme ':' (by decide)) (self.toList_withPassword _) hcut ?_
    hback
  rw [← hpassword]
  intro h
  rcases List.mem_append.mp h with h | h
  · exact self.notMem_front h
  · rcases List.mem_cons.mp h with h | h
    · exact absurd h (by decide)
    · exact password.notMem_text '@' (by decide) h

/-- The password is replaced as a whole if and only if it has no colon and there is a user, or it
    looks like what it is replaced by. -/
theorem mask_eq_masked_iff :
    maskDbUrl (self.withPassword password.text) = self.masked ↔
      ':' ∉ password.text.toList ∧ (self.user ≠ "" ∨ password.text = "***") := by
  by_cases hcolon : ':' ∈ password.text.toList
  · obtain ⟨more, back, hsplit, hback⟩ := exists_last hcolon
    have hpassword : self.front ++ ':' :: password.text.toList =
        self.front ++ (':' :: more) ++ ':' :: back := by
      rw [hsplit]
      simp
    have hmask := self.mask_eq password hpassword hback
    have hlength : (self.front ++ ':' :: more).length > self.scheme.toList.length + 3 := by
      simp [front]
    rw [if_pos hlength] at hmask
    refine iff_of_false (fun h => ?_) fun h => h.1 hcolon
    -- the part of the password before its last colon is still there
    have hlengths := congrArg String.length (hmask.symm.trans h)
    rw [← String.length_toList, ← String.length_toList, masked, toList_withPassword,
      String.toList_ofList] at hlengths
    simp [front] at hlengths
    omega
  · have hmask := self.mask_eq password (show _ = self.front ++ [] ++ ':' :: _ by simp) hcolon
    rw [List.append_nil] at hmask
    rw [hmask, and_iff_right hcolon]
    split_ifs with hlength
    · refine iff_of_true ?_ (.inl ((self.length_front_gt_iff).mp hlength))
      rw [← String.toList_inj, masked, toList_withPassword, String.toList_ofList, front]
      simp
    · have huser := mt self.length_front_gt_iff.mpr hlength
      rw [or_iff_right huser]
      exact self.withPassword_inj

end DbUrl

/-- Two passwords are both left out of an address if and only if neither has a colon and the
    address has a user, or they are three stars. -/
theorem mask_complete_iff (url : DbUrl) (one other : Password) :
    (maskDbUrl (url.withPassword one.text) = url.masked ∧
        maskDbUrl (url.withPassword other.text) = url.masked) ↔
      (':' ∉ one.text.toList ∧ (url.user ≠ "" ∨ one.text = "***")) ∧
        ':' ∉ other.text.toList ∧ (url.user ≠ "" ∨ other.text = "***") :=
  and_congr (url.mask_eq_masked_iff one) (url.mask_eq_masked_iff other)

/-- A password with a colon is shown up to the colon, and one without a user before it is shown. -/
theorem mask_leaks :
    maskDbUrl "mysql://root:hunter:2@db.example/meta" = "mysql://root:hunter:***@db.example/meta" ∧
    maskDbUrl "mysql://root:secret:2@db.example/meta" = "mysql://root:secret:***@db.example/meta" ∧
    maskDbUrl "redis://:hunter2@db.example/0" = "redis://:hunter2@db.example/0" := by
  decide

end LiNaStore
