import LiNaStore.Library.Stream
import LiNaStore.Server.Protocol
import Mathlib.Data.Nat.Size

/-!
# Reading requests

How the server reads requests off a connection. The header of a request is read with
reads of exactly the wanted number of bytes. The payload is read into a buffer of 64 KiB
that grows when it is full (`Growth`), until the buffer has at least as many bytes as the
header says, and all of the buffer is then the payload.

So a read for the payload may take bytes of the next request. Requests written back to
back come out as they were written if and only if the reads come to stand at the end of
every request that has a payload (`parse_requests_iff`): a piece of the stream ends there,
or the buffer is full there.
-/

namespace LiNaStore

/-! ## The reader -/

/-- Why a request was not read. -/
inductive ProtocolReadError
  | disconnected
  | other (message : String)
  deriving DecidableEq, Repr

/-- What reads from a connection. -/
abbrev Reader := StateT Stream (Except ProtocolReadError)

/-- How a buffer grows: its capacity when it holds `q` bytes and is to be read into. It
    has room, and its capacity stays as it is until it is full. -/
structure Growth where
  cap : ℕ → ℕ
  lt_cap : ∀ q, q < cap q
  cap_eq : ∀ q r, q ≤ r → r < cap q → cap r = cap q

/-- The buffer of the server: 64 KiB at first, and doubled when it is full. -/
def Growth.doubling : Growth where
  cap q := 2 ^ Nat.size (q / 0x10000) * 0x10000
  lt_cap q := (Nat.div_lt_iff_lt_mul (by decide)).mp (Nat.lt_size_self _)
  cap_eq q r hle hlt := by
    have hsize : Nat.size (r / 0x10000) ≤ Nat.size (q / 0x10000) :=
      Nat.size_le.mpr ((Nat.div_lt_iff_lt_mul (by decide)).mpr hlt)
    rw [Nat.le_antisymm hsize (Nat.size_le_size (Nat.div_le_div_right hle))]

/-- The buffer is full when it holds `n` bytes. -/
def Growth.Full (grow : Growth) (n : ℕ) : Prop := ∃ q, q < n ∧ grow.cap q = n

namespace Reader

/-- Give what was read, or report the end of the connection. -/
def ofRead {α : Type} (r : Stream → Option (α × Stream)) : Reader α := fun s =>
  match r s with
  | some got => .ok got
  | none => .error .disconnected

def readExact (n : ℕ) : Reader Bytes := ofRead (Stream.readExact n)

def readU8 : Reader UInt8 := do return (← readExact 1).headD 0

def readU32Le : Reader UInt32 := do return UInt32.ofNat (leNat (← readExact 4))

/-- Read into the buffer until it has `dlen` bytes at least. -/
def readData (grow : Growth) (dlen : ℕ) : Reader Bytes := ofRead (Stream.fill grow.cap dlen)

end Reader

/-- Read one request into a message. -/
def LiNaProtocol.parseProtocolMessage (grow : Growth) (maxPayloadSize : ℕ)
    (self : LiNaProtocol) : Reader LiNaProtocol := do
  let flags ← Reader.readU8
  let ilen ← Reader.readU8
  let identifier ← Reader.readExact ilen.toNat
  let dlen ← Reader.readU32Le
  -- the limit is cut to the width of the length
  if dlen > UInt32.ofNat maxPayloadSize then throw (.other "Payload too large")
  else do
    let checksum ← Reader.readU32Le
    let data ← if dlen > 0 then Reader.readData grow dlen.toNat else pure self.payload.data
    let message := { self with flags, payload := ⟨ilen, identifier, dlen, checksum, data⟩ }
    if message.verify then return message else throw (.other "Invalid checksum")

/-- Read requests one after another, each into a new message. -/
def parseMessages (grow : Growth) (maxPayloadSize : ℕ) : ℕ → Reader (List LiNaProtocol)
  | 0 => pure []
  | n + 1 => do
    let message ← LiNaProtocol.new.parseProtocolMessage grow maxPayloadSize
    return message :: (← parseMessages grow maxPayloadSize n)

/-! ## Requests -/

/-- A request as a client means it. -/
structure Frame where
  flags : UInt8
  identifier : Bytes
  data : Bytes
  length_identifier : identifier.length < 256
  deriving DecidableEq

namespace Frame

/-- The message that is to come out. -/
def message (f : Frame) : LiNaProtocol :=
  LiNaProtocol.withChecksum ⟨f.flags, .none,
    ⟨.ofNat f.identifier.length, f.identifier, .ofNat f.data.length, 0, f.data⟩⟩

/-- What stands before the payload. -/
def header (f : Frame) : Bytes :=
  [f.flags] ++ ([f.message.payload.ilen] ++ (f.identifier ++
    (leBytes 4 f.message.payload.dlen.toNat ++ leBytes 4 f.message.payload.checksum.toNat)))

/-- The request as a client writes it. -/
def bytes (f : Frame) : Bytes := f.header ++ f.data

end Frame

/-! ## The header -/

namespace Reader

variable {α β : Type} {p k : Reader α} {front more : Bytes}

theorem bind_ok {p : Reader α} {f : α → Reader β} {s s' : Stream} {a : α}
    (h : p s = .ok (a, s')) : (p >>= f) s = f a s' := by
  simp only [bind, StateT.bind, h, Except.bind]

/-- Once `front` has been read, `p` goes on as `k`. -/
def GoesOn (p : Reader α) (front : Bytes) (k : Reader α) : Prop :=
  ∀ ⦃s : Stream⦄ ⦃rest : Bytes⦄, s.flatten = front ++ rest →
    ∃ s', s.Took front s' ∧ p s = k s'

theorem GoesOn.trans {k' : Reader α} (h : GoesOn p front k) (h' : GoesOn k more k') :
    GoesOn p (front ++ more) k' := by
  intro s rest hs
  rw [List.append_assoc] at hs
  obtain ⟨s', htook, hp⟩ := h hs
  obtain ⟨s'', htook', hk⟩ := h' (htook.flatten_eq hs)
  exact ⟨s'', htook.trans htook', hp.trans hk⟩

theorem goesOn_readExact (front : Bytes) (f : Bytes → Reader α) :
    GoesOn (readExact front.length >>= f) front (f front) := by
  intro s rest hs
  obtain ⟨s', hread, htook⟩ := Stream.exists_readExact hs
  refine ⟨s', htook, bind_ok ?_⟩
  rw [readExact, ofRead, hread]

theorem goesOn_readU8 (b : UInt8) (f : UInt8 → Reader α) :
    GoesOn (readU8 >>= f) [b] (f b) := by
  rw [readU8, bind_assoc]
  exact goesOn_readExact [b] _

theorem goesOn_readU32Le (w : UInt32) (f : UInt32 → Reader α) :
    GoesOn (readU32Le >>= f) (leBytes 4 w.toNat) (f w) := by
  have h := goesOn_readExact (leBytes 4 w.toNat) fun bytes => f (UInt32.ofNat (leNat bytes))
  rw [length_leBytes, leNat_leBytes_of_lt (show w.toNat < 256 ^ 4 from w.toNat_lt),
    UInt32.ofNat_toNat] at h
  rw [readU32Le, bind_assoc]
  exact h

end Reader

theorem Growth.stops_iff {grow : Growth} {s : Stream} {n : ℕ} (hn : 0 < n) :
    Stream.Stops grow.cap n s 0 ↔ s.Boundary n ∨ grow.Full n := by
  simp only [Stream.Stops, hn.ne, Nat.sub_zero, Nat.zero_le, true_and, false_or, Growth.Full]

namespace LiNaProtocol

variable {grow : Growth} {maxPayloadSize : ℕ} {m : LiNaProtocol} {s s' : Stream} {rest : Bytes}

/-- A request as it is sent: its lengths are right, its checksum may be wrong. -/
structure Sent (m : LiNaProtocol) : Prop where
  status : m.status = .none
  ilen : m.payload.ilen.toNat = m.payload.identifier.length
  dlen : m.payload.dlen.toNat = m.payload.data.length

/-- What stands before the payload of a request. -/
def requestHeader (m : LiNaProtocol) : Bytes :=
  [m.flags] ++ ([m.payload.ilen] ++ (m.payload.identifier ++
    (leBytes 4 m.payload.dlen.toNat ++ leBytes 4 m.payload.checksum.toNat)))

/-- A request as it is written. -/
def requestBytes (m : LiNaProtocol) : Bytes := m.requestHeader ++ m.payload.data

/-- What is made of the header of a request and a payload. -/
def conclude (m : LiNaProtocol) (data : Bytes) : Reader LiNaProtocol :=
  let message := { m with payload := { m.payload with data := data } }
  if message.verify then return message else throw (.other "Invalid checksum")

/-- What is left to do after the header of a request. -/
def finish (grow : Growth) (m : LiNaProtocol) : Reader LiNaProtocol := do
  let data ← if m.payload.dlen > 0 then Reader.readData grow m.payload.dlen.toNat else pure []
  m.conclude data

/-- Reading the request at the front of a stream begins with its header. -/
theorem Sent.goesOn_parse (h : m.Sent) (grow : Growth) (hmax : maxPayloadSize < 2 ^ 32)
    (hdata : m.payload.data.length ≤ maxPayloadSize) :
    Reader.GoesOn (LiNaProtocol.new.parseProtocolMessage grow maxPayloadSize) m.requestHeader
      (m.finish grow) := by
  have hdlen : ¬ m.payload.dlen > UInt32.ofNat maxPayloadSize := by
    have hlimit := UInt32.toNat_ofNat_of_lt' hmax
    rw [gt_iff_lt, UInt32.lt_iff_toNat_lt, hlimit, h.dlen]
    omega
  rw [parseProtocolMessage, requestHeader]
  refine (Reader.goesOn_readU8 _ _).trans ((Reader.goesOn_readU8 _ _).trans ?_)
  rw [h.ilen]
  refine (Reader.goesOn_readExact _ _).trans ((Reader.goesOn_readU32Le _ _).trans ?_)
  rw [if_neg hdlen]
  obtain ⟨flags, status, payload⟩ := m
  obtain rfl : status = .none := h.status
  exact Reader.goesOn_readU32Le _ _

/-! ## The payload -/

/-- After the header the buffer gets the payload and nothing else if and only if the reads
    come to stand at its end. -/
theorem Sent.exists_finish (h : m.Sent) (grow : Growth) (hs : s.flatten = m.payload.data ++ rest) :
    ∃ data s', m.finish grow s = m.conclude data s' ∧ s.Took data s' ∧
      (data = m.payload.data ↔ (m.payload.data ≠ [] →
        s.Boundary m.payload.data.length ∨ grow.Full m.payload.data.length)) := by
  rw [finish]
  by_cases hnil : m.payload.data = []
  · have hzero : ¬ m.payload.dlen > 0 := by
      rw [gt_iff_lt, UInt32.lt_iff_toNat_lt, h.dlen, hnil]
      exact Nat.lt_irrefl 0
    exact ⟨[], s, by rw [if_neg hzero, pure_bind], .refl s,
      iff_of_true hnil.symm fun h => absurd hnil h⟩
  · have hpos : 0 < m.payload.data.length := List.length_pos_iff.mpr hnil
    have hgt : m.payload.dlen > 0 := by
      rw [gt_iff_lt, UInt32.lt_iff_toNat_lt, h.dlen]
      exact hpos
    obtain ⟨data, s', hfill, htook, -, hiff⟩ :=
      Stream.exists_fill ⟨fun q _ => grow.lt_cap q, grow.cap_eq⟩
        (show m.payload.data.length ≤ s.flatten.length by rw [hs, List.length_append]; omega)
    refine ⟨data, s', ?_, htook, ?_⟩
    · rw [if_pos hgt, h.dlen]
      refine Reader.bind_ok ?_
      rw [Reader.readData, Reader.ofRead, hfill]
    · rw [imp_iff_right hnil, ← Growth.stops_iff hpos, ← hiff]
      exact ⟨congrArg List.length, fun hlen =>
        (List.append_inj (htook.flatten.symm.trans hs) hlen).1⟩

/-! ## One request -/

/-- Reading the request at the front of the stream gets its payload and nothing else if
    and only if the reads come to stand at its end. -/
theorem Sent.exists_parse (h : m.Sent) (grow : Growth) (hmax : maxPayloadSize < 2 ^ 32)
    (hdata : m.payload.data.length ≤ maxPayloadSize)
    (hs : s.flatten = m.requestBytes ++ rest) :
    ∃ data s', LiNaProtocol.new.parseProtocolMessage grow maxPayloadSize s =
        m.conclude data s' ∧ s.Took (m.requestHeader ++ data) s' ∧
      (data = m.payload.data ↔ (m.payload.data ≠ [] →
        s.Boundary m.requestBytes.length ∨ grow.Full m.payload.data.length)) := by
  rw [requestBytes, List.append_assoc] at hs
  obtain ⟨s₁, htook, hparse⟩ := h.goesOn_parse grow hmax hdata hs
  obtain ⟨data, s', hfinish, htook', hiff⟩ := h.exists_finish grow (htook.flatten_eq hs)
  refine ⟨data, s', hparse.trans hfinish, htook.trans htook', hiff.trans ?_⟩
  refine forall_congr' fun hne => or_congr_left ?_
  rw [htook.boundary _ (List.length_pos_iff.mpr hne), requestBytes, List.length_append]

/-- A request alone on a connection is read as it was sent, in whatever pieces it comes, if its
    checksum is right. -/
theorem Sent.exists_parse_alone (h : m.Sent) (grow : Growth) (hmax : maxPayloadSize < 2 ^ 32)
    (hdata : m.payload.data.length ≤ maxPayloadSize)
    (hs : s.flatten = m.requestBytes) :
    ∃ rest, LiNaProtocol.new.parseProtocolMessage grow maxPayloadSize s =
      if m.verify then .ok (m, rest) else .error (.other "Invalid checksum") := by
  obtain ⟨data, rest, hparse, -, hiff⟩ :=
    h.exists_parse grow hmax hdata (hs.trans (List.append_nil _).symm)
  obtain rfl := hiff.mpr fun _ => .inl ⟨s.length, by rw [List.take_length, hs]⟩
  refine ⟨rest, hparse.trans ?_⟩
  rw [conclude]
  dsimp only
  split_ifs <;> rfl

end LiNaProtocol

namespace Frame

variable {grow : Growth} {maxPayloadSize : ℕ} {f : Frame} {s s' : Stream} {rest : Bytes}

theorem sent_message (h : f.data.length < 2 ^ 32) : f.message.Sent :=
  ⟨rfl, UInt8.toNat_ofNat_of_lt' f.length_identifier, UInt32.toNat_ofNat_of_lt' h⟩

theorem verify_message (f : Frame) : f.message.verify = true := decide_eq_true rfl

theorem conclude_data (f : Frame) (s : Stream) :
    f.message.conclude f.data s = .ok (f.message, s) :=
  congrFun (if_pos f.verify_message) s

theorem eq_of_conclude {data : Bytes} (h : f.message.conclude data s = .ok (f.message, s')) :
    data = f.data ∧ s' = s := by
  unfold LiNaProtocol.conclude at h
  dsimp only at h
  split at h
  · obtain ⟨hmessage, rfl⟩ := Prod.mk.inj (Except.ok.inj h)
    exact ⟨congrArg (fun m => m.payload.data) hmessage, rfl⟩
  · exact absurd h (by simp [throw, throwThe, MonadExceptOf.throw, StateT.lift, bind, Except.bind])

/-- The reads for the payload of the request at the front of the stream come to stand at
    its end. -/
def Stands (grow : Growth) (s : Stream) (f : Frame) : Prop :=
  f.data ≠ [] → s.Boundary f.bytes.length ∨ grow.Full f.data.length

/-- Reading the request at the front of the stream gets its payload and nothing else if
    and only if the reads come to stand at its end. -/
theorem exists_parse (grow : Growth) (hmax : maxPayloadSize < 2 ^ 32)
    (hdata : f.data.length ≤ maxPayloadSize) (hs : s.flatten = f.bytes ++ rest) :
    ∃ data s', LiNaProtocol.new.parseProtocolMessage grow maxPayloadSize s =
        f.message.conclude data s' ∧ s.Took (f.header ++ data) s' ∧
      (data = f.data ↔ f.Stands grow s) :=
  (sent_message (by omega)).exists_parse grow hmax hdata hs

/-- A request alone on a connection is read as it was meant, in whatever pieces it comes. -/
theorem exists_parse_alone (f : Frame) (grow : Growth) (hmax : maxPayloadSize < 2 ^ 32)
    (hdata : f.data.length ≤ maxPayloadSize) (hs : s.flatten = f.bytes) :
    ∃ rest, LiNaProtocol.new.parseProtocolMessage grow maxPayloadSize s =
      .ok (f.message, rest) := by
  obtain ⟨rest, hparse⟩ :=
    (sent_message (by omega)).exists_parse_alone grow hmax hdata hs
  exact ⟨rest, hparse.trans (if_pos f.verify_message)⟩

end Frame

/-! ## Requests back to back -/

/-- The reads come to stand at the end of every request that has a payload: a piece ends
    there, or the buffer is full there. -/
def Aligned (grow : Growth) (pieces : Stream) (requests : List Frame) : Prop :=
  ∀ before f after, requests = before ++ f :: after → f.data ≠ [] →
    pieces.Boundary ((before ++ [f]).flatMap Frame.bytes).length ∨ grow.Full f.data.length

theorem aligned_nil (grow : Growth) (s : Stream) : Aligned grow s [] :=
  fun _ _ _ h => absurd h (by simp)

/-- The requests after the first one are looked at in what is left of the stream. -/
theorem aligned_cons {grow : Growth} {s s' : Stream} {f : Frame} {fs : List Frame}
    (htook : s.Took f.bytes s') :
    Aligned grow s (f :: fs) ↔ f.Stands grow s ∧ Aligned grow s' fs := by
  have hshift (before : List Frame) (g : Frame) :
      s'.Boundary ((before ++ [g]).flatMap Frame.bytes).length ↔
        s.Boundary ((f :: before ++ [g]).flatMap Frame.bytes).length := by
    rw [htook.boundary _ (by simp [Frame.bytes, Frame.header]), List.cons_append,
      List.flatMap_cons, List.length_append]
  constructor
  · intro h
    refine ⟨fun hne => ?_, fun before g after hfs hne => ?_⟩
    · simpa using h [] f fs rfl hne
    · rw [hshift]
      exact h (f :: before) g after (by rw [hfs, List.cons_append]) hne
  · rintro ⟨hf, hfs⟩ before g after heq hne
    rcases before with _ | ⟨f', before⟩
    · obtain ⟨rfl, rfl⟩ := List.cons.inj heq
      simpa using hf hne
    · obtain ⟨rfl, rfl⟩ := List.cons.inj heq
      rw [← hshift]
      exact hfs before g after rfl hne

theorem parseMessages_succ_iff {grow : Growth} {maxPayloadSize n : ℕ} {s rest : Stream}
    {m : LiNaProtocol} {ms : List LiNaProtocol} :
    parseMessages grow maxPayloadSize (n + 1) s = .ok (m :: ms, rest) ↔
      ∃ s', LiNaProtocol.new.parseProtocolMessage grow maxPayloadSize s = .ok (m, s') ∧
        parseMessages grow maxPayloadSize n s' = .ok (ms, rest) := by
  rw [parseMessages]
  simp only [bind, StateT.bind, Except.bind, pure]
  unfold StateT.pure
  simp only [pure, Except.pure]
  rcases LiNaProtocol.new.parseProtocolMessage grow maxPayloadSize s with e | ⟨m', s'⟩
  · simp
  · rcases hms : parseMessages grow maxPayloadSize n s' with e | ⟨ms', s''⟩ <;>
    simp [hms, and_assoc]

/-- Requests written back to back, with payloads of at most `maxPayloadSize` bytes, come
    out as they were written if and only if the reads come to stand at the end of every
    request that has a payload. -/
theorem parse_requests_iff (grow : Growth) {maxPayloadSize : ℕ} (hmax : maxPayloadSize < 2 ^ 32)
    (requests : List Frame) (hdata : ∀ f ∈ requests, f.data.length ≤ maxPayloadSize)
    (pieces : Stream) (hpieces : pieces.flatten = requests.flatMap Frame.bytes) :
    (∃ rest, parseMessages grow maxPayloadSize requests.length pieces =
        .ok (requests.map Frame.message, rest)) ↔
      Aligned grow pieces requests := by
  -- induction on the requests, of which the first one is at the front of the stream
  induction requests generalizing pieces with
  | nil => exact iff_of_true ⟨pieces, rfl⟩ (aligned_nil grow pieces)
  | cons f fs ih =>
    obtain ⟨hf, hfs⟩ := List.forall_mem_cons.mp hdata
    rw [List.flatMap_cons] at hpieces
    obtain ⟨data, s', hparse, htook, hiff⟩ := Frame.exists_parse grow hmax hf hpieces
    rw [List.length_cons, List.map_cons]
    simp only [parseMessages_succ_iff, hparse]
    constructor
    · rintro ⟨rest, s₁, hf', hfs'⟩
      obtain ⟨rfl, rfl⟩ := Frame.eq_of_conclude hf'
      refine (aligned_cons htook).mpr ⟨hiff.mp rfl, ?_⟩
      exact (ih hfs _ (htook.flatten_eq hpieces)).mp ⟨rest, hfs'⟩
    · intro h
      have hstands : f.Stands grow pieces := by
        intro hne
        simpa using h [] f fs rfl hne
      obtain rfl := hiff.mpr hstands
      obtain ⟨rest, hrest⟩ := (ih hfs _ (htook.flatten_eq hpieces)).mpr
        ((aligned_cons htook).mp h).2
      exact ⟨rest, s', Frame.conclude_data f s', hrest⟩

/-- A request to write the byte 1 under the name `a`. -/
def Frame.writeOne : Frame := ⟨0x80, [0x61], [1], by decide⟩

/-- A request to read what is under the name `a`. -/
def Frame.readA : Frame := ⟨0x40, [0x61], [], by decide⟩

/-- With a piece for each request both come out. -/
theorem parse_requests_apart :
    Aligned .doubling [Frame.writeOne.bytes, Frame.readA.bytes] [.writeOne, .readA] :=
  (parse_requests_iff .doubling (show 0x4000000 < 2 ^ 32 by decide) [.writeOne, .readA]
    (by decide) _ rfl).mp ⟨[[]], by decide +kernel⟩

/-- In one piece the second request is taken for a part of the payload of the first. -/
theorem parse_requests_together :
    [Frame.writeOne.bytes ++ Frame.readA.bytes].flatten =
        [Frame.writeOne, Frame.readA].flatMap Frame.bytes ∧
      parseMessages .doubling 0x4000000 2 [Frame.writeOne.bytes ++ Frame.readA.bytes] =
        .error (.other "Invalid checksum") := by
  decide +kernel

end LiNaStore
