import LiNaStore.Client.Responses
import LiNaStore.Server.Names

/-!
# What the clients make of responses to reads

A response to a read has the name of the object, which has 36 bytes, where the clients
expect the identifier they sent. A client that reads exactly what it expects finds the data
if and only if its identifier has 36 bytes as well. The C++ client reads twice, and what it
finds depends on where the reads come to stand (`Cpp.Apart`).
-/

namespace LiNaStore

open ClientReader

/-- A download returns the data, and all bytes are read. -/
def Decodes (r : ClientReader Bytes) (s : Stream) (data : Bytes) : Prop :=
  ∃ rest, r s = .ok (data, rest) ∧ rest.flatten = []

/-! ## Reading -/

namespace ClientReader

variable {α β : Type} {s s' rest : Stream} {a : α} {b : β} {e closed : ClientError} {n : ℕ}

@[simp] theorem pure_apply (a : α) (s : Stream) : (pure a : ClientReader α) s = .ok (a, s) := rfl

@[simp] theorem throw_apply (e : ClientError) (s : Stream) :
    (throw e : ClientReader α) s = .error e := rfl

theorem bind_ok {x : ClientReader α} {f : α → ClientReader β} (h : x s = .ok (a, s')) :
    (x >>= f) s = f a s' := by
  change (x s >>= fun p => f p.1 p.2) = _
  rw [h]
  rfl

theorem bind_error {x : ClientReader α} {f : α → ClientReader β} (h : x s = .error e) :
    (x >>= f) s = .error e := by
  change (x s >>= fun p => f p.1 p.2) = _
  rw [h]
  rfl

theorem exists_of_bind_ok {x : ClientReader α} {f : α → ClientReader β}
    (h : (x >>= f) s = .ok (b, rest)) : ∃ a s', x s = .ok (a, s') ∧ f a s' = .ok (b, rest) := by
  rcases hx : x s with e | ⟨a, s'⟩
  · rw [bind_error hx] at h
    cases h
  · rw [bind_ok hx] at h
    exact ⟨a, s', rfl, h⟩

theorem exists_of_map_fst_ok {r : ClientReader α} (h : (r s).map Prod.fst = .ok a) :
    ∃ rest, r s = .ok (a, rest) := by
  rcases hr : r s with e | ⟨a', rest⟩
  · rw [hr] at h
    cases h
  · rw [hr] at h
    cases h
    exact ⟨rest, rfl⟩

theorem recvAll_closed (h : s.flatten.length < n) : recvAll closed n s = .error closed := by
  rcases Stream.readExact_cases n s with ⟨hle, -⟩ | ⟨-, hread⟩
  · omega
  · rw [recvAll, hread]

theorem exists_recvAll (closed : ClientError) {front tail : Bytes}
    (hs : s.flatten = front ++ tail) :
    ∃ s', recvAll closed front.length s = .ok (front, s') ∧ s'.flatten = tail := by
  obtain ⟨s', hread, htook⟩ := Stream.exists_readExact hs
  exact ⟨s', by rw [recvAll, hread], htook.flatten_eq hs⟩

/-- What an exact read gives, and what it leaves. -/
theorem of_recvAll_ok {bytes : Bytes} (h : recvAll closed n s = .ok (bytes, s')) :
    bytes = s.flatten.take n ∧ bytes.length = n ∧ s.flatten.length = n + s'.flatten.length := by
  rcases Stream.readExact_cases n s with ⟨hle, s₁, hread, hflat⟩ | ⟨-, hread⟩
  · rw [recvAll, hread] at h
    cases h
    rw [List.length_take, hflat, List.length_drop]
    exact ⟨rfl, by omega, by omega⟩
  · rw [recvAll, hread] at h
    cases h

/-- Nothing it fails with has a message. -/
def Silent (r : ClientReader α) : Prop := ∀ ⦃s e⦄, r s = .error e → e.message = none

theorem Silent.pure (a : α) : Silent (Pure.pure a) := nofun

theorem Silent.throw (h : e.message = none) : Silent (throw e : ClientReader α) := by
  intro s e' he
  cases he
  exact h

theorem Silent.bind {x : ClientReader α} {f : α → ClientReader β} (hx : Silent x)
    (hf : ∀ a, Silent (f a)) : Silent (x >>= f) := by
  intro s e he
  rcases hx' : x s with e' | ⟨a, s'⟩
  · rw [bind_error hx'] at he
    cases he
    exact hx hx'
  · rw [bind_ok hx'] at he
    exact hf a he

theorem Silent.recvAll (h : closed.message = none) : Silent (recvAll closed n) := by
  intro s e he
  unfold ClientReader.recvAll at he
  split at he
  · cases he
  · cases he
    exact h

theorem Silent.recv (h : closed.message = none) : Silent (recv closed n) := by
  intro s e he
  unfold ClientReader.recv at he
  split at he
  · cases he
  · cases he
    exact h

/-- A download that reads a header of `n` bytes and then exactly its data, of less than
    `bound` bytes. -/
def Exact (r : ClientReader Bytes) (n bound : ℕ) : Prop :=
  ∀ ⦃s data rest⦄, r s = .ok (data, rest) →
    s.flatten.length = n + data.length + rest.flatten.length ∧ data.length < bound

/-- It only finds data that follows a header of that length. -/
theorem Exact.of_decodes {r : ClientReader Bytes} {bound : ℕ} (h : Exact r n bound)
    {header data : Bytes} (hs : s.flatten = header ++ data) (hd : Decodes r s data) :
    header.length = n ∧ data.length < bound := by
  obtain ⟨rest, hr, hrest⟩ := hd
  obtain ⟨hlen, hbound⟩ := h hr
  rw [hs, hrest, List.length_append, List.length_nil] at hlen
  exact ⟨by omega, hbound⟩

end ClientReader

theorem le32At_lt (bytes : Bytes) (i : ℕ) : le32At bytes i < 2 ^ 32 := by
  refine (leNat_lt _).trans_le ?_
  rw [show (2 : ℕ) ^ 32 = 256 ^ 4 by norm_num]
  exact Nat.pow_le_pow_right (by norm_num) (List.length_take_le _ _)

/-! ## The header of a response -/

/-- The bytes of a response in front of its data. -/
def LiNaProtocol.header (self : LiNaProtocol) : Bytes :=
  [self.status.code, self.payload.ilen] ++ self.payload.identifier ++
    leBytes 4 self.payload.dlen.toNat ++ leBytes 4 self.payload.checksum.toNat

theorem serialize_eq (message : LiNaProtocol) :
    message.serializeProtocolMessage = message.header ++ message.payload.data := rfl

theorem length_header (message : LiNaProtocol) :
    message.header.length = headerBaseLength + message.payload.identifier.length := by
  simp only [LiNaProtocol.header, List.length_append, List.length_cons, List.length_nil,
    length_leBytes, headerBaseLength]
  omega

/-- What a client finds in a buffer that begins with the header of a message. -/
structure Parsed (buf : Bytes) (message : LiNaProtocol) : Prop where
  status : buf.headD 0 = message.status.code
  ilen : buf.getD 1 0 = message.payload.ilen
  identifier : (buf.drop 2).take message.payload.identifier.length = message.payload.identifier
  dlen : le32At buf (2 + message.payload.identifier.length) = message.payload.dlen.toNat
  checksum : le32At buf (2 + message.payload.identifier.length + 4) =
    message.payload.checksum.toNat

theorem parsed_header (message : LiNaProtocol) (tail : Bytes) :
    Parsed (message.header ++ tail) message where
  status := rfl
  ilen := rfl
  identifier := by
    simp [LiNaProtocol.header, List.append_assoc]
  dlen := by
    have hfront : ([message.status.code, message.payload.ilen] ++
        message.payload.identifier).length = 2 + message.payload.identifier.length := by
      simp only [List.length_append, List.length_cons, List.length_nil]
    rw [le32At, LiNaProtocol.header, List.append_assoc, List.append_assoc,
      List.drop_left' hfront, List.take_left' (length_leBytes 4 _),
      leNat_leBytes_of_lt message.payload.dlen.toNat_lt]
  checksum := by
    have hfront : ([message.status.code, message.payload.ilen] ++ message.payload.identifier ++
        leBytes 4 message.payload.dlen.toNat).length =
          2 + message.payload.identifier.length + 4 := by
      simp only [List.length_append, List.length_cons, List.length_nil, length_leBytes]
    rw [le32At, LiNaProtocol.header, List.append_assoc, List.drop_left' hfront,
      List.take_left' (length_leBytes 4 _),
      leNat_leBytes_of_lt message.payload.checksum.toNat_lt]

/-- A message whose lengths are those of its parts. -/
structure LiNaProtocol.Framed (message : LiNaProtocol) : Prop where
  ilen : message.payload.ilen.toNat = message.payload.identifier.length
  dlen : message.payload.dlen.toNat = message.payload.data.length

/-- A response that reports success, with the lengths and the checksum of its parts. -/
structure SuccessResponse (message : LiNaProtocol) : Prop extends message.Framed where
  status : message.status = .success
  checksum : message.payload.checksum = message.calculateChecksum

namespace SuccessResponse

variable {message : LiNaProtocol} (h : SuccessResponse message)

include h

/-- What a client finds in the header. -/
theorem parsed : message.header.headD 0 = 0 ∧
    message.header.getD 1 0 = .ofNat message.payload.identifier.length ∧
    (message.header.drop 2).take message.payload.identifier.length = message.payload.identifier ∧
    le32At message.header (2 + message.payload.identifier.length) = message.payload.data.length ∧
    le32At message.header (2 + message.payload.identifier.length + 4) =
      message.payload.checksum.toNat := by
  have hp := parsed_header message []
  rw [List.append_nil] at hp
  refine ⟨hp.status.trans (by rw [h.status]; rfl), hp.ilen.trans ?_, hp.identifier,
    hp.dlen.trans h.dlen, hp.checksum⟩
  rw [← h.ilen, UInt8.ofNat_toNat]

theorem identifier_lt : message.payload.identifier.length < 256 :=
  h.ilen ▸ message.payload.ilen.toNat_lt

/-- The checksum is that of what a client finds. -/
theorem responseChecksum_eq :
    responseChecksum (.ofNat message.payload.identifier.length) message.payload.identifier
      message.payload.data.length message.payload.data = message.payload.checksum.toNat := by
  rw [h.checksum, LiNaProtocol.calculateChecksum, h.dlen, ← h.ilen, UInt8.ofNat_toNat]
  rfl

end SuccessResponse

/-! ## Responses to reads -/

/-- A response with data, under the name of an object. -/
structure ReadResponse (message : LiNaProtocol) : Prop where
  status : message.status = .success
  ilen : message.payload.ilen = 36
  identifier : message.payload.identifier.length = 36
  dlen : message.payload.dlen.toNat = message.payload.data.length % 2 ^ 32
  checksum : message.payload.checksum = message.calculateChecksum

theorem readResponse_response {u : Uuid} {pkg : Package} (data : Bytes)
    (hid : pkg.content.identifier = utf8 u.text) :
    ReadResponse (response (pkg.answer .success data)) where
  status := rfl
  ilen := by
    change UInt8.ofNat pkg.content.identifier.length = 36
    rw [hid, u.length_utf8_text]
    rfl
  identifier := by
    change pkg.content.identifier.length = 36
    rw [hid, u.length_utf8_text]
  dlen := UInt32.toNat_ofNat'
  checksum := rfl

namespace ReadResponse

variable {message : LiNaProtocol} (h : ReadResponse message)

include h

theorem length_header : message.header.length = 46 := by
  rw [LiNaStore.length_header, h.identifier]
  rfl

/-- What a client finds in a buffer that begins with the header. -/
theorem parsed (tail : Bytes) {buf : Bytes} (hbuf : buf = message.header ++ tail) :
    buf.headD 0 = 0 ∧ buf.getD 1 0 = 36 ∧ (buf.drop 2).take 36 = message.payload.identifier ∧
      le32At buf 38 = message.payload.data.length % 2 ^ 32 ∧
      le32At buf 42 = message.payload.checksum.toNat := by
  subst hbuf
  have hp := parsed_header message tail
  have hid := hp.identifier
  have hdlen := hp.dlen
  have hchecksum := hp.checksum
  rw [h.identifier] at hid hdlen hchecksum
  exact ⟨hp.status.trans (by rw [h.status]; rfl), hp.ilen.trans h.ilen, hid,
    hdlen.trans h.dlen, hchecksum⟩

theorem success (hlen : message.payload.data.length < 2 ^ 32) : SuccessResponse message where
  ilen := by
    rw [h.ilen, h.identifier]
    rfl
  dlen := by rw [h.dlen, Nat.mod_eq_of_lt hlen]
  status := h.status
  checksum := h.checksum

/-- The checksum is that of what a client finds. -/
theorem responseChecksum_eq (hlen : message.payload.data.length < 2 ^ 32) :
    responseChecksum 36 message.payload.identifier message.payload.data.length
      message.payload.data = message.payload.checksum.toNat := by
  rw [h.checksum, LiNaProtocol.calculateChecksum, h.ilen, h.dlen, Nat.mod_eq_of_lt hlen]
  rfl

end ReadResponse

/-! ### Python -/

theorem Python.exact_download (fileName : String) (identifier : Bytes) :
    Exact (Python.linaDownloadFile fileName identifier)
      (headerBaseLength + identifier.length) (2 ^ 32) := by
  intro s data rest hr
  obtain ⟨header, s₁, hheader, hr⟩ := exists_of_bind_ok hr
  dsimp only at hr
  split_ifs at hr
  · cases hr
  obtain ⟨body, s₂, hbody, hr⟩ := exists_of_bind_ok hr
  split_ifs at hr <;> cases hr
  obtain ⟨-, -, hlen⟩ := of_recvAll_ok hheader
  obtain ⟨-, hlength, hlen'⟩ := of_recvAll_ok hbody
  exact ⟨by omega, hlength ▸ le32At_lt _ _⟩

theorem Python.decodes_success {message : LiNaProtocol} (h : SuccessResponse message) {s : Stream}
    (hs : s.flatten = message.header ++ message.payload.data) (fileName : String)
    {identifier : Bytes} (hid : identifier.length = message.payload.identifier.length) :
    Decodes (Python.linaDownloadFile fileName identifier) s message.payload.data := by
  have hlength : headerBaseLength + identifier.length = message.header.length := by
    rw [length_header, hid]
  obtain ⟨s₁, hheader, hs₁⟩ := exists_recvAll
    (.raised .connection "Connection closed while receiving data") hs
  obtain ⟨s₂, hbody, hs₂⟩ := exists_recvAll
    (.raised .connection "Connection closed while receiving data")
    (hs₁.trans (List.append_nil _).symm)
  obtain ⟨hstatus, hilen, hident, hdlen, hchecksum⟩ := h.parsed
  refine ⟨s₂, ?_, hs₂⟩
  rw [Python.linaDownloadFile, hlength, Python.recvAll, bind_ok hheader, hstatus,
    if_neg (not_not_intro rfl), hilen, toNat_ofNat_of_lt h.identifier_lt, hident, hdlen, hchecksum,
    Python.recvAll, bind_ok hbody, if_neg (Nat.lt_irrefl _), Python.verifyChecksum,
    h.responseChecksum_eq, if_pos (decide_eq_true rfl)]
  rfl

theorem Python.decodes {message : LiNaProtocol} (h : ReadResponse message) {s : Stream}
    (hs : s.flatten = message.header ++ message.payload.data) (fileName : String)
    {identifier : Bytes} (hid : identifier.length = 36)
    (hlen : message.payload.data.length < 2 ^ 32) :
    Decodes (Python.linaDownloadFile fileName identifier) s message.payload.data :=
  Python.decodes_success (h.success hlen) hs fileName (hid.trans h.identifier.symm)

/-! ### C -/

/-- What a download that succeeds has found and read. -/
theorem C.of_linaDownloadFile_ok {identifier data : Bytes} {s rest : Stream}
    (hr : C.linaDownloadFile identifier s = .ok (data, rest)) :
    ∃ header, header = s.flatten.take (headerBaseLength + identifier.length) ∧
      2 + (header.getD 1 0).toNat + 8 ≤ headerBaseLength + identifier.length ∧
      data.length = le32At header (2 + (header.getD 1 0).toNat) ∧ data.length < 2 ^ 32 - 1 ∧
      s.flatten.length =
        headerBaseLength + identifier.length + data.length + rest.flatten.length := by
  obtain ⟨header, s₁, hheader, hr⟩ := exists_of_bind_ok hr
  obtain ⟨hbytes, -, hlen⟩ := of_recvAll_ok hheader
  dsimp only at hr
  split_ifs at hr with hstatus hshort hwrap hpos
  · cases hr
  · cases hr
  · cases hr
  all_goals
    obtain ⟨body, s₂, hbody, hr⟩ := exists_of_bind_ok hr
    split_ifs at hr
    · cases hr
    cases hr
    have hlt := le32At_lt header (2 + (header.getD 1 0).toNat)
    refine ⟨header, hbytes, by omega, ?_⟩
  · obtain ⟨-, hlength, hlen'⟩ := of_recvAll_ok hbody
    -- a length of `2 ^ 32 - 1` would have wrapped
    exact ⟨hlength, by omega, by omega⟩
  · cases hbody
    exact ⟨by rw [List.length_nil]; omega, by norm_num, by simpa using hlen⟩

theorem C.exact_download (identifier : Bytes) :
    Exact (C.linaDownloadFile identifier) (headerBaseLength + identifier.length)
      (2 ^ 32 - 1) := by
  intro s data rest hr
  obtain ⟨header, -, -, -, hbound, hlen⟩ := C.of_linaDownloadFile_ok hr
  exact ⟨hlen, hbound⟩

theorem C.decodes {message : LiNaProtocol} (h : ReadResponse message) {s : Stream}
    (hs : s.flatten = message.header ++ message.payload.data)
    {identifier : Bytes} (hid : identifier.length = 36)
    (hlen : message.payload.data.length < 2 ^ 32 - 1) :
    Decodes (C.linaDownloadFile identifier) s message.payload.data := by
  have hlt : message.payload.data.length < 2 ^ 32 := by omega
  have hlength : headerBaseLength + identifier.length = message.header.length := by
    rw [h.length_header, hid]
    rfl
  obtain ⟨s₁, hheader, hs₁⟩ := exists_recvAll (.result none) hs
  obtain ⟨hstatus, hilen, hident, hdlen, hchecksum⟩ :=
    h.parsed [] (List.append_nil message.header).symm
  have hrest : (C.linaDownloadFile identifier) s =
      (if message.payload.data.length > 0 then
        ClientReader.recvAll (.result none) message.payload.data.length >>= fun dataRecv =>
          if responseChecksum 36 message.payload.identifier message.payload.data.length dataRecv ≠
            message.payload.checksum.toNat then throw (.result none) else pure dataRecv
      else
        if responseChecksum 36 message.payload.identifier message.payload.data.length [] ≠
          message.payload.checksum.toNat then throw (.result none) else pure []) s₁ := by
    rw [C.linaDownloadFile, hlength, bind_ok hheader]
    dsimp only
    rw [hstatus, if_neg (not_not_intro rfl), hilen, show 2 + UInt8.toNat 36 = 38 from rfl,
      show UInt8.toNat 36 = 36 from rfl, h.length_header, if_neg (by norm_num), hident, hdlen,
      hchecksum, Nat.mod_eq_of_lt hlt, if_neg (by omega)]
    rfl
  have hchecked := h.responseChecksum_eq hlt
  by_cases hpos : message.payload.data.length > 0
  · obtain ⟨s₂, hbody, hs₂⟩ := exists_recvAll (.result none)
      (hs₁.trans (List.append_nil _).symm)
    refine ⟨s₂, ?_, hs₂⟩
    rw [hrest, if_pos hpos, bind_ok hbody, hchecked, if_neg (not_not_intro rfl)]
    rfl
  · -- with no data nothing is read
    have hnil := List.length_eq_zero_iff.mp (Nat.eq_zero_of_not_pos hpos)
    refine ⟨s₁, ?_, hs₁.trans hnil⟩
    rw [hnil] at hchecked
    rw [hrest, if_neg hpos, hnil, hchecked, if_neg (not_not_intro rfl)]
    rfl

/-! ### Java -/

theorem toNat_signedInt {n : ℕ} (hn : n < 2 ^ 32) (h : ¬ Java.signedInt n < 0) :
    n < 2 ^ 31 ∧ (Java.signedInt n).toNat = n := by
  unfold Java.signedInt at h ⊢
  split_ifs at h ⊢ with hlt
  · exact ⟨hlt, Int.toNat_natCast n⟩
  · omega

theorem signedByte_ofNat {n : ℕ} (h : n < 128) : signedByte (.ofNat n) = n := by
  rw [signedByte, toNat_ofNat_of_lt (by omega), if_pos h]

theorem Java.headerLen_of_lt {identifier : Bytes} (h : identifier.length < 128) :
    headerLen identifier = headerBaseLength + identifier.length := by
  rw [headerLen, signedByte_ofNat h]

theorem Java.headerLen_of_le {identifier : Bytes} (h : 128 ≤ identifier.length)
    (hlt : identifier.length < 256) : headerLen identifier = identifier.length - 246 := by
  rw [headerLen, signedByte, toNat_ofNat_of_lt hlt, if_neg (by omega), headerBaseLength]
  omega

theorem Java.of_readHeader_ok {closed : String} {identifier header : Bytes} {s s' : Stream}
    (h : readHeader closed identifier s = .ok (header, s')) :
    header.length = (headerLen identifier).toNat ∧
      s.flatten.length = (headerLen identifier).toNat + s'.flatten.length := by
  unfold readHeader at h
  split_ifs at h
  · cases h
  · exact (of_recvAll_ok h).2

theorem Java.exists_readHeader {identifier header rest : Bytes} {s : Stream}
    (hlen : headerLen identifier = header.length) (hs : s.flatten = header ++ rest)
    (closed : String) :
    ∃ s', readHeader closed identifier s = .ok (header, s') ∧ s'.flatten = rest := by
  rw [readHeader, hlen, if_neg (by omega), Int.toNat_natCast]
  exact exists_recvAll (.raised .connection closed) hs

theorem Java.exact_download (fileName : String) (identifier : Bytes) :
    Exact (Java.linaDownloadFile fileName identifier) (Java.headerLen identifier).toNat
      (2 ^ 31) := by
  intro s data rest hr
  obtain ⟨header, s₁, hheader, hr⟩ := exists_of_bind_ok hr
  obtain ⟨-, hlen⟩ := Java.of_readHeader_ok hheader
  split at hr
  · cases hr
  split_ifs at hr
  · cases hr
  unfold Java.readData at hr
  dsimp only at hr
  split_ifs at hr with hshort hneg
  · cases hr
  · cases hr
  obtain ⟨body, s₂, hbody, hr⟩ := exists_of_bind_ok hr
  split_ifs at hr
  · cases hr
  cases hr
  obtain ⟨-, hlength, hlen'⟩ := of_recvAll_ok hbody
  obtain ⟨hlt, htoNat⟩ := toNat_signedInt (le32At_lt _ _) hneg
  exact ⟨by omega, by omega⟩

theorem Java.decodes_success {message : LiNaProtocol} (h : SuccessResponse message) {s : Stream}
    (hs : s.flatten = message.header ++ message.payload.data) (fileName : String)
    {identifier : Bytes} (hid : identifier.length = message.payload.identifier.length)
    (hshort : identifier.length < 128) (hlen : message.payload.data.length < 2 ^ 31) :
    Decodes (Java.linaDownloadFile fileName identifier) s message.payload.data := by
  have hheaderLen : Java.headerLen identifier = message.header.length := by
    rw [Java.headerLen_of_lt hshort, length_header, hid]
    rfl
  obtain ⟨s₁, hread, hs₁⟩ := Java.exists_readHeader hheaderLen hs
    ("Connection closed while reading header for file: " ++ fileName)
  obtain ⟨s₂, hbody, hs₂⟩ := exists_recvAll (.raised .connection
    ("Connection closed while reading data for file: " ++ fileName))
    (hs₁.trans (List.append_nil _).symm)
  obtain ⟨hstatus, hilen, hident, hdlen, hchecksum⟩ := h.parsed
  have hsigned := signedByte_ofNat (hid ▸ hshort)
  have hfields : ¬(message.header.length < 2 ∨ (message.payload.identifier.length : ℤ) < 0 ∨
      message.header.length < 2 + message.payload.identifier.length + 8) := by
    rw [length_header, headerBaseLength]
    omega
  have hdata : Java.readData fileName message.header s₁ = .ok (message.payload.data, s₂) := by
    rw [Java.readData, hilen]
    dsimp only
    rw [hsigned, Int.toNat_natCast, if_neg hfields, hident, hdlen, hchecksum, Java.signedInt,
      if_pos hlen, if_neg (by omega), Int.toNat_natCast, bind_ok hbody, h.responseChecksum_eq,
      if_neg (not_not_intro rfl)]
    rfl
  refine ⟨s₂, ?_, hs₂⟩
  rw [Java.linaDownloadFile, bind_ok hread]
  have hcons : message.header = message.header.headD 0 :: message.header.tail := rfl
  rw [hcons]
  dsimp only
  rw [hstatus, if_neg (not_not_intro rfl), ← hstatus]
  exact hdata

theorem Java.decodes {message : LiNaProtocol} (h : ReadResponse message) {s : Stream}
    (hs : s.flatten = message.header ++ message.payload.data) (fileName : String)
    {identifier : Bytes} (hid : identifier.length = 36)
    (hlen : message.payload.data.length < 2 ^ 31) :
    Decodes (Java.linaDownloadFile fileName identifier) s message.payload.data :=
  Java.decodes_success (h.success (by omega)) hs fileName (hid.trans h.identifier.symm) (by omega)
    hlen

/-! ### C++

The two reads of a download may come to stand anywhere. If the first one takes `j` bytes of
the data with the header, the second one gets the data from there on, and zeros. -/

/-- A byte string that is shifted into itself, with zeros behind it, is zero. -/
theorem eq_zero_of_shift {data : Bytes} {j : ℕ} (hj : 0 < j)
    (h : data.drop j ++ List.replicate j 0 = data) : ∀ b ∈ data, b = 0 := by
  have hget : ∀ k i, i + k = data.length → ∀ b, data[i]? = some b → b = 0 := by
    intro k
    -- from the end to the front: a byte is the one `j` further on, or one of the zeros
    induction k using Nat.strong_induction_on with
    | _ k ih =>
      intro i hi b hb
      rw [← h] at hb
      by_cases hlt : i < (data.drop j).length
      · rw [List.getElem?_append_left hlt, List.getElem?_drop] at hb
        rw [List.length_drop] at hlt
        exact ih (k - j) (by omega) (j + i) (by omega) b hb
      · rw [List.getElem?_append_right (Nat.le_of_not_lt hlt), List.getElem?_replicate] at hb
        split_ifs at hb
        exact (Option.some.inj hb).symm
  intro b hb
  obtain ⟨i, hi, rfl⟩ := List.mem_iff_getElem.mp hb
  exact hget (data.length - i) i (by omega) _ (List.getElem?_eq_getElem hi)

theorem shift_eq {data : Bytes} {j : ℕ} (hj : j ≤ data.length)
    (h : j = 0 ∨ ∀ b ∈ data, b = 0) : data.drop j ++ List.replicate j 0 = data := by
  rcases h with rfl | h
  · exact List.append_nil data
  · rw [List.eq_replicate_of_mem h, List.drop_replicate, List.replicate_append_replicate,
      Nat.sub_add_cancel hj]

namespace Cpp

variable {s : Stream} {n : ℕ} {context : String}

/-- What a read brings, as `Stream.exists_read` says, and zeros. -/
theorem exists_checkRecv (context : String) (hn : 0 < n) (hs : 0 < s.flatten.length) :
    ∃ chunk s', checkRecv n context s =
        .ok (chunk ++ List.replicate (n - chunk.length) 0, s') ∧
      s.Took chunk s' ∧ 0 < chunk.length ∧ chunk.length ≤ n ∧
      (chunk.length = n ∨ s.Boundary chunk.length) ∧
      ∀ i, 0 < i → i < chunk.length → ¬ s.Boundary i := by
  obtain ⟨chunk, s', hread, h⟩ := Stream.exists_read hn hs
  refine ⟨chunk, s', ?_, h⟩
  have hrecv : recv (.raised .client ("Connection closed while receiving " ++ context)) n s =
      .ok (chunk, s') := by rw [recv, hread]
  rw [checkRecv, bind_ok hrecv]
  rfl

theorem length_pos_of_checkRecv {buf : Bytes} {s' : Stream}
    (h : checkRecv n context s = .ok (buf, s')) : 0 < s.flatten.length := by
  refine List.length_pos_iff.mpr fun hnil => ?_
  let closed := ClientError.raised .client ("Connection closed while receiving " ++ context)
  have hrecv : recv closed n s = .error closed := by rw [recv, Stream.read_eq_none n hnil]
  rw [checkRecv, bind_error hrecv] at h
  cases h

/-- The first read takes `j` bytes of the data with the header, the second one takes the
    rest, and filling up with zeros makes no difference. -/
structure Apart (identifier data : Bytes) (s : Stream) (j : ℕ) : Prop where
  le : 36 + j ≤ identifier.length
  stops : 36 + j = identifier.length ∨ s.Boundary (46 + j)
  first : ∀ n, 0 < n → n < 46 + j → ¬ s.Boundary n
  second : ∀ n, 46 + j < n → n < 46 + data.length → ¬ s.Boundary n
  le_data : j ≤ data.length
  lt_data : data ≠ [] → j < data.length
  shift : j = 0 ∨ ∀ b ∈ data, b = 0

variable {message : LiNaProtocol} {fileName : String} {identifier : Bytes}

/-- The first read ends where it should: both places are the first end of a piece, or the most
    that was asked for. -/
theorem Apart.eq_of_first {data : Bytes} {j n : ℕ} (ha : Apart identifier data s j) (hpos : 0 < n)
    (hle : n ≤ 10 + identifier.length) (hend : n = 10 + identifier.length ∨ s.Boundary n)
    (hin : ∀ i, 0 < i → i < n → ¬ s.Boundary i) : n = 46 + j := by
  have hle' := ha.le
  rcases Nat.lt_trichotomy n (46 + j) with hlt | heq | hgt
  · rcases hend with heq | hb
    · omega
    · exact absurd hb (ha.first _ hpos hlt)
  · exact heq
  · rcases ha.stops with heq | hb
    · omega
    · exact absurd hb (hin _ (by omega) hgt)

/-- A download that succeeds reads once, and once more if data is announced. -/
theorem of_linaDownloadFile_ok {data : Bytes} {rest : Stream}
    (h : linaDownloadFile fileName identifier s = .ok (data, rest)) :
    ∃ header s₁, checkRecv (headerBaseLength + identifier.length) "response header" s =
        .ok (header, s₁) ∧
      ((data = [] ∧ rest = s₁) ∨ ∃ dlen, 0 < dlen ∧ dlen < 2 ^ 32 ∧
        checkRecv dlen "response body" s₁ = .ok (data, rest)) := by
  obtain ⟨header, s₁, hheader, h⟩ := exists_of_bind_ok h
  refine ⟨header, s₁, hheader, ?_⟩
  dsimp only at h
  split_ifs at h with hstatus hshort hdlen hshort'
  · cases h
  · cases h
  · obtain ⟨buf, s₂, -, h⟩ := exists_of_bind_ok h
    cases h
  · obtain ⟨buf, s₂, hbody, h⟩ := exists_of_bind_ok h
    split_ifs at h
    · cases h
    · cases h
      exact .inr ⟨_, hdlen, le32At_lt _ _, hbody⟩
  · cases h
    exact .inl ⟨rfl, rfl⟩

/-- What is left of the response behind the first read. -/
theorem drop_of_took {chunk : Bytes} {s₁ : Stream} (h : ReadResponse message)
    (hs : s.flatten = message.header ++ message.payload.data) (htook : s.Took chunk s₁)
    (hle : 46 ≤ chunk.length) : s₁.flatten = message.payload.data.drop (chunk.length - 46) := by
  have hdrop := congrArg (List.drop chunk.length) (htook.flatten.symm.trans hs)
  have hheader : message.header.drop chunk.length = [] :=
    List.drop_eq_nil_of_le (by rw [h.length_header]; exact hle)
  rwa [List.drop_left, List.drop_append, hheader, List.nil_append, h.length_header] at hdrop

theorem apart_of_decodes (h : ReadResponse message)
    (hs : s.flatten = message.header ++ message.payload.data)
    (hd : Decodes (linaDownloadFile fileName identifier) s message.payload.data) :
    message.payload.data.length < 2 ^ 32 ∧ ∃ j, Apart identifier message.payload.data s j := by
  obtain ⟨rest, hr, hrest⟩ := hd
  obtain ⟨header, s₁, hheader, hr⟩ := of_linaDownloadFile_ok hr
  have hlen : s.flatten.length = 46 + message.payload.data.length := by
    rw [hs, List.length_append, h.length_header]
  obtain ⟨chunk, s', hrecv, htook, hpos, hle, hend, hin⟩ :=
    exists_checkRecv (s := s) (n := headerBaseLength + identifier.length) "response header"
      (Nat.add_pos_left (by decide) _) (by omega)
  rw [hheader] at hrecv
  obtain ⟨-, rfl⟩ := Prod.mk.inj (Except.ok.inj hrecv)
  have hsplit : s.flatten.length = chunk.length + s₁.flatten.length := by
    rw [htook.flatten, List.length_append]
  rw [headerBaseLength] at hle hend
  have hstops (hge : 46 ≤ chunk.length) : 36 + (chunk.length - 46) = identifier.length ∨
      s.Boundary (46 + (chunk.length - 46)) := by
    rw [Nat.add_sub_cancel' hge]
    exact hend.imp_left fun heq => by omega
  rcases hr with ⟨hnil, rfl⟩ | ⟨dlen, hdlen, hlt, hbody⟩
  · -- no data was announced: the first read took all there was
    rw [hrest, List.length_nil] at hsplit
    have hzero := List.length_eq_zero_iff.mpr hnil
    refine ⟨by omega, chunk.length - 46, by omega, hstops (by omega),
      fun i hi hlt => hin i hi (by omega), fun i hi hlt => by omega, by omega,
      fun hne => absurd hnil hne, .inl (by omega)⟩
  · obtain ⟨chunk', s'', hrecv', htook', hpos', hle', -, hin'⟩ :=
      exists_checkRecv "response body" hdlen (length_pos_of_checkRecv hbody)
    rw [hbody] at hrecv'
    obtain ⟨hdata, rfl⟩ := Prod.mk.inj (Except.ok.inj hrecv')
    have hchunk' : s₁.flatten = chunk' := by rw [htook'.flatten, hrest, List.append_nil]
    have hdatalen := congrArg List.length hdata
    rw [List.length_append, List.length_replicate] at hdatalen
    rw [hchunk'] at hsplit
    have hsuffix := hchunk'.symm.trans (drop_of_took h hs htook (by omega))
    refine ⟨by omega, chunk.length - 46, by omega, hstops (by omega),
      fun i hi hlt => hin i hi (by omega), fun i hi hlt hb => ?_, by omega,
      fun _ => by omega, ?_⟩
    · have hboundary := htook.boundary (i - chunk.length) (by omega)
      rw [Nat.add_sub_cancel' (by omega)] at hboundary
      exact hin' _ (by omega) (by omega) (hboundary.mpr hb)
    · rcases Nat.eq_zero_or_pos (chunk.length - 46) with hzero | hj
      · exact .inl hzero
      · refine .inr (eq_zero_of_shift hj ?_)
        rw [← hsuffix, show chunk.length - 46 = dlen - chunk'.length by omega]
        exact hdata.symm

theorem decodes_of_apart (h : ReadResponse message)
    (hs : s.flatten = message.header ++ message.payload.data)
    (hlen : message.payload.data.length < 2 ^ 32) {j : ℕ}
    (ha : Apart identifier message.payload.data s j) :
    Decodes (linaDownloadFile fileName identifier) s message.payload.data := by
  have hslen : s.flatten.length = 46 + message.payload.data.length := by
    rw [hs, List.length_append, h.length_header]
  obtain ⟨chunk, s₁, hrecv, htook, hpos, hle, hend, hin⟩ :=
    exists_checkRecv (s := s) (n := headerBaseLength + identifier.length) "response header"
      (Nat.add_pos_left (by decide) _) (by omega)
  rw [headerBaseLength] at hle hend
  have hsplit : s.flatten.length = chunk.length + s₁.flatten.length := by
    rw [htook.flatten, List.length_append]
  have hchunk : chunk.length = 46 + j := ha.eq_of_first hpos hle hend hin
  have hrest := drop_of_took h hs htook (by omega)
  rw [hchunk, Nat.add_sub_cancel_left] at hrest
  have hfront : chunk = message.header ++ message.payload.data.take j := by
    have htake := congrArg (List.take chunk.length) (htook.flatten.symm.trans hs)
    rwa [List.take_left, List.take_append, hchunk, h.length_header, Nat.add_sub_cancel_left,
      List.take_of_length_le (by rw [h.length_header]; omega)] at htake
  obtain ⟨buf, hbuf⟩ : ∃ buf, buf =
      chunk ++ List.replicate (headerBaseLength + identifier.length - chunk.length) 0 := ⟨_, rfl⟩
  have hbuflen : buf.length = headerBaseLength + identifier.length := by
    rw [hbuf, List.length_append, List.length_replicate, headerBaseLength]
    omega
  rw [← hbuf] at hrecv
  rw [hfront, List.append_assoc] at hbuf
  obtain ⟨hstatus, hilen, hident, hdlen, hchecksum⟩ := h.parsed _ hbuf
  have hlong : ¬ headerBaseLength + identifier.length < 38 + 8 := by
    have := ha.le
    rw [headerBaseLength]
    omega
  rw [Nat.mod_eq_of_lt hlen] at hdlen
  by_cases hnil : message.payload.data = []
  · refine ⟨s₁, ?_, by rw [hrest, hnil, List.drop_nil]⟩
    rw [linaDownloadFile, bind_ok hrecv]
    dsimp only
    rw [hstatus, if_neg (not_not_intro rfl), hilen, show 2 + UInt8.toNat 36 = 38 from rfl, hbuflen,
      if_neg (by omega), hdlen, if_neg (by rw [hnil]; decide), hnil]
    rfl
  · have hdpos := List.length_pos_iff.mpr hnil
    have hjlt := ha.lt_data hnil
    obtain ⟨chunk', s₂, hrecv', htook', hpos', hle', hend', hin'⟩ :=
      exists_checkRecv (s := s₁) "response body" hdpos (by omega)
    have hsplit' : s₁.flatten.length = chunk'.length + s₂.flatten.length := by
      rw [htook'.flatten, List.length_append]
    have hchunk' : chunk'.length = s₁.flatten.length := by
      rcases Nat.lt_or_eq_of_le (show chunk'.length ≤ s₁.flatten.length by omega) with hlt | heq
      · rcases hend' with heq | hb
        · omega
        · have hb' := (htook.boundary _ hpos').mp hb
          exact absurd hb' (ha.second _ (by omega) (by omega))
      · exact heq
    have hs₂ : s₂.flatten = [] := List.length_eq_zero_iff.mp (by omega)
    have hbody : chunk' ++ List.replicate (message.payload.data.length - chunk'.length) 0 =
        message.payload.data := by
      have hdrop : chunk' = message.payload.data.drop j := by
        rw [← hrest, htook'.flatten, hs₂, List.append_nil]
      rw [hdrop, List.length_drop, Nat.sub_sub_self ha.le_data]
      exact shift_eq ha.le_data ha.shift
    rw [hbody] at hrecv'
    refine ⟨s₂, ?_, hs₂⟩
    rw [linaDownloadFile, bind_ok hrecv]
    dsimp only
    rw [hstatus, if_neg (not_not_intro rfl), hilen, show 2 + UInt8.toNat 36 = 38 from rfl,
      show UInt8.toNat 36 = 36 from rfl, hbuflen, if_neg (by omega), hdlen, if_pos hdpos,
      bind_ok hrecv', if_neg hlong, hident, hchecksum, h.responseChecksum_eq hlen,
      if_neg (not_not_intro rfl)]
    rfl

end Cpp

end LiNaStore
