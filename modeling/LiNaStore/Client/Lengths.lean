import LiNaStore.Client.Decoding

/-!
# Long identifiers in the Java client

An identifier has up to 255 bytes. The Python client counts them with a number, the Java client with
a signed byte, from which it computes the size of a header and the places in it. Up to 127 bytes the
two agree. From 128 bytes on the header of the Java client is 256 bytes shorter than that of the
response:

* up to 245 bytes its size is negative;
* with 246 bytes it is empty, and has no status;
* beyond that it has one to nine bytes. Uploads and deletions find a status in it and leave the rest
  of the response unread, and downloads find no lengths.

So the clients agree if and only if the identifier has at most 127 bytes and the data is not too
long for a signed number of 32 bits (`java_agrees_iff`).
-/

namespace LiNaStore

open ClientReader

/-- A call succeeds after it has read exactly `n` bytes. -/
def Consumes (r : ClientReader Unit) (s : Stream) (n : ℕ) : Prop :=
  ∃ rest, r s = .ok ((), rest) ∧ rest.flatten = s.flatten.drop n ∧ n ≤ s.flatten.length

namespace Java

variable {message : LiNaProtocol} {identifier : Bytes} {s : Stream}

theorem readHeader_of_negative (h : 128 ≤ identifier.length) (hlt : identifier.length < 246)
    (closed : String) : readHeader closed identifier s = .error .outOfBounds := by
  rw [readHeader, headerLen_of_le h (by omega), if_pos (by omega)]
  rfl

/-- A download that succeeds has found all fields in its header. -/
theorem le_headerLen_of_download {fileName : String} {data : Bytes} {rest : Stream}
    (h : linaDownloadFile fileName identifier s = .ok (data, rest)) :
    10 ≤ headerLen identifier := by
  obtain ⟨header, s₁, hheader, h⟩ := exists_of_bind_ok h
  obtain ⟨hlength, -⟩ := of_readHeader_ok hheader
  cases header with
  | nil => cases h
  | cons status header =>
    dsimp only at h
    split_ifs at h
    · cases h
    unfold readData at h
    dsimp only at h
    split_ifs at h with hshort
    · cases h
    all_goals omega

/-- The clients return the same data, if the Java client can count the identifier and the data. -/
theorem download_agrees_iff (h : SuccessResponse message)
    (hid : identifier.length = message.payload.identifier.length)
    (hs : s.flatten = message.serializeProtocolMessage) (fileName : String) :
    (∃ data, (Python.linaDownloadFile fileName identifier s).map Prod.fst = .ok data ∧
        (linaDownloadFile fileName identifier s).map Prod.fst = .ok data) ↔
      identifier.length < 128 ∧ message.payload.data.length < 2 ^ 31 := by
  obtain ⟨rest, hpython, -⟩ := Python.decodes_success h hs fileName hid
  rw [hpython]
  constructor
  · rintro ⟨_, ⟨⟩, hjava⟩
    obtain ⟨rest', hjava⟩ := exists_of_map_fst_ok hjava
    have hheader := le_headerLen_of_download hjava
    refine ⟨?_, (exact_download fileName identifier hjava).2⟩
    by_contra hlong
    rw [headerLen_of_le (not_lt.mp hlong) (hid ▸ h.identifier_lt)] at hheader
    have hlt := h.identifier_lt
    omega
  · rintro ⟨hshort, hlen⟩
    obtain ⟨rest', hjava, -⟩ := decodes_success h hs fileName hid hshort hlen
    exact ⟨message.payload.data, rfl, by rw [hjava]; rfl⟩

/-- Uploads and deletions that succeed have read as much as the client takes for a header. -/
theorem length_of_finish {closed intro fileName : String} {rest : Stream}
    (h : finish closed intro fileName identifier s = .ok ((), rest)) :
    s.flatten.length = (headerLen identifier).toNat + rest.flatten.length := by
  obtain ⟨header, s₁, hheader, h⟩ := exists_of_bind_ok h
  cases header with
  | nil => cases h
  | cons status header =>
    dsimp only at h
    split_ifs at h
    · cases h
    cases h
    exact (of_readHeader_ok hheader).2

/-- Uploads and deletions read a header of the right length, if the Java client can count the
    identifier. -/
theorem finish_consumes_iff (h : SuccessResponse message)
    (hid : identifier.length = message.payload.identifier.length)
    (hs : s.flatten = message.serializeProtocolMessage) (closed intro fileName : String) :
    Consumes (finish closed intro fileName identifier) s (headerBaseLength + identifier.length) ↔
      identifier.length < 128 := by
  have hlength : headerBaseLength + identifier.length = message.header.length := by
    rw [length_header, hid]
  have hbytes : s.flatten.length = message.header.length + message.payload.data.length := by
    rw [hs, serialize_eq, List.length_append]
  constructor
  · rintro ⟨rest, hrun, hrest, -⟩
    by_contra hlong
    have hread := length_of_finish hrun
    have hlt := h.identifier_lt
    -- what is left is longer than it should be
    rw [headerLen_of_le (not_lt.mp hlong) (hid ▸ hlt), hrest, List.length_drop] at hread
    omega
  · intro hshort
    have hheaderLen : headerLen identifier = message.header.length := by
      rw [headerLen_of_lt hshort, ← hlength]
      rfl
    obtain ⟨s₁, hread, hs₁⟩ := exists_readHeader hheaderLen hs (closed ++ fileName)
    refine ⟨s₁, ?_, ?_, by omega⟩
    · rw [finish, bind_ok hread]
      have hcons : message.header = message.header.headD 0 :: message.header.tail := rfl
      rw [hcons]
      dsimp only
      rw [h.parsed.1, if_neg (not_not_intro rfl)]
      rfl
    · rw [hs₁, hs, serialize_eq, hlength, List.drop_left]

end Java

/-- For every response that reports success, with an identifier as long as the one that was asked
    for, however it is cut into pieces: the Java client returns the data that the Python client
    returns, if and only if the identifier has less than 128 bytes and the data less than `2 ^ 31`;
    and its uploads and deletions read exactly the header, if and only if the identifier has less
    than 128 bytes. -/
theorem java_agrees_iff {message : LiNaProtocol} (h : SuccessResponse message) {identifier : Bytes}
    (hid : identifier.length = message.payload.identifier.length) {s : Stream}
    (hs : s.flatten = message.serializeProtocolMessage) (fileName : String) :
    ((∃ data, (Python.linaDownloadFile fileName identifier s).map Prod.fst = .ok data ∧
        (Java.linaDownloadFile fileName identifier s).map Prod.fst = .ok data) ↔
      identifier.length < 128 ∧ message.payload.data.length < 2 ^ 31) ∧
    (Consumes (Java.linaUploadFile fileName identifier) s
        (headerBaseLength + identifier.length) ↔ identifier.length < 128) ∧
    (Consumes (Java.linaDeleteFile fileName identifier) s
        (headerBaseLength + identifier.length) ↔ identifier.length < 128) :=
  ⟨Java.download_agrees_iff h hid hs fileName, Java.finish_consumes_iff h hid hs _ _ _,
    Java.finish_consumes_iff h hid hs _ _ _⟩

/-- The response that reports success, with the given identifier and data. -/
def successMessage (identifier data : Bytes) : LiNaProtocol :=
  LiNaProtocol.withChecksum { LiNaProtocol.new with
    status := .success
    payload := ⟨.ofNat identifier.length, identifier, .ofNat data.length, 0, data⟩ }

theorem successResponse_successMessage {identifier data : Bytes} (hid : identifier.length < 256)
    (hdata : data.length < 2 ^ 32) : SuccessResponse (successMessage identifier data) where
  ilen := toNat_ofNat_of_lt hid
  dlen := UInt32.toNat_ofNat_of_lt' hdata
  status := rfl
  checksum := rfl

/-- The longest identifier that the Java client can count, and a response in two pieces. -/
theorem java_agrees_iff_longest :
    ∃ s : Stream, s.length = 2 ∧
      s.flatten = (successMessage (List.replicate 127 98) [120, 121]).serializeProtocolMessage ∧
      (∃ data, (Python.linaDownloadFile "a" (List.replicate 127 97) s).map Prod.fst = .ok data ∧
        (Java.linaDownloadFile "a" (List.replicate 127 97) s).map Prod.fst = .ok data) ∧
      Consumes (Java.linaUploadFile "a" (List.replicate 127 97)) s 137 := by
  have hlength (b : UInt8) : (List.replicate 127 b).length = 127 := List.length_replicate
  have hsuccess : SuccessResponse (successMessage (List.replicate 127 98) [120, 121]) :=
    successResponse_successMessage (by rw [hlength]; decide) (by decide)
  have hpieces (bytes : Bytes) : [bytes.take 100, bytes.drop 100].flatten = bytes := by simp
  obtain ⟨hdownload, hupload, -⟩ := java_agrees_iff hsuccess
    ((hlength 97).trans (hlength 98).symm) (hpieces _) "a"
  rw [hlength] at hdownload hupload
  exact ⟨_, rfl, hpieces _, hdownload.mpr ⟨by decide, (by decide : 2 < 2 ^ 31)⟩,
    hupload.mpr (by decide)⟩

/-- An identifier of 128 bytes: the Python client returns the data, and the Java client fails, also
    for an upload or a deletion. -/
theorem java_disagrees :
    (Python.linaDownloadFile "a" (List.replicate 128 97)
        [(successMessage (List.replicate 128 98) [120]).serializeProtocolMessage]).map Prod.fst =
      .ok [120] ∧
    Java.linaDownloadFile "a" (List.replicate 128 97)
        [(successMessage (List.replicate 128 98) [120]).serializeProtocolMessage] =
      .error .outOfBounds ∧
    Java.linaUploadFile "a" (List.replicate 128 97)
        [(successMessage (List.replicate 128 98) []).serializeProtocolMessage] =
      .error .outOfBounds ∧
    Java.linaDeleteFile "a" (List.replicate 128 97)
        [(successMessage (List.replicate 128 98) []).serializeProtocolMessage] =
      .error .outOfBounds := by
  have hlength (b : UInt8) : (List.replicate 128 b).length = 128 := List.length_replicate
  have hread (closed : String) (s : Stream) :
      Java.readHeader closed (List.replicate 128 97) s = .error .outOfBounds :=
    Java.readHeader_of_negative (hlength 97).ge (by rw [hlength]; decide) closed
  refine ⟨?_, bind_error (hread _ _), bind_error (hread _ _), bind_error (hread _ _)⟩
  have hsuccess : SuccessResponse (successMessage (List.replicate 128 98) [120]) :=
    successResponse_successMessage (by rw [hlength]; decide) (by decide)
  obtain ⟨rest, hpython, -⟩ := Python.decodes_success hsuccess List.flatten_singleton "a"
    ((hlength 97).trans (hlength 98).symm)
  rw [serialize_eq, hpython]
  rfl

end LiNaStore
