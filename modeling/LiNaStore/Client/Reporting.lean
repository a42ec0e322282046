import LiNaStore.Client.Decoding

/-!
# What the clients make of the server's responses

An error response has no identifier, where the clients expect the one they sent: the
Python client and the Java client wait for bytes that do not come. The C client never hands
out the status it finds. The C++ client reads once, and finds it.

Together with the responses to reads: `decode_responses_iff`.
-/

namespace LiNaStore

open ClientReader

/-- A call fails with the message. -/
def Reports (r : ClientReader Unit) (s : Stream) (message : String) : Prop :=
  ∃ e, r s = .error e ∧ e.message = some message

/-! ## Error responses -/

/-- An error response is ten bytes, and the first is the status. -/
theorem errorResponse_bytes (status : Status) :
    ∃ bytes, (errorResponse status none).serializeProtocolMessage = status.code :: bytes ∧
      bytes.length = 9 := ⟨_, rfl, rfl⟩

theorem code_ne_zero {status : Status} (h : status ≠ .success) : status.code ≠ 0 := by
  cases status <;> first | decide | exact absurd rfl h

/-- As signed bytes the codes are what they are, but for one that no error response has. -/
theorem signedByte_code {status : Status} (h : status ≠ .none) :
    signedByte status.code = status.code.toNat := by
  cases status <;> first | decide | exact absurd rfl h

variable {s : Stream} {status : Status} {fileName : String} {identifier : Bytes}

theorem reports_of_error {r : ClientReader Unit} {e : ClientError} {message : String}
    (h : r s = .error e) : Reports r s message ↔ e.message = some message := by
  constructor
  · rintro ⟨e', he', hmessage⟩
    rw [h] at he'
    cases he'
    exact hmessage
  · exact fun hmessage => ⟨e, h, hmessage⟩

/-- A report has the code of the status unless its sign is lost. -/
theorem report_code_iff (front back : String) :
    front ++ toString (signedByte status.code) ++ " for file: " ++ back =
      front ++ toString (status.code.toNat : Int) ++ " for file: " ++ back ↔ status ≠ .none := by
  constructor
  · rintro h rfl
    have hlen := congrArg String.length h
    simp only [String.length_append, Nat.add_right_cancel_iff, Nat.add_left_cancel_iff] at hlen
    exact absurd hlen (by decide)
  · intro h
    rw [signedByte_code h]

theorem head_append {c : Char} {front back : String} (h : front.toList.head? = some c) :
    (front ++ back).toList.head? = some c := by
  rw [String.toList_append, List.head?_append, h]
  rfl

/-- Every report begins with `Server returned`. -/
theorem head_errorMessage (client : Client) (code : Int) (routine : Routine) :
    (client.errorMessage fileName code routine).toList.head? = some 'S' := by
  unfold Client.errorMessage
  split
  · exact head_append (by decide)
  · exact head_append (head_append (head_append (by decide)))
  · exact head_append (head_append (head_append (by decide)))

/-- A call that finds the connection closed does not report a status. -/
theorem not_reports_of_closed {r : ClientReader Unit} {kind : ErrorKind} {closed : String}
    (h : r s = .error (.raised kind closed)) (hhead : closed.toList.head? = some 'C')
    (client : Client) (code : Int) (routine : Routine) :
    ¬ Reports r s (client.errorMessage fileName code routine) := by
  rw [reports_of_error h]
  intro hmessage
  have hclosed : closed = client.errorMessage fileName code routine := Option.some.inj hmessage
  rw [hclosed, head_errorMessage] at hhead
  exact absurd hhead (by decide)

/-! ### Python -/

theorem Python.not_reports (hs : s.flatten.length = 10) (hid : 0 < identifier.length)
    (routine : Routine) (code : Int) :
    ¬ Reports (Client.python.finish fileName identifier routine) s
      (Client.python.errorMessage fileName code routine) := by
  let closed := ClientError.raised .connection "Connection closed while receiving data"
  have hclosed : Python.recvAll (headerBaseLength + identifier.length) s = .error closed :=
    recvAll_closed (by rw [hs, headerBaseLength]; omega)
  have herror : Client.python.finish fileName identifier routine s = .error closed := by
    have hdownload : Python.linaDownloadFile fileName identifier s = .error closed :=
      bind_error hclosed
    have hfinish : Python.finish fileName identifier s = .error closed := bind_error hclosed
    cases routine with
    | download => exact bind_error hdownload
    | upload => exact hfinish
    | delete => exact hfinish
  exact not_reports_of_closed herror (by decide) .python code routine

/-! ### C -/

/-- Nothing the C client fails with here has a message. -/
theorem C.silent_finish (routine : Routine) :
    Silent (Client.c.finish fileName identifier routine) := by
  have hfinish : Silent (C.finish identifier) := by
    refine .bind (.recv rfl) fun header => ?_
    split_ifs
    · exact .throw rfl
    · exact .throw rfl
    · exact .pure ()
  cases routine with
  | upload => exact hfinish
  | delete => exact hfinish
  | download =>
    refine .bind (.bind (.recvAll rfl) fun header => ?_) fun _ => .pure ()
    dsimp only
    have hchecked (c : Prop) [Decidable c] (data : Bytes) :
        Silent (if c then throw (.result none) else pure data : ClientReader Bytes) := by
      split_ifs
      · exact .throw rfl
      · exact .pure data
    split_ifs
    · exact .throw rfl
    · exact .throw rfl
    · exact .throw rfl
    · exact .bind (.recvAll rfl) fun _ => hchecked _ _
    · exact .bind (.pure []) fun _ => hchecked _ _

/-! ### C++ -/

theorem Cpp.reports_iff {bytes : Bytes} (hs : s.flatten = status.code :: bytes)
    (hstatus : status ≠ .success) (routine : Routine) :
    Reports (Client.cpp.finish fileName identifier routine) s
      (Client.cpp.errorMessage fileName status.code.toNat routine) ↔ status ≠ .none := by
  obtain ⟨chunk, s', hrecv, htook, hpos, -⟩ :=
    Cpp.exists_checkRecv (s := s) (n := headerBaseLength + identifier.length) "response header"
      (Nat.add_pos_left (by decide) _) (by rw [hs]; exact Nat.succ_pos _)
  -- one byte is enough
  obtain ⟨tail, rfl⟩ : ∃ tail, chunk = status.code :: tail := by
    cases chunk with
    | nil => exact absurd hpos (Nat.lt_irrefl 0)
    | cons b tail =>
      have hcons := htook.flatten.symm.trans hs
      rw [List.cons_append] at hcons
      exact ⟨tail, by rw [(List.cons.inj hcons).1]⟩
  have herror : Client.cpp.finish fileName identifier routine s = .error
      (.raised .client (Cpp.errorMessage (signedByte status.code) fileName)) := by
    cases routine with
    | download =>
      refine bind_error ?_
      change (Cpp.checkRecv _ _ >>= _) s = _
      rw [bind_ok hrecv]
      exact congrFun (if_pos (code_ne_zero hstatus)) s'
    | _ =>
      change (Cpp.checkRecv _ _ >>= _) s = _
      rw [bind_ok hrecv]
      exact congrFun (if_pos (code_ne_zero hstatus)) s'
  rw [reports_of_error herror, ClientError.message, Option.some_inj]
  cases routine <;> exact report_code_iff "Server returned error code: " fileName

/-! ### Java -/

/-- What the Java client reads of an error response: nothing if its buffer is negative or
    empty, and the status if it is not larger than the response. -/
theorem Java.readHeader_cases {bytes : Bytes} (hs : s.flatten = status.code :: bytes)
    (hbytes : bytes.length = 9) (hid : 0 < identifier.length) (hlen : identifier.length ≤ 255)
    (closed : String) :
    (247 ≤ identifier.length ∧ ∃ tail s', readHeader closed identifier s =
      .ok (status.code :: tail, s')) ∨
    (identifier.length < 247 ∧ ((∃ s', readHeader closed identifier s = .ok ([], s')) ∨
      readHeader closed identifier s = .error .outOfBounds ∨
      readHeader closed identifier s = .error (.raised .connection closed))) := by
  have hslen : s.flatten.length = 10 := by rw [hs, List.length_cons, hbytes]
  have hsigned : headerLen identifier = if identifier.length < 128
      then (identifier.length : Int) + 10 else (identifier.length : Int) - 246 := by
    split_ifs with hshort
    · rw [headerLen_of_lt hshort, headerBaseLength]
      omega
    · exact headerLen_of_le (not_lt.mp hshort) (by omega)
  unfold readHeader
  by_cases hneg : headerLen identifier < 0
  · rw [if_pos hneg]
    split_ifs at hsigned
    · omega
    · exact .inr ⟨by omega, .inr (.inl rfl)⟩
  rw [if_neg hneg]
  by_cases hlong : 10 < (headerLen identifier).toNat
  · refine .inr ⟨?_, .inr (.inr (recvAll_closed (by omega)))⟩
    split_ifs at hsigned <;> omega
  obtain ⟨s', hrecv, -⟩ := exists_recvAll (.raised .connection closed)
    (List.take_append_drop (headerLen identifier).toNat s.flatten).symm
  rw [List.length_take, Nat.min_eq_left (by omega), hs] at hrecv
  rcases hn : (headerLen identifier).toNat with _ | n
  · refine .inr ⟨?_, .inl ⟨s', ?_⟩⟩
    · split_ifs at hsigned <;> omega
    · rwa [hn] at hrecv
  · refine .inl ⟨?_, bytes.take n, s', ?_⟩
    · split_ifs at hsigned <;> omega
    · rwa [hn] at hrecv

theorem Java.reports_iff {bytes : Bytes} (hs : s.flatten = status.code :: bytes)
    (hbytes : bytes.length = 9) (hstatus : status ≠ .success) (hid : 0 < identifier.length)
    (hlen : identifier.length ≤ 255) (routine : Routine) :
    Reports (Client.java.finish fileName identifier routine) s
      (Client.java.errorMessage fileName status.code.toNat routine) ↔
      247 ≤ identifier.length ∧ status ≠ .none := by
  have hcode := code_ne_zero hstatus
  obtain ⟨closed, report, hhead, hreport, hok, hnil, herr⟩ : ∃ closed report,
      closed.toList.head? = some 'C' ∧
      (∀ code, Client.java.errorMessage fileName code routine =
        report ++ toString code ++ " for file: " ++ fileName) ∧
      (∀ tail s', readHeader closed identifier s = .ok (status.code :: tail, s') →
        Client.java.finish fileName identifier routine s = .error (.raised .protocol
          (report ++ toString (signedByte status.code) ++ " for file: " ++ fileName))) ∧
      (∀ s', readHeader closed identifier s = .ok ([], s') →
        Client.java.finish fileName identifier routine s = .error .outOfBounds) ∧
      (∀ e, readHeader closed identifier s = .error e →
        Client.java.finish fileName identifier routine s = .error e) := by
    have hfinish (closed intro : String) :
        (∀ tail s', readHeader (closed ++ fileName) identifier s = .ok (status.code :: tail, s') →
          Java.finish closed intro fileName identifier s = .error (.raised .protocol
            (intro ++ toString (signedByte status.code) ++ " for file: " ++ fileName))) ∧
        (∀ s', readHeader (closed ++ fileName) identifier s = .ok ([], s') →
          Java.finish closed intro fileName identifier s = .error .outOfBounds) ∧
        (∀ e, readHeader (closed ++ fileName) identifier s = .error e →
          Java.finish closed intro fileName identifier s = .error e) := by
      refine ⟨fun tail s' h => ?_, fun s' h => ?_, fun e h => bind_error h⟩
      · rw [Java.finish, bind_ok h]
        exact congrFun (if_pos hcode) s'
      · rw [Java.finish, bind_ok h]
        rfl
    cases routine with
    | upload => exact ⟨_, _, head_append (by decide), fun _ => rfl, hfinish _ _⟩
    | delete => exact ⟨_, _, head_append (by decide), fun _ => rfl, hfinish _ _⟩
    | download =>
      refine ⟨"Connection closed while reading header for file: " ++ fileName,
        "Server returned error code: ", head_append (by decide), fun _ => rfl,
        fun tail s' h => bind_error ?_, fun s' h => bind_error ?_,
        fun e h => bind_error (bind_error h)⟩
      · rw [Client.download, Java.linaDownloadFile, bind_ok h]
        exact congrFun (if_pos hcode) s'
      · rw [Client.download, Java.linaDownloadFile, bind_ok h]
        rfl
  rcases readHeader_cases hs hbytes hid hlen closed with
    ⟨hge, tail, s', h⟩ | ⟨hlt, ⟨s', h⟩ | h | h⟩
  · rw [reports_of_error (hok tail s' h), ClientError.message, Option.some_inj, hreport,
      report_code_iff, and_iff_right hge]
  · rw [reports_of_error (hnil s' h)]
    exact iff_of_false (fun h => by cases h) fun h => absurd h.1 (by omega)
  · rw [reports_of_error (herr _ h)]
    exact iff_of_false (fun h => by cases h) fun h => absurd h.1 (by omega)
  · exact iff_of_false (not_reports_of_closed (herr _ h) hhead .java _ routine)
      fun h => absurd h.1 (by omega)

/-! ## All responses -/

/-- When a client decodes the response to its read. The C++ client also has to get each of
    the two parts of the response in one piece. -/
def Client.DecodesWhen (identifier data : Bytes) (s : Stream) : Client → Prop
  | python => identifier.length = 36 ∧ data.length < 2 ^ 32
  | c => identifier.length = 36 ∧ data.length < 2 ^ 32 - 1
  | cpp => data.length < 2 ^ 32 ∧ ∃ j, Cpp.Apart identifier data s j
  | java => identifier.length = 36 ∧ data.length < 2 ^ 31

/-- When a client reports the status of an error response. -/
def Client.ReportsWhen (identifier : Bytes) (status : Status) : Client → Prop
  | python => False
  | c => False
  | cpp => status ≠ .none
  | java => 247 ≤ identifier.length ∧ status ≠ .none

/-- The length of a header with an identifier of 36 bytes. -/
theorem identifier_length_of_header {n : ℕ} (hn : n = headerBaseLength + identifier.length)
    (h : 46 = n) : identifier.length = 36 := by
  rw [hn, headerBaseLength] at h
  omega

theorem decodes_iff {message : LiNaProtocol} (h : ReadResponse message)
    (hs : s.flatten = message.serializeProtocolMessage) (hlen : identifier.length ≤ 255)
    (client : Client) :
    Decodes (client.download fileName identifier) s message.payload.data ↔
      client.DecodesWhen identifier message.payload.data s := by
  rw [serialize_eq] at hs
  cases client with
  | python =>
    refine ⟨fun hd => ?_, fun hd => Python.decodes h hs fileName hd.1 hd.2⟩
    obtain ⟨hheader, hbound⟩ := (Python.exact_download fileName identifier).of_decodes hs hd
    rw [h.length_header] at hheader
    exact ⟨identifier_length_of_header rfl hheader, hbound⟩
  | c =>
    refine ⟨fun hd => ?_, fun hd => C.decodes h hs hd.1 hd.2⟩
    obtain ⟨hheader, hbound⟩ := (C.exact_download identifier).of_decodes hs hd
    rw [h.length_header] at hheader
    exact ⟨identifier_length_of_header rfl hheader, hbound⟩
  | cpp =>
    refine ⟨fun hd => Cpp.apart_of_decodes h hs hd, fun hd => ?_⟩
    obtain ⟨hbound, j, hj⟩ := hd
    exact Cpp.decodes_of_apart h hs hbound hj
  | java =>
    refine ⟨fun hd => ?_, fun hd => Java.decodes h hs fileName hd.1 hd.2⟩
    obtain ⟨hheader, hbound⟩ := (Java.exact_download fileName identifier).of_decodes hs hd
    refine ⟨?_, hbound⟩
    rw [h.length_header, Java.headerLen, signedByte, UInt8.toNat_ofNat',
      Nat.mod_eq_of_lt (by omega), headerBaseLength] at hheader
    split_ifs at hheader <;> omega

theorem reports_iff (hs : s.flatten = (errorResponse status none).serializeProtocolMessage)
    (hstatus : status ≠ .success) (hid : 0 < identifier.length) (hlen : identifier.length ≤ 255)
    (client : Client) (routine : Routine) :
    Reports (client.finish fileName identifier routine) s
      (client.errorMessage fileName status.code.toNat routine) ↔
      client.ReportsWhen identifier status := by
  obtain ⟨bytes, hbytes, hblen⟩ := errorResponse_bytes status
  rw [hbytes] at hs
  cases client with
  | python =>
    exact iff_of_false (Python.not_reports (by rw [hs, List.length_cons, hblen]) hid routine _) id
  | c =>
    refine iff_of_false ?_ id
    rintro ⟨e, he, hmessage⟩
    rw [C.silent_finish routine he] at hmessage
    cases hmessage
  | cpp => exact Cpp.reports_iff hs hstatus routine
  | java => exact Java.reports_iff hs hblen hstatus hid hlen routine

/-- For every identifier a client accepts and however the bytes of a response arrive: the
    client returns the data of a read and has read exactly the response, and reports the
    status of an error from the error response alone, under these conditions and no others. -/
theorem decode_responses_iff (client : Client) (fileName : String) (identifier : Bytes)
    (hid : 0 < identifier.length) (hlen : identifier.length ≤ 255) :
    (∀ (C : Cipher) (E : Engine) (D : Set Bytes) (authRequired : Bool) (sv sv' : Server)
      (m : Objects) (d : FrontDraws) (message : LiNaProtocol) (reply : Reply) (s : Stream),
      ServerRun C E D authRequired (fun _ _ => True) sv m →
      message.op = .read → message.payload.identifier = identifier →
      (serve C authRequired d message).run (ServerPrim.step E) sv = (.ok reply, sv') →
      reply.message.status = .success →
      s.flatten = reply.message.serializeProtocolMessage →
      (Decodes (client.download fileName identifier) s reply.message.payload.data ↔
        client.DecodesWhen identifier reply.message.payload.data s)) ∧
    ∀ (routine : Routine) (status : Status) (s : Stream), status ≠ .success →
      s.flatten = (errorResponse status none).serializeProtocolMessage →
      (Reports (client.finish fileName identifier routine) s
        (client.errorMessage fileName status.code.toNat routine) ↔
          client.ReportsWhen identifier status) := by
  refine ⟨fun C E D authRequired sv sv' m d message reply s hrun hread _ hserve hsuccess hs => ?_,
    fun routine status s hstatus hs => reports_iff hs hstatus hid hlen client routine⟩
  obtain ⟨u, pkg, data, hname, hreply⟩ :=
    exists_response_of_read hrun.named hread hserve hsuccess
  rw [hreply] at hs ⊢
  exact decodes_iff (readResponse_response data hname) hs hlen client

/-- A read of the object whose key is 36 letters. -/
def longDownload : LiNaProtocol :=
  LiNaProtocol.withChecksum
    ⟨FlagType.read.bits, .none, ⟨36, List.replicate 36 0x61, 0, 0, []⟩⟩

/-- With an identifier of 36 bytes the Python client gets the data; the C++ client gets the
    status of an error. -/
theorem decode_responses_long :
    (∃ sv m, ServerRun .rejecting .plain {[1], [2]} false (fun _ _ => True) sv m ∧
      ∃ reply sv', (serve .rejecting false (.sample 1) longDownload).run (ServerPrim.step .plain)
          sv = (.ok reply, sv') ∧
        reply.message.payload.data = [1] ∧
        Decodes (Client.python.download "a" longDownload.payload.identifier)
          [reply.message.serializeProtocolMessage] reply.message.payload.data) ∧
    Reports (Client.cpp.finish "a" longDownload.payload.identifier .upload)
      [(errorResponse .unauthorized none).serializeProtocolMessage]
      "Server returned error code: 4 for file: a" := by
  have hid : 0 < longDownload.payload.identifier.length := by decide
  have hlen : longDownload.payload.identifier.length ≤ 255 := by decide
  refine ⟨?_, ?_⟩
  · have h : ServerRun .rejecting .plain {[1], [2]} false (fun _ _ => True) _ _ :=
      .request (.s3 .put "/default/aaaaaaaaaaaaaaaaaaaaaaaaaaaaaaaaaaaa" (some [1])) (.sample 0) _
        (.start fun _ _ => none) ⟨by decide, rfl, rfl⟩ (fun _ _ h => by cases h; exact .inl rfl)
        trivial rfl
    have hdecodes (sv' : Server) (reply : Reply)
        (hserve : (serve .rejecting false (.sample 1) longDownload).run (ServerPrim.step .plain) _ =
          (.ok reply, sv')) (hsuccess : reply.message.status = .success)
        (hdata : reply.message.payload.data.length < 2 ^ 32) :=
      ((decode_responses_iff .python "a" longDownload.payload.identifier hid hlen).1 .rejecting
        .plain _ false _ sv' _ (.sample 1) longDownload reply
        [reply.message.serializeProtocolMessage] h (by decide) rfl hserve hsuccess
        (List.append_nil _)).mpr ⟨by decide, hdata⟩
    exact ⟨_, _, h, _, _, rfl, rfl, hdecodes _ _ rfl rfl (by decide)⟩
  · refine ((decode_responses_iff .cpp "a" longDownload.payload.identifier hid hlen).2 .upload
      .unauthorized _ (by decide) ?_).mpr (show Status.unauthorized ≠ .none by decide)
    exact List.append_nil _

/-- With another identifier the Python client neither gets the data of its read nor the
    status of an error. -/
theorem decode_responses_short :
    (∃ sv m, ServerRun .rejecting .plain {[1], [2]} false (fun _ _ => True) sv m ∧
      ∃ reply sv', (serve .rejecting false (.sample 1) rawDownload).run (ServerPrim.step .plain)
          sv = (.ok reply, sv') ∧
        reply.message.status = .success ∧ reply.message.payload.data = [1] ∧
        ¬ Decodes (Client.python.download "a" rawDownload.payload.identifier)
          [reply.message.serializeProtocolMessage] reply.message.payload.data) ∧
    ¬ Reports (Client.python.finish "a" rawDownload.payload.identifier .download)
      [(errorResponse .fileNotFound none).serializeProtocolMessage]
      "Server returned error code: 1 for file: a" := by
  refine ⟨?_, ?_⟩
  · have h : ServerRun .rejecting .plain {[1], [2]} false (fun _ _ => True) _ _ :=
      .request (.s3 .put "/default/a" (some [1])) (.sample 0) _ (.start fun _ _ => none)
        ⟨by decide, rfl, rfl⟩ (fun _ _ h => by cases h; exact .inl rfl) trivial rfl
    refine ⟨_, _, h, _, _, rfl, rfl, rfl, ?_⟩
    intro hd
    obtain ⟨hheader, -⟩ := (Python.exact_download _ _).of_decodes (List.append_nil _) hd
    exact absurd hheader (by decide)
  · exact Python.not_reports rfl (by decide) .download 1

end LiNaStore
