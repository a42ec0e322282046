import LiNaStore.Client.Reporting

/-!
# Calls of the C client on one connection

The C client keeps its connection after a call that succeeded, and closes it after one that
failed (`C.Session`). A download reads its header and its data with loops, and one that
succeeds has read its response to the end. An upload or a deletion reads once, as many bytes
as a header with the identifier of its request has, and keeps the number of bytes in eight
bits: it is in step if and only if what it reads is the whole response, and is shorter than
128 bytes (`c_calls_in_step`). The server answers with a name of 36 bytes, so that an upload
under a shorter identifier succeeds and leaves the end of its response to the next call.
-/

namespace LiNaStore

open ClientReader

/-! ## Calls and responses -/

/-- A call, and the response of the server to it. -/
structure Exchange where
  routine : Routine
  identifier : Bytes
  response : LiNaProtocol
  framed : response.Framed

/-- The bytes of the response. -/
def Exchange.bytes (e : Exchange) : Bytes := e.response.serializeProtocolMessage

namespace C

/-- The end of a call, with the data of a download. -/
def call (identifier : Bytes) : Routine → ClientReader (Option Bytes)
  | .download => do return some (← linaDownloadFile identifier)
  | _ => do
    finish identifier
    return none

/-- The calls of a client with their outcomes, and the bytes that its connection has still to be
    read. The pieces in which a call finds them satisfy `P`. -/
inductive Session (P : Exchange → Stream → Prop) :
    List (Exchange × Except ClientError (Option Bytes)) → Bytes → Prop
  | start : Session P [] []
  | succeeds {log : List (Exchange × Except ClientError (Option Bytes))} {unread : Bytes}
      {s s' : Stream} {result : Option Bytes} (e : Exchange) : Session P log unread →
      s.flatten = unread ++ e.bytes → P e s → call e.identifier e.routine s = .ok (result, s') →
      Session P (log ++ [(e, .ok result)]) s'.flatten
  /-- The connection is closed, and the next call makes a new one. -/
  | fails {log : List (Exchange × Except ClientError (Option Bytes))} {unread : Bytes}
      {s : Stream} {error : ClientError} (e : Exchange) : Session P log unread →
      s.flatten = unread ++ e.bytes → P e s → call e.identifier e.routine s = .error error →
      Session P (log ++ [(e, .error error)]) []

/-- A call that succeeds has read all there is, and the number of bytes of a single read is kept
    as it is. -/
structure InStep (e : Exchange) (s : Stream) : Prop where
  consumed : ∀ result s', call e.identifier e.routine s = .ok (result, s') → s'.flatten = []
  count : e.routine ≠ .download → ∀ buf s',
    s.read (headerBaseLength + e.identifier.length) = some (buf, s') →
    sockStatus buf.length = buf.length

/-- What a single read gives. -/
def received (e : Exchange) (s : Stream) : Bytes :=
  s.first.take (headerBaseLength + e.identifier.length)

/-- A download, or a single read that gives less than 128 bytes, and the whole response if it
    reports success. -/
def Fits (e : Exchange) (s : Stream) : Prop :=
  e.routine = .download ∨ (received e s).length < 128 ∧
    (e.response.status = .success → (received e s).length = e.bytes.length)

/-- The outcome of a call whose response arrives at once. -/
def outcome (e : Exchange) : Except ClientError (Option Bytes) :=
  (call e.identifier e.routine [e.bytes]).map Prod.fst

end C

/-! ## Reading the same bytes -/

namespace ClientReader

variable {α β : Type}

/-- Results that differ in nothing but the pieces that are left. -/
def SameResult : Except ClientError (α × Stream) → Except ClientError (α × Stream) → Prop
  | .ok (a, s), .ok (b, t) => a = b ∧ s.flatten = t.flatten
  | .error e, .error e' => e = e'
  | _, _ => False

/-- A reader that finds the same however the bytes are cut. -/
def Uniform (r : ClientReader α) : Prop :=
  ∀ ⦃s t : Stream⦄, s.flatten = t.flatten → SameResult (r s) (r t)

theorem Uniform.pure (a : α) : Uniform (Pure.pure a) := fun _ _ h => ⟨rfl, h⟩

theorem Uniform.throw (e : ClientError) : Uniform (throw e : ClientReader α) := fun _ _ _ => rfl

theorem Uniform.recvAll (closed : ClientError) (n : ℕ) : Uniform (recvAll closed n) := by
  intro s t h
  rw [ClientReader.recvAll, ClientReader.recvAll]
  rcases Stream.readExact_cases n s with ⟨hle, s', hs, hs'⟩ | ⟨hlt, hs⟩
  · rcases Stream.readExact_cases n t with ⟨-, t', ht, ht'⟩ | ⟨hlt, -⟩
    · rw [hs, ht]
      exact ⟨by rw [h], by rw [hs', ht', h]⟩
    · rw [h] at hle
      omega
  · rcases Stream.readExact_cases n t with ⟨hle, -⟩ | ⟨-, ht⟩
    · rw [h] at hlt
      omega
    · rw [hs, ht]
      rfl

theorem Uniform.bind {x : ClientReader α} {f : α → ClientReader β} (hx : Uniform x)
    (hf : ∀ a, Uniform (f a)) : Uniform (x >>= f) := by
  intro s t h
  have hxs := hx h
  rcases hs : x s with e | ⟨a, s'⟩ <;> rcases ht : x t with e' | ⟨b, t'⟩ <;> rw [hs, ht] at hxs
  · rw [bind_error hs, bind_error ht]
    exact hxs
  · exact hxs.elim
  · exact hxs.elim
  · rw [bind_ok hs, bind_ok ht, ← hxs.1]
    exact hf a hxs.2

theorem Uniform.map_fst {r : ClientReader α} (h : Uniform r) {s t : Stream}
    (hst : s.flatten = t.flatten) : (r s).map Prod.fst = (r t).map Prod.fst := by
  have hsame := h hst
  rcases hs : r s with e | ⟨a, s'⟩ <;> rcases ht : r t with e' | ⟨b, t'⟩ <;>
  rw [hs, ht] at hsame
  · exact congrArg Except.error hsame
  · exact hsame.elim
  · exact hsame.elim
  · exact congrArg Except.ok hsame.1

end ClientReader

namespace C

variable {e : Exchange} {s : Stream}

/-! ## Downloads -/

theorem uniform_download (identifier : Bytes) : Uniform (linaDownloadFile identifier) := by
  refine (Uniform.recvAll _ _).bind fun headerBuf => ?_
  split_ifs
  · exact .throw _
  dsimp only
  split_ifs
  · exact .throw _
  · exact .throw _
  · refine (Uniform.recvAll _ _).bind fun dataRecv => ?_
    split_ifs
    · exact .throw _
    · exact .pure _
  · refine (Uniform.pure _).bind fun dataRecv => ?_
    split_ifs
    · exact .throw _
    · exact .pure _

/-- A download that succeeds has read the response to the end: a header of another length has no
    room for the fields, or reaches into the data, of which there is then not enough. -/
theorem flatten_of_download {data : Bytes} {s' : Stream} (hs : s.flatten = e.bytes)
    (h : linaDownloadFile e.identifier s = .ok (data, s')) : s'.flatten = [] := by
  obtain ⟨header, hheader, hroom, hdata, -, hlen⟩ := of_linaDownloadFile_ok h
  rw [hs, Exchange.bytes, serialize_eq] at hheader hlen
  have hilen : header.getD 1 0 = e.response.payload.ilen := by
    rw [hheader, headerBaseLength, Nat.add_comm]
    rfl
  rw [hilen, e.framed.ilen] at hroom hdata
  have hle : e.response.header.length ≤ headerBaseLength + e.identifier.length := by
    rw [length_header, headerBaseLength] at *
    omega
  -- the header has all fields, and the length is that of the data
  have hbuf : header = e.response.header ++ e.response.payload.data.take
      (headerBaseLength + e.identifier.length - e.response.header.length) := by
    rw [hheader, List.take_append, List.take_of_length_le hle]
  rw [hbuf, (parsed_header e.response _).dlen, e.framed.dlen] at hdata
  rw [List.length_append] at hlen
  exact List.eq_nil_of_length_eq_zero (by omega)

/-! ## Single reads -/

theorem bytes_ne_nil (e : Exchange) : e.bytes ≠ [] := List.cons_ne_nil _ _

theorem sockStatus_eq_iff (n : ℕ) : sockStatus n = n ↔ n < 128 := by
  rw [sockStatus, signedByte, UInt8.toNat_ofNat']
  split_ifs <;> omega

theorem received_pos (hs : s.flatten = e.bytes) : 0 < (received e s).length := by
  have hfirst := List.length_pos_of_ne_nil (Stream.first_ne_nil (hs ▸ bytes_ne_nil e))
  rw [received, List.length_take, headerBaseLength]
  omega

/-- The first byte is the status. -/
theorem headD_received (hs : s.flatten = e.bytes) {rest : Bytes}
    (hrest : s.flatten = received e s ++ rest) :
    (received e s).headD 0 = e.response.status.code := by
  have hpos := received_pos hs
  rw [hs] at hrest
  generalize received e s = buf at hrest hpos
  cases buf with
  | nil => exact absurd hpos (Nat.lt_irrefl _)
  | cons b buf => exact (List.cons.inj hrest).1.symm

/-- What an upload or a deletion makes of its response. -/
theorem exists_call_finish {routine : Routine} (hroutine : routine ≠ .download)
    (hs : s.flatten = e.bytes) :
    ∃ s', s.read (headerBaseLength + e.identifier.length) = some (received e s, s') ∧
      s.flatten = received e s ++ s'.flatten ∧
      call e.identifier routine s =
        if sockStatus (received e s).length ≤ 0 ∨ e.response.status ≠ .success then
          .error (.result none)
        else .ok (none, s') := by
  obtain ⟨s', hread, hflat⟩ := Stream.exists_read_first
    (headerBaseLength + e.identifier.length) (hs ▸ bytes_ne_nil e)
  refine ⟨s', hread, hflat, ?_⟩
  have hrecv : recv (.result none) (headerBaseLength + e.identifier.length) s =
      .ok (received e s, s') := by
    rw [recv, hread]
    rfl
  have hcall : call e.identifier routine s = (do
      finish e.identifier
      return none : ClientReader (Option Bytes)) s := by
    cases routine with
    | download => exact absurd rfl hroutine
    | _ => rfl
  have hhead := headD_received hs hflat
  rw [hcall]
  by_cases hcount : sockStatus (received e s).length ≤ 0
  · rw [if_pos (.inl hcount)]
    refine bind_error ((bind_ok hrecv).trans ?_)
    exact congrFun (if_pos hcount) s'
  by_cases hstatus : e.response.status = .success
  · rw [if_neg fun h => h.elim hcount (not_not_intro hstatus)]
    refine bind_ok (a := ()) ((bind_ok hrecv).trans ?_)
    rw [if_neg hcount, hhead, hstatus]
    rfl
  · rw [if_pos (.inr hstatus)]
    refine bind_error ((bind_ok hrecv).trans ?_)
    rw [if_neg hcount, hhead]
    exact congrFun (if_pos (code_ne_zero hstatus)) s'

/-! ## One call -/

theorem sockStatus_pos {n : ℕ} (hpos : 0 < n) (h : n < 128) : ¬ sockStatus n ≤ 0 := by
  rw [(sockStatus_eq_iff n).mpr h]
  omega

/-- A call that begins at its response is in step if and only if it fits. -/
theorem inStep_iff (hs : s.flatten = e.bytes) : InStep e s ↔ Fits e s := by
  by_cases hroutine : e.routine = .download
  · refine iff_of_true ⟨fun result s' hcall => ?_, fun h => absurd hroutine h⟩ (.inl hroutine)
    rw [hroutine] at hcall
    obtain ⟨data, s₁, hdownload, hcall⟩ := exists_of_bind_ok hcall
    cases hcall
    exact flatten_of_download hs hdownload
  obtain ⟨s', hread, hflat, hcall⟩ := exists_call_finish hroutine hs
  have hpos := received_pos hs
  have hlength := congrArg List.length (hs.symm.trans hflat)
  rw [List.length_append] at hlength
  rw [Fits, or_iff_right hroutine]
  constructor
  · intro h
    have hcount := (sockStatus_eq_iff _).mp (h.count hroutine _ _ hread)
    refine ⟨hcount, fun hstatus => ?_⟩
    rw [if_neg fun h => h.elim (sockStatus_pos hpos hcount) (not_not_intro hstatus)] at hcall
    rw [h.consumed none s' hcall, List.length_nil] at hlength
    exact hlength.symm
  · rintro ⟨hcount, hwhole⟩
    refine ⟨fun result s₁ hcall' => ?_, fun _ buf s₁ hread' => ?_⟩
    · rw [hcall] at hcall'
      split_ifs at hcall' with hfails
      cases hcall'
      rw [not_or, not_not] at hfails
      have := hwhole hfails.2
      exact List.eq_nil_of_length_eq_zero (by omega)
    · rw [hread] at hread'
      cases hread'
      exact (sockStatus_eq_iff _).mpr hcount

/-- The outcome of a call that fits is that of its response alone. -/
theorem outcome_of_fits (hs : s.flatten = e.bytes) (h : Fits e s) :
    (call e.identifier e.routine s).map Prod.fst = outcome e := by
  have hwhole : ([e.bytes] : Stream).flatten = e.bytes := List.append_nil _
  by_cases hroutine : e.routine = .download
  · have huniform : Uniform (call e.identifier e.routine) := by
      rw [hroutine]
      exact (uniform_download e.identifier).bind fun _ => .pure _
    exact huniform.map_fst (hs.trans hwhole.symm)
  obtain ⟨hcount, hlength⟩ := h.resolve_left hroutine
  obtain ⟨s', -, -, hcall⟩ := exists_call_finish hroutine hs
  obtain ⟨t', -, -, halone⟩ := exists_call_finish hroutine hwhole
  rw [outcome, hcall, halone]
  by_cases hstatus : e.response.status = .success
  · -- the buffer has room for the whole response, so all of it is received either way
    have hreceived : (received e [e.bytes]).length = e.bytes.length := by
      have hle := hlength hstatus
      rw [received, List.length_take] at hle
      rw [received, Stream.first, if_neg (bytes_ne_nil e), List.length_take]
      omega
    rw [hlength hstatus] at hcount ⊢
    have hpos := List.length_pos_of_ne_nil (bytes_ne_nil e)
    have hgoes : ¬(sockStatus e.bytes.length ≤ 0 ∨ e.response.status ≠ .success) :=
      fun h => h.elim (sockStatus_pos hpos hcount) (not_not_intro hstatus)
    rw [hreceived, if_neg hgoes, if_neg hgoes]
    rfl
  · rw [if_pos (.inr hstatus), if_pos (.inr hstatus)]

end C

/-! ## All calls -/

/-- In a session in which every upload and every deletion finds less than 128 bytes in one piece,
    and the whole response if it reports success, nothing is left unread, and the outcome of every
    call is that of its response alone. A call that begins at its response is in step if and only
    if it is so. -/
theorem c_calls_in_step {log : List (Exchange × Except ClientError (Option Bytes))} {unread : Bytes}
    (h : C.Session C.Fits log unread) :
    unread = [] ∧ (∀ x ∈ log, x.2 = C.outcome x.1) ∧
      ∀ (e : Exchange) (s : Stream), s.flatten = unread ++ e.bytes →
        (C.InStep e s ↔ C.Fits e s) := by
  have hstep : unread = [] ∧ ∀ x ∈ log, x.2 = C.outcome x.1 := by
    induction h with
    | start => exact ⟨rfl, fun x hx => absurd hx List.not_mem_nil⟩
    | succeeds e _ hs hfits hcall ih =>
      obtain ⟨rfl, hlog⟩ := ih
      have houtcome := C.outcome_of_fits hs hfits
      rw [hcall] at houtcome
      refine ⟨((C.inStep_iff hs).mpr hfits).consumed _ _ hcall, fun x hx => ?_⟩
      rcases List.mem_append.mp hx with hx | hx
      · exact hlog x hx
      · obtain rfl := List.mem_singleton.mp hx
        exact houtcome
    | fails e _ hs hfits hcall ih =>
      obtain ⟨rfl, hlog⟩ := ih
      have houtcome := C.outcome_of_fits hs hfits
      rw [hcall] at houtcome
      refine ⟨rfl, fun x hx => ?_⟩
      rcases List.mem_append.mp hx with hx | hx
      · exact hlog x hx
      · obtain rfl := List.mem_singleton.mp hx
        exact houtcome
  obtain ⟨rfl, hlog⟩ := hstep
  exact ⟨rfl, hlog, fun e s hs => C.inStep_iff hs⟩

/-- The response to a request that was carried out, with the name of the object. -/
def storedResponse (data : Bytes) : LiNaProtocol :=
  response ((orderPkg (.sample 0) (rawUpload [1]) (utf8 (FrontDraws.sample 0).internalName.text)
    [1]).answer .success data)

/-- An upload under an identifier of `n` bytes. -/
def Exchange.upload (n : ℕ) : Exchange :=
  ⟨.upload, List.replicate n 0x61, storedResponse [], by decide, by decide⟩

/-- A download under an identifier of 36 bytes. -/
def Exchange.download : Exchange :=
  ⟨.download, List.replicate 36 0x61, storedResponse [1], by decide, by decide⟩

/-- An upload and a download on one connection, under an identifier as long as the names of the
    server. The response to the download comes in two pieces. -/
theorem c_calls_in_step_long :
    C.Session C.Fits [(.upload 36, .ok none), (.download, .ok (some [1]))] [] ∧
      ∀ x ∈ [(Exchange.upload 36, .ok none), (.download, .ok (some [1]))], x.2 = C.outcome x.1 := by
  have hupload : C.Session C.Fits _ _ :=
    .succeeds (.upload 36) .start (s := [(Exchange.upload 36).bytes]) rfl
      (.inr ⟨by decide, fun _ => by decide⟩) rfl
  have hcall : C.call Exchange.download.identifier .download
      [Exchange.download.bytes.take 20, Exchange.download.bytes.drop 20] = .ok (some [1], [[]]) := by
    decide +kernel
  have hdownload : C.Session C.Fits _ _ := .succeeds .download hupload rfl (.inl rfl) hcall
  exact ⟨hdownload, (c_calls_in_step hdownload).2.1⟩

/-- Two uploads under an identifier of one byte, both of which the server carries out. The first
    one leaves 35 bytes, and the second one takes them for an error. -/
theorem c_calls_out_of_step :
    ∃ unread error, C.Session (fun _ _ => True) [(.upload 1, .ok none)] unread ∧
      unread.length = 35 ∧
      C.Session (fun _ _ => True) [(.upload 1, .ok none), (.upload 1, .error error)] [] ∧
      C.outcome (.upload 1) = .ok none := by
  have h : C.Session (fun _ _ => True) _ _ :=
    .succeeds (.upload 1) .start (s := [(Exchange.upload 1).bytes]) rfl trivial rfl
  refine ⟨_, .result none, h, by decide, ?_, rfl⟩
  exact .fails (.upload 1) h (s := [_]) (List.append_nil _) trivial rfl

end LiNaStore
