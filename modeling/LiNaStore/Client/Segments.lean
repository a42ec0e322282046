import LiNaStore.Client.Handshake
import LiNaStore.Client.Session

/-!
# Responses in pieces

What a connection brings is one string of bytes, and the pieces it comes in are of no meaning. A
client that reads on until it has what it wants finds the same in all of them
(`ClientReader.Uniform`). Some calls read once and go on with what they got, and find different
things:

* an upload or a deletion with the C client keeps the number of bytes it got in a signed byte;
* a download with the C++ client takes what is missing for zeros, and so finds no data if only the
  status has come;
* a handshake with the C++ client does the same;
* a handshake with the Python client gives up.

Where the pieces make no difference is said by `ClientState.Uncut`, and `segmentation_iff` that they
do everywhere else.
-/

namespace LiNaStore

open ClientReader

/-- What a client does over a connection. -/
inductive Operation
  | upload
  | download
  | delete
  | handshake
  deriving DecidableEq, Repr

/-- What it results in. -/
def Operation.Result : Operation → Type
  | upload => Unit
  | download => Bytes
  | delete => Unit
  | handshake => Except LibraryError OpenedSession

namespace ClientState

def kind : ClientState → Client
  | python _ => .python
  | c _ => .c
  | cpp _ => .cpp
  | java _ => .java

/-- What the client does with the response to an operation. -/
def receive (R : Runtimes) (client : ClientState) (fileName : String) (identifier : Bytes) :
    (op : Operation) → ClientReader op.Result
  | .upload => client.kind.finish fileName identifier .upload
  | .download => client.kind.download fileName identifier
  | .delete => client.kind.finish fileName identifier .delete
  | .handshake => client.handshake R

end ClientState

/-- The result is the same for all ways to cut the response into pieces. -/
def Cutproof {α : Type} (r : ClientReader α) (response : Bytes) : Prop :=
  ∀ s t : Stream, s.flatten = response → t.flatten = response →
    (r s).map Prod.fst = (r t).map Prod.fst

/-- The buffer of `n` bytes after the first `k` bytes of the response have come. -/
def Cpp.filled (n k : ℕ) (response : Bytes) : Bytes :=
  response.take k ++ List.replicate (n - k) 0

/-- The header announces no data. -/
def Cpp.NoData (header : Bytes) : Prop :=
  2 + (header.getD 1 0).toNat + 4 ≤ header.length ∧
    le32At header (2 + (header.getD 1 0).toNat) = 0

/-- Pieces make no difference to the client. -/
def ClientState.Uncut (identifier response : Bytes) : ClientState → Operation → Prop
  | c _, .upload | c _, .delete =>
    response.headD 0 ≠ 0 ∨ min (headerBaseLength + identifier.length) response.length < 128
  | cpp _, .download => response.headD 0 ≠ 0 ∨
    Cpp.NoData (Cpp.filled (headerBaseLength + identifier.length)
      (min (headerBaseLength + identifier.length) response.length) response)
  | cpp _, .handshake =>
    le32At (Cpp.filled headerBaseLength (min headerBaseLength response.length) response) 2 = 0
  | python _, .handshake => response.length ≤ 1
  | _, _ => True

/-! ## Reading on -/

namespace ClientReader

variable {α β : Type}

theorem Uniform.ite {p : Prop} [Decidable p] {x y : ClientReader α} (hx : Uniform x)
    (hy : Uniform y) : Uniform (if p then x else y) := by
  split_ifs
  · exact hx
  · exact hy

theorem Uniform.lift (x : Except ClientError α) : Uniform (StateT.lift x : ClientReader α) := by
  intro s t h
  rw [lift_apply, lift_apply]
  cases x with
  | error e => rfl
  | ok a => exact ⟨rfl, h⟩

theorem Uniform.cutproof {r : ClientReader α} (h : Uniform r) (response : Bytes) :
    Cutproof r response := fun _ _ hs ht => h.map_fst (hs.trans ht.symm)

end ClientReader

theorem HandshakeSteps.uniform_run {α : Type} {h : HandshakeSteps α} (hheader : Uniform h.header)
    (herror : ∀ n, Uniform (h.errorData n)) (hdata : ∀ n, Uniform (h.responseData n)) :
    Uniform h.run := by
  refine hheader.bind fun header => .ite (.ite ?_ (.throw _)) (.ite ?_ (.throw _))
  · exact (herror _).bind fun _ => .throw _
  · exact (hdata _).bind fun _ => .lift _

namespace Python

theorem uniform_finish (fileName : String) (identifier : Bytes) :
    Uniform (finish fileName identifier) :=
  (Uniform.recvAll _ _).bind fun _ => .ite (.throw _) (.pure _)

theorem uniform_download (fileName : String) (identifier : Bytes) :
    Uniform (linaDownloadFile fileName identifier) := by
  refine (Uniform.recvAll _ _).bind fun _ => .ite (.throw _) ?_
  exact (Uniform.recvAll _ _).bind fun _ => .ite (.throw _) (.ite (.pure _) (.throw _))

end Python

namespace C

theorem uniform_recvBlock (closed : String) (n : ℕ) : Uniform (recvBlock closed n) :=
  .ite (.throw _) (.recvAll _ _)

theorem uniform_handshake (client : LiNaClient) : Uniform (linaHandshake client) :=
  HandshakeSteps.uniform_run (.recvAll _ _) (uniform_recvBlock _) (uniform_recvBlock _)

end C

namespace Java

theorem uniform_readHeader (closed : String) (identifier : Bytes) :
    Uniform (readHeader closed identifier) :=
  .ite (.throw _) (.recvAll _ _)

theorem uniform_finish (closed intro fileName : String) (identifier : Bytes) :
    Uniform (finish closed intro fileName identifier) := by
  refine (uniform_readHeader _ _).bind fun header => ?_
  cases header with
  | nil => exact .throw _
  | cons status _ => exact .ite (.throw _) (.pure _)

theorem uniform_readData (fileName : String) (header : Bytes) :
    Uniform (readData fileName header) := by
  refine .ite (.throw _) (.ite (.throw _) ?_)
  exact (Uniform.recvAll _ _).bind fun _ => .ite (.throw _) (.pure _)

theorem uniform_download (fileName : String) (identifier : Bytes) :
    Uniform (linaDownloadFile fileName identifier) := by
  refine (uniform_readHeader _ _).bind fun header => ?_
  cases header with
  | nil => exact .throw _
  | cons status _ => exact .ite (.throw _) (uniform_readData _ _)

theorem uniform_handshake (R : Runtimes) (self : LiNaStoreClient) :
    Uniform (linaHandshake R self) :=
  HandshakeSteps.uniform_run (.recvAll _ _) (.recvAll _) (.recvAll _)

end Java

/-! ## Reading once -/

/-- The response, cut after `k` bytes. -/
def cut (k : ℕ) (response : Bytes) : Stream := [response.take k, response.drop k]

theorem flatten_cut (k : ℕ) (response : Bytes) : (cut k response).flatten = response := by
  rw [cut, List.flatten_cons, List.flatten_cons, List.flatten_nil, List.append_nil,
    List.take_append_drop]

theorem headD_take {response : Bytes} {k : ℕ} (hk : 0 < k) :
    (response.take k).headD 0 = response.headD 0 := by
  cases response with
  | nil => rw [List.take_nil]
  | cons b response =>
    obtain ⟨k, rfl⟩ : ∃ j, k = j + 1 := ⟨k - 1, by omega⟩
    rfl

namespace ClientReader

variable {closed : ClientError} {n k : ℕ} {response : Bytes} {s : Stream}

theorem recv_nil (hs : s.flatten = []) : recv closed n s = .error closed := by
  rw [recv, Stream.read_eq_none n hs]

/-- A read brings the front of the response, of some length. -/
theorem exists_recv (hn : 0 < n) (hs : s.flatten = response) (hne : response ≠ []) :
    ∃ k s', 0 < k ∧ k ≤ min n response.length ∧
      recv closed n s = .ok (response.take k, s') := by
  subst hs
  obtain ⟨chunk, s', hread, htook, hpos, hle, -⟩ :=
    Stream.exists_read hn (List.length_pos_iff.mpr hne)
  have hlength := congrArg List.length htook.flatten
  rw [List.length_append] at hlength
  refine ⟨chunk.length, s', hpos, le_min hle (by omega), ?_⟩
  rw [recv, hread, htook.flatten, List.take_left]

/-- All lengths are possible. -/
theorem exists_recv_cut (closed : ClientError) (hk : 0 < k) (hle : k ≤ min n response.length) :
    ∃ s', recv closed n (cut k response) = .ok (response.take k, s') := by
  have hlength : (response.take k).length = k := by
    rw [List.length_take]
    omega
  have hne : response.take k ≠ [] := List.ne_nil_of_length_pos (by omega)
  refine ⟨[(response.take k).drop n, response.drop k], ?_⟩
  rw [recv, cut, Stream.read, if_neg hne, List.take_of_length_le (by omega)]

/-- A client that reads once finds the same in all pieces, if it makes no difference how much it
    gets. -/
theorem cutproof_of_recv {α : Type} {r : ClientReader α} {e : ClientError}
    {result : Except ClientError α} (hn : 0 < n)
    (herror : ∀ s, recv closed n s = .error closed → r s = .error e)
    (hok : ∀ k s s', 0 < k → k ≤ min n response.length →
      recv closed n s = .ok (response.take k, s') → (r s).map Prod.fst = result) :
    Cutproof r response := by
  by_cases hne : response = []
  · subst hne
    intro s t hs ht
    rw [herror s (recv_nil hs), herror t (recv_nil ht)]
  · have hresult (s : Stream) (hs : s.flatten = response) : (r s).map Prod.fst = result := by
      obtain ⟨k, s', hk, hle, hrecv⟩ := exists_recv hn hs hne
      exact hok k s s' hk hle hrecv
    exact fun s t hs ht => (hresult s hs).trans (hresult t ht).symm

end ClientReader

/-! ### C -/

namespace C

theorem map_finish {identifier buf : Bytes} {s s' : Stream}
    (h : recv (.result none) (headerBaseLength + identifier.length) s = .ok (buf, s')) :
    (finish identifier s).map Prod.fst =
      if sockStatus buf.length ≤ 0 ∨ buf.headD 0 ≠ 0 then .error (.result none) else .ok () := by
  rw [finish, bind_ok h]
  by_cases hstatus : sockStatus buf.length ≤ 0
  · rw [if_pos hstatus, if_pos (.inl hstatus)]
    rfl
  · rw [if_neg hstatus]
    by_cases hhead : buf.headD 0 ≠ 0
    · rw [if_pos hhead, if_pos (.inr hhead)]
      rfl
    · rw [if_neg hhead, if_neg (not_or.mpr ⟨hstatus, hhead⟩)]
      rfl

/-- The number of bytes must not become negative, if the status is good. -/
theorem cutproof_finish_iff (identifier response : Bytes) :
    Cutproof (finish identifier) response ↔ response.headD 0 ≠ 0 ∨
      min (headerBaseLength + identifier.length) response.length < 128 := by
  have hmap (k : ℕ) (s s' : Stream) (hk : 0 < k)
      (hle : k ≤ min (headerBaseLength + identifier.length) response.length)
      (hrecv : recv (.result none) (headerBaseLength + identifier.length) s =
        .ok (response.take k, s')) :
      (finish identifier s).map Prod.fst =
        if sockStatus k ≤ 0 ∨ response.headD 0 ≠ 0 then .error (.result none) else .ok () := by
    rw [map_finish hrecv, headD_take hk, List.length_take, Nat.min_eq_left (by omega)]
  constructor
  · intro h
    by_contra! hnot
    obtain ⟨hstatus, hlong⟩ := hnot
    obtain ⟨s, hs⟩ := exists_recv_cut (.result none) Nat.one_pos (hlong.trans' (by decide))
    obtain ⟨t, ht⟩ := exists_recv_cut (.result none) (by decide : 0 < 128) hlong
    have hsame := h _ _ (flatten_cut 1 response) (flatten_cut 128 response)
    rw [hmap 1 _ s Nat.one_pos (by omega) hs, hmap 128 _ t (by decide) hlong ht,
      if_neg (not_or.mpr ⟨by decide, not_not_intro hstatus⟩), if_pos (.inl (by decide))] at hsame
    cases hsame
  · intro h
    have hresult (k : ℕ) (s s' : Stream) (hk : 0 < k)
        (hle : k ≤ min (headerBaseLength + identifier.length) response.length)
        (hrecv : recv (.result none) (headerBaseLength + identifier.length) s =
          .ok (response.take k, s')) :
        (finish identifier s).map Prod.fst =
          if response.headD 0 ≠ 0 then .error (.result none) else .ok () := by
      rw [hmap k s s' hk hle hrecv]
      rcases h with hstatus | hshort
      · rw [if_pos (.inr hstatus), if_pos hstatus]
      · have hpos := sockStatus_pos hk (by omega)
        simp only [hpos, false_or]
    exact cutproof_of_recv (Nat.add_pos_left (by decide) _) (fun _ => bind_error) hresult

end C

/-! ### C++ -/

theorem le32At_eq_zero_iff {bytes : Bytes} {i : ℕ} :
    le32At bytes i = 0 ↔ ∀ j, i ≤ j → j < i + 4 → bytes.getD j 0 = 0 := by
  rw [le32At, leNat_eq_zero_iff]
  constructor
  · intro h j hij hj
    rw [List.getD_eq_getElem?_getD]
    rcases hget : bytes[j]? with _ | b
    · rfl
    · refine h b (List.mem_iff_getElem?.mpr ⟨j - i, ?_⟩)
      rw [List.getElem?_take, if_pos (by omega), List.getElem?_drop, ← hget]
      congr 1
      omega
  · intro h b hb
    obtain ⟨j, hj⟩ := List.mem_iff_getElem?.mp hb
    rw [List.getElem?_take] at hj
    split_ifs at hj with hlt
    rw [List.getElem?_drop] at hj
    have hzero := h (i + j) (by omega) (by omega)
    rwa [List.getD_eq_getElem?_getD, hj] at hzero

namespace Cpp

variable {n k : ℕ} {response : Bytes} {s : Stream}

theorem length_filled (hk : k ≤ min n response.length) : (filled n k response).length = n := by
  rw [filled, List.length_append, List.length_take, List.length_replicate]
  omega

theorem getD_filled (hk : k ≤ response.length) (j : ℕ) :
    (filled n k response).getD j 0 = if j < k then response.getD j 0 else 0 := by
  have hlength : (response.take k).length = k := by
    rw [List.length_take]
    omega
  rw [filled, List.getD_eq_getElem?_getD, List.getD_eq_getElem?_getD]
  split_ifs with hj
  · rw [List.getElem?_append_left (by omega), List.getElem?_take, if_pos hj]
  · rw [List.getElem?_append_right (by omega), List.getElem?_replicate]
    split_ifs <;> rfl

theorem headD_filled (hk : 0 < k) (hle : k ≤ response.length) :
    (filled n k response).headD 0 = response.headD 0 := by
  obtain ⟨k, rfl⟩ : ∃ j, k = j + 1 := ⟨k - 1, by omega⟩
  cases response with
  | nil => exact absurd hle (Nat.not_succ_le_zero k)
  | cons b response => rfl

theorem checkRecv_of_recv {context : String} {s' : Stream} (hk : k ≤ min n response.length)
    (h : recv (.raised .client ("Connection closed while receiving " ++ context)) n s =
      .ok (response.take k, s')) : checkRecv n context s = .ok (filled n k response, s') := by
  rw [checkRecv, bind_ok h, List.length_take, Nat.min_eq_left (by omega)]
  rfl

theorem cutproof_of_checkRecv {α : Type} {r : ClientReader α} {context : String} {e : ClientError}
    {result : Except ClientError α} (hn : 0 < n)
    (herror : ∀ s, checkRecv n context s =
      .error (.raised .client ("Connection closed while receiving " ++ context)) → r s = .error e)
    (hok : ∀ k s s', 0 < k → k ≤ min n response.length →
      checkRecv n context s = .ok (filled n k response, s') → (r s).map Prod.fst = result) :
    Cutproof r response :=
  cutproof_of_recv hn (fun s h => herror s (bind_error h))
    fun k s s' hk hle h => hok k s s' hk hle (checkRecv_of_recv hle h)

theorem exists_checkRecv_cut (context : String) (hk : 0 < k) (hle : k ≤ min n response.length) :
    ∃ s', checkRecv n context (cut k response) = .ok (filled n k response, s') := by
  obtain ⟨s', hrecv⟩ := exists_recv_cut _ hk hle
  exact ⟨s', checkRecv_of_recv hle hrecv⟩

theorem le_length_of_checkRecv {context : String} {buf : Bytes} {s' : Stream}
    (h : checkRecv n context s = .ok (buf, s')) : n ≤ buf.length := by
  obtain ⟨received, s₁, -, h⟩ := exists_of_bind_ok h
  cases h
  rw [List.length_append, List.length_replicate]
  omega

theorem checkRecv_nil (context : String) (hs : s.flatten = []) :
    checkRecv n context s =
      .error (.raised .client ("Connection closed while receiving " ++ context)) :=
  bind_error (recv_nil hs)

/-- The status comes with the first piece. -/
theorem cutproof_finish (fileName : String) (identifier response : Bytes) :
    Cutproof (finish fileName identifier) response := by
  have hresult (k : ℕ) (s s' : Stream) (hk : 0 < k)
      (hle : k ≤ min (headerBaseLength + identifier.length) response.length)
      (hrecv : checkRecv (headerBaseLength + identifier.length) "response header" s =
        .ok (filled (headerBaseLength + identifier.length) k response, s')) :
      (finish fileName identifier s).map Prod.fst =
        if response.headD 0 ≠ 0 then
          .error (.raised .client (errorMessage (signedByte (response.headD 0)) fileName))
        else .ok () := by
    rw [finish, bind_ok hrecv, headD_filled hk (by omega)]
    split_ifs <;> rfl
  exact cutproof_of_checkRecv (Nat.add_pos_left (by decide) _) (fun _ => bind_error) hresult

/-! A header that has come in part announces no data if the whole of it does not. -/

theorem le32At_filled {i K : ℕ} (hk : k ≤ K) (hK : K ≤ response.length)
    (h : le32At (filled n K response) i = 0) : le32At (filled n k response) i = 0 := by
  rw [le32At_eq_zero_iff] at h ⊢
  intro j hij hj
  have hzero := h j hij hj
  rw [getD_filled hK] at hzero
  rw [getD_filled (by omega)]
  split_ifs with hlt
  · rwa [if_pos (by omega)] at hzero
  · rfl

theorem le32At_filled_of_le {i : ℕ} (hk : k ≤ i) (hle : k ≤ response.length) :
    le32At (filled n k response) i = 0 := by
  rw [le32At_eq_zero_iff]
  intro j hij _
  rw [getD_filled hle, if_neg (by omega)]

theorem noData_filled_one (hn : headerBaseLength ≤ n) (hk : k ≤ min n response.length)
    (hone : k ≤ 1) : NoData (filled n k response) := by
  rw [headerBaseLength] at hn
  rw [NoData, length_filled hk, getD_filled (by omega), if_neg (by omega)]
  exact ⟨show 2 + 0 + 4 ≤ n by omega, le32At_filled_of_le (by change k ≤ 2 + 0; omega) (by omega)⟩

theorem noData_filled {K : ℕ} (hn : headerBaseLength ≤ n) (hk : k ≤ K)
    (hK : K ≤ min n response.length) (h : NoData (filled n K response)) :
    NoData (filled n k response) := by
  rcases Nat.lt_or_ge 1 k with hlt | hle
  · rw [NoData, length_filled hK, getD_filled (by omega), if_pos (by omega)] at h
    rw [NoData, length_filled (by omega), getD_filled (by omega), if_pos hlt]
    exact ⟨h.1, le32At_filled hk (by omega) h.2⟩
  · exact noData_filled_one hn (by omega) hle

section

variable {fileName : String} {identifier header : Bytes} {s' : Stream}
  (hrecv : checkRecv (headerBaseLength + identifier.length) "response header" s =
    .ok (header, s'))

include hrecv

theorem download_of_status (hstatus : header.headD 0 ≠ 0) :
    linaDownloadFile fileName identifier s =
      .error (.raised .client (errorMessage (signedByte (header.headD 0)) fileName)) := by
  rw [linaDownloadFile, bind_ok hrecv, if_pos hstatus]
  rfl

theorem download_of_noData (hstatus : header.headD 0 = 0) (h : NoData header) :
    linaDownloadFile fileName identifier s = .ok ([], s') := by
  rw [linaDownloadFile, bind_ok hrecv, if_neg (not_not_intro hstatus)]
  dsimp only
  rw [if_neg (not_lt.mpr h.1), h.2, if_neg (Nat.lt_irrefl 0)]
  rfl

theorem noData_of_download (hstatus : header.headD 0 = 0)
    (h : (linaDownloadFile fileName identifier s).map Prod.fst = .ok []) : NoData header := by
  obtain ⟨rest, h⟩ := exists_of_map_fst_ok h
  rw [linaDownloadFile, bind_ok hrecv, if_neg (not_not_intro hstatus)] at h
  dsimp only at h
  by_cases hshort : header.length < 2 + (header.getD 1 0).toNat + 4
  · rw [if_pos hshort] at h
    cases h
  rw [if_neg hshort] at h
  by_cases hdlen : le32At header (2 + (header.getD 1 0).toNat) > 0
  · -- data that is announced is not empty
    rw [if_pos hdlen] at h
    obtain ⟨data, s₁, hdata, h⟩ := exists_of_bind_ok h
    have hlength := le_length_of_checkRecv hdata
    split_ifs at h
    · cases h
    · cases h
    · cases h
      rw [List.length_nil] at hlength
      omega
  · exact ⟨not_lt.mp hshort, Nat.eq_zero_of_not_pos hdlen⟩

end

/-- The data must not be missed. -/
theorem cutproof_download_iff (fileName : String) (identifier response : Bytes) :
    Cutproof (linaDownloadFile fileName identifier) response ↔ response.headD 0 ≠ 0 ∨
      NoData (filled (headerBaseLength + identifier.length)
        (min (headerBaseLength + identifier.length) response.length) response) := by
  have hbase : headerBaseLength ≤ headerBaseLength + identifier.length := Nat.le_add_right _ _
  have hn : 0 < headerBaseLength + identifier.length := Nat.add_pos_left (by decide) _
  constructor
  · -- a piece with the status alone announces no data
    intro h
    refine or_iff_not_imp_left.mpr fun hstatus => ?_
    rw [not_not] at hstatus
    by_cases hne : response = []
    · subst hne
      exact noData_filled_one hbase (Nat.le_refl _) (by simp)
    have hpos : 0 < min (headerBaseLength + identifier.length) response.length :=
      lt_min hn (List.length_pos_iff.mpr hne)
    obtain ⟨s', hs⟩ := exists_checkRecv_cut "response header" Nat.one_pos hpos
    obtain ⟨t', ht⟩ := exists_checkRecv_cut "response header" hpos (Nat.le_refl _)
    have hsame := h _ _ (flatten_cut 1 response)
      (flatten_cut (min (headerBaseLength + identifier.length) response.length) response)
    rw [download_of_noData hs (by rw [headD_filled Nat.one_pos (by omega), hstatus])
      (noData_filled_one hbase hpos (Nat.le_refl 1))] at hsame
    exact noData_of_download ht (by rw [headD_filled hpos (by omega), hstatus]) hsame.symm
  · intro h
    have hresult (k : ℕ) (s s' : Stream) (hk : 0 < k)
        (hle : k ≤ min (headerBaseLength + identifier.length) response.length)
        (hrecv : checkRecv (headerBaseLength + identifier.length) "response header" s =
          .ok (filled (headerBaseLength + identifier.length) k response, s')) :
        (linaDownloadFile fileName identifier s).map Prod.fst =
          if response.headD 0 ≠ 0 then
            .error (.raised .client (errorMessage (signedByte (response.headD 0)) fileName))
          else .ok [] := by
      have hhead := headD_filled (n := headerBaseLength + identifier.length) hk
        (hle.trans (Nat.min_le_right _ _))
      by_cases hstatus : response.headD 0 = 0
      · have hnoData := h.resolve_left (not_not_intro hstatus)
        rw [if_neg (not_not_intro hstatus), download_of_noData hrecv (hhead.trans hstatus)
          (noData_filled hbase hle (Nat.le_refl _) hnoData)]
        rfl
      · rw [if_pos hstatus, download_of_status hrecv (by rwa [hhead]), hhead]
        rfl
    exact cutproof_of_checkRecv hn (fun _ => bind_error) hresult

end Cpp

/-! ## Handshakes -/

section

variable {α β : Type} {r : ClientReader α} {f : α → β} {response : Bytes}

theorem map_fst_bind_pure (r : ClientReader α) (f : α → β) (s : Stream) :
    ((r >>= fun a => pure (f a)) s).map Prod.fst = ((r s).map Prod.fst).map f := by
  rcases hr : r s with e | ⟨a, s'⟩
  · rw [bind_error hr]
    rfl
  · rw [bind_ok hr]
    rfl

theorem except_map_injective {ε : Type} (hf : Function.Injective f) :
    Function.Injective (Except.map f : Except ε α → Except ε β) := by
  rintro (e | a) (e' | a') h
  · rw [Except.error.inj h]
  · cases h
  · cases h
  · rw [hf (Except.ok.inj h)]

/-- What is made of a result does not matter, if it tells the results apart. -/
theorem cutproof_bind_pure_iff (hf : Function.Injective f) :
    Cutproof (r >>= fun a => pure (f a)) response ↔ Cutproof r response := by
  have hiff (s t : Stream) :
      ((r >>= fun a => pure (f a)) s).map Prod.fst = ((r >>= fun a => pure (f a)) t).map Prod.fst ↔
        (r s).map Prod.fst = (r t).map Prod.fst := by
    rw [map_fst_bind_pure, map_fst_bind_pure, (except_map_injective hf).eq_iff]
  exact ⟨fun h s t hs ht => (hiff s t).mp (h s t hs ht),
    fun h s t hs ht => (hiff s t).mpr (h s t hs ht)⟩

end

namespace Python

variable {R : Runtimes} {self : LiNaStoreClient} {response : Bytes}

theorem handshake_of_recv {k : ℕ} {s s' : Stream} (hk : k < headerBaseLength)
    (hle : k ≤ response.length)
    (h : recv (incompleteHeader 0) headerBaseLength s = .ok (response.take k, s')) :
    linaHandshake R self s = .error (incompleteHeader k) := by
  have hheader : recvHeader s = .error (incompleteHeader k) := by
    rw [recvHeader, bind_ok h, List.length_take, Nat.min_eq_left hle, if_pos hk]
    rfl
  exact bind_error hheader

/-- A header that has come in part is refused, with its length. -/
theorem cutproof_handshake_iff (R : Runtimes) (self : LiNaStoreClient) (response : Bytes) :
    Cutproof (linaHandshake R self) response ↔ response.length ≤ 1 := by
  constructor
  · intro h
    by_contra! hlong
    have hle {k : ℕ} (hk : k ≤ 2) : k ≤ min headerBaseLength response.length :=
      le_min (hk.trans (by decide)) (by omega)
    obtain ⟨s', hs⟩ := exists_recv_cut (incompleteHeader 0) Nat.one_pos (hle (by decide))
    obtain ⟨t', ht⟩ := exists_recv_cut (incompleteHeader 0) Nat.two_pos (hle (Nat.le_refl 2))
    have hsame := h _ _ (flatten_cut 1 response) (flatten_cut 2 response)
    rw [handshake_of_recv (by decide) (by omega) hs,
      handshake_of_recv (by decide) hlong ht] at hsame
    exact absurd (Except.error.inj hsame) (by decide)
  · intro h
    have hresult (k : ℕ) (s s' : Stream) (hk : 0 < k)
        (hle : k ≤ min headerBaseLength response.length)
        (hrecv : recv (incompleteHeader 0) headerBaseLength s = .ok (response.take k, s')) :
        (linaHandshake R self s).map Prod.fst = .error (incompleteHeader 1) := by
      obtain rfl : k = 1 := by omega
      rw [handshake_of_recv (by decide) (by omega) hrecv]
      rfl
    exact cutproof_of_recv (by decide) (fun _ h => bind_error (bind_error h)) hresult

end Python

namespace Cpp

variable {self : LiNaClient} {header : Bytes} {s s' : Stream}

theorem handshake_of_error {e : ClientError} (h : (handshakeSteps self).run s = .error e) :
    linaHandshake self s = .error (caught e) := by
  rw [linaHandshake, h]
  rfl

/-- The message for a header that announces no data. -/
def noDataMessage (status : UInt8) : String :=
  if status ≠ 0 then "Authentication failed with status: " ++ toString (status.toNat : ℤ)
  else "Empty auth response received"

/-- What holds of the three messages and of the common one holds of all. -/
theorem authMessage_induction (P : String → Prop) (hpassword : P "Invalid password")
    (hdisabled : P "Authentication disabled") (hinternal : P "Internal server error")
    {other : String} (hother : P other) (code : ℤ) : P (authMessage code other) := by
  unfold authMessage
  split_ifs
  · exact hpassword
  · exact hdisabled
  · exact hinternal
  · exact hother

theorem checkRecv_cases (n : ℕ) (context : String) (s : Stream) :
    checkRecv n context s =
        .error (.raised .client ("Connection closed while receiving " ++ context)) ∨
      ∃ buf s', checkRecv n context s = .ok (buf, s') := by
  by_cases hs : s.flatten = []
  · exact .inl (checkRecv_nil context hs)
  · obtain ⟨s', hread, -⟩ := Stream.exists_read_first n hs
    refine .inr ⟨_, s', bind_ok (a := s.first.take n) ?_⟩
    rw [recv, hread]

/-! The messages for data are told apart from the others by one character: those for a bad status
by the one behind `Authentication failed with`, the others by their first one. -/

theorem errorCode_message (code : ℤ) :
    (authMessage code ("Authentication failed with error code: " ++ toString code)).toList[27]? ≠
      some 's' := by
  refine authMessage_induction (fun m => m.toList[27]? ≠ some 's') (by decide) (by decide)
    (by decide) ?_ code
  rw [String.toList_append, List.getElem?_append_left (by decide)]
  decide

theorem handshakeStatus_message (code : ℤ) :
    (authMessage code ("Handshake failed with status: " ++ toString code)).toList[0]? ≠
      some 'E' := by
  refine authMessage_induction (fun m => m.toList[0]? ≠ some 'E') (by decide) (by decide)
    (by decide) ?_ code
  rw [String.toList_append, List.getElem?_append_left (by decide)]
  decide

/-- What is made of data is a session, or one of the messages for data. -/
theorem session_message {data : Bytes} {e : ClientError}
    (h : (handshakeSteps self).session data = .error e) :
    ∃ m : String, e = .result (some m) ∧ m.toList[0]? ≠ some 'E' := by
  unfold HandshakeSteps.session at h
  dsimp only at h
  split_ifs at h
  · cases h
    exact ⟨_, rfl, by decide⟩
  · change acceptSession self _ _ = _ at h
    unfold acceptSession at h
    split at h
    · cases h
    · cases h
      exact ⟨_, rfl, by decide⟩
  · cases h
    exact ⟨_, rfl, handshakeStatus_message _⟩

section

variable (hrecv : checkRecv headerBaseLength "handshake response header" s = .ok (header, s'))

include hrecv

theorem handshake_of_noData (hdlen : le32At header 2 = 0) :
    linaHandshake self s = .error (.result (some (noDataMessage (header.headD 0)))) := by
  have hheader : (handshakeSteps self).header s = .ok (header, s') := hrecv
  have hzero : ¬(handshakeSteps self).dlen header > 0 := by
    change ¬((le32At header 2 : ℕ) : ℤ) > 0
    omega
  rw [noDataMessage]
  by_cases hstatus : header.headD 0 = 0
  · have hrun := HandshakeSteps.run_of_header hheader hstatus
    rw [if_neg hzero] at hrun
    rw [handshake_of_error hrun, if_neg (not_not_intro hstatus)]
    rfl
  · have hrun := HandshakeSteps.run_of_status hheader hstatus
    rw [if_neg hzero] at hrun
    rw [handshake_of_error hrun, if_pos hstatus]
    rfl

/-- Data behind a bad status: the message is about the code in it. -/
theorem exists_errorData_message (self : LiNaClient) (hdlen : 0 < le32At header 2)
    (hstatus : header.headD 0 ≠ 0) :
    ∃ m : String, linaHandshake self s = .error (.result (some m)) ∧ m.toList[27]? ≠ some 's' := by
  have hrun := HandshakeSteps.run_of_status (h := handshakeSteps self) hrecv hstatus
  rw [if_pos (show (handshakeSteps self).dlen header > 0 from Int.natCast_pos.mpr hdlen)] at hrun
  rcases checkRecv_cases (le32At header 2) "error data" s' with hread | ⟨data, s'', hread⟩
  · refine ⟨_, handshake_of_error (hrun.trans (bind_error hread)), by decide⟩
  · refine ⟨_, handshake_of_error (hrun.trans (bind_ok hread)), errorCode_message _⟩

/-- Data behind a good status: if there is a message, it is about the data. -/
theorem responseData_message (hdlen : 0 < le32At header 2) (hstatus : header.headD 0 = 0)
    {m : String} (hm : (linaHandshake self s).map Prod.fst = .error (.result (some m))) :
    m.toList[0]? ≠ some 'E' := by
  have hrun := HandshakeSteps.run_of_header (h := handshakeSteps self) hrecv hstatus
  rw [if_pos (show (handshakeSteps self).dlen header > 0 from Int.natCast_pos.mpr hdlen)] at hrun
  rcases checkRecv_cases (le32At header 2) "handshake response data" s' with
    hread | ⟨data, s'', hread⟩
  · rw [handshake_of_error (hrun.trans (bind_error hread))] at hm
    cases hm
    decide
  · have hrun := hrun.trans (bind_ok hread)
    rw [lift_apply] at hrun
    cases hsession : (handshakeSteps self).session data with
    | ok a =>
      rw [linaHandshake, hrun, hsession] at hm
      cases hm
    | error e =>
      obtain ⟨m', rfl, hm'⟩ := session_message hsession
      rw [linaHandshake, hrun, hsession] at hm
      cases hm
      exact hm'

/-- With data, there is another message, or none. -/
theorem handshake_ne_of_data (self : LiNaClient) (hdlen : 0 < le32At header 2) :
    (linaHandshake self s).map Prod.fst ≠
      .error (.result (some (noDataMessage (header.headD 0)))) := by
  intro h
  by_cases hstatus : header.headD 0 = 0
  · refine responseData_message hrecv hdlen hstatus h ?_
    rw [noDataMessage, if_neg (not_not_intro hstatus)]
    decide
  · obtain ⟨m, hrun, hm⟩ := exists_errorData_message hrecv self hdlen hstatus
    rw [hrun] at h
    cases h
    refine hm ?_
    rw [noDataMessage, if_pos hstatus, String.toList_append,
      List.getElem?_append_left (by decide)]
    decide

end

/-- The data must not be missed. -/
theorem cutproof_handshake_iff (self : LiNaClient) (response : Bytes) :
    Cutproof (linaHandshake self) response ↔
      le32At (filled headerBaseLength (min headerBaseLength response.length) response) 2 = 0 := by
  constructor
  · intro h
    by_cases hne : response = []
    · subst hne
      exact le32At_filled_of_le (Nat.zero_le 2) (Nat.zero_le 0)
    by_contra hdlen
    have hpos : 0 < min headerBaseLength response.length :=
      lt_min (by decide) (List.length_pos_iff.mpr hne)
    obtain ⟨s', hs⟩ := exists_checkRecv_cut "handshake response header" Nat.one_pos hpos
    obtain ⟨t', ht⟩ := exists_checkRecv_cut "handshake response header" hpos (Nat.le_refl _)
    have hsame := h _ _ (flatten_cut 1 response)
      (flatten_cut (min headerBaseLength response.length) response)
    have hother := handshake_ne_of_data ht self (Nat.pos_of_ne_zero hdlen)
    rw [handshake_of_noData hs (le32At_filled_of_le (by decide) (by omega)),
      headD_filled Nat.one_pos (by omega)] at hsame
    rw [headD_filled hpos (by omega)] at hother
    exact hother hsame.symm
  · intro h
    have hresult (k : ℕ) (s s' : Stream) (hk : 0 < k)
        (hle : k ≤ min headerBaseLength response.length)
        (hrecv : checkRecv headerBaseLength "handshake response header" s =
          .ok (filled headerBaseLength k response, s')) :
        (linaHandshake self s).map Prod.fst =
          .error (.result (some (noDataMessage (response.headD 0)))) := by
      rw [handshake_of_noData hrecv (le32At_filled hle (by omega) h), headD_filled hk (by omega)]
      rfl
    exact cutproof_of_checkRecv (by decide) (fun _ h => handshake_of_error (bind_error h)) hresult

end Cpp

/-! ## All clients -/

theorem Python.opened_injective : Function.Injective
    (fun result : Except LibraryError ((String × ℤ) × LiNaStoreClient) =>
      result.map fun r => (⟨utf8 r.1.1, r.1.2, .python r.2⟩ : OpenedSession)) := by
  refine except_map_injective ?_
  rintro ⟨⟨token, expiresAt⟩, self⟩ ⟨⟨token', expiresAt'⟩, self'⟩ h
  obtain ⟨htoken, rfl, ⟨⟩⟩ := OpenedSession.mk.inj h
  obtain rfl : token = token' := utf8_injective htoken
  rfl

theorem Cpp.opened_injective : Function.Injective
    (fun r : (Bytes × UInt64) × LiNaClient =>
      (.ok ⟨r.1.1, r.1.2.toNat, .cpp r.2⟩ : Except LibraryError OpenedSession)) := by
  rintro ⟨⟨token, expiresAt⟩, self⟩ ⟨⟨token', expiresAt'⟩, self'⟩ h
  obtain ⟨rfl, hexpires, ⟨⟩⟩ := OpenedSession.mk.inj (Except.ok.inj h)
  obtain rfl : expiresAt = expiresAt' := UInt64.toNat_inj.mp (Int.ofNat.inj hexpires)
  rfl

/-- The result of an operation is the same for all ways to cut the response into pieces, if and only
    if the pieces make no difference to the client. -/
theorem segmentation_iff (R : Runtimes) (client : ClientState) (fileName : String)
    (identifier response : Bytes) (op : Operation) :
    Cutproof (client.receive R fileName identifier op) response ↔
      client.Uncut identifier response op := by
  cases client with
  | python self =>
    cases op with
    | upload => exact iff_of_true ((Python.uniform_finish _ _).cutproof _) trivial
    | download => exact iff_of_true ((Python.uniform_download _ _).cutproof _) trivial
    | delete => exact iff_of_true ((Python.uniform_finish _ _).cutproof _) trivial
    | handshake =>
      exact (cutproof_bind_pure_iff Python.opened_injective).trans
        (Python.cutproof_handshake_iff R self response)
  | c client =>
    cases op with
    | upload => exact C.cutproof_finish_iff identifier response
    | download => exact iff_of_true ((C.uniform_download _).cutproof _) trivial
    | delete => exact C.cutproof_finish_iff identifier response
    | handshake =>
      exact iff_of_true (((C.uniform_handshake client).bind fun _ => .pure _).cutproof _) trivial
  | cpp self =>
    cases op with
    | upload => exact iff_of_true (Cpp.cutproof_finish _ _ _) trivial
    | download => exact Cpp.cutproof_download_iff fileName identifier response
    | delete => exact iff_of_true (Cpp.cutproof_finish _ _ _) trivial
    | handshake =>
      exact (cutproof_bind_pure_iff Cpp.opened_injective).trans
        (Cpp.cutproof_handshake_iff self response)
  | java self =>
    cases op with
    | upload => exact iff_of_true ((Java.uniform_finish _ _ _ _).cutproof _) trivial
    | download => exact iff_of_true ((Java.uniform_download _ _).cutproof _) trivial
    | delete => exact iff_of_true ((Java.uniform_finish _ _ _ _).cutproof _) trivial
    | handshake =>
      exact iff_of_true (((Java.uniform_handshake R self).bind fun _ => .pure _).cutproof _) trivial

/-- The response to a download of `a`, with one byte of data. -/
def oneByte : Bytes :=
  [0, 1, 97, 1, 0, 0, 0, 0x8B, 0xD8, 0x0D, 0x9B, 120]

/-- A response of one byte of data, whole and with the status in a piece of its own: the C++ client
    returns the byte, and nothing. -/
theorem download_cut :
    (Cpp.linaDownloadFile "a" [97] [oneByte]).map Prod.fst = .ok [120] ∧
    (Cpp.linaDownloadFile "a" [97] [oneByte.take 1, oneByte.drop 1]).map Prod.fst = .ok [] := by
  decide +kernel

end LiNaStore
