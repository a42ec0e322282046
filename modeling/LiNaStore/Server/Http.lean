import LiNaStore.Library.Slash
import LiNaStore.Server.Names

/-!
# The HTTP front end

Objects can be read over plain HTTP as well (`handleHttp`), with the bucket and the key in
the path as in the S3 front end. The two were written apart. The HTTP front end takes the
query for a part of the key, answers with success whatever the worker has found, and derives
the type of the content from the name of the object in the store, which has no extension.

So the two give the same answer if and only if there is no query, and the object is either
not known to the mapper, or is in the store and has a key whose extension one of them does
not know (`http_s3_agree_iff`).
-/

namespace LiNaStore

open Program

/-! ## Requests -/

namespace Http

def getMimeType (filename : String) : String :=
  match pathExtension filename with
  | "jpeg" | "jpg" => "image/jpeg"
  | "png" => "image/png"
  | "mp4" => "video/mp4"
  | "pdf" => "application/pdf"
  | "txt" => "text/plain"
  | "json" => "application/json"
  | "html" => "text/html"
  | "css" => "text/css"
  | "js" => "application/javascript"
  | "svg" => "image/svg+xml"
  | "webp" => "image/webp"
  | "gif" => "image/gif"
  | "ico" => "image/x-icon"
  | "xml" => "application/xml"
  | _ => "application/octet-stream"

/-- A response with a text and no headers of its own. -/
def plainResponse (status : ℕ) (body : String) : HttpResponse := ⟨status, [], utf8 body⟩

def resolveWithMapper (bucket key : String) : ServerProg (Except HttpResponse String) := do
  match ← (ask (.resolve bucket key)).attempt with
  | .ok (some internal) => return .ok internal
  | .error .mapperUnavailable => return .error (plainResponse 500 "Mapper unavailable")
  | _ => return .error (plainResponse 404 "Not Found")

/-- The bucket and the key in what follows the first slash. The query is not cut off. -/
def address (path : String) : Option (String × String) :=
  match path.toList.splitOn '/' with
  | bucket :: part :: parts => some (.ofList bucket, .ofList (['/'].intercalate (part :: parts)))
  | [key] => some (defaultBucket, .ofList key)
  | [] => none

/-- The order for a file. -/
def filePkg (d : FrontDraws) (fileIdentifier : String) : Package :=
  let package := Package.newWithId d.uniId.bytes
  { package with
    behavior := .getFile, content := { package.content with identifier := utf8 fileIdentifier } }

theorem identifier_filePkg (d : FrontDraws) (fileIdentifier : String) :
    (filePkg d fileIdentifier).content.identifier = utf8 fileIdentifier := rfl

/-- The response with a file; the status of the package is not looked at. -/
def fileResponse (pkg : Package) : HttpResponse :=
  let contentType := getMimeType (fromUtf8Lossy (splitNul pkg.content.identifier).1)
  ⟨200, [("X-Content-Type-Options", "nosniff"), ("X-Frame-Options", "DENY"),
    ("Content-Type", contentType), ("Content-Length", toString pkg.content.data.length)],
    pkg.content.data⟩

/-- Give the order for a file and wait for the answer. -/
def fetch (d : FrontDraws) (fileIdentifier : String) : ServerProg HttpResponse := do
  match ← (ask (.order d.worker (filePkg d fileIdentifier))).attempt with
  | .ok pkg => return fileResponse pkg
  | .error .channelClosed => return plainResponse 500 "Channel closed unexpectedly"
  | .error .timeout => return plainResponse 408 "Request timeout"
  | .error _ => return plainResponse 500 "Failed to process request"

end Http

/-- What follows the first slash of a request. -/
def httpPath (uri : String) : String := (stripFront "/" uri).getD uri

/-- Serve a request. -/
def handleHttp (d : FrontDraws) (method : Method) (uri : String) : ServerProg HttpResponse :=
  if method ≠ .get then pure (Http.plainResponse 405 "Method Not Allowed")
  else if httpPath uri = "" then pure (Http.plainResponse 200 "LiNastore is running")
  else match Http.address (httpPath uri) with
    | some (bucket, key) => do
      match ← Http.resolveWithMapper bucket key with
      | .ok fileIdentifier => Http.fetch d fileIdentifier
      | .error resp => return resp
    | none => pure (Http.plainResponse 400 "Invalid URL")

/-! ## Reading over both -/

/-- A request for a bucket and a key, possibly with a query. -/
structure ReadUri where
  bucket : String
  key : String
  query : String
  slash_notMem_bucket : '/' ∉ bucket.toList
  mark_notMem_bucket : '?' ∉ bucket.toList
  mark_notMem_key : '?' ∉ key.toList
  query_eq : query = "" ∨ ∃ parameters, query.toList = '?' :: parameters

/-- The request as it is sent. -/
def ReadUri.uri (u : ReadUri) : String :=
  .ofList ('/' :: u.bucket.toList ++ '/' :: u.key.toList ++ u.query.toList)

/-- The object that a request over HTTP is for. -/
def httpAddress (uri : String) : Option (String × String) := Http.address (httpPath uri)

def HttpResponse.contentType (response : HttpResponse) : Option String :=
  response.headers.lookup "Content-Type"

/-- Both front ends know the extension of a key. -/
def MimeKnown (key : String) : Prop :=
  getMimeType key ≠ "application/octet-stream" ∧ Http.getMimeType key ≠ "application/octet-stream"

/-- The responses agree: both succeed or none does, with the same data, and with the same type if
    both front ends know the extension of the key. -/
structure SameResponse (key : String) (http s3 : HttpResponse) : Prop where
  status : http.status = 200 ↔ s3.status = 200
  body : http.status = 200 → s3.status = 200 → http.body = s3.body
  contentType : http.status = 200 → s3.status = 200 → MimeKnown key →
    http.contentType = s3.contentType

/-- A request is for the same object in both front ends, and the responses agree. -/
def SameRead (E : Engine) (sv : Server) (d d' : FrontDraws) (body : Option Bytes) (u : ReadUri) :
    Prop :=
  httpAddress u.uri = s3Address u.uri ∧
    ∃ http s3, (handleHttp d .get u.uri).run (ServerPrim.step E) sv = (.ok http, sv) ∧
      (handleS3 d' .get u.uri body).run (ServerPrim.step E) sv = (.ok s3, sv) ∧
      SameResponse u.key http s3

/-! ## Paths -/

theorem stripFront_slash (rest : List Char) :
    stripFront "/" (.ofList ('/' :: rest)) = some (.ofList rest) := by
  have hfront : "/".toList <+: (String.ofList ('/' :: rest)).toList :=
    ⟨rest, String.toList_ofList.symm⟩
  rw [stripFront, if_pos hfront, String.toList_ofList]
  rfl

namespace ReadUri

variable (u : ReadUri)

theorem mark_notMem : '?' ∉ '/' :: u.bucket.toList ++ '/' :: u.key.toList := by
  simp [u.mark_notMem_bucket, u.mark_notMem_key]

/-- The S3 front end cuts the query off. -/
theorem splitUri_uri :
    (splitUri u.uri).1 = .ofList ('/' :: u.bucket.toList ++ '/' :: u.key.toList) := by
  have hhead : (splitOnChar '?' u.uri).head? =
      some (.ofList ('/' :: u.bucket.toList ++ '/' :: u.key.toList)) := by
    rw [splitOnChar, uri, String.toList_ofList]
    rcases u.query_eq with hquery | ⟨parameters, hquery⟩
    · rw [hquery, String.toList_empty, List.append_nil, Slash.splitOn_of_notMem u.mark_notMem]
      rfl
    · rw [hquery, Slash.splitOn_append_cons u.mark_notMem]
      rfl
  rw [splitUri, List.headD_eq_head?_getD, hhead]
  rfl

theorem s3Address_uri : s3Address u.uri = some (u.bucket, u.key) := by
  have hslash : ∀ c ∈ u.bucket.toList, decide (c ≠ '/') = true :=
    fun c hc => decide_eq_true (ne_of_mem_of_not_mem hc u.slash_notMem_bucket)
  have htake : (u.bucket.toList ++ '/' :: u.key.toList).takeWhile (fun c => decide (c ≠ '/')) =
      u.bucket.toList := by
    rw [List.takeWhile_append_of_pos hslash, List.takeWhile_cons_of_neg (by decide),
      List.append_nil]
  have hdrop : (u.bucket.toList ++ '/' :: u.key.toList).dropWhile (fun c => decide (c ≠ '/')) =
      '/' :: u.key.toList := by
    rw [List.dropWhile_append_of_pos hslash, List.dropWhile_cons_of_neg (by decide)]
  have hne : String.ofList (u.bucket.toList ++ '/' :: u.key.toList) ≠ "" := by
    intro h
    have hlist := congrArg String.toList h
    rw [String.toList_ofList] at hlist
    exact absurd hlist (by simp)
  delta s3Address
  rw [splitUri_uri]
  simp only [parseS3Path, List.cons_append, stripFront_slash, Option.getD_some, if_neg hne,
    String.toList_ofList, htake, hdrop, String.ofList_toList]

/-- The HTTP front end takes the query for a part of the key. -/
theorem httpAddress_uri :
    httpAddress u.uri = some (u.bucket, .ofList (u.key.toList ++ u.query.toList)) := by
  have hsplit : (u.key.toList ++ u.query.toList).splitOn '/' ≠ [] :=
    List.splitOnP_ne_nil _ _
  have hjoin : ['/'].intercalate ((u.key.toList ++ u.query.toList).splitOn '/') =
      u.key.toList ++ u.query.toList := List.intercalate_splitOn '/'
  rw [httpAddress, httpPath, uri, List.cons_append, List.cons_append, stripFront_slash,
    Option.getD_some, Http.address, String.toList_ofList, List.append_assoc, List.cons_append,
    Slash.splitOn_append_cons u.slash_notMem_bucket]
  rcases hparts : (u.key.toList ++ u.query.toList).splitOn '/' with _ | ⟨part, parts⟩
  · exact absurd hparts hsplit
  · rw [hparts] at hjoin
    simp only [hjoin, String.ofList_toList]

theorem address_eq_iff : httpAddress u.uri = s3Address u.uri ↔ u.query = "" := by
  rw [httpAddress_uri, s3Address_uri, Option.some_inj, Prod.mk_right_inj]
  constructor
  · intro h
    have hlist := congrArg String.toList h
    rw [String.toList_ofList] at hlist
    exact String.toList_eq_nil_iff.mp (List.append_right_eq_self.mp hlist)
  · intro h
    rw [h, String.toList_empty, List.append_nil, String.ofList_toList]

end ReadUri

/-! ## Types -/

theorem digitChar_ne : ∀ n < 16, Nat.digitChar n ≠ '.' ∧ Nat.digitChar n ≠ '/' := by decide

/-- The text of a UUID has neither a dot nor a slash. -/
theorem Uuid.ne_of_mem_chars {u : Uuid} {c : Char} (h : c ∈ u.chars) : c ≠ '.' ∧ c ≠ '/' := by
  have hgroup {i n : ℕ} (h : c ∈ u.group i n) : c ≠ '.' ∧ c ≠ '/' := by
    obtain ⟨b, -, hc⟩ := List.mem_flatMap.mp h
    have hb := b.toNat_lt
    rcases List.mem_cons.mp hc with rfl | hc
    · exact digitChar_ne _ (by omega)
    · obtain rfl := List.mem_singleton.mp hc
      exact digitChar_ne _ (by omega)
  simp only [Uuid.chars, List.mem_append, List.mem_cons] at h
  rcases h with (((h | rfl | h) | rfl | h) | rfl | h) | rfl | h
  all_goals first
    | exact hgroup h
    | decide

/-- It has no extension. -/
theorem Uuid.pathExtension_text (u : Uuid) : pathExtension u.text = "" := by
  have hslash : '/' ∉ u.chars := fun h => (ne_of_mem_chars h).2 rfl
  have hne : u.chars ≠ [] := by
    intro h
    have hlength := u.length_chars
    rw [h] at hlength
    cases hlength
  have hdot : u.chars ≠ ['.'] := by
    intro h
    have hlength := u.length_chars
    rw [h] at hlength
    cases hlength
  have hdrop : u.chars.reverse.dropWhile (fun c => decide (c ≠ '.')) = [] := by
    rw [← List.append_nil u.chars.reverse, List.dropWhile_append_of_pos, List.dropWhile_nil]
    exact fun c hc => decide_eq_true (ne_of_mem_chars (List.mem_reverse.mp hc)).1
  have hfilter : [u.chars].filter (fun part => decide (part ≠ [] ∧ part ≠ ['.'])) = [u.chars] :=
    List.filter_cons_of_pos (decide_eq_true ⟨hne, hdot⟩)
  rw [pathExtension, Uuid.text, String.toList_ofList, Slash.splitOn_of_notMem hslash]
  dsimp only
  rw [hfilter, List.getLast?_singleton]
  dsimp only
  rw [hdrop, List.drop_nil, if_pos rfl, ite_self]

/-- Over HTTP, an object of the front ends always has the type of any data. -/
theorem Http.contentType_fileResponse {pkg : Package} {u : Uuid}
    (h : pkg.content.identifier = utf8 u.text) :
    (fileResponse pkg).contentType = some "application/octet-stream" := by
  have hmime : getMimeType u.text = "application/octet-stream" := by
    rw [getMimeType, u.pathExtension_text]
    rfl
  rw [HttpResponse.contentType, fileResponse, h, splitNul_text, fromUtf8Lossy_utf8, hmime]
  rfl

/-! ## Responses -/

section

variable {E : Engine} {sv : Server} {d : FrontDraws} {method : Method}

/-- What is fetched under a name of a front end. -/
theorem Http.run_fetch (u : Uuid) : (Http.fetch d u.text).run (ServerPrim.step E) sv =
    (.ok (Http.fileResponse (match sv.store.contents E u.text with
      | some data => (Http.filePkg d u.text).answer .success data
      | none => (Http.filePkg d u.text).answer .fileNotFound [])), sv) := by
  have hstep := step_order_get (E := E) d.worker (Http.filePkg d u.text) sv rfl
    (Http.identifier_filePkg d u.text)
  rw [Http.fetch, run_bind, run_attempt, run_perform, hstep]
  rfl

/-- The response to a read over HTTP. -/
theorem run_handleHttp (h : sv.Named) {uri bucket key : String} (hpath : httpPath uri ≠ "")
    (haddress : httpAddress uri = some (bucket, key)) :
    ∃ response, (handleHttp d .get uri).run (ServerPrim.step E) sv = (.ok response, sv) ∧
      match sv.mapper.resolve bucket key with
      | some name => response.status = 200 ∧
        response.body = (sv.store.contents E name).getD [] ∧
        response.contentType = some "application/octet-stream"
      | none => response.status = 404 := by
  rw [httpAddress] at haddress
  rw [handleHttp, if_neg (not_not_intro rfl), if_neg hpath, haddress]
  dsimp only
  rw [run_bind, Http.resolveWithMapper, run_bind, run_attempt, run_perform, ServerPrim.step,
    ServerPrim.stepWith]
  dsimp only
  cases hresolve : sv.mapper.resolve bucket key with
  | none => exact ⟨_, rfl, rfl⟩
  | some name =>
    obtain ⟨u, rfl⟩ := h name (BucketMapper.mem_names_of_resolve hresolve)
    have hid := Http.identifier_filePkg d u.text
    refine ⟨_, Http.run_fetch u, ?_⟩
    rcases hcontents : sv.store.contents E u.text with _ | data
    · exact ⟨rfl, by rw [hcontents]; rfl, Http.contentType_fileResponse hid⟩
    · exact ⟨rfl, by rw [hcontents]; rfl, Http.contentType_fileResponse hid⟩

/-- No request over HTTP changes the state, so that the states that can be reached are those that
    can be reached without it. -/
theorem state_run_handleHttp (h : sv.Named) (uri : String) :
    ((handleHttp d method uri).run (ServerPrim.step E) sv).2 = sv := by
  by_cases hmethod : method = .get
  · subst hmethod
    by_cases hpath : httpPath uri = ""
    · rw [handleHttp, if_neg (not_not_intro rfl), if_pos hpath]
      rfl
    · rcases haddress : httpAddress uri with _ | ⟨bucket, key⟩
      · rw [httpAddress] at haddress
        rw [handleHttp, if_neg (not_not_intro rfl), if_neg hpath, haddress]
        rfl
      · obtain ⟨response, hrun, -⟩ := run_handleHttp (E := E) (d := d) h hpath haddress
        rw [hrun]
  · rw [handleHttp, if_pos hmethod]
    rfl

end

theorem ReadUri.httpPath_uri_ne (u : ReadUri) : httpPath u.uri ≠ "" := by
  intro h
  have hlist := congrArg String.toList h
  rw [httpPath, uri, List.cons_append, List.cons_append, stripFront_slash, Option.getD_some,
    String.toList_ofList] at hlist
  exact absurd hlist (by simp)

/-- In every state that the front ends can reach, a read over HTTP and one over S3 agree if and
    only if there is no query and, if the mapper knows the object, the object is in the store and
    the extension of its key is not known to both. -/
theorem http_s3_agree_iff {C : Cipher} {E : Engine} {authRequired : Bool} {sv : Server}
    {m : Objects} (h : ServerRun C E Set.univ authRequired (fun _ _ => True) sv m)
    (d d' : FrontDraws) (body : Option Bytes) (u : ReadUri) :
    SameRead E sv d d' body u ↔
      u.query = "" ∧ ∀ name, sv.mapper.resolve u.bucket u.key = some name →
        (sv.store.contents E name).isSome ∧ ¬ MimeKnown u.key := by
  rw [SameRead, u.address_eq_iff]
  refine and_congr_right fun hquery => ?_
  rw [handleS3_object d' .get body u.s3Address_uri]
  dsimp only
  rw [run_getObject_eq h.named]
  obtain ⟨http, hhttp, hresponse⟩ := run_handleHttp (E := E) (d := d) h.named u.httpPath_uri_ne
    ((u.address_eq_iff.mpr hquery).trans u.s3Address_uri)
  rw [hhttp]
  have hmissing : (noSuchKey u.key).status ≠ 200 := by
    change 404 ≠ 200
    decide
  constructor
  · rintro ⟨_, _, ⟨⟩, ⟨⟩, hsame⟩ name hname
    rw [hname] at hresponse hsame
    rcases hcontents : sv.store.contents E name with _ | data
    · -- the object is gone, and only the HTTP front end reports success
      rw [Option.bind_some, hcontents] at hsame
      exact absurd (hsame.status.mp hresponse.1) hmissing
    · rw [Option.bind_some, hcontents] at hsame
      refine ⟨rfl, fun hknown => hknown.1 ?_⟩
      have htype := hsame.contentType hresponse.1 rfl hknown
      rw [hresponse.2.2] at htype
      exact (Option.some.inj htype).symm
  · intro hname
    refine ⟨_, _, rfl, rfl, ?_⟩
    rcases hresolve : sv.mapper.resolve u.bucket u.key with _ | name
    · rw [hresolve] at hresponse
      have hne : http.status ≠ 200 := by
        rw [hresponse]
        decide
      exact ⟨iff_of_false hne hmissing, (absurd · hne), (absurd · hne)⟩
    · obtain ⟨hsome, hknown⟩ := hname name hresolve
      obtain ⟨data, hdata⟩ := Option.isSome_iff_exists.mp hsome
      rw [hresolve] at hresponse
      dsimp only at hresponse
      rw [hdata] at hresponse
      rw [Option.bind_some, hdata]
      exact ⟨iff_of_true hresponse.1 rfl, fun _ _ => hresponse.2.1,
        fun _ _ h => absurd h hknown⟩

/-- The object `a` in the bucket `b`, with an extension that both front ends know if `typed`. -/
def ReadUri.sample (typed : Bool) : ReadUri :=
  ⟨"b", if typed then "a.txt" else "a", "", by decide, by decide, by cases typed <;> decide,
    .inl rfl⟩

/-- An object without an extension is written over S3, and then read over both. -/
theorem http_s3_agree_untyped :
    ∃ sv m, ServerRun .rejecting .plain Set.univ false (fun _ _ => True) sv m ∧
      sv.mapper.names ≠ [] ∧ SameRead .plain sv (.sample 1) (.sample 2) none (.sample false) := by
  have h : ServerRun .rejecting .plain Set.univ false (fun _ _ => True) _ _ :=
    .request (.s3 .put "/b/a" (some [1])) (.sample 0) _ (.start fun _ _ => none)
      ⟨by decide, rfl, rfl⟩ (fun _ _ _ => trivial) trivial rfl
  refine ⟨_, _, h, by decide, (http_s3_agree_iff h _ _ none _).mpr ⟨rfl, fun name hname => ?_⟩⟩
  cases hname
  exact ⟨by decide, fun hknown => hknown.1 (by decide)⟩

/-- A text is written over S3. Then it is read over S3 as a text, and over HTTP as any data. -/
theorem http_s3_types_differ :
    ∃ sv m, ServerRun .rejecting .plain Set.univ false (fun _ _ => True) sv m ∧
      (∃ http s3, (handleHttp (.sample 1) .get "/b/a.txt").run (ServerPrim.step .plain) sv =
          (.ok http, sv) ∧
        (handleS3 (.sample 2) .get "/b/a.txt" none).run (ServerPrim.step .plain) sv = (.ok s3, sv) ∧
        http.status = 200 ∧ s3.status = 200 ∧
        http.contentType = some "application/octet-stream" ∧
        s3.contentType = some "text/plain") ∧
      ¬ SameRead .plain sv (.sample 1) (.sample 2) none (.sample true) := by
  have h : ServerRun .rejecting .plain Set.univ false (fun _ _ => True) _ _ :=
    .request (.s3 .put "/b/a.txt" (some [1])) (.sample 0) _ (.start fun _ _ => none)
      ⟨by decide, rfl, rfl⟩ (fun _ _ _ => trivial) trivial rfl
  refine ⟨_, _, h, ⟨_, _, rfl, rfl, rfl, rfl, by decide, by decide⟩, ?_⟩
  rintro ⟨-, http, s3, hhttp, hs3, hsame⟩
  have htype := hsame.contentType (by cases hhttp; rfl) (by cases hs3; rfl)
    ⟨by decide, by decide⟩
  cases hhttp
  cases hs3
  exact absurd htype (by decide)

end LiNaStore
