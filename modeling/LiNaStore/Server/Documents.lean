import LiNaStore.Server.Listing

/-!
# The documents of the S3 front end

The bodies in XML that the front end sends are lists of buckets, lists of objects and errors
(`S3Document`). Each is made of markup and of strings that come from clients
(`S3Document.pieces`). A document carries a string if the text in its place has no markup in it and
is read as the string (`Escapes`), and it is faithful if it carries all of them (`Renders`).

Escaping makes such a text of every string (`escapes_escapeXml`), so lists are faithful. In an
error the key or the path is written as it is, and the document is faithful exactly if nothing in it
would have to be escaped (`S3Document.faithful_error_iff`). What an error can be about is told by
the request (`errorResource`, `s3_documents_faithful_iff`).
-/

namespace LiNaStore

open Program

/-! ## Texts and what they are read as -/

/-- The predefined entities of XML. -/
def entities : List (List Char × Char) :=
  [("&amp;".toList, '&'), ("&lt;".toList, '<'), ("&gt;".toList, '>'), ("&apos;".toList, '\''),
    ("&quot;".toList, '"')]

/-- The text with its entities read, after as many characters as are left of one. -/
def readEntities : ℕ → List Char → List Char
  | _, [] => []
  | left + 1, _ :: cs => readEntities left cs
  | 0, c :: cs =>
    match entities.find? fun entity => entity.1 <+: c :: cs with
    | some (entity, plain) => plain :: readEntities (entity.length - 1) cs
    | none => c :: readEntities 0 cs

def unescapeXml (text : String) : String := .ofList (readEntities 0 text.toList)

/-- The text has no markup in it: no brackets, no quotes, and no ampersands but those of
    entities. -/
structure IsCharacterData (text : String) : Prop where
  notMem : ∀ c ∈ ['<', '>', '\'', '"'], c ∉ text.toList
  entity : ∀ front back, text.toList = front ++ '&' :: back →
    ∃ entity ∈ entities, entity.1 <+: '&' :: back

/-- The text stands for the string. -/
structure Escapes (text string : String) : Prop where
  isCharacterData : IsCharacterData text
  unescape_eq : unescapeXml text = string

/-- Nothing in the string is to be escaped. -/
def Unmarked (string : String) : Prop := ∀ c ∈ ['&', '<', '>', '\'', '"'], c ∉ string.toList

instance decidableForallNotMem (marks cs : List Char) : Decidable (∀ c ∈ marks, c ∉ cs) :=
  List.decidableBAll _ _

instance (string : String) : Decidable (Unmarked string) :=
  inferInstanceAs (Decidable (∀ c ∈ ['&', '<', '>', '\'', '"'], c ∉ string.toList))

/-- What a character is written as is an entity that is read as it, or the character itself. -/
theorem escapeChar_entity (c : Char) :
    (escapeChar c, c) ∈ entities ∨
      escapeChar c = [c] ∧ ∀ c' ∈ ['&', '<', '>', '\'', '"'], c ≠ c' := by
  by_cases h : c ∈ ['&', '<', '>', '\'', '"']
  · refine .inl ?_
    simp only [List.mem_cons, List.not_mem_nil, or_false] at h
    rcases h with rfl | rfl | rfl | rfl | rfl <;> decide
  · refine .inr ⟨?_, fun c' hc' heq => h (heq ▸ hc')⟩
    rcases escapeChar_cases c with rfl | rfl | rfl | rfl | rfl | ⟨heq, -⟩
    iterate 5 exact absurd (by decide) h
    exact heq

/-- An entity begins with its only ampersand, and has nothing else that is to be escaped. -/
theorem entity_eq_cons {entity : List Char} {plain : Char} (h : (entity, plain) ∈ entities) :
    ∃ name, entity = '&' :: name ∧ 3 ≤ name.length ∧
      ∀ c ∈ ['&', '<', '>', '\'', '"'], c ∉ name := by
  simp only [entities, List.mem_cons, Prod.mk.injEq, List.not_mem_nil, or_false] at h
  rcases h with ⟨rfl, -⟩ | ⟨rfl, -⟩ | ⟨rfl, -⟩ | ⟨rfl, -⟩ | ⟨rfl, -⟩
  · exact ⟨"amp;".toList, rfl, by decide, by decide⟩
  · exact ⟨"lt;".toList, rfl, by decide, by decide⟩
  · exact ⟨"gt;".toList, rfl, by decide, by decide⟩
  · exact ⟨"apos;".toList, rfl, by decide, by decide⟩
  · exact ⟨"quot;".toList, rfl, by decide, by decide⟩

/-- Where an entity stands, it is found: none begins with another. -/
theorem find?_entities {entity : List Char} {plain : Char} (h : (entity, plain) ∈ entities)
    (back : List Char) :
    (entities.find? fun e => e.1 <+: entity ++ back) = some (entity, plain) := by
  have hapart : ∀ e ∈ entities, ∀ e' ∈ entities, e.1 <+: e'.1 → e = e' := by decide
  have hsome : (entities.find? fun e => e.1 <+: entity ++ back).isSome :=
    List.find?_isSome.mpr ⟨(entity, plain), h, decide_eq_true (List.prefix_append entity back)⟩
  obtain ⟨found, hfound⟩ := Option.isSome_iff_exists.mp hsome
  have hmem := List.mem_of_find?_eq_some hfound
  have hdecide := List.find?_some hfound
  have hfront : found.1 <+: entity ++ back := of_decide_eq_true hdecide
  rcases List.prefix_or_prefix_of_prefix hfront (List.prefix_append entity back) with hle | hle
  · rw [hfound, hapart _ hmem _ h hle]
  · rw [hfound, hapart _ h _ hmem hle]

theorem find?_entities_of_ne {c : Char} (h : c ≠ '&') (cs : List Char) :
    (entities.find? fun e => e.1 <+: c :: cs) = none := by
  rw [List.find?_eq_none]
  rintro ⟨entity, plain⟩ hmem
  obtain ⟨name, rfl, -⟩ := entity_eq_cons hmem
  simp [h.symm]

theorem readEntities_length_append (front back : List Char) :
    readEntities front.length (front ++ back) = readEntities 0 back := by
  induction front with
  | nil => rfl
  | cons c front ih => exact ih

theorem readEntities_escapeChar (c : Char) (back : List Char) :
    readEntities 0 (escapeChar c ++ back) = c :: readEntities 0 back := by
  rcases escapeChar_entity c with h | ⟨heq, hne⟩
  · obtain ⟨name, hname, -⟩ := entity_eq_cons h
    have hfind := find?_entities h back
    rw [hname, List.cons_append] at hfind ⊢
    rw [readEntities, hfind]
    dsimp only
    rw [List.length_cons, Nat.add_sub_cancel, readEntities_length_append]
  · rw [heq, List.singleton_append, readEntities, find?_entities_of_ne (hne '&' (by decide))]

theorem unescapeXml_escapeXml (string : String) : unescapeXml (escapeXml string) = string := by
  rw [unescapeXml, toList_escapeXml, ← String.toList_inj, String.toList_ofList]
  induction string.toList with
  | nil => rfl
  | cons c cs ih => rw [List.flatMap_cons, readEntities_escapeChar, ih]

theorem isCharacterData_escapeXml (string : String) : IsCharacterData (escapeXml string) where
  notMem c hc hmem := by
    rw [toList_escapeXml, List.mem_flatMap] at hmem
    obtain ⟨c', -, hmem⟩ := hmem
    have hmem' : c ∈ ['&', '<', '>', '\'', '"'] := List.mem_cons_of_mem _ hc
    rcases escapeChar_entity c' with h | ⟨heq, hne⟩
    · obtain ⟨name, hname, -, hnot⟩ := entity_eq_cons h
      rw [hname, List.mem_cons] at hmem
      rcases hmem with rfl | hmem
      · exact absurd hc (by decide)
      · exact hnot c hmem' hmem
    · rw [heq, List.mem_singleton] at hmem
      exact hne c hmem' hmem.symm
  entity := by
    rw [toList_escapeXml]
    induction string.toList with
    | nil => exact fun front back h => absurd h.symm (by simp)
    | cons c cs ih =>
      intro front back h
      rw [List.flatMap_cons] at h
      rcases List.append_eq_append_iff.mp h with ⟨more, rfl, hrest⟩ | ⟨more, hescape, hback⟩
      · exact ih more back hrest
      · cases more with
        | nil => exact ih [] back hback.symm
        | cons c' more =>
          -- the ampersand is in what the character is written as, so it begins it
          obtain rfl : c' = '&' := (List.cons.inj hback).1.symm
          rcases escapeChar_entity c with hmem | ⟨heq, hne⟩
          · obtain ⟨name, hname, -, hnot⟩ := entity_eq_cons hmem
            cases front with
            | nil =>
              refine ⟨_, hmem, ?_⟩
              rw [hescape, hback]
              exact List.prefix_append _ _
            | cons c' front =>
              rw [hname] at hescape
              have htail := (List.cons.inj hescape).2
              exact absurd (htail ▸ List.mem_append_right _ List.mem_cons_self)
                (hnot '&' (by decide))
          · rw [heq] at hescape
            obtain ⟨rfl, hcons⟩ : front = [] ∧ [c] = '&' :: more := by
              cases front with
              | nil => exact ⟨rfl, hescape⟩
              | cons c' front => simp at hescape
            exact absurd (List.cons.inj hcons).1 (hne '&' (by decide))

theorem escapes_escapeXml (string : String) : Escapes (escapeXml string) string :=
  ⟨isCharacterData_escapeXml string, unescapeXml_escapeXml string⟩

/-! A text with an entity in it is read as a shorter one. -/

theorem length_readEntities_le (left : ℕ) (cs : List Char) :
    (readEntities left cs).length ≤ cs.length - left := by
  induction cs generalizing left with
  | nil => exact Nat.zero_le _
  | cons c cs ih =>
    cases left with
    | succ left =>
      rw [readEntities, List.length_cons]
      have := ih left
      omega
    | zero =>
      rw [readEntities]
      split
      · next entity plain _ =>
        have := ih (entity.length - 1)
        rw [List.length_cons, List.length_cons]
        omega
      · have := ih 0
        rw [List.length_cons, List.length_cons]
        omega

theorem length_readEntities_lt {cs : List Char} (hmem : '&' ∈ cs)
    (h : ∀ front back, cs = front ++ '&' :: back → ∃ entity ∈ entities, entity.1 <+: '&' :: back) :
    (readEntities 0 cs).length < cs.length := by
  induction cs with
  | nil => cases hmem
  | cons c cs ih =>
    by_cases hc : c = '&'
    · subst hc
      obtain ⟨⟨entity, plain⟩, hentity, back, hback⟩ := h [] cs rfl
      obtain ⟨name, hname, hlength, -⟩ := entity_eq_cons hentity
      have hfind := find?_entities hentity back
      rw [show entity ++ back = '&' :: cs from hback] at hfind
      have hle := length_readEntities_le (entity.length - 1) cs
      have hcs : entity.length + back.length = cs.length + 1 := by
        rw [← List.length_append, show entity ++ back = '&' :: cs from hback, List.length_cons]
      rw [readEntities, hfind]
      dsimp only
      rw [hname, List.length_cons] at hle hcs
      rw [List.length_cons, List.length_cons, hname, List.length_cons]
      omega
    · have hlt := ih (List.mem_of_ne_of_mem (Ne.symm hc) hmem) fun front back heq =>
        h (c :: front) back (by rw [heq, List.cons_append])
      rw [readEntities, find?_entities_of_ne hc]
      exact Nat.succ_lt_succ hlt

theorem readEntities_of_notMem {cs : List Char} (h : '&' ∉ cs) : readEntities 0 cs = cs := by
  induction cs with
  | nil => rfl
  | cons c cs ih =>
    rw [List.mem_cons, not_or] at h
    rw [readEntities, find?_entities_of_ne (Ne.symm h.1), ih h.2]

/-- A string stands for itself exactly if nothing in it is to be escaped. -/
theorem escapes_self_iff {string : String} : Escapes string string ↔ Unmarked string := by
  constructor
  · intro h c hc
    rcases List.mem_cons.mp hc with rfl | hc
    · intro hmem
      have hlt := length_readEntities_lt hmem h.isCharacterData.entity
      have heq := congrArg String.toList h.unescape_eq
      rw [unescapeXml, String.toList_ofList] at heq
      rw [heq] at hlt
      exact Nat.lt_irrefl _ hlt
    · exact h.isCharacterData.notMem c hc
  · intro h
    refine ⟨⟨fun c hc => h c (List.mem_cons_of_mem _ hc), fun front back heq => ?_⟩, ?_⟩
    · exact absurd (heq ▸ List.mem_append_right _ List.mem_cons_self) (h '&' (by decide))
    · rw [unescapeXml, readEntities_of_notMem (h '&' (by decide)), String.ofList_toList]

/-! ## Documents -/

/-- A piece of a document. -/
inductive Piece
  | markup (text : String)
  /-- A string from a client. -/
  | inserted (string : String)

/-- The pieces are written one after another, with a text in the place of each string that stands
    for it. -/
inductive Renders : List Piece → String → Prop
  | nil : Renders [] ""
  | markup {pieces : List Piece} {rest : String} (text : String) :
      Renders pieces rest → Renders (.markup text :: pieces) (text ++ rest)
  | inserted {pieces : List Piece} {rest text string : String} : Escapes text string →
      Renders pieces rest → Renders (.inserted string :: pieces) (text ++ rest)

/-- A body in XML, with what it is made of. -/
inductive S3Document
  | buckets (buckets : List String)
  | objects (files : List (String × String)) (bucket front : String) (maxKeys : ℕ)
      (isTruncated : Bool)
  | error (code message resource : String)

namespace S3Document

/-- The body as the front end writes it. -/
def xml : S3Document → String
  | buckets bs => listBucketsXml bs
  | objects files bucket front maxKeys isTruncated =>
    listObjectsXml files bucket front maxKeys isTruncated
  | error code message resource => s3ErrorXml code message resource

/-- The pieces of the body; codes, messages and numbers come from the server. -/
def pieces : S3Document → List Piece
  | buckets bs =>
    .markup ("<?xml version=\"1.0\" encoding=\"UTF-8\"?>\n<ListAllMyBucketsResult xmlns=\"" ++
      s3XmlNamespace ++ "\"><Buckets>") ::
    bs.flatMap (fun b => [.markup "<Bucket><Name>", .inserted b, .markup "</Name></Bucket>"]) ++
    [.markup "</Buckets></ListAllMyBucketsResult>"]
  | objects files bucket front maxKeys isTruncated =>
    .markup ("<?xml version=\"1.0\" encoding=\"UTF-8\"?>\n<ListBucketResult xmlns=\"" ++
      s3XmlNamespace ++ "\"><IsTruncated>" ++ (if isTruncated then "true" else "false") ++
      "</IsTruncated><Name>") ::
    .inserted bucket :: .markup "</Name><Prefix>" :: .inserted front ::
    .markup ("</Prefix><MaxKeys>" ++ toString maxKeys ++ "</MaxKeys><KeyCount>" ++
      toString files.length ++ "</KeyCount>") ::
    files.flatMap (fun file => [.markup "<Contents><Key>", .inserted file.1,
      .markup "</Key><Size>0</Size><StorageClass>STANDARD</StorageClass></Contents>"]) ++
    [.markup "</ListBucketResult>"]
  | error code message resource =>
    [.markup ("<?xml version=\"1.0\" encoding=\"UTF-8\"?>\n<Error><Code>" ++ code ++
      "</Code><Message>" ++ message ++ "</Message><Resource>"), .inserted resource,
      .markup "</Resource></Error>"]

/-- The document carries all strings that are inserted into it. -/
def Faithful (doc : S3Document) : Prop := Renders doc.pieces doc.xml

end S3Document

/-- A list of entries with a string in each. -/
theorem Renders.entries {α : Type} (string : α → String) (before after : String) (l : List α)
    {pieces : List Piece} {rest : String} (h : Renders pieces rest) :
    Renders (l.flatMap (fun a => [.markup before, .inserted (string a), .markup after]) ++ pieces)
      (String.join (l.map fun a => before ++ escapeXml (string a) ++ after) ++ rest) := by
  induction l with
  | nil =>
    rw [List.map_nil, String.join_nil, String.empty_append]
    exact h
  | cons a l ih =>
    have hcons := Renders.markup before
      ((Renders.markup after ih).inserted (escapes_escapeXml (string a)))
    rw [List.map_cons, String.join_cons, List.flatMap_cons, String.append_assoc,
      String.append_assoc, String.append_assoc]
    exact hcons

theorem between_inj {before text text' after : String}
    (h : before ++ text ++ after = before ++ text' ++ after) : text = text' := by
  have hlist := congrArg String.toList h
  simp only [String.toList_append] at hlist
  exact String.toList_inj.mp (List.append_cancel_left (List.append_cancel_right hlist))

/-- The text in the place of the only string. -/
theorem Renders.single {before string after text : String}
    (h : Renders [.markup before, .inserted string, .markup after] text) :
    ∃ t, Escapes t string ∧ text = before ++ (t ++ (after ++ "")) := by
  cases h with
  | markup _ h =>
    cases h with
    | inserted hescapes h =>
      cases h with
      | markup _ h =>
        cases h
        exact ⟨_, hescapes, rfl⟩

namespace S3Document

theorem faithful_buckets (bs : List String) : (buckets bs).Faithful := by
  have h := Renders.markup
    ("<?xml version=\"1.0\" encoding=\"UTF-8\"?>\n<ListAllMyBucketsResult xmlns=\"" ++
      s3XmlNamespace ++ "\"><Buckets>") (Renders.entries id "<Bucket><Name>" "</Name></Bucket>" bs
        (.markup "</Buckets></ListAllMyBucketsResult>" .nil))
  unfold Faithful xml listBucketsXml
  rw [String.append_empty, ← String.append_assoc] at h
  exact h

theorem faithful_objects (files : List (String × String)) (bucket front : String) (maxKeys : ℕ)
    (isTruncated : Bool) : (objects files bucket front maxKeys isTruncated).Faithful := by
  have h := (((Renders.entries Prod.fst "<Contents><Key>"
    "</Key><Size>0</Size><StorageClass>STANDARD</StorageClass></Contents>" files
    (.markup "</ListBucketResult>" .nil)).markup ("</Prefix><MaxKeys>" ++ toString maxKeys ++
      "</MaxKeys><KeyCount>" ++ toString files.length ++ "</KeyCount>")).inserted
    (escapes_escapeXml front)).markup "</Name><Prefix>"
  have h' := (h.inserted (escapes_escapeXml bucket)).markup
    ("<?xml version=\"1.0\" encoding=\"UTF-8\"?>\n<ListBucketResult xmlns=\"" ++
      s3XmlNamespace ++ "\"><IsTruncated>" ++ (if isTruncated then "true" else "false") ++
      "</IsTruncated><Name>")
  refine Eq.mp (congrArg (Renders _) ?_) h'
  unfold xml listObjectsXml
  simp only [String.append_assoc, String.append_empty]

/-- An error carries what it is about exactly if nothing in it is to be escaped. -/
theorem faithful_error_iff (code message resource : String) :
    (error code message resource).Faithful ↔ Unmarked resource := by
  rw [← escapes_self_iff]
  constructor
  · intro h
    obtain ⟨text, hescapes, htext⟩ := h.single
    unfold xml s3ErrorXml at htext
    rw [String.append_empty, ← String.append_assoc] at htext
    obtain rfl := between_inj htext
    exact hescapes
  · intro h
    have h' := ((Renders.markup "</Resource></Error>" .nil).inserted h).markup
      ("<?xml version=\"1.0\" encoding=\"UTF-8\"?>\n<Error><Code>" ++ code ++
        "</Code><Message>" ++ message ++ "</Message><Resource>")
    unfold Faithful xml s3ErrorXml
    rw [String.append_empty, ← String.append_assoc] at h'
    exact h'

end S3Document

/-! ## Requests -/

/-- What an error is about that a request is answered with: the key, or the path if the method is
    not known. -/
def errorResource (method : Method) (uri : String) : Option String :=
  match method, parseS3Path (splitUri uri).1 with
  | .get, (some _, some key) => some key
  | .put, (some _, some key) => some key
  | .put, (none, some _) => some ""
  | .other, _ => some (splitUri uri).1
  | _, _ => none

/-- The strings of the document are those of the request. -/
def S3Document.RequestedBy (method : Method) (uri : String) : S3Document → Prop
  | buckets _ => method = .get ∧ (parseS3Path (splitUri uri).1).1 = none
  | objects _ bucket front _ _ => method = .get ∧
    parseS3Path (splitUri uri).1 = (some bucket, none) ∧
    front = ((splitOnChar '&' (splitUri uri).2).findSome? (stripFront "prefix=")).getD ""
  | error _ _ resource => errorResource method uri = some resource

/-- The response is a document for the request, or has no body in XML. -/
def HttpResponse.Answers (method : Method) (uri : String) (response : HttpResponse) : Prop :=
  (∃ doc : S3Document, response = buildResponse response.status doc.xml "application/xml" ∧
    doc.RequestedBy method uri) ∨
  ("Content-Type", "application/xml") ∉ response.headers ∨ response.body = []

theorem getMimeType_ne (filename : String) : getMimeType filename ≠ "application/xml" := by
  unfold getMimeType
  split <;> decide

theorem answers_error {method : Method} {uri resource : String}
    (h : errorResource method uri = some resource) (status : ℕ) (code message : String) :
    (buildResponse status (s3ErrorXml code message resource) "application/xml").Answers method
      uri :=
  .inl ⟨.error code message resource, rfl, h⟩

theorem answers_objectResponse (method : Method) (uri : String) (d : FrontDraws) (key : String)
    (data body : Bytes) : (objectResponse d key data body).Answers method uri := by
  refine .inr (.inl ?_)
  simp [objectResponse, etag, Ne.symm (getMimeType_ne key)]

theorem returns_getObject {method : Method} {uri bucket key : String}
    (h : errorResource method uri = some key) (d : FrontDraws) :
    (getObject d bucket key).Returns (HttpResponse.Answers method uri) := by
  refine .bind _ fun name => ?_
  cases name with
  | none => exact .pure (answers_error h _ _ _)
  | some name =>
    refine .bind _ fun r => ?_
    rcases r with status | pkg
    · cases status <;> exact .pure (answers_error h _ _ _)
    · exact .pure (answers_objectResponse _ _ _ _ _ _)

theorem returns_putObject {method : Method} {uri bucket key : String}
    (h : errorResource method uri = some key) (d : FrontDraws) (body : Option Bytes) :
    (putObject d bucket key body).Returns (HttpResponse.Answers method uri) := by
  cases body with
  | none => exact .pure (answers_error h _ _ _)
  | some bodyBytes =>
    refine .bind _ fun _ => .bind _ fun r => ?_
    cases r with
    | ok _ => exact .pure (.inr (.inr rfl))
    | error _ => exact .pure (answers_error h _ _ _)

theorem returns_headObject (method : Method) (uri : String) (d : FrontDraws) (bucket key : String) :
    (headObject d bucket key).Returns (HttpResponse.Answers method uri) := by
  refine .bind _ fun name => ?_
  cases name with
  | none => exact .pure (.inr (.inr rfl))
  | some name =>
    refine .bind _ fun r => ?_
    cases r with
    | ok _ => exact .pure (answers_objectResponse _ _ _ _ _ _)
    | error _ => exact .pure (.inr (.inr rfl))

theorem returns_deleteObject (method : Method) (uri : String) (d : FrontDraws)
    (bucket key : String) :
    (deleteObject d bucket key).Returns (HttpResponse.Answers method uri) := by
  refine .bind _ fun name => ?_
  cases name with
  | none => exact .pure (.inr (.inr rfl))
  | some name => exact .bind _ fun _ => .bind _ fun _ => .pure (.inr (.inr rfl))

theorem returns_listAllBuckets {uri : String} (h : (parseS3Path (splitUri uri).1).1 = none) :
    listAllBuckets.Returns (HttpResponse.Answers .get uri) := by
  refine .bind _ fun r => ?_
  cases r with
  | ok buckets => exact .pure (.inl ⟨.buckets buckets, rfl, rfl, h⟩)
  | error _ => exact .pure (.inl ⟨.buckets ["linastore"], rfl, rfl, h⟩)

theorem returns_listObjects {uri bucket : String}
    (h : parseS3Path (splitUri uri).1 = (some bucket, none)) :
    (listObjects bucket (splitUri uri).2).Returns (HttpResponse.Answers .get uri) := by
  refine .bind _ fun r => ?_
  have hshow (files : List (String × String)) (maxKeys : ℕ) (isTruncated : Bool) :
      (buildResponse 200 (listObjectsXml files bucket
        (((splitOnChar '&' (splitUri uri).2).findSome? (stripFront "prefix=")).getD "") maxKeys
          isTruncated) "application/xml").Answers .get uri :=
    .inl ⟨.objects files bucket _ maxKeys isTruncated, rfl, rfl, h, rfl⟩
  cases r with
  | ok files => exact .bind _ fun files => .pure (hshow _ _ _)
  | error _ => exact .bind _ fun files => .pure (hshow _ _ _)

/-- Whatever the mapper, the store and the queue answer, a request is answered with a document for
    it or without a body in XML. -/
theorem returns_handleS3 (d : FrontDraws) (method : Method) (uri : String) (body : Option Bytes) :
    (handleS3 d method uri body).Returns (HttpResponse.Answers method uri) := by
  rw [handleS3]
  dsimp only
  cases method with
  | get =>
    rcases hparse : parseS3Path (splitUri uri).1 with ⟨_ | bucket, _ | key⟩
    · exact returns_listAllBuckets (congrArg Prod.fst hparse)
    · exact returns_listAllBuckets (congrArg Prod.fst hparse)
    · exact returns_listObjects hparse
    · exact returns_getObject (by unfold errorResource; rw [hparse]) d
  | head =>
    rcases parseS3Path (splitUri uri).1 with ⟨_ | bucket, _ | key⟩
    · exact .pure (.inr (.inr rfl))
    · exact .pure (.inr (.inr rfl))
    · exact .pure (.inr (.inr rfl))
    · exact returns_headObject _ _ d bucket key
  | put =>
    rcases hparse : parseS3Path (splitUri uri).1 with ⟨_ | bucket, _ | key⟩
    · exact .pure (.inr (.inr rfl))
    · exact .pure (answers_error (by unfold errorResource; rw [hparse]) _ _ _)
    · exact .pure (.inr (.inr rfl))
    · exact returns_putObject (by unfold errorResource; rw [hparse]) d body
  | delete =>
    rcases parseS3Path (splitUri uri).1 with ⟨_ | bucket, _ | key⟩
    · exact .pure (.inr (.inr rfl))
    · exact .pure (.inr (.inr rfl))
    · exact .pure (.inr (.inr rfl))
    · exact returns_deleteObject _ _ d bucket key
  | other => exact .pure (answers_error rfl _ _ _)

/-- A list is not an error, and an error is about what the request names. -/
theorem S3Document.RequestedBy.faithful_iff {doc : S3Document} {method : Method} {uri : String}
    (h : doc.RequestedBy method uri) :
    doc.Faithful ↔ ∀ resource, errorResource method uri = some resource → Unmarked resource := by
  cases doc with
  | buckets bs =>
    obtain ⟨rfl, hpath⟩ := h
    refine iff_of_true (faithful_buckets bs) fun resource hresource => ?_
    rcases hparse : parseS3Path (splitUri uri).1 with ⟨_ | bucket, key⟩
    · unfold errorResource at hresource
      rw [hparse] at hresource
      cases hresource
    · rw [hparse] at hpath
      cases hpath
  | objects files bucket front maxKeys isTruncated =>
    obtain ⟨rfl, hpath, -⟩ := h
    refine iff_of_true (faithful_objects _ _ _ _ _) fun resource hresource => ?_
    unfold errorResource at hresource
    rw [hpath] at hresource
    cases hresource
  | error code message resource =>
    rw [faithful_error_iff]
    refine ⟨fun hplain resource' hresource => ?_, fun hplain => hplain resource h⟩
    cases (show errorResource method uri = some resource from h).symm.trans hresource
    exact hplain

/-- Whatever the mapper, the store and the queue answer, a body in XML is a document for the
    request, and it carries the strings of clients in it if and only if the request cannot be
    answered with an error that names one, or nothing in the name is to be escaped. Different
    strings are written as different texts. -/
theorem s3_documents_faithful_iff {σ : Type}
    (step : (p : ServerPrim) → σ → Except ServerError p.Res × σ) (s s' : σ) (d : FrontDraws)
    (method : Method) (uri : String) (body : Option Bytes) (response : HttpResponse)
    (hrun : (handleS3 d method uri body).run step s = (.ok response, s'))
    (hxml : ("Content-Type", "application/xml") ∈ response.headers) (hbody : response.body ≠ []) :
    (∃ doc : S3Document, response = buildResponse response.status doc.xml "application/xml" ∧
      doc.RequestedBy method uri) ∧
    (∀ doc : S3Document, response = buildResponse response.status doc.xml "application/xml" →
      doc.RequestedBy method uri →
      (doc.Faithful ↔
        ∀ resource, errorResource method uri = some resource → Unmarked resource)) ∧
    Function.Injective escapeXml := by
  refine ⟨?_, fun doc _ h => h.faithful_iff, ?_⟩
  · rcases (returns_handleS3 d method uri body).run hrun with hdoc | hnot | hempty
    · exact hdoc
    · exact absurd hxml hnot
    · exact absurd hempty hbody
  · exact Function.LeftInverse.injective unescapeXml_escapeXml

/-- A request with a method that is not known is answered with an error about its path, here with
    nothing to be escaped. -/
theorem s3_documents_faithful_iff_other :
    (S3Document.error "MethodNotAllowed"
      "The specified method is not allowed against this resource." "/photos").Faithful := by
  have hresource : errorResource .other "/photos" = some "/photos" := by decide
  have hrun : (handleS3 (.sample 0) .other "/photos" none).run (ServerPrim.step .plain)
      (Server.start fun _ _ => none) = (.ok (buildResponse 405 (S3Document.error "MethodNotAllowed"
        "The specified method is not allowed against this resource." "/photos").xml
        "application/xml"), Server.start fun _ _ => none) := rfl
  obtain ⟨-, hfaithful, -⟩ := s3_documents_faithful_iff _ _ _ _ _ _ _ _ hrun (by decide) (by decide)
  refine (hfaithful (.error _ _ _) rfl hresource).mpr fun resource h => ?_
  cases hresource.symm.trans h
  decide

/-- The error for a key with an ampersand that is not in a new server has the ampersand as it
    is. -/
theorem s3_error_unescaped :
    (handleS3 (.sample 0) .get "/photos/cats&dogs" none).run (ServerPrim.step .plain)
        (Server.start fun _ _ => none) =
      (.ok (buildResponse 404 (S3Document.error "NoSuchKey" "The specified key does not exist."
        "cats&dogs").xml "application/xml"), Server.start fun _ _ => none) ∧
    ¬(S3Document.error "NoSuchKey" "The specified key does not exist." "cats&dogs").Faithful := by
  refine ⟨rfl, ?_⟩
  rw [S3Document.faithful_error_iff]
  decide

end LiNaStore
