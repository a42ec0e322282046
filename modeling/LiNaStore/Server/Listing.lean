import LiNaStore.Library.Slash
import LiNaStore.Server.S3
import Mathlib.Data.List.Sort
import Mathlib.Data.List.TakeWhile
import Mathlib.Data.String.Basic

/-!
# Listing a bucket

A request for the keys of a bucket gives the beginning of the keys and the number of them that the
client wants (`ListUri`). The response is a text in XML; that it tells what it shows is proved first
(`ShowsListing.unique`): the keys are escaped, so that the text can be read in one way only.

The beginning of the keys is handed to `LIKE` as it is, which takes other keys as well, the *strays*
(`BucketMapper.strays`). The keys that are shown, their number and whether there are more are right
exactly if these come late enough (`listing_exact_iff`).
-/

namespace LiNaStore

open Program

/-! ## Escapes -/

/-- What a character is written as. -/
def escapeChar (c : Char) : List Char :=
  if c = '&' then "&amp;".toList
  else if c = '<' then "&lt;".toList
  else if c = '>' then "&gt;".toList
  else if c = '\'' then "&apos;".toList
  else if c = '"' then "&quot;".toList
  else [c]

theorem toList_replaceChar (c : Char) (replacement text : String) :
    (replaceChar c replacement text).toList =
      text.toList.flatMap fun c' => if c' = c then replacement.toList else [c'] := by
  rw [replaceChar, String.toList_join, List.flatMap_map]
  congr 1
  funext c'
  split_ifs <;> simp

theorem toList_escapeXml (text : String) :
    (escapeXml text).toList = text.toList.flatMap escapeChar := by
  simp only [escapeXml, toList_replaceChar, List.flatMap_assoc]
  congr 1
  funext c
  by_cases h₁ : c = '&'
  · rw [h₁]
    decide
  by_cases h₂ : c = '<'
  · rw [h₂]
    decide
  by_cases h₃ : c = '>'
  · rw [h₃]
    decide
  by_cases h₄ : c = '\''
  · rw [h₄]
    decide
  by_cases h₅ : c = '"'
  · rw [h₅]
    decide
  rw [escapeChar, if_neg h₁, if_neg h₂, if_neg h₃, if_neg h₄, if_neg h₅]
  simp only [h₁, h₂, h₃, h₄, h₅, if_false, List.flatMap_singleton]

theorem escapeChar_cases (c : Char) :
    c = '&' ∨ c = '<' ∨ c = '>' ∨ c = '\'' ∨ c = '"' ∨ escapeChar c = [c] ∧ c ≠ '&' ∧ c ≠ '<' := by
  by_cases h₁ : c = '&'
  · exact .inl h₁
  by_cases h₂ : c = '<'
  · exact .inr (.inl h₂)
  by_cases h₃ : c = '>'
  · exact .inr (.inr (.inl h₃))
  by_cases h₄ : c = '\''
  · exact .inr (.inr (.inr (.inl h₄)))
  by_cases h₅ : c = '"'
  · exact .inr (.inr (.inr (.inr (.inl h₅))))
  · refine .inr (.inr (.inr (.inr (.inr ⟨?_, h₁, h₂⟩))))
    rw [escapeChar, if_neg h₁, if_neg h₂, if_neg h₃, if_neg h₄, if_neg h₅]

/-- No angle bracket is left. -/
theorem lt_notMem_escapeXml (text : String) : '<' ∉ (escapeXml text).toList := by
  rw [toList_escapeXml, List.mem_flatMap]
  rintro ⟨c, _, hc⟩
  rcases escapeChar_cases c with rfl | rfl | rfl | rfl | rfl | ⟨heq, _, hne⟩
  iterate 5 exact absurd hc (by decide)
  rw [heq, List.mem_singleton] at hc
  exact hne hc.symm

/-- What a character is written as is told from what follows. -/
theorem escapeChar_append_inj {c c' : Char} {rest rest' : List Char}
    (h : escapeChar c ++ rest = escapeChar c' ++ rest') : c = c' ∧ rest = rest' := by
  rcases escapeChar_cases c with rfl | rfl | rfl | rfl | rfl | ⟨heq, hne, _⟩
  iterate 5
    rcases escapeChar_cases c' with rfl | rfl | rfl | rfl | rfl | ⟨heq', hne', _⟩
    iterate 5 simp [escapeChar] at h ⊢ <;> exact h
    rw [heq'] at h
    exact absurd (List.cons.inj h).1.symm hne'
  rw [heq] at h
  rcases escapeChar_cases c' with rfl | rfl | rfl | rfl | rfl | ⟨heq', _⟩
  iterate 5 exact absurd (List.cons.inj h).1 hne
  rw [heq'] at h
  exact List.cons.inj h

theorem escapeXml_inj {text text' : String} (h : escapeXml text = escapeXml text') :
    text = text' := by
  have hlist := congrArg String.toList h
  rw [toList_escapeXml, toList_escapeXml] at hlist
  refine String.toList_inj.1 ?_
  generalize text.toList = l at hlist
  generalize text'.toList = l' at hlist
  induction l generalizing l' with
  | nil =>
    cases l' with
    | nil => rfl
    | cons c l' =>
      have hnil := (List.append_eq_nil_iff.1 (hlist.symm.trans List.flatMap_nil)).1
      rcases escapeChar_cases c with rfl | rfl | rfl | rfl | rfl | ⟨heq, _⟩
      iterate 5 exact absurd hnil (by decide)
      rw [heq] at hnil
      cases hnil
  | cons c l ih =>
    cases l' with
    | nil =>
      have hnil := (List.append_eq_nil_iff.1 (hlist.trans List.flatMap_nil)).1
      rcases escapeChar_cases c with rfl | rfl | rfl | rfl | rfl | ⟨heq, _⟩
      iterate 5 exact absurd hnil (by decide)
      rw [heq] at hnil
      cases hnil
    | cons c' l' =>
      rw [List.flatMap_cons, List.flatMap_cons] at hlist
      obtain ⟨rfl, hrest⟩ := escapeChar_append_inj hlist
      rw [ih _ hrest]

/-! ## The text of a response -/

def listingEntry (key : String) : String :=
  "<Contents><Key>" ++ escapeXml key ++
    "</Key><Size>0</Size><StorageClass>STANDARD</StorageClass></Contents>"

/-- The text that shows keys, a number of keys and whether there are more. -/
def listingXml (bucket front : String) (maxKeys : ℕ) (keys : List String) (keyCount : ℕ)
    (isTruncated : Bool) : String :=
  "<?xml version=\"1.0\" encoding=\"UTF-8\"?>\n<ListBucketResult xmlns=\"" ++ s3XmlNamespace ++
    "\"><IsTruncated>" ++ (if isTruncated then "true" else "false") ++ "</IsTruncated><Name>" ++
    escapeXml bucket ++ "</Name><Prefix>" ++ escapeXml front ++ "</Prefix><MaxKeys>" ++
    toString maxKeys ++ "</MaxKeys><KeyCount>" ++ toString keyCount ++ "</KeyCount>" ++
    String.join (keys.map listingEntry) ++ "</ListBucketResult>"

theorem listObjectsXml_eq (files : List (String × String)) (bucket front : String) (maxKeys : ℕ)
    (isTruncated : Bool) :
    listObjectsXml files bucket front maxKeys isTruncated =
      listingXml bucket front maxKeys (files.map Prod.fst) files.length isTruncated := by
  unfold listObjectsXml listingXml listingEntry
  rw [List.map_map]
  dsimp only [Function.comp_def]

/-- A response shows keys, a number of keys and whether there are more. -/
def ShowsListing (response : HttpResponse) (keys : List String) (keyCount : ℕ)
    (isTruncated : Bool) : Prop :=
  ∃ bucket front maxKeys, response =
    buildResponse 200 (listingXml bucket front maxKeys keys keyCount isTruncated) "application/xml"

/-- A text without an angle bracket is told from a tag that follows. -/
theorem before_tag_inj {a a' rest rest' : List Char} {tag : String}
    (htag : tag.toList.head? = some '<') (ha : '<' ∉ a) (ha' : '<' ∉ a')
    (h : a ++ (tag.toList ++ rest) = a' ++ (tag.toList ++ rest')) : a = a' ∧ rest = rest' := by
  obtain ⟨inner, hinner⟩ := List.head?_eq_some_iff.1 htag
  have hsplit := congrArg (List.splitOn '<') h
  rw [hinner, List.cons_append, List.cons_append, Slash.splitOn_append_cons ha,
    Slash.splitOn_append_cons ha'] at hsplit
  obtain rfl := (List.cons.inj hsplit).1
  exact ⟨rfl, List.append_cancel_left (List.append_cancel_left h)⟩

theorem lt_notMem_toString (n : ℕ) : '<' ∉ (toString n).toList := by
  rw [toList_toString]
  exact notMem_toDigits rfl n

theorem toList_listingEntry (key : String) :
    (listingEntry key).toList = "<Contents><Key>".toList ++ ((escapeXml key).toList ++
      "</Key><Size>0</Size><StorageClass>STANDARD</StorageClass></Contents>".toList) := by
  unfold listingEntry
  rw [String.toList_append, String.toList_append, List.append_assoc]

theorem entries_inj {keys keys' : List String}
    (h : (keys.flatMap fun key => (listingEntry key).toList) ++ "</ListBucketResult>".toList =
      (keys'.flatMap fun key => (listingEntry key).toList) ++ "</ListBucketResult>".toList) :
    keys = keys' := by
  induction keys generalizing keys' with
  | nil =>
    cases keys' with
    | nil => rfl
    | cons key keys' => simp [toList_listingEntry] at h
  | cons key keys ih =>
    cases keys' with
    | nil => simp [toList_listingEntry] at h
    | cons key' keys' =>
      simp only [List.flatMap_cons, toList_listingEntry key, toList_listingEntry key',
        List.append_assoc] at h
      obtain ⟨hkey, hrest⟩ := before_tag_inj (by simp) (lt_notMem_escapeXml key)
        (lt_notMem_escapeXml key') (List.append_cancel_left h)
      rw [escapeXml_inj (String.toList_inj.1 hkey), ih hrest]

theorem listingXml_inj {bucket bucket' front front' : String} {maxKeys maxKeys' : ℕ}
    {keys keys' : List String} {keyCount keyCount' : ℕ} {isTruncated isTruncated' : Bool}
    (h : listingXml bucket front maxKeys keys keyCount isTruncated =
      listingXml bucket' front' maxKeys' keys' keyCount' isTruncated') :
    keys = keys' ∧ keyCount = keyCount' ∧ isTruncated = isTruncated' := by
  have hflag (b : Bool) : '<' ∉ (if b then "true" else "false").toList := by cases b <;> decide
  unfold listingXml at h
  have hlist := congrArg String.toList h
  simp only [String.toList_append, List.append_assoc] at hlist
  -- the fields stand between tags, from the first to the last
  obtain ⟨htruncated, hlist⟩ := before_tag_inj (by simp) (hflag _) (hflag _)
    (List.append_cancel_left (List.append_cancel_left (List.append_cancel_left hlist)))
  obtain ⟨_, hlist⟩ := before_tag_inj (by simp) (lt_notMem_escapeXml _) (lt_notMem_escapeXml _) hlist
  obtain ⟨_, hlist⟩ := before_tag_inj (by simp) (lt_notMem_escapeXml _) (lt_notMem_escapeXml _) hlist
  obtain ⟨_, hlist⟩ := before_tag_inj (by simp) (lt_notMem_toString _) (lt_notMem_toString _) hlist
  obtain ⟨hcount, hlist⟩ := before_tag_inj (by simp) (lt_notMem_toString _) (lt_notMem_toString _) hlist
  rw [String.toList_join, String.toList_join, List.flatMap_map, List.flatMap_map] at hlist
  refine ⟨entries_inj hlist, toList_toString_inj hcount, ?_⟩
  revert htruncated
  cases isTruncated <;> cases isTruncated' <;> simp

/-- The response tells what it shows. -/
theorem ShowsListing.unique {response : HttpResponse} {keys keys' : List String}
    {keyCount keyCount' : ℕ} {isTruncated isTruncated' : Bool}
    (h : ShowsListing response keys keyCount isTruncated)
    (h' : ShowsListing response keys' keyCount' isTruncated') :
    keys = keys' ∧ keyCount = keyCount' ∧ isTruncated = isTruncated' := by
  obtain ⟨_, _, _, rfl⟩ := h
  obtain ⟨_, _, _, hresponse⟩ := h'
  exact listingXml_inj (utf8_injective (congrArg HttpResponse.body hresponse))

/-! ## The request -/

/-- A request for the keys of a bucket that begin with `front`, of which the client wants no more
    than `maxKeys`. -/
structure ListUri where
  bucket : String
  front : String
  maxKeys : ℕ
  bucket_ne : bucket ≠ ""
  slash_notMem_bucket : '/' ∉ bucket.toList
  mark_notMem_bucket : '?' ∉ bucket.toList
  mark_notMem_front : '?' ∉ front.toList
  amp_notMem_front : '&' ∉ front.toList

namespace ListUri

def query (u : ListUri) : String :=
  "prefix=" ++ u.front ++ "&" ++ ("max-keys=" ++ toString u.maxKeys)

/-- The request as it is sent. -/
def uri (u : ListUri) : String := "/" ++ u.bucket ++ "?" ++ u.query

/-- The number of keys that the code takes; a number of more than 32 bits is not understood. -/
def limit (u : ListUri) : ℕ := if u.maxKeys < 2 ^ 32 then u.maxKeys else 1000

variable (u : ListUri)

theorem mark_notMem_query : '?' ∉ u.query.toList := by
  simp [query, u.mark_notMem_front, notMem_toDigits (c := '?') rfl]

theorem splitUri_uri : splitUri u.uri = ("/" ++ u.bucket, u.query) := by
  have hmark : '?' ∉ ("/" ++ u.bucket).toList := by simp [u.mark_notMem_bucket]
  have hsplit : splitOnChar '?' u.uri = ["/" ++ u.bucket, u.query] := by
    rw [splitOnChar, uri, String.toList_append, String.toList_append, List.append_assoc]
    change (List.splitOn '?' (_ ++ '?' :: u.query.toList)).map String.ofList = _
    rw [Slash.splitOn_append_cons hmark, Slash.splitOn_of_notMem u.mark_notMem_query, List.map_cons,
      List.map_cons, String.ofList_toList, String.ofList_toList, List.map_nil]
  rw [splitUri, hsplit]
  rfl

theorem splitOnChar_query :
    splitOnChar '&' u.query = ["prefix=" ++ u.front, "max-keys=" ++ toString u.maxKeys] := by
  have hfront : '&' ∉ ("prefix=" ++ u.front).toList := by simp [u.amp_notMem_front]
  have hmax : '&' ∉ ("max-keys=" ++ toString u.maxKeys).toList := by
    simp [notMem_toDigits (c := '&') rfl]
  rw [splitOnChar, query, String.toList_append, String.toList_append, List.append_assoc]
  change (List.splitOn '&' (_ ++ '&' :: ("max-keys=" ++ _).toList)).map String.ofList = _
  rw [Slash.splitOn_append_cons hfront, Slash.splitOn_of_notMem hmax, List.map_cons, List.map_cons,
    String.ofList_toList, String.ofList_toList, List.map_nil]

theorem findSome?_front :
    (splitOnChar '&' u.query).findSome? (stripFront "prefix=") = some u.front := by
  rw [splitOnChar_query, List.findSome?_cons, stripFront_append]

theorem findSome?_maxKeys :
    ((splitOnChar '&' u.query).findSome? fun p => (stripFront "max-keys=" p).bind parseU32).getD 1000 =
      u.limit := by
  have hfront : stripFront "max-keys=" ("prefix=" ++ u.front) = none := by
    refine if_neg ?_
    simp
  rw [splitOnChar_query, List.findSome?_cons, hfront, Option.bind_none, List.findSome?_cons,
    stripFront_append, Option.bind_some, parseU32, Decimal.parseUnsigned_toString, limit]
  split_ifs <;> rfl

theorem parseS3Path_bucket : parseS3Path ("/" ++ u.bucket) = (some u.bucket, none) := by
  have hslash : ∀ c ∈ u.bucket.toList, decide (c ≠ '/') = true :=
    fun c hc => decide_eq_true (ne_of_mem_of_not_mem hc u.slash_notMem_bucket)
  have hdrop : u.bucket.toList.dropWhile (fun c => decide (c ≠ '/')) = [] :=
    List.dropWhile_eq_nil_iff.2 hslash
  simp only [parseS3Path, stripFront_append, Option.getD_some, if_neg u.bucket_ne, hdrop]

/-- The first of the keys are shown that the mapper lists. -/
theorem run_handleS3 (E : Engine) (sv : Server) (d : FrontDraws) (body : Option Bytes) :
    ∃ response, (handleS3 d .get u.uri body).run (ServerPrim.step E) sv = (.ok response, sv) ∧
      ShowsListing response (((sv.mapper.listBucket u.bucket u.front).map Prod.fst).take u.limit)
        (((sv.mapper.listBucket u.bucket u.front).map Prod.fst).take u.limit).length
        (decide (u.limit < ((sv.mapper.listBucket u.bucket u.front).map Prod.fst).length % 2 ^ 32)) := by
  have hhandle : handleS3 d .get u.uri body = listObjects u.bucket u.query := by
    rw [handleS3, splitUri_uri]
    dsimp only
    rw [parseS3Path_bucket]
  rw [hhandle, listObjects, findSome?_front, findSome?_maxKeys, run_bind, run_attempt,
    run_perform, ServerPrim.step]
  refine ⟨_, rfl, u.bucket, u.front, u.limit, ?_⟩
  rw [listObjectsXml_eq, List.map_take, List.length_take, List.length_take, List.length_map]
  rfl

end ListUri

/-! ## The keys -/

/-- Beginning with a text is the same in bytes and in characters. -/
theorem utf8_isPrefix_iff {front text : String} :
    utf8 front <+: utf8 text ↔ front.toList <+: text.toList := by
  constructor
  · rintro ⟨rest, hrest⟩
    have htext : front ++ fromUtf8Lossy rest = text := by
      rw [← fromUtf8Lossy_utf8_append, hrest, fromUtf8Lossy_utf8]
    rw [← htext, String.toList_append]
    exact List.prefix_append _ _
  · rintro ⟨rest, hrest⟩
    have htext : front ++ .ofList rest = text := by
      rw [← String.toList_inj, String.toList_append, String.toList_ofList, hrest]
    rw [← htext, utf8_append]
    exact List.prefix_append _ _

namespace BucketMapper

/-- The keys of a bucket, in order. -/
def keysOf (m : BucketMapper) (bucket : String) : List String :=
  ((m.rows.rows.filter fun row => row.bucket = bucket).map Mapping.key).mergeSort
    fun key key' => key ≤ key'

/-- The keys of a bucket that begin with `front`, byte for byte. -/
def keysFrom (m : BucketMapper) (bucket front : String) : List String :=
  (m.keysOf bucket).filter fun key => utf8 front <+: utf8 key

/-- The keys of a bucket that do not begin with `front`, but that `LIKE` takes. -/
def strays (m : BucketMapper) (bucket front : String) : List String :=
  (m.keysOf bucket).filter fun key =>
    like (front.toList ++ ['%']) key.toList ∧ ¬utf8 front <+: utf8 key

variable (m : BucketMapper) (bucket front : String)

theorem nodup_keysOf : (m.keysOf bucket).Nodup := by
  refine (List.mergeSort_perm _ _).nodup_iff.2 ((List.nodup_map_iff_inj_on ?_).2 ?_)
  · exact (List.Nodup.of_map _ m.rows.nodup_keys).filter _
  · intro row hrow row' hrow' hkey
    obtain ⟨hmem, hbucket⟩ := List.mem_filter.1 hrow
    obtain ⟨hmem', hbucket'⟩ := List.mem_filter.1 hrow'
    refine m.rows.eq_of_key_eq hmem hmem' (Prod.ext ?_ hkey)
    exact (of_decide_eq_true hbucket).trans (of_decide_eq_true hbucket').symm

theorem pairwise_mergeSort_le {α : Type} (f : α → String) (l : List α) :
    (l.mergeSort fun a a' => f a ≤ f a').Pairwise fun a a' => f a ≤ f a' := by
  refine (List.pairwise_mergeSort (fun a b c hab hbc => ?_) (fun a b => ?_) l).imp of_decide_eq_true
  · exact decide_eq_true ((of_decide_eq_true hab).trans (of_decide_eq_true hbc))
  · simpa using le_total (f a) (f b)

theorem pairwise_keysOf : (m.keysOf bucket).Pairwise (· < ·) :=
  ((pairwise_mergeSort_le id _).and (m.nodup_keysOf bucket)).imp fun h => lt_of_le_of_ne h.1 h.2

theorem map_fst_listBucket : (m.listBucket bucket front).map Prod.fst =
    (m.keysOf bucket).filter fun key => like (front.toList ++ ['%']) key.toList := by
  refine List.Perm.eq_of_pairwise (fun _ _ _ _ => le_antisymm) ?_ ?_ ?_
  · rw [listBucket, List.map_map, List.pairwise_map]
    exact pairwise_mergeSort_le Mapping.key _
  · exact ((m.pairwise_keysOf bucket).imp le_of_lt).filter _
  · have hrows : (m.rows.rows.filter fun row =>
          row.bucket = bucket ∧ like (front.toList ++ ['%']) row.key.toList).map Mapping.key =
        ((m.rows.rows.filter fun row => row.bucket = bucket).map Mapping.key).filter
          fun key => like (front.toList ++ ['%']) key.toList := by
      rw [List.filter_map, List.filter_filter]
      congr 2
      funext row
      simp [Bool.and_comm]
    rw [listBucket, List.map_map]
    refine ((List.mergeSort_perm _ _).map Mapping.key).trans ?_
    rw [hrows]
    exact ((List.mergeSort_perm _ _).filter _).symm

end BucketMapper

/-- Among keys in order, the first `n` all satisfy `P` if every other key comes after `n` that do. -/
theorem take_eq_take_filter_iff {P : String → Bool} {keys : List String}
    (hkeys : keys.Pairwise (· < ·)) (n : ℕ) :
    keys.take n = (keys.filter P).take n ↔
      ∀ key ∈ keys, P key = false → n ≤ ((keys.filter P).filter (· < key)).length := by
  induction keys generalizing n with
  | nil => simp
  | cons first keys ih =>
    obtain ⟨hfirst, hkeys⟩ := List.pairwise_cons.1 hkeys
    cases n with
    | zero => simp
    | succ n =>
      cases hP : P first with
      | true =>
        rw [List.filter_cons_of_pos hP, List.take_succ_cons, List.take_succ_cons, List.cons_inj_right,
          ih hkeys, List.forall_mem_cons]
        have hcount : ∀ key ∈ keys, ((first :: keys.filter P).filter (· < key)).length =
            ((keys.filter P).filter (· < key)).length + 1 := by
          intro key hkey
          rw [List.filter_cons_of_pos (by simpa using hfirst key hkey), List.length_cons]
        refine ⟨fun h => ⟨fun hP' => ?_, fun key hkey hP' => ?_⟩, fun h key hkey hP' => ?_⟩
        · rw [hP] at hP'
          cases hP'
        · rw [hcount key hkey]
          exact Nat.succ_le_succ (h key hkey hP')
        · have hlate := h.2 key hkey hP'
          rw [hcount key hkey] at hlate
          exact Nat.succ_le_succ_iff.1 hlate
      | false =>
        rw [List.filter_cons_of_neg (by simp [hP])]
        refine iff_of_false (fun h => ?_) fun h => ?_
        · have hmem : first ∈ (keys.filter P).take (n + 1) := h ▸ List.mem_cons_self
          rw [(List.mem_filter.1 (List.mem_of_mem_take hmem)).2] at hP
          cases hP
        · have hnone : (keys.filter P).filter (· < first) = [] :=
            List.filter_eq_nil_iff.2 fun key hkey hlt =>
              lt_asymm (hfirst key (List.mem_of_mem_filter hkey)) (of_decide_eq_true hlt)
          have hlate := h first List.mem_cons_self hP
          rw [hnone] at hlate
          exact absurd hlate (Nat.not_succ_le_zero n)

namespace BucketMapper

variable (m : BucketMapper) (bucket front : String)

/-- The keys that begin with `front` are among those that are listed. -/
theorem keysFrom_eq_filter : m.keysFrom bucket front =
    ((m.listBucket bucket front).map Prod.fst).filter fun key => utf8 front <+: utf8 key := by
  rw [map_fst_listBucket, List.filter_filter, keysFrom]
  congr 1
  funext key
  by_cases hkey : utf8 front <+: utf8 key
  · simp [hkey, like_of_isPrefix (utf8_isPrefix_iff.1 hkey)]
  · simp [hkey]

theorem strays_eq_filter : m.strays bucket front =
    ((m.listBucket bucket front).map Prod.fst).filter fun key => ¬utf8 front <+: utf8 key := by
  rw [map_fst_listBucket, List.filter_filter, strays]
  congr 1
  funext key
  simp [Bool.and_comm]

theorem length_listed : ((m.listBucket bucket front).map Prod.fst).length =
    (m.keysFrom bucket front).length + (m.strays bucket front).length := by
  rw [keysFrom_eq_filter, strays_eq_filter,
    List.length_eq_length_filter_add fun key => decide (utf8 front <+: utf8 key)]
  simp

theorem take_listed_iff (n : ℕ) :
    ((m.listBucket bucket front).map Prod.fst).take n = (m.keysFrom bucket front).take n ↔
      ∀ key ∈ m.strays bucket front, n ≤ ((m.keysFrom bucket front).filter (· < key)).length := by
  have hsorted : ((m.listBucket bucket front).map Prod.fst).Pairwise (· < ·) := by
    rw [map_fst_listBucket]
    exact (m.pairwise_keysOf bucket).filter _
  rw [keysFrom_eq_filter, take_eq_take_filter_iff hsorted, strays_eq_filter]
  simp

end BucketMapper

/-- A listing comes out right. -/
structure ListUri.Fits (u : ListUri) (m : BucketMapper) : Prop where
  /-- The number that the client gives is understood, or does not matter. -/
  inRange : u.maxKeys < 2 ^ 32 ∨ (m.keysFrom u.bucket u.front).length ≤ 1000
  /-- The keys that `LIKE` takes by mistake come after those that are shown. -/
  late : ∀ key ∈ m.strays u.bucket u.front,
    u.limit ≤ ((m.keysFrom u.bucket u.front).filter (· < key)).length
  /-- They are not the only ones that are not shown. If the number of keys does not fit into 32 bits
      and what is left of it is small, then all keys have to be shown. -/
  more : if 2 ^ 32 ≤ (m.keysFrom u.bucket u.front).length + (m.strays u.bucket u.front).length ∧
      ((m.keysFrom u.bucket u.front).length + (m.strays u.bucket u.front).length) % 2 ^ 32 ≤ u.limit
    then (m.keysFrom u.bucket u.front).length ≤ u.maxKeys
    else m.strays u.bucket u.front ≠ [] → u.maxKeys < (m.keysFrom u.bucket u.front).length

namespace ListUri

variable (u : ListUri) (m : BucketMapper)

theorem take_maxKeys (h : u.maxKeys < 2 ^ 32 ∨ (m.keysFrom u.bucket u.front).length ≤ 1000) :
    (m.keysFrom u.bucket u.front).take u.maxKeys = (m.keysFrom u.bucket u.front).take u.limit := by
  rw [limit]
  split_ifs with hmax
  · rfl
  · have hlength := h.resolve_left hmax
    rw [List.take_of_length_le hlength, List.take_of_length_le (by omega)]

/-- The flag is right, once the keys are. -/
theorem flag_iff (inRange : u.maxKeys < 2 ^ 32 ∨ (m.keysFrom u.bucket u.front).length ≤ 1000)
    (late : ∀ key ∈ m.strays u.bucket u.front,
      u.limit ≤ ((m.keysFrom u.bucket u.front).filter (· < key)).length) :
    (u.limit < ((m.listBucket u.bucket u.front).map Prod.fst).length % 2 ^ 32 ↔
      u.maxKeys < (m.keysFrom u.bucket u.front).length) ↔
    if 2 ^ 32 ≤ (m.keysFrom u.bucket u.front).length + (m.strays u.bucket u.front).length ∧
      ((m.keysFrom u.bucket u.front).length + (m.strays u.bucket u.front).length) % 2 ^ 32 ≤ u.limit
    then (m.keysFrom u.bucket u.front).length ≤ u.maxKeys
    else m.strays u.bucket u.front ≠ [] → u.maxKeys < (m.keysFrom u.bucket u.front).length := by
  have hlate : m.strays u.bucket u.front ≠ [] → u.limit ≤ (m.keysFrom u.bucket u.front).length := by
    intro hne
    obtain ⟨key, hkey⟩ := List.exists_mem_of_ne_nil _ hne
    exact (late key hkey).trans (List.length_filter_le ..)
  have hlimit : u.maxKeys < 2 ^ 32 ∧ u.limit = u.maxKeys ∨ 2 ^ 32 ≤ u.maxKeys ∧ u.limit = 1000 := by
    rw [limit]
    split_ifs with hmax
    · exact .inl ⟨hmax, rfl⟩
    · exact .inr ⟨not_lt.1 hmax, rfl⟩
  rw [m.length_listed, ← List.length_pos_iff] at *
  generalize (m.keysFrom u.bucket u.front).length = keys at *
  generalize (m.strays u.bucket u.front).length = strays at *
  generalize u.limit = limit at *
  split_ifs with h
  · omega
  · omega

theorem fits_iff :
    u.Fits m ↔
      ((m.listBucket u.bucket u.front).map Prod.fst).take u.limit =
          (m.keysFrom u.bucket u.front).take u.maxKeys ∧
        (u.limit < ((m.listBucket u.bucket u.front).map Prod.fst).length % 2 ^ 32 ↔
          u.maxKeys < (m.keysFrom u.bucket u.front).length) := by
  constructor
  · rintro ⟨inRange, late, more⟩
    rw [u.take_maxKeys m inRange, m.take_listed_iff, u.flag_iff m inRange late]
    exact ⟨late, more⟩
  · rintro ⟨hkeys, hflag⟩
    have inRange : u.maxKeys < 2 ^ 32 ∨ (m.keysFrom u.bucket u.front).length ≤ 1000 := by
      rcases Nat.lt_or_ge u.maxKeys (2 ^ 32) with hmax | hmax
      · exact .inl hmax
      · have hlength := congrArg List.length hkeys
        rw [List.length_take, List.length_take, limit, if_neg (not_lt.2 hmax)] at hlength
        omega
    rw [u.take_maxKeys m inRange, m.take_listed_iff] at hkeys
    exact ⟨inRange, hkeys, (u.flag_iff m inRange hkeys).1 hflag⟩

end ListUri

/-- A listing shows the first of the keys that begin with the text, their number, and whether there
    are more, exactly if the keys that `LIKE` takes by mistake come late enough. -/
theorem listing_exact_iff (E : Engine) (sv : Server) (d : FrontDraws) (body : Option Bytes)
    (u : ListUri) :
    ∃ response, (handleS3 d .get u.uri body).run (ServerPrim.step E) sv = (.ok response, sv) ∧
      (ShowsListing response ((sv.mapper.keysFrom u.bucket u.front).take u.maxKeys)
          ((sv.mapper.keysFrom u.bucket u.front).take u.maxKeys).length
          (decide (u.maxKeys < (sv.mapper.keysFrom u.bucket u.front).length)) ↔
        u.Fits sv.mapper) := by
  obtain ⟨response, hrun, hshows⟩ := u.run_handleS3 E sv d body
  refine ⟨response, hrun, ?_⟩
  rw [u.fits_iff]
  constructor
  · intro hspec
    obtain ⟨hkeys, _, hflag⟩ := hshows.unique hspec
    exact ⟨hkeys, decide_eq_decide.1 hflag⟩
  · rintro ⟨hkeys, hflag⟩
    rwa [hkeys, decide_eq_decide.2 hflag] at hshows

/-- A server with one object. -/
def Server.oneKey (bucket key : String) : Server :=
  { Server.start fun _ _ => none with mapper := BucketMapper.empty.register bucket key "name" }

/-- Up to two keys of the bucket `"photos"` that begin with `"a_"`. -/
def ListUri.underscore : ListUri where
  bucket := "photos"
  front := "a_"
  maxKeys := 2
  bucket_ne := by decide
  slash_notMem_bucket := by decide
  mark_notMem_bucket := by decide
  mark_notMem_front := by decide
  amp_notMem_front := by decide

/-- The underscore stands for any character: a key is shown that does not begin with the text. -/
theorem listing_shows_stray :
    ∃ response,
      (handleS3 (.sample 0) .get "/photos?prefix=a_&max-keys=2" none).run (ServerPrim.step .plain)
        (Server.oneKey "photos" "axb") = (.ok response, Server.oneKey "photos" "axb") ∧
      ShowsListing response ["axb"] 1 false ∧ ¬utf8 "a_" <+: utf8 "axb" ∧
      ¬ShowsListing response [] 0 false := by
  obtain ⟨response, hrun, hshows⟩ :=
    ListUri.underscore.run_handleS3 .plain (Server.oneKey "photos" "axb") (.sample 0) none
  have hrows : (Server.oneKey "photos" "axb").mapper.rows.rows = [⟨"photos", "axb", "name"⟩] := by
    decide
  have hlisted : ((Server.oneKey "photos" "axb").mapper.listBucket "photos" "a_").map Prod.fst =
      ["axb"] := by
    have hfilter : ([⟨"photos", "axb", "name"⟩] : List Mapping).filter (fun row =>
        row.bucket = "photos" ∧ like ("a_".toList ++ ['%']) row.key.toList) =
        [⟨"photos", "axb", "name"⟩] := by decide
    rw [BucketMapper.listBucket, hrows, hfilter, List.mergeSort_singleton]
    rfl
  have hshows' : ShowsListing response ["axb"] 1 false := by
    change ShowsListing response
      ((((Server.oneKey "photos" "axb").mapper.listBucket "photos" "a_").map Prod.fst).take 2)
      ((((Server.oneKey "photos" "axb").mapper.listBucket "photos" "a_").map Prod.fst).take 2).length
      (decide (2 < (((Server.oneKey "photos" "axb").mapper.listBucket "photos" "a_").map
        Prod.fst).length % 2 ^ 32)) at hshows
    rwa [hlisted] at hshows
  refine ⟨response, hrun, hshows', by decide, fun h => ?_⟩
  exact absurd (hshows'.unique h).1 (by decide)

end LiNaStore
