import LiNaStore.Library.Decimal
import LiNaStore.Server.Waitress

/-!
# The S3 front end

Requests over HTTP, with the bucket and the key in the path (`handleS3`). A new object
gets a new name, as in the advanced protocol; a deletion takes the object out of the
mapper as well, and is answered in the same way whether or not there was one.
-/

namespace LiNaStore

open Program

/-! ## Texts -/

def parseU32 (text : String) : Option ℕ := Decimal.parseUnsigned 32 text.toList

def s3XmlNamespace : String := "http://s3.amazonaws.com/doc/2006-03-01/"

def s3ErrorXml (code message resource : String) : String :=
  "<?xml version=\"1.0\" encoding=\"UTF-8\"?>\n<Error><Code>" ++ code ++ "</Code><Message>" ++
    message ++ "</Message><Resource>" ++ resource ++ "</Resource></Error>"

/-- The text with every `c` replaced. -/
def replaceChar (c : Char) (replacement text : String) : String :=
  String.join (text.toList.map fun c' => if c' = c then replacement else c'.toString)

def escapeXml (s : String) : String :=
  replaceChar '"' "&quot;" (replaceChar '\'' "&apos;" (replaceChar '>' "&gt;"
    (replaceChar '<' "&lt;" (replaceChar '&' "&amp;" s))))

def listBucketsXml (buckets : List String) : String :=
  let inner := String.join (buckets.map fun b =>
    "<Bucket><Name>" ++ escapeXml b ++ "</Name></Bucket>")
  "<?xml version=\"1.0\" encoding=\"UTF-8\"?>\n<ListAllMyBucketsResult xmlns=\"" ++
    s3XmlNamespace ++ "\"><Buckets>" ++ inner ++ "</Buckets></ListAllMyBucketsResult>"

def listObjectsXml (files : List (String × String)) (bucket front : String) (maxKeys : ℕ)
    (isTruncated : Bool) : String :=
  let contents := String.join (files.map fun file =>
    "<Contents><Key>" ++ escapeXml file.1 ++
      "</Key><Size>0</Size><StorageClass>STANDARD</StorageClass></Contents>")
  "<?xml version=\"1.0\" encoding=\"UTF-8\"?>\n<ListBucketResult xmlns=\"" ++ s3XmlNamespace ++
    "\"><IsTruncated>" ++ (if isTruncated then "true" else "false") ++ "</IsTruncated><Name>" ++
    escapeXml bucket ++ "</Name><Prefix>" ++ escapeXml front ++ "</Prefix><MaxKeys>" ++
    toString maxKeys ++ "</MaxKeys><KeyCount>" ++ toString files.length ++ "</KeyCount>" ++
    contents ++ "</ListBucketResult>"

def getMimeType (filename : String) : String :=
  match pathExtension filename with
  | "jpeg" | "jpg" => "image/jpeg"
  | "png" => "image/png"
  | "mp4" => "video/mp4"
  | "pdf" => "application/pdf"
  | "txt" => "text/plain"
  | "json" => "application/json"
  | "html" => "text/html"
  | _ => "application/octet-stream"

/-- The bucket and the key in a path, as far as there are. -/
def parseS3Path (path : String) : Option String × Option String :=
  let path := (stripFront "/" path).getD path
  if path = "" then (none, none)
  else
    let bucket := path.toList.takeWhile (· ≠ '/')
    match path.toList.dropWhile (· ≠ '/') with
    | [] => (some path, none)
    | _ :: key => (some (.ofList bucket), some (.ofList key))

/-! ## Responses -/

inductive Method
  | get
  | head
  | put
  | delete
  | other
  deriving DecidableEq, Repr

structure HttpResponse where
  status : ℕ
  headers : List (String × String)
  body : Bytes
  deriving DecidableEq, Repr

def buildResponse (status : ℕ) (body contentType : String) : HttpResponse :=
  ⟨status, [("Content-Type", contentType), ("Content-Length", toString (utf8 body).length)],
    utf8 body⟩

def buildEmptyResponse (status : ℕ) : HttpResponse := ⟨status, [], []⟩

/-- The tag of an object, drawn anew for every response. -/
def etag (d : FrontDraws) : String × String :=
  ("ETag", "\"" ++ .ofList (d.etag.bytes.flatMap hexDigits) ++ "\"")

/-- The response with an object; `body` is left out for `HEAD`. -/
def objectResponse (d : FrontDraws) (key : String) (data body : Bytes) : HttpResponse :=
  ⟨200, [("Content-Type", getMimeType key), ("Content-Length", toString data.length), etag d], body⟩

/-! ## Requests -/

/-- The order for a request. -/
def queuePkg (d : FrontDraws) (behavior : Behavior) (identifier : String) (data : Bytes) :
    Package :=
  let package := Package.newWithId d.uniId.bytes
  { package with
    behavior, content := { package.content with identifier := utf8 identifier, data } }

theorem identifier_queuePkg (d : FrontDraws) (behavior : Behavior) (identifier : String)
    (data : Bytes) :
    (queuePkg d behavior identifier data).content.identifier = utf8 identifier := rfl

/-- Give an order and wait for the answer; a status other than success is an error. -/
def processThroughQueue (d : FrontDraws) (behavior : Behavior) (identifier : String)
    (data : Bytes) : ServerProg (Except Status Package) := do
  match ← (ask (.order d.worker (queuePkg d behavior identifier data))).attempt with
  | .ok pkg => return if pkg.status = .success then .ok pkg else .error pkg.status
  | .error _ => return .error .internalError

/-- The name of an object; none also if the mapper cannot be asked. -/
def resolveName (bucket key : String) : ServerProg (Option String) := do
  match ← (ask (.resolve bucket key)).attempt with
  | .ok name => return name
  | .error _ => return none

def noSuchKey (key : String) : HttpResponse :=
  buildResponse 404 (s3ErrorXml "NoSuchKey" "The specified key does not exist." key)
    "application/xml"

def getObject (d : FrontDraws) (bucket key : String) : ServerProg HttpResponse := do
  match ← resolveName bucket key with
  | some name =>
    match ← processThroughQueue d .getFile name [] with
    | .ok pkg => return objectResponse d key pkg.content.data pkg.content.data
    | .error .fileNotFound => return noSuchKey key
    | .error _ =>
      return buildResponse 500 (s3ErrorXml "InternalError" "Internal server error" key)
        "application/xml"
  | none => return noSuchKey key

def headObject (d : FrontDraws) (bucket key : String) : ServerProg HttpResponse := do
  match ← resolveName bucket key with
  | some name =>
    match ← processThroughQueue d .getFile name [] with
    | .ok pkg => return objectResponse d key pkg.content.data []
    | .error _ => return buildEmptyResponse 404
  | none => return buildEmptyResponse 404

/-- Write an object; `body` is none if it could not be read. -/
def putObject (d : FrontDraws) (bucket key : String) (body : Option Bytes) :
    ServerProg HttpResponse :=
  match body with
  | none =>
    pure (buildResponse 400 (s3ErrorXml "BadRequest" "Failed to read request body" key)
      "application/xml")
  | some bodyBytes => do
    (ask (.register bucket key d.internalName.text)).ignore
    match ← processThroughQueue d .putFile d.internalName.text bodyBytes with
    | .ok _ => return ⟨200, [etag d], []⟩
    | .error _ =>
      return buildResponse 500 (s3ErrorXml "InternalError" "Failed to store object" key)
        "application/xml"

def deleteObject (d : FrontDraws) (bucket key : String) : ServerProg HttpResponse := do
  match ← resolveName bucket key with
  | some name => do
    (ask (.deleteMapping bucket key)).ignore
    let _ ← processThroughQueue d .deleteFile name []
    return buildEmptyResponse 204
  | none => return buildEmptyResponse 204

/-- The list of buckets; a fixed one if the mapper cannot be asked. -/
def listAllBuckets : ServerProg HttpResponse := do
  match ← (ask .listBuckets).attempt with
  | .ok buckets => return buildResponse 200 (listBucketsXml buckets) "application/xml"
  | .error _ => return buildResponse 200 (listBucketsXml ["linastore"]) "application/xml"

/-- The list of the objects of a bucket. -/
def listObjects (bucket query : String) : ServerProg HttpResponse := do
  let parameters := splitOnChar '&' query
  let front := (parameters.findSome? (stripFront "prefix=")).getD ""
  let maxKeys :=
    (parameters.findSome? fun p => (stripFront "max-keys=" p).bind parseU32).getD 1000
  let files ← do
    match ← (ask (.listBucket bucket front)).attempt with
    | .ok files => pure files
    | .error _ => pure []
  let isTruncated := maxKeys < files.length % 2 ^ 32
  return buildResponse 200
    (listObjectsXml (files.take maxKeys) bucket front maxKeys isTruncated) "application/xml"

/-- The path and the query of a request. -/
def splitUri (uri : String) : String × String :=
  let parts := splitOnChar '?' uri
  (parts.headD uri, (parts.drop 1).headD "")

/-- Serve a request. -/
def handleS3 (d : FrontDraws) (method : Method) (uri : String) (body : Option Bytes) :
    ServerProg HttpResponse :=
  let (path, query) := splitUri uri
  match method with
  | .get =>
    match parseS3Path path with
    | (none, _) => listAllBuckets
    | (some bucket, none) => listObjects bucket query
    | (some bucket, some key) => getObject d bucket key
  | .head =>
    match parseS3Path path with
    | (_, none) => pure (buildEmptyResponse 400)
    | (some bucket, some key) => headObject d bucket key
    | (none, some _) => pure (buildEmptyResponse 404)
  | .put =>
    match parseS3Path path with
    | (_, none) => pure (buildResponse 200 "" "application/xml")
    | (some bucket, some key) => putObject d bucket key body
    | (none, some _) =>
      pure (buildResponse 400 (s3ErrorXml "BadRequest" "Bucket name required" "") "application/xml")
  | .delete =>
    match parseS3Path path with
    | (some bucket, some key) => deleteObject d bucket key
    | _ => pure (buildEmptyResponse 204)
  | .other =>
    pure (buildResponse 405 (s3ErrorXml "MethodNotAllowed"
      "The specified method is not allowed against this resource." path) "application/xml")

end LiNaStore
