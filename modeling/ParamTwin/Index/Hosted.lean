import ParamTwin.Files.Path
import ParamTwin.Index.Record
import ParamTwin.Json.Reader
import ParamTwin.Settings.Basic
import ParamTwin.Text.Utf8

/-!
# Hosted indexes

The requests that a hosted index is sent and the reading of its responses. Sending is left to a
transport.
-/

namespace ParamTwin

/-- A request to a hosted index: a JSON body posted to a path of the host. -/
structure Request where
  path : String
  body : Json

/-- A response with its status code and body. -/
structure Response where
  status : Nat
  body : Text

/-- What carries requests to a host, which is given with the key. -/
abbrev Transport := String → String → Request → Except Error Response

/-- A hosted index. -/
structure HostedIndex where
  host : String
  namespaceName : String
  apiKey : String
deriving Repr, DecidableEq, Inhabited

namespace HostedIndex

/-- The name under which a failing index is reported. -/
def backend : String := Backend.name .pinecone

/-- The address of a host: without slashes at its end, and with a scheme. -/
def address (host : String) : String :=
  let t := ((Text.trim host.toList).reverse.dropWhile (· = '/')).reverse
  if "http://".toList.isPrefixOf t || "https://".toList.isPrefixOf t then String.ofList t
  else "https://" ++ String.ofList t

/-- The hosted index of some settings. -/
def make (settings : IndexSettings) (apiKey : String) : Except Error HostedIndex := do
  Check.nonBlank settings.host "index.host"
  return {
    host := address (settings.host.getD "")
    namespaceName := settings.namespaceName
    apiKey := apiKey }

/-! ## Targets -/

/-- The standard reason phrase of a status code. -/
def reason? : Nat → Option String
  | 100 => some "Continue"
  | 101 => some "Switching Protocols"
  | 102 => some "Processing"
  | 103 => some "Early Hints"
  | 200 => some "OK"
  | 201 => some "Created"
  | 202 => some "Accepted"
  | 203 => some "Non Authoritative Information"
  | 204 => some "No Content"
  | 205 => some "Reset Content"
  | 206 => some "Partial Content"
  | 207 => some "Multi-Status"
  | 208 => some "Already Reported"
  | 226 => some "IM Used"
  | 300 => some "Multiple Choices"
  | 301 => some "Moved Permanently"
  | 302 => some "Found"
  | 303 => some "See Other"
  | 304 => some "Not Modified"
  | 305 => some "Use Proxy"
  | 307 => some "Temporary Redirect"
  | 308 => some "Permanent Redirect"
  | 400 => some "Bad Request"
  | 401 => some "Unauthorized"
  | 402 => some "Payment Required"
  | 403 => some "Forbidden"
  | 404 => some "Not Found"
  | 405 => some "Method Not Allowed"
  | 406 => some "Not Acceptable"
  | 407 => some "Proxy Authentication Required"
  | 408 => some "Request Timeout"
  | 409 => some "Conflict"
  | 410 => some "Gone"
  | 411 => some "Length Required"
  | 412 => some "Precondition Failed"
  | 413 => some "Payload Too Large"
  | 414 => some "URI Too Long"
  | 415 => some "Unsupported Media Type"
  | 416 => some "Range Not Satisfiable"
  | 417 => some "Expectation Failed"
  | 418 => some "I'm a teapot"
  | 421 => some "Misdirected Request"
  | 422 => some "Unprocessable Entity"
  | 423 => some "Locked"
  | 424 => some "Failed Dependency"
  | 425 => some "Too Early"
  | 426 => some "Upgrade Required"
  | 428 => some "Precondition Required"
  | 429 => some "Too Many Requests"
  | 431 => some "Request Header Fields Too Large"
  | 451 => some "Unavailable For Legal Reasons"
  | 500 => some "Internal Server Error"
  | 501 => some "Not Implemented"
  | 502 => some "Bad Gateway"
  | 503 => some "Service Unavailable"
  | 504 => some "Gateway Timeout"
  | 505 => some "HTTP Version Not Supported"
  | 506 => some "Variant Also Negotiates"
  | 507 => some "Insufficient Storage"
  | 508 => some "Loop Detected"
  | 510 => some "Not Extended"
  | 511 => some "Network Authentication Required"
  | _ => none

/-- A status code with its reason phrase. -/
def statusText (status : Nat) : String :=
  Nat.repr status ++ " " ++ (reason? status).getD "<unknown status code>"

/-- The content of a response; the statuses for which there is none hide what follows them. -/
def content (r : Response) : Text :=
  if r.status = 204 || r.status = 304 then [] else r.body

/-- What a response to a request for `path` holds, if it is a success and can be read. -/
def readResponse {α : Type} (read : Json → Option α) (path : String) (r : Response) :
    Except Error α :=
  if r.status < 200 || 300 ≤ r.status then
    .error (.naming backend
      (path ++ " returned " ++ statusText r.status ++ ": " ++ String.ofList (content r)))
  else
    match (Json.read? (content r)).bind read with
    | some a => .ok a
    | none => .error (.naming "http" "error decoding response body")

/-! ## Queries -/

/-- The path of queries. -/
def queryPath : String := "query"

/-- The request for the best `count` records of a type. -/
def queryRequest (i : HostedIndex) (vector : Embedding) (count : Nat) (typeName : String) :
    Request where
  path := queryPath
  body := .obj [
    ("vector", .arr (vector.map Single.toJson)),
    ("topK", .nat count),
    ("filter", .obj [("paramType", .obj [("$eq", .str typeName)])]),
    ("includeMetadata", .bool true),
    ("namespace", .str i.namespaceName)]

/-- A match with its name, if it has metadata. -/
def readMatch? (j : Json) : Option (Option Hit) := do
  let get ← j.fields ["score", "metadata"]
  let score ← match get "score" with
    | none => some { bits := 0 }
    | some j => Single.ofJson? j
  match get "metadata" with
  | none | some .null => some none
  | some j => do
    let (_, name) ← IndexRecord.readMetadata? j
    some (some { name, score })

/-- The hits of the body of a response. -/
def readHits? (j : Json) : Option (List Hit) := do
  let get ← j.fields ["matches"]
  match get "matches" with
  | none => some []
  | some j => return (← (← j.items?).mapM readMatch?).filterMap id

/-- The hits of a response. -/
def hits (r : Response) : Except Error (List Hit) :=
  readResponse readHits? queryPath r

/-! ## Upserts -/

/-- The path of upserts. -/
def upsertPath : String := "vectors/upsert"

/-- The request to store records; none if there are none. -/
def upsertRequest? (i : HostedIndex) (rs : List IndexRecord) : Option Request :=
  if rs.isEmpty then none
  else
    some {
      path := upsertPath
      body := .obj [
        ("vectors", .arr (rs.map IndexRecord.toJson)),
        ("namespace", .str i.namespaceName)] }

/-- The number of stored records in the body of a response. -/
def readCount? (j : Json) : Option Nat := do
  let get ← j.fields ["upsertedCount"]
  match get "upsertedCount" with
  | none => some 0
  | some j => j.count?

/-- The number of stored records in a response. -/
def upserted (r : Response) : Except Error Nat :=
  readResponse readCount? upsertPath r

end HostedIndex
end ParamTwin
