import SauronId.Json
import SauronId.Lib.Fallible
import SauronId.Lib.Text

namespace SauronId.Egress

open Lib Lib.Text

abbrev Fields := List (String × Json)

def text (o : Fields) (name : String) : Option String := (o.lookup name).bind Json.asStr

def number (o : Fields) (name : String) : Option ℕ := (o.lookup name).bind Json.asU64

def items (o : Fields) (name : String) : Option (List Json) := (o.lookup name).bind Json.asArray

def fieldNames : List String :=
  ["host", "methods", "path_prefix", "inject_credential", "request_body", "response_body",
    "max_request_bytes", "max_response_bytes", "allowed_headers"]

def httpMethods : List String := ["GET", "POST", "PUT", "PATCH", "DELETE", "HEAD", "OPTIONS"]

def forbiddenHeaders : List String :=
  ["host", "content-length", "connection", "keep-alive", "transfer-encoding", "te", "trailer",
    "upgrade", "expect", "proxy-authorization", "proxy-connection", "x-forwarded-for",
    "x-forwarded-host", "x-forwarded-proto", "x-real-ip"]

def startsWith (start s : String) : Bool := start.toList <+: s.toList

def headerForbidden (name : String) : Bool :=
  let n := toAsciiLowercase (trim name)
  forbiddenHeaders.contains n || startsWith "x-sauron-" n || startsWith "proxy-" n

def trimEndSlashes (s : String) : String :=
  String.ofList (s.toList.reverse.dropWhile (fun c ↦ c = '/')).reverse

def maxRespBytes (setting : Option String) : ℕ :=
  ((setting.bind (parseUnsigned (2 ^ 64 - 1))).filter (fun n ↦ 0 < n)).getD 1048576

section Validator

-- `headerName` says which texts the HTTP library takes for the name of a header
variable (headerName : String → Bool) (label : String) (o : Fields)

def validateFields : Except String Unit :=
  match (o.map Prod.fst).find? (fun k ↦ !fieldNames.contains k) with
  | some field => .error (label ++ " has unknown field '" ++ field ++ "'")
  | none => .ok ()

def validateHost : Except String Unit :=
  let host := (text o "host").getD ""
  ensure (host ≠ "" ∧ '*' ∉ host.toList ∧ '/' ∉ host.toList ∧ '@' ∉ host.toList)
    (label ++ ".host must be an exact host")

def validateMethod (method : Json) : Except String Unit :=
  match method.asStr with
  | none => .error (label ++ ".methods must be strings")
  | some s =>
    let s := toAsciiUppercase s
    ensure (s ∈ httpMethods) (label ++ " forbids method '" ++ s ++ "'")

def validateMethods : Except String Unit :=
  match (items o "methods").filter (fun ms ↦ !ms.isEmpty) with
  | none => .error (label ++ ".methods must be non-empty")
  | some ms => ms.forM (validateMethod label)

def validatePathPrefix : Except String Unit :=
  let p := (text o "path_prefix").getD ""
  ensure (startsWith "/" p = true ∧ trimEndSlashes p ≠ "")
    (label ++ ".path_prefix must be narrower than '/'")

def validateBody (name other : String) : Except String Unit :=
  ensure (text o name = some "allow" ∨ text o name = some other)
    (label ++ "." ++ name ++ " is required")

def validateCap (name : String) (low high : ℕ) : Except String Unit :=
  ensure ((number o name).any (fun n ↦ low ≤ n ∧ n ≤ high) = true)
    (label ++ "." ++ name ++ " is invalid")

def validateHeader (header : Json) : Except String Unit :=
  match header.asStr with
  | none => .error (label ++ ".allowed_headers must be strings")
  | some name => ensure (name ≠ "" ∧ headerForbidden name = false ∧ headerName name = true)
      (label ++ " contains forbidden header '" ++ name ++ "'")

def validateHeaders : Except String Unit :=
  match items o "allowed_headers" with
  | none => .error (label ++ ".allowed_headers is required")
  | some hs => hs.forM (validateHeader headerName label)

def validateCredential : Except String Unit :=
  ensureSome (o.lookup "inject_credential") (fun c ↦
    ensure (c.asStr.any (fun v ↦ trim v ≠ "") = true) (label ++ ".inject_credential is invalid"))

def validateEntry (entry : Json) : Except String Unit :=
  match entry with
  | .obj o => do
    validateFields label o
    validateHost label o
    validateMethods label o
    validatePathPrefix label o
    validateBody label o "request_body" "deny"
    validateBody label o "response_body" "digest_only"
    validateCap label o "max_request_bytes" 0 4194304
    validateCap label o "max_response_bytes" 1 1048576
    validateHeaders headerName label o
    validateCredential label o
  | _ => .error (label ++ " must be a structured object")

end Validator

def validateProductionEgressPolicy (headerName : String → Bool) (intent : Json) :
    Except String Unit :=
  match intent.get "egress_allowlist" with
  | none => .ok ()
  | some list =>
    match list.asArray with
    | none => .error "egress_allowlist must be an array"
    | some entries => entries.zipIdx.forM (fun (entry, index) ↦
        validateEntry headerName ("egress_allowlist[" ++ toString index ++ "]") entry)

structure EgressMatch where
  injectCredential : Option String
  (requestBodyAllowed responseBodyAllowed : Bool)
  (maxRequestBytes maxResponseBytes : ℕ)
  allowedHeaders : List String

section Matcher

variable (limit : ℕ) (host method path : String) (strict : Bool)

def methodsCover : Option (List Json) → Bool
  | some ms => !(strict && ms.isEmpty) &&
      (ms.filterMap Json.asStr).any (fun m ↦ eqIgnoreAsciiCase m method)
  | none => !strict

def pathCovered : Option String → Bool
  | some p =>
    let p := trimEndSlashes p
    !(strict && (p = "" || !startsWith "/" p)) && (path = p || startsWith (p ++ "/") path)
  | none => !strict

def bodyRule (other : String) : Option String → Option Bool
  | some v => if v = "allow" then some true else if v = other then some false else none
  | none => if strict then none else some true

def normalHeaders (hs : List Json) : List String :=
  ((hs.filterMap Json.asStr).map (fun v ↦ toAsciiLowercase (trim v))).filter
    (fun v ↦ v ≠ "" && !headerForbidden v)

/-- What the loop of `egress_match` does with one entry. A development runtime
also takes a bare host, which is not strict. -/
def matchEntry : Json → Option EgressMatch
  | .str s =>
    if strict = false ∧ eqIgnoreAsciiCase s host = true then
      some ⟨none, true, true, 262144, limit, []⟩
    else none
  | .obj o => do
    guard (strict = true → (o.map Prod.fst).all (fun k ↦ fieldNames.contains k) = true)
    guard (eqIgnoreAsciiCase ((text o "host").getD "") host = true)
    guard (methodsCover method strict (items o "methods") = true)
    guard (pathCovered path strict (text o "path_prefix") = true)
    let requestBodyAllowed ← bodyRule strict "deny" (text o "request_body")
    let responseBodyAllowed ← bodyRule strict "digest_only" (text o "response_body")
    let maxRequestBytes := (number o "max_request_bytes").filter (fun n ↦ n ≤ 4194304)
    let maxResponseBytes := (number o "max_response_bytes").filter (fun n ↦ 0 < n ∧ n ≤ limit)
    guard (strict = true → maxRequestBytes.isSome = true ∧ maxResponseBytes.isSome = true)
    let allowedHeaders := (items o "allowed_headers").map normalHeaders
    guard (strict = true → allowedHeaders.isSome = true)
    return {
      injectCredential := text o "inject_credential"
      requestBodyAllowed := requestBodyAllowed
      responseBodyAllowed := responseBodyAllowed
      maxRequestBytes := maxRequestBytes.getD 262144
      maxResponseBytes := maxResponseBytes.getD limit
      allowedHeaders := allowedHeaders.getD [] }
  | _ => none

def egressMatch (intent : Json) : Option EgressMatch := do
  let entries ← (intent.get "egress_allowlist").bind Json.asArray
  entries.findSome? (matchEntry limit host method path strict)

end Matcher

end SauronId.Egress
