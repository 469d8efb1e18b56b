import Web3Proxy.JSONRPCValidators
import Web3Proxy.Lib.Http.Message
import Web3Proxy.RPCRequest

/-!
# Web3Proxy.RPCResponse

What the constructor of `RPCResponse` makes of the bytes of a response
(`rpcresponse.py`): the status line, the headers and the content, which is decoded and,
unless the headers say otherwise, parsed as JSON.  `is_complete_raw_response` looks at the
bytes received so far.
-/

namespace Web3Proxy

open Py Bytes

/-- The content of an `RPCResponse`. -/
inductive ResponseContent where
  | text (s : String)
  | bytes (b : Bytes)
  | json (value : Json)

/-- `RPCResponse`, without the request. -/
structure RPCResponse where
  raw : Bytes
  statusCode : Option Int := none
  status : Option String := none
  protocol : Option String := none
  headers : Option (Dict String String) := none
  content : ResponseContent := .text ""

namespace RPCResponse

/-- `bytes(b).decode("utf-8")`. -/
def decodeUtf8 (b : Bytes) : Except PyError String :=
  match decode b with
  | none => .error .unicodeDecodeError
  | some s => .ok s

/-- `int(b)`: an optional sign and digits, which single underscores may group. -/
def toInt (b : Bytes) : Except PyError Int :=
  let b := strip b
  let sign := b.head?
  let groups := (if sign = some 45 ∨ sign = some 43 then b.tail else b).splitOn 95
  match if groups.all (· ≠ []) then Http.numeral 10 groups.flatten else none with
  | none => .error .valueError
  | some n => .ok (if sign = some 45 then -n else n)

/-- One step of the loop of `_parse_headers`. -/
def parseHeader (headers : Dict String String) (rawHeader : Bytes) :
    Except PyError (Dict String String) := do
  let header ← decodeUtf8 rawHeader
  let (name, value) := partition [':'] header.toList
  return headers.set (String.ofList (name.map Char.toLower)) (String.ofList (PyStr.strip value))

/-- `_parse_headers(headers_data)`. -/
def parseHeaders (headersData : Bytes) : Except PyError (Dict String String) :=
  let rawHeadersList := splitCrlf headersData
  (if rawHeadersList.getLast? = some [] then rawHeadersList.dropLast else rawHeadersList).foldlM
    parseHeader .empty

/-- `needle in haystack`. -/
def isIn (needle haystack : String) : Bool :=
  haystack.toList.tails.any needle.toList.isPrefixOf

/-- `_is_compressed(headers)`. -/
def isCompressed (headers : Dict String String) : Bool :=
  isIn "gzip" ((headers.get? "content-encoding").getD "")

/-- `_is_chunked(headers)`. -/
def isChunked (headers : Dict String String) : Bool :=
  isIn "chunked" ((headers.get? "transfer-encoding").getD "")

/-- `_verify_completion(body, headers)`. -/
def verifyCompletion (body : Bytes) (headers : Dict String String) : Except PyError Bool :=
  if isChunked headers then .ok ((str "0\r\n\r\n").isSuffixOf body)
  else do
    let contentLength ← match headers.get? "content-length" with
      | none => .ok 0
      | some value => toInt (str value)
    return body.length = contentLength

/-- `_process_content(body)`: the content. -/
def processContent (loads : String → Option Json) (headers : Dict String String) (body : Bytes) :
    Except PyError ResponseContent :=
  if isCompressed headers then .ok (.bytes body)
  else do
    let content ← decodeUtf8 body
    if content ≠ "" ∧ !isChunked headers ∧
        ((headers.get? "content-type").getD "").toList.map Char.toLower ≠ "text/plain".toList then
      if ← verifyCompletion body headers then
        match loads content with
        | none => .error .valueError
        | some value => return .json value
      else return .text content
    else return .text content

/-- `_parse_response(raw_data)`. -/
def parseResponse (loads : String → Option Json) (rawData : Bytes) : Except PyError RPCResponse := do
  let (head, body) := partition (crlf ++ crlf) rawData
  let (statusLine, headers) := partition crlf head
  let (protocol, status) := partition [32] statusLine
  let statusCode ← toInt (status.take 3)
  let statusText ← decodeUtf8 (status.drop 4)
  let protocol ← decodeUtf8 protocol
  let headers ← parseHeaders headers
  let content ← processContent loads headers body
  return { raw := rawData, statusCode, status := statusText, protocol, headers, content }

/-- `RPCResponse(data, request)`. -/
def new (loads : String → Option Json) (data : Bytes) : Except PyError RPCResponse :=
  if (str "HTTP").isPrefixOf data then parseResponse loads data else .ok { raw := data }

/-! ## is_complete_raw_response -/

/-- `_separate_head_from_body(raw_data)`. -/
def separateHeadFromBody (rawData : Bytes) : Option Bytes × Bytes :=
  if (str "HTTP").isPrefixOf rawData then
    let (head, body) := partition (crlf ++ crlf) rawData
    (some head, body)
  else (none, rawData)

/-- `is_complete_raw_response(raw_data)`. -/
def isCompleteRawResponse (rawData : Bytes) : Except PyError Bool :=
  match separateHeadFromBody rawData with
  -- `_is_chunked(None)` is `True`
  | (none, body) => .ok ((str "0\r\n\r\n").isSuffixOf body)
  | (some head, body) => do
      let headers ← parseHeaders (partition crlf head).2
      verifyCompletion body headers

end RPCResponse

end Web3Proxy
