import Web3Proxy.RPCRequest

/-!
# Web3Proxy.ErrorResponses

The responses that the proxy makes itself: `ErrorResponses` (`errors.py`), whose
JSON replies carry the current date, and `OptionsResponses`
(`optionsresponse.py`).
-/

namespace Web3Proxy

open Py Bytes PyStr

/-- The codes of `ERROR_CODES`. -/
inductive ErrorCode where
  | badRequest
  | unauthorized
  | forbidden
  | methodNotAllowed
  | gone
  | payloadTooLarge
  | tooManyRequests
  | internalServerError
  | serviceUnavailable
deriving DecidableEq, Repr

namespace ErrorCode

/-- The status code. -/
def number : ErrorCode → Nat
  | .badRequest => 400
  | .unauthorized => 401
  | .forbidden => 403
  | .methodNotAllowed => 405
  | .gone => 410
  | .payloadTooLarge => 413
  | .tooManyRequests => 429
  | .internalServerError => 500
  | .serviceUnavailable => 503

/-- The entry of `ERROR_CODES`. -/
def reason : ErrorCode → String
  | .badRequest => "Bad Request"
  | .unauthorized => "Unauthorized"
  | .forbidden => "Forbidden"
  | .methodNotAllowed => "Method Not Allowed"
  | .gone => "Gone"
  | .payloadTooLarge => "Payload Too Large"
  | .tooManyRequests => "Too Many Requests"
  | .internalServerError => "Internal Server Error"
  | .serviceUnavailable => "Service Unavailable"

end ErrorCode

namespace ErrorResponses

/-- `http_error(code, message)`. -/
def httpError (code : ErrorCode) (message : String) : Bytes :=
  str ("HTTP/1.1 " ++ toString code.number ++ " " ++ code.reason ++
    "\r\nContent-Type: text/plain\r\nContent-Length: " ++ toString (message.length + 1) ++
    "\r\n\r\n" ++ message ++ "\n")

/-- `_id or "null"`, as `format` renders it. -/
def formatId : Option RequestId → PyStr
  | none => ofString "null"
  | some (.int n) => ofString (if n = 0 then "null" else toString n)
  | some (.str s) => if s = [] then ofString "null" else s

/-- `web3_json(code, message, _id)`, with the id rendered. -/
def web3Json (code : Int) (message id : PyStr) : PyStr :=
  ofString "\x7b\"jsonrpc\":\"2.0\",\"id\":" ++ id ++
    ofString (",\"error\":\x7b\"code\":" ++ toString code ++ ",\"message\":\"") ++ message ++
      ofString "\"\x7d\x7d"

/-- What `bad_request_web3(code_web3, message, _id)` makes at the date `now`. -/
def badRequestWeb3 (now : String) (codeWeb3 : Int) (message : PyStr) (id : Option RequestId) :
    Bytes :=
  let json := web3Json codeWeb3 message (formatId id)
  let len := (utf8 json).length + 1
  str ("HTTP/1.1 " ++ toString 200 ++ " " ++ "OK" ++
    "\r\nContent-Type: application/json\r\nDate: " ++ now ++ "\r\nContent-Length: " ++
    toString len ++ "\r\n\r\n") ++ utf8 json ++ str "\n"

/-- `bad_request_web3(code_web3, message, _id)`: `to_bytes` raises when the JSON cannot be
encoded. -/
def tryBadRequestWeb3 (now : String) (codeWeb3 : Int) (message : PyStr) (id : Option RequestId) :
    Except PyError Bytes :=
  if isEncodable (web3Json codeWeb3 message (formatId id)) then
    .ok (badRequestWeb3 now codeWeb3 message id)
  else .error .unicodeEncodeError

/-- `forbidden_payment_required(_id)`. -/
def forbiddenPaymentRequired (now : String) (id : Option RequestId) : Except PyError Bytes :=
  tryBadRequestWeb3 now (-(32000 + 3))
    (ofString "You exceeded the limit of calls. Check your plan") id

/-- `parse_error(_id)`. -/
def parseError (now : String) (id : Option RequestId) : Except PyError Bytes :=
  tryBadRequestWeb3 now (-32700) (ofString "Invalid JSON format") id

/-- `connection_error(_id)`. -/
def connectionError (now : String) (id : Option RequestId) : Bytes :=
  badRequestWeb3 now (-32603) (ofString "Could not reach server") id

/-- `http_internal_server_error()`. -/
def httpInternalServerError : Bytes := httpError .internalServerError ""

/-- `http_bad_request()`. -/
def httpBadRequest : Bytes := httpError .badRequest ""

/-- `http_method_not_allowed()`. -/
def httpMethodNotAllowed : Bytes := httpError .methodNotAllowed "Only POST requests are accepted"

/-- `unauthorized_invalid_API_key()`. -/
def unauthorizedInvalidAPIKey (now : String) : Bytes :=
  let data := "\x7b\"error\": \"invalid authentication id\"\x7d"
  str ("HTTP/1.1 401 Unauthorized\r\nContent-Type: text/plain; charset=utf-8\r\nDate: " ++ now ++
    "\r\nContent-Length: " ++ toString (data.length + 1) ++
    "\r\nConnection: keep-alive\r\nVary: Origin\r\nWww-Authenticate: " ++
    "Basic realm=\"Auth failure, invalid authentication id\"\r\nX-Content-Type-Options: " ++
    "nosniff\r\n\r\n" ++ data ++ "\n")

end ErrorResponses

namespace OptionsResponses

/-- `options_response(req)`. -/
def optionsResponse : Bytes :=
  str ("HTTP/1.1 200 OK\r\n" ++
    "Access-Control-Allow-Headers: Content-Type\r\n" ++
    "Access-Control-Allow-Methods: POST, OPTIONS\r\n" ++
    "Access-Control-Allow-Origin: *\r\n" ++
    "Content-Length: 0\r\n" ++
    "\r\n")

end OptionsResponses

end Web3Proxy
