import Web3Proxy.Lib.Py
import Web3Proxy.Lib.PyStr

/-!
# Web3Proxy.RPCRequest

The request that a client's message becomes (`rpcrequest.py`), and the bytes that
are sent to the endpoint for it (`sender.py`).
-/

namespace Web3Proxy

open Py Bytes

/-- The id of a JSON-RPC request, other than `None`. -/
inductive RequestId where
  | int (n : Int)
  | str (s : PyStr)
deriving DecidableEq, Repr

/-- `RPCRequest`, with its defaults. -/
@[ext] structure RPCRequest where
  userApiKey : Option String := none
  urlPath : Option Bytes := none
  headers : Option Bytes := none
  contentLen : Int := -1
  content : Option Bytes := none
  method : String := ""
  id : Option RequestId := none
  priority : Int := 0
  constantPool : Option String := none
  lastQueriedBytes : Option Bytes := none
  keepAlive : Bool := true
  httpMethod : Option Bytes := none
  corsOrigin : Option Bytes := none
deriving DecidableEq, Repr

namespace RPCRequest

/-- The request line and header that the four branches of `as_bytearray` begin
with. -/
def requestLine (req : RPCRequest) (requestLine1 urlContext requestLine2 : Bytes) : Bytes :=
  let urlPath := req.urlPath.getD []
  if urlContext ≠ [] then
    if urlPath ≠ [] then
      requestLine1 ++ str "/" ++ urlContext ++ str "/" ++ urlPath ++ requestLine2
    else requestLine1 ++ str "/" ++ urlContext ++ requestLine2
  else
    if urlPath ≠ [] then requestLine1 ++ str "/" ++ urlPath ++ requestLine2
    else requestLine1 ++ str "/" ++ requestLine2

/-- `as_bytearray(request_line_1, url_context, request_line_2, host_header)`: the
bytes, and the request, which remembers them.  Adding `None` to bytes raises. -/
def asBytearray (req : RPCRequest) (requestLine1 urlContext requestLine2 hostHeader : Bytes) :
    Result RPCRequest Bytes :=
  match req.headers, req.content with
  | some headers, some content =>
      let bytes := req.requestLine requestLine1 urlContext requestLine2 ++ headers ++
        hostHeader ++ content
      .ok bytes { req with lastQueriedBytes := some bytes }
  | _, _ => .raise .typeError req

end RPCRequest

/-- `RequestSender`: what it puts around a request. -/
structure RequestSender where
  urlContext : Bytes
  hostHeaderLast : Bytes
deriving DecidableEq, Repr

namespace RequestSender

/-- `POST_REQUEST_LINE_1`. -/
def postRequestLine1 : Bytes := str "POST "

/-- `POST_REQUEST_LINE_2`. -/
def postRequestLine2 : Bytes := str " HTTP/1.1\r\n"

/-- `RequestSender(sock, host, api_key)`. -/
def new (host apiKey : String) : RequestSender where
  urlContext := str apiKey
  hostHeaderLast := str ("Host: " ++ host ++ "\r\n\r\n")

/-- The bytes that `send_request` sends. -/
def request (s : RequestSender) (req : RPCRequest) : Result RPCRequest Bytes :=
  req.asBytearray postRequestLine1 s.urlContext postRequestLine2 s.hostHeaderLast

end RequestSender

end Web3Proxy
