import Web3Proxy.ErrorResponses
import Web3Proxy.Lib.Http.Delivery

/-!
# Web3Proxy.RequestReader

Reading a request from a client socket (`requestreader.py`): the listener that
the HTTP parser calls back, and the loop that feeds the parser with what the
socket delivers.

The parser is `httptools`, which is not part of the repository: a `HttpTools`
says, for each piece fed, which callbacks are made and whether the piece is
accepted.  A socket is the list of what its reads return.
-/

namespace Web3Proxy

open Py Bytes Http

/-! ## the listener -/

/-- `HttpRequestParserListener`. -/
structure HttpRequestParserListener where
  req : RPCRequest
  needMoreData : Bool := true
deriving DecidableEq, Repr

namespace HttpRequestParserListener

variable (l : HttpRequestParserListener)

/-- `HttpRequestParserListener(req)`. -/
def new (req : RPCRequest) : HttpRequestParserListener :=
  { req := { req with headers := some [] } }

/-- Assign to fields of the request. -/
def modifyReq (f : RPCRequest → RPCRequest) : HttpRequestParserListener := { l with req := f l.req }

/-- `on_url(url)`. -/
def onUrl (url : Bytes) : Result HttpRequestParserListener Unit :=
  if url.length < 2 then .ok () (l.modifyReq fun req => { req with userApiKey := none })
  else match url.find 47 1 with
    | some i =>
        match decode ((url.take i).drop 1) with
        | none => .raise .unicodeDecodeError l
        | some key =>
            .ok () (l.modifyReq fun req =>
              { req with userApiKey := some key, urlPath := some (url.drop (i + 1)) })
    | none =>
        match decode (url.drop 1) with
        | none => .raise .unicodeDecodeError l
        | some key => .ok () (l.modifyReq fun req => { req with userApiKey := some key })

/-- `on_header(name, value)`, which does not raise. -/
def onHeader (name value : Bytes) : HttpRequestParserListener :=
  if lower name = str "host" then l
  else if lower name = str "connection" then
    l.modifyReq fun req => { req with keepAlive := value ≠ str "close" }
  else if lower name = str "origin" then
    l.modifyReq fun req => { req with corsOrigin := some value }
  else
    l.modifyReq fun req =>
      { req with headers := some (req.headers.getD [] ++ name ++ str ": " ++ value ++ crlf) }

/-- `on_body(body)`. -/
def onBody (body : Bytes) : HttpRequestParserListener :=
  l.modifyReq fun req => { req with content := some body, contentLen := body.length }

/-- `on_message_complete()`. -/
def onMessageComplete : HttpRequestParserListener := { l with needMoreData := false }

/-- The callback for what the parser reports. -/
def call : Event → HttpRequestParserListener → Result HttpRequestParserListener Unit
  | .target url, l => l.onUrl url
  | .field name value, l => .ok () (l.onHeader name value)
  | .data body, l => .ok () (l.onBody body)
  | .complete, l => .ok () l.onMessageComplete

end HttpRequestParserListener

/-! ## the parser and the socket -/

/-- `httptools.HttpRequestParser`: `feedData` is the reports that a piece of data
leads to, and the parser afterwards, or `none` when it then raises. -/
structure HttpTools where
  Parser : Type
  new : Parser
  feedData : Parser → Bytes → List Event × Option Parser
  getMethod : Parser → Bytes

/-- `feed_data(data)` with a listener.  An exception of a callback is raised as an
`HttpParserError`. -/
def HttpTools.feed (h : HttpTools) (p : h.Parser) (data : Bytes) (l : HttpRequestParserListener) :
    Result HttpRequestParserListener h.Parser :=
  let (reports, p') := h.feedData p data
  match forEach HttpRequestParserListener.call reports l with
  | .raise _ l => .raise .httpParserError l
  | .ok _ l => match p' with
    | none => .raise .httpParserError l
    | some p' => .ok p' l

/-- What waiting for data and reading it comes to: nothing in time, some bytes
(none when the client has closed the connection), or an `IOError`. -/
inductive SocketRead where
  | notReady
  | data (bytes : Bytes)
  | ioError
deriving DecidableEq, Repr

/-! ## read_request -/

/-- What a reader returns: a request, an error reply with the request it is for (the
`RPCResponse` that `failure` makes of the reply), or neither; or it raises. -/
inductive ReadOutcome where
  | success (req : RPCRequest)
  | failure (err : Bytes) (req : RPCRequest)
  | drop
  | raise (e : PyError)
deriving DecidableEq, Repr

namespace RequestReader

/-- How the loop of `read_request` ends. -/
inductive LoopOutcome (h : HttpTools) where
  | complete (p : h.Parser) (req : RPCRequest) (rest : List SocketRead)
  | malformed (req : RPCRequest) (rest : List SocketRead)
  | drop (req : RPCRequest) (rest : List SocketRead)

/-- The loop of `read_request`.  A socket that delivers nothing more is not ready. -/
def readLoop (h : HttpTools) :
    List SocketRead → h.Parser → HttpRequestParserListener → LoopOutcome h
  | [], p, l => if l.needMoreData then .drop l.req [] else .complete p l.req []
  | r :: rest, p, l =>
      if l.needMoreData then
        match r with
        | .notReady => .drop l.req rest
        | .ioError => .drop l.req rest
        | .data bytes =>
            if bytes = [] then .drop l.req rest
            else match h.feed p bytes l with
              | .ok p l => readLoop h rest p l
              | .raise _ l => .malformed l.req rest
      else .complete p l.req (r :: rest)

/-- `read_request` after the loop, for a request that is complete. -/
def dispatch (nextReader : Option (RPCRequest → ReadOutcome)) (req : RPCRequest) : ReadOutcome :=
  if req.httpMethod = some (str "POST") then
    if req.content.all fun content => req.contentLen == 0 || isBlank content then
      .failure ErrorResponses.httpBadRequest req
    else match nextReader with
      | some next => next req
      | none => .success req
  else if req.httpMethod = some (str "OPTIONS") then .success req
  else .failure ErrorResponses.httpMethodNotAllowed req

/-- `read_request(cs, req)`, and what is left to read from the socket. -/
def readRequest (h : HttpTools) (nextReader : Option (RPCRequest → ReadOutcome))
    (cs : List SocketRead) (req : RPCRequest) : ReadOutcome × List SocketRead :=
  match readLoop h cs h.new (HttpRequestParserListener.new req) with
  | .drop _ rest => (.drop, rest)
  | .malformed req rest =>
      (.failure ErrorResponses.httpBadRequest { req with keepAlive := false }, rest)
  | .complete p req rest =>
      (dispatch nextReader { req with httpMethod := some (h.getMethod p) }, rest)

end RequestReader

end Web3Proxy
