import Web3Proxy.RPCResponse
import Web3Proxy.RequestReader
import Web3Proxy.StateManager

/-!
# Web3Proxy.Middleware

The request readers behind `RequestReader` (`authenticator.py`,
`jsoncontentvalidator.py`, `methodvalidator.py`), the permissions they ask
(`state/wrappers.py`), and the default chain (`requestmiddlewarefactory.py`).

A reader behind the first one does not touch the socket, so it is a function of the
request.
-/

namespace Web3Proxy

open Py Bytes PyStr

/-! ## permissions -/

/-- `ClientPermissions`. -/
structure ClientPermissions where
  isAuthorized : String → Bool

/-- `CallPermissions`. -/
structure CallPermissions where
  isAllowed : String → Option String → Except PyError Bool
  getCallPriority : String → Option String → Except PyError Int
  getUserConstantPool : String → Except PyError (Option String)

/-- `SimpleAuthenticatorFromBilling`. -/
def simpleAuthenticatorFromBilling (s : StateManager) : ClientPermissions where
  isAuthorized := s.isAuthorized

/-- `BasicBillingServiceWithLedger`.  Each call reads the state manager as it is
then. -/
def basicBillingServiceWithLedger (allowed priority pool : StateManager) : CallPermissions where
  isAllowed userApiKey method :=
    let userSummary := (allowed.activityLedger.getAllTimeUserSummary userApiKey).getD {}
    allowed.billingService.isAllowed userApiKey method userSummary.totalStats.numCalls
      userSummary.totalStats.totalBytes
  getCallPriority := priority.billingService.getCallPriority
  getUserConstantPool := pool.billingService.getUserConstantPool

/-- The state managers, as the readers of one run find them. -/
structure Managers where
  auth : StateManager
  allowed : StateManager
  priority : StateManager
  pool : StateManager

namespace Managers

variable (m : Managers)

/-- The client permissions of the default chain. -/
def client : ClientPermissions := simpleAuthenticatorFromBilling m.auth

/-- The call permissions of the default chain. -/
def call : CallPermissions := basicBillingServiceWithLedger m.allowed m.priority m.pool

end Managers

/-! ## the readers -/

/-- `ProxyMode`. -/
inductive ProxyMode where
  | dev
  | sim
  | prod
deriving DecidableEq, Repr

/-- What the readers read from `Config`, and the library and the date they use. -/
structure ReaderConfig where
  mode : ProxyMode
  jsonRpcRequestParserEnabled : Bool
  text : PyText
  now : String

/-- `read_request` of a reader behind the first. -/
abbrev Reader := RPCRequest → ReadOutcome

/-- A reader class: `read_request` of an instance with the reader behind it. -/
abbrev Middleware := Option Reader → Reader

variable (cfg : ReaderConfig)

/-- `failure(err_res, req)`, with the bytes of a reply. -/
@[irreducible] def failure (errRes : Bytes) (req : RPCRequest) : ReadOutcome :=
  match RPCResponse.new cfg.text.loads errRes with
  | .error e => .raise e
  | .ok _ => .failure errRes req

/-- `failure(reply, req)`, with a reply that may not have been made. -/
def failureReply (reply : Except PyError Bytes) (req : RPCRequest) : ReadOutcome :=
  match reply with
  | .error e => .raise e
  | .ok errRes => failure cfg errRes req

/-- `failure` with `bad_request_web3(code, message, req.id)`. -/
def failureWeb3 (code : Int) (message : PyStr) (req : RPCRequest) : ReadOutcome :=
  failureReply cfg (ErrorResponses.tryBadRequestWeb3 cfg.now code message req.id) req

/-- `if self.next_reader: …` at the end of a reader. -/
def continueWith (nextReader : Option Reader) (req : RPCRequest) : ReadOutcome :=
  match nextReader with
  | some next => next req
  | none => .success req

namespace AuthRequestReader

/-- `failure` with `unauthorized_invalid_API_key()`. -/
def unauthorized (req : RPCRequest) : ReadOutcome :=
  failure cfg (ErrorResponses.unauthorizedInvalidAPIKey cfg.now) req

/-- `self.next_reader.read_request(cs, req)`. -/
def callNext (nextReader : Option Reader) (req : RPCRequest) : ReadOutcome :=
  match nextReader with
  | some next => next req
  | none => .raise .attributeError

/-- `read_request(cs, req)`. -/
def readRequest (auth : ClientPermissions) : Middleware := fun nextReader req =>
  match req.userApiKey.filter (· ≠ "") with
  | none => if cfg.mode ≠ .sim then unauthorized cfg req else callNext nextReader req
  | some key =>
      if !auth.isAuthorized key then unauthorized cfg req else callNext nextReader req

end AuthRequestReader

namespace AcceptJSONRPCContentReader

/-- `for validator in self.VALIDATORS: validator.validate(json_content)`. -/
def validate (content : Json) : Except ValidationError Unit := do
  JSONRPCFormatValidator.validate content
  JSONRPCContentValidator.validate cfg.text content
  JSONRPCMethodValidator.validate content

/-- `json.loads(jsonrpc_content.decode("utf-8"))`; `none` when this raises. -/
def loads (content : Option Bytes) : Option Json :=
  (content.bind decode).bind cfg.text.loads

/-- `json_content[key]`, for the members that are stored in the request. -/
def member (content : Json) (key : String) : Option Json :=
  match content with
  | .obj members => Json.get? members key
  | _ => none

/-- `json_content["id"]` as the id of a request. -/
def idOf : Json → Option RequestId
  | .int n => some (.int n)
  | .str s => some (.str s)
  | _ => none

/-- `read_request(cs, req)` with the parser enabled.  The method is one of the table, so
that no surrogate gets lost. -/
def readParsed : Middleware := fun nextReader req =>
  match loads cfg req.content with
  | none => failureReply cfg (ErrorResponses.parseError cfg.now req.id) req
  | some jsonContent =>
      match validate cfg jsonContent with
      | .error (.jsonRPCError code message) => failureWeb3 cfg code message req
      | .error (.other _) => failure cfg ErrorResponses.httpInternalServerError req
      | .ok () =>
          match member jsonContent "method", member jsonContent "id" with
          | some (.str method), some id =>
              continueWith nextReader { req with method := method.asString, id := idOf id }
          | _, _ => .raise .keyError

/-- `str(tok.split(b":")[1][1:-1], "utf-8").replace('"', "").strip()`; `none` when the
bytes are no text.  A token that begins with the key has a colon. -/
def tokenValue (tok : Bytes) : Option String :=
  let part := (tok.splitOn 58).getD 1 []
  (decode (part.drop 1).dropLast).map fun s =>
    let cs := s.toList.filter (· ≠ '"')
    String.ofList ((cs.dropWhile cfg.text.isSpace).reverse.dropWhile cfg.text.isSpace).reverse

/-- The loop over the tokens: the method and the id seen last. -/
def scan (found : Option String × Option String) (tok : Bytes) :
    Except PyError (Option String × Option String) := do
  let startsWith (key : String) : Bool := (str key).isPrefixOf tok
  let found ←
    if startsWith "\"id\":" || startsWith " \"id\":" then
      match tokenValue cfg tok with
      | none => .error .unicodeDecodeError
      | some id => .ok (found.1, some id)
    else .ok found
  if startsWith "\"method\":" || startsWith " \"method\":" then
    match tokenValue cfg tok with
    | none => .error .unicodeDecodeError
    | some method => .ok (some method, found.2)
  else .ok found

/-- `read_request(cs, req)` with the parser disabled. -/
def readTokens : Middleware := fun nextReader req =>
  match req.content with
  | none => .raise .attributeError
  | some content =>
      match (content.splitOn 44).foldlM (scan cfg) (none, none) with
      | .error e => .raise e
      | .ok (none, _) => failureWeb3 cfg (-32600) (ofString "Missing method field") req
      | .ok (some method, id) =>
          continueWith nextReader { req with method, id := id.map fun id => .str (ofString id) }

/-- `read_request(cs, req)`. -/
def readRequest : Middleware := fun nextReader req =>
  if !cfg.jsonRpcRequestParserEnabled then readTokens cfg nextReader req
  else readParsed cfg nextReader req

variable {cfg} (nextReader : Option Reader) (req : RPCRequest)

theorem readRequest_enabled (h : cfg.jsonRpcRequestParserEnabled = true) :
    readRequest cfg nextReader req = readParsed cfg nextReader req := by
  rw [readRequest, h]
  rfl

theorem readRequest_disabled (h : cfg.jsonRpcRequestParserEnabled = false) :
    readRequest cfg nextReader req = readTokens cfg nextReader req := by
  rw [readRequest, h]
  rfl

end AcceptJSONRPCContentReader

namespace AcceptMethodRequestReader

/-- The branch for a mode other than `SIM`, up to the next reader: the priority and
the pool, or `none` when the call is not allowed.  The key `None` is never
registered. -/
def accept (call : CallPermissions) (req : RPCRequest) :
    Except PyError (Option (Int × Option String)) :=
  match req.userApiKey with
  | none => .ok none
  | some userApiKey => do
      if !(← call.isAllowed userApiKey (some req.method)) then return none
      let userPriority ← call.getCallPriority userApiKey (some req.method)
      let userConstantPool ← call.getUserConstantPool userApiKey
      return some (userPriority, userConstantPool)

/-- `read_request(cs, req)`. -/
def readRequest (call : CallPermissions) : Middleware := fun nextReader req =>
  if cfg.mode = .sim then
    continueWith nextReader { req with priority := 0, constantPool := none }
  else match accept call req with
    | .error e => .raise e
    | .ok none =>
        failureReply cfg (ErrorResponses.forbiddenPaymentRequired cfg.now req.id) req
    | .ok (some (priority, constantPool)) =>
        continueWith nextReader { req with priority, constantPool }

end AcceptMethodRequestReader

/-! ## the chain -/

/-- `RequestMiddlewareDescr.instantiate()`: the classes are instantiated from the last
to the first, each with the instance before. -/
def instantiate (middlewares : List Middleware) : Option Reader :=
  middlewares.reverse.foldl (fun nextMiddleware middleware => some (middleware nextMiddleware)) none

/-- `create_default_request_reader(cli, call)`, without the first reader. -/
def defaultReaders (cli : ClientPermissions) (call : CallPermissions) : Option Reader :=
  instantiate [AuthRequestReader.readRequest cfg cli, AcceptJSONRPCContentReader.readRequest cfg,
    AcceptMethodRequestReader.readRequest cfg call]

/-- `read_request` of the default chain with a fresh request. -/
def readDefault (h : HttpTools) (cli : ClientPermissions) (call : CallPermissions)
    (cs : List SocketRead) : ReadOutcome × List SocketRead :=
  RequestReader.readRequest h (defaultReaders cfg cli call) cs {}

end Web3Proxy
