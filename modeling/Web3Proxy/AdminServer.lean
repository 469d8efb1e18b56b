import Mathlib.Algebra.Ring.Int.Defs
import Web3Proxy.Lib.PyInt
import Web3Proxy.RPCResponse

/-!
# Web3Proxy.AdminServer

The administrator's HTTP server (`adminserver.py`): `do_POST` with its authentication, the
methods that `RPCServiceAdmin.call_by_method` knows (`serviceadmin.py`), and the calls that
`RPCAdminCalls` builds for them (`rpcadmincalls.py`).

The state of the service, what a method does to it, and the hash function are parameters.
The server takes one connection after the other, and a connection carries one request.  The
interpreter's limits in `json.loads`, on recursion and on the digits of an integer, are left out.
-/

namespace Json

/-- `bool(value)`. -/
def isTruthy : Json → Bool
  | .null => false
  | .bool b => b
  | .int n => n ≠ 0
  | .float text => text ∉ ["0.0", "-0.0"]
  | .str s => s ≠ []
  | .arr items => !items.isEmpty
  | .obj members => !members.isEmpty

end Json

namespace Web3Proxy

open Py Bytes

/-! ## the methods -/

/-- The methods in `mapping`. -/
inductive AdminMethod where
  | queryUserPlan
  | queryUserState
  | queryListRegisteredUsers
  | queryListUsersActivitiesBasic
  | queryListUsersActivitiesDetailed
  | registerUser
  | removeUser
  | updateUserPlan
  | queryProxyStats
  | queryListEndpoints
  | queryEndpointStats
  | queryServiceConsole
  | getEndpoints
  | addEndpoint
  | removeEndpoint
  | updateEndpoint
deriving DecidableEq, Repr

namespace AdminMethod

/-- The names in `RPCAdminCalls`. -/
def name : AdminMethod → String
  | queryUserPlan => "query_user_plan"
  | queryUserState => "query_user_state"
  | queryListRegisteredUsers => "query_list_registered_users"
  | queryListUsersActivitiesBasic => "query_list_users_activities_basic"
  | queryListUsersActivitiesDetailed => "query_list_users_activities_detailed"
  | registerUser => "register_user"
  | removeUser => "remove_user"
  | updateUserPlan => "update_user_plan"
  | queryProxyStats => "query_proxy_stats"
  | queryListEndpoints => "query_list_endpoints"
  | queryEndpointStats => "query_endpoint_stats"
  | queryServiceConsole => "query_service_console"
  | getEndpoints => "get_endpoints"
  | addEndpoint => "add_endpoint"
  | removeEndpoint => "remove_endpoint"
  | updateEndpoint => "update_endpoint"

/-- The number of parameters of the function that the method is mapped to: that of
`register_user_flat` for `register_user`, and of `update_user_plan_flat` for
`update_user_plan`. -/
def arity : AdminMethod → Nat
  | queryUserPlan | queryUserState | removeUser | queryEndpointStats | removeEndpoint => 1
  | addEndpoint | updateEndpoint => 2
  | registerUser | updateUserPlan => 5
  | _ => 0

/-- The keys of `mapping`, in its order. -/
def mapping : List AdminMethod :=
  [queryUserPlan, queryUserState, queryListRegisteredUsers, queryListUsersActivitiesBasic,
    queryListUsersActivitiesDetailed, registerUser, removeUser, updateUserPlan, queryProxyStats,
    queryListEndpoints, queryEndpointStats, queryServiceConsole, getEndpoints, addEndpoint,
    removeEndpoint, updateEndpoint]

/-- `self.mapping[method]`, for a string. -/
def ofName? (name : PyStr) : Option AdminMethod :=
  mapping.find? fun m => PyStr.ofString m.name = name

end AdminMethod

/-- What the server gets from elsewhere: `hashlib.sha256(_).hexdigest()`, the text of floats,
and what a method of `RPCServiceAdmin` does with its arguments. -/
structure AdminEnv (σ : Type) where
  sha256 : Bytes → String
  floatText : String → String
  method : AdminMethod → List Json → σ → Result σ (Option Json)

/-! ## AdminServerAuthentication -/

/-- `AdminServerAuthentication`. -/
structure AdminServerAuthentication where
  salt : String
  adminTokenHash : Option String

namespace AdminServerAuthentication

variable {σ : Type} (env : AdminEnv σ) (auth : AdminServerAuthentication)

/-- `hash(secret)`. -/
def hash (secret : String) : String := env.sha256 (str (secret ++ auth.salt))

/-- `authenticate(secret)`. -/
def authenticate (secret : String) : Except PyError Bool :=
  match auth.adminTokenHash with
  | none => .error .exception
  | some adminTokenHash => .ok (auth.hash env secret = adminTokenHash)

/-- `create_auth_token()`, with the token that it has taken from the configuration or made. -/
def createAuthToken (authToken : String) : AdminServerAuthentication :=
  { auth with adminTokenHash := some (auth.hash env authToken) }

end AdminServerAuthentication

/-! ## do_POST -/

/-- A POST request: the headers that are read, what is sent behind the headers, whether the
client has then finished sending, and whether there is memory for the length it announces. -/
structure PostRequest where
  contentLength : Option String
  authorization : Option String
  body : Bytes
  ended : Bool
  memory : Bool

namespace PostRequest

variable (r : PostRequest)

/-- `get_auth_token()`. -/
def getAuthToken : String :=
  String.ofList (partition [' '] (r.authorization.getD "").toList).2

/-- `int(self.headers["Content-Length"])`.  A header is Latin-1, in which only ASCII has
decimal digits. -/
def length : Except PyError Int :=
  match r.contentLength with
  | none => .error .typeError
  | some value =>
      match PyInt.ofDec (fun _ => none) (PyStr.ofString value) with
      | none => .error .valueError
      | some n => .ok n

/-- `self.rfile.read(content_length)`, on 64 bits; `none` while it waits for the client. -/
def read (contentLength : Int) : Option (Except PyError Bytes) :=
  if contentLength < -2 ^ 63 ∨ 2 ^ 63 ≤ contentLength then some (.error .overflowError)
  else if contentLength < -1 then some (.error .valueError)
  -- -1 stands for all that comes
  else if contentLength = -1 then if r.ended then some (.ok r.body) else none
  -- the buffer is made first: a `MemoryError`
  else if !r.memory then some (.error .exception)
  else if contentLength ≤ r.body.length then some (.ok (r.body.take contentLength.toNat))
  else if r.ended then some (.ok r.body)
  else none

end PostRequest

namespace AdminServer

variable {σ : Type} (env : AdminEnv σ)

/-- `*params`. -/
def unpack : Json → Except PyError (List Json)
  | .arr items => .ok items
  | .str s => .ok (s.map fun c => .str [c])
  | .obj members => .ok (members.map fun m => .str m.1)
  | _ => .error .typeError

/-- `call_by_method(method, params)`.  A list or a dictionary is no key of a dictionary. -/
def callByMethod (method params : Json) (s : σ) : Result σ (Option Json) :=
  match method with
  | .arr _ | .obj _ => .raise .typeError s
  | .str name =>
      match AdminMethod.ofName? name with
      | none => .raise .keyError s
      | some m =>
          match unpack params with
          | .error e => .raise e s
          | .ok arguments =>
              if arguments.length = m.arity then env.method m arguments s
              else .raise .typeError s
  | _ => .raise .keyError s

/-- `{"error": msg}`. -/
def error (msg : PyStr) : Json := .obj [(PyStr.ofString "error", .str msg)]

/-- What `do_POST` answers to a request that is authenticated: the status, and `res`. -/
def respond (jsonData : Json) (s : σ) : Result σ (Nat × Json) :=
  if !jsonData.isTruthy then .ok (400, error (PyStr.ofString "Bad request")) s
  else
    match jsonData with
    | .obj members =>
        let method := (Json.get? members "method").getD .null
        if !method.isTruthy then .ok (400, error (PyStr.ofString "Missing method")) s
        else
          match callByMethod env method ((Json.get? members "params").getD (.arr [])) s with
          | .ok res s => .ok (200, res.getD (.obj [])) s
          | .raise .keyError s =>
              let msg := PyStr.ofString "Unknown method: " ++ JSONRPCContentValidator.strOf method
              .ok (400, error msg) s
          | .raise _ s => .ok (500, error (PyStr.ofString "Server error")) s
    | _ => .raise .attributeError s

/-- The body of the answer. -/
def body (res : Json) : Bytes := str (Json.dumps res)

/-- `do_POST()`: the status and the body of the answer; `none` while it waits for the client.
What is raised is raised before anything is answered. -/
def doPost (auth : AdminServerAuthentication) (r : PostRequest) (s : σ) :
    Option (Result σ (Nat × Bytes)) :=
  match r.length with
  | .error e => some (.raise e s)
  | .ok contentLength =>
      (r.read contentLength).map fun
        | .error e => .raise e s
        | .ok data =>
            match decode data with
            | none => .raise .unicodeDecodeError s
            | some text =>
                -- what is no JSON counts as an empty dictionary
                let jsonData := (Json.loads env.floatText text).getD (.obj [])
                match auth.authenticate env r.getAuthToken with
                | .error e => .raise e s
                | .ok false => .ok (403, body (error (PyStr.ofString "Authentication failed"))) s
                | .ok true => (respond env jsonData s).map fun (status, res) => (status, body res)

/-! ## serve_forever -/

/-- What becomes of a request: an answer, or an exception in place of one. -/
inductive PostOutcome where
  | answered (status : Nat) (body : Bytes)
  | dropped (e : PyError)
deriving DecidableEq, Repr

/-- The outcome of a request that has been dealt with. -/
def outcome : Result σ (Nat × Bytes) → PostOutcome
  | .ok (status, body) _ => .answered status body
  | .raise e _ => .dropped e

end AdminServer

/-! ## RPCAdminCalls -/

/-- The calls that `RPCAdminCalls` builds, with their arguments. -/
inductive RPCAdminCall where
  | getQueryUserPlan (userApiKey : PyStr)
  | getQueryUserState (userApiKey : PyStr)
  | getQueryListRegisteredUsers
  | getQueryListUsersActivitiesBasic
  | getQueryListUsersActivitiesDetailed
  | getRegisterUser (userApiKey : PyStr) (userPlan : Json)
  | getRemoveUser (userApiKey : PyStr)
  | getUpdateUserPlan (userApiKey : PyStr) (userPlan : Json)
  | getGetEndpoints
  | getAddEndpoint (name url : PyStr)
  | getRemoveEndpoint (name : PyStr)
  | getUpdateEndpoint (name url : PyStr)

namespace RPCAdminCall

/-- `create_method_call_dict(method_str, *params)`. -/
def createMethodCallDict (methodStr : String) (params : List Json) : Json :=
  .obj [(PyStr.ofString "jsonrpc", .str (PyStr.ofString "2.0")),
    (PyStr.ofString "method", .str (PyStr.ofString methodStr)),
    (PyStr.ofString "params", .arr params)]

/-- The method that is called. -/
def method : RPCAdminCall → AdminMethod
  | getQueryUserPlan _ => .queryUserPlan
  | getQueryUserState _ => .queryUserState
  | getQueryListRegisteredUsers => .queryListRegisteredUsers
  | getQueryListUsersActivitiesBasic => .queryListUsersActivitiesBasic
  | getQueryListUsersActivitiesDetailed => .queryListUsersActivitiesDetailed
  | getRegisterUser _ _ => .registerUser
  | getRemoveUser _ => .removeUser
  | getUpdateUserPlan _ _ => .updateUserPlan
  | getGetEndpoints => .getEndpoints
  | getAddEndpoint _ _ => .addEndpoint
  | getRemoveEndpoint _ => .removeEndpoint
  | getUpdateEndpoint _ _ => .updateEndpoint

/-- What is passed to it. -/
def params : RPCAdminCall → List Json
  | getQueryUserPlan userApiKey | getQueryUserState userApiKey | getRemoveUser userApiKey =>
      [.str userApiKey]
  | getQueryListRegisteredUsers | getQueryListUsersActivitiesBasic
  | getQueryListUsersActivitiesDetailed | getGetEndpoints => []
  | getRegisterUser userApiKey userPlan | getUpdateUserPlan userApiKey userPlan =>
      [.str userApiKey, userPlan]
  | getAddEndpoint name url | getUpdateEndpoint name url => [.str name, .str url]
  | getRemoveEndpoint name => [.str name]

/-- The dictionary that is built. -/
def dict (call : RPCAdminCall) : Json := createMethodCallDict call.method.name call.params

end RPCAdminCall

end Web3Proxy
