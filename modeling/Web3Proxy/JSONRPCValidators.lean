import Web3Proxy.Lib.Json
import Web3Proxy.Lib.Py

/-!
# Web3Proxy.JSONRPCValidators

The validators of a JSON-RPC request (`validators.py`, `conditions.py`,
`errors.py`), on the value that `json.loads` makes of the content.

What the validators take from Python's text library is a parameter: the decoder
`json.loads` and the character classes `\w` and `str.isspace`.
-/

namespace Web3Proxy

open Py PyStr

/-- What is used of Python's text library. -/
structure PyText where
  loads : String → Option Json
  isWord : Char → Bool
  isSpace : Char → Bool

/-- What a validator raises: a `JSONRPCError`, or another exception. -/
inductive ValidationError where
  | jsonRPCError (code : Int) (message : PyStr)
  | other (e : PyError)
deriving DecidableEq, Repr

namespace ValidationError

/-- `InvalidRequestError(msg)`. -/
def invalidRequestError (msg : PyStr) : ValidationError := .jsonRPCError (-32600) msg

/-- `MethodNotFoundError(msg)`. -/
def methodNotFoundError (msg : PyStr) : ValidationError := .jsonRPCError (-32601) msg

/-- `InvalidParamsError(msg)`. -/
def invalidParamsError (msg : PyStr) : ValidationError := .jsonRPCError (-32602) msg

end ValidationError

/-! ## JSONRPCFormatValidator -/

namespace JSONRPCFormatValidator

/-- `RPC_PARAM_CONDITIONS`. -/
def rpcParamConditions : List (String × (Json → Bool)) :=
  [("method", fun value => value.type = .str),
    ("id", fun value => value.type ∈ [PyType.int, .str, .noneType]),
    ("params", fun value => value.type = .list),
    ("jsonrpc", fun value => match value with
      | .str s => s = ofString "2.0"
      | _ => false)]

/-- The check of one member. -/
def check (members : List (PyStr × Json)) (key : String) (condition : Json → Bool) :
    Except ValidationError Unit :=
  match Json.get? members key with
  | none =>
      if key ≠ "params" then
        .error (.invalidRequestError (ofString ("Missing member '" ++ key ++ "'")))
      else .ok ()
  | some value =>
      if condition value then .ok ()
      else .error (.invalidRequestError (ofString ("Invalid value for member '" ++ key ++ "'")))

/-- `validate(content)`. -/
def validate : Json → Except ValidationError Unit
  | .obj members => rpcParamConditions.forM fun c => check members c.1 c.2
  | _ => .error (.invalidRequestError
      (ofString "JSON-RPC request must be an object, batches are not supported"))

end JSONRPCFormatValidator

/-! ## JSONRPCContentValidator -/

namespace JSONRPCContentValidator

variable (text : PyText)

/-- A character of the class `\w`; a surrogate is none. -/
def isWord : CodePoint → Bool
  | .scalar c => text.isWord c
  | .surrogate _ => false

/-- `re.match(r"^\w+$", s)`: word characters, and perhaps a line feed at the end. -/
def matchesWord (s : PyStr) : Bool :=
  let isWords (cs : PyStr) : Bool := !cs.isEmpty && cs.all (isWord text)
  isWords s || (s.getLast? = some (.scalar '\n') && isWords s.dropLast)

/-- `value.replace('"', '\\"')`. -/
def escapeQuotes (value : PyStr) : PyStr :=
  value.flatMap fun c =>
    if c = .scalar '"' then [.scalar '\\', .scalar '"'] else [c]

/-- `get_error_message(label, value)` for a string. -/
def getErrorMessage (label : String) (value : PyStr) : PyStr :=
  ofString ("Invalid characters at " ++ label ++ " '") ++ escapeQuotes value ++
    ofString "' in params"

/-- `str(value)` of a value that is not a collection. -/
def strOf : Json → PyStr
  | .null => ofString "None"
  | .bool b => ofString (if b then "True" else "False")
  | .int n => ofString (toString n)
  | .float text => ofString text
  | .str s => s
  | .arr _ => []
  | .obj _ => []

/-- The check of a key. -/
def checkKey (key : PyStr) : Except ValidationError Unit :=
  if matchesWord text key then .ok ()
  else .error (.invalidParamsError (getErrorMessage "key" key))

/-- The check of a value that is not a collection; only a string has `replace`. -/
def checkScalar (value : Json) : Except ValidationError Unit :=
  if matchesWord text (strOf value) then .ok ()
  else match value with
    | .str s => .error (.invalidParamsError (getErrorMessage "label" s))
    | _ => .error (.other .attributeError)

mutual

/-- `traverse_and_validate_params(param_value)`. -/
def traverseAndValidateParams : Json → Except ValidationError Unit
  | .obj members => do
      members.forM fun m => checkKey text m.1
      traverseMembers members
  | .arr items => traverseItems items
  | .null => checkScalar text .null
  | .bool b => checkScalar text (.bool b)
  | .int n => checkScalar text (.int n)
  | .float t => checkScalar text (.float t)
  | .str s => checkScalar text (.str s)

/-- The loop over the items of a list. -/
def traverseItems : List Json → Except ValidationError Unit
  | [] => .ok ()
  | item :: items => do
      traverseAndValidateParams item
      traverseItems items

/-- The loop over the values of a `dict`. -/
def traverseMembers : List (PyStr × Json) → Except ValidationError Unit
  | [] => .ok ()
  | (_, value) :: members => do
      traverseAndValidateParams value
      traverseMembers members

end

/-- `content.get("params", [])`; only a `dict` has `get`. -/
def params : Json → Except ValidationError Json
  | .obj members => .ok ((Json.get? members "params").getD (.arr []))
  | _ => .error (.other .attributeError)

/-- `validate(content)`. -/
def validate (content : Json) : Except ValidationError Unit := do
  traverseAndValidateParams text (← params content)

end JSONRPCContentValidator

/-! ## JSONRPCMethodValidator -/

/-- A condition on the number of parameters: `Exact(n)` or `In(…)`. -/
inductive ParamCount where
  | exact (n : Nat)
  | oneOf (values : List Nat)
deriving DecidableEq, Repr

namespace ParamCount

/-- `validate(value)`. -/
def validate (value : Nat) : ParamCount → Bool
  | exact n => value = n
  | oneOf values => value ∈ values

/-- `description`. -/
def description : ParamCount → String
  | exact n => "is " ++ toString n
  | oneOf values =>
      "is " ++ ", ".intercalate (values.dropLast.map toString) ++ " or " ++
        ((values.getLast?.map toString).getD "")

end ParamCount

namespace JSONRPCMethodValidator

/-- `METHOD_PARAM_COUNT_CONDITIONS`. -/
def methodParamCountConditions : List (String × ParamCount) :=
  [("net_peerCount", .exact 0),
    ("net_listening", .exact 0),
    ("net_version", .exact 0),
    ("web3_clientVersion", .exact 0),
    ("web3_sha3", .exact 1),
    ("eth_protocolVersion", .exact 0),
    ("eth_accounts", .exact 0),
    ("eth_blockNumber", .exact 0),
    ("eth_call", .oneOf [1, 2]),
    ("eth_chainId", .exact 0),
    ("eth_coinbase", .exact 0),
    ("eth_mining", .exact 0),
    ("eth_hashrate", .exact 0),
    ("eth_createAccessList", .oneOf [1, 2]),
    ("eth_estimateGas", .oneOf [1, 2]),
    ("eth_feeHistory", .exact 3),
    ("eth_gasPrice", .exact 0),
    ("eth_getBalance", .exact 2),
    ("eth_getBlockByHash", .exact 2),
    ("eth_getBlockByNumber", .exact 2),
    ("eth_getBlockReceipts", .exact 1),
    ("eth_getBlockTransactionCountByHash", .exact 1),
    ("eth_getBlockTransactionCountByNumber", .exact 1),
    ("eth_getCode", .exact 2),
    ("eth_getFilterChanges", .exact 1),
    ("eth_getFilterLogs", .exact 1),
    ("eth_getLogs", .exact 1),
    ("eth_getProof", .exact 3),
    ("eth_getStorageAt", .exact 3),
    ("eth_getTransactionByBlockHashAndIndex", .exact 2),
    ("eth_getTransactionByBlockNumberAndIndex", .exact 2),
    ("eth_getTransactionByHash", .exact 1),
    ("eth_getTransactionCount", .exact 2),
    ("eth_getTransactionReceipt", .exact 1),
    ("eth_getUncleCountByBlockHash", .exact 1),
    ("eth_getUncleCountByBlockNumber", .exact 1),
    ("eth_getUncleByBlockNumberAndIndex", .exact 2),
    ("eth_getUncleByBlockHashAndIndex", .exact 2),
    ("eth_maxPriorityFeePerGas", .exact 0),
    ("eth_newBlockFilter", .exact 0),
    ("eth_newFilter", .exact 1),
    ("eth_newPendingTransactionFilter", .exact 0),
    ("eth_sendRawTransaction", .exact 1),
    ("eth_sendTransaction", .exact 1),
    ("eth_sign", .exact 2),
    ("eth_signTransaction", .exact 1),
    ("eth_syncing", .exact 0),
    ("eth_uninstallFilter", .exact 1)]

/-- `len(method_params)`. -/
def paramsLength : Json → Except ValidationError Nat
  | .arr items => .ok items.length
  | .obj members => .ok members.length
  | .str s => .ok s.length
  | _ => .error (.other .typeError)

/-- `METHOD_PARAM_COUNT_CONDITIONS.get(method_name)`. -/
def methodCondition (methodName : PyStr) : Option ParamCount :=
  (methodParamCountConditions.find? fun c => ofString c.1 = methodName).map Prod.snd

/-- The check of a method and the number of its parameters. -/
def check (methodName : PyStr) (paramsLength : Nat) : Except ValidationError Unit :=
  match methodCondition methodName with
  | none => .error (.methodNotFoundError
      (ofString "Unsupported method '" ++ methodName ++ ofString "'"))
  | some condition =>
      if condition.validate paramsLength then .ok ()
      else .error (.invalidParamsError
        (ofString "Number of parameters for method '" ++ methodName ++
          ofString ("' " ++ condition.description ++ ", but " ++
            toString paramsLength ++ " were given")))

/-- `validate(content)`.  The format validator has seen to it that the method is a
string; another method is in no table. -/
def validate (content : Json) : Except ValidationError Unit := do
  let length ← paramsLength (← JSONRPCContentValidator.params content)
  match content with
  | .obj members =>
      match Json.get? members "method" with
      | some (.str methodName) => check methodName length
      | _ => .error (.other .typeError)
  | _ => .error (.other .attributeError)

end JSONRPCMethodValidator

end Web3Proxy
