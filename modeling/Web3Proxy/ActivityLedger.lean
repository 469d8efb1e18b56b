import Web3Proxy.Lib.Dict

/-!
# Web3Proxy.ActivityLedger

The usage counters (`activityledger.py`, `activitysummary.py`,
`db/models/activity.py`): per user and method, for each day and for all time.
The day is read from the clock, so it is an argument; of a request and a
response the ledger looks at the API key, the method and the sizes.
-/

namespace Web3Proxy

/-- A day in the form `%Y-%m-%d`. -/
abbrev DateKey := String

/-- The counters of a `CallStats` instance. -/
structure CallStats where
  requestBytes : Int := 0
  responseBytes : Int := 0
  numCalls : Int := 0
deriving DecidableEq, Repr

namespace CallStats

/-- `total_bytes`. -/
def totalBytes (cs : CallStats) : Int := cs.requestBytes + cs.responseBytes

/-- `update_stats(request_bytes, response_bytes, num_calls)`. -/
def updateStats (cs : CallStats) (requestBytes responseBytes numCalls : Int) : CallStats where
  requestBytes := cs.requestBytes + requestBytes
  responseBytes := cs.responseBytes + responseBytes
  numCalls := cs.numCalls + numCalls

end CallStats

/-- `UserActivitySummary`. -/
structure UserActivitySummary where
  totalStats : CallStats := {}
  methodStats : Dict String CallStats := .empty

/-- `UserActivitySummary.update(method, req_bytes, resp_bytes, num_calls)`. -/
def UserActivitySummary.update (u : UserActivitySummary) (method : String)
    (reqBytes respBytes numCalls : Int) : UserActivitySummary :=
  let methodStats := if u.methodStats.contains method then u.methodStats
    else u.methodStats.set method {}
  { methodStats := methodStats.set method
      (((methodStats.get? method).getD {}).updateStats reqBytes respBytes numCalls)
    totalStats := u.totalStats.updateStats reqBytes respBytes numCalls }

/-- What the ledger reads from an `RPCRequest`. -/
structure RecordedRequest where
  userApiKey : Option String
  method : String
  lastQueriedBytes : Nat
deriving DecidableEq, Repr

/-- `ServiceActivitySummary`. -/
structure ServiceActivitySummary where
  userSummaries : Dict String UserActivitySummary := .empty

namespace ServiceActivitySummary

variable (a : ServiceActivitySummary) (userApiKey : String)

/-- `_get_or_create_uas(user_api_key)`, the entry and the summary with it. -/
def getOrCreateUas : UserActivitySummary × ServiceActivitySummary :=
  let d := a.userSummaries.setDefault userApiKey {}
  ((d.get? userApiKey).getD {}, { a with userSummaries := d })

/-- `remove_user(user_api_key)`. -/
def removeUser : ServiceActivitySummary :=
  { a with userSummaries := a.userSummaries.erase userApiKey }

/-- `get_user_activity_summary(user_api_key)`. -/
def getUserActivitySummary : Option UserActivitySummary := a.userSummaries.get? userApiKey

/-- The entry of a user after `update` on it, which the dictionary shares. -/
def updateUas (method : String) (reqBytes respBytes numCalls : Int) : ServiceActivitySummary :=
  let (uasEntry, a) := a.getOrCreateUas userApiKey
  { a with
    userSummaries := a.userSummaries.set userApiKey
      (uasEntry.update method reqBytes respBytes numCalls) }

/-- `update(request, response, response_only)`; the response matters by its
length. -/
def update (request : RecordedRequest) (response : Nat) (responseOnly : Bool) :
    ServiceActivitySummary :=
  let numCalls := if responseOnly then 0 else 1
  let reqBytes := if responseOnly then 0 else (request.lastQueriedBytes : Int)
  match request.userApiKey with
  | none => a
  | some key => if key = "" then a else a.updateUas key request.method reqBytes response numCalls

end ServiceActivitySummary

/-- `SimpleActivityLedger`. -/
structure SimpleActivityLedger where
  dailyUsage : Dict DateKey ServiceActivitySummary := .empty
  allTimeSummary : ServiceActivitySummary := {}

namespace SimpleActivityLedger

variable (l : SimpleActivityLedger)

/-- `get_active_state_sample()` with the day `key`: the day's summary and the
ledger with it. -/
def getActiveStateSample (key : DateKey) : ServiceActivitySummary × SimpleActivityLedger :=
  let d := l.dailyUsage.setDefault key {}
  ((d.get? key).getD {}, { l with dailyUsage := d })

/-- `remove_user(user_api_key)`. -/
def removeUser (userApiKey : String) : SimpleActivityLedger where
  allTimeSummary := l.allTimeSummary.removeUser userApiKey
  dailyUsage := l.dailyUsage.mapValues fun day => day.removeUser userApiKey

/-- What `record_rpc_request` and `record_rpc_response` have in common: update the
day's summary, then the one for all time. -/
def record (key : DateKey) (request : RecordedRequest) (response : Nat) (responseOnly : Bool) :
    SimpleActivityLedger :=
  let (sample, l) := l.getActiveStateSample key
  { l with
    dailyUsage := l.dailyUsage.set key (sample.update request response responseOnly)
    allTimeSummary := l.allTimeSummary.update request response responseOnly }

/-- `record_rpc_request(request)`. -/
def recordRpcRequest (key : DateKey) (request : RecordedRequest) : SimpleActivityLedger :=
  l.record key request 0 false

/-- `record_rpc_response(request, response)`. -/
def recordRpcResponse (key : DateKey) (request : RecordedRequest) (response : Nat) :
    SimpleActivityLedger :=
  l.record key request response true

/-- `get_all_time_user_summary(user_api_key)`. -/
def getAllTimeUserSummary (userApiKey : String) : Option UserActivitySummary :=
  l.allTimeSummary.getUserActivitySummary userApiKey

end SimpleActivityLedger

end Web3Proxy
