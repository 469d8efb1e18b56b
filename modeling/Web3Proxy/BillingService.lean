import Web3Proxy.Lib.Dict
import Web3Proxy.Lib.Py

/-!
# Web3Proxy.BillingService

Billing plans and the service that holds one for each registered API key
(`billingservice.py`, `interfaces/billing.py`, `db/models/billing.py`).
-/

namespace Web3Proxy

open Py

/-- The attributes of `BillingPlanProtocol`.  Prices are finite floats that the
code only copies. -/
structure PlanTerms where
  numFreeCalls : Int
  numFreeBytes : Int
  glmCallPrice : Rat
  glmBytePrice : Rat
  userPriority : Int
  constantPool : Option String
deriving DecidableEq

/-- A `BillingPlan` instance: its attributes, and the primary key and the user's
id once it has them. -/
structure BillingPlan where
  terms : PlanTerms
  id : Option Nat := none
  user : Option Nat := none
deriving DecidableEq

/-- `create_plan(free_calls, free_bytes, priority, constant_pool)`. -/
def createPlan (freeCalls freeBytes priority : Int) (constantPool : Option String) :
    BillingPlan where
  terms :=
    { numFreeCalls := freeCalls
      numFreeBytes := freeBytes
      glmCallPrice := 0
      glmBytePrice := 0
      userPriority := priority
      constantPool }

/-- `BasicBillingService`. -/
structure BasicBillingService where
  userPlans : Dict String BillingPlan := .empty

namespace BasicBillingService

variable (b : BasicBillingService) (userApiKey : String)

/-- `is_registered(user_api_key)`. -/
def isRegistered : Bool := b.userPlans.contains userApiKey

/-- `register_user(user_api_key, billing_plan)`. -/
def registerUser (billingPlan : BillingPlan) : BasicBillingService :=
  { b with userPlans := b.userPlans.setDefault userApiKey billingPlan }

/-- `remove_user(user_api_key)`. -/
def removeUser : BasicBillingService := { b with userPlans := b.userPlans.erase userApiKey }

/-- `update_user_plan(user_api_key, new_billing_plan)`: the attributes are copied
into the plan object, which keeps its identity. -/
def updateUserPlan (newBillingPlan : BillingPlan) : Result BasicBillingService Unit :=
  match b.userPlans.get? userApiKey with
  | none => .raise .assertionError b
  | some billingPlan =>
      .ok () { b with
        userPlans := b.userPlans.set userApiKey
          { billingPlan with terms := newBillingPlan.terms } }

/-- `get_registered_users_api_keys()`. -/
def getRegisteredUsersApiKeys : List String := b.userPlans.keys

/-- `get_user_plan(user_api_key)`. -/
def getUserPlan : Option BillingPlan := b.userPlans.get? userApiKey

/-- `is_allowed(user_api_key, method, num_calls_so_far, num_bytes_so_far)`. -/
def isAllowed (method : Option String) (numCallsSoFar numBytesSoFar : Int) :
    Except PyError Bool :=
  match b.userPlans.get? userApiKey with
  | none => .ok false
  | some plan =>
      if method.isNone then .error .assertionError
      else .ok (plan.terms.numFreeCalls > numCallsSoFar && plan.terms.numFreeBytes > numBytesSoFar)

/-- `get_call_priority(user_api_key, method)`. -/
def getCallPriority (method : Option String) : Except PyError Int :=
  match b.userPlans.get? userApiKey with
  | none => .error .assertionError
  | some plan => if method.isNone then .error .assertionError else .ok plan.terms.userPriority

/-- `get_user_constant_pool(user_api_key)`. -/
def getUserConstantPool : Except PyError (Option String) :=
  match b.userPlans.get? userApiKey with
  | none => .error .assertionError
  | some plan => .ok plan.terms.constantPool

end BasicBillingService

end Web3Proxy
