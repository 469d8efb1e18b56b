import Web3Proxy.Database

/-!
# Web3Proxy.StateManager

The state of a session (`statemanager.py`): the billing service and the activity
ledger, what the administrator and the traffic do to them
(`serviceadmin.py`), and how they are read from the database at the start of a
session and written back at its end (`db_statemanagerprovider.py`).
-/

namespace Web3Proxy

open Py

/-- `SampleStateManager`. -/
structure StateManager where
  billingService : BasicBillingService := {}
  activityLedger : SimpleActivityLedger := {}

/-! ## the administrator's calls on users -/

namespace StateManager

variable (s : StateManager) (userApiKey : String)

/-- `SimpleAuthenticatorFromBilling.is_authorized(user_api_key)`. -/
def isAuthorized : Bool := s.billingService.isRegistered userApiKey

/-- `RPCServiceAdmin.register_user(user_api_key, user_plan)`, with the keys it
returns. -/
def registerUser (userPlan : BillingPlan) : Option (List String) × StateManager :=
  if !s.billingService.isRegistered userApiKey then
    let b := s.billingService.registerUser userApiKey userPlan
    (some b.getRegisteredUsersApiKeys, { s with billingService := b })
  else (none, s)

/-- `RPCServiceAdmin.remove_user(user_api_key)`. -/
def removeUser : Option (List String) × StateManager :=
  if s.billingService.isRegistered userApiKey then
    let b := s.billingService.removeUser userApiKey
    (some b.getRegisteredUsersApiKeys,
      { billingService := b, activityLedger := s.activityLedger.removeUser userApiKey })
  else (none, s)

/-- `RPCServiceAdmin.update_user_plan(user_api_key, user_plan)`, with the plan it
returns. -/
def updateUserPlan (userPlan : BillingPlan) : Option BillingPlan × StateManager :=
  if s.billingService.isRegistered userApiKey then
    let b := (s.billingService.updateUserPlan userApiKey userPlan).state
    (b.getUserPlan userApiKey, { s with billingService := b })
  else (none, s)

end StateManager

/-! ## loading and saving -/

namespace DbStateManagerProvider

/-- The body of the loop of `_populate_billing_service`. -/
def populatePlan (db : Db) (bp : Nat × PlanRow) (b : BasicBillingService) :
    Result BasicBillingService Unit :=
  match db.users.rows.get? bp.2.user with
  | none => .raise .doesNotExist b
  | some apiKey =>
      .ok () (b.registerUser apiKey
        { terms := bp.2.terms, id := some bp.1, user := some bp.2.user })

/-- `_populate_billing_service(billing_service)`. -/
def populateBillingService (db : Db) (b : BasicBillingService) :
    Result BasicBillingService Unit :=
  forEach (populatePlan db) db.plans.rows.items b

/-- `UserActivitySummary.update` on the entry of a user, made if necessary. -/
def populateSummary (a : ServiceActivitySummary) (apiKey : String) (cs : StatsRow) :
    ServiceActivitySummary :=
  a.updateUas apiKey cs.method cs.stats.requestBytes cs.stats.responseBytes cs.stats.numCalls

/-- The body of the loop of `_populate_activity_ledger`. -/
def populateStats (db : Db) (cs : Nat × StatsRow) (l : SimpleActivityLedger) :
    Result SimpleActivityLedger Unit :=
  match db.users.rows.get? cs.2.user with
  | none => .raise .doesNotExist l
  | some apiKey =>
      let (dateSummary, l) := l.getActiveStateSample cs.2.date
      .ok ()
        { allTimeSummary := populateSummary l.allTimeSummary apiKey cs.2
          dailyUsage := l.dailyUsage.set cs.2.date (populateSummary dateSummary apiKey cs.2) }

/-- `_populate_activity_ledger(activity)`. -/
def populateActivityLedger (db : Db) (l : SimpleActivityLedger) :
    Result SimpleActivityLedger Unit :=
  forEach (populateStats db) db.stats.rows.items l

/-- `create_state_manager`; `none` when it raises. -/
def createStateManager (db : Db) : Option StateManager :=
  match populateBillingService db {} with
  | .raise _ _ => none
  | .ok _ billingService =>
      match populateActivityLedger db {} with
      | .raise _ _ => none
      | .ok _ activityLedger => some { billingService, activityLedger }

/-- The body of the loop of `_save_billing_service`.  The id that `save` gives a
new instance is not used again. -/
def savePlanOf (bp : String × BillingPlan) (db : Db) : Result Db Unit :=
  (db.getOrCreateUser bp.1).bind fun user db => db.savePlan { bp.2 with user := some user }

/-- `_save_billing_service(billing_service)`. -/
def saveBillingService (b : BasicBillingService) (db : Db) : Result Db Unit :=
  forEach savePlanOf b.userPlans.items db

/-- The body of the loops of `_save_activity_ledger`: the counters of a user for a
day and a method. -/
def saveStatsOf (dateKey : DateKey) (apiKey method : String) (memCs : CallStats) (db : Db) :
    Result Db Unit :=
  (db.getOrCreateUser apiKey).bind fun user db =>
    (db.getOrCreateStats user dateKey method).bind fun cs db =>
      db.saveStats cs ⟨user, method, dateKey, memCs⟩

/-- `_save_activity_ledger(activity)`. -/
def saveActivityLedger (l : SimpleActivityLedger) (db : Db) : Result Db Unit :=
  forEach (fun day =>
    forEach (fun user =>
      forEach (fun cs => saveStatsOf day.1 user.1 cs.1 cs.2)
        user.2.methodStats.items)
      day.2.userSummaries.items)
    l.dailyUsage.items db

/-- `close_state_manager(ssm)`. -/
def closeStateManager (ssm : StateManager) (db : Db) : Result Db Unit :=
  (saveBillingService ssm.billingService db).bind fun _ db =>
    saveActivityLedger ssm.activityLedger db

end DbStateManagerProvider

end Web3Proxy
