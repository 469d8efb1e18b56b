import Web3Proxy.Middleware.Answers
import Web3Proxy.StateManager.Spec

/-!
# Web3Proxy.Middleware.Permissions

The permissions of one request, while the administrator registers, changes and removes users.
`is_authorized`, `is_allowed`, `get_call_priority` and `get_user_constant_pool` take no lock, and
all but the first look into the plans twice: whether the key is there, and what its plan is.

* `unbroken_iff` — a request runs into no failed assertion and no missing key, and gets an error
  reply or goes on with what one plan of its user says, exactly when from `is_allowed` on the key
  is registered at each look, one plan has both the priority and the pool that are found, and the
  replies for its content and its plan can be made of what it has sent;
* `not_unbroken` — the user is removed after `is_allowed`.
-/

namespace Web3Proxy

open Py Bytes PyStr

/-! ## the service, look by look -/

namespace BasicBillingService

/-- `self.user_plans[user_api_key]`. -/
def userPlan (b : BasicBillingService) (userApiKey : String) : Except PyError BillingPlan :=
  match b.userPlans.get? userApiKey with
  | none => .error .keyError
  | some plan => .ok plan

/-- `is_allowed`, which finds the service as `registered` when it looks for the key, and as
`plan` when it takes the plan. -/
def isAllowedBetween (registered plan : BasicBillingService) (userApiKey : String)
    (method : Option String) (numCallsSoFar numBytesSoFar : Int) : Except PyError Bool :=
  if !registered.isRegistered userApiKey then .ok false
  else if method.isNone then .error .assertionError
  else do
    let plan ← plan.userPlan userApiKey
    return plan.terms.numFreeCalls > numCallsSoFar && plan.terms.numFreeBytes > numBytesSoFar

/-- `get_call_priority`. -/
def getCallPriorityBetween (registered plan : BasicBillingService) (userApiKey : String)
    (method : Option String) : Except PyError Int :=
  if !registered.isRegistered userApiKey then .error .assertionError
  else if method.isNone then .error .assertionError
  else do
    let plan ← plan.userPlan userApiKey
    return plan.terms.userPriority

/-- `get_user_constant_pool`. -/
def getUserConstantPoolBetween (registered plan : BasicBillingService) (userApiKey : String) :
    Except PyError (Option String) :=
  if !registered.isRegistered userApiKey then .error .assertionError
  else do
    let plan ← plan.userPlan userApiKey
    return plan.terms.constantPool

variable (b : BasicBillingService) (userApiKey : String)

theorem isAllowedBetween_self (method : Option String) (numCallsSoFar numBytesSoFar : Int) :
    isAllowedBetween b b userApiKey method numCallsSoFar numBytesSoFar =
      b.isAllowed userApiKey method numCallsSoFar numBytesSoFar := by
  unfold isAllowedBetween isAllowed userPlan isRegistered Dict.contains
  cases b.userPlans.get? userApiKey <;> cases method <;> rfl

theorem getCallPriorityBetween_self (method : Option String) :
    getCallPriorityBetween b b userApiKey method = b.getCallPriority userApiKey method := by
  unfold getCallPriorityBetween getCallPriority userPlan isRegistered Dict.contains
  cases b.userPlans.get? userApiKey <;> cases method <;> rfl

theorem getUserConstantPoolBetween_self :
    getUserConstantPoolBetween b b userApiKey = b.getUserConstantPool userApiKey := by
  unfold getUserConstantPoolBetween getUserConstantPool userPlan isRegistered Dict.contains
  cases b.userPlans.get? userApiKey <;> rfl

end BasicBillingService

/-! ## interleavings -/

/-- The looks of one request, in their order. -/
inductive Look where
  | isAuthorized
  | userSummary
  | isAllowed
  | allowedPlan
  | callPriority
  | priorityPlan
  | constantPool
  | poolPlan
deriving DecidableEq, Repr

/-- The looks up to one. -/
def Look.upTo (l : Look) : List Look :=
  [isAuthorized, userSummary, isAllowed, allowedPlan, callPriority, priorityPlan,
    constantPool].takeWhile (· ≠ l) ++ [l]

/-- The state when a request comes, and the calls that other threads make before each of its
looks. -/
structure Interleaving where
  start : StateManager
  calls : Look → List Op

namespace Interleaving

variable (i : Interleaving)

/-- All calls before a look. -/
def callsUpTo (l : Look) : List Op := l.upTo.flatMap i.calls

/-- The state that a look finds. -/
def state (l : Look) : StateManager := (i.callsUpTo l).foldl StateManager.apply i.start

/-- The client permissions of the default chain. -/
def client : ClientPermissions where
  isAuthorized userApiKey := (i.state .isAuthorized).isAuthorized userApiKey

/-- The call permissions of the default chain. -/
def call : CallPermissions where
  isAllowed userApiKey method :=
    let userSummary :=
      ((i.state .userSummary).activityLedger.getAllTimeUserSummary userApiKey).getD {}
    BasicBillingService.isAllowedBetween (i.state .isAllowed).billingService
      (i.state .allowedPlan).billingService userApiKey method userSummary.totalStats.numCalls
      userSummary.totalStats.totalBytes
  getCallPriority userApiKey method :=
    BasicBillingService.getCallPriorityBetween (i.state .callPriority).billingService
      (i.state .priorityPlan).billingService userApiKey method
  getUserConstantPool userApiKey :=
    BasicBillingService.getUserConstantPoolBetween (i.state .constantPool).billingService
      (i.state .poolPlan).billingService userApiKey

/-- The plan was registered for the key at some moment. -/
def WasRegistered (userApiKey : String) (plan : BillingPlan) : Prop :=
  ∃ ops, ops <+: i.callsUpTo .poolPlan ∧
    (ops.foldl StateManager.apply i.start).planOf userApiKey = some plan

/-- What a look finds was there. -/
theorem wasRegistered_of_planOf {l : Look} {userApiKey : String} {plan : BillingPlan}
    (h : (i.state l).planOf userApiKey = some plan) : i.WasRegistered userApiKey plan := by
  refine ⟨i.callsUpTo l, ?_, h⟩
  cases l <;> simp [callsUpTo, Look.upTo]

/-- When nothing comes in between the looks of one permission, each permission is what it is in
the state that it finds. -/
theorem call_eq (hallowed : i.calls .isAllowed = []) (hplan : i.calls .allowedPlan = [])
    (hpriority : i.calls .priorityPlan = []) (hpool : i.calls .poolPlan = []) :
    i.call = Managers.call
      { auth := i.state .isAuthorized
        allowed := i.state .isAllowed
        priority := i.state .callPriority
        pool := i.state .constantPool } := by
  have h₁ : i.state .isAllowed = i.state .userSummary := by
    simp [state, callsUpTo, Look.upTo, hallowed]
  have h₂ : i.state .allowedPlan = i.state .isAllowed := by
    simp [state, callsUpTo, Look.upTo, hplan]
  have h₃ : i.state .priorityPlan = i.state .callPriority := by
    simp [state, callsUpTo, Look.upTo, hpriority]
  have h₄ : i.state .poolPlan = i.state .constantPool := by
    simp [state, callsUpTo, Look.upTo, hpool]
  unfold call Managers.call basicBillingServiceWithLedger
  simp only [h₂, h₃, h₄, ← h₁, BasicBillingService.isAllowedBetween_self,
    BasicBillingService.getCallPriorityBetween_self,
    BasicBillingService.getUserConstantPoolBetween_self]

end Interleaving

/-! ## the chain -/

section Chain

variable (cfg : ReaderConfig) (i : Interleaving) (req : RPCRequest)

/-- `read_request` of the default chain, behind the first reader. -/
def readPermitted : ReadOutcome :=
  AuthRequestReader.readRequest cfg i.client
    (some (AcceptJSONRPCContentReader.readRequest cfg
      (some (AcceptMethodRequestReader.readRequest cfg i.call none)))) req

theorem defaultReaders_eq : defaultReaders cfg i.client i.call = some (readPermitted cfg i) := rfl

/-- The ways in which the request may be settled: an error reply goes back, for its key, from the
reader of the content, or for its plan; or it is passed on, with what one plan of its key says. -/
inductive RequestSettled : ReadOutcome → Prop where
  | unauthorized :
      RequestSettled (.failure (ErrorResponses.unauthorizedInvalidAPIKey cfg.now) req)
  | content {errRes : Bytes} {req' : RPCRequest}
      (h : ∀ nextReader,
        AcceptJSONRPCContentReader.readRequest cfg nextReader req = .failure errRes req') :
      RequestSettled (.failure errRes req')
  | forbidden {errRes : Bytes} {req' : RPCRequest} (h : PassesOn cfg req req')
      (hreply : ErrorResponses.forbiddenPaymentRequired cfg.now req'.id = .ok errRes) :
      RequestSettled (.failure errRes req')
  | passedOn {req' : RPCRequest} {priority : Int} {constantPool : Option String}
      (h : PassesOn cfg req req')
      (hplan : cfg.mode ≠ .sim → ∃ key plan, req.userApiKey = some key ∧
        i.WasRegistered key plan ∧ plan.terms.userPriority = priority ∧
        plan.terms.constantPool = constantPool) :
      RequestSettled (.success { req' with priority, constantPool })

/-- Neither an assertion nor a lookup has failed. -/
def Quiet (o : ReadOutcome) : Prop := o ≠ .raise .assertionError ∧ o ≠ .raise .keyError

/-- What is to hold of the outcome, whatever the administrator does. -/
structure Unbroken (o : ReadOutcome) : Prop where
  quiet : Quiet o
  settled : RequestSettled cfg i req o

/-- The plan that `is_allowed` takes has calls and bytes left. -/
def Interleaving.HasLeft (key : String) (plan : BillingPlan) : Prop :=
  let userSummary := ((i.state .userSummary).activityLedger.getAllTimeUserSummary key).getD {}
  plan.terms.numFreeCalls > userSummary.totalStats.numCalls ∧
    plan.terms.numFreeBytes > userSummary.totalStats.totalBytes

instance (key : String) (plan : BillingPlan) : Decidable (i.HasLeft key plan) :=
  inferInstanceAs (Decidable (_ ∧ _))

/-- Both plans are there, and what is taken from them one plan has had. -/
def Interleaving.FindsPlan (key : String) : Prop :=
  ∃ p q r, (i.state .priorityPlan).planOf key = some p ∧
    (i.state .poolPlan).planOf key = some q ∧ i.WasRegistered key r ∧
    r.terms.userPriority = p.terms.userPriority ∧ r.terms.constantPool = q.terms.constantPool

/-- A key that is registered when `is_allowed` looks for it stays so as long as the request
asks for it. -/
def StaysRegistered : Prop :=
  ∀ key req', cfg.mode ≠ .sim → req.userApiKey = some key → key ≠ "" → PassesOn cfg req req' →
    (i.state .isAuthorized).isAuthorized key = true →
    (i.state .isAllowed).isAuthorized key = true →
    ∃ plan, (i.state .allowedPlan).planOf key = some plan ∧
      (i.HasLeft key plan → (i.state .callPriority).isAuthorized key = true ∧
        (i.state .constantPool).isAuthorized key = true ∧ i.FindsPlan key)

/-- The request gets past `AuthRequestReader`. -/
def IsAuthorized : Prop :=
  match req.userApiKey.filter (· ≠ "") with
  | none => cfg.mode = .sim
  | some key => (i.state .isAuthorized).isAuthorized key = true

/-- `is_allowed` does not find the key, or takes a plan with nothing left. -/
def Interleaving.Refuses (key : String) : Prop :=
  (i.state .isAllowed).isAuthorized key = false ∨
    ∃ plan, (i.state .allowedPlan).planOf key = some plan ∧ ¬ i.HasLeft key plan

/-- The replies for the content and for the plan can be made of what the request has sent. -/
def RepliesPaste (floatText : String → String) : Prop :=
  IsAuthorized cfg i req →
    ContentPastesFor cfg floatText (fun _ => ∃ key, req.userApiKey = some key ∧ i.Refuses key)
      req.content

/-! ## replies and readers -/

variable {cfg i req}

open AcceptJSONRPCContentReader in
/-- The reader of the content refuses the request by itself, or passes it on with a method and
an id. -/
theorem content_cases (cfg : ReaderConfig) (req : RPCRequest) :
    (∃ o, Failed cfg req req o ∧
        ∀ nextReader, AcceptJSONRPCContentReader.readRequest cfg nextReader req = o) ∨
      ∃ method id, PassesOn cfg req { req with method, id } := by
  have hfailed (code : Int) (message : PyStr) :=
    failed_failureWeb3 cfg req code message req.method req.id
  cases henabled : cfg.jsonRpcRequestParserEnabled with
  | true =>
      cases hloads : loads cfg req.content with
      | none =>
          refine Or.inl ⟨_, hfailed (-32700) (ofString "Invalid JSON format"), fun _ => ?_⟩
          rw [readRequest_enabled _ _ henabled, readParsed, hloads]
          rfl
      | some value =>
          have hread := @readRequest_parsed cfg req henabled value hloads
          cases hvalidate : validate cfg value with
          | error e =>
              rw [hvalidate] at hread
              cases e with
              | jsonRPCError code message => exact Or.inl ⟨_, hfailed code message, hread⟩
              | other e =>
                  rw [failure_httpInternalServerError] at hread
                  exact Or.inl ⟨_, .reply (.http req.method req.id), hread⟩
          | ok _ =>
              obtain ⟨members, items, rfl, ⟨name, condition, -, hcall, -⟩, -⟩ :=
                Web3Proxy.validate_ok.mp hvalidate
              obtain ⟨id, hid, -⟩ := hcall.id
              have hmethod : member (.obj members) "method" = some (.str (ofString name)) :=
                hcall.method
              have hmemberId : member (.obj members) "id" = some id := hid
              simp only [hvalidate, hmethod, hmemberId] at hread
              exact Or.inr ⟨_, _, hread⟩
  | false =>
      have hread (nextReader : Option Reader) := readRequest_disabled nextReader req henabled
      obtain hcontent | ⟨content, hcontent⟩ := req.content.eq_none_or_eq_some
      · exact Or.inl ⟨_, .raise .attributeError, fun _ => by rw [hread, readTokens, hcontent]⟩
      · simp only [readTokens_eq hcontent] at hread
        by_cases hreadable : (content.splitOn 44).all (isReadable cfg) = true
        · simp only [if_pos hreadable] at hread
          cases hmethod : lastValue cfg "method" (content.splitOn 44) with
          | none =>
              simp only [hmethod] at hread
              exact Or.inl ⟨_, hfailed _ _, hread⟩
          | some method =>
              simp only [hmethod] at hread
              exact Or.inr ⟨_, _, hread⟩
        · simp only [if_neg hreadable] at hread
          exact Or.inl ⟨_, .raise _, hread⟩

theorem PassesOn.unique {req₁ req₂ : RPCRequest} (h₁ : PassesOn cfg req req₁)
    (h₂ : PassesOn cfg req req₂) : req₁ = req₂ :=
  ReadOutcome.success.inj ((h₁ none).symm.trans (h₂ none))

/-- What is passed on is not settled. -/
theorem PassesOn.not_content {req' : RPCRequest} (h : PassesOn cfg req req') {o : ReadOutcome}
    (ho : ∀ nextReader, AcceptJSONRPCContentReader.readRequest cfg nextReader req = o) : False := by
  have hnone : ReadOutcome.success req' = o := (h none).symm.trans (ho none)
  have hdrop : ReadOutcome.drop = o := (h (some fun _ => .drop)).symm.trans (ho _)
  exact absurd (hnone.trans hdrop.symm) (by simp)

/-- The key is kept. -/
theorem PassesOn.userApiKey {req' : RPCRequest} (h : PassesOn cfg req req') :
    req'.userApiKey = req.userApiKey := by
  obtain ⟨o, -, ho⟩ | ⟨method, id, hpasses⟩ := content_cases cfg req
  · exact (h.not_content ho).elim
  · rw [h.unique hpasses]

/-! ## the looks of one request -/

/-- The two looks of `get_call_priority` and those of `get_user_constant_pool` find the key. -/
structure Interleaving.Finds (i : Interleaving) (key : String) (p q : BillingPlan) : Prop where
  callPriority : (i.state .callPriority).isAuthorized key = true
  priorityPlan : (i.state .priorityPlan).planOf key = some p
  constantPool : (i.state .constantPool).isAuthorized key = true
  poolPlan : (i.state .poolPlan).planOf key = some q

/-- One plan is found if no call changes it from the one permission to the other. -/
theorem Interleaving.Finds.findsPlan {key : String} {p : BillingPlan} (h : i.Finds key p p) :
    i.FindsPlan key :=
  ⟨p, p, p, h.priorityPlan, h.poolPlan, i.wasRegistered_of_planOf h.poolPlan, rfl, rfl⟩

/-- What `accept` may come to. -/
inductive Lookups (i : Interleaving) (key : String) :
    Except PyError (Option (Int × Option String)) →
    Prop where
  | unregistered (h : (i.state .isAllowed).isAuthorized key = false) : Lookups i key (.ok none)
  | gone (h : (i.state .isAllowed).isAuthorized key = true)
      (hplan : (i.state .allowedPlan).planOf key = none) : Lookups i key (.error .keyError)
  | exhausted {plan : BillingPlan} (hplan : (i.state .allowedPlan).planOf key = some plan)
      (hleft : ¬ i.HasLeft key plan) : Lookups i key (.ok none)
  | broken {plan : BillingPlan} {e : PyError} (he : e = .assertionError ∨ e = .keyError)
      (h : (i.state .isAllowed).isAuthorized key = true)
      (hplan : (i.state .allowedPlan).planOf key = some plan) (hleft : i.HasLeft key plan)
      (hfinds : ∀ p q, ¬ i.Finds key p q) : Lookups i key (.error e)
  | granted {plan p q : BillingPlan} (h : (i.state .isAllowed).isAuthorized key = true)
      (hplan : (i.state .allowedPlan).planOf key = some plan)
      (hleft : i.HasLeft key plan) (hfinds : i.Finds key p q) :
      Lookups i key (.ok (some (p.terms.userPriority, q.terms.constantPool)))

theorem isAllowed_eq (i : Interleaving) (key method : String) :
    i.call.isAllowed key (some method) =
      if (i.state .isAllowed).isAuthorized key = true then
        match (i.state .allowedPlan).planOf key with
        | none => .error .keyError
        | some plan => .ok (decide (i.HasLeft key plan))
      else .ok false := by
  have hregistered : (i.state .isAllowed).billingService.isRegistered key =
      (i.state .isAllowed).isAuthorized key := rfl
  simp only [Interleaving.call, BasicBillingService.isAllowedBetween, hregistered]
  cases (i.state .isAllowed).isAuthorized key with
  | false => rfl
  | true =>
      cases hplan : (i.state .allowedPlan).planOf key with
      | none =>
          have hlookup : (i.state .allowedPlan).billingService.userPlan key = .error .keyError := by
            rw [StateManager.planOf] at hplan
            rw [BasicBillingService.userPlan, hplan]
          rw [hlookup]
          rfl
      | some plan =>
          have hlookup : (i.state .allowedPlan).billingService.userPlan key = .ok plan := by
            rw [StateManager.planOf] at hplan
            rw [BasicBillingService.userPlan, hplan]
          rw [hlookup]
          exact congrArg Except.ok (Bool.decide_and _ _).symm

/-- A permission that asserts that the key is there and then takes its plan. -/
theorem between_cases {α : Type} (registered plan : StateManager) (key : String)
    (f : BillingPlan → α) {r : Except PyError α}
    (hr : r = if !registered.billingService.isRegistered key then .error .assertionError else do
      let plan ← plan.billingService.userPlan key
      return f plan) :
    (∃ p, registered.isAuthorized key = true ∧ plan.planOf key = some p ∧ r = .ok (f p)) ∨
      ∃ e, (e = .assertionError ∨ e = .keyError) ∧ r = .error e ∧
        ∀ p, ¬ (registered.isAuthorized key = true ∧ plan.planOf key = some p) := by
  subst hr
  have hregistered : registered.billingService.isRegistered key = registered.isAuthorized key := rfl
  rw [hregistered]
  cases registered.isAuthorized key with
  | false => exact Or.inr ⟨.assertionError, Or.inl rfl, rfl, fun p h => by simp at h⟩
  | true =>
      rw [BasicBillingService.userPlan, ← StateManager.planOf]
      cases plan.planOf key with
      | none => exact Or.inr ⟨.keyError, Or.inr rfl, rfl, fun p h => by simp at h⟩
      | some p => exact Or.inl ⟨p, rfl, rfl, rfl⟩

theorem lookups_accept {key : String} (hkey : req.userApiKey = some key) :
    Lookups i key (AcceptMethodRequestReader.accept i.call req) := by
  rw [AcceptMethodRequestReader.accept, hkey]
  dsimp only
  rw [isAllowed_eq]
  cases hallowed : (i.state .isAllowed).isAuthorized key with
  | false => exact .unregistered hallowed
  | true =>
    rw [if_pos rfl]
    cases hplan : (i.state .allowedPlan).planOf key with
    | none => exact .gone hallowed hplan
    | some plan =>
      by_cases hleft : i.HasLeft key plan
      · simp only [hleft, decide_true]
        obtain ⟨p, hpriority, hp, hok⟩ | ⟨e, he, herror, hnot⟩ :=
          between_cases (i.state .callPriority) (i.state .priorityPlan) key
            (fun plan => plan.terms.userPriority)
            (r := i.call.getCallPriority key (some req.method)) rfl
        · obtain ⟨q, hpool, hq, hok'⟩ | ⟨e, he, herror, hnot⟩ :=
            between_cases (i.state .constantPool) (i.state .poolPlan) key
              (fun plan => plan.terms.constantPool) (r := i.call.getUserConstantPool key) rfl
          · rw [hok, hok']
            exact .granted hallowed hplan hleft ⟨hpriority, hp, hpool, hq⟩
          · rw [hok, herror]
            exact .broken he hallowed hplan hleft fun p q h => hnot q ⟨h.constantPool, h.poolPlan⟩
        · rw [herror]
          exact .broken he hallowed hplan hleft fun p q h =>
            hnot p ⟨h.callPriority, h.priorityPlan⟩
      · simp only [hleft, decide_false]
        exact .exhausted hplan hleft

/-! ## results -/

theorem readPermitted_authorized (hauth : IsAuthorized cfg i req) :
    readPermitted cfg i req = AcceptJSONRPCContentReader.readRequest cfg
      (some (AcceptMethodRequestReader.readRequest cfg i.call none)) req := by
  unfold IsAuthorized at hauth
  rw [readPermitted, AuthRequestReader.readRequest]
  cases hkey : req.userApiKey.filter (· ≠ "") with
  | none =>
      rw [hkey] at hauth
      simp only [hauth, ne_eq, not_true_eq_false, if_false]
      rfl
  | some key =>
      rw [hkey] at hauth
      have hauthorized : i.client.isAuthorized key = true := hauth
      simp only [hauthorized, Bool.not_true, Bool.false_eq_true, if_false]
      rfl

theorem readPermitted_unauthorized (hauth : ¬ IsAuthorized cfg i req) :
    readPermitted cfg i req = AuthRequestReader.unauthorized cfg req := by
  unfold IsAuthorized at hauth
  rw [readPermitted, AuthRequestReader.readRequest]
  cases hkey : req.userApiKey.filter (· ≠ "") with
  | none =>
      rw [hkey] at hauth
      simp only [ne_eq, hauth, not_false_eq_true, if_true]
  | some key =>
      rw [hkey] at hauth
      have hrefused : i.client.isAuthorized key = false := Bool.eq_false_iff.mpr hauth
      simp only [hrefused, Bool.not_false, if_true]

/-- A request that reaches `is_allowed` has a key. -/
theorem IsAuthorized.key (hauth : IsAuthorized cfg i req) (hmode : cfg.mode ≠ .sim) :
    ∃ key, req.userApiKey = some key ∧ key ≠ "" ∧
      (i.state .isAuthorized).isAuthorized key = true := by
  unfold IsAuthorized at hauth
  cases hkey : req.userApiKey.filter (· ≠ "") with
  | none =>
      rw [hkey] at hauth
      exact absurd hauth hmode
  | some key =>
      rw [hkey] at hauth
      obtain ⟨hsome, hne⟩ := Option.filter_eq_some_iff.mp hkey
      exact ⟨key, hsome, by simpa using hne, hauth⟩

theorem isAuthorized_of_key {key : String} (hkey : req.userApiKey = some key) (hne : key ≠ "")
    (h : (i.state .isAuthorized).isAuthorized key = true) : IsAuthorized cfg i req := by
  have hfilter : req.userApiKey.filter (· ≠ "") = some key := by
    rw [hkey]
    simp [hne]
  rw [IsAuthorized, hfilter]
  exact h

/-- The reader of the method, from the looks of the request. -/
theorem readRequest_eq (hmode : cfg.mode ≠ .sim) (req' : RPCRequest) :
    AcceptMethodRequestReader.readRequest cfg i.call none req' =
      match AcceptMethodRequestReader.accept i.call req' with
      | .error e => .raise e
      | .ok none =>
          failureReply cfg (ErrorResponses.forbiddenPaymentRequired cfg.now req'.id) req'
      | .ok (some (priority, constantPool)) => .success { req' with priority, constantPool } := by
  rw [AcceptMethodRequestReader.readRequest, if_neg hmode]
  rfl

/-- What is passed on is from one plan. -/
theorem RequestSettled.findsPlan {key : String} {req' : RPCRequest} {p q : BillingPlan}
    (h : RequestSettled cfg i req (.success { req' with
      priority := p.terms.userPriority, constantPool := q.terms.constantPool }))
    (hmode : cfg.mode ≠ .sim) (hkey : req.userApiKey = some key) (hfinds : i.Finds key p q) :
    i.FindsPlan key := by
  generalize hsuccess : ReadOutcome.success { req' with
    priority := p.terms.userPriority, constantPool := q.terms.constantPool } = o at h
  cases h with
  | unauthorized => cases hsuccess
  | content _ => cases hsuccess
  | forbidden _ _ => cases hsuccess
  | passedOn hpasses' hplan =>
      obtain ⟨key', plan, hkey', hwas, hpriority, hpool⟩ := hplan hmode
      obtain rfl := Option.some.inj (hkey.symm.trans hkey')
      obtain hrequest := ReadOutcome.success.inj hsuccess
      have hpriority' := congrArg RPCRequest.priority hrequest
      have hpool' := congrArg RPCRequest.constantPool hrequest
      exact ⟨p, q, plan, hfinds.priorityPlan, hfinds.poolPlan, hwas,
        hpriority.trans hpriority'.symm, hpool.trans hpool'.symm⟩

/-- A request that is settled has raised nothing. -/
theorem RequestSettled.not_raise {e : PyError} (h : RequestSettled cfg i req (.raise e)) :
    False := by
  cases h

theorem RequestSettled.quiet {o : ReadOutcome} (h : RequestSettled cfg i req o) : Quiet o := by
  constructor
  · rintro rfl
    exact h.not_raise
  · rintro rfl
    exact h.not_raise

/-- A request that is settled behind `AuthRequestReader` has found its key at each look. -/
theorem RequestSettled.staysRegistered
    (h : RequestSettled cfg i req (readContent cfg i.call req)) : StaysRegistered cfg i req := by
  intro key req' hmode hkey hne hpasses hauth hallowed
  rw [readContent, hpasses, continueWith, readRequest_eq hmode] at h
  have hlookups := lookups_accept (i := i) (hpasses.userApiKey.trans hkey)
  generalize AcceptMethodRequestReader.accept i.call req' = answer at h hlookups
  cases hlookups with
  | unregistered hregistered => exact absurd (hallowed.symm.trans hregistered) (by simp)
  | gone _ hplan => exact h.not_raise.elim
  | exhausted hplan hleft => exact ⟨_, hplan, fun h => absurd h hleft⟩
  | broken he _ hplan hleft hfinds => exact h.not_raise.elim
  | granted _ hplan hleft hfinds =>
      exact ⟨_, hplan, fun _ => ⟨hfinds.callPriority, hfinds.constantPool,
        h.findsPlan hmode hkey hfinds⟩⟩

/-- As long as the key stays registered, the reader of the method refuses the request for its
plan, or passes it on with what one plan says. -/
theorem StaysRegistered.method_cases (h : StaysRegistered cfg i req)
    (hauth : IsAuthorized cfg i req) (hmode : cfg.mode ≠ .sim) {req' : RPCRequest} (hpasses : PassesOn cfg req req') :
    ∃ key, req.userApiKey = some key ∧
      ((i.Refuses key ∧ AcceptMethodRequestReader.readRequest cfg i.call none req' =
          failureReply cfg (ErrorResponses.forbiddenPaymentRequired cfg.now req'.id) req') ∨
        (¬ i.Refuses key ∧ ∃ plan, i.WasRegistered key plan ∧
          AcceptMethodRequestReader.readRequest cfg i.call none req' = .success { req' with
            priority := plan.terms.userPriority, constantPool := plan.terms.constantPool })) := by
  obtain ⟨key, hkey, hne, hregistered⟩ := hauth.key hmode
  have hstays := h key _ hmode hkey hne hpasses hregistered
  have hlookups := lookups_accept (i := i) (hpasses.userApiKey.trans hkey)
  rw [readRequest_eq hmode]
  refine ⟨key, hkey, ?_⟩
  generalize AcceptMethodRequestReader.accept i.call req' = answer at hlookups
  cases hlookups with
  | unregistered hallowed => exact Or.inl ⟨Or.inl hallowed, rfl⟩
  | gone hallowed hplan =>
      obtain ⟨plan, hplan', -⟩ := hstays hallowed
      cases hplan.symm.trans hplan'
  | exhausted hplan hleft => exact Or.inl ⟨Or.inr ⟨_, hplan, hleft⟩, rfl⟩
  | broken _ hallowed hplan hleft hfinds =>
      obtain ⟨plan', hplan', hafter⟩ := hstays hallowed
      obtain rfl := Option.some.inj (hplan.symm.trans hplan')
      obtain ⟨hpriority, hpool, p, q, -, hp, hq, -⟩ := hafter hleft
      exact absurd ⟨hpriority, hp, hpool, hq⟩ (hfinds p q)
  | granted hallowed hplan hleft hfinds =>
      obtain ⟨plan', hplan', hafter⟩ := hstays hallowed
      obtain rfl := Option.some.inj (hplan.symm.trans hplan')
      obtain ⟨-, -, p, q, r, hp, hq, hwas, hpriority, hpool⟩ := hafter hleft
      obtain rfl := Option.some.inj (hp.symm.trans hfinds.priorityPlan)
      obtain rfl := Option.some.inj (hq.symm.trans hfinds.poolPlan)
      refine Or.inr ⟨?_, r, hwas, by rw [hpriority, hpool]⟩
      rintro (hnot | ⟨plan, hplan'', hnot⟩)
      · exact absurd (hallowed.symm.trans hnot) (by simp)
      · obtain rfl := Option.some.inj (hplan.symm.trans hplan'')
        exact hnot hleft

theorem StaysRegistered.methodAnswers (h : StaysRegistered cfg i req)
    (hauth : IsAuthorized cfg i req) {floatText : String → String}
    (hloads : cfg.text.loads = Json.loads floatText) (hnow : IsFieldText cfg.now) :
    MethodAnswers cfg floatText i.call (fun _ => ∃ key, req.userApiKey = some key ∧ i.Refuses key)
      req := by
  intro method id hpasses
  by_cases hmode : cfg.mode = .sim
  · rw [AcceptMethodRequestReader.readRequest, if_pos hmode]
    exact ⟨fun _ hne => absurd hmode hne, fun _ => .success method id 0 none⟩
  · obtain ⟨key, hkey, ⟨hrefuses, hread⟩ | ⟨hrefuses, plan, -, hread⟩⟩ :=
      h.method_cases hauth hmode hpasses
    · have hplain : IsPlainText "You exceeded the limit of calls. Check your plan" := by decide
      have hanswered := @answered_plain _ _ req (-(32000 + 3)) hloads hnow _ hplain method id
      rw [hread]
      exact hanswered.trans ⟨fun h _ _ => h, fun h => h hmode ⟨key, hkey, hrefuses⟩⟩
    · rw [hread]
      refine ⟨fun _ _ hrefused => ?_, fun _ => .success method id _ _⟩
      obtain ⟨key', hkey', hrefused⟩ := hrefused
      obtain rfl := Option.some.inj (hkey.symm.trans hkey')
      exact absurd hrefused hrefuses

/-- As long as the key stays registered, the request is settled when it gets its answer. -/
theorem StaysRegistered.settled_iff_answered (h : StaysRegistered cfg i req)
    (hauth : IsAuthorized cfg i req) :
    RequestSettled cfg i req (readContent cfg i.call req) ↔
      Answered cfg req (readContent cfg i.call req) := by
  obtain ⟨o, hfailed, ho⟩ | ⟨method, id, hpasses⟩ := content_cases cfg req
  · rw [readContent, ho]
    cases hfailed with
    | reply hanswered => exact ⟨fun _ => hanswered, fun _ => .content ho⟩
    | raise e => exact ⟨fun h => h.not_raise.elim, fun h => absurd h (not_answered_raise e)⟩
  · rw [readContent, hpasses, continueWith]
    by_cases hmode : cfg.mode = .sim
    · rw [AcceptMethodRequestReader.readRequest, if_pos hmode]
      exact ⟨fun _ => .success method id 0 none,
        fun _ => .passedOn hpasses fun hne => absurd hmode hne⟩
    · obtain ⟨key, hkey, ⟨-, hread⟩ | ⟨-, plan, hwas, hread⟩⟩ := h.method_cases hauth hmode hpasses
      · have hfailed := failed_failureWeb3 cfg req (-(32000 + 3))
          (ofString "You exceeded the limit of calls. Check your plan") method id
        have hreply : failureReply cfg (ErrorResponses.forbiddenPaymentRequired cfg.now id)
            { req with method, id } = failureWeb3 cfg (-(32000 + 3))
              (ofString "You exceeded the limit of calls. Check your plan")
              { req with method, id } := rfl
        rw [hread]
        rw [← hreply] at hfailed
        generalize ho : failureReply cfg (ErrorResponses.forbiddenPaymentRequired cfg.now id)
          { req with method, id } = o at hfailed
        cases hfailed with
        | reply hanswered =>
            exact ⟨fun _ => hanswered, fun _ => .forbidden hpasses (failureReply_eq_failure ho)⟩
        | raise e => exact ⟨fun h => h.not_raise.elim, fun h => absurd h (not_answered_raise e)⟩
      · rw [hread]
        exact ⟨fun _ => .success method id _ _,
          fun _ => .passedOn hpasses fun _ => ⟨key, plan, hkey, hwas, rfl, rfl⟩⟩

/-- The reply to an unknown key goes back. -/
theorem unauthorized_eq {floatText : String → String}
    (hloads : cfg.text.loads = Json.loads floatText) (hnow : IsFieldText cfg.now) :
    AuthRequestReader.unauthorized cfg req =
      .failure (ErrorResponses.unauthorizedInvalidAPIKey cfg.now) req := by
  obtain ⟨r, hr⟩ := RPCResponse.new_unauthorizedInvalidAPIKey cfg.text.loads hnow
    (hloads ▸ ErrorResponses.loads_unauthorized floatText)
  rw [AuthRequestReader.unauthorized, failure, hr]

/-- **No administrator breaks a request**, exactly when its key stays registered from
`is_allowed` on, as far as the request looks, one plan has what is found, and the replies can be
made of what the request has sent. -/
theorem unbroken_iff {floatText : String → String} (hloads : cfg.text.loads = Json.loads floatText)
    (hnow : IsFieldText cfg.now) (i : Interleaving) (hid : req.id = none) :
    Unbroken cfg i req (readPermitted cfg i req) ↔
      StaysRegistered cfg i req ∧ RepliesPaste cfg i req floatText := by
  by_cases hauth : IsAuthorized cfg i req
  · have hread : readPermitted cfg i req = readContent cfg i.call req :=
      readPermitted_authorized hauth
    rw [hread]
    constructor
    · intro h
      have hstays := h.settled.staysRegistered
      have hanswered := (hstays.settled_iff_answered hauth).mp h.settled
      exact ⟨hstays, fun _ =>
        (answered_content hloads hnow (hstays.methodAnswers hauth hloads hnow) hid).mp hanswered⟩
    · rintro ⟨hstays, hpastes⟩
      have hanswered := (answered_content hloads hnow (hstays.methodAnswers hauth hloads hnow)
        hid).mpr (hpastes hauth)
      have hsettled := (hstays.settled_iff_answered hauth).mpr hanswered
      exact ⟨hsettled.quiet, hsettled⟩
  · rw [readPermitted_unauthorized hauth, unauthorized_eq hloads hnow]
    have hsettled : RequestSettled cfg i req
      (.failure (ErrorResponses.unauthorizedInvalidAPIKey cfg.now) req) := .unauthorized
    exact ⟨fun _ => ⟨fun key req' hmode hkey hne hpasses hregistered =>
      absurd (isAuthorized_of_key hkey hne hregistered) hauth, fun h => absurd h hauth⟩,
      fun _ => ⟨hsettled.quiet, hsettled⟩⟩

end Chain

/-! ## a user who is removed -/

/-- One user, with calls left, who is removed before the key is looked for again. -/
def removal : Interleaving where
  start := (({} : StateManager).registerUser "key" (createPlan 10 1000 0 none)).2
  calls
    | .callPriority => [.removeUser "key"]
    | _ => []

/-- A request of that user. -/
def blockNumberOf (key : String) : RPCRequest where
  userApiKey := some key
  content := some (str
    "\x7b\"jsonrpc\":\"2.0\",\"id\":1,\"method\":\"eth_blockNumber\"\x7d")

theorem unbroken_iff_removal :
    Unbroken parserConfig removal (blockNumberOf "key")
        (readPermitted parserConfig removal (blockNumberOf "key")) ↔
      StaysRegistered parserConfig removal (blockNumberOf "key") ∧
        RepliesPaste parserConfig removal (blockNumberOf "key") id :=
  unbroken_iff rfl (by decide) removal rfl

/-- `get_call_priority` asserts what only `is_allowed` has seen. -/
theorem not_unbroken : ¬ Unbroken parserConfig removal (blockNumberOf "key")
    (readPermitted parserConfig removal (blockNumberOf "key")) := by
  have hraise : readPermitted parserConfig removal (blockNumberOf "key") =
      .raise .assertionError := by decide +kernel
  exact fun h => h.quiet.1 hraise

end Web3Proxy
