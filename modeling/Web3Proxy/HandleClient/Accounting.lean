import Mathlib.Algebra.BigOperators.Group.Finset.Basic
import Mathlib.Data.Fintype.Basic
import Web3Proxy.HandleClient.Billing

/-!
# Web3Proxy.HandleClient.Accounting

The statistics of the endpoints (`endpointconnectionstats.py`) and the ledger of the users
count the same: both are told of each piece of a response after it has been sent on, and of
a request after its response.

* `always_agree` — over any runs one after the other, for requests with an API key, the sums
  over the endpoints and over the users are equal.
-/

namespace Web3Proxy

open Py Bytes Trans Exchanges

/-! ## EndpointConnectionStats -/

/-- The counters of an endpoint. -/
structure EndpointConnectionStats where
  noBytesSent : Int := 0
  noBytesReceived : Int := 0
  noRequestsHandled : Int := 0
deriving DecidableEq, Repr

namespace EndpointConnectionStats

variable (stats : EndpointConnectionStats)

/-- `_update(no_bytes_received, no_bytes_sent, no_requests_handled)`. -/
def update (noBytesReceived noBytesSent noRequestsHandled : Int) : EndpointConnectionStats where
  noRequestsHandled := stats.noRequestsHandled + noRequestsHandled
  noBytesSent := stats.noBytesSent + noBytesSent
  noBytesReceived := stats.noBytesReceived + noBytesReceived

/-- `update_request_bytes(req_data)`. -/
def updateRequestBytes (reqData : Bytes) : EndpointConnectionStats :=
  if reqData.length ≠ 0 then stats.update reqData.length 0 1 else stats

/-- `update_response_bytes(res_data)`. -/
def updateResponseBytes (resData : Bytes) : EndpointConnectionStats :=
  if resData.length ≠ 0 then stats.update 0 resData.length 0 else stats

/-- `RPCEndpoint.update_stats(request_bytes, response_bytes)`. -/
def updateStats (requestBytes responseBytes : Bytes) : EndpointConnectionStats :=
  (stats.updateRequestBytes requestBytes).updateResponseBytes responseBytes

/-- What the ledger would call these counters. -/
def toCallStats : CallStats where
  requestBytes := stats.noBytesReceived
  responseBytes := stats.noBytesSent
  numCalls := stats.noRequestsHandled

/-- A piece of a response counts its bytes, also when there are none. -/
theorem toCallStats_response (res : Bytes) :
    (stats.updateStats [] res).toCallStats = stats.toCallStats + ⟨0, res.length, 0⟩ := by
  unfold updateStats updateRequestBytes updateResponseBytes
  cases res with
  | nil => simp [toCallStats, CallStats.add_def]
  | cons b res => simp [toCallStats, CallStats.add_def, update]

/-- A request counts when it has bytes. -/
theorem toCallStats_request {bytes : Bytes} (h : bytes ≠ []) :
    (stats.updateStats bytes []).toCallStats = stats.toCallStats + ⟨bytes.length, 0, 1⟩ := by
  unfold updateStats updateRequestBytes updateResponseBytes
  simp [h, toCallStats, CallStats.add_def, update]

end EndpointConnectionStats

/-! ## the ledger -/

/-- What all users together have used. -/
def ServiceActivitySummary.total (a : ServiceActivitySummary) : CallStats :=
  a.userSummaries.sum UserActivitySummary.totalStats

/-- The total grows by what is recorded for a user. -/
theorem ServiceActivitySummary.total_update_of_key (a : ServiceActivitySummary)
    {request : RecordedRequest} {k : String} (hkey : request.userApiKey = some k) (hne : k ≠ "")
    (response : Nat) (responseOnly : Bool) :
    (a.update request response responseOnly).total =
      a.total + ⟨if responseOnly then 0 else request.lastQueriedBytes, response,
        if responseOnly then 0 else 1⟩ := by
  have hzero : UserActivitySummary.totalStats {} = 0 := rfl
  unfold update
  simp only [hkey, hne, if_false]
  unfold total updateUas getOrCreateUas
  simp only [Dict.get?_setDefault_self, Option.getD_some]
  rw [Dict.sum_set (δ := ⟨if responseOnly then 0 else request.lastQueriedBytes, response,
    if responseOnly then 0 else 1⟩), Dict.sum_setDefault hzero]
  rw [Dict.get?_setDefault_self, UserActivitySummary.update, CallStats.updateStats_eq]
  rfl

namespace Accounting

/-! ## the system -/

/-- The run of the present exchange, with the statistics of the endpoints and the ledger. -/
structure State (ε : Type) where
  worker : Quota.Worker := {}
  endpoints : ε → EndpointConnectionStats := fun _ => {}
  ledger : SimpleActivityLedger := {}

/-- A call of the run, with its answer, on a day; or the next run. -/
inductive Label where
  | call (a : Answer) (day : DateKey)
  | next
deriving DecidableEq, Repr

/-- A request that the readers let through carries an API key. -/
def Label.Keyed : Label → Prop
  | .call (.read (.success req)) _ => ∃ k, req.userApiKey = some k ∧ k ≠ ""
  | _ => True

instance (l : Label) : Decidable l.Keyed := by
  unfold Label.Keyed
  split
  · next req _ =>
    exact decidable_of_iff (req.userApiKey.any (fun k => decide (k ≠ "")) = true)
      (by simp [Option.any_eq_true])
  · infer_instance

variable {ε : Type} [DecidableEq ε]

/-- `update_endpoint_stats(request_bytes, response_bytes)` of the handler's connection. -/
def State.updateEndpointStats (s : State ε) (endpointOf : ConnId → ε)
    (requestBytes responseBytes : Bytes) : Option (ε → EndpointConnectionStats) :=
  s.worker.run.connection.map fun c => Function.update s.endpoints (endpointOf c)
    ((s.endpoints (endpointOf c)).updateStats requestBytes responseBytes)

/-- The statistics of the endpoints after the call that the run stands at.  Recording
itself does not fail. -/
def State.nextEndpoints (s : State ε) (endpointOf : ConnId → ε) (a : Answer) :
    Option (ε → EndpointConnectionStats) :=
  match s.worker.run.pc with
  | .recordResponse _ =>
      if a = .ok then s.updateEndpointStats endpointOf [] s.worker.res else none
  | .recordRequest =>
      if a = .ok then
        s.updateEndpointStats endpointOf (s.worker.run.req.lastQueriedBytes.getD []) []
      else none
  | _ => some s.endpoints

/-- One step. -/
def step (endpointOf : ConnId → ε) (env : ProxyEnv) (s : State ε) : Label → Option (State ε)
  | .call a day =>
      (s.nextEndpoints endpointOf a).bind fun endpoints => (s.worker.run.step env a).map fun run =>
        { endpoints, worker := { run, res := s.worker.nextRes },
          ledger := s.worker.record day s.ledger a }
  | .next => if s.worker.run.pc = .done then some { s with worker := {} } else none

/-- The sums over the endpoints are those over the users. -/
structure Agree [Fintype ε] (s : State ε) : Prop where
  calls : ∑ e, (s.endpoints e).noRequestsHandled =
    s.ledger.allTimeSummary.userSummaries.sum fun u => u.totalStats.numCalls
  requestBytes : ∑ e, (s.endpoints e).noBytesReceived =
    s.ledger.allTimeSummary.userSummaries.sum fun u => u.totalStats.requestBytes
  responseBytes : ∑ e, (s.endpoints e).noBytesSent =
    s.ledger.allTimeSummary.userSummaries.sum fun u => u.totalStats.responseBytes

/-! ## the account -/

section Account

variable {env : ProxyEnv} {r r' : Run} {a : Answer}

/-- What is to be recorded has an API key; once it has been sent, it has bytes. -/
structure Recordable (r : Run) : Prop where
  key : r.pc.willRecord → ∃ k, r.req.userApiKey = some k ∧ k ≠ ""
  bytes : Billing.isAwaiting r.pc → ∃ bytes, r.req.lastQueriedBytes = some bytes ∧ bytes ≠ []

theorem recordable_of_not_willRecord (h : r.pc.willRecord = false) : Recordable r := by
  refine ⟨fun hrecord => ?_, fun hawait => ?_⟩
  · rw [h] at hrecord
    cases hrecord
  · have hrecord := Billing.willRecord_of_isAwaiting hawait
    rw [h] at hrecord
    cases hrecord

theorem head_ne_nil (sender : RequestSender) (req : RPCRequest) (headers : Bytes) :
    sender.head req headers ≠ [] := by
  have hline : RequestSender.postRequestLine1 ≠ [] := by decide
  unfold RequestSender.head RPCRequest.requestLine
  dsimp only
  split <;> split <;> simp [hline]

/-- Before the response is awaited the request is sent. -/
theorem next_isAwaiting (h : Run.Move env r a r') (hpc : Billing.isAwaiting r'.pc) :
    Billing.isAwaiting r.pc ∨
      ∃ (handler : EndpointConnectionHandler) (bytes : Bytes),
        handler.sender.request r.req = .ok bytes r'.req := by
  unfold Billing.isAwaiting at hpc ⊢
  cases h with
  | read outcome hr => cases outcome <;> grind
  | @drop next hr => cases next <;> grind
  | @modify next hr => cases next <;> grind
  | @send _ handler bytes req hsend hhandler hreq ha => exact Or.inr ⟨handler, bytes, hreq⟩
  | _ => grind

theorem Recordable.of_read {outcome : ReadOutcome}
    (hkeyed : ∀ req, outcome = .success req → ∃ k, req.userApiKey = some k ∧ k ≠ "") :
    Recordable (r.afterRead outcome) := by
  cases outcome with
  | success req =>
      by_cases hoptions : req.httpMethod = some (str "OPTIONS")
      · rw [Run.afterRead, if_pos hoptions]
        exact recordable_of_not_willRecord rfl
      · rw [Run.afterRead, if_neg hoptions]
        refine ⟨fun _ => hkeyed req rfl, fun hawait => ?_⟩
        obtain h | h := hawait
        · cases h
        · cases h
  | _ => exact recordable_of_not_willRecord rfl

theorem Recordable.of_call (h : Recordable r) (hmove : Run.Move env r a r')
    (hread : r.pc ≠ .readRequest) : Recordable r' := by
  obtain ⟨last, hreq⟩ := hmove.req_eq hread
  refine ⟨fun hrecord => ?_, fun hawait => ?_⟩
  · rw [hreq]
    exact h.key (Quota.willRecord_of_move hmove hread hrecord).1
  · obtain hbefore | ⟨handler, bytes, hsent⟩ := next_isAwaiting hmove hawait
    · rw [Billing.req_of_isAwaiting hmove hbefore]
      exact h.bytes hbefore
    · obtain ⟨headers, content, -, -, hbytes, hreq'⟩ := RequestSender.request_ok hsent
      refine ⟨bytes, by rw [hreq'], ?_⟩
      rw [hbytes]
      exact List.append_ne_nil_of_left_ne_nil (head_ne_nil _ _ _) content

theorem Recordable.step (h : Recordable r) (hmove : Run.Move env r a r') {day : DateKey}
    (hkeyed : Label.Keyed (.call a day)) : Recordable r' := by
  by_cases hread : r.pc = .readRequest
  · cases hmove with
    | read outcome hr =>
        refine .of_read fun req hreq => ?_
        subst hreq
        exact hkeyed
    | send hsend | sendCut n hsend | sendRaise e hsend | sendNothing hsend => grind
    | _ => grind
  · exact h.of_call hmove hread

end Account

/-! ## results -/

section Results

variable [Fintype ε] {endpointOf : ConnId → ε} {env : ProxyEnv} {s s' : State ε}

/-- The endpoints together have the total of the users. -/
structure Inv (s : State ε) : Prop where
  total : ∑ e, (s.endpoints e).toCallStats = s.ledger.allTimeSummary.total
  recordable : Recordable s.worker.run

/-- The counters of one endpoint change. -/
theorem sum_update {endpoints : ε → EndpointConnectionStats} {e : ε}
    {stats : EndpointConnectionStats} {δ : CallStats}
    (h : stats.toCallStats = (endpoints e).toCallStats + δ) :
    ∑ e', (Function.update endpoints e stats e').toCallStats =
      ∑ e', (endpoints e').toCallStats + δ := by
  have hrest : ∀ e' ∈ Finset.univ.erase e,
      (Function.update endpoints e stats e').toCallStats = (endpoints e').toCallStats := by
    intro e' he'
    rw [Function.update_of_ne (Finset.ne_of_mem_erase he')]
  rw [← Finset.add_sum_erase Finset.univ _ (Finset.mem_univ e), Finset.sum_congr rfl hrest,
    ← Finset.add_sum_erase Finset.univ (fun e' => (endpoints e').toCallStats) (Finset.mem_univ e),
    Function.update_self, h]
  exact add_right_comm _ _ _

/-- **Both sides are told the same.** -/
theorem Inv.total_step (hi : Inv s) {a : Answer} {day : DateKey}
    {endpoints : ε → EndpointConnectionStats} (hend : s.nextEndpoints endpointOf a = some endpoints) :
    ∑ e, (endpoints e).toCallStats = (s.worker.record day s.ledger a).allTimeSummary.total := by
  unfold State.nextEndpoints at hend
  split at hend
  · next complete hpc =>
    obtain ⟨rfl, hend⟩ := Option.ite_none_right_eq_some.mp hend
    obtain ⟨c, -, rfl⟩ := Option.map_eq_some_iff.mp hend
    obtain ⟨k, hkey, hne⟩ := hi.recordable.key (by rw [hpc]; rfl)
    rw [sum_update ((s.endpoints (endpointOf c)).toCallStats_response s.worker.res), hi.total]
    simp only [Quota.Worker.record, hpc, SimpleActivityLedger.recordRpcResponse,
      SimpleActivityLedger.record_eq]
    have hrecorded : s.worker.run.req.recorded.userApiKey = some k := hkey
    exact (ServiceActivitySummary.total_update_of_key _ hrecorded hne s.worker.res.length
      true).symm
  · next hpc =>
    obtain ⟨rfl, hend⟩ := Option.ite_none_right_eq_some.mp hend
    obtain ⟨c, -, rfl⟩ := Option.map_eq_some_iff.mp hend
    obtain ⟨k, hkey, hne⟩ := hi.recordable.key (by rw [hpc]; rfl)
    obtain ⟨bytes, hbytes, hnil⟩ := hi.recordable.bytes (Or.inr hpc)
    rw [hbytes, Option.getD_some,
      sum_update ((s.endpoints (endpointOf c)).toCallStats_request hnil), hi.total]
    simp only [Quota.Worker.record, hpc, SimpleActivityLedger.recordRpcRequest,
      SimpleActivityLedger.record_eq]
    have hrecorded : s.worker.run.req.recorded.userApiKey = some k := hkey
    have hupdate := s.ledger.allTimeSummary.total_update_of_key hrecorded hne 0 false
    simp only [RPCRequest.recorded, hbytes, Option.getD_some] at hupdate
    simp only [RPCRequest.recorded, hbytes, Option.getD_some]
    exact hupdate.symm
  · next hresponse hrequest =>
    obtain rfl := Option.some.inj hend
    rw [hi.total]
    unfold Quota.Worker.record
    split
    · next complete hpc => exact absurd hpc (hresponse _)
    · next hpc => exact absurd hpc hrequest
    · rfl

theorem Inv.step (hi : Inv s) {l : Label} (hl : l.Keyed)
    (hstep : step endpointOf env s l = some s') : Inv s' := by
  cases l with
  | call a day =>
      obtain ⟨endpoints, hend, hstep⟩ := Option.bind_eq_some_iff.mp hstep
      obtain ⟨run, hrun, rfl⟩ := Option.map_eq_some_iff.mp hstep
      exact ⟨hi.total_step hend, hi.recordable.step (Run.step_move hrun) hl⟩
  | next =>
      obtain ⟨-, hs'⟩ := Option.ite_none_right_eq_some.mp hstep
      obtain rfl := Option.some.inj hs'
      exact ⟨hi.total, recordable_of_not_willRecord rfl⟩

/-- The counters as homomorphisms. -/
def numCallsHom : CallStats →+ Int := ⟨⟨CallStats.numCalls, rfl⟩, fun _ _ => rfl⟩

@[inherit_doc numCallsHom]
def requestBytesHom : CallStats →+ Int := ⟨⟨CallStats.requestBytes, rfl⟩, fun _ _ => rfl⟩

@[inherit_doc numCallsHom]
def responseBytesHom : CallStats →+ Int := ⟨⟨CallStats.responseBytes, rfl⟩, fun _ _ => rfl⟩

omit [DecidableEq ε] in
theorem Inv.agree (hi : Inv s) : Agree s := by
  have hhom (φ : CallStats →+ Int) : ∑ e, φ (s.endpoints e).toCallStats =
      s.ledger.allTimeSummary.userSummaries.sum fun u => φ u.totalStats := by
    rw [← map_sum, hi.total]
    exact Dict.map_sum φ _ _
  exact ⟨hhom numCallsHom, hhom requestBytesHom, hhom responseBytesHom⟩

/-- **The two accounts agree**, whatever the answers of the sockets and of the parser. -/
theorem always_agree (endpointOf : ConnId → ε) (env : ProxyEnv) {ls : List Label}
    (hkeyed : ∀ l ∈ ls, l.Keyed) : Always (step endpointOf env) Agree {} ls := by
  refine always_of_guarded (step endpointOf env) (I := Inv) (P := fun _ l => l.Keyed)
    (fun _ _ _ hi hl hstep => hi.step hl hstep) (fun _ hi => hi.agree) ?_
    (guarded_of_forall (step endpointOf env) (fun l hl _ => hkeyed l hl) _)
  refine ⟨?_, recordable_of_not_willRecord rfl⟩
  exact Finset.sum_eq_zero fun _ _ => rfl

end Results

/-- A request for the block number, answered over a connection of the second of two endpoints. -/
def exchange : List Label :=
  ((Billing.sending ++ Billing.answering).map fun l => .call l.1 l.2) ++ [.next]

theorem always_agree_exchange :
    ((Trans.run (step (fun _ => (1 : Fin 2)) Quota.answering) {} exchange).map fun s =>
        (s.endpoints 0, s.endpoints 1, s.ledger.allTimeSummary.total)) =
      some ({}, ⟨19, 112, 1⟩, ⟨112, 19, 1⟩) ∧
    Always (step (fun _ => (1 : Fin 2)) Quota.answering) Agree {} exchange :=
  ⟨by decide +kernel, always_agree (fun _ => 1) Quota.answering (by decide +kernel)⟩

end Accounting

end Web3Proxy
