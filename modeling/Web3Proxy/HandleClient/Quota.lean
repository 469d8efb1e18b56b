import Web3Proxy.ActivityLedger.Totals
import Web3Proxy.HandleClient.Mediation
import Web3Proxy.HandleClient.Workers
import Web3Proxy.StateManager.Spec

/-!
# Web3Proxy.HandleClient.Quota

A user's plan bounds the user's calls.  A run asks for the permission to call before it
forwards the request and records the call after the response; any other runs, and the
administrator, may come in between.

* `readDefault_allowed` — what the default chain lets through was allowed;
* `step_effect` — what a step does to the usage of a user and to the user's runs;
* `always_within_plan` — with at most `w` runs of a user between admission and completion
  the calls of the user exceed those of the plan by `w - 1` at most, and once the plan is
  used up no run of the user is admitted any more.
-/

namespace Web3Proxy

open Py Bytes Trans

/-! ## usage -/

/-- What a user has used, for all time. -/
def StateManager.usage (s : StateManager) (k : String) : CallStats :=
  ((s.activityLedger.getAllTimeUserSummary k).getD {}).totalStats

theorem CallStats.numCalls_add (a b : CallStats) : (a + b).numCalls = a.numCalls + b.numCalls := rfl

theorem CallStats.requestBytes_add (a b : CallStats) :
    (a + b).requestBytes = a.requestBytes + b.requestBytes := rfl

theorem CallStats.totalBytes_add (a b : CallStats) :
    (a + b).totalBytes = a.totalBytes + b.totalBytes := by
  simp only [add_def, totalBytes]
  omega

/-- The plan is used up: its calls or its bytes. -/
def PlanTerms.ExhaustedBy (terms : PlanTerms) (usage : CallStats) : Prop :=
  terms.numFreeCalls ≤ usage.numCalls ∨ terms.numFreeBytes ≤ usage.totalBytes

instance (terms : PlanTerms) (usage : CallStats) : Decidable (terms.ExhaustedBy usage) :=
  inferInstanceAs (Decidable (_ ∨ _))

/-- A plan that is used up stays so. -/
theorem PlanTerms.ExhaustedBy.mono {terms : PlanTerms} {usage usage' : CallStats}
    (h : terms.ExhaustedBy usage) (hcalls : usage.numCalls ≤ usage'.numCalls)
    (hbytes : usage.totalBytes ≤ usage'.totalBytes) : terms.ExhaustedBy usage' := by
  unfold ExhaustedBy at h ⊢
  omega

/-- Nobody is allowed a call whose plan is used up. -/
theorem Managers.isAllowed_ok {m : Managers} {k : String} {method : String} {plan : BillingPlan}
    (hplan : m.allowed.planOf k = some plan) (h : m.call.isAllowed k (some method) = .ok true) :
    ¬ plan.terms.ExhaustedBy (m.allowed.usage k) := by
  have hallowed : m.allowed.billingService.isAllowed k (some method)
      (m.allowed.usage k).numCalls (m.allowed.usage k).totalBytes = .ok true := h
  unfold BasicBillingService.isAllowed at hallowed
  unfold StateManager.planOf at hplan
  rw [hplan] at hallowed
  have hleft : (m.allowed.usage k).numCalls < plan.terms.numFreeCalls ∧
      (m.allowed.usage k).totalBytes < plan.terms.numFreeBytes := by simpa using hallowed
  unfold PlanTerms.ExhaustedBy
  omega

/-- What is recorded for a user. -/
theorem StateManager.usage_record (s : StateManager) (day : DateKey) (request : RecordedRequest)
    (response : Nat) (responseOnly : Bool) (k : String) :
    ({ s with
        activityLedger := s.activityLedger.record day request response responseOnly } :
      StateManager).usage k =
      s.usage k +
        ServiceActivitySummary.growth request response responseOnly k request.method := by
  unfold usage
  rw [SimpleActivityLedger.record_eq]
  exact ServiceActivitySummary.total_update _ request response responseOnly k

/-- The administrator's calls on others leave the usage of a user alone. -/
theorem StateManager.usage_apply {s : StateManager} {o : Op} {k : String}
    (hadmin : o.adminKey.isSome) (h : o.adminKey ≠ some k) : (s.apply o).usage k = s.usage k := by
  cases o with
  | registerUser j t =>
      rw [apply, registerUser]
      split <;> rfl
  | updateUserPlan j t =>
      rw [apply, updateUserPlan]
      split <;> rfl
  | removeUser j =>
      have hk : k ≠ j := fun hk => h (hk ▸ rfl)
      have hget : (s.activityLedger.removeUser j).getAllTimeUserSummary k =
          s.activityLedger.getAllTimeUserSummary k :=
        (Dict.get?_erase k).trans (if_neg hk)
      rw [apply, removeUser]
      split
      · simp only [usage, hget]
      · rfl
  | recordRpcRequest d r => cases hadmin
  | recordRpcResponse d r n => cases hadmin

/-! ## what the readers let through -/

section Readers

variable {cfg : ReaderConfig} {nextReader : Option Reader} {req req' : RPCRequest}

/-- `AcceptJSONRPCContentReader` hands on the request, with a method and an id. -/
theorem AcceptJSONRPCContentReader.readRequest_next
    (h : AcceptJSONRPCContentReader.readRequest cfg nextReader req = .success req') :
    ∃ method id, continueWith nextReader { req with method, id } = .success req' := by
  cases hparser : cfg.jsonRpcRequestParserEnabled with
  | true =>
      obtain ⟨_, _, method, id, -, -, -, -, hnext⟩ := readRequest_success hparser h
      exact ⟨method.asString, id, hnext⟩
  | false =>
      have htokens : readTokens cfg nextReader req = .success req' := by
        simpa [readRequest, hparser] using h
      unfold readTokens at htokens
      split at htokens
      · cases htokens
      · split at htokens
        · cases htokens
        · exact absurd htokens failureReply_ne_success
        · next method id _ => exact ⟨method, _, htokens⟩

/-- **What the default chain lets through was allowed**, with or without the parser;
`OPTIONS` requests are not asked about. -/
theorem readDefault_allowed {h : HttpTools} {m : Managers} {cs rest : List SocketRead}
    (hmode : cfg.mode ≠ .sim)
    (hread : readDefault cfg h m.client m.call cs = (.success req, rest)) :
    req.httpMethod = some (str "OPTIONS") ∨ ∃ key method, req.userApiKey = some key ∧
      m.call.isAllowed key (some method) = .ok true := by
  obtain hoptions | ⟨req₁, hread⟩ := readDefault_dispatched hread
  · exact Or.inl hoptions
  · right
    obtain ⟨_, _, _, _, hnext, hread⟩ := AuthRequestReader.readRequest_success hmode hread
    cases hnext
    obtain ⟨method, id, hread⟩ := AcceptJSONRPCContentReader.readRequest_next hread
    obtain ⟨key, hkey, hallowed, priority, constantPool, hread⟩ :=
      AcceptMethodRequestReader.readRequest_success hmode hread
    cases hread
    exact ⟨key, method, hkey, hallowed⟩

end Readers

/-! ## the system -/

/-- What the ledger is told of a request; one that is recorded has been sent. -/
def RPCRequest.recorded (req : RPCRequest) : RecordedRequest where
  userApiKey := req.userApiKey
  method := req.method
  lastQueriedBytes := (req.lastQueriedBytes.getD []).length

/-- The request of the run may be recorded yet. -/
@[grind =] def Pc.willRecord : Pc → Bool
  | .getIdle | .connect | .busyAdd _ _ | .sendRequest | .reconnect | .sendAgain | .recv
  | .respond _ _ | .recordResponse _ | .recordRequest => true
  | _ => false

namespace Quota

/-- A run, with `res` of its response handler: the piece that it has last sent on. -/
structure Worker where
  run : Run := {}
  res : Bytes := []

namespace Worker

variable (worker : Worker)

/-- `res`, once the call that the run stands at has been made. -/
def nextRes : Bytes :=
  match worker.run.pc with
  | .respond data _ => worker.run.answerBytes data
  | _ => worker.res

/-- What the call that the run stands at records, on the day `day`. -/
def record (day : DateKey) (l : SimpleActivityLedger) (a : Answer) : SimpleActivityLedger :=
  match worker.run.pc, a with
  | .recordResponse _, .ok => l.recordRpcResponse day worker.run.req.recorded worker.res.length
  | .recordRequest, .ok => l.recordRpcRequest day worker.run.req.recorded
  | _, _ => l

end Worker

/-- The runs of `handle_client` and the state that they share; `admitted` are the runs
that the readers have let through to an endpoint. -/
structure State where
  manager : StateManager
  workers : RunId → Worker := fun _ => {}
  admitted : Finset RunId := ∅

/-- A step: a run reads its request, a run makes another call, or the administrator makes
a call.  The reading asks for the permission to call as the state is; the other questions
of the readers are asked at other times, so it is given what they find. -/
inductive Label where
  | read (w : RunId) (cs : List SocketRead) (m : Managers)
  | call (w : RunId) (a : Answer) (day : DateKey)
  | admin (o : Op)

/-- The administrator does not remove the user or change the user's plan. -/
def Label.Keeps (k : String) : Label → Prop
  | .admin o => o.adminKey ≠ some k
  | _ => True

instance (k : String) (l : Label) : Decidable (l.Keeps k) := by
  unfold Label.Keeps
  split <;> infer_instance

namespace State

variable (s : State) (k : String)

/-- The runs of a user that have been admitted. -/
def admittedOf : Finset RunId :=
  s.admitted.filter fun w => (s.workers w).run.req.userApiKey = some k

/-- The runs of a user between admission and completion. -/
def inFlight : Finset RunId := (s.admittedOf k).filter fun w => (s.workers w).run.pc ≠ .done

/-- Those of them that may record their request yet. -/
def unrecorded : Finset RunId := (s.admittedOf k).filter fun w => (s.workers w).run.pc.willRecord

end State

variable (cfg : ReaderConfig) (h : HttpTools) (env : ProxyEnv)

/-- One step. -/
def step (s : State) : Label → Option State
  | .read w cs m =>
      let m := { m with allowed := s.manager }
      let worker := s.workers w
      (worker.run.step env (.read (readDefault cfg h m.client m.call cs).1)).map fun run =>
        { s with
          workers := Function.update s.workers w { worker with run }
          admitted := if run.pc = .getIdle then insert w s.admitted else s.admitted }
  | .call _ (.read _) _ => none
  | .call w a day =>
      let worker := s.workers w
      (worker.run.step env a).map fun run =>
        { s with
          manager :=
            { s.manager with activityLedger := worker.record day s.manager.activityLedger a }
          workers := Function.update s.workers w { run, res := worker.nextRes } }
  | .admin o => if o.adminKey.isSome then some { s with manager := s.manager.apply o } else none

/-! ## what a step does -/

namespace Worker

/-- What a call records for a user: bytes, and a call if it is the recording of a request of the
user. -/
theorem usage_record (worker : Worker) (s : StateManager) (day : DateKey) (a : Answer)
    (k : String) {s' : StateManager}
    (hs' : s' = { s with activityLedger := worker.record day s.activityLedger a }) :
    (s.usage k).totalBytes ≤ (s'.usage k).totalBytes ∧
      ((s'.usage k).numCalls = (s.usage k).numCalls ∨
        worker.run.pc = .recordRequest ∧ a = .ok ∧ worker.run.req.userApiKey = some k ∧
          (s'.usage k).numCalls = (s.usage k).numCalls + 1) := by
  subst hs'
  unfold record
  split
  · rw [SimpleActivityLedger.recordRpcResponse, StateManager.usage_record,
      ServiceActivitySummary.growth, CallStats.totalBytes_add, CallStats.numCalls_add]
    split
    · refine ⟨Int.le_add_of_nonneg_right ?_, Or.inl (Int.add_zero _)⟩
      exact Int.add_nonneg (Int.le_refl 0) (Int.natCast_nonneg _)
    · exact ⟨Int.le_of_eq (Int.add_zero _).symm, Or.inl (Int.add_zero _)⟩
  · next hpc =>
    rw [SimpleActivityLedger.recordRpcRequest, StateManager.usage_record,
      ServiceActivitySummary.growth, CallStats.totalBytes_add, CallStats.numCalls_add]
    split
    · next hkey =>
      refine ⟨Int.le_add_of_nonneg_right ?_, Or.inr ⟨hpc, rfl, hkey.1, rfl⟩⟩
      exact Int.add_nonneg (Int.natCast_nonneg _) (Int.le_refl 0)
    · exact ⟨Int.le_of_eq (Int.add_zero _).symm, Or.inl (Int.add_zero _)⟩
  · exact ⟨Int.le_refl _, Or.inl rfl⟩

end Worker

/-- What holds of every state of a run of the system, for a user that has the plan. -/
structure Inv (plan : BillingPlan) (k : String) (s : State) : Prop where
  planOf_eq : s.manager.planOf k = some plan
  unread : ∀ w, (s.workers w).run.pc = .readRequest → w ∉ s.admitted
  admitted : ∀ w, (s.workers w).run.pc.willRecord → w ∈ s.admitted

/-- What a step can do to the usage of a user and to the user's runs: a run is admitted,
a run records its request, or neither. -/
inductive Effect (plan : BillingPlan) (k : String) (s s' : State) : Prop where
  | admission (w : RunId) (hleft : ¬ plan.terms.ExhaustedBy (s.manager.usage k))
      (husage : s'.manager = s.manager)
      (hunrecorded : s'.unrecorded k = insert w (s.unrecorded k))
  | record (w : RunId) (hw : w ∈ s.unrecorded k)
      (hadmitted : s'.admittedOf k = s.admittedOf k)
      (hcalls : (s'.manager.usage k).numCalls = (s.manager.usage k).numCalls + 1)
      (hbytes : (s.manager.usage k).totalBytes ≤ (s'.manager.usage k).totalBytes)
      (hunrecorded : s'.unrecorded k ⊆ (s.unrecorded k).erase w)
  | other (hadmitted : s'.admittedOf k = s.admittedOf k)
      (hcalls : (s'.manager.usage k).numCalls = (s.manager.usage k).numCalls)
      (hbytes : (s.manager.usage k).totalBytes ≤ (s'.manager.usage k).totalBytes)
      (hunrecorded : s'.unrecorded k ⊆ s.unrecorded k)

theorem mem_admittedOf {s : State} {k : String} {w : RunId} :
    w ∈ s.admittedOf k ↔ w ∈ s.admitted ∧ (s.workers w).run.req.userApiKey = some k :=
  Finset.mem_filter

theorem mem_unrecorded {s : State} {k : String} {w : RunId} :
    w ∈ s.unrecorded k ↔ w ∈ s.admittedOf k ∧ (s.workers w).run.pc.willRecord :=
  Finset.mem_filter

/-- A run that has been read and is let through stands at `get_connection`. -/
theorem afterRead_willRecord {r : Run} {outcome : ReadOutcome}
    (h : (r.afterRead outcome).pc.willRecord) :
    (r.afterRead outcome).pc = .getIdle ∧
      ∃ req, outcome = .success req ∧ req.httpMethod ≠ some (str "OPTIONS") ∧
        (r.afterRead outcome).req = req := by
  cases outcome with
  | success req => grind
  | _ => grind

theorem willRecord_of_isSend {pc : Pc} (h : pc.isSend) :
    pc.willRecord ∧ pc ≠ .recordRequest := by
  cases pc <;> simp_all [Pc.isSend, Pc.willRecord]

/-- Only the reading leads to where a request may be recorded yet. -/
theorem willRecord_of_move {env : ProxyEnv} {r r' : Run} {a : Answer} (h : Run.Move env r a r')
    (hread : r.pc ≠ .readRequest) (hrecord : r'.pc.willRecord) :
    r.pc.willRecord ∧ (r.pc = .recordRequest → a ≠ .ok) := by
  cases h with
  | read outcome hpc => exact absurd hpc hread
  | @drop next hpc => cases next <;> grind
  | @modify next hpc => cases next <;> grind
  | send hpc hhandler hreq ha => grind [willRecord_of_isSend]
  | sendCut n hpc hhandler hreq he => grind [willRecord_of_isSend]
  | sendRaise e hpc hhandler hreq => grind [willRecord_of_isSend]
  | sendNothing hpc hhandler => grind [willRecord_of_isSend]
  | _ => grind

section Steps

variable {cfg : ReaderConfig} {h : HttpTools} {env : ProxyEnv} {plan : BillingPlan} {k : String}
  {s s' : State}

/-- A run other than the one that makes the step. -/
theorem workers_of_ne {w v : RunId} {worker : Worker}
    (hworkers : s'.workers = Function.update s.workers w worker) (hv : v ≠ w) :
    s'.workers v = s.workers v := by
  rw [hworkers, Function.update_of_ne hv]

theorem mem_admitted_of_ne {w v : RunId}
    (hadmitted : s'.admitted = s.admitted ∨ s'.admitted = insert w s.admitted) (hv : v ≠ w) :
    v ∈ s'.admitted ↔ v ∈ s.admitted := by
  obtain hsame | hinsert := hadmitted
  · rw [hsame]
  · rw [hinsert, Finset.mem_insert, or_iff_right hv]

/-- A step of a run changes nothing of the other runs. -/
theorem mem_admittedOf_of_ne {w v : RunId} {worker : Worker}
    (hworkers : s'.workers = Function.update s.workers w worker)
    (hadmitted : s'.admitted = s.admitted ∨ s'.admitted = insert w s.admitted) (hv : v ≠ w) :
    v ∈ s'.admittedOf k ↔ v ∈ s.admittedOf k := by
  rw [mem_admittedOf, mem_admittedOf, workers_of_ne hworkers hv, mem_admitted_of_ne hadmitted hv]

theorem admittedOf_eq {w : RunId} {worker : Worker}
    (hworkers : s'.workers = Function.update s.workers w worker)
    (hadmitted : s'.admitted = s.admitted ∨ s'.admitted = insert w s.admitted)
    (hw : w ∈ s'.admittedOf k ↔ w ∈ s.admittedOf k) : s'.admittedOf k = s.admittedOf k := by
  ext v
  by_cases hv : v = w
  · rw [hv]
    exact hw
  · exact mem_admittedOf_of_ne hworkers hadmitted hv

theorem unrecorded_subset {w : RunId} {worker : Worker}
    (hworkers : s'.workers = Function.update s.workers w worker)
    (hadmitted : s'.admittedOf k = s.admittedOf k)
    (hw : w ∈ s.admittedOf k → worker.run.pc.willRecord → (s.workers w).run.pc.willRecord) :
    s'.unrecorded k ⊆ s.unrecorded k := by
  intro v hv
  obtain ⟨hmem, hrecord⟩ := mem_unrecorded.mp hv
  rw [hadmitted] at hmem
  refine mem_unrecorded.mpr ⟨hmem, ?_⟩
  by_cases hvw : v = w
  · subst hvw
    rw [hworkers, Function.update_self] at hrecord
    exact hw hmem hrecord
  · rwa [workers_of_ne hworkers hvw] at hrecord

theorem step_read {w : RunId} {cs : List SocketRead} {m : Managers}
    (hstep : step cfg h env s (.read w cs m) = some s') :
    ∃ run, Run.Move env (s.workers w).run
        (.read (readDefault cfg h { m with allowed := s.manager }.client
          { m with allowed := s.manager }.call cs).1) run ∧
      s' = { s with
        workers := Function.update s.workers w { s.workers w with run }
        admitted := if run.pc = .getIdle then insert w s.admitted else s.admitted } := by
  obtain ⟨run, hrun, rfl⟩ := Option.map_eq_some_iff.mp hstep
  exact ⟨run, Run.step_move hrun, rfl⟩

theorem step_call {w : RunId} {a : Answer} {day : DateKey}
    (hstep : step cfg h env s (.call w a day) = some s') :
    ∃ run, Run.Move env (s.workers w).run a run ∧ (s.workers w).run.pc ≠ .readRequest ∧
      s' = { s with
        manager :=
          { s.manager with
            activityLedger := (s.workers w).record day s.manager.activityLedger a }
        workers := Function.update s.workers w { run, res := (s.workers w).nextRes } } := by
  have hread : ∀ outcome, a ≠ .read outcome := by
    intro outcome ha
    subst ha
    cases hstep
  unfold step at hstep
  split at hstep
  · next heq => cases heq
  · next heq =>
    cases heq
    exact absurd rfl (hread _)
  · next heq =>
    cases heq
    obtain ⟨run, hrun, rfl⟩ := Option.map_eq_some_iff.mp hstep
    have hmove := Run.step_move hrun
    exact ⟨run, hmove, hmove.pc_ne_of_call hread, rfl⟩
  · next heq => cases heq

/-- The reading of a request: the run is admitted if the user may call. -/
theorem Inv.effect_read {w : RunId} {cs : List SocketRead} {m : Managers} (hi : Inv plan k s)
    (hmode : cfg.mode ≠ .sim) (hstep : step cfg h env s (.read w cs m) = some s') :
    Effect plan k s s' := by
  obtain ⟨run, hmove, hs'⟩ := step_read hstep
  obtain ⟨hpc, hrun⟩ := hmove.pc_of_read
  have hunread : w ∉ s.admittedOf k := fun hw => hi.unread w hpc (mem_admittedOf.mp hw).1
  have hworkers : s'.workers = Function.update s.workers w { s.workers w with run } := by
    rw [hs']
  have hmanager : s'.manager = s.manager := by
    rw [hs']
  have hother (hw : w ∉ s'.admittedOf k)
      (hadmitted : s'.admitted = s.admitted ∨ s'.admitted = insert w s.admitted) :
      Effect plan k s s' := by
    have hsame := admittedOf_eq hworkers hadmitted (iff_of_false hw hunread)
    refine .other hsame (by rw [hmanager]) (by rw [hmanager]) ?_
    exact unrecorded_subset hworkers hsame fun hmem => absurd hmem hunread
  by_cases hrecord : run.pc.willRecord
  · obtain ⟨hidle, req, houtcome, hoptions, hreq⟩ := afterRead_willRecord (hrun ▸ hrecord)
    rw [← hrun] at hidle hreq
    have hadmitted : s'.admitted = insert w s.admitted := by
      rw [hs']
      exact if_pos hidle
    obtain hopt | ⟨key, method, hkey, hallowed⟩ :=
      readDefault_allowed hmode (Prod.ext houtcome rfl)
    · exact absurd hopt hoptions
    · have hself : (s'.workers w).run = run := by
        rw [hworkers, Function.update_self]
      have hmem : w ∈ s'.admittedOf k ↔ key = k := by
        rw [mem_admittedOf, hself, hreq, hkey, hadmitted]
        simp
      by_cases hk : key = k
      · subst hk
        refine .admission w (Managers.isAllowed_ok hi.planOf_eq hallowed) hmanager ?_
        ext v
        rw [Finset.mem_insert, mem_unrecorded, mem_unrecorded]
        by_cases hv : v = w
        · subst hv
          simp [hmem.mpr rfl, hself, hrecord]
        · rw [mem_admittedOf_of_ne hworkers (Or.inr hadmitted) hv, workers_of_ne hworkers hv]
          simp [hv]
      · exact hother (fun hw => hk (hmem.mp hw)) (Or.inr hadmitted)
  · have hidle : run.pc ≠ .getIdle := fun hidle => hrecord (by rw [hidle]; rfl)
    have hadmitted : s'.admitted = s.admitted := by
      rw [hs']
      exact if_neg hidle
    refine hother (fun hw => ?_) (Or.inl hadmitted)
    rw [mem_admittedOf, hadmitted] at hw
    exact hi.unread w hpc hw.1

/-- Another call of a run: its request may be recorded. -/
theorem Inv.effect_call {w : RunId} {a : Answer} {day : DateKey} (hi : Inv plan k s)
    (hstep : step cfg h env s (.call w a day) = some s') : Effect plan k s s' := by
  obtain ⟨run, hmove, hread, hs'⟩ := step_call hstep
  have hworkers : s'.workers =
      Function.update s.workers w { run, res := (s.workers w).nextRes } := by
    rw [hs']
  have hadmitted : s'.admitted = s.admitted := by
    rw [hs']
  have hmanager : s'.manager = { s.manager with
      activityLedger := (s.workers w).record day s.manager.activityLedger a } := by
    rw [hs']
  have hrecord := willRecord_of_move hmove hread
  obtain ⟨last, hreq⟩ := hmove.req_eq hread
  have hsame : s'.admittedOf k = s.admittedOf k := by
    apply admittedOf_eq hworkers (Or.inl hadmitted)
    rw [mem_admittedOf, mem_admittedOf, hworkers, hadmitted, Function.update_self, hreq]
  have hsubset := unrecorded_subset hworkers hsame fun _ hr => (hrecord hr).1
  obtain ⟨hbytes, hcalls | ⟨hpc, ha, hkey, hcalls⟩⟩ :=
    (s.workers w).usage_record s.manager day a k hmanager
  · exact .other hsame hcalls hbytes hsubset
  · have hw : w ∈ s.unrecorded k := by
      have hpcw : (s.workers w).run.pc.willRecord := by
        rw [hpc]
        rfl
      exact mem_unrecorded.mpr ⟨mem_admittedOf.mpr ⟨hi.admitted w hpcw, hkey⟩, hpcw⟩
    refine .record w hw hsame hcalls hbytes fun v hv => ?_
    refine Finset.mem_erase.mpr ⟨fun hvw => ?_, hsubset hv⟩
    subst hvw
    obtain ⟨-, hrecord'⟩ := mem_unrecorded.mp hv
    rw [hworkers, Function.update_self] at hrecord'
    exact (hrecord hrecord').2 hpc ha

/-- **What a step does to a user.** -/
theorem step_effect {l : Label} (hi : Inv plan k s) (hmode : cfg.mode ≠ .sim)
    (hl : l.Keeps k) (hstep : step cfg h env s l = some s') : Effect plan k s s' := by
  cases l with
  | read w cs m => exact hi.effect_read hmode hstep
  | call w a day => exact hi.effect_call hstep
  | admin o =>
      unfold step at hstep
      obtain ⟨hadmin, hs'⟩ := Option.ite_none_right_eq_some.mp hstep
      obtain rfl := Option.some.inj hs'
      have husage := StateManager.usage_apply (s := s.manager) hadmin hl
      exact .other rfl (by rw [husage]) (by rw [husage]) (Finset.Subset.refl _)

/-- For the invariant only the run that makes the step matters. -/
theorem Inv.update {w : RunId} {worker : Worker} (hi : Inv plan k s)
    (hplan : s'.manager.planOf k = s.manager.planOf k)
    (hworkers : s'.workers = Function.update s.workers w worker)
    (hadmitted : s'.admitted = s.admitted ∨ s'.admitted = insert w s.admitted)
    (hpc : worker.run.pc ≠ .readRequest) (hrecord : worker.run.pc.willRecord → w ∈ s'.admitted) :
    Inv plan k s' := by
  refine ⟨hplan.trans hi.planOf_eq, fun v hv => ?_, fun v hv => ?_⟩
  · by_cases hvw : v = w
    · rw [hvw, hworkers, Function.update_self] at hv
      exact absurd hv hpc
    · rw [workers_of_ne hworkers hvw] at hv
      rw [mem_admitted_of_ne hadmitted hvw]
      exact hi.unread v hv
  · by_cases hvw : v = w
    · rw [hvw, hworkers, Function.update_self] at hv
      rw [hvw]
      exact hrecord hv
    · rw [workers_of_ne hworkers hvw] at hv
      rw [mem_admitted_of_ne hadmitted hvw]
      exact hi.admitted v hv

theorem Inv.step {l : Label} (hi : Inv plan k s) (hl : l.Keeps k)
    (hstep : step cfg h env s l = some s') : Inv plan k s' := by
  cases l with
  | read w cs m =>
      obtain ⟨run, hmove, rfl⟩ := step_read hstep
      obtain ⟨-, hrun⟩ := hmove.pc_of_read
      refine hi.update rfl rfl ?_ hmove.pc_ne fun hrecord => ?_
      · by_cases hidle : run.pc = .getIdle
        · exact Or.inr (if_pos hidle)
        · exact Or.inl (if_neg hidle)
      · have hidle := (afterRead_willRecord (hrun ▸ hrecord)).1
        rw [← hrun] at hidle
        dsimp only
        rw [if_pos hidle]
        exact Finset.mem_insert_self w s.admitted
  | call w a day =>
      obtain ⟨run, hmove, hread, rfl⟩ := step_call hstep
      exact hi.update rfl rfl (Or.inl rfl) hmove.pc_ne fun hrecord =>
        hi.admitted w (willRecord_of_move hmove hread hrecord).1
  | admin o =>
      unfold Quota.step at hstep
      obtain ⟨-, hs'⟩ := Option.ite_none_right_eq_some.mp hstep
      obtain rfl := Option.some.inj hs'
      refine ⟨?_, hi.unread, hi.admitted⟩
      exact (s.manager.planOf_apply hl).trans hi.planOf_eq

/-! ## the bound -/

theorem unrecorded_subset_inFlight : s.unrecorded k ⊆ s.inFlight k := by
  intro w hw
  obtain ⟨hmem, hrecord⟩ := mem_unrecorded.mp hw
  refine Finset.mem_filter.mpr ⟨hmem, fun hdone => ?_⟩
  rw [hdone] at hrecord
  cases hrecord

/-- The calls recorded and those that may be recorded yet are within the bound. -/
def Bounded (plan : BillingPlan) (k : String) (w : Nat) (s : State) : Prop :=
  (s.manager.usage k).numCalls + (s.unrecorded k).card ≤ plan.terms.numFreeCalls + w - 1

/-- A run is admitted only while calls are left; when it is recorded, it is one less to be
recorded yet. -/
theorem Effect.bounded {w : Nat} (he : Effect plan k s s') (hb : Bounded plan k w s)
    (hw : (s'.inFlight k).card ≤ w) : Bounded plan k w s' := by
  unfold Bounded at hb ⊢
  cases he with
  | admission v hleft hmanager hunrecorded =>
      have hcard := Finset.card_le_card (unrecorded_subset_inFlight (s := s') (k := k))
      have hcalls : (s.manager.usage k).numCalls < plan.terms.numFreeCalls := by
        unfold PlanTerms.ExhaustedBy at hleft
        omega
      rw [hmanager]
      omega
  | record v hv hadmitted hcalls hbytes hunrecorded =>
      have hcard := Finset.card_le_card hunrecorded
      have hpos := Finset.card_pos.mpr ⟨v, hv⟩
      rw [Finset.card_erase_of_mem hv] at hcard
      omega
  | other hadmitted hcalls hbytes hunrecorded =>
      have hcard := Finset.card_le_card hunrecorded
      omega

/-- When the plan is used up, it stays so and no run of the user is admitted. -/
theorem Effect.exhausted (he : Effect plan k s s')
    (hex : plan.terms.ExhaustedBy (s.manager.usage k)) :
    plan.terms.ExhaustedBy (s'.manager.usage k) ∧ s'.admittedOf k = s.admittedOf k := by
  cases he with
  | admission v hleft => exact absurd hex hleft
  | record v hv hadmitted hcalls hbytes => exact ⟨hex.mono (by omega) hbytes, hadmitted⟩
  | other hadmitted hcalls hbytes => exact ⟨hex.mono (by omega) hbytes, hadmitted⟩

end Steps

variable {cfg h env}

theorem inv_init {manager : StateManager} {plan : BillingPlan} {k : String}
    (hplan : manager.planOf k = some plan) : Inv plan k { manager } where
  planOf_eq := hplan
  unread := by simp
  admitted := fun _ hrecord => by cases hrecord

/-- **A plan bounds usage.**  As long as the plan is not changed and the user not removed:
with at most `w` runs of the user between admission and completion the calls of the user
exceed the free ones by `w - 1` at most, and from a state on in which the plan is used up no
run of the user is admitted. -/
theorem always_within_plan (hmode : cfg.mode ≠ .sim) {manager : StateManager} {k : String}
    {plan : BillingPlan} {w : Nat} {ls : List Label} (hplan : manager.planOf k = some plan)
    (hleft : ¬ plan.terms.ExhaustedBy (manager.usage k)) (hkeep : ∀ l ∈ ls, l.Keeps k)
    (hw : Always (step cfg h env) (fun s => (s.inFlight k).card ≤ w) { manager } ls) :
    Always (step cfg h env)
        (fun s => (s.manager.usage k).numCalls ≤ plan.terms.numFreeCalls + w - 1) { manager } ls ∧
      ∀ ls₁ ls₂ s, ls = ls₁ ++ ls₂ → run (step cfg h env) { manager } ls₁ = some s →
        plan.terms.ExhaustedBy (s.manager.usage k) →
        Always (step cfg h env) (fun t => t.admittedOf k = s.admittedOf k) s ls₂ := by
  have hguard := guarded_of_forall (step cfg h env) (P := fun _ l => l.Keeps k)
    fun l hl _ => hkeep l hl
  constructor
  · apply always_of_guarded (step cfg h env)
      (I := fun s => Inv plan k s ∧ Bounded plan k w s)
      (P := fun s l => l.Keeps k ∧
        ∀ s', step cfg h env s l = some s' → (s'.inFlight k).card ≤ w)
    · rintro s l s' ⟨hi, hb⟩ ⟨hl, hnext⟩ hstep
      exact ⟨hi.step hl hstep, (step_effect hi hmode hl hstep).bounded hb (hnext s' hstep)⟩
    · rintro s ⟨-, hb⟩
      unfold Bounded at hb
      omega
    · refine ⟨inv_init hplan, ?_⟩
      have hnone : State.unrecorded { manager } k = ∅ := rfl
      unfold Bounded PlanTerms.ExhaustedBy at *
      rw [hnone, Finset.card_empty]
      dsimp only
      omega
    · exact (hguard _).and (step cfg h env) (hw.guarded (step cfg h env))
  · intro ls₁ ls₂ s hls hrun hex
    have hmem₁ : ∀ l ∈ ls₁, l.Keeps k := fun l hl => hkeep l (hls ▸ List.mem_append_left ls₂ hl)
    have hmem₂ : ∀ l ∈ ls₂, l.Keeps k := fun l hl => hkeep l (hls ▸ List.mem_append_right ls₁ hl)
    have hi : Inv plan k s :=
      run_guarded (step cfg h env) (I := Inv plan k) (P := fun _ l => l.Keeps k)
        (fun s l s' hi hl hstep => hi.step hl hstep) (inv_init hplan)
        (guarded_of_forall (step cfg h env) (fun l hl _ => hmem₁ l hl) _) hrun
    apply always_of_guarded (step cfg h env)
      (I := fun t => Inv plan k t ∧ plan.terms.ExhaustedBy (t.manager.usage k) ∧
        t.admittedOf k = s.admittedOf k)
      (P := fun _ l => l.Keeps k)
    · rintro t l t' ⟨hi, hex, hsame⟩ hl hstep
      obtain ⟨hex', hsame'⟩ := (step_effect hi hmode hl hstep).exhausted hex
      exact ⟨hi.step hl hstep, hex', hsame'.trans hsame⟩
    · exact fun t ht => ht.2.2
    · exact ⟨hi, hex, rfl⟩
    · exact guarded_of_forall (step cfg h env) (fun l hl _ => hmem₂ l hl) s

/-! ## a plan of one call -/

/-- A plan of one call. -/
def onePlan : BillingPlan := createPlan 1 1000 0 none

/-- The user has it. -/
def oneManager : StateManager := (({} : StateManager).registerUser "key" onePlan).2

/-- An endpoint that answers in one piece. -/
def answering : ProxyEnv := { Mediation.localhost with parse := fun _ => .complete }

/-- A request of the user. -/
def ask (w : RunId) : Label :=
  .read w [.data Mediation.blockNumber.wire] Mediation.blockNumberManagers

/-- The first run, from `get_connection` to the end. -/
def answered : List Label :=
  [.connection 0, .ok, .ok, .data (str "HTTP/1.1 200 OK\r\n\r\n"), .ok, .ok, .ok, .ok, .ok, .ok,
    .ok].map fun a => .call 0 a "2024-05-01"

/-- One step of a run of these. -/
abbrev oneStep : State → Label → Option State :=
  step Mediation.blockNumberConfig
    (.scripted [Mediation.blockNumber, Mediation.blockNumber]) answering

/-- The first run uses the plan up; the second is not admitted. -/
theorem always_within_plan_onePlan :
    ((Trans.run oneStep { manager := oneManager } (ask 0 :: answered ++ [ask 1])).map fun s =>
        ((s.manager.usage "key").numCalls, s.admittedOf "key", (s.workers 0).run.pc)) =
      some (1, {0}, .done) ∧
    Always oneStep
        (fun s => (s.manager.usage "key").numCalls ≤ onePlan.terms.numFreeCalls + (1 : Nat) - 1)
        { manager := oneManager } (ask 0 :: answered ++ [ask 1]) ∧
      ∀ s, Trans.run oneStep { manager := oneManager } (ask 0 :: answered) = some s →
        onePlan.terms.ExhaustedBy (s.manager.usage "key") →
        Always oneStep (fun t => t.admittedOf "key" = s.admittedOf "key") s [ask 1] := by
  have hquota := @always_within_plan Mediation.blockNumberConfig
    (.scripted [Mediation.blockNumber, Mediation.blockNumber]) answering (by decide)
    oneManager "key" onePlan 1 (ask 0 :: answered ++ [ask 1]) rfl (by decide) (by decide)
    (by decide +kernel)
  exact ⟨by decide +kernel, hquota.1, fun s => hquota.2 _ _ s rfl⟩

end Quota

end Web3Proxy
