import Web3Proxy.HandleClient.Quota
import Web3Proxy.HandleClient.Statistics

/-!
# Web3Proxy.HandleClient.Billing

Whether a request that has been sent to an endpoint is billed.  The pieces of the response
are recorded as they are sent on, the call itself when `receive` has returned.

* `billedOnce_iff` — a request that was sent counts as one call, with the bytes that were
  sent, exactly when nothing breaks off the exchange before the call is recorded; otherwise
  it does not count at all;
* `not_billedOnce` — a client that closes its connection with a reset after the first piece has
  the bytes of the piece recorded, but no call.
-/

namespace Web3Proxy

open Py Bytes Trans Exchanges

/-! ## the ledger -/

namespace SimpleActivityLedger

/-- A user's counters of a method have grown by so many calls and request bytes, for all time and
over the days. -/
structure Billed (l₀ l : SimpleActivityLedger) (k m : String) (calls bytes : Int) : Prop where
  numCalls : (l.allTimeSummary.statsOf k m).numCalls =
    (l₀.allTimeSummary.statsOf k m).numCalls + calls
  requestBytes : (l.allTimeSummary.statsOf k m).requestBytes =
    (l₀.allTimeSummary.statsOf k m).requestBytes + bytes
  dayCalls : (l.sumOverDays k m).numCalls = (l₀.sumOverDays k m).numCalls + calls
  dayBytes : (l.sumOverDays k m).requestBytes = (l₀.sumOverDays k m).requestBytes + bytes

variable {l₀ l : SimpleActivityLedger} {k m : String} {calls bytes : Int}

theorem billed_refl (l : SimpleActivityLedger) (k m : String) : l.Billed l k m 0 0 where
  numCalls := (Int.add_zero _).symm
  requestBytes := (Int.add_zero _).symm
  dayCalls := (Int.add_zero _).symm
  dayBytes := (Int.add_zero _).symm

theorem statsOf_record (l : SimpleActivityLedger) (day : DateKey) (request : RecordedRequest)
    (response : Nat) (responseOnly : Bool) (k m : String) :
    (l.record day request response responseOnly).allTimeSummary.statsOf k m =
        l.allTimeSummary.statsOf k m +
          ServiceActivitySummary.growth request response responseOnly k m ∧
      (l.record day request response responseOnly).sumOverDays k m =
        l.sumOverDays k m + ServiceActivitySummary.growth request response responseOnly k m := by
  rw [record_eq]
  exact ⟨ServiceActivitySummary.statsOf_update _ request response responseOnly k m,
    sumOverDays_onBoth day fun a => a.statsOf_update request response responseOnly k m⟩

/-- A piece of a response is no call. -/
theorem Billed.recordRpcResponse (h : l₀.Billed l k m calls bytes) (day : DateKey)
    (request : RecordedRequest) (response : Nat) :
    l₀.Billed (l.recordRpcResponse day request response) k m calls bytes := by
  obtain ⟨hall, hdays⟩ := l.statsOf_record day request response true k m
  have hgrowth : (ServiceActivitySummary.growth request response true k m).numCalls = 0 ∧
      (ServiceActivitySummary.growth request response true k m).requestBytes = 0 := by
    unfold ServiceActivitySummary.growth
    split <;> exact ⟨rfl, rfl⟩
  unfold SimpleActivityLedger.recordRpcResponse
  refine ⟨?_, ?_, ?_, ?_⟩
  · rw [hall, CallStats.numCalls_add, hgrowth.1, Int.add_zero, h.numCalls]
  · rw [hall, CallStats.requestBytes_add, hgrowth.2, Int.add_zero, h.requestBytes]
  · rw [hdays, CallStats.numCalls_add, hgrowth.1, Int.add_zero, h.dayCalls]
  · rw [hdays, CallStats.requestBytes_add, hgrowth.2, Int.add_zero, h.dayBytes]

/-- A request of the user is one, with its bytes. -/
theorem Billed.recordRpcRequest (h : l₀.Billed l k m 0 0) (day : DateKey)
    {request : RecordedRequest} (hkey : request.userApiKey = some k) (hne : k ≠ "")
    (hmethod : request.method = m) :
    l₀.Billed (l.recordRpcRequest day request) k m 1 request.lastQueriedBytes := by
  obtain ⟨hall, hdays⟩ := l.statsOf_record day request 0 false k m
  have hgrowth : ServiceActivitySummary.growth request 0 false k m =
      ⟨request.lastQueriedBytes, 0, 1⟩ := if_pos ⟨hkey, hne, hmethod⟩
  have hcalls := h.numCalls
  have hbytes := h.requestBytes
  have hdayCalls := h.dayCalls
  have hdayBytes := h.dayBytes
  rw [Int.add_zero] at hcalls hbytes hdayCalls hdayBytes
  unfold SimpleActivityLedger.recordRpcRequest
  refine ⟨?_, ?_, ?_, ?_⟩
  · rw [hall, CallStats.numCalls_add, hgrowth, hcalls]
  · rw [hall, CallStats.requestBytes_add, hgrowth, hbytes]
  · rw [hdays, CallStats.numCalls_add, hgrowth, hdayCalls]
  · rw [hdays, CallStats.requestBytes_add, hgrowth, hdayBytes]

end SimpleActivityLedger

/-! ## what breaks off an exchange -/

/-- The call leaves the run on its way to recording its request: the response is not broken off,
the client's connection raises nothing but what `send_all` keeps to itself, and recording
does not raise. -/
def Run.bills (env : ProxyEnv) (r : Run) (a : Answer) : Bool :=
  match r.pc, a with
  | .respond _ _, .cut _ e => e = .brokenPipe
  | .recordRequest, .raise _ => false
  | _, _ => r.receives env a

namespace Billing

/-- The response is awaited, or all of it has come. -/
def isAwaiting (pc : Pc) : Prop := phase pc = .receiving ∨ pc = .recordRequest

variable {env : ProxyEnv} {r r' : Run} {a : Answer}

theorem willRecord_of_isAwaiting {pc : Pc} (h : isAwaiting pc) : pc.willRecord := by
  obtain h | rfl := h
  · cases pc <;> simp_all [phase, Pc.willRecord]
  · rfl

/-- No call keeps a run from recording what it records no more. -/
theorem bills_of_not_willRecord (h : r.pc.willRecord = false) : r.bills env a = true := by
  have hreceives : r.receives env a = true := by
    unfold Run.receives
    split <;> simp_all [Pc.willRecord]
  unfold Run.bills
  split <;> simp_all [Pc.willRecord]

theorem isAwaiting_afterPiece (r : Run) (complete : Bool) : isAwaiting (r.afterPiece complete).pc := by
  cases complete with
  | true => exact Or.inr rfl
  | false => exact Or.inl rfl

theorem not_willRecord_receiveRaised (env : ProxyEnv) (e : SocketError) (r : Run) :
    (Run.receiveRaised env e r).pc.willRecord = false := by
  unfold Run.receiveRaised
  split <;> rfl

/-- The call of a run that is awaiting its response goes on with it, or does not. -/
theorem next_of_receiving (h : Run.Move env r a r') (hpc : phase r.pc = .receiving) :
    r.bills env a = true ∧ isAwaiting r'.pc ∨
      r.bills env a = false ∧ r'.pc.willRecord = false := by
  cases h with
  | recvNothing hr ha =>
      obtain rfl | rfl := ha
      · exact Or.inr ⟨by simp [Run.bills, Run.receives, hr], rfl⟩
      · exact Or.inr ⟨by simp [Run.bills, Run.receives, hr], rfl⟩
  | recvRaise e hr =>
      exact Or.inr ⟨by simp [Run.bills, Run.receives, hr], not_willRecord_receiveRaised env e r⟩
  | recvError hr hne hparse =>
      exact Or.inr ⟨by simp [Run.bills, Run.receives, hr, hparse], rfl⟩
  | @recvPiece bytes complete hr hne hparse =>
      refine Or.inl ⟨?_, Or.inl rfl⟩
      cases complete <;> simp [Run.bills, Run.receives, hr, hne, hparse]
  | respondClosed hr hclosed =>
      exact Or.inl ⟨by simp [Run.bills, Run.receives, hr], isAwaiting_afterPiece r _⟩
  | respond hr hopen => exact Or.inl ⟨by simp [Run.bills, Run.receives, hr], Or.inl rfl⟩
  | respondCut n hr hopen => exact Or.inl ⟨by simp [Run.bills, hr], Or.inl rfl⟩
  | respondFailed n he hr hopen =>
      exact Or.inr ⟨by simp [Run.bills, hr, he], not_willRecord_receiveRaised env _ _⟩
  | recordResponse hr =>
      exact Or.inl ⟨by simp [Run.bills, Run.receives, hr], isAwaiting_afterPiece r _⟩
  | recordRaise e hr =>
      exact Or.inr ⟨by simp [Run.bills, Run.receives, hr], not_willRecord_receiveRaised env e r⟩
  | raise e hguarded => grind [phase_of_isGuarded hguarded]
  | send hsend | sendCut n hsend | sendRaise e hsend | sendNothing hsend =>
      grind [phase_of_isSend hsend]
  | _ => grind

/-- The call of a run whose response has come is the recording of the request. -/
theorem next_of_recordRequest (h : Run.Move env r a r') (hpc : r.pc = .recordRequest) :
    r'.pc.willRecord = false ∧
      (r.bills env a = true ∧ a = .ok ∨ r.bills env a = false ∧ ∃ e, a = .raise e) := by
  cases h with
  | recordRequest hr => exact ⟨rfl, Or.inl ⟨by simp [Run.bills, Run.receives, hr], rfl⟩⟩
  | raise e hguarded => exact ⟨rfl, Or.inr ⟨by simp [Run.bills, hpc], e, rfl⟩⟩
  | send hsend | sendCut n hsend | sendRaise e hsend | sendNothing hsend => grind
  | _ => grind

/-- What is not to be recorded any more stays so. -/
theorem next_of_not_willRecord (h : Run.Move env r a r') (hread : r.pc ≠ .readRequest)
    (hpc : r.pc.willRecord = false) : r'.pc.willRecord = false := by
  rw [Bool.eq_false_iff]
  intro hnext
  have hrecord := (Quota.willRecord_of_move h hread hnext).1
  rw [hpc] at hrecord
  cases hrecord

/-! ## the system -/

/-- A run, with the ledger. -/
structure State where
  worker : Quota.Worker := {}
  ledger : SimpleActivityLedger := {}

/-- One call of the run, with its answer, on a day. -/
def step (env : ProxyEnv) (s : State) (l : Answer × DateKey) : Option State :=
  (s.worker.run.step env l.1).map fun run =>
    { worker := { run, res := s.worker.nextRes }, ledger := s.worker.record l.2 s.ledger l.1 }

/-- `send` has just returned. -/
def SendReturned (r : Run) : Prop := r.pc = .recv ∧ r.received = []

instance (r : Run) : Decidable (SendReturned r) := inferInstanceAs (Decidable (_ ∧ _))

/-- The step leaves the run on its way to recording its request. -/
def Bills (env : ProxyEnv) (s : State) (l : Answer × DateKey) : Prop :=
  s.worker.run.bills env l.1 = true

instance (env : ProxyEnv) (s : State) (l : Answer × DateKey) : Decidable (Bills env s l) :=
  inferInstanceAs (Decidable (_ = true))

theorem step_cases {s s' : State} {l : Answer × DateKey} (h : step env s l = some s') :
    Run.Move env s.worker.run l.1 s'.worker.run ∧
      s'.ledger = s.worker.record l.2 s.ledger l.1 := by
  obtain ⟨run, hrun, rfl⟩ := Option.map_eq_some_iff.mp h
  exact ⟨Run.step_move hrun, rfl⟩

/-! ## before the request is sent -/

/-- The request has not been sent, or has just been. -/
def isBefore (r : Run) : Prop := r.pc = .readRequest ∨ r.pc.isSending ∨ SendReturned r

/-- Nothing is recorded before the request has been sent. -/
structure Before (l₀ : SimpleActivityLedger) (s : State) : Prop where
  ledger : isBefore s.worker.run → s.ledger = l₀
  received : phase s.worker.run.pc = .receiving → s.worker.run.pc ≠ .recv →
    s.worker.run.received ≠ []

/-- Where a run comes from that has just sent its request. -/
theorem isSend_of_sendReturned (h : Run.Move env r a r') (hsent : SendReturned r')
    (hreceived : phase r.pc = .receiving → r.pc ≠ .recv → r.received ≠ []) : r.pc.isSend := by
  obtain ⟨hpc, hnil⟩ := hsent
  cases h with
  | read outcome hr => cases outcome <;> grind
  | @drop next hr => cases next <;> grind
  | @modify next hr => cases next <;> grind
  | _ => grind

/-- The pieces of a response have come before they are sent on. -/
theorem received_of_move (h : Run.Move env r a r')
    (hreceived : phase r.pc = .receiving → r.pc ≠ .recv → r.received ≠ [])
    (hpc : phase r'.pc = .receiving) (hrecv : r'.pc ≠ .recv) : r'.received ≠ [] := by
  cases h with
  | read outcome hr => cases outcome <;> grind
  | @drop next hr => cases next <;> grind
  | @modify next hr => cases next <;> grind
  | recvPiece hr hne hparse => exact List.append_ne_nil_of_right_ne_nil _ hne
  | _ => grind

theorem record_eq_of_isBefore {worker : Quota.Worker} {l : SimpleActivityLedger} {day : DateKey}
    (h : worker.run.pc = .readRequest ∨ worker.run.pc.isSending) :
    worker.record day l a = l := by
  unfold Quota.Worker.record
  split <;> simp_all [Pc.isSending]

theorem Before.step {l₀ : SimpleActivityLedger} {s s' : State} {l : Answer × DateKey}
    (h : Before l₀ s) (hstep : step env s l = some s') : Before l₀ s' := by
  obtain ⟨hmove, hledger⟩ := step_cases hstep
  refine ⟨fun hbefore => ?_, received_of_move hmove h.received⟩
  have hpc : s.worker.run.pc = .readRequest ∨ s.worker.run.pc.isSending := by
    obtain hread | hsending | hsent := hbefore
    · exact absurd hread hmove.pc_ne
    · exact (hmove.isSending hsending).symm
    · exact Or.inr (Pc.isSending_of_isSend (isSend_of_sendReturned hmove hsent h.received))
  rw [hledger, record_eq_of_isBefore hpc]
  exact h.ledger (hpc.imp_right Or.inl)

theorem before_init (l₀ : SimpleActivityLedger) : Before l₀ { ledger := l₀ } :=
  ⟨fun _ => rfl, fun h => by cases h⟩

/-! ## after the request has been sent -/

variable (l₀ : SimpleActivityLedger) (req : RPCRequest) (k : String)

/-- The ledger does not have the call. -/
def Unbilled (s : State) : Prop := l₀.Billed s.ledger k req.method 0 0

/-- The ledger has the call, with its bytes. -/
def BilledOnce (s : State) : Prop :=
  l₀.Billed s.ledger k req.method 1 (req.lastQueriedBytes.getD []).length

/-- Before the call is recorded, and after. -/
inductive OnTheWay (s : State) : Prop where
  | awaiting (hpc : isAwaiting s.worker.run.pc) (hreq : s.worker.run.req = req)
      (hbilled : Unbilled l₀ req k s)
  | recorded (hread : s.worker.run.pc ≠ .readRequest) (hpc : s.worker.run.pc.willRecord = false)
      (hbilled : BilledOnce l₀ req k s)

/-- The call will not be recorded any more. -/
structure Lost (s : State) : Prop where
  read : s.worker.run.pc ≠ .readRequest
  settled : s.worker.run.pc.willRecord = false
  unbilled : Unbilled l₀ req k s

variable {l₀ req k} {s s' : State} {l : Answer × DateKey}

theorem record_eq_of_not_willRecord {worker : Quota.Worker} {ledger : SimpleActivityLedger}
    {day : DateKey} (h : worker.run.pc.willRecord = false) :
    worker.record day ledger a = ledger := by
  unfold Quota.Worker.record
  split <;> simp_all [Pc.willRecord]

/-- While the response is awaited only pieces of it are recorded. -/
theorem Unbilled.record_receiving (h : Unbilled l₀ req k s)
    (hpc : s.worker.run.pc ≠ .recordRequest)
    (hledger : s'.ledger = s.worker.record l.2 s.ledger l.1) : Unbilled l₀ req k s' := by
  unfold Unbilled
  rw [hledger]
  unfold Quota.Worker.record
  split
  · exact SimpleActivityLedger.Billed.recordRpcResponse h l.2 _ _
  · next hr _ => exact absurd hr hpc
  · exact h

/-- The request stays while the response is awaited. -/
theorem req_of_isAwaiting (h : Run.Move env r a r') (hpc : isAwaiting r.pc) : r'.req = r.req := by
  have hread : r.pc ≠ .readRequest := by
    intro hr
    rw [hr] at hpc
    obtain hphase | hrecord := hpc
    · cases hphase
    · cases hrecord
  obtain ⟨hreq, -⟩ | ⟨hsend, -⟩ := h.frame hread
  · exact hreq
  · obtain hphase | hrecord := hpc
    · rw [phase_of_isSend hsend] at hphase
      cases hphase
    · rw [hrecord] at hsend
      cases hsend

theorem OnTheWay.step (h : OnTheWay l₀ req k s) (hkey : req.userApiKey = some k) (hne : k ≠ "")
    (hbills : Bills env s l) (hstep : step env s l = some s') : OnTheWay l₀ req k s' := by
  obtain ⟨hmove, hledger⟩ := step_cases hstep
  cases h with
  | awaiting hpc hreq hbilled =>
      have hreq' := (req_of_isAwaiting hmove hpc).trans hreq
      obtain hphase | hrecord := hpc
      · obtain ⟨-, hnext⟩ | ⟨hno, -⟩ := next_of_receiving hmove hphase
        · refine .awaiting hnext hreq' (hbilled.record_receiving ?_ hledger)
          intro hr
          rw [hr] at hphase
          cases hphase
        · rw [Bills, hno] at hbills
          cases hbills
      · obtain ⟨hnext, ⟨-, hok⟩ | ⟨hno, -⟩⟩ := next_of_recordRequest hmove hrecord
        · refine .recorded hmove.pc_ne hnext ?_
          have hrecorded : s.worker.record l.2 s.ledger l.1 =
              s.ledger.recordRpcRequest l.2 req.recorded := by
            simp only [Quota.Worker.record, hrecord, hok, hreq]
          unfold BilledOnce
          rw [hledger, hrecorded]
          exact SimpleActivityLedger.Billed.recordRpcRequest (k := k) hbilled l.2
            (show req.recorded.userApiKey = some k from hkey) hne rfl
        · rw [Bills, hno] at hbills
          cases hbills
  | recorded hread hpc hbilled =>
      refine .recorded hmove.pc_ne (next_of_not_willRecord hmove hread hpc) ?_
      unfold BilledOnce
      rw [hledger, record_eq_of_not_willRecord hpc]
      exact hbilled

theorem OnTheWay.lost (h : OnTheWay l₀ req k s) (hbills : ¬ Bills env s l)
    (hstep : Billing.step env s l = some s') : Lost l₀ req k s' := by
  obtain ⟨hmove, hledger⟩ := step_cases hstep
  cases h with
  | awaiting hpc hreq hbilled =>
      obtain hphase | hrecord := hpc
      · obtain ⟨hyes, -⟩ | ⟨-, hnext⟩ := next_of_receiving hmove hphase
        · exact absurd hyes hbills
        · refine ⟨hmove.pc_ne, hnext, hbilled.record_receiving ?_ hledger⟩
          intro hr
          rw [hr] at hphase
          cases hphase
      · obtain ⟨hnext, ⟨hyes, -⟩ | ⟨-, e, ha⟩⟩ := next_of_recordRequest hmove hrecord
        · exact absurd hyes hbills
        · refine ⟨hmove.pc_ne, hnext, ?_⟩
          have hrecorded : s.worker.record l.2 s.ledger l.1 = s.ledger := by
            simp only [Quota.Worker.record, hrecord, ha]
          unfold Unbilled
          rw [hledger, hrecorded]
          exact hbilled
  | recorded hread hpc hbilled => exact absurd (bills_of_not_willRecord hpc) hbills

theorem Lost.step (h : Lost l₀ req k s) (hstep : step env s l = some s') : Lost l₀ req k s' := by
  obtain ⟨hmove, hledger⟩ := step_cases hstep
  refine ⟨hmove.pc_ne, next_of_not_willRecord hmove h.read h.settled, ?_⟩
  unfold Unbilled
  rw [hledger, record_eq_of_not_willRecord h.settled]
  exact h.unbilled

/-! ## results -/

/-- **Billing.**  In a run of `handle_client`, from the reading of a request with an API key
to the end, in which `send` has returned: the user's counters of the method have grown by
one call and the bytes of the request, exactly when no call after `send` keeps the run from
recording its request. -/
theorem billedOnce_iff {ls₁ ls₂ : List (Answer × DateKey)} {s t : State}
    (hrun : run (step env) { ledger := l₀ } ls₁ = some s) (hsent : SendReturned s.worker.run)
    (hkey : s.worker.run.req.userApiKey = some k) (hne : k ≠ "")
    (hrest : run (step env) s ls₂ = some t) (hdone : t.worker.run.pc = .done) :
    l₀.Billed t.ledger k s.worker.run.req.method 1
        (s.worker.run.req.lastQueriedBytes.getD []).length ↔
      Guarded (step env) (Bills env) s ls₂ := by
  have hbefore : Before l₀ s :=
    run_invariant (step env) (fun _ _ _ h hstep => h.step hstep) (before_init l₀) hrun
  have hstart : OnTheWay l₀ s.worker.run.req k s := by
    refine .awaiting (Or.inl ?_) rfl ?_
    · rw [hsent.1]
      rfl
    · unfold Unbilled
      rw [hbefore.ledger (Or.inr (Or.inr hsent))]
      exact l₀.billed_refl k _
  refine last_iff_guarded (step env) (I := OnTheWay l₀ s.worker.run.req k)
    (D := Lost l₀ s.worker.run.req k) (F := fun t => t.worker.run.pc = .done)
    (Q := fun t => l₀.Billed t.ledger k s.worker.run.req.method 1
      (s.worker.run.req.lastQueriedBytes.getD []).length)
    ?_ ?_ ?_ ?_ ?_ hstart hrest hdone
  · exact fun _ _ _ h hbills hstep => h.step hkey hne hbills hstep
  · exact fun _ _ _ h hbills hstep => h.lost hbills hstep
  · exact fun _ _ _ h hstep => h.step hstep
  · intro u hu hend
    cases hu with
    | awaiting hpc hreq hbilled =>
        have hrecord := willRecord_of_isAwaiting hpc
        rw [hend] at hrecord
        cases hrecord
    | recorded hread hpc hbilled => exact hbilled
  · intro u hu hend hbilled
    have hzero := hu.unbilled.numCalls
    have hone := hbilled.numCalls
    omega

/-! ## a request for the block number -/

/-- The request is read and sent over an idle connection. -/
def sending : List (Answer × DateKey) :=
  [.read (readDefault Mediation.blockNumberConfig (.scripted [Mediation.blockNumber])
      Mediation.blockNumberManagers.client Mediation.blockNumberManagers.call
      [.data Mediation.blockNumber.wire]).1,
    .connection 0, .ok, .ok].map fun a => (a, "2024-05-01")

/-- It is answered in one piece. -/
def answering : List (Answer × DateKey) :=
  [.data (str "HTTP/1.1 200 OK\r\n\r\n"), .ok, .ok, .ok, .ok, .ok, .ok, .ok].map fun a =>
    (a, "2024-05-01")

/-- The client takes the first piece and resets its connection. -/
def resetting : List (Answer × DateKey) :=
  [.data (str "HTTP/1.1 200 OK\r\n"), .ok, .ok, .data (str "\r\n"), .cut 0 .connection,
    .cut 0 .connection, .ok, .ok, .ok].map fun a => (a, "2024-05-01")

/-- The state in which it has been sent. -/
def sent (env : ProxyEnv) : State := (run (step env) {} sending).getD {}

/-- The state at the end. -/
def ended (env : ProxyEnv) (ls : List (Answer × DateKey)) : State :=
  (run (step env) (sent env) ls).getD {}

theorem eq_some_getD {α : Type} {o : Option α} (h : o.isSome) (d : α) : o = some (o.getD d) := by
  obtain ⟨x, rfl⟩ := Option.isSome_iff_exists.mp h
  rfl

/-- The exchange that ends as it should is billed. -/
theorem billedOnce_iff_answering :
    ((({} : SimpleActivityLedger).Billed (ended Quota.answering answering).ledger "key"
        (sent Quota.answering).worker.run.req.method 1
        ((sent Quota.answering).worker.run.req.lastQueriedBytes.getD []).length ↔
      Guarded (step Quota.answering) (Bills Quota.answering) (sent Quota.answering) answering)) ∧
      Guarded (step Quota.answering) (Bills Quota.answering) (sent Quota.answering) answering := by
  refine ⟨?_, by decide +kernel⟩
  exact @billedOnce_iff _ {} "key" sending _ _ _ (eq_some_getD (by decide +kernel) _) (by decide +kernel)
    (by decide +kernel) (by decide) (eq_some_getD (by decide +kernel) _) (by decide +kernel)

/-- The client resets its connection after the first piece: the request was sent, the bytes of the
piece are recorded, the call is not. -/
theorem not_billedOnce :
    run (step Mediation.localhost) {} sending = some (sent Mediation.localhost) ∧
      SendReturned (sent Mediation.localhost).worker.run ∧
      run (step Mediation.localhost) (sent Mediation.localhost) resetting =
        some (ended Mediation.localhost resetting) ∧
      (ended Mediation.localhost resetting).worker.run.pc = .done ∧
      (sent Mediation.localhost).worker.run.req.method = "eth_blockNumber" ∧
      (ended Mediation.localhost resetting).ledger.allTimeSummary.statsOf "key"
        "eth_blockNumber" = ⟨0, 17, 0⟩ ∧
      ¬ ({} : SimpleActivityLedger).Billed (ended Mediation.localhost resetting).ledger "key"
        "eth_blockNumber" 1
        ((sent Mediation.localhost).worker.run.req.lastQueriedBytes.getD []).length := by
  have hstats : (ended Mediation.localhost resetting).ledger.allTimeSummary.statsOf "key"
      "eth_blockNumber" = ⟨0, 17, 0⟩ := by
    decide +kernel
  refine ⟨eq_some_getD (by decide +kernel) _, by decide +kernel,
    eq_some_getD (by decide +kernel) _, by decide +kernel, by decide +kernel, hstats, fun h => ?_⟩
  have hcalls := h.numCalls
  rw [hstats] at hcalls
  cases hcalls

end Billing

end Web3Proxy
