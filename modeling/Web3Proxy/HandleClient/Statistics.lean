import Web3Proxy.HandleClient.Line
import Web3Proxy.Lib.Trans

/-!
# Web3Proxy.HandleClient.Statistics

What the statistics of a pool say of the exchanges that went through it.  They are kept
in passing: `get` counts a connection that could not be made, `handle_broken_connection`
a connection that failed, and `put` a connection that comes back as a success.

* `truthful_iff_received` — after any sequence of exchanges through an active pool the
  successes are the responses that were received, the errors the exchanges that failed, and the
  failure rate is their share, exactly when no exchange failed while its response was received;
* `not_always_truthful` — such a one counts as a success: the connection comes back, if not
  before then from the destructor of the handler.
-/

namespace Web3Proxy

open Py Bytes Trans

/-- What became of an exchange. -/
inductive Outcome where
  | received
  | creationFailed
  | sendFailed
  | receiveFailed
deriving DecidableEq, Repr

/-- An exchange that failed. -/
def Outcome.isFailure : Outcome → Bool
  | .received => false
  | _ => true

namespace Run

variable (r : Run)

/-- The outcome of the exchange, if the call with the answer `a` that has led to `r'` has
settled it. -/
def outcome (a : Answer) (r' : Run) : Option Outcome :=
  match r.pc with
  | .connect => match a with
      | .raise _ => some .creationFailed
      | _ => none
  | .sendRequest | .reconnect | .sendAgain =>
      if r'.pc = .busyRemove then some .sendFailed else none
  | .recv | .respond _ _ | .recordResponse _ => match r'.pc with
      | .recv | .respond _ _ | .recordResponse _ => none
      | .recordRequest => some .received
      | _ => some .receiveFailed
  | _ => none

/-- The call does not break off the response: a piece arrives that the parser takes, and
the response handler does not raise. -/
def receives (env : ProxyEnv) (a : Answer) : Bool :=
  match r.pc, a with
  | .recv, .data bytes => bytes ≠ [] && env.parse (r.received ++ bytes) ≠ .error
  | .recv, _ => false
  | .recordResponse _, .raise _ => false
  | _, _ => true

end Run

/-- Exchanges through one pool, one after the other: the run of the present one, and the
outcomes so far. -/
structure Exchanges where
  run : Run := {}
  pool : EndpointConnectionPool
  outcomes : List Outcome := []

namespace Exchanges

/-- A call of the run at a time, with its answer; the next exchange; or a pass of the
cleanup thread. -/
inductive Label where
  | call (now : Int) (a : Answer)
  | next
  | cleanupPass (now : Int)
deriving DecidableEq, Repr

variable (s : Exchanges)

/-- The first section of `get`. -/
def getIdle (a : Answer) : Option EndpointConnectionPool :=
  match a, s.pool.getIdle false with
  | .raise _, .raise _ pool => some pool
  | .noIdle, .ok none pool => some pool
  | .connection c, .ok (some c') pool => if c = c' then some pool else none
  | _, _ => none

/-- `EndpointConnection(self.endpoint)`. -/
def connect (now : Int) : Answer → Option EndpointConnectionPool
  | .connection c => some (s.pool.established c now)
  | .raise _ => some (s.pool.notEstablished now)
  | _ => none

/-- `busy_connections.remove`, in `handle_broken_connection`. -/
def busyRemove (a : Answer) : Option EndpointConnectionPool :=
  s.run.connection.bind fun c =>
    match a, s.pool.busyRemove c with
    | .ok, .ok _ pool => some pool
    | .raise _, .raise _ pool => some pool
    | _, _ => none

/-- The rest of `handle_broken_connection`. -/
def scheduleBroken (now : Int) : Option EndpointConnectionPool :=
  s.run.handler.bind fun handler => handler.connection.map fun c =>
    s.pool.scheduleBroken c handler.isNewConnection now

/-- `put(self.connection)`, in `release()`. -/
def put (now : Int) (a : Answer) : Option EndpointConnectionPool :=
  match s.run.connection with
  | none => some s.pool
  | some c =>
      match a, s.pool.put c now with
      | .ok, .ok _ pool => some pool
      | .raise _, .raise _ pool => some pool
      | _, _ => none

/-- The pool after the call that the run stands at, if the call can end so.  The client
accepts what it is sent. -/
def effect (now : Int) (a : Answer) : Option EndpointConnectionPool :=
  match s.run.pc with
  | .reply _ _ _ | .respond _ _ => if a = .ok then some s.pool else none
  | .getIdle => s.getIdle a
  | .connect => s.connect now a
  | .busyAdd c _ => some (s.pool.busyAdd c)
  | .busyRemove => s.busyRemove a
  | .scheduleBroken => s.scheduleBroken now
  | .release _ | .del => s.put now a
  | _ => some s.pool

variable (cfg : PoolConfig) (env : ProxyEnv)

/-- One step. -/
def step (s : Exchanges) : Label → Option Exchanges
  | .call now a =>
      (s.effect now a).bind fun pool => (s.run.step env a).map fun run =>
        { run, pool, outcomes := s.outcomes ++ (s.run.outcome a run).toList }
  | .next => if s.run.pc = .done then some { s with run := {} } else none
  | .cleanupPass now => some { s with pool := (s.pool.cleanupPass cfg now).state }

/-! ## what is to hold -/

/-- The number of exchanges that failed. -/
def failures : Nat := s.outcomes.countP Outcome.isFailure

/-- The interval goes back, from both readings of the clock, to before the first entry. -/
def Covers (st : PoolStats) (now now' interval : Int) : Prop :=
  (∀ timestamp ∈ st.allErrors, now - interval ≤ timestamp) ∧
    ∀ timestamp ∈ st.successfulConnectionTimestamps, now' - interval ≤ timestamp

/-- The statistics tell the truth. -/
structure Truthful : Prop where
  successes : s.pool.stats.successfulConnectionTimestamps.length = s.outcomes.count .received
  errors : s.pool.stats.allErrors.length = s.failures
  rate : ∀ {now now' interval : Int}, Covers s.pool.stats now now' interval →
    s.pool.stats.getFailureRate now now' interval = mkRat s.failures s.outcomes.length

/-- No exchange fails while its response is received. -/
def Received (env : ProxyEnv) (s : Exchanges) : Label → Prop
  | .call _ a => s.run.receives env a = true
  | _ => True

instance (l : Label) : Decidable (s.Received env l) := by
  unfold Received
  split <;> infer_instance

/-! ## where a call leads -/

section Calls

/-- The phases of an exchange: until there is a handler, while the request is sent, while
the response is received, while a connection is given up, and when all is settled. -/
inductive Phase where
  | early
  | sending
  | receiving
  | givingUp
  | settled
deriving DecidableEq, Repr

@[grind =] def phase : Pc → Phase
  | .readRequest | .getIdle | .connect | .busyAdd _ _ => .early
  | .sendRequest | .reconnect | .sendAgain => .sending
  | .recv | .respond _ _ | .recordResponse _ => .receiving
  | .busyRemove | .scheduleBroken => .givingUp
  | .reply _ _ _ | .manage _ _ | .modify _ | .recordRequest | .closeConnection | .closeClient
  | .release _ | .del | .done => .settled

theorem phase_of_isSend {pc : Pc} (h : pc.isSend) : phase pc = .sending := by
  cases pc <;> simp_all [Pc.isSend, phase]

theorem phase_of_isGuarded {pc : Pc} (h : pc.isGuarded) :
    phase pc = .settled ∨ pc = .busyRemove := by
  cases pc <;> simp_all [Pc.isGuarded, phase]

theorem phase_pc (next : After) : phase next.pc = .settled ∧ next.pc ≠ .done := by
  cases next <;> simp [After.pc, phase]

variable {env : ProxyEnv} {r r' : Run} {a : Answer}

theorem next_of_sending (h : Run.Move env r a r') (hpc : phase r.pc = .sending) :
    phase r'.pc = .sending ∨ r'.pc = .recv ∨ r'.pc = .busyRemove := by
  cases h with
  | raise e hguarded => grind [phase_of_isGuarded hguarded]
  | _ => grind

theorem next_of_receiving (h : Run.Move env r a r') (hpc : phase r.pc = .receiving) :
    phase r'.pc = .receiving ∨ r'.pc = .recordRequest ∨ r'.pc = .closeClient ∨
      ∃ raw keepAlive next, r'.pc = .reply raw keepAlive next := by
  cases h with
  | raise e hguarded => grind [phase_of_isGuarded hguarded]
  | send hsend | sendCut n hsend | sendRaise e hsend | sendNothing hsend =>
      grind [phase_of_isSend hsend]
  | _ => grind

theorem next_of_settled (h : Run.Move env r a r') (hpc : phase r.pc = .settled) :
    phase r'.pc = .settled ∧ (r.pc ≠ .del → r'.pc ≠ .done) := by
  cases h with
  | @drop next hpc => grind [phase_pc next]
  | @modify next hpc => grind [phase_pc next]
  | send hsend | sendCut n hsend | sendRaise e hsend | sendNothing hsend =>
      grind [phase_of_isSend hsend]
  | _ => grind

/-- The handler is made by `get` and loses its connection to the pool. -/
theorem handler_of_move (h : Run.Move env r a r') (hbusy : ∀ c isNew, r.pc ≠ .busyAdd c isNew)
    (hgive : r.pc ≠ .scheduleBroken) (hrelease : ∀ inExcept, r.pc ≠ .release inExcept)
    (hdel : r.pc ≠ .del) : r'.handler = r.handler := by
  cases h with
  | read outcome hread => cases outcome <;> grind
  | _ => grind

/-! ## the account of a run -/

/-- The handler has a connection while the exchange is going on, and none at the end. -/
structure Fits (r : Run) : Prop where
  early : phase r.pc = .early → r.connection = none
  working : phase r.pc ≠ .early → phase r.pc ≠ .settled → r.connection.isSome
  done : r.pc = .done → r.connection = none

theorem fits_fresh : Fits {} where
  early := fun _ => rfl
  working := fun h => absurd rfl h
  done := fun h => by cases h

/-- The connection will come back, and be counted as a success. -/
def owed (r : Run) : Nat := if phase r.pc = .settled ∧ r.connection.isSome then 1 else 0

/-- The connection has failed, and the error is yet to be counted. -/
def broken (r : Run) : Nat := if phase r.pc = .givingUp then 1 else 0

/-- The exchange ends in a connection that comes back. -/
def toSuccess : Option Outcome → Nat
  | some .received | some .receiveFailed => 1
  | _ => 0

/-- The exchange ends in an error that is counted. -/
def toError : Option Outcome → Nat
  | some .creationFailed | some .sendFailed => 1
  | _ => 0

/-- The account of a run after a call that counts so many successes and errors. -/
structure Accounts (r : Run) (a : Answer) (r' : Run) (successes errors : Nat) : Prop where
  fits : Fits r'
  success : owed r' + successes = owed r + toSuccess (r.outcome a r')
  error : broken r' + errors = broken r + toError (r.outcome a r')

theorem connection_eq (h : r'.handler = r.handler) : r'.connection = r.connection := by
  unfold Run.connection
  rw [h]

theorem outcome_of_sending (hpc : phase r.pc = .sending) (a : Answer) (r' : Run) :
    r.outcome a r' = if r'.pc = .busyRemove then some .sendFailed else none := by
  cases hr : r.pc <;> simp_all [phase, Run.outcome]

theorem outcome_of_receiving (hpc : phase r.pc = .receiving) (a : Answer) (r' : Run) :
    r.outcome a r' = if phase r'.pc = .receiving then none
      else if r'.pc = .recordRequest then some .received else some .receiveFailed := by
  have hr : r.outcome a r' = Run.outcome { pc := .recv } a r' := by
    cases hr : r.pc <;> simp_all [phase, Run.outcome]
  rw [hr]
  unfold Run.outcome
  cases r'.pc <;> simp [phase]

theorem outcome_of_settled (hpc : phase r.pc = .settled) (a : Answer) (r' : Run) :
    r.outcome a r' = none := by
  cases hr : r.pc <;> simp_all [phase, Run.outcome]

/-- An exchange that is going on keeps its connection, and nothing has been owed before. -/
theorem accounts_working (h : Run.Move env r a r') (hfits : Fits r)
    (hpc : phase r.pc = .sending ∨ phase r.pc = .receiving)
    (hnext : phase r'.pc ≠ .early ∧ r'.pc ≠ .done)
    (hsuccess : toSuccess (r.outcome a r') = if phase r'.pc = .settled then 1 else 0)
    (herror : toError (r.outcome a r') = broken r') : Accounts r a r' 0 0 := by
  have hconn : r'.connection = r.connection :=
    connection_eq (handler_of_move h (by grind) (by grind) (by grind) (by grind))
  have hsome : r.connection.isSome := hfits.working (by grind) (by grind)
  refine ⟨⟨?_, ?_, ?_⟩, ?_, ?_⟩
  · exact fun hearly => absurd hearly hnext.1
  · intro _ _
    rwa [hconn]
  · exact fun hdone => absurd hdone hnext.2
  · rw [hsuccess, owed, owed, hconn]
    grind
  · rw [herror]
    grind [broken]

theorem accounts_sending (h : Run.Move env r a r') (hfits : Fits r) (hpc : phase r.pc = .sending) :
    Accounts r a r' 0 0 := by
  have hnext := next_of_sending h hpc
  have houtcome := outcome_of_sending hpc a r'
  refine accounts_working h hfits (Or.inl hpc) ⟨by grind, by grind⟩ ?_ ?_
  · rw [houtcome]
    grind [toSuccess]
  · rw [houtcome]
    grind [broken, toError]

theorem accounts_receiving (h : Run.Move env r a r') (hfits : Fits r)
    (hpc : phase r.pc = .receiving) : Accounts r a r' 0 0 := by
  have hnext := next_of_receiving h hpc
  have houtcome := outcome_of_receiving hpc a r'
  refine accounts_working h hfits (Or.inr hpc) ⟨by grind, by grind⟩ ?_ ?_
  · rw [houtcome]
    grind [toSuccess]
  · rw [houtcome]
    grind [broken, toError]

/-- A settled exchange that keeps its connection. -/
theorem accounts_settled (h : Run.Move env r a r') (hpc : phase r.pc = .settled)
    (hconn : r'.connection = r.connection) (hdel : r.pc ≠ .del) : Accounts r a r' 0 0 := by
  have hnext := next_of_settled h hpc
  have houtcome := outcome_of_settled hpc a r'
  refine ⟨⟨?_, ?_, ?_⟩, ?_, ?_⟩
  · grind
  · grind
  · grind
  · simp [owed, houtcome, hnext.1, hpc, hconn, toSuccess]
  · simp [broken, houtcome, hnext.1, hpc, toError]

/-- Before there is a handler nothing is owed. -/
theorem accounts_early (hearly : phase r.pc = .early) (hconn : r'.connection = none)
    (hpc : phase r'.pc = .early ∨ phase r'.pc = .settled) {errors : Nat}
    (houtcome : toSuccess (r.outcome a r') = 0) (herror : toError (r.outcome a r') = errors) :
    Accounts r a r' 0 errors := by
  refine ⟨⟨?_, ?_, ?_⟩, ?_, ?_⟩
  · exact fun _ => hconn
  · grind
  · exact fun _ => hconn
  · simp [owed, hearly, hconn, houtcome]
  · grind [broken]

/-- The connection comes back, or there is none. -/
theorem accounts_release {successes : Nat} (hpc : phase r.pc = .settled)
    (hpc' : phase r'.pc = .settled) (hconn : r'.connection = none)
    (hsuccesses : successes = if r.connection.isSome then 1 else 0) :
    Accounts r a r' successes 0 := by
  have houtcome := outcome_of_settled hpc a r'
  refine ⟨⟨?_, ?_, ?_⟩, ?_, ?_⟩
  · exact fun _ => hconn
  · exact fun _ hne => absurd hpc' hne
  · exact fun _ => hconn
  · simp [owed, houtcome, hpc, hconn, hsuccesses, toSuccess]
  · simp [broken, houtcome, hpc, hpc', toError]

end Calls

/-! ## the account of the pool -/

variable {cfg : PoolConfig} {env : ProxyEnv} {s s' : Exchanges}

/-- What holds of every state: the statistics agree with the outcomes, where a response
that was broken off counts as a success. -/
structure Inv (s : Exchanges) : Prop where
  active : s.pool.status = .active
  busy : ∀ c, s.run.connection = some c → s.run.pc ≠ .scheduleBroken → c ∈ s.pool.busyConnections
  fits : Fits s.run
  successes : s.pool.stats.successfulConnectionTimestamps.length + owed s.run =
    s.outcomes.count .received + s.outcomes.count .receiveFailed
  errors : s.pool.stats.allErrors.length + broken s.run =
    s.outcomes.count .creationFailed + s.outcomes.count .sendFailed

theorem count_toSuccess (outcomes : List Outcome) (o : Option Outcome) :
    (outcomes ++ o.toList).count .received + (outcomes ++ o.toList).count .receiveFailed =
      outcomes.count .received + outcomes.count .receiveFailed + toSuccess o := by
  cases o with
  | none => simp [toSuccess]
  | some o => cases o <;> simp [toSuccess] <;> omega

theorem count_toError (outcomes : List Outcome) (o : Option Outcome) :
    (outcomes ++ o.toList).count .creationFailed + (outcomes ++ o.toList).count .sendFailed =
      outcomes.count .creationFailed + outcomes.count .sendFailed + toError o := by
  cases o with
  | none => simp [toError]
  | some o => cases o <;> simp [toError] <;> omega

/-- The pool registers what the account of the run says. -/
theorem Inv.of_accounts (hi : Inv s) {a : Answer} {run : Run} {pool : EndpointConnectionPool}
    {successes errors : Nat} (hacc : Accounts s.run a run successes errors)
    (hactive : pool.status = .active)
    (hbusy : ∀ c, run.connection = some c → run.pc ≠ .scheduleBroken → c ∈ pool.busyConnections)
    (hsuccesses : pool.stats.successfulConnectionTimestamps.length =
      s.pool.stats.successfulConnectionTimestamps.length + successes)
    (herrors : pool.stats.allErrors.length = s.pool.stats.allErrors.length + errors) :
    Inv { run, pool, outcomes := s.outcomes ++ (s.run.outcome a run).toList } where
  active := hactive
  busy := hbusy
  fits := hacc.fits
  successes := by
    have hold := hi.successes
    have hnew := hacc.success
    rw [count_toSuccess, hsuccesses]
    dsimp only
    omega
  errors := by
    have hold := hi.errors
    have hnew := hacc.error
    rw [count_toError, herrors]
    dsimp only
    omega

/-- The pool is not concerned, and the handler keeps its connection. -/
theorem Inv.keep (hi : Inv s) {a : Answer} {run : Run} (hacc : Accounts s.run a run 0 0)
    (hconn : run.connection = s.run.connection) (hpc : s.run.pc ≠ .scheduleBroken) :
    Inv { run, pool := s.pool, outcomes := s.outcomes ++ (s.run.outcome a run).toList } :=
  hi.of_accounts hacc hi.active (fun c hc _ => hi.busy c (hconn ▸ hc) hpc) rfl rfl

/-- The pool is not concerned. -/
theorem effect_apart {now : Int} {a : Answer} {pool : EndpointConnectionPool}
    (h : s.effect now a = some pool)
    (hpc : phase s.run.pc = .sending ∨ phase s.run.pc = .receiving ∨
      phase s.run.pc = .settled ∧ (∀ inExcept, s.run.pc ≠ .release inExcept) ∧ s.run.pc ≠ .del) :
    pool = s.pool := by
  cases hr : s.run.pc <;> simp_all [effect, phase]

/-- The pool that `get` finds, and the call that comes next. -/
theorem getIdle_active {a : Answer} {pool : EndpointConnectionPool}
    (hactive : s.pool.status = .active) (h : s.getIdle a = some pool) :
    pool.status = .active ∧ pool.stats = s.pool.stats ∧ ∀ e, a ≠ .raise e := by
  have hserves : s.pool.Serves false := Or.inl hactive
  unfold getIdle at h
  obtain ⟨hnot, -⟩ | ⟨-, -, hget⟩ | ⟨c, q, -, -, hget⟩ := s.pool.getIdle_cases false
  · exact absurd hserves hnot
  · rw [hget] at h
    cases a with
    | noIdle =>
        obtain rfl := Option.some.inj h
        exact ⟨hactive, rfl, fun _ h => by cases h⟩
    | _ => cases h
  · rw [hget] at h
    cases a with
    | connection c' =>
        obtain ⟨-, hpool⟩ := Option.ite_none_right_eq_some.mp h
        obtain rfl := Option.some.inj hpool
        exact ⟨hactive, rfl, fun _ h => by cases h⟩
    | _ => cases h

theorem notEstablished_errors (p : EndpointConnectionPool) (now : Int) :
    (p.notEstablished now).stats.allErrors.length = p.stats.allErrors.length + 1 := by
  simp only [EndpointConnectionPool.notEstablished, PoolStats.allErrors,
    PoolStats.registerErrorOnConnectionCreation, List.length_append, List.length_singleton]
  omega

theorem scheduleBroken_stats (p : EndpointConnectionPool) (c : ConnId) (isNew : Bool) (now : Int) :
    (p.scheduleBroken c isNew now).stats.successfulConnectionTimestamps =
        p.stats.successfulConnectionTimestamps ∧
      (p.scheduleBroken c isNew now).stats.allErrors.length = p.stats.allErrors.length + 1 := by
  cases isNew
  all_goals
    refine ⟨rfl, ?_⟩
    simp only [EndpointConnectionPool.scheduleBroken, EndpointConnectionPool.closeQueuePut,
      PoolStats.allErrors, PoolStats.registerErrorOnConnection,
      PoolStats.registerErrorOnNewConnection, List.length_append, List.length_singleton,
      if_true, Bool.false_eq_true, if_false]
    omega

/-- Until there is a handler the pool may find a connection or count an error. -/
theorem Inv.of_early (hi : Inv s) {a : Answer} {pool : EndpointConnectionPool} {run : Run}
    (hmove : Run.Move env s.run a run) (hpc : phase s.run.pc = .early)
    (hbusy : ∀ c isNew, s.run.pc ≠ .busyAdd c isNew)
    (hnext : phase run.pc = .early ∨ phase run.pc = .settled)
    (hout : toSuccess (s.run.outcome a run) = 0) (hactive : pool.status = .active)
    (hsuccesses : pool.stats.successfulConnectionTimestamps =
      s.pool.stats.successfulConnectionTimestamps)
    (herrors : pool.stats.allErrors.length =
      s.pool.stats.allErrors.length + toError (s.run.outcome a run)) :
    Inv { run, pool, outcomes := s.outcomes ++ (s.run.outcome a run).toList } := by
  have hconn : run.connection = none := by
    rw [connection_eq (handler_of_move hmove hbusy (by grind) (by grind) (by grind)),
      hi.fits.early hpc]
  refine hi.of_accounts (accounts_early hpc hconn hnext hout rfl) hactive ?_
    (congrArg List.length hsuccesses) herrors
  intro c hc
  rw [hconn] at hc
  cases hc

/-- The calls until there is a handler. -/
theorem Inv.early (hi : Inv s) {now : Int} {a : Answer} {pool : EndpointConnectionPool} {run : Run}
    (heffect : s.effect now a = some pool) (hrun : s.run.step env a = some run)
    (hpc : phase s.run.pc = .early) :
    Inv { run, pool, outcomes := s.outcomes ++ (s.run.outcome a run).toList } := by
  have hmove := Run.step_move hrun
  cases hr : s.run.pc with
  | readRequest =>
      simp only [effect, hr, Option.some.injEq] at heffect
      subst heffect
      have hout : s.run.outcome a run = none := by simp [Run.outcome, hr]
      refine hi.of_early hmove hpc (by simp [hr]) ?_ (by rw [hout]; rfl) hi.active rfl
        (by rw [hout]; rfl)
      cases hmove with
      | read outcome => cases outcome <;> grind
      | _ => grind
  | getIdle =>
      simp only [effect, hr] at heffect
      obtain ⟨hactive, hstats, hraise⟩ := getIdle_active hi.active heffect
      have hout : s.run.outcome a run = none := by simp [Run.outcome, hr]
      refine hi.of_early hmove hpc (by simp [hr]) ?_ (by rw [hout]; rfl) hactive (by rw [hstats])
        (by rw [hout, hstats]; rfl)
      cases hmove <;> grind
  | connect =>
      simp only [effect, hr] at heffect
      simp only [Run.step, hr] at hrun
      cases a with
      | connection c =>
          obtain rfl := Option.some.inj heffect
          obtain rfl := Option.some.inj hrun
          exact hi.of_early hmove hpc (by simp [hr]) (Or.inl rfl)
            (by simp [Run.outcome, hr, toSuccess]) hi.active rfl
            (by simp only [Run.outcome, hr]; rfl)
      | raise e =>
          obtain rfl := Option.some.inj heffect
          obtain rfl := Option.some.inj hrun
          refine hi.of_early hmove hpc (by simp [hr]) (Or.inr rfl)
            (by simp [Run.outcome, hr, toSuccess]) hi.active rfl ?_
          rw [notEstablished_errors]
          simp [Run.outcome, hr, toError]
      | _ => cases heffect
  | busyAdd c isNew =>
      simp only [effect, hr, Option.some.injEq] at heffect
      subst heffect
      simp only [Run.step, hr] at hrun
      cases a with
      | ok =>
          obtain rfl := Option.some.inj hrun
          have hacc : Accounts s.run .ok { s.run with
              pc := .sendRequest, handler := some (Run.acquired env c isNew) } 0 0 := by
            refine ⟨⟨?_, ?_, ?_⟩, ?_, ?_⟩
            · exact fun h => by cases h
            · exact fun _ _ => rfl
            · exact fun h => by cases h
            · simp [owed, phase, Run.outcome, hr, toSuccess]
            · simp [broken, phase, Run.outcome, hr, toError]
          refine hi.of_accounts hacc hi.active ?_ rfl rfl
          intro c' hc' _
          obtain rfl := Option.some.inj hc'
          exact Finset.mem_insert_self _ _
      | _ => cases hrun
  | _ => simp [hr, phase] at hpc

/-- The calls of `handle_broken_connection`. -/
theorem Inv.givingUp (hi : Inv s) {now : Int} {a : Answer} {pool : EndpointConnectionPool}
    {run : Run} (heffect : s.effect now a = some pool) (hrun : s.run.step env a = some run)
    (hpc : phase s.run.pc = .givingUp) :
    Inv { run, pool, outcomes := s.outcomes ++ (s.run.outcome a run).toList } := by
  have hsome := hi.fits.working (by simp [hpc]) (by simp [hpc])
  obtain ⟨c, hc⟩ := Option.isSome_iff_exists.mp hsome
  cases hr : s.run.pc with
  | busyRemove =>
      have hbusy := hi.busy c hc (by simp [hr])
      simp only [effect, hr, busyRemove, hc, Option.bind_some,
        s.pool.busyRemove_of_mem hbusy] at heffect
      cases a with
      | ok =>
          obtain rfl := Option.some.inj heffect
          simp only [Run.step, hr, Run.simply, Option.some.injEq] at hrun
          subst hrun
          have hacc : Accounts s.run .ok { s.run with pc := .scheduleBroken } 0 0 := by
            refine ⟨⟨?_, ?_, ?_⟩, ?_, ?_⟩
            · exact fun h => by cases h
            · exact fun _ _ => hsome
            · exact fun h => by cases h
            · simp [owed, phase, hr, Run.outcome, toSuccess]
            · simp [broken, phase, hr, Run.outcome, toError]
          exact hi.of_accounts hacc hi.active (fun _ _ h => absurd rfl h) rfl rfl
      | _ => cases heffect
  | scheduleBroken =>
      obtain ⟨handler, hhandler, hconn⟩ := Option.bind_eq_some_iff.mp hc
      simp only [effect, hr, scheduleBroken, hhandler, Option.bind_some, hconn,
        Option.map_some, Option.some.injEq] at heffect
      subst heffect
      simp only [Run.step, hr] at hrun
      cases a with
      | ok =>
          obtain rfl := Option.some.inj hrun
          have hnone : Run.connection (s.run.disconnect.connectionError env .close) = none :=
            Run.disconnect_connection
          have hacc : Accounts s.run .ok (s.run.disconnect.connectionError env .close) 0 1 := by
            refine ⟨⟨?_, ?_, ?_⟩, ?_, ?_⟩
            · exact fun _ => hnone
            · exact fun _ h => absurd rfl h
            · exact fun _ => hnone
            · simp [owed, hnone, phase, Run.outcome, hr, toSuccess]
            · simp [broken, Run.connectionError, phase, Run.outcome, hr, toError]
          obtain ⟨hsuccesses, herrors⟩ :=
            scheduleBroken_stats s.pool c handler.isNewConnection now
          refine hi.of_accounts hacc hi.active ?_ (congrArg List.length hsuccesses) herrors
          intro c hc
          rw [hnone] at hc
          cases hc
      | _ => cases hrun
  | _ => simp [hr, phase] at hpc

/-- A call of `put`, or of `release` without a connection. -/
theorem next_of_release {r r' : Run} {a : Answer} (h : Run.Move env r a r')
    (hpc : (∃ inExcept, r.pc = .release inExcept) ∨ r.pc = .del) (hraise : ∀ e, a ≠ .raise e) :
    phase r'.pc = .settled ∧ r'.connection = none := by
  cases h with
  | releaseNothing _ hnone => exact ⟨rfl, hnone⟩
  | delNothing _ hnone => exact ⟨rfl, hnone⟩
  | release => exact ⟨rfl, Run.disconnect_connection⟩
  | del => exact ⟨rfl, Run.disconnect_connection⟩
  | _ => grind [phase_of_isSend]

/-- The connection comes back. -/
theorem Inv.release (hi : Inv s) {now : Int} {a : Answer} {pool : EndpointConnectionPool}
    {run : Run} (heffect : s.effect now a = some pool) (hrun : s.run.step env a = some run)
    (hpc : (∃ inExcept, s.run.pc = .release inExcept) ∨ s.run.pc = .del) :
    Inv { run, pool, outcomes := s.outcomes ++ (s.run.outcome a run).toList } := by
  have hput : s.put now a = some pool := by
    obtain ⟨inExcept, hr⟩ | hr := hpc <;> simpa [effect, hr] using heffect
  have hsettled : phase s.run.pc = .settled := by
    obtain ⟨inExcept, hr⟩ | hr := hpc <;> rw [hr] <;> rfl
  have hne : s.run.pc ≠ .scheduleBroken := by grind
  have hmove := Run.step_move hrun
  cases hc : s.run.connection with
  | none =>
      simp only [put, hc, Option.some.injEq] at hput
      subst hput
      have hnothing : s.run.handler.bind EndpointConnectionHandler.connection = none := hc
      have ha : a = .ok := by
        obtain ⟨inExcept, hr⟩ | hr := hpc
        all_goals
          simp only [Run.step, hr, Run.release, hnothing] at hrun
          exact (Run.silently_cases hrun).1
      obtain ⟨hnext, hnone⟩ := next_of_release hmove hpc (fun e h => by rw [ha] at h; cases h)
      have hacc := accounts_release (a := a) hsettled hnext hnone rfl
      rw [hc] at hacc
      exact hi.keep hacc (hnone.trans hc.symm) hne
  | some c =>
      simp only [put, hc, s.pool.put_active now (hi.busy c hc hne) hi.active] at hput
      cases a with
      | ok =>
          obtain rfl := Option.some.inj hput
          obtain ⟨hnext, hnone⟩ := next_of_release hmove hpc (fun e h => by cases h)
          refine hi.of_accounts (accounts_release hsettled hnext hnone rfl) hi.active ?_ ?_ rfl
          · intro c hc
            rw [hnone] at hc
            cases hc
          · simp [hc, PoolStats.registerSuccessfulConnection]
      | _ => cases hput

/-- **The account of a call.** -/
theorem Inv.call (hi : Inv s) {now : Int} {a : Answer}
    (hstep : step cfg env s (.call now a) = some s') : Inv s' := by
  obtain ⟨pool, heffect, hstep⟩ := Option.bind_eq_some_iff.mp hstep
  obtain ⟨run, hrun, rfl⟩ := Option.map_eq_some_iff.mp hstep
  have hmove := Run.step_move hrun
  cases hpc : phase s.run.pc with
  | early => exact hi.early heffect hrun hpc
  | sending =>
      obtain rfl := effect_apart heffect (by simp [hpc])
      have hconn := connection_eq
        (handler_of_move hmove (by grind) (by grind) (by grind) (by grind))
      exact hi.keep (accounts_sending hmove hi.fits hpc) hconn (by grind)
  | receiving =>
      obtain rfl := effect_apart heffect (by simp [hpc])
      have hconn := connection_eq
        (handler_of_move hmove (by grind) (by grind) (by grind) (by grind))
      exact hi.keep (accounts_receiving hmove hi.fits hpc) hconn (by grind)
  | givingUp => exact hi.givingUp heffect hrun hpc
  | settled =>
      by_cases hrelease : (∃ inExcept, s.run.pc = .release inExcept) ∨ s.run.pc = .del
      · exact hi.release heffect hrun hrelease
      · obtain ⟨hrelease, hdel⟩ := not_or.mp hrelease
        have hrelease' : ∀ inExcept, s.run.pc ≠ .release inExcept := fun inExcept h =>
          hrelease ⟨inExcept, h⟩
        obtain rfl := effect_apart heffect (Or.inr (Or.inr ⟨hpc, hrelease', hdel⟩))
        have hconn := connection_eq
          (handler_of_move hmove (by grind) (by grind) hrelease' hdel)
        exact hi.keep (accounts_settled hmove hpc hconn hdel) hconn (by grind)

theorem Inv.step {l : Label} (hi : Inv s) (hstep : Exchanges.step cfg env s l = some s') :
    Inv s' := by
  cases l with
  | call now a => exact hi.call hstep
  | next =>
      obtain ⟨hdone, hs'⟩ := Option.ite_none_right_eq_some.mp hstep
      obtain rfl := Option.some.inj hs'
      have hsuccesses := hi.successes
      have herrors := hi.errors
      have hnone := hi.fits.done hdone
      simp only [owed, hnone, broken, hdone, phase] at hsuccesses herrors
      exact ⟨hi.active, fun c hc => (by cases hc), fits_fresh, hsuccesses, herrors⟩
  | cleanupPass now =>
      obtain rfl := Option.some.inj hstep
      rw [s.pool.cleanupPass_active cfg now hi.active]
      exact ⟨hi.active, hi.busy, hi.fits, hi.successes, hi.errors⟩

/-! ## responses that are broken off -/

theorem outcome_recv {r r' : Run} {a : Answer} (hr : r.pc = .recv)
    (hrun : r.recv env a = some r') :
    r.outcome a r' = if r.receives env a then none else some .receiveFailed := by
  have hphase : phase r.pc = .receiving := by rw [hr]; rfl
  rw [outcome_of_receiving hphase]
  obtain ⟨ha, rfl⟩ | ⟨e, rfl, rfl⟩ | ⟨bytes, rfl, hne, ⟨hparse, rfl⟩ | ⟨complete, hparse, rfl⟩⟩ :=
    Run.recv_cases hrun
  · obtain rfl | rfl := ha <;> simp [Run.receives, hr, Run.receiveFailed, Run.connectionError, phase]
  · unfold Run.receiveRaised
    split <;> simp [Run.receives, hr, Run.receiveFailed, Run.connectionError, Run.except, phase]
  · simp [Run.receives, hr, hparse, Run.except, phase]
  · cases complete <;> simp [Run.receives, hr, hne, hparse, phase]

/-- An exchange fails while its response is received exactly when the response is broken off. -/
theorem outcome_eq_receiveFailed {r r' : Run} {a : Answer} (hrun : r.step env a = some r')
    (hrespond : ∀ data complete, r.pc = .respond data complete → a = .ok) :
    r.outcome a r' = some .receiveFailed ↔ r.receives env a = false := by
  cases hr : r.pc with
  | recv =>
      simp only [Run.step, hr] at hrun
      rw [outcome_recv hr hrun]
      cases r.receives env a <;> simp
  | respond data complete =>
      obtain rfl := hrespond data complete hr
      simp only [Run.step, hr] at hrun
      rw [outcome_of_receiving (by rw [hr]; rfl)]
      obtain ⟨-, -, rfl⟩ | ⟨-, ⟨-, rfl⟩ | ⟨n, e, ha, -⟩⟩ := Run.respond_cases hrun
      · cases complete <;> simp [Run.receives, hr, Run.afterPiece, phase]
      · simp [Run.receives, hr, phase]
      · cases ha
  | recordResponse complete =>
      simp only [Run.step, hr] at hrun
      rw [outcome_of_receiving (by rw [hr]; rfl)]
      cases a with
      | ok =>
          obtain rfl := Option.some.inj hrun
          cases complete <;> simp [Run.receives, hr, Run.afterPiece, phase]
      | raise e =>
          obtain rfl := Option.some.inj hrun
          unfold Run.receiveRaised
          split <;>
            simp [Run.receives, hr, Run.receiveFailed, Run.connectionError, Run.except, phase]
      | _ => cases hrun
  | connect =>
      have hreceives : r.receives env a = true := by simp [Run.receives, hr]
      cases a <;> simp [Run.outcome, hr, hreceives]
  | _ =>
      have hreceives : r.receives env a = true := by simp [Run.receives, hr]
      simp [Run.outcome, hr, hreceives]

/-- A step settles at most one exchange, which fails while its response is received exactly
when the response is broken off. -/
theorem step_outcomes {l : Label} (hstep : step cfg env s l = some s') :
    ∃ o : Option Outcome, s'.outcomes = s.outcomes ++ o.toList ∧
      (o = some .receiveFailed ↔ ¬ s.Received env l) := by
  cases l with
  | call now a =>
      obtain ⟨pool, heffect, hstep⟩ := Option.bind_eq_some_iff.mp hstep
      obtain ⟨run, hrun, rfl⟩ := Option.map_eq_some_iff.mp hstep
      refine ⟨s.run.outcome a run, rfl, ?_⟩
      have hrespond : ∀ data complete, s.run.pc = .respond data complete → a = .ok := by
        intro data complete hr
        simp only [effect, hr] at heffect
        exact (Option.ite_none_right_eq_some.mp heffect).1
      rw [outcome_eq_receiveFailed hrun hrespond]
      simp [Received]
  | next =>
      obtain ⟨-, hs'⟩ := Option.ite_none_right_eq_some.mp hstep
      obtain rfl := Option.some.inj hs'
      exact ⟨none, by simp, by simp [Received]⟩
  | cleanupPass now =>
      obtain rfl := Option.some.inj hstep
      exact ⟨none, by simp, by simp [Received]⟩

/-! ## results -/

theorem failures_eq (s : Exchanges) : s.failures = s.outcomes.count .creationFailed +
    s.outcomes.count .sendFailed + s.outcomes.count .receiveFailed := by
  unfold failures
  induction s.outcomes with
  | nil => rfl
  | cons o outcomes ih =>
      rw [List.countP_cons]
      cases o <;> simp [Outcome.isFailure, ih] <;> omega

theorem length_outcomes (s : Exchanges) :
    s.outcomes.length = s.failures + s.outcomes.count .received := by
  unfold failures
  induction s.outcomes with
  | nil => rfl
  | cons o outcomes ih =>
      rw [List.countP_cons]
      cases o <;> simp [Outcome.isFailure, ih] <;> omega

/-- Over an interval that goes back far enough the failure rate is the share of the errors. -/
theorem getFailureRate_of_covers {st : PoolStats} {now now' interval : Int}
    (h : Covers st now now' interval) :
    st.getFailureRate now now' interval =
      mkRat st.allErrors.length
        (st.allErrors.length + st.successfulConnectionTimestamps.length) := by
  have herrors : st.countAllErrors now interval = st.allErrors.length := by
    unfold PoolStats.countAllErrors PoolStats.countTimestamps
    rw [List.filter_eq_self.mpr]
    exact fun t ht => decide_eq_true (h.1 t ht)
  have hsuccesses : st.countSuccessfulConnections now' interval =
      st.successfulConnectionTimestamps.length := by
    unfold PoolStats.countSuccessfulConnections PoolStats.countTimestamps
    rw [List.filter_eq_self.mpr]
    exact fun t ht => decide_eq_true (h.2 t ht)
  unfold PoolStats.getFailureRate
  rw [herrors, hsuccesses]
  dsimp only
  split
  · rfl
  · next hzero =>
    have hlength : st.allErrors.length + st.successfulConnectionTimestamps.length = 0 := by omega
    rw [hlength, Rat.mkRat_zero]

/-- The statistics at the end of an exchange. -/
theorem Inv.at_end (hi : Inv s) (hdone : s.run.pc = .done) :
    s.pool.stats.successfulConnectionTimestamps.length =
        s.outcomes.count .received + s.outcomes.count .receiveFailed ∧
      s.pool.stats.allErrors.length =
        s.outcomes.count .creationFailed + s.outcomes.count .sendFailed := by
  have hsuccesses := hi.successes
  have herrors := hi.errors
  have hnone := hi.fits.done hdone
  simp only [owed, hnone, broken, hdone, phase] at hsuccesses herrors
  exact ⟨hsuccesses, herrors⟩

theorem Inv.truthful (hi : Inv s) (hnot : .receiveFailed ∉ s.outcomes) (hdone : s.run.pc = .done) :
    s.Truthful := by
  obtain ⟨hsuccesses, herrors⟩ := hi.at_end hdone
  have hzero := List.count_eq_zero.mpr hnot
  have hfailures := s.failures_eq
  have herrors' : s.pool.stats.allErrors.length = s.failures := by omega
  have hsuccesses' :
      s.pool.stats.successfulConnectionTimestamps.length = s.outcomes.count .received := by omega
  refine ⟨hsuccesses', herrors', fun hcovers => ?_⟩
  rw [getFailureRate_of_covers hcovers, herrors', hsuccesses', length_outcomes]

/-- **The statistics tell the truth**, after any sequence of exchanges through an active pool
with a client that accepts what it is sent, exactly when no exchange has failed while its
response was received. -/
theorem truthful_iff_received {pool : EndpointConnectionPool} (hactive : pool.status = .active)
    (hstats : pool.stats = {}) {ls : List Label} {t : Exchanges}
    (hrun : Trans.run (step cfg env) { pool } ls = some t) (hdone : t.run.pc = .done) :
    t.Truthful ↔ Guarded (step cfg env) (Received env) { pool } ls := by
  apply last_iff_guarded (step cfg env)
    (I := fun s => Inv s ∧ .receiveFailed ∉ s.outcomes)
    (D := fun s => Inv s ∧ .receiveFailed ∈ s.outcomes)
    (F := fun s => s.run.pc = .done) (Q := Truthful)
  · rintro s l s' ⟨hi, hnot⟩ hl hstep
    obtain ⟨o, houtcomes, ho⟩ := step_outcomes hstep
    refine ⟨hi.step hstep, fun hmem => ?_⟩
    rw [houtcomes, List.mem_append, Option.mem_toList] at hmem
    obtain hmem | hmem := hmem
    · exact hnot hmem
    · exact ho.mp hmem hl
  · rintro s l s' ⟨hi, hnot⟩ hl hstep
    obtain ⟨o, houtcomes, ho⟩ := step_outcomes hstep
    refine ⟨hi.step hstep, ?_⟩
    rw [houtcomes, ho.mpr hl]
    simp
  · rintro s l s' ⟨hi, hmem⟩ hstep
    obtain ⟨o, houtcomes, -⟩ := step_outcomes hstep
    refine ⟨hi.step hstep, ?_⟩
    rw [houtcomes]
    exact List.mem_append_left _ hmem
  · exact fun s hi hdone => hi.1.truthful hi.2 hdone
  · rintro s ⟨hi, hmem⟩ hdone htruthful
    have hsuccesses := (hi.at_end hdone).1
    have hpos := List.count_pos_iff.mpr hmem
    rw [htruthful.successes] at hsuccesses
    omega
  · refine ⟨⟨hactive, fun c hc => (by cases hc), fits_fresh, ?_, ?_⟩, by simp⟩
    · simp [hstats, owed, phase]
    · simp [hstats, broken, phase, PoolStats.allErrors]
  · exact hrun
  · exact hdone

/-! ## an endpoint that does not answer -/

/-- An endpoint whose responses come in one piece. -/
def endpoint : ProxyEnv where
  now := ""
  sender _ := RequestSender.new "localhost" ""
  parse _ := .complete

/-- A pool of this size. -/
def poolConfig : PoolConfig := ⟨1, 60⟩

/-- A request that can be written down and a connection for it, up to the response. -/
def exchange (answers : List Answer) : List Label :=
  let asked : List Answer :=
    [.read (.success { headers := some [], content := some [] }), .noIdle, .connection 0, .ok, .ok]
  (asked ++ answers).map (.call 1)

/-- The response comes. -/
def answered : List Label := exchange [.data [0], .ok, .ok, .ok, .ok, .ok, .ok, .ok]

theorem truthful_iff_received_answered :
    ∃ t, Trans.run (step poolConfig endpoint) { pool := {} } answered = some t ∧
      t.run.pc = .done ∧
      (t.Truthful ↔
        Guarded (step poolConfig endpoint) (Received endpoint) { pool := {} } answered) := by
  have hrun : ((Trans.run (step poolConfig endpoint) { pool := {} } answered).map
      fun t => t.run.pc) = some .done := by
    decide
  obtain ⟨t, ht, hdone⟩ := Option.map_eq_some_iff.mp hrun
  exact ⟨t, ht, hdone, truthful_iff_received rfl rfl ht hdone⟩

/-- No response comes, and the client is told so. -/
def unanswered : List Label := exchange [.notReady, .ok, .ok, .ok, .ok, .ok]

/-- The failed exchange counts as a success. -/
theorem not_always_truthful : ¬ ∀ (cfg : PoolConfig) (env : ProxyEnv) (ls : List Label)
    (t : Exchanges), Trans.run (step cfg env) { pool := {} } ls = some t → t.run.pc = .done →
      t.Truthful := by
  intro h
  have hrun : ((Trans.run (step poolConfig endpoint) { pool := {} } unanswered).map fun t =>
      (t.run.pc, t.pool.stats.successfulConnectionTimestamps, t.outcomes)) =
      some (.done, [1], [.receiveFailed]) := by
    decide
  obtain ⟨t, ht, heq⟩ := Option.map_eq_some_iff.mp hrun
  obtain ⟨hdone, heq⟩ := Prod.mk.inj heq
  obtain ⟨hsuccesses, houtcomes⟩ := Prod.mk.inj heq
  have htruthful := (h _ _ _ t ht hdone).successes
  rw [hsuccesses, houtcomes] at htruthful
  revert htruthful
  decide

end Exchanges

end Web3Proxy
