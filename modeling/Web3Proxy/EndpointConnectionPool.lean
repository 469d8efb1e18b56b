import Mathlib.Data.Finset.Card
import Web3Proxy.Lib.Py

/-!
# Web3Proxy.EndpointConnectionPool

The pool of connections to one endpoint (`endpoint_connection_pool.py`): the
queue of idle connections, the set of busy ones, the queue the closing thread
reads, the status and the statistics.

Each definition is one section of code that runs without another thread's step
in between: what stands between two operations of the pool's lock, or, in
`handle_broken_connection` and in the closing thread, which take no lock, one
operation on a shared container.  Time is read from outside, so it is an
argument.
-/

namespace Web3Proxy

open Py

/-- A reference to an `EndpointConnection`. -/
abbrev ConnId := Nat

/-- `EndpointConnectionPool.PoolStatus`. -/
inductive PoolStatus where
  | active
  | disabled
  | outOfSync
  | closing
  | closed
deriving DecidableEq, Repr

/-- `PoolStats`, without the counter `busy_connections`, which nothing uses. -/
structure PoolStats where
  successfulConnectionTimestamps : List Int := []
  errorTimestamps : List Int := []
  newConnectionErrorTimestamps : List Int := []
  connectionCreationErrorTimestamps : List Int := []
deriving DecidableEq, Repr

namespace PoolStats

variable (st : PoolStats) (now : Int)

/-- `register_successful_connection()`. -/
def registerSuccessfulConnection : PoolStats :=
  { st with successfulConnectionTimestamps := st.successfulConnectionTimestamps ++ [now] }

/-- `register_error_on_connection()`. -/
def registerErrorOnConnection : PoolStats :=
  { st with errorTimestamps := st.errorTimestamps ++ [now] }

/-- `register_error_on_new_connection()`. -/
def registerErrorOnNewConnection : PoolStats :=
  { st with newConnectionErrorTimestamps := st.newConnectionErrorTimestamps ++ [now] }

/-- `register_error_on_connection_creation()`. -/
def registerErrorOnConnectionCreation : PoolStats :=
  { st with
    connectionCreationErrorTimestamps := st.connectionCreationErrorTimestamps ++ [now] }

/-- `__count_timestamps(timestamps, interval)`. -/
def countTimestamps (timestamps : List Int) (interval : Int) : Nat :=
  (timestamps.filter fun timestamp => now - interval ≤ timestamp).length

/-- `count_successful_connections(interval)`. -/
def countSuccessfulConnections (interval : Int) : Nat :=
  countTimestamps now st.successfulConnectionTimestamps interval

/-- The timestamps that `count_all_errors` puts together. -/
def allErrors : List Int :=
  st.errorTimestamps ++ st.newConnectionErrorTimestamps ++ st.connectionCreationErrorTimestamps

/-- `count_all_errors(interval)`. -/
def countAllErrors (interval : Int) : Nat := countTimestamps now st.allErrors interval

/-- `get_failure_rate(interval)`, which reads the clock twice.  The quotient is not rounded. -/
def getFailureRate (now' interval : Int) : Rat :=
  let errorCount := st.countAllErrors now interval
  let allConnections := errorCount + st.countSuccessfulConnections now' interval
  if allConnections > 0 then mkRat errorCount allConnections else 0

end PoolStats

/-- What the pool reads from `Config`.  The number of proxy workers, which the
pool uses as `MAX_CONNECTIONS`, is the size of a thread pool. -/
structure PoolConfig where
  numProxyWorkers : Nat
  idleConnectionTimeout : Int
deriving DecidableEq, Repr

/-- `EndpointConnectionPool`.  `lastUseTimestamp` is that field of the
connection objects; `none` in the close queue is the sentinel. -/
structure EndpointConnectionPool where
  connections : List ConnId := []
  busyConnections : Finset ConnId := ∅
  stats : PoolStats := {}
  status : PoolStatus := .active
  connectionCloseQueue : List (Option ConnId) := []
  lastUseTimestamp : ConnId → Int := fun _ => 0

namespace EndpointConnectionPool

variable (p : EndpointConnectionPool)

/-- `is_active()`. -/
def isActive : Bool := p.status == .active

/-- `is_out_of_sync()`. -/
def isOutOfSync : Bool := p.status == .outOfSync

/-- `__update_status(status)`. -/
def updateStatus (status : PoolStatus) : EndpointConnectionPool := { p with status }

/-- `__get_connection()`, that is `connections.get_nowait()`. -/
def getConnection : Result EndpointConnectionPool ConnId :=
  match p.connections with
  | [] => .raise .queueEmpty p
  | c :: cs => .ok c { p with connections := cs }

/-- `connection_close_queue.put(connection)`. -/
def closeQueuePut (c : Option ConnId) : EndpointConnectionPool :=
  { p with connectionCloseQueue := p.connectionCloseQueue ++ [c] }

/-- `connections.put(connection)`. -/
def connectionsPut (c : ConnId) : EndpointConnectionPool :=
  { p with connections := p.connections ++ [c] }

/-- `busy_connections.remove(connection)`. -/
def busyRemove (c : ConnId) : Result EndpointConnectionPool Unit :=
  if c ∈ p.busyConnections then
    .ok () { p with busyConnections := p.busyConnections.erase c }
  else .raise .keyError p

/-! ## get -/

/-- The first locked section of `get(out_of_sync)`: an idle connection, or
`none` when there is none and `get` goes on to establish one. -/
def getIdle (outOfSync : Bool) : Result EndpointConnectionPool (Option ConnId) :=
  if !outOfSync && !p.isActive then .raise .exception p
  else if outOfSync && !p.isOutOfSync && !p.isActive then .raise .exception p
  else if p.connections.isEmpty then .ok none p
  else p.getConnection.map some

/-- `get` has established the connection `c`, which takes its creation time. -/
def established (c : ConnId) (now : Int) : EndpointConnectionPool :=
  { p with lastUseTimestamp := Function.update p.lastUseTimestamp c now }

/-- `get` failed to establish a connection. -/
def notEstablished (now : Int) : EndpointConnectionPool :=
  { p with stats := p.stats.registerErrorOnConnectionCreation now }

/-- The second locked section of `get`. -/
def busyAdd (c : ConnId) : EndpointConnectionPool :=
  { p with busyConnections := insert c p.busyConnections }

/-! ## put and handle_broken_connection -/

/-- `put(connection)`. -/
def put (c : ConnId) (now : Int) : Result EndpointConnectionPool Unit :=
  (p.busyRemove c).bind fun _ p =>
    if p.isActive then
      let p := { p with stats := p.stats.registerSuccessfulConnection now }
      let p := p.connectionsPut c
      .ok () { p with lastUseTimestamp := Function.update p.lastUseTimestamp c now }
    else
      let p := p.closeQueuePut (some c)
      if p.status = .closing then
        if p.busyConnections.card = 0 then
          .ok () ((p.closeQueuePut none).updateStatus .closed)
        else .ok () p
      else .ok () p

/-- `handle_broken_connection` after its first statement, which is
`busyRemove`: count the error and hand the connection to the closing thread. -/
def scheduleBroken (c : ConnId) (isNew : Bool) (now : Int) : EndpointConnectionPool :=
  let stats := if isNew then p.stats.registerErrorOnNewConnection now
    else p.stats.registerErrorOnConnection now
  { p with stats }.closeQueuePut (some c)

/-! ## status changes -/

/-- `connection_close_queue.put(__get_connection())`. -/
def scheduleIdle : Result EndpointConnectionPool Unit :=
  p.getConnection.bind fun c p => .ok () (p.closeQueuePut (some c))

/-- `while not connections.empty(): …`, the loop of `disable`, `out_of_sync` and
`close`.  Each round takes one connection off the queue. -/
def scheduleAllIdle : Result EndpointConnectionPool Unit :=
  whileLoop scheduleIdle (fun p => !p.connections.isEmpty) (p.connections.length + 1) p

/-- `disable()` and `out_of_sync()`, which differ in the status they set. -/
def suspend (status : PoolStatus) : Result EndpointConnectionPool Unit :=
  if p.status = .closed ∨ p.status = .closing then .raise .exception p
  else (p.updateStatus status).scheduleAllIdle.bind fun _ p => .ok () { p with stats := {} }

/-- `disable()`. -/
def disable : Result EndpointConnectionPool Unit := p.suspend .disabled

/-- `out_of_sync()`. -/
def outOfSync : Result EndpointConnectionPool Unit := p.suspend .outOfSync

/-- `activate()`. -/
def activate : Result EndpointConnectionPool Unit :=
  if p.status = .closed ∨ p.status = .closing then .raise .exception p
  else .ok () (p.updateStatus .active)

/-- `close()`. -/
def close : Result EndpointConnectionPool Unit :=
  (p.updateStatus .closing).scheduleAllIdle.bind fun _ p =>
    if p.busyConnections.card = 0 then
      .ok () ((p.closeQueuePut none).updateStatus .closed)
    else .ok () p

/-! ## the background threads -/

/-- One round of the loop over the idle queue in a cleanup pass: an obsolete
connection is scheduled for closing, another goes to the end of the queue. -/
def rotate (validityTimestamp : Int) : Result EndpointConnectionPool Unit :=
  p.getConnection.bind fun c p =>
    if p.lastUseTimestamp c < validityTimestamp then .ok () (p.closeQueuePut (some c))
    else .ok () (p.connectionsPut c)

/-- The locked section of one pass of the cleanup thread.  The two counters are
only logged; the thread ends when the pool is closing or closed. -/
def cleanupPass (cfg : PoolConfig) (now : Int) : Result EndpointConnectionPool Unit :=
  if p.status = .closed ∨ p.status = .closing then .ok () p
  else if p.isActive then
    -- `range` of a negative number is empty
    (forRange scheduleIdle (p.connections.length - cfg.numProxyWorkers) p).bind fun _ p =>
      let validityTimestamp := now - cfg.idleConnectionTimeout * 1000000000
      forRange (fun p => p.rotate validityTimestamp) p.connections.length p
  else .ok () p

/-- The closing thread takes the next entry; `none` while the queue is empty. -/
def closeQueueGet : Option (Option ConnId × EndpointConnectionPool) :=
  match p.connectionCloseQueue with
  | [] => none
  | c :: cs => some (c, { p with connectionCloseQueue := cs })

/-! ## whole calls -/

/-- `get(out_of_sync)` when nothing else runs in between: the connection of the handler,
and whether it is new.  `creation` is the connection that `EndpointConnection(endpoint)`
makes, unless it raises. -/
def get (outOfSync : Bool) (creation : Option ConnId) (now : Int) :
    Result EndpointConnectionPool (ConnId × Bool) :=
  (p.getIdle outOfSync).bind fun idle p =>
    match idle, creation with
    | some c, _ => .ok (c, false) (p.busyAdd c)
    | none, some c => .ok (c, true) ((p.established c now).busyAdd c)
    | none, none => .raise .exception (p.notEstablished now)

/-- `handle_broken_connection(connection, is_new)` when nothing else runs in between. -/
def handleBrokenConnection (c : ConnId) (isNew : Bool) (now : Int) :
    Result EndpointConnectionPool Unit :=
  (p.busyRemove c).bind fun _ p => .ok () (p.scheduleBroken c isNew now)

/-- A call of one of the pool's methods. -/
inductive Op where
  | get (outOfSync : Bool) (creation : Option ConnId) (now : Int)
  | put (c : ConnId) (now : Int)
  | handleBrokenConnection (c : ConnId) (isNew : Bool) (now : Int)
  | disable
  | outOfSync
  | activate
  | close
deriving DecidableEq, Repr

/-- The pool after a call, whether or not the call raises. -/
def call : Op → EndpointConnectionPool
  | .get oos creation now => (p.get oos creation now).state
  | .put c now => (p.put c now).state
  | .handleBrokenConnection c isNew now => (p.handleBrokenConnection c isNew now).state
  | .disable => p.disable.state
  | .outOfSync => p.outOfSync.state
  | .activate => p.activate.state
  | .close => p.close.state

/-! ## what the operations do

The loops move connections from the idle queue; written out, each operation is
one update of the pool. -/

@[simp] theorem isActive_eq : p.isActive = decide (p.status = .active) := rfl

theorem getConnection_cons {c : ConnId} {cs : List ConnId} (hq : p.connections = c :: cs) :
    p.getConnection = .ok c { p with connections := cs } := by
  unfold getConnection
  rw [hq]

/-- Scheduling an idle connection moves it from one queue to the other. -/
theorem scheduleIdle_cons {c : ConnId} {cs : List ConnId} (hq : p.connections = c :: cs) :
    p.scheduleIdle = .ok () { p with
      connections := cs, connectionCloseQueue := p.connectionCloseQueue ++ [some c] } := by
  unfold scheduleIdle
  rw [p.getConnection_cons hq]
  rfl

/-- A connection is scheduled or goes round. -/
theorem rotate_cons {v : Int} {c : ConnId} {cs : List ConnId} (hq : p.connections = c :: cs) :
    p.rotate v = .ok () (if p.lastUseTimestamp c < v then
        { p with connections := cs, connectionCloseQueue := p.connectionCloseQueue ++ [some c] }
      else { p with connections := cs ++ [c] }) := by
  unfold rotate
  rw [p.getConnection_cons hq]
  by_cases hc : p.lastUseTimestamp c < v
  · simp [hc, closeQueuePut]
  · simp [hc, connectionsPut]

/-- A pool serves a request: one that may go to an unsynchronised pool, or any
other. -/
def Serves (outOfSync : Bool) : Prop :=
  p.status = .active ∨ outOfSync = true ∧ p.status = .outOfSync

/-- The first section of `get`, case by case. -/
theorem getIdle_cases (oos : Bool) :
    (¬ p.Serves oos ∧ p.getIdle oos = .raise .exception p) ∨
    (p.Serves oos ∧ p.connections = [] ∧ p.getIdle oos = .ok none p) ∨
    ∃ c q, p.Serves oos ∧ p.connections = c :: q ∧
      p.getIdle oos = .ok (some c) { p with connections := q } := by
  by_cases hserves : p.Serves oos
  · right
    have hpass : (p.getIdle oos) =
        if p.connections.isEmpty then .ok none p else p.getConnection.map some := by
      unfold getIdle isOutOfSync isActive
      obtain h | ⟨rfl, h⟩ := hserves <;> simp [h]
    rw [hpass]
    cases hq : p.connections with
    | nil => exact .inl ⟨hserves, rfl, rfl⟩
    | cons c q =>
        rw [p.getConnection_cons hq]
        exact .inr ⟨c, q, hserves, rfl, rfl⟩
  · left
    obtain ⟨hactive, hoos⟩ := not_or.mp hserves
    unfold getIdle isOutOfSync isActive
    cases oos with
    | false => simp [hactive, hserves]
    | true => simp_all

/-- `n` rounds of scheduling take the first `n` idle connections. -/
theorem forRange_scheduleIdle {n : Nat} (hn : n ≤ p.connections.length) :
    forRange scheduleIdle n p = .ok () { p with
      connections := p.connections.drop n
      connectionCloseQueue :=
        p.connectionCloseQueue ++ (p.connections.take n).map some } := by
  induction n generalizing p with
  | zero => simp [forRange]
  | succ n ih =>
      cases hq : p.connections with
      | nil => simp [hq] at hn
      | cons c cs =>
          rw [hq] at hn
          rw [forRange, p.scheduleIdle_cons hq, Result.bind_ok, ih _ (by simpa using hn)]
          simp

/-- The loop over the idle queue empties it. -/
theorem scheduleAllIdle_eq :
    p.scheduleAllIdle = .ok () { p with
      connections := []
      connectionCloseQueue := p.connectionCloseQueue ++ p.connections.map some } := by
  suffices h : ∀ n, p.connections.length < n →
      whileLoop scheduleIdle (fun p => !p.connections.isEmpty) n p = .ok () { p with
        connections := []
        connectionCloseQueue := p.connectionCloseQueue ++ p.connections.map some } from
    h _ (Nat.lt_succ_self _)
  intro n
  induction n generalizing p with
  | zero => omega
  | succ n ih =>
      intro hn
      cases hq : p.connections with
      | nil =>
          obtain ⟨q, b, st, s, cq, ts⟩ := p
          cases hq
          simp [whileLoop]
      | cons c cs =>
          rw [hq] at hn
          rw [whileLoop, if_pos (by simp [hq]), p.scheduleIdle_cons hq, Result.bind_ok,
            ih _ (by simpa using hn)]
          simp

/-- One turn of the idle queue keeps the connections that are not obsolete, in
their order, and schedules the others. -/
theorem forRange_rotate (v : Int) {xs ks : List ConnId} (hq : p.connections = xs ++ ks) :
    forRange (fun p => p.rotate v) xs.length p = .ok () { p with
      connections := ks ++ xs.filter fun c => v ≤ p.lastUseTimestamp c
      connectionCloseQueue := p.connectionCloseQueue ++
        (xs.filter fun c => p.lastUseTimestamp c < v).map some } := by
  induction xs generalizing p ks with
  | nil =>
      obtain rfl : p.connections = ks := hq
      simp [forRange]
  | cons c xs ih =>
      rw [List.length_cons, forRange, p.rotate_cons hq, Result.bind_ok]
      by_cases hc : p.lastUseTimestamp c < v
      · rw [if_pos hc, ih _ rfl]
        simp [hc]
      · rw [if_neg hc, ih _ (List.append_assoc xs ks [c])]
        simp [Int.not_lt.mp hc]

/-- The idle connections a cleanup pass looks at one by one: all but the oldest
ones beyond `MAX_CONNECTIONS`. -/
def withinLimit (cfg : PoolConfig) : List ConnId :=
  p.connections.drop (p.connections.length - cfg.numProxyWorkers)

/-- The connection has been used within the timeout. -/
def isRecent (cfg : PoolConfig) (now : Int) (c : ConnId) : Bool :=
  now - cfg.idleConnectionTimeout * 1000000000 ≤ p.lastUseTimestamp c

/-- A cleanup pass of an active pool. -/
theorem cleanupPass_active (cfg : PoolConfig) (now : Int) (h : p.status = .active) :
    p.cleanupPass cfg now = .ok () { p with
      connections := (p.withinLimit cfg).filter (p.isRecent cfg now)
      connectionCloseQueue := p.connectionCloseQueue ++
        (p.connections.take (p.connections.length - cfg.numProxyWorkers)).map some ++
        ((p.withinLimit cfg).filter fun c => !p.isRecent cfg now c).map some } := by
  unfold cleanupPass withinLimit
  rw [if_neg (by simp [h]), if_pos (by simp [h]), forRange_scheduleIdle p (Nat.sub_le _ _),
    Result.bind_ok, forRange_rotate _ _ (List.append_nil _).symm]
  have hobsolete (c : ConnId) :
      decide (p.lastUseTimestamp c < now - cfg.idleConnectionTimeout * 1000000000) =
        !p.isRecent cfg now c := by
    unfold isRecent
    by_cases hc : p.lastUseTimestamp c < now - cfg.idleConnectionTimeout * 1000000000
    · rw [decide_eq_true hc, decide_eq_false (Int.not_le.mpr hc)]
      rfl
    · rw [decide_eq_false hc, decide_eq_true (Int.not_lt.mp hc)]
      rfl
  simp only [List.nil_append, hobsolete]
  rfl

/-- A cleanup pass of a pool that is not active changes nothing. -/
theorem cleanupPass_of_ne (cfg : PoolConfig) (now : Int) (h : p.status ≠ .active) :
    p.cleanupPass cfg now = .ok () p := by
  unfold cleanupPass
  split
  · rfl
  · simp [h]

/-- `busy_connections.remove` of a busy connection. -/
theorem busyRemove_of_mem {c : ConnId} (hc : c ∈ p.busyConnections) :
    p.busyRemove c = .ok () { p with busyConnections := p.busyConnections.erase c } :=
  if_pos hc

/-- `put` on an active pool makes the connection idle. -/
theorem put_active {c : ConnId} (now : Int) (hc : c ∈ p.busyConnections)
    (h : p.status = .active) :
    p.put c now = .ok () { p with
      busyConnections := p.busyConnections.erase c
      stats := p.stats.registerSuccessfulConnection now
      connections := p.connections ++ [c]
      lastUseTimestamp := Function.update p.lastUseTimestamp c now } := by
  unfold put
  rw [p.busyRemove_of_mem hc, Result.bind_ok, if_pos (by simp [h])]
  rfl

/-- The last connection of a closing pool is coming back. -/
def lastToClose (c : ConnId) : Bool :=
  p.status = .closing ∧ (p.busyConnections.erase c).card = 0

/-- `put` on a pool that is not active schedules the connection for closing. -/
theorem put_of_ne {c : ConnId} (now : Int) (hc : c ∈ p.busyConnections)
    (h : p.status ≠ .active) :
    p.put c now = .ok () { p with
      busyConnections := p.busyConnections.erase c
      connectionCloseQueue := p.connectionCloseQueue ++
        some c :: if p.lastToClose c then [none] else []
      status := if p.lastToClose c then .closed else p.status } := by
  unfold put
  rw [p.busyRemove_of_mem hc, Result.bind_ok, if_neg (by simp [h])]
  by_cases hclosing : p.status = .closing <;>
    by_cases hcard : (p.busyConnections.erase c).card = 0 <;>
      simp [lastToClose, closeQueuePut, updateStatus, hclosing, hcard]

/-- `disable` and `out_of_sync` schedule all idle connections. -/
theorem suspend_open (status : PoolStatus) (h : ¬ (p.status = .closed ∨ p.status = .closing)) :
    p.suspend status = .ok () { p with
      status
      connections := []
      connectionCloseQueue := p.connectionCloseQueue ++ p.connections.map some
      stats := {} } := by
  unfold suspend
  rw [if_neg h, scheduleAllIdle_eq, Result.bind_ok]
  rfl

/-- `close` schedules all idle connections, and ends with the sentinel unless
connections are busy. -/
theorem close_eq :
    p.close = .ok () { p with
      status := if p.busyConnections.card = 0 then .closed else .closing
      connections := []
      connectionCloseQueue := p.connectionCloseQueue ++ p.connections.map some ++
        if p.busyConnections.card = 0 then [none] else [] } := by
  unfold close
  rw [scheduleAllIdle_eq, Result.bind_ok]
  by_cases hcard : p.busyConnections.card = 0 <;> simp [hcard, updateStatus, closeQueuePut]

/-! ## the idle queue -/

theorem busyRemove_connections (c : ConnId) :
    (p.busyRemove c).state.connections = p.connections := by
  unfold busyRemove
  split <;> rfl

/-- `put` makes the connection idle, or leaves the idle queue alone. -/
theorem put_connections (c : ConnId) (now : Int) :
    (p.put c now).state.connections = p.connections ∨
      (∃ pool, p.put c now = .ok () pool) ∧
        (p.put c now).state.connections = p.connections ++ [c] := by
  by_cases hc : c ∈ p.busyConnections
  · by_cases hactive : p.status = .active
    · rw [p.put_active now hc hactive]
      exact Or.inr ⟨⟨_, rfl⟩, rfl⟩
    · rw [p.put_of_ne now hc hactive]
      exact Or.inl rfl
  · unfold put busyRemove
    rw [if_neg hc]
    exact Or.inl rfl

theorem suspend_sublist (status : PoolStatus) :
    (p.suspend status).state.connections.Sublist p.connections := by
  by_cases hclosed : p.status = .closed ∨ p.status = .closing
  · unfold suspend
    rw [if_pos hclosed]
    exact List.Sublist.refl _
  · rw [p.suspend_open status hclosed]
    exact List.nil_sublist _

theorem activate_connections : p.activate.state.connections = p.connections := by
  unfold activate
  split <;> rfl

theorem close_sublist : p.close.state.connections.Sublist p.connections := by
  rw [p.close_eq]
  exact List.nil_sublist _

theorem cleanupPass_sublist (cfg : PoolConfig) (now : Int) :
    (p.cleanupPass cfg now).state.connections.Sublist p.connections := by
  by_cases hactive : p.status = .active
  · rw [p.cleanupPass_active cfg now hactive]
    exact List.filter_sublist.trans (List.drop_sublist _ _)
  · rw [p.cleanupPass_of_ne cfg now hactive]
    exact List.Sublist.refl _

theorem closeQueueGet_connections {c : Option ConnId} {pool : EndpointConnectionPool}
    (h : p.closeQueueGet = some (c, pool)) : pool.connections = p.connections := by
  unfold closeQueueGet at h
  split at h
  · cases h
  · cases h
    rfl

/-! ## the status -/

theorem busyRemove_of_notMem {c : ConnId} (hc : c ∉ p.busyConnections) :
    p.busyRemove c = .raise .keyError p :=
  if_neg hc

theorem put_of_notMem {c : ConnId} (now : Int) (hc : c ∉ p.busyConnections) :
    p.put c now = .raise .keyError p := by
  rw [put, p.busyRemove_of_notMem hc, Result.bind_raise]

theorem handleBrokenConnection_of_notMem {c : ConnId} (isNew : Bool) (now : Int)
    (hc : c ∉ p.busyConnections) :
    p.handleBrokenConnection c isNew now = .raise .keyError p := by
  rw [handleBrokenConnection, p.busyRemove_of_notMem hc, Result.bind_raise]

theorem handleBrokenConnection_busy {c : ConnId} (isNew : Bool) (now : Int)
    (hc : c ∈ p.busyConnections) :
    (p.handleBrokenConnection c isNew now).state.busyConnections = p.busyConnections.erase c := by
  rw [handleBrokenConnection, p.busyRemove_of_mem hc]
  rfl

/-- `get` leaves a pool in its status. -/
theorem get_status (oos : Bool) (creation : Option ConnId) (now : Int) :
    (p.get oos creation now).state.status = p.status := by
  unfold get
  obtain ⟨-, hget⟩ | ⟨-, -, hget⟩ | ⟨c, q, -, -, hget⟩ := p.getIdle_cases oos
  · rw [hget]
    rfl
  · rw [hget]
    cases creation <;> rfl
  · rw [hget]
    rfl

/-- `put` changes no status, unless it closes a closing pool. -/
theorem put_status (c : ConnId) (now : Int) :
    (p.put c now).state.status = p.status ∨
      p.status = .closing ∧ (p.put c now).state.status = .closed := by
  by_cases hc : c ∈ p.busyConnections
  · by_cases hactive : p.status = .active
    · rw [p.put_active now hc hactive]
      exact Or.inl rfl
    · rw [p.put_of_ne now hc hactive]
      by_cases hlast : p.lastToClose c = true
      · have hclosing := hlast
        simp only [lastToClose, decide_eq_true_eq] at hclosing
        exact Or.inr ⟨hclosing.1, if_pos hlast⟩
      · exact Or.inl (if_neg hlast)
  · rw [p.put_of_notMem now hc]
    exact Or.inl rfl

/-- `handle_broken_connection` does not look at the status. -/
theorem handleBrokenConnection_status (c : ConnId) (isNew : Bool) (now : Int) :
    (p.handleBrokenConnection c isNew now).state.status = p.status := by
  unfold handleBrokenConnection busyRemove
  split <;> rfl

end EndpointConnectionPool

end Web3Proxy
