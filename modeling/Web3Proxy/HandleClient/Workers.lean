import Mathlib.Logic.Function.Basic
import Web3Proxy.HandleClient

/-!
# Web3Proxy.HandleClient.Workers

Any number of runs of `handle_client` that share one pool of connections, with the
connections and what the endpoint answers on them.

The endpoint answers each request that it gets on a connection with one response, in
order.  A response is outstanding from the moment that its request has gone out, and
is taken off the connection piece by piece, at any time.
-/

namespace Web3Proxy

open Py Bytes

/-- A run among the runs that share a pool. -/
abbrev RunId := Nat

/-- A byte of the response to the request of a run. -/
abbrev Tagged := RunId × UInt8

/-- The bytes of a response to the request of a run. -/
def tag (w : RunId) (bytes : Bytes) : List Tagged := bytes.map (w, ·)

/-- A response of the endpoint: the parser finds it complete at its end only. -/
structure FinalResponse (parse : Bytes → ParseStatus) where
  bytes : Bytes
  final : ∀ part, part <+: bytes → parse part = .complete → part = bytes

namespace FinalResponse

variable {parse : Bytes → ParseStatus}

/-- No bytes at all. -/
def empty : FinalResponse parse where
  bytes := []
  final := fun _ hpart _ => List.prefix_nil.mp hpart

end FinalResponse

/-! ## lines -/

/-- What is behind a connection: a closed socket, or an open one, with the bytes that are
outstanding; a line that is not live gets no further request to the endpoint. -/
inductive Line where
  | closed
  | open (isLive : Bool) (outstanding : List Tagged)
deriving DecidableEq, Repr

namespace Line

/-- A new socket. -/
def fresh : Line := .open true []

/-- The bytes that are unread or still to arrive. -/
def outstanding : Line → List Tagged
  | closed => []
  | .open _ out => out

/-- `send_all` of `size` bytes that are a request with this answer. -/
def send (size : Nat) (answer : List Tagged) : Line → Answer → Option Line
  | .open isLive out, .ok => some (.open isLive (out ++ if isLive then answer else []))
  | .open isLive out, .cut n _ =>
      some (.open false (out ++ if isLive && size ≤ n then answer else []))
  | l, .raise _ => some l
  | _, _ => none

/-- Waiting for data and `recv`: what is left on the line, and what was taken.  At the end
of the stream, or when the connection is lost, nothing more will come. -/
def recv : Line → Answer → Option (Line × List Tagged)
  | l, .notReady => some (l, [])
  | l, .raise .other => some (l, [])
  | .open _ _, .raise _ => some (.open false [], [])
  | .open _ _, .data [] => some (.open false [], [])
  | .open isLive out, .data bytes =>
      if (out.take bytes.length).map Prod.snd = bytes then
        some (.open isLive (out.drop bytes.length), out.take bytes.length)
      else none
  | _, _ => none

end Line

/-! ## the system -/

/-- The connection of the handler. -/
def Run.connection (r : Run) : Option ConnId := r.handler.bind EndpointConnectionHandler.connection

/-- The connection that a run has, also before it has a handler. -/
def Run.holds (r : Run) : Option ConnId :=
  match r.pc with
  | .busyAdd c _ => some c
  | _ => r.connection

/-- The runs and the pool that they share.  `established` counts the connections made so
far; `closing` are those that the closing thread has taken; `response` is the endpoint's
response to the request of each run, and `piece` what the run has last taken off its line. -/
structure Workers (env : ProxyEnv) where
  pool : EndpointConnectionPool := {}
  established : Nat := 0
  closing : List ConnId := []
  closingThreadEnded : Bool := false
  lines : ConnId → Line := fun _ => .closed
  runs : RunId → Run := fun _ => {}
  response : RunId → FinalResponse env.parse := fun _ => .empty
  piece : RunId → List Tagged := fun _ => []

namespace Workers

variable {env : ProxyEnv} (s : Workers env) (w : RunId)

/-- Replace the line of a connection. -/
def setLine (c : ConnId) (l : Line) : Workers env :=
  { s with lines := Function.update s.lines c l }

/-- Replace a run. -/
def setRun (r : Run) : Workers env := { s with runs := Function.update s.runs w r }

/-! ## what a call does -/

/-- `get_connection`, up to the second section of `get`: there may be no pool to pick. -/
def getIdle (a : Answer) : Option (Workers env) :=
  match a, s.pool.getIdle false with
  | .raise _, _ => some s
  | .noIdle, .ok none pool => some { s with pool }
  | .connection c, .ok (some c') pool => if c = c' then some { s with pool } else none
  | _, _ => none

/-- `EndpointConnection(self.endpoint)`. -/
def connect (now : Int) : Answer → Option (Workers env)
  | .connection c =>
      if c = s.established then
        some { s with
          established := s.established + 1
          pool := s.pool.established c now
          lines := Function.update s.lines c .fresh }
      else none
  | .raise _ => some { s with pool := s.pool.notEstablished now }
  | _ => none

/-- `send_request`: the request may be no bytes at all. -/
def send (response : FinalResponse env.parse) (a : Answer) : Option (Workers env) :=
  (s.runs w).handler.bind fun handler => handler.connection.bind fun c =>
    match handler.sender.request (s.runs w).req with
    | .raise _ _ => some s
    | .ok bytes _ =>
        ((s.lines c).send bytes.length (tag w response.bytes) a).map fun l =>
          { s.setLine c l with response := Function.update s.response w response }

/-- `reconnect()` closes the socket before it makes another one. -/
def reconnect (a : Answer) : Option (Workers env) :=
  (s.runs w).connection.map fun c => s.setLine c (if a = .ok then .fresh else .closed)

/-- `busy_connections.remove`, in `handle_broken_connection`. -/
def busyRemove (a : Answer) : Option (Workers env) :=
  (s.runs w).connection.bind fun c =>
    match a, s.pool.busyRemove c with
    | .ok, .ok _ pool => some { s with pool }
    | .raise _, .raise _ pool => some { s with pool }
    | _, _ => none

/-- The rest of `handle_broken_connection`. -/
def scheduleBroken (now : Int) : Option (Workers env) :=
  (s.runs w).handler.bind fun handler => handler.connection.map fun c =>
    { s with pool := s.pool.scheduleBroken c handler.isNewConnection now }

/-- `is_ready_read` and `recv`. -/
def recv (a : Answer) : Option (Workers env) :=
  (s.runs w).connection.bind fun c => ((s.lines c).recv a).map fun taken =>
    { s.setLine c taken.1 with piece := Function.update s.piece w taken.2 }

/-- `close()`. -/
def closeConnection : Workers env :=
  match (s.runs w).connection with
  | none => s
  | some c => s.setLine c .closed

/-- `put(self.connection)`, in `release()`. -/
def put (now : Int) (a : Answer) : Option (Workers env) :=
  match (s.runs w).connection with
  | none => some s
  | some c =>
      match a, s.pool.put c now with
      | .ok, .ok _ pool => some { s with pool }
      | .raise _, .raise _ pool => some { s with pool }
      | _, _ => none

/-- What the call that the run stands at does, if it can end so. -/
def effect (now : Int) (response : FinalResponse env.parse) (a : Answer) : Option (Workers env) :=
  match (s.runs w).pc with
  | .getIdle => s.getIdle a
  | .connect => s.connect now a
  | .busyAdd c _ => some { s with pool := s.pool.busyAdd c }
  | .sendRequest => s.send w response a
  | .sendAgain => s.send w response a
  | .reconnect => s.reconnect w a
  | .busyRemove => s.busyRemove w a
  | .scheduleBroken => s.scheduleBroken w now
  | .recv => s.recv w a
  | .closeConnection => some (s.closeConnection w)
  | .release _ => s.put w now a
  | .del => s.put w now a
  | _ => some s

/-- A call of a run, with the time, the endpoint's response to a request and the answer;
what the administrator and the threads of the pool do; or a `close()` of the closing
thread. -/
inductive Label (env : ProxyEnv) where
  | run (w : RunId) (now : Int) (response : FinalResponse env.parse) (a : Answer)
  | disable
  | outOfSync
  | activate
  | close
  | cleanupPass (now : Int)
  | closeQueueGet
  | closeLine (c : ConnId)

/-- One step. -/
def step (cfg : PoolConfig) (s : Workers env) : Label env → Option (Workers env)
  | .run w now response a =>
      (s.effect w now response a).bind fun s' =>
        ((s.runs w).step env a).map fun r => s'.setRun w r
  | .disable => some { s with pool := s.pool.disable.state }
  | .outOfSync => some { s with pool := s.pool.outOfSync.state }
  | .activate => some { s with pool := s.pool.activate.state }
  | .close => some { s with pool := s.pool.close.state }
  | .cleanupPass now => some { s with pool := (s.pool.cleanupPass cfg now).state }
  | .closeQueueGet =>
      if s.closingThreadEnded then none
      else s.pool.closeQueueGet.map fun
        | (none, pool) => { s with pool, closingThreadEnded := true }
        | (some c, pool) => { s with pool, closing := c :: s.closing }
  | .closeLine c =>
      if c ∈ s.closing then some { s.setLine c .closed with closing := s.closing.erase c } else none

end Workers

end Web3Proxy
