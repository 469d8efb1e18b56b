import Web3Proxy.EndpointConnectionPool
import Web3Proxy.RequestReader

/-!
# Web3Proxy.HandleClient

One run of `handle_client` (`proxy.py`), with the methods of the endpoint connection
handler (`endpoint_connection_handler.py`) and of the response receiver
(`receiver.py`) that it calls.

A `Run` stands at a call to the outside: a read, a send, a method of the pool.
`step` takes the `Answer` of that call and goes on to the next one, as the code
does; what the code would raise goes where the code would handle it.  Nothing is
assumed here of the answers.
-/

namespace Web3Proxy

open Py Bytes

/-! ## the objects of a run -/

/-- `EndpointConnectionHandler`, with the sender of its connection. -/
structure EndpointConnectionHandler where
  connection : Option ConnId
  isNewConnection : Bool
  isReconnectForbidden : Bool
  sender : RequestSender
deriving DecidableEq, Repr

/-- The client's connection, as far as a run decides about it: with this run, waiting
for a further request, or closed. -/
inductive ClientStatus where
  | inUse
  | pending
  | closed
deriving DecidableEq, Repr

/-- How a call on a socket fails: a `BrokenPipeError`, another `ConnectionError`, or
another exception. -/
inductive SocketError where
  | brokenPipe
  | connection
  | other
deriving DecidableEq, Repr

/-- What `HttpResponseParser` has to say of the bytes fed to it: that the message goes
on, that it is complete, or an exception. -/
inductive ParseStatus where
  | incomplete
  | complete
  | error
deriving DecidableEq, Repr

/-- The answer of a call.  `cut n e` is a send that fails with `e` after `n` bytes. -/
inductive Answer where
  | ok
  | read (outcome : ReadOutcome)
  | connection (c : ConnId)
  | noIdle
  | data (bytes : Bytes)
  | notReady
  | cut (n : Nat) (e : SocketError)
  | raise (e : SocketError)
deriving DecidableEq, Repr

/-- What `handle_client` does once the client's connection has been seen to. -/
inductive After where
  | ret
  | close
  | release
deriving DecidableEq, Repr

/-- The call that a run stands at. -/
inductive Pc where
  | readRequest
  | reply (raw : Bytes) (keepAlive : Bool) (next : After)
  | manage (keepAlive : Bool) (next : After)
  | modify (next : After)
  | getIdle
  | connect
  | busyAdd (c : ConnId) (isNew : Bool)
  | sendRequest
  | reconnect
  | sendAgain
  | busyRemove
  | scheduleBroken
  | recv
  | respond (data : Bytes) (complete : Bool)
  | recordResponse (complete : Bool)
  | recordRequest
  | closeConnection
  | closeClient
  | release (inExcept : Bool)
  | del
  | done
deriving DecidableEq, Repr

/-- Where `handle_client` goes on. -/
def After.pc : After → Pc
  | .ret => .del
  | .close => .closeConnection
  | .release => .release false

/-- What the runs share and do not change: the date, the senders of the connections
and the response parser. -/
structure ProxyEnv where
  now : String
  sender : ConnId → RequestSender
  parse : Bytes → ParseStatus

/-- A run.  `received` is what the response parser has been fed, `toClient` what has
been sent to the client, `written` the arguments of `send_all` to the endpoint. -/
structure Run where
  pc : Pc := .readRequest
  req : RPCRequest := {}
  handler : Option EndpointConnectionHandler := none
  addCors : Bool := false
  received : Bytes := []
  client : ClientStatus := .inUse
  toClient : Bytes := []
  written : List Bytes := []
deriving DecidableEq, Repr

/-- `res.replace(b"\r\n", b"\r\nAccess-Control-Allow-Origin: " + origin + b"\r\n", 1)`. -/
def insertCors (origin : Bytes) : Bytes → Bytes
  | [] => []
  | 13 :: 10 :: rest => crlf ++ str "Access-Control-Allow-Origin: " ++ origin ++ crlf ++ rest
  | b :: rest => b :: insertCors origin rest

namespace Run

variable (r : Run)

/-! ## the parts of handle_client -/

/-- The outer `except`. -/
def except : Run := { r with pc := .closeClient }

/-- `cs.send_all(ErrorResponses.connection_error(req.id))`, and what follows.  An id that
cannot be encoded makes this raise: a `send_all` that fails at once. -/
def connectionError (env : ProxyEnv) (next : After) : Run :=
  { r with
    pc := .reply (ErrorResponses.connectionError env.now r.req.id) r.req.keepAlive next }

/-- After `read_request`. -/
def afterRead : ReadOutcome → Run
  | .drop => { r with pc := .manage false .ret }
  | .failure err req => { r with pc := .reply err req.keepAlive .ret }
  | .raise _ => r.except
  | .success req =>
      if req.httpMethod = some (str "OPTIONS") then
        { r with req, pc := .reply OptionsResponses.optionsResponse req.keepAlive .ret }
      else { r with req, pc := .getIdle }

/-- `cs.send_all(raw)`: `send_all` keeps a `BrokenPipeError` to itself. -/
def sendClient (raw : Bytes) (next : Run → Run) (onError : SocketError → Run → Run) :
    Answer → Option Run
  | .ok => some (next { r with toClient := r.toClient ++ raw })
  | .cut n e =>
      let r := { r with toClient := r.toClient ++ raw.take n }
      some (if e = .brokenPipe then next r else onError e r)
  | _ => none

/-- A call that returns nothing of interest. -/
def simply (next onError : Run) : Answer → Option Run
  | .ok => some next
  | .raise _ => some onError
  | _ => none

/-- Where nothing is called after all. -/
def silently (next : Run) : Answer → Option Run
  | .ok => some next
  | _ => none

/-! ## EndpointConnectionHandler -/

/-- `self.connection = None`. -/
def disconnect : Run :=
  { r with handler := r.handler.map fun handler => { handler with connection := none } }

/-- The `except` of the first `send_request` in `send`. -/
def sendFailed : Run :=
  if (r.handler.map EndpointConnectionHandler.isReconnectForbidden).getD true then
    { r with pc := .busyRemove }
  else { r with pc := .reconnect }

/-- `send` returns; `handle_client` makes the response handler and calls `receive`. -/
def sent : Run :=
  { r with pc := .recv, addCors := r.req.corsOrigin.isSome, received := [] }

/-- `self.connection.req_sender.send_request(req)`. -/
def send (onError : Run → Run) (a : Answer) : Option Run :=
  match r.handler with
  | none => none
  | some handler =>
      match handler.sender.request r.req with
      | .raise _ req => silently (onError { r with req }) a
      | .ok bytes req =>
          let r := { r with req }
          let written := { r with written := r.written ++ [bytes] }
          match a with
          | .ok => some written.sent
          | .cut _ e => some (if e = .brokenPipe then written.sent else onError written)
          | .raise _ => some (onError r)
          | _ => none

/-- `receive` raises `BrokenConnectionError`. -/
def receiveFailed (env : ProxyEnv) : Run := r.connectionError env .close

/-- An exception out of `recv_response`. -/
def receiveRaised (env : ProxyEnv) (e : SocketError) (r : Run) : Run :=
  if e = .other then r.except else r.receiveFailed env

/-- The loop of `recv_response`, after a piece has been handed on. -/
def afterPiece (complete : Bool) : Run :=
  { r with pc := if complete then .recordRequest else .recv }

/-- `recv` and `feed_data`. -/
def recv (env : ProxyEnv) : Answer → Option Run
  | .notReady => some (r.receiveFailed env)
  | .raise e => some (receiveRaised env e r)
  | .data bytes =>
      if bytes = [] then some (r.receiveFailed env)
      else
        let r := { r with received := r.received ++ bytes }
        match env.parse r.received with
        | .error => some r.except
        | .incomplete => some { r with pc := .respond bytes false }
        | .complete => some { r with pc := .respond bytes true }
  | _ => none

/-- The first part of `response_handler`. -/
def respond (env : ProxyEnv) (data : Bytes) (complete : Bool) (a : Answer) : Option Run :=
  if r.client = .closed then silently (r.afterPiece complete) a
  else
    let res := if r.addCors then insertCors (r.req.corsOrigin.getD []) data else data
    { r with addCors := false }.sendClient res
      (fun r => { r with pc := .recordResponse complete }) (receiveRaised env) a

/-- `release()`; `put` is called if there is a connection. -/
def release (next onError : Run → Run) (a : Answer) : Option Run :=
  match r.handler.bind EndpointConnectionHandler.connection with
  | none => silently (next r) a
  | some _ => simply (next r.disconnect) (onError r) a

/-! ## one call -/

/-- One call of the run, with its answer; `none` where the call has no such answer. -/
def step (env : ProxyEnv) (a : Answer) : Option Run :=
  match r.pc with
  | .readRequest => match a with
      | .read outcome => some (r.afterRead outcome)
      | _ => none
  | .reply raw keepAlive next =>
      r.sendClient raw (fun r => { r with pc := .manage keepAlive next }) (fun _ r => r.except) a
  | .manage true next => simply { r with client := .pending, pc := .modify next } r.except a
  | .manage false next => simply { r with client := .closed, pc := next.pc } r.except a
  | .modify next => simply { r with pc := next.pc } r.except a
  | .getIdle => match a with
      | .connection c => some { r with pc := .busyAdd c false }
      | .noIdle => some { r with pc := .connect }
      | .raise _ => some (r.connectionError env .ret)
      | _ => none
  | .connect => match a with
      | .connection c => some { r with pc := .busyAdd c true }
      | .raise _ => some (r.connectionError env .ret)
      | _ => none
  | .busyAdd c isNew => match a with
      | .ok =>
          some { r with
            pc := .sendRequest
            handler := some
              { connection := some c
                isNewConnection := isNew
                isReconnectForbidden := isNew
                sender := env.sender c } }
      | _ => none
  | .sendRequest => r.send sendFailed a
  | .reconnect => simply { r with pc := .sendAgain } { r with pc := .busyRemove } a
  | .sendAgain => r.send (fun r => { r with pc := .busyRemove }) a
  | .busyRemove => simply { r with pc := .scheduleBroken } r.except a
  | .scheduleBroken => match a with
      | .ok => some (r.disconnect.connectionError env .close)
      | _ => none
  | .recv => r.recv env a
  | .respond data complete => r.respond env data complete a
  | .recordResponse complete => match a with
      | .ok => some (r.afterPiece complete)
      | .raise e => some (receiveRaised env e r)
      | _ => none
  | .recordRequest => simply { r with pc := .manage r.req.keepAlive .release } r.except a
  | .closeConnection => simply { r with pc := .del } r.except a
  | .closeClient =>
      simply { r with client := .closed, pc := .release true } { r with pc := .del } a
  | .release inExcept =>
      r.release (fun r => { r with pc := .del })
        (fun r => if inExcept then { r with pc := .del } else r.except) a
  | .del => r.release (fun r => { r with pc := .done }) (fun r => { r with pc := .done }) a
  | .done => none

end Run

end Web3Proxy
