import Web3Proxy.HandleClient
import Web3Proxy.Lib.Trans

/-!
# Web3Proxy.EndpointConnectionHandler

The methods of `EndpointConnectionHandler` (`endpoint_connection_handler.py`), with what is
below them: `RequestSender.send_request` (`sender.py`), `BaseSocket.send_all`
(`basesocket.py`), `EndpointConnection.reconnect` (`endpointconnection.py`).

`Web3Proxy.HandleClient` has the same methods cut into the calls of one run.  Here a method is
one function of the outcomes of the calls below it, so that a handler can be taken through any
sequence of them.  The methods of the pool return.
-/

namespace Web3Proxy

open Py Bytes Trans

/-! ## outcomes -/

/-- What the transport does with a write: it accepts all of it, or fails after `n` bytes. -/
inductive WriteOutcome where
  | accepted
  | failed (n : Nat) (e : SocketError)
deriving DecidableEq, Repr

/-- What `send_request` meets: `is_ready_write` raises, or there is a write. -/
inductive SendOutcome where
  | notReady (e : SocketError)
  | write (w : WriteOutcome)
deriving DecidableEq, Repr

/-- What one call of `send` meets: the outcome of `send_request`, then of `reconnect`, then of
`send_request` again. -/
structure SendOutcomes where
  first : SendOutcome
  reconnects : Bool
  again : SendOutcome
deriving DecidableEq, Repr

/-- How `recv_response` ends: normally, with a `ConnectionClosedError`, or with an exception of
the socket, the parser or the callback. -/
inductive RecvOutcome where
  | returned
  | connectionClosed
  | raised (e : SocketError)
deriving DecidableEq, Repr

/-- What the methods of the handler raise.  `brokenFreshConnection` and `reconnect` are
subclasses of `brokenConnection`; `other` is an exception from below. -/
inductive HandlerError where
  | connectionReleased
  | brokenConnection
  | brokenFreshConnection
  | reconnect
  | other
deriving DecidableEq, Repr

/-- `isinstance(e, BrokenConnectionError)`. -/
def HandlerError.isBrokenConnection : HandlerError → Bool
  | .brokenConnection | .brokenFreshConnection | .reconnect => true
  | .connectionReleased | .other => false

/-- What a handler does to the connection and to the pool. -/
inductive HandlerEvent where
  | write (socket : Nat) (data : Bytes) (w : WriteOutcome)
  | reconnect (succeeds : Bool)
  | recvResponse
  | close
  | put (c : ConnId)
  | handleBrokenConnection (c : ConnId) (isNew : Bool)
deriving DecidableEq, Repr

/-- The event gives the connection back to the pool. -/
def HandlerEvent.givesBack : HandlerEvent → Option ConnId
  | .put c | .handleBrokenConnection c _ => some c
  | _ => none

/-- `BaseSocket.send_all(data)`, which keeps a `BrokenPipeError` to itself. -/
def BaseSocket.sendAll : WriteOutcome → Except SocketError Unit
  | .accepted => .ok ()
  | .failed _ .brokenPipe => .ok ()
  | .failed _ e => .error e

/-! ## the methods -/

/-- A handler, the number of the socket that its connection has (a new one each time it
reconnects), and what the handler has done. -/
structure HandlerState where
  handler : EndpointConnectionHandler
  socket : Nat := 0
  events : List HandlerEvent := []
deriving DecidableEq, Repr

namespace HandlerState

variable (s : HandlerState)

/-- Something has been done. -/
def log (e : HandlerEvent) : HandlerState := { s with events := s.events ++ [e] }

/-- `self.is_reconnect_forbidden = True`. -/
def forbidReconnect : HandlerState :=
  { s with handler := { s.handler with isReconnectForbidden := true } }

/-- `self.connection = None`. -/
def disconnect : HandlerState := { s with handler := { s.handler with connection := none } }

/-- `self.connection.req_sender.send_request(req)`; `none` where it raises. -/
def sendRequest (req : RPCRequest) (o : SendOutcome) : Option Bytes × HandlerState :=
  match s.handler.sender.request req with
  | .raise _ _ => (none, s)
  | .ok bytes _ =>
      match o with
      | .notReady _ => (none, s)
      | .write w =>
          match BaseSocket.sendAll w with
          | .ok _ => (some bytes, s.log (.write s.socket bytes w))
          | .error _ => (none, s.log (.write s.socket bytes w))

/-- `self.connection.reconnect()`: the connection gets another socket, unless closing its
socket or creating the other one raises. -/
def reconnect (succeeds : Bool) : HandlerState :=
  if succeeds then { s.log (.reconnect true) with socket := s.socket + 1 }
  else s.log (.reconnect false)

/-- `__handle_broken_connection()`. -/
def handleBrokenConnection (c : ConnId) : HandlerState :=
  (s.log (.handleBrokenConnection c s.handler.isNewConnection)).disconnect

/-- `send` after the first `send_request` has raised. -/
def sendFailed (c : ConnId) (req : RPCRequest) (o : SendOutcomes) :
    Except HandlerError Bytes × HandlerState :=
  if s.handler.isReconnectForbidden then
    (.error .brokenFreshConnection, s.handleBrokenConnection c)
  else if o.reconnects then
    match (s.reconnect true).sendRequest req o.again with
    | (some bytes, s) => (.ok bytes, s)
    | (none, s) => (.error .brokenConnection, s.handleBrokenConnection c)
  else (.error .reconnect, (s.reconnect false).handleBrokenConnection c)

/-- `send(req)`. -/
def send (req : RPCRequest) (o : SendOutcomes) : Except HandlerError Bytes × HandlerState :=
  match s.handler.connection with
  | none => (.error .connectionReleased, s)
  | some c =>
      match s.sendRequest req o.first with
      | (some bytes, s) => (.ok bytes, s.forbidReconnect)
      | (none, s) => s.sendFailed c req o

/-- `receive(callback)`. -/
def receive (o : RecvOutcome) : Except HandlerError Unit × HandlerState :=
  match s.handler.connection with
  | none => (.error .connectionReleased, s)
  | some _ =>
      (match o with
        | .returned => .ok ()
        | .connectionClosed => .error .brokenConnection
        | .raised .other => .error .other
        | .raised _ => .error .brokenConnection, s.log .recvResponse)

/-- `release()`. -/
def release : HandlerState :=
  match s.handler.connection with
  | none => s
  | some c => (s.log (.put c)).disconnect

/-- `close()`, where `self.connection.close()` may raise. -/
def close (raises : Bool) : Except HandlerError Unit × HandlerState :=
  match s.handler.connection with
  | none => (.ok (), s)
  | some _ => (if raises then .error .other else .ok (), s.log .close)

/-- `__del__()`. -/
def del : HandlerState := s.release

end HandlerState

/-! ## sequences of calls -/

/-- A call of one of the methods, with the outcomes of the calls below it. -/
inductive HandlerCall where
  | send (req : RPCRequest) (o : SendOutcomes)
  | receive (o : RecvOutcome)
  | release
  | close (raises : Bool)
  | del
deriving DecidableEq, Repr

/-- What a call has come to. -/
structure CallRecord where
  call : HandlerCall
  result : Except HandlerError Unit
  events : List HandlerEvent

/-- A call, and what it comes to; what has been done before is forgotten. -/
def HandlerState.perform (s : HandlerState) (call : HandlerCall) :
    Except HandlerError Unit × HandlerState :=
  let s := { s with events := [] }
  match call with
  | .send req o => ((s.send req o).1.map fun _ => (), (s.send req o).2)
  | .receive o => s.receive o
  | .release => (.ok (), s.release)
  | .close raises => s.close raises
  | .del => (.ok (), s.del)

/-- A handler and the calls it has seen. -/
structure HandlerSession where
  state : HandlerState
  history : List CallRecord := []

namespace HandlerSession

/-- `EndpointConnectionHandler(connection, connection_pool, is_new_connection)`. -/
def init (c : ConnId) (isNew : Bool) (sender : RequestSender) : HandlerSession where
  state :=
    { handler :=
        { connection := some c
          isNewConnection := isNew
          isReconnectForbidden := isNew
          sender := sender } }

variable (s : HandlerSession)

/-- What a call comes to. -/
def record (call : HandlerCall) : CallRecord where
  call := call
  result := (s.state.perform call).1
  events := (s.state.perform call).2.events

/-- The next call. -/
def next (call : HandlerCall) : HandlerSession where
  state := (s.state.perform call).2
  history := s.history ++ [s.record call]

/-- A call is always possible. -/
def step (call : HandlerCall) : Option HandlerSession := some (s.next call)

end HandlerSession

end Web3Proxy
