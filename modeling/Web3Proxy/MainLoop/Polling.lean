import Web3Proxy.Lib.Census
import Web3Proxy.MainLoop

/-!
# Web3Proxy.MainLoop.Polling

The threads that share the clients' sockets: the main loop, the runs of `handle_client` in
the executor and `closing_cs`, with the descriptors of the process and the poller.

Each client socket is registered with `EPOLLONESHOT`: an event of the socket disarms it,
and no other comes until `modify` arms it again.  Whether a socket is armed is written
nowhere in the program; it is to follow from what the threads have done.

A step is one statement of one thread.
-/

namespace Web3Proxy

open Py Trans

/-! ## the descriptors and the poller -/

/-- The socket that is open under a descriptor, and what the poller has of the descriptor:
`true` when it is armed, `false` when an event has disarmed it. -/
structure Descriptors where
  files : Int → Option Nat := fun _ => none
  interest : Int → Option Bool := fun _ => none

namespace Descriptors

variable (d : Descriptors)

/-- The socket has not been closed. -/
def isOpen (cs : ClientSocket) : Bool := d.files cs.fd = some cs.socket

/-- Assign to what the poller has of a descriptor. -/
def setInterest (fd : Int) (armed : Option Bool) : Descriptors :=
  { d with interest := Function.update d.interest fd armed }

/-- `accept()` of the system: the socket gets a descriptor that is free. -/
def accept (cs : ClientSocket) : Descriptors :=
  { d with files := Function.update d.files cs.fd (some cs.socket) }

/-- `client_poller.register(cs.socket, POLLIN | EPOLLONESHOT)`; `none` when it raises. -/
def register (cs : ClientSocket) : Option Descriptors :=
  if d.isOpen cs ∧ d.interest cs.fd = none then some (d.setInterest cs.fd (some true)) else none

/-- `client_poller.modify(cs.socket, POLLIN | EPOLLONESHOT)`. -/
def modify (cs : ClientSocket) : Option Descriptors :=
  if d.isOpen cs ∧ d.interest cs.fd ≠ none then some (d.setInterest cs.fd (some true)) else none

/-- `client_poller.unregister(cs.fd)`: the number, not the socket. -/
def unregister (fd : Int) : Option Descriptors :=
  if d.interest fd ≠ none then some (d.setInterest fd none) else none

/-- `cs.close()`; the system takes a closed file out of the poller. -/
def close (cs : ClientSocket) : Descriptors :=
  if d.isOpen cs then
    { files := Function.update d.files cs.fd none
      interest := Function.update d.interest cs.fd none }
  else d

/-- What `poll()` leaves of the descriptors that it reports. -/
def report (events : List Int) : Descriptors :=
  { d with interest := fun fd =>
      if fd ∈ events then (d.interest fd).map fun _ => false else d.interest fd }

end Descriptors

/-! ## the threads -/

/-- The statement that a run of `handle_client` stands at, as far as it concerns the
client's socket.  `caught` says that it is in the outer `except`. -/
inductive WorkerPc where
  | serving
  | modify
  | delCsInUse (caught : Bool)
  | unregister (caught : Bool)
  | close (caught : Bool)
  | disposed (caught : Bool)
  | raised
deriving DecidableEq, Repr

namespace WorkerPc

/-- The run has not disposed of the socket yet. -/
def isActive : WorkerPc → Bool
  | .disposed _ | .raised => false
  | _ => true

/-- The run has the socket in use. -/
def isServing : WorkerPc → Bool
  | .serving | .delCsInUse _ => true
  | _ => false

/-- Where an exception leads to. -/
def except : Bool → WorkerPc
  | false => .delCsInUse true
  | true => .raised

end WorkerPc

/-- A run of `handle_client`. -/
structure Worker where
  cs : ClientSocket
  pc : WorkerPc := .serving
deriving DecidableEq, Repr

/-- The statement that `closing_cs` stands at. -/
inductive CloserPc where
  | get
  | unregister (cs : ClientSocket)
  | close (cs : ClientSocket)
  | raised
deriving DecidableEq, Repr

/-- The socket that `closing_cs` has taken. -/
def CloserPc.cs : CloserPc → Option ClientSocket
  | .unregister cs | .close cs => some cs
  | _ => none

/-- The threads and what they share.  `registering` is the socket that the main loop has
put into the pool, and registers next. -/
structure Polling where
  loop : MainLoop := {}
  registering : Option ClientSocket := none
  descriptors : Descriptors := {}
  workers : List Worker := []
  closer : CloserPc := .get

namespace Polling

/-- A statement of the main loop; `poll`, with the descriptors of its events;
`accept_awaiting_connection`, with the socket it returns, if any; what a run decides to do
with its socket, or an exception in it; the next statement of the run; one of `closing_cs`. -/
inductive Label where
  | main
  | poll (events : List Int)
  | accept (cs : Option ClientSocket)
  | keepAlive (i : Nat)
  | giveUp (i : Nat)
  | fail (i : Nat)
  | work (i : Nat)
  | closingCs
deriving DecidableEq, Repr

variable (cfg : LoopConfig) (s : Polling)

/-- `client_poller.register`, after `add_cs_pending`. -/
def register (cs : ClientSocket) : Polling :=
  match s.descriptors.register cs with
  | some descriptors => { s with descriptors, registering := none }
  | none => { s with loop := { s.loop with pc := .raised .exception }, registering := none }

/-- The main loop goes on; a socket that it submits gets a run of `handle_client`. -/
def goOn (loop : MainLoop) : Polling :=
  { s with
    loop
    workers := s.workers ++ (loop.submitted.drop s.loop.submitted.length).map fun cs => { cs } }

/-- The branch of an event of the listening socket. -/
def accept (cs : Option ClientSocket) (rest : List Int) : Polling :=
  { s with
    loop := s.loop.accept cs rest
    registering := cs
    descriptors := (cs.map s.descriptors.accept).getD s.descriptors }

/-- A run goes on with its next statement. -/
def setPc (i : Nat) (w : Worker) (pc : WorkerPc) : Polling :=
  { s with workers := s.workers.set i { w with pc } }

/-- The pool after a call of a run. -/
def setPool (pool : ClientSocketPool) : Polling := { s with loop := { s.loop with pool } }

/-- `set_cs_pending(cs.fd)`, in the `try`. -/
def setCsPending (i : Nat) (w : Worker) : Polling :=
  match s.loop.pool.setCsPending w.cs.fd with
  | .ok _ pool => (s.setPool pool).setPc i w .modify
  | .raise _ pool => (s.setPool pool).setPc i w (.except false)

/-- The next statement of a run that has decided what to do with its socket.  An `OSError`
of `close` stays within `__close_client_socket`. -/
def work (i : Nat) (w : Worker) : Option Polling :=
  match w.pc with
  | .modify => match s.descriptors.modify w.cs with
      | some descriptors => some ({ s with descriptors }.setPc i w (.disposed false))
      | none => some (s.setPc i w (.except false))
  | .delCsInUse caught => match s.loop.pool.delCsInUse w.cs.fd with
      | .ok _ pool => some ((s.setPool pool).setPc i w (.unregister caught))
      | .raise _ pool => some ((s.setPool pool).setPc i w (.except caught))
  | .unregister caught => match s.descriptors.unregister w.cs.fd with
      | some descriptors => some ({ s with descriptors }.setPc i w (.close caught))
      | none => some (s.setPc i w (.except caught))
  | .close caught =>
      some ({ s with descriptors := s.descriptors.close w.cs }.setPc i w (.disposed caught))
  | .serving | .disposed _ | .raised => none

/-- The next statement of `closing_cs`. -/
def closingCs : Option Polling :=
  match s.closer, s.loop.queueCsForClose with
  | .get, [] => none
  | .get, cs :: queueCsForClose =>
      some { s with loop := { s.loop with queueCsForClose }, closer := .unregister cs }
  | .unregister cs, _ => match s.descriptors.unregister cs.fd with
      | some descriptors => some { s with descriptors, closer := .close cs }
      | none => some { s with closer := .raised }
  | .close cs, _ => some { s with descriptors := s.descriptors.close cs, closer := .get }
  | .raised, _ => none

/-- One step.  `poll` reports descriptors that are armed, and the listening socket. -/
def step : Label → Option Polling
  | .main => match s.registering with
      | some cs => some (s.register cs)
      | none => (s.loop.main cfg).map s.goOn
  | .poll events =>
      if events.Nodup ∧ ∀ fd ∈ events, fd = cfg.srvFd ∨ s.descriptors.interest fd = some true then
        (s.loop.step cfg (.poll events)).map fun loop =>
          { s with loop, descriptors := s.descriptors.report events }
      else none
  | .accept cs =>
      if s.registering = none ∧
          ∀ x ∈ cs, x.fd ≠ cfg.srvFd ∧ s.descriptors.files x.fd = none then
        match s.loop.pc with
        | .events (fd :: rest) => if fd = cfg.srvFd then some (s.accept cs rest) else none
        | _ => none
      else none
  | .keepAlive i => s.workers[i]?.bind fun w =>
      if w.pc = .serving then some (s.setCsPending i w) else none
  | .giveUp i => s.workers[i]?.bind fun w =>
      if w.pc = .serving then some (s.setPc i w (.delCsInUse false)) else none
  | .fail i => s.workers[i]?.bind fun w =>
      if w.pc = .serving ∨ w.pc = .disposed false then
        some (s.setPc i w (.except false))
      else none
  | .work i => s.workers[i]?.bind fun w => s.work i w
  | .closingCs => s.closingCs

/-! ## what is to hold -/

/-- Who is to deal with a socket. -/
inductive Place where
  | pool
  | worker
  | queue
  | closer
deriving DecidableEq, Repr

instance : Fintype Place where
  elems := {.pool, .worker, .queue, .closer}
  complete := fun l => by cases l <;> decide

/-- The socket is pending and will be dealt with: the poller can report it, or has reported
it and the loop has still to come to its event, or the loop is about to register it. -/
def Watched (cs : ClientSocket) : Prop :=
  s.loop.pool.status cs.fd = some (cs, false) ∧
    (s.descriptors.interest cs.fd = some true ∨ cs.fd ∈ s.loop.pc.rest ∨
      s.registering = some cs)

instance (cs : ClientSocket) : Decidable (s.Watched cs) := inferInstanceAs (Decidable (_ ∧ _))

/-- How often a socket is in the care of each. -/
def keepers : Place → ClientSocket → Nat
  | .pool, cs => if s.Watched cs then 1 else 0
  | .worker, cs => s.workers.countP fun w => w.cs = cs ∧ w.pc.isActive
  | .queue, cs => s.loop.queueCsForClose.count cs
  | .closer, cs => if s.closer.cs = some cs then 1 else 0

/-- No thread ends with an exception; each socket is in the care of one of them, once, as
long as it is open, and of none afterwards; and while a run has a socket in use, no event
of it can come. -/
structure Kept (s : Polling) : Prop where
  loop : s.loop.Survives
  closer : s.closer ≠ .raised
  workers : ∀ w ∈ s.workers, w.pc ≠ .raised
  once : ∀ cs, Census.total s.keepers cs = if s.descriptors.isOpen cs then 1 else 0
  disarmed : ∀ w ∈ s.workers, w.pc.isServing → s.descriptors.interest w.cs.fd = some false

/-- The socket at the tail of the list is a pending one that is armed. -/
def Evictable : Prop :=
  ∃ e, s.loop.pool.tail = some e ∧
    s.loop.pool.status (s.loop.pool.csOf e).fd = some (s.loop.pool.csOf e, false) ∧
    s.descriptors.interest (s.loop.pool.csOf e).fd = some true

/-- The poller has reported the pending socket of this descriptor. -/
def Reported (fd : Int) : Prop :=
  s.loop.pool.isPending fd = true ∧ s.descriptors.interest fd = some false

/-- What is not to happen: an accepted connection that is no socket; an eviction of anything
but a pending and armed socket; a `break` with events of reported sockets left; an event
that is handled when its descriptor has been armed again; and an exception in a run after
it has disposed of its socket. -/
def Careful : Label → Prop
  | .main => s.registering = none →
      match s.loop.pc with
      | .evict n => n > cfg.maxPendingClientSockets → s.Evictable
      | .events (fd :: rest) => fd ≠ cfg.srvFd → s.loop.pool.isPending fd = false →
          ∀ x ∈ rest, ¬ s.Reported x
      | .dispatch fd _ => s.descriptors.interest fd = some false
      | _ => True
  | .accept cs => cs ≠ none
  | .fail i => ∀ w, s.workers[i]? = some w → w.pc ≠ .disposed false
  | _ => True

end Polling

end Web3Proxy
