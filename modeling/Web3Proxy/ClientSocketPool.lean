import Mathlib.Logic.Function.Basic
import Web3Proxy.Lib.Py

/-!
# Web3Proxy.ClientSocketPool

The bookkeeping of client sockets (`client_socket_pool.py`): a dictionary from
file descriptor to entry, and a doubly linked list through the entries of the
pending sockets, from `head` (most recently pending) to `tail` (least
recently), with a counter.

Entries are mutable objects that the dictionary and the links share, so the
model has a heap of them; a reference is an `EntryId`.  Each operation is one
critical section of the pool's lock and is translated statement by statement,
with the exception it raises when its precondition does not hold.
-/

namespace Web3Proxy

open Py

/-- A `ClientSocket`: the file descriptor recorded when it was created, and the
socket object itself, of which only the identity matters here. -/
structure ClientSocket where
  fd : Int
  socket : Nat
deriving DecidableEq, Repr

/-- A reference to an entry. -/
abbrev EntryId := Nat

/-- `ClientSocketPoolEntry`; a fresh entry is pending and has no neighbours. -/
structure ClientSocketPoolEntry where
  cs : ClientSocket
  prev : Option EntryId := none
  next : Option EntryId := none
  inUse : Bool := false
deriving DecidableEq, Repr

/-- `ClientSocketPool`.  `heap` holds the entry objects, `fresh` is the next
unused reference. -/
structure ClientSocketPool where
  heap : EntryId → ClientSocketPoolEntry
  fresh : EntryId
  allClientConnections : Int → Option EntryId
  head : Option EntryId
  tail : Option EntryId
  size : Int

namespace ClientSocketPool

/-- The pool `ClientSocketPool()` creates. -/
def empty : ClientSocketPool where
  heap := fun _ => { cs := ⟨-1, 0⟩ }
  fresh := 0
  allClientConnections := fun _ => none
  head := none
  tail := none
  size := 0

variable (p : ClientSocketPool)

/-- Assign to fields of the entry object `e`. -/
def modifyEntry (e : EntryId) (f : ClientSocketPoolEntry → ClientSocketPoolEntry) :
    ClientSocketPool :=
  { p with heap := Function.update p.heap e (f (p.heap e)) }

/-- The lines that `add_cs_pending` and `set_cs_pending` end with: link `entry`
in at the head and count it. -/
def linkAtHead (entry : EntryId) : ClientSocketPool :=
  let p' := match p.head with
    | none => { p with tail := some entry }
    | some h => p.modifyEntry h fun x => { x with prev := some entry }
  { p' with head := some entry, size := p'.size + 1 }

/-- `add_cs_pending(cs)`: a new entry, pending. -/
def addCsPending (cs : ClientSocket) : Result ClientSocketPool Unit :=
  let entry := p.fresh
  let p' := { p with
    heap := Function.update p.heap entry { cs }
    fresh := p.fresh + 1
    allClientConnections := Function.update p.allClientConnections cs.fd (some entry) }
  .ok () (p'.linkAtHead entry)

/-- `is_in_use(fd)`. -/
def isInUse (fd : Int) : Result ClientSocketPool Bool :=
  match p.allClientConnections fd with
  | none => .raise .keyError p
  | some entry => .ok (p.heap entry).inUse p

/-- The lines of `get_cs_and_set_in_use` between the lookup and the `return`:
mark the entry and take it off the list.  Four cases on which neighbours it
has, which decide whether it is the only one, the head, the tail or in the
middle. -/
def unlink (entry : EntryId) : ClientSocketPool :=
  let p := p.modifyEntry entry fun x => { x with inUse := true }
  let p' := match (p.heap entry).prev, (p.heap entry).next with
    | none, none => { p with head := none, tail := none }
    | none, some n => { p with head := some n }.modifyEntry n fun x => { x with prev := none }
    | some q, none => { p with tail := some q }.modifyEntry q fun x => { x with next := none }
    | some q, some n =>
        (p.modifyEntry q fun x => { x with next := some n }).modifyEntry n
          fun x => { x with prev := some q }
  { p' with size := p'.size - 1 }

/-- `get_cs_and_set_in_use(fd)`. -/
def getCsAndSetInUse (fd : Int) : Result ClientSocketPool ClientSocket :=
  match p.allClientConnections fd with
  | none => .raise .keyError p
  | some entry => .ok ((p.unlink entry).heap entry).cs (p.unlink entry)

/-- `set_cs_pending(fd)`: the entry goes back to the head of the list. -/
def setCsPending (fd : Int) : Result ClientSocketPool Unit :=
  match p.allClientConnections fd with
  | none => .raise .keyError p
  | some entry =>
      let p' := p.modifyEntry entry fun x => { x with inUse := false, prev := none }
      .ok () (p'.linkAtHead entry)

/-- `del_cs_in_use(fd)`. -/
def delCsInUse (fd : Int) : Result ClientSocketPool Unit :=
  match p.allClientConnections fd with
  | none => .raise .keyError p
  | some _ =>
      .ok () { p with allClientConnections := Function.update p.allClientConnections fd none }

/-- `pop_cs_pending_from_tail()`.  With no tail, reading `tail_entry.prev`
raises; when the dictionary no longer has the socket, `del` raises after `tail`
and `size` have already been assigned. -/
def popCsPendingFromTail : Result ClientSocketPool ClientSocket :=
  match p.tail with
  | none => .raise .attributeError p
  | some tailEntry =>
      let cs := (p.heap tailEntry).cs
      let p' := { p with tail := (p.heap tailEntry).prev, size := p.size - 1 }
      match p'.allClientConnections cs.fd with
      | none => .raise .keyError p'
      | some _ =>
          .ok cs { p' with
            allClientConnections := Function.update p'.allClientConnections cs.fd none }

/-- `get_size()`. -/
def getSize : Int := p.size

/-! ## the operations as one alphabet -/

/-- The calls that change the pool. -/
inductive Op where
  | addCsPending (cs : ClientSocket)
  | getCsAndSetInUse (fd : Int)
  | setCsPending (fd : Int)
  | delCsInUse (fd : Int)
  | popCsPendingFromTail
deriving DecidableEq, Repr

/-- Call an operation; the value is the socket it returns, if it returns one. -/
def exec : Op → Result ClientSocketPool (Option ClientSocket)
  | .addCsPending cs => (p.addCsPending cs).map fun _ => none
  | .getCsAndSetInUse fd => (p.getCsAndSetInUse fd).map some
  | .setCsPending fd => (p.setCsPending fd).map fun _ => none
  | .delCsInUse fd => (p.delCsInUse fd).map fun _ => none
  | .popCsPendingFromTail => p.popCsPendingFromTail.map some

end ClientSocketPool

end Web3Proxy
