import Web3Proxy.EndpointConnectionPool
import Web3Proxy.Lib.Census
import Web3Proxy.Lib.Trans

/-!
# Web3Proxy.EndpointConnectionPool.Conservation

The pool under any interleaving of its callers and its two threads.  A
`System` is the pool with what the callers hold; a `Label` is one section of
code that runs without interruption, with what it reads from outside.

* `System.always_conserved` — wherever the steps are interleaved, every
  connection ever established is at exactly one place, a pool that is not
  active keeps no idle connection, and `get_nowait` never finds the idle queue
  empty.

`handle_broken_connection` takes no lock, so between its two statements a
connection is with that call only; this is a place of its own, next to the
connections that a `get` call holds between its two locked sections.
-/

namespace Web3Proxy

open Py Trans

namespace EndpointConnectionPool

/-! ## the system -/

/-- Where a connection can be. -/
inductive Place where
  | getCall
  | busy
  | idle
  | closeQueue
  | closingThread
  | brokenCall
deriving DecidableEq, Repr

instance : Fintype Place where
  elems := {.getCall, .busy, .idle, .closeQueue, .closingThread, .brokenCall}
  complete := fun l => by cases l <;> decide

/-- A pool and its callers.  `established` counts the connections created so
far, which are numbered from 0; `connecting` the `get` calls that found no idle
connection and are establishing one; `held` are the connections of the `get`
calls before their second locked section, `handlers` those of the live
handlers, `broken` those of the `handle_broken_connection` calls in progress,
`closing` those the closing thread has taken; `raised` are the exceptions the
calls ended with. -/
structure System where
  pool : EndpointConnectionPool := {}
  established : Nat := 0
  connecting : Nat := 0
  held : List ConnId := []
  handlers : List ConnId := []
  broken : List ConnId := []
  closing : List ConnId := []
  closingThreadEnded : Bool := false
  raised : List PyError := []

/-- One uninterrupted section of code: of `get` (`getIdle`, `connected` or
`connectFailed`, `busyAdd`), of `handle_broken_connection` (`busyRemove`,
`scheduleBroken`), of the closing thread (`closeQueueGet`), or a whole call. -/
inductive Label where
  | getIdle (outOfSync : Bool)
  | connected (now : Int)
  | connectFailed (now : Int)
  | busyAdd (c : ConnId)
  | put (c : ConnId) (now : Int)
  | busyRemove (c : ConnId)
  | scheduleBroken (c : ConnId) (isNew : Bool) (now : Int)
  | disable
  | outOfSync
  | activate
  | close
  | cleanupPass (now : Int)
  | closeQueueGet
deriving DecidableEq, Repr

namespace System

variable (s : System)

/-- A call leaves its pool behind, and goes on with its value or ends with an
exception. -/
def call {α : Type} (r : Result EndpointConnectionPool α) (k : System → α → System) : System :=
  match r with
  | .ok a p => k { s with pool := p } a
  | .raise e p => { s with pool := p, raised := e :: s.raised }

/-- One step.  A handler gives its connection back once, by `put` or by
`handle_broken_connection`, and is gone then. -/
def step (cfg : PoolConfig) : Label → Option System
  | .getIdle oos => some <| s.call (s.pool.getIdle oos) fun
      | s, none => { s with connecting := s.connecting + 1 }
      | s, some c => { s with held := c :: s.held }
  | .connected now =>
      if 0 < s.connecting then
        some { s with
          connecting := s.connecting - 1
          established := s.established + 1
          held := s.established :: s.held
          pool := s.pool.established s.established now }
      else none
  | .connectFailed now =>
      if 0 < s.connecting then
        some { s with
          connecting := s.connecting - 1
          pool := s.pool.notEstablished now
          raised := .exception :: s.raised }
      else none
  | .busyAdd c =>
      if c ∈ s.held then
        some { s with
          held := s.held.erase c, pool := s.pool.busyAdd c, handlers := c :: s.handlers }
      else none
  | .put c now =>
      if c ∈ s.handlers then
        some <| { s with handlers := s.handlers.erase c }.call (s.pool.put c now) fun s _ => s
      else none
  | .busyRemove c =>
      if c ∈ s.handlers then
        some <| { s with handlers := s.handlers.erase c }.call (s.pool.busyRemove c)
          fun s _ => { s with broken := c :: s.broken }
      else none
  | .scheduleBroken c isNew now =>
      if c ∈ s.broken then
        some { s with
          broken := s.broken.erase c, pool := s.pool.scheduleBroken c isNew now }
      else none
  | .disable => some <| s.call s.pool.disable fun s _ => s
  | .outOfSync => some <| s.call s.pool.outOfSync fun s _ => s
  | .activate => some <| s.call s.pool.activate fun s _ => s
  | .close => some <| s.call s.pool.close fun s _ => s
  | .cleanupPass now => some <| s.call (s.pool.cleanupPass cfg now) fun s _ => s
  | .closeQueueGet =>
      if s.closingThreadEnded then none
      else s.pool.closeQueueGet.map fun
        | (none, p) => { s with pool := p, closingThreadEnded := true }
        | (some c, p) => { s with pool := p, closing := c :: s.closing }

/-- How often a connection is at a place. -/
def count : Place → ConnId → Nat
  | .getCall, c => s.held.count c
  | .busy, c => if c ∈ s.pool.busyConnections then 1 else 0
  | .idle, c => s.pool.connections.count c
  | .closeQueue, c => s.pool.connectionCloseQueue.count (some c)
  | .closingThread, c => s.closing.count c
  | .brokenCall, c => s.broken.count c

/-- The connection is at the place. -/
def At (c : ConnId) (l : Place) : Prop := 0 < s.count l c

/-- The pool loses no connection and holds none twice. -/
structure Conserved (s : System) : Prop where
  /-- A connection that was ever established is at exactly one place. -/
  one_place : ∀ c < s.established, ∃! l, s.At c l
  /-- If no `handle_broken_connection` call is between its two statements, it is
  one of the other five. -/
  five_places : s.broken = [] → ∀ c < s.established, ∃! l, l ≠ .brokenCall ∧ s.At c l
  /-- No place has a connection twice, or one that was never established. -/
  once : ∀ l c, s.count l c ≤ if c < s.established then 1 else 0
  /-- A busy connection has exactly one live handler, and no other has any. -/
  one_handler : ∀ c, s.handlers.count c = if c ∈ s.pool.busyConnections then 1 else 0
  /-- A pool that is not active has no idle connection. -/
  idle_empty : s.pool.status ≠ .active → s.pool.connections = []
  /-- `get_nowait` was never called on the empty idle queue. -/
  no_empty_get : .queueEmpty ∉ s.raised

/-! ## the invariant -/

/-- What every step keeps. -/
structure Inv (s : System) : Prop where
  census : ∀ c, Census.total s.count c = if c < s.established then 1 else 0
  handlers : ∀ c, s.handlers.count c = s.count .busy c
  idle_empty : s.pool.status ≠ .active → s.pool.connections = []
  raised : ∀ e ∈ s.raised, e = .exception

/-- The census, place by place. -/
theorem total_count (c : ConnId) : Census.total s.count c =
    s.held.count c + ((if c ∈ s.pool.busyConnections then 1 else 0) +
      (s.pool.connections.count c + (s.pool.connectionCloseQueue.count (some c) +
        (s.closing.count c + s.broken.count c)))) := by
  simp [Census.total, Finset.univ, Fintype.elems, count]

theorem inv_init : Inv {} where
  census := fun _ => rfl
  handlers := fun _ => rfl
  idle_empty := fun _ => rfl
  raised := fun _ h => absurd h List.not_mem_nil

namespace Inv

variable {s : System}

/-- A connection is nowhere before it is established. -/
theorem fresh (h : s.Inv) (l : Place) : s.count l s.established = 0 :=
  Census.eq_zero_of_total_zero ((h.census s.established).trans (if_neg (Nat.lt_irrefl _))) l

/-- A connection with a live handler is busy. -/
theorem busy_of_handler (h : s.Inv) {c : ConnId} (hc : c ∈ s.handlers) :
    c ∈ s.pool.busyConnections := by
  have hpos := List.count_pos_iff.mpr hc
  rw [h.handlers c] at hpos
  by_contra hnb
  simp [count, hnb] at hpos

/-- A connection a `get` call holds is not busy. -/
theorem not_busy_of_held (h : s.Inv) {c : ConnId} (hc : c ∈ s.held) :
    c ∉ s.pool.busyConnections := by
  intro hb
  have hpos := List.count_pos_iff.mpr hc
  have hcen := h.census c
  rw [total_count, if_pos hb] at hcen
  split at hcen <;> omega

/-- The invariant says what the claim needs. -/
theorem conserved (h : s.Inv) : s.Conserved where
  one_place := fun c hc =>
    Census.existsUnique_of_total ((h.census c).trans (if_pos hc))
  five_places := by
    intro hb c hc
    obtain ⟨l, hl, huniq⟩ := Census.existsUnique_of_total ((h.census c).trans (if_pos hc))
    have hne : l ≠ .brokenCall := by
      rintro rfl
      simp [count, hb] at hl
    exact ⟨l, ⟨hne, hl⟩, fun m hm => huniq m hm.2⟩
  once := by
    intro l c
    have hcen := h.census c
    by_cases hc : c < s.established
    · rw [if_pos hc] at hcen ⊢
      exact Census.le_one_of_total hcen l
    · rw [if_neg hc] at hcen ⊢
      exact (Census.eq_zero_of_total_zero hcen l).le
  one_handler := h.handlers
  idle_empty := h.idle_empty
  no_empty_get := fun he => nomatch h.raised _ he

end Inv

/-! ## what a step does -/

/-- The pool has a new status and has scheduled its idle connections. -/
def suspended (s : System) (status : PoolStatus) : System :=
  { s with
    pool := { s.pool with
      status
      connections := []
      connectionCloseQueue := s.pool.connectionCloseQueue ++ s.pool.connections.map some
      stats := {} } }

/-- What a step does when every handler's connection is busy, case by case. -/
inductive Move (cfg : PoolConfig) (s : System) : Label → System → Prop
  | getRefused {oos : Bool} (hserves : ¬ s.pool.Serves oos) :
      Move cfg s (.getIdle oos) { s with raised := .exception :: s.raised }
  | getNone {oos : Bool} (hserves : s.pool.Serves oos) (hq : s.pool.connections = []) :
      Move cfg s (.getIdle oos) { s with connecting := s.connecting + 1 }
  | getIdle {oos : Bool} {c : ConnId} {q : List ConnId} (hserves : s.pool.Serves oos)
      (hq : s.pool.connections = c :: q) :
      Move cfg s (.getIdle oos) { s with
        pool := { s.pool with connections := q }
        held := c :: s.held }
  | connected {now : Int} (hconnecting : 0 < s.connecting) :
      Move cfg s (.connected now) { s with
        connecting := s.connecting - 1
        established := s.established + 1
        held := s.established :: s.held
        pool := s.pool.established s.established now }
  | connectFailed {now : Int} (hconnecting : 0 < s.connecting) :
      Move cfg s (.connectFailed now) { s with
        connecting := s.connecting - 1
        pool := s.pool.notEstablished now
        raised := .exception :: s.raised }
  | busyAdd {c : ConnId} (hc : c ∈ s.held) :
      Move cfg s (.busyAdd c) { s with
        held := s.held.erase c
        pool := { s.pool with busyConnections := insert c s.pool.busyConnections }
        handlers := c :: s.handlers }
  | putIdle {c : ConnId} {now : Int} (hc : c ∈ s.handlers) (hb : c ∈ s.pool.busyConnections)
      (hactive : s.pool.status = .active) :
      Move cfg s (.put c now) { s with
        handlers := s.handlers.erase c
        pool := { s.pool with
          busyConnections := s.pool.busyConnections.erase c
          stats := s.pool.stats.registerSuccessfulConnection now
          connections := s.pool.connections ++ [c]
          lastUseTimestamp := Function.update s.pool.lastUseTimestamp c now } }
  | putClose {c : ConnId} {now : Int} (hc : c ∈ s.handlers) (hb : c ∈ s.pool.busyConnections)
      (hactive : s.pool.status ≠ .active) :
      Move cfg s (.put c now) { s with
        handlers := s.handlers.erase c
        pool := { s.pool with
          busyConnections := s.pool.busyConnections.erase c
          connectionCloseQueue := s.pool.connectionCloseQueue ++
            some c :: if s.pool.lastToClose c then [none] else []
          status := if s.pool.lastToClose c then .closed else s.pool.status } }
  | busyRemove {c : ConnId} (hc : c ∈ s.handlers) (hb : c ∈ s.pool.busyConnections) :
      Move cfg s (.busyRemove c) { s with
        handlers := s.handlers.erase c
        pool := { s.pool with busyConnections := s.pool.busyConnections.erase c }
        broken := c :: s.broken }
  | scheduleBroken {c : ConnId} {isNew : Bool} {now : Int} (hc : c ∈ s.broken) :
      Move cfg s (.scheduleBroken c isNew now) { s with
        broken := s.broken.erase c
        pool := { s.pool with
          connectionCloseQueue := s.pool.connectionCloseQueue ++ [some c]
          stats := (s.pool.scheduleBroken c isNew now).stats } }
  | disableRefused (hclosed : s.pool.status = .closed ∨ s.pool.status = .closing) :
      Move cfg s .disable { s with raised := .exception :: s.raised }
  | outOfSyncRefused (hclosed : s.pool.status = .closed ∨ s.pool.status = .closing) :
      Move cfg s .outOfSync { s with raised := .exception :: s.raised }
  | activateRefused (hclosed : s.pool.status = .closed ∨ s.pool.status = .closing) :
      Move cfg s .activate { s with raised := .exception :: s.raised }
  | disable (hopen : ¬ (s.pool.status = .closed ∨ s.pool.status = .closing)) :
      Move cfg s .disable (s.suspended .disabled)
  | outOfSync (hopen : ¬ (s.pool.status = .closed ∨ s.pool.status = .closing)) :
      Move cfg s .outOfSync (s.suspended .outOfSync)
  | activate (hopen : ¬ (s.pool.status = .closed ∨ s.pool.status = .closing)) :
      Move cfg s .activate { s with pool := { s.pool with status := .active } }
  | close :
      Move cfg s .close { s with
        pool := { s.pool with
          status := if s.pool.busyConnections.card = 0 then .closed else .closing
          connections := []
          connectionCloseQueue := s.pool.connectionCloseQueue ++ s.pool.connections.map some ++
            if s.pool.busyConnections.card = 0 then [none] else [] } }
  | cleanup {now : Int} (hactive : s.pool.status = .active) :
      Move cfg s (.cleanupPass now) { s with
        pool := { s.pool with
          connections := (s.pool.withinLimit cfg).filter (s.pool.isRecent cfg now)
          connectionCloseQueue := s.pool.connectionCloseQueue ++
            (s.pool.connections.take (s.pool.connections.length - cfg.numProxyWorkers)).map some ++
            ((s.pool.withinLimit cfg).filter fun c => !s.pool.isRecent cfg now c).map some } }
  | cleanupNone {now : Int} (hactive : s.pool.status ≠ .active) :
      Move cfg s (.cleanupPass now) s
  | closeSentinel {q : List (Option ConnId)} (hrunning : s.closingThreadEnded = false)
      (hq : s.pool.connectionCloseQueue = none :: q) :
      Move cfg s .closeQueueGet { s with
        pool := { s.pool with connectionCloseQueue := q }
        closingThreadEnded := true }
  | closeTaken {c : ConnId} {q : List (Option ConnId)} (hrunning : s.closingThreadEnded = false)
      (hq : s.pool.connectionCloseQueue = some c :: q) :
      Move cfg s .closeQueueGet { s with
        pool := { s.pool with connectionCloseQueue := q }
        closing := c :: s.closing }

section Moves

variable {cfg : PoolConfig} {s t : System}

/-- `disable` and `out_of_sync`. -/
theorem call_suspend (s : System) (status : PoolStatus) :
    (s.call (s.pool.suspend status) fun s _ => s) =
      if s.pool.status = .closed ∨ s.pool.status = .closing then
        { s with raised := .exception :: s.raised }
      else s.suspended status := by
  split
  next hclosed =>
    rw [EndpointConnectionPool.suspend, if_pos hclosed]
    rfl
  next hopen =>
    rw [s.pool.suspend_open status hopen]
    rfl

/-- Every step is one of them. -/
theorem Inv.move (h : s.Inv) {l : Label} (hs : s.step cfg l = some t) : s.Move cfg l t := by
  cases l with
  | getIdle oos =>
      simp only [step, Option.some.injEq] at hs
      obtain ⟨hserves, hget⟩ | ⟨hserves, hq, hget⟩ | ⟨c, q, hserves, hq, hget⟩ :=
        s.pool.getIdle_cases oos
      all_goals rw [hget] at hs; subst hs
      · exact .getRefused hserves
      · exact .getNone hserves hq
      · exact .getIdle hserves hq
  | connected now =>
      obtain ⟨hconnecting, ⟨⟩⟩ := Option.ite_none_right_eq_some.mp hs
      exact .connected hconnecting
  | connectFailed now =>
      obtain ⟨hconnecting, ⟨⟩⟩ := Option.ite_none_right_eq_some.mp hs
      exact .connectFailed hconnecting
  | busyAdd c =>
      obtain ⟨hc, ⟨⟩⟩ := Option.ite_none_right_eq_some.mp hs
      exact .busyAdd hc
  | put c now =>
      obtain ⟨hc, ⟨⟩⟩ := Option.ite_none_right_eq_some.mp hs
      have hb := h.busy_of_handler hc
      by_cases hactive : s.pool.status = .active
      · rw [s.pool.put_active now hb hactive]
        exact .putIdle hc hb hactive
      · rw [s.pool.put_of_ne now hb hactive]
        exact .putClose hc hb hactive
  | busyRemove c =>
      obtain ⟨hc, ⟨⟩⟩ := Option.ite_none_right_eq_some.mp hs
      have hb := h.busy_of_handler hc
      rw [s.pool.busyRemove_of_mem hb]
      exact .busyRemove hc hb
  | scheduleBroken c isNew now =>
      obtain ⟨hc, ⟨⟩⟩ := Option.ite_none_right_eq_some.mp hs
      exact .scheduleBroken hc
  | disable =>
      obtain rfl := (s.call_suspend .disabled).symm.trans (Option.some.inj hs)
      split
      next hclosed => exact .disableRefused hclosed
      next hopen => exact .disable hopen
  | outOfSync =>
      obtain rfl := (s.call_suspend .outOfSync).symm.trans (Option.some.inj hs)
      split
      next hclosed => exact .outOfSyncRefused hclosed
      next hopen => exact .outOfSync hopen
  | activate =>
      obtain rfl := Option.some.inj hs
      unfold EndpointConnectionPool.activate
      split
      next hclosed => exact .activateRefused hclosed
      next hopen => exact .activate hopen
  | close =>
      obtain rfl := Option.some.inj hs
      rw [s.pool.close_eq]
      exact .close
  | cleanupPass now =>
      obtain rfl := Option.some.inj hs
      by_cases hactive : s.pool.status = .active
      · rw [s.pool.cleanupPass_active cfg now hactive]
        exact .cleanup hactive
      · rw [s.pool.cleanupPass_of_ne cfg now hactive]
        exact .cleanupNone hactive
  | closeQueueGet =>
      obtain ⟨hended, hs⟩ := Option.ite_none_left_eq_some.mp hs
      have hrunning := Bool.eq_false_iff.mpr hended
      unfold EndpointConnectionPool.closeQueueGet at hs
      cases hq : s.pool.connectionCloseQueue with
      | nil =>
          rw [hq] at hs
          cases hs
      | cons c q =>
          rw [hq] at hs
          cases c with
          | none =>
              obtain rfl := Option.some.inj hs
              exact .closeSentinel hrunning hq
          | some c =>
              obtain rfl := Option.some.inj hs
              exact .closeTaken hrunning hq

end Moves

/-! ## the invariant is kept -/

@[simp] theorem count_map_some (q : List ConnId) (c : ConnId) :
    (q.map some).count (some c) = q.count c :=
  List.count_map_of_injective q some (Option.some_injective _) c

@[simp] theorem count_sentinel (b : Prop) [Decidable b] (c : ConnId) :
    (if b then [none] else []).count (some c) = 0 := by
  split <;> rfl

namespace Inv

variable {cfg : PoolConfig} {s t : System}

/-- A step that only moves connections from the idle queue to the close queue
keeps the invariant. -/
theorem setPool (h : s.Inv) {p : EndpointConnectionPool}
    (hbusy : p.busyConnections = s.pool.busyConnections)
    (hqueues : ∀ c, p.connections.count c + p.connectionCloseQueue.count (some c) =
      s.pool.connections.count c + s.pool.connectionCloseQueue.count (some c))
    (hidle : p.status ≠ .active → p.connections = []) : Inv { s with pool := p } where
  census := by
    intro c
    have hcen := h.census c
    have hq := hqueues c
    rw [total_count] at hcen ⊢
    simp only [hbusy]
    omega
  handlers := by
    intro c
    simp only [count, hbusy]
    exact h.handlers c
  idle_empty := hidle
  raised := h.raised

/-- A call may end with the exceptions the pool raises on purpose. -/
theorem raise (h : s.Inv) : Inv { s with raised := .exception :: s.raised } where
  census := h.census
  handlers := h.handlers
  idle_empty := h.idle_empty
  raised := List.forall_mem_cons.mpr ⟨rfl, h.raised⟩

theorem getIdle (h : s.Inv) {oos : Bool} (hs : s.Move cfg (.getIdle oos) t) : t.Inv := by
  cases hs with
  | getRefused hserves => exact h.raise
  | getNone hserves hq => exact { h with }
  | getIdle hserves hq =>
      refine { h with
        census := fun x => ?_
        idle_empty := fun hne => nomatch hq.symm.trans (h.idle_empty hne) }
      show Census.total _ x = if x < s.established then 1 else 0
      have hcen := h.census x
      simp only [total_count, hq, List.count_cons] at hcen
      simp only [total_count, List.count_cons]
      omega

theorem connected (h : s.Inv) {now : Int} (hs : s.Move cfg (.connected now) t) : t.Inv := by
  cases hs
  refine { h with census := fun x => ?_ }
  have hcen := h.census x
  have hfresh := h.census s.established
  simp only [total_count] at hcen hfresh
  simp only [total_count, EndpointConnectionPool.established, List.count_cons, beq_iff_eq]
  grind

theorem busyAdd (h : s.Inv) {c : ConnId} (hs : s.Move cfg (.busyAdd c) t) : t.Inv := by
  cases hs with
  | busyAdd hc =>
      have hnb := h.not_busy_of_held hc
      have hpos := List.count_pos_iff.mpr hc
      refine { h with census := fun x => ?_, handlers := fun x => ?_ }
      · have hcen := h.census x
        rw [total_count] at hcen ⊢
        simp only [List.count_erase, Finset.mem_insert]
        grind
      · have hh := h.handlers x
        simp only [count, List.count_cons, Finset.mem_insert] at hh ⊢
        grind

/-- A handler that is gone has left its connection to others. -/
theorem erase_handlers (h : s.Inv) {c : ConnId} (hc : c ∈ s.handlers) (x : ConnId) :
    (s.handlers.erase c).count x = if x ∈ s.pool.busyConnections.erase c then 1 else 0 := by
  have hpos := List.count_pos_iff.mpr hc
  have hh := h.handlers x
  simp only [count] at hh
  simp only [List.count_erase, Finset.mem_erase]
  grind

theorem put (h : s.Inv) {c : ConnId} {now : Int} (hs : s.Move cfg (.put c now) t) : t.Inv := by
  cases hs with
  | putIdle hc hb hactive =>
      refine { h with
        census := fun x => ?_
        handlers := h.erase_handlers hc
        idle_empty := fun hne => absurd hactive hne }
      have hcen := h.census x
      rw [total_count] at hcen ⊢
      simp only [List.count_append, List.count_singleton, Finset.mem_erase]
      grind
  | putClose hc hb hactive =>
      refine { h with
        census := fun x => ?_
        handlers := h.erase_handlers hc
        idle_empty := fun _ => h.idle_empty hactive }
      have hcen := h.census x
      have hsentinel := count_sentinel (s.pool.lastToClose c = true) x
      rw [total_count] at hcen ⊢
      simp only [List.count_append, List.count_cons, Finset.mem_erase]
      grind

theorem busyRemove (h : s.Inv) {c : ConnId} (hs : s.Move cfg (.busyRemove c) t) : t.Inv := by
  cases hs with
  | busyRemove hc hb =>
      refine { h with census := fun x => ?_, handlers := h.erase_handlers hc }
      have hcen := h.census x
      rw [total_count] at hcen ⊢
      simp only [List.count_cons, Finset.mem_erase]
      grind

theorem scheduleBroken (h : s.Inv) {c : ConnId} {isNew : Bool} {now : Int}
    (hs : s.Move cfg (.scheduleBroken c isNew now) t) : t.Inv := by
  cases hs with
  | scheduleBroken hc =>
      have hpos := List.count_pos_iff.mpr hc
      refine { h with census := fun x => ?_ }
      have hcen := h.census x
      rw [total_count] at hcen ⊢
      simp only [List.count_append, List.count_singleton, List.count_erase]
      grind

theorem suspended (h : s.Inv) (status : PoolStatus) : (s.suspended status).Inv :=
  h.setPool rfl (fun c => by simp [Nat.add_comm]) fun _ => rfl

theorem cleanupPass (h : s.Inv) {now : Int} (hs : s.Move cfg (.cleanupPass now) t) : t.Inv := by
  cases hs with
  | cleanup hactive =>
      refine h.setPool rfl (fun c => ?_) fun hne => absurd hactive hne
      -- the queue is split in two by position, the rest of it by age
      have hsplit := congrArg (List.count c) (List.take_append_drop
        (s.pool.connections.length - cfg.numProxyWorkers) s.pool.connections)
      have hage := (List.filter_append_perm (s.pool.isRecent cfg now)
        (s.pool.withinLimit cfg)).count_eq c
      simp only [List.count_append, count_map_some, withinLimit] at hsplit hage ⊢
      omega
  | cleanupNone hactive => exact h

theorem closeQueueGet (h : s.Inv) (hs : s.Move cfg .closeQueueGet t) : t.Inv := by
  cases hs with
  | closeSentinel hrunning hq =>
      refine { h with census := fun x => ?_ }
      have hcen := h.census x
      simp only [total_count, hq, List.count_cons] at hcen
      simpa [total_count] using hcen
  | closeTaken hrunning hq =>
      refine { h with census := fun x => ?_ }
      show Census.total _ x = if x < s.established then 1 else 0
      have hcen := h.census x
      simp only [total_count, hq, List.count_cons] at hcen
      simp only [total_count, List.count_cons]
      grind

/-- Every step keeps the invariant. -/
theorem step (h : s.Inv) {l : Label} (hs : s.step cfg l = some t) : t.Inv := by
  have hmove := h.move hs
  cases l with
  | getIdle oos => exact h.getIdle hmove
  | connected now => exact h.connected hmove
  | connectFailed now =>
      cases hmove
      have hpool := h.setPool (p := s.pool.notEstablished now) rfl (fun _ => rfl) h.idle_empty
      exact { hpool.raise with }
  | busyAdd c => exact h.busyAdd hmove
  | put c now => exact h.put hmove
  | busyRemove c => exact h.busyRemove hmove
  | scheduleBroken c isNew now => exact h.scheduleBroken hmove
  | disable =>
      cases hmove with
      | disableRefused hclosed => exact h.raise
      | disable hopen => exact h.suspended .disabled
  | outOfSync =>
      cases hmove with
      | outOfSyncRefused hclosed => exact h.raise
      | outOfSync hopen => exact h.suspended .outOfSync
  | activate =>
      cases hmove with
      | activateRefused hclosed => exact h.raise
      | activate hopen => exact h.setPool rfl (fun _ => rfl) fun hne => absurd rfl hne
  | close =>
      cases hmove
      exact h.setPool rfl (fun c => by simp [Nat.add_comm]) fun _ => rfl
  | cleanupPass now => exact h.cleanupPass hmove
  | closeQueueGet => exact h.closeQueueGet hmove

end Inv

/-- **Conservation**: in every state of every interleaving, each connection is
at exactly one place, only an active pool has idle connections, and `get_nowait`
never raised. -/
theorem always_conserved (cfg : PoolConfig) (ls : List Label) :
    Always (fun s l => step s cfg l) Conserved {} ls :=
  always_of_invariant _ (fun _ _ _ h => h.step) (fun _ h => h.conserved) ls inv_init

end System

end EndpointConnectionPool

end Web3Proxy
