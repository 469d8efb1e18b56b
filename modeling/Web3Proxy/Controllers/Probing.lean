import Web3Proxy.EndpointConnectionHandler.Spec
import Web3Proxy.EndpointConnectionPool.Conservation
import Web3Proxy.HandleClient.Line

/-!
# Web3Proxy.Controllers.Probing

One call of `SyncController.__test_pool` (`pool_manager.py`) on a pool that other callers and
the pool's own threads use at the same time.

The `System` of the pool has the probe among its callers.  The probe gets a connection, sends a
request and reads the endpoint's response to it, all of which may fail at any point; whatever
happens, its `finally` clause releases the handler.

* `Probe.always_clean_iff` — the probe leaves the pool clean in exactly the runs in which a
  connection that it puts back into an active pool has delivered the whole response.
-/

namespace Web3Proxy

open Py Bytes Trans EndpointConnectionPool

/-! ## what the others do to a connection -/

/-- The connection of a caller that the step is about. -/
def EndpointConnectionPool.Label.target : EndpointConnectionPool.Label → Option ConnId
  | .busyAdd c | .put c _ | .busyRemove c | .scheduleBroken c _ _ => some c
  | _ => none

namespace EndpointConnectionPool.System

variable {cfg : PoolConfig} {s t : System} {l : EndpointConnectionPool.Label} {c : ConnId}

/-- A caller's connection stays with it while the others use theirs. -/
theorem step_others (h : s.Inv) (hs : s.step cfg l = some t) (hl : l.target ≠ some c) :
    (c ∈ s.held → c ∈ t.held) ∧ (c ∈ s.handlers → c ∈ t.handlers) ∧
      (c ∈ s.broken → c ∈ t.broken) := by
  have hne (d : ConnId) (hd : l.target = some d) : c ≠ d := by
    rintro rfl
    exact hl hd
  cases h.move hs with
  | getIdle | connected => exact ⟨List.mem_cons_of_mem _, id, id⟩
  | @busyAdd d => exact ⟨(List.mem_erase_of_ne (hne d rfl)).mpr, List.mem_cons_of_mem d, id⟩
  | @putIdle d | @putClose d => exact ⟨id, (List.mem_erase_of_ne (hne d rfl)).mpr, id⟩
  | @busyRemove d => exact ⟨id, (List.mem_erase_of_ne (hne d rfl)).mpr, List.mem_cons_of_mem d⟩
  | @scheduleBroken d => exact ⟨id, id, (List.mem_erase_of_ne (hne d rfl)).mpr⟩
  | _ => exact ⟨id, id, id⟩

/-- The connection is in the queue of the closing thread, or the thread has taken it. -/
def Closing (s : System) (c : ConnId) : Prop :=
  some c ∈ s.pool.connectionCloseQueue ∨ c ∈ s.closing

/-- The queue of the closing thread only grows, but for what the thread takes. -/
theorem step_closing (h : s.Inv) (hs : s.step cfg l = some t) (hc : s.Closing c) :
    t.Closing c := by
  have hmore {queue : List (Option ConnId)} :
      some c ∈ s.pool.connectionCloseQueue ++ queue ∨ c ∈ s.closing :=
    hc.imp_left (List.mem_append_left queue)
  cases h.move hs with
  | putClose | scheduleBroken | disable | outOfSync => exact hmore
  | close | cleanup =>
      simp only [Closing, List.append_assoc]
      exact hmore
  | closeSentinel hrunning hq =>
      unfold Closing at hc
      rw [hq] at hc
      exact hc.imp_left fun hc => (List.mem_cons.mp hc).resolve_left (by simp)
  | @closeTaken d q hrunning hq =>
      unfold Closing at hc
      rw [hq] at hc
      obtain hc | hc := hc
      · obtain hcd | hc := List.mem_cons.mp hc
        · cases hcd
          exact Or.inr List.mem_cons_self
        · exact Or.inl hc
      · exact Or.inr (List.mem_cons_of_mem d hc)
  | _ => exact hc

/-- A connection with the closing thread is nowhere else. -/
theorem Inv.closing_places (h : s.Inv) (hc : s.Closing c) (place : Place) (hat : s.At c place) :
    place = .closeQueue ∨ place = .closingThread := by
  have hcen := h.census c
  rw [total_count] at hcen
  have hpos : 0 < s.pool.connectionCloseQueue.count (some c) + s.closing.count c := by
    obtain hc | hc := hc
    · exact Nat.add_pos_left (List.count_pos_iff.mpr hc) _
    · exact Nat.add_pos_right _ (List.count_pos_iff.mpr hc)
  have hone : (if c < s.established then 1 else 0) ≤ 1 := by split <;> omega
  cases place with
  | closeQueue => exact Or.inl rfl
  | closingThread => exact Or.inr rfl
  | getCall | busy | idle | brokenCall =>
      simp only [At, count] at hat
      omega

end EndpointConnectionPool.System

/-! ## the model -/

/-- What a probe does not change: the configuration of the pool, the HTTP parser, the sender of
the connection and the endpoint's response to the probe. -/
structure ProbeEnv where
  cfg : PoolConfig
  parse : Bytes → ParseStatus
  sender : RequestSender
  response : Bytes

/-- Where the probe stands in `__test_pool`. -/
inductive ProbePc where
  | get
  | connect
  | busyAdd (isNew : Bool)
  | send
  | busyRemove
  | scheduleBroken
  | receive
  | release
  | done
deriving DecidableEq, Repr

/-- A probe and the pool.  `taken` is the connection that `pool.get` has returned, `line` what
is behind it, `received` what has been read from it; `returnedIdle` says that `release` has made
it idle. -/
structure Probe where
  system : System := {}
  pc : ProbePc := .get
  taken : Option ConnId := none
  handler : Option HandlerState := none
  line : Line := .closed
  received : Bytes := []
  returnedIdle : Bool := false

/-- A step of the probe, with what the outside answers; or one of somebody else. -/
inductive ProbeLabel where
  | get (isLive : Bool)
  | connected (now : Int)
  | connectFailed (now : Int)
  | busyAdd
  | send (o : SendOutcomes)
  | busyRemove
  | scheduleBroken (now : Int)
  | recv (a : Answer) (callbackRaises : Bool)
  | release (now : Int)
  | other (l : EndpointConnectionPool.Label)

/-- The request of the probe. -/
def probeRequest : RPCRequest where
  headers := some (str
    "Accept: */*\r\nContent-Type: application/json\r\nContent-Length: 82\r\n")
  content := some (str ("\x7b\"method\":\"eth_getBlockByNumber\",\"params\":[\"latest\",false]," ++
    "\"id\":1,\"jsonrpc\":\"2.0\"\x7d"))

/-- What a write looks like from the line. -/
def WriteOutcome.answer : WriteOutcome → Answer
  | .accepted => .ok
  | .failed n e => .cut n e

/-- The bytes that the call reads. -/
def Answer.received : Answer → Bytes
  | .data bytes => bytes
  | _ => []

/-- Once the response has been read nothing of it is outstanding. -/
theorem Line.Owes.drained {l : Line} {received response : Bytes}
    (h : l.Owes 0 received response) (hread : received = response) : l.outstanding = [] := by
  obtain ⟨rest, hout, hrest⟩ := h
  have hnil : rest = [] := by
    obtain hnil | hwhole := hrest
    · exact hnil
    · simpa [hread] using hwhole
  rw [hout, hnil]
  rfl

/-- What the handler's doings leave on the line. -/
def Line.after (response : Bytes) (l : Line) : HandlerEvent → Line
  | .write _ data w => (l.send data.length (tag 0 response) w.answer).getD l
  | .reconnect true => .fresh
  | .reconnect false => .closed
  | _ => l

namespace Probe

variable (env : ProbeEnv) (s : Probe)

/-- The others use their own connections, and finish their own calls of `get`. -/
def allows : EndpointConnectionPool.Label → Bool
  | .busyAdd c | .put c _ | .busyRemove c | .scheduleBroken c _ _ =>
      s.pc = .done ∨ s.taken ≠ some c
  | .connected _ | .connectFailed _ => s.pc ≠ .connect ∨ 1 < s.system.connecting
  | _ => true

/-- A step of the pool, after which the probe goes on at `pc`. -/
def goOn (l : EndpointConnectionPool.Label) (pc : ProbePc) : Option Probe :=
  (s.system.step env.cfg l).map fun system => { s with system, pc }

/-- The first section of `pool.get(out_of_sync=True)`.  An idle connection may have been closed
by the endpoint, but it is taken to have nothing outstanding of earlier requests. -/
def get (isLive : Bool) : Option Probe :=
  match s.system.pool.getIdle true with
  | .raise _ _ => s.goOn env (.getIdle true) .done
  | .ok none _ => s.goOn env (.getIdle true) .connect
  | .ok (some c) _ =>
      { s with taken := some c, line := .open isLive [] }.goOn env (.getIdle true) (.busyAdd false)

/-- The second section of `pool.get`, which makes the handler. -/
def busyAdd (c : ConnId) (isNew : Bool) : Option Probe :=
  { s with
    handler := some
      { handler :=
          { connection := some c
            isNewConnection := isNew
            isReconnectForbidden := isNew
            sender := env.sender } } }.goOn env (.busyAdd c) .send

/-- `endpoint_connection_handler.send(req)`, up to what it does to the pool. -/
def send (h : HandlerState) (o : SendOutcomes) : Probe :=
  let (result, h) := h.send probeRequest o
  { s with
    handler := some h
    line := h.events.foldl (Line.after env.response) s.line
    pc := match result with
      | .ok _ => .receive
      | .error _ => .busyRemove }

/-- Where the probe goes after a piece: on with the loop of `recv_response`, or to the `finally`
clause, with an exception or without. -/
def afterPiece (callbackRaises : Bool) : ParseStatus → ProbePc
  | .incomplete => if callbackRaises then .release else .receive
  | .complete | .error => .release

/-- A round of the loop of `recv_response`, with the callback. -/
def recv (a : Answer) (callbackRaises : Bool) : Option Probe :=
  (s.line.recv a).bind fun (line, _) =>
    match a with
    | .data bytes =>
        if bytes = [] then some { s with line, pc := .release }
        else
          let received := s.received ++ bytes
          some { s with line, received, pc := afterPiece callbackRaises (env.parse received) }
    | .notReady | .raise _ => some { s with line, pc := .release }
    | _ => none

/-- `endpoint_connection_handler.release()`. -/
def release (h : HandlerState) (now : Int) : Option Probe :=
  match h.handler.connection with
  | none => some { s with pc := .done }
  | some c =>
      ({ s with handler := some h.release }.goOn env (.put c now) .done).map fun (s : Probe) =>
        { s with returnedIdle := s.system.pool.connections.contains c }

/-- One step. -/
def step : ProbeLabel → Option Probe
  | .other l => if s.allows l then s.goOn env l s.pc else none
  | .get isLive => match s.pc with
      | .get => s.get env isLive
      | _ => none
  | .connected now => match s.pc with
      | .connect =>
          { s with taken := some s.system.established, line := .fresh }.goOn env (.connected now)
            (.busyAdd true)
      | _ => none
  | .connectFailed now => match s.pc with
      | .connect => s.goOn env (.connectFailed now) .done
      | _ => none
  | .busyAdd => match s.pc, s.taken with
      | .busyAdd isNew, some c => s.busyAdd env c isNew
      | _, _ => none
  | .send o => match s.pc, s.handler with
      | .send, some h => some (s.send env h o)
      | _, _ => none
  | .busyRemove => match s.pc, s.taken with
      | .busyRemove, some c => s.goOn env (.busyRemove c) .scheduleBroken
      | _, _ => none
  | .scheduleBroken now => match s.pc, s.taken, s.handler with
      | .scheduleBroken, some c, some h =>
          s.goOn env (.scheduleBroken c h.handler.isNewConnection now) .release
      | _, _, _ => none
  | .recv a callbackRaises => match s.pc with
      | .receive => s.recv env a callbackRaises
      | _ => none
  | .release now => match s.pc, s.handler with
      | .release, some h => s.release env h now
      | _, _ => none

/-! ## what is claimed -/

/-- The response to the probe has been read to its end, and nothing of it is outstanding. -/
def Read (s : Probe) : Prop := s.received = env.response ∧ s.line.outstanding = []

/-- When the probe is over, its connection has become idle after the response has been read, or it
is with the closing thread or in its queue; there it stays, out of reach of `get`. -/
def Clean (s : Probe) : Prop :=
  s.pc = .done → ∀ c, s.taken = some c →
    s.returnedIdle = true ∧ s.Read env ∨ s.system.Closing c ∧ ∀ place, s.system.At c place →
      place = .closeQueue ∨ place = .closingThread

/-- A connection that `release` puts back into an active pool has delivered the whole response. -/
def ReadWhenIdle (s : Probe) : ProbeLabel → Prop
  | .release _ => s.pc = .release → (∃ h, s.handler = some h ∧ h.handler.connection.isSome = true) →
      s.system.pool.status = .active → s.received = env.response
  | _ => True

/-! ## the invariant -/

/-- What holds of the probe's connection at each point. -/
def Accounted (s : Probe) : Prop :=
  match s.pc with
  | .get | .connect => s.taken = none ∧ s.received = []
  | .busyAdd _ => ∃ c, s.taken = some c ∧ c ∈ s.system.held ∧ s.line.outstanding = [] ∧
      s.received = []
  | .send => ∃ c h, s.taken = some c ∧ s.handler = some h ∧ h.handler.connection = some c ∧
      h.events = [] ∧ c ∈ s.system.handlers ∧ s.line.outstanding = [] ∧ s.received = []
  | .busyRemove => ∃ c h, s.taken = some c ∧ s.handler = some h ∧
      h.handler.connection = none ∧ c ∈ s.system.handlers
  | .scheduleBroken => ∃ c h, s.taken = some c ∧ s.handler = some h ∧
      h.handler.connection = none ∧ c ∈ s.system.broken
  | .receive => ∃ c h, s.taken = some c ∧ s.handler = some h ∧
      h.handler.connection = some c ∧ c ∈ s.system.handlers ∧
      s.line.Owes 0 s.received env.response
  | .release => ∃ c h, s.taken = some c ∧ s.handler = some h ∧
      (h.handler.connection = some c ∧ c ∈ s.system.handlers ∧
          s.line.Owes 0 s.received env.response ∨
        h.handler.connection = none ∧ s.system.Closing c)
  | .done => ∀ c, s.taken = some c →
      s.returnedIdle = true ∧ s.Read env ∨ s.system.Closing c

/-- What every step keeps that meets the guard. -/
structure Inv (s : Probe) : Prop where
  system : s.system.Inv
  accounted : s.Accounted env

section Steps

variable {env} {s s' : Probe}

theorem inv_init : Inv env {} := ⟨System.inv_init, rfl, rfl⟩

theorem Inv.clean (h : s.Inv env) : s.Clean env := by
  intro hpc c hc
  have hdone := h.accounted
  simp only [Accounted, hpc] at hdone
  exact (hdone c hc).imp_right fun hclosing => ⟨hclosing, h.system.closing_places hclosing⟩

/-- What `goOn` comes to. -/
theorem goOn_eq_some {l : EndpointConnectionPool.Label} {pc : ProbePc}
    (hs : s.goOn env l pc = some s') :
    ∃ system, s.system.step env.cfg l = some system ∧ s' = { s with system, pc } := by
  obtain ⟨system, hsystem, rfl⟩ := Option.map_eq_some_iff.mp hs
  exact ⟨system, hsystem, rfl⟩

/-- Somebody else's step. -/
theorem Inv.other (h : s.Inv env) {l : EndpointConnectionPool.Label}
    (hs : s.step env (.other l) = some s') : s'.Inv env := by
  simp only [step] at hs
  split at hs
  next hallows =>
    obtain ⟨system, hsystem, rfl⟩ := goOn_eq_some hs
    refine ⟨h.system.step hsystem, ?_⟩
    have hacc := h.accounted
    have hclosing {c : ConnId} := System.step_closing (c := c) h.system hsystem
    have hothers {c : ConnId} (hpc : s.pc ≠ .done) (hc : s.taken = some c) :=
      System.step_others (c := c) h.system hsystem (by
        intro htarget
        cases l <;> cases htarget <;> simp_all [allows])
    simp only [Accounted] at hacc ⊢
    cases hpc : s.pc with
    | get | connect =>
        simp only [hpc] at hacc ⊢
        exact hacc
    | busyAdd isNew =>
        simp only [hpc] at hacc ⊢
        obtain ⟨c, hc, hheld, hrest⟩ := hacc
        exact ⟨c, hc, (hothers (by simp [hpc]) hc).1 hheld, hrest⟩
    | send =>
        simp only [hpc] at hacc ⊢
        obtain ⟨c, g, hc, hg, hconn, hevents, hhandlers, hrest⟩ := hacc
        exact ⟨c, g, hc, hg, hconn, hevents, (hothers (by simp [hpc]) hc).2.1 hhandlers, hrest⟩
    | busyRemove =>
        simp only [hpc] at hacc ⊢
        obtain ⟨c, g, hc, hg, hconn, hhandlers⟩ := hacc
        exact ⟨c, g, hc, hg, hconn, (hothers (by simp [hpc]) hc).2.1 hhandlers⟩
    | scheduleBroken =>
        simp only [hpc] at hacc ⊢
        obtain ⟨c, g, hc, hg, hconn, hbroken⟩ := hacc
        exact ⟨c, g, hc, hg, hconn, (hothers (by simp [hpc]) hc).2.2 hbroken⟩
    | receive =>
        simp only [hpc] at hacc ⊢
        obtain ⟨c, g, hc, hg, hconn, hhandlers, howes⟩ := hacc
        exact ⟨c, g, hc, hg, hconn, (hothers (by simp [hpc]) hc).2.1 hhandlers, howes⟩
    | release =>
        simp only [hpc] at hacc ⊢
        obtain ⟨c, g, hc, hg, hstate⟩ := hacc
        refine ⟨c, g, hc, hg, hstate.imp (fun ⟨hconn, hhandlers, howes⟩ => ?_)
          (And.imp_right hclosing)⟩
        exact ⟨hconn, (hothers (by simp [hpc]) hc).2.1 hhandlers, howes⟩
    | done =>
        simp only [hpc] at hacc ⊢
        exact fun c hc => (hacc c hc).imp_right hclosing
  next => cases hs

theorem Inv.get (h : s.Inv env) {isLive : Bool} (hs : s.step env (.get isLive) = some s') :
    s'.Inv env := by
  have hacc := h.accounted
  simp only [step] at hs
  split at hs
  next hpc =>
    simp only [Accounted, hpc] at hacc
    unfold Probe.get at hs
    obtain ⟨-, hget⟩ | ⟨-, -, hget⟩ | ⟨c, q, -, -, hget⟩ := s.system.pool.getIdle_cases true
    all_goals rw [hget] at hs; obtain ⟨system, hsystem, rfl⟩ := goOn_eq_some hs
    · exact ⟨h.system.step hsystem, fun c hc => by simp [hacc.1] at hc⟩
    · exact ⟨h.system.step hsystem, hacc⟩
    · refine ⟨h.system.step hsystem, c, rfl, ?_, rfl, ?_⟩
      · simp only [System.step, hget] at hsystem
        cases hsystem
        exact List.mem_cons_self
      · exact hacc.2
  next => cases hs

theorem Inv.connected (h : s.Inv env) {now : Int} (hs : s.step env (.connected now) = some s') :
    s'.Inv env := by
  have hacc := h.accounted
  simp only [step] at hs
  split at hs
  next hpc =>
    simp only [Accounted, hpc] at hacc
    obtain ⟨system, hsystem, rfl⟩ := goOn_eq_some hs
    refine ⟨h.system.step hsystem, _, rfl, ?_, rfl, ?_⟩
    · cases h.system.move hsystem
      exact List.mem_cons_self
    · exact hacc.2
  next => cases hs

theorem Inv.connectFailed (h : s.Inv env) {now : Int}
    (hs : s.step env (.connectFailed now) = some s') : s'.Inv env := by
  have hacc := h.accounted
  simp only [step] at hs
  split at hs
  next hpc =>
    simp only [Accounted, hpc] at hacc
    obtain ⟨system, hsystem, rfl⟩ := goOn_eq_some hs
    exact ⟨h.system.step hsystem, fun c hc => by simp [hacc.1] at hc⟩
  next => cases hs

theorem Inv.busyAdd (h : s.Inv env) (hs : s.step env .busyAdd = some s') : s'.Inv env := by
  have hacc := h.accounted
  simp only [step] at hs
  split at hs
  next isNew c hpc hc =>
    simp only [Accounted, hpc] at hacc
    obtain ⟨c', hc', -, hline, hreceived⟩ := hacc
    obtain rfl : c = c' := Option.some.inj (hc.symm.trans hc')
    obtain ⟨system, hsystem, rfl⟩ := goOn_eq_some hs
    refine ⟨h.system.step hsystem, c, _, hc, rfl, rfl, rfl, ?_, hline, hreceived⟩
    cases h.system.move hsystem
    exact List.mem_cons_self
  next => cases hs

theorem Inv.busyRemove (h : s.Inv env) (hs : s.step env .busyRemove = some s') : s'.Inv env := by
  have hacc := h.accounted
  simp only [step] at hs
  split at hs
  next c hpc hc =>
    simp only [Accounted, hpc] at hacc
    obtain ⟨c', g, hc', hg, hconn, -⟩ := hacc
    obtain rfl : c = c' := Option.some.inj (hc.symm.trans hc')
    obtain ⟨system, hsystem, rfl⟩ := goOn_eq_some hs
    refine ⟨h.system.step hsystem, c, g, hc, hg, hconn, ?_⟩
    cases h.system.move hsystem
    exact List.mem_cons_self
  next => cases hs

theorem Inv.scheduleBroken (h : s.Inv env) {now : Int}
    (hs : s.step env (.scheduleBroken now) = some s') : s'.Inv env := by
  have hacc := h.accounted
  simp only [step] at hs
  split at hs
  next c g hpc hc hg =>
    simp only [Accounted, hpc] at hacc
    obtain ⟨c', g', hc', hg', hconn, -⟩ := hacc
    obtain rfl : c = c' := Option.some.inj (hc.symm.trans hc')
    obtain rfl : g = g' := Option.some.inj (hg.symm.trans hg')
    obtain ⟨system, hsystem, rfl⟩ := goOn_eq_some hs
    refine ⟨h.system.step hsystem, c, g, hc, hg, Or.inr ⟨hconn, Or.inl ?_⟩⟩
    cases h.system.move hsystem
    exact List.mem_append_right _ List.mem_cons_self
  next => cases hs

/-- A write on a drained line leaves the response outstanding, if any. -/
theorem owes_after {l : Line} (hl : l.outstanding = []) (response : Bytes) (n : Nat)
    (data : Bytes) (w : WriteOutcome) :
    (l.after response (.write n data w)).Owes 0 [] response := by
  simp only [Line.after]
  cases hsend : l.send data.length (tag 0 response) w.answer with
  | none => exact Line.owes_of_drained _ _ hl
  | some l' => exact Line.owes_send hl hsend

theorem Inv.send (h : s.Inv env) {o : SendOutcomes} (hs : s.step env (.send o) = some s') :
    s'.Inv env := by
  have hacc := h.accounted
  simp only [step] at hs
  split at hs
  next g hpc hg =>
    simp only [Accounted, hpc] at hacc
    obtain ⟨c, g', hc, hg', hconn, hevents, hhandlers, hline, hreceived⟩ := hacc
    obtain rfl : g = g' := Option.some.inj (hg.symm.trans hg')
    obtain rfl := Option.some.inj hs
    refine ⟨h.system, ?_⟩
    have hsends := g.send_sends hconn probeRequest o
    unfold Probe.send
    rcases hsend : g.send probeRequest o with ⟨result, g'⟩
    rw [hsend] at hsends
    cases hsends with
    | atOnce =>
        refine ⟨c, _, hc, rfl, hconn, hhandlers, ?_⟩
        simp only [hevents, List.nil_append, List.foldl_cons, List.foldl_nil, hreceived]
        exact owes_after hline _ _ _ _
    | again =>
        refine ⟨c, _, hc, rfl, hconn, hhandlers, ?_⟩
        simp only [List.foldl_append, List.foldl_cons, List.foldl_nil, hreceived]
        exact owes_after rfl _ _ _ _
    | forbidden | notReconnected | failedAgain => exact ⟨c, _, hc, rfl, rfl, hhandlers⟩
  next => cases hs

/-- What is read from the line goes on with the response; any other outcome of a read leaves what
is owed, or nothing. -/
theorem owes_recv {l : Line} {received response : Bytes} {a : Answer} {taken : Line × List Tagged}
    (h : l.Owes 0 received response) (hrecv : l.recv a = some taken) :
    taken.1.Owes 0 (received ++ a.received) response := by
  have hkept : l.Owes 0 (received ++ []) response := by rwa [List.append_nil]
  cases a with
  | data bytes =>
      by_cases hbytes : bytes = []
      · subst hbytes
        cases l with
        | closed => cases hrecv
        | «open» isLive out =>
            cases hrecv
            exact Line.owes_of_drained _ _ rfl
      · obtain ⟨-, rest, hresponse, hout⟩ := Line.owes_recv h hbytes hrecv
        exact ⟨rest, hout, Or.inr hresponse⟩
  | notReady =>
      cases hrecv
      exact hkept
  | raise e =>
      cases e with
      | other =>
          cases hrecv
          exact hkept
      | brokenPipe | connection =>
          cases l with
          | closed => cases hrecv
          | «open» isLive out =>
              cases hrecv
              exact Line.owes_of_drained _ _ rfl
  | ok | read | connection | noIdle | cut => cases l <;> cases hrecv

theorem afterPiece_cases (callbackRaises : Bool) (status : ParseStatus) :
    afterPiece callbackRaises status = .release ∨ afterPiece callbackRaises status = .receive := by
  cases status with
  | incomplete => cases callbackRaises <;> simp [afterPiece]
  | complete | error => exact Or.inl rfl

theorem Inv.recv (h : s.Inv env) {a : Answer} {callbackRaises : Bool}
    (hs : s.step env (.recv a callbackRaises) = some s') : s'.Inv env := by
  have hacc := h.accounted
  simp only [step] at hs
  split at hs
  next hpc =>
    simp only [Accounted, hpc] at hacc
    obtain ⟨c, g, hc, hg, hconn, hhandlers, howes⟩ := hacc
    obtain ⟨⟨line, piece⟩, hrecv, hnext⟩ := Option.bind_eq_some_iff.mp hs
    have howes := owes_recv howes hrecv
    have hnext' (s'' : Probe) (hsystem : s''.system = s.system)
        (hpc' : s''.pc = .release ∨ s''.pc = .receive) (hc' : s''.taken = s.taken)
        (hg' : s''.handler = s.handler) (howes' : s''.line.Owes 0 s''.received env.response) :
        s''.Inv env := by
      refine ⟨hsystem ▸ h.system, ?_⟩
      obtain hpc' | hpc' := hpc'
      · simp only [Accounted, hpc', hsystem]
        exact ⟨c, g, hc'.trans hc, hg'.trans hg, Or.inl ⟨hconn, hhandlers, howes'⟩⟩
      · simp only [Accounted, hpc', hsystem]
        exact ⟨c, g, hc'.trans hc, hg'.trans hg, hconn, hhandlers, howes'⟩
    cases a with
    | data bytes =>
        by_cases hbytes : bytes = []
        · obtain rfl := Option.some.inj ((if_pos hbytes).symm.trans hnext)
          rw [hbytes, Answer.received, List.append_nil] at howes
          exact hnext' _ rfl (Or.inl rfl) rfl rfl howes
        · obtain rfl := Option.some.inj ((if_neg hbytes).symm.trans hnext)
          exact hnext' _ rfl (afterPiece_cases _ _) rfl rfl howes
    | notReady | raise e =>
        cases hnext
        simp only [Answer.received, List.append_nil] at howes
        exact hnext' _ rfl (Or.inl rfl) rfl rfl howes
    | ok | read | connection | noIdle | cut => cases hnext
  next => cases hs

/-- `release` on a connection that the handler has: it becomes idle in an active pool, and goes
to the closing thread in any other. -/
theorem release_held (h : s.Inv env) {now : Int} {g : HandlerState} {c : ConnId}
    (hconn : g.handler.connection = some c) (hs : s.release env g now = some s') :
    s'.pc = .done ∧ s'.system.Inv ∧ s'.taken = s.taken ∧ s'.line = s.line ∧
      s'.received = s.received ∧
      (s.system.pool.status = .active ∧ s'.returnedIdle = true ∧
          s'.system.At c .idle ∨
        s.system.pool.status ≠ .active ∧ s'.system.Closing c) := by
  simp only [release, hconn] at hs
  obtain ⟨s₁, hgo, rfl⟩ := Option.map_eq_some_iff.mp hs
  obtain ⟨system, hsystem, rfl⟩ := goOn_eq_some hgo
  refine ⟨rfl, h.system.step hsystem, rfl, rfl, rfl, ?_⟩
  cases h.system.move hsystem with
  | putIdle hc hb hactive =>
      exact Or.inl ⟨hactive, by simp, by simp [System.At, System.count]⟩
  | putClose hc hb hactive =>
      exact Or.inr ⟨hactive, Or.inl (List.mem_append_right _ List.mem_cons_self)⟩

theorem Inv.release (h : s.Inv env) {now : Int} (hguard : s.ReadWhenIdle env (.release now))
    (hs : s.step env (.release now) = some s') : s'.Inv env := by
  have hacc := h.accounted
  simp only [step] at hs
  split at hs
  next g hpc hg =>
    simp only [Accounted, hpc] at hacc
    obtain ⟨c, g', hc, hg', hstate⟩ := hacc
    obtain rfl : g = g' := Option.some.inj (hg.symm.trans hg')
    obtain ⟨hconn, -, howes⟩ | ⟨hconn, hclosing⟩ := hstate
    · obtain ⟨hpc', hsystem, hc', hline, hreceived, hplace⟩ := release_held h hconn hs
      refine ⟨hsystem, ?_⟩
      simp only [Accounted, hpc', hc', hc]
      rintro d ⟨⟩
      obtain ⟨hactive, hidle, -⟩ | ⟨-, hclosing⟩ := hplace
      · have hread := hguard hpc ⟨g, hg, by rw [hconn]; rfl⟩ hactive
        refine Or.inl ⟨hidle, hreceived.trans hread, ?_⟩
        rw [hline]
        exact howes.drained hread
      · exact Or.inr hclosing
    · simp only [Probe.release, hconn, Option.some.injEq] at hs
      subst hs
      refine ⟨h.system, fun d hd => ?_⟩
      obtain rfl : c = d := Option.some.inj (hc.symm.trans hd)
      exact Or.inr hclosing
  next => cases hs

/-- An idle connection that has not delivered the response to the probe. -/
theorem Inv.not_clean (h : s.Inv env) {l : ProbeLabel} (hguard : ¬ s.ReadWhenIdle env l)
    (hs : s.step env l = some s') : ¬ s'.Clean env := by
  cases l with
  | release now =>
      simp only [ReadWhenIdle] at hguard
      push Not at hguard
      obtain ⟨hpc, ⟨g, hg, hsome⟩, hactive, hunread⟩ := hguard
      have hacc := h.accounted
      simp only [Accounted, hpc] at hacc
      obtain ⟨c, g', hc, hg', hstate⟩ := hacc
      obtain rfl : g = g' := Option.some.inj (hg.symm.trans hg')
      obtain ⟨hconn, -⟩ | ⟨hconn, -⟩ := hstate
      · simp only [step, hpc, hg] at hs
        obtain ⟨hpc', -, hc', -, hreceived, ⟨-, -, hidle⟩ | ⟨hne, -⟩⟩ :=
          release_held h hconn hs
        · intro hclean
          obtain ⟨-, hread, -⟩ | ⟨-, hplaces⟩ := hclean hpc' c (hc'.trans hc)
          · exact hunread (hreceived.symm.trans hread)
          · obtain hplace | hplace := hplaces .idle hidle <;> cases hplace
        · exact absurd hactive hne
      · rw [hconn] at hsome
        cases hsome
  | get | connected | connectFailed | busyAdd | send | busyRemove | scheduleBroken | recv
  | other =>
      exact absurd trivial hguard

theorem Inv.step (h : s.Inv env) {l : ProbeLabel} (hguard : s.ReadWhenIdle env l)
    (hs : s.step env l = some s') : s'.Inv env := by
  cases l with
  | get isLive => exact h.get hs
  | connected now => exact h.connected hs
  | connectFailed now => exact h.connectFailed hs
  | busyAdd => exact h.busyAdd hs
  | send o => exact h.send hs
  | busyRemove => exact h.busyRemove hs
  | scheduleBroken now => exact h.scheduleBroken hs
  | recv a callbackRaises => exact h.recv hs
  | release now => exact h.release hguard hs
  | other l => exact h.other hs

end Steps

/-- **Sync probes leave the pool clean**, in exactly the runs in which a connection that is put
back into an active pool has delivered the whole response to the probe. -/
theorem always_clean_iff (env : ProbeEnv) (ls : List ProbeLabel) :
    Always (fun s l => s.step env l) (Clean env) {} ls ↔
      Guarded (fun s l => s.step env l) (ReadWhenIdle env) {} ls :=
  always_iff_guarded (I := Inv env) _ (fun _ h => h.clean)
    (fun _ _ _ h hguard hs => h.step hguard hs) (fun _ _ _ h hguard hs => h.not_clean hguard hs) ls
    inv_init

/-- The pool and the endpoint of the next theorem: the endpoint answers with one byte. -/
def slowEnv : ProbeEnv where
  cfg := { numProxyWorkers := 1, idleConnectionTimeout := 60 }
  parse := fun _ => .complete
  sender := RequestSender.new "localhost" ""
  response := [0]

/-- The endpoint is slow: the probe of a new connection gives up waiting for the response. -/
def timedOut : List ProbeLabel :=
  [.get true, .connected 0, .busyAdd, .send ⟨.write .accepted, true, .write .accepted⟩,
    .recv .notReady false, .release 1]

/-- The connection is idle with the response to the probe outstanding on it. -/
theorem not_always_clean :
    (run (fun s l => Probe.step slowEnv s l) {} timedOut).map (fun s =>
        (s.pc, s.taken, s.system.pool.connections, s.received, s.line.outstanding)) =
      some (.done, some 0, [0], [], tag 0 slowEnv.response) ∧
      ¬ Always (fun s l => Probe.step slowEnv s l) (Clean slowEnv) {} timedOut := by
  have hend : (run (fun s l => Probe.step slowEnv s l) {} timedOut).map (fun s =>
        (s.pc, s.taken, s.system.pool.connections, s.received, s.line.outstanding)) =
      some (.done, some 0, [0], [], tag 0 slowEnv.response) := rfl
  refine ⟨hend, fun h => ?_⟩
  obtain ⟨s, hrun, hs⟩ := Option.map_eq_some_iff.mp hend
  simp only [Prod.mk.injEq] at hs
  obtain ⟨hpc, htaken, hidle, hreceived, -⟩ := hs
  obtain ⟨-, hread, -⟩ | ⟨-, hplaces⟩ := h.last _ hrun hpc 0 htaken
  · rw [hreceived] at hread
    cases hread
  · have hat : s.system.At 0 .idle := by simp [System.At, System.count, hidle]
    obtain hplace | hplace := hplaces .idle hat <;> cases hplace

end Probe

end Web3Proxy
