import Web3Proxy.ClientSocketPool.Status
import Web3Proxy.HandleClient.Mediation

/-!
# Web3Proxy.HandleClient.Disposal

What becomes of the client's socket: a run of `handle_client` gives it back to the
`ClientSocketPool` or takes it out and closes it (`__manage_client_connection`,
`__close_client_connection`), somewhere in the middle of six branches, and the outer
`except` closes it again.  The main loop and other runs call the pool in between.

* `disposed_iff_untroubled` — a run that ends has disposed of the socket once, of a socket in
  use, exactly when none of its calls after `set_cs_pending` or `del_cs_in_use` raised;
* `not_always_disposed` — which is not always so: a connection to an endpoint that raises
  when it is closed has the socket taken out of the pool under the next run.
-/

namespace Web3Proxy

open Py Bytes Trans

/-- What a run has done with the socket; of the calls on the pool also whether the
descriptor was there and in use. -/
inductive SocketEvent where
  | setCsPending (inUse : Bool)
  | modify
  | delCsInUse (inUse : Bool)
  | unregister
  | close
deriving DecidableEq, Repr

/-- The statement that `__close_client_connection` stands at. -/
inductive CloseStage where
  | delCsInUse
  | unregister
  | close
deriving DecidableEq, Repr

/-- A run and the pool of client sockets. -/
structure Disposal where
  run : Run := {}
  stage : CloseStage := .delCsInUse
  pool : ClientSocketPool
  log : List SocketEvent := []

namespace Disposal

/-- A call of the run, with its answer, or another thread's call on the pool. -/
inductive Label where
  | call (a : Answer)
  | other (o : ClientSocketPool.Op)
deriving DecidableEq, Repr

variable (env : ProxyEnv) (fd : Int) (s : Disposal)

/-- The precondition of `set_cs_pending` and `del_cs_in_use`. -/
def inUse : Bool := (s.pool.status fd).any Prod.snd

/-- The run goes on. -/
def goOn (a : Answer) (events : List SocketEvent) : Option Disposal :=
  (s.run.step env a).map fun run =>
    { s with run, stage := .delCsInUse, log := s.log ++ events }

/-- `active_client_connections.set_cs_pending(cs.fd)`. -/
def setCsPending (a : Answer) : Option Disposal :=
  let event := .setCsPending (s.inUse fd)
  match s.pool.setCsPending fd, a with
  | .ok _ pool, .ok => { s with pool }.goOn env .ok [event]
  | .raise _ pool, .raise e => { s with pool }.goOn env (.raise e) [event]
  | _, _ => none

/-- `__close_client_connection`, a statement at a time.  An `OSError` of `close` stays
within `__close_client_socket`. -/
def closeClientConnection (a : Answer) : Option Disposal :=
  match s.stage with
  | .delCsInUse =>
      let event := .delCsInUse (s.inUse fd)
      match s.pool.delCsInUse fd, a with
      | .ok _ pool, .ok => some { s with pool, stage := .unregister, log := s.log ++ [event] }
      | .raise _ pool, .raise e => { s with pool }.goOn env (.raise e) [event]
      | _, _ => none
  | .unregister => match a with
      | .ok => some { s with stage := .close, log := s.log ++ [.unregister] }
      | .raise e => s.goOn env (.raise e) []
      | _ => none
  | .close => match a with
      | .ok => s.goOn env .ok [.close]
      | .raise e => s.goOn env (.raise e) []
      | _ => none

/-- One step.  While the run holds the socket no other thread touches its entry. -/
def step : Label → Option Disposal
  | .call a => match s.run.pc with
      | .manage true _ => s.setCsPending env fd a
      | .modify _ => s.goOn env a (if a = .ok then [.modify] else [])
      | .manage false _ | .closeClient => s.closeClientConnection env fd a
      | _ => s.goOn env a []
  | .other o =>
      let pool := (s.pool.exec o).state
      if s.log = [] ∧ pool.status fd ≠ s.pool.status fd then none else some { s with pool }

/-! ## what is to hold -/

/-- The socket has gone one of the two ways, and was in use before. -/
def Disposed : Prop :=
  s.log = [.setCsPending true, .modify] ∨ s.log = [.delCsInUse true, .unregister, .close]

/-- Once the run has begun to dispose of the socket no call raises, but for `release` in the
outer `except` and in the destructor. -/
def Untroubled : Label → Prop
  | .call (.raise _) => s.log = [] ∨ s.run.pc = .release true ∨ s.run.pc = .del
  | _ => True

instance (l : Label) : Decidable (s.Untroubled l) := by
  unfold Untroubled
  split <;> infer_instance

instance : Decidable s.Disposed := inferInstanceAs (Decidable (_ ∨ _))

/-! ## the course of a run -/

section Course

/-- `__close_client_connection`. -/
@[grind =] def isClosing : Pc → Bool
  | .manage false _ | .closeClient => true
  | _ => false

/-- What comes after the socket has been disposed of. -/
@[grind =] def isAfterwards : Pc → Bool
  | .closeConnection | .release _ | .del | .done => true
  | _ => false

/-- What comes before. -/
@[grind =] def isHolding : Pc → Bool
  | .modify _ | .closeConnection | .release _ | .del | .done => false
  | _ => true

theorem isAfterwards_pc (next : After) : isAfterwards next.pc := by
  cases next <;> rfl

theorem isHolding_of_isSend {pc : Pc} (h : pc.isSend) : isHolding pc ∧ ¬ isAfterwards pc := by
  cases pc <;> simp_all [Pc.isSend, isHolding, isAfterwards]

variable {env : ProxyEnv} {r r' : Run} {a : Answer}

/-- Nothing but the disposal leads from before it to after it. -/
theorem isHolding_of_move (h : Run.Move env r a r') (hpc : isHolding r.pc)
    (hmanage : ∀ keepAlive next, r.pc ≠ .manage keepAlive next) (hclose : r.pc ≠ .closeClient) :
    isHolding r'.pc := by
  cases h with
  | read outcome hread => cases outcome <;> grind
  | _ => grind [isHolding_of_isSend]

/-- After it an exception leads to the outer `except`, or is kept. -/
theorem isAfterwards_of_move (h : Run.Move env r a r') (hpc : isAfterwards r.pc) :
    isAfterwards r'.pc ∧ ((∃ e, a = .raise e) → r.pc = .release true ∨ r.pc = .del) ∨
      r'.pc = .closeClient ∧ (∃ e, a = .raise e) ∧ r.pc ≠ .release true ∧ r.pc ≠ .del := by
  cases h with
  | send hsend | sendCut n hsend | sendRaise e hsend | sendNothing hsend =>
      exact absurd hpc (isHolding_of_isSend hsend).2
  | _ => grind

theorem step_of_manage {next : After} (hpc : r.pc = .manage true next)
    (h : r.step env .ok = some r') : r'.pc = .modify next := by
  simp only [Run.step, hpc, Run.simply, Option.some.injEq] at h
  rw [← h]

theorem step_of_closing (hpc : isClosing r.pc) (h : r.step env .ok = some r') :
    isAfterwards r'.pc := by
  cases hr : r.pc with
  | manage keepAlive next =>
      cases keepAlive with
      | true => simp [hr, isClosing] at hpc
      | false =>
          simp only [Run.step, hr, Run.simply, Option.some.injEq] at h
          rw [← h]
          exact isAfterwards_pc next
  | closeClient =>
      simp only [Run.step, hr, Run.simply, Option.some.injEq] at h
      rw [← h]
      rfl
  | _ => simp [hr, isClosing] at hpc

/-- An exception of `__close_client_connection` leads to the outer `except`, or out of it. -/
theorem step_of_closing_raise {e : SocketError} (hpc : isClosing r.pc)
    (h : r.step env (.raise e) = some r') : r'.pc = .closeClient ∨ r'.pc = .del := by
  cases hr : r.pc with
  | manage keepAlive next =>
      cases keepAlive with
      | true => simp [hr, isClosing] at hpc
      | false =>
          simp only [Run.step, hr, Run.simply, Option.some.injEq] at h
          exact Or.inl (h ▸ rfl)
  | closeClient =>
      simp only [Run.step, hr, Run.simply, Option.some.injEq] at h
      exact Or.inr (h ▸ rfl)
  | _ => simp [hr, isClosing] at hpc

end Course

variable {env : ProxyEnv} {fd : Int} {s s' : Disposal}

theorem goOn_cases {a : Answer} {events : List SocketEvent} (h : s.goOn env a events = some s') :
    ∃ run, s.run.step env a = some run ∧
      s' = { s with run, stage := .delCsInUse, log := s.log ++ events } := by
  obtain ⟨run, hrun, rfl⟩ := Option.map_eq_some_iff.mp h
  exact ⟨run, hrun, rfl⟩

theorem lookup_of_inUse (h : s.inUse fd = true) :
    ∃ e, s.pool.allClientConnections fd = some e := by
  obtain ⟨x, hx, -⟩ := (Option.any_eq_true ..).mp h
  obtain ⟨e, he, -⟩ := ClientSocketPool.lookup_of_status hx
  exact ⟨e, he⟩

/-- The socket in use goes back. -/
theorem setCsPending_cases {a : Answer} {next : After} (hin : s.inUse fd = true)
    (hpc : s.run.pc = .manage true next) (h : s.setCsPending env fd a = some s') :
    s'.log = s.log ++ [.setCsPending true] ∧ s'.stage = .delCsInUse ∧
      s'.run.pc = .modify next := by
  obtain ⟨e, he⟩ := lookup_of_inUse hin
  simp only [setCsPending, ClientSocketPool.setCsPending, he, hin] at h
  cases a with
  | ok =>
      obtain ⟨run, hrun, rfl⟩ := goOn_cases h
      exact ⟨rfl, rfl, step_of_manage hpc hrun⟩
  | _ => cases h

/-- The socket in use is taken out. -/
theorem closeClientConnection_del {a : Answer} (hin : s.inUse fd = true)
    (hstage : s.stage = .delCsInUse) (h : s.closeClientConnection env fd a = some s') :
    s'.log = s.log ++ [.delCsInUse true] ∧ s'.stage = .unregister ∧ s'.run = s.run := by
  obtain ⟨e, he⟩ := lookup_of_inUse hin
  simp only [closeClientConnection, hstage, ClientSocketPool.delCsInUse, he, hin] at h
  cases a with
  | ok =>
      obtain rfl := Option.some.inj h
      exact ⟨rfl, rfl, rfl⟩
  | _ => cases h

theorem closeClientConnection_unregister {a : Answer} (hstage : s.stage = .unregister)
    (h : s.closeClientConnection env fd a = some s') :
    (a = .ok ∧ s' = { s with stage := .close, log := s.log ++ [.unregister] }) ∨
      ∃ e, a = .raise e ∧ s.goOn env a [] = some s' := by
  simp only [closeClientConnection, hstage] at h
  cases a with
  | ok => exact Or.inl ⟨rfl, (Option.some.inj h).symm⟩
  | raise e => exact Or.inr ⟨e, rfl, h⟩
  | _ => cases h

theorem closeClientConnection_close {a : Answer} (hstage : s.stage = .close)
    (h : s.closeClientConnection env fd a = some s') :
    (a = .ok ∧ s.goOn env .ok [.close] = some s') ∨
      ∃ e, a = .raise e ∧ s.goOn env a [] = some s' := by
  simp only [closeClientConnection, hstage] at h
  cases a with
  | ok => exact Or.inl ⟨rfl, h⟩
  | raise e => exact Or.inr ⟨e, rfl, h⟩
  | _ => cases h

theorem step_closing {a : Answer} (hpc : isClosing s.run.pc)
    (h : step env fd s (.call a) = some s') : s.closeClientConnection env fd a = some s' := by
  cases hr : s.run.pc with
  | manage keepAlive next =>
      cases keepAlive with
      | true => simp [hr, isClosing] at hpc
      | false => simpa [step, hr] using h
  | closeClient => simpa [step, hr] using h
  | _ => simp [hr, isClosing] at hpc

theorem step_afterwards {a : Answer} (hpc : isAfterwards s.run.pc)
    (h : step env fd s (.call a) = some s') : s.goOn env a [] = some s' := by
  cases hr : s.run.pc with
  | closeConnection | release | del | done => simpa [step, hr] using h
  | _ => simp [hr, isAfterwards] at hpc

theorem step_holding {a : Answer} (hpc : isHolding s.run.pc) (hclosing : ¬ isClosing s.run.pc)
    (hmanage : ∀ next, s.run.pc ≠ .manage true next)
    (h : step env fd s (.call a) = some s') : s.goOn env a [] = some s' := by
  cases hr : s.run.pc with
  | manage keepAlive next =>
      cases keepAlive with
      | true => exact absurd hr (hmanage next)
      | false => simp [hr, isClosing] at hclosing
  | closeClient => simp [hr, isClosing] at hclosing
  | modify | closeConnection | release | del | done => simp [hr, isHolding] at hpc
  | _ => simpa [step, hr] using h

/-- What holds of every state of a run that meets no trouble. -/
inductive Inv (fd : Int) (s : Disposal) : Prop where
  | held (hlog : s.log = []) (hstage : s.stage = .delCsInUse) (hin : s.inUse fd = true)
      (hpc : isHolding s.run.pc)
  | pending {next : After} (hlog : s.log = [.setCsPending true])
      (hstage : s.stage = .delCsInUse) (hpc : s.run.pc = .modify next)
  | deleted (hlog : s.log = [.delCsInUse true]) (hstage : s.stage = .unregister)
      (hpc : isClosing s.run.pc)
  | unregistered (hlog : s.log = [.delCsInUse true, .unregister]) (hstage : s.stage = .close)
      (hpc : isClosing s.run.pc)
  | disposed (hdisposed : s.Disposed) (hstage : s.stage = .delCsInUse)
      (hpc : isAfterwards s.run.pc)

/-- **The disposal, a call at a time.**  Without trouble the invariant is kept. -/
theorem Inv.call {a : Answer} (hi : Inv fd s) (hl : s.Untroubled (.call a))
    (hstep : step env fd s (.call a) = some s') : Inv fd s' := by
  cases hi with
  | held hlog hstage hin hpc =>
      by_cases hclosing : isClosing s.run.pc
      · obtain ⟨hlog', hstage', hrun⟩ :=
          closeClientConnection_del hin hstage (step_closing hclosing hstep)
        exact .deleted (by rw [hlog', hlog]; rfl) hstage' (hrun ▸ hclosing)
      · by_cases hmanage : ∃ next, s.run.pc = .manage true next
        · obtain ⟨next, hnext⟩ := hmanage
          have hset : s.setCsPending env fd a = some s' := by simpa [step, hnext] using hstep
          obtain ⟨hlog', hstage', hpc'⟩ := setCsPending_cases hin hnext hset
          exact .pending (by rw [hlog', hlog]; rfl) hstage' hpc'
        · have hmanage' : ∀ next, s.run.pc ≠ .manage true next := fun next hnext =>
            hmanage ⟨next, hnext⟩
          obtain ⟨run, hrun, rfl⟩ := goOn_cases (step_holding hpc hclosing hmanage' hstep)
          refine .held (by simp [hlog]) rfl hin (isHolding_of_move (Run.step_move hrun) hpc ?_ ?_)
          · intro keepAlive next hnext
            cases keepAlive with
            | true => exact hmanage' next hnext
            | false => exact hclosing (by rw [hnext]; rfl)
          · intro hclose
            exact hclosing (by rw [hclose]; rfl)
  | @pending next hlog hstage hpc =>
      have hgo : s.goOn env a (if a = .ok then [.modify] else []) = some s' := by
        simpa [step, hpc] using hstep
      obtain ⟨run, hrun, rfl⟩ := goOn_cases hgo
      simp only [Run.step, hpc] at hrun
      obtain ⟨rfl, rfl⟩ | ⟨e, rfl, -⟩ := Run.simply_cases hrun
      · exact .disposed (Or.inl (by simp [hlog])) rfl (isAfterwards_pc next)
      · simp [Untroubled, hlog, hpc] at hl
  | deleted hlog hstage hpc =>
      obtain ⟨rfl, rfl⟩ | ⟨e, rfl, -⟩ :=
        closeClientConnection_unregister hstage (step_closing hpc hstep)
      · exact .unregistered (by simp [hlog]) rfl hpc
      · have hne : s.run.pc ≠ .release true ∧ s.run.pc ≠ .del := by grind
        simp [Untroubled, hlog, hne] at hl
  | unregistered hlog hstage hpc =>
      obtain ⟨rfl, hgo⟩ | ⟨e, rfl, -⟩ :=
        closeClientConnection_close hstage (step_closing hpc hstep)
      · obtain ⟨run, hrun, rfl⟩ := goOn_cases hgo
        exact .disposed (Or.inr (by simp [hlog])) rfl (step_of_closing hpc hrun)
      · have hne : s.run.pc ≠ .release true ∧ s.run.pc ≠ .del := by grind
        simp [Untroubled, hlog, hne] at hl
  | disposed hdisposed hstage hpc =>
      obtain ⟨run, hrun, rfl⟩ := goOn_cases (step_afterwards hpc hstep)
      obtain ⟨hpc', -⟩ | ⟨-, ⟨e, rfl⟩, hrelease, hdel⟩ :=
        isAfterwards_of_move (Run.step_move hrun) hpc
      · exact .disposed (by simpa [Disposed] using hdisposed) rfl hpc'
      · have hlog : s.log ≠ [] := by
          obtain hlog | hlog := hdisposed <;> simp [hlog]
        simp [Untroubled, hlog, hrelease, hdel] at hl

/-- Another thread does not touch the entry while the run holds it. -/
theorem Inv.other {o : ClientSocketPool.Op} (hi : Inv fd s)
    (hstep : step env fd s (.other o) = some s') : Inv fd s' := by
  unfold step at hstep
  obtain ⟨hkept, hs'⟩ := Option.ite_none_left_eq_some.mp hstep
  obtain rfl := Option.some.inj hs'
  cases hi with
  | held hlog hstage hin hpc =>
      refine .held hlog hstage ?_ hpc
      have hsame : (s.pool.exec o).state.status fd = s.pool.status fd := by
        by_contra hne
        exact hkept ⟨hlog, hne⟩
      rw [inUse, hsame]
      exact hin
  | pending hlog hstage hpc => exact .pending hlog hstage hpc
  | deleted hlog hstage hpc => exact .deleted hlog hstage hpc
  | unregistered hlog hstage hpc => exact .unregistered hlog hstage hpc
  | disposed hdisposed hstage hpc => exact .disposed hdisposed hstage hpc

theorem Inv.step {l : Label} (hi : Inv fd s) (hl : s.Untroubled l)
    (hstep : step env fd s l = some s') : Inv fd s' := by
  cases l with
  | call a => exact hi.call hl hstep
  | other o => exact hi.other hstep

/-! ## trouble -/

/-- A call on the pool. -/
def isCall : SocketEvent → Bool
  | .setCsPending _ | .delCsInUse _ => true
  | _ => false

/-- How often the run has disposed of the socket. -/
def calls (s : Disposal) : Nat := s.log.countP isCall

theorem Disposed.calls (h : s.Disposed) : s.calls = 1 := by
  unfold Disposal.calls
  obtain hlog | hlog := h <;> rw [hlog] <;> rfl

/-- The socket will have been disposed of twice, or in part. -/
inductive Doomed (s : Disposal) : Prop where
  | again (hcalls : 1 ≤ s.calls) (hstage : s.stage = .delCsInUse) (hpc : s.run.pc = .closeClient)
  | twice (hcalls : 2 ≤ s.calls)
  | short (hnot : ¬ s.Disposed) (hpc : s.run.pc = .del ∨ s.run.pc = .done)

/-- The first exception after the disposal has begun. -/
theorem Inv.doomed {l : Label} (hi : Inv fd s) (hl : ¬ s.Untroubled l)
    (hstep : Disposal.step env fd s l = some s') : Doomed s' := by
  obtain ⟨e, rfl⟩ : ∃ e, l = .call (.raise e) := by
    unfold Untroubled at hl
    split at hl
    · exact ⟨_, rfl⟩
    · exact absurd trivial hl
  simp only [Untroubled, not_or] at hl
  obtain ⟨hne, hrelease, hdel⟩ := hl
  -- out of `__close_client_connection`
  have hclosing (hpc : isClosing s.run.pc) (hcalls : 1 ≤ s.calls) (hnot : ¬ s.Disposed)
      (hgo : s.goOn env (.raise e) [] = some s') : Doomed s' := by
    obtain ⟨run, hrun, rfl⟩ := goOn_cases hgo
    obtain hclose | hdel := step_of_closing_raise hpc hrun
    · exact .again (by simpa [calls] using hcalls) rfl hclose
    · exact .short (by simpa [Disposed] using hnot) (Or.inl hdel)
  cases hi with
  | held hlog hstage hin hpc => exact absurd hlog hne
  | @pending next hlog hstage hpc =>
      have hgo : s.goOn env (.raise e) [] = some s' := by
        simpa [Disposal.step, hpc] using hstep
      obtain ⟨run, hrun, rfl⟩ := goOn_cases hgo
      simp only [Run.step, hpc, Run.simply, Option.some.injEq] at hrun
      exact .again (by simp [calls, hlog, isCall]) rfl (hrun ▸ rfl)
  | deleted hlog hstage hpc =>
      obtain ⟨ha, -⟩ | ⟨e', -, hgo⟩ :=
        closeClientConnection_unregister hstage (step_closing hpc hstep)
      · cases ha
      · exact hclosing hpc (by simp [calls, hlog, isCall]) (by simp [Disposed, hlog]) hgo
  | unregistered hlog hstage hpc =>
      obtain ⟨ha, -⟩ | ⟨e', -, hgo⟩ :=
        closeClientConnection_close hstage (step_closing hpc hstep)
      · cases ha
      · exact hclosing hpc (by simp [calls, hlog, isCall]) (by simp [Disposed, hlog]) hgo
  | disposed hdisposed hstage hpc =>
      obtain ⟨run, hrun, rfl⟩ := goOn_cases (step_afterwards hpc hstep)
      obtain ⟨-, hkept⟩ | ⟨hclose, -⟩ := isAfterwards_of_move (Run.step_move hrun) hpc
      · obtain hpc' | hpc' := hkept ⟨e, rfl⟩
        · exact absurd hpc' hrelease
        · exact absurd hpc' hdel
      · have hcalls := hdisposed.calls
        exact .again (by simpa [calls] using Nat.le_of_eq hcalls.symm) rfl hclose

/-- What has been done is not undone. -/
theorem step_log {l : Label} (hstep : step env fd s l = some s') :
    ∃ events, s'.log = s.log ++ events := by
  have hgo (pool : ClientSocketPool) (a : Answer) (events : List SocketEvent)
      (h : { s with pool }.goOn env a events = some s') : ∃ events, s'.log = s.log ++ events := by
    obtain ⟨run, -, rfl⟩ := goOn_cases h
    exact ⟨events, rfl⟩
  have hclose {a : Answer} (h : s.closeClientConnection env fd a = some s') :
      ∃ events, s'.log = s.log ++ events := by
    cases hstage : s.stage with
    | delCsInUse =>
        simp only [closeClientConnection, hstage] at h
        split at h
        · obtain rfl := Option.some.inj h
          exact ⟨_, rfl⟩
        · exact hgo _ _ _ h
        · cases h
    | unregister =>
        obtain ⟨-, rfl⟩ | ⟨e, -, h⟩ := closeClientConnection_unregister hstage h
        · exact ⟨_, rfl⟩
        · exact hgo s.pool _ _ h
    | close =>
        obtain ⟨-, h⟩ | ⟨e, -, h⟩ := closeClientConnection_close hstage h
        · exact hgo s.pool _ _ h
        · exact hgo s.pool _ _ h
  cases l with
  | call a =>
      simp only [step] at hstep
      split at hstep
      · unfold setCsPending at hstep
        split at hstep
        · exact hgo _ _ _ hstep
        · exact hgo _ _ _ hstep
        · cases hstep
      · exact hgo s.pool _ _ hstep
      · exact hclose hstep
      · exact hclose hstep
      · exact hgo s.pool _ _ hstep
  | other o =>
      unfold step at hstep
      obtain ⟨-, hs'⟩ := Option.ite_none_left_eq_some.mp hstep
      obtain rfl := Option.some.inj hs'
      exact ⟨[], by simp⟩

theorem closeClientConnection_calls {a : Answer} (hstage : s.stage = .delCsInUse)
    (h : s.closeClientConnection env fd a = some s') : s'.calls = s.calls + 1 := by
  simp only [closeClientConnection, hstage] at h
  split at h
  · obtain rfl := Option.some.inj h
    simp [calls, isCall]
  · obtain ⟨run, -, rfl⟩ := goOn_cases h
    simp [calls, isCall]
  · cases h

/-- There is no way back from it. -/
theorem Doomed.step {l : Label} (hd : Doomed s) (hstep : step env fd s l = some s') :
    Doomed s' := by
  obtain ⟨events, hlog⟩ := step_log hstep
  cases hd with
  | twice hcalls =>
      refine .twice ?_
      unfold calls at hcalls ⊢
      rw [hlog, List.countP_append]
      omega
  | again hcalls hstage hpc =>
      cases l with
      | call a =>
          have hclose := step_closing (by rw [hpc]; rfl) hstep
          have hcalls' := closeClientConnection_calls hstage hclose
          exact .twice (by omega)
      | other o =>
          unfold Disposal.step at hstep
          obtain ⟨-, hs'⟩ := Option.ite_none_left_eq_some.mp hstep
          obtain rfl := Option.some.inj hs'
          exact .again hcalls hstage hpc
  | short hnot hpc =>
      cases l with
      | call a =>
          have hafter : isAfterwards s.run.pc := by
            obtain hpc | hpc := hpc <;> rw [hpc] <;> rfl
          obtain ⟨run, hrun, rfl⟩ := goOn_cases (step_afterwards hafter hstep)
          obtain hpc | hpc := hpc
          · have hmove := Run.step_move hrun
            refine .short (by simpa [Disposed] using hnot) (Or.inr ?_)
            cases hmove <;> grind
          · simp [Run.step, hpc] at hrun
      | other o =>
          unfold Disposal.step at hstep
          obtain ⟨-, hs'⟩ := Option.ite_none_left_eq_some.mp hstep
          obtain rfl := Option.some.inj hs'
          exact .short hnot hpc

/-! ## results -/

/-- **Disposal**: a run of `handle_client` that has ended has put the socket back and armed
it, or taken it out, unregistered and closed it, each once and when it was in use, exactly
when no call raised after the disposal had begun. -/
theorem disposed_iff_untroubled {pool : ClientSocketPool} {cs : ClientSocket}
    (hcs : pool.status cs.fd = some (cs, true)) {ls : List Label} {t : Disposal}
    (hrun : Trans.run (step env cs.fd) { pool } ls = some t) (hdone : t.run.pc = .done) :
    t.Disposed ↔ Guarded (step env cs.fd) Untroubled { pool } ls := by
  apply last_iff_guarded (step env cs.fd) (I := Inv cs.fd) (D := Doomed)
    (F := fun s => s.run.pc = .done) (Q := Disposed)
  · exact fun s l s' hi hl hstep => hi.step hl hstep
  · exact fun s l s' hi hl hstep => hi.doomed hl hstep
  · exact fun s l s' hd hstep => hd.step hstep
  · intro s hi hpc
    cases hi with
    | disposed hdisposed => exact hdisposed
    | held _ _ _ hpc' | pending _ _ hpc' | deleted _ _ hpc' | unregistered _ _ hpc' =>
        rw [hpc] at hpc'
        cases hpc'
  · intro s hd hpc hdisposed
    cases hd with
    | again _ _ hpc' =>
        rw [hpc] at hpc'
        cases hpc'
    | twice hcalls =>
        have hone := hdisposed.calls
        omega
    | short hnot => exact hnot hdisposed
  · exact .held rfl rfl (by simp [inUse, hcs]) rfl
  · exact hrun
  · exact hdone

/-! ## an endpoint's connection that raises when it is closed -/

/-- A client's socket. -/
def client : ClientSocket := ⟨7, 0⟩

/-- It has been accepted and handed to a worker. -/
def handedOver : Disposal where
  pool := ((ClientSocketPool.empty.addCsPending client).state.getCsAndSetInUse client.fd).state

/-- The client has gone. -/
def dropped : List Label := [.read .drop, .ok, .ok, .ok, .ok].map .call

theorem disposed_iff_untroubled_dropped :
    ∃ t, Trans.run (step Mediation.localhost client.fd) handedOver dropped = some t ∧
      t.run.pc = .done ∧
      (t.Disposed ↔
        Guarded (step Mediation.localhost client.fd) Untroubled handedOver dropped) := by
  have hrun : ((Trans.run (step Mediation.localhost client.fd) handedOver dropped).map
      fun t => t.run.pc) = some .done := by
    decide
  obtain ⟨t, ht, hdone⟩ := Option.map_eq_some_iff.mp hrun
  exact ⟨t, ht, hdone, disposed_iff_untroubled rfl ht hdone⟩

/-- A request that can be written down. -/
def request : RPCRequest := { headers := some [], content := some [] }

/-- No response comes, so the client gets an error, its socket goes back, and the connection
to the endpoint is closed, which raises. -/
def brokenClose : List Label :=
  [.read (.success request), .connection 0, .ok, .ok, .notReady, .ok, .ok, .ok,
    .raise .connection, .ok, .ok, .ok, .ok, .ok].map .call

/-- The socket is taken out of the pool and closed while it is pending. -/
theorem not_always_disposed : ¬ ∀ (env : ProxyEnv) (pool : ClientSocketPool) (cs : ClientSocket),
    pool.status cs.fd = some (cs, true) → ∀ (ls : List Label) (t : Disposal),
      Trans.run (step env cs.fd) { pool } ls = some t → t.run.pc = .done → t.Disposed := by
  intro h
  have hrun : ((Trans.run (step Mediation.localhost client.fd) handedOver brokenClose).map
      fun t => (t.run.pc, t.log)) = some (.done,
        [.setCsPending true, .modify, .delCsInUse false, .unregister, .close]) := by
    decide
  obtain ⟨t, ht, heq⟩ := Option.map_eq_some_iff.mp hrun
  obtain ⟨hdone, hlog⟩ := Prod.mk.inj heq
  have hdisposed := h _ _ client rfl _ t ht hdone
  rw [Disposed, hlog] at hdisposed
  revert hdisposed
  decide

end Disposal

end Web3Proxy
