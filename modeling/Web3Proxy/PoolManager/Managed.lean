import Web3Proxy.EndpointManager.Atomicity
import Web3Proxy.PoolManager
import Web3Proxy.RPCRequest

/-!
# Web3Proxy.PoolManager.Managed

`EndpointConnectionPoolManager` with pools that come and go (`pool_manager.py`): `add_pool`
and `remove_pool` beside `get_connection`, under the one lock, with all three load balancers
(`load_balancers.py`).

A pool is represented by its endpoint, as in `EndpointStore`.  `remove_pool` closes the pool
before it deletes it, under the lock of the manager, which keeps other calls of the manager
away and not the methods of the pools.

* `Next`, `step_call` — what a step of `get_connection` does;
* `Inv` — pools stand under their own names, those that a call with the lock looks at are
  there, and `ConstantLoadBalancer` picks the pool that the request names.
-/

namespace Web3Proxy

open Py Trans

/-- The load balancers. -/
inductive Balancer where
  | picking (b : LoadBalancer)
  | constant
deriving DecidableEq, Repr

/-- What `get_connection` raises: `NoActivePoolsError`, `NoPoolPickedError`, "the pool is
disabled", or what `EndpointConnection(endpoint)` does. -/
inductive RouteError where
  | noActivePools
  | noPoolPicked
  | disabled
  | notConnected
deriving DecidableEq, Repr

/-- Who has the lock: a call of `get_connection`, or one of `remove_pool`. -/
inductive Holder where
  | call (w : CallId)
  | removePool (name : String)
deriving DecidableEq, Repr

/-- `EndpointConnectionPoolManager`, with the calls that are made of it; of the store only
`pools` and `created` matter. -/
structure EndpointConnectionPoolManager where
  loadBalancer : Balancer
  store : EndpointStore := {}
  pool : RPCEndpoint → EndpointConnectionPool := fun _ => {}
  lock : Option Holder := none
  calls : CallId → CallPc RPCEndpoint RouteError := fun _ => .start

/-- `ConstantLoadBalancer.pick_pool(req, pools)`. -/
def ConstantLoadBalancer.pickPool (req : RPCRequest) (pools : List RPCEndpoint) :
    Option RPCEndpoint :=
  match req.constantPool with
  | none => none
  | some poolName => pools.find? fun pool => pool.name = poolName

namespace EndpointConnectionPoolManager

/-- What a step of a call is given. -/
inductive Input where
  | none
  | index (randomIndex : Nat)
  | connection (c : ConnId) (now : Int)
  | notConnected (now : Int)
deriving DecidableEq, Repr

/-- A step of a call, a call of `add_pool`, a section of `remove_pool`, a call of a method of a
pool, or a pass of its cleanup thread. -/
inductive Label where
  | call (w : CallId) (input : Input)
  | addPool (name : String) (d : EndpointConnectionDescriptor)
  | closePool (name : String)
  | delPool (name : String)
  | pool (e : RPCEndpoint) (o : EndpointConnectionPool.Op)
  | cleanup (e : RPCEndpoint) (cfg : PoolConfig) (now : Int)
deriving DecidableEq

variable (m : EndpointConnectionPoolManager) (w : CallId) (pc : CallPc RPCEndpoint RouteError)

/-- The pools, oldest first. -/
def values : List RPCEndpoint := m.store.pools.items.map Prod.snd

/-- The call goes on at `pc`. -/
def goto : EndpointConnectionPoolManager := { m with calls := Function.update m.calls w pc }

/-- The call leaves the `with` statement and goes on at `pc`. -/
def leave : EndpointConnectionPoolManager := { m.goto w pc with lock := none }

/-- A pool has changed. -/
def setPool (e : RPCEndpoint) (p : EndpointConnectionPool) : EndpointConnectionPoolManager :=
  { m with pool := Function.update m.pool e p }

/-- What comes after `__get_active_pools`. -/
def pickPool (req : RPCRequest) (activePools : List RPCEndpoint) :
    EndpointConnectionPoolManager :=
  if activePools = [] then m.leave w (.raised .noActivePools)
  else match m.loadBalancer with
    | .picking .random => m.goto w (.pick activePools)
    | .picking .leastBusy => m.goto w (.utilization activePools [])
    | .constant =>
        match ConstantLoadBalancer.pickPool req activePools with
        | none => m.leave w (.raised .noPoolPicked)
        | some e => m.leave w (.getIdle e)

/-- The first section of the pool's `get`. -/
def getIdle (e : RPCEndpoint) : EndpointConnectionPoolManager :=
  match (m.pool e).getIdle false with
  | .raise _ p => (m.setPool e p).goto w (.raised .disabled)
  | .ok none p => (m.setPool e p).goto w (.connect e)
  | .ok (some c) p => (m.setPool e p).goto w (.busyAdd e c false)

/-- A step of `get_connection(req)`. -/
def getConnection (req : RPCRequest) : Input → Option EndpointConnectionPoolManager
  | .none => match m.calls w with
      | .start =>
          if m.lock = none then
            some ({ m with lock := some (.call w) }.goto w (.activePools m.values []))
          else none
      | .activePools (e :: todo) found =>
          some (m.goto w (.activePools todo
            (if (m.pool e).isActive then found ++ [e] else found)))
      | .activePools [] found => some (m.pickPool w req found)
      | .utilization (e :: todo) found =>
          some (m.goto w (.utilization todo
            (found ++ [((m.pool e).busyConnections.card, e)])))
      | .utilization [] found => some (m.goto w (.pick (leastBusyPools found)))
      | .getIdle e => some (m.getIdle w e)
      | .busyAdd e c isNew =>
          some ((m.setPool e ((m.pool e).busyAdd c)).goto w (.returned e c isNew))
      | _ => none
  | .index randomIndex => match m.calls w with
      | .pick pools => pools[randomIndex]?.map fun e => m.leave w (.getIdle e)
      | _ => none
  | .connection c now => match m.calls w with
      | .connect e =>
          some ((m.setPool e ((m.pool e).established c now)).goto w (.busyAdd e c true))
      | _ => none
  | .notConnected now => match m.calls w with
      | .connect e =>
          some ((m.setPool e ((m.pool e).notEstablished now)).goto w (.raised .notConnected))
      | _ => none

/-- `add_pool(name, conn_descr)`. -/
def addPool (name : String) (d : EndpointConnectionDescriptor) :
    Option EndpointConnectionPoolManager :=
  if m.lock = none then
    match m.store.addPool name d with
    | .ok (e, store) => some ({ m with store }.setPool e {})
    | .error _ => some m  -- `PoolAlreadyExistsError`
  else none

/-- `remove_pool(name)` up to the `close()` of the pool. -/
def closePool (name : String) : Option EndpointConnectionPoolManager :=
  if m.lock = none then
    match m.store.pools.get? name with
    | some e => some { m.setPool e (m.pool e).close.state with lock := some (.removePool name) }
    | none => some m  -- `PoolDoesNotExistError`
  else none

/-- The rest of `remove_pool(name)`. -/
def delPool (name : String) : Option EndpointConnectionPoolManager :=
  if m.lock = some (.removePool name) then
    match m.store.removePool name with
    | .ok (_, store) => some { m with store, lock := none }
    | .error _ => none
  else none

/-- One step, where `reqs` are the requests of the calls. -/
def step (reqs : CallId → RPCRequest) (m : EndpointConnectionPoolManager) :
    Label → Option EndpointConnectionPoolManager
  | .call w input => m.getConnection w (reqs w) input
  | .addPool name d => m.addPool name d
  | .closePool name => m.closePool name
  | .delPool name => m.delPool name
  | .pool e o => some (m.setPool e ((m.pool e).call o))
  | .cleanup e cfg now => some (m.setPool e ((m.pool e).cleanupPass cfg now).state)

/-! ## what a step of a call does -/

/-- Where a call can go from where it stands. -/
inductive Next (m : EndpointConnectionPoolManager) (req : RPCRequest) :
    CallPc RPCEndpoint RouteError → CallPc RPCEndpoint RouteError → Prop
  | start : Next m req .start (.activePools m.values [])
  | found {e todo found} (hactive : (m.pool e).status = .active) :
      Next m req (.activePools (e :: todo) found) (.activePools todo (found ++ [e]))
  | skipped {e todo found} (hactive : (m.pool e).status ≠ .active) :
      Next m req (.activePools (e :: todo) found) (.activePools todo found)
  | noActivePools : Next m req (.activePools [] []) (.raised .noActivePools)
  | random {found} (hne : found ≠ []) (hbalancer : m.loadBalancer ≠ .constant) :
      Next m req (.activePools [] found) (.pick found)
  | leastBusy {found} (hne : found ≠ []) (hbalancer : m.loadBalancer ≠ .constant) :
      Next m req (.activePools [] found) (.utilization found [])
  | constant {found e} (hpick : ConstantLoadBalancer.pickPool req found = some e) :
      Next m req (.activePools [] found) (.getIdle e)
  | noPoolPicked {found} (hpick : ConstantLoadBalancer.pickPool req found = none) :
      Next m req (.activePools [] found) (.raised .noPoolPicked)
  | measured {e todo found} (n : Nat) :
      Next m req (.utilization (e :: todo) found) (.utilization todo (found ++ [(n, e)]))
  | least {found} : Next m req (.utilization [] found) (.pick (leastBusyPools found))
  | picked {e pools} (he : e ∈ pools) : Next m req (.pick pools) (.getIdle e)
  | disabled {e} (hactive : (m.pool e).status ≠ .active) :
      Next m req (.getIdle e) (.raised .disabled)
  | noIdle {e} (hactive : (m.pool e).status = .active) : Next m req (.getIdle e) (.connect e)
  | idle {e} (c : ConnId) (hactive : (m.pool e).status = .active) :
      Next m req (.getIdle e) (.busyAdd e c false)
  | connected {e} (c : ConnId) : Next m req (.connect e) (.busyAdd e c true)
  | notConnected {e} : Next m req (.connect e) (.raised .notConnected)
  | added {e c isNew} : Next m req (.busyAdd e c isNew) (.returned e c isNew)

/-- What a step of a call does to the manager. -/
structure CallStep (m : EndpointConnectionPoolManager) (req : RPCRequest) (w : CallId)
    (m' : EndpointConnectionPoolManager) : Prop where
  next : Next m req (m.calls w) (m'.calls w)
  calls : ∀ v, v ≠ w → m'.calls v = m.calls v
  store : m'.store = m.store
  loadBalancer : m'.loadBalancer = m.loadBalancer
  status : ∀ e, (m'.pool e).status = (m.pool e).status
  lock : m'.lock = if (m'.calls w).hasLock then
    (if m.calls w = .start then some (.call w) else m.lock) else
    (if (m.calls w).hasLock then none else m.lock)
  free : m.calls w = .start → m.lock = none

variable {m w} {m' : EndpointConnectionPoolManager} {req : RPCRequest}

/-- The status of the pools, when one has changed but for its status. -/
theorem status_setPool {e : RPCEndpoint} {p : EndpointConnectionPool}
    (h : p.status = (m.pool e).status) (e' : RPCEndpoint) :
    ((m.setPool e p).pool e').status = (m.pool e').status := by
  by_cases he : e' = e
  · simp [setPool, he, h]
  · simp [setPool, he]

/-- A step that goes on at `pc`. -/
theorem callStep_goto {n : EndpointConnectionPoolManager} (hnext : Next m req (m.calls w) pc)
    (hcalls : n.calls = m.calls) (hstore : n.store = m.store)
    (hbalancer : n.loadBalancer = m.loadBalancer)
    (hstatus : ∀ e, (n.pool e).status = (m.pool e).status)
    (hlock : n.lock = if pc.hasLock then
      (if m.calls w = .start then some (.call w) else m.lock) else
      (if (m.calls w).hasLock then none else m.lock))
    (hfree : m.calls w = .start → m.lock = none) : CallStep m req w (n.goto w pc) := by
  have hself : (n.goto w pc).calls w = pc := by simp [goto]
  refine ⟨?_, fun v hv => ?_, hstore, hbalancer, hstatus, ?_, hfree⟩
  · rw [hself]
    exact hnext
  · simp [goto, hv, hcalls]
  · rw [hself]
    exact hlock

theorem callStep_getIdle {e : RPCEndpoint} (hpc : m.calls w = .getIdle e) :
    CallStep m req w (m.getIdle w e) := by
  have hserves : (m.pool e).Serves false ↔ (m.pool e).status = .active := by
    simp [EndpointConnectionPool.Serves]
  unfold EndpointConnectionPoolManager.getIdle
  obtain ⟨hnot, hget⟩ | ⟨hyes, -, hget⟩ | ⟨c, q, hyes, -, hget⟩ := (m.pool e).getIdle_cases false
  · rw [hget]
    exact callStep_goto _ (hpc ▸ .disabled fun h => hnot (hserves.mpr h)) rfl rfl rfl
      (status_setPool rfl) (by simp [hpc, CallPc.hasLock, setPool]) (by simp [hpc])
  · rw [hget]
    exact callStep_goto _ (hpc ▸ .noIdle (hserves.mp hyes)) rfl rfl rfl (status_setPool rfl)
      (by simp [hpc, CallPc.hasLock, setPool]) (by simp [hpc])
  · rw [hget]
    exact callStep_goto _ (hpc ▸ .idle c (hserves.mp hyes)) rfl rfl rfl (status_setPool rfl)
      (by simp [hpc, CallPc.hasLock, setPool]) (by simp [hpc])

theorem callStep_pickPool {found : List RPCEndpoint} (hpc : m.calls w = .activePools [] found) :
    CallStep m req w (m.pickPool w req found) := by
  -- the call goes on with the lock, or leaves it
  have hkeeps (pc : CallPc RPCEndpoint RouteError) (hnext : Next m req (.activePools [] found) pc)
      (hlock : pc.hasLock = true) : CallStep m req w (m.goto w pc) :=
    callStep_goto _ (hpc ▸ hnext) rfl rfl rfl (fun _ => rfl) (by simp [hpc, hlock])
      (by simp [hpc])
  have hleaves (pc : CallPc RPCEndpoint RouteError) (hnext : Next m req (.activePools [] found) pc)
      (hlock : pc.hasLock = false) : CallStep m req w (m.leave w pc) :=
    callStep_goto (n := { m with lock := none }) _ (hpc ▸ hnext) rfl rfl rfl (fun _ => rfl)
      (by rw [hlock, hpc]; rfl) (by simp [hpc])
  unfold pickPool
  split
  next hnil =>
    subst hnil
    exact hleaves _ .noActivePools rfl
  next hne =>
    split
    next hbalancer => exact hkeeps _ (.random hne (by simp [hbalancer])) rfl
    next hbalancer => exact hkeeps _ (.leastBusy hne (by simp [hbalancer])) rfl
    next hbalancer =>
      split
      next hpick => exact hleaves _ (.noPoolPicked hpick) rfl
      next e hpick => exact hleaves _ (.constant hpick) rfl

/-- **A step of a call.** -/
theorem step_call {input : Input} (h : m.getConnection w req input = some m') :
    CallStep m req w m' := by
  unfold getConnection at h
  cases input with
  | none =>
      cases hpc : m.calls w with
      | start =>
          simp only [hpc] at h
          obtain ⟨hlock, hm'⟩ := Option.ite_none_right_eq_some.mp h
          obtain rfl := Option.some.inj hm'
          exact callStep_goto _ (hpc ▸ .start) rfl rfl rfl (fun _ => rfl)
            (by simp [hpc, CallPc.hasLock]) fun _ => hlock
      | activePools todo found =>
          simp only [hpc] at h
          cases todo with
          | nil =>
              obtain rfl := Option.some.inj h
              exact callStep_pickPool hpc
          | cons e todo =>
              obtain rfl := Option.some.inj h
              refine callStep_goto _ ?_ rfl rfl rfl (fun _ => rfl) (by simp [hpc, CallPc.hasLock])
                (by simp [hpc])
              rw [hpc]
              by_cases hactive : (m.pool e).status = .active
              · rw [if_pos (by simp [hactive])]
                exact .found hactive
              · rw [if_neg (by simp [hactive])]
                exact .skipped hactive
      | utilization todo found =>
          simp only [hpc] at h
          cases todo with
          | nil =>
              obtain rfl := Option.some.inj h
              exact callStep_goto _ (hpc ▸ .least) rfl rfl rfl (fun _ => rfl)
                (by simp [hpc, CallPc.hasLock]) (by simp [hpc])
          | cons e todo =>
              obtain rfl := Option.some.inj h
              exact callStep_goto _ (hpc ▸ .measured _) rfl rfl rfl (fun _ => rfl)
                (by simp [hpc, CallPc.hasLock]) (by simp [hpc])
      | getIdle e =>
          simp only [hpc] at h
          obtain rfl := Option.some.inj h
          exact callStep_getIdle hpc
      | busyAdd e c isNew =>
          simp only [hpc] at h
          obtain rfl := Option.some.inj h
          exact callStep_goto _ (hpc ▸ .added) rfl rfl rfl (status_setPool rfl)
            (by simp [hpc, CallPc.hasLock, setPool]) (by simp [hpc])
      | _ => simp [hpc] at h
  | index randomIndex =>
      cases hpc : m.calls w with
      | pick pools =>
          simp only [hpc] at h
          obtain ⟨e, he, rfl⟩ := Option.map_eq_some_iff.mp h
          exact callStep_goto (n := { m with lock := none }) _
            (hpc ▸ .picked (List.mem_of_getElem? he)) rfl rfl rfl (fun _ => rfl)
            (by simp [hpc, CallPc.hasLock]) (by simp [hpc])
      | _ => simp [hpc] at h
  | connection c now | notConnected now =>
      cases hpc : m.calls w with
      | connect e =>
          simp only [hpc] at h
          obtain rfl := Option.some.inj h
          first
            | exact callStep_goto _ (hpc ▸ .connected c) rfl rfl rfl (status_setPool rfl)
                (by simp [hpc, CallPc.hasLock, setPool]) (by simp [hpc])
            | exact callStep_goto _ (hpc ▸ .notConnected) rfl rfl rfl (status_setPool rfl)
                (by simp [hpc, CallPc.hasLock, setPool]) (by simp [hpc])
      | _ => simp [hpc] at h

/-! ## what a step of an administrator does -/

/-- What `add_pool` does, unless the name is taken. -/
theorem addPool_cases {name : String} {d : EndpointConnectionDescriptor}
    (h : m.addPool name d = some m') : m.lock = none ∧ (m' = m ∨
      ∃ e : RPCEndpoint, m.store.pools.get? name = none ∧
        e = { name, connDescr := d, connStats := m.store.created } ∧
        m' = { m with store := m.store.withPool name d }.setPool e {}) := by
  obtain ⟨hlock, h⟩ := Option.ite_none_right_eq_some.mp h
  refine ⟨hlock, ?_⟩
  cases hget : m.store.pools.get? name with
  | some e =>
      rw [EndpointStore.addPool_of_some d hget] at h
      exact Or.inl (Option.some.inj h).symm
  | none =>
      rw [EndpointStore.addPool_of_none d hget] at h
      obtain rfl := Option.some.inj h
      exact Or.inr ⟨_, rfl, rfl, rfl⟩

/-- What the first section of `remove_pool` does, if there is the pool. -/
theorem closePool_cases {name : String} (h : m.closePool name = some m') :
    m.lock = none ∧ (m.store.pools.get? name = none ∧ m' = m ∨
      ∃ e, m.store.pools.get? name = some e ∧
        m' = { m.setPool e (m.pool e).close.state with lock := some (.removePool name) }) := by
  obtain ⟨hlock, h⟩ := Option.ite_none_right_eq_some.mp h
  refine ⟨hlock, ?_⟩
  split at h
  next e hget => exact Or.inr ⟨e, hget, (Option.some.inj h).symm⟩
  next hget => exact Or.inl ⟨hget, (Option.some.inj h).symm⟩

/-- What the second one does. -/
theorem delPool_cases {name : String} (h : m.delPool name = some m') :
    m.lock = some (.removePool name) ∧
      m' = { m with store := m.store.withoutPool name, lock := none } := by
  obtain ⟨hlock, h⟩ := Option.ite_none_right_eq_some.mp h
  refine ⟨hlock, ?_⟩
  cases hget : m.store.pools.get? name with
  | none => simp [EndpointStore.removePool_of_none hget] at h
  | some e =>
      rw [EndpointStore.removePool_of_some hget] at h
      exact (Option.some.inj h).symm

/-! ## invariant -/

/-- `ConstantLoadBalancer` picks the pool that the request names. -/
def Routed (req : RPCRequest) : CallPc RPCEndpoint RouteError → Prop
  | .utilization _ _ | .pick _ => False
  | .getIdle e | .connect e | .busyAdd e _ _ | .returned e _ _ => req.constantPool = some e.name
  | _ => True

/-- The pool stands under its name. -/
def Registered (m : EndpointConnectionPoolManager) (e : RPCEndpoint) : Prop :=
  m.store.pools.get? e.name = some e

/-- The pools stand under their names, and are not those to come. -/
def Placed (m : EndpointConnectionPoolManager) : Prop :=
  ∀ name e, m.store.pools.get? name = some e → e.name = name ∧ e.connStats < m.store.created

/-- While a call has the lock, the pools that it looks at are there. -/
def Known (m : EndpointConnectionPoolManager) : CallPc RPCEndpoint RouteError → Prop
  | .activePools todo found => (∀ e ∈ todo, m.Registered e) ∧ ∀ e ∈ found, m.Registered e
  | _ => True

/-- What holds of every state. -/
structure Inv (reqs : CallId → RPCRequest) (m : EndpointConnectionPoolManager) : Prop where
  placed : m.Placed
  lock : ∀ w, m.lock = some (.call w) ↔ (m.calls w).hasLock = true
  known : ∀ w, m.Known (m.calls w)
  routed : m.loadBalancer = .constant → ∀ w, Routed (reqs w) (m.calls w)

theorem inv_init (reqs : CallId → RPCRequest) (loadBalancer : Balancer) :
    Inv reqs { loadBalancer } where
  placed := fun name e h => by cases h
  lock := fun w => by simp [CallPc.hasLock]
  known := fun w => trivial
  routed := fun _ w => trivial

theorem name_of_pickPool {found : List RPCEndpoint} {e : RPCEndpoint}
    (h : ConstantLoadBalancer.pickPool req found = some e) :
    e ∈ found ∧ req.constantPool = some e.name := by
  unfold ConstantLoadBalancer.pickPool at h
  split at h
  · cases h
  · next poolName hname =>
    refine ⟨List.mem_of_find?_eq_some h, ?_⟩
    have hfound := List.find?_some h
    rw [hname, of_decide_eq_true hfound]

theorem Next.routed {pc pc' : CallPc RPCEndpoint RouteError} (h : Next m req pc pc')
    (hbalancer : m.loadBalancer = .constant) (hrouted : Routed req pc) : Routed req pc' := by
  cases h with
  | random _ hpicking | leastBusy _ hpicking => exact hpicking hbalancer
  | constant hpick => exact (name_of_pickPool hpick).2
  | measured n => exact hrouted
  | least => exact hrouted
  | picked he => exact hrouted.elim
  | noIdle _ | idle _ _ | connected _ | added => exact hrouted
  | _ => trivial

theorem Next.known {pc pc' : CallPc RPCEndpoint RouteError} (h : Next m req pc pc')
    (hplaced : m.Placed) (hknown : m.Known pc) : m.Known pc' := by
  cases h with
  | start =>
      refine ⟨fun e he => ?_, fun e he => by cases he⟩
      obtain ⟨⟨name, e⟩, hitem, rfl⟩ := List.mem_map.mp he
      have hget := Dict.mem_items.mp hitem
      rwa [← (hplaced name e hget).1] at hget
  | found hactive =>
      obtain ⟨htodo, hfound⟩ := hknown
      refine ⟨fun e he => htodo e (List.mem_cons_of_mem _ he), fun e he => ?_⟩
      obtain he | he := List.mem_append.mp he
      · exact hfound e he
      · rw [List.mem_singleton.mp he]
        exact htodo _ List.mem_cons_self
  | skipped hactive =>
      exact ⟨fun e he => hknown.1 e (List.mem_cons_of_mem _ he), hknown.2⟩
  | _ => trivial

theorem Known.of_store {pc : CallPc RPCEndpoint RouteError} (h : m.Known pc)
    (hstore : m'.store = m.store) :
    m'.Known pc := by
  unfold Known Registered at h ⊢
  rwa [hstore]

/-- A step that leaves the calls alone, and the store unless no call looks at it. -/
theorem Inv.of_calls {reqs : CallId → RPCRequest} (hi : Inv reqs m)
    (hplaced : m'.Placed) (hlock : ∀ w, m'.lock = some (.call w) ↔ m.lock = some (.call w))
    (hstore : m'.store = m.store ∨ ∀ w, m.lock ≠ some (.call w))
    (hcalls : m'.calls = m.calls) (hbalancer : m'.loadBalancer = m.loadBalancer) :
    Inv reqs m' where
  placed := hplaced
  lock := fun w => by rw [hlock, hcalls, hi.lock]
  known := fun w => by
    have hknown := hi.known w
    rw [hcalls]
    obtain hstore | hfree := hstore
    · exact hknown.of_store hstore
    · -- no call is between `start` and the pick
      have hno := hfree w
      rw [Ne, hi.lock] at hno
      cases hpc : m.calls w with
      | activePools todo found => simp [hpc, CallPc.hasLock] at hno
      | _ => trivial
  routed := fun hconstant w => by
    rw [hcalls]
    exact hi.routed (hbalancer ▸ hconstant) w

/-- Only `start` leads to the lock. -/
theorem Next.hasLock {pc pc' : CallPc RPCEndpoint RouteError} (h : Next m req pc pc')
    (hlock : pc'.hasLock = true) :
    pc = .start ∨ pc.hasLock = true := by
  cases h <;> simp_all [CallPc.hasLock]

theorem Inv.call {reqs : CallId → RPCRequest} (hi : Inv reqs m)
    (h : CallStep m (reqs w) w m') : Inv reqs m' where
  placed := by
    unfold Placed
    rw [h.store]
    exact hi.placed
  lock := fun v => by
    have hv := hi.lock v
    have hw := hi.lock w
    have hnext := h.next.hasLock
    have hne := h.calls v
    have hfree := h.free
    rw [h.lock]
    by_cases hvw : v = w
    · subst hvw
      grind
    · grind
  known := fun v => by
    refine Known.of_store ?_ h.store
    by_cases hv : v = w
    · rw [hv]
      exact h.next.known hi.placed (hi.known w)
    · rw [h.calls v hv]
      exact hi.known v
  routed := fun hconstant v => by
    rw [h.loadBalancer] at hconstant
    by_cases hv : v = w
    · rw [hv]
      exact h.next.routed hconstant (hi.routed hconstant w)
    · rw [h.calls v hv]
      exact hi.routed hconstant v

/-- A new pool is none of those that are there. -/
theorem Placed.withPool (h : m.Placed) (name : String) (d : EndpointConnectionDescriptor) :
    { m with store := m.store.withPool name d }.Placed := by
  intro j e hj
  rw [EndpointStore.get?_withPool] at hj
  split at hj
  next hname =>
    obtain rfl := Option.some.inj hj
    exact ⟨hname.symm, Nat.lt_succ_self _⟩
  next => exact ⟨(h j e hj).1, Nat.lt_succ_of_lt (h j e hj).2⟩

theorem Placed.withoutPool (h : m.Placed) (name : String) :
    { m with store := m.store.withoutPool name }.Placed := by
  intro j e hj
  rw [EndpointStore.get?_withoutPool] at hj
  split at hj
  · cases hj
  · exact h j e hj

theorem Inv.step {reqs : CallId → RPCRequest} {l : Label} (hi : Inv reqs m)
    (h : step reqs m l = some m') : Inv reqs m' := by
  cases l with
  | call w input => exact hi.call (step_call h)
  | addPool name d =>
      obtain ⟨hlock, rfl | ⟨e, -, -, rfl⟩⟩ := addPool_cases h
      · exact hi
      · exact hi.of_calls (hi.placed.withPool name d) (fun w => Iff.rfl)
          (Or.inr fun w => by simp [hlock]) rfl rfl
  | closePool name =>
      obtain ⟨hlock, ⟨-, rfl⟩ | ⟨e, -, rfl⟩⟩ := closePool_cases h
      · exact hi
      · exact hi.of_calls hi.placed (fun w => by simp [hlock]) (Or.inl rfl) rfl rfl
  | delPool name =>
      obtain ⟨hlock, rfl⟩ := delPool_cases h
      exact hi.of_calls (hi.placed.withoutPool name) (fun w => by simp [hlock])
        (Or.inr fun w => by simp [hlock]) rfl rfl
  | pool e o | cleanup e cfg now =>
      obtain rfl := Option.some.inj h
      exact hi.of_calls hi.placed (fun w => Iff.rfl) (Or.inl rfl) rfl rfl

theorem Inv.run {reqs : CallId → RPCRequest} {ls : List Label} (hi : Inv reqs m)
    (h : run (EndpointConnectionPoolManager.step reqs) m ls = some m') : Inv reqs m' :=
  run_invariant _ (fun _ _ _ hi h => Inv.step hi h) hi h

end EndpointConnectionPoolManager

end Web3Proxy
