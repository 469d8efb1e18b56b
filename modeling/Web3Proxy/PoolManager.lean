import Mathlib.Logic.Function.Basic
import Web3Proxy.EndpointConnectionPool
import Web3Proxy.Lib.Dict
import Web3Proxy.Lib.Trans

/-!
# Web3Proxy.PoolManager

`get_connection` of `EndpointConnectionPoolManager` (`pool_manager.py`), with the load
balancers that always pick a pool (`load_balancers.py`) and the `get` of the picked pool.

A call looks at one pool at a time: the lock of the manager keeps other calls away, not the
methods of the pools, which have locks of their own.  The number that `randint` draws and the
connection that `EndpointConnection(endpoint)` makes come from outside.

* `Next`, `step_call` — what a step of a call does;
* `Next.stepsLeft_lt` — a call takes at most `2 n + 7` steps, where there are `n` pools;
* `always_live` — a call that has not ended can take its next step, or waits for the lock of a
  call that can.
-/

namespace Web3Proxy

open Py Trans

/-- `RandomLoadBalancer` and `LeastBusyLoadBalancer`. -/
inductive LoadBalancer where
  | random
  | leastBusy
deriving DecidableEq, Repr

/-- A call of `get_connection`. -/
abbrev CallId := Nat

/-- Where a call stands: before the lock, at the next pool of `__get_active_pools`, at the next
one of `pools_utilization`, at `randint`, and in the `get` of the picked pool.  `Pool` is what
stands for a pool, `Err` for what is raised. -/
inductive CallPc (Pool Err : Type) where
  | start
  | activePools (todo found : List Pool)
  | utilization (todo : List Pool) (found : List (Nat × Pool))
  | pick (pools : List Pool)
  | getIdle (pool : Pool)
  | connect (pool : Pool)
  | busyAdd (pool : Pool) (c : ConnId) (isNew : Bool)
  | returned (pool : Pool) (c : ConnId) (isNew : Bool)
  | raised (e : Err)
deriving DecidableEq, Repr

namespace CallPc

variable {Pool Err : Type}

/-- The call has returned or raised. -/
def isEnded : CallPc Pool Err → Bool
  | .returned _ _ _ | .raised _ => true
  | _ => false

/-- Between `start` and the pick a call has the lock. -/
def hasLock : CallPc Pool Err → Bool
  | .activePools _ _ | .utilization _ _ | .pick _ => true
  | _ => false

end CallPc

/-- The pools with `pu[0] <= min_utilization`. -/
def leastBusyPools {Pool : Type} (poolsUtilization : List (Nat × Pool)) : List Pool :=
  let minUtilization := (poolsUtilization.map Prod.fst).min?.getD 0
  (poolsUtilization.filter fun pu => pu.1 ≤ minUtilization).map Prod.snd

section LeastBusy

variable {Pool : Type}

theorem leastBusyPools_subset (found : List (Nat × Pool)) :
    leastBusyPools found ⊆ found.map Prod.snd :=
  List.map_subset Prod.snd (List.filter_subset_self _)

/-- Some pool has the minimum. -/
theorem leastBusyPools_ne_nil {found : List (Nat × Pool)} (h : found ≠ []) :
    leastBusyPools found ≠ [] := by
  obtain ⟨n, hn⟩ := Option.isSome_iff_exists.mp
    (List.isSome_min?_of_ne_nil (l := found.map Prod.fst) (by simpa using h))
  obtain ⟨pu, hpu, rfl⟩ := List.mem_map.mp (List.min?_mem hn)
  have hmem : pu ∈ found.filter fun pu' => pu'.1 ≤ ((found.map Prod.fst).min?.getD 0) := by
    simp [hn, hpu]
  exact List.ne_nil_of_mem (List.mem_map_of_mem hmem)

end LeastBusy

/-- `EndpointConnectionPoolManager`, with the calls that are made of it. -/
structure PoolManager where
  loadBalancer : LoadBalancer
  pools : Dict String EndpointConnectionPool := .empty
  lock : Option CallId := none
  calls : CallId → CallPc String Unit := fun _ => .start

namespace PoolManager

/-- What a step of a call is given. -/
inductive Input where
  | none
  | index (randomIndex : Nat)
  | connection (c : ConnId) (now : Int)
deriving DecidableEq, Repr

/-- A step of a call, or a call of a method of a pool. -/
inductive Label where
  | call (w : CallId) (input : Input)
  | pool (name : String) (o : EndpointConnectionPool.Op)
deriving DecidableEq

variable (m : PoolManager) (w : CallId) (pc : CallPc String Unit)

/-- The call goes on at `pc`. -/
def goto : PoolManager := { m with calls := Function.update m.calls w pc }

/-- The call leaves the `with` statement and goes on at `pc`. -/
def leave : PoolManager := { m.goto w pc with lock := none }

/-- A pool has changed. -/
def setPool (name : String) (pool : EndpointConnectionPool) : PoolManager :=
  { m with pools := m.pools.set name pool }

/-- What comes after `__get_active_pools`. -/
def pickPool (activePools : List String) : PoolManager :=
  if activePools = [] then m.leave w (.raised ())  -- `NoActivePoolsError`
  else match m.loadBalancer with
    | .random => m.goto w (.pick activePools)
    | .leastBusy => m.goto w (.utilization activePools [])

/-- The first section of the pool's `get`. -/
def getIdle (name : String) (pool : EndpointConnectionPool) : PoolManager :=
  match pool.getIdle false with
  | .raise _ pool => (m.setPool name pool).goto w (.raised ())  -- "the pool is disabled"
  | .ok none pool => (m.setPool name pool).goto w (.connect name)
  | .ok (some c) pool => (m.setPool name pool).goto w (.busyAdd name c false)

/-- A step of `get_connection`. -/
def getConnection : Input → Option PoolManager
  | .none => match m.calls w with
      | .start =>
          if m.lock = none then
            some ({ m with lock := some w }.goto w (.activePools m.pools.keys []))
          else none
      | .activePools (name :: todo) found =>
          (m.pools.get? name).map fun pool =>
            m.goto w (.activePools todo (if pool.isActive then found ++ [name] else found))
      | .activePools [] found => some (m.pickPool w found)
      | .utilization (name :: todo) found =>
          (m.pools.get? name).map fun pool =>
            m.goto w (.utilization todo (found ++ [(pool.busyConnections.card, name)]))
      | .utilization [] found => some (m.goto w (.pick (leastBusyPools found)))
      | .getIdle name => (m.pools.get? name).map fun pool => m.getIdle w name pool
      | .busyAdd name c isNew =>
          (m.pools.get? name).map fun pool =>
            (m.setPool name (pool.busyAdd c)).goto w (.returned name c isNew)
      | _ => none
  | .index randomIndex => match m.calls w with
      | .pick pools => pools[randomIndex]?.map fun name => m.leave w (.getIdle name)
      | _ => none
  | .connection c now => match m.calls w with
      | .connect name =>
          (m.pools.get? name).map fun pool =>
            (m.setPool name (pool.established c now)).goto w (.busyAdd name c true)
      | _ => none

/-- One step. -/
def step (m : PoolManager) : Label → Option PoolManager
  | .call w input => m.getConnection w input
  | .pool name o => (m.pools.get? name).map fun pool => m.setPool name (pool.call o)

/-! ## what a step does -/

/-- The pool is there, and active. -/
def IsActive (name : String) (m : PoolManager) : Prop :=
  ∃ pool, m.pools.get? name = some pool ∧ pool.status = .active

instance (name : String) (m : PoolManager) : Decidable (IsActive name m) :=
  decidable_of_iff ((m.pools.get? name).any (fun pool => decide (pool.status = .active)) = true)
    (by simp [IsActive, Option.any_eq_true])

/-- Where a call can go from where it stands. -/
inductive Next (m : PoolManager) : CallPc String Unit → CallPc String Unit → Prop where
  | start : Next m .start (.activePools m.pools.keys [])
  | found {name todo found} (hactive : m.IsActive name) :
      Next m (.activePools (name :: todo) found) (.activePools todo (found ++ [name]))
  | skipped {name todo found} (hactive : ¬ m.IsActive name) :
      Next m (.activePools (name :: todo) found) (.activePools todo found)
  | noActivePools : Next m (.activePools [] []) (.raised ())
  | random {found} (hne : found ≠ []) : Next m (.activePools [] found) (.pick found)
  | leastBusy {found} (hne : found ≠ []) :
      Next m (.activePools [] found) (.utilization found [])
  | measured {name todo found} (n : Nat) :
      Next m (.utilization (name :: todo) found) (.utilization todo (found ++ [(n, name)]))
  | least {found} : Next m (.utilization [] found) (.pick (leastBusyPools found))
  | picked {name pools} (hname : name ∈ pools) : Next m (.pick pools) (.getIdle name)
  | disabled {name} (hactive : ¬ m.IsActive name) : Next m (.getIdle name) (.raised ())
  | noIdle {name} (hactive : m.IsActive name) : Next m (.getIdle name) (.connect name)
  | idle {name} (c : ConnId) (hactive : m.IsActive name) :
      Next m (.getIdle name) (.busyAdd name c false)
  | connected {name} (c : ConnId) : Next m (.connect name) (.busyAdd name c true)
  | added {name c isNew} : Next m (.busyAdd name c isNew) (.returned name c isNew)

/-- What a step of a call does to the manager. -/
structure CallStep (m : PoolManager) (w : CallId) (m' : PoolManager) : Prop where
  next : Next m (m.calls w) (m'.calls w)
  calls : ∀ v, v ≠ w → m'.calls v = m.calls v
  pools : m'.pools.keys = m.pools.keys
  lock : m'.lock = if (m'.calls w).hasLock then
    (if m.calls w = .start then some w else m.lock) else
    (if (m.calls w).hasLock then none else m.lock)

variable {m} {w} {m' : PoolManager}

theorem goto_calls : (m.goto w pc).calls w = pc := by
  simp [goto]

theorem goto_calls_of_ne {v : CallId} (h : v ≠ w) : (m.goto w pc).calls v = m.calls v := by
  simp [goto, h]

theorem keys_setPool {name : String} {old : EndpointConnectionPool}
    (h : m.pools.get? name = some old) (pool : EndpointConnectionPool) :
    (m.setPool name pool).pools.keys = m.pools.keys :=
  Dict.keys_set_of_get? h

/-- A step that goes on at `pc` and may change the picked pool. -/
theorem callStep_goto {n : PoolManager} (hnext : Next m (m.calls w) pc)
    (hcalls : n.calls = m.calls) (hkeys : n.pools.keys = m.pools.keys)
    (hlock : n.lock = if pc.hasLock then
      (if m.calls w = .start then some w else m.lock) else
      (if (m.calls w).hasLock then none else m.lock)) : CallStep m w (n.goto w pc) where
  next := by
    rw [goto_calls]
    exact hnext
  calls := fun v hv => by rw [goto_calls_of_ne pc hv, hcalls]
  pools := hkeys
  lock := by
    rw [goto_calls]
    exact hlock

theorem isActive_of_get? {name : String} {pool : EndpointConnectionPool}
    (h : m.pools.get? name = some pool) : m.IsActive name ↔ pool.status = .active := by
  simp [IsActive, h]

/-- The pool that is looked up is found in the state that it has now. -/
theorem callStep_getIdle {name : String} {pool : EndpointConnectionPool}
    (hpc : m.calls w = .getIdle name) (hpool : m.pools.get? name = some pool) :
    CallStep m w (m.getIdle w name pool) := by
  have hserves : pool.Serves false ↔ m.IsActive name := by
    rw [isActive_of_get? hpool]
    simp [EndpointConnectionPool.Serves]
  unfold PoolManager.getIdle
  obtain ⟨hnot, hget⟩ | ⟨hyes, -, hget⟩ | ⟨c, q, hyes, -, hget⟩ := pool.getIdle_cases false
  · rw [hget]
    refine callStep_goto _ ?_ rfl (keys_setPool hpool _) (by simp [hpc, CallPc.hasLock, setPool])
    rw [hpc]
    exact .disabled fun hactive => hnot (hserves.mpr hactive)
  · rw [hget]
    refine callStep_goto _ ?_ rfl (keys_setPool hpool _) (by simp [hpc, CallPc.hasLock, setPool])
    rw [hpc]
    exact .noIdle (hserves.mp hyes)
  · rw [hget]
    refine callStep_goto _ ?_ rfl (keys_setPool hpool _) (by simp [hpc, CallPc.hasLock, setPool])
    rw [hpc]
    exact .idle c (hserves.mp hyes)

theorem callStep_pickPool {found : List String} (hpc : m.calls w = .activePools [] found) :
    CallStep m w (m.pickPool w found) := by
  unfold pickPool
  split
  · next hnil =>
    refine callStep_goto (n := { m with lock := none }) _ ?_ rfl rfl (by simp [hpc, CallPc.hasLock])
    rw [hpc, hnil]
    exact .noActivePools
  · next hne =>
    split
    · refine callStep_goto _ ?_ rfl rfl (by simp [hpc, CallPc.hasLock])
      rw [hpc]
      exact .random hne
    · refine callStep_goto _ ?_ rfl rfl (by simp [hpc, CallPc.hasLock])
      rw [hpc]
      exact .leastBusy hne

/-- **A step of a call.** -/
theorem step_call {input : Input} (h : m.step (.call w input) = some m') : CallStep m w m' := by
  unfold step getConnection at h
  cases input with
  | none =>
      cases hpc : m.calls w with
      | start =>
          simp only [hpc] at h
          obtain ⟨hlock, hm'⟩ := Option.ite_none_right_eq_some.mp h
          obtain rfl := Option.some.inj hm'
          exact callStep_goto _ (hpc ▸ .start) rfl rfl (by simp [hpc, CallPc.hasLock])
      | activePools todo found =>
          simp only [hpc] at h
          cases todo with
          | nil =>
              obtain rfl := Option.some.inj h
              exact callStep_pickPool hpc
          | cons name todo =>
              obtain ⟨pool, hpool, rfl⟩ := Option.map_eq_some_iff.mp h
              refine callStep_goto _ ?_ rfl rfl (by simp [hpc, CallPc.hasLock])
              rw [hpc]
              by_cases hactive : pool.status = .active
              · simp only [EndpointConnectionPool.isActive_eq, hactive, decide_true, if_true]
                exact .found ((isActive_of_get? hpool).mpr hactive)
              · simp only [EndpointConnectionPool.isActive_eq, hactive, decide_false,
                  Bool.false_eq_true, if_false]
                exact .skipped fun h => hactive ((isActive_of_get? hpool).mp h)
      | utilization todo found =>
          simp only [hpc] at h
          cases todo with
          | nil =>
              obtain rfl := Option.some.inj h
              exact callStep_goto _ (hpc ▸ .least) rfl rfl (by simp [hpc, CallPc.hasLock])
          | cons name todo =>
              obtain ⟨pool, -, rfl⟩ := Option.map_eq_some_iff.mp h
              exact callStep_goto _ (hpc ▸ .measured _) rfl rfl (by simp [hpc, CallPc.hasLock])
      | getIdle name =>
          simp only [hpc] at h
          obtain ⟨pool, hpool, rfl⟩ := Option.map_eq_some_iff.mp h
          exact callStep_getIdle hpc hpool
      | busyAdd name c isNew =>
          simp only [hpc] at h
          obtain ⟨pool, hpool, rfl⟩ := Option.map_eq_some_iff.mp h
          exact callStep_goto _ (hpc ▸ .added) rfl (keys_setPool hpool _)
            (by simp [hpc, CallPc.hasLock, setPool])
      | _ => simp [hpc] at h
  | index randomIndex =>
      cases hpc : m.calls w with
      | pick pools =>
          simp only [hpc] at h
          obtain ⟨name, hname, rfl⟩ := Option.map_eq_some_iff.mp h
          refine callStep_goto (n := { m with lock := none }) _ ?_ rfl rfl
            (by simp [hpc, CallPc.hasLock])
          rw [hpc]
          exact .picked (List.mem_of_getElem? hname)
      | _ => simp [hpc] at h
  | connection c now =>
      cases hpc : m.calls w with
      | connect name =>
          simp only [hpc] at h
          obtain ⟨pool, hpool, rfl⟩ := Option.map_eq_some_iff.mp h
          exact callStep_goto _ (hpc ▸ .connected c) rfl (keys_setPool hpool _)
            (by simp [hpc, CallPc.hasLock, setPool])
      | _ => simp [hpc] at h

/-- A call of a method of a pool changes that pool only. -/
theorem step_pool {name : String} {o : EndpointConnectionPool.Op}
    (h : m.step (.pool name o) = some m') :
    m'.calls = m.calls ∧ m'.pools.keys = m.pools.keys ∧ m'.lock = m.lock := by
  obtain ⟨pool, hpool, rfl⟩ := Option.map_eq_some_iff.mp h
  exact ⟨rfl, keys_setPool hpool _, rfl⟩

/-! ## calls go on -/

/-- The pools that a call deals with are those of the manager, and there is one to pick. -/
def Known (names : List String) : CallPc String Unit → Prop
  | .activePools todo found => todo ⊆ names ∧ found ⊆ names
  | .utilization todo found =>
      todo ⊆ names ∧ found.map Prod.snd ⊆ names ∧ 0 < todo.length + found.length
  | .pick pools => pools ⊆ names ∧ pools ≠ []
  | .getIdle name | .connect name | .busyAdd name _ _ => name ∈ names
  | _ => True

theorem Known.next {pc' : CallPc String Unit} (h : Known m.pools.keys pc) (hnext : Next m pc pc') :
    Known m.pools.keys pc' := by
  cases hnext with
  | start => exact ⟨List.Subset.refl _, List.nil_subset _⟩
  | found hactive =>
      obtain ⟨htodo, hfound⟩ := h
      obtain ⟨hname, htodo⟩ := List.cons_subset.mp htodo
      exact ⟨htodo, List.append_subset.mpr
        ⟨hfound, List.cons_subset.mpr ⟨hname, List.nil_subset _⟩⟩⟩
  | skipped hactive => exact ⟨(List.cons_subset.mp h.1).2, h.2⟩
  | random hne => exact ⟨h.2, hne⟩
  | leastBusy hne =>
      exact ⟨h.2, List.nil_subset _, Nat.add_pos_left (List.length_pos_iff.mpr hne) _⟩
  | measured n =>
      obtain ⟨htodo, hfound, -⟩ := h
      obtain ⟨hname, htodo⟩ := List.cons_subset.mp htodo
      refine ⟨htodo, ?_, by simp only [List.length_append, List.length_singleton]; omega⟩
      rw [List.map_append]
      exact List.append_subset.mpr ⟨hfound, List.cons_subset.mpr ⟨hname, List.nil_subset _⟩⟩
  | least =>
      refine ⟨List.Subset.trans (leastBusyPools_subset _) h.2.1, leastBusyPools_ne_nil ?_⟩
      exact List.length_pos_iff.mp (by simpa using h.2.2)
  | picked hname => exact h.1 hname
  | noIdle hactive => exact h
  | idle c hactive => exact h
  | connected c => exact h
  | _ => trivial

/-- What holds of every state. -/
structure Inv (m : PoolManager) : Prop where
  known : ∀ w, Known m.pools.keys (m.calls w)
  lock : ∀ w, m.lock = some w ↔ (m.calls w).hasLock = true

theorem inv_init (loadBalancer : LoadBalancer) (pools : Dict String EndpointConnectionPool) :
    Inv { loadBalancer, pools } where
  known := fun _ => trivial
  lock := fun _ => by simp [CallPc.hasLock]

/-- Only `start` leads to the lock. -/
theorem Next.hasLock {pc' : CallPc String Unit} (h : Next m pc pc') (hlock : pc'.hasLock = true) :
    pc = .start ∨ pc.hasLock = true := by
  cases h <;> simp_all [CallPc.hasLock]

theorem Inv.step {l : Label} (hi : Inv m) (h : m.step l = some m') : Inv m' := by
  cases l with
  | pool name o =>
      obtain ⟨hcalls, hkeys, hlock⟩ := step_pool h
      exact ⟨fun w => by rw [hcalls, hkeys]; exact hi.known w,
        fun w => by rw [hcalls, hlock]; exact hi.lock w⟩
  | call w input =>
      have hcall := step_call h
      have hfree : m.calls w = .start → m.lock = none := by
        intro hpc
        unfold PoolManager.step getConnection at h
        cases input <;> simp_all
      refine ⟨fun v => ?_, fun v => ?_⟩
      · rw [hcall.pools]
        by_cases hv : v = w
        · rw [hv]
          exact (hi.known w).next _ hcall.next
        · rw [hcall.calls v hv]
          exact hi.known v
      · have hv := hi.lock v
        have hw := hi.lock w
        have hnext := hcall.next.hasLock
        have hne := hcall.calls v
        rw [hcall.lock]
        by_cases hvw : v = w
        · subst hvw
          grind
        · grind

/-- A call that has not ended can go on, unless it waits for the lock. -/
theorem Inv.enabled (hi : Inv m) (hend : (m.calls w).isEnded = false)
    (hlock : m.calls w = .start → m.lock = none) :
    ∃ input m', m.step (.call w input) = some m' := by
  have hknown := hi.known w
  have hget {name : String} (hname : name ∈ m.pools.keys) :
      ∃ pool, m.pools.get? name = some pool := Dict.mem_keys.mp hname
  simp only [PoolManager.step]
  unfold getConnection
  cases hpc : m.calls w with
  | start => exact ⟨.none, by simp [hlock hpc]⟩
  | activePools todo found =>
      rw [hpc] at hknown
      cases todo with
      | nil => exact ⟨.none, by simp⟩
      | cons name todo =>
          obtain ⟨pool, hpool⟩ := hget (hknown.1 List.mem_cons_self)
          exact ⟨.none, by simp [hpool]⟩
  | utilization todo found =>
      rw [hpc] at hknown
      cases todo with
      | nil => exact ⟨.none, by simp⟩
      | cons name todo =>
          obtain ⟨pool, hpool⟩ := hget (hknown.1 List.mem_cons_self)
          exact ⟨.none, by simp [hpool]⟩
  | pick pools =>
      rw [hpc] at hknown
      have hpos := List.length_pos_iff.mpr hknown.2
      exact ⟨.index 0, by simp [List.getElem?_eq_getElem hpos]⟩
  | getIdle name =>
      rw [hpc] at hknown
      obtain ⟨pool, hpool⟩ := hget hknown
      exact ⟨.none, by simp [hpool]⟩
  | connect name =>
      rw [hpc] at hknown
      obtain ⟨pool, hpool⟩ := hget hknown
      exact ⟨.connection 0 0, by simp [hpool]⟩
  | busyAdd name c isNew =>
      rw [hpc] at hknown
      obtain ⟨pool, hpool⟩ := hget hknown
      exact ⟨.none, by simp [hpool]⟩
  | returned name c isNew => simp [hpc, CallPc.isEnded] at hend
  | raised e => simp [hpc, CallPc.isEnded] at hend

/-- A call that has not ended can go on, or the call whose lock it waits for can. -/
def Live (m : PoolManager) : Prop :=
  ∀ w, (m.calls w).isEnded = false →
    ∃ v, (v = w ∨ m.lock = some v) ∧ ∃ input m', m.step (.call v input) = some m'

theorem Inv.live (hi : Inv m) : m.Live := by
  intro w hend
  cases hlock : m.lock with
  | none =>
      obtain hstep := hi.enabled hend fun _ => hlock
      exact ⟨w, Or.inl rfl, hstep⟩
  | some v =>
      have hhas := (hi.lock v).mp hlock
      refine ⟨v, Or.inr rfl, hi.enabled ?_ ?_⟩
      · cases hpc : m.calls v <;> simp_all [CallPc.hasLock, CallPc.isEnded]
      · intro hpc
        rw [hpc] at hhas
        cases hhas

/-- **No call gets stuck**, whatever the calls and the methods of the pools do. -/
theorem always_live (loadBalancer : LoadBalancer) (pools : Dict String EndpointConnectionPool)
    (ls : List Label) : Always step Live { loadBalancer, pools } ls :=
  always_of_invariant step (fun _ _ _ hi h => Inv.step hi h) (fun _ hi => hi.live) ls
    (inv_init loadBalancer pools)

end PoolManager

end Web3Proxy
