import Mathlib.Data.Finset.Card
import Web3Proxy.PoolManager

/-!
# Web3Proxy.PoolManager.Spread

How evenly the least-busy balancer spreads the load.  A pick counts the busy connections of
the active pools; the connection of the call that has picked is counted only when `get` adds
it to the busy set, after it may have been established without any lock.

* `leadsTo_of_pick` — a pick is what the steps of a call come to if nothing comes in between;
* `Balanced.always_spread` — over pools that are equally busy at the start, the numbers of busy
  connections never differ by more than the number of calls that may be between their pick and
  the busy set.

What each step keeps: the busy connections of a pool and the calls that have picked it are
together at most that number above the busy connections of any other pool.
-/

namespace Web3Proxy

open Py Trans

namespace PoolManager

/-! ## a pick in one step -/

section Pick

variable (m : PoolManager) (w : CallId)

/-- `__get_active_pools()`. -/
def activePools : List (String × EndpointConnectionPool) :=
  m.pools.items.filter fun e => e.2.isActive

/-- `pools_utilization`. -/
def poolsUtilization : List (Nat × String) :=
  m.activePools.map fun e => (e.2.busyConnections.card, e.1)

/-- The pools that the balancer draws from. -/
def candidates : List String :=
  match m.loadBalancer with
  | .random => m.activePools.map Prod.fst
  | .leastBusy => leastBusyPools m.poolsUtilization

/-- `get_connection` up to the end of its `with` statement. -/
def pick (randomIndex : Nat) : Option PoolManager :=
  if m.activePools.isEmpty then some (m.goto w (.raised ()))
  else m.candidates[randomIndex]?.map fun name => m.goto w (.getIdle name)

end Pick

/-- The pool that a call has picked, whose busy set does not have its connection yet. -/
def picked : CallPc String Unit → Option String
  | .getIdle name | .connect name | .busyAdd name _ _ => some name
  | _ => none

/-! ## the steps of a pick -/

section Steps

variable {m m' : PoolManager} {w : CallId}

theorem goto_goto (pc pc' : CallPc String Unit) : (m.goto w pc).goto w pc' = m.goto w pc' := by
  simp [goto]

/-- Steps of one call, with no other step in between. -/
def LeadsTo (w : CallId) (m m' : PoolManager) : Prop :=
  ∃ inputs : List Input, run step m (inputs.map (.call w)) = some m'

theorem LeadsTo.trans {n : PoolManager} (h : LeadsTo w m n) (h' : LeadsTo w n m') :
    LeadsTo w m m' := by
  obtain ⟨inputs, hrun⟩ := h
  obtain ⟨inputs', hrun'⟩ := h'
  refine ⟨inputs ++ inputs', ?_⟩
  rw [List.map_append, run_append step hrun, hrun']

theorem LeadsTo.one (input : Input) (h : m.getConnection w input = some m') : LeadsTo w m m' :=
  ⟨[input], (run_cons_eq_some step).mpr ⟨m', h, rfl⟩⟩

/-- The loop of `__get_active_pools`. -/
theorem leadsTo_activePools {items : List (String × EndpointConnectionPool)}
    (h : ∀ e ∈ items, m.pools.get? e.1 = some e.2) (found : List String) :
    LeadsTo w (m.goto w (.activePools (items.map Prod.fst) found))
      (m.goto w (.activePools [] (found ++ (items.filter fun e => e.2.isActive).map Prod.fst))) := by
  induction items generalizing found with
  | nil => exact ⟨[], by simp⟩
  | cons e items ih =>
      have hpool := h e List.mem_cons_self
      have hrest := ih (fun e he => h e (List.mem_cons_of_mem _ he))
        (if e.2.isActive then found ++ [e.1] else found)
      refine (LeadsTo.one .none ?_).trans (hrest.trans ⟨[], ?_⟩)
      · simp only [getConnection, List.map_cons, goto_calls]
        rw [show (m.goto w _).pools.get? e.1 = some e.2 from hpool, Option.map_some, goto_goto]
      · cases hactive : e.2.isActive <;> simp [hactive, -EndpointConnectionPool.isActive_eq]

/-- The loop of `pools_utilization`. -/
theorem leadsTo_utilization {items : List (String × EndpointConnectionPool)}
    (h : ∀ e ∈ items, m.pools.get? e.1 = some e.2) (found : List (Nat × String)) :
    LeadsTo w (m.goto w (.utilization (items.map Prod.fst) found))
      (m.goto w (.utilization []
        (found ++ items.map fun e => (e.2.busyConnections.card, e.1)))) := by
  induction items generalizing found with
  | nil => exact ⟨[], by simp⟩
  | cons e items ih =>
      have hpool := h e List.mem_cons_self
      have hrest := ih (fun e he => h e (List.mem_cons_of_mem _ he))
        (found ++ [(e.2.busyConnections.card, e.1)])
      refine (LeadsTo.one .none ?_).trans (hrest.trans ⟨[], by simp⟩)
      simp only [getConnection, List.map_cons, goto_calls]
      rw [show (m.goto w _).pools.get? e.1 = some e.2 from hpool, Option.map_some, goto_goto]

theorem leadsTo_pick (pools : List String) {randomIndex : Nat} {name : String}
    (hlock : m.lock = none) (hname : pools[randomIndex]? = some name) :
    LeadsTo w ({ m with lock := some w }.goto w (.pick pools)) (m.goto w (.getIdle name)) := by
  refine LeadsTo.one (.index randomIndex) ?_
  simp only [getConnection, goto_calls, hname, Option.map_some, leave, goto_goto]
  rw [← hlock]
  rfl

theorem get?_of_activePools {e : String × EndpointConnectionPool} (h : e ∈ m.activePools) :
    m.pools.get? e.1 = some e.2 :=
  Dict.mem_items.mp (List.mem_of_mem_filter h)

/-- **A pick in one step.**  When the lock is free, the steps of a call that has not begun lead
to where the pick does, if nothing comes in between. -/
theorem leadsTo_of_pick {randomIndex : Nat} (hstart : m.calls w = .start)
    (hlock : m.lock = none) (h : m.pick w randomIndex = some m') : LeadsTo w m m' := by
  let locked : PoolManager := { m with lock := some w }
  have hfirst : LeadsTo w m (locked.goto w (.activePools (m.pools.items.map Prod.fst) [])) := by
    refine LeadsTo.one .none ?_
    simp only [getConnection, hstart, hlock, if_true]
    rfl
  have hactive : LeadsTo w m (locked.goto w (.activePools [] (m.activePools.map Prod.fst))) :=
    hfirst.trans (leadsTo_activePools (m := locked) (fun e he => Dict.mem_items.mp he) [])
  refine hactive.trans ?_
  have hpickPool (n : PoolManager) (hn : (locked.goto w (.activePools []
      (m.activePools.map Prod.fst))).pickPool w (m.activePools.map Prod.fst) = n) :
      LeadsTo w (locked.goto w (.activePools [] (m.activePools.map Prod.fst))) n :=
    LeadsTo.one .none (by simp only [getConnection, goto_calls, hn])
  unfold pick at h
  split at h
  next hnone =>
    obtain rfl := Option.some.inj h
    refine hpickPool _ ?_
    rw [List.isEmpty_iff.mp hnone]
    simp only [pickPool, List.map_nil, if_true, leave, goto_goto]
    rw [← hlock]
    rfl
  next hsome =>
    obtain ⟨name, hname, rfl⟩ := Option.map_eq_some_iff.mp h
    have hne : m.activePools.map Prod.fst ≠ [] := by simpa using hsome
    unfold candidates at hname
    cases hbalancer : m.loadBalancer with
    | random =>
        rw [hbalancer] at hname
        refine (hpickPool _ ?_).trans (leadsTo_pick _ hlock hname)
        rw [pickPool, if_neg hne]
        simp only [show (locked.goto w _).loadBalancer = .random from hbalancer, goto_goto]
        rfl
    | leastBusy =>
        rw [hbalancer] at hname
        have hcounted := leadsTo_utilization (m := locked) (w := w)
          (fun e he => get?_of_activePools (m := m) he) []
        refine (hpickPool _ ?_).trans (hcounted.trans ((LeadsTo.one .none ?_).trans
          (leadsTo_pick _ hlock hname)))
        · rw [pickPool, if_neg hne]
          simp only [show (locked.goto w _).loadBalancer = .leastBusy from hbalancer, goto_goto]
        · simp only [getConnection, goto_calls, goto_goto]
          rfl

end Steps

/-! ## the steps of `get` -/

/-- What a step of `get` does in a call that has picked the pool `name`. -/
structure GetStep (m : PoolManager) (w : CallId) (name : String) (m' : PoolManager) : Prop where
  picked : picked (m.calls w) = some name
  picked' : PoolManager.picked (m'.calls w) = some name ∨ PoolManager.picked (m'.calls w) = none
  calls : ∀ v, v ≠ w → m'.calls v = m.calls v
  balancer : m'.loadBalancer = m.loadBalancer
  others : ∀ other, other ≠ name → m'.pools.get? other = m.pools.get? other
  /-- A connection is added to the busy set only at the end. -/
  pool : ∃ p p', m.pools.get? name = some p ∧ m'.pools.get? name = some p' ∧
    p'.status = p.status ∧ p.busyConnections.card ≤ p'.busyConnections.card ∧
    p'.busyConnections.card + (if PoolManager.picked (m'.calls w) = some name then 1 else 0) ≤
      p.busyConnections.card + 1

section Get

variable {m m' : PoolManager} {w : CallId} {name : String}

/-- The call goes on, and its pool is now `p'`. -/
theorem getStep_goto {pc : CallPc String Unit} {p p' : EndpointConnectionPool}
    (hpicked : picked (m.calls w) = some name) (hpc : picked pc = some name ∨ picked pc = none)
    (hpool : m.pools.get? name = some p) (hstatus : p'.status = p.status)
    (hle : p.busyConnections.card ≤ p'.busyConnections.card)
    (hadded : p'.busyConnections.card + (if picked pc = some name then 1 else 0) ≤
      p.busyConnections.card + 1) :
    GetStep m w name ((m.setPool name p').goto w pc) where
  picked := hpicked
  picked' := by rwa [goto_calls]
  calls := fun v hv => goto_calls_of_ne pc hv
  balancer := rfl
  others := fun other hother => Dict.get?_set_ne hother
  pool := ⟨p, p', hpool, Dict.get?_set_self, hstatus, hle, by rwa [goto_calls]⟩

/-- A step of a call that has picked a pool is one of that pool's `get`. -/
theorem getStep_of_call {input : Input} (hpicked : picked (m.calls w) = some name)
    (h : m.getConnection w input = some m') : GetStep m w name m' := by
  unfold getConnection at h
  cases hpc : m.calls w with
  | getIdle pool =>
      obtain rfl : pool = name := by simpa [hpc, picked] using hpicked
      cases input with
      | none =>
          simp only [hpc] at h
          obtain ⟨p, hpool, rfl⟩ := Option.map_eq_some_iff.mp h
          unfold PoolManager.getIdle
          obtain ⟨-, hget⟩ | ⟨-, -, hget⟩ | ⟨c, q, -, -, hget⟩ := p.getIdle_cases false
          · rw [hget]
            exact getStep_goto hpicked (Or.inr rfl) hpool rfl le_rfl (by simp [picked])
          · rw [hget]
            exact getStep_goto hpicked (Or.inl rfl) hpool rfl le_rfl (by simp [picked])
          · rw [hget]
            exact getStep_goto hpicked (Or.inl rfl) hpool rfl le_rfl (by simp [picked])
      | _ => simp [hpc] at h
  | connect pool =>
      obtain rfl : pool = name := by simpa [hpc, picked] using hpicked
      cases input with
      | connection c now =>
          simp only [hpc] at h
          obtain ⟨p, hpool, rfl⟩ := Option.map_eq_some_iff.mp h
          exact getStep_goto hpicked (Or.inl rfl) hpool rfl le_rfl (by simp [picked,
            EndpointConnectionPool.established])
      | _ => simp [hpc] at h
  | busyAdd pool c isNew =>
      obtain rfl : pool = name := by simpa [hpc, picked] using hpicked
      cases input with
      | none =>
          simp only [hpc] at h
          obtain ⟨p, hpool, rfl⟩ := Option.map_eq_some_iff.mp h
          exact getStep_goto hpicked (Or.inr rfl) hpool rfl
            (Finset.card_le_card (Finset.subset_insert c _)) (Finset.card_insert_le c _)
      | _ => simp [hpc] at h
  | _ => simp [hpc, picked] at hpicked

end Get

/-! ## the calls together -/

/-- The manager, with the calls that have picked a pool so far. -/
structure Balanced where
  manager : PoolManager
  callers : Finset CallId := ∅

namespace Balanced

/-- A pick in one step, a step of `get`, or a connection that cannot be made. -/
inductive Label where
  | pick (w : CallId) (randomIndex : Nat)
  | get (w : CallId) (input : Input)
  | connectFailed (w : CallId) (now : Int)
deriving DecidableEq, Repr

variable (limit : Nat) (s : Balanced)

/-- The calls that are between their pick and the busy set. -/
def pending : Finset CallId := s.callers.filter fun w => (picked (s.manager.calls w)).isSome

/-- Those that have picked one pool. -/
def pendingOn (name : String) : Finset CallId :=
  s.callers.filter fun w => picked (s.manager.calls w) = some name

/-- A step, with at most `limit` calls pending. -/
def step : Label → Option Balanced
  | .pick w randomIndex =>
      if s.manager.calls w = .start ∧ s.pending.card < limit then
        (s.manager.pick w randomIndex).map fun manager =>
          { manager, callers := insert w s.callers }
      else none
  | .get w input =>
      if (picked (s.manager.calls w)).isSome then
        (s.manager.getConnection w input).map fun manager => { s with manager }
      else none
  | .connectFailed w now => match s.manager.calls w with
      | .connect name => (s.manager.pools.get? name).map fun pool =>
          { s with
            manager := (s.manager.setPool name (pool.notEstablished now)).goto w (.raised ()) }
      | _ => none

/-- No two active pools differ by more than `limit` in their busy connections. -/
def Spread : Prop :=
  ∀ e ∈ s.manager.activePools, ∀ f ∈ s.manager.activePools,
    e.2.busyConnections.card ≤ f.2.busyConnections.card + limit

instance : Decidable (Spread limit s) := by
  unfold Spread
  infer_instance

/-! ## counting calls -/

/-- An element that may or may not be counted. -/
theorem card_filter_eq {S : Finset CallId} {w : CallId} {P : CallId → Prop} [DecidablePred P]
    (h : P w → w ∈ S) :
    (S.filter P).card = ((S.erase w).filter P).card + if P w then 1 else 0 := by
  by_cases hw : P w
  · rw [if_pos hw, Finset.filter_erase, Finset.card_erase_add_one]
    exact Finset.mem_filter.mpr ⟨h hw, hw⟩
  · rw [if_neg hw, Nat.add_zero, Finset.filter_erase, Finset.erase_eq_of_notMem]
    exact fun hmem => hw (Finset.mem_filter.mp hmem).2

/-- A step of one call changes the count by that call. -/
theorem card_filter_step {S S' : Finset CallId} {calls calls' : CallId → CallPc String Unit}
    {w : CallId} (P : CallPc String Unit → Prop) [DecidablePred P] (hrest : S'.erase w = S.erase w)
    (hsame : ∀ v, v ≠ w → calls' v = calls v) (h : P (calls w) → w ∈ S)
    (h' : P (calls' w) → w ∈ S') :
    (S'.filter fun v => P (calls' v)).card + (if P (calls w) then 1 else 0) =
      (S.filter fun v => P (calls v)).card + if P (calls' w) then 1 else 0 := by
  have hothers : (S'.erase w).filter (fun v => P (calls' v)) =
      (S.erase w).filter fun v => P (calls v) := by
    rw [hrest]
    exact Finset.filter_congr fun v hv => by rw [hsame v (Finset.ne_of_mem_erase hv)]
  rw [card_filter_eq (P := fun v => P (calls v)) h,
    card_filter_eq (P := fun v => P (calls' v)) h', hothers]
  omega

variable {limit s} {s' : Balanced} {w : CallId}

/-- A step of the call `w`, which is one of the callers wherever it has picked a pool. -/
structure CallerStep (s : Balanced) (w : CallId) (s' : Balanced) : Prop where
  callers : s'.callers.erase w = s.callers.erase w
  calls : ∀ v, v ≠ w → s'.manager.calls v = s.manager.calls v
  before : (picked (s.manager.calls w)).isSome → w ∈ s.callers
  after : (picked (s'.manager.calls w)).isSome → w ∈ s'.callers

theorem CallerStep.pending (h : CallerStep s w s') :
    s'.pending.card + (if (picked (s.manager.calls w)).isSome then 1 else 0) =
      s.pending.card + if (picked (s'.manager.calls w)).isSome then 1 else 0 :=
  card_filter_step (fun pc => (picked pc).isSome) h.callers h.calls h.before h.after

theorem CallerStep.pendingOn (h : CallerStep s w s') (name : String) :
    (s'.pendingOn name).card + (if picked (s.manager.calls w) = some name then 1 else 0) =
      (s.pendingOn name).card + if picked (s'.manager.calls w) = some name then 1 else 0 :=
  card_filter_step (fun pc => picked pc = some name) h.callers h.calls
    (fun hw => h.before (by rw [hw]; rfl)) (fun hw => h.after (by rw [hw]; rfl))

theorem card_pendingOn_le (s : Balanced) (name : String) :
    (s.pendingOn name).card ≤ s.pending.card := by
  refine Finset.card_le_card fun w hw => ?_
  obtain ⟨hmem, hpicked⟩ := Finset.mem_filter.mp hw
  exact Finset.mem_filter.mpr ⟨hmem, by rw [hpicked]; rfl⟩

/-! ## the invariant -/

/-- What every step keeps. -/
structure Inv (limit : Nat) (s : Balanced) : Prop where
  leastBusy : s.manager.loadBalancer = .leastBusy
  callers : ∀ w, (picked (s.manager.calls w)).isSome → w ∈ s.callers
  few : s.pending.card ≤ limit
  /-- The calls that have picked a pool count as if their connections were busy already. -/
  bounded : ∀ e ∈ s.manager.activePools, ∀ f ∈ s.manager.activePools,
    e.2.busyConnections.card + (s.pendingOn e.1).card ≤ f.2.busyConnections.card + limit

theorem mem_activePools {m : PoolManager} {e : String × EndpointConnectionPool} :
    e ∈ m.activePools ↔ m.pools.get? e.1 = some e.2 ∧ e.2.status = .active := by
  rw [activePools, List.mem_filter, Dict.mem_items]
  simp

/-- The pool that is drawn is active, and no active pool is less busy. -/
theorem busy_le_of_candidate {m : PoolManager} {name : String}
    (hbalancer : m.loadBalancer = .leastBusy) (h : name ∈ m.candidates) :
    ∃ p, (name, p) ∈ m.activePools ∧
      ∀ f ∈ m.activePools, p.busyConnections.card ≤ f.2.busyConnections.card := by
  rw [candidates, hbalancer] at h
  obtain ⟨pu, hpu, rfl⟩ := List.mem_map.mp h
  obtain ⟨hmem, hmin⟩ := List.mem_filter.mp hpu
  obtain ⟨⟨name, p⟩, he, rfl⟩ := List.mem_map.mp hmem
  refine ⟨p, he, fun f hf => ?_⟩
  have hf' : f.2.busyConnections.card ∈ m.poolsUtilization.map Prod.fst :=
    List.mem_map.mpr ⟨_, List.mem_map_of_mem hf, rfl⟩
  have hleast := List.min?_getD_le_of_mem (k := 0) hf'
  exact (of_decide_eq_true hmin).trans hleast

/-- What a pick does: the call goes on with one of the candidates, or raises. -/
theorem pick_goto {m m' : PoolManager} {randomIndex : Nat} (h : m.pick w randomIndex = some m') :
    ∃ pc, m' = m.goto w pc ∧ ∀ name, picked pc = some name → name ∈ m.candidates := by
  unfold PoolManager.pick at h
  split at h
  · exact ⟨_, (Option.some.inj h).symm, fun _ hpc => absurd hpc (by simp [picked])⟩
  · obtain ⟨name, hname, rfl⟩ := Option.map_eq_some_iff.mp h
    refine ⟨_, rfl, fun other hother => ?_⟩
    obtain rfl : name = other := by simpa [picked] using hother
    exact List.mem_of_getElem? hname

/-- A call that has not begun picks one of the least busy pools. -/
theorem Inv.pick (h : Inv limit s) {randomIndex : Nat}
    (hs : s.step limit (.pick w randomIndex) = some s') : Inv limit s' := by
  obtain ⟨⟨hstart, hroom⟩, hs⟩ := Option.ite_none_right_eq_some.mp hs
  obtain ⟨manager, hpick, rfl⟩ := Option.map_eq_some_iff.mp hs
  obtain ⟨pc, rfl, hpc⟩ := pick_goto hpick
  generalize hs' : ({ manager := s.manager.goto w pc, callers := insert w s.callers } : Balanced) =
    s' at *
  have hmanager : s'.manager = s.manager.goto w pc := by rw [← hs']
  have hcallers : s'.callers = insert w s.callers := by rw [← hs']
  have hbefore : picked (s.manager.calls w) = none := by rw [hstart]; rfl
  have hafter : picked (s'.manager.calls w) = picked pc := by rw [hmanager, goto_calls]
  have hcaller : CallerStep s w s' := by
    refine ⟨?_, fun v hv => ?_, h.callers w, fun _ => ?_⟩
    · rw [hcallers, Finset.erase_insert_eq_erase]
    · rw [hmanager, goto_calls_of_ne pc hv]
    · exact hcallers ▸ Finset.mem_insert_self _ _
  have hfew : s'.pending.card ≤ limit := by
    have hcount := hcaller.pending
    rw [hbefore] at hcount
    split at hcount <;> split at hcount <;> omega
  refine ⟨hmanager ▸ h.leastBusy, fun v hv => ?_, hfew, fun e he f hf => ?_⟩
  · by_cases hvw : v = w
    · exact hcallers ▸ hvw ▸ Finset.mem_insert_self _ _
    · rw [hcaller.calls v hvw] at hv
      exact hcallers ▸ Finset.mem_insert_of_mem (h.callers v hv)
  · have hactive : s'.manager.activePools = s.manager.activePools := by rw [hmanager]; rfl
    rw [hactive] at he hf
    by_cases hchosen : picked pc = some e.1
    · -- the chosen pool is one of the least busy, and no more calls can have picked it
      obtain ⟨p, hp, hleast⟩ := busy_le_of_candidate h.leastBusy (hpc _ hchosen)
      obtain rfl : p = e.2 := Option.some.inj
        ((mem_activePools.mp hp).1.symm.trans (mem_activePools.mp he).1)
      exact Nat.add_le_add (hleast f hf) ((card_pendingOn_le s' e.1).trans hfew)
    · have hcount := hcaller.pendingOn e.1
      rw [hbefore, hafter, if_neg hchosen, if_neg (by simp)] at hcount
      have hbound := h.bounded e he f hf
      omega

/-- After a step of `get` an active pool has been active, is not less busy, and no more calls
count for it. -/
theorem busy_of_getStep {name : String} {manager : PoolManager}
    (hget : GetStep s.manager w name manager) (hcaller : CallerStep s w { s with manager })
    {e : String × EndpointConnectionPool} (he : e ∈ manager.activePools) :
    ∃ q, (e.1, q) ∈ s.manager.activePools ∧
      q.busyConnections.card ≤ e.2.busyConnections.card ∧
      e.2.busyConnections.card + (({ s with manager } : Balanced).pendingOn e.1).card ≤
        q.busyConnections.card + (s.pendingOn e.1).card := by
  obtain ⟨p, p', hp, hp', hstatus, hle, hadded⟩ := hget.pool
  obtain ⟨hfound, hactive⟩ := mem_activePools.mp he
  have hcount := hcaller.pendingOn e.1
  rw [hget.picked] at hcount
  by_cases hname : name = e.1
  · subst hname
    obtain rfl := Option.some.inj (hp'.symm.trans hfound)
    refine ⟨p, mem_activePools.mpr ⟨hp, hstatus ▸ hactive⟩, hle, ?_⟩
    rw [if_pos rfl] at hcount
    dsimp only at hcount
    omega
  · rw [hget.others _ (Ne.symm hname)] at hfound
    refine ⟨e.2, mem_activePools.mpr ⟨hfound, hactive⟩, le_rfl, ?_⟩
    have hafter : picked (manager.calls w) ≠ some e.1 := by
      obtain hpicked | hpicked := hget.picked' <;> simp [hpicked, hname]
    rw [if_neg (by simpa using hname), if_neg hafter] at hcount
    omega

/-- A step of `get`, or a failed attempt to establish a connection. -/
theorem Inv.get (h : Inv limit s) {name : String} {manager : PoolManager}
    (hget : GetStep s.manager w name manager) : Inv limit { s with manager } := by
  have hmem : w ∈ s.callers := h.callers w (by rw [hget.picked]; rfl)
  have hcaller : CallerStep s w { s with manager } :=
    ⟨rfl, hget.calls, fun _ => hmem, fun _ => hmem⟩
  refine ⟨hget.balancer.trans h.leastBusy, fun v hv => ?_, ?_, fun e he f hf => ?_⟩
  · by_cases hvw : v = w
    · exact hvw ▸ hmem
    · exact h.callers v (by rwa [← hget.calls v hvw])
  · have hfew := h.few
    have hcount := hcaller.pending
    rw [hget.picked, Option.isSome_some, if_pos rfl] at hcount
    split at hcount <;> omega
  · obtain ⟨q, hq, -, hcounted⟩ := busy_of_getStep hget hcaller he
    obtain ⟨r, hr, hless, -⟩ := busy_of_getStep hget hcaller hf
    have hbound := h.bounded _ hq _ hr
    exact hcounted.trans (hbound.trans (Nat.add_le_add_right hless _))

theorem Inv.step (h : Inv limit s) {l : Label} (hs : s.step limit l = some s') :
    Inv limit s' := by
  cases l with
  | pick w randomIndex => exact h.pick hs
  | get w input =>
      obtain ⟨hpicked, hs⟩ := Option.ite_none_right_eq_some.mp hs
      obtain ⟨name, hname⟩ := Option.isSome_iff_exists.mp hpicked
      obtain ⟨manager, hget, rfl⟩ := Option.map_eq_some_iff.mp hs
      exact h.get (getStep_of_call hname hget)
  | connectFailed w now =>
      simp only [Balanced.step] at hs
      split at hs
      next name hpc =>
        obtain ⟨p, hpool, rfl⟩ := Option.map_eq_some_iff.mp hs
        exact h.get (getStep_goto (by rw [hpc]; rfl) (Or.inr rfl) hpool rfl le_rfl
          (by simp [picked, EndpointConnectionPool.notEstablished]))
      next => cases hs

/-- The active pools are equally busy. -/
def Even (m : PoolManager) : Prop :=
  ∀ e ∈ m.activePools, ∀ f ∈ m.activePools, e.2.busyConnections.card = f.2.busyConnections.card

instance (m : PoolManager) : Decidable (Even m) := by
  unfold Even
  infer_instance

/-- **The load is spread**: in every state of every run that starts with equally busy pools and
in which at most `limit` calls at a time are between their pick and the busy set. -/
theorem always_spread (limit : Nat) {pools : Dict String EndpointConnectionPool}
    (heven : Even { loadBalancer := .leastBusy, pools }) (ls : List Label) :
    Always (step limit) (Spread limit) { manager := { loadBalancer := .leastBusy, pools } } ls := by
  refine always_of_invariant _ (fun _ _ _ h hs => Inv.step h hs) (fun s h e he f hf => ?_) ls
    ⟨rfl, fun w h => absurd h (by simp [picked]), Nat.zero_le _, fun e he f hf => ?_⟩
  · exact (Nat.le_add_right _ _).trans (h.bounded e he f hf)
  · rw [heven e he f hf]
    exact Nat.add_le_add_left (Nat.zero_le _) _

/-- Two pools without connections. -/
def idlePools : Dict String EndpointConnectionPool :=
  (Dict.empty.set "geth" {}).set "nethermind" {}

/-- Two calls pick the first pool before either has added its connection. -/
def burst : List Label :=
  [.pick 0 0, .pick 1 0, .get 0 .none, .get 1 .none, .get 0 (.connection 7 0),
    .get 1 (.connection 8 0), .get 0 .none, .get 1 .none]

/-- The two pools under the burst. -/
theorem always_spread_burst :
    Even { loadBalancer := .leastBusy, pools := idlePools } ∧
      Always (step 2) (Spread 2) { manager := { loadBalancer := .leastBusy, pools := idlePools } }
        burst :=
  ⟨by decide, always_spread 2 (by decide) burst⟩

-- the bound is met: the first pool has two busy connections, the other none
example : (run (step 2) { manager := { loadBalancer := .leastBusy, pools := idlePools } }
    burst).map (fun s => s.manager.activePools.map fun e => e.2.busyConnections.card) =
      some [2, 0] := by
  decide

end Balanced

end PoolManager

end Web3Proxy
