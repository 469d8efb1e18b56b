import Web3Proxy.PoolManager.Managed

/-!
# Web3Proxy.PoolManager.Routing

Which pool serves a request while an administrator adds, removes and replaces pools.

* `served_by` — a call that returns a connection got it from a pool that stood in the
  dictionary, active, at a moment of the call, and with `ConstantLoadBalancer` it is a pool
  of the name that the request gives;
* `not_passed_of_closed` — once `remove_pool` has closed a pool, no call passes its check any
  more, whatever happens afterwards;
* `goesTo_while_offered` — with `ConstantLoadBalancer`, a call whose pool is there and active
  all along gets a connection of it, unless none can be made.
-/

namespace Web3Proxy

open Py Trans

namespace EndpointConnectionPoolManager

variable {m m' t : EndpointConnectionPoolManager} {reqs : CallId → RPCRequest} {w : CallId}
  {e : RPCEndpoint}

/-! ## where a pool comes from -/

/-- The pool stands in the dictionary, and is active. -/
def Offered (e : RPCEndpoint) (m : EndpointConnectionPoolManager) : Prop :=
  m.Registered e ∧ (m.pool e).status = .active

instance (e : RPCEndpoint) (m : EndpointConnectionPoolManager) : Decidable (Offered e m) :=
  inferInstanceAs (Decidable (_ = _ ∧ _ = _))

/-- At a moment of the run the pool is offered. -/
def WasOffered (reqs : CallId → RPCRequest) (m : EndpointConnectionPoolManager)
    (ls : List Label) (e : RPCEndpoint) : Prop :=
  ∃ ls₁ ls₂ u, ls = ls₁ ++ ls₂ ∧ run (step reqs) m ls₁ = some u ∧ Offered e u

/-- The call has found the pool active, and may get a connection of it. -/
def Chosen (e : RPCEndpoint) : CallPc RPCEndpoint RouteError → Prop
  | .activePools _ found => e ∈ found
  | .utilization todo found => e ∈ todo ∨ e ∈ found.map Prod.snd
  | .pick pools => e ∈ pools
  | .getIdle pool | .connect pool | .busyAdd pool _ _ | .returned pool _ _ => pool = e
  | _ => False

theorem Next.chosen {req : RPCRequest} {pc pc' : CallPc RPCEndpoint RouteError}
    (h : Next m req pc pc') (hknown : m.Known pc) (hchosen : Chosen e pc') : Chosen e pc ∨ Offered e m := by
  cases h with
  | start => cases hchosen
  | found hactive =>
      obtain hmem | hmem := List.mem_append.mp hchosen
      · exact Or.inl hmem
      · rw [List.mem_singleton.mp hmem]
        exact Or.inr ⟨hknown.1 _ List.mem_cons_self, hactive⟩
  | leastBusy _ _ =>
      obtain hmem | hmem := hchosen
      · exact Or.inl hmem
      · cases hmem
  | constant hpick =>
      cases hchosen
      exact Or.inl (name_of_pickPool hpick).1
  | measured n =>
      obtain hmem | hmem := hchosen
      · exact Or.inl (Or.inl (List.mem_cons_of_mem _ hmem))
      · rw [List.map_append, List.mem_append] at hmem
        obtain hmem | hmem := hmem
        · exact Or.inl (Or.inr hmem)
        · rw [List.mem_singleton.mp hmem]
          exact Or.inl (Or.inl List.mem_cons_self)
  | least => exact Or.inl (Or.inr (leastBusyPools_subset _ hchosen))
  | picked he =>
      cases hchosen
      exact Or.inl he
  | noActivePools | noPoolPicked _ | disabled _ | notConnected => exact hchosen.elim
  | _ => exact Or.inl hchosen

/-- A step is one of a call, or leaves the calls alone. -/
theorem calls_of_step {l : Label} (h : step reqs m l = some m') :
    m'.calls = m.calls ∧ m'.loadBalancer = m.loadBalancer ∨
      ∃ v input, l = .call v input ∧ CallStep m (reqs v) v m' := by
  cases l with
  | call v input => exact Or.inr ⟨v, input, rfl, step_call h⟩
  | addPool name d =>
      obtain ⟨-, rfl | ⟨e, -, -, rfl⟩⟩ := addPool_cases h
      · exact Or.inl ⟨rfl, rfl⟩
      · exact Or.inl ⟨rfl, rfl⟩
  | closePool name =>
      obtain ⟨-, ⟨-, rfl⟩ | ⟨e, -, rfl⟩⟩ := closePool_cases h
      · exact Or.inl ⟨rfl, rfl⟩
      · exact Or.inl ⟨rfl, rfl⟩
  | delPool name =>
      obtain ⟨-, rfl⟩ := delPool_cases h
      exact Or.inl ⟨rfl, rfl⟩
  | pool e o | cleanup e cfg now =>
      obtain rfl := Option.some.inj h
      exact Or.inl ⟨rfl, rfl⟩

theorem loadBalancer_of_step {l : Label} (h : step reqs m l = some m') :
    m'.loadBalancer = m.loadBalancer := by
  obtain ⟨-, hbalancer⟩ | ⟨v, -, -, hcall⟩ := calls_of_step h
  · exact hbalancer
  · exact hcall.loadBalancer

theorem loadBalancer_of_run {ls : List Label} (hrun : run (step reqs) m ls = some t) :
    t.loadBalancer = m.loadBalancer :=
  run_invariant (step reqs) (I := fun n => n.loadBalancer = m.loadBalancer)
    (fun _ _ _ hn h => (loadBalancer_of_step h).trans hn) rfl hrun

/-- A property of where a call stands that its own steps keep, the other steps keep. -/
theorem step_pc {l : Label} {P : CallPc RPCEndpoint RouteError → Prop} (h : step reqs m l = some m')
    (hnext : Next m (reqs w) (m.calls w) (m'.calls w) → P (m.calls w) → P (m'.calls w))
    (hp : P (m.calls w)) : P (m'.calls w) := by
  obtain ⟨hcalls, -⟩ | ⟨v, -, -, hcall⟩ := calls_of_step h
  · rwa [hcalls]
  · by_cases hv : w = v
    · subst hv
      exact hnext hcall.next hp
    · rwa [hcall.calls w hv]

theorem step_chosen {l : Label} (hi : Inv reqs m) (h : step reqs m l = some m')
    (hchosen : Chosen e (m'.calls w)) : Chosen e (m.calls w) ∨ Offered e m := by
  obtain ⟨hcalls, -⟩ | ⟨v, -, -, hcall⟩ := calls_of_step h
  · rw [hcalls] at hchosen
    exact Or.inl hchosen
  · by_cases hv : w = v
    · subst hv
      exact hcall.next.chosen (hi.known w) hchosen
    · rw [hcall.calls w hv] at hchosen
      exact Or.inl hchosen

/-- By induction on the run: what is chosen at the end has been from the start, or was offered
in between. -/
theorem wasOffered_of_chosen {ls : List Label} (hi : Inv reqs m)
    (hrun : run (step reqs) m ls = some t) (hchosen : Chosen e (t.calls w)) :
    Chosen e (m.calls w) ∨ WasOffered reqs m ls e := by
  induction ls generalizing m with
  | nil =>
      cases hrun
      exact Or.inl hchosen
  | cons l ls ih =>
      obtain ⟨m', hstep, hrest⟩ := (run_cons_eq_some _).mp hrun
      obtain hbefore | ⟨ls₁, ls₂, u, rfl, hrun₁, hoffered⟩ := ih (hi.step hstep) hrest
      · obtain hfirst | hoffered := step_chosen hi hstep hbefore
        · exact Or.inl hfirst
        · exact Or.inr ⟨[], l :: ls, m, rfl, rfl, hoffered⟩
      · exact Or.inr ⟨l :: ls₁, ls₂, u, rfl, (run_cons_eq_some _).mpr ⟨m', hstep, hrun₁⟩,
          hoffered⟩

/-- **Isolation.**  A call that has returned a connection had not begun in `m`, and since then
the pool stood in the dictionary, active, and with `ConstantLoadBalancer` it has the name that
the request gives. -/
theorem served_by (loadBalancer : Balancer) {ls₀ ls : List Label}
    (hrun₀ : run (step reqs) { loadBalancer } ls₀ = some m) (hstart : m.calls w = .start)
    (hrun : run (step reqs) m ls = some t) {c : ConnId} {isNew : Bool}
    (hreturned : t.calls w = .returned e c isNew) :
    WasOffered reqs m ls e ∧
      (loadBalancer = .constant → (reqs w).constantPool = some e.name) := by
  have hi := (inv_init reqs loadBalancer).run hrun₀
  have hchosen : Chosen e (t.calls w) := by
    rw [hreturned]
    rfl
  refine ⟨?_, fun hconstant => ?_⟩
  · obtain hbefore | hoffered := wasOffered_of_chosen hi hrun hchosen
    · rw [hstart] at hbefore
      exact hbefore.elim
    · exact hoffered
  · have hbalancer : t.loadBalancer = .constant := by
      rw [loadBalancer_of_run hrun, loadBalancer_of_run hrun₀, hconstant]
    have hrouted := (hi.run hrun).routed hbalancer w
    rwa [hreturned] at hrouted

/-- An endpoint, and a request of a user whose plan names it. -/
def nodeA : EndpointConnectionDescriptor :=
  { host := "a", port := 443, authKey := "", isSsl := true, url := "https://a" }

def endpointA : RPCEndpoint := { name := "a", connDescr := nodeA, connStats := 0 }

def requestsA : CallId → RPCRequest := fun _ => { constantPool := some "a" }

/-- A call from its start to its end. -/
def fetch (w : CallId) : List Label :=
  [.call w .none, .call w .none, .call w .none, .call w .none, .call w (.connection 0 0),
    .call w .none]

/-- The pool is added, and a call gets a connection of it. -/
theorem served_by_added : ∃ m t,
    run (step requestsA) { loadBalancer := .constant } [.addPool "a" nodeA] = some m ∧
      run (step requestsA) m (fetch 0) = some t ∧
      t.calls 0 = .returned endpointA 0 true ∧ WasOffered requestsA m (fetch 0) endpointA ∧
      (requestsA 0).constantPool = some endpointA.name := by
  have hall : (run (step requestsA) { loadBalancer := .constant } [.addPool "a" nodeA]).map
      (fun m => (m.calls 0, (run (step requestsA) m (fetch 0)).map fun t => t.calls 0)) =
        some (.start, some (.returned endpointA 0 true)) := by
    decide
  obtain ⟨m, hrun₀, hm⟩ := Option.map_eq_some_iff.mp hall
  obtain ⟨hstart, hend⟩ := Prod.mk.inj hm
  obtain ⟨t, hrun, hreturned⟩ := Option.map_eq_some_iff.mp hend
  obtain ⟨hoffered, hname⟩ := served_by .constant hrun₀ hstart hrun hreturned
  exact ⟨m, t, hrun₀, hrun, hreturned, hoffered, hname rfl⟩

/-! ## what has been closed -/

/-- The call has passed the check in the pool's `get`. -/
def Passed (e : RPCEndpoint) : CallPc RPCEndpoint RouteError → Prop
  | .connect pool | .busyAdd pool _ _ | .returned pool _ _ => pool = e
  | _ => False

/-- The pool is closing or closed, and is none of those to come. -/
structure Shut (e : RPCEndpoint) (m : EndpointConnectionPoolManager) : Prop where
  status : (m.pool e).status = .closed ∨ (m.pool e).status = .closing
  created : e.connStats < m.store.created

theorem Next.passed {req : RPCRequest} {pc pc' : CallPc RPCEndpoint RouteError}
    (h : Next m req pc pc') (hactive : (m.pool e).status ≠ .active) (hpassed : Passed e pc') : Passed e pc := by
  cases h with
  | noIdle h | idle _ h =>
      cases hpassed
      exact absurd h hactive
  | connected _ | added => exact hpassed
  | _ => exact hpassed.elim

/-- A call of a method does not open a pool again. -/
theorem status_call {p : EndpointConnectionPool} (h : p.status = .closed ∨ p.status = .closing)
    (o : EndpointConnectionPool.Op) :
    (p.call o).status = .closed ∨ (p.call o).status = .closing := by
  cases o with
  | get oos creation now =>
      rw [EndpointConnectionPool.call, p.get_status]
      exact h
  | put c now =>
      obtain hsame | ⟨-, hclosed⟩ := p.put_status c now
      · rw [EndpointConnectionPool.call, hsame]
        exact h
      · exact Or.inl hclosed
  | handleBrokenConnection c isNew now =>
      rw [EndpointConnectionPool.call, p.handleBrokenConnection_status]
      exact h
  | disable | outOfSync =>
      simp only [EndpointConnectionPool.call, EndpointConnectionPool.disable,
        EndpointConnectionPool.outOfSync, EndpointConnectionPool.suspend, if_pos h]
      exact h
  | activate =>
      simp only [EndpointConnectionPool.call, EndpointConnectionPool.activate, if_pos h]
      exact h
  | close =>
      rw [EndpointConnectionPool.call, p.close_eq]
      simp only [Result.state]
      split
      · exact Or.inl rfl
      · exact Or.inr rfl

/-- A pool that is shut stays so. -/
theorem Shut.step {l : Label} (hshut : Shut e m) (h : step reqs m l = some m') : Shut e m' := by
  have hset (e' : RPCEndpoint) (p : EndpointConnectionPool)
      (hp : e' = e → p.status = .closed ∨ p.status = .closing) : Shut e (m.setPool e' p) := by
    refine ⟨?_, hshut.created⟩
    by_cases he : e = e'
    · subst he
      simpa [setPool] using hp rfl
    · simpa [setPool, he] using hshut.status
  cases l with
  | call v input =>
      have hcall := step_call h
      refine ⟨?_, ?_⟩
      · rw [hcall.status]
        exact hshut.status
      · rw [hcall.store]
        exact hshut.created
  | addPool name d =>
      obtain ⟨-, rfl | ⟨e', -, he', rfl⟩⟩ := addPool_cases h
      · exact hshut
      · have hne : e ≠ e' := fun heq => by
          have hlt := hshut.created
          rw [heq, he'] at hlt
          exact Nat.lt_irrefl _ hlt
        exact ⟨by simpa [setPool, hne] using hshut.status, Nat.lt_succ_of_lt hshut.created⟩
  | closePool name =>
      obtain ⟨-, ⟨-, rfl⟩ | ⟨e', -, rfl⟩⟩ := closePool_cases h
      · exact hshut
      · have hclosed := hset e' (m.pool e').close.state fun heq =>
          status_call (heq ▸ hshut.status) .close
        exact ⟨hclosed.status, hclosed.created⟩
  | delPool name =>
      obtain ⟨-, rfl⟩ := delPool_cases h
      exact ⟨hshut.status, hshut.created⟩
  | pool e' o =>
      obtain rfl := Option.some.inj h
      exact hset e' _ fun heq => status_call (heq ▸ hshut.status) o
  | cleanup e' cfg now =>
      obtain rfl := Option.some.inj h
      refine hset e' _ fun heq => ?_
      have hstatus : (m.pool e').status = .closed ∨ (m.pool e').status = .closing :=
        heq ▸ hshut.status
      rw [EndpointConnectionPool.cleanupPass, if_pos hstatus]
      exact hstatus

/-- **No way back.**  Once `remove_pool` has closed the pool, no call that has not passed its
check passes it, whatever calls and administrators do afterwards. -/
theorem not_passed_of_closed (loadBalancer : Balancer) {ls₀ ls : List Label} {name : String}
    (hrun₀ : run (step reqs) { loadBalancer } ls₀ = some m)
    (hpool : m.store.pools.get? name = some e) (hclose : step reqs m (.closePool name) = some m')
    (hbefore : ¬ Passed e (m'.calls w)) (hrun : run (step reqs) m' ls = some t) :
    ¬ Passed e (t.calls w) := by
  have hi := (inv_init reqs loadBalancer).run hrun₀
  have hshut : Shut e m' := by
    obtain ⟨-, ⟨hnone, -⟩ | ⟨e', hpool', rfl⟩⟩ := closePool_cases hclose
    · simp [hpool] at hnone
    · obtain rfl := Option.some.inj (hpool.symm.trans hpool')
      refine ⟨?_, (hi.placed name e hpool).2⟩
      simp only [setPool, Function.update_self, EndpointConnectionPool.close_eq, Result.state]
      split
      · exact Or.inl rfl
      · exact Or.inr rfl
  have hend := run_invariant (step reqs) (I := fun n => Shut e n ∧ ¬ Passed e (n.calls w))
    (fun n l n' hn h => ⟨hn.1.step h, ?_⟩) ⟨hshut, hbefore⟩ hrun
  · exact hend.2
  · refine step_pc (P := fun pc => ¬ Passed e pc) h
      (fun hnext hnot hpassed => hnot (hnext.passed ?_ hpassed)) hn.2
    obtain hstatus | hstatus := hn.1.status <;> simp [hstatus]

/-- The pool is closed and deleted while a call that has picked it is before the check. -/
theorem not_passed_of_closed_picked : ∃ m m' t,
    run (step requestsA) { loadBalancer := .constant }
      [.addPool "a" nodeA, .call 0 .none, .call 0 .none, .call 0 .none] = some m ∧
      step requestsA m (.closePool "a") = some m' ∧
      m'.calls 0 = .getIdle endpointA ∧
      run (step requestsA) m' [.delPool "a", .call 0 .none] = some t ∧
      ¬ Passed endpointA (t.calls 0) := by
  have hall : (run (step requestsA) { loadBalancer := .constant }
      [.addPool "a" nodeA, .call 0 .none, .call 0 .none, .call 0 .none]).map
        (fun m => (m.store.pools.get? "a", (step requestsA m (.closePool "a")).map fun m' =>
          (m'.calls 0, (run (step requestsA) m' [.delPool "a", .call 0 .none]).isSome))) =
        some (some endpointA, some (.getIdle endpointA, true)) := by
    decide
  obtain ⟨m, hrun₀, hm⟩ := Option.map_eq_some_iff.mp hall
  obtain ⟨hpool, hclosed⟩ := Prod.mk.inj hm
  obtain ⟨m', hclose, hm'⟩ := Option.map_eq_some_iff.mp hclosed
  obtain ⟨hpc, hsome⟩ := Prod.mk.inj hm'
  obtain ⟨t, hrun⟩ := Option.isSome_iff_exists.mp hsome
  have hbefore : ¬ Passed endpointA (m'.calls 0) := by
    rw [hpc]
    exact id
  exact ⟨m, m', t, hrun₀, hclose, hpc, hrun,
    not_passed_of_closed .constant hrun₀ hpool hclose hbefore hrun⟩

/-! ## what is offered all along -/

/-- The call is on its way to the pool, and has not raised but for want of a connection. -/
def GoesTo (e : RPCEndpoint) : CallPc RPCEndpoint RouteError → Prop
  | .start => True
  | .activePools todo found => e ∈ todo ∨ e ∈ found
  | .utilization _ _ | .pick _ => False
  | .getIdle pool | .connect pool | .busyAdd pool _ _ | .returned pool _ _ => pool = e
  | .raised error => error = .notConnected

/-- Of pools that are there, `ConstantLoadBalancer` picks the one with the name. -/
theorem pickPool_eq {req : RPCRequest} {found : List RPCEndpoint}
    (hname : req.constantPool = some e.name) (hfound : ∀ e' ∈ found, m.Registered e')
    (he : e ∈ found) : ConstantLoadBalancer.pickPool req found = some e := by
  cases hpick : ConstantLoadBalancer.pickPool req found with
  | none =>
      unfold ConstantLoadBalancer.pickPool at hpick
      simp only [hname] at hpick
      exact absurd (decide_eq_true rfl) (List.find?_eq_none.mp hpick e he)
  | some e' =>
      obtain ⟨he', hname'⟩ := name_of_pickPool hpick
      have hsame : e'.name = e.name := Option.some.inj (hname'.symm.trans hname)
      have hget : m.store.pools.get? e'.name = some e' := hfound e' he'
      rw [hsame, hfound e he] at hget
      exact hget.symm

theorem Next.goesTo {req : RPCRequest} {pc pc' : CallPc RPCEndpoint RouteError}
    (h : Next m req pc pc') (hoffered : Offered e m) (hconstant : m.loadBalancer = .constant)
    (hname : req.constantPool = some e.name) (hknown : m.Known pc) (hgoes : GoesTo e pc) :
    GoesTo e pc' := by
  obtain ⟨hregistered, hactive⟩ := hoffered
  cases h with
  | start =>
      exact Or.inl (List.mem_map.mpr ⟨(e.name, e), Dict.mem_items.mpr hregistered, rfl⟩)
  | found h =>
      obtain hmem | hmem := hgoes
      · obtain rfl | htodo := List.mem_cons.mp hmem
        · exact Or.inr (List.mem_append_right _ (List.mem_singleton_self _))
        · exact Or.inl htodo
      · exact Or.inr (List.mem_append_left _ hmem)
  | skipped h =>
      obtain hmem | hmem := hgoes
      · obtain rfl | htodo := List.mem_cons.mp hmem
        · exact absurd hactive h
        · exact Or.inl htodo
      · exact Or.inr hmem
  | noActivePools => simp [GoesTo] at hgoes
  | random _ h | leastBusy _ h => exact absurd hconstant h
  | constant hpick =>
      have he : e ∈ _ := hgoes.resolve_left List.not_mem_nil
      rw [pickPool_eq hname hknown.2 he] at hpick
      exact (Option.some.inj hpick).symm
  | noPoolPicked hpick =>
      have he : e ∈ _ := hgoes.resolve_left List.not_mem_nil
      rw [pickPool_eq hname hknown.2 he] at hpick
      cases hpick
  | measured n | least | picked _ => exact hgoes.elim
  | disabled h =>
      cases hgoes
      exact absurd hactive h
  | notConnected => rfl
  | _ => exact hgoes

/-- **Availability.**  With `ConstantLoadBalancer`, while the pool that the request names is
there and active, the call goes to it and raises only if no connection can be made. -/
theorem goesTo_while_offered {ls₀ ls : List Label}
    (hrun₀ : run (step reqs) { loadBalancer := .constant } ls₀ = some m)
    (hstart : m.calls w = .start) (hname : (reqs w).constantPool = some e.name)
    (hoffered : Always (step reqs) (Offered e) m ls) (hrun : run (step reqs) m ls = some t) :
    GoesTo e (t.calls w) := by
  have hi := (inv_init reqs .constant).run hrun₀
  have hstarted : GoesTo e (m.calls w) := by
    rw [hstart]
    trivial
  have hend := run_guarded (step reqs)
    (I := fun n => Inv reqs n ∧ n.loadBalancer = .constant ∧ Offered e n ∧ GoesTo e (n.calls w))
    (fun n l n' hn hnext h => ⟨hn.1.step h, ?_, hnext n' h, ?_⟩)
    ⟨hi, loadBalancer_of_run hrun₀, hoffered.first, hstarted⟩ hoffered.guarded hrun
  · exact hend.2.2.2
  · rw [loadBalancer_of_step h, hn.2.1]
  · exact step_pc (P := GoesTo e) h
      (fun hcall hgoes => hcall.goesTo hn.2.2.1 hn.2.1 hname (hn.1.known w) hgoes) hn.2.2.2

/-- Another pool is added, and a call looks at both. -/
def fetchBeside (w : CallId) : List Label := .addPool "b" nodeA :: .call w .none :: fetch w

theorem goesTo_while_offered_two : ∃ m t,
    run (step requestsA) { loadBalancer := .constant } [.addPool "a" nodeA] = some m ∧
      run (step requestsA) m (fetchBeside 0) = some t ∧
      GoesTo endpointA (t.calls 0) := by
  have hall : (run (step requestsA) { loadBalancer := .constant } [.addPool "a" nodeA]).map
      (fun m => (m.calls 0, (run (step requestsA) m (fetchBeside 0)).isSome,
        decide (Always (step requestsA) (Offered endpointA) m (fetchBeside 0)))) =
        some (.start, true, true) := by
    decide
  obtain ⟨m, hrun₀, hm⟩ := Option.map_eq_some_iff.mp hall
  obtain ⟨hstart, hrest⟩ := Prod.mk.inj hm
  obtain ⟨hsome, hoffered⟩ := Prod.mk.inj hrest
  obtain ⟨t, hrun⟩ := Option.isSome_iff_exists.mp hsome
  exact ⟨m, t, hrun₀, hrun,
    goesTo_while_offered hrun₀ hstart rfl (of_decide_eq_true hoffered) hrun⟩

end EndpointConnectionPoolManager

end Web3Proxy
