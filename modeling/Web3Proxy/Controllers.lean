import Mathlib.Logic.Function.Basic
import Web3Proxy.EndpointConnectionPool
import Web3Proxy.Lib.Trans

/-!
# Web3Proxy.Controllers

The damage controller and the sync controller of a pool (`pool_manager.py`).  Each starts
a thread per suspension, which checks the status, suspends the pool, and activates it
after a test that passes; the pool's callers go on in between.

* `Suspension.activated_after_tests` — when no thread suspends a pool that has been
  suspended since the thread checked it, a pool that is active owes neither controller a
  test.

The outcome of a test is arbitrary, and a test has no effect on the status: it opens a
connection of its own, or is one of the calls of the pool.
-/

namespace Web3Proxy

open Py Trans

/-- The two controllers. -/
inductive Controller where
  | damage
  | sync
deriving DecidableEq, Repr

/-- How a controller suspends a pool. -/
def Controller.suspend : Controller → EndpointConnectionPool → Result EndpointConnectionPool Unit
  | .damage, p => p.disable
  | .sync, p => p.outOfSync

/-- Where a thread stands in `__suspend_pool`. -/
inductive SuspendPc where
  | check
  | suspend
  | test
  | activate
  | done
deriving DecidableEq, Repr

/-- A thread that runs `__suspend_pool`. -/
abbrev ThreadId := Nat

/-- A pool and the threads that suspend it.  `owes` says of a controller that no test of
its own has passed since it suspended the pool. -/
structure Suspension where
  pool : EndpointConnectionPool := {}
  pc : ThreadId → SuspendPc := fun _ => .check
  owes : Controller → Bool := fun _ => false

namespace Suspension

/-- A thread takes its next step, where `passes` is the outcome of a test; or one of the
pool's other methods is called. -/
inductive Label where
  | thread (t : ThreadId) (passes : Bool)
  | get (outOfSync : Bool) (creation : Option ConnId) (now : Int)
  | put (c : ConnId) (now : Int)
  | handleBrokenConnection (c : ConnId) (isNew : Bool) (now : Int)
  | close
deriving DecidableEq, Repr

variable (controller : ThreadId → Controller) (s : Suspension) (t : ThreadId)

/-- The thread goes on at `pc`. -/
def goto (pc : SuspendPc) : Suspension := { s with pc := Function.update s.pc t pc }

/-- A step of `__suspend_pool`. -/
def suspendPool (passes : Bool) : Option Suspension :=
  match s.pc t with
  | .check => some (s.goto t (if s.pool.isActive then .suspend else .done))
  | .suspend =>
      match (controller t).suspend s.pool with
      | .ok _ pool => some
          ({ s with pool, owes := Function.update s.owes (controller t) true }.goto t .test)
      | .raise _ pool => some ({ s with pool }.goto t .done)
  | .test =>
      if passes then
        some ({ s with owes := Function.update s.owes (controller t) false }.goto t .activate)
      else some s
  -- an exception ends the thread as well
  | .activate => some ({ s with pool := s.pool.activate.state }.goto t .done)
  | .done => none

/-- One step. -/
def step : Label → Option Suspension
  | .thread t passes => s.suspendPool controller t passes
  | .get oos creation now => some { s with pool := s.pool.call (.get oos creation now) }
  | .put c now => some { s with pool := s.pool.call (.put c now) }
  | .handleBrokenConnection c isNew now =>
      some { s with pool := s.pool.call (.handleBrokenConnection c isNew now) }
  | .close => some { s with pool := s.pool.call .close }

/-! ## what holds -/

/-- An active pool owes no controller a test. -/
def Vindicated (s : Suspension) : Prop := s.pool.status = .active → ∀ k, s.owes k = false

/-- No thread suspends a pool that has been suspended since the thread checked it. -/
def Unraced (s : Suspension) : Label → Prop
  | .thread t _ => s.pc t = .suspend → s.pool.status ≠ .disabled ∧ s.pool.status ≠ .outOfSync
  | _ => True

instance (s : Suspension) : DecidablePred s.Unraced
  | .thread _ _ => inferInstanceAs (Decidable (_ → _ ∧ _))
  | .get _ _ _ | .put _ _ | .handleBrokenConnection _ _ _ | .close => isTrue trivial

/-- The thread has suspended the pool and has not activated it yet. -/
def Suspends (s : Suspension) (t : ThreadId) : Prop := s.pc t = .test ∨ s.pc t = .activate

/-- What unraced steps keep. -/
structure Inv (controller : ThreadId → Controller) (s : Suspension) : Prop where
  /-- Only one thread at a time suspends the pool. -/
  alone : ∀ t u, s.Suspends t → s.Suspends u → t = u
  inactive : ∀ t, s.Suspends t → s.pool.status ≠ .active
  owing : ∀ k, s.owes k = true → ∃ t, s.pc t = .test ∧ controller t = k

section Steps

variable {controller : ThreadId → Controller} {s s' : Suspension} {t : ThreadId}

@[simp] theorem goto_owes (pc : SuspendPc) : (s.goto t pc).owes = s.owes := rfl

theorem goto_pc (pc : SuspendPc) (u : ThreadId) :
    (s.goto t pc).pc u = if u = t then pc else s.pc u := by
  simp [goto, Function.update_apply]

/-- A thread that goes elsewhere suspends nothing. -/
theorem suspends_goto {pc : SuspendPc} (hpc : pc ≠ .test ∧ pc ≠ .activate) {u : ThreadId} :
    (s.goto t pc).Suspends u ↔ u ≠ t ∧ s.Suspends u := by
  unfold Suspends
  rw [goto_pc]
  by_cases hu : u = t
  · simp [hu, hpc]
  · simp [hu]

/-- What the suspension of a pool can do: raise, when the pool is closed, or suspend it. -/
theorem suspend_cases (k : Controller) (p : EndpointConnectionPool) :
    (p.status = .closed ∨ p.status = .closing) ∧ k.suspend p = .raise .exception p ∨
      ∃ pool, k.suspend p = .ok () pool ∧ pool.status ≠ .active ∧
        (p.status ≠ .closed ∧ p.status ≠ .closing) := by
  by_cases hclosed : p.status = .closed ∨ p.status = .closing
  · left
    refine ⟨hclosed, ?_⟩
    cases k <;>
      simp [Controller.suspend, EndpointConnectionPool.disable, EndpointConnectionPool.outOfSync,
        EndpointConnectionPool.suspend, hclosed]
  · right
    have hopen := not_or.mp hclosed
    cases k with
    | damage => exact ⟨_, p.suspend_open .disabled hclosed, by simp, hopen⟩
    | sync => exact ⟨_, p.suspend_open .outOfSync hclosed, by simp, hopen⟩

/-- The pool's other methods do not activate it. -/
theorem Inv.setPool (h : s.Inv controller) {pool : EndpointConnectionPool}
    (hpool : pool.status = .active → s.pool.status = .active) :
    Inv controller { s with pool } where
  alone := h.alone
  inactive := fun t ht hactive => h.inactive t ht (hpool hactive)
  owing := h.owing

/-- A thread that ends, or goes to its suspension, leaves the others as they are. -/
theorem Inv.goto (h : s.Inv controller) (hpc : s.pc t ≠ .test) {pc : SuspendPc}
    (hnext : pc ≠ .test ∧ pc ≠ .activate) : Inv controller (s.goto t pc) where
  alone := fun u v hu hv =>
    h.alone u v ((suspends_goto hnext).mp hu).2 ((suspends_goto hnext).mp hv).2
  inactive := fun u hu => h.inactive u ((suspends_goto hnext).mp hu).2
  owing := by
    intro k hk
    obtain ⟨u, hu, huk⟩ := h.owing k hk
    have hne : u ≠ t := by
      rintro rfl
      exact hpc hu
    exact ⟨u, by rw [goto_pc, if_neg hne, hu], huk⟩

/-- While no thread suspends the pool, none owes a test. -/
theorem Inv.owes_false (h : s.Inv controller) (hnone : ∀ t, ¬ s.Suspends t) (k : Controller) :
    s.owes k = false := by
  by_contra hk
  obtain ⟨t, ht, -⟩ := h.owing k (by simpa using hk)
  exact hnone t (Or.inl ht)

/-- A thread suspends a pool that is active. -/
theorem Inv.suspended (h : s.Inv controller) (hactive : s.pool.status = .active)
    {pool : EndpointConnectionPool} (hne : pool.status ≠ .active) :
    Inv controller (Suspension.goto
      { s with pool, owes := Function.update s.owes (controller t) true } t .test) := by
  have hnone : ∀ u, ¬ s.Suspends u := fun u hu => h.inactive u hu hactive
  have honly : ∀ u, Suspends (Suspension.goto
      { s with pool, owes := Function.update s.owes (controller t) true } t .test) u → u = t := by
    intro u hu
    by_contra hut
    unfold Suspends at hu
    rw [goto_pc, if_neg hut] at hu
    exact hnone u hu
  refine ⟨fun u v hu hv => (honly u hu).trans (honly v hv).symm, fun _ _ => hne, fun k hk => ?_⟩
  have hfalse := h.owes_false hnone k
  by_cases hkt : k = controller t
  · exact ⟨t, by rw [goto_pc, if_pos rfl], hkt.symm⟩
  · simp [hkt, hfalse] at hk

/-- The test of the thread that suspends the pool passes. -/
theorem Inv.passed (h : s.Inv controller) (hpc : s.pc t = .test) :
    Inv controller (Suspension.goto
      { s with owes := Function.update s.owes (controller t) false } t .activate) := by
  have ht : s.Suspends t := Or.inl hpc
  have hsame : ∀ u, Suspends (Suspension.goto
      { s with owes := Function.update s.owes (controller t) false } t .activate) u →
      s.Suspends u := by
    intro u hu
    unfold Suspends at hu
    rw [goto_pc] at hu
    by_cases hut : u = t
    · exact hut ▸ ht
    · rw [if_neg hut] at hu
      exact hu
  refine ⟨fun u v hu hv => h.alone u v (hsame u hu) (hsame v hv),
    fun u hu => h.inactive u (hsame u hu), fun k hk => ?_⟩
  by_cases hkt : k = controller t
  · simp [hkt] at hk
  · simp only [goto_owes, Function.update_apply, hkt, if_false] at hk
    obtain ⟨u, hu, huk⟩ := h.owing k hk
    have hut := h.alone u t (Or.inl hu) ht
    rw [hut] at huk
    exact absurd huk.symm hkt

/-- The thread that suspends the pool activates it. -/
theorem Inv.activated (h : s.Inv controller) (hpc : s.pc t = .activate) :
    Inv controller (Suspension.goto { s with pool := s.pool.activate.state } t .done) := by
  have ht : s.Suspends t := Or.inr hpc
  have hdone : ∀ u, ¬ Suspends (Suspension.goto
      { s with pool := s.pool.activate.state } t .done) u := by
    intro u hu
    obtain ⟨hut, hsuspends⟩ := (suspends_goto (by simp)).mp hu
    exact hut (h.alone u t hsuspends ht)
  refine ⟨fun u _ hu => absurd hu (hdone u), fun u hu => absurd hu (hdone u), fun k hk => ?_⟩
  obtain ⟨u, hu, -⟩ := h.owing k hk
  have hut := h.alone u t (Or.inl hu) ht
  rw [hut, hpc] at hu
  cases hu

/-- The step of a thread. -/
theorem Inv.suspendPool (h : s.Inv controller) {passes : Bool}
    (hunraced : s.Unraced (.thread t passes))
    (hs : s.suspendPool controller t passes = some s') : s'.Inv controller := by
  unfold Suspension.suspendPool at hs
  cases hpc : s.pc t with
  | check =>
      simp only [hpc, Option.some.injEq] at hs
      subst hs
      refine h.goto (by simp [hpc]) ?_
      split <;> simp
  | suspend =>
      simp only [hpc] at hs
      obtain ⟨-, hsuspend⟩ | ⟨pool, hsuspend, hne, hopen⟩ := suspend_cases (controller t) s.pool
      · simp only [hsuspend, Option.some.injEq] at hs
        subst hs
        exact (h.setPool id).goto (by simp [hpc]) (by simp)
      · simp only [hsuspend, Option.some.injEq] at hs
        subst hs
        -- nobody has suspended the pool before
        have hactive : s.pool.status = .active := by
          have hraced := hunraced hpc
          cases hstatus : s.pool.status <;> simp_all
        exact h.suspended hactive hne
  | test =>
      simp only [hpc] at hs
      split at hs
      · obtain rfl := Option.some.inj hs
        exact h.passed hpc
      · cases hs
        exact h
  | activate =>
      simp only [hpc, Option.some.injEq] at hs
      subst hs
      exact h.activated hpc
  | done => simp [hpc] at hs

theorem Inv.step (h : s.Inv controller) {l : Label} (hunraced : s.Unraced l)
    (hs : s.step controller l = some s') : s'.Inv controller := by
  cases l with
  | thread t passes => exact h.suspendPool hunraced hs
  | get oos creation now =>
      obtain rfl := Option.some.inj hs
      refine h.setPool fun hactive => ?_
      rw [EndpointConnectionPool.call, s.pool.get_status] at hactive
      exact hactive
  | put c now =>
      obtain rfl := Option.some.inj hs
      refine h.setPool fun hactive => ?_
      rw [EndpointConnectionPool.call] at hactive
      obtain hsame | ⟨-, hclosed⟩ := s.pool.put_status c now
      · exact hsame ▸ hactive
      · rw [hclosed] at hactive
        cases hactive
  | handleBrokenConnection c isNew now =>
      obtain rfl := Option.some.inj hs
      refine h.setPool fun hactive => ?_
      rw [EndpointConnectionPool.call, s.pool.handleBrokenConnection_status] at hactive
      exact hactive
  | close =>
      obtain rfl := Option.some.inj hs
      refine h.setPool fun hactive => ?_
      rw [EndpointConnectionPool.call, s.pool.close_eq] at hactive
      simp only [Result.state] at hactive
      split at hactive <;> cases hactive

theorem inv_init (controller : ThreadId → Controller) : Inv controller {} where
  alone := by simp [Suspends]
  inactive := by simp [Suspends]
  owing := by simp

theorem Inv.vindicated (h : s.Inv controller) : s.Vindicated := by
  intro hactive
  exact h.owes_false fun t ht => h.inactive t ht hactive

end Steps

/-- **Suspension**: with any number of threads of either controller, a pool that is active
owes no controller a test, in every run in which no suspension meets a pool that is
suspended already. -/
theorem activated_after_tests (controller : ThreadId → Controller) (ls : List Label)
    (hunraced : Guarded (fun s l => step controller s l) Unraced {} ls) :
    Always (fun s l => step controller s l) Vindicated {} ls :=
  always_of_guarded _ (fun _ _ _ (h : Inv controller _) hunraced hs => h.step hunraced hs)
    (fun _ h => h.vindicated) (inv_init controller) hunraced

/-- A thread of each controller suspends the pool and activates it after the second test; a
third one finds it suspended. -/
def suspendedInTurn : List Label :=
  [.thread 0 false, .thread 0 false, .thread 1 false, .thread 0 false, .thread 0 true,
    .thread 0 false, .thread 2 false, .thread 2 false, .thread 2 false, .thread 2 true,
    .thread 2 false]

theorem activated_after_tests_inTurn :
    Always (fun s l => step (fun t => if t = 0 then .damage else .sync) s l) Vindicated {}
      suspendedInTurn :=
  activated_after_tests _ suspendedInTurn (by decide)

/-- Both threads find the pool active; the sync controller suspends it, and so does the
damage controller, whose test passes. -/
def raced : List Label :=
  [.thread 0 false, .thread 1 false, .thread 1 false, .thread 0 false, .thread 0 true,
    .thread 0 false]

/-- The pool is active again while the sync controller has not had its test. -/
theorem not_activated_after_tests : ¬ ∀ controller ls,
    Always (fun s l => step controller s l) Vindicated {} ls := by
  intro h
  have hall := h (fun t => if t = 0 then .damage else .sync) raced
  have hend := ((((((hall.2 _ rfl).2 _ rfl).2 _ rfl).2 _ rfl).2 _ rfl).2 _ rfl)
  have howes := hend rfl .sync
  cases howes

end Suspension

end Web3Proxy
