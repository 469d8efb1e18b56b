import Web3Proxy.PoolManager

/-!
# Web3Proxy.PoolManager.Failover

Whether a request gets a connection while some pool is active.  `get_connection` chooses
from the pools that it has found active under its own lock, and calls `get` of the chosen one after
it has given the lock back; by then the pool may have been suspended.

* `failsOver_iff` — if some pool stays active, a call returns a connection of a pool that
  was active exactly when the pool that it has picked is active when its `get` begins;
* `not_failsOver` — the picked pool is disabled in between, while another one is active all
  along.
-/

namespace Web3Proxy

open Py Trans

namespace PoolManager

variable {m m' t : PoolManager} {w : CallId} {name : String}

/-! ## what is to hold -/

/-- The pool is active at some moment of the run. -/
def WasActive (m : PoolManager) (ls : List Label) (name : String) : Prop :=
  ∃ ls₁ ls₂ u, ls = ls₁ ++ ls₂ ∧ run step m ls₁ = some u ∧ u.IsActive name

/-- At the end of the run the call has returned a connection of a pool that was active. -/
def FailsOver (m : PoolManager) (ls : List Label) (w : CallId) (t : PoolManager) : Prop :=
  ∃ name c isNew, t.calls w = .returned name c isNew ∧ WasActive m ls name

/-- If the step is the beginning of `get` in the call, the picked pool is active. -/
def GetsActive (w : CallId) (m : PoolManager) : Label → Prop
  | .call v _ => v = w → match m.calls w with
      | .getIdle name => m.IsActive name
      | _ => True
  | _ => True

instance (w : CallId) (m : PoolManager) (l : Label) : Decidable (GetsActive w m l) := by
  unfold GetsActive
  split
  · have : Decidable (match m.calls w with
        | .getIdle name => m.IsActive name
        | _ => True) := by
      split <;> infer_instance
    infer_instance
  · infer_instance

/-! ## what is returned was active -/

/-- The pool has passed the check of its `get`. -/
def Serving (name : String) : CallPc String Unit → Prop
  | .connect pool | .busyAdd pool _ _ | .returned pool _ _ => pool = name
  | _ => False

/-- A pool serves that is active. -/
theorem Next.serving {pc pc' : CallPc String Unit} (h : Next m pc pc')
    (hserving : Serving name pc') :
    Serving name pc ∨ m.IsActive name := by
  cases h with
  | noIdle hactive => exact Or.inr (hserving ▸ hactive)
  | idle c hactive => exact Or.inr (hserving ▸ hactive)
  | connected c => exact Or.inl hserving
  | added => exact Or.inl hserving
  | _ => exact absurd hserving id

theorem step_serving {l : Label} (h : m.step l = some m') (hserving : Serving name (m'.calls w)) :
    Serving name (m.calls w) ∨ m.IsActive name := by
  cases l with
  | pool n o =>
      rw [(step_pool h).1] at hserving
      exact Or.inl hserving
  | call v input =>
      have hcall := step_call h
      by_cases hv : w = v
      · subst hv
        exact hcall.next.serving hserving
      · rw [hcall.calls w hv] at hserving
        exact Or.inl hserving

/-- By induction on the run: a pool that serves at the end has served from the start, or was
active in between. -/
theorem wasActive_of_serving {ls : List Label} (hrun : run step m ls = some t)
    (hserving : Serving name (t.calls w)) : Serving name (m.calls w) ∨ WasActive m ls name := by
  induction ls generalizing m with
  | nil =>
      cases hrun
      exact Or.inl hserving
  | cons l ls ih =>
      obtain ⟨m', hstep, hrest⟩ := (run_cons_eq_some step).mp hrun
      obtain hbefore | ⟨ls₁, ls₂, u, rfl, hrun₁, hactive⟩ := ih hrest
      · obtain hfirst | hactive := step_serving hstep hbefore
        · exact Or.inl hfirst
        · exact Or.inr ⟨[], l :: ls, m, rfl, rfl, hactive⟩
      · exact Or.inr ⟨l :: ls₁, ls₂, u, rfl,
          (run_cons_eq_some step).mpr ⟨m', hstep, hrun₁⟩, hactive⟩

/-! ## what is active is found -/

/-- A pool that stays active is not missed, and the call has not raised. -/
def Finds (name : String) : CallPc String Unit → Prop
  | .activePools todo found => name ∈ todo ∨ name ∈ found
  | .raised _ => False
  | _ => True

theorem Next.finds {pc pc' : CallPc String Unit} (h : Next m pc pc') (hactive : m.IsActive name)
    (hfinds : Finds name pc) (hget : ∀ pool, pc = .getIdle pool → m.IsActive pool) :
    Finds name pc' := by
  cases h with
  | start =>
      obtain ⟨pool, hpool, -⟩ := hactive
      exact Or.inl (Dict.mem_keys.mpr ⟨pool, hpool⟩)
  | found _ =>
      obtain hmem | hmem := hfinds
      · obtain rfl | htodo := List.mem_cons.mp hmem
        · exact Or.inr (List.mem_append_right _ (List.mem_singleton_self _))
        · exact Or.inl htodo
      · exact Or.inr (List.mem_append_left _ hmem)
  | skipped hnot =>
      obtain hmem | hmem := hfinds
      · obtain rfl | htodo := List.mem_cons.mp hmem
        · exact absurd hactive hnot
        · exact Or.inl htodo
      · exact Or.inr hmem
  | noActivePools =>
      obtain hmem | hmem := hfinds
      · cases hmem
      · cases hmem
  | disabled hnot => exact absurd (hget _ rfl) hnot
  | _ => trivial

/-- A pool that is not active any more when its `get` begins makes the call raise. -/
theorem Next.raised {pool : String} {pc' : CallPc String Unit} (h : Next m (.getIdle pool) pc')
    (hnot : ¬ m.IsActive pool) : pc' = .raised () := by
  cases h with
  | disabled => rfl
  | noIdle hactive => exact absurd hactive hnot
  | idle c hactive => exact absurd hactive hnot

theorem finds_step {l : Label} (h : m.step l = some m') (hactive : m.IsActive name)
    (hfinds : Finds name (m.calls w)) (hget : GetsActive w m l) : Finds name (m'.calls w) := by
  cases l with
  | pool n o =>
      rw [(step_pool h).1]
      exact hfinds
  | call v input =>
      have hcall := step_call h
      by_cases hv : w = v
      · subst hv
        refine hcall.next.finds hactive hfinds fun pool hpc => ?_
        have hpool := hget rfl
        rwa [hpc] at hpool
      · rw [hcall.calls w hv]
        exact hfinds

theorem raised_of_not_getsActive {l : Label} (h : m.step l = some m')
    (hget : ¬ GetsActive w m l) : m'.calls w = .raised () := by
  cases l with
  | pool n o => exact absurd trivial hget
  | call v input =>
      have hnext := (step_call h).next
      simp only [GetsActive] at hget
      obtain ⟨rfl, hnot⟩ := Classical.not_imp.mp hget
      split at hnot
      · next pool hpc =>
        rw [hpc] at hnext
        exact hnext.raised hnot
      · exact absurd trivial hnot

/-- A call that has raised does nothing more. -/
theorem raised_step {l : Label} (h : m.step l = some m') (hraised : m.calls w = .raised ()) :
    m'.calls w = .raised () := by
  cases l with
  | pool n o => rw [(step_pool h).1, hraised]
  | call v input =>
      have hcall := step_call h
      by_cases hv : w = v
      · subst hv
        have hnext := hcall.next
        rw [hraised] at hnext
        cases hnext
      · rw [hcall.calls w hv, hraised]

/-! ## results -/

/-- **Failover.**  In any run in which a call of `get_connection` is made and ends, while calls
of the pools' methods and other calls of `get_connection` come in between, and in which some pool is
active all along: the call returns a connection of a pool that was active, exactly when
the pool that it has picked is active when its `get` begins. -/
theorem failsOver_iff {ls : List Label} (hstart : m.calls w = .start)
    (hrun : run step m ls = some t) (hend : (t.calls w).isEnded = true)
    (hactive : ∃ name, Always step (IsActive name) m ls) :
    FailsOver m ls w t ↔ Guarded step (GetsActive w) m ls := by
  obtain ⟨name, hactive⟩ := hactive
  have hreturned : (∃ pool c isNew, t.calls w = .returned pool c isNew) ↔
      Guarded step (GetsActive w) m ls := by
    refine last_iff_guarded_of_always step (A := IsActive name)
      (I := fun m => Finds name (m.calls w)) (D := fun m => m.calls w = .raised ())
      (F := fun m => (m.calls w).isEnded = true)
      (Q := fun m => ∃ pool c isNew, m.calls w = .returned pool c isNew)
      ?_ ?_ ?_ ?_ ?_ hactive ?_ hrun hend
    · exact fun _ _ _ hactive hfinds hget hstep => finds_step hstep hactive hfinds hget
    · exact fun _ _ _ _ hget hstep => raised_of_not_getsActive hstep hget
    · exact fun _ _ _ hraised hstep => raised_step hstep hraised
    · intro u hfinds hended
      cases hpc : u.calls w with
      | returned pool c isNew => exact ⟨pool, c, isNew, rfl⟩
      | raised e =>
          rw [hpc] at hfinds
          exact absurd hfinds id
      | _ => simp [hpc, CallPc.isEnded] at hended
    · rintro u hraised - ⟨pool, c, isNew, hpc⟩
      rw [hraised] at hpc
      cases hpc
    · rw [hstart]
      trivial
  rw [← hreturned]
  constructor
  · rintro ⟨pool, c, isNew, hpc, -⟩
    exact ⟨pool, c, isNew, hpc⟩
  · rintro ⟨pool, c, isNew, hpc⟩
    refine ⟨pool, c, isNew, hpc, ?_⟩
    have hserving : Serving pool (t.calls w) := by
      rw [hpc]
      exact rfl
    obtain hfirst | hwas := wasActive_of_serving hrun hserving
    · rw [hstart] at hfirst
      exact absurd hfirst id
    · exact hwas

/-- Two pools without connections. -/
def twoPools : PoolManager where
  loadBalancer := .random
  pools := (Dict.empty.set "geth" {}).set "nethermind" {}

/-- A call that picks the first pool, up to `get`. -/
def picking : List Label :=
  [.none, .none, .none, .none, .index 0].map (.call 0)

/-- The rest of it. -/
def getting : List Label := [.none, .connection 7 0, .none].map (.call 0)

/-- With both pools active all along the call returns a connection. -/
theorem failsOver_iff_twoPools :
    (FailsOver twoPools (picking ++ getting) 0
        ((run step twoPools (picking ++ getting)).getD twoPools) ↔
      Guarded step (GetsActive 0) twoPools (picking ++ getting)) ∧
      Guarded step (GetsActive 0) twoPools (picking ++ getting) := by
  have hsome : (run step twoPools (picking ++ getting)).isSome := by decide
  obtain ⟨t, ht⟩ := Option.isSome_iff_exists.mp hsome
  refine ⟨?_, by decide⟩
  refine failsOver_iff rfl ?_ (by decide) ⟨"geth", by decide⟩
  rw [ht, Option.getD_some]

/-- The picked pool is disabled before its `get`; the call raises, although the other pool
is active all along. -/
theorem not_failsOver :
    Always step (IsActive "nethermind") twoPools
        (picking ++ [.pool "geth" .disable, .call 0 .none]) ∧
      (run step twoPools (picking ++ [.pool "geth" .disable, .call 0 .none])).map (·.calls 0) =
        some (.raised ()) ∧
      ∀ t, run step twoPools (picking ++ [.pool "geth" .disable, .call 0 .none]) = some t →
        ¬ FailsOver twoPools (picking ++ [.pool "geth" .disable, .call 0 .none]) 0 t := by
  have hraised : (run step twoPools
      (picking ++ [.pool "geth" .disable, .call 0 .none])).map (·.calls 0) = some (.raised ()) := by
    decide
  refine ⟨by decide, hraised, ?_⟩
  rintro t hrun ⟨name, c, isNew, hreturned, -⟩
  rw [hrun, Option.map_some, hreturned] at hraised
  cases hraised

end PoolManager

end Web3Proxy
