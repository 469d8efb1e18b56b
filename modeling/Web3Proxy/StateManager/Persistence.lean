import Web3Proxy.Lib.Trans
import Web3Proxy.StateManager.Spec

/-!
# Web3Proxy.StateManager.Persistence

Whether closing a session saves what it holds.  A `Session` is a state manager
loaded from a database, and the calls made on it; the database changes only when
the session is closed.

A plan object made by `create_plan` has no id, so it is inserted.  When its API
key was loaded with a plan, removed and registered again, the row of the old
plan is still there and the insertion violates the unique index:

* `Session.persists_iff` — a session can be closed in all its states exactly when
  it registers no API key that has a stored plan;
* `Session.not_always_persists` — a session that does.
-/

namespace Web3Proxy

open Py Trans DbStateManagerProvider

/-- A session over a database. -/
structure Session where
  db : Db
  state : StateManager

namespace Session

variable (s : Session)

/-- All numbers of the session fit their columns. -/
def fits : Bool :=
  s.state.billingService.userPlans.items.all (fun e => e.2.terms.fits) &&
    s.state.activityLedger.entries.all fun e => e.2.2.2.fits

/-- A call that leaves numbers that fit their columns. -/
def step (o : Op) : Option Session :=
  let t := { s with state := s.state.apply o }
  if t.fits then some t else none

/-- Closing the session now saves everything it holds: it goes through, and each
registered API key then has exactly one plan row, equal to its plan, and each day,
key and method exactly one usage row, with its counters. -/
def Persists : Prop :=
  ∃ db', closeStateManager s.state s.db = .ok () db' ∧
    (∀ k bp, s.state.planOf k = some bp →
      (db'.planRows k).map (fun e => e.2.terms) = [bp.terms]) ∧
    ∀ d k m cs, s.state.activityLedger.statsOf d k m = some cs →
      (db'.statsRows d k m).map (fun e => e.2.stats) = [cs]

/-- The call does not register an API key that has a stored plan. -/
def RegistersNew : Op → Prop
  | .registerUser k _ => s.state.planOf k = none → s.db.planRows k = []
  | _ => True

/-! ## the invariant -/

/-- What the calls keep: a plan without an id has no row in its way. -/
structure Inv (s : Session) : Prop where
  linked : s.db.Linked
  attached : s.state.Attached s.db
  fits : s.fits = true
  new : ∀ k bp, s.state.planOf k = some bp → bp.id = none → s.db.planAt k = none

variable {s}

theorem fits_terms (h : s.fits = true) {k : String} {bp : BillingPlan}
    (hbp : s.state.planOf k = some bp) : bp.terms.fits = true := by
  unfold fits at h
  rw [Bool.and_eq_true, List.all_eq_true] at h
  exact h.1 (k, bp) (Dict.mem_items.mpr hbp)

theorem fits_stats (h : s.fits = true) {d : DateKey} {k m : String} {cs : CallStats}
    (hcs : s.state.activityLedger.statsOf d k m = some cs) : cs.fits = true := by
  unfold fits at h
  rw [Bool.and_eq_true, List.all_eq_true, List.all_eq_true] at h
  exact h.2 (d, k, m, cs) (s.state.activityLedger.mem_entries.mpr hcs)

/-- In a state that meets the invariant, closing saves everything. -/
theorem Inv.persists (h : s.Inv) : s.Persists := by
  have hsave (k bp) (hbp : s.state.planOf k = some bp) : s.db.Saveable k bp :=
    ⟨fits_terms h.fits hbp, h.new k bp hbp⟩
  obtain ⟨db', hclose, hplan, hstats⟩ := closeStateManager_ok h.linked h.attached hsave
    fun d k m cs => fits_stats h.fits
  refine ⟨db', hclose, fun k bp hbp => ?_, fun d k m cs hcs => ?_⟩
  · obtain ⟨i, hat⟩ := hplan k bp hbp
    have hrows := congrArg (List.map Prod.snd) (db'.planRows_eq k)
    rw [List.map_map, hat] at hrows
    exact hrows
  · have hrows := db'.statsRows_eq d k m
    rw [hstats d k m cs hcs] at hrows
    exact hrows

/-- A step applies the call, and its numbers fit. -/
theorem step_eq_some {o : Op} {t : Session} (h : s.step o = some t) :
    t = { s with state := s.state.apply o } ∧ t.fits = true := by
  simp only [step] at h
  split at h
  next hfit => exact ⟨(Option.some.inj h).symm, Option.some.inj h ▸ hfit⟩
  next => cases h

/-- A call that registers no API key with a stored plan keeps the invariant. -/
theorem Inv.step (h : s.Inv) {o : Op} {t : Session} (ho : s.RegistersNew o)
    (hstep : s.step o = some t) : t.Inv := by
  obtain ⟨rfl, hfit⟩ := step_eq_some hstep
  refine ⟨h.linked, h.attached.apply o, hfit, fun k bp hbp hid => ?_⟩
  by_cases hk : o.adminKey = some k
  · cases o with
    | registerUser j t =>
        cases hk
        rw [StateManager.apply, StateManager.planOf_registerUser, if_pos rfl] at hbp
        cases hq : s.state.planOf k with
        | none => exact Db.planRows_eq_nil.mp (ho hq)
        | some q =>
            rw [hq] at hbp
            cases hbp
            exact h.new k q hq hid
    | updateUserPlan j t =>
        cases hk
        rw [StateManager.apply, StateManager.planOf_updateUserPlan, if_pos rfl,
          Option.map_eq_some_iff] at hbp
        obtain ⟨q, hq, rfl⟩ := hbp
        exact h.new k q hq hid
    | removeUser j =>
        cases hk
        rw [StateManager.apply, StateManager.planOf_removeUser, if_pos rfl] at hbp
        cases hbp
    | recordRpcRequest d r => cases hk
    | recordRpcResponse d r n => cases hk
  · rw [StateManager.planOf_apply _ hk] at hbp
    exact h.new k bp hbp hid

/-- After registering an API key that has a stored plan, closing raises. -/
theorem Inv.not_persists (h : s.Inv) {o : Op} {t : Session} (ho : ¬ s.RegistersNew o)
    (hstep : s.step o = some t) : ¬ t.Persists := by
  obtain ⟨rfl, hfit⟩ := step_eq_some hstep
  cases o with
  | registerUser k terms =>
      obtain ⟨hnone, hrows⟩ := Classical.not_imp.mp ho
      have hplan : (s.state.apply (.registerUser k terms)).planOf k = some { terms } := by
        rw [StateManager.apply, StateManager.planOf_registerUser, if_pos rfl, hnone]
        rfl
      have hns : ¬ s.db.Saveable k { terms } :=
        fun hs => hrows (Db.planRows_eq_nil.mpr (hs.2 rfl))
      obtain ⟨e, db', hraise⟩ := closeStateManager_raise h.linked (h.attached.apply _) hplan hns
      intro hpersists
      obtain ⟨db'', hok, -⟩ := hpersists
      rw [hraise] at hok
      cases hok
  | _ => exact absurd trivial ho

/-- **Closing persists everything** in every state of a session exactly when each
`register_user` of the session that finds its API key unregistered finds no stored
plan for it either. -/
theorem persists_iff {db : Db} (hdb : db.Linked) {s : StateManager}
    (hs : createStateManager db = some s) (hfit : (Session.mk db s).fits = true) (ls : List Op) :
    Always step Persists ⟨db, s⟩ ls ↔ Guarded step RegistersNew ⟨db, s⟩ ls := by
  obtain ⟨s', hs', hfresh, -⟩ := createStateManager_spec hdb
  rw [hs] at hs'
  cases hs'
  refine always_iff_guarded (I := Inv) step (fun _ h => h.persists) (fun _ _ _ h => h.step)
    (fun _ _ _ h => h.not_persists) ls ⟨hdb, hfresh.attached, hfit, fun k bp hbp hid => ?_⟩
  obtain ⟨i, hi, -⟩ := hfresh k bp hbp
  rw [hid] at hi
  cases hi

/-- A saved database: the one a first session leaves that registers `"a"`. -/
def savedDb : Db :=
  (closeStateManager (StateManager.apply {} (.registerUser "a" ⟨10, 10, 0, 0, 0, none⟩)) {}).state

/-- The state manager of the next session. -/
def loadedState : StateManager := (createStateManager savedDb).getD {}

theorem savedDb_linked : savedDb.Linked :=
  (closeStateManager_state Db.linked_empty (StateManager.attached_empty.apply _)).1

theorem createStateManager_savedDb : createStateManager savedDb = some loadedState := rfl

/-- The exact condition, in the next session. -/
theorem persists_iff_loadedState :
    Always step Persists ⟨savedDb, loadedState⟩ [.removeUser "a", .removeUser "b"] ↔
      Guarded step RegistersNew ⟨savedDb, loadedState⟩ [.removeUser "a", .removeUser "b"] :=
  persists_iff savedDb_linked createStateManager_savedDb rfl _

/-- A session that removes an API key and registers it again cannot be closed: the
insertion of the new plan violates the unique index. -/
theorem not_always_persists :
    savedDb.Linked ∧ createStateManager savedDb = some loadedState ∧
      (Session.mk savedDb loadedState).fits = true ∧
      ¬ Always step Persists ⟨savedDb, loadedState⟩
        [.removeUser "a", .registerUser "a" ⟨5, 5, 0, 0, 0, none⟩] := by
  refine ⟨savedDb_linked, rfl, rfl, fun h => ?_⟩
  obtain ⟨db', hok, -⟩ := (h.2 _ rfl).2 _ rfl
  cases hok

end Session

end Web3Proxy
