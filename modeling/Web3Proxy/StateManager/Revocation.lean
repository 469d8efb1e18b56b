import Web3Proxy.Lib.Trans
import Web3Proxy.StateManager.Spec

/-!
# Web3Proxy.StateManager.Revocation

Whether an API key that was removed stays removed, over any number of sessions
on one database.

`remove_user` takes the plan out of memory and leaves its row; closing visits the
registered API keys only, and the next session registers every key with a row:

* `World.staysRevoked_iff` — a removed key stays removed exactly when it had no
  stored plan when it was removed;
* `World.not_staysRevoked` — a run in which it does not.
-/

namespace Web3Proxy

open Py Trans DbStateManagerProvider

/-- The database, and the state manager while a session is on. -/
structure World where
  db : Db := {}
  session : Option StateManager := none

/-- What happens to the service. -/
inductive Event where
  | createStateManager
  | call (o : Op)
  | closeStateManager

namespace World

variable (w : World)

/-- One event.  Closing ends the session also when it raises, with what was
saved until then. -/
def step : Event → Option World
  | .createStateManager =>
      if w.session.isSome then none
      else (createStateManager w.db).map fun s => { w with session := some s }
  | .call o => w.session.map fun s => { w with session := some (s.apply o) }
  | .closeStateManager =>
      w.session.map fun s => { db := (closeStateManager s w.db).state, session := none }

/-- The API key is accepted. -/
def isAuthorized (k : String) : Bool :=
  match w.session with
  | none => false
  | some s => s.isAuthorized k

/-- An event other than an administrator's call on `k`. -/
def NotAdmin (k : String) : Event → Prop
  | .call o => o.adminKey ≠ some k
  | _ => True

/-- After `remove_user(k)` now, `k` is not accepted in any later state that is
reached without another administrator's call on `k`. -/
def StaysRevoked (k : String) : Prop :=
  ∀ ls w', (∀ e ∈ ls, NotAdmin k e) →
    run step w (.call (.removeUser k) :: ls) = some w' → w'.isAuthorized k = false

/-! ## the invariants -/

/-- What every event keeps. -/
structure Inv (w : World) : Prop where
  linked : w.db.Linked
  attached : ∀ s, w.session = some s → s.Attached w.db

variable {w} {w' : World} {k : String}

theorem Inv.step (h : w.Inv) {e : Event} (hstep : w.step e = some w') : w'.Inv := by
  cases e with
  | createStateManager =>
      simp only [World.step] at hstep
      obtain ⟨s, hs, hfresh, -⟩ := createStateManager_spec h.linked
      rw [hs] at hstep
      split at hstep
      · cases hstep
      · obtain rfl := Option.some.inj hstep
        exact ⟨h.linked, fun s' hs' => Option.some.inj hs' ▸ hfresh.attached⟩
  | call o =>
      obtain ⟨s, hs, rfl⟩ := Option.map_eq_some_iff.mp hstep
      exact ⟨h.linked, fun s' hs' => Option.some.inj hs' ▸ (h.attached s hs).apply o⟩
  | closeStateManager =>
      obtain ⟨s, hs, rfl⟩ := Option.map_eq_some_iff.mp hstep
      exact ⟨(closeStateManager_state h.linked (h.attached s hs)).1, fun _ h => (nomatch h)⟩

/-- The API key has neither a stored nor a registered plan. -/
structure Gone (w : World) (k : String) : Prop where
  inv : w.Inv
  stored : w.db.planAt k = none
  registered : ∀ s, w.session = some s → s.planOf k = none

theorem Gone.not_authorized (h : w.Gone k) : w.isAuthorized k = false := by
  unfold isAuthorized
  cases hs : w.session with
  | none => rfl
  | some s =>
      show s.isAuthorized k = false
      rw [Bool.eq_false_iff, Ne, StateManager.isAuthorized_iff]
      intro ⟨bp, hbp⟩
      rw [h.registered s hs] at hbp
      cases hbp

/-- An API key that is gone is brought back by an administrator's call only. -/
theorem Gone.step (h : w.Gone k) {e : Event} (he : NotAdmin k e)
    (hstep : w.step e = some w') : w'.Gone k := by
  have hinv := h.inv.step hstep
  cases e with
  | createStateManager =>
      simp only [World.step] at hstep
      obtain ⟨s, hs, hfresh, -⟩ := createStateManager_spec h.inv.linked
      rw [hs] at hstep
      split at hstep
      · cases hstep
      · obtain rfl := Option.some.inj hstep
        refine ⟨hinv, h.stored, fun s' hs' => ?_⟩
        cases hs'
        rw [Option.eq_none_iff_forall_ne_some]
        intro bp hbp
        obtain ⟨i, -, hat⟩ := hfresh k bp hbp
        rw [h.stored] at hat
        cases hat
  | call o =>
      obtain ⟨s, hs, rfl⟩ := Option.map_eq_some_iff.mp hstep
      refine ⟨hinv, h.stored, fun s' hs' => ?_⟩
      cases hs'
      exact (s.planOf_apply he).trans (h.registered s hs)
  | closeStateManager =>
      obtain ⟨s, hs, rfl⟩ := Option.map_eq_some_iff.mp hstep
      have hother := (closeStateManager_state h.inv.linked (h.inv.attached s hs)).2.2
      exact ⟨hinv, (hother k (h.registered s hs)).trans h.stored, fun _ h => (nomatch h)⟩

/-- Removing an API key without a stored plan. -/
theorem Inv.gone (h : w.Inv) (hk : w.db.planAt k = none)
    (hstep : w.step (.call (.removeUser k)) = some w') : w'.Gone k := by
  have hinv := h.step hstep
  obtain ⟨s, hs, rfl⟩ := Option.map_eq_some_iff.mp hstep
  refine ⟨hinv, hk, fun s' hs' => ?_⟩
  cases hs'
  rw [StateManager.apply, StateManager.planOf_removeUser, if_pos rfl]

/-- Removing an API key with a stored plan, closing the session and starting the
next one. -/
theorem Inv.comes_back (h : w.Inv) {s : StateManager} (hs : w.session = some s)
    (hk : w.db.planAt k ≠ none) :
    ∃ w', run World.step w
      [.call (.removeUser k), .closeStateManager, .createStateManager] = some w' ∧
      w'.isAuthorized k = true := by
  have hattached := (h.attached s hs).apply (.removeUser k)
  obtain ⟨hl, hkeeps, -⟩ := closeStateManager_state h.linked hattached
  obtain ⟨s', hs', -, hauth⟩ := createStateManager_spec hl
  refine ⟨⟨(closeStateManager (s.apply (.removeUser k)) w.db).state, some s'⟩, ?_,
    (hauth k).mpr (hkeeps.ne_none hk)⟩
  simp only [run_cons, World.step, hs, Option.map_some, Option.bind_some, Option.isSome_none,
    Bool.false_eq_true, if_false, hs', run_nil]

/-- **A revoked API key stays revoked** exactly when it had no stored plan when it
was removed. -/
theorem staysRevoked_iff {db : Db} (hdb : db.Linked) {ls : List Event} {w : World}
    (hrun : run step { db } ls = some w) {k : String} (hk : w.isAuthorized k = true) :
    w.StaysRevoked k ↔ w.db.planRows k = [] := by
  have hinit : Inv { db } := ⟨hdb, fun s hs => by cases hs⟩
  have hinv : w.Inv := run_invariant step (fun _ _ _ h => Inv.step h) hinit hrun
  rw [Db.planRows_eq_nil]
  constructor
  · intro hstays
    by_contra hne
    cases hs : w.session with
    | none =>
        unfold isAuthorized at hk
        rw [hs] at hk
        cases hk
    | some s =>
        obtain ⟨w', hrun', hauth⟩ := hinv.comes_back hs hne
        rw [hstays _ w' (by simp [NotAdmin]) hrun'] at hauth
        cases hauth
  · intro hnone es w' hes hrun'
    obtain ⟨w₁, hremove, hrest⟩ := (run_cons_eq_some step).mp hrun'
    have hgone := run_guarded (I := fun w => w.Gone k) step
      (fun _ _ _ h he hstep => h.step he hstep) (hinv.gone hnone hremove)
      (guarded_of_forall step (fun e he _ => hes e he) w₁) hrest
    exact hgone.not_authorized

/-- A first session that registers `"a"`. -/
def firstSession : World :=
  (run step {} [.createStateManager, .call (.registerUser "a" ⟨10, 10, 0, 0, 0, none⟩)]).getD {}

/-- The session after it. -/
def secondSession : World :=
  (run step firstSession [.closeStateManager, .createStateManager]).getD {}

/-- The exact condition, for `"a"` in the first session. -/
theorem staysRevoked_iff_firstSession :
    firstSession.StaysRevoked "a" ↔ firstSession.db.planRows "a" = [] := by
  have hrun : run step {} [.createStateManager,
      .call (.registerUser "a" ⟨10, 10, 0, 0, 0, none⟩)] = some firstSession := rfl
  exact staysRevoked_iff Db.linked_empty hrun rfl

/-- An API key that is removed in the second session is back in the third. -/
theorem not_staysRevoked :
    run step {} [.createStateManager, .call (.registerUser "a" ⟨10, 10, 0, 0, 0, none⟩),
        .closeStateManager, .createStateManager] = some secondSession ∧
      secondSession.isAuthorized "a" = true ∧ ¬ secondSession.StaysRevoked "a" := by
  refine ⟨rfl, rfl, fun h => ?_⟩
  have hback := h [.closeStateManager, .createStateManager] _ (by simp [NotAdmin]) rfl
  cases hback

end World

end Web3Proxy
