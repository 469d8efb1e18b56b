import Web3Proxy.StateManager

/-!
# Web3Proxy.StateManager.Spec

What the administrator's calls do to the registered plans, what a session finds
in them after loading, and what saving does to the database, in terms of the
plan (`Db.planAt`) and the usage (`Db.statsAt`) of each API key.
-/

namespace Web3Proxy

open Py DbStateManagerProvider

/-! ## a session's calls -/

/-- A call that changes the state of a session: the administrator's on users,
where a plan is given by its attributes and `create_plan` has made the object,
and the ledger's. -/
inductive Op where
  | registerUser (userApiKey : String) (userPlan : PlanTerms)
  | updateUserPlan (userApiKey : String) (userPlan : PlanTerms)
  | removeUser (userApiKey : String)
  | recordRpcRequest (day : DateKey) (request : RecordedRequest)
  | recordRpcResponse (day : DateKey) (request : RecordedRequest) (response : Nat)
deriving DecidableEq

/-- The API key that an administrator's call is about. -/
def Op.adminKey : Op → Option String
  | .registerUser k _ => some k
  | .updateUserPlan k _ => some k
  | .removeUser k => some k
  | .recordRpcRequest _ _ => none
  | .recordRpcResponse _ _ _ => none

/-- Every registered plan that has an id has that of its stored row. -/
def BasicBillingService.Attached (b : BasicBillingService) (db : Db) : Prop :=
  ∀ k bp, b.userPlans.get? k = some bp → db.Attached k bp

namespace StateManager

variable (s : StateManager)

/-- The state after a call. -/
def apply : Op → StateManager
  | .registerUser k t => (s.registerUser k { terms := t }).2
  | .updateUserPlan k t => (s.updateUserPlan k { terms := t }).2
  | .removeUser k => (s.removeUser k).2
  | .recordRpcRequest d r => { s with activityLedger := s.activityLedger.recordRpcRequest d r }
  | .recordRpcResponse d r n =>
      { s with activityLedger := s.activityLedger.recordRpcResponse d r n }

/-- The plan registered for an API key. -/
def planOf (k : String) : Option BillingPlan := s.billingService.userPlans.get? k

theorem isAuthorized_iff (k : String) : s.isAuthorized k = true ↔ ∃ bp, s.planOf k = some bp :=
  Option.isSome_iff_exists

theorem planOf_registerUser (k : String) (bp : BillingPlan) (j : String) :
    (s.registerUser k bp).2.planOf j =
      if j = k then some ((s.planOf k).getD bp) else s.planOf j := by
  unfold registerUser BasicBillingService.isRegistered
  by_cases hk : s.billingService.userPlans.contains k
  · obtain ⟨q, hq⟩ := Option.isSome_iff_exists.mp hk
    by_cases hj : j = k
    · simp [hk, hj, planOf, hq]
    · simp [hk, hj]
  · simp only [hk, Bool.not_false, if_true]
    exact Dict.get?_setDefault j

theorem planOf_removeUser (k j : String) :
    (s.removeUser k).2.planOf j = if j = k then none else s.planOf j := by
  unfold removeUser BasicBillingService.isRegistered
  by_cases hk : s.billingService.userPlans.contains k
  · rw [if_pos hk]
    exact Dict.get?_erase j
  · rw [if_neg hk]
    by_cases hj : j = k
    · rw [if_pos hj, hj]
      exact Option.not_isSome_iff_eq_none.mp hk
    · rw [if_neg hj]

theorem planOf_updateUserPlan (k : String) (bp : BillingPlan) (j : String) :
    (s.updateUserPlan k bp).2.planOf j =
      if j = k then (s.planOf k).map fun q => { q with terms := bp.terms } else s.planOf j := by
  unfold updateUserPlan BasicBillingService.isRegistered BasicBillingService.updateUserPlan
  by_cases hk : s.billingService.userPlans.contains k
  · obtain ⟨q, hq⟩ := Option.isSome_iff_exists.mp hk
    simp only [hk, if_true, hq, Result.state_ok, planOf, Dict.get?_set, Option.map_some]
  · have hnone : s.planOf k = none := Option.not_isSome_iff_eq_none.mp hk
    rw [if_neg hk]
    by_cases hj : j = k
    · rw [if_pos hj, hj, hnone]
      rfl
    · rw [if_neg hj]

/-- A call that is not an administrator's on `k` leaves the plan of `k` alone. -/
theorem planOf_apply {o : Op} {k : String} (h : o.adminKey ≠ some k) :
    (s.apply o).planOf k = s.planOf k := by
  cases o with
  | registerUser j t =>
      rw [apply, planOf_registerUser, if_neg fun hk : k = j => h (hk ▸ rfl)]
  | updateUserPlan j t =>
      rw [apply, planOf_updateUserPlan, if_neg fun hk : k = j => h (hk ▸ rfl)]
  | removeUser j =>
      rw [apply, planOf_removeUser, if_neg fun hk : k = j => h (hk ▸ rfl)]
  | recordRpcRequest d r => rfl
  | recordRpcResponse d r n => rfl

/-- The registered plans are attached to their stored rows. -/
def Attached (db : Db) : Prop := s.billingService.Attached db

theorem attached_empty {db : Db} : Attached {} db := by
  intro k bp h
  cases h

/-- The calls of a session keep its plans attached. -/
theorem Attached.apply {s : StateManager} {db : Db} (h : s.Attached db) (o : Op) :
    (s.apply o).Attached db := by
  intro k bp (hbp : (s.apply o).planOf k = some bp)
  by_cases ho : o.adminKey = some k
  · cases o with
    | registerUser j t =>
        cases ho
        rw [StateManager.apply, planOf_registerUser, if_pos rfl] at hbp
        cases hq : s.planOf k with
        | none =>
            rw [hq] at hbp
            cases hbp
            exact fun i hi => (nomatch hi)
        | some q =>
            rw [hq] at hbp
            cases hbp
            exact h k q hq
    | updateUserPlan j t =>
        cases ho
        rw [StateManager.apply, planOf_updateUserPlan, if_pos rfl, Option.map_eq_some_iff] at hbp
        obtain ⟨q, hq, rfl⟩ := hbp
        exact h k q hq
    | removeUser j =>
        cases ho
        rw [StateManager.apply, planOf_removeUser, if_pos rfl] at hbp
        cases hbp
    | recordRpcRequest d r => cases ho
    | recordRpcResponse d r n => cases ho
  · rw [planOf_apply s ho] at hbp
    exact h k bp hbp

end StateManager

/-! ## loading -/

/-- The plan instance made from a row. -/
def Db.loaded (i : Nat) (t : PlanTerms) (u : Nat) : BillingPlan :=
  { terms := t, id := some i, user := some u }

/-- The plan row of an API key, found through its user. -/
theorem Db.planAt_of_row {db : Db} {i : Nat} {r : PlanRow} {k : String}
    (hr : db.plans.rows.get? i = some r) (hk : db.users.rows.get? r.user = some k) :
    db.planAt k = some (i, r.terms) := by
  unfold Db.planAt
  rw [Db.find?_user.mpr ⟨hk, rfl⟩, Option.bind_some, Table.find?_eq_some.mpr ⟨hr, rfl⟩]
  rfl

/-- The plans registered after the rows `done` have been loaded. -/
structure LoadedFrom (db : Db) (done : List (Nat × PlanRow)) (b : BasicBillingService) : Prop where
  plan : ∀ k bp, b.userPlans.get? k = some bp →
    ∃ i, bp.id = some i ∧ db.planAt k = some (i, bp.terms)
  key : ∀ e ∈ done, ∀ k, db.users.rows.get? e.2.user = some k →
    ∃ bp, b.userPlans.get? k = some bp

/-- Loading one more row. -/
theorem LoadedFrom.populatePlan {db : Db} {done : List (Nat × PlanRow)} {b : BasicBillingService}
    (h : LoadedFrom db done b) (hl : db.Linked) {e : Nat × PlanRow}
    (he : e ∈ db.plans.rows.items) :
    ∃ b', populatePlan db e b = .ok () b' ∧ LoadedFrom db (done ++ [e]) b' := by
  have hrow := Dict.mem_items.mp he
  obtain ⟨j, hj⟩ := hl.plans e.1 e.2 hrow
  refine ⟨b.registerUser j (Db.loaded e.1 e.2.terms e.2.user), ?_, fun k bp hbp => ?_,
    fun f hf k hk => ?_⟩
  · unfold DbStateManagerProvider.populatePlan
    rw [hj]
    rfl
  · rw [BasicBillingService.registerUser, Dict.get?_setDefault] at hbp
    by_cases hk : k = j
    · rw [if_pos hk] at hbp
      subst hk
      cases hq : b.userPlans.get? k with
      | none =>
          rw [hq] at hbp
          cases hbp
          exact ⟨e.1, rfl, Db.planAt_of_row hrow hj⟩
      | some q =>
          rw [hq] at hbp
          cases hbp
          exact h.plan k q hq
    · rw [if_neg hk] at hbp
      exact h.plan k bp hbp
  · rw [BasicBillingService.registerUser, Dict.get?_setDefault]
    by_cases hkj : k = j
    · rw [if_pos hkj]
      exact ⟨_, rfl⟩
    · rw [if_neg hkj]
      obtain hd | hx := List.mem_append.mp hf
      · exact h.key f hd k hk
      · obtain rfl := List.mem_singleton.mp hx
        rw [hj] at hk
        exact absurd (Option.some.inj hk).symm hkj

/-- **Loading plans** registers the API keys that have a plan row, each with the
plan of its row. -/
theorem populateBillingService_spec {db : Db} (hl : db.Linked) :
    ∃ b, populateBillingService db {} = .ok () b ∧ LoadedFrom db db.plans.rows.items b := by
  refine forEach_ok (P := LoadedFrom db) (fun done e rest b hxs h => ?_) ⟨?_, ?_⟩
  · exact h.populatePlan hl (hxs ▸ by simp)
  · exact fun k bp hbp => (nomatch hbp)
  · exact fun e he => (nomatch he)

/-- An API key with a plan row is registered after loading. -/
theorem LoadedFrom.registered {db : Db} {b : BasicBillingService}
    (h : LoadedFrom db db.plans.rows.items b) {k : String} (hk : db.planAt k ≠ none) :
    ∃ bp, b.userPlans.get? k = some bp := by
  obtain ⟨e, he⟩ := Option.ne_none_iff_exists'.mp hk
  obtain ⟨u, hu, hp⟩ := Option.bind_eq_some_iff.mp he
  obtain ⟨⟨i, r⟩, hr, -⟩ := Option.map_eq_some_iff.mp hp
  obtain ⟨hget, hru⟩ := Table.find?_eq_some.mp hr
  refine h.key (i, r) (Dict.mem_items.mpr hget) k ?_
  rw [show r.user = u.1 from hru]
  exact (Db.find?_user.mp hu).1

/-- Loading the usage raises nothing. -/
theorem populateActivityLedger_ok {db : Db} (hl : db.Linked) (l : SimpleActivityLedger) :
    ∃ l', populateActivityLedger db l = .ok () l' := by
  obtain ⟨l', hl', -⟩ := forEach_ok (f := populateStats db) (l := db.stats.rows.items) (s := l)
    (P := fun _ _ => True)
    (by
      intro done x rest l hxs _
      have hmem : x ∈ db.stats.rows.items := hxs ▸ by simp
      obtain ⟨j, hj⟩ := hl.stats x.1 x.2 (Dict.mem_items.mp hmem)
      unfold populateStats
      rw [hj]
      exact ⟨_, rfl, trivial⟩)
    trivial
  exact ⟨l', hl'⟩

/-- The registered plans are those of the stored rows. -/
def StateManager.Fresh (s : StateManager) (db : Db) : Prop :=
  ∀ k bp, s.planOf k = some bp → ∃ i, bp.id = some i ∧ db.planAt k = some (i, bp.terms)

/-- Loaded plans are attached to the rows they were loaded from. -/
theorem StateManager.Fresh.attached {s : StateManager} {db : Db} (h : s.Fresh db) :
    s.Attached db := by
  intro k bp hbp i hi
  obtain ⟨i', hi', hat⟩ := h k bp hbp
  rw [hi] at hi'
  cases hi'
  exact ⟨bp.terms, hat⟩

/-- **`create_state_manager`** returns, with the API keys registered that have a
stored plan. -/
theorem createStateManager_spec {db : Db} (hl : db.Linked) :
    ∃ s, createStateManager db = some s ∧ s.Fresh db ∧
      ∀ k, s.isAuthorized k = true ↔ db.planAt k ≠ none := by
  obtain ⟨b, hb, hfrom⟩ := populateBillingService_spec hl
  obtain ⟨l, hload⟩ := populateActivityLedger_ok hl {}
  refine ⟨⟨b, l⟩, ?_, hfrom.plan, fun k => ?_⟩
  · unfold createStateManager
    simp only [hb, hload]
  · rw [StateManager.isAuthorized_iff]
    constructor
    · intro ⟨bp, hbp⟩ hnone
      obtain ⟨i, -, hat⟩ := hfrom.plan k bp hbp
      rw [hnone] at hat
      cases hat
    · exact hfrom.registered

/-! ## saving plans -/

/-- Plan rows keep their ids and API keys. -/
def Db.Keeps (db db' : Db) : Prop :=
  ∀ k i t, db.planAt k = some (i, t) → ∃ t', db'.planAt k = some (i, t')

namespace Db

variable {db db' : Db}

theorem Keeps.refl (db : Db) : db.Keeps db := fun _ _ t h => ⟨t, h⟩

theorem Keeps.trans {db'' : Db} (h : db.Keeps db') (h' : db'.Keeps db'') : db.Keeps db'' := by
  intro k i t hat
  obtain ⟨t', hat'⟩ := h k i t hat
  exact h' k i t' hat'

theorem Keeps.of_eq (h : ∀ k, db'.planAt k = db.planAt k) : db.Keeps db' :=
  fun k _ t hat => ⟨t, (h k).trans hat⟩

theorem Keeps.ne_none (h : db.Keeps db') {k : String} (hk : db.planAt k ≠ none) :
    db'.planAt k ≠ none := by
  obtain ⟨⟨i, t⟩, hat⟩ := Option.ne_none_iff_exists'.mp hk
  obtain ⟨t', hat'⟩ := h k i t hat
  simp [hat']

theorem Attached.mono {k : String} {bp : BillingPlan} (ha : db.Attached k bp)
    (h : db.Keeps db') : db'.Attached k bp := by
  intro i hi
  obtain ⟨t, hat⟩ := ha i hi
  exact h k i t hat

end Db

section SavePlan

variable {db : Db} {p : String × BillingPlan}

/-- Saving a plan that can be saved makes it the plan of its API key. -/
theorem savePlanOf_ok (hl : db.Linked) (ha : db.Attached p.1 p.2)
    (hs : db.Saveable p.1 p.2) :
    ∃ db' i, savePlanOf p db = .ok () db' ∧ db'.Linked ∧ (∀ j, p.2.id = some j → i = j) ∧
      (∀ j, db'.planAt j = if j = p.1 then some (i, p.2.terms) else db.planAt j) ∧
      ∀ d j m, db'.statsAt d j m = db.statsAt d j m := by
  obtain ⟨u, db₁, huser, hl₁, hu, hplan, hstats⟩ := Db.getOrCreateUser_spec hl p.1
  have ha₁ : db₁.Attached p.1 { p.2 with user := some u } := by
    intro i hi
    rw [hplan]
    exact ha i hi
  have hs₁ : db₁.Saveable p.1 { p.2 with user := some u } := by
    unfold Db.Saveable
    rw [hplan]
    exact hs
  obtain ⟨db', i, hsave, hl', hid, hplan', hstats'⟩ := Db.savePlan_ok hl₁ hu rfl ha₁ hs₁
  refine ⟨db', i, ?_, hl', hid, fun j => ?_, fun d j m => ?_⟩
  · unfold savePlanOf
    rw [huser, Result.bind_ok, hsave]
  · rw [hplan', hplan]
  · rw [hstats', hstats]

/-- Saving a plan that cannot be saved raises and changes no plan. -/
theorem savePlanOf_raise (hl : db.Linked) (hs : ¬ db.Saveable p.1 p.2) :
    ∃ e db', savePlanOf p db = .raise e db' ∧ db'.Linked ∧
      ∀ j, db'.planAt j = db.planAt j := by
  obtain ⟨u, db', huser, hl', hu, hplan, -⟩ := Db.getOrCreateUser_spec hl p.1
  have hs' : ¬ db'.Saveable p.1 { p.2 with user := some u } := by
    unfold Db.Saveable
    rw [hplan]
    exact hs
  obtain ⟨e, hraise⟩ := Db.savePlan_raise hu rfl hs'
  refine ⟨e, db', ?_, hl', hplan⟩
  unfold savePlanOf
  rw [huser, Result.bind_ok, hraise]

/-- Saving the plan of one API key, whether or not it succeeds, keeps all rows
and leaves the plans of the other keys alone. -/
theorem savePlanOf_state (hl : db.Linked) (ha : db.Attached p.1 p.2) :
    (savePlanOf p db).state.Linked ∧ db.Keeps (savePlanOf p db).state ∧
      ∀ k ≠ p.1, (savePlanOf p db).state.planAt k = db.planAt k := by
  by_cases hs : db.Saveable p.1 p.2
  · obtain ⟨db', i, hsave, hl', hid, hplan, -⟩ := savePlanOf_ok hl ha hs
    rw [hsave]
    refine ⟨hl', fun k j t hat => ?_, fun k hk => (hplan k).trans (if_neg hk)⟩
    by_cases hk : k = p.1
    · refine ⟨p.2.terms, (hplan k).trans ?_⟩
      rw [if_pos hk]
      cases hbid : p.2.id with
      | none =>
          rw [hk, hs.2 hbid] at hat
          cases hat
      | some j' =>
          obtain ⟨t', hat'⟩ := ha j' hbid
          rw [hk, hat'] at hat
          cases hat
          rw [hid j hbid]
    · exact ⟨t, ((hplan k).trans (if_neg hk)).trans hat⟩
  · obtain ⟨e, db', hraise, hl', hplan⟩ := savePlanOf_raise hl hs
    rw [hraise]
    exact ⟨hl', Db.Keeps.of_eq hplan, fun k _ => hplan k⟩

end SavePlan

section SaveBilling

variable {b : BasicBillingService} {db : Db}

/-- **Saving plans**, whether or not it goes through, keeps all plan rows and
leaves those of the API keys that are not registered alone. -/
theorem saveBillingService_state (hl : db.Linked) (ha : b.Attached db) :
    (saveBillingService b db).state.Linked ∧ db.Keeps (saveBillingService b db).state ∧
      ∀ k, b.userPlans.get? k = none →
        (saveBillingService b db).state.planAt k = db.planAt k := by
  refine forEach_state (P := fun db' => db'.Linked ∧ db.Keeps db' ∧
    ∀ k, b.userPlans.get? k = none → db'.planAt k = db.planAt k) ?_
    ⟨hl, Db.Keeps.refl db, fun _ _ => rfl⟩
  intro bp hbp db' ⟨hl', hkeeps, hother⟩
  have hget := Dict.mem_items.mp (show (bp.1, bp.2) ∈ b.userPlans.items from hbp)
  obtain ⟨hl'', hkeeps', hother'⟩ := savePlanOf_state hl' ((ha _ _ hget).mono hkeeps)
  refine ⟨hl'', hkeeps.trans hkeeps', fun k hk => ?_⟩
  have hne : k ≠ bp.1 := by
    intro hkb
    rw [hkb, hget] at hk
    cases hk
  rw [hother' k hne, hother k hk]

/-- **Saving plans** that can all be saved goes through, and the database has the
plan of each registered API key. -/
theorem saveBillingService_ok (hl : db.Linked) (ha : b.Attached db)
    (hs : ∀ k bp, b.userPlans.get? k = some bp → db.Saveable k bp) :
    ∃ db', saveBillingService b db = .ok () db' ∧ db'.Linked ∧
      ∀ k bp, b.userPlans.get? k = some bp → ∃ i, db'.planAt k = some (i, bp.terms) := by
  -- the keys not worked off yet still have the plan rows they had at the start
  have hloop := forEach_ok (f := savePlanOf) (l := b.userPlans.items) (s := db)
    (P := fun done db' => db'.Linked ∧ db.Keeps db' ∧
      (∀ e ∈ done, ∃ i, db'.planAt e.1 = some (i, e.2.terms)) ∧
      ∀ k, k ∉ done.map Prod.fst → db'.planAt k = db.planAt k) ?_
    ⟨hl, Db.Keeps.refl db, fun _ h => (nomatch h), fun _ _ => rfl⟩
  · obtain ⟨db', hsave, hl', -, hdone, -⟩ := hloop
    exact ⟨db', hsave, hl', fun k bp hbp => hdone (k, bp) (Dict.mem_items.mpr hbp)⟩
  · intro done bp rest db' hxs ⟨hl', hkeeps, hdone, hother⟩
    have hget := Dict.mem_items.mp (show (bp.1, bp.2) ∈ b.userPlans.items from hxs ▸ by simp)
    have hnew : bp.1 ∉ done.map Prod.fst := by
      have hnodup := b.userPlans.nodup
      rw [hxs, List.map_append, List.map_cons, List.nodup_append] at hnodup
      intro hmem
      exact hnodup.2.2 bp.1 hmem bp.1 List.mem_cons_self rfl
    have hs' : db'.Saveable bp.1 bp.2 := by
      unfold Db.Saveable
      rw [hother bp.1 hnew]
      exact hs _ _ hget
    obtain ⟨db'', i, hsave, hl'', -, hplan, -⟩ :=
      savePlanOf_ok hl' ((ha _ _ hget).mono hkeeps) hs'
    have hkeeps' := (savePlanOf_state hl' ((ha _ _ hget).mono hkeeps)).2.1
    rw [hsave] at hkeeps'
    refine ⟨db'', hsave, hl'', hkeeps.trans hkeeps', fun e he => ?_, fun k hk => ?_⟩
    · obtain hd | hx := List.mem_append.mp he
      · have hne : e.1 ≠ bp.1 := fun h => hnew (h ▸ List.mem_map_of_mem hd)
        rw [hplan, if_neg hne]
        exact hdone e hd
      · obtain rfl := List.mem_singleton.mp hx
        exact ⟨i, (hplan e.1).trans (if_pos rfl)⟩
    · rw [List.map_append, List.mem_append, not_or] at hk
      have hne : k ≠ bp.1 := fun h => hk.2 (by simp [h])
      rw [hplan, if_neg hne, hother k hk.1]

/-- **Saving plans** of which one cannot be saved raises. -/
theorem saveBillingService_raise (hl : db.Linked) (ha : b.Attached db) {k : String}
    {bp : BillingPlan} (hbp : b.userPlans.get? k = some bp) (hs : ¬ db.Saveable k bp) :
    ∃ e db', saveBillingService b db = .raise e db' := by
  refine forEach_raise (P := fun db' => db'.Linked ∧ db.Keeps db' ∧ ¬ db'.Saveable k bp)
    (Dict.mem_items.mpr hbp) ?_ ?_ ⟨hl, Db.Keeps.refl db, hs⟩
  · intro y hy db' db'' ⟨hl', hkeeps, hns⟩ hok
    have hget := Dict.mem_items.mp (show (y.1, y.2) ∈ b.userPlans.items from hy)
    obtain ⟨hl'', hkeeps', -⟩ := savePlanOf_state hl' ((ha _ _ hget).mono hkeeps)
    rw [hok] at hl'' hkeeps'
    refine ⟨hl'', hkeeps.trans hkeeps', fun hs'' => hns ⟨hs''.1, fun hid => ?_⟩⟩
    by_contra hne
    exact hkeeps'.ne_none hne (hs''.2 hid)
  · intro db' ⟨hl', _, hns⟩
    obtain ⟨e, db'', hraise, -⟩ := savePlanOf_raise (p := (k, bp)) hl' hns
    exact ⟨e, db'', hraise⟩

end SaveBilling

/-! ## saving usage -/

namespace SimpleActivityLedger

variable (l : SimpleActivityLedger)

/-- The counters of an API key for a day and a method. -/
def statsOf (d : DateKey) (k m : String) : Option CallStats :=
  (l.dailyUsage.get? d).bind fun day =>
    (day.userSummaries.get? k).bind fun u => u.methodStats.get? m

/-- The counters of all API keys, days and methods, in the order in which they
are saved. -/
def entries : List (DateKey × String × String × CallStats) :=
  l.dailyUsage.items.flatMap fun day =>
    day.2.userSummaries.items.flatMap fun user =>
      user.2.methodStats.items.map fun cs => (day.1, user.1, cs.1, cs.2)

theorem mem_entries {d : DateKey} {k m : String} {cs : CallStats} :
    (d, k, m, cs) ∈ l.entries ↔ l.statsOf d k m = some cs := by
  unfold entries statsOf
  simp only [List.mem_flatMap, List.mem_map, Prod.exists, Prod.mk.injEq, Option.bind_eq_some_iff,
    Dict.mem_items]
  constructor
  · rintro ⟨d', day, hday, k', u, hu, m', cs', hcs, rfl, rfl, rfl, rfl⟩
    exact ⟨day, hday, u, hu, hcs⟩
  · rintro ⟨day, hday, u, hu, hcs⟩
    exact ⟨d, day, hday, k, u, hu, m, cs, hcs, rfl, rfl, rfl, rfl⟩

/-- The three loops as one. -/
theorem saveActivityLedger_eq (db : Db) : saveActivityLedger l db =
    forEach (fun e => saveStatsOf e.1 e.2.1 e.2.2.1 e.2.2.2) l.entries db := by
  unfold saveActivityLedger entries
  simp only [forEach_flatMap, forEach_map]

end SimpleActivityLedger

section SaveUsage

variable {db : Db}

/-- Saving the counters of an API key for a day and a method changes no plan, and
makes them those of the key if they fit. -/
theorem saveStatsOf_spec (hl : db.Linked) (d : DateKey) (k m : String) (cs : CallStats) :
    (saveStatsOf d k m cs db).state.Linked ∧
      (∀ j, (saveStatsOf d k m cs db).state.planAt j = db.planAt j) ∧
      (cs.fits → ∃ db', saveStatsOf d k m cs db = .ok () db' ∧ ∀ d' j m', db'.statsAt d' j m' =
        if d' = d ∧ j = k ∧ m' = m then some cs else db.statsAt d' j m') := by
  obtain ⟨u, db₁, huser, hl₁, hu, hplan, hstats⟩ := Db.getOrCreateUser_spec hl k
  obtain ⟨r, hr, hl', hplan', hok⟩ := Db.saveStats_spec hl₁ hu d m cs
  have heq : saveStatsOf d k m cs db = r := by
    unfold saveStatsOf
    rw [huser, Result.bind_ok]
    exact hr
  rw [heq]
  refine ⟨hl', fun j => (hplan' j).trans (hplan j), fun hfit => ?_⟩
  obtain ⟨hok, hstats'⟩ := hok hfit
  refine ⟨r.state, hok, fun d' j m' => ?_⟩
  rw [hstats', hstats]

/-- **Saving the usage** changes no plan. -/
theorem saveActivityLedger_state (hl : db.Linked) (l : SimpleActivityLedger) :
    (saveActivityLedger l db).state.Linked ∧
      ∀ k, (saveActivityLedger l db).state.planAt k = db.planAt k := by
  rw [l.saveActivityLedger_eq]
  refine forEach_state (P := fun db' : Db => db'.Linked ∧ ∀ k, db'.planAt k = db.planAt k) ?_
    ⟨hl, fun _ => rfl⟩
  intro e _ db' ⟨hl', hplan⟩
  obtain ⟨hl'', hplan', -⟩ := saveStatsOf_spec hl' e.1 e.2.1 e.2.2.1 e.2.2.2
  exact ⟨hl'', fun k => (hplan' k).trans (hplan k)⟩

/-- **Saving the usage** goes through when all counters fit, and the database has
the counters of each API key, day and method. -/
theorem saveActivityLedger_ok (hl : db.Linked) (l : SimpleActivityLedger)
    (hfit : ∀ d k m cs, l.statsOf d k m = some cs → cs.fits = true) :
    ∃ db', saveActivityLedger l db = .ok () db' ∧
      ∀ d k m cs, l.statsOf d k m = some cs → db'.statsAt d k m = some cs := by
  rw [l.saveActivityLedger_eq]
  have hloop := forEach_ok (l := l.entries) (s := db)
    (f := fun e => saveStatsOf e.1 e.2.1 e.2.2.1 e.2.2.2)
    (P := fun done db' => db'.Linked ∧
      ∀ e ∈ done, db'.statsAt e.1 e.2.1 e.2.2.1 = some e.2.2.2) ?_
    ⟨hl, fun _ h => (nomatch h)⟩
  · obtain ⟨db', hsave, -, hdone⟩ := hloop
    exact ⟨db', hsave, fun d k m cs h => hdone (d, k, m, cs) (l.mem_entries.mpr h)⟩
  · intro done e rest db' hxs ⟨hl', hdone⟩
    have hmem (f) (hf : f ∈ done ++ [e]) : l.statsOf f.1 f.2.1 f.2.2.1 = some f.2.2.2 :=
      l.mem_entries.mp (hxs ▸ by grind)
    obtain ⟨hl'', -, hok⟩ := saveStatsOf_spec hl' e.1 e.2.1 e.2.2.1 e.2.2.2
    obtain ⟨db'', hsave, hstats⟩ := hok (hfit _ _ _ _ (hmem e (by simp)))
    rw [hsave] at hl''
    refine ⟨db'', hsave, hl'', fun f hf => ?_⟩
    rw [hstats]
    split
    next heq =>
      -- the same API key, day and method have the same counters
      have hf' := hmem f hf
      rw [heq.1, heq.2.1, heq.2.2, hmem e (by simp)] at hf'
      exact hf'
    next hne =>
      obtain hd | hx := List.mem_append.mp hf
      · exact hdone f hd
      · obtain rfl := List.mem_singleton.mp hx
        exact absurd ⟨rfl, rfl, rfl⟩ hne

end SaveUsage

/-! ## closing a session -/

section Close

variable {s : StateManager} {db : Db}

/-- **`close_state_manager`**, whether or not it goes through, keeps all plan rows
and leaves those of the API keys that are not registered alone. -/
theorem closeStateManager_state (hl : db.Linked) (ha : s.Attached db) :
    (closeStateManager s db).state.Linked ∧ db.Keeps (closeStateManager s db).state ∧
      ∀ k, s.planOf k = none → (closeStateManager s db).state.planAt k = db.planAt k := by
  obtain ⟨hl', hkeeps, hother⟩ := saveBillingService_state hl ha
  unfold closeStateManager
  cases hsave : saveBillingService s.billingService db with
  | raise e db' =>
      rw [hsave] at hl' hkeeps hother
      exact ⟨hl', hkeeps, hother⟩
  | ok _ db' =>
      rw [hsave] at hl' hkeeps hother
      obtain ⟨hl'', hplan⟩ := saveActivityLedger_state hl' s.activityLedger
      exact ⟨hl'', hkeeps.trans (Db.Keeps.of_eq hplan), fun k hk => (hplan k).trans (hother k hk)⟩

/-- **`close_state_manager`** goes through when all plans can be saved and all
counters fit, and the database then has them. -/
theorem closeStateManager_ok (hl : db.Linked) (ha : s.Attached db)
    (hs : ∀ k bp, s.planOf k = some bp → db.Saveable k bp)
    (hfit : ∀ d k m cs, s.activityLedger.statsOf d k m = some cs → cs.fits = true) :
    ∃ db', closeStateManager s db = .ok () db' ∧
      (∀ k bp, s.planOf k = some bp → ∃ i, db'.planAt k = some (i, bp.terms)) ∧
      ∀ d k m cs, s.activityLedger.statsOf d k m = some cs → db'.statsAt d k m = some cs := by
  obtain ⟨db₁, hsave, hl₁, hplan⟩ := saveBillingService_ok hl ha hs
  obtain ⟨db', hsave', hstats⟩ := saveActivityLedger_ok hl₁ s.activityLedger hfit
  have hplan' := (saveActivityLedger_state hl₁ s.activityLedger).2
  rw [hsave'] at hplan'
  refine ⟨db', ?_, fun k bp hbp => ?_, hstats⟩
  · unfold closeStateManager
    rw [hsave, Result.bind_ok, hsave']
  · obtain ⟨i, hi⟩ := hplan k bp hbp
    exact ⟨i, (hplan' k).trans hi⟩

/-- **`close_state_manager`** raises when a registered plan cannot be saved. -/
theorem closeStateManager_raise (hl : db.Linked) (ha : s.Attached db) {k : String}
    {bp : BillingPlan} (hbp : s.planOf k = some bp) (hs : ¬ db.Saveable k bp) :
    ∃ e db', closeStateManager s db = .raise e db' := by
  obtain ⟨e, db', hraise⟩ := saveBillingService_raise hl ha hbp hs
  refine ⟨e, db', ?_⟩
  unfold closeStateManager
  rw [hraise, Result.bind_raise]

end Close

end Web3Proxy
