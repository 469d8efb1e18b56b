import Mathlib.Algebra.Ring.Int.Defs
import Web3Proxy.ActivityLedger
import Web3Proxy.BillingService
import Web3Proxy.Lib.Table

/-!
# Web3Proxy.Database

The stored rows (`db/models`) and the ORM calls the state manager makes on them:
`get_or_create` and `save`, which inserts an instance without an id and updates
the row of one with an id.  A call that violates a unique index or whose number
does not fit the column raises and leaves the database as it was.

`Db.planAt` and `Db.statsAt` are what the database says about an API key, under
whatever ids its rows have; `planRows_eq` and `statsRows_eq` say that these are
all the rows there are.  Each operation has a lemma that says what it does to
them.
-/

namespace Web3Proxy

open Py

/-- A stored `BillingPlan`. -/
structure PlanRow where
  user : Nat
  terms : PlanTerms
deriving DecidableEq

/-- A stored `CallStats`. -/
structure StatsRow where
  user : Nat
  method : String
  date : DateKey
  stats : CallStats
deriving DecidableEq

/-- What the index on `CallStats` is over. -/
def StatsRow.index (r : StatsRow) : Nat × String × DateKey := (r.user, r.method, r.date)

/-- The number fits an integer column. -/
def fitsInt64 (n : Int) : Bool := -2 ^ 63 ≤ n && n < 2 ^ 63

/-- The integers of a plan fit their columns. -/
def PlanTerms.fits (t : PlanTerms) : Bool :=
  fitsInt64 t.numFreeCalls && fitsInt64 t.numFreeBytes && fitsInt64 t.userPriority

/-- The counters fit their columns. -/
def CallStats.fits (cs : CallStats) : Bool :=
  fitsInt64 cs.requestBytes && fitsInt64 cs.responseBytes && fitsInt64 cs.numCalls

/-- The database: API keys, plans and usage. -/
structure Db where
  users : Table String id := .empty
  plans : Table PlanRow PlanRow.user := .empty
  stats : Table StatsRow StatsRow.index := .empty

namespace Db

variable (db : Db)

/-! ## the ORM calls -/

/-- `User.get_or_create(api_key=api_key)`, the id of the instance. -/
def getOrCreateUser (apiKey : String) : Result Db Nat :=
  match db.users.find? apiKey with
  | some (i, _) => .ok i db
  | none =>
      match db.users.insert apiKey with
      | some (i, users) => .ok i { db with users }
      | none => .raise .integrityError db

/-- `bp.save()`.  The numbers are bound to the statement before it runs.  A second row of a
user is refused, as the unique index that the model declares on `user` has it; in a
database made by the migrations the index of that name is not unique. -/
def savePlan (bp : BillingPlan) : Result Db Unit :=
  if !bp.terms.fits then .raise .overflowError db
  else match bp.user with
    | none => .raise .integrityError db
    | some user =>
        match bp.id with
        | none =>
            match db.plans.insert ⟨user, bp.terms⟩ with
            | some (_, plans) => .ok () { db with plans }
            | none => .raise .integrityError db
        | some i =>
            match db.plans.update i ⟨user, bp.terms⟩ with
            | some plans => .ok () { db with plans }
            | none => .raise .integrityError db

/-- `CallStats.get_or_create(user=user, date=date, method=method)`, the id of the
instance; a created one has zero counters. -/
def getOrCreateStats (user : Nat) (date : DateKey) (method : String) : Result Db Nat :=
  match db.stats.find? (user, method, date) with
  | some (i, _) => .ok i db
  | none =>
      match db.stats.insert ⟨user, method, date, {}⟩ with
      | some (i, stats) => .ok i { db with stats }
      | none => .raise .integrityError db

/-- `cs.save()` on an instance with an id. -/
def saveStats (i : Nat) (row : StatsRow) : Result Db Unit :=
  if !row.stats.fits then .raise .overflowError db
  else match db.stats.update i row with
    | some stats => .ok () { db with stats }
    | none => .raise .integrityError db

/-! ## what the database says about a key -/

/-- The plan rows of an API key: those whose user has it. -/
def planRows (apiKey : String) : List (Nat × PlanRow) :=
  db.plans.rows.items.filter fun e => db.users.rows.get? e.2.user = some apiKey

/-- The usage rows of an API key for a day and a method. -/
def statsRows (date : DateKey) (apiKey method : String) : List (Nat × StatsRow) :=
  db.stats.rows.items.filter fun e =>
    db.users.rows.get? e.2.user = some apiKey ∧ e.2.method = method ∧ e.2.date = date

/-- The id and the attributes of the plan row of an API key. -/
def planAt (apiKey : String) : Option (Nat × PlanTerms) :=
  (db.users.find? apiKey).bind fun u => (db.plans.find? u.1).map fun e => (e.1, e.2.terms)

/-- The counters of the usage row of an API key for a day and a method. -/
def statsAt (date : DateKey) (apiKey method : String) : Option CallStats :=
  (db.users.find? apiKey).bind fun u =>
    (db.stats.find? (u.1, method, date)).map fun e => e.2.stats

/-- Every row belongs to a stored user. -/
structure Linked (db : Db) : Prop where
  plans : ∀ i r, db.plans.rows.get? i = some r → ∃ k, db.users.rows.get? r.user = some k
  stats : ∀ i r, db.stats.rows.get? i = some r → ∃ k, db.users.rows.get? r.user = some k

theorem linked_empty : Linked {} := by
  constructor <;> intro i r h <;> cases h

variable {db}

/-- The user found for an API key is the one stored with it. -/
theorem find?_user {k j : String} {u : Nat} :
    db.users.find? k = some (u, j) ↔ db.users.rows.get? u = some k ∧ j = k := by
  rw [Table.find?_eq_some]
  constructor
  · rintro ⟨h, rfl⟩
    exact ⟨h, rfl⟩
  · rintro ⟨h, rfl⟩
    exact ⟨h, rfl⟩

theorem find?_user_eq_none {k : String} (h : db.users.find? k = none) (u : Nat) :
    db.users.rows.get? u ≠ some k := by
  intro hu
  rw [find?_user.mpr ⟨hu, rfl⟩] at h
  cases h

/-- The rows of an API key are those selected by its user's id. -/
theorem filter_user {ρ : Type} (db : Db) (l : List (Nat × ρ)) (user : ρ → Nat) (q : Nat × ρ → Bool)
    (k : String) : (l.filter fun e => db.users.rows.get? (user e.2) = some k ∧ q e) =
    match db.users.find? k with
    | none => []
    | some u => l.filter fun e => user e.2 = u.1 ∧ q e := by
  cases hu : db.users.find? k with
  | none =>
      refine List.filter_eq_nil_iff.mpr fun e _ => ?_
      simp [find?_user_eq_none hu]
  | some u =>
      obtain ⟨hget, -⟩ := find?_user.mp hu
      refine List.filter_congr fun e _ => ?_
      have hiff : db.users.rows.get? (user e.2) = some k ↔ user e.2 = u.1 :=
        ⟨fun h => db.users.unique _ _ _ _ h hget rfl, fun h => h ▸ hget⟩
      simp [hiff]

/-- An API key has one plan row or none. -/
theorem planRows_eq (k : String) :
    (db.planRows k).map (fun e => (e.1, e.2.terms)) = (db.planAt k).toList := by
  have hfilter := filter_user db db.plans.rows.items PlanRow.user (fun _ => true) k
  simp only [and_true] at hfilter
  unfold planRows planAt
  rw [hfilter]
  cases hu : db.users.find? k with
  | none => rfl
  | some u =>
      show (db.plans.select u.1).map _ = _
      rw [Table.select_eq]
      cases hp : db.plans.find? u.1 <;> simp [hp]

theorem planRows_eq_nil {k : String} : db.planRows k = [] ↔ db.planAt k = none := by
  have heq := db.planRows_eq k
  cases hat : db.planAt k with
  | none =>
      rw [hat] at heq
      simpa using heq
  | some e =>
      rw [hat] at heq
      constructor
      · intro hnil
        rw [hnil] at heq
        cases heq
      · intro h
        cases h

/-- An API key has one usage row for a day and a method, or none. -/
theorem statsRows_eq (d : DateKey) (k m : String) :
    (db.statsRows d k m).map (fun e => e.2.stats) = (db.statsAt d k m).toList := by
  have hfilter := filter_user db db.stats.rows.items StatsRow.user
    (fun e => decide (e.2.method = m ∧ e.2.date = d)) k
  simp only [decide_eq_true_eq] at hfilter
  unfold statsRows statsAt
  rw [hfilter]
  cases hu : db.users.find? k with
  | none => rfl
  | some u =>
      have hsel : (db.stats.rows.items.filter fun e =>
          e.2.user = u.1 ∧ e.2.method = m ∧ e.2.date = d) = db.stats.select (u.1, m, d) := by
        simp only [Table.select, StatsRow.index, Prod.mk.injEq]
      simp only [hsel]
      rw [Table.select_eq]
      cases hp : db.stats.find? (u.1, m, d) <;> simp [hp]

/-! ## what the ORM calls do -/

/-- A user id that is not stored yet has no rows. -/
theorem Linked.find?_plans (hl : db.Linked) {u : Nat} (hu : db.users.rows.get? u = none) :
    db.plans.find? u = none := by
  refine Table.find?_eq_none.mpr fun i r hr hru => ?_
  obtain ⟨k, hk⟩ := hl.plans i r hr
  rw [show r.user = u from hru, hu] at hk
  cases hk

theorem Linked.find?_stats (hl : db.Linked) {u : Nat} (hu : db.users.rows.get? u = none)
    (m : String) (d : DateKey) : db.stats.find? (u, m, d) = none := by
  refine Table.find?_eq_none.mpr fun i r hr hru => ?_
  obtain ⟨k, hk⟩ := hl.stats i r hr
  rw [show r.user = u from congrArg Prod.fst hru, hu] at hk
  cases hk

/-- **`User.get_or_create`** returns the user of the API key and changes nothing
that the database says about any key. -/
theorem getOrCreateUser_spec (hl : db.Linked) (k : String) :
    ∃ u db', db.getOrCreateUser k = .ok u db' ∧ db'.Linked ∧ db'.users.find? k = some (u, k) ∧
      (∀ j, db'.planAt j = db.planAt j) ∧ ∀ d j m, db'.statsAt d j m = db.statsAt d j m := by
  unfold getOrCreateUser
  cases hk : db.users.find? k with
  | some e =>
      obtain ⟨u, j⟩ := e
      obtain ⟨-, rfl⟩ := find?_user.mp hk
      exact ⟨u, db, rfl, hl, hk, fun _ => rfl, fun _ _ _ => rfl⟩
  | none =>
      obtain ⟨u, users, hins, hfresh, hrows, hfind⟩ := Table.insert_spec (t := db.users) hk
      simp only [hins]
      refine ⟨u, _, rfl, ⟨fun i r hr => ?_, fun i r hr => ?_⟩, ?_, fun j => ?_, fun d j m => ?_⟩
      · obtain ⟨j, hj⟩ := hl.plans i r hr
        exact ⟨j, by grind⟩
      · obtain ⟨j, hj⟩ := hl.stats i r hr
        exact ⟨j, by grind⟩
      · simp [hfind]
      · unfold planAt
        rw [hfind]
        by_cases hj : j = k
        · simp [hj, hk, hl.find?_plans hfresh]
        · simp [hj]
      · unfold statsAt
        rw [hfind]
        by_cases hj : j = k
        · simp [hj, hk, hl.find?_stats hfresh]
        · simp [hj]

/-- What a changed plan row of the user `u` does to the plans of all API keys. -/
theorem planAt_of_find?_plans {plans : Table PlanRow PlanRow.user} {k : String} {u i : Nat}
    {t : PlanTerms} (hu : db.users.find? k = some (u, k))
    (hfind : ∀ v, plans.find? v = if v = u then some (i, ⟨u, t⟩) else db.plans.find? v)
    (j : String) :
    { db with plans }.planAt j = if j = k then some (i, t) else db.planAt j := by
  unfold planAt
  by_cases hj : j = k
  · simp [hj, hu, hfind]
  · rw [if_neg hj]
    cases hv : db.users.find? j with
    | none => rfl
    | some e =>
        have hne : e.1 ≠ u := by
          intro he
          obtain ⟨hget, -⟩ := find?_user.mp hv
          obtain ⟨hget', -⟩ := find?_user.mp hu
          rw [he, hget'] at hget
          exact hj (Option.some.inj hget).symm
        simp [hfind, hne]

/-- A plan instance that was loaded has the id of the row it was loaded from. -/
def Attached (db : Db) (k : String) (bp : BillingPlan) : Prop :=
  ∀ i, bp.id = some i → ∃ t, db.planAt k = some (i, t)

/-- The plan can be saved under the API key `k`: its numbers fit, and if it has
no id, no row is in its way. -/
def Saveable (db : Db) (k : String) (bp : BillingPlan) : Prop :=
  bp.terms.fits = true ∧ (bp.id = none → db.planAt k = none)

section SavePlan

variable {k : String} {u : Nat} {bp : BillingPlan}

/-- **`bp.save()`** of a plan that can be saved makes it the plan of its user. -/
theorem savePlan_ok (hl : db.Linked) (hu : db.users.find? k = some (u, k))
    (hbu : bp.user = some u) (ha : db.Attached k bp) (hs : db.Saveable k bp) :
    ∃ db' i, db.savePlan bp = .ok () db' ∧ db'.Linked ∧
      (∀ j, bp.id = some j → i = j) ∧
      (∀ j, db'.planAt j = if j = k then some (i, bp.terms) else db.planAt j) ∧
      ∀ d j m, db'.statsAt d j m = db.statsAt d j m := by
  obtain ⟨hfit, hnew⟩ := hs
  have hlinked (plans : Table PlanRow PlanRow.user) (i : Nat)
      (hrows : ∀ j, plans.rows.get? j = if j = i then some ⟨u, bp.terms⟩
        else db.plans.rows.get? j) : Linked { db with plans } := by
    refine ⟨fun j r hr => ?_, hl.stats⟩
    show ∃ k, db.users.rows.get? r.user = some k
    rw [show plans.rows.get? j = _ from hrows j] at hr
    split at hr
    · cases hr
      exact ⟨k, (find?_user.mp hu).1⟩
    · exact hl.plans j r hr
  have hplan (e : Nat × PlanTerms) (hat : db.planAt k = some e) :
      ∃ r, db.plans.find? u = some (e.1, r) := by
    unfold planAt at hat
    rw [hu, Option.bind_some] at hat
    obtain ⟨f, hf, rfl⟩ := Option.map_eq_some_iff.mp hat
    exact ⟨f.2, hf⟩
  unfold savePlan
  simp only [hfit, Bool.not_true, Bool.false_eq_true, if_false, hbu]
  cases hid : bp.id with
  | none =>
      have hnone : db.plans.find? u = none := by
        have hat := hnew hid
        unfold planAt at hat
        rw [hu, Option.bind_some, Option.map_eq_none_iff] at hat
        exact hat
      obtain ⟨i, plans, hins, -, hrows, hfind⟩ :=
        Table.insert_spec (t := db.plans) (r := ⟨u, bp.terms⟩) hnone
      simp only [hins]
      exact ⟨_, i, rfl, hlinked plans i hrows, fun _ h => (by cases h),
        planAt_of_find?_plans hu hfind, fun _ _ _ => rfl⟩
  | some i =>
      obtain ⟨t, hat⟩ := ha i hid
      obtain ⟨q, hq⟩ := hplan _ hat
      obtain ⟨hget, hqu⟩ := Table.find?_eq_some.mp hq
      obtain ⟨plans, hupd, hrows, hfind⟩ :=
        Table.update_spec (r := ⟨u, bp.terms⟩) hget hqu
      simp only [hupd]
      exact ⟨_, i, rfl, hlinked plans i hrows, fun _ h => Option.some.inj h,
        planAt_of_find?_plans hu hfind, fun _ _ _ => rfl⟩

/-- **`bp.save()`** of a plan that cannot be saved raises and changes nothing. -/
theorem savePlan_raise (hu : db.users.find? k = some (u, k)) (hbu : bp.user = some u)
    (hs : ¬ db.Saveable k bp) : ∃ e, db.savePlan bp = .raise e db := by
  unfold savePlan
  cases hfit : bp.terms.fits with
  | false => exact ⟨_, rfl⟩
  | true =>
      simp only [Bool.not_true, Bool.false_eq_true, if_false, hbu]
      have hid : bp.id = none ∧ db.planAt k ≠ none := by
        unfold Saveable at hs
        grind
      have hsome : ∃ e, db.plans.find? u = some e := by
        have hne := hid.2
        unfold planAt at hne
        rw [hu, Option.bind_some, Ne, Option.map_eq_none_iff] at hne
        exact Option.ne_none_iff_exists'.mp hne
      obtain ⟨e, he⟩ := hsome
      simp only [hid.1, Table.insert_of_find? (t := db.plans) (r := ⟨u, bp.terms⟩) he]
      exact ⟨_, rfl⟩

end SavePlan

/-- `CallStats.get_or_create` finds or makes the row of an index value. -/
theorem getOrCreateStats_spec (hl : db.Linked) {k : String} {u : Nat}
    (hu : db.users.rows.get? u = some k) (d : DateKey) (m : String) :
    ∃ i stats cs, db.getOrCreateStats u d m = .ok i { db with stats } ∧
      Linked { db with stats } ∧ stats.rows.get? i = some ⟨u, m, d, cs⟩ ∧
      ∀ x ≠ (u, m, d), stats.find? x = db.stats.find? x := by
  unfold getOrCreateStats
  cases hf : db.stats.find? (u, m, d) with
  | some e =>
      obtain ⟨i, r⟩ := e
      obtain ⟨hget, hr⟩ := Table.find?_eq_some.mp hf
      cases hr
      exact ⟨i, db.stats, r.stats, rfl, hl, hget, fun _ _ => rfl⟩
  | none =>
      obtain ⟨i, stats, hins, -, hrows, hfind⟩ :=
        Table.insert_spec (t := db.stats) (r := ⟨u, m, d, {}⟩) hf
      simp only [hins]
      refine ⟨i, stats, {}, rfl, ⟨hl.plans, fun j r hr => ?_⟩, by simp [hrows], fun x hx => ?_⟩
      · rw [show stats.rows.get? j = _ from hrows j] at hr
        split at hr
        · cases hr
          exact ⟨k, hu⟩
        · exact hl.stats j r hr
      · exact (hfind x).trans (if_neg hx)

/-- What a changed usage row of the user `u` does to the usage of all API keys. -/
theorem statsAt_of_find?_stats {stats : Table StatsRow StatsRow.index} {k : String} {u i : Nat}
    {m : String} {d : DateKey} {cs : CallStats} (hu : db.users.find? k = some (u, k))
    (hfind : ∀ x, stats.find? x =
      if x = (u, m, d) then some (i, ⟨u, m, d, cs⟩) else db.stats.find? x)
    (d' : DateKey) (j m' : String) :
    { db with stats }.statsAt d' j m' =
      if d' = d ∧ j = k ∧ m' = m then some cs else db.statsAt d' j m' := by
  unfold statsAt
  by_cases hj : j = k
  · by_cases hdm : d' = d ∧ m' = m
    · simp [hj, hu, hfind, hdm]
    · simp only [hj, hu, hfind]
      grind
  · cases hv : db.users.find? j with
    | none => simp [hj]
    | some e =>
        have hne : e.1 ≠ u := by
          intro he
          obtain ⟨hget, -⟩ := find?_user.mp hv
          obtain ⟨hget', -⟩ := find?_user.mp hu
          rw [he, hget'] at hget
          exact hj (Option.some.inj hget).symm
        simp [hfind, hne, hj]

/-- **`CallStats.get_or_create` and `save`** with the user of the API key `k`: the
counters become those of the key, unless they do not fit. -/
theorem saveStats_spec (hl : db.Linked) {k : String} {u : Nat}
    (hu : db.users.find? k = some (u, k)) (d : DateKey) (m : String) (cs : CallStats) :
    ∃ r, (db.getOrCreateStats u d m).bind (fun i db => db.saveStats i ⟨u, m, d, cs⟩) = r ∧
      r.state.Linked ∧ (∀ j, r.state.planAt j = db.planAt j) ∧
      (cs.fits → r = .ok () r.state ∧ ∀ d' j m', r.state.statsAt d' j m' =
        if d' = d ∧ j = k ∧ m' = m then some cs else db.statsAt d' j m') := by
  obtain ⟨i, stats, cs', hget, hl', hrow, hother⟩ :=
    getOrCreateStats_spec hl (find?_user.mp hu).1 d m
  refine ⟨_, rfl, ?_⟩
  rw [hget, Result.bind_ok]
  unfold saveStats
  cases hfit : cs.fits with
  | false => exact ⟨hl', fun _ => rfl, fun h => (nomatch h)⟩
  | true =>
      obtain ⟨stats', hupd, hrows, hfind⟩ :=
        Table.update_spec (r := ⟨u, m, d, cs⟩) hrow rfl
      simp only [Bool.not_true, Bool.false_eq_true, if_false, hupd, Result.state_ok]
      refine ⟨⟨hl'.plans, fun j r hr => ?_⟩, fun _ => rfl, fun _ => ⟨trivial, ?_⟩⟩
      · rw [show stats'.rows.get? j = _ from hrows j] at hr
        split at hr
        · cases hr
          exact ⟨k, (find?_user.mp hu).1⟩
        · exact hl'.stats j r hr
      · refine statsAt_of_find?_stats (i := i) hu fun x => (hfind x).trans ?_
        by_cases hx : x = (u, m, d)
        · exact (if_pos hx).trans (if_pos hx).symm
        · exact ((if_neg hx).trans (hother x hx)).trans (if_neg hx).symm

end Db

end Web3Proxy
