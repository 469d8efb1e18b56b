import Web3Proxy.HandleClient.Quota

/-!
# Web3Proxy.HandleClient.Erasure

Whether removing a user erases the user's usage.  `remove_user` takes the user out of the
billing service and out of the ledger; recording asks the billing service nothing, and
makes the summaries that it misses.

* `always_erased_iff` — a user who is not registered has no summary in the ledger, and starts
  with zero usage when registered again, exactly when nothing is recorded for a user who is
  not registered;
* `not_always_erased` — a response that comes in after the removal is recorded.
-/

namespace Web3Proxy

open Py Bytes Trans

/-! ## the ledger without a user -/

namespace ServiceActivitySummary

/-- The summaries after an update: that of the user is there, unless there is no user. -/
theorem get?_update (a : ServiceActivitySummary) (request : RecordedRequest) (response : Nat)
    (responseOnly : Bool) (k : String) :
    ((a.update request response responseOnly).userSummaries.get? k).isSome =
      if request.userApiKey = some k ∧ k ≠ "" then true else (a.userSummaries.get? k).isSome := by
  unfold update
  cases hkey : request.userApiKey with
  | none => simp
  | some key =>
      by_cases hempty : key = ""
      · subst hempty
        by_cases hk : k = "" <;> simp [hk, eq_comm]
      · simp only [hempty, if_false, get?_updateUas]
        by_cases hk : k = key
        · subst hk
          simp [hempty]
        · have hne : ¬ key = k := fun h => hk h.symm
          simp [hk, hne]

end ServiceActivitySummary

namespace SimpleActivityLedger

/-- The ledger holds no summary of the user. -/
structure NoEntry (l : SimpleActivityLedger) (k : String) : Prop where
  all_time : l.allTimeSummary.userSummaries.get? k = none
  daily : ∀ d day, l.dailyUsage.get? d = some day → day.userSummaries.get? k = none

variable {l : SimpleActivityLedger} {k : String}

theorem noEntry_removeUser (l : SimpleActivityLedger) (k : String) :
    (l.removeUser k).NoEntry k where
  all_time := (Dict.get?_erase k).trans (if_pos rfl)
  daily := by
    intro d day hday
    rw [removeUser, Dict.get?_mapValues] at hday
    obtain ⟨old, -, rfl⟩ := Option.map_eq_some_iff.mp hday
    exact (Dict.get?_erase k).trans (if_pos rfl)

theorem NoEntry.removeUser (h : l.NoEntry k) (j : String) : (l.removeUser j).NoEntry k where
  all_time := by
    refine (Dict.get?_erase k).trans ?_
    rw [h.all_time, ite_self]
  daily := by
    intro d day hday
    rw [SimpleActivityLedger.removeUser, Dict.get?_mapValues] at hday
    obtain ⟨old, hold, rfl⟩ := Option.map_eq_some_iff.mp hday
    refine (Dict.get?_erase k).trans ?_
    rw [h.daily d old hold, ite_self]

/-- What is recorded for others makes no summary of the user. -/
theorem NoEntry.record (h : l.NoEntry k) {request : RecordedRequest}
    (hother : ¬ (request.userApiKey = some k ∧ k ≠ "")) (day : DateKey) (response : Nat)
    (responseOnly : Bool) : (l.record day request response responseOnly).NoEntry k := by
  have hkeep : ∀ a : ServiceActivitySummary, a.userSummaries.get? k = none →
      (a.update request response responseOnly).userSummaries.get? k = none := by
    intro a ha
    have hsome := a.get?_update request response responseOnly k
    rw [if_neg hother, ha] at hsome
    exact Option.isSome_eq_false_iff.mp hsome |> Option.isNone_iff_eq_none.mp
  rw [record_eq]
  refine ⟨hkeep _ h.all_time, fun d a ha => ?_⟩
  rw [onBoth_get?] at ha
  split at ha
  · cases ha
    refine hkeep _ ?_
    cases hday : l.dailyUsage.get? day with
    | none => rfl
    | some a => exact h.daily day a hday
  · exact h.daily d a ha

/-- What is recorded for the user makes a summary. -/
theorem not_noEntry_record {request : RecordedRequest}
    (hkey : request.userApiKey = some k ∧ k ≠ "") (day : DateKey) (response : Nat)
    (responseOnly : Bool) : ¬ (l.record day request response responseOnly).NoEntry k := by
  intro h
  rw [record_eq] at h
  have hsome := l.allTimeSummary.get?_update request response responseOnly k
  rw [if_pos hkey, show (l.allTimeSummary.update request response responseOnly).userSummaries.get? k
    = none from h.all_time] at hsome
  cases hsome

/-- Without a summary nothing is counted. -/
theorem NoEntry.statsOf_eq (h : l.NoEntry k) (m : String) :
    l.allTimeSummary.statsOf k m = 0 ∧ l.sumOverDays k m = 0 := by
  constructor
  · rw [ServiceActivitySummary.statsOf, h.all_time]
    rfl
  · unfold sumOverDays Dict.sum
    refine List.sum_eq_zero fun x hx => ?_
    obtain ⟨⟨d, day⟩, hmem, rfl⟩ := List.mem_map.mp hx
    dsimp only
    rw [ServiceActivitySummary.statsOf, h.daily d day (Dict.mem_items.mp hmem)]
    rfl

end SimpleActivityLedger

theorem SimpleActivityLedger.NoEntry.usage_eq {s : StateManager} {k : String}
    (h : s.activityLedger.NoEntry k) : s.usage k = 0 := by
  rw [StateManager.usage, getAllTimeUserSummary, ServiceActivitySummary.getUserActivitySummary,
    h.all_time]
  rfl

namespace Quota

/-! ## what is to hold -/

/-- If the user is not registered, the ledger holds no summary of the user. -/
def Erased (k : String) (s : State) : Prop :=
  s.manager.planOf k = none → s.manager.activityLedger.NoEntry k

/-- A user who is registered by the step starts without usage. -/
def StartsFresh (cfg : ReaderConfig) (h : HttpTools) (env : ProxyEnv) (k : String) (s : State)
    (l : Label) : Prop :=
  ∀ t s', l = .admin (.registerUser k t) → s.manager.planOf k = none →
    step cfg h env s l = some s' →
      s'.manager.usage k = 0 ∧ ∀ m, s'.manager.activityLedger.allTimeSummary.statsOf k m = 0 ∧
        s'.manager.activityLedger.sumOverDays k m = 0

/-- The call that the run stands at records something for the user. -/
def Worker.records (worker : Worker) (a : Answer) (k : String) : Bool :=
  match worker.run.pc, a with
  | .recordResponse _, .ok | .recordRequest, .ok => worker.run.req.userApiKey = some k && k ≠ ""
  | _, _ => false

/-- Something is recorded for the user only while the user is registered. -/
def RecordsRegistered (k : String) (s : State) : Label → Prop
  | .call w a _ => (s.workers w).records a k → (s.manager.planOf k).isSome
  | _ => True

instance (k : String) (s : State) (l : Label) : Decidable (RecordsRegistered k s l) := by
  unfold RecordsRegistered
  split <;> infer_instance

/-! ## what a call records -/

namespace Worker

variable {worker : Worker} {a : Answer} {k : String}

theorem noEntry_record {l : SimpleActivityLedger} (h : l.NoEntry k)
    (hrecords : worker.records a k = false) (day : DateKey) :
    (worker.record day l a).NoEntry k := by
  unfold record
  split
  · next hpc =>
    simp only [records, hpc] at hrecords
    exact h.record (by simpa [RPCRequest.recorded] using hrecords) day _ true
  · next hpc =>
    simp only [records, hpc] at hrecords
    exact h.record (by simpa [RPCRequest.recorded] using hrecords) day _ false
  · exact h

theorem not_noEntry_record {l : SimpleActivityLedger} (hrecords : worker.records a k = true)
    (day : DateKey) : ¬ (worker.record day l a).NoEntry k := by
  unfold records at hrecords
  split at hrecords
  · next hpc =>
    simp only [record, hpc]
    exact SimpleActivityLedger.not_noEntry_record (by simpa [RPCRequest.recorded] using hrecords) day _ true
  · next hpc =>
    simp only [record, hpc]
    exact SimpleActivityLedger.not_noEntry_record (by simpa [RPCRequest.recorded] using hrecords) day _ false
  · cases hrecords

end Worker

/-! ## the steps -/

section Steps

variable {cfg : ReaderConfig} {h : HttpTools} {env : ProxyEnv} {k : String} {s s' : State}

/-- The administrator's calls keep a user erased who is. -/
theorem erased_apply {m : StateManager} (hs : m.planOf k = none → m.activityLedger.NoEntry k)
    {o : Op} (hadmin : o.adminKey.isSome) (hnone : (m.apply o).planOf k = none) :
    (m.apply o).activityLedger.NoEntry k := by
  cases o with
  | registerUser j t =>
      have hledger : (m.apply (.registerUser j t)).activityLedger = m.activityLedger := by
        rw [StateManager.apply, StateManager.registerUser]
        split <;> rfl
      rw [hledger]
      rw [StateManager.apply, StateManager.planOf_registerUser] at hnone
      refine hs ?_
      split at hnone
      · cases hnone
      · exact hnone
  | updateUserPlan j t =>
      have hledger : (m.apply (.updateUserPlan j t)).activityLedger = m.activityLedger := by
        rw [StateManager.apply, StateManager.updateUserPlan]
        split <;> rfl
      rw [hledger]
      rw [StateManager.apply, StateManager.planOf_updateUserPlan] at hnone
      refine hs ?_
      split at hnone
      · next hj =>
        rw [hj]
        exact Option.map_eq_none_iff.mp hnone
      · exact hnone
  | removeUser j =>
      rw [StateManager.apply, StateManager.planOf_removeUser] at hnone
      rw [StateManager.apply, StateManager.removeUser]
      split
      · by_cases hj : k = j
        · rw [hj]
          exact m.activityLedger.noEntry_removeUser j
        · rw [if_neg hj] at hnone
          exact (hs hnone).removeUser j
      · next hreg =>
        refine hs ?_
        split at hnone
        · next hj =>
          rw [hj]
          exact Option.not_isSome_iff_eq_none.mp hreg
        · exact hnone
  | recordRpcRequest d r => cases hadmin
  | recordRpcResponse d r n => cases hadmin

theorem Erased.step {l : Label} (hs : Erased k s) (hl : RecordsRegistered k s l)
    (hstep : step cfg h env s l = some s') : Erased k s' := by
  cases l with
  | read w cs m =>
      obtain ⟨run, -, rfl⟩ := step_read hstep
      exact hs
  | call w a day =>
      obtain ⟨run, -, -, rfl⟩ := step_call hstep
      intro hnone
      refine Worker.noEntry_record (hs hnone) ?_ day
      rw [Bool.eq_false_iff]
      intro hrecords
      have hsome := hl hrecords
      rw [show s.manager.planOf k = none from hnone] at hsome
      cases hsome
  | admin o =>
      unfold Quota.step at hstep
      obtain ⟨hadmin, hs'⟩ := Option.ite_none_right_eq_some.mp hstep
      obtain rfl := Option.some.inj hs'
      exact erased_apply hs hadmin

/-- A recording for a user who is not registered. -/
theorem not_erased_of_records {l : Label} (hl : ¬ RecordsRegistered k s l)
    (hstep : step cfg h env s l = some s') : ¬ Erased k s' := by
  cases l with
  | read w cs m => exact absurd trivial hl
  | call w a day =>
      obtain ⟨hrecords, hnone⟩ := Classical.not_imp.mp hl
      obtain ⟨run, -, -, rfl⟩ := step_call hstep
      exact fun herased => Worker.not_noEntry_record hrecords day
        (herased (Option.not_isSome_iff_eq_none.mp hnone))
  | admin o => exact absurd trivial hl

/-- Who is erased starts without usage. -/
theorem Erased.startsFresh {l : Label} (hs : Erased k s) : StartsFresh cfg h env k s l := by
  rintro t s' rfl hnone hstep
  obtain rfl : s' = { s with manager := s.manager.apply (.registerUser k t) } :=
    (Option.some.inj hstep).symm
  have hledger : (s.manager.apply (.registerUser k t)).activityLedger =
      s.manager.activityLedger := by
    rw [StateManager.apply, StateManager.registerUser]
    split <;> rfl
  have hno : (s.manager.apply (.registerUser k t)).activityLedger.NoEntry k :=
    hledger ▸ hs hnone
  exact ⟨hno.usage_eq, hno.statsOf_eq⟩

end Steps

/-! ## results -/

variable {cfg : ReaderConfig} {h : HttpTools} {env : ProxyEnv}

/-- **Erasure.**  From a state in which the user is registered or has no summary, after
any steps of the runs and of the administrator: a user who is not registered has no
summary and starts without usage when registered again, exactly when nothing has been
recorded for a user who was not registered. -/
theorem always_erased_iff {k : String} {s : State} (hs : Erased k s) (ls : List Label) :
    (Always (step cfg h env) (Erased k) s ls ∧
        Guarded (step cfg h env) (StartsFresh cfg h env k) s ls) ↔
      Guarded (step cfg h env) (RecordsRegistered k) s ls := by
  have hiff := always_iff_guarded (step cfg h env) (I := Erased k) (Q := Erased k)
    (P := RecordsRegistered k) (fun _ h => h) (fun _ _ _ hs hl hstep => hs.step hl hstep)
    (fun _ _ _ _ hl hstep => not_erased_of_records hl hstep) ls hs
  constructor
  · exact fun h => hiff.mp h.1
  · intro hg
    refine ⟨hiff.mpr hg, hg.imp (step cfg h env) (I := Erased k) ?_ ?_ hs⟩
    · exact fun _ _ _ hs hl hstep => hs.step hl hstep
    · exact fun _ _ _ hs _ _ => hs.startsFresh

/-- The first run up to the piece that answers it, the removal of the user, and what is
left of the run. -/
def removedInFlight : List Label :=
  ask 0 :: answered.take 5 ++ [.admin (.removeUser "key")] ++ answered.drop 5

/-- When the user is removed after the run, nothing is left. -/
theorem always_erased_iff_answered :
    (Trans.run oneStep { manager := oneManager }
        (ask 0 :: answered ++ [.admin (.removeUser "key")])).isSome ∧
      ((Always oneStep (Erased "key") { manager := oneManager }
            (ask 0 :: answered ++ [.admin (.removeUser "key")]) ∧
          Guarded oneStep (StartsFresh Mediation.blockNumberConfig
              (.scripted [Mediation.blockNumber, Mediation.blockNumber]) answering "key")
            { manager := oneManager } (ask 0 :: answered ++ [.admin (.removeUser "key")])) ↔
        Guarded oneStep (RecordsRegistered "key") { manager := oneManager }
          (ask 0 :: answered ++ [.admin (.removeUser "key")])) :=
  ⟨by decide +kernel, always_erased_iff (fun h => by cases h) _⟩

/-- The response comes in after the removal; it is recorded, and so is the call: the user
registered again starts with both. -/
theorem not_always_erased :
    (((Trans.run oneStep { manager := oneManager }
        (removedInFlight ++ [.admin (.registerUser "key" onePlan.terms)])).map
      fun s => s.manager.usage "key") = some ⟨112, 19, 1⟩) ∧
    ¬ Always oneStep (Erased "key") { manager := oneManager } removedInFlight := by
  refine ⟨by decide +kernel, fun halways => ?_⟩
  have hend : ((Trans.run oneStep { manager := oneManager } removedInFlight).map fun s =>
      ((s.manager.planOf "key").isNone,
        (s.manager.activityLedger.allTimeSummary.userSummaries.get? "key").isNone)) =
      some (true, false) := by
    decide +kernel
  obtain ⟨s, hrun, heq⟩ := Option.map_eq_some_iff.mp hend
  obtain ⟨hplan, hentry⟩ := Prod.ext_iff.mp heq
  have hno := halways.last oneStep hrun (Option.isNone_iff_eq_none.mp hplan)
  dsimp only at hentry
  rw [hno.all_time] at hentry
  cases hentry

end Quota

end Web3Proxy
