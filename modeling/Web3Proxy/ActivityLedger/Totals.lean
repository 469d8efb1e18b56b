import Web3Proxy.Lib.DictSum
import Web3Proxy.Lib.Trans
import Web3Proxy.StateManager

/-!
# Web3Proxy.ActivityLedger.Totals

The four levels of the usage counters agree: for all time and per day, per method and
in total.

* `SimpleActivityLedger.always_totals` — from an empty ledger or one filled from a
  database, whatever is recorded and whoever is removed, for all time each method counts
  what its days count, and each summary has the total of its methods; and what is recorded
  without an API key counts nowhere, though the day gets a summary.
-/

namespace Web3Proxy

open Py Trans

/-! ## counters -/

namespace CallStats

instance : Zero CallStats := ⟨{}⟩

instance : Add CallStats where
  add a b :=
    { requestBytes := a.requestBytes + b.requestBytes
      responseBytes := a.responseBytes + b.responseBytes
      numCalls := a.numCalls + b.numCalls }

theorem zero_def : (0 : CallStats) = {} := rfl

theorem add_def (a b : CallStats) : a + b =
    ⟨a.requestBytes + b.requestBytes, a.responseBytes + b.responseBytes,
      a.numCalls + b.numCalls⟩ := rfl

instance : AddCommMonoid CallStats where
  add_assoc a b c := by simp only [add_def, Int.add_assoc]
  zero_add a := by simp [add_def, zero_def]
  add_zero a := by simp [add_def, zero_def]
  add_comm a b := by simp only [add_def, Int.add_comm]
  nsmul := nsmulRec

/-- Counters grow by what they are updated with. -/
theorem updateStats_eq (cs : CallStats) (requestBytes responseBytes numCalls : Int) :
    cs.updateStats requestBytes responseBytes numCalls =
      cs + ⟨requestBytes, responseBytes, numCalls⟩ := rfl

end CallStats

/-! ## summaries -/

namespace UserActivitySummary

/-- The counters of a method; one that does not occur has none. -/
def statsOf (u : UserActivitySummary) (m : String) : CallStats := (u.methodStats.get? m).getD 0

/-- The total is that of the methods. -/
def Totals (u : UserActivitySummary) : Prop := u.totalStats = u.methodStats.sum id

theorem totals_empty : Totals {} := rfl

/-- The methods after an update: the method occurs, and its counters have grown. -/
theorem methodStats_update (u : UserActivitySummary) (m : String)
    (reqBytes respBytes numCalls : Int) :
    (u.update m reqBytes respBytes numCalls).methodStats =
      (u.methodStats.setDefault m 0).set m (u.statsOf m + ⟨reqBytes, respBytes, numCalls⟩) := by
  have hdef : (u.update m reqBytes respBytes numCalls).methodStats =
      (u.methodStats.setDefault m 0).set m
        ((((u.methodStats.setDefault m 0).get? m).getD 0) + ⟨reqBytes, respBytes, numCalls⟩) :=
    rfl
  rw [hdef, Dict.get?_setDefault_self]
  rfl

/-- Both levels grow by the same. -/
theorem Totals.update {u : UserActivitySummary} (h : u.Totals) (m : String)
    (reqBytes respBytes numCalls : Int) : (u.update m reqBytes respBytes numCalls).Totals := by
  unfold Totals at h ⊢
  rw [methodStats_update, Dict.sum_set (δ := ⟨reqBytes, respBytes, numCalls⟩)
    (by rw [Dict.get?_setDefault_self]; rfl), Dict.sum_setDefault (f := id) rfl, ← h]
  rfl

theorem statsOf_update (u : UserActivitySummary) (m : String) (reqBytes respBytes numCalls : Int)
    (j : String) : (u.update m reqBytes respBytes numCalls).statsOf j =
      u.statsOf j + if j = m then ⟨reqBytes, respBytes, numCalls⟩ else 0 := by
  rw [statsOf, methodStats_update, Dict.get?_set, Dict.get?_setDefault]
  by_cases hj : j = m
  · simp [hj]
  · simp [hj, statsOf]

end UserActivitySummary

namespace ServiceActivitySummary

/-- The counters of a user and a method. -/
def statsOf (a : ServiceActivitySummary) (k m : String) : CallStats :=
  ((a.userSummaries.get? k).map fun u => u.statsOf m).getD 0

/-- Each user's total is that of the methods. -/
def Totals (a : ServiceActivitySummary) : Prop :=
  ∀ k u, a.userSummaries.get? k = some u → u.Totals

theorem totals_empty : Totals {} := fun _ _ h => by cases h

variable {a : ServiceActivitySummary}

/-- The summaries after the entry of a user has been updated. -/
theorem get?_updateUas (k m : String) (reqBytes respBytes numCalls : Int) (j : String) :
    (a.updateUas k m reqBytes respBytes numCalls).userSummaries.get? j =
      if j = k then
        some (((a.userSummaries.get? k).getD {}).update m reqBytes respBytes numCalls)
      else a.userSummaries.get? j := by
  simp only [updateUas, getOrCreateUas, Dict.get?_set, Dict.get?_setDefault]
  by_cases hj : j = k <;> simp [hj]

theorem statsOf_updateUas (k m : String) (reqBytes respBytes numCalls : Int) (j n : String) :
    (a.updateUas k m reqBytes respBytes numCalls).statsOf j n =
      a.statsOf j n + if j = k ∧ n = m then ⟨reqBytes, respBytes, numCalls⟩ else 0 := by
  rw [statsOf, get?_updateUas]
  by_cases hj : j = k
  · subst hj
    rw [if_pos rfl, Option.map_some, Option.getD_some, UserActivitySummary.statsOf_update]
    have hold : ((a.userSummaries.get? j).getD {}).statsOf n = a.statsOf j n := by
      unfold statsOf
      cases a.userSummaries.get? j <;> rfl
    simp [hold]
  · simp [hj, statsOf]

theorem Totals.updateUas (h : a.Totals) (k m : String) (reqBytes respBytes numCalls : Int) :
    (a.updateUas k m reqBytes respBytes numCalls).Totals := by
  intro j u hu
  rw [get?_updateUas] at hu
  split at hu
  · cases hu
    refine UserActivitySummary.Totals.update ?_ m reqBytes respBytes numCalls
    cases hk : a.userSummaries.get? k with
    | none => exact UserActivitySummary.totals_empty
    | some u => exact h k u hk
  · exact h j u hu

theorem statsOf_removeUser (k j m : String) :
    (a.removeUser k).statsOf j m = if j = k then 0 else a.statsOf j m := by
  rw [statsOf, removeUser, Dict.get?_erase]
  by_cases hj : j = k
  · simp [hj]
  · simp [hj, statsOf]

theorem Totals.removeUser (h : a.Totals) (k : String) : (a.removeUser k).Totals := by
  intro j u hu
  rw [ServiceActivitySummary.removeUser, Dict.get?_erase] at hu
  split at hu
  · cases hu
  · exact h j u hu

/-- What `update` adds to the counters of a user and a method. -/
def growth (request : RecordedRequest) (response : Nat) (responseOnly : Bool) (k m : String) :
    CallStats :=
  if request.userApiKey = some k ∧ k ≠ "" ∧ request.method = m then
    { requestBytes := if responseOnly then 0 else request.lastQueriedBytes
      responseBytes := response
      numCalls := if responseOnly then 0 else 1 }
  else 0

theorem statsOf_update (a : ServiceActivitySummary) (request : RecordedRequest) (response : Nat)
    (responseOnly : Bool) (k m : String) :
    (a.update request response responseOnly).statsOf k m =
      a.statsOf k m + growth request response responseOnly k m := by
  unfold update growth
  cases hkey : request.userApiKey with
  | none => simp
  | some key =>
      by_cases hempty : key = ""
      · have hno : ¬ (some key = some k ∧ k ≠ "" ∧ request.method = m) := by
          rintro ⟨heq, hne, -⟩
          exact hne ((Option.some.inj heq).symm.trans hempty)
        simp only [hempty, if_true] at hno ⊢
        rw [if_neg hno, add_zero]
      · simp only [hempty, if_false, statsOf_updateUas]
        grind

/-- The total of a user grows as the user's method does. -/
theorem total_update (a : ServiceActivitySummary)
    (request : RecordedRequest) (response : Nat) (responseOnly : Bool) (k : String) :
    (((a.update request response responseOnly).userSummaries.get? k).getD {}).totalStats =
      ((a.userSummaries.get? k).getD {}).totalStats +
        growth request response responseOnly k request.method := by
  unfold update growth
  cases hkey : request.userApiKey with
  | none => simp
  | some key =>
      by_cases hempty : key = ""
      · simp [hempty]
      · simp only [hempty, if_false, get?_updateUas]
        by_cases hk : k = key
        · subst hk
          simp [hempty, UserActivitySummary.update, CallStats.updateStats_eq]
        · have hne : ¬ key = k := fun h => hk h.symm
          simp [hk, hne]

theorem Totals.update (h : a.Totals) (request : RecordedRequest) (response : Nat)
    (responseOnly : Bool) : (a.update request response responseOnly).Totals := by
  unfold ServiceActivitySummary.update
  cases request.userApiKey with
  | none => exact h
  | some key =>
      by_cases hempty : key = ""
      · simpa [hempty] using h
      · simpa [hempty] using h.updateUas key request.method _ _ _

end ServiceActivitySummary

namespace SimpleActivityLedger

variable {l : SimpleActivityLedger}

/-- The counters of a user and a method, summed over the days. -/
def sumOverDays (l : SimpleActivityLedger) (k m : String) : CallStats :=
  l.dailyUsage.sum fun day => day.statsOf k m

/-- The levels agree. -/
structure Totals (l : SimpleActivityLedger) : Prop where
  /-- For all time a method counts what its days count. -/
  all_time : ∀ k m, l.allTimeSummary.statsOf k m = l.sumOverDays k m
  /-- For all time each user's total is that of the methods. -/
  all_time_total : l.allTimeSummary.Totals
  /-- And so it is for each day. -/
  day_total : ∀ d day, l.dailyUsage.get? d = some day → day.Totals

/-- The calls on a ledger; the day of a recording is that of its clock. -/
inductive Call where
  | recordRpcRequest (day : DateKey) (request : RecordedRequest)
  | recordRpcResponse (day : DateKey) (request : RecordedRequest) (response : Nat)
  | removeUser (userApiKey : String)
deriving DecidableEq, Repr

/-- One call. -/
def step (l : SimpleActivityLedger) : Call → Option SimpleActivityLedger
  | .recordRpcRequest day request => some (l.recordRpcRequest day request)
  | .recordRpcResponse day request response => some (l.recordRpcResponse day request response)
  | .removeUser k => some (l.removeUser k)

/-- Recording and loading do the same to the day's summary and to the one for all time. -/
def onBoth (l : SimpleActivityLedger) (day : DateKey)
    (f : ServiceActivitySummary → ServiceActivitySummary) : SimpleActivityLedger where
  dailyUsage := (l.dailyUsage.setDefault day {}).set day (f ((l.dailyUsage.get? day).getD {}))
  allTimeSummary := f l.allTimeSummary

theorem record_eq (day : DateKey) (request : RecordedRequest) (response : Nat)
    (responseOnly : Bool) : l.record day request response responseOnly =
      l.onBoth day fun a => a.update request response responseOnly := by
  simp only [record, getActiveStateSample, onBoth, Dict.get?_setDefault_self, Option.getD_some]

theorem onBoth_get? (day : DateKey) (f : ServiceActivitySummary → ServiceActivitySummary)
    (d : DateKey) : (l.onBoth day f).dailyUsage.get? d =
      if d = day then some (f ((l.dailyUsage.get? day).getD {})) else l.dailyUsage.get? d := by
  rw [onBoth, Dict.get?_set, Dict.get?_setDefault]
  by_cases hd : d = day <;> simp [hd]

/-- The sum over the days grows as the day does. -/
theorem sumOverDays_onBoth (day : DateKey) {f : ServiceActivitySummary → ServiceActivitySummary}
    {k m : String} {δ : CallStats} (hf : ∀ a, (f a).statsOf k m = a.statsOf k m + δ) :
    (l.onBoth day f).sumOverDays k m = l.sumOverDays k m + δ := by
  unfold sumOverDays onBoth
  rw [Dict.sum_set (δ := δ) (by rw [Dict.get?_setDefault_self, hf]; rfl), Dict.sum_setDefault]
  rfl

/-- What grows equally on both levels keeps them in agreement. -/
theorem Totals.onBoth (h : l.Totals) (day : DateKey)
    {f : ServiceActivitySummary → ServiceActivitySummary} {δ : String → String → CallStats}
    (hf : ∀ a k m, (f a).statsOf k m = a.statsOf k m + δ k m)
    (htotal : ∀ a : ServiceActivitySummary, a.Totals → (f a).Totals) :
    (l.onBoth day f).Totals where
  all_time := by
    intro k m
    rw [sumOverDays_onBoth day fun a => hf a k m, ← h.all_time]
    exact hf l.allTimeSummary k m
  all_time_total := htotal _ h.all_time_total
  day_total := by
    intro d a ha
    rw [onBoth_get?] at ha
    split at ha
    · cases ha
      refine htotal _ ?_
      cases hday : l.dailyUsage.get? day with
      | none => exact ServiceActivitySummary.totals_empty
      | some a => exact h.day_total day a hday
    · exact h.day_total d a ha

theorem Totals.record (h : l.Totals) (day : DateKey) (request : RecordedRequest)
    (response : Nat) (responseOnly : Bool) :
    (l.record day request response responseOnly).Totals := by
  rw [record_eq]
  exact h.onBoth day (fun a => a.statsOf_update request response responseOnly)
    fun _ ha => ha.update request response responseOnly

theorem Totals.removeUser (h : l.Totals) (k : String) : (l.removeUser k).Totals where
  all_time := by
    intro j m
    have hday : ∀ a : ServiceActivitySummary, (a.removeUser k).statsOf j m =
        if j = k then 0 else a.statsOf j m := fun a => a.statsOf_removeUser k j m
    unfold sumOverDays
    rw [SimpleActivityLedger.removeUser, Dict.sum_mapValues, hday]
    simp only [hday]
    by_cases hj : j = k
    · simp [hj, Dict.sum_eq_zero]
    · rw [if_neg hj]
      simp only [hj, if_false]
      exact h.all_time j m
  all_time_total := h.all_time_total.removeUser k
  day_total := by
    intro d a ha
    obtain ⟨e, he, rfl⟩ : ∃ e, l.dailyUsage.get? d = some e ∧ a = e.removeUser k := by
      have hmem := Dict.mem_items.mpr ha
      simp only [SimpleActivityLedger.removeUser, Dict.mapValues, List.mem_map] at hmem
      obtain ⟨⟨d', e⟩, hitem, heq⟩ := hmem
      cases heq
      exact ⟨e, Dict.mem_items.mp hitem, rfl⟩
    exact (h.day_total d e he).removeUser k

theorem Totals.step (h : l.Totals) {c : Call} {l' : SimpleActivityLedger}
    (hs : l.step c = some l') : l'.Totals := by
  cases c with
  | recordRpcRequest day request =>
      obtain rfl := Option.some.inj hs
      exact h.record day request 0 false
  | recordRpcResponse day request response =>
      obtain rfl := Option.some.inj hs
      exact h.record day request response true
  | removeUser k =>
      obtain rfl := Option.some.inj hs
      exact h.removeUser k

theorem totals_empty : Totals {} where
  all_time := fun _ _ => rfl
  all_time_total := ServiceActivitySummary.totals_empty
  day_total := fun _ _ h => by cases h

/-! ## loading -/

/-- Loading one row. -/
theorem Totals.populateStats (h : l.Totals) (db : Db) (cs : Nat × StatsRow) :
    (DbStateManagerProvider.populateStats db cs l).state.Totals := by
  unfold DbStateManagerProvider.populateStats
  split
  · exact h
  next apiKey hkey =>
    have hboth : (DbStateManagerProvider.populateStats db cs l).state =
        l.onBoth cs.2.date fun a => DbStateManagerProvider.populateSummary a apiKey cs.2 := by
      simp only [DbStateManagerProvider.populateStats, hkey, getActiveStateSample, Result.state,
        Dict.get?_setDefault_self, Option.getD_some]
      rfl
    unfold DbStateManagerProvider.populateStats at hboth
    rw [hkey] at hboth
    rw [hboth]
    exact h.onBoth cs.2.date (fun a k m => a.statsOf_updateUas apiKey cs.2.method _ _ _ k m)
      fun _ ha => ha.updateUas apiKey cs.2.method _ _ _

/-- A ledger filled from the stored rows. -/
theorem totals_populate (db : Db) :
    (DbStateManagerProvider.populateActivityLedger db {}).state.Totals :=
  forEach_state (fun cs _ _ h => h.populateStats db cs) totals_empty

/-! ## results -/

/-- What has no API key is not recorded; the day may get its summary. -/
theorem record_of_no_key {day : DateKey} {request : RecordedRequest}
    (hkey : request.userApiKey = none ∨ request.userApiKey = some "") (response : Nat)
    (responseOnly : Bool) :
    (l.record day request response responseOnly).allTimeSummary = l.allTimeSummary ∧
      ∀ d, (l.record day request response responseOnly).dailyUsage.get? d =
        if d = day then some ((l.dailyUsage.get? day).getD {}) else l.dailyUsage.get? d := by
  have hsame : ∀ a : ServiceActivitySummary, a.update request response responseOnly = a := by
    intro a
    unfold ServiceActivitySummary.update
    obtain hnone | hempty := hkey
    · simp [hnone]
    · simp [hempty]
  rw [record_eq]
  refine ⟨hsame _, fun d => ?_⟩
  rw [onBoth_get?, hsame]

/-- A call that records something without an API key. -/
def Call.Anonymous : Call → Prop
  | .recordRpcRequest _ request | .recordRpcResponse _ request _ =>
      request.userApiKey = none ∨ request.userApiKey = some ""
  | .removeUser _ => False

/-- The summary for all time stays, and so do those of the days, but for an empty one of a
day that had none. -/
def Uncounted (l : SimpleActivityLedger) (c : Call) : Prop :=
  c.Anonymous → ∀ l', l.step c = some l' → l'.allTimeSummary = l.allTimeSummary ∧
    ∀ d, l'.dailyUsage.get? d = l.dailyUsage.get? d ∨
      l.dailyUsage.get? d = none ∧ l'.dailyUsage.get? d = some {}

theorem uncounted (l : SimpleActivityLedger) (c : Call) : l.Uncounted c := by
  intro hanonymous l' hs
  have hday : ∀ {day d : DateKey} {o : Option ServiceActivitySummary},
      o = (if d = day then some ((l.dailyUsage.get? day).getD {}) else l.dailyUsage.get? d) →
      o = l.dailyUsage.get? d ∨ l.dailyUsage.get? d = none ∧ o = some {} := by
    intro day d o ho
    by_cases hd : d = day
    · subst hd
      cases hget : l.dailyUsage.get? d <;> simp_all
    · simp_all
  cases c with
  | recordRpcRequest day request =>
      obtain rfl := Option.some.inj hs
      obtain ⟨hall, hdays⟩ := @record_of_no_key l day request hanonymous 0 false
      exact ⟨hall, fun d => hday (hdays d)⟩
  | recordRpcResponse day request response =>
      obtain rfl := Option.some.inj hs
      obtain ⟨hall, hdays⟩ := @record_of_no_key l day request hanonymous response true
      exact ⟨hall, fun d => hday (hdays d)⟩
  | removeUser k => cases hanonymous

/-- **Totals**: from an empty ledger, and from one filled from any database, the levels
agree after every call, and no call without an API key counts. -/
theorem always_totals (db : Db) (calls : List Call) :
    (Always step Totals {} calls ∧ Guarded step Uncounted {} calls) ∧
      Always step Totals (DbStateManagerProvider.populateActivityLedger db {}).state calls ∧
        Guarded step Uncounted (DbStateManagerProvider.populateActivityLedger db {}).state
          calls := by
  have halways : ∀ l : SimpleActivityLedger, l.Totals → Always step Totals l calls :=
    fun l h => always_of_invariant step (fun _ _ _ h => h.step) (fun _ h => h) calls h
  have hguarded : ∀ l : SimpleActivityLedger, Guarded step Uncounted l calls :=
    guarded_of_forall step fun c _ l => uncounted l c
  exact ⟨⟨halways _ totals_empty, hguarded _⟩, halways _ (totals_populate db), hguarded _⟩

/-- Recording without an API key changes the ledger: the day gets a summary. -/
theorem not_unchanged_without_key : ¬ ∀ (l : SimpleActivityLedger) (day : DateKey)
    (request : RecordedRequest), request.userApiKey = none →
      l.recordRpcRequest day request = l := by
  intro h
  have hsame := h {} "2024-05-01" ⟨none, "eth_blockNumber", 40⟩ rfl
  have hday := congrArg (fun l : SimpleActivityLedger => l.dailyUsage.contains "2024-05-01") hsame
  revert hday
  decide

end SimpleActivityLedger

end Web3Proxy
