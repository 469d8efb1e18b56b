import Mathlib.Logic.Function.Basic
import Web3Proxy.ActivityLedger.Totals

/-!
# Web3Proxy.ActivityLedger.Threads

The usage counters as the worker threads and the admin thread see them.  The ledger has
no locks, so the threads take turns between any two accesses to a shared object: the check
whether a key occurs and the assignment to it, the read of a counter and the write of the
sum.  What is one step here is what the interpreter does without a switch of threads: one
operation of a dictionary, the access to one attribute.

* `LedgerHeap` — the objects, and who refers to whom;
* `RecordCall.step`, `LedgerHeap.removeStep` — one step of `record_rpc_request`,
  `record_rpc_response` and `remove_user`;
* `LedgerThreads.step` — any number of such calls, interleaved;
* `LedgerHeap.ledger` — what the objects say, as a `SimpleActivityLedger`.
-/

namespace Web3Proxy

open Py Trans

namespace LedgerThreads

/-! ## objects -/

/-- The summary an object is made for: that of a day or the one for all time. -/
inductive Scope where
  | day (key : DateKey)
  | allTime
deriving DecidableEq, Repr

/-- A `ServiceActivitySummary` object.  Objects are named by what they are made for and a
number that no other object has; the code never looks at the name. -/
structure SummaryRef where
  scope : Scope
  number : Nat
deriving DecidableEq, Repr

/-- A `UserActivitySummary` object. -/
structure UasRef where
  scope : Scope
  userApiKey : String
  number : Nat
deriving DecidableEq, Repr

/-- A `CallStats` object: the `total_stats` of a user, which it keeps for good, or an entry of
its `method_stats`. -/
inductive StatsRef where
  | total (u : UasRef)
  | method (scope : Scope) (userApiKey method : String) (number : Nat)
deriving DecidableEq, Repr

/-- `all_time_summary`, which is never assigned again. -/
def allTimeRef : SummaryRef := ⟨.allTime, 0⟩

/-- The attributes of `CallStats` in the order of `update_stats`. -/
inductive Counter where
  | requestBytes | responseBytes | numCalls
deriving DecidableEq, Repr

end LedgerThreads

open LedgerThreads

/-- An attribute. -/
def CallStats.get (cs : CallStats) : Counter → Int
  | .requestBytes => cs.requestBytes
  | .responseBytes => cs.responseBytes
  | .numCalls => cs.numCalls

/-- The assignment to an attribute. -/
def CallStats.put (cs : CallStats) (f : Counter) (v : Int) : CallStats :=
  match f with
  | .requestBytes => { cs with requestBytes := v }
  | .responseBytes => { cs with responseBytes := v }
  | .numCalls => { cs with numCalls := v }

/-- The objects of a ledger. -/
structure LedgerHeap where
  dailyUsage : Dict DateKey SummaryRef := .empty
  userSummaries : SummaryRef → Dict String UasRef := fun _ => .empty
  methodStats : UasRef → Dict String StatsRef := fun _ => .empty
  stats : StatsRef → CallStats := fun _ => {}
  next : Nat := 1

namespace LedgerHeap

variable (h : LedgerHeap)

/-- `self.daily_usage[key] = ServiceActivitySummary()`. -/
def createDay (key : DateKey) : LedgerHeap :=
  let a : SummaryRef := ⟨.day key, h.next⟩
  { h with
    userSummaries := Function.update h.userSummaries a .empty
    dailyUsage := h.dailyUsage.set key a
    next := h.next + 1 }

/-- `_get_or_create_uas(user_api_key)`: the new object is made before `setdefault` looks
whether the key occurs. -/
def getOrCreateUas (a : SummaryRef) (userApiKey : String) : UasRef × LedgerHeap :=
  let u : UasRef := ⟨a.scope, userApiKey, h.next⟩
  let d := (h.userSummaries a).setDefault userApiKey u
  ((d.get? userApiKey).getD u,
    { h with
      methodStats := Function.update h.methodStats u .empty
      stats := Function.update h.stats (.total u) {}
      userSummaries := Function.update h.userSummaries a d
      next := h.next + 1 })

/-- `self.method_stats[method] = CallStats(user=self.user, method=method)`. -/
def createMethod (u : UasRef) (method : String) : LedgerHeap :=
  let c : StatsRef := .method u.scope u.userApiKey method h.next
  { h with
    stats := Function.update h.stats c {}
    methodStats := Function.update h.methodStats u ((h.methodStats u).set method c)
    next := h.next + 1 }

/-- The assignment to a counter. -/
def write (c : StatsRef) (f : Counter) (v : Int) : LedgerHeap :=
  { h with stats := Function.update h.stats c ((h.stats c).put f v) }

/-- `self.user_summaries.pop(user_api_key, None)`. -/
def popUser (a : SummaryRef) (userApiKey : String) : LedgerHeap :=
  { h with
    userSummaries := Function.update h.userSummaries a
      ((h.userSummaries a).erase userApiKey) }

end LedgerHeap

namespace LedgerThreads

/-! ## recording -/

/-- A call of `record_rpc_request` or `record_rpc_response`, with the day its clock reads. -/
structure RecordCall where
  key : DateKey
  request : RecordedRequest
  response : Nat
  responseOnly : Bool
deriving DecidableEq, Repr

/-- The two calls of `update`: on the day's sample, then on the summary for all time. -/
inductive Turn where
  | sample | allTime
deriving DecidableEq, Repr

/-- The two calls of `update_stats`: for the method, then for the total. -/
inductive Level where
  | method | total
deriving DecidableEq, Repr

/-- Where a recording is. -/
inductive RecordPc where
  /-- Before `key not in self.daily_usage`. -/
  | checkDay
  | createDay
  /-- Before `return self.daily_usage[key]`. -/
  | readDay
  | getOrCreateUas (turn : Turn) (a : SummaryRef)
  /-- Before `method not in self.method_stats`. -/
  | checkMethod (turn : Turn) (u : UasRef)
  | createMethod (turn : Turn) (u : UasRef)
  | readMethod (turn : Turn) (u : UasRef)
  /-- Before the read of `self.f += …`. -/
  | load (turn : Turn) (u : UasRef) (level : Level) (c : StatsRef) (f : Counter)
  /-- Before the write of `self.f += …`. -/
  | store (turn : Turn) (u : UasRef) (level : Level) (c : StatsRef) (f : Counter) (read : Int)
  | done
  /-- A `KeyError`. -/
  | raised
deriving DecidableEq, Repr

namespace RecordCall

variable (r : RecordCall)

/-- `request.user_api_key`, if it counts as true. -/
def userApiKey? : Option String := r.request.userApiKey.filter (· ≠ "")

/-- `req_bytes`, `len(response)` and `num_calls`. -/
def amount : CallStats where
  requestBytes := if r.responseOnly then 0 else r.request.lastQueriedBytes
  responseBytes := r.response
  numCalls := if r.responseOnly then 0 else 1

/-- Where an `update` of a summary starts: without an API key it does nothing. -/
def update (turn : Turn) (a : SummaryRef) : RecordPc :=
  if r.userApiKey?.isSome then .getOrCreateUas turn a else .done

/-- What comes after an `update` of a user's summary. -/
def afterUpdate : Turn → RecordPc
  | .sample => r.update .allTime allTimeRef
  | .allTime => .done

/-- What comes after a counter has been written. -/
def afterStore (turn : Turn) (u : UasRef) (level : Level) (c : StatsRef) : Counter → RecordPc
  | .requestBytes => .load turn u level c .responseBytes
  | .responseBytes => .load turn u level c .numCalls
  | .numCalls =>
      match level with
      | .method => .load turn u .total (.total u) .requestBytes
      | .total => r.afterUpdate turn

/-- One step. -/
def step (h : LedgerHeap) : RecordPc → LedgerHeap × RecordPc
  | .checkDay => (h, if h.dailyUsage.contains r.key then .readDay else .createDay)
  | .createDay => (h.createDay r.key, .readDay)
  | .readDay =>
      (h, match h.dailyUsage.get? r.key with
        | some a => r.update .sample a
        | none => .raised)
  | .getOrCreateUas turn a =>
      let (u, h) := h.getOrCreateUas a (r.userApiKey?.getD "")
      (h, .checkMethod turn u)
  | .checkMethod turn u =>
      (h, if (h.methodStats u).contains r.request.method then .readMethod turn u
        else .createMethod turn u)
  | .createMethod turn u => (h.createMethod u r.request.method, .readMethod turn u)
  | .readMethod turn u =>
      (h, match (h.methodStats u).get? r.request.method with
        | some c => .load turn u .method c .requestBytes
        | none => .raised)
  | .load turn u level c f => (h, .store turn u level c f ((h.stats c).get f))
  | .store turn u level c f read =>
      (h.write c f (read + r.amount.get f), r.afterStore turn u level c f)
  | .done => (h, .done)
  | .raised => (h, .raised)

end RecordCall

/-! ## removing -/

/-- Where a `remove_user` is. -/
inductive RemovePc where
  /-- Before the `pop` from the summary for all time. -/
  | popAllTime
  /-- Before `iter(self.daily_usage.values())`. -/
  | iter
  /-- Before the `next` of an iterator that is at item `i` of a dictionary that had `size`
  items when the iterator was made. -/
  | next (i size : Nat)
  | popDay (i size : Nat) (a : SummaryRef)
  | done
  /-- `RuntimeError: dictionary changed size during iteration`. -/
  | raised
deriving DecidableEq, Repr

/-- One step of `remove_user(user_api_key)`. -/
def removeStep (userApiKey : String) (h : LedgerHeap) : RemovePc → LedgerHeap × RemovePc
  | .popAllTime => (h.popUser allTimeRef userApiKey, .iter)
  | .iter => (h, .next 0 h.dailyUsage.items.length)
  | .next i size =>
      (h, if h.dailyUsage.items.length ≠ size then .raised
        else match h.dailyUsage.items[i]? with
          | some (_, a) => .popDay i size a
          | none => .done)
  | .popDay i size a => (h.popUser a userApiKey, .next (i + 1) size)
  | .done => (h, .done)
  | .raised => (h, .raised)

/-! ## threads -/

/-- A call that some thread has begun. -/
inductive Activity where
  | record (r : RecordCall) (pc : RecordPc)
  | remove (userApiKey : String) (pc : RemovePc)
deriving DecidableEq, Repr

namespace Activity

/-- The call is over. -/
def isOver : Activity → Bool
  | .record _ .done | .record _ .raised | .remove _ .done | .remove _ .raised => true
  | _ => false

/-- One step of a call. -/
def step (h : LedgerHeap) : Activity → LedgerHeap × Activity
  | .record r pc => ((r.step h pc).1, .record r (r.step h pc).2)
  | .remove k pc => ((removeStep k h pc).1, .remove k (removeStep k h pc).2)

end Activity

/-- What happens: a thread begins a call, or goes on with the `i`-th one. -/
inductive Event where
  | record (r : RecordCall)
  | remove (userApiKey : String)
  | step (i : Nat)
deriving DecidableEq, Repr

end LedgerThreads

/-- The objects, and the calls begun so far. -/
structure LedgerThreads where
  heap : LedgerHeap
  activities : List Activity

namespace LedgerThreads

/-- One step of the system. -/
def step (s : LedgerThreads) : Event → Option LedgerThreads
  | .record r => some { s with activities := s.activities ++ [.record r .checkDay] }
  | .remove k => some { s with activities := s.activities ++ [.remove k .popAllTime] }
  | .step i =>
      (s.activities[i]?.filter fun a => !a.isOver).map fun a =>
        { heap := (a.step s.heap).1, activities := s.activities.set i (a.step s.heap).2 }

/-- What a step does: a call begins, or one that is not over goes on. -/
theorem step_cases {s s' : LedgerThreads} {e : Event} (h : s.step e = some s') :
    (∃ r, e = .record r ∧
      s' = { s with activities := s.activities ++ [.record r .checkDay] }) ∨
    (∃ k, e = .remove k ∧
      s' = { s with activities := s.activities ++ [.remove k .popAllTime] }) ∨
    ∃ i a, e = .step i ∧ s.activities[i]? = some a ∧ a.isOver = false ∧
      s' = { heap := (a.step s.heap).1, activities := s.activities.set i (a.step s.heap).2 } := by
  cases e with
  | record r => exact Or.inl ⟨r, rfl, (Option.some.inj h).symm⟩
  | remove k => exact Or.inr (Or.inl ⟨k, rfl, (Option.some.inj h).symm⟩)
  | step i =>
      obtain ⟨a, ha, rfl⟩ := Option.map_eq_some_iff.mp h
      obtain ⟨hget, hover⟩ := Option.filter_eq_some_iff.mp ha
      exact Or.inr (Or.inr ⟨i, a, rfl, hget, by simpa using hover, rfl⟩)

/-- The call, if it is a recording. -/
def Activity.record? : Activity → Option RecordCall
  | .record r _ => some r
  | .remove _ _ => none

/-- The recordings begun so far. -/
def records (s : LedgerThreads) : List RecordCall := s.activities.filterMap Activity.record?

end LedgerThreads

/-! ## what the objects say -/

namespace LedgerHeap

variable (h : LedgerHeap)

/-- A user's summary. -/
def uas (u : UasRef) : UserActivitySummary where
  totalStats := h.stats (.total u)
  methodStats := (h.methodStats u).mapValues h.stats

/-- A summary. -/
def summary (a : SummaryRef) : ServiceActivitySummary where
  userSummaries := (h.userSummaries a).mapValues h.uas

/-- The ledger that can be reached. -/
def ledger : SimpleActivityLedger where
  dailyUsage := h.dailyUsage.mapValues h.summary
  allTimeSummary := h.summary allTimeRef

end LedgerHeap

namespace SimpleActivityLedger

variable (l : SimpleActivityLedger)

/-- The summary of a day or the one for all time. -/
def summaryAt : Scope → Option ServiceActivitySummary
  | .day key => l.dailyUsage.get? key
  | .allTime => some l.allTimeSummary

/-- A user's summary there. -/
def userAt (σ : Scope) (k : String) : UserActivitySummary :=
  ((l.summaryAt σ).bind fun a => a.userSummaries.get? k).getD {}

/-- The objects of a ledger that no thread has touched yet. -/
def heap : LedgerHeap where
  dailyUsage := l.dailyUsage.mapItems fun key _ => ⟨.day key, 0⟩
  userSummaries a :=
    if a.number = 0 then
      ((l.summaryAt a.scope).getD {}).userSummaries.mapItems fun k _ => ⟨a.scope, k, 0⟩
    else .empty
  methodStats u :=
    if u.number = 0 then
      (l.userAt u.scope u.userApiKey).methodStats.mapItems fun m _ =>
        .method u.scope u.userApiKey m 0
    else .empty
  stats
    | .total u => if u.number = 0 then (l.userAt u.scope u.userApiKey).totalStats else {}
    | .method σ k m n => if n = 0 then (l.userAt σ k).statsOf m else {}

/-- The threads before anything has happened. -/
def threads : LedgerThreads := ⟨l.heap, []⟩

end SimpleActivityLedger

/-! ## one counter -/

namespace LedgerThreads

/-- What the ledger has counters for: a method of a user, or the user's total. -/
structure Entry where
  scope : Scope
  userApiKey : String
  method : Option String
deriving DecidableEq, Repr

end LedgerThreads

/-- The counters of a user, for a method or in total. -/
def UserActivitySummary.shown (u : UserActivitySummary) : Option String → CallStats
  | some m => u.statsOf m
  | none => u.totalStats

/-- The counters that the ledger shows; what does not occur has none. -/
def SimpleActivityLedger.shown (l : SimpleActivityLedger) (e : Entry) : CallStats :=
  (l.userAt e.scope e.userApiKey).shown e.method

namespace LedgerHeap

variable (h : LedgerHeap)

/-- The summary of a day or the one for all time. -/
def summaryRef? : Scope → Option SummaryRef
  | .day key => h.dailyUsage.get? key
  | .allTime => some allTimeRef

/-- The counters of a user's summary for a method or in total. -/
def statsRef? (u : UasRef) : Option String → Option StatsRef
  | some m => (h.methodStats u).get? m
  | none => some (.total u)

/-- The counters that a summary has for a user. -/
def statsIn (a : SummaryRef) (k : String) (method : Option String) : Option StatsRef :=
  ((h.userSummaries a).get? k).bind fun u => h.statsRef? u method

variable {h}

theorem shown_uas (u : UasRef) (method : Option String) :
    (h.uas u).shown method = (h.statsRef? u method).elim 0 h.stats := by
  cases method with
  | none => rfl
  | some m =>
      show (((h.methodStats u).mapValues h.stats).get? m).getD 0 =
        ((h.methodStats u).get? m).elim 0 h.stats
      rw [Dict.get?_mapValues]
      cases (h.methodStats u).get? m <;> rfl

theorem summaryAt_ledger (σ : Scope) :
    h.ledger.summaryAt σ = (h.summaryRef? σ).map h.summary := by
  cases σ with
  | day key => exact Dict.get?_mapValues h.summary key
  | allTime => rfl

/-- What the ledger shows is what is at the end of a path of references. -/
theorem shown_ledger (e : Entry) : h.ledger.shown e =
    (((h.summaryRef? e.scope).bind fun a => h.statsIn a e.userApiKey e.method).elim 0
      h.stats) := by
  unfold SimpleActivityLedger.shown SimpleActivityLedger.userAt statsIn
  rw [summaryAt_ledger]
  have hempty : (({} : UserActivitySummary).shown e.method) = 0 := by cases e.method <;> rfl
  cases h.summaryRef? e.scope with
  | none => exact hempty
  | some a =>
      rw [Option.map_some, Option.bind_some, Option.bind_some]
      show (((h.userSummaries a).mapValues h.uas).get? e.userApiKey |>.getD {}).shown e.method = _
      rw [Dict.get?_mapValues]
      cases (h.userSummaries a).get? e.userApiKey with
      | none => exact hempty
      | some u => exact shown_uas u e.method

end LedgerHeap

namespace SimpleActivityLedger

variable {l : SimpleActivityLedger}

theorem uas_heap {σ : Scope} {k : String} {a : ServiceActivitySummary} {u : UserActivitySummary}
    (ha : l.summaryAt σ = some a) (hu : a.userSummaries.get? k = some u) :
    l.heap.uas ⟨σ, k, 0⟩ = u := by
  have hat : l.userAt σ k = u := by
    rw [userAt, ha, Option.bind_some, hu]
    rfl
  unfold LedgerHeap.uas heap
  simp only [if_true, hat]
  rw [Dict.mapValues_mapItems fun m c hc => ?_]
  show (l.userAt σ k).statsOf m = c
  rw [hat, UserActivitySummary.statsOf, hc, Option.getD_some]

theorem summary_heap {σ : Scope} {a : ServiceActivitySummary} (ha : l.summaryAt σ = some a) :
    l.heap.summary ⟨σ, 0⟩ = a := by
  have husers : (l.heap.userSummaries ⟨σ, 0⟩) =
      a.userSummaries.mapItems fun k _ => (⟨σ, k, 0⟩ : UasRef) := by
    simp only [heap, if_true, ha, Option.getD_some]
  unfold LedgerHeap.summary
  rw [husers, Dict.mapValues_mapItems fun k u hu => uas_heap ha hu]

/-- The objects of a ledger say what the ledger says. -/
theorem ledger_heap : l.heap.ledger = l := by
  have hdaily : l.heap.dailyUsage =
      l.dailyUsage.mapItems fun key _ => (⟨.day key, 0⟩ : SummaryRef) := rfl
  unfold LedgerHeap.ledger
  rw [hdaily, Dict.mapValues_mapItems fun key a ha => summary_heap (σ := .day key) ha]
  have hall : l.heap.summary allTimeRef = l.allTimeSummary := summary_heap (σ := .allTime) rfl
  rw [hall]

end SimpleActivityLedger

end Web3Proxy
