import Mathlib.Algebra.BigOperators.Group.List.Basic
import Mathlib.Tactic.IntervalCases
import Web3Proxy.HandleClient.Accounting
import Web3Proxy.Lib.Mutex

/-!
# Web3Proxy.HandleClient.Counting

The counters of an endpoint under any interleaving of its threads.  `_update` adds to three
attributes, each with a read and a write, all under the endpoint's lock; they are read
without it.

* `EndpointConnectionStats.effect_update` — with the lock, the six operations amount to the
  one step of the model;
* `EndpointConnectionStats.shown_always` — whenever the counters are read, each of them is
  the sum of what the finished updates added, or that and what the one under way adds.
-/

namespace Web3Proxy

open Trans

namespace EndpointConnectionStats

/-- The attributes in the order of `_update`. -/
inductive Attribute where
  | noRequestsHandled | noBytesSent | noBytesReceived
deriving DecidableEq, Repr

/-- An attribute. -/
def get (stats : EndpointConnectionStats) : Attribute → Int
  | .noRequestsHandled => stats.noRequestsHandled
  | .noBytesSent => stats.noBytesSent
  | .noBytesReceived => stats.noBytesReceived

/-- The assignment to an attribute. -/
def put (stats : EndpointConnectionStats) (f : Attribute) (v : Int) : EndpointConnectionStats :=
  match f with
  | .noRequestsHandled => { stats with noRequestsHandled := v }
  | .noBytesSent => { stats with noBytesSent := v }
  | .noBytesReceived => { stats with noBytesReceived := v }

/-- The arguments of `_update`, as the counters that it adds. -/
abbrev Amounts := EndpointConnectionStats

/-- The operations on the attributes. -/
inductive Op where
  /-- The read of `self.f += …`. -/
  | load (f : Attribute)
  /-- The write of `self.f += …`. -/
  | store (f : Attribute)
deriving DecidableEq, Repr

/-- The body of `with self.__lock` in `_update`; the register holds the value that was read. -/
def code : Mutex.Code EndpointConnectionStats Int Op Amounts where
  program _ :=
    [.load .noRequestsHandled, .store .noRequestsHandled, .load .noBytesSent,
      .store .noBytesSent, .load .noBytesReceived, .store .noBytesReceived]
  start _ := 0
  exec amounts
    | .load f, (_, stats) => (stats.get f, stats)
    | .store f, (read, stats) => (read, stats.put f (read + amounts.get f))

/-- **With the lock** the operations amount to `update`. -/
theorem effect_update (stats amounts : EndpointConnectionStats) :
    code.effect stats amounts =
      stats.update amounts.noBytesReceived amounts.noBytesSent amounts.noRequestsHandled := rfl

theorem get_update (stats amounts : EndpointConnectionStats) (f : Attribute) :
    (stats.update amounts.noBytesReceived amounts.noBytesSent amounts.noRequestsHandled).get f =
      stats.get f + amounts.get f := by
  cases f <;> rfl

/-- Updates one after the other add up. -/
theorem get_foldl (done : List Amounts) (stats : EndpointConnectionStats) (f : Attribute) :
    (done.foldl code.effect stats).get f = stats.get f + (done.map fun c => c.get f).sum := by
  induction done generalizing stats with
  | nil => simp
  | cons c done ih =>
      rw [List.foldl_cons, ih, effect_update, get_update, List.map_cons, List.sum_cons, add_assoc]

/-- While an update is under way, a counter has its old value or its new one. -/
theorem get_ran {amounts : Amounts} {ran rest : List Op}
    (hprogram : code.program amounts = ran ++ rest) (stats : EndpointConnectionStats)
    (f : Attribute) : (code.execAll amounts ran (code.start amounts, stats)).2.get f = stats.get f ∨
      (code.execAll amounts ran (code.start amounts, stats)).2.get f =
        stats.get f + amounts.get f := by
  have hran : ran = (code.program amounts).take ran.length := by rw [hprogram, List.take_left]
  have hlength : ran.length ≤ 6 := by
    have hsix : 6 = ran.length + rest.length :=
      (congrArg List.length hprogram).trans List.length_append
    omega
  rw [hran]
  interval_cases ran.length <;> cases f <;> first | exact Or.inl rfl | exact Or.inr rfl

/-- The threads of an endpoint. -/
abbrev Threads := Mutex.State EndpointConnectionStats Int Op Amounts

/-- **Exact under the lock**: however any number of calls of `_update` interleave, whenever the
counters are read, with or without the lock: each is what the finished calls have added, or that
and the amount of one call that holds the lock; and while none holds it, all are exact. -/
theorem shown_always (stats : EndpointConnectionStats) {s : Threads}
    {es : List (Mutex.Event Amounts)} (hrun : run (Mutex.step code) (Mutex.init stats) es = some s) :
    (s.holder = none → ∀ f, s.shared.get f =
      stats.get f + (s.ended.map fun c => c.get f).sum) ∧
    ∀ i, s.holder = some i → ∃ c rest read, s.threads[i]? = some (.inside c rest read) ∧
      ∀ f, s.shared.get f = stats.get f + (s.ended.map fun c => c.get f).sum ∨
        s.shared.get f = stats.get f + (s.ended.map fun c => c.get f).sum + c.get f := by
  obtain ⟨done, h⟩ := Mutex.serializable hrun
  have hsum (f : Attribute) : (done.foldl code.effect stats).get f =
      stats.get f + (s.ended.map fun c => c.get f).sum := by
    rw [get_foldl, (h.ended.map fun c => c.get f).sum_eq]
  refine ⟨fun hfree f => ?_, fun i hi => ?_⟩
  · rw [h.free hfree, hsum]
  · obtain ⟨c, ran, rest, read, hget, hprogram, hstate⟩ := h.held hi
    refine ⟨c, rest, read, hget, fun f => ?_⟩
    have hshared : s.shared =
        (code.execAll c ran (code.start c, done.foldl code.effect stats)).2 :=
      congrArg Prod.snd hstate
    rw [hshared, ← hsum]
    exact get_ran hprogram _ f

/-- Two requests at once, read while the second one waits for the lock that the first one holds. -/
theorem shown_always_twoRequests :
    ∃ s : Threads, run (Mutex.step code) (Mutex.init {})
        [.begin ⟨0, 40, 1⟩, .begin ⟨0, 50, 1⟩, .acquire 0, .exec 0, .exec 0] = some s ∧
      (∃ c rest read, s.threads[0]? = some (.inside c rest read) ∧
        ∀ f, s.shared.get f = 0 ∨ s.shared.get f = c.get f) ∧
          s.shared.noRequestsHandled = 1 ∧ s.shared.noBytesReceived = 0 := by
  obtain ⟨s, hrun, hholder, hended, hone, hzero⟩ : ∃ s : Threads, run (Mutex.step code)
      (Mutex.init {}) [.begin ⟨0, 40, 1⟩, .begin ⟨0, 50, 1⟩, .acquire 0, .exec 0, .exec 0] =
        some s ∧ s.holder = some 0 ∧ s.ended = [] ∧ s.shared.noRequestsHandled = 1 ∧
          s.shared.noBytesReceived = 0 := ⟨_, rfl, rfl, rfl, rfl, rfl⟩
  obtain ⟨c, rest, read, hget, hshown⟩ := (shown_always {} hrun).2 0 hholder
  refine ⟨s, hrun, ⟨c, rest, read, hget, fun f => ?_⟩, hone, hzero⟩
  have hstart : ({} : EndpointConnectionStats).get f = 0 := by cases f <;> rfl
  simpa [hstart, hended] using hshown f

end EndpointConnectionStats

end Web3Proxy
