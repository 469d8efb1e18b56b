import Mathlib.Algebra.Order.BigOperators.Group.List
import Web3Proxy.ActivityLedger.Threads

/-!
# Web3Proxy.ActivityLedger.Races

What survives of the usage counters when the calls of the ledger overlap.

* `Wf.step` — references lead where they should, and no recording meets a missing key;
* `LedgerThreads.never_overcounts` — whatever overlaps, no counter shows more than what has
  been recorded; updates may get lost, but nothing is counted twice or for another user,
  method or day.
-/

namespace Web3Proxy

open Py Trans LedgerThreads

/-! ## references -/

/-- What a `CallStats` object counts. -/
def LedgerThreads.StatsRef.entry : StatsRef → Entry
  | .total u => ⟨u.scope, u.userApiKey, none⟩
  | .method σ k m _ => ⟨σ, k, some m⟩

namespace LedgerHeap

variable {h h' : LedgerHeap}

/-- Dictionaries refer to objects made for the place. -/
structure Placed (h : LedgerHeap) : Prop where
  day : ∀ {key a}, h.dailyUsage.get? key = some a → a.scope = .day key
  user : ∀ {a k u}, (h.userSummaries a).get? k = some u →
    u.scope = a.scope ∧ u.userApiKey = k ∧ u.number < h.next
  method : ∀ {u m c}, (h.methodStats u).get? m = some c → c.entry = ⟨u.scope, u.userApiKey, some m⟩

/-- What every step leaves of the objects: keys of days and methods stay. -/
structure Grows (h h' : LedgerHeap) : Prop where
  next : h.next ≤ h'.next
  day : ∀ {key}, h.dailyUsage.contains key → h'.dailyUsage.contains key
  method : ∀ {u m}, u.number < h.next → (h.methodStats u).contains m →
    (h'.methodStats u).contains m

theorem Grows.refl (h : LedgerHeap) : h.Grows h := ⟨Nat.le_refl _, id, fun _ => id⟩

theorem contains_set {κ α : Type} [DecidableEq κ] {d : Dict κ α} {j k : κ} {v : α}
    (h : d.contains j) : (d.set k v).contains j := by
  unfold Dict.contains at h ⊢
  rw [Dict.get?_set]
  by_cases hj : j = k
  · simp [hj]
  · simpa [hj] using h

theorem Placed.createDay (hp : h.Placed) (key : DateKey) :
    (h.createDay key).Placed ∧ h.Grows (h.createDay key) := by
  refine ⟨⟨fun {key' a} ha => ?_, fun {a k u} hu => ?_, hp.method⟩,
    ⟨Nat.le_succ _, contains_set, fun _ => id⟩⟩
  · unfold LedgerHeap.createDay at ha
    rw [Dict.get?_set] at ha
    split at ha
    · cases ha
      simp_all
    · exact hp.day ha
  · simp only [LedgerHeap.createDay, Function.update_apply] at hu
    split at hu
    · cases hu
    · obtain ⟨hscope, hkey, hlt⟩ := hp.user hu
      exact ⟨hscope, hkey, Nat.lt_succ_of_lt hlt⟩

/-- The summary of a user afterwards: the one that was there, or a new one. -/
theorem get?_getOrCreateUas (a : SummaryRef) (k : String) :
    ((h.getOrCreateUas a k).2.userSummaries a).get? k = some (h.getOrCreateUas a k).1 ∧
      ((h.userSummaries a).get? k = some (h.getOrCreateUas a k).1 ∨
        (h.userSummaries a).get? k = none ∧ (h.getOrCreateUas a k).1 = ⟨a.scope, k, h.next⟩) := by
  unfold LedgerHeap.getOrCreateUas
  simp only [Function.update_self, Dict.get?_setDefault_self, Option.getD_some]
  cases (h.userSummaries a).get? k <;> simp

theorem Placed.getOrCreateUas (hp : h.Placed) (a : SummaryRef) (k : String) :
    (h.getOrCreateUas a k).2.Placed ∧ h.Grows (h.getOrCreateUas a k).2 ∧
      (h.getOrCreateUas a k).1.scope = a.scope ∧ (h.getOrCreateUas a k).1.userApiKey = k ∧
        (h.getOrCreateUas a k).1.number < h.next + 1 := by
  have hu : (h.getOrCreateUas a k).1.scope = a.scope ∧
      (h.getOrCreateUas a k).1.userApiKey = k ∧
        (h.getOrCreateUas a k).1.number < h.next + 1 := by
    obtain ⟨-, hold | ⟨-, hnew⟩⟩ := get?_getOrCreateUas (h := h) a k
    · obtain ⟨hscope, hkey, hlt⟩ := hp.user hold
      exact ⟨hscope, hkey, Nat.lt_succ_of_lt hlt⟩
    · rw [hnew]
      exact ⟨rfl, rfl, Nat.lt_succ_self _⟩
  refine ⟨⟨hp.day, fun {b j v} hv => ?_, fun {v m c} hc => ?_⟩,
    ⟨Nat.le_succ _, id, fun {v m} hlt hm => ?_⟩, hu⟩
  · by_cases hb : b = a
    · subst hb
      by_cases hj : j = k
      · subst hj
        rw [(get?_getOrCreateUas b j).1] at hv
        cases hv
        exact hu
      · have hold : (h.userSummaries b).get? j = some v := by
          simpa [LedgerHeap.getOrCreateUas, Dict.get?_setDefault, hj] using hv
        obtain ⟨hscope, hkey, hlt⟩ := hp.user hold
        exact ⟨hscope, hkey, Nat.lt_succ_of_lt hlt⟩
    · have hold : (h.userSummaries b).get? j = some v := by
        simpa [LedgerHeap.getOrCreateUas, Function.update_apply, hb] using hv
      obtain ⟨hscope, hkey, hlt⟩ := hp.user hold
      exact ⟨hscope, hkey, Nat.lt_succ_of_lt hlt⟩
  · simp only [LedgerHeap.getOrCreateUas, Function.update_apply] at hc
    split at hc
    · cases hc
    · exact hp.method hc
  · have hne : v ≠ ⟨a.scope, k, h.next⟩ := fun heq => by
      rw [heq] at hlt
      exact Nat.lt_irrefl _ hlt
    simpa [LedgerHeap.getOrCreateUas, Function.update_apply, hne] using hm

theorem Placed.createMethod (hp : h.Placed) (u : UasRef) (m : String) :
    (h.createMethod u m).Placed ∧ h.Grows (h.createMethod u m) ∧
      ((h.createMethod u m).methodStats u).contains m := by
  refine ⟨⟨hp.day, fun {a k v} hv => ?_, fun {v n c} hc => ?_⟩,
    ⟨Nat.le_succ _, id, fun {v n} _ hn => ?_⟩, ?_⟩
  · obtain ⟨hscope, hkey, hlt⟩ := hp.user hv
    exact ⟨hscope, hkey, Nat.lt_succ_of_lt hlt⟩
  · simp only [LedgerHeap.createMethod, Function.update_apply] at hc
    split at hc
    · rw [Dict.get?_set] at hc
      split at hc
      · cases hc
        simp_all [StatsRef.entry]
      · rename_i hv _
        subst hv
        exact hp.method hc
    · exact hp.method hc
  · simp only [LedgerHeap.createMethod, Function.update_apply]
    split
    · rename_i hv
      subst hv
      exact contains_set hn
    · exact hn
  · simp [LedgerHeap.createMethod, Dict.contains]

theorem Placed.write (hp : h.Placed) (c : StatsRef) (f : Counter) (v : Int) :
    (h.write c f v).Placed ∧ h.Grows (h.write c f v) :=
  ⟨⟨hp.day, hp.user, hp.method⟩, ⟨Nat.le_refl _, id, fun _ => id⟩⟩

theorem Placed.popUser (hp : h.Placed) (a : SummaryRef) (k : String) :
    (h.popUser a k).Placed ∧ h.Grows (h.popUser a k) := by
  refine ⟨⟨hp.day, fun {b j v} hv => ?_, hp.method⟩, ⟨Nat.le_refl _, id, fun _ => id⟩⟩
  simp only [LedgerHeap.popUser, Function.update_apply] at hv
  split at hv
  · rename_i hb
    subst hb
    rw [Dict.get?_erase] at hv
    split at hv
    · cases hv
    · exact hp.user hv
  · exact hp.user hv

end LedgerHeap

/-! ## where a recording is -/

namespace LedgerThreads

namespace RecordCall

variable (r : RecordCall)

/-- The summary that an `update` works on. -/
def scope : Turn → Scope
  | .sample => .day r.key
  | .allTime => .allTime

/-- What an `update_stats` counts. -/
def entry (turn : Turn) (level : Level) : Entry where
  scope := r.scope turn
  userApiKey := r.userApiKey?.getD ""
  method := match level with
    | .method => some r.request.method
    | .total => none

/-- The user's summary is one that the recording can have. -/
structure Owns (h : LedgerHeap) (turn : Turn) (u : UasRef) : Prop where
  key : r.userApiKey? = some u.userApiKey
  scope : u.scope = r.scope turn
  number : u.number < h.next

end RecordCall

/-- What a recording holds on to is made for it. -/
def RecordPc.Held (r : RecordCall) (h : LedgerHeap) : RecordPc → Prop
  | .checkDay | .createDay | .done => True
  | .readDay => h.dailyUsage.contains r.key
  | .getOrCreateUas turn a => r.userApiKey?.isSome ∧ a.scope = r.scope turn
  | .checkMethod turn u | .createMethod turn u => r.Owns h turn u
  | .readMethod turn u => r.Owns h turn u ∧ (h.methodStats u).contains r.request.method
  | .load turn u level c _ | .store turn u level c _ _ =>
      r.Owns h turn u ∧ c.entry = r.entry turn level
  | .raised => False

variable {r : RecordCall} {h h' : LedgerHeap} {pc : RecordPc}

theorem RecordCall.Owns.grows {turn : Turn} {u : UasRef} (hu : r.Owns h turn u)
    (hg : h.Grows h') : r.Owns h' turn u :=
  ⟨hu.key, hu.scope, Nat.lt_of_lt_of_le hu.number hg.next⟩

theorem RecordPc.Held.grows (hh : pc.Held r h) (hg : h.Grows h') : pc.Held r h' := by
  cases pc with
  | checkDay | createDay | done | getOrCreateUas | raised => exact hh
  | readDay => exact hg.day hh
  | checkMethod | createMethod => exact RecordCall.Owns.grows hh hg
  | readMethod => exact ⟨hh.1.grows hg, hg.method hh.1.number hh.2⟩
  | load | store => exact ⟨hh.1.grows hg, hh.2⟩

theorem held_update (turn : Turn) {a : SummaryRef} (ha : a.scope = r.scope turn) :
    (r.update turn a).Held r h := by
  unfold RecordCall.update
  split
  · exact ⟨‹_›, ha⟩
  · exact trivial

theorem held_afterStore {turn : Turn} {u : UasRef} {level : Level} {c : StatsRef} (f : Counter)
    (hu : r.Owns h turn u) (hc : c.entry = r.entry turn level) :
    (r.afterStore turn u level c f).Held r h := by
  cases f with
  | requestBytes | responseBytes => exact ⟨hu, hc⟩
  | numCalls =>
      cases level with
      | method =>
          refine ⟨hu, ?_⟩
          show (⟨u.scope, u.userApiKey, none⟩ : Entry) = ⟨r.scope turn, r.userApiKey?.getD "", none⟩
          rw [hu.scope, hu.key, Option.getD_some]
      | total =>
          cases turn with
          | sample => exact held_update .allTime rfl
          | allTime => exact trivial

/-- **A step of a recording**: references stay placed, nothing that others rely on goes, and
what the recording holds next is made for it. -/
theorem RecordCall.step_spec (hp : h.Placed) (hh : pc.Held r h) :
    (r.step h pc).1.Placed ∧ h.Grows (r.step h pc).1 ∧
      (r.step h pc).2.Held r (r.step h pc).1 := by
  cases pc with
  | checkDay =>
      refine ⟨hp, .refl h, ?_⟩
      simp only [RecordCall.step]
      split
      · exact ‹_›
      · exact trivial
  | createDay =>
      obtain ⟨hp', hg⟩ := hp.createDay r.key
      refine ⟨hp', hg, ?_⟩
      show ((h.dailyUsage.set r.key ⟨.day r.key, h.next⟩).get? r.key).isSome
      rw [Dict.get?_set, if_pos rfl, Option.isSome_some]
  | readDay =>
      refine ⟨hp, .refl h, ?_⟩
      obtain ⟨a, ha⟩ := Option.isSome_iff_exists.mp hh
      simp only [RecordCall.step, ha]
      exact held_update .sample (hp.day ha)
  | getOrCreateUas turn a =>
      obtain ⟨hsome, hscope⟩ := hh
      obtain ⟨k, hk⟩ := Option.isSome_iff_exists.mp hsome
      obtain ⟨hp', hg, huscope, hukey, hlt⟩ := hp.getOrCreateUas a (r.userApiKey?.getD "")
      refine ⟨hp', hg, ⟨?_, huscope.trans hscope, hlt⟩⟩
      show r.userApiKey? = some (h.getOrCreateUas a (r.userApiKey?.getD "")).1.userApiKey
      rw [hukey, hk, Option.getD_some]
  | checkMethod turn u =>
      refine ⟨hp, .refl h, ?_⟩
      simp only [RecordCall.step]
      split
      · exact ⟨hh, ‹_›⟩
      · exact hh
  | createMethod turn u =>
      obtain ⟨hp', hg, hm⟩ := hp.createMethod u r.request.method
      exact ⟨hp', hg, hh.grows hg, hm⟩
  | readMethod turn u =>
      refine ⟨hp, .refl h, ?_⟩
      obtain ⟨c, hc⟩ := Option.isSome_iff_exists.mp hh.2
      simp only [RecordCall.step, hc]
      refine ⟨hh.1, ?_⟩
      rw [hp.method hc, RecordCall.entry, hh.1.scope, hh.1.key, Option.getD_some]
  | load turn u level c f => exact ⟨hp, .refl h, hh⟩
  | store turn u level c f read =>
      obtain ⟨hp', hg⟩ := hp.write c f (read + r.amount.get f)
      exact ⟨hp', hg, held_afterStore f (hh.1.grows hg) hh.2⟩
  | done => exact ⟨hp, .refl h, hh⟩
  | raised => exact hh.elim

theorem removeStep_spec (hp : h.Placed) (k : String) (pc : RemovePc) :
    (removeStep k h pc).1.Placed ∧ h.Grows (removeStep k h pc).1 := by
  cases pc with
  | popAllTime => exact hp.popUser allTimeRef k
  | popDay i size a => exact hp.popUser a k
  | iter | next | done | raised => exact ⟨hp, .refl h⟩

/-- A recording is where it can be. -/
def Activity.Held (h : LedgerHeap) : Activity → Prop
  | .record r pc => pc.Held r h
  | .remove _ _ => True

theorem Activity.Held.grows {a : Activity} (ha : a.Held h) (hg : h.Grows h') : a.Held h' := by
  cases a with
  | record r pc => exact RecordPc.Held.grows ha hg
  | remove => exact trivial

theorem Activity.step_spec {a : Activity} (hp : h.Placed) (ha : a.Held h) :
    (a.step h).1.Placed ∧ h.Grows (a.step h).1 ∧ (a.step h).2.Held (a.step h).1 := by
  cases a with
  | record r pc => exact RecordCall.step_spec hp ha
  | remove k pc =>
      obtain ⟨hp', hg⟩ := removeStep_spec hp k pc
      exact ⟨hp', hg, trivial⟩

/-- All references lead where they should. -/
structure Wf (s : LedgerThreads) : Prop where
  placed : s.heap.Placed
  held : ∀ a ∈ s.activities, a.Held s.heap

variable {s s' : LedgerThreads} {e : Event}

theorem Wf.step (hw : s.Wf) (hs : s.step e = some s') : s'.Wf := by
  obtain ⟨r, -, rfl⟩ | ⟨k, -, rfl⟩ | ⟨i, a, -, ha, -, rfl⟩ := step_cases hs
  · refine ⟨hw.placed, fun a ha => ?_⟩
    obtain ha | ha := List.mem_append.mp ha
    · exact hw.held a ha
    · rw [List.mem_singleton.mp ha]
      exact trivial
  · refine ⟨hw.placed, fun a ha => ?_⟩
    obtain ha | ha := List.mem_append.mp ha
    · exact hw.held a ha
    · rw [List.mem_singleton.mp ha]
      exact trivial
  · obtain ⟨hp, hg, hnew⟩ := Activity.step_spec hw.placed (hw.held a (List.mem_of_getElem? ha))
    refine ⟨hp, fun b hb => ?_⟩
    obtain hb | rfl := List.mem_or_eq_of_mem_set hb
    · exact (hw.held b hb).grows hg
    · exact hnew

end LedgerThreads

/-- The objects of a ledger are placed. -/
theorem SimpleActivityLedger.wf_threads (l : SimpleActivityLedger) : l.threads.Wf where
  placed :=
    { day := fun {key a} ha => by
        have hday : (l.dailyUsage.mapItems fun key _ => (⟨.day key, 0⟩ : SummaryRef)).get? key =
          some a := ha
        rw [Dict.get?_mapItems] at hday
        obtain ⟨_, -, rfl⟩ := Option.map_eq_some_iff.mp hday
        rfl
      user := fun {a k u} hu => by
        simp only [threads, heap] at hu
        split at hu
        · rw [Dict.get?_mapItems] at hu
          obtain ⟨_, -, rfl⟩ := Option.map_eq_some_iff.mp hu
          exact ⟨rfl, rfl, Nat.one_pos⟩
        · cases hu
      method := fun {u m c} hc => by
        simp only [threads, heap] at hc
        split at hc
        · rw [Dict.get?_mapItems] at hc
          obtain ⟨_, -, rfl⟩ := Option.map_eq_some_iff.mp hc
          rfl
        · cases hc }
  held := fun a ha => by cases ha

/-! ## counters -/

namespace CallStats

@[simp] theorem get_zero (f : Counter) : (0 : CallStats).get f = 0 := by cases f <;> rfl

@[simp] theorem get_empty (f : Counter) : ({} : CallStats).get f = 0 := by cases f <;> rfl

@[simp] theorem get_add (a b : CallStats) (f : Counter) : (a + b).get f = a.get f + b.get f := by
  cases f <;> rfl

theorem get_put (cs : CallStats) (f : Counter) (v : Int) (g : Counter) :
    (cs.put f v).get g = if g = f then v else cs.get g := by
  cases f <;> cases g <;> rfl

end CallStats

/-- The counters that a summary shows for a user. -/
def ServiceActivitySummary.shown (a : ServiceActivitySummary) (k : String)
    (method : Option String) : CallStats := ((a.userSummaries.get? k).getD {}).shown method

theorem SimpleActivityLedger.shown_eq (l : SimpleActivityLedger) (e : Entry) :
    l.shown e = ((l.summaryAt e.scope).getD {}).shown e.userApiKey e.method := by
  unfold shown userAt ServiceActivitySummary.shown
  cases l.summaryAt e.scope <;> rfl

namespace LedgerThreads

namespace RecordCall

variable (r : RecordCall)

/-- The call as one step. -/
def record (l : SimpleActivityLedger) : SimpleActivityLedger :=
  l.record r.key r.request r.response r.responseOnly

end RecordCall

/-- The update that an entry is written by. -/
def Entry.turn (e : Entry) : Turn :=
  match e.scope with
  | .day _ => .sample
  | .allTime => .allTime

def Entry.level (e : Entry) : Level :=
  match e.method with
  | some _ => .method
  | none => .total

namespace RecordCall

variable (r : RecordCall)

/-- The call counts for an entry. -/
def Writes (e : Entry) : Prop := r.userApiKey?.isSome ∧ e = r.entry e.turn e.level

instance (e : Entry) : Decidable (r.Writes e) := inferInstanceAs (Decidable (_ ∧ _))

/-- What the call adds to an entry. -/
def credit (e : Entry) : CallStats := if r.Writes e then r.amount else 0

variable {r}

theorem amount_nonneg (f : Counter) : 0 ≤ r.amount.get f := by
  cases f
  · simp only [CallStats.get, amount]
    split <;> omega
  · simp only [CallStats.get, amount]
    omega
  · simp only [CallStats.get, amount]
    split <;> omega

theorem userApiKey?_eq_some {k : String} :
    r.userApiKey? = some k ↔ r.request.userApiKey = some k ∧ k ≠ "" := by
  unfold userApiKey?
  rw [Option.filter_eq_some_iff]
  simp

/-- What `update` adds is the amount of the call, for the method and in total. -/
theorem growth_eq (k m : String) :
    ServiceActivitySummary.growth r.request r.response r.responseOnly k m =
      if r.userApiKey? = some k ∧ r.request.method = m then r.amount else 0 := by
  unfold ServiceActivitySummary.growth
  simp only [userApiKey?_eq_some, and_assoc]
  rfl

theorem shown_update (a : ServiceActivitySummary) (k : String) (method : Option String) :
    (a.update r.request r.response r.responseOnly).shown k method = a.shown k method +
      if r.userApiKey? = some k ∧ (method = none ∨ method = some r.request.method)
        then r.amount else 0 := by
  cases method with
  | none =>
      show (((a.update r.request r.response r.responseOnly).userSummaries.get? k).getD
        {}).totalStats = ((a.userSummaries.get? k).getD {}).totalStats + _
      rw [ServiceActivitySummary.total_update, growth_eq]
      simp
  | some m =>
      have hshown (b : ServiceActivitySummary) : b.shown k (some m) = b.statsOf k m := by
        unfold ServiceActivitySummary.shown ServiceActivitySummary.statsOf
        cases b.userSummaries.get? k <;> rfl
      rw [hshown, hshown, ServiceActivitySummary.statsOf_update, growth_eq]
      simp [eq_comm]

theorem writes_iff {e : Entry} : r.Writes e ↔ r.userApiKey? = some e.userApiKey ∧
    e.scope = r.scope e.turn ∧ (e.method = none ∨ e.method = some r.request.method) := by
  obtain ⟨σ, k, method⟩ := e
  unfold Writes entry
  cases hkey : r.userApiKey? with
  | none => simp
  | some j =>
      cases method with
      | none => simp [Entry.level, eq_comm, and_comm]
      | some m =>
          simp only [Entry.level, Option.isSome_some, true_and, Option.getD_some, Entry.mk.injEq,
            Option.some.injEq, reduceCtorEq, false_or]
          constructor
          · rintro ⟨hσ, rfl, hm⟩
            exact ⟨rfl, hσ, hm⟩
          · rintro ⟨rfl, hσ, hm⟩
            exact ⟨hσ, rfl, hm⟩

/-- **A call as one step** adds its credit. -/
theorem shown_record (l : SimpleActivityLedger) (e : Entry) :
    (r.record l).shown e = l.shown e + r.credit e := by
  have hupdate (a : ServiceActivitySummary) (hscope : e.scope = r.scope e.turn) :
      (a.update r.request r.response r.responseOnly).shown e.userApiKey e.method =
        a.shown e.userApiKey e.method + r.credit e := by
    rw [shown_update, credit]
    simp only [writes_iff, hscope, true_and]
  rw [SimpleActivityLedger.shown_eq, SimpleActivityLedger.shown_eq, record,
    SimpleActivityLedger.record_eq]
  cases hscope : e.scope with
  | allTime => exact hupdate l.allTimeSummary (by simp [Entry.turn, hscope, scope])
  | day key =>
      show (((l.onBoth r.key _).dailyUsage.get? key).getD {}).shown _ _ =
        ((l.dailyUsage.get? key).getD {}).shown _ _ + _
      rw [SimpleActivityLedger.onBoth_get?]
      by_cases hkey : key = r.key
      · rw [if_pos hkey, Option.getD_some, hkey]
        exact hupdate _ (by simp [Entry.turn, hscope, scope, hkey])
      · have hno : ¬ r.Writes e := fun hwrites => by
          have hday := (writes_iff.mp hwrites).2.1
          simp [Entry.turn, hscope, scope, hkey] at hday
        rw [if_neg hkey, credit, if_neg hno, add_zero]

end RecordCall

/-! ## progress -/

variable {r : RecordCall} {h h' : LedgerHeap} {pc : RecordPc}

def Turn.index : Turn → Nat
  | .sample => 0
  | .allTime => 6

def Level.index : Level → Nat
  | .method => 0
  | .total => 3

def Counter.index : Counter → Nat
  | .requestBytes => 0
  | .responseBytes => 1
  | .numCalls => 2

/-- The twelve writes of a recording are made in this order. -/
def slot (turn : Turn) (level : Level) (f : Counter) : Nat := turn.index + level.index + f.index

theorem slot_inj {turn turn' : Turn} {level level' : Level} {f f' : Counter} :
    slot turn level f = slot turn' level' f' ↔ turn = turn' ∧ level = level' ∧ f = f' := by
  cases turn <;> cases turn' <;> cases level <;> cases level' <;> cases f <;> cases f' <;> decide

theorem slot_lt (turn : Turn) (level : Level) (f : Counter) : slot turn level f < 12 := by
  cases turn <;> cases level <;> cases f <;> decide

/-- The number of writes made. -/
def RecordPc.position : RecordPc → Nat
  | .checkDay | .createDay | .readDay | .raised => 0
  | .getOrCreateUas turn _ | .checkMethod turn _ | .createMethod turn _ | .readMethod turn _ =>
      turn.index
  | .load turn _ level _ f | .store turn _ level _ f _ => slot turn level f
  | .done => 12

/-- What a call has added to a counter so far. -/
def Activity.earned : Activity → Entry → Counter → Int
  | .record r pc, e, f =>
      if r.Writes e ∧ slot e.turn e.level f < pc.position then r.amount.get f else 0
  | .remove _ _, _, _ => 0

theorem Activity.earned_nonneg (a : Activity) (e : Entry) (f : Counter) : 0 ≤ a.earned e f := by
  cases a with
  | record r pc =>
      simp only [earned]
      split
      · exact RecordCall.amount_nonneg f
      · exact Int.le_refl 0
  | remove => exact Int.le_refl 0

theorem position_update (turn : Turn) (a : SummaryRef) (hkey : r.userApiKey?.isSome) :
    (r.update turn a).position = turn.index := by
  rw [RecordCall.update, if_pos hkey]
  rfl

theorem position_afterStore {turn : Turn} {level : Level} (u : UasRef) (c : StatsRef) (f : Counter)
    (hkey : r.userApiKey?.isSome) :
    (r.afterStore turn u level c f).position = slot turn level f + 1 := by
  cases f with
  | requestBytes | responseBytes => rfl
  | numCalls =>
      cases level with
      | method => cases turn <;> rfl
      | total =>
          cases turn with
          | sample => exact position_update .allTime allTimeRef hkey
          | allTime => rfl

/-- What the next step adds: a write adds to its counter, any other step to none. -/
def RecordPc.adds (r : RecordCall) : RecordPc → Entry → Counter → Int
  | .store _ _ _ c g _, e, f => if e = c.entry ∧ f = g then r.amount.get f else 0
  | _, _, _ => 0

theorem adds_nonneg (r : RecordCall) (pc : RecordPc) (e : Entry) (f : Counter) :
    0 ≤ pc.adds r e f := by
  unfold RecordPc.adds
  split
  · split
    · exact RecordCall.amount_nonneg f
    · exact Int.le_refl 0
  · exact Int.le_refl 0

theorem earned_step (hh : pc.Held r h) (e : Entry) (f : Counter) :
    (Activity.record r (r.step h pc).2).earned e f =
      (Activity.record r pc).earned e f + pc.adds r e f := by
  have hsame (pc' : RecordPc) (hpos : r.userApiKey?.isSome → pc'.position = pc.position) :
      (Activity.record r pc').earned e f = (Activity.record r pc).earned e f + 0 := by
    simp only [Activity.earned, add_zero]
    by_cases hw : r.Writes e
    · rw [hpos hw.1]
    · simp [hw]
  cases pc with
  | store turn u level c g read =>
      obtain ⟨howns, hc⟩ := hh
      have hkey : r.userApiKey?.isSome := by rw [howns.key, Option.isSome_some]
      have hbefore : (RecordPc.store turn u level c g read).position = slot turn level g := rfl
      show (Activity.record r (r.afterStore turn u level c g)).earned e f = _ +
        if e = c.entry ∧ f = g then r.amount.get f else 0
      simp only [Activity.earned]
      rw [position_afterStore u c g hkey, hbefore, hc]
      have hwrites : e = r.entry turn level → e.turn = turn ∧ e.level = level := by
        rintro rfl
        cases turn <;> cases level <;> exact ⟨rfl, rfl⟩
      by_cases heq : e = r.entry turn level ∧ f = g
      · obtain ⟨he, rfl⟩ := heq
        obtain ⟨hturn, hlevel⟩ := hwrites he
        have hw : r.Writes e := ⟨hkey, by rw [hturn, hlevel, ← he]⟩
        rw [if_pos ⟨hw, by rw [hturn, hlevel]; exact Nat.lt_succ_self _⟩,
          if_neg (by rw [hturn, hlevel]; exact fun hlt => Nat.lt_irrefl _ hlt.2),
          if_pos ⟨he, rfl⟩, zero_add]
      · have hslot : r.Writes e → slot e.turn e.level f ≠ slot turn level g := by
          rintro hw hslot
          obtain ⟨hturn, hlevel, rfl⟩ := slot_inj.mp hslot
          exact heq ⟨by rw [← hturn, ← hlevel]; exact hw.2, rfl⟩
        rw [if_neg heq, add_zero]
        refine if_congr ?_ rfl rfl
        constructor
        · rintro ⟨hw, hlt⟩
          have := hslot hw
          exact ⟨hw, by omega⟩
        · rintro ⟨hw, hlt⟩
          exact ⟨hw, by omega⟩
  | readDay =>
      obtain ⟨a, ha⟩ := Option.isSome_iff_exists.mp hh
      have hstep : (r.step h .readDay).2 = r.update .sample a := by
        simp only [RecordCall.step, ha]
      exact hsame _ fun hkey => by rw [hstep, position_update .sample a hkey]; rfl
  | readMethod turn u =>
      obtain ⟨c, hc⟩ := Option.isSome_iff_exists.mp hh.2
      have hstep : (r.step h (.readMethod turn u)).2 = .load turn u .method c .requestBytes := by
        simp only [RecordCall.step, hc]
      exact hsame _ fun _ => by rw [hstep]; rfl
  | checkDay | checkMethod =>
      refine hsame _ fun _ => ?_
      simp only [RecordCall.step]
      split <;> rfl
  | createDay | getOrCreateUas | createMethod | load | done | raised => exact hsame _ fun _ => rfl

/-! ## nothing is counted twice -/

/-- What a counter can show: what it had, and what the calls have added so far. -/
def bound (l : SimpleActivityLedger) (s : LedgerThreads) (e : Entry) (f : Counter) : Int :=
  (l.shown e).get f + (s.activities.map fun a => a.earned e f).sum

variable {l : SimpleActivityLedger} {s s' : LedgerThreads} {ev : Event} {e : Entry} {f : Counter}

theorem earned_begin (r : RecordCall) : (Activity.record r .checkDay).earned e f = 0 :=
  if_neg fun hlt => Nat.not_lt_zero _ hlt.2

theorem bound_append {a : Activity} (ha : a.earned e f = 0) :
    bound l ⟨s.heap, s.activities ++ [a]⟩ e f = bound l s e f := by
  simp [bound, ha]

/-- When a call goes on, the bound grows by what it adds. -/
theorem bound_set {i : Nat} {a a' : Activity} (ha : s.activities[i]? = some a) (heap : LedgerHeap) :
    bound l ⟨heap, s.activities.set i a'⟩ e f =
      bound l s e f + (a'.earned e f - a.earned e f) := by
  obtain ⟨hlt, heq⟩ := List.getElem?_eq_some_iff.mp ha
  unfold bound
  rw [List.map_set, List.sum_set', dif_pos (by simpa using hlt), List.getElem_map, heq]
  omega

theorem bound_nonneg (hl : ∀ e f, 0 ≤ (l.shown e).get f) : 0 ≤ bound l s e f := by
  have hsum : 0 ≤ (s.activities.map fun a => a.earned e f).sum :=
    List.sum_nonneg fun x hx => by
      obtain ⟨a, -, rfl⟩ := List.mem_map.mp hx
      exact a.earned_nonneg e f
  have := hl e f
  unfold bound
  omega

/-- The counters after a step: those of new objects are zero, and only a write changes one. -/
theorem stats_step (r : RecordCall) (h : LedgerHeap) (pc : RecordPc) (c : StatsRef) (f : Counter) :
    ((r.step h pc).1.stats c).get f = (h.stats c).get f ∨ ((r.step h pc).1.stats c).get f = 0 ∨
      ∃ turn u level read, pc = .store turn u level c f read ∧
        ((r.step h pc).1.stats c).get f = read + r.amount.get f := by
  cases pc with
  | getOrCreateUas turn a =>
      simp only [RecordCall.step, LedgerHeap.getOrCreateUas, Function.update_apply]
      split
      · exact Or.inr (Or.inl (CallStats.get_empty f))
      · exact Or.inl rfl
  | createMethod turn u =>
      simp only [RecordCall.step, LedgerHeap.createMethod, Function.update_apply]
      split
      · exact Or.inr (Or.inl (CallStats.get_empty f))
      · exact Or.inl rfl
  | store turn u level d g read =>
      simp only [RecordCall.step, LedgerHeap.write, Function.update_apply]
      split
      · rename_i hc
        subst hc
        rw [CallStats.get_put]
        split
        · rename_i hf
          subst hf
          exact Or.inr (Or.inr ⟨turn, u, level, read, rfl, rfl⟩)
        · exact Or.inl rfl
      · exact Or.inl rfl
  | checkDay | createDay | readDay | checkMethod | readMethod | load | done | raised =>
      exact Or.inl rfl

/-- No counter and no value that a thread has read exceeds the bound. -/
structure Bounded (l : SimpleActivityLedger) (s : LedgerThreads) : Prop where
  wf : s.Wf
  stats : ∀ c f, (s.heap.stats c).get f ≤ bound l s c.entry f
  reads : ∀ {r turn u level c f read},
    Activity.record r (.store turn u level c f read) ∈ s.activities → read ≤ bound l s c.entry f

/-- The value that a thread has just read is that of a counter. -/
theorem read_of_step {r : RecordCall} {pc : RecordPc} {h : LedgerHeap} {turn : Turn} {u : UasRef}
    {level : Level} {c : StatsRef} {f : Counter} {read : Int}
    (hpc : (r.step h pc).2 = .store turn u level c f read) : read = (h.stats c).get f := by
  have hupdate (turn' : Turn) (a : SummaryRef) :
      r.update turn' a ≠ .store turn u level c f read := by
    unfold RecordCall.update
    split <;> exact fun h => nomatch h
  cases pc with
  | load =>
      cases hpc
      rfl
  | checkDay | checkMethod =>
      simp only [RecordCall.step] at hpc
      split at hpc <;> cases hpc
  | readDay =>
      simp only [RecordCall.step] at hpc
      split at hpc
      · exact absurd hpc (hupdate _ _)
      · cases hpc
  | readMethod =>
      simp only [RecordCall.step] at hpc
      split at hpc <;> cases hpc
  | store turn' u' level' c' f' read' =>
      have hafter : r.afterStore turn' u' level' c' f' = .store turn u level c f read := hpc
      cases f' with
      | requestBytes | responseBytes => cases hafter
      | numCalls =>
          cases level' with
          | method => cases hafter
          | total =>
              cases turn' with
              | sample => exact absurd hafter (hupdate _ _)
              | allTime => cases hafter
  | createDay | getOrCreateUas | createMethod | done | raised => cases hpc

theorem Bounded.record_step {i : Nat} {r : RecordCall} {pc : RecordPc}
    (hl : ∀ e f, 0 ≤ (l.shown e).get f) (hb : Bounded l s)
    (ha : s.activities[i]? = some (.record r pc)) (hs : s.step (.step i) = some s')
    (heq : s' = ⟨(r.step s.heap pc).1, s.activities.set i (.record r (r.step s.heap pc).2)⟩) :
    Bounded l s' := by
  have hwf := hb.wf.step hs
  subst heq
  have hmem := List.mem_of_getElem? ha
  have hgrow (e : Entry) (f : Counter) :
      bound l ⟨(r.step s.heap pc).1, s.activities.set i (.record r (r.step s.heap pc).2)⟩ e f =
        bound l s e f + pc.adds r e f := by
    rw [bound_set ha, earned_step (hb.wf.held _ hmem)]
    omega
  have hmono (e : Entry) (f : Counter) : bound l s e f ≤
      bound l ⟨(r.step s.heap pc).1, s.activities.set i (.record r (r.step s.heap pc).2)⟩ e f := by
    have hnonneg := adds_nonneg r pc e f
    rw [hgrow]
    omega
  refine ⟨hwf, fun c f => ?_, fun {r' turn u level c f read} hr => ?_⟩
  · obtain hsame | hzero | ⟨turn, u, level, read, rfl, hwrite⟩ := stats_step r s.heap pc c f
    · exact hsame ▸ (hb.stats c f).trans (hmono _ _)
    · exact hzero ▸ bound_nonneg hl
    · have hread := hb.reads hmem
      rw [hgrow, hwrite, RecordPc.adds, if_pos ⟨rfl, rfl⟩]
      omega
  · obtain hr | hr := List.mem_or_eq_of_mem_set hr
    · exact (hb.reads hr).trans (hmono _ _)
    · obtain ⟨rfl, hpc⟩ := Activity.record.inj hr
      exact read_of_step hpc.symm ▸ (hb.stats c f).trans (hmono _ _)

theorem Bounded.step (hl : ∀ e f, 0 ≤ (l.shown e).get f) (hb : Bounded l s)
    (hs : s.step ev = some s') : Bounded l s' := by
  obtain ⟨r, -, heq⟩ | ⟨k, -, heq⟩ | ⟨i, a, rfl, ha, -, heq⟩ := step_cases hs
  · have hbound (e : Entry) (f : Counter) : bound l s' e f = bound l s e f :=
      heq ▸ bound_append (earned_begin r)
    refine ⟨hb.wf.step hs, fun c f => ?_, fun {r' turn u level c f read} hr => ?_⟩
    · rw [hbound, heq]
      exact hb.stats c f
    · rw [hbound]
      rw [heq] at hr
      obtain hr | hr := List.mem_append.mp hr
      · exact hb.reads hr
      · cases List.mem_singleton.mp hr
  · have hbound (e : Entry) (f : Counter) : bound l s' e f = bound l s e f :=
      heq ▸ bound_append rfl
    refine ⟨hb.wf.step hs, fun c f => ?_, fun {r' turn u level c f read} hr => ?_⟩
    · rw [hbound, heq]
      exact hb.stats c f
    · rw [hbound]
      rw [heq] at hr
      obtain hr | hr := List.mem_append.mp hr
      · exact hb.reads hr
      · cases List.mem_singleton.mp hr
  · cases a with
    | record r pc => exact hb.record_step hl ha hs heq
    | remove k pc =>
        have hbound (e : Entry) (f : Counter) : bound l s' e f = bound l s e f := by
          rw [heq]
          exact (bound_set ha _).trans (by simp [Activity.step, Activity.earned])
        have hstats : s'.heap.stats = s.heap.stats := by
          rw [heq]
          cases pc <;> rfl
        refine ⟨hb.wf.step hs, fun c f => ?_, fun {r' turn u level c f read} hr => ?_⟩
        · rw [hbound, hstats]
          exact hb.stats c f
        · rw [hbound]
          rw [heq] at hr
          obtain hr | hr := List.mem_or_eq_of_mem_set hr
          · exact hb.reads hr
          · cases hr

/-! ## results -/

/-- The ledger after all calls that have begun, each made in one step. -/
def recorded (l : SimpleActivityLedger) (s : LedgerThreads) : SimpleActivityLedger :=
  s.records.foldl (fun l r => r.record l) l

theorem shown_foldl (rs : List RecordCall) (l : SimpleActivityLedger) (e : Entry) :
    ((rs.foldl (fun l r => r.record l) l).shown e) = l.shown e + (rs.map (·.credit e)).sum := by
  induction rs generalizing l with
  | nil => simp
  | cons r rs ih =>
      rw [List.foldl_cons, ih, RecordCall.shown_record, List.map_cons, List.sum_cons, add_assoc]

/-- What a call adds in all. -/
def Activity.credit : Activity → Entry → CallStats
  | .record r _, e => r.credit e
  | .remove _ _, _ => 0

theorem get_sum (cs : List CallStats) (f : Counter) :
    cs.sum.get f = (cs.map fun c => c.get f).sum := by
  induction cs with
  | nil => simp
  | cons c cs ih => rw [List.sum_cons, CallStats.get_add, ih, List.map_cons, List.sum_cons]

theorem shown_recorded (l : SimpleActivityLedger) (s : LedgerThreads) (e : Entry) (f : Counter) :
    ((recorded l s).shown e).get f =
      (l.shown e).get f + (s.activities.map fun a => (a.credit e).get f).sum := by
  rw [recorded, shown_foldl, CallStats.get_add, get_sum, List.map_map, records]
  congr 1
  induction s.activities with
  | nil => rfl
  | cons a as ih =>
      cases a with
      | record r pc =>
          have hrec : (Activity.record r pc).record? = some r := rfl
          rw [List.filterMap_cons_some hrec, List.map_cons, List.sum_cons, List.map_cons,
            List.sum_cons, ih]
          rfl
      | remove k pc =>
          have hrec : (Activity.remove k pc).record? = none := rfl
          rw [List.filterMap_cons_none hrec, ih, List.map_cons, List.sum_cons]
          simp [Activity.credit]

theorem Activity.earned_le_credit (a : Activity) (e : Entry) (f : Counter) :
    a.earned e f ≤ (a.credit e).get f := by
  cases a with
  | remove => exact Int.le_of_eq (CallStats.get_zero f).symm
  | record r pc =>
      simp only [earned, credit, RecordCall.credit]
      by_cases hw : r.Writes e
      · rw [if_pos hw]
        split
        · exact Int.le_refl _
        · exact RecordCall.amount_nonneg f
      · simp [hw]

theorem bound_le_recorded (l : SimpleActivityLedger) (s : LedgerThreads) (e : Entry)
    (f : Counter) : bound l s e f ≤ ((recorded l s).shown e).get f := by
  rw [shown_recorded, bound]
  have hsum := List.sum_le_sum (l := s.activities) (fun a _ => a.earned_le_credit e f)
  omega

/-- The counters of a path are counters of what the path stands for. -/
theorem Wf.shown_cases (hw : s.Wf) (e : Entry) :
    s.heap.ledger.shown e = 0 ∨
      ∃ c, c.entry = e ∧ s.heap.ledger.shown e = s.heap.stats c := by
  rw [LedgerHeap.shown_ledger]
  cases hpath : (s.heap.summaryRef? e.scope).bind fun a =>
      s.heap.statsIn a e.userApiKey e.method with
  | none => exact Or.inl rfl
  | some c =>
      refine Or.inr ⟨c, ?_, rfl⟩
      obtain ⟨a, ha, hin⟩ := Option.bind_eq_some_iff.mp hpath
      obtain ⟨u, hu, hc⟩ := Option.bind_eq_some_iff.mp hin
      have hscope : a.scope = e.scope := by
        cases hσ : e.scope with
        | day key => exact hw.placed.day (by rwa [hσ] at ha)
        | allTime =>
            rw [hσ] at ha
            cases ha
            rfl
      obtain ⟨huscope, hukey, -⟩ := hw.placed.user hu
      obtain ⟨σ, k, method⟩ := e
      cases method with
      | none =>
          cases hc
          rw [StatsRef.entry, huscope, hukey, hscope]
      | some m => rw [hw.placed.method hc, huscope, hukey, hscope]

end LedgerThreads

/-- The counters of the objects are those of the ledger; other objects have none. -/
theorem SimpleActivityLedger.stats_heap (l : SimpleActivityLedger)
    (hl : ∀ e f, 0 ≤ (l.shown e).get f) (c : StatsRef) (f : Counter) :
    (l.heap.stats c).get f ≤ (l.shown c.entry).get f := by
  have hnonneg := hl c.entry f
  cases c with
  | total u =>
      simp only [heap]
      split
      · exact Int.le_refl _
      · rwa [CallStats.get_empty]
  | method σ k m n =>
      simp only [heap]
      split
      · exact Int.le_refl _
      · rwa [CallStats.get_empty]

namespace LedgerThreads

/-- **No overcount**: however the calls of the ledger interleave, no counter of a user, for a
method or in total, on a day or for all time, shows more than it would if the recordings begun
so far had been made one after the other; and no recording raises a `KeyError`. -/
theorem never_overcounts (l : SimpleActivityLedger) (hl : ∀ e f, 0 ≤ (l.shown e).get f)
    {s : LedgerThreads} {evs : List Event} (hrun : run step l.threads evs = some s) :
    (∀ e f, (s.heap.ledger.shown e).get f ≤ ((recorded l s).shown e).get f) ∧
      ∀ r, Activity.record r .raised ∉ s.activities := by
  have hinit : Bounded l l.threads := by
    exact ⟨l.wf_threads, fun c f => (l.stats_heap hl c f).trans_eq (add_zero _).symm,
      fun hr => by cases hr⟩
  have hb : Bounded l s := run_invariant step (fun _ _ _ h hs => h.step hl hs) hinit hrun
  refine ⟨fun e f => ?_, fun r hr => hb.wf.held _ hr⟩
  refine le_trans ?_ (bound_le_recorded l s e f)
  obtain hzero | ⟨c, rfl, hc⟩ := hb.wf.shown_cases e
  · rw [hzero, CallStats.get_zero]
    exact bound_nonneg hl
  · rw [hc]
    exact hb.stats c f

theorem shown_empty (e : Entry) : ({} : SimpleActivityLedger).shown e = 0 := by
  obtain ⟨σ, k, method⟩ := e
  cases σ <;> cases method <;> rfl

/-- Two calls of one user that keep step with each other: one of them is lost, in every
counter. -/
theorem never_overcounts_inStep :
    let r : RecordCall := ⟨"2024-05-01", ⟨some "k", "m", 40⟩, 0, false⟩
    let total : Entry := ⟨.allTime, "k", none⟩
    ∃ s, run step ({} : SimpleActivityLedger).threads
        ([.record r, .record r] ++ (List.replicate 35 [.step 0, .step 1]).flatten) = some s ∧
      (s.heap.ledger.shown total).numCalls = 1 ∧ ((recorded {} s).shown total).numCalls = 2 ∧
        (∀ e f, (s.heap.ledger.shown e).get f ≤ ((recorded {} s).shown e).get f) ∧
          ∀ r, Activity.record r .raised ∉ s.activities := by
  intro r total
  have hshown : (run step ({} : SimpleActivityLedger).threads
      ([.record r, .record r] ++ (List.replicate 35 [.step 0, .step 1]).flatten)).map
        (fun s => ((s.heap.ledger.shown total).numCalls, ((recorded {} s).shown total).numCalls)) =
      some (1, 2) := by decide
  obtain ⟨s, hrun, hpair⟩ := Option.map_eq_some_iff.mp hshown
  obtain ⟨hone, htwo⟩ := Prod.mk.inj hpair
  refine ⟨s, hrun, hone, htwo, ?_⟩
  exact never_overcounts {} (fun e f => by rw [shown_empty, CallStats.get_zero]) hrun

end LedgerThreads

end Web3Proxy
