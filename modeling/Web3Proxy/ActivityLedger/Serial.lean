import Web3Proxy.ActivityLedger.Races

/-!
# Web3Proxy.ActivityLedger.Serial

When the counters of a user are exact although the ledger has no locks: while the
recordings of that user do not overlap each other.  The calls of other users may
interleave with them at will.

* `LedgerHeap.Same` — the part of the objects that one user's counters live in, and the
  steps that leave it alone;
* `exact_when_alone` — between the recordings of a user its counters are the sums of what was
  recorded, for all time and on each day that the ledger had a summary for.
-/

namespace Web3Proxy

open Py Trans LedgerThreads

/-! ## the objects of one user -/

namespace LedgerHeap

variable {h h' : LedgerHeap} {a : SummaryRef} {k : String}

/-- What a summary shows for a user is the same. -/
structure Same (a : SummaryRef) (k : String) (h h' : LedgerHeap) : Prop where
  user : (h'.userSummaries a).get? k = (h.userSummaries a).get? k
  method : ∀ {u}, (h.userSummaries a).get? k = some u → h'.methodStats u = h.methodStats u
  stats : ∀ {method c}, h.statsIn a k method = some c → h'.stats c = h.stats c

theorem Same.refl (a : SummaryRef) (k : String) (h : LedgerHeap) : Same a k h h :=
  ⟨rfl, fun _ => rfl, fun _ => rfl⟩

theorem Same.statsIn (hs : Same a k h h') (method : Option String) :
    h'.statsIn a k method = h.statsIn a k method := by
  unfold LedgerHeap.statsIn
  rw [hs.user]
  cases hu : (h.userSummaries a).get? k with
  | none => rfl
  | some u =>
      cases method with
      | none => rfl
      | some m => simp only [Option.bind_some, statsRef?, hs.method hu]

/-- The counters of a user in a summary. -/
def valueIn (h : LedgerHeap) (a : SummaryRef) (k : String) (method : Option String) : CallStats :=
  (h.statsIn a k method).elim 0 h.stats

theorem Same.valueIn (hs : Same a k h h') (method : Option String) :
    h'.valueIn a k method = h.valueIn a k method := by
  unfold LedgerHeap.valueIn
  rw [hs.statsIn]
  cases hc : h.statsIn a k method with
  | none => rfl
  | some c => exact hs.stats hc

theorem shown_of_summaryRef? {σ : Scope} (ha : h.summaryRef? σ = some a) (method : Option String) :
    h.ledger.shown ⟨σ, k, method⟩ = h.valueIn a k method := by
  rw [shown_ledger]
  simp only [ha, Option.bind_some]
  rfl

/-- What the counters of a user in a summary are for. -/
theorem Placed.entry (hp : h.Placed) {method : Option String} {c : StatsRef}
    (hc : h.statsIn a k method = some c) : c.entry = ⟨a.scope, k, method⟩ := by
  obtain ⟨u, hu, hm⟩ := Option.bind_eq_some_iff.mp hc
  obtain ⟨hscope, hkey, -⟩ := hp.user hu
  cases method with
  | none =>
      cases hm
      rw [StatsRef.entry, hscope, hkey]
  | some m => rw [hp.method hm, hscope, hkey]

theorem same_createDay {key : DateKey} (ha : a.scope ≠ .day key) :
    Same a k h (h.createDay key) := by
  have hne : a ≠ ⟨.day key, h.next⟩ := fun heq => ha (congrArg SummaryRef.scope heq)
  refine ⟨?_, fun _ => rfl, fun _ => rfl⟩
  simp only [LedgerHeap.createDay, Function.update_of_ne hne]

theorem Placed.same_getOrCreateUas (hp : h.Placed) {b : SummaryRef} {j : String}
    (hne : k = j → a.scope ≠ b.scope) : Same a k h (h.getOrCreateUas b j).2 := by
  have hfresh {u : UasRef} (hu : (h.userSummaries a).get? k = some u) :
      u ≠ ⟨b.scope, j, h.next⟩ := fun heq => by
    obtain ⟨hscope, hkey, -⟩ := hp.user hu
    exact hne (hkey.symm.trans (congrArg UasRef.userApiKey heq))
      (hscope.symm.trans (congrArg UasRef.scope heq))
  refine ⟨?_, fun hu => ?_, fun {method c} hc => ?_⟩
  · simp only [LedgerHeap.getOrCreateUas, Function.update_apply]
    split
    · rename_i hab
      subst hab
      rw [Dict.get?_setDefault, if_neg fun hkj => hne hkj rfl]
    · rfl
  · exact Function.update_of_ne (hfresh hu) _ _
  · have hcne : c ≠ .total ⟨b.scope, j, h.next⟩ := fun heq => by
      have hentry := hp.entry hc
      rw [heq] at hentry
      obtain ⟨hscope, hkey, -⟩ := Entry.mk.inj hentry
      exact hne hkey.symm hscope.symm
    exact Function.update_of_ne hcne _ _

theorem Placed.same_createMethod (hp : h.Placed) {u : UasRef} (m : String)
    (hne : k = u.userApiKey → a.scope ≠ u.scope) : Same a k h (h.createMethod u m) := by
  refine ⟨rfl, fun {v} hv => ?_, fun {method c} hc => ?_⟩
  · have hvne : v ≠ u := fun heq => by
      obtain ⟨hscope, hkey, -⟩ := hp.user hv
      exact hne (hkey.symm.trans (congrArg UasRef.userApiKey heq))
        (hscope.symm.trans (congrArg UasRef.scope heq))
    exact Function.update_of_ne hvne _ _
  · have hcne : c ≠ .method u.scope u.userApiKey m h.next := fun heq => by
      have hentry := hp.entry hc
      rw [heq] at hentry
      obtain ⟨hscope, hkey, -⟩ := Entry.mk.inj hentry
      exact hne hkey.symm hscope.symm
    exact Function.update_of_ne hcne _ _

theorem Placed.same_write (hp : h.Placed) {c : StatsRef} (f : Counter) (v : Int)
    (hne : k = c.entry.userApiKey → a.scope ≠ c.entry.scope) : Same a k h (h.write c f v) := by
  refine ⟨rfl, fun _ => rfl, fun {method d} hd => ?_⟩
  have hdne : d ≠ c := fun heq => by
    have hentry := hp.entry hd
    rw [heq] at hentry
    exact hne (congrArg Entry.userApiKey hentry).symm (congrArg Entry.scope hentry).symm
  exact Function.update_of_ne hdne _ _

/-- Making sure that a user occurs shows nothing new. -/
theorem Placed.valueIn_getOrCreateUas (hp : h.Placed) (method : Option String) :
    (h.getOrCreateUas a k).2.valueIn a k method = h.valueIn a k method := by
  obtain ⟨hnew, hold | ⟨hnone, hfresh⟩⟩ := get?_getOrCreateUas (h := h) a k
  · have hne : (h.getOrCreateUas a k).1 ≠ ⟨a.scope, k, h.next⟩ := fun heq => by
      have hlt := (hp.user hold).2.2
      rw [heq] at hlt
      exact Nat.lt_irrefl _ hlt
    refine Same.valueIn ⟨hnew.trans hold.symm, fun hu => ?_, fun {method c} hc => ?_⟩ method
    · obtain rfl := Option.some.inj (hold.symm.trans hu)
      exact Function.update_of_ne hne _ _
    · refine Function.update_of_ne (fun heq => ?_) _ _
      obtain ⟨u, hu, hm⟩ := Option.bind_eq_some_iff.mp hc
      obtain rfl := Option.some.inj (hold.symm.trans hu)
      cases method with
      | none => exact hne (StatsRef.total.inj ((Option.some.inj hm).trans heq))
      | some m =>
          have hentry := hp.method hm
          rw [heq] at hentry
          exact nomatch (Entry.mk.inj hentry).2.2
  · unfold valueIn statsIn
    rw [hnew, hnone, hfresh]
    cases method with
    | none => exact congrArg (fun stats => stats) (Function.update_self _ _ _)
    | some m =>
        have hempty : (h.getOrCreateUas a k).2.methodStats ⟨a.scope, k, h.next⟩ = .empty :=
          Function.update_self _ _ _
        simp only [Option.bind_some, Option.bind_none, statsRef?, hempty]
        rfl

/-- A new method shows nothing new. -/
theorem Placed.valueIn_createMethod (hp : h.Placed) {u : UasRef} {m : String}
    (hu : (h.userSummaries a).get? k = some u) (hm : (h.methodStats u).get? m = none)
    (method : Option String) :
    (h.createMethod u m).valueIn a k method = h.valueIn a k method := by
  have huser : ((h.createMethod u m).userSummaries a).get? k = some u := hu
  have hmethods : (h.createMethod u m).methodStats u =
      (h.methodStats u).set m (.method u.scope u.userApiKey m h.next) :=
    Function.update_self _ _ _
  unfold valueIn statsIn
  rw [hu, huser, Option.bind_some, Option.bind_some]
  cases method with
  | none =>
      have hne : StatsRef.total u ≠ .method u.scope u.userApiKey m h.next := fun heq => nomatch heq
      exact Function.update_of_ne hne ({} : CallStats) h.stats
  | some n =>
      simp only [statsRef?, hmethods, Dict.get?_set]
      by_cases hn : n = m
      · rw [if_pos hn, hn, hm]
        exact Function.update_self _ _ _
      · rw [if_neg hn]
        cases hc : (h.methodStats u).get? n with
        | none => rfl
        | some c =>
            refine Function.update_of_ne (fun heq => ?_) _ _
            have hentry := hp.method hc
            rw [heq] at hentry
            exact hn (Option.some.inj (Entry.mk.inj hentry).2.2).symm

/-- A write shows where its counters are. -/
theorem Placed.valueIn_write (hp : h.Placed) {c : StatsRef} {at_ : Option String}
    (hc : h.statsIn a k at_ = some c) (g : Counter) (v : Int) (method : Option String)
    (f : Counter) : ((h.write c g v).valueIn a k method).get f =
      if method = at_ ∧ f = g then v else (h.valueIn a k method).get f := by
  have hpath : (h.write c g v).statsIn a k method = h.statsIn a k method := rfl
  unfold valueIn
  rw [hpath]
  by_cases hmethod : method = at_
  · rw [hmethod, hc]
    show (Function.update h.stats c _ c).get f = _
    rw [Function.update_self, CallStats.get_put]
    simp
  · rw [if_neg fun h => hmethod h.1]
    cases hd : h.statsIn a k method with
    | none => rfl
    | some d =>
        have hne : d ≠ c := fun heq => by
          have hentry := hp.entry hd
          rw [heq, hp.entry hc] at hentry
          exact hmethod (Entry.mk.inj hentry).2.2.symm
        show (Function.update h.stats c _ d).get f = _
        rw [Function.update_of_ne hne]
        rfl

theorem same_popUser {b : SummaryRef} {j : String} (hne : k ≠ j) :
    Same a k h (h.popUser b j) := by
  refine ⟨?_, fun _ => rfl, fun _ => rfl⟩
  simp only [popUser, Function.update_apply]
  split
  · rename_i hab
    subst hab
    rw [Dict.get?_erase, if_neg hne]
  · rfl

end LedgerHeap

namespace LedgerThreads

variable {r : RecordCall} {h h' : LedgerHeap} {pc : RecordPc} {k : String} {σ : Scope}
  {a : SummaryRef}

/-- The update that a recording is in. -/
def RecordPc.turn? : RecordPc → Option Turn
  | .getOrCreateUas turn _ | .checkMethod turn _ | .createMethod turn _ | .readMethod turn _
  | .load turn _ _ _ _ | .store turn _ _ _ _ _ => some turn
  | .checkDay | .createDay | .readDay | .done | .raised => none

/-- The recording does not work on the counters that a user has in a summary. -/
structure RecordPc.Away (r : RecordCall) (k : String) (σ : Scope) (pc : RecordPc) : Prop where
  user : r.userApiKey? = some k → ∀ {turn}, pc.turn? = some turn → σ ≠ r.scope turn
  day : pc = .createDay → σ ≠ .day r.key

/-- **Frame**: a recording that works elsewhere leaves the counters of a user alone. -/
theorem RecordPc.Away.same (haway : pc.Away r k σ) (hp : h.Placed) (hh : pc.Held r h)
    (ha : a.scope = σ) : LedgerHeap.Same a k h (r.step h pc).1 := by
  have howns {turn : Turn} {u : UasRef} (hturn : pc.turn? = some turn) (hu : r.Owns h turn u)
      (hk : k = u.userApiKey) : a.scope ≠ u.scope := by
    rw [ha, hu.scope]
    exact haway.user (hk ▸ hu.key) hturn
  cases pc with
  | createDay => exact LedgerHeap.same_createDay (ha ▸ haway.day rfl)
  | getOrCreateUas turn b =>
      refine hp.same_getOrCreateUas fun hk => ?_
      obtain ⟨hsome, hscope⟩ := hh
      obtain ⟨j, hj⟩ := Option.isSome_iff_exists.mp hsome
      rw [hj, Option.getD_some] at hk
      rw [ha, hscope]
      exact haway.user (hk ▸ hj) rfl
  | createMethod turn u => exact hp.same_createMethod r.request.method (howns rfl hh)
  | store turn u level c f read =>
      refine hp.same_write f _ fun hk => ?_
      rw [hh.2] at hk ⊢
      have hkey : k = u.userApiKey := by
        rw [hk]
        show r.userApiKey?.getD "" = u.userApiKey
        rw [hh.1.key, Option.getD_some]
      have hscope := howns rfl hh.1 hkey
      rwa [hh.1.scope] at hscope
  | checkDay | readDay | checkMethod | readMethod | load | done | raised =>
      exact .refl a k h

theorem summaryRef?_step (pc : RecordPc) (hday : pc = .createDay → σ ≠ .day r.key) :
    (r.step h pc).1.summaryRef? σ = h.summaryRef? σ := by
  cases σ with
  | allTime => rfl
  | day key =>
      cases pc with
      | createDay =>
          have hne : key ≠ r.key := fun heq => hday rfl (congrArg Scope.day heq)
          exact Dict.get?_set_ne hne
      | checkDay | readDay | getOrCreateUas | checkMethod | createMethod | readMethod | load
      | store | done | raised => rfl

theorem summaryRef?_removeStep (j : String) (pc : RemovePc) :
    (removeStep j h pc).1.summaryRef? σ = h.summaryRef? σ := by
  cases σ <;> cases pc <;> rfl

theorem same_removeStep {j : String} (hne : k ≠ j) (pc : RemovePc) :
    LedgerHeap.Same a k h (removeStep j h pc).1 := by
  cases pc with
  | popAllTime => exact LedgerHeap.same_popUser hne
  | popDay => exact LedgerHeap.same_popUser hne
  | iter | next | done | raised => exact .refl a k h

/-! ## the recording under way -/

/-- While no other recording of the user is under way, what a recording holds on to is what
the summary has. -/
def RecordPc.Tied (r : RecordCall) (h : LedgerHeap) (σ : Scope) (a : SummaryRef) (k : String) :
    RecordPc → Prop
  | .getOrCreateUas turn b => σ = r.scope turn → b = a
  | .checkMethod turn u | .readMethod turn u =>
      σ = r.scope turn → (h.userSummaries a).get? k = some u
  | .createMethod turn u =>
      σ = r.scope turn → (h.userSummaries a).get? k = some u ∧
        (h.methodStats u).get? r.request.method = none
  | .load turn u level c _ =>
      σ = r.scope turn → (h.userSummaries a).get? k = some u ∧
        h.statsIn a k (r.entry turn level).method = some c
  | .store turn u level c f read =>
      σ = r.scope turn → (h.userSummaries a).get? k = some u ∧
        h.statsIn a k (r.entry turn level).method = some c ∧ read = (h.stats c).get f
  | .checkDay | .createDay | .readDay | .done | .raised => True

theorem RecordPc.Tied.same (ht : pc.Tied r h σ a k) (hs : LedgerHeap.Same a k h h') :
    pc.Tied r h' σ a k := by
  cases pc with
  | checkDay | createDay | readDay | done | raised | getOrCreateUas => exact ht
  | checkMethod | readMethod => exact fun hσ => hs.user.trans (ht hσ)
  | createMethod turn u =>
      intro hσ
      obtain ⟨hu, hm⟩ := ht hσ
      exact ⟨hs.user.trans hu, by rw [hs.method hu, hm]⟩
  | load turn u level c f =>
      intro hσ
      obtain ⟨hu, hc⟩ := ht hσ
      exact ⟨hs.user.trans hu, (hs.statsIn _).trans hc⟩
  | store turn u level c f read =>
      intro hσ
      obtain ⟨hu, hc, hread⟩ := ht hσ
      exact ⟨hs.user.trans hu, (hs.statsIn _).trans hc, by rw [hs.stats hc, hread]⟩

/-- The summary that an update starts on is the one that is there. -/
theorem tied_update {turn : Turn} {b : SummaryRef} (hb : h.summaryRef? (r.scope turn) = some b)
    (ha : h.summaryRef? σ = some a) (h' : LedgerHeap) : (r.update turn b).Tied r h' σ a k := by
  unfold RecordCall.update
  split
  · rintro rfl
    exact Option.some.inj (hb.symm.trans ha)
  · exact trivial

/-- **A step of the only recording of a user**: what it holds on to next is what the summary
has. -/
theorem RecordPc.Tied.step (ht : pc.Tied r h σ a k) (hh : pc.Held r h)
    (hkey : r.userApiKey? = some k) (ha : h.summaryRef? σ = some a) :
    (r.step h pc).2.Tied r (r.step h pc).1 σ a k := by
  cases pc with
  | checkDay =>
      simp only [RecordCall.step]
      split <;> exact trivial
  | createDay => exact trivial
  | readDay =>
      obtain ⟨b, hb⟩ := Option.isSome_iff_exists.mp hh
      have hsample : h.summaryRef? (r.scope .sample) = some b := hb
      simp only [RecordCall.step, hb]
      exact tied_update hsample ha h
  | getOrCreateUas turn b =>
      intro hσ
      obtain rfl := ht hσ
      show ((h.getOrCreateUas b (r.userApiKey?.getD "")).2.userSummaries b).get? k =
        some (h.getOrCreateUas b (r.userApiKey?.getD "")).1
      rw [hkey, Option.getD_some]
      exact (LedgerHeap.get?_getOrCreateUas b k).1
  | checkMethod turn u =>
      simp only [RecordCall.step]
      split
      · exact ht
      · rename_i hno
        exact fun hσ => ⟨ht hσ, Option.not_isSome_iff_eq_none.mp hno⟩
  | createMethod turn u => exact fun hσ => (ht hσ).1
  | readMethod turn u =>
      obtain ⟨c, hc⟩ := Option.isSome_iff_exists.mp hh.2
      simp only [RecordCall.step, hc]
      refine fun hσ => ⟨ht hσ, ?_⟩
      unfold LedgerHeap.statsIn
      rw [ht hσ]
      exact hc
  | load turn u level c f => exact fun hσ => ⟨(ht hσ).1, (ht hσ).2, rfl⟩
  | store turn u level c f read =>
      have hpath (hσ : σ = r.scope turn) : (h.userSummaries a).get? k = some u ∧
          h.statsIn a k (r.entry turn level).method = some c :=
        ⟨(ht hσ).1, (ht hσ).2.1⟩
      cases f with
      | requestBytes | responseBytes => exact hpath
      | numCalls =>
          cases level with
          | method =>
              refine fun hσ => ⟨(hpath hσ).1, ?_⟩
              show ((h.userSummaries a).get? k).bind (fun u => some (StatsRef.total u)) = _
              rw [(hpath hσ).1, Option.bind_some]
          | total =>
              cases turn with
              | sample => exact tied_update rfl ha _
              | allTime => exact trivial
  | done => exact trivial
  | raised => exact hh.elim

/-- **What a step shows**: the counters of a user in a summary grow by what the step adds, if the
recording is the only one of the user. -/
theorem valueIn_step (ht : pc.Tied r h σ a k) (hp : h.Placed) (hh : pc.Held r h)
    (ha : a.scope = σ) (hkey : r.userApiKey? = some k) {turn : Turn} (hturn : pc.turn? = some turn)
    (hσ : σ = r.scope turn) (method : Option String) (f : Counter) :
    ((r.step h pc).1.valueIn a k method).get f =
      (h.valueIn a k method).get f + pc.adds r ⟨σ, k, method⟩ f := by
  cases pc with
  | checkDay | createDay | readDay | done | raised => cases hturn
  | checkMethod | readMethod | load => exact (add_zero _).symm
  | getOrCreateUas turn b =>
      cases hturn
      obtain rfl := ht hσ
      show ((h.getOrCreateUas b (r.userApiKey?.getD "")).2.valueIn b k method).get f = _ + 0
      rw [hkey, Option.getD_some, hp.valueIn_getOrCreateUas, add_zero]
  | createMethod turn u =>
      cases hturn
      obtain ⟨hu, hm⟩ := ht hσ
      show ((h.createMethod u r.request.method).valueIn a k method).get f = _ + 0
      rw [hp.valueIn_createMethod hu hm, add_zero]
  | store turn u level c g read =>
      cases hturn
      obtain ⟨-, hc, hread⟩ := ht hσ
      show ((h.write c g (read + r.amount.get g)).valueIn a k method).get f =
        _ + if (⟨σ, k, method⟩ : Entry) = c.entry ∧ f = g then r.amount.get f else 0
      rw [hp.valueIn_write hc, hp.entry hc, ha]
      simp only [Entry.mk.injEq, true_and]
      by_cases heq : method = (r.entry turn level).method ∧ f = g
      · obtain ⟨rfl, rfl⟩ := heq
        have hvalue : h.valueIn a k (r.entry turn level).method = h.stats c := by
          rw [LedgerHeap.valueIn, hc]
          rfl
        simp only [and_self, if_true, hvalue, hread]
      · rw [if_neg heq, if_neg heq, add_zero]

/-! ## runs -/

/-- A recording of the user. -/
def Activity.isOf (k : String) : Activity → Bool
  | .record r _ => r.userApiKey? = some k
  | .remove _ _ => false

/-- A recording of the user is under way. -/
def busy (k : String) (s : LedgerThreads) : Bool := s.activities.any fun a => a.isOf k && !a.isOver

/-- The user's recordings do not overlap each other, and the user is not removed. -/
def Alone (k : String) (s : LedgerThreads) : Event → Prop
  | .record r => r.userApiKey? = some k → s.busy k = false
  | .remove j => j ≠ k
  | .step _ => True

instance (k : String) (s : LedgerThreads) (ev : Event) : Decidable (Alone k s ev) := by
  cases ev <;> unfold Alone <;> infer_instance

variable {l : SimpleActivityLedger} {s s' : LedgerThreads} {ev : Event}

/-- The counters of a user in the summary `a` are exact. -/
structure Exact (l : SimpleActivityLedger) (k : String) (σ : Scope) (a : SummaryRef)
    (s : LedgerThreads) : Prop where
  wf : s.Wf
  ref : s.heap.summaryRef? σ = some a
  /-- No thread is about to replace the summary. -/
  day : ∀ {r}, Activity.record r .createDay ∈ s.activities → σ ≠ .day r.key
  others : ∀ {j pc}, Activity.remove j pc ∈ s.activities → k ≠ j
  tied : ∀ {r pc}, Activity.record r pc ∈ s.activities → r.userApiKey? = some k →
    pc.Tied r s.heap σ a k
  alone : ∀ {i j : Nat} {b c : Activity}, s.activities[i]? = some b → s.activities[j]? = some c →
    b.isOf k → c.isOf k → b.isOver = false → c.isOver = false → i = j
  value : ∀ method f, (s.heap.valueIn a k method).get f = bound l s ⟨σ, k, method⟩ f

theorem Exact.scope (he : Exact l k σ a s) : a.scope = σ := by
  have href := he.ref
  cases σ with
  | day key => exact he.wf.placed.day href
  | allTime =>
      cases href
      rfl

/-- A recording that is over holds on to nothing. -/
theorem tied_of_isOver {r : RecordCall} {pc : RecordPc}
    (hover : (Activity.record r pc).isOver = true) : pc.Tied r h σ a k := by
  cases pc with
  | done | raised => exact trivial
  | checkDay | createDay | readDay | getOrCreateUas | checkMethod | createMethod | readMethod
  | load | store => cases hover

theorem not_createDay_of_step {r : RecordCall} {pc : RecordPc} (href : h.summaryRef? σ = some a)
    (hpc : (r.step h pc).2 = .createDay) : σ ≠ .day r.key := by
  cases pc with
  | checkDay =>
      rintro rfl
      have hcontains : h.dailyUsage.contains r.key = true :=
        Option.isSome_iff_exists.mpr ⟨a, href⟩
      simp [RecordCall.step, hcontains] at hpc
  | checkMethod | readDay | readMethod =>
      simp only [RecordCall.step] at hpc
      split at hpc
      all_goals first
        | cases hpc
        | (unfold RecordCall.update at hpc; split at hpc <;> cases hpc)
  | store turn u level c f read =>
      cases f <;> cases level <;> cases turn <;> first
        | cases hpc
        | (simp only [RecordCall.step, RecordCall.afterStore, RecordCall.afterUpdate,
            RecordCall.update] at hpc
           split at hpc <;> cases hpc)
  | createDay | getOrCreateUas | createMethod | load | done | raised => cases hpc

/-- A call begins. -/
theorem Exact.begin (he : Exact l k σ a s) {b : Activity} (hwf : (⟨s.heap, s.activities ++ [b]⟩ :
    LedgerThreads).Wf) (hearned : ∀ e f, b.earned e f = 0)
    (hrecord : ∀ r pc, b = .record r pc → pc = .checkDay)
    (hremove : ∀ j pc, b = .remove j pc → k ≠ j) (hbusy : b.isOf k → s.busy k = false) :
    Exact l k σ a ⟨s.heap, s.activities ++ [b]⟩ where
  wf := hwf
  ref := he.ref
  day := fun {r} hr => by
    obtain hr | hr := List.mem_append.mp hr
    · exact he.day hr
    · exact nomatch hrecord r _ (List.mem_singleton.mp hr).symm
  others := fun {j pc} hr => by
    obtain hr | hr := List.mem_append.mp hr
    · exact he.others hr
    · exact hremove j pc (List.mem_singleton.mp hr).symm
  tied := fun {r pc} hr hkey => by
    obtain hr | hr := List.mem_append.mp hr
    · exact he.tied hr hkey
    · rw [hrecord r pc (List.mem_singleton.mp hr).symm]
      exact trivial
  alone := by
    have hidle (hb : b.isOf k) {i : Nat} {c : Activity} (hc : s.activities[i]? = some c)
        (hof : c.isOf k) : c.isOver = true := by
      have hall := List.any_eq_false.mp (hbusy hb) c (List.mem_of_getElem? hc)
      simpa [hof] using hall
    intro i j c d hc hd hcof hdof hcover hdover
    obtain hc' | ⟨hi, rfl⟩ := joined_cases hc <;> obtain hd' | ⟨hj, rfl⟩ := joined_cases hd
    · exact he.alone hc' hd' hcof hdof hcover hdover
    · rw [hidle hdof hc' hcof] at hcover
      cases hcover
    · rw [hidle hcof hd' hdof] at hdover
      cases hdover
    · rw [hi, hj]
  value := fun method f => by
    rw [bound_append (hearned _ f)]
    exact he.value method f

/-- When a recording goes on, the bound grows by what its step adds. -/
theorem Wf.bound_record (hw : s.Wf) {i : Nat} {r : RecordCall} {pc : RecordPc}
    (ha : s.activities[i]? = some (.record r pc)) (heap : LedgerHeap) (e : Entry) (f : Counter) :
    bound l ⟨heap, s.activities.set i (.record r (r.step s.heap pc).2)⟩ e f =
      bound l s e f + pc.adds r e f := by
  rw [bound_set ha, earned_step (hw.held _ (List.mem_of_getElem? ha))]
  omega

/-- A step of a recording, on the counters of a user: those of the recording's own user grow by what
the step adds, and nothing is added to those of others. -/
theorem Exact.valueIn_record (he : Exact l k σ a s) {r : RecordCall} {pc : RecordPc}
    (hr : Activity.record r pc ∈ s.activities) (method : Option String) (f : Counter) :
    ((r.step s.heap pc).1.valueIn a k method).get f =
      (s.heap.valueIn a k method).get f + pc.adds r ⟨σ, k, method⟩ f := by
  have hheld : pc.Held r s.heap := he.wf.held _ hr
  by_cases hown : r.userApiKey? = some k ∧ ∃ turn, pc.turn? = some turn ∧ σ = r.scope turn
  · obtain ⟨hkey, turn, hturn, hσ⟩ := hown
    exact valueIn_step (he.tied hr hkey) he.wf.placed hheld he.scope hkey hturn hσ method f
  · have haway : pc.Away r k σ :=
      ⟨fun hkey turn hturn hσ => hown ⟨hkey, turn, hturn, hσ⟩, fun hpc => he.day (hpc ▸ hr)⟩
    have hadds : pc.adds r ⟨σ, k, method⟩ f = 0 := by
      unfold RecordPc.adds
      split
      · rename_i turn u level c g read _ _
        refine if_neg fun ⟨hentry, _⟩ => ?_
        obtain ⟨hscope, huser, -⟩ := Entry.mk.inj (hentry.trans hheld.2)
        have hkey : r.userApiKey? = some k := by
          rw [hheld.1.key, Option.getD_some] at huser
          rw [hheld.1.key, huser]
        exact haway.user hkey rfl hscope
      · rfl
    rw [(haway.same he.wf.placed hheld he.scope).valueIn, hadds, add_zero]

/-- A recording goes on. -/
theorem Exact.record_step (he : Exact l k σ a s) {i : Nat} {r : RecordCall} {pc : RecordPc}
    (hi : s.activities[i]? = some (.record r pc)) (hover : (Activity.record r pc).isOver = false)
    (hwf : (⟨(r.step s.heap pc).1, s.activities.set i (.record r (r.step s.heap pc).2)⟩ :
      LedgerThreads).Wf) :
    Exact l k σ a ⟨(r.step s.heap pc).1, s.activities.set i (.record r (r.step s.heap pc).2)⟩ := by
  have hr := List.mem_of_getElem? hi
  have hheld : pc.Held r s.heap := he.wf.held _ hr
  refine ⟨hwf, ?_, fun {r'} hr' => ?_, fun {j pc'} hj => ?_, fun {r' pc'} hr' hkey => ?_, ?_,
    fun method f => ?_⟩
  · exact (summaryRef?_step pc fun hpc => he.day (hpc ▸ hr)).trans he.ref
  · obtain hr' | hr' := List.mem_or_eq_of_mem_set hr'
    · exact he.day hr'
    · obtain ⟨rfl, hpc⟩ := Activity.record.inj hr'
      exact not_createDay_of_step he.ref hpc.symm
  · obtain hj | hj := List.mem_or_eq_of_mem_set hj
    · exact he.others hj
    · cases hj
  · obtain ⟨j, hj⟩ := List.mem_iff_getElem?.mp hr'
    obtain ⟨rfl, hnew⟩ | ⟨hne, hold⟩ := moved_cases hj
    · obtain ⟨rfl, rfl⟩ := Activity.record.inj hnew
      exact (he.tied hr hkey).step hheld hkey he.ref
    · by_cases hrk : r.userApiKey? = some k
      · have hdone : (Activity.record r' pc').isOver = true := by
          by_contra hrunning
          exact hne (he.alone hold hi (by simpa [Activity.isOf] using hkey)
            (by simpa [Activity.isOf] using hrk) (by simpa using hrunning) hover)
        exact tied_of_isOver hdone
      · have haway : pc.Away r k σ :=
          ⟨fun hk => absurd hk hrk, fun hpc => he.day (hpc ▸ hr)⟩
        exact (he.tied (List.mem_of_getElem? hold) hkey).same
          (haway.same he.wf.placed hheld he.scope)
  · have hold {j : Nat} {c : Activity} (hof : c.isOf k = true) (hcover : c.isOver = false)
        (hc : (s.activities.set i (.record r (r.step s.heap pc).2))[j]? = some c) :
        ∃ c', s.activities[j]? = some c' ∧ c'.isOf k = true ∧ c'.isOver = false := by
      obtain ⟨rfl, rfl⟩ | ⟨-, hold⟩ := moved_cases hc
      · exact ⟨_, hi, hof, hover⟩
      · exact ⟨c, hold, hof, hcover⟩
    intro p q b c hb hc hbof hcof hbover hcover
    obtain ⟨b', hb', hbof', hbover'⟩ := hold hbof hbover hb
    obtain ⟨c', hc', hcof', hcover'⟩ := hold hcof hcover hc
    exact he.alone hb' hc' hbof' hcof' hbover' hcover'
  · rw [he.wf.bound_record hi, he.valueIn_record hr, he.value]

/-- A removal of another user goes on. -/
theorem Exact.remove_step (he : Exact l k σ a s) {i : Nat} {j : String} {pc : RemovePc}
    (hi : s.activities[i]? = some (.remove j pc))
    (hwf : (⟨(removeStep j s.heap pc).1, s.activities.set i (.remove j (removeStep j s.heap pc).2)⟩ :
      LedgerThreads).Wf) :
    Exact l k σ a
      ⟨(removeStep j s.heap pc).1, s.activities.set i (.remove j (removeStep j s.heap pc).2)⟩ := by
  have hne := he.others (List.mem_of_getElem? hi)
  have hsame := same_removeStep (h := s.heap) (a := a) hne pc
  refine ⟨hwf, ?_, fun {r} hr => ?_, fun {j' pc'} hj => ?_, fun {r pc'} hr hkey => ?_, ?_,
    fun method f => ?_⟩
  · exact (summaryRef?_removeStep j pc).trans he.ref
  · obtain hr | hr := List.mem_or_eq_of_mem_set hr
    · exact he.day hr
    · cases hr
  · obtain hj | hj := List.mem_or_eq_of_mem_set hj
    · exact he.others hj
    · obtain ⟨rfl, -⟩ := Activity.remove.inj hj
      exact hne
  · obtain hr | hr := List.mem_or_eq_of_mem_set hr
    · exact (he.tied hr hkey).same hsame
    · cases hr
  · have hold {p : Nat} {c : Activity} (hof : c.isOf k = true)
        (hc : (s.activities.set i (.remove j (removeStep j s.heap pc).2))[p]? = some c) :
        s.activities[p]? = some c := by
      obtain ⟨rfl, rfl⟩ | ⟨-, hold⟩ := moved_cases hc
      · cases hof
      · exact hold
    intro p q b c hb hc hbof hcof
    exact he.alone (hold hbof hb) (hold hcof hc) hbof hcof
  · have hbound : bound l ⟨(removeStep j s.heap pc).1,
        s.activities.set i (.remove j (removeStep j s.heap pc).2)⟩ ⟨σ, k, method⟩ f =
          bound l s ⟨σ, k, method⟩ f := by
      rw [bound_set hi]
      simp [Activity.earned]
    rw [hbound, hsame.valueIn, he.value]

theorem Exact.step (he : Exact l k σ a s) (hg : Alone k s ev) (hs : s.step ev = some s') :
    Exact l k σ a s' := by
  have hwf := he.wf.step hs
  obtain ⟨r, rfl, rfl⟩ | ⟨j, rfl, rfl⟩ | ⟨i, b, rfl, hi, hover, rfl⟩ := step_cases hs
  · refine he.begin hwf (fun e f => earned_begin r) ?_ ?_ ?_
    · rintro _ _ ⟨⟩
      rfl
    · exact fun _ _ heq => nomatch heq
    · exact fun hof => hg (by simpa [Activity.isOf] using hof)
  · refine he.begin hwf (fun e f => rfl) ?_ ?_ ?_
    · exact fun _ _ heq => nomatch heq
    · rintro _ _ ⟨⟩
      exact Ne.symm hg
    · exact fun hof => nomatch hof
  · cases b with
    | record r pc => exact he.record_step hi hover hwf
    | remove j pc => exact he.remove_step hi hwf

/-! ## results -/

theorem exact_init (l : SimpleActivityLedger) (k : String) (hσ : (l.summaryAt σ).isSome) :
    Exact l k σ ⟨σ, 0⟩ l.threads := by
  have href : l.threads.heap.summaryRef? σ = some ⟨σ, 0⟩ := by
    cases σ with
    | allTime => rfl
    | day key =>
        obtain ⟨a, ha⟩ := Option.isSome_iff_exists.mp hσ
        have hget : l.dailyUsage.get? key = some a := ha
        show (l.dailyUsage.mapItems fun key _ => (⟨.day key, 0⟩ : SummaryRef)).get? key = _
        rw [Dict.get?_mapItems, hget]
        rfl
  have hvalue (method : Option String) (f : Counter) :
      (l.threads.heap.valueIn ⟨σ, 0⟩ k method).get f = bound l l.threads ⟨σ, k, method⟩ f := by
    rw [← LedgerHeap.shown_of_summaryRef? href]
    show (l.heap.ledger.shown _).get f = _
    rw [l.ledger_heap]
    exact (add_zero _).symm
  exact
    { wf := l.wf_threads
      ref := href
      day := fun hr => (List.not_mem_nil hr).elim
      others := fun hr => (List.not_mem_nil hr).elim
      tied := fun hr => (List.not_mem_nil hr).elim
      alone := fun {_ _ _ _} hb => by cases hb
      value := hvalue }

/-- Recordings that are over have added all of their credit. -/
theorem Exact.bound_eq (he : Exact l k σ a s) (hidle : s.busy k = false) (method : Option String)
    (f : Counter) :
    bound l s ⟨σ, k, method⟩ f = ((recorded l s).shown ⟨σ, k, method⟩).get f := by
  rw [shown_recorded, bound]
  congr 2
  refine List.map_congr_left fun b hb => ?_
  cases b with
  | remove j pc => exact (CallStats.get_zero f).symm
  | record r pc =>
      simp only [Activity.earned, Activity.credit, RecordCall.credit]
      by_cases hw : r.Writes ⟨σ, k, method⟩
      · have hkey : r.userApiKey? = some k := (RecordCall.writes_iff.mp hw).1
        have hover : (Activity.record r pc).isOver = true := by
          have hall := List.any_eq_false.mp hidle _ hb
          simpa [Activity.isOf, hkey] using hall
        have hheld : pc.Held r s.heap := he.wf.held _ hb
        cases pc with
        | done => rw [if_pos ⟨hw, slot_lt _ _ _⟩, if_pos hw]
        | raised => exact hheld.elim
        | checkDay | createDay | readDay | getOrCreateUas | checkMethod | createMethod
        | readMethod | load | store => cases hover
      · rw [if_neg fun h => hw h.1, if_neg hw, CallStats.get_zero]

theorem CallStats.ext_get {a b : CallStats} (h : ∀ f, a.get f = b.get f) : a = b := by
  have hreq := h .requestBytes
  have hresp := h .responseBytes
  have hcalls := h .numCalls
  cases a
  cases b
  simp only [CallStats.get] at hreq hresp hcalls
  rw [hreq, hresp, hcalls]

/-- **Exact when alone**: as long as the recordings of one user do not overlap each other and the
user is not removed, however they interleave with all other calls: whenever none of them is
under way, each of the user's counters for all time, and on each day that the ledger already
had a summary for, is what it would be if all recordings had been made one after the other. -/
theorem exact_when_alone (l : SimpleActivityLedger) (k : String) {σ : Scope}
    (hσ : (l.summaryAt σ).isSome) {s : LedgerThreads} {evs : List Event}
    (hrun : run step l.threads evs = some s) (halone : Guarded step (Alone k) l.threads evs)
    (hidle : s.busy k = false) (method : Option String) :
    s.heap.ledger.shown ⟨σ, k, method⟩ = (recorded l s).shown ⟨σ, k, method⟩ := by
  have he : Exact l k σ ⟨σ, 0⟩ s :=
    run_guarded step (fun _ _ _ h hg hs => h.step hg hs) (exact_init l k hσ) halone hrun
  refine CallStats.ext_get fun f => ?_
  rw [LedgerHeap.shown_of_summaryRef? he.ref, he.value, he.bound_eq hidle]

/-- Two users at once: the one with two calls loses one of them, the other none. -/
theorem exact_when_alone_twoUsers :
    let ofJ : RecordCall := ⟨"2024-05-01", ⟨some "j", "m", 40⟩, 0, false⟩
    let ofK : RecordCall := ⟨"2024-05-01", ⟨some "k", "m", 40⟩, 0, false⟩
    ∃ s, run step ({} : SimpleActivityLedger).threads ([.record ofJ, .record ofJ, .record ofK] ++
        (List.replicate 35 [.step 0, .step 1, .step 2]).flatten) = some s ∧
      (s.heap.ledger.shown ⟨.allTime, "j", none⟩).numCalls = 1 ∧
        ((recorded {} s).shown ⟨.allTime, "j", none⟩).numCalls = 2 ∧
          ∀ method, s.heap.ledger.shown ⟨.allTime, "k", method⟩ =
            (recorded {} s).shown ⟨.allTime, "k", method⟩ := by
  intro ofJ ofK
  have hshown : (run step ({} : SimpleActivityLedger).threads
      ([.record ofJ, .record ofJ, .record ofK] ++
        (List.replicate 35 [.step 0, .step 1, .step 2]).flatten)).map
        (fun s => ((s.heap.ledger.shown ⟨.allTime, "j", none⟩).numCalls,
          ((recorded {} s).shown ⟨.allTime, "j", none⟩).numCalls, s.busy "k")) =
      some (1, 2, false) := by decide +kernel
  obtain ⟨s, hrun, hpair⟩ := Option.map_eq_some_iff.mp hshown
  obtain ⟨hone, hpair⟩ := Prod.mk.inj hpair
  obtain ⟨htwo, hidle⟩ := Prod.mk.inj hpair
  exact ⟨s, hrun, hone, htwo,
    exact_when_alone {} "k" (σ := .allTime) rfl hrun (by decide +kernel) hidle⟩

end LedgerThreads

end Web3Proxy
