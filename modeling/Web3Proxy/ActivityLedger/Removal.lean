import Web3Proxy.ActivityLedger.Serial

/-!
# Web3Proxy.ActivityLedger.Removal

Removing a user from a ledger that other users' threads go on changing.  `remove_user` goes
through the days with an iterator, and a day that a recording adds in the meantime makes
the iterator raise a `RuntimeError`.

* `removal_outcome` — if it returns, nothing of the user is left, for all time or on any
  day; it returns exactly when no day has been added since it began to go through them;
  and if it raises, the summary for all time has no entry of the user any more.
-/

namespace Dict

variable {κ α : Type*} [DecidableEq κ] {d : Dict κ α} {k j : κ} {v w : α} {n : Nat}

theorem items_set : (d.set k v).items =
    if d.contains k then replaceItem k v d.items else d.items ++ [(k, v)] := rfl

/-- What an assignment leaves at a place that was taken: the key, with its value or the new
one. -/
theorem getElem?_items_set (h : d.items[n]? = some (j, w)) :
    (d.set k v).items[n]? = some (j, w) ∨ (d.set k v).items[n]? = some (j, v) := by
  obtain ⟨hn, -⟩ := List.getElem?_eq_some_iff.mp h
  rw [items_set]
  split
  · rw [replaceItem, List.getElem?_map, h]
    by_cases hj : j = k <;> simp [hj]
  · rw [List.getElem?_append_left hn]
    exact Or.inl h

/-- What is at a place after an assignment was there or is the new value. -/
theorem getElem?_items_of_set (h : (d.set k v).items[n]? = some (j, w)) :
    d.items[n]? = some (j, w) ∨ w = v := by
  rw [items_set] at h
  split at h
  · rw [replaceItem, List.getElem?_map] at h
    obtain ⟨e, he, heq⟩ := Option.map_eq_some_iff.mp h
    split at heq
    · exact Or.inr (Prod.mk.inj heq).2.symm
    · exact Or.inl (heq ▸ he)
  · rw [List.getElem?_append, List.getElem?_singleton] at h
    grind

theorem length_items_set_le : d.items.length ≤ (d.set k v).items.length := by
  rw [items_set]
  split
  · simp [replaceItem]
  · simp

end Dict

namespace Web3Proxy

open Py Trans LedgerThreads

namespace LedgerHeap

variable {h h' : LedgerHeap} {k : String} {a : SummaryRef}

/-- A summary has no entry of the user. -/
def Gone (h : LedgerHeap) (k : String) (a : SummaryRef) : Prop := (h.userSummaries a).get? k = none

/-- The first `n` days have no entry of the user. -/
def GoneBefore (h : LedgerHeap) (k : String) (n : Nat) : Prop :=
  ∀ (m : Nat) (key : DateKey) (a : SummaryRef), m < n → h.dailyUsage.items[m]? = some (key, a) → h.Gone k a

/-- What a step of others does as far as a removal is concerned: summaries without the user stay
so, and a day gets at most a new summary without the user. -/
structure Spares (k : String) (h h' : LedgerHeap) : Prop where
  gone : ∀ {a}, h.Gone k a → h'.Gone k a
  day : ∀ {n : Nat} {key : DateKey} {a : SummaryRef}, h.dailyUsage.items[n]? = some (key, a) →
    h'.dailyUsage.items[n]? = some (key, a) ∨
      ∃ b, h'.dailyUsage.items[n]? = some (key, b) ∧ h'.Gone k b
  before : ∀ {n : Nat} {key : DateKey} {b : SummaryRef}, h'.dailyUsage.items[n]? = some (key, b) →
    h.dailyUsage.items[n]? = some (key, b) ∨ h'.Gone k b
  length : h.dailyUsage.items.length ≤ h'.dailyUsage.items.length

theorem Spares.of_gone (hgone : ∀ {a}, h.Gone k a → h'.Gone k a)
    (hdaily : h'.dailyUsage = h.dailyUsage) : Spares k h h' where
  gone := hgone
  day := fun hn => Or.inl (hdaily ▸ hn)
  before := fun hn => Or.inl (hdaily ▸ hn)
  length := hdaily ▸ Nat.le_refl _

theorem Spares.goneBefore (hs : Spares k h h') {n : Nat} (hn : h.GoneBefore k n) :
    h'.GoneBefore k n := by
  intro m key b hm hget
  obtain hold | hgone := hs.before hget
  · exact hs.gone (hn m key b hm hold)
  · exact hgone

theorem spares_createDay (key : DateKey) : Spares k h (h.createDay key) := by
  have hnew : (h.createDay key).Gone k ⟨.day key, h.next⟩ := by
    show (Function.update h.userSummaries _ Dict.empty _).get? k = none
    rw [Function.update_self]
    rfl
  refine ⟨fun {a} ha => ?_, fun {n j a} hn => ?_, fun {n j b} hn => ?_,
    Dict.length_items_set_le⟩
  · show (Function.update h.userSummaries _ Dict.empty a).get? k = none
    rw [Function.update_apply]
    split
    · rfl
    · exact ha
  · obtain hold | hold := Dict.getElem?_items_set hn
    · exact Or.inl hold
    · exact Or.inr ⟨_, hold, hnew⟩
  · obtain hold | rfl := Dict.getElem?_items_of_set hn
    · exact Or.inl hold
    · exact Or.inr hnew

theorem gone_getOrCreateUas {b : SummaryRef} {j : String} (hne : k ≠ j) (ha : h.Gone k a) :
    (h.getOrCreateUas b j).2.Gone k a := by
  unfold Gone getOrCreateUas
  simp only [Function.update_apply]
  split
  · rename_i hab
    subst hab
    rw [Dict.get?_setDefault, if_neg hne]
    exact ha
  · exact ha

theorem gone_popUser (b : SummaryRef) (j : String) (ha : h.Gone k a) :
    (h.popUser b j).Gone k a := by
  unfold Gone popUser
  simp only [Function.update_apply]
  split
  · rename_i hab
    subst hab
    rw [Dict.get?_erase]
    split
    · rfl
    · exact ha
  · exact ha

/-- The ledger shows it. -/
theorem Gone.summary (ha : h.Gone k a) : (h.summary a).userSummaries.get? k = none := by
  show ((h.userSummaries a).mapValues h.uas).get? k = none
  rw [Dict.get?_mapValues, ha, Option.map_none]

theorem gone_popUser_self (a : SummaryRef) (k : String) : (h.popUser a k).Gone k a := by
  show (Function.update h.userSummaries a _ a).get? k = none
  rw [Function.update_self, Dict.get?_erase, if_pos rfl]

end LedgerHeap

namespace LedgerThreads

variable {r : RecordCall} {h h' : LedgerHeap} {pc : RecordPc} {k : String}

theorem spares_record (hkey : r.userApiKey? ≠ some k) (hh : pc.Held r h) :
    LedgerHeap.Spares k h (r.step h pc).1 := by
  cases pc with
  | createDay => exact LedgerHeap.spares_createDay r.key
  | getOrCreateUas turn a =>
      refine .of_gone (fun ha => LedgerHeap.gone_getOrCreateUas (fun hk => hkey ?_) ha) rfl
      obtain ⟨j, hj⟩ := Option.isSome_iff_exists.mp hh.1
      rw [hk, hj, Option.getD_some]
  | checkDay | readDay | checkMethod | createMethod | readMethod | load | store | done
  | raised => exact .of_gone id rfl

theorem spares_removeStep (j : String) (pc : RemovePc) :
    LedgerHeap.Spares k h (removeStep j h pc).1 := by
  cases pc with
  | popAllTime => exact .of_gone (LedgerHeap.gone_popUser allTimeRef j) rfl
  | popDay i size a => exact .of_gone (LedgerHeap.gone_popUser a j) rfl
  | iter | next | done | raised => exact .of_gone id rfl

/-- What a removal has achieved. -/
def RemovePc.Cleared (h : LedgerHeap) (k : String) : RemovePc → Prop
  | .popAllTime | .done | .raised => True
  | .iter => h.Gone k allTimeRef
  | .next n size =>
      h.Gone k allTimeRef ∧ h.GoneBefore k n ∧ size ≤ h.dailyUsage.items.length
  | .popDay n size a =>
      h.Gone k allTimeRef ∧ h.GoneBefore k n ∧ size ≤ h.dailyUsage.items.length ∧
        ∃ key b, h.dailyUsage.items[n]? = some (key, b) ∧ (b = a ∨ h.Gone k b)

theorem RemovePc.Cleared.spares {pc : RemovePc} (hc : pc.Cleared h k)
    (hs : LedgerHeap.Spares k h h') : pc.Cleared h' k := by
  cases pc with
  | popAllTime | done | raised => exact trivial
  | iter => exact hs.gone hc
  | next n size => exact ⟨hs.gone hc.1, hs.goneBefore hc.2.1, hc.2.2.trans hs.length⟩
  | popDay n size a =>
      obtain ⟨hall, hbefore, hsize, key, b, hn, hb⟩ := hc
      refine ⟨hs.gone hall, hs.goneBefore hbefore, hsize.trans hs.length, ?_⟩
      obtain hsame | ⟨c, hnew, hgone⟩ := hs.day hn
      · exact ⟨key, b, hsame, hb.imp_right hs.gone⟩
      · exact ⟨key, c, hnew, Or.inr hgone⟩

/-- **A step of a removal.** -/
theorem RemovePc.Cleared.step {pc : RemovePc} (hc : pc.Cleared h k) :
    (removeStep k h pc).2.Cleared (removeStep k h pc).1 k := by
  have hs := spares_removeStep (h := h) (k := k) k pc
  cases pc with
  | popAllTime => exact LedgerHeap.gone_popUser_self allTimeRef k
  | iter => exact ⟨hc, fun m key a hm => (Nat.not_lt_zero m hm).elim, Nat.le_refl _⟩
  | next n size =>
      simp only [removeStep]
      split
      · exact trivial
      · split
        · rename_i key a hn
          exact ⟨hc.1, hc.2.1, hc.2.2, key, a, hn, Or.inl rfl⟩
        · exact trivial
  | popDay n size a =>
      obtain ⟨hall, hbefore, hsize, key, b, hn, hb⟩ := hc
      refine ⟨hs.gone hall, fun m j c hm hget => ?_, hsize⟩
      obtain hlt | rfl := Nat.lt_succ_iff_lt_or_eq.mp hm
      · exact hs.gone (hbefore m j c hlt hget)
      · obtain ⟨-, rfl⟩ := Prod.mk.inj (Option.some.inj (hget.symm.trans hn))
        obtain rfl | hgone := hb
        · exact LedgerHeap.gone_popUser_self c k
        · exact hs.gone hgone
  | done | raised => exact trivial

/-! ## runs -/

/-- A removal of the user. -/
def Activity.removes (k : String) : Activity → Bool
  | .record _ _ => false
  | .remove j _ => j = k

/-- A removal of the user is under way. -/
def removing (k : String) (s : LedgerThreads) : Bool :=
  s.activities.any fun a => a.removes k && !a.isOver

/-- No recording of the user overlaps a removal of the user. -/
def Apart (k : String) (s : LedgerThreads) : Event → Prop
  | .record r => ¬ (r.userApiKey? = some k ∧ s.removing k = true)
  | .remove j => ¬ (j = k ∧ s.busy k = true)
  | .step _ => True

instance (k : String) (s : LedgerThreads) : (ev : Event) → Decidable (Apart k s ev)
  | .record r => inferInstanceAs (Decidable (¬ (r.userApiKey? = some k ∧ s.removing k = true)))
  | .remove j => inferInstanceAs (Decidable (¬ (j = k ∧ s.busy k = true)))
  | .step _ => inferInstanceAs (Decidable True)

/-- The removals of the user under way have achieved what they are past. -/
structure Erasing (k : String) (s : LedgerThreads) : Prop where
  wf : s.Wf
  apart : ∀ {b c}, b ∈ s.activities → c ∈ s.activities → b.isOf k = true → b.isOver = false →
    c.removes k = true → c.isOver = true
  cleared : ∀ {pc}, Activity.remove k pc ∈ s.activities → pc.Cleared s.heap k

variable {s s' : LedgerThreads} {ev : Event}

theorem isOver_of_idle {p : Activity → Bool} (hidle : (s.activities.any fun a => p a && !a.isOver) =
    false) {b : Activity} (hb : b ∈ s.activities) (hp : p b = true) : b.isOver = true := by
  have hall := List.any_eq_false.mp hidle b hb
  simpa [hp] using hall

theorem cleared_of_isOver {pc : RemovePc} (hover : (Activity.remove k pc).isOver = true) :
    pc.Cleared h k := by
  cases pc with
  | done | raised => exact trivial
  | popAllTime | iter | next | popDay => cases hover

/-- A call goes on. -/
theorem Erasing.goOn (he : Erasing k s) {i : Nat} {b : Activity} (hi : s.activities[i]? = some b)
    (hover : b.isOver = false) (hwf : (⟨(b.step s.heap).1, s.activities.set i (b.step s.heap).2⟩ :
      LedgerThreads).Wf) :
    Erasing k ⟨(b.step s.heap).1, s.activities.set i (b.step s.heap).2⟩ := by
  have hb := List.mem_of_getElem? hi
  have hof : (b.step s.heap).2.isOf k = b.isOf k := by cases b <;> rfl
  have hremoves : (b.step s.heap).2.removes k = b.removes k := by cases b <;> rfl
  refine ⟨hwf, fun {c d} hc hd hcof hcover hdremoves => ?_, fun {pc} hpc => ?_⟩
  · obtain hc | rfl := List.mem_or_eq_of_mem_set hc <;>
      obtain hd | rfl := List.mem_or_eq_of_mem_set hd
    · exact he.apart hc hd hcof hcover hdremoves
    · rw [hremoves] at hdremoves
      rw [he.apart hc hb hcof hcover hdremoves] at hover
      cases hover
    · exact he.apart hb hd (hof ▸ hcof) hover hdremoves
    · rw [hof] at hcof
      rw [hremoves] at hdremoves
      rw [he.apart hb hb hcof hover hdremoves] at hover
      cases hover
  · cases b with
    | record r rpc =>
        obtain hpc | hpc := List.mem_or_eq_of_mem_set hpc
        · by_cases hkey : r.userApiKey? = some k
          · exact cleared_of_isOver
              (he.apart hb hpc (by simpa [Activity.isOf] using hkey) hover (by simp [Activity.removes]))
          · exact (he.cleared hpc).spares (spares_record hkey (he.wf.held _ hb))
        · cases hpc
    | remove j rpc =>
        obtain hpc | hpc := List.mem_or_eq_of_mem_set hpc
        · exact (he.cleared hpc).spares (spares_removeStep j rpc)
        · obtain ⟨rfl, rfl⟩ := Activity.remove.inj hpc
          exact (he.cleared hb).step

theorem Erasing.step (he : Erasing k s) (hg : Apart k s ev) (hs : s.step ev = some s') :
    Erasing k s' := by
  have hwf := he.wf.step hs
  obtain ⟨r, rfl, rfl⟩ | ⟨j, rfl, rfl⟩ | ⟨i, b, rfl, hi, hover, rfl⟩ := step_cases hs
  · refine ⟨hwf, fun {c d} hc hd hcof hcover hdremoves => ?_, fun {pc} hpc => ?_⟩
    · obtain hd | hd := List.mem_append.mp hd
      · obtain hc | hc := List.mem_append.mp hc
        · exact he.apart hc hd hcof hcover hdremoves
        · rw [List.mem_singleton.mp hc] at hcof
          have hkey : r.userApiKey? = some k := by simpa [Activity.isOf] using hcof
          have hidle : s.removing k = false := by simpa [Apart, hkey] using hg
          exact isOver_of_idle hidle hd hdremoves
      · rw [List.mem_singleton.mp hd] at hdremoves
        cases hdremoves
    · obtain hpc | hpc := List.mem_append.mp hpc
      · exact he.cleared hpc
      · cases List.mem_singleton.mp hpc
  · refine ⟨hwf, fun {c d} hc hd hcof hcover hdremoves => ?_, fun {pc} hpc => ?_⟩
    · obtain hc | hc := List.mem_append.mp hc
      · obtain hd | hd := List.mem_append.mp hd
        · exact he.apart hc hd hcof hcover hdremoves
        · rw [List.mem_singleton.mp hd] at hdremoves
          have hkey : j = k := by simpa [Activity.removes] using hdremoves
          have hidle : s.busy k = false := by simpa [Apart, hkey] using hg
          rw [isOver_of_idle hidle hc hcof] at hcover
          cases hcover
      · rw [List.mem_singleton.mp hc] at hcof
        cases hcof
    · obtain hpc | hpc := List.mem_append.mp hpc
      · exact he.cleared hpc
      · obtain ⟨rfl, rfl⟩ := Activity.remove.inj (List.mem_singleton.mp hpc)
        exact trivial
  · exact he.goOn hi hover hwf

/-! ## results -/

/-- **What a removal leaves**: with the recordings of other users interleaved in any way, when
`remove_user` looks for the next day, at position `n` of the `size` days that there were when it
began to go through them: it raises exactly when a day has been added since; when it returns, no
summary has an entry of the user; and when it raises, the summary for all time and the days before
the position have none. -/
theorem removal_outcome (l : SimpleActivityLedger) (k : String) {s s' : LedgerThreads}
    {evs : List Event} (hrun : run step l.threads evs = some s)
    (hapart : Guarded step (Apart k) l.threads evs) {i n size : Nat}
    (hi : s.activities[i]? = some (.remove k (.next n size))) (hs : s.step (.step i) = some s') :
    (s'.activities[i]? = some (.remove k .raised) ↔ size < s.heap.dailyUsage.items.length) ∧
      (s'.activities[i]? = some (.remove k .done) →
        ∀ σ a, s'.heap.ledger.summaryAt σ = some a → a.userSummaries.get? k = none) ∧
      s'.heap.ledger.allTimeSummary.userSummaries.get? k = none ∧
        ∀ m key a, m < n → s'.heap.ledger.dailyUsage.items[m]? = some (key, a) →
          a.userSummaries.get? k = none := by
  have hinit : Erasing k l.threads :=
    ⟨l.wf_threads, fun hb => (List.not_mem_nil hb).elim, fun hpc => (List.not_mem_nil hpc).elim⟩
  have he : Erasing k s :=
    run_guarded step (fun _ _ _ h hg hs => h.step hg hs) hinit hapart hrun
  obtain ⟨hall, hbefore, hsize⟩ := he.cleared (List.mem_of_getElem? hi)
  obtain ⟨_, heq, -⟩ | ⟨_, heq, -⟩ | ⟨i', b, heq, hi', -, rfl⟩ := step_cases hs
  · cases heq
  · cases heq
  cases heq
  obtain rfl := Option.some.inj (hi.symm.trans hi')
  have hget : (s.activities.set i
      ((Activity.remove k (.next n size)).step s.heap).2)[i]? =
        some ((Activity.remove k (.next n size)).step s.heap).2 := by
    obtain ⟨hlt, -⟩ := List.getElem?_eq_some_iff.mp hi
    rw [List.getElem?_set_self hlt]
  have hdays {m : Nat} {key : DateKey} {a : ServiceActivitySummary}
      (hm : s.heap.ledger.dailyUsage.items[m]? = some (key, a)) :
      ∃ b, s.heap.dailyUsage.items[m]? = some (key, b) ∧ a = s.heap.summary b := by
    obtain ⟨e, he, heq⟩ := Option.map_eq_some_iff.mp (List.getElem?_map.symm.trans hm)
    obtain ⟨rfl, rfl⟩ := Prod.mk.inj heq
    exact ⟨e.2, he, rfl⟩
  refine ⟨?_, fun hdone σ a ha => ?_, hall.summary, fun m key a hm hget' => ?_⟩
  · rw [hget, Option.some.injEq]
    by_cases hne : s.heap.dailyUsage.items.length ≠ size
    · have hraised : (removeStep k s.heap (.next n size)).2 = .raised := by
        simp only [removeStep, if_pos hne]
      exact ⟨fun _ => by omega, fun _ => congrArg (Activity.remove k) hraised⟩
    · have hnot : (removeStep k s.heap (.next n size)).2 ≠ .raised := by
        simp only [removeStep, if_neg hne]
        split <;> exact fun h => nomatch h
      exact ⟨fun h => absurd (Activity.remove.inj h).2 hnot, fun h => by omega⟩
  · have hpc : (removeStep k s.heap (.next n size)).2 = .done :=
      (Activity.remove.inj (Option.some.inj (hget.symm.trans hdone))).2
    obtain ⟨hlen, hend⟩ : s.heap.dailyUsage.items.length = size ∧
        s.heap.dailyUsage.items[n]? = none := by
      simp only [removeStep] at hpc
      split at hpc
      · cases hpc
      · rename_i hlen
        split at hpc
        · cases hpc
        · exact ⟨by omega, ‹_›⟩
    cases σ with
    | allTime =>
        cases ha
        exact hall.summary
    | day key =>
        obtain ⟨m, hm⟩ := List.mem_iff_getElem?.mp (Dict.mem_items.mpr ha)
        obtain ⟨b, hb, rfl⟩ := hdays hm
        obtain ⟨hlt, -⟩ := List.getElem?_eq_some_iff.mp hb
        have hle := List.getElem?_eq_none_iff.mp hend
        exact (hbefore m key b (by omega) hb).summary
  · obtain ⟨b, hb, rfl⟩ := hdays hget'
    exact (hbefore m key b hm hb).summary

/-- The first recording of a day, between two looks of the iterator: `remove_user` raises, and
the day before keeps its entry of the user. -/
theorem removal_outcome_newDay :
    let l := ({} : SimpleActivityLedger).recordRpcRequest "2024-05-01" ⟨some "k", "m", 40⟩
    let ofJ : RecordCall := ⟨"2024-05-02", ⟨some "j", "m", 40⟩, 0, false⟩
    ∃ s s', run step l.threads
        [.remove "k", .step 0, .step 0, .record ofJ, .step 1, .step 1] = some s ∧
      s.step (.step 0) = some s' ∧ s'.activities[0]? = some (.remove "k" .raised) ∧
        (s'.heap.ledger.shown ⟨.day "2024-05-01", "k", none⟩).numCalls = 1 ∧
          s'.heap.ledger.allTimeSummary.userSummaries.get? "k" = none := by
  intro l ofJ
  have hshown : (run step l.threads
      [.remove "k", .step 0, .step 0, .record ofJ, .step 1, .step 1]).map
        (fun s => (s.activities[0]?, s.heap.dailyUsage.items.length,
          (s.step (.step 0)).map fun s' =>
            (s'.heap.ledger.shown ⟨.day "2024-05-01", "k", none⟩).numCalls)) =
      some (some (.remove "k" (.next 0 1)), 2, some 1) := by decide
  obtain ⟨s, hrun, htriple⟩ := Option.map_eq_some_iff.mp hshown
  obtain ⟨hi, hpair⟩ := Prod.mk.inj htriple
  obtain ⟨hlength, hnext⟩ := Prod.mk.inj hpair
  obtain ⟨s', hs, hcalls⟩ := Option.map_eq_some_iff.mp hnext
  obtain ⟨hraised, -, hall, -⟩ :=
    removal_outcome l "k" hrun (by decide) hi hs
  exact ⟨s, s', hrun, hs, hraised.mpr (by omega), hcalls, hall⟩

end LedgerThreads

end Web3Proxy
