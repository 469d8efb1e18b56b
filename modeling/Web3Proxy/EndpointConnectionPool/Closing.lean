import Web3Proxy.EndpointConnectionPool.Conservation

/-!
# Web3Proxy.EndpointConnectionPool.Closing

What closing a pool leaves behind.

* `System.closed_iff_settled` — under any interleaving, a closed pool has nothing
  outstanding exactly when no connection is on its way as the pool becomes closed: none
  that `get` has taken or will have established, none that `handle_broken_connection` has
  taken out of the busy set.  In between the two sections of `get` nothing looks at the
  status again.
* `awaits_iff_leavesByPut` — for calls one after another, a closing pool waits for a busy
  connection exactly when the last one does not leave by `handle_broken_connection`,
  which does not do what `put` does for it.
-/

namespace Web3Proxy

open Py Trans

namespace EndpointConnectionPool

namespace System

/-! ## nothing outstanding -/

/-- Behind the sentinel there is no connection in the queue. -/
def SentinelLast (queue : List (Option ConnId)) : Prop :=
  queue.Pairwise fun a b => a = none → b = none

/-- A closed pool is done with its connections: those that the closing thread has not
closed, it will find before the sentinel. -/
structure NothingOutstanding (s : System) : Prop where
  /-- No `get` call holds a connection. -/
  held : s.pool.status = .closed → s.held = []
  /-- No handler does, and none is giving it back. -/
  handlers : s.pool.status = .closed → s.handlers = [] ∧ s.broken = []
  /-- Nothing has been enqueued behind the sentinel. -/
  sentinel_last : SentinelLast s.pool.connectionCloseQueue
  /-- Nor since the closing thread has taken the sentinel. -/
  ended : s.closingThreadEnded = true → ∀ c, some c ∉ s.pool.connectionCloseQueue
  /-- Every connection has been closed or stands before the sentinel. -/
  scheduled : s.pool.status = .closed → ∀ c < s.established, c ∈ s.closing ∨
    some c ∈ s.pool.connectionCloseQueue.takeWhile Option.isSome
  /-- When the closing thread is through, it has closed all of them. -/
  all_closed : s.closingThreadEnded = true → ∀ c < s.established, c ∈ s.closing

/-- In status CLOSED no `get` returns a handler and no `put` is executed. -/
def Refuses (s : System) (l : Label) : Prop :=
  s.pool.status = .closed → (∀ c, l ≠ .busyAdd c) ∧ ∀ c now, l ≠ .put c now

/-- No `get` call and no `handle_broken_connection` call has a connection in hand. -/
def Idle (s : System) : Prop := s.held = [] ∧ s.broken = []

instance (s : System) : Decidable s.Idle := inferInstanceAs (Decidable (_ ∧ _))

/-- When the pool becomes closed no connection is on its way, and none is established
after that. -/
def Settled (s : System) : Label → Prop
  | .close => s.pool.busyConnections.card = 0 → s.Idle
  | .put c _ => s.pool.lastToClose c = true → s.Idle
  | .connected _ => s.pool.status ≠ .closed
  | _ => True

/-! ## the invariant -/

/-- The pool has not been closed. -/
structure Open (s : System) : Prop where
  status : s.pool.status ≠ .closed
  no_sentinel : none ∉ s.pool.connectionCloseQueue
  running : s.closingThreadEnded = false

/-- The pool has been closed and is done with its connections. -/
structure Shut (s : System) : Prop where
  status : s.pool.status = .closed
  held : s.held = []
  handlers : s.handlers = []
  broken : s.broken = []
  sentinel_last : SentinelLast s.pool.connectionCloseQueue
  ended : s.closingThreadEnded = true → ∀ c, some c ∉ s.pool.connectionCloseQueue

/-- What the settled steps keep. -/
structure Tidy (s : System) : Prop where
  inv : s.Inv
  phase : s.Open ∨ s.Shut

theorem sentinelLast_append_none {queue : List (Option ConnId)} (h : SentinelLast queue) :
    SentinelLast (queue ++ [none]) :=
  List.pairwise_append.mpr ⟨h, List.pairwise_singleton _ _, by simp⟩

theorem sentinelLast_of_not_mem {queue : List (Option ConnId)} (h : none ∉ queue) :
    SentinelLast queue :=
  List.pairwise_of_forall_mem_list fun _ ha _ _ hnone => absurd (hnone ▸ ha) h

/-- The closing thread meets every connection that is enqueued before it meets the
sentinel. -/
theorem SentinelLast.mem_takeWhile {queue : List (Option ConnId)} (h : SentinelLast queue)
    {c : ConnId} (hc : some c ∈ queue) : some c ∈ queue.takeWhile Option.isSome := by
  induction queue with
  | nil => cases hc
  | cons a queue ih =>
      obtain ⟨hfirst, hrest⟩ := List.pairwise_cons.mp h
      cases a with
      | none =>
          obtain hc | hc := List.mem_cons.mp hc
          · cases hc
          · cases hfirst _ hc rfl
      | some b =>
          rw [List.takeWhile_cons_of_pos rfl]
          obtain hc | hc := List.mem_cons.mp hc
          · exact List.mem_cons.mpr (Or.inl hc)
          · exact List.mem_cons.mpr (Or.inr (ih hrest hc))

theorem Open.of_eq {s t : System} (h : s.Open) (hstatus : t.pool.status ≠ .closed)
    (hqueue : none ∈ t.pool.connectionCloseQueue → none ∈ s.pool.connectionCloseQueue)
    (hended : t.closingThreadEnded = s.closingThreadEnded) : t.Open where
  status := hstatus
  no_sentinel := fun hnone => h.no_sentinel (hqueue hnone)
  running := hended.trans h.running

/-- `disable` and `out_of_sync` do not close a pool. -/
theorem Open.suspended {s : System} (h : s.Open) {status : PoolStatus} (hne : status ≠ .closed) :
    (s.suspended status).Open :=
  h.of_eq hne (by simp [System.suspended]) rfl

theorem Inv.handlers_eq_nil {s : System} (h : s.Inv) (hbusy : s.pool.busyConnections.card = 0) :
    s.handlers = [] := by
  have hempty := Finset.card_eq_zero.mp hbusy
  refine List.eq_nil_iff_forall_not_mem.mpr fun c hc => ?_
  have hb := h.busy_of_handler hc
  rw [hempty] at hb
  exact Finset.notMem_empty c hb

/-- The last handler of a closing pool is the last one there is. -/
theorem Inv.erase_eq_nil {s : System} (h : s.Inv) {c : ConnId}
    (hlast : s.pool.lastToClose c = true) : s.handlers.erase c = [] := by
  simp only [lastToClose, decide_eq_true_eq] at hlast
  have hempty := Finset.card_eq_zero.mp hlast.2
  refine List.eq_nil_iff_forall_not_mem.mpr fun x hx => ?_
  have hpos := List.count_pos_iff.mpr hx
  have hone := h.handlers x
  have hmem := congrArg (x ∈ ·) hempty
  simp only [count] at hone
  simp only [List.count_erase] at hpos
  simp only [Finset.mem_erase, Finset.notMem_empty, eq_iff_iff, iff_false] at hmem
  grind

/-- A pool that is closed has scheduled all its connections. -/
theorem Shut.scheduled {s : System} (h : s.Shut) (hinv : s.Inv) {c : ConnId}
    (hc : c < s.established) : c ∈ s.closing ∨
      some c ∈ s.pool.connectionCloseQueue.takeWhile Option.isSome := by
  have hcen := hinv.census c
  have hbusy : c ∉ s.pool.busyConnections := by
    have hone := hinv.handlers c
    simp only [count, h.handlers, List.count_nil] at hone
    grind
  have hidle := hinv.idle_empty (by simp [h.status])
  rw [total_count, if_pos hc, if_neg hbusy, h.held, h.broken, hidle] at hcen
  simp only [List.count_nil] at hcen
  by_cases hclosing : c ∈ s.closing
  · exact Or.inl hclosing
  · have hqueue : 0 < s.pool.connectionCloseQueue.count (some c) := by
      have hzero := List.count_eq_zero.mpr hclosing
      omega
    exact Or.inr (h.sentinel_last.mem_takeWhile (List.count_pos_iff.mp hqueue))

/-- The invariant says what the claim needs. -/
theorem Tidy.nothingOutstanding {s : System} (h : s.Tidy) : s.NothingOutstanding := by
  obtain hopen | hshut := h.phase
  · have hstatus := hopen.status
    have hrunning := hopen.running
    exact
      { held := fun hclosed => absurd hclosed hstatus
        handlers := fun hclosed => absurd hclosed hstatus
        sentinel_last := sentinelLast_of_not_mem hopen.no_sentinel
        ended := by simp [hrunning]
        scheduled := fun hclosed => absurd hclosed hstatus
        all_closed := by simp [hrunning] }
  · exact
      { held := fun _ => hshut.held
        handlers := fun _ => ⟨hshut.handlers, hshut.broken⟩
        sentinel_last := hshut.sentinel_last
        ended := hshut.ended
        scheduled := fun _ _ hc => hshut.scheduled h.inv hc
        all_closed := by
          intro hended c hc
          obtain hclosing | hqueue := hshut.scheduled h.inv hc
          · exact hclosing
          · have hmem := (List.takeWhile_prefix _).subset hqueue
            exact absurd hmem (hshut.ended hended c) }

/-! ## settled steps -/

variable {cfg : PoolConfig} {s t : System} {l : Label}

/-- The step that closes the pool while no call is between its sections: the sentinel goes
behind the connections. -/
theorem Open.shut (h : s.Open) (hidle : s.Idle) (hstatus : t.pool.status = .closed)
    (hhandlers : t.handlers = []) (hheld : t.held = s.held) (hbroken : t.broken = s.broken)
    {q : List ConnId} (hqueue : t.pool.connectionCloseQueue =
      s.pool.connectionCloseQueue ++ q.map some ++ [none])
    (hended : t.closingThreadEnded = s.closingThreadEnded) : t.Shut where
  status := hstatus
  held := hheld.trans hidle.1
  handlers := hhandlers
  broken := hbroken.trans hidle.2
  sentinel_last := by
    have hno : none ∉ s.pool.connectionCloseQueue ++ q.map some := by
      simp [h.no_sentinel]
    rw [hqueue]
    exact sentinelLast_append_none (sentinelLast_of_not_mem hno)
  ended := fun hthread => by
    rw [hended, h.running] at hthread
    cases hthread

/-- What a settled step makes of a pool that has not been closed. -/
theorem Open.step (h : s.Open) (hinv : s.Inv) (hsettled : s.Settled l)
    (hs : s.step cfg l = some t) : t.Open ∨ t.Shut := by
  cases hinv.move hs with
  | getRefused | getNone | getIdle | connected | connectFailed | busyAdd | putIdle | busyRemove
  | disableRefused | outOfSyncRefused | activateRefused =>
      exact Or.inl (h.of_eq h.status id rfl)
  | @putClose c now hc hb hactive =>
      by_cases hlast : s.pool.lastToClose c = true
      · simp only [hlast, if_true]
        exact Or.inr (h.shut (hsettled hlast) rfl (hinv.erase_eq_nil hlast) rfl rfl
          (q := [c]) (by simp) rfl)
      · simp only [hlast]
        exact Or.inl (h.of_eq h.status (by simp) rfl)
  | scheduleBroken hc => exact Or.inl (h.of_eq h.status (by simp) rfl)
  | disable => exact Or.inl (h.suspended (by simp))
  | outOfSync => exact Or.inl (h.suspended (by simp))
  | activate => exact Or.inl (h.of_eq (by simp) id rfl)
  | close =>
      by_cases hbusy : s.pool.busyConnections.card = 0
      · exact Or.inr (h.shut (hsettled hbusy) (if_pos hbusy) (hinv.handlers_eq_nil hbusy) rfl rfl
          (q := s.pool.connections) (by simp [hbusy]) rfl)
      · exact Or.inl (h.of_eq (by simp [hbusy]) (by simp [hbusy]) rfl)
  | cleanup hactive =>
      refine Or.inl (h.of_eq h.status ?_ rfl)
      simp [-List.map_take]
  | cleanupNone => exact Or.inl h
  | closeSentinel hrunning hq =>
      have hnone := h.no_sentinel
      simp [hq] at hnone
  | closeTaken hrunning hq => exact Or.inl (h.of_eq h.status (by simp [hq]) rfl)

/-- What a settled step makes of a pool that has been closed. -/
theorem Shut.step (h : s.Shut) (hinv : s.Inv) (hsettled : s.Settled l)
    (hs : s.step cfg l = some t) : t.Shut := by
  have hclosed := h.status
  have hne : s.pool.status ≠ .active := by simp [hclosed]
  have hsentinel := h.sentinel_last
  cases hinv.move hs with
  | getRefused | connectFailed | disableRefused | outOfSyncRefused | activateRefused =>
      exact { h with }
  | getNone hserves | getIdle hserves => simp [Serves, hclosed] at hserves
  | connected => exact absurd hclosed hsettled
  | busyAdd hc => simp [h.held] at hc
  | putIdle hc | putClose hc | busyRemove hc => simp [h.handlers] at hc
  | scheduleBroken hc => simp [h.broken] at hc
  | disable hopen | outOfSync hopen | activate hopen => exact absurd (Or.inl hclosed) hopen
  | close =>
      have hbusy : s.pool.busyConnections.card = 0 := by
        refine Finset.card_eq_zero.mpr (Finset.eq_empty_of_forall_notMem fun c hc => ?_)
        have hone := hinv.handlers c
        simp [h.handlers, count, hc] at hone
      rw [if_pos hbusy, if_pos hbusy, hinv.idle_empty hne, List.map_nil, List.append_nil]
      exact { h with
        status := rfl
        sentinel_last := sentinelLast_append_none hsentinel
        ended := fun hended c hc => h.ended hended c (by simpa using hc) }
  | cleanup hactive => exact absurd hactive hne
  | cleanupNone => exact h
  | closeSentinel hrunning hq =>
      rw [hq] at hsentinel
      obtain ⟨hfirst, hrest⟩ := List.pairwise_cons.mp hsentinel
      exact { h with
        sentinel_last := hrest
        ended := fun _ c hc => by
          have hnone := hfirst (some c) hc rfl
          cases hnone }
  | closeTaken hrunning hq =>
      rw [hq] at hsentinel
      obtain ⟨-, hrest⟩ := List.pairwise_cons.mp hsentinel
      exact { h with
        sentinel_last := hrest
        ended := fun hended => absurd (hended.symm.trans hrunning) (by simp) }

/-- A settled step keeps the pool tidy. -/
theorem Tidy.step (h : s.Tidy) (hsettled : s.Settled l) (hs : s.step cfg l = some t) :
    t.Tidy where
  inv := h.inv.step hs
  phase := by
    obtain hopen | hshut := h.phase
    · exact hopen.step h.inv hsettled hs
    · exact Or.inr (hshut.step h.inv hsettled hs)

/-- A step that is not settled leaves something outstanding. -/
theorem Tidy.not_step (h : s.Tidy) (hsettled : ¬ s.Settled l) (hs : s.step cfg l = some t) :
    ¬ t.NothingOutstanding := by
  intro hnothing
  cases h.inv.move hs with
  | close =>
      obtain ⟨hbusy, hidle⟩ := Classical.not_imp.mp hsettled
      have hclosed : (if s.pool.busyConnections.card = 0 then PoolStatus.closed
        else .closing) = .closed := if_pos hbusy
      exact hidle ⟨hnothing.held hclosed, (hnothing.handlers hclosed).2⟩
  | putIdle hc hb hactive =>
      obtain ⟨hlast, -⟩ := Classical.not_imp.mp hsettled
      simp [lastToClose, hactive] at hlast
  | @putClose c now hc hb hactive =>
      obtain ⟨hlast, hidle⟩ := Classical.not_imp.mp hsettled
      have hclosed : (if s.pool.lastToClose c = true then PoolStatus.closed
        else s.pool.status) = .closed := if_pos hlast
      exact hidle ⟨hnothing.held hclosed, (hnothing.handlers hclosed).2⟩
  | connected => cases hnothing.held (not_not.mp hsettled)
  | _ => exact hsettled trivial

/-- In a tidy closed pool there is nothing to return and nothing to put back. -/
theorem Tidy.refuses (h : s.Tidy) (hs : s.step cfg l = some t) : s.Refuses l := by
  intro hclosed
  obtain hopen | hshut := h.phase
  · exact absurd hclosed hopen.status
  · constructor
    · rintro c rfl
      simp [System.step, hshut.held] at hs
    · rintro c now rfl
      simp [System.step, hshut.handlers] at hs

theorem tidy_init : Tidy {} where
  inv := inv_init
  phase := Or.inl ⟨by decide, by simp, rfl⟩

/-- **Closing**: a closed pool has nothing outstanding, and serves no call, exactly in the
runs whose steps are settled. -/
theorem closed_iff_settled (cfg : PoolConfig) (ls : List Label) :
    Always (fun s l => step s cfg l) NothingOutstanding {} ls ∧
        Guarded (fun s l => step s cfg l) Refuses {} ls ↔
      Guarded (fun s l => step s cfg l) Settled {} ls := by
  have hiff := always_iff_guarded (fun s l => step s cfg l) (fun _ h => h.nothingOutstanding)
    (fun _ _ _ h => h.step) (fun _ _ _ h => h.not_step) ls tidy_init
  constructor
  · exact fun ⟨hnothing, _⟩ => hiff.mp hnothing
  · intro hsettled
    exact ⟨hiff.mpr hsettled, hsettled.imp _ (fun _ _ _ h => h.step)
      (fun _ _ _ h _ => h.refuses) tidy_init⟩

/-- A pool is closed while `get` establishes a connection: the handler is returned, and
`put` takes it back in status CLOSED. -/
theorem not_closed_clean : ¬ ∀ cfg ls,
    Always (fun s l => step s cfg l) NothingOutstanding {} ls ∧
      Guarded (fun s l => step s cfg l) Refuses {} ls := by
  intro h
  have hrun := (h ⟨1, 0⟩ [.getIdle false, .close, .connected 0, .busyAdd 0, .put 0 1]).2
  obtain ⟨-, hrun⟩ := hrun _ rfl
  obtain ⟨-, hrun⟩ := hrun _ rfl
  obtain ⟨-, hrun⟩ := hrun _ rfl
  obtain ⟨-, hrun⟩ := hrun _ rfl
  obtain ⟨hrefuses, -⟩ := hrun _ rfl
  exact (hrefuses rfl).2 0 1 rfl

end System

/-! ## calls one after another -/

/-- One call. -/
def step (p : EndpointConnectionPool) (op : Op) : Option EndpointConnectionPool :=
  some (p.call op)

/-- A closing pool waits for a busy connection. -/
def Awaits (p : EndpointConnectionPool) : Prop :=
  p.status = .closing → p.busyConnections.Nonempty

/-- When a closing pool has no busy connection any more, it is closed and the closing
thread will stop. -/
def Finishes (p : EndpointConnectionPool) (op : Op) : Prop :=
  p.status = .closing → (p.call op).busyConnections = ∅ →
    (p.call op).status = .closed ∧ (p.call op).connectionCloseQueue.getLast? = some none

/-- The last busy connection of a closing pool is not a broken one. -/
def LeavesByPut (p : EndpointConnectionPool) : Op → Prop
  | .handleBrokenConnection c _ _ => p.status = .closing → p.busyConnections ≠ {c}
  | _ => True

section Calls

variable {p : EndpointConnectionPool}

/-- What `get` does to a closing pool: it raises. -/
theorem get_closing (oos : Bool) (creation : Option ConnId) (now : Int)
    (h : p.status = .closing) : p.get oos creation now = .raise .exception p := by
  obtain ⟨-, hget⟩ | ⟨hserves, -⟩ | ⟨c, q, hserves, -⟩ := p.getIdle_cases oos
  · rw [get, hget, Result.bind_raise]
  all_goals simp [Serves, h] at hserves

/-- A status change of a closing pool raises. -/
theorem suspend_closing (status : PoolStatus) (h : p.status = .closing) :
    p.suspend status = .raise .exception p := by
  rw [suspend, if_pos (Or.inr h)]

theorem activate_closing (h : p.status = .closing) : p.activate = .raise .exception p := by
  rw [activate, if_pos (Or.inr h)]

/-- A call that makes an open pool a closing one is `close`. -/
theorem call_status_ne (op : Op) (hop : op ≠ .close) (h : p.status ≠ .closing) :
    (p.call op).status ≠ .closing := by
  cases op with
  | get oos creation now =>
      rw [call, p.get_status]
      exact h
  | put c now =>
      obtain hsame | ⟨hclosing, -⟩ := p.put_status c now
      · rw [call, hsame]
        exact h
      · exact absurd hclosing h
  | handleBrokenConnection c isNew now =>
      rw [call, p.handleBrokenConnection_status]
      exact h
  | disable | outOfSync =>
      simp only [call, disable, outOfSync]
      by_cases hopen : p.status = .closed ∨ p.status = .closing
      · rw [suspend, if_pos hopen]
        exact h
      · rw [p.suspend_open _ hopen]
        simp
  | activate =>
      simp only [call, activate]
      split
      · exact h
      · simp [updateStatus]
  | close => contradiction

/-- What a call does to a closing pool that waits for a connection. -/
theorem Awaits.call_closing (hawaits : p.busyConnections.Nonempty) (h : p.status = .closing)
    (op : Op) (hleaves : p.LeavesByPut op) :
    (p.call op).status = .closing ∧ (p.call op).busyConnections.Nonempty ∨
      (p.call op).status = .closed ∧
        (p.call op).connectionCloseQueue.getLast? = some none := by
  cases op with
  | get oos creation now =>
      rw [call, get_closing oos creation now h]
      exact Or.inl ⟨h, hawaits⟩
  | put c now =>
      by_cases hc : c ∈ p.busyConnections
      · rw [call, p.put_of_ne now hc (by simp [h])]
        by_cases hlast : p.lastToClose c = true
        · rw [if_pos hlast, if_pos hlast]
          exact Or.inr ⟨rfl, by simp⟩
        · simp only [lastToClose, h, true_and, decide_eq_true_eq] at hlast
          have hbusy := Finset.card_pos.mp (Nat.pos_of_ne_zero hlast)
          exact Or.inl ⟨by simp [lastToClose, h, hlast], hbusy⟩
      · rw [call, p.put_of_notMem now hc]
        exact Or.inl ⟨h, hawaits⟩
  | handleBrokenConnection c isNew now =>
      by_cases hc : c ∈ p.busyConnections
      · rw [call, p.handleBrokenConnection_status, p.handleBrokenConnection_busy isNew now hc]
        refine Or.inl ⟨h, Finset.nonempty_iff_ne_empty.mpr fun hempty => ?_⟩
        obtain hnone | hone := Finset.erase_eq_empty_iff _ _ |>.mp hempty
        · exact hawaits.ne_empty hnone
        · exact hleaves h hone
      · rw [call, p.handleBrokenConnection_of_notMem isNew now hc]
        exact Or.inl ⟨h, hawaits⟩
  | disable | outOfSync =>
      simp only [call, disable, outOfSync, suspend_closing _ h]
      exact Or.inl ⟨h, hawaits⟩
  | activate =>
      rw [call, activate_closing h]
      exact Or.inl ⟨h, hawaits⟩
  | close =>
      have hbusy : p.busyConnections.card ≠ 0 := Finset.card_ne_zero.mpr hawaits
      rw [call, p.close_eq]
      simp only [Result.state, if_neg hbusy]
      exact Or.inl ⟨trivial, hawaits⟩

/-- `close` leaves a pool closing only when it waits for a connection. -/
theorem awaits_close (p : EndpointConnectionPool) : (p.call .close).Awaits := by
  rw [call, p.close_eq]
  intro hclosing
  simp only [Result.state] at hclosing ⊢
  split at hclosing
  · cases hclosing
  next hbusy => exact Finset.card_ne_zero.mp hbusy

theorem Awaits.call (h : p.Awaits) (op : Op) (hleaves : p.LeavesByPut op) :
    (p.call op).Awaits := by
  intro hclosing
  by_cases hstatus : p.status = .closing
  · obtain ⟨-, hbusy⟩ | ⟨hclosed, -⟩ := call_closing (h hstatus) hstatus op hleaves
    · exact hbusy
    · rw [hclosing] at hclosed
      cases hclosed
  · by_cases hop : op = .close
    · subst hop
      exact awaits_close p hclosing
    · exact absurd hclosing (call_status_ne op hop hstatus)

theorem Awaits.finishes (h : p.Awaits) (op : Op) (hleaves : p.LeavesByPut op) :
    p.Finishes op := by
  intro hstatus hempty
  obtain ⟨-, hbusy⟩ | hclosed := call_closing (h hstatus) hstatus op hleaves
  · exact absurd hempty hbusy.ne_empty
  · exact hclosed

theorem not_awaits_call {op : Op} (hleaves : ¬ p.LeavesByPut op) : ¬ (p.call op).Awaits := by
  intro hawaits
  cases op with
  | handleBrokenConnection c isNew now =>
      obtain ⟨hstatus, hone⟩ := Classical.not_imp.mp hleaves
      have honly := not_not.mp hone
      have hc : c ∈ p.busyConnections := honly ▸ Finset.mem_singleton_self c
      have hnonempty := hawaits ((p.handleBrokenConnection_status c isNew now).trans hstatus)
      rw [EndpointConnectionPool.call, p.handleBrokenConnection_busy isNew now hc, honly,
        Finset.erase_singleton] at hnonempty
      exact Finset.not_nonempty_empty hnonempty
  | _ => exact hleaves trivial

end Calls

/-- **Waiting**: a closing pool waits for a busy connection, and the call that takes the
last one away closes it, exactly in the runs in which the last one never leaves by
`handle_broken_connection`. -/
theorem awaits_iff_leavesByPut (ops : List Op) :
    Always step Awaits {} ops ∧ Guarded step Finishes {} ops ↔
      Guarded step LeavesByPut {} ops := by
  have hgood : ∀ p op p', Awaits p → LeavesByPut p op → step p op = some p' → Awaits p' :=
    fun p op p' h hleaves hs => Option.some.inj hs ▸ h.call op hleaves
  have hinit : Awaits {} := fun hclosing => by cases hclosing
  have hiff := always_iff_guarded step (fun _ h => h) hgood
    (fun p op p' _ hleaves hs => Option.some.inj hs ▸ not_awaits_call hleaves) ops hinit
  constructor
  · exact fun ⟨hawaits, _⟩ => hiff.mp hawaits
  · intro hleaves
    exact ⟨hiff.mpr hleaves, hleaves.imp step hgood
      (fun _ op _ h hput _ => h.finishes op hput) hinit⟩

/-- The only request in flight fails while the pool is closing: it stays so. -/
theorem not_always_awaits : ¬ ∀ ops,
    Always step Awaits {} ops ∧ Guarded step Finishes {} ops := by
  intro h
  have hall := (h [.get false (some 0) 0, .close, .handleBrokenConnection 0 true 1]).1
  have hend := ((hall.2 _ rfl).2 _ rfl).2 _ rfl
  have hbusy := hend rfl
  revert hbusy
  decide

end EndpointConnectionPool

end Web3Proxy
