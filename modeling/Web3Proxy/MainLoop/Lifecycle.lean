import Web3Proxy.MainLoop.Polling

/-!
# Web3Proxy.MainLoop.Lifecycle

What becomes of a client's socket from the `accept` to the `close`, whatever the threads
do in between.

* `Lifecycle` — the course of a descriptor, as a state machine of its own: each of its
  states says what the pool, the poller, the runs of `handle_client`, the queue and
  `closing_cs` have of it.
* `kept_iff_careful` — no thread raises, and each open socket is in the care of one thread
  or of the pool all the time, exactly in the runs in which five things do not happen.
* `not_always_kept` — they happen: a client that is evicted can take others along.
-/

namespace Web3Proxy

open Py Trans

namespace Polling

/-! ## the course of a descriptor -/

/-- What the threads have of a descriptor. -/
@[ext] structure View where
  file : Option Nat
  interest : Option Bool
  status : Option (ClientSocket × Bool)
  holders : List Worker
  queued : List ClientSocket
  closer : CloserPc
  registering : Option ClientSocket
  awaited : Bool

/-- The run has the socket under this descriptor, and has not disposed of it. -/
def holds (fd : Int) (w : Worker) : Bool := w.cs.fd = fd ∧ w.pc.isActive

/-- The part of the state that concerns a descriptor. -/
def view (s : Polling) (fd : Int) : View where
  file := s.descriptors.files fd
  interest := s.descriptors.interest fd
  status := s.loop.pool.status fd
  holders := s.workers.filter (holds fd)
  queued := s.loop.queueCsForClose.filter fun cs => cs.fd = fd
  closer := if s.closer.cs.any fun cs => cs.fd = fd then s.closer else .get
  registering := s.registering.filter fun cs => cs.fd = fd
  awaited := decide (fd ∈ s.loop.pc.rest)

/-- The states of a descriptor.  An event of a socket that has been closed can be left when
the next socket gets the descriptor. -/
inductive Lifecycle (fd : Int) : View → Prop where
  | closed {r : Bool} : Lifecycle fd ⟨none, none, none, [], [], .get, none, r⟩
  | accepted {n : Nat} {r : Bool} :
      Lifecycle fd ⟨some n, none, some (⟨fd, n⟩, false), [], [], .get, some ⟨fd, n⟩, r⟩
  | armed {n : Nat} {r : Bool} :
      Lifecycle fd ⟨some n, some true, some (⟨fd, n⟩, false), [], [], .get, none, r⟩
  | reported {n : Nat} :
      Lifecycle fd ⟨some n, some false, some (⟨fd, n⟩, false), [], [], .get, none, true⟩
  | served {n : Nat} {pc : WorkerPc} (hpc : pc.isServing) :
      Lifecycle fd ⟨some n, some false, some (⟨fd, n⟩, true), [⟨⟨fd, n⟩, pc⟩], [], .get, none,
        false⟩
  | pending {n : Nat} :
      Lifecycle fd ⟨some n, some false, some (⟨fd, n⟩, false), [⟨⟨fd, n⟩, .modify⟩], [], .get,
        none, false⟩
  | removed {n : Nat} {c r : Bool} :
      Lifecycle fd ⟨some n, some false, none, [⟨⟨fd, n⟩, .unregister c⟩], [], .get, none, r⟩
  | unregistered {n : Nat} {c r : Bool} :
      Lifecycle fd ⟨some n, none, none, [⟨⟨fd, n⟩, .close c⟩], [], .get, none, r⟩
  | evicted {n : Nat} {b r : Bool} :
      Lifecycle fd ⟨some n, some b, none, [], [⟨fd, n⟩], .get, none, r⟩
  | taken {n : Nat} {b r : Bool} :
      Lifecycle fd ⟨some n, some b, none, [], [], .unregister ⟨fd, n⟩, none, r⟩
  | released {n : Nat} {r : Bool} :
      Lifecycle fd ⟨some n, none, none, [], [], .close ⟨fd, n⟩, none, r⟩

/-- What a run that has not disposed of its socket says about the descriptor. -/
structure Held (v : View) (w : Worker) : Prop where
  file : v.file = some w.cs.socket
  holders : v.holders = [w]
  queued : v.queued = []
  closer : v.closer = .get
  registering : v.registering = none
  stage :
    w.pc.isServing ∧ v.interest = some false ∧ v.status = some (w.cs, true) ∧ v.awaited = false ∨
    w.pc = .modify ∧ v.interest = some false ∧ v.status = some (w.cs, false) ∧
      v.awaited = false ∨
    (∃ c, w.pc = .unregister c ∧ v.interest = some false ∧ v.status = none) ∨
    ∃ c, w.pc = .close c ∧ v.interest = none ∧ v.status = none

namespace Lifecycle

variable {fd : Int} {v : View}

theorem held (h : Lifecycle fd v) {w : Worker} (hw : w ∈ v.holders) : Held v w := by
  cases h with
  | served hpc =>
      obtain rfl := List.mem_singleton.mp hw
      exact ⟨rfl, rfl, rfl, rfl, rfl, .inl ⟨hpc, rfl, rfl, rfl⟩⟩
  | pending =>
      obtain rfl := List.mem_singleton.mp hw
      exact ⟨rfl, rfl, rfl, rfl, rfl, .inr (.inl ⟨rfl, rfl, rfl, rfl⟩)⟩
  | removed =>
      obtain rfl := List.mem_singleton.mp hw
      exact ⟨rfl, rfl, rfl, rfl, rfl, .inr (.inr (.inl ⟨_, rfl, rfl, rfl⟩))⟩
  | unregistered =>
      obtain rfl := List.mem_singleton.mp hw
      exact ⟨rfl, rfl, rfl, rfl, rfl, .inr (.inr (.inr ⟨_, rfl, rfl, rfl⟩))⟩
  | _ => cases hw

/-- What a pending socket that is armed says. -/
theorem of_armed (h : Lifecycle fd v) {cs : ClientSocket} (hs : v.status = some (cs, false))
    (hi : v.interest = some true) :
    v = ⟨some cs.socket, some true, some (cs, false), [], [], .get, none, v.awaited⟩ := by
  cases h with
  | armed =>
      obtain rfl := congrArg Prod.fst (Option.some.inj hs)
      rfl
  | accepted | reported | pending => cases hi
  | _ => cases hs

/-- What a pending socket says when the poller has reported it. -/
theorem of_reported (h : Lifecycle fd v) {cs : ClientSocket} (hs : v.status = some (cs, false))
    (hi : v.interest = some false) (ha : v.awaited = true) :
    v = ⟨some cs.socket, some false, some (cs, false), [], [], .get, none, true⟩ := by
  cases h with
  | reported =>
      obtain rfl := congrArg Prod.fst (Option.some.inj hs)
      rfl
  | accepted | armed => cases hi
  | pending => cases ha
  | _ => cases hs

/-- What any socket in the pool says. -/
theorem of_status (h : Lifecycle fd v) {cs : ClientSocket} {u : Bool}
    (hs : v.status = some (cs, u)) :
    v.file = some cs.socket ∧ cs.fd = fd ∧ (v.registering ≠ none ∨
      u = false ∧ v.interest = some true ∨ v.awaited = true ∨ ∃ pc, v.holders = [⟨cs, pc⟩]) := by
  cases h with
  | accepted =>
      obtain ⟨rfl, -⟩ := Prod.mk.inj (Option.some.inj hs)
      exact ⟨rfl, rfl, .inl (by simp)⟩
  | armed =>
      obtain ⟨rfl, rfl⟩ := Prod.mk.inj (Option.some.inj hs)
      exact ⟨rfl, rfl, .inr (.inl ⟨rfl, rfl⟩)⟩
  | reported =>
      obtain ⟨rfl, -⟩ := Prod.mk.inj (Option.some.inj hs)
      exact ⟨rfl, rfl, .inr (.inr (.inl rfl))⟩
  | served | pending =>
      obtain ⟨rfl, -⟩ := Prod.mk.inj (Option.some.inj hs)
      exact ⟨rfl, rfl, .inr (.inr (.inr ⟨_, rfl⟩))⟩
  | _ => cases hs

/-- What a socket in the queue says. -/
theorem of_queued (h : Lifecycle fd v) {cs : ClientSocket} {rest : List ClientSocket}
    (hq : v.queued = cs :: rest) :
    ∃ b, v = ⟨some cs.socket, some b, none, [], [cs], .get, none, v.awaited⟩ ∧ rest = [] := by
  cases h with
  | evicted =>
      obtain ⟨rfl, rfl⟩ := List.cons.inj hq
      exact ⟨_, rfl, rfl⟩
  | _ => cases hq

/-- What a socket that `closing_cs` is to unregister says. -/
theorem of_unregister (h : Lifecycle fd v) {cs : ClientSocket} (hc : v.closer = .unregister cs) :
    ∃ b, v = ⟨some cs.socket, some b, none, [], [], .unregister cs, none, v.awaited⟩ := by
  cases h with
  | taken =>
      obtain rfl := CloserPc.unregister.inj hc
      exact ⟨_, rfl⟩
  | _ => cases hc

/-- What a socket that `closing_cs` is to close says. -/
theorem of_close (h : Lifecycle fd v) {cs : ClientSocket} (hc : v.closer = .close cs) :
    v = ⟨some cs.socket, none, none, [], [], .close cs, none, v.awaited⟩ := by
  cases h with
  | released =>
      obtain rfl := CloserPc.close.inj hc
      rfl
  | _ => cases hc

/-- What a descriptor without a socket says. -/
theorem of_file_none (h : Lifecycle fd v) (hf : v.file = none) :
    v = ⟨none, none, none, [], [], .get, none, v.awaited⟩ := by
  cases h with
  | closed => rfl
  | _ => cases hf

/-- What a socket that is to be registered says. -/
theorem of_registering (h : Lifecycle fd v) {cs : ClientSocket} (hr : v.registering = some cs) :
    v = ⟨some cs.socket, none, some (cs, false), [], [], .get, some cs, v.awaited⟩ := by
  cases h with
  | accepted =>
      obtain rfl := Option.some.inj hr
      rfl
  | _ => cases hr

/-- An event that comes to nothing, if it is not the one of a socket that was reported. -/
theorem forget (h : Lifecycle fd v)
    (hr : ∀ cs, v.status = some (cs, false) → v.interest = some false → v.awaited = false) :
    Lifecycle fd { v with awaited := false } := by
  cases h with
  | reported => cases hr _ rfl rfl
  | closed => exact .closed
  | accepted => exact .accepted
  | armed => exact .armed
  | served hpc => exact .served hpc
  | pending => exact .pending
  | removed => exact .removed
  | unregistered => exact .unregistered
  | evicted => exact .evicted
  | taken => exact .taken
  | released => exact .released

/-- An event. -/
theorem report (h : Lifecycle fd v) (harmed : v.interest = some true) :
    Lifecycle fd { v with interest := some false, awaited := true } := by
  cases h with
  | armed => exact .reported
  | evicted => exact .evicted
  | taken => exact .taken
  | _ => cases harmed

end Lifecycle

/-! ## in whose care a socket is -/

/-- How often a socket is in the care of each, as far as the descriptor says it. -/
def View.keepers (v : View) : Place → ClientSocket → Nat
  | .pool, cs =>
      if v.status = some (cs, false) ∧
          (v.interest = some true ∨ v.awaited ∨ v.registering = some cs) then 1
      else 0
  | .worker, cs => v.holders.countP fun w => w.cs = cs
  | .queue, cs => v.queued.count cs
  | .closer, cs => if v.closer.cs = some cs then 1 else 0

/-- The places one by one. -/
theorem total_keepers (n : Place → ClientSocket → Nat) (cs : ClientSocket) :
    Census.total n cs = n .pool cs + n .worker cs + n .queue cs + n .closer cs := by
  simp [Census.total, Finset.univ, Fintype.elems, Nat.add_assoc]

/-- The descriptor says it all. -/
theorem keepers_view (s : Polling) (cs : ClientSocket) (l : Place) :
    s.keepers l cs = (s.view cs.fd).keepers l cs := by
  cases l with
  | pool =>
      have hreg : s.registering.filter (fun x => x.fd = cs.fd) = some cs ↔
          s.registering = some cs := by
        cases s.registering <;> grind
      refine if_congr ?_ rfl rfl
      simp only [Watched, view, decide_eq_true_eq, hreg]
  | worker =>
      simp only [keepers, View.keepers, view, List.countP_filter]
      refine List.countP_congr fun w _ => ?_
      grind [holds]
  | queue =>
      simp only [keepers, View.keepers, view]
      rw [List.count_filter (by simp)]
  | closer =>
      simp only [keepers, View.keepers, view]
      refine if_congr ?_ rfl rfl
      cases hcs : s.closer <;> simp [CloserPc.cs] <;> grind

/-- **In each of its states a descriptor has one keeper, if it has a socket.** -/
theorem Lifecycle.total {fd : Int} {v : View} (h : Lifecycle fd v) {cs : ClientSocket}
    (hfd : cs.fd = fd) :
    Census.total v.keepers cs = if v.file = some cs.socket then 1 else 0 := by
  obtain ⟨_, m⟩ := cs
  obtain rfl := hfd
  rw [total_keepers]
  cases h with
  | accepted | evicted => simp [View.keepers, CloserPc.cs, List.count_singleton] <;> grind
  | _ => simp [View.keepers, CloserPc.cs, eq_comm]

/-! ## the invariant -/

/-- What the careful steps keep. -/
structure Inv (cfg : LoopConfig) (s : Polling) : Prop where
  loop : s.loop.Inv
  survives : s.loop.Survives
  closer : s.closer ≠ .raised
  workers : ∀ w ∈ s.workers, w.pc ≠ .raised
  nodup : s.loop.pc.rest.Nodup
  registering : s.registering ≠ none → ∃ rest, s.loop.pc = .events rest
  srv : s.descriptors.files cfg.srvFd = none
  lifecycle : ∀ fd, Lifecycle fd (s.view fd)

section Steps

variable {cfg : LoopConfig} {s t : Polling}

theorem Inv.kept (h : Inv cfg s) : s.Kept where
  loop := h.survives
  closer := h.closer
  workers := h.workers
  once := fun cs => by
    have htotal := @Lifecycle.total _ _ (h.lifecycle cs.fd) cs rfl
    rw [total_keepers] at htotal ⊢
    simp only [keepers_view, htotal, Descriptors.isOpen, decide_eq_true_eq]
    rfl
  disarmed := fun w hw hserving => by
    have hact : w.pc.isActive := by
      cases hpc : w.pc <;> simp_all [WorkerPc.isServing, WorkerPc.isActive]
    have hmem : w ∈ (s.view w.cs.fd).holders := by
      simp [view, holds, hw, hact]
    obtain h' | ⟨hpc, -⟩ | ⟨c, hpc, -⟩ | ⟨c, hpc, -⟩ :=
      ((h.lifecycle w.cs.fd).held hmem).stage
    · exact h'.2.1
    all_goals rw [hpc] at hserving; cases hserving

theorem inv_init (cfg : LoopConfig) : Inv cfg {} where
  loop := MainLoop.inv_init ⟨_, ClientSocketPool.filed_empty⟩
  survives := by simp [MainLoop.Survives]
  closer := by simp
  workers := by simp
  nodup := List.nodup_nil
  registering := by simp
  srv := rfl
  lifecycle := fun fd => .closed

/-! ## the runs of `handle_client` -/

theorem Inv.held (h : Inv cfg s) {i : Nat} {w : Worker} (hi : s.workers[i]? = some w)
    (hact : w.pc.isActive) : Held (s.view w.cs.fd) w :=
  (h.lifecycle w.cs.fd).held (by simp [view, holds, List.mem_of_getElem? hi, hact])

/-- While a run has its socket, the loop does not come to the descriptor. -/
theorem Inv.dispatch_ne (h : Inv cfg s) {i : Nat} {w : Worker} (hi : s.workers[i]? = some w)
    (hact : w.pc.isActive) {fd : Int} {rest : List Int} (hpc : s.loop.pc = .dispatch fd rest) :
    fd ≠ w.cs.fd := by
  rintro rfl
  obtain ⟨cs, hcs⟩ := ClientSocketPool.isPending_iff.mp (h.loop.ready _ _ hpc)
  have hawaited : (s.view w.cs.fd).awaited = true := by
    simp [view, hpc, LoopPc.rest]
  obtain ⟨-, -, hs, -⟩ | ⟨-, -, -, hr⟩ | ⟨_, -, -, hs⟩ | ⟨_, -, -, hs⟩ := (h.held hi hact).stage
  · cases hcs.symm.trans hs
  · cases hawaited.symm.trans hr
  · cases hcs.symm.trans hs
  · cases hcs.symm.trans hs

/-- **A step of a run** concerns the descriptor of its socket only. -/
theorem Inv.moved (h : Inv cfg s) {i : Nat} {w : Worker} (hi : s.workers[i]? = some w)
    (hact : w.pc.isActive) {pc : WorkerPc} (hraised : pc ≠ .raised) {pool : ClientSocketPool}
    {d : Descriptors} (hfiled : pool.Filed)
    (hstatus : ∀ fd, fd ≠ w.cs.fd → pool.status fd = s.loop.pool.status fd)
    (hfiles : ∀ fd, fd ≠ w.cs.fd → d.files fd = s.descriptors.files fd)
    (hinterest : ∀ fd, fd ≠ w.cs.fd → d.interest fd = s.descriptors.interest fd)
    {file : Option Nat} {interest : Option Bool} {status : Option (ClientSocket × Bool)}
    (hfile : d.files w.cs.fd = file) (hint : d.interest w.cs.fd = interest)
    (hst : pool.status w.cs.fd = status)
    (hlife : Lifecycle w.cs.fd ⟨file, interest, status, if pc.isActive then [{ w with pc }] else [],
      [], .get, none, (s.view w.cs.fd).awaited⟩) :
    Inv cfg { s with
      loop := { s.loop with pool }
      descriptors := d
      workers := s.workers.set i { w with pc } } := by
  have hheld := h.held hi hact
  refine ⟨⟨hfiled, fun fd rest hpc => ?_⟩, h.survives, h.closer, fun w' hw' => ?_, h.nodup,
    h.registering, ?_, fun fd => ?_⟩
  · have hpending := h.loop.ready fd rest hpc
    rw [ClientSocketPool.isPending, hstatus fd (h.dispatch_ne hi hact hpc)]
    exact hpending
  · obtain hw' | rfl := List.mem_or_eq_of_mem_set hw'
    · exact h.workers w' hw'
    · exact hraised
  · have hne : cfg.srvFd ≠ w.cs.fd := fun heq => by
      have hsrv := h.srv
      rw [heq] at hsrv
      cases hsrv.symm.trans hheld.file
    exact (hfiles _ hne).trans h.srv
  · obtain ⟨before, after, hold, hnew⟩ := filter_moved (holds fd) { w with pc } hi
    by_cases hfd : fd = w.cs.fd
    · subst hfd
      have hnil : before = [] ∧ after = [] := by
        have hone : (s.view w.cs.fd).holders = before ++ [w] ++ after := by
          simp [view, hold, holds, hact]
        rw [hheld.holders] at hone
        have hlength := congrArg List.length hone
        simp only [List.length_append, List.length_singleton] at hlength
        exact ⟨List.length_eq_zero_iff.mp (by omega), List.length_eq_zero_iff.mp (by omega)⟩
      obtain ⟨rfl, rfl⟩ := hnil
      convert hlife using 1
      refine View.ext hfile hint hst ?_ hheld.queued hheld.closer hheld.registering rfl
      simp [view, hnew, holds]
    · convert h.lifecycle fd using 1
      refine View.ext (hfiles fd hfd) (hinterest fd hfd) (hstatus fd hfd) ?_ rfl rfl rfl rfl
      simp [view, hold, hnew, holds, Ne.symm hfd]

/-- A run that has its socket in use decides to close it. -/
theorem Inv.setPc (h : Inv cfg s) {i : Nat} {w : Worker} (hi : s.workers[i]? = some w)
    (hpc : w.pc = .serving) (c : Bool) : Inv cfg (s.setPc i w (.delCsInUse c)) := by
  have hact : w.pc.isActive := by rw [hpc]; rfl
  have hheld := h.held hi hact
  obtain ⟨-, hinterest, hstatus, hawaited⟩ | ⟨hw, -⟩ | ⟨_, hw, -⟩ | ⟨_, hw, -⟩ := hheld.stage
  · refine h.moved hi hact (by simp) h.loop.filed (fun _ _ => rfl) (fun _ _ => rfl)
      (fun _ _ => rfl) hheld.file hinterest hstatus ?_
    rw [hawaited]
    exact .served rfl
  all_goals cases hpc.symm.trans hw

/-- A run gives its socket back. -/
theorem Inv.setCsPending (h : Inv cfg s) {i : Nat} {w : Worker} (hi : s.workers[i]? = some w)
    (hpc : w.pc = .serving) : Inv cfg (s.setCsPending i w) := by
  have hact : w.pc.isActive := by rw [hpc]; rfl
  have hheld := h.held hi hact
  obtain ⟨-, hinterest, hstatus, hawaited⟩ | ⟨hw, -⟩ | ⟨_, hw, -⟩ | ⟨_, hw, -⟩ := hheld.stage
  · obtain ⟨q, hset, hfiled, hq⟩ := h.loop.filed.setCsPending hstatus
    rw [Polling.setCsPending, hset]
    refine h.moved hi hact (by simp) hfiled (fun fd hfd => ?_) (fun _ _ => rfl)
      (fun _ _ => rfl) hheld.file hinterest (by rw [hq, Function.update_self]) ?_
    · rw [hq, Function.update_of_ne hfd]
    · rw [hawaited]
      exact .pending
  all_goals cases hpc.symm.trans hw

/-- The next statement of a run that has not disposed of its socket: it raises nothing. -/
theorem Inv.work (h : Inv cfg s) {i : Nat} {w : Worker} (hi : s.workers[i]? = some w)
    (hs : s.work i w = some t) : Inv cfg t := by
  have hact : w.pc.isActive := by
    cases hpc : w.pc <;> simp_all [Polling.work, WorkerPc.isActive]
  have hheld := h.held hi hact
  have hfile : s.descriptors.files w.cs.fd = some w.cs.socket := hheld.file
  have hopen : s.descriptors.isOpen w.cs = true := by simp [Descriptors.isOpen, hfile]
  obtain ⟨hserving, hinterest, hstatus, hawaited⟩ | ⟨hpc, hinterest, hstatus, hawaited⟩ |
    ⟨c, hpc, hinterest, hstatus⟩ | ⟨c, hpc, hinterest, hstatus⟩ := hheld.stage
  · cases hpc : w.pc with
    | delCsInUse c =>
        obtain ⟨q, hdel, hfiled, hq⟩ := h.loop.filed.delCsInUse hstatus
        simp only [Polling.work, hpc, hdel, Option.some.injEq] at hs
        subst hs
        refine h.moved hi hact (by simp) hfiled (fun fd hfd => ?_) (fun _ _ => rfl)
          (fun _ _ => rfl) hfile hinterest (by rw [hq, Function.update_self]) .removed
        rw [hq, Function.update_of_ne hfd]
    | serving => simp [Polling.work, hpc] at hs
    | _ => simp [hpc, WorkerPc.isServing] at hserving
  · have hmodify : s.descriptors.modify w.cs =
        some (s.descriptors.setInterest w.cs.fd (some true)) := by
      have hsome : s.descriptors.interest w.cs.fd = some false := hinterest
      simp [Descriptors.modify, hopen, hsome]
    simp only [Polling.work, hpc, hmodify, Option.some.injEq] at hs
    subst hs
    refine h.moved hi hact (by simp) h.loop.filed (fun _ _ => rfl) (fun _ _ => rfl)
      (fun fd hfd => ?_) hfile (Function.update_self ..) hstatus .armed
    exact Function.update_of_ne hfd ..
  · have hunregister : s.descriptors.unregister w.cs.fd =
        some (s.descriptors.setInterest w.cs.fd none) := by
      have hsome : s.descriptors.interest w.cs.fd = some false := hinterest
      simp [Descriptors.unregister, hsome]
    simp only [Polling.work, hpc, hunregister, Option.some.injEq] at hs
    subst hs
    refine h.moved hi hact (by simp) h.loop.filed (fun _ _ => rfl) (fun _ _ => rfl)
      (fun fd hfd => ?_) hfile (Function.update_self ..) hstatus .unregistered
    exact Function.update_of_ne hfd ..
  · simp only [Polling.work, hpc, Descriptors.close, hopen, if_true, Option.some.injEq] at hs
    subst hs
    refine h.moved hi hact (by simp) h.loop.filed (fun _ _ => rfl) (fun fd hfd => ?_)
      (fun fd hfd => ?_) (Function.update_self ..) (Function.update_self ..) hstatus .closed
    · exact Function.update_of_ne hfd ..
    · exact Function.update_of_ne hfd ..

/-! ## `closing_cs` -/

/-- A step that concerns one descriptor only. -/
theorem Inv.lifecycle_of_at (h : Inv cfg s) {x : Int} (hx : Lifecycle x (t.view x))
    (hother : ∀ fd, fd ≠ x → t.view fd = s.view fd) (fd : Int) : Lifecycle fd (t.view fd) := by
  by_cases hfd : fd = x
  · exact hfd ▸ hx
  · exact hother fd hfd ▸ h.lifecycle fd

theorem Inv.closingCs (h : Inv cfg s) (hs : s.closingCs = some t) : Inv cfg t := by
  unfold Polling.closingCs at hs
  cases hcloser : s.closer with
  | raised => exact absurd hcloser h.closer
  | get =>
      cases hqueue : s.loop.queueCsForClose with
      | nil => simp [hcloser, hqueue] at hs
      | cons cs queue =>
          simp only [hcloser, hqueue, Option.some.injEq] at hs
          subst hs
          have hqueued : (s.view cs.fd).queued = cs :: queue.filter fun c => c.fd = cs.fd := by
            simp [view, hqueue]
          obtain ⟨b, hview, hnil⟩ := (h.lifecycle cs.fd).of_queued hqueued
          obtain ⟨hfile, hinterest, hstatus, hholders, -, -, hregistering, -⟩ :=
            View.ext_iff.mp hview
          refine ⟨⟨h.loop.filed, h.loop.ready⟩, h.survives, by simp, h.workers, h.nodup,
            h.registering, h.srv, h.lifecycle_of_at (x := cs.fd) ?_ fun fd hfd => ?_⟩
          · convert Lifecycle.taken (n := cs.socket) (b := b) (r := (s.view cs.fd).awaited) using 1
            exact View.ext hfile hinterest hstatus hholders hnil (by simp [view, CloserPc.cs])
              hregistering rfl
          · refine View.ext rfl rfl rfl rfl ?_ ?_ rfl rfl
            · simp [view, hqueue, Ne.symm hfd]
            · simp [view, hcloser, CloserPc.cs, Ne.symm hfd]
  | unregister cs =>
      have hunregister : (s.view cs.fd).closer = .unregister cs := by
        simp [view, hcloser, CloserPc.cs]
      obtain ⟨b, hview⟩ := (h.lifecycle cs.fd).of_unregister hunregister
      obtain ⟨hfile, hinterest, hstatus, hholders, hqueued, -, hregistering, -⟩ :=
        View.ext_iff.mp hview
      have hunregister : s.descriptors.unregister cs.fd =
          some (s.descriptors.setInterest cs.fd none) := by
        have hsome : s.descriptors.interest cs.fd = some b := hinterest
        simp [Descriptors.unregister, hsome]
      simp only [hcloser, hunregister, Option.some.injEq] at hs
      subst hs
      refine ⟨h.loop, h.survives, by simp, h.workers, h.nodup, h.registering, h.srv,
        h.lifecycle_of_at (x := cs.fd) ?_ fun fd hfd => ?_⟩
      · convert Lifecycle.released (n := cs.socket) (r := (s.view cs.fd).awaited) using 1
        exact View.ext hfile (Function.update_self ..) hstatus hholders hqueued
          (by simp [view, CloserPc.cs]) hregistering rfl
      · refine View.ext rfl (Function.update_of_ne hfd ..) rfl rfl rfl ?_ rfl rfl
        simp [view, hcloser, CloserPc.cs, Ne.symm hfd]
  | close cs =>
      have hclose : (s.view cs.fd).closer = .close cs := by simp [view, hcloser, CloserPc.cs]
      have hview := (h.lifecycle cs.fd).of_close hclose
      obtain ⟨hfile, -, hstatus, hholders, hqueued, -, hregistering, -⟩ := View.ext_iff.mp hview
      have hopen : s.descriptors.isOpen cs = true := by
        have hsome : s.descriptors.files cs.fd = some cs.socket := hfile
        simp [Descriptors.isOpen, hsome]
      simp only [hcloser, Descriptors.close, hopen, if_true, Option.some.injEq] at hs
      subst hs
      refine ⟨h.loop, h.survives, by simp, h.workers, h.nodup, h.registering, ?_,
        h.lifecycle_of_at (x := cs.fd) ?_ fun fd hfd => ?_⟩
      · by_cases hsrv : cfg.srvFd = cs.fd
        · exact hsrv ▸ Function.update_self ..
        · exact (Function.update_of_ne hsrv ..).trans h.srv
      · convert Lifecycle.closed (r := (s.view cs.fd).awaited) using 1
        exact View.ext (Function.update_self ..) (Function.update_self ..) hstatus hholders hqueued
          (by simp [view, CloserPc.cs]) hregistering rfl
      · refine View.ext (Function.update_of_ne hfd ..) (Function.update_of_ne hfd ..) rfl rfl rfl
          ?_ rfl rfl
        simp [view, hcloser, CloserPc.cs, Ne.symm hfd]

/-! ## the main loop -/

theorem step_accept {cs : Option ClientSocket} (hs : s.step cfg (.accept cs) = some t) :
    ∃ rest, s.loop.pc = .events (cfg.srvFd :: rest) ∧ s.registering = none ∧
      (∀ x ∈ cs, x.fd ≠ cfg.srvFd ∧ s.descriptors.files x.fd = none) ∧ t = s.accept cs rest := by
  simp only [Polling.step] at hs
  split at hs
  next hcs =>
    split at hs
    next fd rest hpc =>
      split at hs
      next hfd => exact ⟨rest, hfd ▸ hpc, hcs.1, hcs.2, (Option.some.inj hs).symm⟩
      next => cases hs
    next => cases hs
  next => cases hs

theorem Inv.register (h : Inv cfg s) {cs : ClientSocket} (hreg : s.registering = some cs) :
    Inv cfg (s.register cs) := by
  have hregistering : (s.view cs.fd).registering = some cs := by simp [view, hreg]
  have hview := (h.lifecycle cs.fd).of_registering hregistering
  obtain ⟨hfile, hinterest, hstatus, hholders, hqueued, hcloser, -, -⟩ := View.ext_iff.mp hview
  have hregister : s.descriptors.register cs =
      some (s.descriptors.setInterest cs.fd (some true)) := by
    have hsome : s.descriptors.files cs.fd = some cs.socket := hfile
    have hnone : s.descriptors.interest cs.fd = none := hinterest
    simp [Descriptors.register, Descriptors.isOpen, hsome, hnone]
  rw [Polling.register, hregister]
  refine ⟨h.loop, h.survives, h.closer, h.workers, h.nodup, by simp, h.srv,
    h.lifecycle_of_at (x := cs.fd) ?_ fun fd hfd => ?_⟩
  · convert Lifecycle.armed (n := cs.socket) (r := (s.view cs.fd).awaited) using 1
    exact View.ext hfile (Function.update_self ..) hstatus hholders hqueued hcloser rfl rfl
  · refine View.ext rfl (Function.update_of_ne hfd ..) rfl rfl rfl rfl ?_ rfl
    simp [view, hreg, Option.filter, Ne.symm hfd]

theorem Inv.accept (h : Inv cfg s) {cs : ClientSocket} {rest : List Int}
    (hpc : s.loop.pc = .events (cfg.srvFd :: rest)) (hreg : s.registering = none)
    (hsrv : cs.fd ≠ cfg.srvFd) (hfree : s.descriptors.files cs.fd = none) :
    Inv cfg (s.accept (some cs) rest) := by
  obtain ⟨q, hadd, hfiled, hq⟩ := h.loop.filed.addCsPending cs
  have hnodup := h.nodup
  rw [hpc] at hnodup
  have haccept : s.loop.accept (some cs) rest = { s.loop with pool := q, pc := .events rest } := by
    simp only [MainLoop.accept, hadd]
  rw [Polling.accept, haccept]
  refine ⟨⟨hfiled, fun _ _ hpc => by cases hpc⟩, (fun _ hpc => by cases hpc), h.closer, h.workers,
    (List.nodup_cons.mp hnodup).2, fun _ => ⟨rest, rfl⟩, ?_, fun fd => ?_⟩
  · exact (Function.update_of_ne (Ne.symm hsrv) ..).trans h.srv
  · by_cases hfd : fd = cs.fd
    · subst hfd
      have hview := (h.lifecycle cs.fd).of_file_none hfree
      obtain ⟨-, hinterest, -, hholders, hqueued, hcloser, -, -⟩ := View.ext_iff.mp hview
      convert Lifecycle.accepted (n := cs.socket) (r := decide (cs.fd ∈ rest)) using 1
      refine View.ext (Function.update_self ..) hinterest ?_ hholders hqueued hcloser ?_ rfl
      · simp [view, hq]
      · simp [view]
    · have hview : ∀ fd, fd ≠ cs.fd → view { s with
          loop := { s.loop with pool := q, pc := .events rest }
          registering := some cs
          descriptors := s.descriptors.accept cs } fd =
            { s.view fd with awaited := decide (fd ∈ rest) } := by
        intro fd hfd
        refine View.ext (Function.update_of_ne hfd ..) rfl ?_ rfl rfl rfl ?_ rfl
        · simp [view, hq, Function.update_of_ne hfd]
        · simp [view, hreg, Option.filter, Ne.symm hfd]
      show Lifecycle fd (view _ fd)
      rw [Option.map_some, Option.getD_some, hview fd hfd]
      by_cases hfdsrv : fd = cfg.srvFd
      · rw [(h.lifecycle fd).of_file_none (hfdsrv ▸ h.srv)]
        exact .closed
      · have hsame : decide (fd ∈ rest) = (s.view fd).awaited := by
          simp [view, hpc, LoopPc.rest, hfdsrv]
        rw [hsame]
        exact h.lifecycle fd

theorem Inv.poll (h : Inv cfg s) {events : List Int} (hnodup : events.Nodup)
    (harmed : ∀ fd ∈ events, fd = cfg.srvFd ∨ s.descriptors.interest fd = some true)
    {loop : MainLoop} (hs : s.loop.step cfg (.poll events) = some loop) :
    Inv cfg { s with loop, descriptors := s.descriptors.report events } := by
  have hinv := h.loop.step hs
  obtain ⟨hpc, rfl⟩ := MainLoop.step_poll hs
  refine ⟨hinv, (fun _ hpc => by cases hpc), h.closer, h.workers, hnodup, fun _ => ⟨events, rfl⟩,
    h.srv, fun fd => ?_⟩
  by_cases hfd : fd ∈ events
  · by_cases hfdsrv : fd = cfg.srvFd
    · have hview := (h.lifecycle fd).of_file_none (hfdsrv ▸ h.srv)
      obtain ⟨hfile, hinterest, hstatus, hholders, hqueued, hcloser, hregistering, -⟩ :=
        View.ext_iff.mp hview
      convert Lifecycle.closed (r := true) using 1
      refine View.ext hfile ?_ hstatus hholders hqueued hcloser hregistering ?_
      · have hnone : s.descriptors.interest fd = none := hinterest
        simp [view, Descriptors.report, hfd, hnone]
      · simp [view, LoopPc.rest, hfd]
    · have htrue := (harmed fd hfd).resolve_left hfdsrv
      convert (h.lifecycle fd).report htrue using 1
      refine View.ext rfl ?_ rfl rfl rfl rfl rfl ?_
      · simp [view, Descriptors.report, hfd, htrue]
      · simp [view, LoopPc.rest, hfd]
  · convert h.lifecycle fd using 1
    refine View.ext rfl ?_ rfl rfl rfl rfl rfl ?_
    · simp [view, Descriptors.report, hfd]
    · simp [view, LoopPc.rest, hfd, hpc]

/-- A statement of the loop that hands nothing over. -/
theorem goOn_of_submitted {loop : MainLoop} (h : loop.submitted = s.loop.submitted) :
    s.goOn loop = { s with loop } := by
  simp [goOn, h]

/-- A statement of the loop that only changes the events that it has still to come to. -/
theorem Inv.setLoopPc (h : Inv cfg s) {pc : LoopPc} (hraised : ∀ e, pc ≠ .raised e)
    (hready : ∀ fd rest, pc = .dispatch fd rest → s.loop.pool.isPending fd = true)
    (hnodup : pc.rest.Nodup) (hreg : s.registering = none)
    (hrest : ∀ fd, fd ∈ pc.rest ↔ fd ∈ s.loop.pc.rest) :
    Inv cfg (s.goOn { s.loop with pc }) := by
  rw [goOn_of_submitted (by rfl)]
  refine ⟨⟨h.loop.filed, hready⟩, hraised, h.closer, h.workers, hnodup,
    fun hne => absurd hreg hne, h.srv, fun fd => ?_⟩
  have hsame : view { s with loop := { s.loop with pc } } fd = s.view fd :=
    View.ext rfl rfl rfl rfl rfl rfl rfl (by simp [view, hrest])
  exact hsame ▸ h.lifecycle fd

theorem Inv.evicted (h : Inv cfg s) {n : Int} (hpc : s.loop.pc = .evict n)
    (hreg : s.registering = none) (he : s.Evictable) : Inv cfg (s.goOn (s.loop.evict n)) := by
  obtain ⟨e, htail, hstatus, harmed⟩ := he
  obtain ⟨q, hpop, hfiled, hq⟩ := h.loop.filed.popCsPendingFromTail_of_tail htail hstatus
  generalize s.loop.pool.csOf e = cs at hpop hstatus harmed hq
  rw [MainLoop.evict, hpop, goOn_of_submitted (by rfl)]
  have hview := (h.lifecycle cs.fd).of_armed hstatus harmed
  obtain ⟨hfile, -, -, hholders, hqueued, hcloser, hregistering, -⟩ := View.ext_iff.mp hview
  refine ⟨⟨hfiled, fun _ _ hpc => by cases hpc⟩, (fun _ hpc => by cases hpc), h.closer, h.workers,
    List.nodup_nil, fun hne => absurd hreg hne, h.srv,
    h.lifecycle_of_at (x := cs.fd) ?_ fun fd hfd => ?_⟩
  · convert Lifecycle.evicted (n := cs.socket) (b := true) (r := false) using 1
    refine View.ext hfile harmed ?_ hholders ?_ hcloser hregistering ?_
    · simp [view, hq]
    · have hnil : s.loop.queueCsForClose.filter (fun c => c.fd = cs.fd) = [] := hqueued
      simp [view, hnil]
    · simp [view, LoopPc.rest]
  · refine View.ext rfl rfl ?_ rfl ?_ rfl rfl ?_
    · simp [view, hq, Function.update_of_ne hfd]
    · simp [view, Ne.symm hfd]
    · simp [view, hpc, LoopPc.rest]

theorem Inv.dispatched (h : Inv cfg s) {fd : Int} {rest : List Int}
    (hpc : s.loop.pc = .dispatch fd rest) (hreg : s.registering = none)
    (hdisarmed : s.descriptors.interest fd = some false) :
    Inv cfg (s.goOn (s.loop.dispatch fd rest)) := by
  obtain ⟨cs, hstatus⟩ := ClientSocketPool.isPending_iff.mp (h.loop.ready fd rest hpc)
  obtain ⟨q, hget, hfiled, hq⟩ := h.loop.filed.getCsAndSetInUse hstatus
  obtain rfl := h.loop.filed.status_fd hstatus
  have hnodup := h.nodup
  rw [hpc] at hnodup
  obtain ⟨hnot, hnodup⟩ := List.nodup_cons.mp hnodup
  have hview := (h.lifecycle cs.fd).of_reported hstatus hdisarmed (by simp [view, hpc, LoopPc.rest])
  obtain ⟨hfile, -, -, hholders, hqueued, hcloser, hregistering, -⟩ := View.ext_iff.mp hview
  have hgoOn : s.goOn (s.loop.dispatch cs.fd rest) = { s with
      loop := { s.loop with
        pool := q, submitted := s.loop.submitted ++ [cs], pc := .events rest }
      workers := s.workers ++ [{ cs }] } := by
    simp [goOn, MainLoop.dispatch, hget]
  rw [hgoOn]
  refine ⟨⟨hfiled, fun _ _ hpc => by cases hpc⟩, (fun _ hpc => by cases hpc), h.closer,
    fun w hw => ?_, hnodup, fun hne => absurd hreg hne, h.srv,
    h.lifecycle_of_at (x := cs.fd) ?_ fun fd hfd => ?_⟩
  · obtain hw | hw := List.mem_append.mp hw
    · exact h.workers w hw
    · obtain rfl := List.mem_singleton.mp hw
      simp
  · convert @Lifecycle.served cs.fd cs.socket .serving rfl using 1
    refine View.ext hfile hdisarmed ?_ ?_ hqueued hcloser hregistering ?_
    · simp [view, hq]
    · have hnil : s.workers.filter (holds cs.fd) = [] := hholders
      simp [view, hnil, holds, WorkerPc.isActive]
    · simp [view, LoopPc.rest, hnot]
  · refine View.ext rfl rfl ?_ ?_ rfl rfl rfl ?_
    · simp [view, hq, Function.update_of_ne hfd]
    · simp [view, holds, Ne.symm hfd]
    · refine decide_eq_decide.mpr ?_
      simp [hpc, LoopPc.rest, hfd]

theorem Inv.broken (h : Inv cfg s) {fd : Int} {rest : List Int}
    (hpc : s.loop.pc = .events (fd :: rest)) (hreg : s.registering = none)
    (hfd : s.loop.pool.isPending fd = false) (hrest : ∀ x ∈ rest, ¬ s.Reported x) :
    Inv cfg (s.goOn { s.loop with pc := .getSize }) := by
  rw [goOn_of_submitted (by rfl)]
  refine ⟨⟨h.loop.filed, fun _ _ hpc => by cases hpc⟩, (fun _ hpc => by cases hpc), h.closer,
    h.workers, List.nodup_nil, fun hne => absurd hreg hne, h.srv, fun x => ?_⟩
  have hforget : view { s with loop := { s.loop with pc := .getSize } } x =
      { s.view x with awaited := false } :=
    View.ext rfl rfl rfl rfl rfl rfl rfl (by simp [view, LoopPc.rest])
  rw [hforget]
  refine (h.lifecycle x).forget fun cs hstatus hdisarmed => ?_
  have hpending : s.loop.pool.isPending x = true :=
    ClientSocketPool.isPending_iff.mpr ⟨cs, hstatus⟩
  refine decide_eq_false fun hmem => ?_
  rw [hpc] at hmem
  obtain rfl | hmem := List.mem_cons.mp hmem
  · cases hfd.symm.trans hpending
  · exact hrest x hmem ⟨hpending, hdisarmed⟩

/-- A statement of the main loop. -/
theorem Inv.main (h : Inv cfg s) (hcareful : s.Careful cfg .main)
    (hs : s.step cfg .main = some t) : Inv cfg t := by
  simp only [Polling.step] at hs
  cases hreg : s.registering with
  | some cs =>
      simp only [hreg, Option.some.injEq] at hs
      exact hs ▸ h.register hreg
  | none =>
      simp only [hreg, Option.map_eq_some_iff] at hs
      obtain ⟨loop, hmain, rfl⟩ := hs
      have hcare := hcareful hreg
      cases hpc : s.loop.pc with
      | getSize =>
          simp only [MainLoop.main, hpc, Option.some.injEq] at hmain
          subst hmain
          exact h.setLoopPc (by simp) (by simp) List.nodup_nil hreg (by simp [hpc, LoopPc.rest])
      | evict n =>
          simp only [hpc] at hcare
          simp only [MainLoop.main, hpc] at hmain
          by_cases hn : n > cfg.maxPendingClientSockets
          · rw [if_pos hn] at hmain
            obtain rfl := Option.some.inj hmain
            exact h.evicted hpc hreg (hcare hn)
          · rw [if_neg hn] at hmain
            obtain rfl := Option.some.inj hmain
            exact h.setLoopPc (by simp) (by simp) List.nodup_nil hreg (by simp [hpc, LoopPc.rest])
      | poll => simp [MainLoop.main, hpc] at hmain
      | events rest =>
          cases rest with
          | nil =>
              simp only [MainLoop.main, hpc, Option.some.injEq] at hmain
              subst hmain
              exact h.setLoopPc (by simp) (by simp) List.nodup_nil hreg (by simp [hpc, LoopPc.rest])
          | cons fd rest =>
              simp only [hpc] at hcare
              simp only [MainLoop.main, hpc] at hmain
              by_cases hfd : fd = cfg.srvFd
              · simp [hfd] at hmain
              · rw [if_neg hfd] at hmain
                obtain rfl := Option.some.inj hmain
                cases hpending : s.loop.pool.isPending fd with
                | true =>
                    rw [MainLoop.isInUse_of_isPending rest hpending]
                    have hnodup := h.nodup
                    rw [hpc] at hnodup
                    refine h.setLoopPc (by simp) (fun _ _ heq => ?_) hnodup hreg
                      (by simp [hpc, LoopPc.rest])
                    cases heq
                    exact hpending
                | false =>
                    rw [MainLoop.isInUse_of_not_isPending rest hpending]
                    exact h.broken hpc hreg hpending (hcare hfd hpending)
      | dispatch fd rest =>
          simp only [hpc] at hcare
          simp only [MainLoop.main, hpc, Option.some.injEq] at hmain
          subst hmain
          exact h.dispatched hpc hreg hcare
      | raised e => exact absurd hpc (h.survives e)

/-- **A careful step keeps the invariant.** -/
theorem Inv.step (h : Inv cfg s) {l : Label} (hcareful : s.Careful cfg l)
    (hs : s.step cfg l = some t) : Inv cfg t := by
  cases l with
  | main => exact h.main hcareful hs
  | poll events =>
      simp only [Polling.step] at hs
      split at hs
      next hevents =>
        obtain ⟨loop, hloop, rfl⟩ := Option.map_eq_some_iff.mp hs
        exact h.poll hevents.1 hevents.2 hloop
      next => cases hs
  | accept cs =>
      obtain ⟨rest, hpc, hreg, hcs, rfl⟩ := step_accept hs
      obtain ⟨cs, rfl⟩ := Option.ne_none_iff_exists'.mp hcareful
      obtain ⟨hsrv, hfree⟩ := hcs cs rfl
      exact h.accept hpc hreg hsrv hfree
  | keepAlive i =>
      obtain ⟨w, hi, hw⟩ := Option.bind_eq_some_iff.mp hs
      split at hw
      next hpc => exact Option.some.inj hw ▸ h.setCsPending hi hpc
      next => cases hw
  | giveUp i =>
      obtain ⟨w, hi, hw⟩ := Option.bind_eq_some_iff.mp hs
      split at hw
      next hpc => exact Option.some.inj hw ▸ h.setPc hi hpc false
      next => cases hw
  | fail i =>
      obtain ⟨w, hi, hw⟩ := Option.bind_eq_some_iff.mp hs
      split at hw
      next hpc =>
        exact Option.some.inj hw ▸ h.setPc hi (hpc.resolve_right (hcareful w hi)) true
      next => cases hw
  | work i =>
      obtain ⟨w, hi, hw⟩ := Option.bind_eq_some_iff.mp hs
      exact h.work hi hw
  | closingCs => exact h.closingCs hs

/-! ## a step that is not careful -/

/-- A socket that is open and in nobody's care. -/
theorem not_kept_of_open (cs : ClientSocket) (hopen : s.descriptors.isOpen cs = true)
    (h : Census.total s.keepers cs = 0) : ¬ s.Kept := fun hkept => by
  have honce := hkept.once cs
  rw [hopen, h] at honce
  cases honce

/-- A socket that is in the care of two. -/
theorem not_kept_of_two (cs : ClientSocket) (h : 2 ≤ Census.total s.keepers cs) : ¬ s.Kept :=
  fun hkept => by
    have honce := hkept.once cs
    split at honce <;> omega

/-- A socket that is closed, and in someone's care. -/
theorem not_kept_of_closed (cs : ClientSocket) (hopen : s.descriptors.isOpen cs = false)
    (h : 1 ≤ Census.total s.keepers cs) : ¬ s.Kept := fun hkept => by
  have honce := hkept.once cs
  rw [hopen] at honce
  simp only [Bool.false_eq_true, if_false] at honce
  omega

/-- An eviction of anything but a pending and armed socket. -/
theorem Inv.not_kept_evict (h : Inv cfg s) {n : Int} (hpc : s.loop.pc = .evict n)
    (hreg : s.registering = none) (he : ¬ s.Evictable) : ¬ (s.goOn (s.loop.evict n)).Kept := by
  by_cases hp : s.loop.pool.Poppable
  · obtain ⟨e, htail, hsome⟩ := hp
    obtain ⟨⟨cs', u⟩, hstatus⟩ := Option.isSome_iff_exists.mp hsome
    obtain ⟨q, hpop, -, -⟩ := h.loop.filed.popCsPendingFromTail_of_tail htail hstatus
    rw [MainLoop.evict, hpop, goOn_of_submitted (by rfl)]
    generalize hcs : s.loop.pool.csOf e = cs at hstatus
    cases hopen : s.descriptors.isOpen cs with
    | false =>
        refine not_kept_of_closed cs hopen ?_
        simp [total_keepers, keepers]
        omega
    | true =>
        have hfile : s.descriptors.files cs.fd = some cs.socket := by
          simpa [Descriptors.isOpen] using hopen
        obtain ⟨hfile', hfd, hcase⟩ := (h.lifecycle cs.fd).of_status hstatus
        obtain rfl : cs' = cs := by
          have hsocket := Option.some.inj (hfile'.symm.trans hfile)
          cases cs'
          cases cs
          simp_all
        obtain hne | ⟨rfl, harmed⟩ | hawaited | ⟨pc, hholders⟩ := hcase
        · simp [view, hreg] at hne
        · exact absurd ⟨e, htail, hcs ▸ hstatus, hcs ▸ harmed⟩ he
        · simp [view, hpc, LoopPc.rest] at hawaited
        · refine not_kept_of_two cs' ?_
          have hworker : s.keepers .worker cs' = 1 := by
            rw [keepers_view]
            simp [View.keepers, hholders]
          have hqueue : 1 ≤ (s.loop.queueCsForClose ++ [cs']).count cs' := by simp
          rw [total_keepers]
          simp only [keepers] at hworker hqueue ⊢
          omega
  · obtain ⟨err, q, hpop, -, -⟩ := h.loop.filed.popCsPendingFromTail_raise hp
    rw [MainLoop.evict, hpop, goOn_of_submitted (by rfl)]
    exact fun hkept => hkept.loop err rfl

/-- A `break` that leaves an event of a reported socket. -/
theorem Inv.not_kept_break (h : Inv cfg s) {fd x : Int} {rest : List Int}
    (hpc : s.loop.pc = .events (fd :: rest)) (hx : x ∈ rest) (hreported : s.Reported x) :
    ¬ (s.goOn { s.loop with pc := .getSize }).Kept := by
  obtain ⟨hpending, hdisarmed⟩ := hreported
  obtain ⟨cs, hstatus⟩ := ClientSocketPool.isPending_iff.mp hpending
  obtain rfl := h.loop.filed.status_fd hstatus
  have hview := (h.lifecycle cs.fd).of_reported hstatus hdisarmed
    (by simp [view, hpc, LoopPc.rest, hx])
  have hforget : view { s with loop := { s.loop with pc := .getSize } } cs.fd =
      { s.view cs.fd with awaited := false } :=
    View.ext rfl rfl rfl rfl rfl rfl rfl (by simp [view, LoopPc.rest])
  rw [goOn_of_submitted (by rfl)]
  refine not_kept_of_open cs ?_ ?_
  · have hfile : s.descriptors.files cs.fd = some cs.socket := congrArg View.file hview
    simp [Descriptors.isOpen, hfile]
  · simp only [total_keepers, keepers_view, hforget, hview]
    simp [View.keepers, CloserPc.cs]

/-- An event that is handled when its descriptor has been armed again. -/
theorem Inv.not_kept_dispatch (h : Inv cfg s) {fd : Int} {rest : List Int}
    (hpc : s.loop.pc = .dispatch fd rest) (hdisarmed : s.descriptors.interest fd ≠ some false) :
    ¬ (s.goOn (s.loop.dispatch fd rest)).Kept := by
  obtain ⟨cs, hstatus⟩ := ClientSocketPool.isPending_iff.mp (h.loop.ready fd rest hpc)
  obtain ⟨q, hget, -, -⟩ := h.loop.filed.getCsAndSetInUse hstatus
  obtain rfl := h.loop.filed.status_fd hstatus
  refine fun hkept => hdisarmed (hkept.disarmed { cs } ?_ rfl)
  simp [goOn, MainLoop.dispatch, hget]

/-- An exception in a run that has disposed of its socket. -/
theorem Inv.not_kept_fail (h : Inv cfg s) {i : Nat} {w : Worker} (hi : s.workers[i]? = some w)
    (hpc : w.pc = .disposed false) : ¬ (s.setPc i w (.except false)).Kept := by
  obtain ⟨hlt, hget⟩ := List.getElem?_eq_some_iff.mp hi
  intro hkept
  have hold := h.kept.once w.cs
  have hnew : _ = if s.descriptors.isOpen w.cs then 1 else 0 := hkept.once w.cs
  have hworker : (s.setPc i w (.except false)).keepers .worker w.cs =
      s.keepers .worker w.cs + 1 := by
    simp only [keepers, Polling.setPc]
    rw [List.countP_set hlt, hget]
    simp [hpc, WorkerPc.isActive, WorkerPc.except]
  have hsame : ∀ l, l ≠ .worker →
      (s.setPc i w (.except false)).keepers l w.cs = s.keepers l w.cs := by
    intro l hl
    cases l with
    | worker => exact absurd rfl hl
    | _ => rfl
  rw [total_keepers] at hnew hold
  rw [hworker, hsame .pool (by simp), hsame .queue (by simp), hsame .closer (by simp)] at hnew
  omega

/-- **A step that is not careful** loses a socket, or has it dealt with twice, or raises. -/
theorem Inv.not_kept (h : Inv cfg s) {l : Label} (hcareful : ¬ s.Careful cfg l)
    (hs : s.step cfg l = some t) : ¬ t.Kept := by
  cases l with
  | main =>
      simp only [Careful, Classical.not_imp] at hcareful
      obtain ⟨hreg, hcare⟩ := hcareful
      simp only [Polling.step, hreg, Option.map_eq_some_iff] at hs
      obtain ⟨loop, hmain, rfl⟩ := hs
      cases hpc : s.loop.pc with
      | evict n =>
          simp only [hpc, Classical.not_imp] at hcare
          simp only [MainLoop.main, hpc, if_pos hcare.1, Option.some.injEq] at hmain
          exact hmain ▸ h.not_kept_evict hpc hreg hcare.2
      | events rest =>
          cases rest with
          | nil => simp [hpc] at hcare
          | cons fd rest =>
              simp only [hpc, Classical.not_imp, not_forall, not_not] at hcare
              obtain ⟨hfd, hpending, x, hx, hreported⟩ := hcare
              simp only [MainLoop.main, hpc, if_neg hfd, Option.some.injEq,
                MainLoop.isInUse_of_not_isPending rest hpending] at hmain
              exact hmain ▸ h.not_kept_break hpc hx hreported
      | dispatch fd rest =>
          simp only [hpc] at hcare
          simp only [MainLoop.main, hpc, Option.some.injEq] at hmain
          exact hmain ▸ h.not_kept_dispatch hpc hcare
      | _ => simp [hpc] at hcare
  | accept cs =>
      obtain ⟨rest, -, -, -, rfl⟩ := step_accept hs
      obtain rfl := not_not.mp hcareful
      exact fun hkept => hkept.loop _ rfl
  | fail i =>
      simp only [Careful, not_forall, not_not] at hcareful
      obtain ⟨w, hi, hpc⟩ := hcareful
      simp only [Polling.step, hi, Option.bind_some, hpc, or_true, if_true, Option.some.injEq] at hs
      exact hs ▸ h.not_kept_fail hi hpc
  | _ => exact absurd trivial hcareful

end Steps

/-! ## results -/

/-- **Custody**: no thread raises, and each open socket is in the care of one thread or of
the pool throughout, exactly in the runs all of whose steps are careful. -/
theorem kept_iff_careful (cfg : LoopConfig) (ls : List Label) :
    Always (fun s l => step cfg s l) Kept {} ls ↔
      Guarded (fun s l => step cfg s l) (Careful cfg) {} ls :=
  always_iff_guarded (I := Inv cfg) _ (fun _ h => h.kept) (fun _ _ _ h => h.step)
    (fun _ _ _ h => h.not_kept) ls (inv_init cfg)

/-- Two clients are accepted and the first one is evicted; `poll` reports both before
`closing_cs` has come to the first. -/
def evictedFirst : List Label :=
  [.main, .main, .poll [3], .accept (some ⟨7, 0⟩), .main, .main, .main, .main, .poll [3],
    .accept (some ⟨8, 1⟩), .main, .main, .main, .main, .main, .poll [7, 8], .main]

/-- The second client stays open, and nobody will ever deal with it. -/
theorem not_always_kept : ¬ ∀ cfg ls, Always (fun s l => step cfg s l) Kept {} ls := by
  intro h
  have hend : ((run (fun s l => step ⟨3, 1⟩ s l) {} evictedFirst).map fun s =>
      (s.descriptors.isOpen ⟨8, 1⟩, Census.total s.keepers ⟨8, 1⟩)) = some (true, 0) := by
    decide
  obtain ⟨s, hrun, hs⟩ := Option.map_eq_some_iff.mp hend
  obtain ⟨hopen, htotal⟩ := Prod.mk.inj hs
  exact not_kept_of_open ⟨8, 1⟩ hopen htotal ((h ⟨3, 1⟩ evictedFirst).last _ hrun)

end Polling

end Web3Proxy
