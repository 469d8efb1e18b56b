import Web3Proxy.MainLoop.Lifecycle

/-!
# Web3Proxy.MainLoop.Uncrowded

The threads that share the clients' sockets, as long as nobody is evicted: there are never
more than `MAX_PENDING_CLIENT_SOCKETS` pending sockets when the main loop looks.

* `kept_of_calm` — then no thread raises, each open socket is in the care of one thread
  or of the pool throughout, and no `break` is ever taken, if no handshake fails and no run
  raises after it has disposed of its socket.

Without evictions each event that the loop comes to is still the one of a pending socket
that has been disarmed.
-/

namespace Web3Proxy

open Py Trans

namespace Polling

/-- Nothing is evicted, an accepted connection is a socket, and no run raises after it has
disposed of its socket. -/
def Calm (cfg : LoopConfig) (s : Polling) : Label → Prop
  | .main => match s.loop.pc with
      | .evict n => n ≤ cfg.maxPendingClientSockets
      | _ => True
  | .accept cs => cs ≠ none
  | .fail i => s.workers[i]?.map Worker.pc ≠ some (.disposed false)
  | _ => True

instance (cfg : LoopConfig) (s : Polling) (l : Label) : Decidable (s.Calm cfg l) :=
  match l with
  | .main => match h : s.loop.pc with
      | .evict n =>
          decidable_of_iff (n ≤ cfg.maxPendingClientSockets) (by simp only [Calm, h])
      | .getSize | .poll | .events _ | .dispatch _ _ | .raised _ =>
          isTrue (by simp only [Calm, h])
  | .accept cs => inferInstanceAs (Decidable (¬ cs = none))
  | .fail i => inferInstanceAs (Decidable (¬ s.workers[i]?.map Worker.pc = some (.disposed false)))
  | .poll _ | .keepAlive _ | .giveUp _ | .work _ | .closingCs => isTrue trivial

/-- The loop takes one of its two `break`s: `is_in_use` is true of the descriptor of the event,
or raises a `KeyError`. -/
def Breaks (cfg : LoopConfig) (s : Polling) : Label → Prop
  | .main => s.registering = none ∧ ∃ fd rest, s.loop.pc = .events (fd :: rest) ∧ fd ≠ cfg.srvFd ∧
      ∃ pool, s.loop.pool.isInUse fd = .ok true pool ∨ s.loop.pool.isInUse fd = .raise .keyError pool
  | _ => False

/-- What the calm steps keep besides. -/
structure Settled (cfg : LoopConfig) (s : Polling) : Prop where
  inv : Inv cfg s
  queue : s.loop.queueCsForClose = []
  closer : s.closer = .get
  reported : ∀ fd ∈ s.loop.pc.rest, fd ≠ cfg.srvFd → s.Reported fd

section Steps

variable {cfg : LoopConfig} {s t : Polling} {l : Label}

/-- What is filed under the descriptor and the poller's side of it are the same. -/
theorem Reported.congr {fd : Int} (h : s.Reported fd)
    (hstatus : t.loop.pool.status fd = s.loop.pool.status fd)
    (hinterest : t.descriptors.interest fd = s.descriptors.interest fd) : t.Reported fd := by
  refine ⟨?_, hinterest.trans h.2⟩
  rw [ClientSocketPool.isPending, hstatus]
  exact h.1

/-- The listening socket is in no pool. -/
theorem Inv.not_isPending_srvFd (h : Inv cfg s) : s.loop.pool.isPending cfg.srvFd = false := by
  have hview := (h.lifecycle cfg.srvFd).of_file_none h.srv
  have hstatus : s.loop.pool.status cfg.srvFd = none := congrArg View.status hview
  rw [ClientSocketPool.isPending, hstatus]
  rfl

/-- What an armed descriptor says, when nothing has been evicted. -/
theorem Lifecycle.of_interest {fd : Int} {v : View} (h : Lifecycle fd v)
    (hi : v.interest = some true) (hq : v.queued = []) (hc : v.closer = .get) :
    ∃ cs, v.status = some (cs, false) := by
  cases h with
  | armed => exact ⟨_, rfl⟩
  | evicted => cases hq
  | taken => cases hc
  | _ => cases hi

theorem Settled.careful (h : Settled cfg s) (hcalm : s.Calm cfg l) : s.Careful cfg l := by
  cases l with
  | main =>
      intro hreg
      cases hpc : s.loop.pc with
      | evict n =>
          simp only [Calm, hpc] at hcalm
          exact fun hn => absurd hn (by omega)
      | events rest =>
          cases rest with
          | nil => trivial
          | cons fd rest =>
              intro hfd hpending
              have hmem : fd ∈ s.loop.pc.rest := by
                rw [hpc]
                exact List.mem_cons_self
              cases hpending.symm.trans (h.reported fd hmem hfd).1
      | dispatch fd rest =>
          have hpending := h.inv.loop.ready fd rest hpc
          have hmem : fd ∈ s.loop.pc.rest := by
            rw [hpc]
            exact List.mem_cons_self
          refine (h.reported fd hmem ?_).2
          rintro rfl
          cases h.inv.not_isPending_srvFd.symm.trans hpending
      | getSize | poll | raised e => trivial
  | accept cs => exact hcalm
  | fail i =>
      intro w hi hpc
      simp [Calm, hi, hpc] at hcalm
  | _ => trivial

/-- The event that the loop comes to is that of a pending socket. -/
theorem Settled.not_breaks (h : Settled cfg s) : ¬ s.Breaks cfg l := by
  cases l with
  | main =>
      rintro ⟨-, fd, rest, hpc, hfd, pool, hbreak⟩
      have hmem : fd ∈ s.loop.pc.rest := by
        rw [hpc]
        exact List.mem_cons_self
      obtain ⟨cs, hstatus⟩ := ClientSocketPool.isPending_iff.mp (h.reported fd hmem hfd).1
      rw [ClientSocketPool.isInUse_of_status hstatus] at hbreak
      obtain hbreak | hbreak := hbreak
      · cases hbreak
      · cases hbreak
  | _ => exact id

/-- A step after which no event has come and the reported sockets are as before. -/
theorem Settled.of_same (h : Settled cfg s) (hinv : Inv cfg t)
    (hqueue : t.loop.queueCsForClose = s.loop.queueCsForClose) (hcloser : t.closer = s.closer)
    (hrest : ∀ fd ∈ t.loop.pc.rest, fd ∈ s.loop.pc.rest)
    (hsame : ∀ fd ∈ t.loop.pc.rest, s.Reported fd → t.Reported fd) : Settled cfg t where
  inv := hinv
  queue := hqueue.trans h.queue
  closer := hcloser.trans h.closer
  reported := fun fd hmem hfd => hsame fd hmem (h.reported fd (hrest fd hmem) hfd)

/-! ## the steps -/

/-- A step that concerns one descriptor, and leaves the loop where it is. -/
structure Near (s t : Polling) (x : Int) : Prop where
  pc : t.loop.pc = s.loop.pc
  queue : t.loop.queueCsForClose = s.loop.queueCsForClose
  closer : t.closer = s.closer
  status : ∀ fd, fd ≠ x → t.loop.pool.status fd = s.loop.pool.status fd
  interest : ∀ fd, fd ≠ x → t.descriptors.interest fd = s.descriptors.interest fd

theorem Settled.of_near (h : Settled cfg s) (hinv : Inv cfg t) {x : Int} (hnear : Near s t x)
    (hx : x ∈ s.loop.pc.rest → ¬ s.Reported x) : Settled cfg t := by
  refine h.of_same hinv hnear.queue hnear.closer (fun fd hmem => ?_) fun fd hmem hr => ?_
  · rwa [hnear.pc] at hmem
  · rw [hnear.pc] at hmem
    have hne : fd ≠ x := by
      rintro rfl
      exact hx hmem hr
    exact hr.congr (hnear.status fd hne) (hnear.interest fd hne)

/-- The loop does not come to the descriptor of a run that has its socket. -/
theorem Inv.not_reported (h : Inv cfg s) {i : Nat} {w : Worker} (hi : s.workers[i]? = some w)
    (hact : w.pc.isActive) (hmem : w.cs.fd ∈ s.loop.pc.rest) : ¬ s.Reported w.cs.fd := by
  intro hr
  obtain ⟨cs, hcs⟩ := ClientSocketPool.isPending_iff.mp hr.1
  have hawaited : (s.view w.cs.fd).awaited = true := by simp [view, hmem]
  obtain ⟨-, -, hs, -⟩ | ⟨-, -, -, hr⟩ | ⟨_, -, -, hs⟩ | ⟨_, -, -, hs⟩ := (h.held hi hact).stage
  · cases hcs.symm.trans hs
  · cases hawaited.symm.trans hr
  · cases hcs.symm.trans hs
  · cases hcs.symm.trans hs

theorem near_setPc (i : Nat) (w : Worker) (pc : WorkerPc) : Near s (s.setPc i w pc) w.cs.fd :=
  ⟨rfl, rfl, rfl, fun _ _ => rfl, fun _ _ => rfl⟩

theorem Inv.near_setCsPending (h : Inv cfg s) {i : Nat} {w : Worker}
    (hi : s.workers[i]? = some w) (hpc : w.pc = .serving) :
    Near s (s.setCsPending i w) w.cs.fd := by
  have hact : w.pc.isActive := by rw [hpc]; rfl
  obtain ⟨-, -, hstatus, -⟩ | ⟨hw, -⟩ | ⟨_, hw, -⟩ | ⟨_, hw, -⟩ := (h.held hi hact).stage
  · obtain ⟨q, hset, -, hq⟩ := h.loop.filed.setCsPending hstatus
    rw [Polling.setCsPending, hset]
    refine ⟨rfl, rfl, rfl, fun fd hfd => ?_, fun _ _ => rfl⟩
    exact (congrFun hq fd).trans (Function.update_of_ne hfd ..)
  all_goals cases hpc.symm.trans hw

theorem Inv.near_work (h : Inv cfg s) {i : Nat} {w : Worker} (hi : s.workers[i]? = some w)
    (hact : w.pc.isActive) (hs : s.work i w = some t) : Near s t w.cs.fd := by
  unfold Polling.work at hs
  cases hpc : w.pc with
  | modify =>
      simp only [hpc, Descriptors.modify] at hs
      split at hs
      next d hd =>
        obtain rfl := Option.some.inj hs
        split at hd
        · obtain rfl := Option.some.inj hd
          exact ⟨rfl, rfl, rfl, fun _ _ => rfl, fun fd hfd => Function.update_of_ne hfd ..⟩
        · cases hd
      next => exact Option.some.inj hs ▸ near_setPc i w _
  | delCsInUse c =>
      simp only [hpc] at hs
      obtain ⟨-, -, hstatus, -⟩ | ⟨hw, -⟩ | ⟨_, hw, -⟩ | ⟨_, hw, -⟩ := (h.held hi hact).stage
      · obtain ⟨q, hdel, -, hq⟩ := h.loop.filed.delCsInUse hstatus
        rw [hdel] at hs
        obtain rfl := Option.some.inj hs
        refine ⟨rfl, rfl, rfl, fun fd hfd => ?_, fun _ _ => rfl⟩
        exact (congrFun hq fd).trans (Function.update_of_ne hfd ..)
      all_goals cases hpc.symm.trans hw
  | unregister c =>
      simp only [hpc, Descriptors.unregister] at hs
      split at hs
      next d hd =>
        obtain rfl := Option.some.inj hs
        split at hd
        · obtain rfl := Option.some.inj hd
          exact ⟨rfl, rfl, rfl, fun _ _ => rfl, fun fd hfd => Function.update_of_ne hfd ..⟩
        · cases hd
      next => exact Option.some.inj hs ▸ near_setPc i w _
  | close c =>
      simp only [hpc, Descriptors.close, Option.some.injEq] at hs
      subst hs
      refine ⟨rfl, rfl, rfl, fun _ _ => rfl, fun fd hfd => ?_⟩
      show Descriptors.interest (if _ then _ else _) fd = _
      split
      · exact Function.update_of_ne hfd ..
      · rfl
  | serving | disposed c | raised => simp [hpc] at hs

theorem Inv.near_register (h : Inv cfg s) {cs : ClientSocket} (hreg : s.registering = some cs) :
    Near s (s.register cs) cs.fd ∧ ¬ s.Reported cs.fd := by
  have hregistering : (s.view cs.fd).registering = some cs := by simp [view, hreg]
  have hview := (h.lifecycle cs.fd).of_registering hregistering
  have hfile : s.descriptors.files cs.fd = some cs.socket := congrArg View.file hview
  have hnone : s.descriptors.interest cs.fd = none := congrArg View.interest hview
  have hregister : s.descriptors.register cs =
      some (s.descriptors.setInterest cs.fd (some true)) := by
    simp [Descriptors.register, Descriptors.isOpen, hfile, hnone]
  rw [Polling.register, hregister]
  refine ⟨⟨rfl, rfl, rfl, fun _ _ => rfl, fun fd hfd => Function.update_of_ne hfd ..⟩, ?_⟩
  exact fun hr => by cases hnone.symm.trans hr.2

theorem Settled.accept (h : Settled cfg s) {cs : ClientSocket} {rest : List Int}
    (hinv : Inv cfg (s.accept (some cs) rest)) (hpc : s.loop.pc = .events (cfg.srvFd :: rest))
    (hfree : s.descriptors.files cs.fd = none) : Settled cfg (s.accept (some cs) rest) := by
  obtain ⟨q, hadd, -, hq⟩ := h.inv.loop.filed.addCsPending cs
  have haccept : s.loop.accept (some cs) rest = { s.loop with pool := q, pc := .events rest } := by
    simp only [MainLoop.accept, hadd]
  rw [Polling.accept, haccept] at hinv ⊢
  refine h.of_same hinv rfl rfl (fun fd hmem => ?_) fun fd hmem hr => ?_
  · rw [hpc]
    exact List.mem_cons_of_mem _ hmem
  · have hne : fd ≠ cs.fd := by
      rintro rfl
      have hview := (h.inv.lifecycle cs.fd).of_file_none hfree
      have hnone : s.descriptors.interest cs.fd = none := congrArg View.interest hview
      cases hnone.symm.trans hr.2
    refine hr.congr ?_ rfl
    exact (congrFun hq fd).trans (Function.update_of_ne hne ..)

theorem Settled.poll (h : Settled cfg s) {events : List Int}
    (harmed : ∀ fd ∈ events, fd = cfg.srvFd ∨ s.descriptors.interest fd = some true)
    {loop : MainLoop} (hs : s.loop.step cfg (.poll events) = some loop)
    (hinv : Inv cfg { s with loop, descriptors := s.descriptors.report events }) :
    Settled cfg { s with loop, descriptors := s.descriptors.report events } := by
  obtain ⟨-, rfl⟩ := MainLoop.step_poll hs
  refine ⟨hinv, h.queue, h.closer, fun fd hmem hfd => ?_⟩
  have htrue := (harmed fd hmem).resolve_left hfd
  refine ⟨?_, ?_⟩
  · refine ClientSocketPool.isPending_iff.mpr ((h.inv.lifecycle fd).of_interest htrue ?_ ?_)
    · simp [view, h.queue]
    · simp [view, h.closer]
  · have hmem' : fd ∈ events := hmem
    simp [Descriptors.report, hmem', htrue]

/-- A statement of the main loop, if it does not evict. -/
theorem Settled.main (h : Settled cfg s) (hcalm : s.Calm cfg .main)
    (hs : s.step cfg .main = some t) : Settled cfg t := by
  have hinv := h.inv.main (h.careful hcalm) hs
  simp only [Polling.step] at hs
  cases hreg : s.registering with
  | some cs =>
      simp only [hreg, Option.some.injEq] at hs
      subst hs
      obtain ⟨hnear, hnot⟩ := h.inv.near_register hreg
      exact h.of_near hinv hnear fun _ => hnot
  | none =>
      simp only [hreg, Option.map_eq_some_iff] at hs
      obtain ⟨loop, hmain, rfl⟩ := hs
      cases hpc : s.loop.pc with
      | getSize =>
          simp only [MainLoop.main, hpc, Option.some.injEq] at hmain
          subst hmain
          exact h.of_same hinv rfl rfl (fun _ hmem => by cases hmem) fun _ hmem => by cases hmem
      | evict n =>
          simp only [Calm, hpc] at hcalm
          simp only [MainLoop.main, hpc, if_neg (not_lt.mpr hcalm), Option.some.injEq,
            gt_iff_lt] at hmain
          subst hmain
          exact h.of_same hinv rfl rfl (fun _ hmem => by cases hmem) fun _ hmem => by cases hmem
      | poll => simp [MainLoop.main, hpc] at hmain
      | events rest =>
          cases rest with
          | nil =>
              simp only [MainLoop.main, hpc, Option.some.injEq] at hmain
              subst hmain
              exact h.of_same hinv rfl rfl (fun _ hmem => by cases hmem) fun _ hmem => by cases hmem
          | cons fd rest =>
              simp only [MainLoop.main, hpc] at hmain
              split at hmain
              next => cases hmain
              next hfd =>
                obtain rfl := Option.some.inj hmain
                have hmem : fd ∈ s.loop.pc.rest := by
                  rw [hpc]
                  exact List.mem_cons_self
                have hpending := (h.reported fd hmem hfd).1
                rw [MainLoop.isInUse_of_isPending rest hpending] at hinv ⊢
                refine h.of_same hinv rfl rfl (fun x hx => ?_) fun _ _ hr => hr.congr rfl rfl
                rw [hpc]
                exact hx
      | dispatch fd rest =>
          simp only [MainLoop.main, hpc, Option.some.injEq] at hmain
          subst hmain
          obtain ⟨cs, hstatus⟩ := ClientSocketPool.isPending_iff.mp (h.inv.loop.ready fd rest hpc)
          obtain ⟨q, hget, -, hq⟩ := h.inv.loop.filed.getCsAndSetInUse hstatus
          have hnodup := h.inv.nodup
          rw [hpc] at hnodup
          obtain ⟨hnot, -⟩ := List.nodup_cons.mp hnodup
          rw [MainLoop.dispatch, hget] at hinv ⊢
          refine h.of_same hinv rfl rfl (fun x hx => ?_) fun x hx hr => ?_
          · rw [hpc]
            exact List.mem_cons_of_mem _ hx
          · have hne : x ≠ fd := by
              rintro rfl
              exact hnot hx
            refine hr.congr ?_ rfl
            exact (congrFun hq x).trans (Function.update_of_ne hne ..)
      | raised e => exact absurd hpc (h.inv.survives e)

theorem Settled.step (h : Settled cfg s) (hcalm : s.Calm cfg l) (hs : s.step cfg l = some t) :
    Settled cfg t := by
  have hcareful := h.careful hcalm
  have hinv := h.inv.step hcareful hs
  cases l with
  | main => exact h.main hcalm hs
  | poll events =>
      simp only [Polling.step] at hs
      split at hs
      next hevents =>
        obtain ⟨loop, hloop, rfl⟩ := Option.map_eq_some_iff.mp hs
        exact h.poll hevents.2 hloop hinv
      next => cases hs
  | accept cs =>
      obtain ⟨rest, hpc, -, hcs, rfl⟩ := step_accept hs
      obtain ⟨cs, rfl⟩ := Option.ne_none_iff_exists'.mp hcareful
      exact h.accept hinv hpc (hcs cs rfl).2
  | keepAlive i =>
      obtain ⟨w, hi, hw⟩ := Option.bind_eq_some_iff.mp hs
      split at hw
      next hpc =>
        obtain rfl := Option.some.inj hw
        exact h.of_near hinv (h.inv.near_setCsPending hi hpc)
          (h.inv.not_reported hi (by rw [hpc]; rfl))
      next => cases hw
  | giveUp i =>
      obtain ⟨w, hi, hw⟩ := Option.bind_eq_some_iff.mp hs
      split at hw
      next hpc =>
        obtain rfl := Option.some.inj hw
        exact h.of_near hinv (near_setPc i w _) (h.inv.not_reported hi (by rw [hpc]; rfl))
      next => cases hw
  | fail i =>
      obtain ⟨w, hi, hw⟩ := Option.bind_eq_some_iff.mp hs
      split at hw
      next hpc =>
        obtain rfl := Option.some.inj hw
        have hserving := hpc.resolve_right (hcareful w hi)
        exact h.of_near hinv (near_setPc i w _) (h.inv.not_reported hi (by rw [hserving]; rfl))
      next => cases hw
  | work i =>
      obtain ⟨w, hi, hw⟩ := Option.bind_eq_some_iff.mp hs
      have hact : w.pc.isActive := by
        cases hpc : w.pc <;> simp_all [Polling.work, WorkerPc.isActive]
      exact h.of_near hinv (h.inv.near_work hi hact hw) (h.inv.not_reported hi hact)
  | closingCs => simp [Polling.step, Polling.closingCs, h.closer, h.queue] at hs

end Steps

/-! ## results -/

theorem settled_init (cfg : LoopConfig) : Settled cfg {} :=
  ⟨inv_init cfg, rfl, rfl, by simp [LoopPc.rest]⟩

/-- **Without evictions** nothing is lost, nothing raises, and each event is dealt with. -/
theorem kept_of_calm (cfg : LoopConfig) (ls : List Label)
    (hcalm : Guarded (fun s l => step cfg s l) (Calm cfg) {} ls) :
    Always (fun s l => step cfg s l) Kept {} ls ∧
      Guarded (fun s l => step cfg s l) (fun s l => ¬ s.Breaks cfg l) {} ls := by
  have hstep (s : Polling) (l : Label) (t : Polling) (h : Settled cfg s) (hl : s.Calm cfg l)
      (hs : step cfg s l = some t) : Settled cfg t := h.step hl hs
  constructor
  · exact always_of_guarded _ hstep (fun _ h => h.inv.kept) (settled_init cfg) hcalm
  · exact Guarded.imp _ hstep (fun _ _ _ h _ _ => h.not_breaks) (settled_init cfg) hcalm

/-- Two clients: the one comes back after its first request, the other is closed and its
descriptor is used again. -/
def reused : List Label :=
  [.main, .main, .poll [3], .accept (some ⟨7, 0⟩), .main, .main, .main, .main, .poll [3, 7],
    .accept (some ⟨8, 1⟩), .main, .main, .main, .main, .main, .main, .poll [8], .main, .main,
    .main, .keepAlive 0, .giveUp 1, .work 0, .work 1, .work 1, .work 1, .main, .main,
    .poll [7, 3], .main, .main, .accept (some ⟨8, 2⟩), .main]

theorem kept_of_calm_reused :
    Always (fun s l => step ⟨3, 100⟩ s l) Kept {} reused ∧
      Guarded (fun s l => step ⟨3, 100⟩ s l) (fun s l => ¬ s.Breaks ⟨3, 100⟩ l) {} reused :=
  kept_of_calm ⟨3, 100⟩ reused (by decide)

end Polling

end Web3Proxy
