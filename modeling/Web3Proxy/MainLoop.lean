import Web3Proxy.ClientSocketPool.Status
import Web3Proxy.Lib.Trans

/-!
# Web3Proxy.MainLoop

The main loop of the proxy (`proxy.py`), which accepts clients, evicts the ones that have
been pending too long, and hands those that are ready to the workers.

* `MainLoop.survives_iff_sound` — the loop raises nothing exactly when every accepted
  connection is a socket and no eviction meets a list that has lost its tail.
* `MainLoop.handled_iff_unbroken` — every socket that was pending and ready is handed to a
  worker once exactly when no `break` leaves one of them behind.

A label is one section of code without another thread's step in between: one statement of
the loop, or a call of the pool by a worker that has the socket in use.
-/

namespace Web3Proxy

open Py Trans

/-- What the main loop reads from outside: `srv_socket.socket.fileno()` and
`Config.MAX_PENDING_CLIENT_SOCKETS`. -/
structure LoopConfig where
  srvFd : Int
  maxPendingClientSockets : Nat
deriving DecidableEq, Repr

/-- Where the main loop stands: at the `while` with a value of `pending_cs_size`, at the
`for` with the events to come, or after `is_in_use(fd)` has returned `False`. -/
inductive LoopPc where
  | getSize
  | evict (pendingCsSize : Int)
  | poll
  | events (rest : List Int)
  | dispatch (fd : Int) (rest : List Int)
  | raised (e : PyError)
deriving DecidableEq, Repr

/-- The loop is in its `for` statement. -/
def LoopPc.inEvents : LoopPc → Bool
  | .events _ | .dispatch _ _ => true
  | _ => false

/-- The events that the `for` statement has still to come to. -/
def LoopPc.rest : LoopPc → List Int
  | .events rest => rest
  | .dispatch fd rest => fd :: rest
  | _ => []

/-- The main loop and what it shares with the workers and with `closing_cs`.  `submitted`
are the sockets handed to the workers since the last `poll`, and `awaited` the descriptors
it has reported of sockets that were pending then. -/
structure MainLoop where
  pool : ClientSocketPool := .empty
  pc : LoopPc := .getSize
  queueCsForClose : List ClientSocket := []
  awaited : List Int := []
  submitted : List ClientSocket := []

namespace MainLoop

/-- A statement of the loop that reads nothing from outside; `poll` with the descriptors
of its events; `accept_awaiting_connection` with the socket it returns, if any; a worker's
call; `closing_cs` taking a socket. -/
inductive Label where
  | main
  | poll (events : List Int)
  | accept (cs : Option ClientSocket)
  | setCsPending (fd : Int)
  | delCsInUse (fd : Int)
  | closingCs
deriving DecidableEq, Repr

variable (cfg : LoopConfig) (s : MainLoop)

/-- The body of the `while`: evict the socket that has been pending longest. -/
def evict (pendingCsSize : Int) : MainLoop :=
  match s.pool.popCsPendingFromTail with
  | .ok cs pool =>
      { s with
        pool
        queueCsForClose := s.queueCsForClose ++ [cs]
        pc := .evict (pendingCsSize - 1) }
  | .raise e pool => { s with pool, pc := .raised e }

/-- The branch of an event of the listening socket; `None` has no attribute `fd`. -/
def accept (cs : Option ClientSocket) (rest : List Int) : MainLoop :=
  match cs with
  | none => { s with pc := .raised .attributeError }
  | some cs =>
      match s.pool.addCsPending cs with
      | .ok _ pool => { s with pool, pc := .events rest }
      | .raise e pool => { s with pool, pc := .raised e }

/-- The other branch, up to the `break`s. -/
def isInUse (fd : Int) (rest : List Int) : MainLoop :=
  match s.pool.isInUse fd with
  | .ok false _ => { s with pc := .dispatch fd rest }
  | .ok true _ => { s with pc := .getSize }
  | .raise .keyError _ => { s with pc := .getSize }
  | .raise e _ => { s with pc := .raised e }

/-- `get_cs_and_set_in_use` and `executor.submit`. -/
def dispatch (fd : Int) (rest : List Int) : MainLoop :=
  match s.pool.getCsAndSetInUse fd with
  | .ok cs pool => { s with pool, submitted := s.submitted ++ [cs], pc := .events rest }
  | .raise e pool => { s with pool, pc := .raised e }

/-- The next statement of the loop, unless it waits for something outside. -/
def main : Option MainLoop :=
  match s.pc with
  | .getSize => some { s with pc := .evict s.pool.getSize }
  | .evict n =>
      if n > cfg.maxPendingClientSockets then some (s.evict n) else some { s with pc := .poll }
  | .events [] => some { s with pc := .getSize }
  | .events (fd :: rest) => if fd = cfg.srvFd then none else some (s.isInUse fd rest)
  | .dispatch fd rest => some (s.dispatch fd rest)
  | .poll | .raised _ => none

/-- One step.  A worker calls the pool for a socket that is in use. -/
def step : Label → Option MainLoop
  | .main => s.main cfg
  | .poll events =>
      if s.pc = .poll then
        some { s with
          pc := .events events
          awaited := events.filter fun fd => fd ≠ cfg.srvFd ∧ s.pool.isPending fd
          submitted := [] }
      else none
  | .accept cs =>
      match s.pc with
      | .events (fd :: rest) => if fd = cfg.srvFd then some (s.accept cs rest) else none
      | _ => none
  | .setCsPending fd =>
      match s.pool.status fd with
      | some (_, true) => some { s with pool := (s.pool.setCsPending fd).state }
      | _ => none
  | .delCsInUse fd =>
      match s.pool.status fd with
      | some (_, true) => some { s with pool := (s.pool.delCsInUse fd).state }
      | _ => none
  | .closingCs =>
      match s.queueCsForClose with
      | [] => none
      | _ :: queue => some { s with queueCsForClose := queue }

/-! ## what is to hold -/

/-- The loop has not raised. -/
def Survives (s : MainLoop) : Prop := ∀ e, s.pc ≠ .raised e

/-- An accepted connection is a socket, and a socket to be evicted is at the tail of the
list and in the dictionary. -/
def Sound (s : MainLoop) : Label → Prop
  | .main => ∀ n, s.pc = .evict n → n > cfg.maxPendingClientSockets → s.pool.Poppable
  | .accept cs => cs ≠ none
  | _ => True

/-- The descriptors of the sockets that have been handed to the workers. -/
def submittedFds (s : MainLoop) : List Int := s.submitted.map ClientSocket.fd

/-- The sockets that were pending and ready at the last `poll` are handed over once. -/
structure Handled (s : MainLoop) : Prop where
  once : ∀ fd ∈ s.awaited, s.submittedFds.count fd ≤ 1
  all : s.pc.inEvents = false → ∀ fd ∈ s.awaited, s.submittedFds.count fd = 1

/-- The events to come bring none of the awaited sockets any more. -/
def NoneLeft (s : MainLoop) (rest : List Int) : Prop :=
  ∀ fd ∈ rest, fd ∈ s.awaited → fd ∈ s.submittedFds

/-- An event of a descriptor that is in use, or not in the dictionary, comes after the
awaited sockets; so does a connection that cannot be accepted; and a socket that has been
handed over does not come again. -/
def Unbroken (s : MainLoop) : Label → Prop
  | .main =>
      match s.pc with
      | .events (fd :: rest) =>
          fd ≠ cfg.srvFd → s.pool.isPending fd = false → s.NoneLeft rest
      | .dispatch fd _ => fd ∈ s.awaited → fd ∉ s.submittedFds
      | _ => True
  | .accept none => s.NoneLeft s.pc.rest.tail
  | _ => True

/-! ## the steps -/

section Steps

variable {cfg : LoopConfig} {s t : MainLoop} {l : Label}

theorem isInUse_of_isPending {fd : Int} (rest : List Int) (h : s.pool.isPending fd = true) :
    s.isInUse fd rest = { s with pc := .dispatch fd rest } := by
  obtain ⟨cs, hs⟩ := ClientSocketPool.isPending_iff.mp h
  rw [isInUse, ClientSocketPool.isInUse_of_status hs]

theorem isInUse_of_not_isPending {fd : Int} (rest : List Int) (h : s.pool.isPending fd = false) :
    s.isInUse fd rest = { s with pc := .getSize } := by
  cases hs : s.pool.status fd with
  | none => rw [isInUse, ClientSocketPool.isInUse_of_none hs]
  | some x =>
      obtain ⟨cs, u⟩ := x
      cases u with
      | true => rw [isInUse, ClientSocketPool.isInUse_of_status hs]
      | false => simp [ClientSocketPool.isPending, hs] at h

/-- What every step keeps: the dictionary is in order, and a socket that was found not to
be in use stays so until it is handed over. -/
structure Inv (s : MainLoop) : Prop where
  filed : s.pool.Filed
  ready : ∀ fd rest, s.pc = .dispatch fd rest → s.pool.isPending fd = true

theorem inv_init (p : { p : ClientSocketPool // p.Filed }) : Inv { pool := p.1 } where
  filed := p.2
  ready := fun _ _ hpc => by cases hpc

/-- The statements of the loop. -/
inductive Move (cfg : LoopConfig) (s : MainLoop) : MainLoop → Prop where
  | sized (hpc : s.pc = .getSize) : Move cfg s { s with pc := .evict s.pool.getSize }
  | evicted {n : Int} {cs : ClientSocket} {q : ClientSocketPool} (hpc : s.pc = .evict n)
      (hp : s.pool.Poppable) (hfiled : q.Filed) : Move cfg s { s with
        pool := q, queueCsForClose := s.queueCsForClose ++ [cs], pc := .evict (n - 1) }
  | evictRaised {n : Int} {e : PyError} {q : ClientSocketPool} (hpc : s.pc = .evict n)
      (hn : n > cfg.maxPendingClientSockets) (hp : ¬ s.pool.Poppable) (hfiled : q.Filed) :
      Move cfg s { s with pool := q, pc := .raised e }
  | evictedAll {n : Int} (hpc : s.pc = .evict n) (hn : ¬ n > cfg.maxPendingClientSockets) :
      Move cfg s { s with pc := .poll }
  | exhausted (hpc : s.pc = .events []) : Move cfg s { s with pc := .getSize }
  | ready {fd : Int} {rest : List Int} (hpc : s.pc = .events (fd :: rest))
      (hpending : s.pool.isPending fd = true) : Move cfg s { s with pc := .dispatch fd rest }
  | breaks {fd : Int} {rest : List Int} (hpc : s.pc = .events (fd :: rest))
      (hfd : fd ≠ cfg.srvFd) (hpending : s.pool.isPending fd = false) :
      Move cfg s { s with pc := .getSize }
  | submits {fd : Int} {rest : List Int} {cs : ClientSocket} {q : ClientSocketPool}
      (hpc : s.pc = .dispatch fd rest) (hfd : cs.fd = fd) (hfiled : q.Filed)
      (hstatus : q.status = Function.update s.pool.status fd (some (cs, true))) :
      Move cfg s { s with pool := q, submitted := s.submitted ++ [cs], pc := .events rest }

theorem Inv.main_move (h : s.Inv) (hs : s.main cfg = some t) : Move cfg s t := by
  unfold main at hs
  cases hpc : s.pc with
  | getSize =>
      simp only [hpc, Option.some.injEq] at hs
      exact hs ▸ .sized hpc
  | evict n =>
      simp only [hpc] at hs
      by_cases hn : n > cfg.maxPendingClientSockets
      · rw [if_pos hn] at hs
        obtain rfl := Option.some.inj hs
        by_cases hp : s.pool.Poppable
        · obtain ⟨cs, q, hpop, hfiled, -⟩ := h.filed.popCsPendingFromTail hp
          rw [evict, hpop]
          exact .evicted hpc hp hfiled
        · obtain ⟨e, q, hpop, hfiled, -⟩ := h.filed.popCsPendingFromTail_raise hp
          rw [evict, hpop]
          exact .evictRaised hpc hn hp hfiled
      · rw [if_neg hn] at hs
        obtain rfl := Option.some.inj hs
        exact .evictedAll hpc hn
  | poll => simp [hpc] at hs
  | events rest =>
      cases rest with
      | nil =>
          simp only [hpc, Option.some.injEq] at hs
          exact hs ▸ .exhausted hpc
      | cons fd rest =>
          simp only [hpc] at hs
          by_cases hfd : fd = cfg.srvFd
          · simp [hfd] at hs
          · rw [if_neg hfd] at hs
            obtain rfl := Option.some.inj hs
            cases hp : s.pool.isPending fd with
            | true =>
                rw [isInUse_of_isPending rest hp]
                exact .ready hpc hp
            | false =>
                rw [isInUse_of_not_isPending rest hp]
                exact .breaks hpc hfd hp
  | dispatch fd rest =>
      simp only [hpc, Option.some.injEq] at hs
      obtain ⟨cs, hstatus⟩ := ClientSocketPool.isPending_iff.mp (h.ready fd rest hpc)
      obtain ⟨q, hget, hfiled, hq⟩ := h.filed.getCsAndSetInUse hstatus
      rw [dispatch, hget] at hs
      exact hs ▸ .submits hpc (h.filed.status_fd hstatus) hfiled hq
  | raised e => simp [hpc] at hs

/-- What a worker or `closing_cs` does to the pool: no pending socket is touched. -/
structure Spares (s t : MainLoop) : Prop where
  pc : t.pc = s.pc
  awaited : t.awaited = s.awaited
  submitted : t.submitted = s.submitted
  filed : t.pool.Filed
  pending : ∀ fd, s.pool.isPending fd = true → t.pool.isPending fd = true

/-- The steps of the others. -/
def Label.isOther : Label → Bool
  | .setCsPending _ | .delCsInUse _ | .closingCs => true
  | _ => false

theorem Inv.spares (h : s.Inv) (hl : l.isOther = true) (hs : s.step cfg l = some t) :
    s.Spares t := by
  cases l with
  | setCsPending fd =>
      simp only [step] at hs
      split at hs
      next cs hstatus =>
        obtain ⟨q, hset, hfiled, hq⟩ := h.filed.setCsPending hstatus
        rw [hset] at hs
        obtain rfl := Option.some.inj hs
        exact ⟨rfl, rfl, rfl, hfiled, fun x hx =>
          ClientSocketPool.isPending_of_update hq (fun _ => ⟨cs, rfl⟩) hx⟩
      next => cases hs
  | delCsInUse fd =>
      simp only [step] at hs
      split at hs
      next cs hstatus =>
        obtain ⟨q, hdel, hfiled, hq⟩ := h.filed.delCsInUse hstatus
        rw [hdel] at hs
        obtain rfl := Option.some.inj hs
        have hinUse : s.pool.isPending fd ≠ true := by
          simp [ClientSocketPool.isPending, hstatus]
        exact ⟨rfl, rfl, rfl, hfiled, fun x hx =>
          ClientSocketPool.isPending_of_update hq (fun hfd => absurd hfd hinUse) hx⟩
      next => cases hs
  | closingCs =>
      simp only [step] at hs
      split at hs
      · cases hs
      · obtain rfl := Option.some.inj hs
        exact ⟨rfl, rfl, rfl, h.filed, fun _ hx => hx⟩
  | _ => cases hl

/-- An accepted connection. -/
theorem Inv.accept_some (h : s.Inv) (cs : ClientSocket) (rest : List Int) :
    ∃ q : ClientSocketPool, q.Filed ∧
      (∀ fd, s.pool.isPending fd = true → q.isPending fd = true) ∧
      s.accept (some cs) rest = { s with pool := q, pc := .events rest } := by
  obtain ⟨q, hadd, hfiled, hq⟩ := h.filed.addCsPending cs
  refine ⟨q, hfiled, fun fd hfd => ?_, ?_⟩
  · exact ClientSocketPool.isPending_of_update hq (fun _ => ⟨cs, rfl⟩) hfd
  · simp only [accept, hadd]

theorem step_accept {cs : Option ClientSocket} (hs : s.step cfg (.accept cs) = some t) :
    ∃ fd rest, s.pc = .events (fd :: rest) ∧ fd = cfg.srvFd ∧ t = s.accept cs rest := by
  simp only [step] at hs
  split at hs
  next fd rest hpc =>
    split at hs
    next hfd => exact ⟨fd, rest, hpc, hfd, (Option.some.inj hs).symm⟩
    next => cases hs
  next => cases hs

theorem step_poll {events : List Int} (hs : s.step cfg (.poll events) = some t) :
    s.pc = .poll ∧ t = { s with
      pc := .events events
      awaited := events.filter fun fd => fd ≠ cfg.srvFd ∧ s.pool.isPending fd
      submitted := [] } := by
  simp only [step] at hs
  split at hs
  next hpc => exact ⟨hpc, (Option.some.inj hs).symm⟩
  next => cases hs

/-- Every step keeps the invariant. -/
theorem Inv.step (h : s.Inv) (hs : s.step cfg l = some t) : t.Inv := by
  cases l with
  | main =>
      cases h.main_move hs with
      | sized hpc => exact ⟨h.filed, fun _ _ hpc => by cases hpc⟩
      | evicted hpc hp hfiled => exact ⟨hfiled, fun _ _ hpc => by cases hpc⟩
      | evictRaised hpc hn hp hfiled => exact ⟨hfiled, fun _ _ hpc => by cases hpc⟩
      | evictedAll hpc hn => exact ⟨h.filed, fun _ _ hpc => by cases hpc⟩
      | exhausted hpc => exact ⟨h.filed, fun _ _ hpc => by cases hpc⟩
      | ready hpc hpending =>
          refine ⟨h.filed, fun _ _ hpc => ?_⟩
          cases hpc
          exact hpending
      | breaks hpc hfd hpending => exact ⟨h.filed, fun _ _ hpc => by cases hpc⟩
      | submits hpc hfd hfiled hstatus => exact ⟨hfiled, fun _ _ hpc => by cases hpc⟩
  | poll events =>
      obtain ⟨-, rfl⟩ := step_poll hs
      exact ⟨h.filed, fun _ _ hpc => by cases hpc⟩
  | accept cs =>
      obtain ⟨fd, rest, -, -, rfl⟩ := step_accept hs
      cases cs with
      | none => exact ⟨h.filed, fun _ _ hpc => by cases hpc⟩
      | some cs =>
          obtain ⟨q, hfiled, -, haccept⟩ := h.accept_some cs rest
          rw [haccept]
          exact ⟨hfiled, fun _ _ hpc => by cases hpc⟩
  | setCsPending fd | delCsInUse fd | closingCs =>
      have hspares := h.spares rfl hs
      refine ⟨hspares.filed, fun fd rest hpc => ?_⟩
      exact hspares.pending fd (h.ready fd rest (hspares.pc ▸ hpc))

/-! ## the loop survives -/

theorem survives_step (h : s.Inv) (hsurvives : s.Survives) (hsound : s.Sound cfg l)
    (hs : s.step cfg l = some t) : t.Survives := by
  intro e hraised
  cases l with
  | main =>
      cases h.main_move hs with
      | evictRaised hpc hn hp hfiled => exact hp (hsound _ hpc hn)
      | _ => cases hraised
  | poll events =>
      obtain ⟨-, rfl⟩ := step_poll hs
      cases hraised
  | accept cs =>
      obtain ⟨fd, rest, hpc, -, rfl⟩ := step_accept hs
      cases cs with
      | none => exact hsound rfl
      | some cs =>
          obtain ⟨q, -, -, haccept⟩ := h.accept_some cs rest
          rw [haccept] at hraised
          cases hraised
  | setCsPending fd | delCsInUse fd | closingCs =>
      exact hsurvives e ((h.spares rfl hs).pc ▸ hraised)

theorem not_survives_step (h : s.Inv) (hsound : ¬ s.Sound cfg l) (hs : s.step cfg l = some t) :
    ¬ t.Survives := by
  intro hsurvives
  cases l with
  | main =>
      simp only [Sound, not_forall] at hsound
      obtain ⟨n, hpc, hn, hp⟩ := hsound
      cases h.main_move hs with
      | evictRaised => exact hsurvives _ rfl
      | evicted hpc' hp' => exact hp hp'
      | evictedAll hpc' hn' => grind
      | _ => simp_all
  | accept cs =>
      obtain ⟨fd, rest, hpc, -, rfl⟩ := step_accept hs
      obtain rfl := not_not.mp hsound
      exact hsurvives _ rfl
  | _ => exact hsound trivial

/-! ## the sockets that are ready -/

/-- Where the sockets are that were pending and ready at the last `poll`. -/
structure Tracks (cfg : LoopConfig) (s : MainLoop) : Prop where
  inv : s.Inv
  client : ∀ fd ∈ s.awaited, fd ≠ cfg.srvFd
  once : ∀ fd ∈ s.awaited, s.submittedFds.count fd ≤ 1
  left : ∀ fd ∈ s.awaited, fd ∉ s.submittedFds →
    fd ∈ s.pc.rest ∧ s.pool.isPending fd = true

theorem rest_of_not_inEvents {pc : LoopPc} (h : pc.inEvents = false) : pc.rest = [] := by
  cases pc <;> first | rfl | cases h

namespace Tracks

theorem handled (h : s.Tracks cfg) : s.Handled where
  once := h.once
  all := by
    intro hpc fd hfd
    have hone := h.once fd hfd
    have hmem : fd ∈ s.submittedFds := by
      by_contra hnot
      have hrest := (h.left fd hfd hnot).1
      rw [rest_of_not_inEvents hpc] at hrest
      cases hrest
    have hpos := List.count_pos_iff.mpr hmem
    omega

/-- A step that hands nothing over, in which nothing is lost. -/
theorem of_same (h : s.Tracks cfg) (hinv : t.Inv) (hawaited : t.awaited = s.awaited)
    (hsubmitted : t.submitted = s.submitted)
    (hleft : ∀ fd ∈ s.awaited, fd ∉ s.submittedFds → fd ∈ s.pc.rest →
      s.pool.isPending fd = true → fd ∈ t.pc.rest ∧ t.pool.isPending fd = true) :
    t.Tracks cfg where
  inv := hinv
  client := by
    rw [hawaited]
    exact h.client
  once := by
    unfold submittedFds
    rw [hawaited, hsubmitted]
    exact h.once
  left := by
    unfold submittedFds
    rw [hawaited, hsubmitted]
    intro fd hfd hnot
    obtain ⟨hrest, hpending⟩ := h.left fd hfd hnot
    exact hleft fd hfd hnot hrest hpending

/-- Outside the `for` nothing is left to lose. -/
theorem of_outside (h : s.Tracks cfg) (hinv : t.Inv) (hawaited : t.awaited = s.awaited)
    (hsubmitted : t.submitted = s.submitted) (hrest : s.pc.rest = []) : t.Tracks cfg :=
  h.of_same hinv hawaited hsubmitted fun fd _ _ hmem => by
    rw [hrest] at hmem
    cases hmem

theorem main (h : s.Tracks cfg) (hunbroken : s.Unbroken cfg .main)
    (hs : s.step cfg .main = some t) : t.Tracks cfg := by
  have hinv := h.inv.step hs
  cases h.inv.main_move hs with
  | sized hpc | evicted hpc | evictRaised hpc | evictedAll hpc | exhausted hpc =>
      exact h.of_outside hinv rfl rfl (by rw [hpc]; rfl)
  | ready hpc hpending =>
      refine h.of_same hinv rfl rfl fun fd _ _ hmem hp => ⟨?_, hp⟩
      rw [hpc] at hmem
      exact hmem
  | @breaks fd rest hpc hfd hpending =>
      simp only [Unbroken, hpc] at hunbroken
      refine h.of_same hinv rfl rfl fun x hx hnot hmem hp => ?_
      rw [hpc] at hmem
      obtain rfl | hmem := List.mem_cons.mp hmem
      · rw [hpending] at hp
        cases hp
      · exact absurd (hunbroken hfd hpending x hmem hx) hnot
  | @submits fd rest cs q hpc hfd hfiled hstatus =>
      simp only [Unbroken, hpc] at hunbroken
      have hsubmitted : submittedFds
          { s with pool := q, submitted := s.submitted ++ [cs], pc := .events rest } =
          s.submittedFds ++ [fd] := by simp [submittedFds, hfd]
      refine ⟨hinv, h.client, fun x hx => ?_, fun x hx hnot => ?_⟩
      · have hone := h.once x hx
        rw [hsubmitted, List.count_append, List.count_singleton]
        by_cases hxfd : fd = x
        · have hzero := List.count_eq_zero.mpr (hunbroken (hxfd ▸ hx))
          subst hxfd
          rw [hzero]
          simp
        · simpa [hxfd] using hone
      · rw [hsubmitted, List.mem_append, List.mem_singleton, not_or] at hnot
        obtain ⟨hmem, hp⟩ := h.left x hx hnot.1
        rw [hpc] at hmem
        refine ⟨(List.mem_cons.mp hmem).resolve_left hnot.2, ?_⟩
        unfold ClientSocketPool.isPending at hp ⊢
        rwa [hstatus, Function.update_of_ne hnot.2]

theorem poll {events : List Int} (h : s.Tracks cfg) (hs : s.step cfg (.poll events) = some t) :
    t.Tracks cfg := by
  have hinv := h.inv.step hs
  obtain ⟨-, rfl⟩ := step_poll hs
  refine ⟨hinv, fun fd hfd => ?_, fun fd _ => by simp [submittedFds], fun fd hfd _ => ?_⟩
  · simp only [List.mem_filter, decide_eq_true_eq] at hfd
    exact hfd.2.1
  · simp only [List.mem_filter, decide_eq_true_eq] at hfd
    exact ⟨hfd.1, hfd.2.2⟩

theorem accept {cs : Option ClientSocket} (h : s.Tracks cfg)
    (hunbroken : s.Unbroken cfg (.accept cs)) (hs : s.step cfg (.accept cs) = some t) :
    t.Tracks cfg := by
  have hinv := h.inv.step hs
  obtain ⟨fd, rest, hpc, hfd, rfl⟩ := step_accept hs
  have hmem_rest : ∀ x ∈ s.awaited, x ∈ s.pc.rest → x ∈ rest := by
    intro x hx hmem
    rw [hpc] at hmem
    refine (List.mem_cons.mp hmem).resolve_left fun hxfd => ?_
    exact h.client x hx (hxfd.trans hfd)
  cases cs with
  | none =>
      simp only [Unbroken, hpc, LoopPc.rest, List.tail_cons] at hunbroken
      refine h.of_same hinv rfl rfl fun x hx hnot hmem _ => ?_
      exact absurd (hunbroken x (hmem_rest x hx hmem) hx) hnot
  | some cs =>
      obtain ⟨q, -, hpending, haccept⟩ := h.inv.accept_some cs rest
      rw [haccept] at hinv ⊢
      exact h.of_same hinv rfl rfl fun x hx _ hmem hp => ⟨hmem_rest x hx hmem, hpending x hp⟩

theorem step (h : s.Tracks cfg) (hunbroken : s.Unbroken cfg l) (hs : s.step cfg l = some t) :
    t.Tracks cfg := by
  cases l with
  | main => exact h.main hunbroken hs
  | poll events => exact h.poll hs
  | accept cs => exact h.accept hunbroken hs
  | setCsPending fd | delCsInUse fd | closingCs =>
      have hspares := h.inv.spares rfl hs
      refine h.of_same (h.inv.step hs) hspares.awaited hspares.submitted
        fun x _ _ hmem hp => ⟨?_, hspares.pending x hp⟩
      rw [hspares.pc]
      exact hmem

/-- A socket that has not been handed over when the loop has left its `for` is lost. -/
theorem lost {rest : List Int} (hpc : t.pc.inEvents = false) (hleft : ¬ s.NoneLeft rest)
    (hawaited : t.awaited = s.awaited) (hsubmitted : t.submitted = s.submitted) :
    ¬ t.Handled := by
  intro hhandled
  simp only [NoneLeft, not_forall] at hleft
  obtain ⟨x, -, hx, hnot⟩ := hleft
  have hone := hhandled.all hpc x (hawaited ▸ hx)
  unfold submittedFds at hone hnot
  rw [hsubmitted, List.count_eq_zero.mpr hnot] at hone
  cases hone

theorem not_handled_step (h : s.Tracks cfg) (hunbroken : ¬ s.Unbroken cfg l)
    (hs : s.step cfg l = some t) : ¬ t.Handled := by
  cases l with
  | main =>
      cases h.inv.main_move hs with
      | sized hpc | evicted hpc | evictRaised hpc | evictedAll hpc | exhausted hpc =>
          simp [Unbroken, hpc] at hunbroken
      | ready hpc hpending => simp [Unbroken, hpc, hpending] at hunbroken
      | breaks hpc hfd hpending =>
          simp only [Unbroken, hpc, Classical.not_imp] at hunbroken
          exact lost rfl hunbroken.2.2 rfl rfl
      | @submits fd rest cs q hpc hfd hfiled hstatus =>
          simp only [Unbroken, hpc, Classical.not_imp, not_not] at hunbroken
          obtain ⟨hawaited, hmem⟩ := hunbroken
          intro hhandled
          have hone := hhandled.once fd hawaited
          have hpos := List.count_pos_iff.mpr hmem
          simp only [submittedFds, List.map_append, List.map_singleton, hfd, List.count_append,
            List.count_singleton_self] at hone hpos
          omega
  | accept cs =>
      obtain ⟨fd, rest, hpc, -, rfl⟩ := step_accept hs
      cases cs with
      | none => exact lost rfl hunbroken rfl rfl
      | some cs => exact absurd trivial hunbroken
  | _ => exact absurd trivial hunbroken

end Tracks

end Steps

/-! ## results -/

/-- **Survival**: the main loop raises nothing exactly in the runs in which each accepted
connection is a socket and each eviction finds one. -/
theorem survives_iff_sound (cfg : LoopConfig) (ls : List Label) :
    Always (fun s l => step cfg s l) Survives {} ls ↔
      Guarded (fun s l => step cfg s l) (Sound cfg) {} ls :=
  always_iff_guarded (I := fun s : MainLoop => s.Inv ∧ s.Survives) _ (fun _ h => h.2)
    (fun _ _ _ h hsound hs => ⟨h.1.step hs, survives_step h.1 h.2 hsound hs⟩)
    (fun _ _ _ h hsound hs => not_survives_step h.1 hsound hs) ls
    ⟨inv_init ⟨_, ClientSocketPool.filed_empty⟩, by simp [Survives]⟩

/-- A client whose handshake fails stops the loop. -/
theorem not_always_survives : ¬ ∀ cfg ls,
    Always (fun s l => step cfg s l) Survives {} ls := by
  intro h
  have hall := h ⟨3, 100⟩ [.main, .main, .poll [3], .accept none]
  have hend := ((((hall.2 _ rfl).2 _ rfl).2 _ rfl).2 _ rfl)
  exact hend _ rfl

/-- **Readiness**: from any pool, each socket that is pending when `poll` reports it is
handed to a worker once exactly in the runs in which no `break` leaves one behind. -/
theorem handled_iff_unbroken (cfg : LoopConfig) (p : { p : ClientSocketPool // p.Filed })
    (ls : List Label) :
    Always (fun s l => step cfg s l) Handled { pool := p.1 } ls ↔
      Guarded (fun s l => step cfg s l) (Unbroken cfg) { pool := p.1 } ls :=
  always_iff_guarded (I := Tracks cfg) _ (fun _ h => h.handled)
    (fun _ _ _ h => h.step) (fun _ _ _ h => h.not_handled_step) ls
    ⟨inv_init p, by simp, by simp, by simp⟩

/-- Two clients are accepted and the first one is evicted; `poll` reports it, before
`closing_cs` has closed it, and then the second one. -/
def evictedFirst : List Label :=
  [.main, .main, .poll [3], .accept (some ⟨7, 0⟩), .main, .main, .main, .poll [3],
    .accept (some ⟨8, 1⟩), .main, .main, .main, .main, .poll [7, 8], .main]

/-- The second client is not handed over. -/
theorem not_always_handled : ¬ ∀ (cfg : LoopConfig) (p : { p : ClientSocketPool // p.Filed }) ls,
    Always (fun s l => step cfg s l) Handled { pool := p.1 } ls := by
  intro h
  have hall := h ⟨3, 1⟩ ⟨_, ClientSocketPool.filed_empty⟩ evictedFirst
  have hend : ((run (fun s l => step ⟨3, 1⟩ s l) {} evictedFirst).map fun s =>
      (s.pc, s.awaited, s.submittedFds)) = some (.getSize, [8], []) := by decide
  obtain ⟨s, hrun, hs⟩ := Option.map_eq_some_iff.mp hend
  simp only [Prod.mk.injEq] at hs
  obtain ⟨hpc, hawaited, hsubmitted⟩ := hs
  have hone := (hall.last _ hrun).all (by rw [hpc]; rfl) 8 (by simp [hawaited])
  rw [hsubmitted] at hone
  cases hone

end MainLoop

end Web3Proxy
