import Web3Proxy.EndpointConnectionPool.Conservation

/-!
# Web3Proxy.EndpointConnectionPool.Cleanup

Which idle connections a cleanup pass keeps.

* `Clocked.always_keepsRecent` — wherever the steps of the callers and threads are interleaved, under
  a clock that does not go back, the idle queue is ordered by the time of last use, and a cleanup
  pass of the active pool keeps those of its most recently used connections that are not obsolete.

`put` appends a connection and gives it the present time, under the lock, and nothing else gives
an idle connection a time; so the order of the queue is that of the times.
-/

namespace Web3Proxy

open Py Trans

namespace EndpointConnectionPool

/-! ## time -/

/-- The clock reading of a step. -/
def Label.now : Label → Option Int
  | .connected now | .connectFailed now | .put _ now | .scheduleBroken _ _ now
  | .cleanupPass now => some now
  | _ => none

/-- A pool with its callers, and the last clock reading. -/
structure Clocked where
  system : System := {}
  clock : Int

namespace Clocked

variable (cfg : PoolConfig) (s : Clocked)

/-- A step, with a clock reading that is not before the last one. -/
def step (l : Label) : Option Clocked :=
  if s.clock ≤ l.now.getD s.clock then
    (s.system.step cfg l).map fun system => { system, clock := l.now.getD s.clock }
  else none

end Clocked

/-! ## what is claimed -/

/-- The idle queue is ordered by the time of last use. -/
def Ordered (p : EndpointConnectionPool) : Prop :=
  p.connections.Pairwise fun c d => p.lastUseTimestamp c ≤ p.lastUseTimestamp d

/-- The connections are the most recently used ones of the idle queue, in its order, as many as
the limit admits. -/
structure MostRecent (p : EndpointConnectionPool) (limit : Nat) (recent : List ConnId) : Prop where
  sublist : recent.Sublist p.connections
  length : recent.length = min limit p.connections.length
  newest : ∀ c ∈ recent, ∀ d ∈ p.connections, d ∉ recent →
    p.lastUseTimestamp d ≤ p.lastUseTimestamp c

/-- What a cleanup pass of `p` is to lead to. -/
structure CleansUp (cfg : PoolConfig) (now : Int) (p p' : EndpointConnectionPool) : Prop where
  kept : ∃ recent, p.MostRecent cfg.numProxyWorkers recent ∧
    p'.connections = recent.filter fun c =>
      now - cfg.idleConnectionTimeout * 1000000000 ≤ p.lastUseTimestamp c
  /-- Every other connection is put on the close queue, once. -/
  scheduled : ∃ dropped : List ConnId,
    p'.connectionCloseQueue = p.connectionCloseQueue ++ dropped.map some ∧ dropped.Nodup ∧
      ∀ c, c ∈ dropped ↔ c ∈ p.connections ∧ c ∉ p'.connections
  busy : p'.busyConnections = p.busyConnections

section Pass

variable {cfg : PoolConfig} {p : EndpointConnectionPool}

/-- The last connections of an ordered queue are the most recently used ones. -/
theorem mostRecent_withinLimit (h : p.Ordered) :
    p.MostRecent cfg.numProxyWorkers (p.withinLimit cfg) where
  sublist := List.drop_sublist _ _
  length := by
    simp only [withinLimit, List.length_drop]
    omega
  newest := by
    intro c hc d hd hold
    unfold withinLimit at hc hold
    have hsplit := List.take_append_drop (p.connections.length - cfg.numProxyWorkers) p.connections
    unfold Ordered at h
    rw [← hsplit] at hd h
    exact (List.pairwise_append.mp h).2.2 d ((List.mem_append.mp hd).resolve_right hold) c hc

/-- **One cleanup pass** of an active pool whose idle queue is in order. -/
theorem cleanupPass_cleansUp (hactive : p.status = .active) (h : p.Ordered)
    (hnodup : p.connections.Nodup) (now : Int) :
    ∃ p', p.cleanupPass cfg now = .ok () p' ∧ CleansUp cfg now p p' := by
  have hsplit : p.connections.take (p.connections.length - cfg.numProxyWorkers) ++
      p.withinLimit cfg = p.connections := List.take_append_drop _ _
  have hdisjoint := List.disjoint_of_nodup_append (hsplit ▸ hnodup)
  have hmem (c : ConnId) : c ∈ p.connections ↔
      c ∈ p.connections.take (p.connections.length - cfg.numProxyWorkers) ∨
        c ∈ p.withinLimit cfg := by
    rw [← List.mem_append, hsplit]
  refine ⟨_, p.cleanupPass_active cfg now hactive,
    ⟨p.withinLimit cfg, mostRecent_withinLimit h, rfl⟩,
    ⟨p.connections.take (p.connections.length - cfg.numProxyWorkers) ++
      (p.withinLimit cfg).filter fun c => !p.isRecent cfg now c, by simp, ?_, fun c => ?_⟩, rfl⟩
  · refine List.Sublist.nodup ?_ hnodup
    conv_rhs => rw [← hsplit]
    exact List.filter_sublist.append_left _
  · rw [hmem, List.mem_append, List.mem_filter, List.mem_filter]
    constructor
    · rintro (hold | ⟨hnew, hage⟩)
      · exact ⟨Or.inl hold, fun hkept => hdisjoint hold hkept.1⟩
      · exact ⟨Or.inr hnew, fun hkept => by simp [hkept.2] at hage⟩
    · rintro ⟨hold | hnew, hnot⟩
      · exact Or.inl hold
      · exact Or.inr ⟨hnew, by simpa using fun hrecent => hnot ⟨hnew, hrecent⟩⟩

end Pass

/-! ## the invariant -/

namespace Clocked

/-- What every step keeps. -/
structure Inv (s : Clocked) : Prop where
  system : s.system.Inv
  ordered : s.system.pool.Ordered
  past : ∀ c ∈ s.system.pool.connections, s.system.pool.lastUseTimestamp c ≤ s.clock

section Steps

variable {cfg : PoolConfig} {s : Clocked} {system : System} {clock : Int}

theorem Inv.nodup (h : s.Inv) : s.system.pool.connections.Nodup := by
  refine List.nodup_iff_count_le_one.mpr fun c => ?_
  have hone := h.system.conserved.once .idle c
  have hle : (if c < s.system.established then 1 else 0) ≤ 1 := by split <;> omega
  exact hone.trans hle

/-- A step that takes from the idle queue at most, and leaves the times of the others. -/
theorem Inv.of_sublist (h : s.Inv) (hsystem : system.Inv) (hclock : s.clock ≤ clock)
    (hsub : system.pool.connections.Sublist s.system.pool.connections)
    (htimes : ∀ c ∈ s.system.pool.connections,
      system.pool.lastUseTimestamp c = s.system.pool.lastUseTimestamp c) :
    Inv { system, clock } where
  system := hsystem
  ordered := by
    refine (h.ordered.sublist hsub).imp_of_mem fun {c d} hc hd hle => ?_
    rw [htimes c (hsub.subset hc), htimes d (hsub.subset hd)]
    exact hle
  past := fun c hc => by
    rw [htimes c (hsub.subset hc)]
    exact (h.past c (hsub.subset hc)).trans hclock

/-- `put` makes a connection idle that was not, at the present time. -/
theorem Inv.put (h : s.Inv) {c : ConnId} {now : Int} (hclock : s.clock ≤ now)
    (hs : s.system.step cfg (.put c now) = some system) : Inv { system, clock := now } := by
  have hsystem := h.system.step hs
  cases h.system.move hs with
  | putClose hc hb hactive =>
      exact h.of_sublist hsystem hclock (List.Sublist.refl _) fun _ _ => rfl
  | putIdle hc hb hactive =>
      have hidle : c ∉ s.system.pool.connections := by
        intro hidle
        have hcen := h.system.census c
        have hpos := List.count_pos_iff.mpr hidle
        rw [System.total_count, if_pos hb] at hcen
        split at hcen <;> omega
      have htime (d : ConnId) (hd : d ∈ s.system.pool.connections) :
          Function.update s.system.pool.lastUseTimestamp c now d =
            s.system.pool.lastUseTimestamp d := by
        refine Function.update_of_ne ?_ _ _
        rintro rfl
        exact hidle hd
      refine ⟨hsystem, ?_, fun d hd => ?_⟩
      · refine List.pairwise_append.mpr ⟨?_, List.pairwise_singleton _ _, fun d hd e he => ?_⟩
        · refine h.ordered.imp_of_mem fun {d e} hd he hle => ?_
          simpa [htime d hd, htime e he] using hle
        · obtain rfl := List.mem_singleton.mp he
          simpa [htime d hd] using (h.past d hd).trans hclock
      · obtain hd | hd := List.mem_append.mp hd
        · simpa [htime d hd] using (h.past d hd).trans hclock
        · obtain rfl := List.mem_singleton.mp hd
          simp

/-- A new connection is not an idle one. -/
theorem Inv.connected (h : s.Inv) {now : Int} (hclock : s.clock ≤ now)
    (hs : s.system.step cfg (.connected now) = some system) : Inv { system, clock := now } := by
  have hsystem := h.system.step hs
  cases h.system.move hs
  refine h.of_sublist hsystem hclock (List.Sublist.refl _) fun c hc => ?_
  refine Function.update_of_ne ?_ _ _
  rintro rfl
  have hfresh := h.system.fresh .idle
  exact List.count_eq_zero.mp hfresh hc

theorem Inv.step (h : s.Inv) {l : Label} {s' : Clocked} (hs : s.step cfg l = some s') :
    s'.Inv := by
  unfold Clocked.step at hs
  split at hs
  next hclock =>
    obtain ⟨system, hstep, rfl⟩ := Option.map_eq_some_iff.mp hs
    have hsystem := h.system.step hstep
    have hsame (hpool : system.pool.connections.Sublist s.system.pool.connections)
        (htimes : system.pool.lastUseTimestamp = s.system.pool.lastUseTimestamp) :=
      h.of_sublist hsystem hclock hpool fun c _ => congrFun htimes c
    cases h.system.move hstep with
    | putIdle | putClose => exact h.put hclock hstep
    | connected => exact h.connected hclock hstep
    | getIdle hserves hq => exact hsame (hq ▸ List.sublist_cons_self _ _) rfl
    | disable | outOfSync | close => exact hsame (List.nil_sublist _) rfl
    | cleanup hactive => exact hsame (List.filter_sublist.trans (List.drop_sublist _ _)) rfl
    | _ => exact hsame (List.Sublist.refl _) rfl
  next => cases hs

end Steps

/-- The idle queue is in order, and every cleanup pass of an active pool ends as it should. -/
def KeepsRecent (cfg : PoolConfig) (s : Clocked) : Prop :=
  s.system.pool.Ordered ∧ (s.system.pool.status = .active → ∀ now,
    ∃ p, s.system.pool.cleanupPass cfg now = .ok () p ∧
      CleansUp cfg now s.system.pool p)

/-- **Cleanup keeps the right connections**, in every state of every interleaving. -/
theorem always_keepsRecent (cfg : PoolConfig) (clock : Int) (ls : List Label) :
    Always (fun s l => step cfg s l) (KeepsRecent cfg) { clock } ls :=
  always_of_invariant (I := Inv) _ (fun _ _ _ h hs => h.step hs)
    (fun _ h => ⟨h.ordered, fun hactive now => cleanupPass_cleansUp hactive h.ordered h.nodup now⟩)
    ls ⟨System.inv_init, List.Pairwise.nil, fun _ hc => absurd hc List.not_mem_nil⟩

end Clocked

end EndpointConnectionPool

end Web3Proxy
