import Mathlib.Data.List.Nodup
import Web3Proxy.ClientSocketPool

/-!
# Web3Proxy.ClientSocketPool.Spec

What the pool's docstring says it is: a map from file descriptor to client
socket and status, and the pending sockets in the order in which they last
became pending.  `SocketBook` keeps the two in agreement by construction;
`SocketBook.step` performs an operation when its precondition (the `assert`
comments of the source) holds.
-/

namespace Web3Proxy

open ClientSocketPool

/-- A map `fd → (socket, in_use)` together with the list of the pending
sockets, oldest first. -/
structure SocketBook where
  status : Int → Option (ClientSocket × Bool)
  pending : List ClientSocket
  fd_eq : ∀ {fd cs u}, status fd = some (cs, u) → cs.fd = fd
  nodup : pending.Nodup
  mem_pending : ∀ cs, cs ∈ pending ↔ status cs.fd = some (cs, false)

namespace SocketBook

/-- The empty book. -/
def empty : SocketBook where
  status := fun _ => none
  pending := []
  fd_eq := by simp
  nodup := List.nodup_nil
  mem_pending := by simp

variable (b : SocketBook)

/-! ## the operations -/

/-- File a new socket, pending. -/
def addPending (cs : ClientSocket) (h : b.status cs.fd = none) : SocketBook where
  status := Function.update b.status cs.fd (some (cs, false))
  pending := b.pending ++ [cs]
  fd_eq := by
    intro fd cs' u h'
    by_cases hfd : fd = cs.fd
    · subst hfd
      rw [Function.update_self] at h'
      cases h'
      rfl
    · rw [Function.update_of_ne hfd] at h'
      exact b.fd_eq h'
  nodup := by
    rw [List.nodup_append]
    refine ⟨b.nodup, by simp, ?_⟩
    intro x hx y hy hxy
    rw [List.mem_singleton] at hy
    subst hy hxy
    rw [(b.mem_pending x).mp hx] at h
    contradiction
  mem_pending := by
    intro x
    by_cases hfd : x.fd = cs.fd
    · rw [hfd, Function.update_self, List.mem_append, List.mem_singleton, b.mem_pending, hfd, h]
      simp [eq_comm]
    · rw [Function.update_of_ne hfd, List.mem_append, List.mem_singleton, b.mem_pending]
      have hne : x ≠ cs := fun hx => hfd (congrArg ClientSocket.fd hx)
      simp [hne]

/-- Take a pending socket into use. -/
def setInUse {fd : Int} {cs : ClientSocket} (h : b.status fd = some (cs, false)) :
    SocketBook where
  status := Function.update b.status fd (some (cs, true))
  pending := b.pending.erase cs
  fd_eq := by
    intro fd' cs' u h'
    by_cases hfd : fd' = fd
    · subst hfd
      rw [Function.update_self] at h'
      cases h'
      exact b.fd_eq h
    · rw [Function.update_of_ne hfd] at h'
      exact b.fd_eq h'
  nodup := b.nodup.erase cs
  mem_pending := by
    intro x
    rw [b.nodup.mem_erase_iff, b.mem_pending]
    by_cases hfd : x.fd = fd
    · rw [hfd, Function.update_self, h]
      simp [eq_comm]
    · rw [Function.update_of_ne hfd]
      have hne : x ≠ cs := fun hx => hfd ((congrArg ClientSocket.fd hx).trans (b.fd_eq h))
      simp [hne]

/-- Make a socket in use pending again, the most recent one. -/
def setPending {fd : Int} {cs : ClientSocket} (h : b.status fd = some (cs, true)) :
    SocketBook where
  status := Function.update b.status fd (some (cs, false))
  pending := b.pending ++ [cs]
  fd_eq := by
    intro fd' cs' u h'
    by_cases hfd : fd' = fd
    · subst hfd
      rw [Function.update_self] at h'
      cases h'
      exact b.fd_eq h
    · rw [Function.update_of_ne hfd] at h'
      exact b.fd_eq h'
  nodup := by
    rw [List.nodup_append]
    refine ⟨b.nodup, by simp, ?_⟩
    intro x hx y hy hxy
    rw [List.mem_singleton] at hy
    subst hy hxy
    have hst := (b.mem_pending x).mp hx
    rw [b.fd_eq h, h] at hst
    cases hst
  mem_pending := by
    intro x
    rw [List.mem_append, List.mem_singleton, b.mem_pending]
    by_cases hfd : x.fd = fd
    · rw [hfd, Function.update_self, h]
      simp [eq_comm]
    · rw [Function.update_of_ne hfd]
      have hne : x ≠ cs := fun hx => hfd ((congrArg ClientSocket.fd hx).trans (b.fd_eq h))
      simp [hne]

/-- Forget a socket in use. -/
def del {fd : Int} {cs : ClientSocket} (h : b.status fd = some (cs, true)) : SocketBook where
  status := Function.update b.status fd none
  pending := b.pending
  fd_eq := by
    intro fd' cs' u h'
    by_cases hfd : fd' = fd
    · subst hfd
      rw [Function.update_self] at h'
      cases h'
    · rw [Function.update_of_ne hfd] at h'
      exact b.fd_eq h'
  nodup := b.nodup
  mem_pending := by
    intro x
    rw [b.mem_pending]
    by_cases hfd : x.fd = fd
    · rw [hfd, Function.update_self, h]
      simp
    · rw [Function.update_of_ne hfd]

/-- Forget the least recently pending socket. -/
def pop {cs : ClientSocket} {rest : List ClientSocket} (h : b.pending = cs :: rest) :
    SocketBook where
  status := Function.update b.status cs.fd none
  pending := rest
  fd_eq := by
    intro fd' cs' u h'
    by_cases hfd : fd' = cs.fd
    · subst hfd
      rw [Function.update_self] at h'
      cases h'
    · rw [Function.update_of_ne hfd] at h'
      exact b.fd_eq h'
  nodup := (List.nodup_cons.mp (h ▸ b.nodup)).2
  mem_pending := by
    intro x
    have hcs : b.status cs.fd = some (cs, false) := (b.mem_pending cs).mp (by simp [h])
    have hnd : cs ∉ rest := (List.nodup_cons.mp (h ▸ b.nodup)).1
    have hx := b.mem_pending x
    rw [h, List.mem_cons] at hx
    by_cases hfd : x.fd = cs.fd
    · rw [hfd, Function.update_self]
      rw [hfd, hcs] at hx
      constructor
      · intro hmem
        cases hx.mp (Or.inr hmem)
        exact absurd hmem hnd
      · intro hmem
        contradiction
    · rw [Function.update_of_ne hfd, ← hx]
      have hne : x ≠ cs := fun hx => hfd (congrArg ClientSocket.fd hx)
      simp [hne]

/-- Perform an operation if its precondition holds: `add` of an absent file
descriptor, `get` of a pending one, `set_pending` and `del` of one in use,
`pop` when something is pending.  The second component is the socket the
operation returns. -/
def step : Op → Option (SocketBook × Option ClientSocket)
  | .addCsPending cs =>
      if h : b.status cs.fd = none then some (b.addPending cs h, none) else none
  | .getCsAndSetInUse fd => match h : b.status fd with
      | some (cs, false) => some (b.setInUse h, some cs)
      | _ => none
  | .setCsPending fd => match h : b.status fd with
      | some (_, true) => some (b.setPending h, none)
      | _ => none
  | .delCsInUse fd => match h : b.status fd with
      | some (_, true) => some (b.del h, none)
      | _ => none
  | .popCsPendingFromTail => match h : b.pending with
      | cs :: _ => some (b.pop h, some cs)
      | [] => none

/-! ## when an operation is enabled -/

theorem step_add {cs : ClientSocket} {b' r}
    (h : b.step (.addCsPending cs) = some (b', r)) :
    ∃ hfd, b' = b.addPending cs hfd ∧ r = none := by
  simp only [step] at h
  split at h
  · next hfd => cases h; exact ⟨hfd, rfl, rfl⟩
  · contradiction

theorem step_get {fd : Int} {b' r} (h : b.step (.getCsAndSetInUse fd) = some (b', r)) :
    ∃ cs, ∃ hfd : b.status fd = some (cs, false), b' = b.setInUse hfd ∧ r = some cs := by
  simp only [step] at h
  split at h
  · next cs hfd => cases h; exact ⟨cs, hfd, rfl, rfl⟩
  · contradiction

theorem step_set {fd : Int} {b' r} (h : b.step (.setCsPending fd) = some (b', r)) :
    ∃ cs, ∃ hfd : b.status fd = some (cs, true), b' = b.setPending hfd ∧ r = none := by
  simp only [step] at h
  split at h
  · next cs hfd => cases h; exact ⟨cs, hfd, rfl, rfl⟩
  · contradiction

theorem step_del {fd : Int} {b' r} (h : b.step (.delCsInUse fd) = some (b', r)) :
    ∃ cs, ∃ hfd : b.status fd = some (cs, true), b' = b.del hfd ∧ r = none := by
  simp only [step] at h
  split at h
  · next cs hfd => cases h; exact ⟨cs, hfd, rfl, rfl⟩
  · contradiction

theorem step_pop {b' r} (h : b.step .popCsPendingFromTail = some (b', r)) :
    ∃ cs rest, ∃ hp : b.pending = cs :: rest, b' = b.pop hp ∧ r = some cs := by
  simp only [step] at h
  split at h
  · next cs rest hp => cases h; exact ⟨cs, rest, hp, rfl, rfl⟩
  · contradiction

end SocketBook

end Web3Proxy
