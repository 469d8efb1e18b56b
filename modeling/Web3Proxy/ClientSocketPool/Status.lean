import Web3Proxy.ClientSocketPool.Refine

/-!
# Web3Proxy.ClientSocketPool.Status

What the operations do to the dictionary, in any pool: `status` is what is filed under a
descriptor.  The links of the list do not matter here, so these results also hold of the
pools whose list is broken.
-/

namespace Web3Proxy

open Py

namespace ClientSocketPool

variable {p : ClientSocketPool} {fd : Int}

/-- The socket filed under a descriptor, and whether it is in use. -/
def status (p : ClientSocketPool) (fd : Int) : Option (ClientSocket × Bool) :=
  (p.allClientConnections fd).map fun e => (p.csOf e, (p.heap e).inUse)

/-- A pending socket is filed under the descriptor. -/
def isPending (p : ClientSocketPool) (fd : Int) : Bool := (p.status fd).any fun x => !x.2

/-- Each entry is an object of the heap and is filed under the descriptor of its socket. -/
structure Filed (p : ClientSocketPool) : Prop where
  alloc : ∀ {fd e}, p.allClientConnections fd = some e → e < p.fresh
  fd_eq : ∀ {fd e}, p.allClientConnections fd = some e → (p.csOf e).fd = fd

theorem filed_empty : ClientSocketPool.empty.Filed where
  alloc := fun h => by cases h
  fd_eq := fun h => by cases h

theorem isPending_iff : p.isPending fd = true ↔ ∃ cs, p.status fd = some (cs, false) := by
  unfold isPending
  cases p.status fd with
  | none => simp
  | some x =>
      obtain ⟨cs, u⟩ := x
      cases u <;> simp

/-- What is filed under one descriptor concerns the pending socket of that one only. -/
theorem isPending_of_update {q : ClientSocketPool} {v : Option (ClientSocket × Bool)}
    (hq : q.status = Function.update p.status fd v)
    (hv : p.isPending fd = true → ∃ cs, v = some (cs, false)) {x : Int}
    (hx : p.isPending x = true) : q.isPending x = true := by
  rw [isPending_iff, hq, Function.update_apply]
  split
  next hfd => exact hv (hfd ▸ hx)
  next => exact isPending_iff.mp hx

theorem lookup_of_status {x : ClientSocket × Bool} (h : p.status fd = some x) :
    ∃ e, p.allClientConnections fd = some e ∧ p.csOf e = x.1 ∧ (p.heap e).inUse = x.2 := by
  obtain ⟨e, he, hx⟩ := Option.map_eq_some_iff.mp h
  exact ⟨e, he, congrArg Prod.fst hx, congrArg Prod.snd hx⟩

theorem lookup_of_status_none (h : p.status fd = none) : p.allClientConnections fd = none :=
  Option.map_eq_none_iff.mp h

theorem Filed.status_fd (h : p.Filed) {cs : ClientSocket} {u : Bool}
    (hs : p.status fd = some (cs, u)) : cs.fd = fd := by
  obtain ⟨e, he, rfl, -⟩ := lookup_of_status hs
  exact h.fd_eq he

/-- An entry is filed once. -/
theorem Filed.inj (h : p.Filed) {fd' : Int} {e : EntryId}
    (he : p.allClientConnections fd = some e) (he' : p.allClientConnections fd' = some e) :
    fd = fd' :=
  (h.fd_eq he).symm.trans (h.fd_eq he')

/-! ## frame lemmas of the links -/

/-- Taking an entry off the list marks it, and of the others assigns links only. -/
theorem unlink_frame (e : EntryId) :
    (p.unlink e).allClientConnections = p.allClientConnections ∧
    (p.unlink e).fresh = p.fresh ∧
    ∀ x, ((p.unlink e).heap x).cs = (p.heap x).cs ∧
      ((p.unlink e).heap x).inUse = if x = e then true else (p.heap x).inUse := by
  simp only [unlink]
  split
  all_goals
    refine ⟨rfl, rfl, fun x => ?_⟩
    simp only [heap_modifyEntry]
    grind

/-- A pool that has the same entries under the same descriptors, up to one whose mark has
changed. -/
theorem Filed.set (h : p.Filed) {q : ClientSocketPool} {e : EntryId} {u : Bool}
    (he : p.allClientConnections fd = some e)
    (hacc : q.allClientConnections = p.allClientConnections) (hfresh : q.fresh = p.fresh)
    (hheap : ∀ x, (q.heap x).cs = (p.heap x).cs ∧
      (q.heap x).inUse = if x = e then u else (p.heap x).inUse) :
    q.Filed ∧ q.status = Function.update p.status fd (some (p.csOf e, u)) := by
  have hcs : q.csOf = p.csOf := funext fun x => (hheap x).1
  refine ⟨⟨fun hx => ?_, fun hx => ?_⟩, funext fun fd' => ?_⟩
  · rw [hacc] at hx
    exact hfresh ▸ h.alloc hx
  · rw [hacc] at hx
    exact hcs ▸ h.fd_eq hx
  · by_cases hfd : fd' = fd
    · subst hfd
      rw [Function.update_self, status, hacc, he, Option.map_some, hcs, (hheap e).2, if_pos rfl]
    · rw [Function.update_of_ne hfd, status, status, hacc, hcs]
      refine Option.map_congr fun x hx => ?_
      have hne : x ≠ e := by
        rintro rfl
        exact hfd (h.inj hx he)
      rw [(hheap x).2, if_neg hne]

/-! ## the operations -/

theorem isInUse_of_status {x : ClientSocket × Bool} (h : p.status fd = some x) :
    p.isInUse fd = .ok x.2 p := by
  obtain ⟨e, he, -, hu⟩ := lookup_of_status h
  simp [isInUse, he, hu]

theorem isInUse_of_none (h : p.status fd = none) : p.isInUse fd = .raise .keyError p := by
  simp [isInUse, lookup_of_status_none h]

theorem Filed.getCsAndSetInUse (h : p.Filed) {cs : ClientSocket} {u : Bool}
    (hs : p.status fd = some (cs, u)) :
    ∃ q, p.getCsAndSetInUse fd = .ok cs q ∧ q.Filed ∧
      q.status = Function.update p.status fd (some (cs, true)) := by
  obtain ⟨e, he, rfl, -⟩ := lookup_of_status hs
  obtain ⟨hacc, hfresh, hheap⟩ := unlink_frame (p := p) e
  obtain ⟨hfiled, hstatus⟩ := h.set he hacc hfresh hheap
  refine ⟨p.unlink e, ?_, hfiled, hstatus⟩
  rw [ClientSocketPool.getCsAndSetInUse, he]
  exact congrArg (Result.ok · _) (hheap e).1

theorem Filed.setCsPending (h : p.Filed) {cs : ClientSocket} {u : Bool}
    (hs : p.status fd = some (cs, u)) :
    ∃ q, p.setCsPending fd = .ok () q ∧ q.Filed ∧
      q.status = Function.update p.status fd (some (cs, false)) := by
  obtain ⟨e, he, rfl, -⟩ := lookup_of_status hs
  rw [ClientSocketPool.setCsPending, he]
  refine ⟨_, rfl, h.set he ?_ ?_ fun x => ?_⟩
  · exact (linkAtHead_frame e).1
  · exact (linkAtHead_frame e).2.1
  · obtain ⟨hcs, hu, -⟩ := (linkAtHead_frame (p := p.modifyEntry e
      fun x => { x with inUse := false, prev := none }) e).2.2 x
    rw [hcs, hu, heap_modifyEntry]
    split
    next hx => exact ⟨hx ▸ rfl, rfl⟩
    next => exact ⟨rfl, rfl⟩

/-- Removing what is filed under a descriptor. -/
theorem Filed.remove (h : p.Filed) (fd : Int) {tail : Option EntryId} {size : Int} :
    let q := { p with
      allClientConnections := Function.update p.allClientConnections fd none, tail, size }
    q.Filed ∧ q.status = Function.update p.status fd none := by
  have hold : ∀ {fd' e}, Function.update p.allClientConnections fd none fd' = some e →
      p.allClientConnections fd' = some e := by
    intro fd' e he
    by_cases hfd : fd' = fd
    · subst hfd
      simp at he
    · rwa [Function.update_of_ne hfd] at he
  refine ⟨⟨fun he => h.alloc (hold he), fun he => h.fd_eq (hold he)⟩, funext fun fd' => ?_⟩
  by_cases hfd : fd' = fd
  · subst hfd
    simp [status]
  · simp [status, csOf, Function.update_of_ne hfd]

theorem Filed.delCsInUse (h : p.Filed) {x : ClientSocket × Bool} (hs : p.status fd = some x) :
    ∃ q, p.delCsInUse fd = .ok () q ∧ q.Filed ∧
      q.status = Function.update p.status fd none := by
  obtain ⟨e, he, -, -⟩ := lookup_of_status hs
  rw [ClientSocketPool.delCsInUse, he]
  exact ⟨_, rfl, h.remove fd⟩

theorem Filed.addCsPending (h : p.Filed) (cs : ClientSocket) :
    ∃ q, p.addCsPending cs = .ok () q ∧ q.Filed ∧
      q.status = Function.update p.status cs.fd (some (cs, false)) := by
  rw [ClientSocketPool.addCsPending]
  set q : ClientSocketPool := { p with
    heap := Function.update p.heap p.fresh { cs }
    fresh := p.fresh + 1
    allClientConnections := Function.update p.allClientConnections cs.fd (some p.fresh) } with hq
  obtain ⟨hacc, hfresh, hheap⟩ := linkAtHead_frame (p := q) p.fresh
  have hcs : (q.linkAtHead p.fresh).csOf = q.csOf := funext fun e => (hheap e).1
  have hself : q.csOf p.fresh = cs := by simp [hq, csOf]
  have hother : ∀ {fd e}, p.allClientConnections fd = some e →
      q.csOf e = p.csOf e ∧ (q.heap e).inUse = (p.heap e).inUse := by
    intro fd e he
    have hne : e ≠ p.fresh := Nat.ne_of_lt (h.alloc he)
    simp [hq, csOf, Function.update_of_ne hne]
  have hlookup : ∀ {fd e}, q.allClientConnections fd = some e →
      fd = cs.fd ∧ e = p.fresh ∨ fd ≠ cs.fd ∧ p.allClientConnections fd = some e := by
    intro fd e he
    simp only [hq, Function.update_apply] at he
    split at he
    next hfd => exact Or.inl ⟨hfd, (Option.some.inj he).symm⟩
    next hfd => exact Or.inr ⟨hfd, he⟩
  refine ⟨_, rfl, ⟨fun he => ?_, fun he => ?_⟩, funext fun fd => ?_⟩
  · rw [hacc] at he
    rw [hfresh]
    obtain ⟨-, rfl⟩ | ⟨-, he⟩ := hlookup he
    · exact Nat.lt_succ_self _
    · exact Nat.lt_succ_of_lt (h.alloc he)
  · rw [hacc] at he
    rw [hcs]
    obtain ⟨rfl, rfl⟩ | ⟨-, he⟩ := hlookup he
    · rw [hself]
    · rw [(hother he).1, h.fd_eq he]
  · rw [status, hacc, hcs]
    by_cases hfd : fd = cs.fd
    · subst hfd
      have hnew : q.allClientConnections cs.fd = some p.fresh := by simp [hq]
      rw [Function.update_self, hnew, Option.map_some, hself, (hheap _).2.1]
      simp [hq]
    · have hold : q.allClientConnections fd = p.allClientConnections fd := by
        simp [hq, Function.update_of_ne hfd]
      rw [Function.update_of_ne hfd, status, hold]
      refine Option.map_congr fun e he => ?_
      rw [(hheap e).2.1, (hother he).1, (hother he).2]

/-- The pool pops the socket at the tail, if there is one and the dictionary has it. -/
def Poppable (p : ClientSocketPool) : Prop :=
  ∃ e, p.tail = some e ∧ (p.status (p.csOf e).fd).isSome = true

theorem Filed.popCsPendingFromTail (h : p.Filed) (hp : p.Poppable) :
    ∃ cs q, p.popCsPendingFromTail = .ok cs q ∧ q.Filed ∧
      q.status = Function.update p.status cs.fd none := by
  obtain ⟨e, he, hs⟩ := hp
  obtain ⟨x, hx⟩ := Option.isSome_iff_exists.mp hs
  obtain ⟨e', he', -, -⟩ := lookup_of_status hx
  simp only [csOf] at he'
  simp only [ClientSocketPool.popCsPendingFromTail, he, he']
  exact ⟨_, _, rfl, h.remove _⟩

/-- It is the socket of the entry at the tail. -/
theorem Filed.popCsPendingFromTail_of_tail (h : p.Filed) {e : EntryId} (he : p.tail = some e)
    {x : ClientSocket × Bool} (hs : p.status (p.csOf e).fd = some x) :
    ∃ q, p.popCsPendingFromTail = .ok (p.csOf e) q ∧ q.Filed ∧
      q.status = Function.update p.status (p.csOf e).fd none := by
  obtain ⟨e', he', -, -⟩ := lookup_of_status hs
  simp only [csOf] at he'
  simp only [ClientSocketPool.popCsPendingFromTail, he, he']
  exact ⟨_, rfl, h.remove _⟩

theorem Filed.popCsPendingFromTail_raise (h : p.Filed) (hp : ¬ p.Poppable) :
    ∃ err q, p.popCsPendingFromTail = .raise err q ∧ q.Filed ∧ q.status = p.status := by
  simp only [ClientSocketPool.popCsPendingFromTail]
  cases he : p.tail with
  | none => exact ⟨_, _, rfl, h, rfl⟩
  | some e =>
      cases hs : p.allClientConnections (p.heap e).cs.fd with
      | none =>
          simp only [hs]
          exact ⟨_, _, rfl, ⟨h.alloc, h.fd_eq⟩, rfl⟩
      | some e' => exact absurd ⟨e, he, by simp [status, csOf, hs]⟩ hp

end ClientSocketPool

end Web3Proxy
