import Web3Proxy.ClientSocketPool.Spec
import Web3Proxy.Lib.Trans
import Web3Proxy.Lib.Walk

/-!
# Web3Proxy.ClientSocketPool.Refine

The pool against its book.  `Agrees` says that a pool looks like a book from
outside: dictionary, walk from `tail` along `prev`, `head`, `tail`, `size`.
`Lockstep` runs the same calls on both sides.

The insertions never assign `next`, so in every reachable pool all `next`
fields are `None`, and `get_cs_and_set_in_use` takes the entry at the head for
the only one and an entry in the middle for the tail; `pop` leaves `head`
behind when it empties the list.  Hence the two sides agree along a run exactly
when the run uses the pool as a queue (`agrees_iff_fifo`).
-/

namespace Web3Proxy

open Py Linked ClientSocketPool

namespace ClientSocketPool

/-- The `prev` field of an entry. -/
def prevOf (p : ClientSocketPool) (e : EntryId) : Option EntryId := (p.heap e).prev

/-- The socket of an entry. -/
def csOf (p : ClientSocketPool) (e : EntryId) : ClientSocket := (p.heap e).cs

/-- The pool behaves as the book, seen from outside. -/
structure Agrees (p : ClientSocketPool) (b : SocketBook) : Prop where
  dict : ∀ fd, (p.allClientConnections fd).map (fun e => (p.csOf e, (p.heap e).inUse)) =
    b.status fd
  walk : ∃ es, Walk p.prevOf p.tail es ∧ es.Nodup ∧
    (∀ e, e ∈ es ↔ ∃ fd, p.allClientConnections fd = some e ∧ (p.heap e).inUse = false) ∧
    es.map p.csOf = b.pending ∧ p.size = es.length
  head_none : p.head = none ↔ b.pending = []
  tail_none : p.tail = none ↔ b.pending = []

/-- What an operation leaves of the pool when it returns `r`; `none` when it
raises or returns something else. -/
def execAs (p : ClientSocketPool) (op : Op) (r : Option ClientSocket) :
    Option ClientSocketPool :=
  match p.exec op with
  | .ok r' p' => if r' = r then some p' else none
  | .raise _ _ => none

/-- The pool and its book, run on the same calls; `impl` is `none` once the
pool has raised or returned a wrong socket. -/
structure Lockstep where
  impl : Option ClientSocketPool
  spec : SocketBook

namespace Lockstep

/-- A fresh pool and the empty book. -/
def init : Lockstep := ⟨some ClientSocketPool.empty, SocketBook.empty⟩

/-- One call on both sides, if its precondition holds. -/
def step (s : Lockstep) (op : Op) : Option Lockstep :=
  (s.spec.step op).map fun br => ⟨s.impl.bind fun p => p.execAs op br.2, br.1⟩

/-- The pool has not raised and behaves as the book. -/
def Refines (s : Lockstep) : Prop := ∃ p, s.impl = some p ∧ p.Agrees s.spec

/-- The call uses the list as a queue: the socket taken into use is the one
that has been pending longest, and `pop` does not take the last one. -/
def Fifo (s : Lockstep) : Op → Prop
  | .getCsAndSetInUse fd => s.spec.pending.head?.map ClientSocket.fd = some fd
  | .popCsPendingFromTail => 2 ≤ s.spec.pending.length
  | _ => True

end Lockstep

/-! ## the pool invariant -/

/-- The pool as the operations maintain it on queue-like runs: `es` is the
chain from `tail`, `head` is its last entry, and no `next` is ever set. -/
structure Chained (p : ClientSocketPool) (es : List EntryId) (b : SocketBook) : Prop where
  walk : Walk p.prevOf p.tail es
  head : p.head = es.getLast?
  size : p.size = es.length
  pending : es.map p.csOf = b.pending
  dict : ∀ fd, (p.allClientConnections fd).map (fun e => (p.csOf e, (p.heap e).inUse)) =
    b.status fd
  listed : ∀ e ∈ es, p.allClientConnections (p.csOf e).fd = some e
  next : ∀ e, (p.heap e).next = none
  alloc : ∀ fd e, p.allClientConnections fd = some e → e < p.fresh

namespace Chained

variable {p : ClientSocketPool} {es : List EntryId} {b : SocketBook}

theorem nodup (h : p.Chained es b) : es.Nodup :=
  List.Nodup.of_map p.csOf (h.pending ▸ b.nodup)

/-- The dictionary entry of a file descriptor of known status. -/
theorem lookup (h : p.Chained es b) {fd : Int} {cs : ClientSocket} {u : Bool}
    (hst : b.status fd = some (cs, u)) :
    ∃ e, p.allClientConnections fd = some e ∧ p.csOf e = cs ∧ (p.heap e).inUse = u := by
  have hd := h.dict fd
  rw [hst, Option.map_eq_some_iff] at hd
  obtain ⟨e, he, hcu⟩ := hd
  exact ⟨e, he, congrArg Prod.fst hcu, congrArg Prod.snd hcu⟩

/-- The dictionary files an entry under the descriptor of its socket. -/
theorem fd_csOf (h : p.Chained es b) {fd : Int} {e : EntryId}
    (he : p.allClientConnections fd = some e) : (p.csOf e).fd = fd := by
  have hd := h.dict fd
  rw [he, Option.map_some] at hd
  exact b.fd_eq hd.symm

/-- The chain consists of the dictionary's pending entries. -/
theorem mem_iff (h : p.Chained es b) (e : EntryId) :
    e ∈ es ↔ ∃ fd, p.allClientConnections fd = some e ∧ (p.heap e).inUse = false := by
  constructor
  · intro hmem
    have hl := h.listed e hmem
    have hpend : p.csOf e ∈ b.pending := by
      rw [← h.pending]
      exact List.mem_map_of_mem hmem
    have hst := (b.mem_pending _).mp hpend
    obtain ⟨e', he', -, hu⟩ := h.lookup hst
    rw [hl] at he'
    cases he'
    exact ⟨_, hl, hu⟩
  · rintro ⟨fd, he, hu⟩
    have hd := h.dict fd
    rw [he, Option.map_some, hu] at hd
    have hfd : (p.csOf e).fd = fd := h.fd_csOf he
    have hpend : p.csOf e ∈ b.pending := (b.mem_pending _).mpr (by rw [hfd]; exact hd.symm)
    rw [← h.pending, List.mem_map] at hpend
    obtain ⟨e', hmem, hcs⟩ := hpend
    have hl := h.listed e' hmem
    rw [hcs, hfd, he] at hl
    cases hl
    exact hmem

/-- An entry in use is not on the chain. -/
theorem not_mem_of_inUse (h : p.Chained es b) {e : EntryId} (hu : (p.heap e).inUse = true) :
    e ∉ es := by
  intro hmem
  obtain ⟨fd, -, hf⟩ := (h.mem_iff e).mp hmem
  rw [hu] at hf
  contradiction

theorem fresh_not_mem (h : p.Chained es b) : p.fresh ∉ es := by
  intro hmem
  obtain ⟨fd, he, -⟩ := (h.mem_iff _).mp hmem
  exact Nat.lt_irrefl _ (h.alloc fd _ he)

theorem nil_iff (h : p.Chained es b) : es = [] ↔ b.pending = [] := by
  rw [← h.pending, List.map_eq_nil_iff]

/-- A chained pool looks like its book. -/
theorem agrees (h : p.Chained es b) : p.Agrees b where
  dict := h.dict
  walk := ⟨es, h.walk, h.nodup, h.mem_iff, h.pending, h.size⟩
  head_none := by rw [h.head, List.getLast?_eq_none_iff, h.nil_iff]
  tail_none := by rw [h.walk.head_eq, List.head?_eq_none_iff, h.nil_iff]

end Chained

/-- The fresh pool is the empty book. -/
theorem chained_empty : ClientSocketPool.empty.Chained [] SocketBook.empty where
  walk := rfl
  head := rfl
  size := rfl
  pending := rfl
  dict := fun _ => rfl
  listed := by simp
  next := fun _ => rfl
  alloc := by simp [ClientSocketPool.empty]

/-! ## assigning fields -/

variable {p : ClientSocketPool} {es : List EntryId} {b : SocketBook}

@[simp] theorem allClientConnections_modifyEntry (e f) :
    (p.modifyEntry e f).allClientConnections = p.allClientConnections := rfl

@[simp] theorem fresh_modifyEntry (e f) : (p.modifyEntry e f).fresh = p.fresh := rfl

@[simp] theorem head_modifyEntry (e f) : (p.modifyEntry e f).head = p.head := rfl

@[simp] theorem tail_modifyEntry (e f) : (p.modifyEntry e f).tail = p.tail := rfl

@[simp] theorem size_modifyEntry (e f) : (p.modifyEntry e f).size = p.size := rfl

theorem heap_modifyEntry (e f x) :
    (p.modifyEntry e f).heap x = if x = e then f (p.heap e) else p.heap x := by
  simp only [modifyEntry, Function.update_apply]

/-- Linking at the head touches no dictionary, no allocation, and of the
entries only a `prev`. -/
theorem linkAtHead_frame (n : EntryId) :
    (p.linkAtHead n).allClientConnections = p.allClientConnections ∧
    (p.linkAtHead n).fresh = p.fresh ∧
    ∀ e, ((p.linkAtHead n).heap e).cs = (p.heap e).cs ∧
      ((p.linkAtHead n).heap e).inUse = (p.heap e).inUse ∧
      ((p.linkAtHead n).heap e).next = (p.heap e).next := by
  cases hh : p.head with
  | none => simp [linkAtHead, hh]
  | some h =>
      simp only [linkAtHead, hh, allClientConnections_modifyEntry, fresh_modifyEntry,
        heap_modifyEntry, true_and]
      intro e
      split
      · next he => subst he; simp
      · simp

/-- Linking at the head extends the chain by its new last entry. -/
theorem walk_linkAtHead (hw : Walk p.prevOf p.tail es) (hnd : es.Nodup)
    (hh : p.head = es.getLast?) {n : EntryId} (hn : n ∉ es) (hprev : (p.heap n).prev = none) :
    Walk (p.linkAtHead n).prevOf (p.linkAtHead n).tail (es ++ [n]) := by
  cases hl : es.getLast? with
  | none =>
      rw [List.getLast?_eq_none_iff] at hl
      subst hl
      simp [linkAtHead, hh, prevOf, hprev]
  | some e =>
      obtain ⟨fs, rfl⟩ := List.getLast?_eq_some_iff.mp hl
      have hefs : e ∉ fs := by
        rw [List.nodup_append] at hnd
        exact fun hm => hnd.2.2 e hm e (by simp) rfl
      have hne : n ≠ e := fun h => hn (by simp [h])
      have htail : (p.linkAtHead n).tail = p.tail := by simp [linkAtHead, hh, hl]
      have hheap : ∀ x, (p.linkAtHead n).prevOf x = if x = e then some n else p.prevOf x := by
        intro x
        simp only [prevOf, linkAtHead, hh, hl, heap_modifyEntry]
        split <;> rfl
      rw [htail]
      refine hw.snoc hefs ?_ ?_ ?_
      · intro f hf
        have hfe : f ≠ e := fun h => hefs (h ▸ hf)
        rw [hheap, if_neg hfe]
      · rw [hheap, if_pos rfl]
      · rw [hheap, if_neg hne]
        exact hprev

theorem head_linkAtHead (n : EntryId) : (p.linkAtHead n).head = some n := by
  simp [linkAtHead]

theorem size_linkAtHead (n : EntryId) : (p.linkAtHead n).size = p.size + 1 := by
  cases hh : p.head <;> simp [linkAtHead, hh]

/-- Linking an unlisted entry in at the head of a chained pool, once the
dictionary agrees with the new book. -/
theorem chained_linkAtHead {b' : SocketBook} {n : EntryId} (hw : Walk p.prevOf p.tail es)
    (hnd : es.Nodup) (hh : p.head = es.getLast?) (hs : p.size = es.length) (hn : n ∉ es)
    (hprev : (p.heap n).prev = none) (hpend : es.map p.csOf ++ [p.csOf n] = b'.pending)
    (hdict : ∀ fd, (p.allClientConnections fd).map (fun e => (p.csOf e, (p.heap e).inUse)) =
      b'.status fd)
    (hlisted : ∀ e ∈ es ++ [n], p.allClientConnections (p.csOf e).fd = some e)
    (hnext : ∀ e, (p.heap e).next = none)
    (halloc : ∀ fd e, p.allClientConnections fd = some e → e < p.fresh) :
    (p.linkAtHead n).Chained (es ++ [n]) b' := by
  obtain ⟨hacc, hfr, hheap⟩ := linkAtHead_frame (p := p) n
  have hcs : (p.linkAtHead n).csOf = p.csOf := funext fun e => (hheap e).1
  refine ⟨walk_linkAtHead hw hnd hh hn hprev, ?_, ?_, ?_, ?_, ?_, ?_, ?_⟩
  · rw [head_linkAtHead, List.getLast?_concat]
  · rw [size_linkAtHead, hs]
    simp
  · rw [hcs, List.map_append, List.map_singleton, hpend]
  · intro fd
    simp only [hacc, hcs, (hheap _).2.1]
    exact hdict fd
  · intro e he
    rw [hacc, hcs]
    exact hlisted e he
  · intro e
    rw [(hheap e).2.2]
    exact hnext e
  · intro fd e he
    rw [hacc] at he
    rw [hfr]
    exact halloc fd e he

/-- Setting the status of one dictionary entry is setting it in the book. -/
theorem Chained.dict_set (h : p.Chained es b) {fd : Int} {e : EntryId}
    (he : p.allClientConnections fd = some e) (p' : ClientSocketPool) {u : Bool}
    (hacc : p'.allClientConnections = p.allClientConnections) (hcs : p'.csOf = p.csOf)
    (hu : ∀ x, (p'.heap x).inUse = if x = e then u else (p.heap x).inUse) (fd' : Int) :
    (p'.allClientConnections fd').map (fun x => (p'.csOf x, (p'.heap x).inUse)) =
      Function.update b.status fd (some (p.csOf e, u)) fd' := by
  rw [hacc, hcs]
  simp only [hu]
  by_cases hfd : fd' = fd
  · subst hfd
    rw [Function.update_self, he, Option.map_some, if_pos rfl]
  · rw [Function.update_of_ne hfd, ← h.dict fd']
    cases he' : p.allClientConnections fd' with
    | none => rfl
    | some e' =>
        have hne : e' ≠ e := by
          intro heq
          subst heq
          exact hfd ((h.fd_csOf he').symm.trans (h.fd_csOf he))
        rw [Option.map_some, Option.map_some, if_neg hne]

/-! ## one lemma per operation -/

/-- `add_cs_pending` of an absent socket. -/
theorem Chained.addCsPending (h : p.Chained es b) {cs : ClientSocket}
    (hfd : b.status cs.fd = none) :
    ∃ p', p.addCsPending cs = .ok () p' ∧ p'.Chained (es ++ [p.fresh]) (b.addPending cs hfd) := by
  refine ⟨_, rfl, ?_⟩
  have hnew : ∀ e, e ≠ p.fresh → Function.update p.heap p.fresh { cs } e = p.heap e :=
    fun e he => Function.update_of_ne he _ _
  have hes : ∀ e ∈ es, e ≠ p.fresh := fun e he heq => h.fresh_not_mem (heq ▸ he)
  have hold : ∀ fd e, p.allClientConnections fd = some e → e ≠ p.fresh :=
    fun fd e he => Nat.ne_of_lt (h.alloc fd e he)
  refine chained_linkAtHead ?_ h.nodup h.head h.size h.fresh_not_mem ?_ ?_ ?_ ?_ ?_ ?_
  · refine h.walk.congr fun e he => ?_
    simp only [prevOf, hnew e (hes e he)]
  · simp
  · simp only [csOf, Function.update_self]
    have hmap : es.map (fun e => (Function.update p.heap p.fresh { cs } e).cs) =
        es.map p.csOf := List.map_congr_left fun e he => by rw [hnew e (hes e he), csOf]
    exact (congrArg (· ++ [cs]) (hmap.trans h.pending))
  · intro fd
    simp only [SocketBook.addPending]
    by_cases hc : fd = cs.fd
    · subst hc
      simp [csOf]
    · rw [Function.update_of_ne hc, Function.update_of_ne hc, ← h.dict fd]
      cases he : p.allClientConnections fd with
      | none => rfl
      | some e => simp only [Option.map_some, csOf, hnew e (hold fd e he)]
  · intro e he
    rw [List.mem_append, List.mem_singleton] at he
    rcases he with he | rfl
    · have hne : (p.csOf e).fd ≠ cs.fd := by
        intro heq
        have hst := h.dict cs.fd
        rw [hfd, ← heq, h.listed e he] at hst
        contradiction
      simp only [csOf, hnew e (hes e he)]
      exact (Function.update_of_ne hne _ _).trans (h.listed e he)
    · simp [csOf]
  · intro e
    by_cases he : e = p.fresh
    · subst he
      simp
    · simp only [hnew e he]
      exact h.next e
  · intro fd e he
    by_cases hc : fd = cs.fd
    · subst hc
      simp only [Function.update_self, Option.some.injEq] at he
      subst he
      exact Nat.lt_succ_self _
    · replace he : p.allClientConnections fd = some e :=
        (Function.update_of_ne hc _ _).symm.trans he
      exact Nat.lt_succ_of_lt (h.alloc fd e he)

/-- `set_cs_pending` of a socket in use. -/
theorem Chained.setCsPending (h : p.Chained es b) {fd : Int} {cs : ClientSocket}
    (hst : b.status fd = some (cs, true)) :
    ∃ p' e, p.setCsPending fd = .ok () p' ∧ p'.Chained (es ++ [e]) (b.setPending hst) := by
  obtain ⟨e, he, hcs, hu⟩ := h.lookup hst
  have hne : ∀ x ∈ es, x ≠ e := fun x hx heq => h.not_mem_of_inUse hu (heq ▸ hx)
  have hcsOf : (p.modifyEntry e fun x => { x with inUse := false, prev := none }).csOf =
      p.csOf := by
    funext x
    simp only [csOf, heap_modifyEntry]
    split
    · next hx => rw [hx]
    · rfl
  refine ⟨_, e, by rw [ClientSocketPool.setCsPending, he], ?_⟩
  refine chained_linkAtHead ?_ h.nodup h.head h.size (h.not_mem_of_inUse hu) ?_ ?_ ?_ ?_ ?_ ?_
  · refine h.walk.congr fun x hx => ?_
    rw [prevOf, heap_modifyEntry, if_neg (hne x hx), prevOf]
  · simp [heap_modifyEntry]
  · rw [hcsOf, h.pending, hcs]
    rfl
  · intro fd'
    have hu' : ∀ x, ((p.modifyEntry e fun x => { x with inUse := false, prev := none }).heap
        x).inUse = if x = e then false else (p.heap x).inUse := by
      intro x
      rw [heap_modifyEntry]
      split <;> rfl
    have hset := h.dict_set he (p.modifyEntry e fun x => { x with inUse := false, prev := none })
      rfl hcsOf hu' fd'
    rw [hcs] at hset
    exact hset
  · intro x hx
    rw [hcsOf, allClientConnections_modifyEntry]
    rw [List.mem_append, List.mem_singleton] at hx
    rcases hx with hx | rfl
    · exact h.listed x hx
    · rw [h.fd_csOf he, he]
  · intro x
    rw [heap_modifyEntry]
    split <;> exact h.next _
  · exact h.alloc

/-- `del_cs_in_use` of a socket in use. -/
theorem Chained.delCsInUse (h : p.Chained es b) {fd : Int} {cs : ClientSocket}
    (hst : b.status fd = some (cs, true)) :
    ∃ p', p.delCsInUse fd = .ok () p' ∧ p'.Chained es (b.del hst) := by
  obtain ⟨e, he, hcs, hu⟩ := h.lookup hst
  refine ⟨{ p with allClientConnections := Function.update p.allClientConnections fd none },
    by rw [ClientSocketPool.delCsInUse, he], h.walk, h.head, h.size, h.pending, ?_, ?_,
    h.next, ?_⟩
  · intro fd'
    simp only [SocketBook.del]
    by_cases hfd : fd' = fd
    · subst hfd
      rw [Function.update_self, Function.update_self]
      rfl
    · rw [Function.update_of_ne hfd, Function.update_of_ne hfd]
      exact h.dict fd'
  · intro x hx
    have hne : (p.csOf x).fd ≠ fd := by
      intro heq
      have hl := h.listed x hx
      rw [heq, he] at hl
      cases hl
      exact h.not_mem_of_inUse hu hx
    exact (Function.update_of_ne hne _ _).trans (h.listed x hx)
  · intro fd' x hx
    by_cases hfd : fd' = fd
    · subst hfd
      simp at hx
    · exact h.alloc fd' x ((Function.update_of_ne hfd _ _).symm.trans hx)

/-- When no `next` field is set, the entry at the head (which has no `prev`) is
taken for the only one and empties the list; any other is taken for the tail
and becomes the cut behind which the list ends. -/
theorem unlink_eq (hnext : ∀ e, (p.heap e).next = none) (e : EntryId) :
    (p.unlink e).allClientConnections = p.allClientConnections ∧
    (p.unlink e).fresh = p.fresh ∧ (p.unlink e).size = p.size - 1 ∧
    (p.unlink e).tail = p.prevOf e ∧
    ((p.unlink e).head = if p.prevOf e = none then none else p.head) ∧
    ∀ x, (p.unlink e).heap x = if x = e then { p.heap e with inUse := true } else p.heap x := by
  cases hp : (p.heap e).prev with
  | none => simp [unlink, heap_modifyEntry, prevOf, hp, hnext e]
  | some q =>
      -- assigning `None` to the `next` of the new tail changes nothing
      have hq : ∀ x, { p.heap x with next := none } = p.heap x := by
        intro x
        rw [← hnext x]
      have hheap : (p.unlink e).heap = fun x =>
          if x = e then { p.heap e with inUse := true } else p.heap x := by
        funext x
        simp only [unlink, heap_modifyEntry, if_true, hp, hnext e]
        split
        · next hxq =>
            subst hxq
            split
            · next hxe => subst hxe; simp
            · exact hq x
        · split <;> rfl
      refine ⟨?_, ?_, ?_, ?_, ?_, fun x => congrFun hheap x⟩ <;>
        simp [unlink, heap_modifyEntry, prevOf, hp, hnext e]

/-- Taking the entry `e` off, in terms of the fields the walk reads. -/
theorem Chained.getCsAndSetInUse (h : p.Chained es b) {fd : Int} {e : EntryId}
    (he : p.allClientConnections fd = some e) :
    p.getCsAndSetInUse fd = .ok (p.csOf e) (p.unlink e) ∧
      (p.unlink e).csOf = p.csOf ∧ (p.unlink e).prevOf = p.prevOf ∧
      (∀ x, ((p.unlink e).heap x).next = none) ∧
      ∀ fd', ((p.unlink e).allClientConnections fd').map
          (fun x => ((p.unlink e).csOf x, ((p.unlink e).heap x).inUse)) =
        Function.update b.status fd (some (p.csOf e, true)) fd' := by
  obtain ⟨hacc, -, -, -, -, hheap⟩ := unlink_eq h.next e
  have hcs : (p.unlink e).csOf = p.csOf := by
    funext x
    simp only [csOf, hheap]
    split
    · next hx => rw [hx]
    · rfl
  have hprev : (p.unlink e).prevOf = p.prevOf := by
    funext x
    simp only [prevOf, hheap]
    split
    · next hx => rw [hx]
    · rfl
  refine ⟨?_, hcs, hprev, ?_, ?_⟩
  · rw [ClientSocketPool.getCsAndSetInUse, he]
    exact congrArg (fun cs => Result.ok cs _) (congrFun hcs e)
  · intro x
    rw [hheap]
    split
    · exact h.next e
    · exact h.next x
  · refine h.dict_set he _ hacc hcs fun x => ?_
    rw [hheap]
    split <;> rfl

/-- `get_cs_and_set_in_use` of the socket that has been pending longest. -/
theorem Chained.getTail {e : EntryId} (h : p.Chained (e :: es) b) {fd : Int} {cs : ClientSocket}
    (hst : b.status fd = some (cs, false)) (he : p.allClientConnections fd = some e) :
    p.getCsAndSetInUse fd = .ok cs (p.unlink e) ∧ (p.unlink e).Chained es (b.setInUse hst) := by
  obtain ⟨e', he', hcs, -⟩ := h.lookup hst
  rw [he] at he'
  cases he'
  obtain ⟨hget, hcsOf, hprev, hnext, hdict⟩ := h.getCsAndSetInUse he
  obtain ⟨hacc, hfr, hsize, htail, hhead, -⟩ := unlink_eq h.next e
  have hwalk : Walk p.prevOf (p.prevOf e) es := h.walk.2
  refine ⟨hcs ▸ hget, ?_, ?_, ?_, ?_, ?_, ?_, hnext, ?_⟩
  · rw [hprev, htail]
    exact hwalk
  · rw [hhead, hwalk.head_eq, h.head]
    cases es with
    | nil => rfl
    | cons f fs => rw [if_neg (by simp), List.getLast?_cons_cons]
  · rw [hsize, h.size, List.length_cons]
    omega
  · have hp := h.pending
    rw [List.map_cons, hcs] at hp
    calc
      es.map (p.unlink e).csOf = (cs :: es.map p.csOf).erase cs := by
        rw [hcsOf, List.erase_cons_head]
      _ = b.pending.erase cs := by rw [hp]
  · intro fd'
    rw [hdict fd', hcs]
    rfl
  · intro x hx
    rw [hacc, hcsOf]
    exact h.listed x (List.mem_cons_of_mem e hx)
  · rw [hacc, hfr]
    exact h.alloc

/-- `get_cs_and_set_in_use` of any other pending socket loses the sockets that
have been pending longer. -/
theorem Chained.getOther {e : EntryId} {xs ys : List EntryId}
    (h : p.Chained (xs ++ e :: ys) b) (hxs : xs ≠ []) {fd : Int} {cs : ClientSocket}
    (hst : b.status fd = some (cs, false)) (he : p.allClientConnections fd = some e) :
    ¬ (p.unlink e).Agrees (b.setInUse hst) := by
  intro hag
  obtain ⟨-, -, hprev, -, -⟩ := h.getCsAndSetInUse he
  obtain ⟨-, -, -, htail, -, -⟩ := unlink_eq h.next e
  obtain ⟨es', hwalk, -, -, hmap, -⟩ := hag.walk
  rw [hprev, htail] at hwalk
  have hes' : es' = ys := hwalk.unique h.walk.drop
  have hmem : cs ∈ b.pending := (b.mem_pending cs).mpr (by rw [b.fd_eq hst]; exact hst)
  have hlen : es'.length = b.pending.length - 1 := by
    rw [← List.length_map (f := (p.unlink e).csOf), hmap]
    exact List.length_erase_of_mem hmem
  rw [hes', ← h.pending, List.length_map, List.length_append, List.length_cons] at hlen
  exact hxs (List.eq_nil_of_length_eq_zero (by omega))

/-- `pop_cs_pending_from_tail` when at least two sockets are pending. -/
theorem Chained.popMany {e f : EntryId} (h : p.Chained (e :: f :: es) b) {cs : ClientSocket}
    {rest : List ClientSocket} (hp : b.pending = cs :: rest) :
    ∃ p', p.popCsPendingFromTail = .ok cs p' ∧ p'.Chained (f :: es) (b.pop hp) := by
  have hmap := h.pending
  rw [hp, List.map_cons, List.cons_eq_cons] at hmap
  obtain ⟨hcs, hrest⟩ := hmap
  have hlist : p.allClientConnections cs.fd = some e := by
    rw [← hcs]
    exact h.listed e List.mem_cons_self
  have hcs' : (p.heap e).cs = cs := hcs
  refine ⟨{ p with
    tail := (p.heap e).prev
    size := p.size - 1
    allClientConnections := Function.update p.allClientConnections cs.fd none }, ?_, ?_, ?_, ?_,
    hrest, ?_, ?_, h.next, ?_⟩
  · simp only [popCsPendingFromTail, h.walk.1, hcs', hlist]
  · exact h.walk.2
  · rw [h.head, List.getLast?_cons_cons]
  · have hs := h.size
    rw [List.length_cons] at hs
    show p.size - 1 = _
    omega
  · intro fd
    simp only [SocketBook.pop]
    by_cases hfd : fd = cs.fd
    · subst hfd
      rw [Function.update_self, Function.update_self]
      rfl
    · rw [Function.update_of_ne hfd, Function.update_of_ne hfd]
      exact h.dict fd
  · intro x hx
    have hne : (p.csOf x).fd ≠ cs.fd := by
      intro heq
      have hl := h.listed x (List.mem_cons_of_mem e hx)
      rw [heq, hlist] at hl
      cases hl
      exact (List.nodup_cons.mp h.nodup).1 hx
    exact (Function.update_of_ne hne _ _).trans (h.listed x (List.mem_cons_of_mem e hx))
  · intro fd x hx
    by_cases hfd : fd = cs.fd
    · subst hfd
      simp at hx
    · exact h.alloc fd x ((Function.update_of_ne hfd _ _).symm.trans hx)

/-- `pop_cs_pending_from_tail` of the only pending socket returns it but leaves
`head` set. -/
theorem Chained.popLast {e : EntryId} (h : p.Chained [e] b) {cs : ClientSocket}
    {rest : List ClientSocket} (hp : b.pending = cs :: rest) {p' : ClientSocketPool}
    (hpop : p.popCsPendingFromTail = .ok cs p') : ¬ p'.Agrees (b.pop hp) := by
  intro hag
  have hrest : rest = [] := by
    have hmap := h.pending
    rw [hp, List.map_cons, List.cons_eq_cons] at hmap
    exact hmap.2.symm
  have hhead : p'.head = p.head := by
    simp only [popCsPendingFromTail, h.walk.1] at hpop
    split at hpop
    · contradiction
    · cases hpop
      rfl
  have hnone := hag.head_none.mpr hrest
  rw [hhead, h.head] at hnone
  contradiction

/-! ## the pool and its book in lockstep -/

namespace Lockstep

open Trans

/-- What queue-like calls maintain. -/
def Inv (s : Lockstep) : Prop := ∃ p es, s.impl = some p ∧ p.Chained es s.spec

theorem inv_init : Inv init := ⟨_, [], rfl, chained_empty⟩

theorem Inv.refines {s : Lockstep} (h : Inv s) : s.Refines := by
  obtain ⟨p, es, hp, hc⟩ := h
  exact ⟨p, hp, hc.agrees⟩

/-- A step is a step of the book, with the pool made to return the same. -/
theorem step_eq_some {s s' : Lockstep} {op : Op} (h : s.step op = some s') :
    ∃ r, s.spec.step op = some (s'.spec, r) ∧ s'.impl = s.impl.bind fun p => p.execAs op r := by
  obtain ⟨⟨b', r⟩, hbr, rfl⟩ := Option.map_eq_some_iff.mp h
  exact ⟨r, hbr, rfl⟩

/-- The entry to be taken into use splits the chain. -/
theorem chain_split {p : ClientSocketPool} {es : List EntryId} {b : SocketBook}
    (hc : p.Chained es b) {fd : Int} {cs : ClientSocket} (hst : b.status fd = some (cs, false)) :
    ∃ xs e ys, es = xs ++ e :: ys ∧ p.allClientConnections fd = some e ∧ p.csOf e = cs := by
  obtain ⟨e, he, hcs, hu⟩ := hc.lookup hst
  obtain ⟨xs, ys, hes⟩ := List.append_of_mem ((hc.mem_iff e).mpr ⟨fd, he, hu⟩)
  exact ⟨xs, e, ys, hes, he, hcs⟩

/-- **Step lemma**: a queue-like call keeps the invariant. -/
theorem inv_step {s s' : Lockstep} {op : Op} (h : Inv s) (hf : s.Fifo op)
    (hstep : s.step op = some s') : Inv s' := by
  obtain ⟨p, es, hp, hc⟩ := h
  obtain ⟨r, hb, himpl⟩ := step_eq_some hstep
  rw [hp, Option.bind_some] at himpl
  cases op with
  | addCsPending cs =>
      obtain ⟨hfd, hs', rfl⟩ := SocketBook.step_add _ hb
      obtain ⟨p', hex, hc'⟩ := hc.addCsPending hfd
      exact ⟨p', _, by simp [himpl, execAs, exec, Result.map, hex], hs' ▸ hc'⟩
  | getCsAndSetInUse fd =>
      obtain ⟨cs, hst, hs', rfl⟩ := SocketBook.step_get _ hb
      obtain ⟨xs, e, ys, rfl, he, hcs⟩ := chain_split hc hst
      -- the guard says that `fd` belongs to the first entry of the chain
      have hxs : xs = [] := by
        cases xs with
        | nil => rfl
        | cons x xs =>
            exfalso
            simp only [Fifo, ← hc.pending, List.cons_append, List.map_cons, List.head?_cons,
              Option.map_some, Option.some.injEq] at hf
            have hx := hc.listed x (by simp)
            rw [hf, he] at hx
            cases hx
            exact (List.nodup_cons.mp hc.nodup).1 (by simp)
      subst hxs
      obtain ⟨hex, hc'⟩ := hc.getTail hst he
      exact ⟨_, ys, by simp [himpl, execAs, exec, Result.map, hex], hs' ▸ hc'⟩
  | setCsPending fd =>
      obtain ⟨cs, hst, hs', rfl⟩ := SocketBook.step_set _ hb
      obtain ⟨p', e, hex, hc'⟩ := hc.setCsPending hst
      exact ⟨p', _, by simp [himpl, execAs, exec, Result.map, hex], hs' ▸ hc'⟩
  | delCsInUse fd =>
      obtain ⟨cs, hst, hs', rfl⟩ := SocketBook.step_del _ hb
      obtain ⟨p', hex, hc'⟩ := hc.delCsInUse hst
      exact ⟨p', es, by simp [himpl, execAs, exec, Result.map, hex], hs' ▸ hc'⟩
  | popCsPendingFromTail =>
      obtain ⟨cs, rest, hpend, hs', rfl⟩ := SocketBook.step_pop _ hb
      have hlen : 2 ≤ es.length := by
        rw [← List.length_map (f := p.csOf), hc.pending]
        exact hf
      match es, hlen, hc with
      | e :: f :: es, _, hc =>
          obtain ⟨p', hex, hc'⟩ := hc.popMany hpend
          exact ⟨p', _, by simp [himpl, execAs, exec, Result.map, hex], hs' ▸ hc'⟩

/-- Any other call breaks the agreement at once. -/
theorem not_refines_step {s s' : Lockstep} {op : Op} (h : Inv s) (hf : ¬ s.Fifo op)
    (hstep : s.step op = some s') : ¬ s'.Refines := by
  rintro ⟨q, hq, hag⟩
  obtain ⟨p, es, hp, hc⟩ := h
  obtain ⟨r, hb, himpl⟩ := step_eq_some hstep
  rw [hp, Option.bind_some, hq] at himpl
  cases op with
  | getCsAndSetInUse fd =>
      obtain ⟨cs, hst, hs', rfl⟩ := SocketBook.step_get _ hb
      obtain ⟨xs, e, ys, rfl, he, hcs⟩ := chain_split hc hst
      have hxs : xs ≠ [] := by
        rintro rfl
        exact hf (by simp [Fifo, ← hc.pending, hc.fd_csOf he])
      have hqe : q = p.unlink e := by
        simpa [execAs, exec, Result.map, (hc.getCsAndSetInUse he).1, hcs] using himpl
      rw [hqe, hs'] at hag
      exact hc.getOther hxs hst he hag
  | popCsPendingFromTail =>
      obtain ⟨cs, rest, hpend, hs', rfl⟩ := SocketBook.step_pop _ hb
      have hlen : es.length = s.spec.pending.length := by
        rw [← hc.pending, List.length_map]
      have hpos : 0 < s.spec.pending.length := by simp [hpend]
      have hlt : ¬ 2 ≤ s.spec.pending.length := hf
      obtain ⟨e, rfl⟩ : ∃ e, es = [e] := List.length_eq_one_iff.mp (by omega)
      cases hpop : p.popCsPendingFromTail with
      | raise err p' => simp [execAs, exec, Result.map, hpop] at himpl
      | ok cs' p' =>
          simp only [execAs, exec, Result.map, hpop, Option.some.injEq] at himpl
          split at himpl
          · next hcs' =>
              cases hcs'
              cases himpl
              rw [hs'] at hag
              exact hc.popLast hpend hpop hag
          · contradiction
  | addCsPending cs => exact hf trivial
  | setCsPending fd => exact hf trivial
  | delCsInUse fd => exact hf trivial

/-- **Exactness**: over any sequence of calls that meet their preconditions,
the pool behaves as the book throughout if and only if the calls use it as a
queue. -/
theorem agrees_iff_fifo (ops : List Op) :
    Always step Refines init ops ↔ Guarded step Fifo init ops :=
  always_iff_guarded step (fun _ h => h.refines) (fun _ _ _ h hf hs => inv_step h hf hs)
    (fun _ _ _ h hf hs => not_refines_step h hf hs) ops inv_init

/-- With two sockets pending, taking the more recent one into use empties the
list although the other is still pending. -/
theorem not_always_refines : ¬ ∀ ops, Always step Refines init ops := by
  intro h
  obtain ⟨p, hp, hag⟩ := (h [.addCsPending ⟨5, 0⟩, .addCsPending ⟨6, 1⟩,
    .getCsAndSetInUse 6]).last step rfl
  cases hp
  have htail := hag.tail_none.mp rfl
  contradiction

end Lockstep

end ClientSocketPool

end Web3Proxy
