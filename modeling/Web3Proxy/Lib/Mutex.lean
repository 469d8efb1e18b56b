import Web3Proxy.Lib.Trans

/-!
# Web3Proxy.Lib.Mutex

Sections of code that threads run under one lock.  A section is a list of operations on the
shared state and on registers of its own; between any two of them other threads may take
steps.

* `Code.effect` — what a section does when it runs alone;
* `serializable` — in every run, the sections that have ended have had the effect of running
  one after the other, and the one that holds the lock has run a part of its operations on
  top of that.
-/

namespace Mutex

open Trans

variable {σ ρ ο κ : Type*}

/-- Sections, named by `κ`, of operations `ο` on a shared state `σ` and registers `ρ`. -/
structure Code (σ ρ ο κ : Type*) where
  program : κ → List ο
  start : κ → ρ
  exec : κ → ο → ρ × σ → ρ × σ

/-- Run operations of a section. -/
def Code.execAll (code : Code σ ρ ο κ) (c : κ) (ops : List ο) (x : ρ × σ) : ρ × σ :=
  ops.foldl (fun x o => code.exec c o x) x

/-- What a section does when it runs alone. -/
def Code.effect (code : Code σ ρ ο κ) (s : σ) (c : κ) : σ :=
  (code.execAll c (code.program c) (code.start c, s)).2

/-- Where a thread is with its section. -/
inductive Phase (ρ ο κ : Type*) where
  | waiting (c : κ)
  | inside (c : κ) (rest : List ο) (regs : ρ)
  | over (c : κ)

/-- The section, if it has ended. -/
def Phase.over? : Phase ρ ο κ → Option κ
  | .over c => some c
  | _ => none

/-- The thread is inside its section. -/
def Phase.isInside : Phase ρ ο κ → Bool
  | .inside _ _ _ => true
  | _ => false

structure State (σ ρ ο κ : Type*) where
  shared : σ
  holder : Option Nat
  threads : List (Phase ρ ο κ)

/-- What happens: a thread comes to a section, takes the lock, executes an operation, or
gives the lock back. -/
inductive Event (κ : Type*) where
  | begin (c : κ)
  | acquire (i : Nat)
  | exec (i : Nat)
  | release (i : Nat)

variable (code : Code σ ρ ο κ)

/-- One step. -/
def step (s : State σ ρ ο κ) : Event κ → Option (State σ ρ ο κ)
  | .begin c => some { s with threads := s.threads ++ [.waiting c] }
  | .acquire i =>
      match s.holder, s.threads[i]? with
      | none, some (.waiting c) =>
          some { s with
            holder := some i
            threads := s.threads.set i (.inside c (code.program c) (code.start c)) }
      | _, _ => none
  | .exec i =>
      match s.threads[i]? with
      | some (.inside c (o :: rest) regs) =>
          let (regs, shared) := code.exec c o (regs, s.shared)
          some { s with shared, threads := s.threads.set i (.inside c rest regs) }
      | _ => none
  | .release i =>
      match s.threads[i]? with
      | some (.inside c [] _) =>
          some { s with holder := none, threads := s.threads.set i (.over c) }
      | _ => none

/-- The sections that have ended. -/
def State.ended (s : State σ ρ ο κ) : List κ := s.threads.filterMap Phase.over?

/-- Before any thread has come. -/
def init (s₀ : σ) : State σ ρ ο κ := ⟨s₀, none, []⟩

/-- `done` are the ended sections in the order of the lock, and the shared state is what they
make of `s₀`, with a part of the operations of the section that holds the lock on top. -/
structure Inv (s₀ : σ) (done : List κ) (s : State σ ρ ο κ) : Prop where
  ended : done.Perm s.ended
  /-- Who is inside holds the lock. -/
  inside : ∀ {i p}, s.threads[i]? = some p → p.isInside = true → s.holder = some i
  free : s.holder = none → s.shared = done.foldl code.effect s₀
  held : ∀ {i}, s.holder = some i → ∃ c ran rest regs,
    s.threads[i]? = some (.inside c rest regs) ∧ code.program c = ran ++ rest ∧
      (regs, s.shared) = code.execAll c ran (code.start c, done.foldl code.effect s₀)

variable {code} {s₀ : σ} {done : List κ} {s s' : State σ ρ ο κ} {e : Event κ}

theorem Code.execAll_concat (code : Code σ ρ ο κ) (c : κ) (ops : List ο) (o : ο) (x : ρ × σ) :
    code.execAll c (ops ++ [o]) x = code.exec c o (code.execAll c ops x) := by
  simp [execAll]

/-- Replacing a thread's phase by one that counts the same leaves the ended sections. -/
theorem filterMap_set {xs : List (Phase ρ ο κ)} {i : Nat} {p q : Phase ρ ο κ}
    (hi : xs[i]? = some p) (hp : p.over? = none) (hq : q.over? = none) :
    (xs.set i q).filterMap Phase.over? = xs.filterMap Phase.over? := by
  induction xs generalizing i with
  | nil => rfl
  | cons x xs ih =>
      cases i with
      | zero =>
          cases hi
          rw [List.set_cons_zero, List.filterMap_cons_none hq, List.filterMap_cons_none hp]
      | succ i =>
          rw [List.set_cons_succ, List.filterMap_cons, List.filterMap_cons, ih hi]

/-- A section ends: it joins those that have ended. -/
theorem filterMap_set_over {xs : List (Phase ρ ο κ)} {i : Nat} {p : Phase ρ ο κ} (c : κ)
    (hi : xs[i]? = some p) (hp : p.over? = none) :
    (xs.filterMap Phase.over? ++ [c]).Perm ((xs.set i (.over c)).filterMap Phase.over?) := by
  induction xs generalizing i with
  | nil => cases hi
  | cons x xs ih =>
      cases i with
      | zero =>
          cases hi
          have hover : (Phase.over c : Phase ρ ο κ).over? = some c := rfl
          rw [List.set_cons_zero, List.filterMap_cons_some hover, List.filterMap_cons_none hp]
          exact List.perm_append_singleton c _
      | succ i =>
          rw [List.set_cons_succ, List.filterMap_cons, List.filterMap_cons]
          cases x.over? with
          | none => exact ih hi
          | some d => exact (ih hi).cons d

theorem Inv.begin (h : Inv code s₀ done s) (c : κ) :
    Inv code s₀ done { s with threads := s.threads ++ [.waiting c] } where
  ended := by
    have hover : (Phase.waiting c : Phase ρ ο κ).over? = none := rfl
    have hsame : State.ended { s with threads := s.threads ++ [.waiting c] } = s.ended := by
      simp [State.ended, List.filterMap_append, hover]
    exact hsame ▸ h.ended
  inside := fun hi hp => by
    obtain hold | ⟨-, rfl⟩ := joined_cases hi
    · exact h.inside hold hp
    · cases hp
  free := h.free
  held := fun hi => by
    obtain ⟨d, ran, rest, regs, hget, hprogram, hrun⟩ := h.held hi
    obtain ⟨hlt, -⟩ := List.getElem?_eq_some_iff.mp hget
    exact ⟨d, ran, rest, regs, (List.getElem?_append_left hlt).trans hget, hprogram, hrun⟩

theorem Inv.acquire (h : Inv code s₀ done s) {i : Nat} {c : κ} (hfree : s.holder = none)
    (hi : s.threads[i]? = some (.waiting c)) :
    Inv code s₀ done { s with
      holder := some i
      threads := s.threads.set i (.inside c (code.program c) (code.start c)) } where
  ended := by
    rw [State.ended, filterMap_set hi rfl rfl]
    exact h.ended
  inside := fun hj hp => by
    obtain ⟨rfl, -⟩ | ⟨-, hold⟩ := moved_cases hj
    · rfl
    · cases (h.inside hold hp).symm.trans hfree
  free := fun hnone => nomatch hnone
  held := fun hj => by
    cases hj
    obtain ⟨hlt, -⟩ := List.getElem?_eq_some_iff.mp hi
    exact ⟨c, [], code.program c, code.start c, List.getElem?_set_self hlt, rfl,
      by rw [h.free hfree]; rfl⟩

theorem Inv.exec (h : Inv code s₀ done s) {i : Nat} {c : κ} {o : ο} {rest : List ο} {regs : ρ}
    (hi : s.threads[i]? = some (.inside c (o :: rest) regs)) :
    Inv code s₀ done { s with
      shared := (code.exec c o (regs, s.shared)).2
      threads := s.threads.set i (.inside c rest (code.exec c o (regs, s.shared)).1) } where
  ended := by
    rw [State.ended, filterMap_set hi rfl rfl]
    exact h.ended
  inside := fun hj hp => by
    obtain ⟨rfl, -⟩ | ⟨-, hold⟩ := moved_cases hj
    · exact h.inside hi rfl
    · exact h.inside hold hp
  free := fun hnone => nomatch (h.inside hi rfl).symm.trans hnone
  held := fun {j} hj => by
    obtain rfl : i = j := Option.some.inj ((h.inside hi rfl).symm.trans hj)
    obtain ⟨d, ran, rest', regs', hget, hprogram, hrun⟩ := h.held hj
    obtain ⟨rfl, rfl, rfl⟩ := Phase.inside.inj (Option.some.inj (hi.symm.trans hget))
    obtain ⟨hlt, -⟩ := List.getElem?_eq_some_iff.mp hi
    refine ⟨c, ran ++ [o], rest, _, List.getElem?_set_self hlt, by simp [hprogram], ?_⟩
    rw [Code.execAll_concat, ← hrun]

theorem Inv.release (h : Inv code s₀ done s) {i : Nat} {c : κ} {regs : ρ}
    (hi : s.threads[i]? = some (.inside c [] regs)) :
    Inv code s₀ (done ++ [c]) { s with holder := none, threads := s.threads.set i (.over c) } where
  ended := (h.ended.append_right [c]).trans (filterMap_set_over c hi rfl)
  inside := fun {j p} hj hp => by
    obtain ⟨-, rfl⟩ | ⟨hne, hold⟩ := moved_cases hj
    · cases hp
    · exact absurd (Option.some.inj ((h.inside hold hp).symm.trans (h.inside hi rfl))) hne
  free := fun _ => by
    obtain ⟨d, ran, rest, regs', hget, hprogram, hrun⟩ := h.held (h.inside hi rfl)
    obtain ⟨rfl, rfl, rfl⟩ := Phase.inside.inj (Option.some.inj (hi.symm.trans hget))
    rw [List.foldl_append, List.foldl_cons, List.foldl_nil, Code.effect, hprogram,
      List.append_nil, ← hrun]
  held := fun hj => nomatch hj

theorem Inv.step (h : Inv code s₀ done s) (hs : step code s e = some s') :
    ∃ done', Inv code s₀ done' s' := by
  cases e with
  | begin c =>
      cases hs
      exact ⟨done, h.begin c⟩
  | acquire i =>
      simp only [Mutex.step] at hs
      split at hs
      · cases hs
        exact ⟨done, h.acquire ‹_› ‹_›⟩
      · cases hs
  | exec i =>
      simp only [Mutex.step] at hs
      split at hs
      · cases hs
        exact ⟨done, h.exec ‹_›⟩
      · cases hs
  | release i =>
      simp only [Mutex.step] at hs
      split at hs
      · cases hs
        exact ⟨_, h.release ‹_›⟩
      · cases hs

/-- **Serializability**: at any moment the shared state is what the ended sections make of it, one
after the other in some order, with a part of at most one more section on top. -/
theorem serializable {es : List (Event κ)} (hrun : run (Mutex.step code) (init s₀) es = some s) :
    ∃ done, Inv code s₀ done s := by
  have hinit : Inv code s₀ [] (init s₀ : State σ ρ ο κ) :=
    { ended := List.Perm.refl _
      inside := fun hi => by cases hi
      free := fun _ => rfl
      held := fun hi => nomatch hi }
  exact run_invariant (Mutex.step code) (I := fun s => ∃ done, Inv code s₀ done s)
    (fun _ _ _ ⟨_, h⟩ hs => h.step hs) ⟨[], hinit⟩ hrun

end Mutex
