import Mathlib.Data.List.Basic
import Mathlib.Logic.Function.Basic

/-!
# Web3Proxy.Lib.Walk

Walking a linked structure: a pointer field is a partial map
`nxt : α → Option α`, and `Walk nxt o es` says that starting from the
reference `o` and following `nxt` one meets exactly the nodes `es`, in order,
and then a null reference.

The lemmas are the four things a list program does to such a chain: read it
(it is unique), leave it alone (`congr`), extend it at its far end (`snoc`),
and go on from a node in the middle (`drop`).
-/

namespace Linked

variable {α : Type*}

/-- Following `nxt` from `o` meets exactly the nodes `es`, then null. -/
def Walk (nxt : α → Option α) : Option α → List α → Prop
  | o, [] => o = none
  | o, e :: es => o = some e ∧ Walk nxt (nxt e) es

variable {nxt nxt' : α → Option α} {o : Option α} {es fs : List α} {e n : α}

@[simp] theorem walk_nil : Walk nxt o [] ↔ o = none := Iff.rfl

@[simp] theorem walk_cons : Walk nxt o (e :: es) ↔ o = some e ∧ Walk nxt (nxt e) es := Iff.rfl

/-- The walk from a reference starts at it. -/
theorem Walk.head_eq (h : Walk nxt o es) : o = es.head? := by
  cases es with
  | nil => exact h
  | cons e es => exact h.1

/-- A reference has at most one walk. -/
theorem Walk.unique (h : Walk nxt o es) (h' : Walk nxt o fs) : es = fs := by
  induction es generalizing o fs with
  | nil =>
      rw [walk_nil] at h
      subst h
      cases fs with
      | nil => rfl
      | cons f fs => cases h'.1
  | cons e es ih =>
      obtain ⟨rfl, hrest⟩ := h
      cases fs with
      | nil => cases h'
      | cons f fs =>
          obtain ⟨he, hrest'⟩ := h'
          cases he
          rw [ih hrest hrest']

/-- Changing pointers off the chain does not change the walk. -/
theorem Walk.congr (h : Walk nxt o es) (heq : ∀ e ∈ es, nxt' e = nxt e) :
    Walk nxt' o es := by
  induction es generalizing o with
  | nil => exact h
  | cons e es ih =>
      refine ⟨h.1, ?_⟩
      rw [heq e List.mem_cons_self]
      exact ih h.2 fun f hf => heq f (List.mem_cons_of_mem e hf)

/-- The rest of a walk, after the node `e`. -/
theorem Walk.drop (h : Walk nxt o (fs ++ e :: es)) : Walk nxt (nxt e) es := by
  induction fs generalizing o with
  | nil => exact h.2
  | cons f fs ih => exact ih h.2

/-- Hanging a last node `n` behind the last node `e` of a chain. -/
theorem Walk.snoc (h : Walk nxt o (fs ++ [e])) (hfs : e ∉ fs)
    (heq : ∀ f ∈ fs, nxt' f = nxt f) (he : nxt' e = some n) (hn : nxt' n = none) :
    Walk nxt' o (fs ++ [e] ++ [n]) := by
  induction fs generalizing o with
  | nil =>
      obtain ⟨ho, -⟩ := h
      exact ⟨ho, he, hn⟩
  | cons f fs ih =>
      obtain ⟨ho, hrest⟩ := h
      refine ⟨ho, ?_⟩
      rw [heq f List.mem_cons_self]
      exact ih hrest (fun hm => hfs (List.mem_cons_of_mem f hm))
        fun g hg => heq g (List.mem_cons_of_mem f hg)

end Linked
