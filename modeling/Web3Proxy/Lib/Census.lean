import Mathlib.Algebra.BigOperators.Group.Finset.Basic
import Mathlib.Algebra.Order.BigOperators.Group.Finset

/-!
# Web3Proxy.Lib.Census

Things that move between finitely many places.  A census counts how often each
thing is present at each place; when the counts of a thing add up to one, the
thing is at exactly one place, and there once.
-/

namespace Census

variable {ι α : Type*} [Fintype ι] (n : ι → α → Nat)

/-- How often `x` is present, over all places. -/
def total (x : α) : Nat := ∑ i, n i x

variable {n} {x : α}

/-- A thing counted once is at most once at each place. -/
theorem le_one_of_total (h : total n x = 1) (i : ι) : n i x ≤ 1 :=
  h ▸ Finset.single_le_sum (f := fun i => n i x) (fun _ _ => Nat.zero_le _) (Finset.mem_univ i)

/-- A thing counted once at some place is nowhere else. -/
theorem eq_zero_of_total [DecidableEq ι] (h : total n x = 1) {i j : ι} (hij : i ≠ j)
    (hi : 0 < n i x) : n j x = 0 := by
  have hle : n i x + n j x ≤ total n x := by
    rw [← Finset.sum_pair (f := fun i => n i x) hij]
    exact Finset.sum_le_sum_of_subset (Finset.subset_univ _)
  omega

/-- **A thing counted once is at exactly one place.** -/
theorem existsUnique_of_total [DecidableEq ι] (h : total n x = 1) : ∃! i, 0 < n i x := by
  have hpos : 0 < total n x := by omega
  obtain ⟨i, -, hi⟩ := Finset.sum_pos_iff.mp hpos
  refine ⟨i, hi, fun j hj => ?_⟩
  by_contra hne
  have hzero := eq_zero_of_total h hne hj
  omega

/-- A thing counted zero times is nowhere. -/
theorem eq_zero_of_total_zero (h : total n x = 0) (i : ι) : n i x = 0 :=
  Finset.sum_eq_zero_iff.mp h i (Finset.mem_univ i)

end Census
