import Mathlib.Algebra.BigOperators.Group.List.Basic
import Web3Proxy.Lib.Dict

/-!
# Web3Proxy.Lib.DictSum

Sums over the values of a dictionary, in any commutative monoid.

* `sum_set` — assigning a value that exceeds the old one by `δ` adds `δ` to the
  sum; a key that does not occur counts as zero;
* `sum_setDefault` — making a key occur adds nothing.
-/

namespace Dict

variable {κ α M : Type*} [AddCommMonoid M]

/-- The sum of `f` over the values. -/
def sum (f : α → M) (d : Dict κ α) : M := (d.items.map fun e => f e.2).sum

/-- The sum after a change of all values. -/
theorem sum_mapValues {β : Type*} (f : β → M) (g : α → β) (d : Dict κ α) :
    sum f (d.mapValues g) = sum (fun v => f (g v)) d := by
  simp [sum, mapValues, Function.comp_def]

/-- A homomorphism of the sum is the sum of its values. -/
theorem map_sum {N : Type*} [AddCommMonoid N] (φ : M →+ N) (f : α → M) (d : Dict κ α) :
    φ (sum f d) = sum (fun v => φ (f v)) d := by
  unfold sum
  rw [map_list_sum, List.map_map]
  rfl

theorem sum_eq_zero {f : α → M} (h : ∀ v, f v = 0) (d : Dict κ α) : sum f d = 0 := by
  unfold sum
  simp [h]

variable [DecidableEq κ] {f : α → M} {d : Dict κ α} {k : κ} {v w : α} {δ : M}

/-- Replacing the value of a key that the list has once. -/
theorem sum_replaceItem {l : List (κ × α)} (hl : (l.map Prod.fst).Nodup)
    (hw : l.lookup k = some w) (hv : f v = f w + δ) :
    ((replaceItem k v l).map fun e => f e.2).sum = (l.map fun e => f e.2).sum + δ := by
  induction l with
  | nil => cases hw
  | cons e l ih =>
      obtain ⟨j, x⟩ := e
      obtain ⟨hj, hl⟩ := List.nodup_cons.mp hl
      have hcons : replaceItem k v ((j, x) :: l) =
          (if j = k then (k, v) else (j, x)) :: replaceItem k v l := rfl
      rw [hcons, List.map_cons, List.sum_cons, List.map_cons, List.sum_cons]
      by_cases hjk : j = k
      · subst hjk
        obtain rfl : x = w := by simpa using hw
        rw [if_pos rfl, replaceItem_of_notMem hj, hv]
        exact add_right_comm _ _ _
      · have hbeq : (k == j) = false := beq_false_of_ne (Ne.symm hjk)
        rw [List.lookup_cons, hbeq] at hw
        rw [if_neg hjk, ih hl hw, add_assoc]

/-- **Assignment**: the sum grows by what the value grows by. -/
theorem sum_set (hv : f v = ((d.get? k).map f).getD 0 + δ) :
    sum f (d.set k v) = sum f d + δ := by
  unfold sum
  cases hk : d.get? k with
  | none =>
      have hset : (d.set k v).items = d.items ++ [(k, v)] := if_neg (by simp [contains, hk])
      rw [hk, Option.map_none, Option.getD_none, zero_add] at hv
      rw [hset, List.map_append, List.sum_append, ← hv]
      simp
  | some w =>
      have hset : (d.set k v).items = replaceItem k v d.items := if_pos (by simp [contains, hk])
      rw [hk, Option.map_some, Option.getD_some] at hv
      rw [hset]
      exact sum_replaceItem d.nodup hk hv

/-- A key that is made to occur with a value that counts nothing. -/
theorem sum_setDefault (hv : f v = 0) : sum f (d.setDefault k v) = sum f d := by
  unfold setDefault
  split
  · rfl
  next hk =>
    have hnone : d.get? k = none := Option.not_isSome_iff_eq_none.mp hk
    have hset := sum_set (f := f) (d := d) (k := k) (v := v) (δ := 0) (by simp [hnone, hv])
    rw [hset, add_zero]

end Dict
