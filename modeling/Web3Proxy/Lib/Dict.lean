import Mathlib.Data.List.Nodup
import Mathlib.Data.List.Basic

/-!
# Web3Proxy.Lib.Dict

Dictionaries that remember the order in which their keys were first assigned,
with `d[k] = v` (`set`), `d.setdefault(k, v)`, `d.pop(k, None)` (`erase`) and
`d.get(k)` (`get?`).  No key occurs twice; the structure carries the proof.

Each operation has one lemma that says what it does to `get?`; `mem_items`
connects the items with `get?`.
-/

/-- The items of a dictionary, oldest key first. -/
structure Dict (κ α : Type*) where
  items : List (κ × α)
  nodup : (items.map Prod.fst).Nodup

namespace Dict

variable {κ α : Type*}

/-- The dictionary without items. -/
def empty : Dict κ α := ⟨[], List.nodup_nil⟩

instance : Inhabited (Dict κ α) := ⟨empty⟩

/-- A dictionary is its items. -/
theorem ext {c d : Dict κ α} (h : c.items = d.items) : c = d := by
  cases c
  cases d
  cases h
  rfl

instance [DecidableEq κ] [DecidableEq α] : DecidableEq (Dict κ α) := fun c d =>
  decidable_of_iff (c.items = d.items) (by cases c; cases d; simp)

/-- The keys, oldest first. -/
def keys (d : Dict κ α) : List κ := d.items.map Prod.fst

variable [DecidableEq κ] (d : Dict κ α) (k : κ) (v : α)

/-- The value at a key. -/
def get? : Option α := d.items.lookup k

/-- The key occurs. -/
def contains : Bool := (d.get? k).isSome

/-- The items with the value at `k` replaced. -/
def replaceItem (l : List (κ × α)) : List (κ × α) :=
  l.map fun e => if e.1 = k then (k, v) else e

theorem map_fst_replaceItem (l : List (κ × α)) :
    (replaceItem k v l).map Prod.fst = l.map Prod.fst := by
  unfold replaceItem
  rw [List.map_map]
  exact List.map_congr_left fun e _ => by
    by_cases he : e.1 = k <;> simp [he]

theorem lookup_replaceItem (l : List (κ × α)) (j : κ) :
    (replaceItem k v l).lookup j = if j = k then (l.lookup k).map fun _ => v else l.lookup j := by
  unfold replaceItem
  induction l with
  | nil => simp
  | cons e l ih =>
      by_cases he : e.1 = k
      · by_cases hj : j = k <;> grind
      · by_cases hj : j = k <;> grind

theorem replaceItem_of_notMem {k : κ} {v : α} {l : List (κ × α)} (h : k ∉ l.map Prod.fst) :
    replaceItem k v l = l := by
  unfold replaceItem
  rw [List.map_congr_left (g := id) fun e he => ?_, List.map_id]
  have hne : e.1 ≠ k := fun hek => h (hek ▸ List.mem_map_of_mem he)
  simp [hne]

/-- Looking up does not depend on how keys are compared. -/
theorem get?_eq_lookup {k : κ} {compare : BEq κ} (hlawful : LawfulBEq κ) :
    d.get? k = @List.lookup κ α compare k d.items := by
  have hcompare : compare = instBEqOfDecidableEq :=
    @lawful_beq_subsingleton κ compare instBEqOfDecidableEq hlawful inferInstance
  rw [get?, hcompare]

theorem not_mem_keys_of_get? {d : Dict κ α} {k : κ} (h : d.get? k = none) :
    k ∉ d.items.map Prod.fst := by
  intro hk
  obtain ⟨e, he, rfl⟩ := List.mem_map.mp hk
  have hne := List.lookup_eq_none_iff.mp h e he
  simp at hne

/-- `d[k] = v`. -/
def set : Dict κ α where
  items := if d.contains k then replaceItem k v d.items else d.items ++ [(k, v)]
  nodup := by
    split
    · rw [map_fst_replaceItem]
      exact d.nodup
    next hk =>
      have hnone : d.get? k = none := Option.not_isSome_iff_eq_none.mp hk
      rw [List.map_append, List.nodup_append]
      refine ⟨d.nodup, List.nodup_singleton _, ?_⟩
      rintro a ha b hb rfl
      obtain rfl := List.mem_singleton.mp hb
      exact not_mem_keys_of_get? hnone ha

/-- `d.setdefault(k, v)`, without the value it returns. -/
def setDefault : Dict κ α := if d.contains k then d else d.set k v

/-- `d.pop(k, None)`, without the value it returns. -/
def erase : Dict κ α where
  items := d.items.filter fun e => e.1 ≠ k
  nodup := (List.filter_sublist.map Prod.fst).nodup d.nodup

/-- Apply `f` to every value. -/
def mapValues {β : Type*} (f : α → β) : Dict κ β where
  items := d.items.map fun e => (e.1, f e.2)
  nodup := by
    rw [List.map_map]
    exact d.nodup

/-- Replace every value by one for its key and the value. -/
def mapItems {β : Type*} (f : κ → α → β) : Dict κ β where
  items := d.items.map fun e => (e.1, f e.1 e.2)
  nodup := by
    rw [List.map_map]
    exact d.nodup

/-! ## what the operations do -/

variable {d k v} {w : α}

/-- An item is a key with its value. -/
theorem mem_items : (k, v) ∈ d.items ↔ d.get? k = some v := by
  obtain ⟨l, hl⟩ := d
  unfold get?
  induction l with
  | nil => simp
  | cons e l ih =>
      obtain ⟨j, w⟩ := e
      rw [List.map_cons, List.nodup_cons] at hl
      have hrest := ih hl.2
      have hfresh : (j, v) ∉ l := fun hmem => hl.1 (List.mem_map.mpr ⟨_, hmem, rfl⟩)
      by_cases hj : k = j
      · subst hj
        grind
      · grind

theorem get?_set (j : κ) : (d.set k v).get? j = if j = k then some v else d.get? j := by
  show (if d.contains k then replaceItem k v d.items else d.items ++ [(k, v)]).lookup j =
    if j = k then some v else d.items.lookup j
  by_cases hk : d.contains k
  · rw [if_pos hk, lookup_replaceItem]
    obtain ⟨w, hw⟩ := Option.isSome_iff_exists.mp hk
    unfold get? at hw
    rw [hw, Option.map_some]
  · rw [if_neg hk, List.lookup_append]
    have hnone : d.items.lookup k = none := Option.not_isSome_iff_eq_none.mp hk
    by_cases hj : j = k
    · subst hj
      simp [hnone]
    · grind

/-- Of the items that are assigned one after the other, the last one with the key counts. -/
theorem get?_foldl_set {compare : BEq κ} (hlawful : LawfulBEq κ) (items : List (κ × α)) (j : κ) :
    ∀ d : Dict κ α, (items.foldl (fun d e => d.set e.1 e.2) d).get? j =
      (@List.lookup κ α compare j items.reverse).or (d.get? j) := by
  induction items with
  | nil => exact fun d => rfl
  | cons e items ih =>
      intro d
      obtain ⟨k, v⟩ := e
      rw [List.foldl_cons, ih, get?_set, List.reverse_cons, List.lookup_append, Option.or_assoc,
        List.lookup_cons, List.lookup_nil]
      by_cases hj : j = k
      · rw [if_pos hj, beq_iff_eq.mpr hj, Option.some_or]
      · rw [if_neg hj, beq_false_of_ne hj, Option.none_or]

@[simp] theorem get?_set_self : (d.set k v).get? k = some v := by
  rw [get?_set, if_pos rfl]

theorem get?_set_ne {j : κ} (h : j ≠ k) : (d.set k v).get? j = d.get? j := by
  rw [get?_set, if_neg h]

/-- Assigning to a key that occurs keeps the keys. -/
theorem keys_set_of_get? (h : d.get? k = some w) : (d.set k v).keys = d.keys := by
  have hset : (d.set k v).items = replaceItem k v d.items := if_pos (by simp [contains, h])
  rw [keys, hset, map_fst_replaceItem]
  rfl

theorem get?_erase (j : κ) : (d.erase k).get? j = if j = k then none else d.get? j := by
  have hmem (w : α) : (j, w) ∈ (d.erase k).items ↔ (j, w) ∈ d.items ∧ j ≠ k := by
    simp [erase]
  by_cases hj : j = k
  · rw [if_pos hj, Option.eq_none_iff_forall_ne_some]
    intro w hw
    exact ((hmem w).mp (mem_items.mpr hw)).2 hj
  · rw [if_neg hj]
    ext w
    rw [← mem_items, hmem, mem_items]
    simp [hj]

theorem get?_setDefault (j : κ) :
    (d.setDefault k v).get? j = if j = k then some ((d.get? k).getD v) else d.get? j := by
  unfold setDefault
  cases hk : d.get? k with
  | none =>
      rw [if_neg (by simp [contains, hk]), get?_set]
      rfl
  | some w =>
      rw [if_pos (by simp [contains, hk])]
      by_cases hj : j = k
      · rw [if_pos hj, hj, hk]
        rfl
      · rw [if_neg hj]

theorem get?_setDefault_self : (d.setDefault k v).get? k = some ((d.get? k).getD v) := by
  rw [get?_setDefault, if_pos rfl]

theorem get?_mapValues {β : Type*} (f : α → β) (j : κ) :
    (d.mapValues f).get? j = (d.get? j).map f := by
  show (d.items.map fun e => (e.1, f e.2)).lookup j = (d.items.lookup j).map f
  induction d.items with
  | nil => rfl
  | cons e l ih =>
      rw [List.map_cons, List.lookup_cons, List.lookup_cons]
      cases j == e.1 with
      | true => rfl
      | false => exact ih

theorem get?_mapItems {β : Type*} (f : κ → α → β) (j : κ) :
    (d.mapItems f).get? j = (d.get? j).map (f j) := by
  show (d.items.map fun e => (e.1, f e.1 e.2)).lookup j = (d.items.lookup j).map (f j)
  induction d.items with
  | nil => rfl
  | cons e l ih =>
      rw [List.map_cons, List.lookup_cons, List.lookup_cons]
      cases hj : j == e.1 with
      | true => rw [eq_of_beq hj, Option.map_some]
      | false => exact ih

/-- Values that are replaced and brought back. -/
theorem mapValues_mapItems {β : Type*} {f : κ → α → β} {g : β → α}
    (h : ∀ j w, d.get? j = some w → g (f j w) = w) : (d.mapItems f).mapValues g = d := by
  have hitems : ((d.mapItems f).mapValues g).items = d.items := by
    show ((d.items.map fun e => (e.1, f e.1 e.2)).map fun e => (e.1, g e.2)) = d.items
    rw [List.map_map]
    conv_rhs => rw [← List.map_id d.items]
    refine List.map_congr_left fun e he => ?_
    exact Prod.ext rfl (h e.1 e.2 (mem_items.mp he))
  exact ext hitems

/-- A key occurs under `keys` when it has a value. -/
theorem mem_keys : k ∈ d.keys ↔ ∃ v, d.get? k = some v := by
  unfold keys
  rw [List.mem_map]
  constructor
  · rintro ⟨⟨j, w⟩, he, rfl⟩
    exact ⟨w, mem_items.mp he⟩
  · rintro ⟨w, hw⟩
    exact ⟨(k, w), mem_items.mpr hw, rfl⟩

end Dict
