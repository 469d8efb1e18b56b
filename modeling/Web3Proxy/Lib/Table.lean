import Web3Proxy.Lib.Dict

/-!
# Web3Proxy.Lib.Table

A database table with an automatic integer primary key and a unique index:
rows under their ids, and a key computed from each row that no two rows share.
The structure carries the proof, so a violation of the index is not a state but
a failed operation.

* `find?_eq_some` — looking up by key finds exactly the stored row with it;
* `select_eq` — there is at most one;
* `insert_spec`, `update_spec` — when an insertion or an update goes through,
  and what it does to lookups.
-/

/-- Rows of type `ρ`, unique by `key`. -/
structure Table (ρ : Type*) {κ : Type*} (key : ρ → κ) where
  rows : Dict Nat ρ
  unique : ∀ i j r s, rows.get? i = some r → rows.get? j = some s → key r = key s → i = j

namespace Table

variable {ρ κ : Type*} {key : ρ → κ}

/-- The table without rows. -/
def empty : Table ρ key := ⟨Dict.empty, fun _ _ _ _ h => nomatch h⟩

instance : Inhabited (Table ρ key) := ⟨empty⟩

variable (t : Table ρ key)

/-- The id that the next row gets. -/
def nextId : Nat := (t.rows.keys.foldr max 0) + 1

theorem le_foldr_max {l : List Nat} {i : Nat} (hi : i ∈ l) : i ≤ l.foldr max 0 := by
  induction l with
  | nil => cases hi
  | cons j l ih =>
      rw [List.foldr_cons]
      cases hi with
      | head => omega
      | tail _ h =>
          have hle := ih h
          omega

/-- No row has the next id. -/
theorem get?_nextId : t.rows.get? t.nextId = none := by
  by_contra h
  obtain ⟨r, hr⟩ := Option.ne_none_iff_exists'.mp h
  have hle := le_foldr_max (Dict.mem_keys.mpr ⟨r, hr⟩)
  unfold nextId at hle
  omega

variable [DecidableEq κ]

/-- `SELECT … WHERE key = k`. -/
def select (k : κ) : List (Nat × ρ) := t.rows.items.filter fun e => key e.2 = k

/-- The stored row with the key `k`, and its id. -/
def find? (k : κ) : Option (Nat × ρ) := t.rows.items.find? fun e => key e.2 = k

variable {t}

/-- **Lookup**: the row found for a key is the stored row with that key. -/
theorem find?_eq_some {k : κ} {i : Nat} {r : ρ} :
    t.find? k = some (i, r) ↔ t.rows.get? i = some r ∧ key r = k := by
  unfold find?
  constructor
  · intro h
    exact ⟨Dict.mem_items.mp (List.mem_of_find?_eq_some h), by simpa using List.find?_some h⟩
  · rintro ⟨hr, hk⟩
    have hsome : (t.rows.items.find? fun e => key e.2 = k).isSome := by
      rw [List.find?_isSome]
      exact ⟨(i, r), Dict.mem_items.mpr hr, by simpa using hk⟩
    obtain ⟨⟨j, s⟩, hs⟩ := Option.isSome_iff_exists.mp hsome
    have hs' := Dict.mem_items.mp (List.mem_of_find?_eq_some hs)
    have hsk : key s = k := by simpa using List.find?_some hs
    obtain rfl := t.unique i j r s hr hs' (hk.trans hsk.symm)
    rw [hs, hr.symm.trans hs' |> Option.some.inj]

theorem find?_eq_none {k : κ} :
    t.find? k = none ↔ ∀ i r, t.rows.get? i = some r → key r ≠ k := by
  constructor
  · intro h i r hr hk
    have hsome := find?_eq_some.mpr ⟨hr, hk⟩
    rw [h] at hsome
    cases hsome
  · intro h
    by_contra hne
    obtain ⟨⟨i, r⟩, hr⟩ := Option.ne_none_iff_exists'.mp hne
    obtain ⟨hget, hk⟩ := find?_eq_some.mp hr
    exact h i r hget hk

/-- **Uniqueness**: a key selects the row found for it, or nothing. -/
theorem select_eq (k : κ) : t.select k = (t.find? k).toList := by
  have hnodup : (t.select k).Nodup := (List.Nodup.of_map _ t.rows.nodup).filter _
  have hmem (e : Nat × ρ) : e ∈ t.select k ↔ t.find? k = some e := by
    obtain ⟨i, r⟩ := e
    rw [find?_eq_some, ← Dict.mem_items]
    simp [select]
  cases hf : t.find? k with
  | none =>
      rw [Option.toList_none, List.eq_nil_iff_forall_not_mem]
      intro e he
      rw [hmem, hf] at he
      cases he
  | some e =>
      apply List.perm_singleton.mp
      refine (List.perm_ext_iff_of_nodup hnodup (List.nodup_singleton e)).mpr fun f => ?_
      rw [hmem, hf, List.mem_singleton, Option.some.injEq]
      exact eq_comm

/-! ## insert and update -/

variable (t)

/-- The rows of `t` with `r` at the id `i`, where no row with another id has the
key of `r`. -/
def put (i : Nat) (r : ρ) (h : ∀ j s, t.rows.get? j = some s → key s = key r → j = i) :
    Table ρ key where
  rows := t.rows.set i r
  unique := by
    intro a b p q hp hq hpq
    rw [Dict.get?_set] at hp hq
    split at hp <;> split at hq
    · simp_all
    · cases hp
      have hb := h b q hq hpq.symm
      contradiction
    · cases hq
      have ha := h a p hp hpq
      contradiction
    · exact t.unique a b p q hp hq hpq

/-- `INSERT` of a row without an id; `none` when the unique index forbids it. -/
def insert (r : ρ) : Option (Nat × Table ρ key) :=
  if h : t.find? (key r) = none then
    some (t.nextId, t.put t.nextId r fun j s hs hk => (find?_eq_none.mp h j s hs hk).elim)
  else none

/-- `UPDATE … WHERE id = i`; `none` when the unique index forbids it. -/
def update (i : Nat) (r : ρ) : Option (Table ρ key) :=
  if t.rows.contains i then
    if h : ∀ e ∈ t.rows.items, key e.2 = key r → e.1 = i then
      some (t.put i r fun j s hs hk => h (j, s) (Dict.mem_items.mpr hs) hk)
    else none
  else some t

/-- `DELETE … WHERE key = k`. -/
def delete (k : κ) : Table ρ key :=
  match t.find? k with
  | none => t
  | some (i, _) =>
      { rows := t.rows.erase i
        unique := by
          intro a b p q hp hq
          rw [Dict.get?_erase] at hp hq
          split at hp <;> split at hq
          · cases hp
          · cases hp
          · cases hq
          · exact t.unique a b p q hp hq }

variable {t}

/-- Looking up in `put`, when the row replaced had the key of the new one or
there was none. -/
theorem find?_put {i : Nat} {r : ρ} (h) (hold : ∀ q, t.rows.get? i = some q → key q = key r)
    (k : κ) : (t.put i r h).find? k = if k = key r then some (i, r) else t.find? k := by
  by_cases hk : k = key r
  · rw [if_pos hk]
    exact find?_eq_some.mpr ⟨Dict.get?_set_self, hk.symm⟩
  · rw [if_neg hk]
    ext ⟨j, s⟩
    rw [find?_eq_some, find?_eq_some]
    show (t.rows.set i r).get? j = some s ∧ key s = k ↔ _
    by_cases hj : j = i
    · subst hj
      rw [Dict.get?_set_self]
      constructor
      · rintro ⟨hs, hsk⟩
        cases hs
        exact absurd hsk.symm hk
      · rintro ⟨hs, hsk⟩
        exact absurd (hsk.symm.trans (hold s hs)) hk
    · rw [Dict.get?_set_ne hj]

/-- **Insertion** of a row with a new key. -/
theorem insert_spec {r : ρ} (h : t.find? (key r) = none) :
    ∃ i t', t.insert r = some (i, t') ∧ t.rows.get? i = none ∧
      (∀ j, t'.rows.get? j = if j = i then some r else t.rows.get? j) ∧
      ∀ k, t'.find? k = if k = key r then some (i, r) else t.find? k := by
  refine ⟨t.nextId, _, dif_pos h, t.get?_nextId, fun j => Dict.get?_set j, fun k => ?_⟩
  refine find?_put _ (fun q hq => ?_) k
  rw [t.get?_nextId] at hq
  cases hq

theorem insert_of_find? {r : ρ} {e : Nat × ρ} (h : t.find? (key r) = some e) :
    t.insert r = none := by
  unfold insert
  rw [dif_neg (by simp [h])]

/-- **Update** of a row that keeps its key. -/
theorem update_spec {i : Nat} {q r : ρ} (h : t.rows.get? i = some q) (hk : key q = key r) :
    ∃ t', t.update i r = some t' ∧
      (∀ j, t'.rows.get? j = if j = i then some r else t.rows.get? j) ∧
      ∀ k, t'.find? k = if k = key r then some (i, r) else t.find? k := by
  have hown : ∀ e ∈ t.rows.items, key e.2 = key r → e.1 = i := by
    intro ⟨j, s⟩ he hs
    exact t.unique j i s q (Dict.mem_items.mp he) h (hs.trans hk.symm)
  refine ⟨t.put i r fun j s hs => hown (j, s) (Dict.mem_items.mpr hs), ?_,
    fun j => Dict.get?_set j, ?_⟩
  · unfold update
    rw [if_pos (by simp [Dict.contains, h]), dif_pos hown]
  · refine find?_put _ fun p hp => ?_
    rw [h] at hp
    cases hp
    exact hk

/-- **Deletion** of the row with a key. -/
theorem find?_delete (k j : κ) :
    (t.delete k).find? j = if j = k then none else t.find? j := by
  unfold delete
  cases hk : t.find? k with
  | none =>
      by_cases hj : j = k
      · rw [if_pos hj, hj, hk]
      · rw [if_neg hj]
  | some e =>
      obtain ⟨i, r⟩ := e
      obtain ⟨hr, hkey⟩ := find?_eq_some.mp hk
      ext ⟨a, q⟩
      rw [find?_eq_some, Dict.get?_erase]
      by_cases hj : j = k
      · rw [if_pos hj]
        by_cases ha : a = i
        · simp [ha]
        · rw [if_neg ha]
          have hown : ¬ (t.rows.get? a = some q ∧ key q = j) := fun ⟨hq, hqj⟩ =>
            ha (t.unique a i q r hq hr (hqj.trans (hj.trans hkey.symm)))
          simpa using fun hq hqj => hown ⟨hq, hqj⟩
      · rw [if_neg hj, find?_eq_some]
        by_cases ha : a = i
        · subst ha
          rw [if_pos rfl, hr]
          constructor
          · rintro ⟨hq, -⟩
            cases hq
          · rintro ⟨hq, hqj⟩
            cases hq
            exact absurd (hqj.symm.trans hkey) hj
        · rw [if_neg ha]

end Table
