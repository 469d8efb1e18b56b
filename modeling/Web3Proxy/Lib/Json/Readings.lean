import Web3Proxy.Lib.Json

/-!
# Web3Proxy.Lib.Json.Readings

What other readers may make of a text that `json.loads` reads: the names of an object need not
be distinct, and which one of the members of a name counts is up to the reader.

* `pairs` — the text with all members of its objects;
* `loads_eq` — of these `json.loads` keeps the last ones;
* `Reads` — a reading keeps one member for each name, in every object;
* `reads_lastWins` — the one of `json.loads` is a reading;
* `exists_reads_keeping` — any member of an object may be the one that counts.
-/

namespace Json

/-! ## all members -/

section Pairs

variable (floatText : String → String)

mutual

/-- `scan_once`, when an object is the list of its members. -/
def pairsOnce : Nat → List Char → Option (Json × List Char)
  | 0, _ => none
  | _ + 1, [] => none
  | fuel + 1, c :: cs =>
      if c = '"' then (scanString cs).map fun r => (.str r.1, r.2)
      else if c = '\x7b' then
        match expect '\x7d' (skip cs) with
        | some rest => some (.obj [], rest)
        | none => (pairsMembers fuel (skip cs)).map fun r => (.obj r.1, r.2)
      else if c = '[' then
        match expect ']' (skip cs) with
        | some rest => some (.arr [], rest)
        | none => (pairsItems fuel (skip cs)).map fun r => (.arr r.1, r.2)
      else (scanConstant (c :: cs)).or (scanNumber floatText (c :: cs))

/-- The loop of `JSONObject`. -/
def pairsMembers : Nat → List Char → Option (List (PyStr × Json) × List Char)
  | 0, _ => none
  | fuel + 1, cs => do
      let (key, cs) ← scanString (← expect '"' cs)
      let (value, cs) ← pairsOnce fuel (skip (← expect ':' (skip cs)))
      match expect '\x7d' (skip cs) with
      | some rest => return ([(key, value)], rest)
      | none =>
          let (members, rest) ← pairsMembers fuel (skip (← expect ',' (skip cs)))
          return ((key, value) :: members, rest)

/-- The loop of `JSONArray`. -/
def pairsItems : Nat → List Char → Option (List Json × List Char)
  | 0, _ => none
  | fuel + 1, cs => do
      let (value, cs) ← pairsOnce fuel cs
      match expect ']' (skip cs) with
      | some rest => return ([value], rest)
      | none =>
          let (items, rest) ← pairsItems fuel (skip (← expect ',' (skip cs)))
          return (value :: items, rest)

end

/-- `json.loads(s)`, when an object is the list of its members. -/
def pairs (s : String) : Option Json := do
  if s.toList.head? = some '\ufeff' then none
  else
    let (value, rest) ← pairsOnce floatText (2 * s.toList.length + 1) (skip s.toList)
    if skip rest = [] then some value else none

end Pairs

/-! ## the last ones -/

mutual

/-- The value in which the last member of a name counts. -/
def lastWins : Json → Json
  | .null => .null
  | .bool b => .bool b
  | .int n => .int n
  | .float text => .float text
  | .str s => .str s
  | .arr items => .arr (lastWinsItems items)
  | .obj members => .obj (dict (lastWinsMembers members))

def lastWinsItems : List Json → List Json
  | [] => []
  | item :: items => lastWins item :: lastWinsItems items

def lastWinsMembers : List (PyStr × Json) → List (PyStr × Json)
  | [] => []
  | (key, value) :: members => (key, lastWins value) :: lastWinsMembers members

end

theorem lastWinsItems_eq (items : List Json) : lastWinsItems items = items.map lastWins := by
  induction items with
  | nil => rfl
  | cons item items ih => rw [lastWinsItems, ih, List.map_cons]

theorem lastWinsMembers_eq (members : List (PyStr × Json)) :
    lastWinsMembers members = members.map fun m => (m.1, lastWins m.2) := by
  induction members with
  | nil => rfl
  | cons m members ih => rw [lastWinsMembers, ih, List.map_cons]

theorem lastWins_scanConstant {cs : List Char} {r : Json × List Char}
    (h : scanConstant cs = some r) : lastWins r.1 = r.1 := by
  obtain ⟨c, hfind, rfl⟩ := Option.map_eq_some_iff.mp h
  have hmem := List.mem_of_find?_eq_some hfind
  simp only [constants, List.mem_cons, List.not_mem_nil, or_false] at hmem
  obtain rfl | rfl | rfl | rfl | rfl | rfl := hmem <;> rfl

theorem lastWins_scanNumber {floatText : String → String} {cs : List Char} {r : Json × List Char}
    (h : scanNumber floatText cs = some r) : lastWins r.1 = r.1 := by
  unfold scanNumber at h
  simp only [Option.bind_eq_bind, Option.bind_eq_some_iff] at h
  obtain ⟨_, -, h⟩ := h
  split at h <;> cases h <;> rfl

/-- The decoder keeps the last members, scan by scan. -/
structure KeepsLast (floatText : String → String) (fuel : Nat) : Prop where
  once : ∀ cs, scanOnce floatText fuel cs =
    (pairsOnce floatText fuel cs).map fun r => (lastWins r.1, r.2)
  members : ∀ cs, scanMembers floatText fuel cs =
    (pairsMembers floatText fuel cs).map fun r => (lastWinsMembers r.1, r.2)
  items : ∀ cs, scanItems floatText fuel cs =
    (pairsItems floatText fuel cs).map fun r => (lastWinsItems r.1, r.2)

theorem KeepsLast.succ {floatText : String → String} {fuel : Nat} (h : KeepsLast floatText fuel) :
    KeepsLast floatText (fuel + 1) where
  once := by
    intro cs
    cases cs with
    | nil => simp [scanOnce, pairsOnce]
    | cons c cs =>
        rw [scanOnce, pairsOnce]
        by_cases hquote : c = '"'
        · simp only [hquote, if_true, Option.map_map]
          rfl
        by_cases hbrace : c = '\x7b'
        · rw [if_neg hquote, if_pos hbrace, if_neg hquote, if_pos hbrace, h.members]
          cases expect '\x7d' (skip cs) with
          | some rest => rfl
          | none => rw [Option.map_map, Option.map_map]; rfl
        by_cases hbracket : c = '['
        · rw [if_neg hquote, if_neg hbrace, if_pos hbracket, if_neg hquote, if_neg hbrace,
            if_pos hbracket, h.items]
          cases expect ']' (skip cs) with
          | some rest => rfl
          | none => rw [Option.map_map, Option.map_map]; rfl
        · rw [if_neg hquote, if_neg hbrace, if_neg hbracket, if_neg hquote, if_neg hbrace,
            if_neg hbracket]
          cases hconstant : scanConstant (c :: cs) with
          | some r => simp [lastWins_scanConstant hconstant]
          | none =>
              cases hnumber : scanNumber floatText (c :: cs) with
              | some r => simp [lastWins_scanNumber hnumber]
              | none => rfl
  members := by
    intro cs
    rw [scanMembers, pairsMembers]
    simp only [Option.bind_eq_bind, Option.map_bind, Option.bind_map, Function.comp_def, h.once,
      h.members]
    refine Option.bind_congr fun cs₁ _ => Option.bind_congr fun key _ =>
      Option.bind_congr fun cs₃ _ => Option.bind_congr fun value _ => ?_
    cases expect '\x7d' (skip value.2) with
    | some rest => rfl
    | none =>
        simp only [Option.map_bind, Function.comp_def]
        exact Option.bind_congr fun cs₅ _ => Option.bind_congr fun more _ => rfl
  items := by
    intro cs
    rw [scanItems, pairsItems]
    simp only [Option.bind_eq_bind, Option.map_bind, Option.bind_map, Function.comp_def, h.once,
      h.items]
    refine Option.bind_congr fun value _ => ?_
    cases expect ']' (skip value.2) with
    | some rest => rfl
    | none =>
        simp only [Option.map_bind, Function.comp_def]
        exact Option.bind_congr fun cs₂ _ => Option.bind_congr fun more _ => rfl

theorem keepsLast (floatText : String → String) (fuel : Nat) : KeepsLast floatText fuel := by
  induction fuel with
  | zero => exact ⟨fun _ => rfl, fun _ => rfl, fun _ => rfl⟩
  | succ fuel ih => exact ih.succ

/-- **`json.loads` keeps the last members** of all that the text has. -/
theorem loads_eq (floatText : String → String) (s : String) :
    loads floatText s = (pairs floatText s).map lastWins := by
  unfold loads pairs decode
  split
  · rfl
  · simp only [(keepsLast floatText _).once, Option.bind_eq_bind, Option.map_bind, Option.bind_map,
      Function.comp_def]
    refine Option.bind_congr fun r _ => ?_
    split <;> rfl

/-! ## the members of a dictionary -/

/-- `dict(pairs)`, as a dictionary. -/
def dictOf (pairs : List (PyStr × Json)) : Dict PyStr Json :=
  pairs.foldl (fun d p => d.set p.1 p.2) Dict.empty

theorem get?_dictOf (pairs : List (PyStr × Json)) (k : PyStr) :
    (dictOf pairs).get? k = pairs.reverse.lookup k :=
  (Dict.get?_foldl_set inferInstance pairs k Dict.empty).trans Option.or_none

theorem mem_of_dictOf {pairs : List (PyStr × Json)} {k : PyStr} {v : Json}
    (h : (dictOf pairs).get? k = some v) : (k, v) ∈ pairs := by
  rw [get?_dictOf] at h
  obtain ⟨before, after, hsplit, -⟩ := List.lookup_eq_some_iff.mp h
  exact List.mem_reverse.mp (hsplit ▸ by simp)

theorem mem_keys_dictOf {pairs : List (PyStr × Json)} {k : PyStr} :
    k ∈ (dictOf pairs).keys ↔ k ∈ pairs.map Prod.fst := by
  rw [Dict.mem_keys]
  constructor
  · rintro ⟨v, hv⟩
    exact List.mem_map.mpr ⟨(k, v), mem_of_dictOf hv, rfl⟩
  · intro hk
    obtain ⟨p, hp, rfl⟩ := List.mem_map.mp hk
    rw [get?_dictOf, ← Option.isSome_iff_exists, Option.isSome_iff_ne_none]
    intro hnone
    have hne := List.lookup_eq_none_iff.mp hnone p (List.mem_reverse.mpr hp)
    simp at hne

/-! ## readings -/

/-- A reading of a value: of the members with one name it keeps one, in every object. -/
inductive Reads : Json → Json → Prop where
  | null : Reads .null .null
  | bool (b : Bool) : Reads (.bool b) (.bool b)
  | int (n : Int) : Reads (.int n) (.int n)
  | float (text : String) : Reads (.float text) (.float text)
  | str (s : PyStr) : Reads (.str s) (.str s)
  | arr {items items' : List Json} (hlength : items.length = items'.length)
      (h : ∀ p ∈ items.zip items', Reads p.1 p.2) : Reads (.arr items) (.arr items')
  | obj {members members' : List (PyStr × Json)} (occurrence : PyStr → Json)
      (hnodup : (members'.map Prod.fst).Nodup)
      (hkeys : ∀ k, k ∈ members'.map Prod.fst ↔ k ∈ members.map Prod.fst)
      (hkept : ∀ m ∈ members', (m.1, occurrence m.1) ∈ members)
      (h : ∀ m ∈ members', Reads (occurrence m.1) m.2) : Reads (.obj members) (.obj members')

/-- A dictionary of readings of members, one for each name. -/
theorem Reads.of_dict {members : List (PyStr × Json)} (d : Dict PyStr Json)
    (hkeys : ∀ k, k ∈ d.keys ↔ k ∈ members.map Prod.fst)
    (hreads : ∀ k v', d.get? k = some v' → ∃ v, (k, v) ∈ members ∧ Reads v v') :
    Reads (.obj members) (.obj d.items) := by
  have hvalue : ∀ k, ∃ v, ∀ v', d.get? k = some v' → (k, v) ∈ members ∧ Reads v v' := by
    intro k
    cases hget : d.get? k with
    | none => exact ⟨.null, fun v' h => by cases h⟩
    | some w =>
        obtain ⟨v, hmem, hread⟩ := hreads k w hget
        refine ⟨v, fun v' h => ?_⟩
        obtain rfl := Option.some.inj h
        exact ⟨hmem, hread⟩
  choose occurrence hoccurrence using hvalue
  refine .obj occurrence d.nodup hkeys (fun m hm => ?_) fun m hm => ?_
  · exact (hoccurrence m.1 m.2 (Dict.mem_items.mp hm)).1
  · exact (hoccurrence m.1 m.2 (Dict.mem_items.mp hm)).2

theorem zip_map_self (f : Json → Json) (items : List Json) :
    items.zip (items.map f) = items.map fun v => (v, f v) := by
  induction items with
  | nil => rfl
  | cons item items ih => rw [List.map_cons, List.zip_cons_cons, ih, List.map_cons]

theorem reads_arr_map {items : List Json} {f : Json → Json} (h : ∀ v ∈ items, Reads v (f v)) :
    Reads (.arr items) (.arr (items.map f)) := by
  refine .arr (List.length_map f).symm fun p hp => ?_
  rw [zip_map_self] at hp
  obtain ⟨v, hv, rfl⟩ := List.mem_map.mp hp
  exact h v hv

theorem reads_obj_map {members : List (PyStr × Json)} {f : Json → Json}
    (h : ∀ m ∈ members, Reads m.2 (f m.2)) :
    Reads (.obj members) (.obj (dict (members.map fun m => (m.1, f m.2)))) := by
  refine Reads.of_dict (dictOf _) (fun k => ?_) fun k v' hget => ?_
  · rw [mem_keys_dictOf, List.map_map]
    rfl
  · obtain ⟨m, hm, heq⟩ := List.mem_map.mp (mem_of_dictOf hget)
    cases heq
    exact ⟨m.2, hm, h m hm⟩

mutual

/-- **The reading of `json.loads`.** -/
theorem reads_lastWins : ∀ value : Json, Reads value (lastWins value)
  | .null => .null
  | .bool b => .bool b
  | .int n => .int n
  | .float text => .float text
  | .str s => .str s
  | .arr items => by
      rw [lastWins, lastWinsItems_eq]
      exact reads_arr_map (reads_items items)
  | .obj members => by
      rw [lastWins, lastWinsMembers_eq]
      exact reads_obj_map (reads_members members)

theorem reads_items : ∀ items : List Json, ∀ v ∈ items, Reads v (lastWins v)
  | [], _, h => absurd h List.not_mem_nil
  | item :: items, v, h => (List.mem_cons.mp h).elim (fun heq => heq ▸ reads_lastWins item)
      (reads_items items v)

theorem reads_members : ∀ members : List (PyStr × Json), ∀ m ∈ members, Reads m.2 (lastWins m.2)
  | [], _, h => absurd h List.not_mem_nil
  | (_, value) :: members, m, h =>
      (List.mem_cons.mp h).elim (fun heq => heq ▸ reads_lastWins value) (reads_members members m)

end

/-- An item may be read in any way. -/
theorem exists_reads_item {items : List Json} {v v' : Json} (hmem : v ∈ items)
    (hread : Reads v v') : ∃ items', Reads (.arr items) (.arr items') ∧ v' ∈ items' := by
  obtain ⟨as, bs, rfl⟩ := List.append_of_mem hmem
  refine ⟨as.map lastWins ++ v' :: bs.map lastWins, .arr (by simp) fun p hp => ?_, by simp⟩
  rw [List.zip_append (by simp), List.zip_cons_cons, zip_map_self, zip_map_self] at hp
  obtain hp | hp := List.mem_append.mp hp
  · obtain ⟨w, -, rfl⟩ := List.mem_map.mp hp
    exact reads_lastWins w
  · obtain rfl | hp := List.mem_cons.mp hp
    · exact hread
    · obtain ⟨w, -, rfl⟩ := List.mem_map.mp hp
      exact reads_lastWins w

/-- **Any member may be the one that counts**, with any reading of its value. -/
theorem exists_reads_keeping {members : List (PyStr × Json)} {k : PyStr} {v v' : Json}
    (hmem : (k, v) ∈ members) (hread : Reads v v') :
    ∃ members', Reads (.obj members) (.obj members') ∧ (k, v') ∈ members' := by
  let last : Dict PyStr Json := dictOf (members.map fun m => (m.1, lastWins m.2))
  refine ⟨(last.set k v').items, Reads.of_dict _ (fun j => ?_) fun j w hget => ?_,
    Dict.mem_items.mpr Dict.get?_set_self⟩
  · have hlast : j ∈ last.keys ↔ j ∈ members.map Prod.fst := by
      rw [mem_keys_dictOf, List.map_map]
      rfl
    have hk : k ∈ members.map Prod.fst := List.mem_map_of_mem hmem
    rw [Dict.mem_keys] at hlast
    rw [Dict.mem_keys, Dict.get?_set]
    by_cases hj : j = k
    · simp [hj, hk]
    · rw [if_neg hj]
      exact hlast
  · rw [Dict.get?_set] at hget
    split at hget
    next hj =>
      obtain rfl := Option.some.inj hget
      exact ⟨v, hj ▸ hmem, hread⟩
    next =>
      obtain ⟨m, hm, heq⟩ := List.mem_map.mp (mem_of_dictOf hget)
      cases heq
      exact ⟨m.2, hm, reads_lastWins m.2⟩

end Json
