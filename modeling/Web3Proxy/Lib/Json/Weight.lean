import Mathlib.Algebra.BigOperators.Group.List.Basic
import Mathlib.Algebra.Ring.Nat
import Mathlib.Data.List.Induction
import Mathlib.Data.List.TakeWhile
import Web3Proxy.Lib.Json.Fuel

/-!
# Web3Proxy.Lib.Json.Weight

No text is shorter than what it stands for: the `weight` of a value is what its
shortest text takes, and whatever the decoder makes of a text has at most the weight
that the text has characters other than control characters (`weight_decode`).
-/

namespace Json

/-! ## the length of a text -/

/-- The length of a text without its control characters, which no token has. -/
def visible (cs : List Char) : Nat := cs.countP fun c => ' ' ≤ c

theorem visible_cons {c : Char} (h : ' ' ≤ c) (cs : List Char) :
    visible (c :: cs) = visible cs + 1 := List.countP_cons_of_pos (by simpa using h)

theorem visible_le_cons (c : Char) (cs : List Char) : visible cs ≤ visible (c :: cs) :=
  (List.sublist_cons_self c cs).countP_le

theorem visible_append (as bs : List Char) : visible (as ++ bs) = visible as + visible bs :=
  List.countP_append

theorem visible_le (cs : List Char) : visible cs ≤ cs.length := List.countP_le_length

theorem visible_eq_length {cs : List Char} (h : ∀ c ∈ cs, ' ' ≤ c) : visible cs = cs.length :=
  List.countP_eq_length.mpr fun c hc => by simpa using h c hc

theorem visible_skip (cs : List Char) : visible (skip cs) ≤ visible cs :=
  (List.dropWhile_sublist _).countP_le

theorem visible_expect {c : Char} (hc : ' ' ≤ c) {cs rest : List Char}
    (h : expect c cs = some rest) : visible rest + 1 = visible cs := by
  unfold expect at h
  split at h
  · next hhead =>
    obtain ⟨tail, rfl⟩ := List.head?_eq_some_iff.mp hhead
    cases h
    exact (visible_cons hc tail).symm
  · cases h

/-! ## strings -/

/-- A character that does not stand for itself takes an escape. -/
def charWeight : CodePoint → Nat
  | .scalar c => if isPlain c then 1 else 2
  | .surrogate _ => 2

/-- The weight of a string, without the quotes. -/
def textWeight (s : PyStr) : Nat := (s.map charWeight).sum

@[simp] theorem textWeight_nil : textWeight [] = 0 := rfl

@[simp] theorem textWeight_cons (c : CodePoint) (s : PyStr) :
    textWeight (c :: s) = charWeight c + textWeight s := rfl

theorem charWeight_pos (c : CodePoint) : 1 ≤ charWeight c := by
  unfold charWeight
  grind

theorem charWeight_le (c : CodePoint) : charWeight c ≤ 2 := by
  unfold charWeight
  grind

theorem length_le_textWeight (s : PyStr) : s.length ≤ textWeight s := by
  induction s with
  | nil => exact Nat.le_refl 0
  | cons c s ih =>
      have hc := charWeight_pos c
      simp
      omega

/-- A string that weighs no more than its length is plain. -/
theorem isPlain_of_textWeight {s : List Char} (h : textWeight (s.map .scalar) ≤ s.length) :
    ∀ c ∈ s, isPlain c = true := by
  induction s with
  | nil => simp
  | cons c s ih =>
      have hs := length_le_textWeight (s.map .scalar)
      simp only [List.map_cons, textWeight_cons, List.length_cons, List.length_map,
        charWeight] at h hs
      by_cases hc : isPlain c = true
      · rw [if_pos hc] at h
        intro d hd
        obtain rfl | hd := List.mem_cons.mp hd
        · exact hc
        · exact ih (by omega) d hd
      · rw [if_neg hc] at h
        omega

/-- An escape takes no more than its characters, with the backslash. -/
theorem Escape.charWeight_le {e : List Char} {unit : CodePoint} (h : Escape e unit) :
    charWeight unit ≤ visible ('\\' :: e) := by
  have hunit := Json.charWeight_le unit
  have hfirst : ∃ c e', e = c :: e' ∧ ' ' ≤ c := by
    cases h with
    | @short c char hc =>
        have hvisible : ∀ e ∈ backslash, ' ' ≤ e.1 := by decide
        obtain ⟨before, after, hmem, -⟩ := List.lookup_eq_some_iff.mp hc
        exact ⟨c, [], rfl, hvisible (c, char) (by rw [hmem]; simp)⟩
    | unicode hunit => exact ⟨'u', _, rfl, by decide⟩
  obtain ⟨c, e', rfl, hc⟩ := hfirst
  rw [visible_cons (by decide), visible_cons hc]
  omega

theorem textWeight_scanChars {cs rest : List Char} {s : PyStr}
    (h : scanChars cs = some (s, rest)) : textWeight s + 1 + visible rest ≤ visible cs := by
  induction scanChars_iff.mp h with
  | close =>
      rw [textWeight_nil, visible_cons (by decide)]
      omega
  | @plain c cs s rest hc hcs ih =>
      have hle := ih (scanChars_iff.mpr hcs)
      have hplain : charWeight (.scalar c) = 1 := if_pos hc
      rw [textWeight_cons, hplain, visible_cons (by simpa using (isPlain_iff.mp hc).2.2)]
      omega
  | escape he hcs ih =>
      have hle := ih (scanChars_iff.mpr hcs)
      have hunit := he.charWeight_le
      rw [textWeight_cons, ← List.cons_append, visible_append]
      omega

theorem textWeight_joinPairs (s : PyStr) : textWeight (joinPairs s) ≤ textWeight s := by
  fun_induction joinPairs s with
  | case1 h l s hpair ih =>
      have hchar := charWeight_le
        (.scalar (Char.ofNat (0x10000 + (h : Nat) * 1024 + ((l : Nat) - 1024))))
      simp only [textWeight_cons]
      simp only [charWeight] at hchar ⊢
      omega
  | case2 h l s hpair ih =>
      simp only [textWeight_cons] at ih ⊢
      omega
  | case3 c s _ ih =>
      simp only [textWeight_cons]
      omega
  | case4 => exact Nat.le_refl 0

theorem textWeight_scanString {cs rest : List Char} {s : PyStr}
    (h : scanString cs = some (s, rest)) : textWeight s + 1 + visible rest ≤ visible cs := by
  obtain ⟨⟨units, rest'⟩, hscan, heq⟩ := Option.map_eq_some_iff.mp h
  cases heq
  have hunits := textWeight_scanChars hscan
  have hjoin := textWeight_joinPairs units
  show textWeight (joinPairs units) + 1 + visible rest' ≤ visible cs
  omega

/-! ## integers -/

theorem ofDigitChars_lt {digits : List Char} (hdigits : ∀ c ∈ digits, c.isDigit = true) :
    Nat.ofDigitChars 10 digits 0 < 10 ^ digits.length := by
  induction digits using List.reverseRecOn with
  | nil => simp
  | append_singleton digits c ih =>
      have hlt := ih fun d hd => hdigits d (List.mem_append_left _ hd)
      have hc := hdigits c (List.mem_append_right _ (List.mem_singleton_self c))
      have hvalue : c.toNat - 48 < 10 := by
        simp only [Char.isDigit, Bool.and_eq_true, decide_eq_true_eq] at hc
        have h9 : c.toNat ≤ 57 := UInt32.le_iff_toNat_le.mp hc.2
        omega
      rw [Nat.ofDigitChars_append, Nat.ofDigitChars_cons, Nat.ofDigitChars_nil, List.length_append,
        List.length_singleton, Nat.pow_succ]
      show 10 * Nat.ofDigitChars 10 digits 0 + (c.toNat - 48) < _
      omega

/-- What is written back is no longer than the digits. -/
theorem length_toDigits_le {digits : List Char} (hne : digits ≠ [])
    (hdigits : ∀ c ∈ digits, c.isDigit = true) :
    (Nat.toDigits 10 (Nat.ofDigitChars 10 digits 0)).length ≤ digits.length :=
  (Nat.length_toDigits_le_iff (by decide) (List.length_pos_iff.mpr hne)).mpr
    (ofDigitChars_lt hdigits)

theorem visible_digits {digits : List Char} (h : ∀ c ∈ digits, c.isDigit = true) :
    visible digits = digits.length := by
  apply visible_eq_length
  intro c hc
  have hdigit := h c hc
  simp only [Char.isDigit, Bool.and_eq_true, decide_eq_true_eq] at hdigit
  exact Char.le_def.mpr (UInt32.le_trans (by decide) hdigit.1)

theorem visible_scanFraction (cs : List Char) : visible (scanFraction cs).2 ≤ visible cs := by
  unfold scanFraction
  split
  · next rest =>
    have hdrop : visible (rest.dropWhile Char.isDigit) ≤ visible rest :=
      (List.dropWhile_sublist _).countP_le
    have hcons := visible_le_cons '.' rest
    dsimp only
    split
    · exact Nat.le_refl _
    · exact Nat.le_trans hdrop hcons
  · exact Nat.le_refl _

theorem visible_scanExponent (cs : List Char) : visible (scanExponent cs).2 ≤ visible cs := by
  unfold scanExponent
  split
  · next e rest =>
    have hcons := visible_le_cons e rest
    split
    · dsimp only
      split
      · exact Nat.le_refl _
      · exact Nat.le_trans
          ((List.dropWhile_sublist _).trans (List.drop_sublist _ _)).countP_le hcons
    · exact Nat.le_refl _
  · exact Nat.le_refl _

/-! ## values -/

mutual

/-- The length of the shortest text for a value; a float takes at least a character. -/
def weight : Json → Nat
  | .null => 4
  | .bool _ => 4
  | .int n => (toString n).toList.length
  | .float _ => 1
  | .str s => textWeight s + 2
  | .arr items => itemsWeight items + 1
  | .obj members => membersWeight members + 1

/-- Each item has a comma or the closing bracket behind it. -/
def itemsWeight : List Json → Nat
  | [] => 0
  | item :: items => weight item + 1 + itemsWeight items

/-- Each member has the quotes of its key, a colon, and a comma or the closing brace. -/
def membersWeight : List (PyStr × Json) → Nat
  | [] => 0
  | (key, value) :: members => textWeight key + weight value + 4 + membersWeight members

end

variable {floatText : String → String}

theorem weight_int_le {digits : List Char} (hne : digits ≠ [])
    (hdigits : ∀ c ∈ digits, c.isDigit = true) (sign : List Char)
    (hsign : sign = [] ∨ sign = ['-']) :
    weight (.int (if sign = [] then (Nat.ofDigitChars 10 digits 0 : Nat)
      else -(Nat.ofDigitChars 10 digits 0 : Nat))) ≤ sign.length + digits.length := by
  have hlength := length_toDigits_le hne hdigits
  generalize Nat.ofDigitChars 10 digits 0 = n at hlength ⊢
  obtain rfl | rfl := hsign
  · have hvalue : (if ([] : List Char) = [] then (n : Int) else -n) = n := if_pos rfl
    rw [hvalue, weight, toList_toString, if_neg (by omega)]
    simpa using hlength
  · have hvalue : (if ['-'] = [] then (n : Int) else -n) = -n := if_neg (by simp)
    rw [hvalue, weight, toList_toString, Int.natAbs_neg, Int.natAbs_natCast, List.length_append]
    split
    · simpa using hlength
    · simp only [List.length_nil, List.length_singleton]
      omega

theorem weight_scanNumber {cs rest : List Char} {value : Json}
    (h : scanNumber floatText cs = some (value, rest)) :
    weight value + visible rest ≤ visible cs := by
  unfold scanNumber at h
  generalize hsign : (if cs.head? = some '-' then ['-'] else []) = sign at h
  have hshape : sign = [] ∨ sign = ['-'] := by
    rw [← hsign]
    split
    · exact Or.inr rfl
    · exact Or.inl rfl
  have hcs : sign.length + visible (cs.drop sign.length) = visible cs := by
    rw [← hsign]
    split
    · next hhead =>
      obtain ⟨tail, rfl⟩ := List.head?_eq_some_iff.mp hhead
      rw [visible_cons (by decide), List.length_singleton, List.drop_one, List.tail_cons]
      omega
    · simp
  simp only [Option.bind_eq_bind, Option.bind_eq_some_iff] at h
  obtain ⟨⟨digits, rest₁⟩, hscan, h⟩ := h
  obtain ⟨hsplit, hne, hdigits⟩ := scanDigits_eq hscan
  have hlength : visible (cs.drop sign.length) = digits.length + visible rest₁ := by
    rw [hsplit, visible_append, visible_digits hdigits]
  have hfraction := visible_scanFraction rest₁
  have hexponent := visible_scanExponent (scanFraction rest₁).2
  have hpos := List.length_pos_iff.mpr hne
  dsimp only at h
  split at h
  · cases h
    have hint := weight_int_le hne hdigits sign hshape
    omega
  · cases h
    rw [weight]
    omega

theorem weight_scanConstant {cs rest : List Char} {value : Json}
    (h : scanConstant cs = some (value, rest)) : weight value + visible rest ≤ visible cs := by
  obtain ⟨c, hfind, hc⟩ := Option.map_eq_some_iff.mp h
  cases hc
  have hweight : ∀ c ∈ constants, weight c.2 ≤ visible c.1.toList := by
    simp only [constants, List.forall_mem_cons, weight]
    decide
  have hprefix := List.find?_some hfind
  obtain ⟨rest, rfl⟩ := List.isPrefixOf_iff_prefix.mp hprefix
  have hc := hweight c (List.mem_of_find?_eq_some hfind)
  rw [← String.length_toList, List.drop_left, visible_append]
  omega

/-! ## members -/

/-- The weight of a member. -/
def memberWeight (m : PyStr × Json) : Nat := textWeight m.1 + weight m.2 + 4

theorem membersWeight_cons (m : PyStr × Json) (members : List (PyStr × Json)) :
    membersWeight (m :: members) = memberWeight m + membersWeight members := rfl

theorem membersWeight_append (as bs : List (PyStr × Json)) :
    membersWeight (as ++ bs) = membersWeight as + membersWeight bs := by
  induction as with
  | nil => rw [List.nil_append, membersWeight, Nat.zero_add]
  | cons m as ih =>
      rw [List.cons_append, membersWeight_cons, membersWeight_cons, ih]
      omega

theorem membersWeight_filter (p : PyStr × Json → Bool) (members : List (PyStr × Json)) :
    membersWeight (members.filter p) ≤ membersWeight members := by
  induction members with
  | nil => exact Nat.le_refl _
  | cons m members ih =>
      rw [List.filter_cons, membersWeight_cons]
      split
      · rw [membersWeight_cons]
        omega
      · omega

/-- What is found has its share of the weight. -/
theorem membersWeight_lookup {members : List (PyStr × Json)} {key : PyStr} {value : Json}
    (h : members.lookup key = some value) :
    memberWeight (key, value) + membersWeight (members.filter fun m => m.1 ≠ key) ≤
      membersWeight members := by
  induction members with
  | nil => cases h
  | cons m members ih =>
      rw [List.lookup_cons] at h
      rw [membersWeight_cons]
      by_cases hkey : m.1 = key
      · have hbeq : (key == m.1) = true := beq_iff_eq.mpr hkey.symm
        rw [hbeq] at h
        have hm : m = (key, value) := Prod.ext hkey (Option.some.inj h)
        have hfilter := membersWeight_filter (fun m => m.1 ≠ key) members
        rw [List.filter_cons_of_neg (by simpa using hkey), hm]
        omega
      · have hbeq : (key == m.1) = false := beq_false_of_ne (Ne.symm hkey)
        rw [hbeq] at h
        have hle := ih h
        rw [List.filter_cons_of_pos (by simpa using hkey), membersWeight_cons]
        omega

theorem lookup_filter_ne {members : List (PyStr × Json)} {key other : PyStr} (h : other ≠ key) :
    (members.filter fun m => m.1 ≠ key).lookup other = members.lookup other := by
  induction members with
  | nil => rfl
  | cons m members ih =>
      by_cases hm : m.1 = key
      · have hother : (other == m.1) = false := beq_false_of_ne (hm ▸ h)
        rw [List.filter_cons_of_neg (by simpa using hm), ih, List.lookup_cons, hother]
      · rw [List.filter_cons_of_pos (by simpa using hm), List.lookup_cons, List.lookup_cons, ih]

/-- Members with different names, all of them found, weigh no more than where they are. -/
theorem membersWeight_le_of_lookup {found members : List (PyStr × Json)}
    (hnodup : (found.map Prod.fst).Nodup)
    (hfound : ∀ m ∈ found, members.lookup m.1 = some m.2) :
    membersWeight found ≤ membersWeight members := by
  induction found generalizing members with
  | nil => exact Nat.zero_le _
  | cons m found ih =>
      obtain ⟨hm, hnodup⟩ := List.nodup_cons.mp hnodup
      have hweight := membersWeight_lookup (hfound m List.mem_cons_self)
      have hfound' : ∀ n ∈ found, (members.filter fun n => n.1 ≠ m.1).lookup n.1 = some n.2 := by
        intro n hn
        have hne : n.1 ≠ m.1 := fun heq => hm (heq ▸ List.mem_map_of_mem hn)
        rw [lookup_filter_ne hne]
        exact hfound n (List.mem_cons_of_mem m hn)
      have hrest := ih hnodup hfound'
      have hm : memberWeight (m.1, m.2) = memberWeight m := rfl
      rw [membersWeight_cons]
      omega

theorem membersWeight_replaceItem {members : List (PyStr × Json)} (key : PyStr) (value : Json)
    (hnodup : (members.map Prod.fst).Nodup) :
    membersWeight (Dict.replaceItem key value members) ≤
      membersWeight members + memberWeight (key, value) := by
  induction members with
  | nil => exact Nat.zero_le _
  | cons m members ih =>
      obtain ⟨hm, hnodup⟩ := List.nodup_cons.mp hnodup
      have hcons : Dict.replaceItem key value (m :: members) =
          (if m.1 = key then (key, value) else m) :: Dict.replaceItem key value members := rfl
      rw [hcons, membersWeight_cons, membersWeight_cons]
      by_cases hkey : m.1 = key
      · rw [if_pos hkey, Dict.replaceItem_of_notMem (hkey ▸ hm)]
        omega
      · have hle := ih hnodup
        rw [if_neg hkey]
        omega

theorem membersWeight_set (d : Dict PyStr Json) (key : PyStr) (value : Json) :
    membersWeight (d.set key value).items ≤ membersWeight d.items + memberWeight (key, value) := by
  unfold Dict.set
  dsimp only
  split
  · exact membersWeight_replaceItem key value d.nodup
  · rw [membersWeight_append, membersWeight_cons, membersWeight, Nat.add_zero]

/-- A repeated key only loses weight. -/
theorem membersWeight_dict (pairs : List (PyStr × Json)) :
    membersWeight (dict pairs) ≤ membersWeight pairs := by
  have hfold : ∀ d : Dict PyStr Json,
      membersWeight (pairs.foldl (fun d p => d.set p.1 p.2) d).items ≤
        membersWeight d.items + membersWeight pairs := by
    induction pairs with
    | nil => exact fun d => Nat.le_refl _
    | cons p pairs ih =>
        intro d
        have hset : membersWeight (d.set p.1 p.2).items ≤ membersWeight d.items + memberWeight p :=
          membersWeight_set d p.1 p.2
        have hrest := ih (d.set p.1 p.2)
        rw [List.foldl_cons, membersWeight_cons]
        omega
  have hle := hfold Dict.empty
  have hempty : membersWeight (Dict.empty : Dict PyStr Json).items = 0 := rfl
  rw [hempty, Nat.zero_add] at hle
  exact hle

/-! ## the decoder -/

/-- What is scanned with some fuel weighs no more than what has been read of the text. -/
structure Weighed (floatText : String → String) (fuel : Nat) : Prop where
  once : ∀ {cs rest value}, scanOnce floatText fuel cs = some (value, rest) →
    weight value + visible rest ≤ visible cs
  members : ∀ {cs rest members}, scanMembers floatText fuel cs = some (members, rest) →
    membersWeight members + visible rest ≤ visible cs
  items : ∀ {cs rest items}, scanItems floatText fuel cs = some (items, rest) →
    itemsWeight items + visible rest ≤ visible cs

theorem Weighed.succ {fuel : Nat} (h : Weighed floatText fuel) : Weighed floatText (fuel + 1) where
  once := by
    intro cs rest value hscan
    cases scanOnce_iff.mp hscan with
    | str hstring =>
        have hle := textWeight_scanString hstring
        rw [weight, visible_cons (by decide)]
        omega
    | @emptyObj cs _ hclose =>
        have hskip := visible_skip cs
        have hclose := visible_expect (by decide) hclose
        simp only [weight, membersWeight, visible_cons (by decide : ' ' ≤ '\x7b')]
        omega
    | @obj cs members _ _ hmembers =>
        have hskip := visible_skip cs
        have hle := h.members hmembers
        have hdict := membersWeight_dict members
        rw [weight, visible_cons (by decide)]
        omega
    | @emptyArr cs _ hclose =>
        have hskip := visible_skip cs
        have hclose := visible_expect (by decide) hclose
        simp only [weight, itemsWeight, visible_cons (by decide : ' ' ≤ '[')]
        omega
    | @arr cs _ _ _ hitems =>
        have hskip := visible_skip cs
        have hle := h.items hitems
        rw [weight, visible_cons (by decide)]
        omega
    | constant _ hconstant => exact weight_scanConstant hconstant
    | number _ _ hnumber => exact weight_scanNumber hnumber
  members := by
    intro cs rest members hscan
    cases scanMembers_iff.mp hscan with
    | @last cs₁ cs₂ cs₃ cs₄ _ _ _ hquote hkey hcolon hvalue hclose =>
        have hquote := visible_expect (by decide) hquote
        have hkey := textWeight_scanString hkey
        have hskip₂ := visible_skip cs₂
        have hcolon := visible_expect (by decide) hcolon
        have hskip₃ := visible_skip cs₃
        have hvalue := h.once hvalue
        have hskip₄ := visible_skip cs₄
        have hclose := visible_expect (by decide) hclose
        simp only [membersWeight]
        omega
    | @more cs₁ cs₂ cs₃ cs₄ cs₅ _ _ _ _ hquote hkey hcolon hvalue _ hcomma hmore =>
        have hquote := visible_expect (by decide) hquote
        have hkey := textWeight_scanString hkey
        have hskip₂ := visible_skip cs₂
        have hcolon := visible_expect (by decide) hcolon
        have hskip₃ := visible_skip cs₃
        have hvalue := h.once hvalue
        have hskip₄ := visible_skip cs₄
        have hcomma := visible_expect (by decide) hcomma
        have hskip₅ := visible_skip cs₅
        have hmore := h.members hmore
        simp only [membersWeight]
        omega
  items := by
    intro cs rest items hscan
    cases scanItems_iff.mp hscan with
    | @last cs₁ _ _ hvalue hclose =>
        have hvalue := h.once hvalue
        have hskip := visible_skip cs₁
        have hclose := visible_expect (by decide) hclose
        simp only [itemsWeight]
        omega
    | @more cs₁ cs₂ _ _ _ hvalue _ hcomma hmore =>
        have hvalue := h.once hvalue
        have hskip₁ := visible_skip cs₁
        have hcomma := visible_expect (by decide) hcomma
        have hskip₂ := visible_skip cs₂
        have hmore := h.items hmore
        simp only [itemsWeight]
        omega

theorem weighed (fuel : Nat) : Weighed floatText fuel := by
  induction fuel with
  | zero => exact ⟨by simp [scanOnce], by simp [scanMembers], by simp [scanItems]⟩
  | succ fuel ih => exact ih.succ

/-- **No text is shorter than what it stands for.** -/
theorem weight_decode {cs : List Char} {value : Json} (h : decode floatText cs = some value) :
    weight value ≤ visible cs := by
  simp only [decode, Option.bind_eq_bind, Option.bind_eq_some_iff] at h
  obtain ⟨⟨value', rest⟩, hscan, h⟩ := h
  dsimp only at h
  split at h
  · cases h
    have hle := (weighed _).once hscan
    have hskip := visible_skip cs
    omega
  · cases h

end Json
