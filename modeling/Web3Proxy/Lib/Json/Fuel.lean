import Web3Proxy.Lib.Json.Scan

/-!
# Web3Proxy.Lib.Json.Fuel

The decoder never runs out of fuel: every scan leaves less text than it gets, so that
twice the length of the text is enough (`enough`), and what any fuel decodes
`decode` decodes (`decode_eq_some_iff`).
-/

namespace Json

/-! ## progress -/

theorem length_skip (cs : List Char) : (skip cs).length ≤ cs.length :=
  (List.dropWhile_sublist _).length_le

theorem length_expect {c : Char} {cs rest : List Char} (h : expect c cs = some rest) :
    rest.length + 1 = cs.length := by
  unfold expect at h
  split at h
  · next hhead =>
    obtain ⟨tail, rfl⟩ := List.head?_eq_some_iff.mp hhead
    cases h
    rfl
  · cases h

theorem length_skip_expect {c : Char} {cs rest : List Char} (h : expect c (skip cs) = some rest) :
    rest.length < cs.length := by
  have hskip := length_skip cs
  have hexpect := length_expect h
  omega

theorem length_scanChars {cs rest : List Char} {s : PyStr} (h : scanChars cs = some (s, rest)) :
    rest.length < cs.length := by
  induction scanChars_iff.mp h with
  | close => simp
  | plain hc hcs ih =>
      have hlt := ih (scanChars_iff.mpr hcs)
      simp only [List.length_cons]
      omega
  | escape he hcs ih =>
      have hlt := ih (scanChars_iff.mpr hcs)
      simp only [List.length_cons, List.length_append]
      omega

theorem length_scanString {cs rest : List Char} {s : PyStr} (h : scanString cs = some (s, rest)) :
    rest.length < cs.length := by
  obtain ⟨⟨s', rest'⟩, hscan, h⟩ := Option.map_eq_some_iff.mp h
  cases h
  exact length_scanChars hscan

theorem length_scanDigits {cs rest digits : List Char} (h : scanDigits cs = some (digits, rest)) :
    rest.length < cs.length := by
  obtain ⟨hsplit, hne, -⟩ := scanDigits_eq h
  have hpos := List.length_pos_iff.mpr hne
  rw [hsplit, List.length_append]
  omega

theorem length_scanFraction (cs : List Char) : (scanFraction cs).2.length ≤ cs.length := by
  unfold scanFraction
  split
  · next rest =>
    have hdrop : (rest.dropWhile Char.isDigit).length ≤ rest.length :=
      (List.dropWhile_sublist _).length_le
    dsimp only
    split
    · exact Nat.le_refl _
    · exact Nat.le_succ_of_le hdrop
  · exact Nat.le_refl _

theorem length_scanExponent (cs : List Char) : (scanExponent cs).2.length ≤ cs.length := by
  unfold scanExponent
  split
  · next e rest =>
    split
    · dsimp only
      split
      · exact Nat.le_refl _
      · exact Nat.le_succ_of_le
          ((List.dropWhile_sublist _).trans (List.drop_sublist _ _)).length_le
    · exact Nat.le_refl _
  · exact Nat.le_refl _

variable {floatText : String → String}

theorem length_scanNumber {cs rest : List Char} {value : Json}
    (h : scanNumber floatText cs = some (value, rest)) : rest.length < cs.length := by
  unfold scanNumber at h
  generalize (if cs.head? = some '-' then ['-'] else []) = sign at h
  simp only [Option.bind_eq_bind, Option.bind_eq_some_iff] at h
  obtain ⟨⟨digits, rest₁⟩, hscan, h⟩ := h
  have hdigits := length_scanDigits hscan
  have hfraction := length_scanFraction rest₁
  have hexponent := length_scanExponent (scanFraction rest₁).2
  rw [List.length_drop] at hdigits
  dsimp only at h
  split at h
  · cases h
    omega
  · cases h
    omega

theorem length_scanConstant {cs rest : List Char} {value : Json}
    (h : scanConstant cs = some (value, rest)) : rest.length < cs.length := by
  obtain ⟨c, hfind, hc⟩ := Option.map_eq_some_iff.mp h
  cases hc
  have hlength : ∀ c ∈ constants, 0 < c.1.length := by
    simp only [constants, List.forall_mem_cons]
    decide
  have hpos := hlength c (List.mem_of_find?_eq_some hfind)
  have hprefix := List.find?_some hfind
  have hle := (List.isPrefixOf_iff_prefix.mp hprefix).length_le
  rw [String.length_toList] at hle
  rw [List.length_drop]
  omega

/-- Every scan leaves less text than it gets. -/
structure Shrinks (floatText : String → String) (fuel : Nat) : Prop where
  once : ∀ {cs rest value}, scanOnce floatText fuel cs = some (value, rest) →
    rest.length < cs.length
  members : ∀ {cs rest members}, scanMembers floatText fuel cs = some (members, rest) →
    rest.length < cs.length
  items : ∀ {cs rest items}, scanItems floatText fuel cs = some (items, rest) →
    rest.length < cs.length

theorem Shrinks.succ {fuel : Nat} (h : Shrinks floatText fuel) : Shrinks floatText (fuel + 1) where
  once := by
    intro cs rest value hscan
    cases scanOnce_iff.mp hscan with
    | str hstring => exact Nat.lt_succ_of_lt (length_scanString hstring)
    | emptyObj hclose => exact Nat.lt_succ_of_lt (length_skip_expect hclose)
    | obj _ hmembers =>
        exact Nat.lt_succ_of_lt (Nat.lt_of_lt_of_le (h.members hmembers) (length_skip _))
    | emptyArr hclose => exact Nat.lt_succ_of_lt (length_skip_expect hclose)
    | arr _ hitems =>
        exact Nat.lt_succ_of_lt (Nat.lt_of_lt_of_le (h.items hitems) (length_skip _))
    | constant _ hconstant => exact length_scanConstant hconstant
    | number _ _ hnumber => exact length_scanNumber hnumber
  members := by
    intro cs rest members hscan
    cases scanMembers_iff.mp hscan with
    | @last cs₁ cs₂ cs₃ cs₄ _ _ _ hquote hkey hcolon hvalue hclose =>
        have hquote := length_expect hquote
        have hkey := length_scanString hkey
        have hcolon := length_skip_expect hcolon
        have hvalue := h.once hvalue
        have hskip := length_skip cs₃
        have hclose := length_skip_expect hclose
        omega
    | @more cs₁ cs₂ cs₃ cs₄ cs₅ _ _ _ _ hquote hkey hcolon hvalue _ hcomma hmore =>
        have hquote := length_expect hquote
        have hkey := length_scanString hkey
        have hcolon := length_skip_expect hcolon
        have hvalue := h.once hvalue
        have hskip₃ := length_skip cs₃
        have hcomma := length_skip_expect hcomma
        have hskip₅ := length_skip cs₅
        have hmore := h.members hmore
        omega
  items := by
    intro cs rest items hscan
    cases scanItems_iff.mp hscan with
    | last hvalue hclose =>
        have hvalue := h.once hvalue
        have hclose := length_skip_expect hclose
        omega
    | @more cs₁ cs₂ _ _ _ hvalue _ hcomma hmore =>
        have hvalue := h.once hvalue
        have hcomma := length_skip_expect hcomma
        have hskip := length_skip cs₂
        have hmore := h.items hmore
        omega

theorem shrinks (fuel : Nat) : Shrinks floatText fuel := by
  induction fuel with
  | zero => exact ⟨by simp [scanOnce], by simp [scanMembers], by simp [scanItems]⟩
  | succ fuel ih => exact ih.succ

/-! ## enough fuel -/

/-- What is scanned with some fuel is scanned with twice the length of the text. -/
structure Enough (floatText : String → String) (fuel : Nat) : Prop where
  once : ∀ {cs rest value}, scanOnce floatText fuel cs = some (value, rest) →
    ∀ g, 2 * cs.length ≤ g → scanOnce floatText g cs = some (value, rest)
  members : ∀ {cs rest members}, scanMembers floatText fuel cs = some (members, rest) →
    ∀ g, 2 * cs.length < g → scanMembers floatText g cs = some (members, rest)
  items : ∀ {cs rest items}, scanItems floatText fuel cs = some (items, rest) →
    ∀ g, 2 * cs.length < g → scanItems floatText g cs = some (items, rest)

theorem Enough.succ {fuel : Nat} (h : Enough floatText fuel) : Enough floatText (fuel + 1) where
  once := by
    intro cs rest value hscan g hg
    obtain ⟨g, rfl⟩ : ∃ n, g = n + 1 := by
      have hlt := (shrinks _).once hscan
      exact ⟨g - 1, by omega⟩
    rw [scanOnce_iff] at hscan ⊢
    cases hscan with
    | str hstring => exact .str hstring
    | emptyObj hclose => exact .emptyObj hclose
    | @obj cs _ _ hopen hmembers =>
        have hskip := length_skip cs
        rw [List.length_cons] at hg
        exact .obj hopen (h.members hmembers g (by omega))
    | emptyArr hclose => exact .emptyArr hclose
    | @arr cs _ _ hopen hitems =>
        have hskip := length_skip cs
        rw [List.length_cons] at hg
        exact .arr hopen (h.items hitems g (by omega))
    | constant hc hconstant => exact .constant hc hconstant
    | number hc hconstant hnumber => exact .number hc hconstant hnumber
  members := by
    intro cs rest members hscan g hg
    obtain ⟨g, rfl⟩ : ∃ n, g = n + 1 := ⟨g - 1, by omega⟩
    rw [scanMembers_iff] at hscan ⊢
    cases hscan with
    | @last cs₁ cs₂ cs₃ cs₄ _ _ _ hquote hkey hcolon hvalue hclose =>
        have hlength₁ := length_expect hquote
        have hlength₂ := length_scanString hkey
        have hlength₃ := length_skip_expect hcolon
        have hskip := length_skip cs₃
        exact .last hquote hkey hcolon (h.once hvalue g (by omega)) hclose
    | @more cs₁ cs₂ cs₃ cs₄ cs₅ _ _ _ _ hquote hkey hcolon hvalue hopen hcomma hmore =>
        have hlength₁ := length_expect hquote
        have hlength₂ := length_scanString hkey
        have hlength₃ := length_skip_expect hcolon
        have hskip₃ := length_skip cs₃
        have hlength₄ := (shrinks _).once hvalue
        have hlength₅ := length_skip_expect hcomma
        have hskip₅ := length_skip cs₅
        exact .more hquote hkey hcolon (h.once hvalue g (by omega)) hopen hcomma
          (h.members hmore g (by omega))
  items := by
    intro cs rest items hscan g hg
    obtain ⟨g, rfl⟩ : ∃ n, g = n + 1 := ⟨g - 1, by omega⟩
    rw [scanItems_iff] at hscan ⊢
    cases hscan with
    | last hvalue hclose => exact .last (h.once hvalue g (by omega)) hclose
    | @more cs₁ cs₂ _ _ _ hvalue hopen hcomma hmore =>
        have hlength₁ := (shrinks _).once hvalue
        have hlength₂ := length_skip_expect hcomma
        have hskip := length_skip cs₂
        exact .more (h.once hvalue g (by omega)) hopen hcomma (h.items hmore g (by omega))

theorem enough (fuel : Nat) : Enough floatText fuel := by
  induction fuel with
  | zero => exact ⟨by simp [scanOnce], by simp [scanMembers], by simp [scanItems]⟩
  | succ fuel ih => exact ih.succ

/-- Two scans of the same text agree. -/
theorem scanOnce_unique {f g : Nat} {cs : List Char} {r r' : Json × List Char}
    (h : scanOnce floatText f cs = some r) (h' : scanOnce floatText g cs = some r') : r = r' := by
  have hr := (enough f).once h (2 * cs.length) (Nat.le_refl _)
  have hr' := (enough g).once h' (2 * cs.length) (Nat.le_refl _)
  exact Option.some.inj (hr.symm.trans hr')

theorem scanMembers_unique {f g : Nat} {cs : List Char} {r r' : List (PyStr × Json) × List Char}
    (h : scanMembers floatText f cs = some r) (h' : scanMembers floatText g cs = some r') :
    r = r' := by
  have hr := (enough f).members h (2 * cs.length + 1) (Nat.lt_succ_self _)
  have hr' := (enough g).members h' (2 * cs.length + 1) (Nat.lt_succ_self _)
  exact Option.some.inj (hr.symm.trans hr')

/-- The decoder stops for no lack of fuel. -/
theorem decode_eq_some_iff {cs : List Char} {value : Json} :
    decode floatText cs = some value ↔
      ∃ fuel rest, scanOnce floatText fuel (skip cs) = some (value, rest) ∧ skip rest = [] := by
  simp only [decode, Option.bind_eq_bind, Option.bind_eq_some_iff]
  constructor
  · rintro ⟨⟨value', rest⟩, hscan, h⟩
    dsimp only at h
    split at h
    · next hrest =>
      cases h
      exact ⟨_, rest, hscan, hrest⟩
    · cases h
  · rintro ⟨fuel, rest, hscan, hrest⟩
    have hskip := length_skip cs
    exact ⟨(value, rest), (enough fuel).once hscan _ (by omega), if_pos hrest⟩

/-- A text that begins with a quote is that of a string. -/
theorem decode_quote {cs cs' : List Char} {value : Json} (hquote : skip cs = '"' :: cs')
    (h : decode floatText cs = some value) : ∃ s, value = .str s := by
  obtain ⟨fuel, rest, hscan, -⟩ := decode_eq_some_iff.mp h
  rw [hquote] at hscan
  cases fuel with
  | zero => cases hscan
  | succ fuel =>
      cases scanOnce_iff.mp hscan with
      | str => exact ⟨_, rfl⟩
      | constant hc => exact absurd rfl hc.1
      | number hc => exact absurd rfl hc.1

end Json
