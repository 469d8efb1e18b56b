import Web3Proxy.Lib.Json

/-!
# Web3Proxy.Lib.Json.Step

What the decoder does, case by case.

* `scanChars_iff` — a string is read along its derivation in `Chars`;
* `scanOnce_iff`, `scanMembers_iff`, `scanItems_iff` — one call of the scanners;
  inductions on the fuel go over these cases.
-/

namespace Json

/-! ## strings -/

/-- The character stands for itself in a string. -/
def isPlain (c : Char) : Bool := c ≠ '"' && c ≠ '\\' && ' ' ≤ c

theorem isPlain_iff {c : Char} : isPlain c = true ↔ c ≠ '"' ∧ c ≠ '\\' ∧ ¬ c < ' ' := by
  simp [isPlain, and_assoc]

theorem isPlain_of_isDigit {c : Char} (hc : c.isDigit = true) : isPlain c = true := by
  rw [isPlain_iff]
  refine ⟨?_, ?_, fun hlt => ?_⟩
  · rintro rfl
    cases hc
  · rintro rfl
    cases hc
  · simp only [Char.isDigit, Bool.and_eq_true, decide_eq_true_eq] at hc
    have hcode : c.val < 32 := hlt
    exact absurd (UInt32.le_trans hc.1 (UInt32.le_of_lt hcode)) (by decide)

theorem scanChars_cons {c : Char} (h : c ≠ '\\') (cs : List Char) :
    scanChars (c :: cs) = if c = '"' then some ([], cs)
      else if c < ' ' then none else (scanChars cs).map fun r => (.scalar c :: r.1, r.2) := by
  rw [scanChars]
  · intros; simp_all
  · intros; simp_all

/-- What may stand behind a backslash, and what it stands for. -/
inductive Escape : List Char → CodePoint → Prop where
  | short {c char} (hc : backslash.lookup c = some char) : Escape [c] (.scalar char)
  | unicode {a b c d unit} (hunit : codeUnit a b c d = some unit) : Escape ['u', a, b, c, d] unit

/-- The characters of a string and its closing quote. -/
inductive Chars : List Char → PyStr → List Char → Prop where
  | close {rest} : Chars ('"' :: rest) [] rest
  | plain {c cs s rest} (hc : isPlain c = true) (hcs : Chars cs s rest) :
      Chars (c :: cs) (.scalar c :: s) rest
  | escape {e unit cs s rest} (he : Escape e unit) (hcs : Chars cs s rest) :
      Chars ('\\' :: (e ++ cs)) (unit :: s) rest

theorem scanChars_iff {cs rest : List Char} {s : PyStr} :
    scanChars cs = some (s, rest) ↔ Chars cs s rest := by
  constructor
  · intro h
    fun_induction scanChars cs generalizing s rest with
    | case1 a b c d cs ih =>
        simp only [Option.bind_eq_bind, Option.bind_eq_some_iff] at h
        obtain ⟨unit, hunit, ⟨s', rest'⟩, hscan, h⟩ := h
        cases h
        exact .escape (.unicode hunit) (ih hscan)
    | case2 c cs hu ih =>
        simp only [Option.bind_eq_bind, Option.bind_eq_some_iff] at h
        obtain ⟨char, hchar, ⟨s', rest'⟩, hscan, h⟩ := h
        cases h
        exact .escape (.short hchar) (ih hscan)
    | case3 cs =>
        cases h
        exact .close
    | case4 => cases h
    | case5 c cs hu hbackslash hquote hcontrol ih =>
        obtain ⟨⟨s', rest'⟩, hscan, h⟩ := Option.map_eq_some_iff.mp h
        cases h
        by_cases hc : c = '\\'
        · -- a backslash at the end of the text
          cases cs with
          | nil => cases hscan
          | cons d cs => exact absurd rfl (hbackslash d cs hc)
        · exact .plain (isPlain_iff.mpr ⟨hquote, hc, hcontrol⟩) (ih hscan)
    | case6 => cases h
  · intro h
    induction h with
    | close => rfl
    | plain hc hcs ih =>
        obtain ⟨hquote, hbackslash, hcontrol⟩ := isPlain_iff.mp hc
        rw [scanChars_cons hbackslash, if_neg hquote, if_neg hcontrol, ih]
        rfl
    | escape he hcs ih =>
        cases he with
        | @short c char hc =>
            rw [List.cons_append, List.nil_append, scanChars]
            · simp [hc, ih]
            · rintro _ _ _ _ _ rfl
              cases hc
        | unicode hunit => simp [scanChars, hunit, ih]

/-! ## values -/

variable (floatText : String → String) (fuel : Nat)

/-- A call of `scanOnce`, the calls that it makes, and what it returns. -/
inductive OnceStep : List Char → Json → List Char → Prop where
  | str {cs s rest} (hstring : scanString cs = some (s, rest)) : OnceStep ('"' :: cs) (.str s) rest
  | emptyObj {cs rest} (hclose : expect '\x7d' (skip cs) = some rest) :
      OnceStep ('\x7b' :: cs) (.obj []) rest
  | obj {cs members rest} (hopen : expect '\x7d' (skip cs) = none)
      (hmembers : scanMembers floatText fuel (skip cs) = some (members, rest)) :
      OnceStep ('\x7b' :: cs) (.obj (dict members)) rest
  | emptyArr {cs rest} (hclose : expect ']' (skip cs) = some rest) :
      OnceStep ('[' :: cs) (.arr []) rest
  | arr {cs items rest} (hopen : expect ']' (skip cs) = none)
      (hitems : scanItems floatText fuel (skip cs) = some (items, rest)) :
      OnceStep ('[' :: cs) (.arr items) rest
  | constant {c cs value rest} (hc : c ≠ '"' ∧ c ≠ '\x7b' ∧ c ≠ '[')
      (hconstant : scanConstant (c :: cs) = some (value, rest)) : OnceStep (c :: cs) value rest
  | number {c cs value rest} (hc : c ≠ '"' ∧ c ≠ '\x7b' ∧ c ≠ '[')
      (hconstant : scanConstant (c :: cs) = none)
      (hnumber : scanNumber floatText (c :: cs) = some (value, rest)) :
      OnceStep (c :: cs) value rest

/-- A call of `scanMembers`. -/
inductive MembersStep : List Char → List (PyStr × Json) → List Char → Prop where
  | last {cs cs₁ cs₂ cs₃ cs₄ rest key value} (hquote : expect '"' cs = some cs₁)
      (hkey : scanString cs₁ = some (key, cs₂)) (hcolon : expect ':' (skip cs₂) = some cs₃)
      (hvalue : scanOnce floatText fuel (skip cs₃) = some (value, cs₄))
      (hclose : expect '\x7d' (skip cs₄) = some rest) : MembersStep cs [(key, value)] rest
  | more {cs cs₁ cs₂ cs₃ cs₄ cs₅ rest key value members} (hquote : expect '"' cs = some cs₁)
      (hkey : scanString cs₁ = some (key, cs₂)) (hcolon : expect ':' (skip cs₂) = some cs₃)
      (hvalue : scanOnce floatText fuel (skip cs₃) = some (value, cs₄))
      (hopen : expect '\x7d' (skip cs₄) = none) (hcomma : expect ',' (skip cs₄) = some cs₅)
      (hmore : scanMembers floatText fuel (skip cs₅) = some (members, rest)) :
      MembersStep cs ((key, value) :: members) rest

/-- A call of `scanItems`. -/
inductive ItemsStep : List Char → List Json → List Char → Prop where
  | last {cs cs₁ rest value} (hvalue : scanOnce floatText fuel cs = some (value, cs₁))
      (hclose : expect ']' (skip cs₁) = some rest) : ItemsStep cs [value] rest
  | more {cs cs₁ cs₂ rest value items} (hvalue : scanOnce floatText fuel cs = some (value, cs₁))
      (hopen : expect ']' (skip cs₁) = none) (hcomma : expect ',' (skip cs₁) = some cs₂)
      (hmore : scanItems floatText fuel (skip cs₂) = some (items, rest)) :
      ItemsStep cs (value :: items) rest

variable {floatText fuel} {cs rest : List Char}

theorem scanOnce_iff {value : Json} : scanOnce floatText (fuel + 1) cs = some (value, rest) ↔
    OnceStep floatText fuel cs value rest := by
  constructor
  · intro h
    cases cs with
    | nil => cases h
    | cons c cs =>
        unfold scanOnce at h
        split at h
        · next hc =>
          obtain ⟨⟨s, rest'⟩, hs, heq⟩ := Option.map_eq_some_iff.mp h
          cases heq
          exact hc ▸ .str hs
        · next hquote =>
          split at h
          · next hc =>
            split at h
            · next rest' hclose =>
              cases h
              exact hc ▸ .emptyObj hclose
            · next hopen =>
              obtain ⟨⟨members, rest'⟩, hmembers, heq⟩ := Option.map_eq_some_iff.mp h
              cases heq
              exact hc ▸ .obj hopen hmembers
          · next hbrace =>
            split at h
            · next hc =>
              split at h
              · next rest' hclose =>
                cases h
                exact hc ▸ .emptyArr hclose
              · next hopen =>
                obtain ⟨⟨items, rest'⟩, hitems, heq⟩ := Option.map_eq_some_iff.mp h
                cases heq
                exact hc ▸ .arr hopen hitems
            · next hbracket =>
              rw [Option.or_eq_some_iff] at h
              obtain hconstant | ⟨hconstant, hnumber⟩ := h
              · exact .constant ⟨hquote, hbrace, hbracket⟩ hconstant
              · exact .number ⟨hquote, hbrace, hbracket⟩ hconstant hnumber
  · intro h
    cases h with
    | str hstring => rw [scanOnce, if_pos rfl, hstring]; rfl
    | emptyObj hclose => rw [scanOnce, if_neg (by decide), if_pos rfl, hclose]
    | obj hopen hmembers =>
        rw [scanOnce, if_neg (by decide), if_pos rfl, hopen, hmembers]
        rfl
    | emptyArr hclose =>
        rw [scanOnce, if_neg (by decide), if_neg (by decide), if_pos rfl, hclose]
    | arr hopen hitems =>
        rw [scanOnce, if_neg (by decide), if_neg (by decide), if_pos rfl, hopen, hitems]
        rfl
    | constant hc hconstant =>
        rw [scanOnce, if_neg hc.1, if_neg hc.2.1, if_neg hc.2.2, hconstant]
        rfl
    | number hc hconstant hnumber =>
        rw [scanOnce, if_neg hc.1, if_neg hc.2.1, if_neg hc.2.2, hconstant, hnumber]
        rfl

theorem scanMembers_iff {members : List (PyStr × Json)} :
    scanMembers floatText (fuel + 1) cs = some (members, rest) ↔
      MembersStep floatText fuel cs members rest := by
  constructor
  · intro h
    simp only [scanMembers, Option.bind_eq_bind, Option.bind_eq_some_iff] at h
    obtain ⟨cs₁, hquote, ⟨key, cs₂⟩, hkey, cs₃, hcolon, ⟨value, cs₄⟩, hvalue, h⟩ := h
    dsimp only at h
    split at h
    · next hclose =>
      cases h
      exact .last hquote hkey hcolon hvalue hclose
    · next hopen =>
      simp only [Option.bind_eq_some_iff] at h
      obtain ⟨cs₅, hcomma, ⟨more, rest'⟩, hmore, heq⟩ := h
      cases heq
      exact .more hquote hkey hcolon hvalue hopen hcomma hmore
  · intro h
    cases h with
    | last hquote hkey hcolon hvalue hclose =>
        simp [scanMembers, hquote, hkey, hcolon, hvalue, hclose]
    | more hquote hkey hcolon hvalue hopen hcomma hmore =>
        simp [scanMembers, hquote, hkey, hcolon, hvalue, hopen, hcomma, hmore]

theorem scanItems_iff {items : List Json} :
    scanItems floatText (fuel + 1) cs = some (items, rest) ↔
      ItemsStep floatText fuel cs items rest := by
  constructor
  · intro h
    simp only [scanItems, Option.bind_eq_bind, Option.bind_eq_some_iff] at h
    obtain ⟨⟨value, cs₁⟩, hvalue, h⟩ := h
    dsimp only at h
    split at h
    · next hclose =>
      cases h
      exact .last hvalue hclose
    · next hopen =>
      simp only [Option.bind_eq_some_iff] at h
      obtain ⟨cs₂, hcomma, ⟨more, rest'⟩, hmore, heq⟩ := h
      cases heq
      exact .more hvalue hopen hcomma hmore
  · intro h
    cases h with
    | last hvalue hclose => simp [scanItems, hvalue, hclose]
    | more hvalue hopen hcomma hmore => simp [scanItems, hvalue, hopen, hcomma, hmore]

end Json
