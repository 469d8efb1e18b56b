import Web3Proxy.Lib.Json.Step
import Mathlib.Data.List.TakeWhile

/-!
# Web3Proxy.Lib.Json.Scan

What the decoder makes of a text that is written without escapes and without white
space.

* `scanString_plain` — a string of plain characters stands for itself;
* `scanOnce_int` — an integer as `str` writes it;
* `scanMembers_last`, `scanMembers_cons`, `scanOnce_obj` — an object, member by member.
-/

namespace Json

/-! ## strings -/

theorem scanChars_plain {s : List Char} (hs : ∀ c ∈ s, isPlain c = true) (rest : List Char) :
    scanChars (s ++ '"' :: rest) = some (s.map .scalar, rest) := by
  induction s with
  | nil => rw [List.nil_append, scanChars_cons (by decide), if_pos rfl, List.map_nil]
  | cons c s ih =>
      obtain ⟨hquote, hbackslash, hcontrol⟩ := isPlain_iff.mp (hs c List.mem_cons_self)
      rw [List.cons_append, scanChars_cons hbackslash, if_neg hquote, if_neg hcontrol,
        ih fun d hd => hs d (List.mem_cons_of_mem c hd)]
      rfl

theorem joinPairs_scalar_cons (c : Char) (s : PyStr) :
    joinPairs (.scalar c :: s) = .scalar c :: joinPairs s := by
  rw [joinPairs]
  intros
  simp_all

theorem joinPairs_scalars (s : List Char) :
    joinPairs (s.map .scalar) = s.map .scalar := by
  induction s with
  | nil => rfl
  | cons c s ih => rw [List.map_cons, joinPairs_scalar_cons, ih]

theorem scanString_plain {s : List Char} (hs : ∀ c ∈ s, isPlain c = true) (rest : List Char) :
    scanString (s ++ '"' :: rest) = some (s.map .scalar, rest) := by
  rw [scanString, scanChars_plain hs, Option.map_some, joinPairs_scalars]

/-! ## integers -/

/-- The text does not go on with a number. -/
def EndsNumber (rest : List Char) : Prop :=
  ∀ c ∈ rest.head?, c.isDigit = false ∧ c ≠ '.' ∧ c ≠ 'e' ∧ c ≠ 'E'

theorem head?_toDigits {n : Nat} (hn : 0 < n) : (Nat.toDigits 10 n).head? ≠ some '0' := by
  induction n using Nat.strongRecOn with
  | ind n ih =>
      rw [Nat.toDigits_eq_if (by decide)]
      split
      · next hlt =>
        simp
        omega
      · next hge =>
        have hdiv := ih (n / 10) (by omega) (by omega)
        rwa [List.head?_append_of_ne_nil _ Nat.toDigits_ne_nil]

theorem span_toDigits (n : Nat) {rest : List Char} (hrest : EndsNumber rest) :
    (Nat.toDigits 10 n ++ rest).takeWhile Char.isDigit = Nat.toDigits 10 n ∧
      (Nat.toDigits 10 n ++ rest).dropWhile Char.isDigit = rest := by
  have hdigits : ∀ c ∈ Nat.toDigits 10 n, c.isDigit = true := fun c hc =>
    Nat.isDigit_of_mem_toDigits (by decide) (by decide) hc
  rw [List.takeWhile_append_of_pos hdigits, List.dropWhile_append_of_pos hdigits]
  cases rest with
  | nil => simp
  | cons c rest =>
      have hc := (hrest c rfl).1
      simp [hc]

theorem scanDigits_toDigits (n : Nat) {rest : List Char} (hrest : EndsNumber rest) :
    scanDigits (Nat.toDigits 10 n ++ rest) = some (Nat.toDigits 10 n, rest) := by
  obtain ⟨htake, hdrop⟩ := span_toDigits n hrest
  obtain rfl | hn := Nat.eq_zero_or_pos n
  · rfl
  · unfold scanDigits
    split
    · next heq =>
      have hhead := head?_toDigits hn
      cases hd : Nat.toDigits 10 n with
      | nil => exact absurd hd Nat.toDigits_ne_nil
      | cons d ds =>
          rw [hd] at heq hhead
          cases heq
          exact absurd rfl hhead
    · rw [htake, hdrop]
      exact if_neg Nat.toDigits_ne_nil

theorem scanDigits_eq {cs rest digits : List Char} (h : scanDigits cs = some (digits, rest)) :
    cs = digits ++ rest ∧ digits ≠ [] ∧ ∀ c ∈ digits, c.isDigit = true := by
  unfold scanDigits at h
  split at h
  · cases h
    simp
  · simp only at h
    split at h
    · cases h
    · next hne =>
      cases h
      exact ⟨(List.takeWhile_append_dropWhile).symm, hne, fun c hc => List.mem_takeWhile_imp hc⟩

theorem scanFraction_end {rest : List Char} (hrest : EndsNumber rest) :
    scanFraction rest = ([], rest) := by
  unfold scanFraction
  split
  · exact absurd rfl (hrest '.' rfl).2.1
  · rfl

theorem scanExponent_end {rest : List Char} (hrest : EndsNumber rest) :
    scanExponent rest = ([], rest) := by
  unfold scanExponent
  split
  · next e rest =>
    have he := (hrest e rfl).2.2
    rw [if_neg (by simp [he.1, he.2])]
  · rfl

variable (floatText : String → String)

theorem toList_toString (i : Int) :
    (toString i).toList = (if i < 0 then ['-'] else []) ++ Nat.toDigits 10 i.natAbs := by
  rw [Int.toString_eq_repr, Int.repr_eq_if]
  split
  · next h =>
    have habs : i.toNat = i.natAbs := by omega
    rw [Nat.toList_repr, habs, if_neg (by omega), List.nil_append]
  · next h =>
    have habs : (-i).toNat = i.natAbs := by omega
    rw [String.toList_append, Nat.toList_repr, habs, if_pos (by omega)]
    rfl

theorem head?_toDigits_isDigit (n : Nat) (rest : List Char) :
    ∃ d, (Nat.toDigits 10 n ++ rest).head? = some d ∧ d.isDigit = true := by
  cases hd : Nat.toDigits 10 n with
  | nil => exact absurd hd Nat.toDigits_ne_nil
  | cons d ds =>
      have hmem : d ∈ Nat.toDigits 10 n := hd ▸ List.mem_cons_self
      exact ⟨d, rfl, Nat.isDigit_of_mem_toDigits (by decide) (by decide) hmem⟩

theorem scanNumber_toString (i : Int) {rest : List Char} (hrest : EndsNumber rest) :
    scanNumber floatText ((toString i).toList ++ rest) = some (.int i, rest) := by
  have hdigits := scanDigits_toDigits i.natAbs hrest
  rw [toList_toString]
  unfold scanNumber
  by_cases hi : i < 0
  · rw [if_pos hi]
    have hdrop : (['-'] ++ Nat.toDigits 10 i.natAbs ++ rest).drop 1 =
        Nat.toDigits 10 i.natAbs ++ rest := rfl
    simp only [List.cons_append, List.head?_cons, if_pos, List.length_singleton] at hdrop ⊢
    rw [hdrop, hdigits]
    have habs : -((i.natAbs : Nat) : Int) = i := by omega
    generalize i.natAbs = n at habs ⊢
    simp [scanFraction_end hrest, scanExponent_end hrest, Nat.ofDigitChars_ten_toDigits, habs]
  · rw [if_neg hi, List.nil_append]
    have hhead : (Nat.toDigits 10 i.natAbs ++ rest).head? ≠ some '-' := by
      obtain ⟨d, hd, hdigit⟩ := head?_toDigits_isDigit i.natAbs rest
      rw [hd]
      exact fun heq => absurd hdigit (by rw [Option.some.inj heq]; decide)
    simp only [if_neg hhead, List.length_nil, List.drop_zero]
    rw [hdigits]
    have habs : ((i.natAbs : Nat) : Int) = i := by omega
    generalize i.natAbs = n at habs ⊢
    simp [scanFraction_end hrest, scanExponent_end hrest, Nat.ofDigitChars_ten_toDigits, habs]

theorem ne_of_isDigit {c d : Char} (hc : c.isDigit = true) (hd : d.isDigit = false) : c ≠ d := by
  rintro rfl
  rw [hc] at hd
  cases hd

/-- No constant begins with a digit, or with a digit after a minus sign. -/
theorem constants_not_digit {d : Char} (hd : d.isDigit = true) (ds : List Char) :
    ∀ c ∈ constants, c.1.toList.isPrefixOf (d :: ds) = false ∧
      c.1.toList.isPrefixOf ('-' :: d :: ds) = false := by
  have hne (x : Char) (hx : x.isDigit = false) : x ≠ d := (ne_of_isDigit hd hx).symm
  simp only [constants, List.forall_mem_cons]
  simp [List.isPrefixOf, hne 'n' rfl, hne 't' rfl, hne 'f' rfl, hne 'N' rfl, hne 'I' rfl,
    hne '-' rfl]

theorem scanConstant_toString (i : Int) (rest : List Char) :
    scanConstant ((toString i).toList ++ rest) = none := by
  obtain ⟨d, hd, hdigit⟩ := head?_toDigits_isDigit i.natAbs rest
  rw [scanConstant, Option.map_eq_none_iff, List.find?_eq_none, toList_toString, List.append_assoc]
  obtain ⟨ds, hds⟩ := List.head?_eq_some_iff.mp hd
  rw [hds]
  intro c hc
  have hnot := constants_not_digit hdigit ds c hc
  split
  · exact Bool.eq_false_iff.mp hnot.2
  · exact Bool.eq_false_iff.mp hnot.1

/-! ## values -/

variable {fuel : Nat} {cs rest : List Char}

/-- A value that is neither a string nor a collection. -/
theorem scanOnce_other {c : Char} (hc : c ≠ '"' ∧ c ≠ '\x7b' ∧ c ≠ '[') :
    scanOnce floatText (fuel + 1) (c :: cs) =
      (scanConstant (c :: cs)).or (scanNumber floatText (c :: cs)) := by
  rw [scanOnce, if_neg hc.1, if_neg hc.2.1, if_neg hc.2.2]

theorem head_toString (i : Int) (rest : List Char) :
    ∃ c ds, (toString i).toList ++ rest = c :: ds ∧ (c = '-' ∨ c.isDigit = true) := by
  obtain ⟨d, hd, hdigit⟩ := head?_toDigits_isDigit i.natAbs rest
  obtain ⟨ds, hds⟩ := List.head?_eq_some_iff.mp hd
  rw [toList_toString, List.append_assoc, hds]
  split
  · exact ⟨'-', d :: ds, rfl, Or.inl rfl⟩
  · exact ⟨d, ds, rfl, Or.inr hdigit⟩

theorem scanOnce_int (i : Int) (hrest : EndsNumber rest) :
    scanOnce floatText (fuel + 1) ((toString i).toList ++ rest) = some (.int i, rest) := by
  obtain ⟨c, ds, heq, hc⟩ := head_toString i rest
  have hother : c ≠ '"' ∧ c ≠ '\x7b' ∧ c ≠ '[' := by
    refine ⟨?_, ?_, ?_⟩ <;> rintro rfl <;> exact absurd hc (by decide)
  have hconstant := scanConstant_toString i rest
  have hnumber := scanNumber_toString floatText i hrest
  rw [heq] at hconstant hnumber ⊢
  rw [scanOnce_other floatText hother, hconstant, hnumber]
  rfl

theorem scanOnce_null : scanOnce floatText (fuel + 1) ("null".toList ++ rest) = some (.null, rest) := by
  show scanOnce floatText (fuel + 1) ('n' :: 'u' :: 'l' :: 'l' :: rest) = _
  rw [scanOnce_other floatText (by decide)]
  rfl

theorem scanOnce_str {s : List Char} (hs : ∀ c ∈ s, isPlain c = true) :
    scanOnce floatText (fuel + 1) ('"' :: (s ++ '"' :: rest)) = some (.str (s.map .scalar), rest) := by
  rw [scanOnce, if_pos rfl, scanString_plain hs]
  rfl

/-- The text begins with something else than white space. -/
def Starts (cs : List Char) : Prop := ∃ c rest, cs = c :: rest ∧ isWhitespace c = false

theorem starts_toString (i : Int) (rest : List Char) : Starts ((toString i).toList ++ rest) := by
  obtain ⟨c, ds, heq, hc⟩ := head_toString i rest
  refine ⟨c, ds, heq, ?_⟩
  obtain rfl | hdigit := hc
  · rfl
  · simp [isWhitespace, ne_of_isDigit (d := ' ') hdigit rfl, ne_of_isDigit (d := '\t') hdigit rfl,
      ne_of_isDigit (d := '\n') hdigit rfl, ne_of_isDigit (d := '\r') hdigit rfl]

theorem Starts.skip (h : Starts cs) : skip cs = cs := by
  obtain ⟨c, rest, rfl, hc⟩ := h
  simp [Json.skip, hc]

theorem skip_cons {c : Char} (hc : isWhitespace c = false) (cs : List Char) :
    skip (c :: cs) = c :: cs := Starts.skip ⟨c, cs, rfl, hc⟩

/-- The last member of an object. -/
theorem scanMembers_last {key text : List Char} {value : Json}
    (hkey : ∀ c ∈ key, isPlain c = true) (htext : Starts text)
    (hvalue : scanOnce floatText fuel text = some (value, '\x7d' :: rest)) :
    scanMembers floatText (fuel + 1) ('"' :: (key ++ '"' :: ':' :: text)) =
      some ([(key.map .scalar, value)], rest) := by
  rw [scanMembers]
  simp only [expect, List.head?_cons, if_pos, List.tail_cons, Option.bind_eq_bind,
    Option.bind_some, scanString_plain hkey]
  rw [skip_cons (c := ':') rfl]
  simp only [List.head?_cons, if_pos, List.tail_cons, Option.bind_some, htext.skip, hvalue]
  rfl

/-- A member that others follow. -/
theorem scanMembers_cons {key text more : List Char} {value : Json}
    (hkey : ∀ c ∈ key, isPlain c = true) (htext : Starts text)
    (hvalue : scanOnce floatText fuel text = some (value, ',' :: more)) (hmore : Starts more) :
    scanMembers floatText (fuel + 1) ('"' :: (key ++ '"' :: ':' :: text)) =
      (scanMembers floatText fuel more).map fun r => ((key.map .scalar, value) :: r.1, r.2) := by
  rw [scanMembers]
  simp only [expect, List.head?_cons, if_pos, List.tail_cons, Option.bind_eq_bind,
    Option.bind_some, scanString_plain hkey]
  rw [skip_cons (c := ':') rfl]
  simp only [List.head?_cons, if_pos, List.tail_cons, Option.bind_some, htext.skip, hvalue]
  rw [skip_cons (c := ',') rfl]
  simp only [List.head?_cons, if_pos, List.tail_cons, Option.bind_some, hmore.skip]
  cases scanMembers floatText fuel more with
  | none => rfl
  | some r => rfl

/-- An object with members. -/
theorem scanOnce_obj : scanOnce floatText (fuel + 1) ('\x7b' :: '"' :: cs) =
    (scanMembers floatText fuel ('"' :: cs)).map fun r => (.obj (dict r.1), r.2) := by
  rw [scanOnce, if_neg (by decide), if_pos rfl, skip_cons (c := '"') rfl]
  rfl

end Json
