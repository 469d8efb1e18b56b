import Web3Proxy.Lib.Bytes

/-!
# Web3Proxy.Lib.PyStr

The strings of Python: lists of code points, among them lone surrogates, which no
`String` holds and UTF-8 does not encode.
-/

/-- A code point: a Unicode scalar value or a surrogate, counted from U+D800. -/
inductive CodePoint where
  | scalar (c : Char)
  | surrogate (n : Fin 2048)
deriving DecidableEq, Repr

/-- A `str`. -/
abbrev PyStr := List CodePoint

/-- Decided along the list, and not over all characters. -/
instance decidableForallMemChar (cs : List Char) (p : Char → Prop) [DecidablePred p] :
    Decidable (∀ c ∈ cs, p c) :=
  List.decidableBAll p cs

namespace CodePoint

/-- The code point is no surrogate. -/
def isScalar : CodePoint → Bool
  | scalar _ => true
  | surrogate _ => false

/-- The UTF-8 encoding, with `?` for a surrogate, as with `errors="replace"`. -/
def utf8 : CodePoint → Bytes
  | scalar c => String.utf8EncodeChar c
  | surrogate _ => [63]

/-- The character, if it is one. -/
def char? : CodePoint → Option Char
  | scalar c => some c
  | surrogate _ => none

end CodePoint

namespace PyStr

/-- A string without surrogates. -/
def ofString (s : String) : PyStr := s.toList.map .scalar

/-- The string without its surrogates. -/
def asString (s : PyStr) : String := String.ofList (s.filterMap CodePoint.char?)

/-- `s.encode("utf-8")` raises nothing. -/
def isEncodable (s : PyStr) : Bool := s.all CodePoint.isScalar

/-- `s.encode("utf-8")`, if this raises nothing. -/
def utf8 (s : PyStr) : Bytes := s.flatMap CodePoint.utf8

@[simp] theorem ofString_append (s t : String) :
    ofString (s ++ t) = ofString s ++ ofString t := by simp [ofString]

@[simp] theorem asString_ofString (s : String) : (ofString s).asString = s := by
  have hchars : (s.toList.map CodePoint.scalar).filterMap CodePoint.char? = s.toList := by
    rw [List.filterMap_map]
    exact List.filterMap_some
  rw [ofString, asString, hchars, String.ofList_toList]

theorem ofString_injective {s t : String} (h : ofString s = ofString t) : s = t := by
  rw [← asString_ofString s, h, asString_ofString]

theorem isEncodable_ofString (s : String) : (ofString s).isEncodable = true := by
  simp [ofString, isEncodable, CodePoint.isScalar]

@[simp] theorem isEncodable_append (s t : PyStr) :
    isEncodable (s ++ t) = (s.isEncodable && t.isEncodable) := List.all_append

/-- A string that can be encoded is one without surrogates. -/
theorem ofString_asString {s : PyStr} (h : s.isEncodable = true) : ofString s.asString = s := by
  induction s with
  | nil => rfl
  | cons c s ih =>
      rw [isEncodable, List.all_cons, Bool.and_eq_true] at h
      cases c with
      | scalar c =>
          have hs : (s.filterMap CodePoint.char?).map CodePoint.scalar = s := by
            simpa [ofString, asString] using ih h.2
          simp [ofString, asString, CodePoint.char?, hs]
      | surrogate n => cases h.1

theorem isEncodable_iff {s : PyStr} :
    s.isEncodable = true ↔ ∃ cs : List Char, s = cs.map .scalar := by
  constructor
  · intro h
    exact ⟨s.asString.toList, (ofString_asString h).symm⟩
  · rintro ⟨cs, rfl⟩
    simp [isEncodable, CodePoint.isScalar]

theorem map_scalar_injective {cs ds : List Char}
    (h : cs.map CodePoint.scalar = ds.map CodePoint.scalar) : cs = ds :=
  List.map_injective_iff.mpr (fun _ _ heq => CodePoint.scalar.inj heq) h

@[simp] theorem utf8_append (s t : PyStr) : utf8 (s ++ t) = utf8 s ++ utf8 t :=
  List.flatMap_append

@[simp] theorem utf8_ofString (s : String) : utf8 (ofString s) = Bytes.str s := by
  rw [ofString, utf8, List.flatMap_map]
  exact (Bytes.str_eq_flatMap s).symm

/-! ## white space -/

/-- `c.isspace()`. -/
def isSpace (c : Char) : Bool :=
  ('\t' ≤ c && c ≤ '\r') || ('\x1c' ≤ c && c ≤ ' ') || c = '\x85' || c = '\u00a0' ||
    c = '\u1680' || ('\u2000' ≤ c && c ≤ '\u200a') || c = '\u2028' || c = '\u2029' ||
      c = '\u202f' || c = '\u205f' || c = '\u3000'

/-- `s.strip()`. -/
def strip (cs : List Char) : List Char :=
  ((cs.dropWhile isSpace).reverse.dropWhile isSpace).reverse

section Trim

variable {α : Type} {p : α → Bool}

/-- The text without what `p` allows at its beginning. -/
theorem dropWhile_eq_iff {cs rest : List α} :
    cs.dropWhile p = rest ↔
      ∃ left, cs = left ++ rest ∧ (∀ c ∈ left, p c = true) ∧ ∀ c ∈ rest.head?, p c = false := by
  constructor
  · rintro rfl
    refine ⟨cs.takeWhile p, List.takeWhile_append_dropWhile.symm,
      fun c hc => List.mem_takeWhile_imp hc, fun c hc => ?_⟩
    have hhead := List.head?_dropWhile_not p cs
    rw [hc] at hhead
    simpa using hhead
  · rintro ⟨left, rfl, hleft, hrest⟩
    rw [List.dropWhile_append_of_pos hleft]
    cases rest with
    | nil => rfl
    | cons c rest => rw [List.dropWhile_cons, hrest c rfl]; rfl

/-- The text without what `p` allows at both ends. -/
theorem trim_eq_iff {cs word : List α} :
    ((cs.dropWhile p).reverse.dropWhile p).reverse = word ↔
      ∃ left right, cs = left ++ (word ++ right) ∧ (∀ c ∈ left, p c = true) ∧
        (∀ c ∈ right, p c = true) ∧ (∀ c ∈ word.head?, p c = false) ∧
          ∀ c ∈ word.getLast?, p c = false := by
  rw [List.reverse_eq_iff, dropWhile_eq_iff]
  constructor
  · rintro ⟨right, hright, hspace, hlast⟩
    rw [List.reverse_eq_iff, List.reverse_append, List.reverse_reverse] at hright
    obtain ⟨left, hcs, hleft, hhead⟩ := dropWhile_eq_iff.mp hright
    refine ⟨left, right.reverse, hcs, hleft, fun c hc => hspace c (List.mem_reverse.mp hc),
      fun c hc => hhead c ?_, by rwa [List.head?_reverse] at hlast⟩
    cases word with
    | nil => cases hc
    | cons d word => exact hc
  · rintro ⟨left, right, rfl, hleft, hright, hhead, hlast⟩
    cases word with
    | nil =>
        refine ⟨[], ?_, by simp, by simp⟩
        rw [List.nil_append, List.dropWhile_append_of_pos hleft,
          List.dropWhile_eq_nil_iff.mpr hright]
        rfl
    | cons d word =>
        have hdrop : (left ++ (d :: word ++ right)).dropWhile p = d :: word ++ right := by
          rw [List.dropWhile_append_of_pos hleft, List.cons_append, List.dropWhile_cons, hhead d rfl]
          rfl
        rw [hdrop, List.reverse_append]
        exact ⟨right.reverse, rfl, fun c hc => hright c (List.mem_reverse.mp hc), by
          rwa [List.head?_reverse]⟩

/-- A word is found in a text wherever it stands between what `p` allows. -/
theorem infix_append_iff {needle left word right : List α} (hneedle : ∀ c ∈ needle, p c = false)
    (hne : needle ≠ []) (hleft : ∀ c ∈ left, p c = true) (hright : ∀ c ∈ right, p c = true) :
    needle <:+: left ++ (word ++ right) ↔ needle <:+: word := by
  have hdrop {ns : List α} (hns : ∀ c ∈ ns, p c = false) (hne : ns ≠ []) {blank text : List α}
      (hblank : ∀ c ∈ blank, p c = true) : ns <:+: blank ++ text ↔ ns <:+: text := by
    induction blank with
    | nil => rfl
    | cons c blank ih =>
        rw [List.cons_append, List.infix_cons_iff, ih fun d hd => hblank d (List.mem_cons_of_mem c hd),
          or_iff_right]
        intro hprefix
        obtain ⟨d, ns, rfl⟩ := List.exists_cons_of_ne_nil hne
        have hd := hns d List.mem_cons_self
        rw [(List.cons_prefix_cons.mp hprefix).1, hblank c List.mem_cons_self] at hd
        cases hd
  rw [hdrop hneedle hne hleft, ← List.reverse_infix, List.reverse_append,
    hdrop (by simpa using hneedle) (by simpa using hne) (by simpa using hright), List.reverse_infix]

end Trim

end PyStr
